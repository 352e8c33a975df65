import AsapPlanner.Physical.Dag

/-!
What a DAG that passes validation is: an acyclic graph of nodes with distinct ids, all read by its
roots, whose edges are exactly its operators' inputs.
-/

namespace AsapPlanner.Physical
open Rust Traversal Ir

/-! ### Edge roles -/

section Roles
variable {C : Type} [DecidableEq C]

theorem mem_addScalarRefs {producers : List C} {edges : List (C × EdgeRole)} {c : C} :
    (∃ role, (c, role) ∈ producers.foldl addScalarRef edges) ↔
      (∃ role, (c, role) ∈ edges) ∨ c ∈ producers := by
  induction producers generalizing edges with
  | nil => simp
  | cons producer producers ih =>
    rw [List.foldl_cons, ih]
    have here : (∃ role, (c, role) ∈ addScalarRef edges producer) ↔
        (∃ role, (c, role) ∈ edges) ∨ c = producer := by
      unfold addScalarRef
      split
      · rename_i known
        constructor
        · exact .inl
        · rintro (held | same)
          · exact held
          · exact ⟨.scalarRef, same ▸ known⟩
      · constructor
        · rintro ⟨role, member⟩
          rcases List.mem_append.mp member with held | last
          · exact .inl ⟨role, held⟩
          · exact .inr (Prod.mk.inj (List.mem_singleton.mp last)).1
        · rintro (⟨role, held⟩ | same)
          · exact ⟨role, List.mem_append_left _ held⟩
          · exact ⟨.scalarRef, List.mem_append_right _ (by rw [same]; exact List.mem_singleton_self _)⟩
    rw [here, List.mem_cons, or_assoc]

theorem mem_edgeRoles {operator : Operator C} {c : C} :
    (∃ role, (c, role) ∈ edgeRoles operator) ↔ c ∈ operator.children := by
  unfold edgeRoles
  dsimp only
  have direct : (∃ role, (c, role) ∈
      (operator.children.take (inputRoles operator).length).zip (inputRoles operator)) ↔
      c ∈ operator.children.take (inputRoles operator).length := by
    have lengths : (operator.children.take (inputRoles operator).length).length ≤
        (inputRoles operator).length := by
      rw [List.length_take]
      exact Nat.min_le_left _ _
    constructor
    · rintro ⟨role, member⟩
      exact (List.of_mem_zip member).1
    · intro member
      have firsts := List.map_fst_zip lengths
      rw [← firsts] at member
      obtain ⟨⟨child, role⟩, paired, same⟩ := List.mem_map.mp member
      exact ⟨role, same ▸ paired⟩
  rw [mem_addScalarRefs, direct, ← List.mem_append, List.take_append_drop]

end Roles

/-! ### Accepted DAGs -/

namespace PhysicalASAPDAG

def incoming (edges : List PhysicalASAPDAGEdge) (id : NodeId) : List (NodeId × EdgeRole) :=
  (edges.filter (·.consumer == id)).map fun edge => (edge.producer, edge.role)

structure Accepted (dag : PhysicalASAPDAG) : Prop where
  ids : dag.ids.Nodup
  queries : dag.roots ≠ [] ∨ dag.scalarRoots ≠ []
  positions : (dag.scalarRoots.map (·.1)).Pairwise (· < ·)
  inside : ∀ root ∈ dag.scalarRoots, root.1 < dag.roots.length + dag.scalarRoots.length
  roots : ∀ root ∈ dag.rootIds, root ∈ dag.ids
  endpoints : ∀ edge ∈ dag.edges, edge.producer ∈ dag.ids ∧ edge.consumer ∈ dag.ids
  inputs : ∀ node ∈ dag.nodes, (incoming dag.edges node.id).Perm (edgeRoles node.payload)
  grounded : ∀ id ∈ dag.ids, dag.graph.Grounded id
  reached : ∀ id ∈ dag.ids, ∃ root ∈ dag.rootIds, dag.graph.Reaches root id

variable {dag : PhysicalASAPDAG}

theorem byId_some {id : NodeId} {node : PhysicalASAPDAGNode} (found : dag.byId id = some node) :
    node ∈ dag.nodes ∧ node.id = id := by
  have same := List.find?_some found
  exact ⟨List.mem_of_find?_eq_some found, by simpa using same⟩

theorem byId_node (distinct : dag.ids.Nodup) {node : PhysicalASAPDAGNode} (member : node ∈ dag.nodes) :
    dag.byId node.id = some node := by
  unfold byId
  unfold ids at distinct
  generalize dag.nodes = nodes at distinct member ⊢
  induction nodes with
  | nil => cases member
  | cons first rest ih =>
    rw [List.map_cons, List.nodup_cons] at distinct
    rcases List.mem_cons.mp member with same | later
    · rw [same, List.find?_cons_of_pos]
      exact beq_self_eq_true _
    · rw [List.find?_cons_of_neg, ih distinct.2 later]
      intro twin
      exact distinct.1 (eq_of_beq twin ▸ List.mem_map_of_mem later)

theorem mem_ids {id : NodeId} : id ∈ dag.ids ↔ ∃ node, dag.byId id = some node := by
  unfold ids byId
  rw [← Option.isSome_iff_exists, List.find?_isSome, List.mem_map]
  simp

theorem checkNodes_ok (fine : dag.checkNodes = .ok ()) : dag.ids.Nodup := by
  obtain ⟨seen, run, _⟩ := bind_eq_ok fine
  have fold : ∀ (nodes : List PhysicalASAPDAGNode) (before after : List NodeId), before.Nodup →
      nodes.foldlM (fun seen node => do
        if node.id ∈ seen then throw (.duplicateNodeId node.id)
        checkNode node
        pure (node.id :: seen)) before = Except.ok after →
      (nodes.map (·.id)).Nodup ∧ ∀ node ∈ nodes, node.id ∉ before := by
    intro nodes
    induction nodes with
    | nil => exact fun _ _ _ _ => ⟨List.nodup_nil, fun node member => (nomatch member)⟩
    | cons node nodes ih =>
      intro before after distinct run
      rw [List.foldlM_cons] at run
      obtain ⟨mid, step, run⟩ := bind_eq_ok run
      have fresh : node.id ∉ before ∧ mid = node.id :: before := by
        split at step
        · cases step
        · rename_i unseen
          obtain ⟨_, _, step⟩ := bind_eq_ok step
          cases step
          exact ⟨unseen, rfl⟩
      obtain ⟨unseen, same⟩ := fresh
      rw [same] at run
      obtain ⟨rest, apart⟩ := ih _ _ (List.nodup_cons.mpr ⟨unseen, distinct⟩) run
      refine ⟨?_, ?_⟩
      · rw [List.map_cons, List.nodup_cons]
        refine ⟨fun twin => ?_, rest⟩
        obtain ⟨other, member, equal⟩ := List.mem_map.mp twin
        exact apart other member (equal ▸ List.mem_cons_self)
      · intro other member
        rcases List.mem_cons.mp member with equal | later
        · rw [equal]
          exact unseen
        · exact fun known => apart other later (List.mem_cons_of_mem _ known)
  exact (fold _ _ _ List.nodup_nil run).1

theorem checkScalarRoots_ok (fine : dag.checkScalarRoots = .ok ()) :
    (dag.scalarRoots.map (·.1)).Pairwise (· < ·) ∧
      ∀ root ∈ dag.scalarRoots, root.1 < dag.roots.length + dag.scalarRoots.length := by
  unfold checkScalarRoots at fine
  dsimp only at fine
  generalize dag.roots.length + dag.scalarRoots.length = queries at fine ⊢
  obtain ⟨last, run, _⟩ := bind_eq_ok fine
  have fold : ∀ (roots : List (Nat × ScalarExpr NodeId)) (next last : Nat),
      roots.foldlM (fun next root =>
        if root.1 < next ∨ queries ≤ root.1 then
          .error (PhysicalASAPDAGValidationError.scalarRootPosition root.1)
        else .ok (root.1 + 1)) next = Except.ok last →
      (roots.map (·.1)).Pairwise (· < ·) ∧ (∀ root ∈ roots, root.1 < queries) ∧
        ∀ root ∈ roots, next ≤ root.1 := by
    intro roots
    induction roots with
    | nil => simp
    | cons root roots ih =>
      intro next last run
      rw [List.foldlM_cons] at run
      obtain ⟨mid, step, run⟩ := bind_eq_ok run
      split at step
      · cases step
      · rename_i inside
        rw [not_or, Nat.not_lt, Nat.not_le] at inside
        cases step
        obtain ⟨rest, bounded, after⟩ := ih _ _ run
        refine ⟨?_, ?_, ?_⟩
        · rw [List.map_cons, List.pairwise_cons]
          refine ⟨fun position member => ?_, rest⟩
          obtain ⟨other, present, same⟩ := List.mem_map.mp member
          have later := after other present
          omega
        · exact List.forall_mem_cons.mpr ⟨inside.2, bounded⟩
        · refine List.forall_mem_cons.mpr ⟨inside.1, fun other present => ?_⟩
          have later := after other present
          omega
  obtain ⟨ordered, bounded, _⟩ := fold _ _ _ run
  exact ⟨ordered, bounded⟩

/-! ### Edges -/

theorem takeEdges_ok {edges : List PhysicalASAPDAGEdge}
    {expected rest : Cache NodeId (List (NodeId × EdgeRole))}
    (run : edges.foldlM takeEdge expected = .ok rest) :
    (∀ edge ∈ edges, (expected edge.consumer).isSome) ∧
      ∀ id inputs, expected id = some inputs → ∃ remaining, rest id = some remaining ∧
        inputs.Perm (incoming edges id ++ remaining) := by
  induction edges generalizing expected with
  | nil =>
    cases run
    exact ⟨fun edge member => (nomatch member), fun id inputs held => ⟨inputs, held, .refl _⟩⟩
  | cons edge edges ih =>
    rw [List.foldlM_cons] at run
    obtain ⟨mid, step, run⟩ := bind_eq_ok run
    unfold takeEdge at step
    cases held : expected edge.consumer with
    | none =>
      rw [held] at step
      cases step
    | some inputs =>
      rw [held] at step
      dsimp only at step
      split at step
      · rename_i member
        cases step
        obtain ⟨known, taken⟩ := ih run
        refine ⟨?_, ?_⟩
        · refine List.forall_mem_cons.mpr ⟨by rw [held]; rfl, fun other present => ?_⟩
          have there := known other present
          unfold Cache.insert at there
          split at there
          · rename_i same
            rw [same, held]
            rfl
          · exact there
        · intro id others expects
          by_cases same : id = edge.consumer
          · have here : incoming (edge :: edges) id =
                (edge.producer, edge.role) :: incoming edges id := by
              rw [same]
              simp [incoming]
            obtain ⟨remaining, left, perm⟩ := taken id (inputs.erase (edge.producer, edge.role))
              (by rw [same]; exact if_pos rfl)
            refine ⟨remaining, left, ?_⟩
            rw [same, held] at expects
            rw [here, List.cons_append, ← Option.some.inj expects]
            exact (List.perm_cons_erase member).trans (.cons _ perm)
          · have skip : incoming (edge :: edges) id = incoming edges id := by
              unfold incoming
              rw [List.filter_cons_of_neg]
              exact fun equal => same (eq_of_beq equal).symm
            rw [skip]
            exact taken id others ((if_neg same).trans expects)
      · cases step

theorem checkEdgeRoles_ok (distinct : dag.ids.Nodup) (fine : dag.checkEdgeRoles = .ok ()) :
    (∀ edge ∈ dag.edges, edge.consumer ∈ dag.ids) ∧
      ∀ node ∈ dag.nodes, (incoming dag.edges node.id).Perm (edgeRoles node.payload) := by
  obtain ⟨rest, run, fine⟩ := bind_eq_ok fine
  obtain ⟨known, taken⟩ := takeEdges_ok run
  refine ⟨fun edge member => ?_, fun node member => ?_⟩
  · have some := known edge member
    rw [Option.isSome_map, Option.isSome_iff_exists] at some
    exact mem_ids.mpr some
  · obtain ⟨remaining, left, perm⟩ := taken node.id (edgeRoles node.payload)
      (by rw [byId_node distinct member]; rfl)
    have none : remaining = [] := by
      cases search : dag.nodes.find? fun node => rest node.id != some [] with
      | some other =>
        rw [search] at fine
        cases fine
      | none =>
        have fits := List.find?_eq_none.mp search node member
        rw [left] at fits
        simpa using fits
    rw [none, List.append_nil] at perm
    exact perm.symm

theorem checkEdge_ok {edge : PhysicalASAPDAGEdge} (fine : dag.checkEdge edge = .ok ()) :
    edge.producer ∈ dag.ids := by
  unfold checkEdge at fine
  cases found : dag.byId edge.producer with
  | none =>
    rw [found] at fine
    cases fine
  | some producer => exact mem_ids.mpr ⟨producer, found⟩

/-! ### Searches -/

theorem checkCycles_ok (fine : dag.checkCycles = .ok ()) :
    ∀ root ∈ dag.rootIds, dag.graph.Grounded root := by
  obtain ⟨⟨units, visited⟩, run, _⟩ := bind_eq_ok fine
  have each : ∀ root ∈ dag.rootIds, ∀ u before after,
      (∀ other ∈ before, dag.graph.Grounded other) →
      dag.graph.visit PhysicalASAPDAGValidationError.cycle [] root before = Except.ok (u, after) →
      (∀ other ∈ after, dag.graph.Grounded other) ∧ (∀ other ∈ before, other ∈ after) ∧
        root ∈ after :=
    fun root _ u before after kept step => dag.graph.visit_grounded kept step
  obtain ⟨kept, _, reached⟩ := mapM_ok (fun _ _ member => member)
    (fun _ _ _ first second other member => second other (first other member))
    (fun _ _ _ _ held grown => grown _ held) each (by simp) run
  intro root member
  obtain ⟨_, here⟩ := exists_of_forall₂ reached root member
  exact kept root here

theorem mem_marked {roots seen : List NodeId} {id : NodeId}
    (marked : id ∈ roots.foldl (fun seen root => dag.graph.mark [root] seen) seen) :
    id ∈ seen ∨ ∃ root ∈ roots, dag.graph.Reaches root id := by
  induction roots generalizing seen with
  | nil => exact .inl marked
  | cons root roots ih =>
    rcases ih marked with here | ⟨other, member, reached⟩
    · rcases dag.graph.mark_reached here with before | ⟨start, member, reached⟩
      · exact .inl before
      · rw [List.mem_singleton.mp member] at reached
        exact .inr ⟨root, List.mem_cons_self, reached⟩
    · exact .inr ⟨other, List.mem_cons_of_mem _ member, reached⟩

theorem checkReachable_ok (fine : dag.checkReachable = .ok ()) :
    ∀ id ∈ dag.ids, ∃ root ∈ dag.rootIds, dag.graph.Reaches root id := by
  unfold checkReachable at fine
  dsimp only at fine
  intro id member
  split at fine
  · cases fine
  · rename_i search
    have marked := List.find?_eq_none.mp search id member
    rcases mem_marked (by simpa using marked) with nothing | reached
    · cases nothing
    · exact reached

/-! ### All checks -/

theorem validate_ok (fine : dag.validate = .ok ()) : dag.Accepted := by
  unfold validate at fine
  obtain ⟨_, nodes, fine⟩ := bind_eq_ok fine
  split at fine
  · cases fine
  · rename_i queries
    obtain ⟨_, scalars, fine⟩ := bind_eq_ok fine
    obtain ⟨_, present, fine⟩ := bind_eq_ok fine
    obtain ⟨_, roles, fine⟩ := bind_eq_ok fine
    obtain ⟨_, edges, fine⟩ := bind_eq_ok fine
    obtain ⟨_, cycles, fine⟩ := bind_eq_ok fine
    have distinct := checkNodes_ok nodes
    obtain ⟨positions, inside⟩ := checkScalarRoots_ok scalars
    obtain ⟨consumers, inputs⟩ := checkEdgeRoles_ok distinct roles
    have reached := checkReachable_ok fine
    have grounded := checkCycles_ok cycles
    exact {
      ids := distinct
      queries := by
        rw [not_and_or] at queries
        exact queries
      positions
      inside
      roots := by
        intro root member
        have here := forM_ok present root member
        split at here
        · assumption
        · cases here
      endpoints := fun edge member =>
        ⟨checkEdge_ok (forM_ok edges edge member), consumers edge member⟩
      inputs
      grounded := by
        intro id member
        obtain ⟨root, isRoot, path⟩ := reached id member
        exact (grounded root isRoot).reached path
      reached }

theorem Accepted.mem_children (accepted : dag.Accepted) {node : PhysicalASAPDAGNode}
    (member : node ∈ dag.nodes) {child : NodeId} :
    child ∈ dag.children node.id ↔ child ∈ node.payload.children := by
  have perm := accepted.inputs node member
  rw [← mem_edgeRoles]
  unfold children
  constructor
  · intro reads
    obtain ⟨edge, present, same⟩ := List.mem_map.mp reads
    exact ⟨edge.role, perm.mem_iff.mp (List.mem_map.mpr ⟨edge, present, by rw [← same]⟩)⟩
  · rintro ⟨role, reads⟩
    obtain ⟨edge, present, same⟩ := List.mem_map.mp (perm.mem_iff.mpr reads)
    exact List.mem_map.mpr ⟨edge, present, (Prod.mk.inj same).1⟩

theorem Accepted.child_mem (accepted : dag.Accepted) {id child : NodeId}
    (reads : child ∈ dag.children id) : child ∈ dag.ids := by
  obtain ⟨edge, present, same⟩ := List.mem_map.mp reads
  rw [← same]
  exact (accepted.endpoints edge (List.mem_of_mem_filter present)).1

end PhysicalASAPDAG
end AsapPlanner.Physical
