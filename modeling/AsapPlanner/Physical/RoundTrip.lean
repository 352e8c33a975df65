import AsapPlanner.Physical.Flatten
import Mathlib.Data.List.Nodup

namespace AsapPlanner.Physical
open Rust Traversal Ir Timing Relation

/-- A flat DAG is a physical one with nothing timed, under other ids. -/
structure Isomorphic (dag : PhysicalASAPDAG) (flat : FlatDag) (renumber : NodeId → NodeId) : Prop where
  size : flat.nodes.length = dag.nodes.length
  injective : ∀ id ∈ dag.ids, ∀ other ∈ dag.ids, renumber id = renumber other → id = other
  children : ∀ node ∈ dag.nodes, ∀ child ∈ node.payload.children, child ∈ dag.ids
  nodes : ∀ node ∈ dag.nodes, ∃ image, flat.nodes[renumber node.id]? = some image ∧
    image.operator = node.payload.mapChildren renumber ∧ image.schema = node.outputSchema ∧
    image.guarantee = node.guarantee ∧ image.timing = none ∧ image.materialization = .notMaterialized
  rootIds : ∀ root ∈ dag.rootIds, root ∈ dag.ids
  roots : operatorRoots flat.roots = dag.roots.map renumber
  scalarRoots : scalarRoots 0 flat.roots =
    dag.scalarRoots.map fun root => (root.1, root.2.walk.image renumber)

namespace PhysicalASAPDAG
variable (dag : PhysicalASAPDAG)

/-- A node that depends on itself, along edges or along what operators read. -/
def Cyclic : Prop :=
  (∃ id, TransGen (fun id other => other ∈ dag.children id) id id) ∨
    ∃ id, TransGen (fun id other => other ∈ dag.payloads.reads id) id id

def Unreachable : Prop := ∃ id ∈ dag.ids, ∀ root ∈ dag.rootIds, ¬ dag.graph.Reaches root id

/-- A root, an end of an edge or an input of an operator that is no node. -/
def Dangling : Prop :=
  (∃ root ∈ dag.rootIds, root ∉ dag.ids) ∨
    (∃ edge ∈ dag.edges, edge.producer ∉ dag.ids ∨ edge.consumer ∉ dag.ids) ∨
    ∃ node ∈ dag.nodes, ∃ child ∈ node.payload.children, child ∉ dag.ids

/-- A node whose incoming edges are not exactly its operator's inputs. -/
def EdgesDiffer : Prop :=
  ∃ node ∈ dag.nodes, ¬ (incoming dag.edges node.id).Perm (edgeRoles node.payload)

def Malformed : Prop := dag.Cyclic ∨ dag.Unreachable ∨ dag.Dangling ∨ dag.EdgesDiffer

variable {dag}

theorem Accepted.payload_mem (accepted : dag.Accepted) {node : PhysicalASAPDAGNode}
    (member : node ∈ dag.nodes) {child : NodeId} (reads : child ∈ node.payload.children) :
    child ∈ dag.ids :=
  accepted.child_mem ((accepted.mem_children member).mpr reads)

theorem Accepted.not_cyclic (accepted : dag.Accepted) : ¬ dag.Cyclic := by
  rintro (⟨id, loop⟩ | ⟨id, loop⟩)
  · obtain ⟨child, reads, _⟩ := TransGen.head'_iff.mp loop
    obtain ⟨edge, present, _⟩ := List.mem_map.mp reads
    obtain ⟨kept, at'⟩ := List.mem_filter.mp present
    have member : id ∈ dag.ids := eq_of_beq at' ▸ (accepted.endpoints edge kept).2
    exact (accepted.grounded id member).acyclic loop
  · obtain ⟨child, reads, _⟩ := TransGen.head'_iff.mp loop
    exact (accepted.payloads_grounded (dag.payloads.covers id child reads)).acyclic loop

theorem Accepted.not_malformed (accepted : dag.Accepted) : ¬ dag.Malformed := by
  rintro (cyclic | ⟨id, member, unreached⟩ | dangling | ⟨node, member, differ⟩)
  · exact accepted.not_cyclic cyclic
  · obtain ⟨root, isRoot, reached⟩ := accepted.reached id member
    exact unreached root isRoot reached
  · rcases dangling with ⟨root, isRoot, absent⟩ | ⟨edge, present, absent⟩ |
      ⟨node, present, child, reads, absent⟩
    · exact absent (accepted.roots root isRoot)
    · obtain ⟨producer, consumer⟩ := accepted.endpoints edge present
      exact absent.elim (· producer) (· consumer)
    · exact absent (accepted.payload_mem present reads)
  · exact differ (accepted.inputs node member)

end PhysicalASAPDAG

/-! ### Roots -/

section Roots
variable {C D : Type}

theorem mem_refs_roots {root : QueryRoot C} {roots : List (QueryRoot C)} (member : root ∈ roots)
    {ref : C} (reads : ref ∈ root.refs) (position : Nat) :
    ref ∈ operatorRoots roots ++ (scalarRoots position roots).flatMap (·.2.operatorRefs) := by
  induction roots generalizing position with
  | nil => cases member
  | cons first rest ih =>
    rcases List.mem_cons.mp member with same | later
    · rw [← same]
      cases root with
      | operator node =>
        rw [List.mem_singleton.mp reads]
        exact List.mem_append_left _ List.mem_cons_self
      | scalar expr =>
        apply List.mem_append_right
        exact List.mem_append_left _ reads
    · have below := ih later (position + 1)
      cases first with
      | operator node =>
        rcases List.mem_append.mp below with left | right
        · exact List.mem_append_left _ (List.mem_cons_of_mem _ left)
        · exact List.mem_append_right _ right
      | scalar expr =>
        rcases List.mem_append.mp below with left | right
        · exact List.mem_append_left _ left
        · exact List.mem_append_right _ (List.mem_append_right _ right)

theorem exists_of_mem_roots {roots : List (QueryRoot C)} {ref : C} {position : Nat}
    (member : ref ∈ operatorRoots roots ++ (scalarRoots position roots).flatMap (·.2.operatorRefs)) :
    ∃ root ∈ roots, ref ∈ root.refs := by
  induction roots generalizing position with
  | nil => cases member
  | cons first rest ih =>
    have here : ref ∈ first.refs ∨ ∃ position, ref ∈ operatorRoots rest ++
        (scalarRoots position rest).flatMap (·.2.operatorRefs) := by
      cases first with
      | operator node =>
        rcases List.mem_cons.mp member with same | later
        · exact .inl (List.mem_singleton.mpr same)
        · exact .inr ⟨position + 1, later⟩
      | scalar expr =>
        rcases List.mem_append.mp member with left | right
        · exact .inr ⟨position + 1, List.mem_append_left _ left⟩
        · rcases List.mem_append.mp right with own | later
          · exact .inl own
          · exact .inr ⟨position + 1, List.mem_append_right _ later⟩
    rcases here with own | ⟨next, later⟩
    · exact ⟨first, List.mem_cons_self, own⟩
    · obtain ⟨root, member, reads⟩ := ih later
      exact ⟨root, List.mem_cons_of_mem _ member, reads⟩

variable [Inhabited D] (f : C → D)

theorem operatorRoots_map (roots : List (QueryRoot C)) :
    operatorRoots (roots.map (QueryRoot.map f)) = (operatorRoots roots).map f := by
  induction roots with
  | nil => rfl
  | cons root rest ih =>
    cases root with
    | operator node => exact congrArg (f node :: ·) ih
    | scalar expr => exact ih

theorem scalarRoots_map (roots : List (QueryRoot C)) (position : Nat) :
    scalarRoots position (roots.map (QueryRoot.map f)) =
      (scalarRoots position roots).map fun root => (root.1, root.2.walk.image f) := by
  induction roots generalizing position with
  | nil => rfl
  | cons root rest ih =>
    cases root with
    | operator node => exact ih (position + 1)
    | scalar expr => exact congrArg ((position, expr.walk.image f) :: ·) (ih (position + 1))

end Roots

/-! ### The round trip -/

section RoundTrip
variable {dag : PhysicalASAPDAG} {state : Rebuilding} {flat : Flattening}

def Rebuilding.Among (state : Rebuilding) (ref : NodeRef) : Prop := ∃ id, state.rebuilt id = some ref

theorem Rebuilding.rebuilt_ref {id : NodeId} (known : (state.rebuilt id).isSome) :
    state.rebuilt id = some (state.ref id) := by
  obtain ⟨ref, held⟩ := Option.isSome_iff_exists.mp known
  unfold Rebuilding.ref
  rw [held]
  rfl

theorem Restored.children {id : NodeId} {ref : NodeRef} (here : Restored dag state id ref) :
    ∃ node, dag.byId id = some node ∧ state.dag.children ref = node.payload.children.map state.ref ∧
      ∀ child ∈ node.payload.children, (state.rebuilt child).isSome := by
  obtain ⟨node, found, known, operator, _⟩ := here.node
  refine ⟨node, found, ?_, known⟩
  change (state.dag.node ref).operator.children = _
  rw [operator, Operator.children_mapChildren]

theorem Rebuilding.Right.closed (right : state.Right dag) (ref child : NodeRef)
    (among : state.Among ref) (reads : child ∈ state.dag.children ref) : state.Among child := by
  obtain ⟨id, held⟩ := among
  obtain ⟨node, _, children, known⟩ := (right.restored id ref held).children
  rw [children] at reads
  obtain ⟨other, member, same⟩ := List.mem_map.mp reads
  exact ⟨other, same ▸ Rebuilding.rebuilt_ref (known other member)⟩

theorem numbered_of_reaches (accepted : dag.Accepted) (right : state.Right dag)
    (all : ∀ id ∈ dag.ids, (state.rebuilt id).isSome)
    (flattened : flat.Right state.dag state.Among) {root id : NodeId} (isRoot : root ∈ dag.ids)
    (numbered : (flat.ids (state.ref root)).isSome) (reached : dag.graph.Reaches root id) :
    id ∈ dag.ids ∧ (flat.ids (state.ref id)).isSome := by
  induction reached with
  | refl => exact ⟨isRoot, numbered⟩
  | @tail mid last _ reads ih =>
    obtain ⟨member, known⟩ := ih
    refine ⟨accepted.child_mem reads, ?_⟩
    obtain ⟨index, held⟩ := Option.isSome_iff_exists.mp known
    obtain ⟨_, _, here⟩ := flattened.placed _ index held
    apply here.children
    obtain ⟨node, found, children, _⟩ :=
      (right.restored mid _ (Rebuilding.rebuilt_ref (all mid member))).children
    obtain ⟨present, same⟩ := PhysicalASAPDAG.byId_some found
    rw [children]
    exact List.mem_map_of_mem ((accepted.mem_children present).mp (same.symm ▸ reads))

theorem Flattening.ids_id {ref : NodeRef} (known : (flat.ids ref).isSome) :
    flat.ids ref = some (flat.id ref) := by
  obtain ⟨id, held⟩ := Option.isSome_iff_exists.mp known
  unfold Flattening.id
  rw [held]
  rfl

theorem isomorphic_of_right (accepted : dag.Accepted) (right : state.Right dag)
    (all : ∀ id ∈ dag.ids, (state.rebuilt id).isSome)
    (flattened : flat.Right state.dag state.Among)
    (numbered : ∀ id ∈ dag.ids, (flat.ids (state.ref id)).isSome) {image : FlatDag}
    (nodes : image.nodes = flat.nodes)
    (roots : operatorRoots image.roots = dag.roots.map (flat.id ∘ state.ref))
    (scalars : scalarRoots 0 image.roots =
      dag.scalarRoots.map fun root => (root.1, root.2.walk.image (flat.id ∘ state.ref))) :
    Isomorphic dag image (flat.id ∘ state.ref) := by
  have one : ∀ id ∈ dag.ids, ∀ other ∈ dag.ids, state.ref id = state.ref other → id = other := by
    intro id member other member' same
    apply right.distinct id other (state.ref id) (Rebuilding.rebuilt_ref (all id member))
    rw [same]
    exact Rebuilding.rebuilt_ref (all other member')
  have originals : flat.originals.Perm (dag.ids.map state.ref) := by
    have distinct : flat.originals.Nodup := by
      apply List.nodup_iff_getElem?_ne_getElem?.mpr
      intro i j before inside same
      have held := List.getElem?_eq_getElem inside
      have first := (flattened.numbered _ i).mpr (same.trans held)
      have second := (flattened.numbered _ j).mpr held
      exact absurd (Option.some.inj (first.symm.trans second)) (Nat.ne_of_lt before)
    apply (List.perm_ext_iff_of_nodup distinct (List.Nodup.map_on
      (fun id member other member' => one id member other member') accepted.ids)).mpr
    intro ref
    constructor
    · intro member
      obtain ⟨index, held⟩ := List.mem_iff_getElem?.mp member
      obtain ⟨id, rebuilt⟩ := flattened.among ref index ((flattened.numbered ref index).mpr held)
      obtain ⟨node, found, _⟩ := (right.restored id ref rebuilt).node
      refine List.mem_map.mpr ⟨id, PhysicalASAPDAG.mem_ids.mpr ⟨node, found⟩, ?_⟩
      unfold Rebuilding.ref
      rw [rebuilt]
      rfl
    · intro member
      obtain ⟨id, isId, same⟩ := List.mem_map.mp member
      have held := (flattened.numbered _ _).mp (Flattening.ids_id (numbered id isId))
      exact same ▸ List.mem_of_getElem? held
  constructor
  case size =>
    rw [nodes, flattened.lengths, originals.length_eq, List.length_map]
    exact List.length_map _
  case injective =>
    intro id member other member' same
    apply one id member other member'
    have first := (flattened.numbered _ _).mp (Flattening.ids_id (numbered id member))
    have second := (flattened.numbered _ _).mp (Flattening.ids_id (numbered other member'))
    change flat.id (state.ref id) = flat.id (state.ref other) at same
    rw [same, second] at first
    exact (Option.some.inj first).symm
  case children => exact fun node member child reads => accepted.payload_mem member reads
  case nodes =>
    intro node member
    have isId : node.id ∈ dag.ids := List.mem_map_of_mem member
    obtain ⟨image, placed, here⟩ :=
      flattened.placed _ _ (Flattening.ids_id (numbered node.id isId))
    obtain ⟨original, found, _, operator, schema, guarantee, timing, stored⟩ :=
      (right.restored _ _ (Rebuilding.rebuilt_ref (all node.id isId))).node
    have same : original = node :=
      Option.some.inj (found.symm.trans (PhysicalASAPDAG.byId_node accepted.ids member))
    rw [same] at operator schema guarantee
    refine ⟨image, nodes ▸ placed, ?_, here.schema.trans schema, here.guarantee.trans guarantee,
      here.timing.trans timing, here.materialization.trans stored⟩
    rw [here.operator, operator, Operator.mapChildren_mapChildren]
  case rootIds => exact accepted.roots
  case roots => exact roots
  case scalarRoots => exact scalars

open PhysicalASAPDAG

/-- A DAG that passes validation is rebuilt and flattened into itself, and one that is not well
formed does not pass. -/
theorem validated_round_trip (dag : PhysicalASAPDAG) :
    (dag.validate = .ok () → ∃ roots store bound renumber,
      (∀ fuel, bound ≤ fuel → dag.untimedQueryRoots fuel = some (.ok (roots, store))) ∧
      Isomorphic dag (flatten store roots).1 renumber) ∧
    (dag.Malformed → dag.validate ≠ .ok ()) := by
  constructor
  · intro valid
    have accepted := validate_ok valid
    obtain ⟨state, bound, run, right, all⟩ := accepted.operatorNodes_ok valid
    obtain ⟨roots, made, operators, scalars⟩ := @queryRoots_ok state.get state.ref
      (dag.roots.length + dag.scalarRoots.length) 0 dag.roots dag.scalarRoots rfl accepted.positions
      (fun root member => ⟨Nat.zero_le _, by
        rw [Nat.zero_add]
        exact accepted.inside root member⟩)
      (fun id member => Rebuilding.get_ok (all id (accepted.roots id member)))
    have refs : ∀ root ∈ roots, ∀ ref ∈ root.refs, ∃ id ∈ dag.rootIds, state.ref id = ref := by
      intro root member ref reads
      have listed := mem_refs_roots member reads 0
      rw [operators, scalars, List.flatMap_map] at listed
      rcases List.mem_append.mp listed with direct | within
      · obtain ⟨id, present, same⟩ := List.mem_map.mp direct
        exact ⟨id, List.mem_append_left _ present, same⟩
      · obtain ⟨scalar, present, inside⟩ := List.mem_flatMap.mp within
        rw [ScalarExpr.operatorRefs_image] at inside
        obtain ⟨id, own, same⟩ := List.mem_map.mp inside
        exact ⟨id, List.mem_append_right _ (List.mem_flatMap.mpr ⟨scalar, present, own⟩), same⟩
    have among : ∀ root ∈ roots, ∀ ref ∈ root.refs, state.Among ref := by
      intro root member ref reads
      obtain ⟨id, isRoot, same⟩ := refs root member ref reads
      exact ⟨id, same ▸ Rebuilding.rebuilt_ref (all id (accepted.roots id isRoot))⟩
    obtain ⟨flat, flattened, nodes, images, rooted⟩ := flatten_right right.closed among
    have numbered : ∀ id ∈ dag.ids, (flat.ids (state.ref id)).isSome := by
      intro id member
      obtain ⟨root, isRoot, reached⟩ := accepted.reached id member
      have listed : state.ref root ∈ operatorRoots roots ++
          (scalarRoots 0 roots).flatMap (·.2.operatorRefs) := by
        rw [operators, scalars, List.flatMap_map]
        rcases List.mem_append.mp isRoot with direct | within
        · exact List.mem_append_left _ (List.mem_map_of_mem direct)
        · obtain ⟨scalar, present, own⟩ := List.mem_flatMap.mp within
          apply List.mem_append_right
          refine List.mem_flatMap.mpr ⟨scalar, present, ?_⟩
          rw [ScalarExpr.operatorRefs_image]
          exact List.mem_map_of_mem own
      obtain ⟨query, member', reads⟩ := exists_of_mem_roots listed
      exact (numbered_of_reaches accepted right all flattened (accepted.roots root isRoot)
        (rooted query member' _ reads) reached).2
    refine ⟨roots, state.dag, bound, flat.id ∘ state.ref, ?_,
      isomorphic_of_right accepted right all flattened numbered nodes ?_ ?_⟩
    · intro fuel enough
      unfold untimedQueryRoots
      rw [run fuel enough, Option.map_some]
      change some (queryRoots state.get _ 0 dag.roots dag.scalarRoots >>= _) = _
      rw [made]
      rfl
    · rw [images, operatorRoots_map, operators, List.map_map]
    · rw [images, scalarRoots_map, scalars, List.map_map]
      apply List.map_congr_left
      intro root _
      exact congrArg (Prod.mk root.1) (ScalarExpr.image_image _ _ root.2)
  · intro malformed valid
    exact (validate_ok valid).not_malformed malformed

def sharedTable : PhysicalASAPDAG :=
  let schema : Schema := { fields := [], timeIndex := none, uniqueKeys := [], closed := true }
  let state : ExecutionDataState := ⟨.queryTime, .raw⟩
  let limited : PhysicalASAPDAGNode := {
    id := 7, payload := .nonASAP (.limit (some 1) 0 GroupKeys.none 9), outputState := state
    materialization := .notMaterialized, outputSchema := schema, guarantee := none
    retentionMs := none }
  let table : PhysicalASAPDAGNode := {
    limited with id := 9, payload := .nonASAP (.values [] schema) }
  { nodes := [limited, table]
    edges := [{ producer := 9, consumer := 7, role := .input, intermediateSchema := schema,
                dataState := state }]
    roots := [7]
    scalarRoots := [(1, .scalarSubquery 9)]
    store := Dag.ofNodes []
    stored := by
      intro node member held holds
      rcases List.mem_cons.mp member with same | later
      · rw [same] at holds
        cases holds
      · rw [List.mem_singleton.mp later] at holds
        cases holds }

theorem sharedTable_cycles : sharedTable.checkCycles = .ok () := by
  have seven : sharedTable.graph.reads 7 = [9] := by decide +kernel
  have nine : sharedTable.graph.reads 9 = [] := by decide +kernel
  have roots : sharedTable.rootIds = [7, 9] := by decide +kernel
  have leaf : sharedTable.graph.visit PhysicalASAPDAGValidationError.cycle [7] 9 [] =
      .ok ((), [9]) := by
    rw [Graph.visit, nine]
    rfl
  have first : sharedTable.graph.visit PhysicalASAPDAGValidationError.cycle [] 7 [] =
      .ok ((), [7, 9]) := by
    rw [Graph.visit, seven]
    change (do
      let below ← (do
        let below ← sharedTable.graph.visit PhysicalASAPDAGValidationError.cycle [7] 9 []
        pure ([below.1], below.2))
      pure ((), 7 :: below.2)) = _
    rw [leaf]
    rfl
  have second : sharedTable.graph.visit PhysicalASAPDAGValidationError.cycle [] 9 [7, 9] =
      .ok ((), [7, 9]) := by
    rw [Graph.visit]
    rfl
  unfold checkCycles
  rw [roots]
  change (do
    let run ← (do
      let one ← sharedTable.graph.visit PhysicalASAPDAGValidationError.cycle [] 7 []
      let two ← sharedTable.graph.visit PhysicalASAPDAGValidationError.cycle [] 9 one.2
      pure ([one.1, two.1], two.2))
    pure ()) = _
  rw [first]
  change (do
    let run ← (do
      let two ← sharedTable.graph.visit PhysicalASAPDAGValidationError.cycle [] 9 [7, 9]
      pure ([(), two.1], two.2))
    pure ()) = _
  rw [second]
  rfl

theorem sharedTable_reachable : sharedTable.checkReachable = .ok () := by
  have seven : sharedTable.graph.reads 7 = [9] := by decide +kernel
  have nine : sharedTable.graph.reads 9 = [] := by decide +kernel
  have roots : sharedTable.rootIds = [7, 9] := by decide +kernel
  simp [checkReachable, roots, Graph.mark, seven, nine]
  decide +kernel

theorem sharedTable_valid : sharedTable.validate = .ok () := by
  have nodes : sharedTable.checkNodes = .ok () := by decide +kernel
  have scalars : sharedTable.checkScalarRoots = .ok () := by decide +kernel
  have roots : sharedTable.checkRoots = .ok () := by decide +kernel
  have roles : sharedTable.checkEdgeRoles = .ok () := by decide +kernel
  have edges : sharedTable.edges.forM sharedTable.checkEdge = .ok () := by decide +kernel
  unfold validate
  rw [nodes, scalars, roots, roles, edges, sharedTable_cycles, sharedTable_reachable]
  rfl

theorem sharedTable_round_trip : ∃ roots store bound renumber,
    (∀ fuel, bound ≤ fuel → sharedTable.untimedQueryRoots fuel = some (.ok (roots, store))) ∧
    Isomorphic sharedTable (flatten store roots).1 renumber :=
  (validated_round_trip sharedTable).1 sharedTable_valid

end RoundTrip
end AsapPlanner.Physical
