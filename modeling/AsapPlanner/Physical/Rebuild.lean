import AsapPlanner.Physical.Validate

/-!
The operators a physical DAG exports, rebuilt from its nodes: each node once, over its rebuilt inputs.
-/

namespace AsapPlanner.Physical
open Rust Traversal Ir

inductive RebuildError
  | invalid (error : PhysicalASAPDAGValidationError)
  -- An index into a map without the key, or an `expect` that fails.
  | panic
deriving DecidableEq, Repr

/-- A query result: an operator's, or a scalar expression that reads operators. -/
inductive QueryRoot (C : Type)
  | operator (node : C)
  | scalar (expr : ScalarExpr C)

structure Rebuilding where
  dag : Dag
  rebuilt : Cache NodeId NodeRef

def Rebuilding.get (state : Rebuilding) (id : NodeId) : Except RebuildError NodeRef :=
  match state.rebuilt id with
  | some ref => .ok ref
  | none => .error .panic

def restore (id : NodeId) (node : PhysicalASAPDAGNode) (state : Rebuilding) :
    Except RebuildError Rebuilding := do
  let operator ← node.payload.walk.traverse state.get
  let restored :=
    { state.dag.withSchema operator node.outputSchema with guarantee := node.guarantee }
  let made := state.dag.alloc restored
  pure { dag := made.2, rebuilt := state.rebuilt.insert id made.1 }

def queryRoots (get : NodeId → Except RebuildError NodeRef) : Nat → Nat → List NodeId →
    List (Nat × ScalarExpr NodeId) → Except RebuildError (List (QueryRoot NodeRef))
  | 0, _, _, _ => .ok []
  | count + 1, position, operators, scalars =>
    match scalars.head?.filter fun root => root.1 == position, operators with
    | some (_, expr), operators => do
      let expr ← expr.walk.traverse get
      let rest ← queryRoots get count (position + 1) operators scalars.tail
      pure (.scalar expr :: rest)
    | none, id :: operators => do
      let node ← get id
      let rest ← queryRoots get count (position + 1) operators scalars
      pure (.operator node :: rest)
    | none, [] => .error .panic

namespace PhysicalASAPDAG
variable (dag : PhysicalASAPDAG)

def rebuilding : Settling NodeId Rebuilding RebuildError where
  settled state id := (state.rebuilt id).isSome
  inputs id :=
    match dag.byId id with
    | some node => .ok node.payload.children
    | none => .error .panic
  settle id state :=
    match dag.byId id with
    | some node => restore id node state
    | none => .error .panic

/-- Every node as an operator node, by id; `none` out of fuel. -/
def operatorNodes (fuel : Nat) : Option (Except RebuildError Rebuilding) :=
  match dag.validate with
  | .error error => some (.error (.invalid error))
  | .ok () => dag.rebuilding.runEach fuel dag.ids { dag := dag.store, rebuilt := Cache.empty }

def untimedQueryRoots (fuel : Nat) : Option (Except RebuildError (List (QueryRoot NodeRef) × Dag)) :=
  (dag.operatorNodes fuel).map fun result => do
    let state ← result
    let roots ← queryRoots state.get (dag.roots.length + dag.scalarRoots.length) 0 dag.roots
      dag.scalarRoots
    pure (roots, state.dag)

/-! ### What the loop keeps -/

def payloads : Graph NodeId where
  reads id := ((dag.byId id).map fun node => node.payload.children).getD []
  inner := dag.ids
  covers id other reads := by
    cases found : dag.byId id with
    | none =>
      rw [found] at reads
      cases reads
    | some node => exact mem_ids.mpr ⟨node, found⟩

end PhysicalASAPDAG

def Rebuilding.ref (state : Rebuilding) (id : NodeId) : NodeRef := (state.rebuilt id).getD 0

/-- What `id` is rebuilt as. -/
structure Restored (dag : PhysicalASAPDAG) (state : Rebuilding) (id : NodeId) (ref : NodeRef) :
    Prop where
  inside : ref < state.dag.size
  node : ∃ node, dag.byId id = some node ∧
    (∀ child ∈ node.payload.children, (state.rebuilt child).isSome) ∧
    (state.dag.node ref).operator = node.payload.mapChildren state.ref ∧
    (state.dag.node ref).schema = node.outputSchema ∧
    (state.dag.node ref).guarantee = node.guarantee ∧
    (state.dag.node ref).timing = none ∧
    (state.dag.node ref).materialization = .notMaterialized

structure Rebuilding.Right (dag : PhysicalASAPDAG) (state : Rebuilding) : Prop where
  grown : state.dag.Extends dag.store
  restored : ∀ id ref, state.rebuilt id = some ref → Restored dag state id ref
  distinct : ∀ id id' ref, state.rebuilt id = some ref → state.rebuilt id' = some ref → id = id'

structure Rebuilding.Grown (before after : Rebuilding) : Prop where
  dag : after.dag.Extends before.dag
  kept : ∀ id ref, before.rebuilt id = some ref → after.rebuilt id = some ref

section Rebuild
variable {dag : PhysicalASAPDAG} {state later : Rebuilding} {id : NodeId} {ref : NodeRef}

theorem Rebuilding.get_ok (known : (state.rebuilt id).isSome) : state.get id = .ok (state.ref id) := by
  obtain ⟨ref, held⟩ := Option.isSome_iff_exists.mp known
  unfold Rebuilding.get Rebuilding.ref
  rw [held]
  rfl

theorem Rebuilding.Grown.ref_eq (grown : state.Grown later) (known : (state.rebuilt id).isSome) :
    later.ref id = state.ref id := by
  obtain ⟨ref, held⟩ := Option.isSome_iff_exists.mp known
  unfold Rebuilding.ref
  rw [held, grown.kept id ref held]

theorem Rebuilding.Grown.isSome (grown : state.Grown later) (known : (state.rebuilt id).isSome) :
    (later.rebuilt id).isSome := by
  obtain ⟨ref, held⟩ := Option.isSome_iff_exists.mp known
  rw [grown.kept id ref held]
  rfl

theorem Restored.grow (here : Restored dag state id ref) (grown : state.Grown later) :
    Restored dag later id ref where
  inside := Nat.lt_of_lt_of_le here.inside grown.dag.size_le
  node := by
    obtain ⟨node, found, children, operator, rest⟩ := here.node
    rw [grown.dag.node here.inside]
    refine ⟨node, found, fun child reads => grown.isSome (children child reads), ?_, rest⟩
    rw [operator]
    apply Walk.image_congr
    intro child visited
    exact (grown.ref_eq (children child ((Operator.mem_refs_walk _).mp visited))).symm

theorem restore_ok {node : PhysicalASAPDAGNode} (right : state.Right dag)
    (found : dag.byId id = some node) (fresh : state.rebuilt id = none)
    (children : ∀ child ∈ node.payload.children, (state.rebuilt child).isSome) :
    ∃ later, restore id node state = .ok later ∧ later.Right dag ∧ state.Grown later ∧
      (later.rebuilt id).isSome := by
  have images : ∀ child ∈ node.payload.walk.refs, state.get child = .ok (state.ref child) :=
    fun child visited => Rebuilding.get_ok (children child ((Operator.mem_refs_walk _).mp visited))
  have below : ∀ child ∈ node.payload.children, state.ref child < state.dag.size := by
    intro child reads
    obtain ⟨ref, held⟩ := Option.isSome_iff_exists.mp (children child reads)
    unfold Rebuilding.ref
    rw [held]
    exact (right.restored child ref held).inside
  have earlier : ∀ held ∈ OperatorNode.refs { state.dag.withSchema (node.payload.mapChildren state.ref)
      node.outputSchema with guarantee := node.guarantee }, held < state.dag.size := by
    intro held holds
    change held ∈ (node.payload.mapChildren state.ref).children ++
      (node.payload.mapChildren state.ref).held.toList at holds
    rw [Operator.children_mapChildren, Operator.held_mapChildren] at holds
    rcases List.mem_append.mp holds with mapped | kept
    · obtain ⟨child, reads, same⟩ := List.mem_map.mp mapped
      rw [← same]
      exact below child reads
    · have inStore := dag.stored node (PhysicalASAPDAG.byId_some found).1 held
        (Option.mem_toList.mp kept)
      exact Nat.lt_of_lt_of_le inStore right.grown.size_le
  have made : restore id node state = .ok
      { dag := (state.dag.alloc { state.dag.withSchema (node.payload.mapChildren state.ref)
          node.outputSchema with guarantee := node.guarantee }).2
        rebuilt := state.rebuilt.insert id state.dag.size } := by
    unfold restore
    rw [Walk.traverse_ok images]
    change Except.ok _ = _
    rw [Dag.alloc_ref]
    rfl
  have grown : state.Grown
      { dag := (state.dag.alloc { state.dag.withSchema (node.payload.mapChildren state.ref)
          node.outputSchema with guarantee := node.guarantee }).2
        rebuilt := state.rebuilt.insert id state.dag.size } := by
    refine ⟨Dag.alloc_extends _ _, fun other ref held => ?_⟩
    have apart : other ≠ id := by
      intro same
      rw [same, fresh] at held
      cases held
    exact (if_neg apart).trans held
  refine ⟨_, made, ⟨right.grown.trans grown.dag, ?_, ?_⟩, grown, ?_⟩
  · intro other ref held
    by_cases same : other = id
    · rw [same] at held ⊢
      have here : state.dag.size = ref := Option.some.inj ((if_pos rfl).symm.trans held)
      rw [← here]
      refine ⟨?_, node, found, fun child reads => grown.isSome (children child reads), ?_⟩
      · rw [Dag.alloc_size earlier]
        exact Nat.lt_succ_self _
      · dsimp only
        rw [Dag.alloc_node earlier]
        refine ⟨?_, rfl, rfl, rfl, rfl⟩
        apply Walk.image_congr
        intro child visited
        exact (grown.ref_eq (children child ((Operator.mem_refs_walk _).mp visited))).symm
    · have before : state.rebuilt other = some ref := (if_neg same).symm.trans held
      exact (right.restored other ref before).grow grown
  · have later : ∀ other ref, (state.rebuilt.insert id state.dag.size) other = some ref →
        (other = id ∧ ref = state.dag.size) ∨ (state.rebuilt other = some ref ∧ ref < state.dag.size) := by
      intro other ref held
      by_cases same : other = id
      · rw [same] at held
        exact .inl ⟨same, (Option.some.inj ((if_pos rfl).symm.trans held)).symm⟩
      · have before : state.rebuilt other = some ref := (if_neg same).symm.trans held
        exact .inr ⟨before, (right.restored other ref before).inside⟩
    intro one two ref first second
    rcases later one ref first with ⟨isOne, last⟩ | ⟨before, inside⟩ <;>
      rcases later two ref second with ⟨isTwo, last'⟩ | ⟨before', inside'⟩
    · rw [isOne, isTwo]
    · exact absurd last (Nat.ne_of_lt inside')
    · exact absurd last' (Nat.ne_of_lt inside)
    · exact right.distinct one two ref before before'
  · change (state.rebuilt.insert id state.dag.size id).isSome
    unfold Cache.insert
    rw [if_pos rfl]
    rfl

end Rebuild

namespace PhysicalASAPDAG
variable {dag : PhysicalASAPDAG}

theorem Accepted.payloads_grounded (accepted : dag.Accepted) {id : NodeId} (member : id ∈ dag.ids) :
    dag.payloads.Grounded id := by
  have grounded := accepted.grounded id member
  apply Subrelation.accessible ?_ grounded
  intro child other reads
  obtain ⟨node, found⟩ := mem_ids.mp (dag.payloads.covers other child reads)
  change child ∈ ((dag.byId other).map fun node => node.payload.children).getD [] at reads
  rw [found] at reads
  obtain ⟨present, same⟩ := byId_some found
  change child ∈ dag.children other
  rw [← same]
  exact (accepted.mem_children present).mpr reads

theorem Accepted.rebuilding_sound (accepted : dag.Accepted) :
    dag.rebuilding.Sound dag.payloads (Rebuilding.Right dag) Rebuilding.Grown (· ∈ dag.ids) where
  refl state := ⟨Dag.Extends.refl _, fun _ _ held => held⟩
  trans a b c first second := ⟨first.dag.trans second.dag, fun id ref held =>
    second.kept id ref (first.kept id ref held)⟩
  kept a b id grown known := grown.isSome known
  inputs id member := by
    obtain ⟨node, found⟩ := mem_ids.mp member
    unfold rebuilding payloads
    dsimp only
    rw [found]
    rfl
  known id member child reads := by
    obtain ⟨node, found⟩ := mem_ids.mp member
    obtain ⟨present, same⟩ := byId_some found
    change child ∈ ((dag.byId id).map fun node => node.payload.children).getD [] at reads
    rw [found] at reads
    exact accepted.child_mem ((accepted.mem_children present).mpr reads)
  step id state member right fresh children := by
    obtain ⟨node, found⟩ := mem_ids.mp member
    have reads : dag.payloads.reads id = node.payload.children := by
      unfold payloads
      dsimp only
      rw [found]
      rfl
    rw [reads] at children
    have unset : state.rebuilt id = none := Option.isSome_eq_false_iff.mp fresh |> Option.isNone_iff_eq_none.mp
    obtain ⟨later, made, rest⟩ := restore_ok right found unset children
    refine ⟨later, ?_, rest⟩
    unfold rebuilding
    dsimp only
    rw [found]
    exact made

theorem Accepted.operatorNodes_ok (accepted : dag.Accepted) (valid : dag.validate = .ok ()) :
    ∃ state bound, (∀ fuel, bound ≤ fuel → dag.operatorNodes fuel = some (.ok state)) ∧
      state.Right dag ∧ ∀ id ∈ dag.ids, (state.rebuilt id).isSome := by
  have start : Rebuilding.Right dag { dag := dag.store, rebuilt := Cache.empty } :=
    ⟨Dag.Extends.refl _, fun _ _ held => (nomatch held), fun _ _ _ held => (nomatch held)⟩
  obtain ⟨state, bound, run, right, _, all⟩ := accepted.rebuilding_sound.finishes
    (fun id member => accepted.payloads_grounded member) (fun _ member => member) start
  refine ⟨state, bound, fun fuel enough => ?_, right, all⟩
  unfold operatorNodes
  rw [valid]
  exact run fuel enough

end PhysicalASAPDAG

/-! ### Roots -/

/-- Compilation's split of a batch: the operator roots, and each scalar root with its position. -/
def operatorRoots {C : Type} (roots : List (QueryRoot C)) : List C :=
  roots.filterMap fun root => match root with
    | .operator node => some node
    | .scalar _ => none

def scalarRoots {C : Type} (position : Nat) : List (QueryRoot C) → List (Nat × ScalarExpr C)
  | [] => []
  | .scalar expr :: rest => (position, expr) :: scalarRoots (position + 1) rest
  | .operator _ :: rest => scalarRoots (position + 1) rest

theorem length_positions_le {positions : List Nat} {low high : Nat}
    (ordered : positions.Pairwise (· < ·)) (above : ∀ p ∈ positions, low ≤ p)
    (below : ∀ p ∈ positions, p < high) : positions.length ≤ high - low := by
  induction positions generalizing low with
  | nil => exact Nat.zero_le _
  | cons first rest ih =>
    obtain ⟨later, ordered⟩ := List.pairwise_cons.mp ordered
    have more := @ih (first + 1) ordered (fun p member => later p member)
      (fun p member => below p (List.mem_cons_of_mem _ member))
    have here := above first List.mem_cons_self
    have inside := below first List.mem_cons_self
    rw [List.length_cons]
    omega

section Roots
variable {get : NodeId → Except RebuildError NodeRef} {image : NodeId → NodeRef}

theorem queryRoots_ok {count position : Nat} {operators : List NodeId}
    {scalars : List (Nat × ScalarExpr NodeId)} (all : operators.length + scalars.length = count)
    (ordered : (scalars.map (·.1)).Pairwise (· < ·))
    (inside : ∀ root ∈ scalars, position ≤ root.1 ∧ root.1 < position + count)
    (got : ∀ id ∈ operators ++ scalars.flatMap (·.2.operatorRefs), get id = .ok (image id)) :
    ∃ roots, queryRoots get count position operators scalars = .ok roots ∧
      operatorRoots roots = operators.map image ∧
      scalarRoots position roots = scalars.map fun root => (root.1, root.2.walk.image image) := by
  induction count generalizing position operators scalars with
  | zero =>
    have none : operators = [] ∧ scalars = [] := by
      constructor <;> apply List.eq_nil_of_length_eq_zero <;> omega
    rw [none.1, none.2]
    exact ⟨[], rfl, rfl, rfl⟩
  | succ count ih =>
    cases keyed : scalars.head?.filter fun root => root.1 == position with
    | some root =>
      obtain ⟨head, here⟩ := Option.filter_eq_some_iff.mp keyed
      obtain ⟨rest, split⟩ := List.head?_eq_some_iff.mp head
      have at' : root.1 = position := by simpa using here
      rw [split] at all ordered inside got ⊢
      have length : operators.length + rest.length = count := by
        rw [List.length_cons] at all
        omega
      obtain ⟨later, ordered⟩ := List.pairwise_cons.mp ordered
      obtain ⟨roots, made, ops, scs⟩ := @ih (position + 1) operators rest length ordered
        (fun other member => by
          have after : root.1 < other.1 := later other.1 (List.mem_map_of_mem member)
          have bound := inside other (List.mem_cons_of_mem _ member)
          omega)
        (fun id member => got id (by
          rw [List.flatMap_cons]
          rcases List.mem_append.mp member with left | right
          · exact List.mem_append_left _ left
          · exact List.mem_append_right _ (List.mem_append_right _ right)))
      have images : ∀ id ∈ root.2.walk.refs, get id = .ok (image id) := by
        intro id visited
        apply got
        rw [List.flatMap_cons]
        exact List.mem_append_right _
          (List.mem_append_left _ ((ScalarExpr.mem_refs_walk _).mp visited))
      refine ⟨.scalar (root.2.walk.image image) :: roots, ?_, ops, ?_⟩
      · rw [split] at keyed
        unfold queryRoots
        rw [keyed]
        dsimp only
        rw [Walk.traverse_ok images]
        change (queryRoots get count (position + 1) operators rest >>= fun _ => _) = _
        rw [made]
        rfl
      · rw [List.map_cons, at', ← scs]
        rfl
    | none =>
      have late : ∀ root ∈ scalars, position + 1 ≤ root.1 := by
        intro root member
        cases scalars with
        | nil => cases member
        | cons first rest =>
          have notHere : first.1 ≠ position := by
            intro same
            rw [List.head?_cons, Option.filter_some, if_pos (by simpa using same)] at keyed
            cases keyed
          have bound := inside first List.mem_cons_self
          rcases List.mem_cons.mp member with same | after
          · rw [same]
            omega
          · have increasing : first.1 < root.1 :=
              (List.pairwise_cons.mp ordered).1 root.1 (List.mem_map_of_mem after)
            omega
      have few := @length_positions_le (scalars.map (·.1)) (position + 1) (position + (count + 1))
        ordered (fun p member => by
          obtain ⟨root, present, same⟩ := List.mem_map.mp member
          exact same ▸ late root present)
        (fun p member => by
          obtain ⟨root, present, same⟩ := List.mem_map.mp member
          exact same ▸ (inside root present).2)
      rw [List.length_map] at few
      cases operators with
      | nil =>
        rw [List.length_nil] at all
        omega
      | cons id operators =>
        have length : operators.length + scalars.length = count := by
          rw [List.length_cons] at all
          omega
        obtain ⟨roots, made, ops, scs⟩ := @ih (position + 1) operators scalars length ordered
          (fun other member => by
            have bound := inside other member
            have after := late other member
            omega)
          (fun id member => got id (List.mem_cons_of_mem _ member))
        refine ⟨.operator (image id) :: roots, ?_, ?_, scs⟩
        · unfold queryRoots
          rw [keyed]
          dsimp only
          rw [got id List.mem_cons_self]
          change (queryRoots get count (position + 1) operators scalars >>= fun _ => _) = _
          rw [made]
          rfl
        · rw [List.map_cons, ← ops]
          rfl

end Roots
end AsapPlanner.Physical
