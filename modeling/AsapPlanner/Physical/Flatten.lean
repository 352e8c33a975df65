import AsapPlanner.Physical.Rebuild
import AsapPlanner.Ir.Copies

/-!
A shared operator DAG as a flat list of nodes: each distinct node gets an index, and its operator has
every child replaced by that index. A validated physical DAG, rebuilt and flattened, is the same DAG
under other ids.
-/

namespace AsapPlanner.Physical
open Rust Traversal Ir

structure FlatNode where
  operator : Operator NodeId
  resultKind : OperatorResultKind
  schema : Schema
  guarantee : Option AccuracyGuarantee
  timing : Option ExecutionTiming
  materialization : Materialization

structure FlatDag where
  nodes : List FlatNode
  roots : List (QueryRoot NodeId)

/-- The index of each node visited, the flat nodes, and the node of each index. -/
structure Flattening where
  ids : Cache NodeRef NodeId
  nodes : List FlatNode
  originals : List NodeRef

section Visit
variable (dag : Dag)

def numberedNode (ref : NodeRef) (operator : Operator NodeId) : FlatNode :=
  let node := dag.node ref
  { operator
    resultKind := node.resultKind
    schema := node.schema
    guarantee := node.guarantee
    timing := node.timing
    materialization := node.materialization }

def pushNode (ref : NodeRef) (operator : Operator NodeId) : StateM Flattening NodeId := fun flat =>
  let id := flat.nodes.length
  (id, {
    ids := flat.ids.insert ref id
    nodes := flat.nodes ++ [numberedNode dag ref operator]
    originals := flat.originals ++ [ref] })

def visit (ref : NodeRef) : StateM Flattening NodeId := do
  match (← get).ids ref with
  | some id => pure id
  | none =>
    let operator := (dag.node ref).operator
    let images ← operator.walk.refs.attach.mapM fun child => visit child.1
    pushNode dag ref (operator.walk.build images)
termination_by ref
decreasing_by exact dag.child_lt ((Operator.mem_refs_walk _).mp child.2)

def flattenRoot : QueryRoot NodeRef → StateM Flattening (QueryRoot NodeId)
  | .operator node => do
    let id ← visit dag node
    pure (.operator id)
  | .scalar expr => do
    let expr ← expr.walk.traverse (visit dag)
    pure (.scalar expr)

def flatten (roots : List (QueryRoot NodeRef)) : FlatDag × List NodeRef :=
  let run := roots.mapM (flattenRoot dag) { ids := Cache.empty, nodes := [], originals := [] }
  ({ nodes := run.2.nodes, roots := run.1 }, run.2.originals)

end Visit

/-! ### What flattening keeps -/

/-- The index of a node; any index for a node without one. -/
def Flattening.id (flat : Flattening) (ref : NodeRef) : NodeId := (flat.ids ref).getD 0

/-- The flat node of `ref`, over the indices of its children. -/
structure Flat (dag : Dag) (flat : Flattening) (ref : NodeRef) (node : FlatNode) : Prop where
  children : ∀ child ∈ dag.children ref, (flat.ids child).isSome
  operator : node.operator = (dag.node ref).operator.mapChildren flat.id
  resultKind : node.resultKind = (dag.node ref).resultKind
  schema : node.schema = (dag.node ref).schema
  guarantee : node.guarantee = (dag.node ref).guarantee
  timing : node.timing = (dag.node ref).timing
  materialization : node.materialization = (dag.node ref).materialization

/-- Indices and the nodes of `Among` numbered so far are one to one. -/
structure Flattening.Right (dag : Dag) (Among : NodeRef → Prop) (flat : Flattening) : Prop where
  lengths : flat.nodes.length = flat.originals.length
  numbered : ∀ ref id, flat.ids ref = some id ↔ flat.originals[id]? = some ref
  placed : ∀ ref id, flat.ids ref = some id → ∃ node, flat.nodes[id]? = some node ∧ Flat dag flat ref node
  among : ∀ ref id, flat.ids ref = some id → Among ref

def Flattening.Grown (before after : Flattening) : Prop :=
  ∀ ref id, before.ids ref = some id → after.ids ref = some id

/-- Only nodes below `bound` are newly numbered. -/
def Flattening.GrownBelow (bound : NodeRef) (before after : Flattening) : Prop :=
  before.Grown after ∧ ∀ ref, bound ≤ ref → after.ids ref = before.ids ref

theorem Flattening.Grown.refl (flat : Flattening) : flat.Grown flat := fun _ _ held => held

theorem Flattening.Grown.trans (a b c : Flattening) (first : a.Grown b) (second : b.Grown c) :
    a.Grown c := fun ref id held => second ref id (first ref id held)

theorem Flattening.GrownBelow.refl (bound : NodeRef) (flat : Flattening) : flat.GrownBelow bound flat :=
  ⟨Flattening.Grown.refl flat, fun _ _ => rfl⟩

theorem Flattening.GrownBelow.trans (bound : NodeRef) (a b c : Flattening) (first : a.GrownBelow bound b)
    (second : b.GrownBelow bound c) : a.GrownBelow bound c :=
  ⟨Flattening.Grown.trans _ _ _ first.1 second.1, fun ref above => (second.2 ref above).trans (first.2 ref above)⟩

section Flatten
variable {dag : Dag} {Among : NodeRef → Prop} {flat later : Flattening} {ref : NodeRef}

theorem Flattening.Grown.isSome (grown : flat.Grown later) (known : (flat.ids ref).isSome) :
    (later.ids ref).isSome := by
  obtain ⟨id, held⟩ := Option.isSome_iff_exists.mp known
  rw [grown ref id held]
  rfl

theorem Flattening.Grown.id_eq (grown : flat.Grown later) (known : (flat.ids ref).isSome) :
    later.id ref = flat.id ref := by
  obtain ⟨id, held⟩ := Option.isSome_iff_exists.mp known
  unfold Flattening.id
  rw [held, grown ref id held]

theorem Flat.grow {node : FlatNode} (here : Flat dag flat ref node) (grown : flat.Grown later) :
    Flat dag later ref node :=
  { here with
    children := fun child reads => grown.isSome (here.children child reads)
    operator := by
      rw [here.operator]
      apply Walk.image_congr
      intro child visited
      exact (grown.id_eq (here.children child ((Operator.mem_refs_walk _).mp visited))).symm }

theorem pushNode_right (right : flat.Right dag Among) (fresh : flat.ids ref = none)
    (among : Among ref) (children : ∀ child ∈ dag.children ref, (flat.ids child).isSome) :
    let pushed := pushNode dag ref ((dag.node ref).operator.mapChildren flat.id) flat
    pushed.2.Right dag Among ∧ flat.Grown pushed.2 ∧ pushed.2.ids ref = some pushed.1 := by
  dsimp only
  have grown : flat.Grown
      (pushNode dag ref ((dag.node ref).operator.mapChildren flat.id) flat).2 := by
    intro other id held
    have apart : other ≠ ref := by
      intro same
      rw [same, fresh] at held
      cases held
    exact (if_neg apart).trans held
  have last : (pushNode dag ref ((dag.node ref).operator.mapChildren flat.id) flat).2.ids ref =
      some flat.nodes.length := if_pos rfl
  have listed : ref ∉ flat.originals := by
    intro member
    obtain ⟨id, held⟩ := List.mem_iff_getElem?.mp member
    rw [(right.numbered ref id).mpr held] at fresh
    cases fresh
  refine ⟨⟨?_, ?_, ?_, ?_⟩, grown, last⟩
  · change (flat.nodes ++ [_]).length = (flat.originals ++ [ref]).length
    simp [right.lengths]
  · intro other id
    change (if other = ref then some flat.nodes.length else flat.ids other) = some id ↔
      (flat.originals ++ [ref])[id]? = some other
    by_cases same : other = ref
    · rw [if_pos same, same, right.lengths, Option.some.injEq]
      constructor
      · intro at'
        rw [← at', List.getElem?_concat_length]
      · intro held
        rcases Dag.getElem?_snoc held with before | ⟨at', _⟩
        · exact absurd (List.mem_of_getElem? before) listed
        · exact at'.symm
    · rw [if_neg same, right.numbered other id]
      constructor
      · intro held
        rw [List.getElem?_append_left (List.getElem?_eq_some_iff.mp held).1]
        exact held
      · intro held
        rcases Dag.getElem?_snoc held with before | ⟨_, equal⟩
        · exact before
        · exact absurd equal.symm same
  · intro other id held
    by_cases same : other = ref
    · rw [same] at held ⊢
      have at' : flat.nodes.length = id := Option.some.inj (last.symm.trans held)
      refine ⟨numberedNode dag ref ((dag.node ref).operator.mapChildren flat.id), ?_,
        fun child reads => grown.isSome (children child reads), ?_, rfl, rfl, rfl, rfl, rfl⟩
      · rw [← at']
        exact List.getElem?_concat_length
      · apply Walk.image_congr
        intro child visited
        exact (grown.id_eq (children child ((Operator.mem_refs_walk _).mp visited))).symm
    · have before : flat.ids other = some id := (if_neg same).symm.trans held
      obtain ⟨node, kept, here⟩ := right.placed other id before
      refine ⟨node, ?_, here.grow grown⟩
      change (flat.nodes ++ [_])[id]? = _
      rw [List.getElem?_append_left (List.getElem?_eq_some_iff.mp kept).1]
      exact kept
  · intro other id held
    by_cases same : other = ref
    · exact same ▸ among
    · exact right.among other id ((if_neg same).symm.trans held)

theorem images_eq {refs : List NodeRef} {images : List NodeId}
    (each : List.Forall₂ (fun ref id => flat.ids ref = some id) refs images) :
    images = refs.map flat.id := by
  induction each with
  | nil => rfl
  | cons here _ ih =>
    rw [List.map_cons, ← ih]
    congr 1
    unfold Flattening.id
    rw [here]
    rfl

theorem visit_right (closed : ∀ ref child, Among ref → child ∈ dag.children ref → Among child)
    (among : Among ref) (right : flat.Right dag Among) :
    (visit dag ref flat).2.Right dag Among ∧ flat.GrownBelow (ref + 1) (visit dag ref flat).2 ∧
      (visit dag ref flat).2.ids ref = some (visit dag ref flat).1 := by
  induction ref using Nat.strongRecOn generalizing flat with
  | ind ref ih =>
    have unfolded : visit dag ref flat = (match flat.ids ref with
        | some id => (id, flat)
        | none =>
          let below := (dag.node ref).operator.walk.refs.attach.mapM
            (fun child => visit dag child.1) flat
          pushNode dag ref ((dag.node ref).operator.walk.build below.1) below.2) := by
      rw [visit]
      change (match flat.ids ref with
        | some id => (pure id : StateM Flattening NodeId)
        | none => _) flat = _
      cases flat.ids ref <;> rfl
    rw [unfolded]
    cases known : flat.ids ref with
    | some id => exact ⟨right, ⟨fun _ _ held => held, fun _ _ => rfl⟩, known⟩
    | none =>
      have each : ∀ child ∈ (dag.node ref).operator.walk.refs.attach, ∀ t : Flattening,
          t.Right dag Among → (visit dag child.1 t).2.Right dag Among ∧
            t.GrownBelow ref (visit dag child.1 t).2 ∧
            (visit dag child.1 t).2.ids child.1 = some (visit dag child.1 t).1 := by
        intro child _ t kept
        have reads : child.1 ∈ dag.children ref := (Operator.mem_refs_walk _).mp child.2
        have below := dag.child_lt reads
        obtain ⟨kept', ⟨grown, frame⟩, here⟩ := ih child.1 below (closed ref child.1 among reads) kept
        exact ⟨kept', ⟨grown, fun other above =>
          frame other (Nat.le_trans (Nat.succ_le_of_lt below) above)⟩, here⟩
      obtain ⟨kept, ⟨grown, frame⟩, ids⟩ := mapM_kept (Flattening.GrownBelow.refl ref)
        (Flattening.GrownBelow.trans ref)
        (fun (child : { child // child ∈ _ }) (id : NodeId) (_ _ : Flattening)
          (held : _ = some id) (grown : Flattening.GrownBelow ref _ _) => grown.1 child.1 id held)
        each right
      dsimp only
      generalize (dag.node ref).operator.walk.refs.attach.mapM (fun child => visit dag child.1) flat =
        below at kept grown frame ids
      have images : below.1 = (dag.node ref).operator.walk.refs.map below.2.id := by
        rw [← List.attach_map_subtype_val (dag.node ref).operator.walk.refs]
        apply images_eq
        rw [List.forall₂_map_left_iff]
        exact ids
      have children : ∀ child ∈ dag.children ref, (below.2.ids child).isSome := by
        intro child reads
        obtain ⟨_, held⟩ := exists_of_forall₂ ids ⟨child, (Operator.mem_refs_walk _).mpr reads⟩
          (List.mem_attach _ _)
        rw [held]
        rfl
      have fresh : below.2.ids ref = none := (frame ref (Nat.le_refl ref)).trans known
      obtain ⟨pushed, grown', here⟩ := pushNode_right kept fresh among children
      rw [images]
      refine ⟨pushed, ⟨fun other id held => grown' other id (grown other id held), ?_⟩, here⟩
      intro other above
      have apart : other ≠ ref := Nat.ne_of_gt (Nat.lt_of_succ_le above)
      exact (if_neg apart).trans (frame other (Nat.le_of_succ_le above))

/-! ### Roots -/

def QueryRoot.refs {C : Type} : QueryRoot C → List C
  | .operator node => [node]
  | .scalar expr => expr.operatorRefs

/-- A root over other references. -/
def QueryRoot.map {C D : Type} [Inhabited D] (f : C → D) : QueryRoot C → QueryRoot D
  | .operator node => .operator (f node)
  | .scalar expr => .scalar (expr.walk.image f)

/-- A flattened root, over the indices of what it reads. -/
structure FlatRoot (flat : Flattening) (root : QueryRoot NodeRef) (image : QueryRoot NodeId) :
    Prop where
  numbered : ∀ ref ∈ root.refs, (flat.ids ref).isSome
  image : image = root.map flat.id

theorem FlatRoot.grow {root : QueryRoot NodeRef} {image : QueryRoot NodeId}
    (here : FlatRoot flat root image) (grown : flat.Grown later) : FlatRoot later root image where
  numbered ref member := grown.isSome (here.numbered ref member)
  image := by
    rw [here.image]
    cases root with
    | operator node =>
      exact congrArg QueryRoot.operator (grown.id_eq (here.numbered node List.mem_cons_self)).symm
    | scalar expr =>
      apply congrArg QueryRoot.scalar
      apply Walk.image_congr
      intro ref visited
      exact (grown.id_eq (here.numbered ref ((ScalarExpr.mem_refs_walk _).mp visited))).symm

theorem flatRoots_eq {roots : List (QueryRoot NodeRef)} {images : List (QueryRoot NodeId)}
    (each : List.Forall₂ (FlatRoot flat) roots images) :
    images = roots.map (QueryRoot.map flat.id) := by
  induction each with
  | nil => rfl
  | cons here _ ih => rw [List.map_cons, ← ih, here.image]

theorem flattenRoot_right (closed : ∀ ref child, Among ref → child ∈ dag.children ref → Among child)
    {root : QueryRoot NodeRef} (among : ∀ ref ∈ root.refs, Among ref) (right : flat.Right dag Among) :
    (flattenRoot dag root flat).2.Right dag Among ∧ flat.Grown (flattenRoot dag root flat).2 ∧
      FlatRoot (flattenRoot dag root flat).2 root (flattenRoot dag root flat).1 := by
  cases root with
  | operator node =>
    obtain ⟨kept, ⟨grown, _⟩, here⟩ := visit_right closed (among node List.mem_cons_self) right
    refine ⟨kept, grown, ?_, ?_⟩
    · intro ref member
      rw [List.mem_singleton.mp member]
      exact Option.isSome_iff_exists.mpr ⟨_, here⟩
    · change QueryRoot.operator (visit dag node flat).1 = .operator _
      unfold Flattening.id
      rw [show (flattenRoot dag (.operator node) flat).2.ids node = _ from here]
      rfl
  | scalar expr =>
    have each : ∀ ref ∈ expr.walk.refs, ∀ t : Flattening, t.Right dag Among →
        (visit dag ref t).2.Right dag Among ∧ t.Grown (visit dag ref t).2 ∧
          (visit dag ref t).2.ids ref = some (visit dag ref t).1 := by
      intro ref visited t kept
      obtain ⟨kept', ⟨grown, _⟩, here⟩ :=
        visit_right closed (among ref ((ScalarExpr.mem_refs_walk _).mp visited)) kept
      exact ⟨kept', grown, here⟩
    obtain ⟨kept, grown, ids⟩ := mapM_kept Flattening.Grown.refl Flattening.Grown.trans
      (fun (ref : NodeRef) (id : NodeId) (_ _ : Flattening) (held : _ = some id)
        (grown : Flattening.Grown _ _) => grown ref id held) each right
    refine ⟨kept, grown, ?_, ?_⟩
    · intro ref member
      obtain ⟨_, held⟩ := exists_of_forall₂ ids ref ((ScalarExpr.mem_refs_walk _).mpr member)
      exact Option.isSome_iff_exists.mpr ⟨_, held⟩
    · change QueryRoot.scalar (expr.walk.build (expr.walk.refs.mapM (visit dag) flat).1) = .scalar _
      rw [images_eq ids]
      rfl

def flattening (dag : Dag) (roots : List (QueryRoot NodeRef)) : Flattening :=
  (roots.mapM (flattenRoot dag) { ids := Cache.empty, nodes := [], originals := [] }).2

theorem flattening_right (closed : ∀ ref child, Among ref → child ∈ dag.children ref → Among child)
    {roots : List (QueryRoot NodeRef)} (among : ∀ root ∈ roots, ∀ ref ∈ root.refs, Among ref) :
    (flattening dag roots).Right dag Among ∧
      (flatten dag roots).1.roots = roots.map (QueryRoot.map (flattening dag roots).id) ∧
      ∀ root ∈ roots, ∀ ref ∈ root.refs, ((flattening dag roots).ids ref).isSome := by
  have start : Flattening.Right dag Among { ids := Cache.empty, nodes := [], originals := [] } :=
    ⟨rfl, by simp [Cache.empty], fun _ _ held => (nomatch held), fun _ _ held => (nomatch held)⟩
  have each : ∀ root ∈ roots, ∀ t : Flattening, t.Right dag Among →
      (flattenRoot dag root t).2.Right dag Among ∧ t.Grown (flattenRoot dag root t).2 ∧
        FlatRoot (flattenRoot dag root t).2 root (flattenRoot dag root t).1 :=
    fun root member t kept => flattenRoot_right closed (among root member) kept
  obtain ⟨kept, _, images⟩ := mapM_kept Flattening.Grown.refl Flattening.Grown.trans
    (fun (root : QueryRoot NodeRef) (image : QueryRoot NodeId) (flat _ : Flattening)
      (here : FlatRoot flat root image) (grown : Flattening.Grown _ _) => here.grow grown) each start
  refine ⟨kept, flatRoots_eq images, fun root member ref reads => ?_⟩
  obtain ⟨_, _, here⟩ := mem_of_forall₂ images root member
  exact here.numbered ref reads

theorem flatten_right (closed : ∀ ref child, Among ref → child ∈ dag.children ref → Among child)
    {roots : List (QueryRoot NodeRef)} (among : ∀ root ∈ roots, ∀ ref ∈ root.refs, Among ref) :
    ∃ flat : Flattening, flat.Right dag Among ∧ (flatten dag roots).1.nodes = flat.nodes ∧
      (flatten dag roots).1.roots = roots.map (QueryRoot.map flat.id) ∧
      ∀ root ∈ roots, ∀ ref ∈ root.refs, (flat.ids ref).isSome := by
  obtain ⟨kept, mapped, numbered⟩ := flattening_right closed among
  exact ⟨flattening dag roots, kept, rfl, mapped, numbered⟩

end Flatten
end AsapPlanner.Physical
