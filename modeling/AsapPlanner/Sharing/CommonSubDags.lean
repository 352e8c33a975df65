import AsapPlanner.Ir.Copies
import AsapPlanner.Traversal.Memo
import AsapPlanner.Traversal.Run

/-!
Sharing equal sub-DAGs. Nodes are interned children first: a node that equals one in the table, and
may be one node with it, is that node. A hash picks where to look, equality decides.
-/

namespace AsapPlanner.Sharing
open Rust Ir Traversal

/-! ### Which equal nodes may be one -/

def readsRowPositions (frame : Option WindowFrame) : WindowFuncKind → Bool
  | .rowNumber | .lag | .lead | .lagInFrame | .leadInFrame | .firstValue | .lastValue | .nthValue _ => true
  | .rank | .denseRank => false
  | .sum | .avg | .count | .min | .max => frame.any (·.units == .rows)

def sortedBy (node : OperatorNode) (partitionBy : GroupKeys) : Bool :=
  match node.nonAsap with
  | some (.sort _ sorted _) => sorted == partitionBy
  | _ => false

/-- Whether equal copies return the same rows: no operator that picks rows by input order alone does. -/
def isShareableWhenEqual (dag : Dag) : NonASAPOp NodeRef → Bool
  | .limit n offset partitionBy child => (n.isNone && offset == 0) || sortedBy (dag.node child) partitionBy
  | .dedup cols child => cols.isEmpty || cols.eraseDups.length == (dag.node child).schema.fields.length
  | .sqlWindowFunc func _ _ orderBy frame _ _ => !readsRowPositions frame func || !orderBy.isEmpty
  | .scan .. | .values .. | .filter .. | .project .. | .aggregate .. | .join .. | .setOp .. | .concat _
  | .sort .. | .binaryOp .. | .timeRange .. | .timeShift .. | .promqlVectorFromScalar _ | .promqlRelabel ..
  | .promqlInfoEnrich .. | .promqlSeriesSample .. | .promqlSubquery .. => true

def reusable (dag : Dag) (node : OperatorNode) : Bool :=
  node.isAsap || node.nonAsap.any (isShareableWhenEqual dag)

/-! ### Equality and the hash -/

/-- The operator with every child replaced by `()`. -/
def ownFields (dag : Dag) (node : OperatorNode) : Datum :=
  (node.operator.mapChildren fun _ => ()).toDatum dag.datumOf

/-- Everything of a node but its children. -/
def contents (dag : Dag) (node : OperatorNode) : Datum :=
  .node .tuple [ownFields dag node, datum node.resultKind, datum node.schema, datum node.guarantee,
    datum node.timing, datum node.materialization]

/-- How values serialize, and how a node's own text and its children's hashes are hashed. -/
structure Hasher (H : Type) where
  text : Datum → Option String
  hash : String → List H → H

section Decide
variable {H : Type} (hasher : Hasher H)

/-- Equal values that serialize alike. -/
def sameValue (left right : Datum) : Bool :=
  left.eq right && ((hasher.text left).isSome && hasher.text left == hasher.text right)

/-- All but the output category, which is derived. -/
def sameData (dag : Dag) (left right : OperatorNode) : Bool :=
  same left.schema right.schema && same left.timing right.timing &&
    same left.materialization right.materialization &&
    sameValue hasher (datum left.guarantee) (datum right.guarantee) &&
    sameValue hasher (ownFields dag left) (ownFields dag right)

def sameFields (dag : Dag) (left right : OperatorNode) : Bool :=
  same left.resultKind right.resultKind && sameData hasher dag left right

/-- Equal nodes whose children are one node or equal by `below`. -/
def sameOver (below : NodeRef → NodeRef → Bool) (dag : Dag) (left right : OperatorNode) : Bool :=
  left.children.length == right.children.length &&
    (left.children.zip right.children).all (fun pair => pair.1 == pair.2 || below pair.1 pair.2) &&
    sameFields hasher dag left right

def sameNode (dag : Dag) (left right : NodeRef) : Bool :=
  sameOver hasher (fun a b => if _below : a < left then sameNode dag a b else false) dag (dag.node left)
    (dag.node right)

def hashOver (below : NodeRef → H) (dag : Dag) (node : OperatorNode) : H :=
  hasher.hash ((hasher.text (contents dag node)).getD "") (node.children.map below)

def structuralHash (dag : Dag) (ref : NodeRef) : H :=
  hashOver hasher (fun child => if _below : child < ref then structuralHash dag child else hasher.hash "" []) dag
    (dag.node ref)

/-! ### The table -/

structure InternTable (H : Type) where
  dag : Dag
  buckets : H → List NodeRef
  visited : Cache NodeRef NodeRef

variable [DecidableEq H]

def InternTable.push (table : InternTable H) (key : H) (node : OperatorNode) : NodeRef × InternTable H :=
  let ref := (table.dag.alloc node).1
  (ref, { table with
    dag := (table.dag.alloc node).2
    buckets := Function.update table.buckets key (table.buckets key ++ [ref]) })

def intern (node : OperatorNode) : StateM (InternTable H) NodeRef := fun table =>
  let key := hashOver hasher (structuralHash hasher table.dag) table.dag node
  let same := fun candidate =>
    sameOver hasher (sameNode hasher table.dag) table.dag (table.dag.node candidate) node
  match if reusable table.dag node then (table.buckets key).find? same else none with
  | some existing => (existing, table)
  | none => table.push key node

/-- A node over other children; its output category is derived again. -/
def rebuilt (dag : Dag) (node : OperatorNode) (operator : Operator NodeRef) : OperatorNode :=
  { dag.withSchema operator node.schema with
    guarantee := node.guarantee, timing := node.timing, materialization := node.materialization }

def internRebuilt (input : Dag) (ref : NodeRef) (operator : Operator NodeRef) :
    StateM (InternTable H) NodeRef := fun table =>
  let (interned, table) := intern hasher (rebuilt table.dag (input.node ref) operator) table
  (interned, { table with visited := table.visited.insert ref interned })

def internBottomUp (input : Dag) (ref : NodeRef) : StateM (InternTable H) NodeRef := do
  match (← get).visited ref with
  | some interned => pure interned
  | none =>
    let operator := (input.node ref).operator
    let images ← operator.walk.refs.attach.mapM fun child => internBottomUp input child.1
    internRebuilt hasher input ref (operator.walk.build images)
termination_by ref
decreasing_by exact input.child_lt ((Operator.mem_refs_walk _).mp child.2)

theorem internBottomUp_eq (input : Dag) (ref : NodeRef) (table : InternTable H) :
    internBottomUp hasher input ref table = (match table.visited ref with
      | some interned => (interned, table)
      | none =>
        let below := (input.node ref).operator.walk.refs.attach.mapM
          (fun child => internBottomUp hasher input child.1) table
        internRebuilt hasher input ref ((input.node ref).operator.walk.build below.1) below.2) := by
  rw [internBottomUp]
  change (match table.visited ref with
    | some interned => (pure interned : StateM (InternTable H) NodeRef)
    | none => _) table = _
  cases table.visited ref <;> rfl

def internRoot {Id : Type} (input : Dag) (root : Id × NodeRef) : StateM (InternTable H) (Id × NodeRef) := do
  let interned ← internBottomUp hasher input root.2
  pure (root.1, interned)

/-- The roots over shared sub-DAGs, and the table that holds these. -/
def shareCommonSubDags {Id : Type} (input : Dag) (roots : List (Id × NodeRef)) :
    List (Id × NodeRef) × InternTable H :=
  roots.mapM (internRoot hasher input) { dag := input, buckets := fun _ => [], visited := Cache.empty }

end Decide

/-! ### Equal nodes -/

section Equal
variable {H : Type} {hasher : Hasher H} {later dag : Dag}

theorem forall₂_imp_mem {α β : Type} {R S : α → β → Prop} {xs : List α} {ys : List β}
    (each : ∀ x ∈ xs, ∀ y ∈ ys, R x y → S x y) (related : List.Forall₂ R xs ys) : List.Forall₂ S xs ys := by
  rw [List.forall₂_iff_zip] at related ⊢
  refine ⟨related.1, fun {a b} member => ?_⟩
  obtain ⟨first, second⟩ := List.of_mem_zip member
  exact each a first b second (related.2 member)

theorem forall₂_trans_mem {α β γ : Type} {R : α → β → Prop} {S : β → γ → Prop} {T : α → γ → Prop}
    {xs : List α} {ys : List β} {zs : List γ} (each : ∀ x ∈ xs, ∀ y z, R x y → S y z → T x z)
    (first : List.Forall₂ R xs ys) (second : List.Forall₂ S ys zs) : List.Forall₂ T xs zs := by
  induction first generalizing zs with
  | nil =>
    cases second
    exact .nil
  | @cons x y xs ys head tail ih =>
    cases second with
    | cons head' tail' =>
      refine .cons (each x List.mem_cons_self y _ head head') (ih (fun other member => ?_) tail')
      exact each other (List.mem_cons_of_mem x member)

theorem sameValue_symm {left right : Datum} (equal : sameValue hasher left right = true) :
    sameValue hasher right left = true := by
  simp only [sameValue, Bool.and_eq_true, beq_iff_eq] at equal ⊢
  obtain ⟨alike, known, texts⟩ := equal
  exact ⟨Datum.eq_symm alike, texts ▸ known, texts.symm⟩

theorem sameValue_trans {a b c : Datum} (ab : sameValue hasher a b = true) (bc : sameValue hasher b c = true) :
    sameValue hasher a c = true := by
  simp only [sameValue, Bool.and_eq_true, beq_iff_eq] at ab bc ⊢
  exact ⟨Datum.eq_trans ab.1 bc.1, ab.2.1, ab.2.2.trans bc.2.2⟩

theorem sameData_symm {left right : OperatorNode} (equal : sameData hasher dag left right = true) :
    sameData hasher dag right left = true := by
  simp only [sameData, Bool.and_eq_true] at equal ⊢
  obtain ⟨⟨⟨⟨schema, timing⟩, materialization⟩, guarantee⟩, own⟩ := equal
  exact ⟨⟨⟨⟨same_symm schema, same_symm timing⟩, same_symm materialization⟩, sameValue_symm guarantee⟩,
    sameValue_symm own⟩

theorem sameFields_symm {left right : OperatorNode} (equal : sameFields hasher dag left right = true) :
    sameFields hasher dag right left = true := by
  simp only [sameFields, Bool.and_eq_true] at equal ⊢
  exact ⟨same_symm equal.1, sameData_symm equal.2⟩

theorem sameData_trans {a b c : OperatorNode} (ab : sameData hasher dag a b = true)
    (bc : sameData hasher dag b c = true) : sameData hasher dag a c = true := by
  simp only [sameData, Bool.and_eq_true] at ab bc ⊢
  obtain ⟨⟨⟨⟨schema, timing⟩, materialization⟩, guarantee⟩, own⟩ := ab
  obtain ⟨⟨⟨⟨schema', timing'⟩, materialization'⟩, guarantee'⟩, own'⟩ := bc
  exact ⟨⟨⟨⟨same_trans schema schema', same_trans timing timing'⟩,
    same_trans materialization materialization'⟩, sameValue_trans guarantee guarantee'⟩,
    sameValue_trans own own'⟩

theorem sameFields_trans {a b c : OperatorNode} (ab : sameFields hasher dag a b = true)
    (bc : sameFields hasher dag b c = true) : sameFields hasher dag a c = true := by
  simp only [sameFields, Bool.and_eq_true] at ab bc ⊢
  exact ⟨same_trans ab.1 bc.1, sameData_trans ab.2 bc.2⟩

/-- One node, or two that are equal. -/
def Near (hasher : Hasher H) (dag : Dag) (left right : NodeRef) : Prop :=
  left = right ∨ sameNode hasher dag left right = true

theorem sameOver_iff {below : NodeRef → NodeRef → Bool} {left right : OperatorNode} :
    sameOver hasher below dag left right = true ↔
      List.Forall₂ (fun a b => a = b ∨ below a b = true) left.children right.children ∧
        sameFields hasher dag left right = true := by
  simp only [sameOver, Bool.and_eq_true, beq_iff_eq, List.all_eq_true, Bool.or_eq_true, List.forall₂_iff_zip,
    Prod.forall]

theorem sameNode_iff {left right : NodeRef} : sameNode hasher dag left right = true ↔
    List.Forall₂ (Near hasher dag) (dag.children left) (dag.children right) ∧
      sameFields hasher dag (dag.node left) (dag.node right) = true := by
  rw [sameNode, sameOver_iff]
  refine and_congr_left fun _ => ⟨forall₂_imp_mem ?_, forall₂_imp_mem ?_⟩
  all_goals
    intro child reads other _ near
    have below : child < left := dag.child_lt reads
    simpa only [Near, dif_pos below] using near

theorem sameNode_trans {a b c : NodeRef} (ab : sameNode hasher dag a b = true)
    (bc : sameNode hasher dag b c = true) : sameNode hasher dag a c = true := by
  induction a using Nat.strongRecOn generalizing b c with
  | ind a ih =>
    rw [sameNode_iff] at ab bc ⊢
    refine ⟨forall₂_trans_mem (fun child reads other image near near' => ?_) ab.1 bc.1,
      sameFields_trans ab.2 bc.2⟩
    rcases near with rfl | equal
    · exact near'
    · rcases near' with rfl | equal'
      · exact .inr equal
      · exact .inr (ih child (dag.child_lt reads) equal equal')

theorem sameNode_symm {a b : NodeRef} (ab : sameNode hasher dag a b = true) : sameNode hasher dag b a = true := by
  induction a using Nat.strongRecOn generalizing b with
  | ind a ih =>
    rw [sameNode_iff] at ab ⊢
    refine ⟨(forall₂_imp_mem (fun child reads other _ near => ?_) ab.1).flip, sameFields_symm ab.2⟩
    exact near.imp Eq.symm (ih child (dag.child_lt reads))

theorem Near.symm {a b : NodeRef} (near : Near hasher dag a b) : Near hasher dag b a := near.imp Eq.symm sameNode_symm

theorem Near.trans {a b c : NodeRef} (ab : Near hasher dag a b) (bc : Near hasher dag b c) : Near hasher dag a c := by
  rcases ab with rfl | ab
  · exact bc
  · rcases bc with rfl | bc
    · exact .inr ab
    · exact .inr (sameNode_trans ab bc)

/-! ### As the store grows -/

theorem structuralHash_eq {ref : NodeRef} : structuralHash hasher dag ref =
    hashOver hasher (structuralHash hasher dag) dag (dag.node ref) := by
  rw [structuralHash, hashOver, hashOver]
  congr 1
  apply List.map_congr_left
  intro child reads
  exact dif_pos (dag.child_lt reads)

section Grow
variable (grown : later.Extends dag)
include grown

theorem ownFields_grow {node : OperatorNode} (inside : ∀ held ∈ node.refs, held < dag.size) :
    ownFields later node = ownFields dag node := by
  refine Dag.toDatum_congr fun held holds => grown.datumOf ?_
  rw [Operator.held_mapChildren] at holds
  apply inside
  simp [OperatorNode.refs, Option.mem_def.mp holds]

theorem contents_grow {node : OperatorNode} (inside : ∀ held ∈ node.refs, held < dag.size) :
    contents later node = contents dag node := by
  rw [contents, contents, ownFields_grow grown inside]

theorem sameData_grow {left right : OperatorNode} (inside : ∀ held ∈ left.refs, held < dag.size)
    (inside' : ∀ held ∈ right.refs, held < dag.size) :
    sameData hasher later left right = sameData hasher dag left right := by
  rw [sameData, sameData, ownFields_grow grown inside, ownFields_grow grown inside']

theorem sameFields_grow {left right : OperatorNode} (inside : ∀ held ∈ left.refs, held < dag.size)
    (inside' : ∀ held ∈ right.refs, held < dag.size) :
    sameFields hasher later left right = sameFields hasher dag left right := by
  rw [sameFields, sameFields, sameData_grow grown inside inside']

theorem children_grow {ref : NodeRef} (inside : ref < dag.size) : later.children ref = dag.children ref := by
  rw [Dag.children, Dag.children, grown.node inside]

theorem reusable_grow {node : OperatorNode} (inside : ∀ held ∈ node.refs, held < dag.size) :
    reusable later node = reusable dag node := by
  have below : ∀ child ∈ node.children, later.node child = dag.node child :=
    fun child reads => grown.node (inside child (List.mem_append_left _ reads))
  unfold reusable OperatorNode.nonAsap
  cases shape : node.operator with
  | asap op => rfl
  | nonASAP op =>
    have reads : ∀ child ∈ op.inputs, later.node child = dag.node child := by
      intro child member
      apply below
      simp [OperatorNode.children, shape, Operator.children, NonASAPOp.children, member]
    cases op with
    | limit n offset partitionBy child =>
      simp [isShareableWhenEqual, reads child (by simp [NonASAPOp.inputs])]
    | dedup cols child => simp [isShareableWhenEqual, reads child (by simp [NonASAPOp.inputs])]
    | _ => rfl

theorem sameNode_grow {left right : NodeRef} (inside : left < dag.size) (inside' : right < dag.size) :
    sameNode hasher later left right = true ↔ sameNode hasher dag left right = true := by
  induction left using Nat.strongRecOn generalizing right with
  | ind left ih =>
    rw [sameNode_iff, sameNode_iff, children_grow grown inside, children_grow grown inside', grown.node inside,
      grown.node inside', sameFields_grow grown (fun _ => dag.refs_size) (fun _ => dag.refs_size)]
    have each (child : NodeRef) (reads : child ∈ dag.children left) (other : NodeRef)
        (reads' : other ∈ dag.children right) : Near hasher later child other ↔ Near hasher dag child other :=
      or_congr_right (ih child (dag.child_lt reads) (dag.refs_size (List.mem_append_left _ reads))
        (dag.refs_size (List.mem_append_left _ reads')))
    exact and_congr_left fun _ => ⟨forall₂_imp_mem fun child reads other reads' => (each child reads other reads').mp,
      forall₂_imp_mem fun child reads other reads' => (each child reads other reads').mpr⟩

theorem Near.grow {left right : NodeRef} (inside : left < dag.size) (inside' : right < dag.size)
    (near : Near hasher dag left right) : Near hasher later left right :=
  near.imp_right (sameNode_grow grown inside inside').mpr

theorem structuralHash_grow {ref : NodeRef} (inside : ref < dag.size) :
    structuralHash hasher later ref = structuralHash hasher dag ref := by
  induction ref using Nat.strongRecOn with
  | ind ref ih =>
    rw [structuralHash_eq, structuralHash_eq, hashOver, hashOver, grown.node inside,
      contents_grow grown fun _ => dag.refs_size]
    congr 1
    apply List.map_congr_left
    intro child reads
    exact ih child (dag.child_lt reads) (dag.refs_size (List.mem_append_left _ reads))

end Grow
end Equal

end AsapPlanner.Sharing
