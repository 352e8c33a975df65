import AsapPlanner.Ir.Operator
import Mathlib.Logic.Relation

/-!
Operator nodes and the store that holds them. A shared pointer is a position in the store: two
pointers are equal when the positions are, and every node holds only nodes allocated before it.
-/

namespace AsapPlanner.Ir
open Rust Traversal

/-- The output category of an operator. -/
inductive OperatorResultKind
  | relation | instantVector | rangeVector | state
deriving DecidableEq, Repr

def OperatorResultKind.name : OperatorResultKind → String
  | relation => "Relation" | instantVector => "InstantVector" | rangeVector => "RangeVector"
  | state => "State"

instance : Derived OperatorResultKind := ⟨fun kind => .variant kind.name []⟩

inductive ExecutionTiming
  | ingestionTime | queryTime
deriving DecidableEq, Repr

def ExecutionTiming.name : ExecutionTiming → String
  | ingestionTime => "IngestionTime" | queryTime => "QueryTime"

instance : Derived ExecutionTiming := ⟨fun timing => .variant timing.name []⟩

inductive Medium
  | memory | disk
deriving DecidableEq, Repr

def Medium.name : Medium → String
  | memory => "Memory" | disk => "Disk"

instance : Derived Medium := ⟨fun medium => .variant medium.name []⟩

/-- Whether and when a sub-DAG's output is stored. -/
inductive Materialization
  | notMaterialized
  | matAtIngestion (medium : Medium)
  | matAtQuery (medium : Medium)
  | matAtQueryKeptAcrossEvaluations (medium : Medium)
deriving DecidableEq, Repr

instance : Derived Materialization := ⟨fun materialization => match materialization with
  | .notMaterialized => .variant "NotMaterialized" []
  | .matAtIngestion medium => .variant "MatAtIngestion" [datum medium]
  | .matAtQuery medium => .variant "MatAtQuery" [datum medium]
  | .matAtQueryKeptAcrossEvaluations medium =>
    .variant "MatAtQueryKeptAcrossEvaluations" [datum medium]⟩

def Materialization.timing : Materialization → ExecutionTiming
  | matAtIngestion _ => .ingestionTime
  | notMaterialized | matAtQuery _ | matAtQueryKeptAcrossEvaluations _ => .queryTime

/-! ### Nodes -/

/-- An operator with the properties every traversal needs. -/
structure OperatorNode where
  operator : Operator NodeRef
  resultKind : OperatorResultKind
  schema : Schema
  guarantee : Option AccuracyGuarantee
  timing : Option ExecutionTiming
  materialization : Materialization

/-- `VALUES` without rows. -/
instance : Inhabited OperatorNode := ⟨{
  operator := .nonASAP (.values [] (Schema.new []))
  resultKind := .relation
  schema := Schema.new []
  guarantee := none
  timing := none
  materialization := .notMaterialized }⟩

namespace OperatorNode

def children (node : OperatorNode) : List NodeRef := node.operator.children

/-- Every node this one holds: its children, and a population's own input. -/
def refs (node : OperatorNode) : List NodeRef := node.children ++ node.operator.held.toList

def nonAsap (node : OperatorNode) : Option (NonASAPOp NodeRef) :=
  match node.operator with
  | .nonASAP op => some op
  | .asap _ => none

def asap (node : OperatorNode) : Option (ASAPOp NodeRef) :=
  match node.operator with
  | .asap op => some op
  | .nonASAP _ => none

def isAsap (node : OperatorNode) : Bool := node.asap.isSome

end OperatorNode

/-! ### The store -/

/-- All allocated nodes, each holding only earlier ones. -/
structure Dag where
  nodes : List OperatorNode
  acyclic : ∀ (ref : NodeRef) (node : OperatorNode), nodes[ref]? = some node →
    ∀ held ∈ node.refs, held < ref

namespace Dag

def size (dag : Dag) : Nat := dag.nodes.length

def node (dag : Dag) (ref : NodeRef) : OperatorNode := dag.nodes[ref]?.getD default

def children (dag : Dag) (ref : NodeRef) : List NodeRef := (dag.node ref).children

theorem refs_lt (dag : Dag) {ref held : NodeRef} (holds : held ∈ (dag.node ref).refs) :
    held < ref := by
  unfold node at holds
  cases present : dag.nodes[ref]? with
  | none =>
    rw [present] at holds
    cases holds
  | some node =>
    rw [present] at holds
    exact dag.acyclic ref node present held holds

theorem child_lt (dag : Dag) {ref child : NodeRef} (reads : child ∈ dag.children ref) :
    child < ref :=
  dag.refs_lt (List.mem_append_left _ reads)

theorem held_lt (dag : Dag) {ref held : NodeRef}
    (holds : (dag.node ref).operator.held = some held) : held < ref := by
  apply dag.refs_lt
  simp [OperatorNode.refs, holds]

theorem getElem?_snoc {α : Type} {items : List α} {last item : α} {index : Nat}
    (found : (items ++ [last])[index]? = some item) :
    items[index]? = some item ∨ (index = items.length ∧ last = item) := by
  rw [List.getElem?_append] at found
  split at found
  · exact .inl found
  · have place : index - items.length = 0 := by
      have inside := (List.getElem?_eq_some_iff.mp found).1
      simp only [List.length_singleton] at inside
      omega
    rw [place] at found
    cases found
    exact .inr ⟨by omega, rfl⟩

/-- Allocate a node after those it holds. -/
def alloc (dag : Dag) (node : OperatorNode) : NodeRef × Dag :=
  if earlier : ∀ held ∈ node.refs, held < dag.size then
    (dag.size, {
      nodes := dag.nodes ++ [node]
      acyclic := by
        intro ref other present held holds
        rcases getElem?_snoc present with old | ⟨rfl, rfl⟩
        · exact dag.acyclic ref other old held holds
        · exact earlier held holds })
  else (dag.size, dag)

/-- `later` has every node of `dag` where it was. -/
def Extends (later dag : Dag) : Prop := dag.nodes <+: later.nodes

theorem Extends.refl (dag : Dag) : dag.Extends dag := List.prefix_refl _

theorem Extends.trans {a b c : Dag} (ab : b.Extends a) (bc : c.Extends b) : c.Extends a :=
  List.IsPrefix.trans ab bc

theorem Extends.size_le {later dag : Dag} (grown : later.Extends dag) : dag.size ≤ later.size :=
  grown.length_le

theorem Extends.node {later dag : Dag} (grown : later.Extends dag) {ref : NodeRef}
    (inside : ref < dag.size) : later.node ref = dag.node ref := by
  obtain ⟨more, appended⟩ := grown
  unfold Dag.node
  rw [← appended, List.getElem?_append_left inside]

theorem alloc_extends (dag : Dag) (node : OperatorNode) : (dag.alloc node).2.Extends dag := by
  unfold alloc
  split
  · exact ⟨[node], rfl⟩
  · exact Extends.refl dag

section Alloc
variable {dag : Dag} {new : OperatorNode} (earlier : ∀ held ∈ new.refs, held < dag.size)
include earlier

theorem alloc_size : (dag.alloc new).2.size = dag.size + 1 := by
  unfold alloc
  rw [dif_pos earlier]
  simp [size]

theorem alloc_node : (dag.alloc new).2.node dag.size = new := by
  unfold alloc
  rw [dif_pos earlier]
  simp [node, size]

end Alloc

theorem alloc_ref (dag : Dag) (new : OperatorNode) : (dag.alloc new).1 = dag.size := by
  unfold alloc
  split <;> rfl

theorem refs_size (dag : Dag) {ref held : NodeRef} (holds : held ∈ (dag.node ref).refs) :
    held < dag.size := by
  by_cases inside : ref < dag.size
  · exact Nat.lt_trans (dag.refs_lt holds) inside
  · have absent : dag.nodes[ref]? = none := List.getElem?_eq_none (Nat.le_of_not_lt inside)
    unfold node at holds
    rw [absent] at holds
    cases holds

/-- `other` is reached from `ref` along children. -/
def Reaches (dag : Dag) : NodeRef → NodeRef → Prop :=
  Relation.ReflTransGen fun ref child => child ∈ dag.children ref

theorem Reaches.le {dag : Dag} {ref other : NodeRef} (reached : dag.Reaches ref other) :
    other ≤ ref := by
  induction reached with
  | refl => exact Nat.le_refl ref
  | tail _ reads ih => exact Nat.le_trans (Nat.le_of_lt (dag.child_lt reads)) ih

theorem Extends.reaches {later dag : Dag} (grown : later.Extends dag) {ref other : NodeRef}
    (inside : ref < dag.size) (reached : later.Reaches ref other) :
    dag.Reaches ref other ∧ other < dag.size := by
  induction reached with
  | refl => exact ⟨.refl, inside⟩
  | tail _ reads ih =>
    obtain ⟨before, here⟩ := ih
    unfold children at reads
    rw [grown.node here] at reads
    exact ⟨before.tail reads, dag.refs_size (List.mem_append_left _ reads)⟩

/-- A store built from nodes that each hold only earlier ones. -/
def ofNodes (nodes : List OperatorNode) : Dag := nodes.foldl (fun dag node => (dag.alloc node).2) {
  nodes := []
  acyclic := by
    intro ref node present
    cases present }

/-! ### Values -/

/-- A node as its derived traits see it, through every node it holds. -/
def datumOf (dag : Dag) (ref : NodeRef) : Datum :=
  let node := dag.node ref
  let below : NodeRef → Datum := fun held =>
    if _earlier : held < ref then datumOf dag held else .node .tuple []
  .record "OperatorNode" [
    ("operator", @Operator.toDatum NodeRef ⟨below⟩ below node.operator),
    ("result_kind", datum node.resultKind), ("schema", datum node.schema),
    ("guarantee", datum node.guarantee), ("timing", datum node.timing),
    ("materialization", datum node.materialization)]

theorem toDatum_congr {C : Type} [Derived C] {op : Operator C} {f g : NodeRef → Datum}
    (agree : ∀ held ∈ op.held, f held = g held) : op.toDatum f = op.toDatum g := by
  cases op with
  | nonASAP op => rfl
  | asap op =>
    cases op with
    | maintainPopulation child population =>
      have same : population.toDatum f = population.toDatum g := by
        obtain ⟨input, maxK, quantiles⟩ := population
        cases input with
        | currentSeries input => rfl
        | rows input valueColumn grouping =>
          simp only [MaintainedPopulation.toDatum, PopulationInput.toDatum, agree input rfl]
      simp only [Operator.toDatum, ASAPOp.toDatum, same]
    | _ => rfl

theorem Extends.datumOf {later dag : Dag} (grown : later.Extends dag) {ref : NodeRef}
    (inside : ref < dag.size) : later.datumOf ref = dag.datumOf ref := by
  induction ref using Nat.strongRecOn with
  | ind ref ih =>
    have below : (fun held => if _earlier : held < ref then later.datumOf held else .node .tuple []) =
        fun held => if _earlier : held < ref then dag.datumOf held else .node .tuple [] := by
      funext held
      split
      · rename_i earlier
        exact ih held earlier (Nat.lt_trans earlier inside)
      · rfl
    rw [Dag.datumOf, Dag.datumOf]
    simp only [grown.node inside]
    rw [below]

def operatorDatum (dag : Dag) (ref : NodeRef) : Datum :=
  @Operator.toDatum NodeRef ⟨dag.datumOf⟩ dag.datumOf (dag.node ref).operator

/-- A node's own operator: every child replaced by `()`. -/
def ownFields (dag : Dag) (ref : NodeRef) : Datum :=
  ((dag.node ref).operator.mapChildren fun _ => ()).toDatum dag.datumOf

theorem Extends.ownFields {later dag : Dag} (grown : later.Extends dag) {ref : NodeRef}
    (inside : ref < dag.size) : later.ownFields ref = dag.ownFields ref := by
  unfold Dag.ownFields
  rw [grown.node inside]
  refine toDatum_congr fun held holds => grown.datumOf ?_
  rw [Operator.held_mapChildren] at holds
  exact Nat.lt_trans (dag.held_lt holds) inside

end Dag
end AsapPlanner.Ir
