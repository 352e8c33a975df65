import AsapPlanner.Canonical.Schema
import AsapPlanner.Rust.Integer
import AsapPlanner.Rust.Result
import AsapPlanner.Ranking.Partitions
import AsapPlanner.Traversal.Run

/-!
SQL's per-partition top-k over `ROW_NUMBER`, rewritten to the limit of a sort per partition. The rows of
a plan under any meaning of its scalar expressions.
-/

namespace AsapPlanner.Canonical
open Rust Ir Construction Traversal

/-! ### The idiom -/

/-- The input column that a projection's column passes through. -/
def underlying (cols : List (ProjectItem NodeRef)) (column : ColumnId) : Option ColumnId :=
  match (cols[column]?).map ProjectItem.expr with
  | some (.column below) => some below
  | _ => none

/-- The `k` of `rn <= k`, `rn < k` or `rn = 1`, where it is at least 1. -/
def boundedRows (op : CompareOpKind) (bound : Int) : Option Nat :=
  let most : Option Int := match op with
    | .le => some bound
    -- `saturating_sub`
    | .lt => some (max i64Min (bound - 1))
    | .eq => if bound = 1 then some 1 else none
    | _ => none
  (most.filter fun k => 1 ≤ k).map Int.toNat

/-- The window under a filter, and the derived table's columns between them. -/
def derivedTable (dag : Dag) (filterChild : NodeRef) : NodeRef × Option (List (ProjectItem NodeRef)) :=
  match (dag.node filterChild).nonAsap with
  | some (.project cols _ child) => (child, some cols)
  | _ => (filterChild, none)

def windowColumn (throughDerivedTable : Option (List (ProjectItem NodeRef))) (column : ColumnId) :
    Option ColumnId :=
  match throughDerivedTable with
  | some cols => underlying cols column
  | none => some column

/-- A select item as a column of the window's input under its output name; `rn` is none. -/
def keptItem (throughDerivedTable : Option (List (ProjectItem NodeRef))) (rowNumber : Nat)
    (item : ProjectItem NodeRef × SchemaField) : Option (ProjectItem NodeRef) :=
  match item.1.expr with
  | .column column =>
    ((windowColumn throughDerivedTable column).filter fun below => below < rowNumber).map fun below =>
      ⟨some item.2.name, .column below⟩
  | _ => none

/-- A select list over `rn <= k` of a `ROW_NUMBER` window that drops `rn`. -/
structure RowNumberTopK where
  rowsPerPartition : Nat
  partitionBy : GroupKeys
  orderBy : List (SortKey NodeRef)
  /-- The window's input. -/
  ranked : NodeRef
  kept : List (ProjectItem NodeRef)
  qualifier : Option String

def rowNumberTopK (dag : Dag) (node : OperatorNode) : Option RowNumberTopK :=
  match node.operator with
  | .nonASAP (.project selectList qualifier filter) =>
    match (dag.node filter).operator with
    | .nonASAP (.filter ⟨.compare (.column rnColumn) op (.literal (.int64 bound)) _⟩ filterChild) => do
      let rows ← boundedRows op bound
      let (window, throughDerivedTable) := derivedTable dag filterChild
      match (dag.node window).operator with
      | .nonASAP (.sqlWindowFunc .rowNumber [] partitionBy orderBy _ _ ranked) =>
        let rowNumber := (dag.node ranked).schema.fields.length
        if orderBy.isEmpty ∨ windowColumn throughDerivedTable rnColumn ≠ some rowNumber then none
        else do
          let kept ← (selectList.zip node.schema.fields).mapM (keptItem throughDerivedTable rowNumber)
          pure ⟨rows, partitionBy, orderBy, ranked, kept, qualifier⟩
      | _ => none
    | _ => none
  | _ => none

/-! ### The rewrite -/

/-- The place of an input column in a select list. -/
def positionInKept (kept : List (ProjectItem NodeRef)) (column : ColumnId) : Option Nat :=
  kept.findIdx? fun item => isColumn item.expr column

def orderInKept (kept : List (ProjectItem NodeRef)) (key : SortKey NodeRef) : Option (SortKey NodeRef) :=
  match key.expr with
  | .column column => (positionInKept kept column).map fun position => { key with expr := .column position }
  | _ => none

section
variable (d : Derivation)

def limitSort (dag : Dag) (rows : Nat) (partitionBy : GroupKeys) (keys : List (SortKey NodeRef))
    (child : NodeRef) : Checked (NodeRef × Dag) := do
  let (sorted, dag) ← newShared d dag (.nonASAP (.sort keys partitionBy child))
  newShared d dag (.nonASAP (.limit (some rows) 0 partitionBy sorted))

def RowNumberTopK.inKept (m : RowNumberTopK) : Option (List ColumnId × List (SortKey NodeRef)) :=
  match m.partitionBy.keys.mapM (positionInKept m.kept), m.orderBy.mapM (orderInKept m.kept) with
  | some partition, some order => if m.partitionBy.without then none else some (partition, order)
  | _, _ => none

def RowNumberTopK.rewrite (m : RowNumberTopK) (dag : Dag) : Checked (NodeRef × Dag) :=
  match m.inKept with
  | some (partition, order) => do
    let (selected, dag) ← newShared d dag (.nonASAP (.project m.kept m.qualifier m.ranked))
    limitSort d dag m.rowsPerPartition (.by partition) order selected
  | none => do
    let (limited, dag) ← limitSort d dag m.rowsPerPartition m.partitionBy m.orderBy m.ranked
    newShared d dag (.nonASAP (.project m.kept m.qualifier limited))

def tryRewriteRowNumberTopK (dag : Dag) (node : OperatorNode) : Checked (Option (NodeRef × Dag)) :=
  match rowNumberTopK dag node with
  | none => .ok none
  | some m => some <$> m.rewrite d dag

end

/-! ### What a match says -/

/-- A derived table between the window and the filter passes the window's columns on. -/
inductive Passes (dag : Dag) (window : NodeRef) : NodeRef → Option (List (ProjectItem NodeRef)) → Prop
  | direct : Passes dag window window none
  | table {filterChild : NodeRef} {cols : List (ProjectItem NodeRef)} {qualifier : Option String}
      (selects : (dag.node filterChild).operator = .nonASAP (.project cols qualifier window)) :
      Passes dag window filterChild (some cols)

/-- The operators of the idiom from the window up. -/
structure RowNumberTopK.Matches (dag : Dag) (node : OperatorNode) (m : RowNumberTopK) : Prop where
  orderBy : m.orderBy ≠ []
  chain : ∃ (selectList : List (ProjectItem NodeRef)) (filter filterChild window : NodeRef)
    (throughDerivedTable : Option (List (ProjectItem NodeRef))) (rnColumn : ColumnId) (op : CompareOpKind)
    (bound : Int) (semantics : ExprSemantics) (frame : Option WindowFrame) (outputName : String),
    node.operator = .nonASAP (.project selectList m.qualifier filter) ∧
    (dag.node filter).operator =
      .nonASAP (.filter ⟨.compare (.column rnColumn) op (.literal (.int64 bound)) semantics⟩ filterChild) ∧
    boundedRows op bound = some m.rowsPerPartition ∧
    Passes dag window filterChild throughDerivedTable ∧
    (dag.node window).operator =
      .nonASAP (.sqlWindowFunc .rowNumber [] m.partitionBy m.orderBy frame outputName m.ranked) ∧
    windowColumn throughDerivedTable rnColumn = some (dag.node m.ranked).schema.fields.length ∧
    (selectList.zip node.schema.fields).mapM
      (keptItem throughDerivedTable (dag.node m.ranked).schema.fields.length) = some m.kept

theorem derivedTable_passes (dag : Dag) (filterChild : NodeRef) :
    Passes dag (derivedTable dag filterChild).1 filterChild (derivedTable dag filterChild).2 := by
  unfold derivedTable OperatorNode.nonAsap
  cases operator : (dag.node filterChild).operator with
  | asap op => exact .direct
  | nonASAP op =>
    cases op with
    | project cols qualifier child => exact .table operator
    | _ => exact .direct

theorem rowNumberTopK_matches {dag : Dag} {node : OperatorNode} {m : RowNumberTopK}
    (found : rowNumberTopK dag node = some m) : m.Matches dag node := by
  unfold rowNumberTopK at found
  split at found
  · next selectList qualifier filter projected =>
    split at found
    · next rnColumn op bound semantics filterChild filtered =>
      obtain ⟨rows, counted, found⟩ := Option.bind_eq_some_iff.mp found
      dsimp only at found
      split at found
      · next partitionBy orderBy frame outputName ranked windowed =>
        split at found
        · cases found
        · next sound =>
          rw [not_or, not_not] at sound
          obtain ⟨kept, items, found⟩ := Option.bind_eq_some_iff.mp found
          cases found
          refine ⟨fun none => sound.1 (List.isEmpty_iff.mpr none), selectList, filter, filterChild, _, _, rnColumn,
            op, bound, semantics, frame, outputName, projected, filtered, counted,
            derivedTable_passes dag filterChild, windowed, sound.2, items⟩
      · cases found
    · cases found
  · cases found

/-! ### The rows of a plan -/

/-! ### Relations -/

/-- The comparisons of row numbers that the idiom uses. -/
def compareInt (op : CompareOpKind) (a b : Int) : Option Bool :=
  match op with
  | .eq => some (a = b)
  | .lt => some (a < b)
  | .le => some (a ≤ b)
  | _ => none

/-- A meaning of scalar expressions over a row, of grouping and of ordering, with the row numbers among its values. -/
structure Semantics (V κ : Type) where
  eval : ScalarExpr NodeRef → List V → V
  holds : V → Bool
  /-- What grouping tells apart. -/
  key : V → κ
  /-- The order of two values of a sort key that is ascending, with nulls first. -/
  compare : Bool → Bool → V → V → Ordering
  number : Nat → V
  /-- The columns that a grouping by exclusion keeps. -/
  others : Schema → List ColumnId → List ColumnId
  eval_column : ∀ {row : List V} {id : ColumnId} {v : V}, row[id]? = some v → eval (.column id) row = v
  eval_compare : ∀ {row : List V} {id : ColumnId} {n : Nat} {op : CompareOpKind} {bound : Int} {result : Bool}
    (semantics : ExprSemantics), row[id]? = some (number n) → compareInt op n bound = some result →
    holds (eval (.compare (.column id) op (.literal (.int64 bound)) semantics) row) = result

section
variable {V κ : Type} (s : Semantics V κ)

def projectRow (cols : List (ProjectItem NodeRef)) (row : List V) : List V :=
  cols.map fun item => s.eval item.expr row

def partKey (schema : Schema) (group : GroupKeys) (row : List V) : List (Option κ) :=
  (if group.without then s.others schema group.keys else group.keys).map fun column => row[column]?.map s.key

def rowLe (keys : List (SortKey NodeRef)) (a b : List V) : Bool :=
  ((keys.map fun key => s.compare key.ascending key.nullsFirst (s.eval key.expr a) (s.eval key.expr b)).foldr
    Ordering.then .eq).isLE

def rowsKept (n : Option Nat) (offset place : Nat) : Bool := offset ≤ place && n.all fun n => place < offset + n

/-! ### Rows -/

variable [DecidableEq κ]

def relation (base : NodeRef → List (List V)) (dag : Dag) (ref : NodeRef) : List (List V) :=
  let of (child : NodeRef) : List (List V) := if _below : child < ref then relation base dag child else []
  match (dag.node ref).operator with
  | .nonASAP (.project cols _ child) => (of child).map (projectRow s cols)
  | .nonASAP (.filter pred child) => (of child).filter fun row => s.holds (s.eval pred.expr row)
  | .nonASAP (.sort keys partitionBy child) =>
    Ranking.sorted (partKey s (dag.node child).schema partitionBy) (rowLe s keys) (of child)
  | .nonASAP (.limit n offset partitionBy child) =>
    Ranking.limit (partKey s (dag.node child).schema partitionBy) (rowsKept n offset) [] (of child)
  | .nonASAP (.sqlWindowFunc .rowNumber _ partitionBy orderBy _ _ child) =>
    (Ranking.numbered (partKey s (dag.node child).schema partitionBy) (rowLe s orderBy) (of child)).map
      fun item => item.1 ++ [s.number item.2]
  | _ => base ref

variable {s} {base : NodeRef → List (List V)} {dag : Dag} {ref child : NodeRef}

theorem below_child {op : NonASAPOp NodeRef} (operator : (dag.node ref).operator = .nonASAP op)
    (reads : child ∈ op.inputs) : child < ref := by
  refine dag.child_lt ?_
  rw [Dag.children, OperatorNode.children, operator]
  exact List.mem_append_left _ reads

theorem relation_project {cols : List (ProjectItem NodeRef)} {qualifier : Option String}
    (operator : (dag.node ref).operator = .nonASAP (.project cols qualifier child)) :
    relation s base dag ref = (relation s base dag child).map (projectRow s cols) := by
  have below := below_child operator (List.mem_singleton_self child)
  rw [relation, operator]
  dsimp only
  rw [dif_pos below]

theorem relation_filter {pred : Predicate NodeRef}
    (operator : (dag.node ref).operator = .nonASAP (.filter pred child)) :
    relation s base dag ref = (relation s base dag child).filter fun row => s.holds (s.eval pred.expr row) := by
  have below := below_child operator (List.mem_singleton_self child)
  rw [relation, operator]
  dsimp only
  rw [dif_pos below]

theorem relation_sort {keys : List (SortKey NodeRef)} {partitionBy : GroupKeys}
    (operator : (dag.node ref).operator = .nonASAP (.sort keys partitionBy child)) :
    relation s base dag ref =
      Ranking.sorted (partKey s (dag.node child).schema partitionBy) (rowLe s keys) (relation s base dag child) := by
  have below := below_child operator (List.mem_singleton_self child)
  rw [relation, operator]
  dsimp only
  rw [dif_pos below]

theorem relation_limit {n : Option Nat} {offset : Nat} {partitionBy : GroupKeys}
    (operator : (dag.node ref).operator = .nonASAP (.limit n offset partitionBy child)) :
    relation s base dag ref =
      Ranking.limit (partKey s (dag.node child).schema partitionBy) (rowsKept n offset) []
        (relation s base dag child) := by
  have below := below_child operator (List.mem_singleton_self child)
  rw [relation, operator]
  dsimp only
  rw [dif_pos below]

theorem relation_rowNumber {args : List (ScalarExpr NodeRef)} {partitionBy : GroupKeys}
    {orderBy : List (SortKey NodeRef)} {frame : Option WindowFrame} {outputName : String}
    (operator : (dag.node ref).operator =
      .nonASAP (.sqlWindowFunc .rowNumber args partitionBy orderBy frame outputName child)) :
    relation s base dag ref =
      (Ranking.numbered (partKey s (dag.node child).schema partitionBy) (rowLe s orderBy)
        (relation s base dag child)).map fun item => item.1 ++ [s.number item.2] := by
  have below := below_child operator (List.mem_singleton_self child)
  rw [relation, operator]
  dsimp only
  rw [dif_pos below]

theorem relation_extends {later : Dag} (grown : later.Extends dag) (inside : ref < dag.size) :
    relation s base later ref = relation s base dag ref := by
  induction ref using Nat.strongRecOn with
  | ind ref ih =>
    have same := grown.node inside
    have under : ∀ {op : NonASAPOp NodeRef} {child : NodeRef}, (dag.node ref).operator = .nonASAP op →
        child ∈ op.inputs → later.node child = dag.node child ∧
          relation s base later child = relation s base dag child := by
      intro op child operator reads
      have below := below_child operator reads
      exact ⟨grown.node (Nat.lt_trans below inside), ih child below (Nat.lt_trans below inside)⟩
    cases operator : (dag.node ref).operator with
    | asap op => rw [relation, relation, same, operator]
    | nonASAP op =>
      have operator' : (later.node ref).operator = .nonASAP op := same ▸ operator
      cases op with
      | project cols qualifier child =>
        obtain ⟨_, rows⟩ := under operator (List.mem_singleton_self child)
        rw [relation_project operator', relation_project operator, rows]
      | filter pred child =>
        obtain ⟨_, rows⟩ := under operator (List.mem_singleton_self child)
        rw [relation_filter operator', relation_filter operator, rows]
      | sort keys partitionBy child =>
        obtain ⟨node, rows⟩ := under operator (List.mem_singleton_self child)
        rw [relation_sort operator', relation_sort operator, rows, node]
      | limit n offset partitionBy child =>
        obtain ⟨node, rows⟩ := under operator (List.mem_singleton_self child)
        rw [relation_limit operator', relation_limit operator, rows, node]
      | sqlWindowFunc func args partitionBy orderBy frame outputName child =>
        cases func with
        | rowNumber =>
          obtain ⟨node, rows⟩ := under operator (List.mem_singleton_self child)
          rw [relation_rowNumber operator', relation_rowNumber operator, rows, node]
        | _ => rw [relation, relation, same, operator]
      | _ => rw [relation, relation, same, operator]

end

end AsapPlanner.Canonical
