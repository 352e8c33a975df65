import AsapPlanner.Expressions.Columnar
import AsapPlanner.Grouping.Agreement
import AsapPlanner.Grouping.GroupTable
import AsapPlanner.Rust.Result
import AsapPlanner.Sorting.CompareKey
import AsapPlanner.Sorting.CooperativeSort
import Mathlib.Algebra.Group.Nat.Defs

/-!
The sort operator: groups in key order, then rows by the sort keys.
-/

namespace AsapPlanner.Grouping
open Ir

/-- The elements at these places, in this order. -/
def Selection.take (indices : List Nat) : Selection where
  pick items := indices.filterMap (items[·]?)
  natural f items := by
    rw [List.map_filterMap]
    congr 1
    funext index
    exact List.getElem?_map

/-- The rows `indices`, in that order. -/
def Batch.take (batch : Batch) (indices : List Nat) : Batch := batch.select (.take indices)

theorem Batch.numRows_take (batch : Batch) {indices : List Nat}
    (inside : ∀ index ∈ indices, index < batch.numRows) :
    (batch.take indices).numRows = indices.length := by
  show (indices.filterMap ((List.range batch.numRows)[·]?)).length = _
  have all : indices.filterMap ((List.range batch.numRows)[·]?) = indices := by
    induction indices with
    | nil => rfl
    | cons index indices ih =>
      have here := inside index List.mem_cons_self
      rw [List.filterMap_cons, List.getElem?_range here,
        ih fun other member => inside other (List.mem_cons_of_mem _ member)]
  rw [all]

def Column.WellTyped : Column → Prop
  | .states family _ => ∀ dtype, family ≠ .plain dtype
  | column => ∀ dtype, column.dtype = .plain dtype → ∀ v ∈ column.decode, v.hasType dtype true = true

def Batch.WellTyped (batch : Batch) : Prop := ∀ column ∈ batch.columns, column.WellTyped

mutual
theorem Value.key_of_hasType : ∀ {v : Value} {dtype : DataType} {nullable : Bool},
    v.hasType dtype nullable = true → ∃ key, v.key = .ok key
  | .null, _, _, _ | .bool _, _, _, _ | .int64 _, _, _, _ | .float64 _, _, _, _ | .utf8 _, _, _, _
  | .timestamp _, _, _, _ | .date _, _, _, _ | .interval .., _, _, _ => ⟨_, by rw [Value.key]⟩
  | .list items, .list element, _, typed => by
    obtain ⟨body, made⟩ := Value.keys_of_allHaveType typed
    exact ⟨10 :: body, by rw [Value.key, made]; rfl⟩
  | .struct items, .struct fields, _, typed => by
    obtain ⟨body, made⟩ := Value.keys_of_fieldsHaveType typed
    exact ⟨11 :: body, by rw [Value.key, made]; rfl⟩
  | .map entries, .map keyType valueType valueNullable, _, typed => by
    obtain ⟨body, made⟩ := Value.entryKeys_of_haveType typed
    exact ⟨12 :: body, by rw [Value.key, made]; rfl⟩
  | .summary _, dtype, _, typed => by cases dtype <;> exact Bool.noConfusion typed

theorem Value.keys_of_allHaveType : ∀ {items : List Value} {dtype : DataType} {nullable : Bool},
    Value.allHaveType items dtype nullable = true → ∃ body, Value.keys items = .ok body
  | [], _, _, _ => ⟨[], rfl⟩
  | item :: rest, _, _, typed => by
    obtain ⟨first, others⟩ := Bool.and_eq_true_iff.mp typed
    obtain ⟨key, made⟩ := Value.key_of_hasType first
    obtain ⟨body, rest_made⟩ := Value.keys_of_allHaveType others
    exact ⟨_, by rw [Value.keys, made, rest_made]; rfl⟩

theorem Value.keys_of_fieldsHaveType : ∀ {items : List Value} {fields : List (Ir.Field DataType)},
    Value.fieldsHaveType items fields = true → ∃ body, Value.keys items = .ok body
  | [], [], _ => ⟨[], rfl⟩
  | item :: rest, field :: fields, typed => by
    obtain ⟨first, others⟩ := Bool.and_eq_true_iff.mp typed
    obtain ⟨key, made⟩ := Value.key_of_hasType first
    obtain ⟨body, rest_made⟩ := Value.keys_of_fieldsHaveType others
    exact ⟨_, by rw [Value.keys, made, rest_made]; rfl⟩
  | [], _ :: _, typed | _ :: _, [], typed => Bool.noConfusion typed

theorem Value.entryKeys_of_haveType : ∀ {entries : List (Value × Value)}
    {keyType valueType : DataType} {nullable : Bool},
    Value.entriesHaveType entries keyType valueType nullable = true →
      ∃ body, Value.entryKeys entries = .ok body
  | [], _, _, _, _ => ⟨[], rfl⟩
  | (key, value) :: rest, _, _, _, typed => by
    obtain ⟨both, others⟩ := Bool.and_eq_true_iff.mp typed
    obtain ⟨first, second⟩ := Bool.and_eq_true_iff.mp both
    obtain ⟨keyBytes, keyMade⟩ := Value.key_of_hasType first
    obtain ⟨valueBytes, valueMade⟩ := Value.key_of_hasType second
    obtain ⟨body, rest_made⟩ := Value.entryKeys_of_haveType others
    exact ⟨_, by rw [Value.entryKeys, keyMade, valueMade, rest_made]; rfl⟩
end

end AsapPlanner.Grouping

namespace AsapPlanner.Sorting
open Ir Rust Grouping Ordered Std Interning Traversal

/-! ### The operator -/

def plainType (dtypes : List FieldDataType) (column : Nat) : Except Error DataType :=
  match dtypes[column]? with
  | none => .error (.invalid "column out of range")
  | some (.plain dtype) => .ok dtype
  | some _ => .error (.invalid "plain value required")

def validateGroups (dtypes : List FieldDataType) (groups : List Nat) : Except Error Unit := do
  groups.forM fun column => do
    let _ ← plainType dtypes column
  if groups.dedup.length ≠ groups.length then .error (.invalid "duplicate group columns")

def checkSort (dtypes : List FieldDataType) (keys : List SortKey) (groups : List Nat) :
    Except Error Unit := do
  validateGroups dtypes groups
  keys.forM fun key => do
    let dtype ← plainType dtypes key.column
    if !ordered dtype then .error (.invalid "unsupported sort type")

/-- A sort over rows of these types. -/
structure SortOperator (dtypes : List FieldDataType) where
  keys : List SortKey
  groups : List Nat
  checked : checkSort dtypes keys groups = .ok ()

def decoded (batch : Batch) (column : Nat) : Except Error (List Value) := do
  let _ ← plainType batch.dtypes column
  pure ((batch.columns[column]?).elim [] Column.decode)

def ranks (table : GroupTable) : List Nat :=
  table.groupsInKeyOrder.zipIdx.foldl (fun rank entry => rank.set entry.1 entry.2)
    (List.replicate table.partsOfGroup.length 0)

def firstDifference (orders : List Ordering) : Ordering := (orders.find? (· ≠ .eq)).getD .eq

def compareRows (rank ids : List Nat) (keyValues : List (SortKey × List Value)) (a b : Nat) : Ordering :=
  (compare (rank.getD (ids.getD a 0) 0) (rank.getD (ids.getD b 0) 0)).then
    (firstDifference (keyValues.map fun (key, values) =>
      compareKey (values.getD a .null) (values.getD b .null) key))

/-- The collected batch in order. Row numbers are `u32`, and the row count is cut to one. -/
def SortOperator.execute {dtypes : List FieldDataType} (operator : SortOperator dtypes) (batch : Batch) :
    Except Error Batch := do
  let keyValues ← operator.keys.mapM fun key => decoded batch key.column
  if keyValues.any (·.any fun value => value.isMap && value.nestedNan) then
    .error (.invalid "NaN in collection sort key")
  let (ids, table) ← GroupTable.groupIds batch (GroupTable.new operator.groups)
  let order := cooperativeSort (compareRows (ranks table) ids (operator.keys.zip keyValues))
    (List.range (batch.numRows % 2 ^ 32))
  pure (batch.take order)

/-! ### The order of the rows -/

def compareKeys (keys : List SortKey) (batch : Batch) (a b : Nat) : Ordering :=
  firstDifference (keys.map fun key => compareKey ((GroupTable.valueAt batch key.column a).getD .null)
    ((GroupTable.valueAt batch key.column b).getD .null) key)

/-- Row `a` belongs before row `b`: its group's key is smaller, or it is of the same group and
smaller by the sort keys, or it is equal by all of them and came first. -/
def RowBefore (keys : List SortKey) (groups : List Nat) (batch : Batch) (a b : Nat) : Prop :=
  keysOf (batch.row groups a) < keysOf (batch.row groups b) ∨
    keysOf (batch.row groups a) = keysOf (batch.row groups b) ∧
      (compareKeys keys batch a b = .lt ∨ compareKeys keys batch a b = .eq ∧ a < b)

/-- `out` has the rows of `batch` in order. -/
def SortOperator.Sorts {dtypes : List FieldDataType} (operator : SortOperator dtypes)
    (batch out : Batch) : Prop :=
  ∃ order : List Nat, out = batch.take order ∧ order.Perm (List.range batch.numRows) ∧
    order.Pairwise (RowBefore operator.keys operator.groups batch)

def SortOperator.Clean {dtypes : List FieldDataType} (operator : SortOperator dtypes)
    (batch : Batch) : Prop :=
  ∀ key ∈ operator.keys, ∀ column, batch.columns[key.column]? = some column →
    ∀ v ∈ column.decode, (v.isMap && v.nestedNan) = false

section
variable {dtypes : List FieldDataType} {keys : List SortKey} {groups : List Nat} {batch : Batch}

theorem plainType_ok {column : Nat} {dtype : DataType} (fine : plainType dtypes column = .ok dtype) :
    dtypes[column]? = some (.plain dtype) := by
  unfold plainType at fine
  split at fine
  · cases fine
  · next here => rw [here, Except.ok.inj fine]
  · cases fine

theorem checkSort_ok (fine : checkSort dtypes keys groups = .ok ()) :
    (∀ group ∈ groups, ∃ dtype, dtypes[group]? = some (.plain dtype)) ∧
      ∀ key ∈ keys, ∃ dtype, dtypes[key.column]? = some (.plain dtype) ∧ ordered dtype = true := by
  obtain ⟨_, groupsFine, keysFine⟩ := bind_eq_ok fine
  obtain ⟨_, plain, _⟩ := bind_eq_ok groupsFine
  constructor
  · intro group member
    obtain ⟨dtype, fine, _⟩ := bind_eq_ok (forM_ok plain group member)
    exact ⟨dtype, plainType_ok fine⟩
  · intro key member
    obtain ⟨dtype, fine, checked⟩ := bind_eq_ok (forM_ok keysFine key member)
    refine ⟨dtype, plainType_ok fine, ?_⟩
    cases type : ordered dtype with
    | true => rfl
    | false => simp [type] at checked

theorem column_of {column : Nat} {dtype : DataType}
    (here : batch.dtypes[column]? = some (.plain dtype)) :
    ∃ array, batch.columns[column]? = some array ∧ array.dtype = .plain dtype := by
  rw [Batch.dtypes, List.getElem?_map, Option.map_eq_some_iff] at here
  exact here

theorem accepts_of (typed : batch.WellTyped)
    (plain : ∀ group ∈ groups, ∃ dtype, batch.dtypes[group]? = some (.plain dtype)) :
    Accepts groups batch := by
  intro group member
  obtain ⟨dtype, here⟩ := plain group member
  obtain ⟨array, found, type⟩ := column_of here
  refine ⟨array, found, ?_⟩
  have values := typed array (List.mem_of_getElem? found)
  cases array with
  | states family length => exact absurd type (values dtype)
  | _ => exact fun v member => Value.key_of_hasType (values dtype type v member)

theorem valueAt_eq {column row : Nat} {array : Column} (found : batch.columns[column]? = some array) :
    (GroupTable.valueAt batch column row).getD .null = array.decode.getD row .null := by
  rw [GroupTable.valueAt, found, Option.bind_some, List.getD_eq_getElem?_getD]

theorem compareLex_firstDifference (first : Ordering) (rest : List Ordering) :
    firstDifference (first :: rest) = first.then (firstDifference rest) := by
  cases first <;> rfl

theorem trans_firstDifference {α : Type} {cmps : List (α → α → Ordering)}
    (each : ∀ cmp ∈ cmps, TransCmp cmp) :
    TransCmp fun a b => firstDifference (cmps.map fun cmp => cmp a b) := by
  induction cmps with
  | nil => exact inferInstanceAs (TransCmp (compareOn fun _ : α => 0))
  | cons cmp cmps ih =>
    have first := each cmp List.mem_cons_self
    have rest := ih fun other member => each other (List.mem_cons_of_mem _ member)
    simp only [List.map_cons, compareLex_firstDifference]
    exact inferInstanceAs (TransCmp (compareLex cmp _))

/-! ### Ranks -/

theorem ranks_agree {columns : List Nat} {own : List Bool} {all : List (List Value)}
    {table : GroupTable} (holds : Holds columns own all all table) {k k' : List Key}
    (member : k ∈ all.map keysOf) (member' : k' ∈ all.map keysOf) :
    Agrees (compare ((ranks table).getD (number keysOf all k) 0)
      ((ranks table).getD (number keysOf all k') 0)) k k' := by
  obtain ⟨ordered, increasing, members, inOrder⟩ := groupsInKeyOrder_eq holds
  have distinct : (table.groupsInKeyOrder.zipIdx.map Prod.fst).Nodup := by
    rw [List.zipIdx_map_fst, inOrder]
    refine List.Nodup.map_on ?_ (increasing.imp Std.ne_of_lt)
    intro a isA b isB same
    exact (number_inj ((members a).mp isA) ((members b).mp isB)).mp same
  have position : ∀ k ∈ all.map keysOf, ∃ place, ordered[place]? = some k ∧
      (ranks table).getD (number keysOf all k) 0 = place := by
    intro k member
    obtain ⟨place, inside, here⟩ := List.getElem_of_mem ((members k).mpr member)
    have found := List.getElem?_eq_some_iff.mpr ⟨inside, here⟩
    refine ⟨place, found, ?_⟩
    have entry : (number keysOf all k, place) ∈ table.groupsInKeyOrder.zipIdx := by
      rw [List.mk_mem_zipIdx_iff_getElem?, inOrder, List.getElem?_map, found]
      rfl
    have numbered : number keysOf all k < table.partsOfGroup.length := by
      rw [holds.partsOfGroup, List.length_map]
      obtain ⟨first, held, -⟩ := getElem?_number member
      exact (List.getElem?_eq_some_iff.mp held).1
    rw [List.getD_eq_getElem?_getD, ranks,
      foldl_set_mem distinct entry (by rwa [List.length_replicate]), Option.getD_some]
  obtain ⟨place, here, rank⟩ := position k member
  obtain ⟨place', here', rank'⟩ := position k' member'
  rw [rank, rank']
  obtain ⟨inside, rfl⟩ := List.getElem?_eq_some_iff.mp here
  obtain ⟨inside', rfl⟩ := List.getElem?_eq_some_iff.mp here'
  have below := List.pairwise_iff_getElem.mp increasing
  constructor
  · rw [Nat.compare_eq_lt]
    constructor
    · exact below place place' inside inside'
    · intro less
      rcases Nat.lt_trichotomy place place' with before | same | after
      · exact before
      · subst same
        exact absurd less (Std.lt_irrefl)
      · exact absurd (Std.lt_trans less (below place' place inside' inside after)) Std.lt_irrefl
  · rw [Nat.compare_eq_eq]
    constructor
    · rintro rfl
      rfl
    · intro same
      rcases Nat.lt_trichotomy place place' with before | eq | after
      · exact absurd same (Std.ne_of_lt (below place place' inside inside' before))
      · exact eq
      · exact absurd same.symm (Std.ne_of_lt (below place' place inside' inside after))

/-! ### The whole sort -/

/-- What the operator compares rows by, once the keys' columns are read. -/
def keyValuesOf (keys : List SortKey) (batch : Batch) : List (SortKey × List Value) :=
  keys.map fun key => (key, (batch.columns[key.column]?).elim [] Column.decode)

theorem sortable_values (typed : batch.WellTyped) {key : SortKey} {dtype : DataType}
    (type : batch.dtypes[key.column]? = some (.plain dtype))
    (clean : ∀ column, batch.columns[key.column]? = some column →
      ∀ v ∈ column.decode, (v.isMap && v.nestedNan) = false) (row : Nat) :
    Sortable dtype (((batch.columns[key.column]?).elim [] Column.decode).getD row .null) := by
  obtain ⟨array, found, isType⟩ := column_of type
  rw [found, Option.elim_some, List.getD_eq_getElem?_getD]
  have values := typed array (List.mem_of_getElem? found)
  cases here : array.decode[row]? with
  | none => exact ⟨by cases dtype <;> rfl, rfl⟩
  | some v =>
    have member := List.mem_of_getElem? here
    refine ⟨?_, clean array found v member⟩
    cases array with
    | states family length => exact absurd isType (values dtype)
    | _ => exact values dtype isType v member

variable {batch : Batch} {operator : SortOperator batch.dtypes}

theorem trans_compareRows (typed : batch.WellTyped) (clean : operator.Clean batch)
    (rank ids : List Nat) : TransCmp (compareRows rank ids (keyValuesOf operator.keys batch)) := by
  obtain ⟨-, keysFine⟩ := checkSort_ok operator.checked
  have each : ∀ cmp ∈ (keyValuesOf operator.keys batch).map fun (key, values) =>
      fun a b : Nat => compareKey (values.getD a .null) (values.getD b .null) key, TransCmp cmp := by
    intro cmp member
    obtain ⟨entry, inside, rfl⟩ := List.mem_map.mp member
    obtain ⟨key, isKey, rfl⟩ := List.mem_map.mp inside
    obtain ⟨dtype, type, isOrdered⟩ := keysFine key isKey
    exact ((preorder_compareKey isOrdered key).comap _).trans_cmp
      (sortable_values typed type (clean key isKey))
  have keys : TransCmp fun a b => firstDifference ((keyValuesOf operator.keys batch).map
      fun (key, values) => compareKey (values.getD a .null) (values.getD b .null) key) := by
    have lexicographic := trans_firstDifference each
    simp only [List.map_map] at lexicographic
    exact lexicographic
  exact inferInstanceAs (TransCmp (compareLex (compareOn fun a => rank.getD (ids.getD a 0) 0)
    fun a b => firstDifference ((keyValuesOf operator.keys batch).map
      fun (key, values) => compareKey (values.getD a .null) (values.getD b .null) key)))

theorem decoded_all : operator.keys.mapM (fun key => decoded batch key.column) =
    .ok (operator.keys.map fun key => (batch.columns[key.column]?).elim [] Column.decode) := by
  obtain ⟨-, keysFine⟩ := checkSort_ok operator.checked
  refine mapM_pure fun key member => ?_
  obtain ⟨dtype, type, -⟩ := keysFine key member
  rw [decoded, plainType, type]
  rfl

theorem no_nan (clean : operator.Clean batch) :
    (operator.keys.map fun key => (batch.columns[key.column]?).elim [] Column.decode).any
      (·.any fun value => value.isMap && value.nestedNan) = false := by
  rw [List.any_eq_false]
  intro values member
  obtain ⟨key, isKey, rfl⟩ := List.mem_map.mp member
  cases found : batch.columns[key.column]? with
  | none => simp
  | some column =>
    rw [Option.elim_some, Bool.not_eq_true, List.any_eq_false]
    exact fun v inside => by simpa using clean key isKey column found v inside

theorem execute_eq (clean : operator.Clean batch) {ids : List Nat} {table : GroupTable}
    (grouped : GroupTable.groupIds batch (GroupTable.new operator.groups) = .ok (ids, table)) :
    operator.execute batch = .ok (batch.take (cooperativeSort
      (compareRows (ranks table) ids (keyValuesOf operator.keys batch))
      (List.range (batch.numRows % 2 ^ 32)))) := by
  have zipped : operator.keys.zip (operator.keys.map fun key =>
      (batch.columns[key.column]?).elim [] Column.decode) = keyValuesOf operator.keys batch := by
    rw [keyValuesOf, List.zip_map_right, List.zip_eq_zipWith, List.zipWith_self, List.map_map]
    rfl
  unfold SortOperator.execute
  simp only [decoded_all, no_nan clean, grouped, zipped, bind, Except.bind, pure, Except.pure]
  rfl

theorem length_execute (typed : batch.WellTyped) (clean : operator.Clean batch) {out : Batch}
    (run : operator.execute batch = .ok out) : out.numRows = batch.numRows % 2 ^ 32 := by
  cases grouped : GroupTable.groupIds batch (GroupTable.new operator.groups) with
  | error e =>
    unfold SortOperator.execute at run
    simp only [decoded_all, no_nan clean, grouped, bind, Except.bind] at run
    cases run
  | ok found =>
    obtain ⟨ids, table⟩ := found
    rw [execute_eq clean grouped] at run
    have := trans_compareRows typed clean (ranks table) ids
    rw [← Except.ok.inj run, cooperativeSort_eq, Batch.numRows_take]
    · rw [sortBy, List.length_mergeSort, List.length_range]
    · intro index member
      have inside := List.mem_range.mp (List.mem_mergeSort.mp member)
      exact inside.trans_le (Nat.mod_le _ _)

theorem keys_compare (operator : SortOperator batch.dtypes) (a b : Nat) :
    firstDifference ((keyValuesOf operator.keys batch).map fun (key, values) =>
      compareKey (values.getD a .null) (values.getD b .null) key) =
        compareKeys operator.keys batch a b := by
  obtain ⟨-, keysFine⟩ := checkSort_ok operator.checked
  rw [compareKeys, keyValuesOf, List.map_map]
  refine congrArg firstDifference (List.map_congr_left fun key member => ?_)
  obtain ⟨dtype, type, -⟩ := keysFine key member
  obtain ⟨array, found, -⟩ := column_of type
  rw [valueAt_eq found, valueAt_eq found]
  simp only [Function.comp_apply, found, Option.elim_some]

theorem rowBefore_of_compare {own : List Bool} {table : GroupTable} {ids : List Nat}
    (holds : Holds operator.groups own (batch.rows operator.groups) (batch.rows operator.groups) table)
    (numbered : ids = (batch.rows operator.groups).map (groupNumber (batch.rows operator.groups)))
    {a b : Nat} (inA : a < batch.numRows) (inB : b < batch.numRows)
    (order : compareRows (ranks table) ids (keyValuesOf operator.keys batch) a b = .lt ∨
      compareRows (ranks table) ids (keyValuesOf operator.keys batch) a b = .eq ∧ a < b) :
    RowBefore operator.keys operator.groups batch a b := by
  have id_of : ∀ row < batch.numRows, ids.getD row 0 =
      number keysOf (batch.rows operator.groups) (keysOf (batch.row operator.groups row)) := by
    intro row inside
    rw [numbered, Batch.rows, List.map_map, List.getD_eq_getElem?_getD, List.getElem?_map,
      List.getElem?_range inside]
    rfl
  have member : ∀ row < batch.numRows, keysOf (batch.row operator.groups row) ∈
      (batch.rows operator.groups).map keysOf := fun row inside =>
    List.mem_map_of_mem (List.mem_map_of_mem (List.mem_range.mpr inside))
  obtain ⟨less, level⟩ := ranks_agree holds (member a inA) (member b inB)
  rw [← id_of a inA, ← id_of b inB] at less level
  simp only [compareRows, keys_compare] at order
  cases byRank : compare ((ranks table).getD (ids.getD a 0) 0) ((ranks table).getD (ids.getD b 0) 0) with
  | lt => exact .inl (less.mp byRank)
  | eq =>
    rw [byRank] at order
    exact .inr ⟨level.mp byRank, order⟩
  | gt =>
    rw [byRank] at order
    rcases order with impossible | ⟨impossible, -⟩ <;> cases impossible

theorem execute_sorts (typed : batch.WellTyped) (clean : operator.Clean batch)
    (few : batch.numRows < 2 ^ 32) :
    ∃ out, operator.execute batch = .ok out ∧ operator.Sorts batch out := by
  obtain ⟨plain, -⟩ := checkSort_ok operator.checked
  have new := holds_new operator.groups (ownOf batch.dtypes operator.groups)
  obtain ⟨ids, table, grouped⟩ := groupIds_fine new rfl (accepts_of typed plain) (by
    show 0 + batch.numRows ≤ u32Max + 1
    rw [u32Max]
    omega)
  obtain ⟨holds, numbered, -⟩ := groupIds_ok new rfl grouped
  rw [List.nil_append] at holds numbered
  have := trans_compareRows typed clean (ranks table) ids
  have sorted := cooperativeSort_sorted (compareRows (ranks table) ids
    (keyValuesOf operator.keys batch)) (List.range batch.numRows)
  have perm : (cooperativeSort (compareRows (ranks table) ids (keyValuesOf operator.keys batch))
      (List.range batch.numRows)).Perm (List.range batch.numRows) := by
    rw [cooperativeSort_eq]
    exact List.mergeSort_perm _ _
  refine ⟨_, execute_eq clean grouped, _, rfl, ?_, ?_⟩
  · rwa [Nat.mod_eq_of_lt few]
  · rw [Nat.mod_eq_of_lt few]
    refine (sorted.pairwise List.pairwise_lt_range).imp_of_mem fun {a b} isA isB order => ?_
    exact rowBefore_of_compare holds numbered (List.mem_range.mp (perm.mem_iff.mp isA))
      (List.mem_range.mp (perm.mem_iff.mp isB)) order

theorem length_sorts {out : Batch} (sorts : operator.Sorts batch out) : out.numRows = batch.numRows := by
  obtain ⟨order, rfl, perm, -⟩ := sorts
  rw [Batch.numRows_take, perm.length_eq, List.length_range]
  exact fun index member => List.mem_range.mp (perm.mem_iff.mp member)

end

/-- On well-typed batches without NaN in a sort key's maps, the operator sorts exactly the batches
whose row count fits a `u32`. Sort keys are total preorders on the values of their types and never
panic, and the cooperative sort is the stable sort. -/
theorem execute_sorts_iff (batch : Batch) (operator : SortOperator batch.dtypes) (typed : batch.WellTyped)
    (clean : operator.Clean batch) :
    ((∃ out, operator.execute batch = .ok out ∧ operator.Sorts batch out) ↔ batch.numRows < 2 ^ 32) ∧
    (∀ dtype, ordered dtype = true →
      (∀ key, PreorderOn (Sortable dtype) fun a b => compareKey a b key) ∧
      ∀ a b, Sortable dtype a → Sortable dtype b → a.isNull = false → b.isNull = false →
        isNanNumber a = false → isNanNumber b = false → ∃ order, a.compare b = .ok order) ∧
    ∀ {α : Type} (compare : α → α → Ordering), TransCmp compare → ∀ rows : List α,
      cooperativeSort compare rows = rows.mergeSort fun a b => (compare a b).isLE := by
  refine ⟨⟨?_, execute_sorts typed clean⟩, fun dtype type =>
    ⟨preorder_compareKey type, fun a b isA isB present present' number number' =>
      compare_fine type isA isB present present' number number'⟩,
    fun compare _ rows => cooperativeSort_eq rows⟩
  rintro ⟨out, run, sorts⟩
  have cut := length_execute typed clean run
  rw [length_sorts sorts] at cut
  omega

def integers (values : List (Option Int64)) : Batch where
  numRows := values.length
  columns := [.int64 values]
  lengths := by
    intro column member
    rw [List.mem_singleton.mp member]
    exact List.length_map _

def byFirst (values : List (Option Int64)) : SortOperator (integers values).dtypes where
  keys := [⟨0, true, true⟩]
  groups := []
  checked := rfl

theorem integers_typed (values : List (Option Int64)) : (integers values).WellTyped := by
  intro column member
  rw [List.mem_singleton.mp member]
  intro dtype type v inside
  cases type
  obtain ⟨slot, -, rfl⟩ := List.mem_map.mp inside
  cases slot <;> rfl

theorem integers_clean (values : List (Option Int64)) : (byFirst values).Clean (integers values) := by
  intro key member column found v inside
  rw [List.mem_singleton.mp member] at found
  cases found
  obtain ⟨slot, -, rfl⟩ := List.mem_map.mp inside
  cases slot <;> rfl

theorem execute_sorts_iff_three :
    (∃ out, (byFirst [some 1, none, some 2]).execute (integers [some 1, none, some 2]) = .ok out ∧
      (byFirst [some 1, none, some 2]).Sorts (integers [some 1, none, some 2]) out) ∧
    (∃ order, Value.compare (.int64 1) (.int64 2) = .ok order) ∧
    cooperativeSort compare [3, 1, 2] = [3, 1, 2].mergeSort fun a b : Nat => (compare a b).isLE :=
  have ⟨sorts, types, merges⟩ := execute_sorts_iff (integers [some 1, none, some 2]) (byFirst _)
    (integers_typed _) (integers_clean _)
  ⟨sorts.mpr (by decide),
    (types .int64 rfl).2 (.int64 1) (.int64 2) ⟨rfl, rfl⟩ ⟨rfl, rfl⟩ rfl rfl rfl rfl,
    merges compare inferInstance [3, 1, 2]⟩

/-- 2^32 rows are cut to none. -/
theorem execute_loses_rows :
    ¬ ∃ out, (byFirst (List.replicate (2 ^ 32) (some 0))).execute
        (integers (List.replicate (2 ^ 32) (some 0))) = .ok out ∧
      (byFirst (List.replicate (2 ^ 32) (some 0))).Sorts
        (integers (List.replicate (2 ^ 32) (some 0))) out := by
  rintro ⟨out, run, sorts⟩
  have cut := length_execute (integers_typed _) (integers_clean _) run
  rw [length_sorts sorts] at cut
  have rows : (integers (List.replicate (2 ^ 32) (some 0))).numRows = 2 ^ 32 := List.length_replicate
  rw [rows] at cut
  omega

end AsapPlanner.Sorting
