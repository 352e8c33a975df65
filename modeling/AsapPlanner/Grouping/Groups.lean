import AsapPlanner.Grouping.Parts

/-!
Groups number the key tuples of the rows fed so far by first appearance, whichever table finds them.
-/

namespace AsapPlanner.Grouping
open Ir Rust Interning Traversal GroupTable

/-! ### Key tuples and part tuples -/

def keysOf (row : List Value) : List Key := row.map keyOf

def columnOf (index : Nat) (rows : List (List Value)) : List Value :=
  rows.map (·.getD index .null)

/-- The part ids of a key tuple among the rows. -/
def partsOf (all : List (List Value)) (keys : List Key) : List Nat :=
  keys.mapIdx fun index key => number keyOf (columnOf index all) key

section Tuples
variable {all done more : List (List Value)} {row : List Value} {width : Nat}

theorem mem_columnOf (member : row ∈ all) {index : Nat} {value : Value}
    (here : row[index]? = some value) : value ∈ columnOf index all := by
  refine List.mem_map.mpr ⟨row, member, ?_⟩
  rw [List.getD_eq_getElem?_getD, here, Option.getD_some]

theorem getElem?_partsOf (index : Nat) : (partsOf all (keysOf row))[index]? =
    (row[index]?).map (partOf (columnOf index all)) := by
  unfold partsOf keysOf
  rw [List.getElem?_mapIdx, List.getElem?_map, Option.map_map]
  rfl

theorem partsOf_inj (shape : ∀ row ∈ all, row.length = width) :
    Set.InjOn (partsOf all) {keys | keys ∈ all.map keysOf} := by
  intro keys known keys' known' same
  obtain ⟨row, member, rfl⟩ := List.mem_map.mp known
  obtain ⟨row', member', rfl⟩ := List.mem_map.mp known'
  have lengths : row.length = row'.length := (shape row member).trans (shape row' member').symm
  apply List.ext_getElem?
  intro index
  unfold keysOf
  rw [List.getElem?_map, List.getElem?_map]
  have parts : (partsOf all (keysOf row))[index]? = (partsOf all (keysOf row'))[index]? := by
    rw [same]
  rw [getElem?_partsOf, getElem?_partsOf] at parts
  cases here : row[index]? with
  | none =>
    have outside := List.getElem?_eq_none_iff.mp here
    rw [lengths] at outside
    rw [List.getElem?_eq_none outside]
  | some value =>
    rw [here] at parts
    cases there : row'[index]? with
    | none =>
      rw [there] at parts
      cases parts
    | some value' =>
      rw [there] at parts
      have equal := (number_inj (List.mem_map_of_mem (mem_columnOf member here))
        (List.mem_map_of_mem (mem_columnOf member' there))).mp (Option.some.inj parts)
      rw [Option.map_some, Option.map_some, equal]

theorem partsOf_append (member : row ∈ all) :
    partsOf (all ++ more) (keysOf row) = partsOf all (keysOf row) := by
  apply List.ext_getElem?
  intro index
  rw [getElem?_partsOf, getElem?_partsOf]
  cases here : row[index]? with
  | none => rfl
  | some value =>
    unfold columnOf
    rw [List.map_append]
    exact congrArg some (partOf_stable _ _ value (mem_columnOf member here))

end Tuples

/-! ### The table of the rows fed -/

def ownLabels (own : List Bool) (row : List Value) : List (Option Value) :=
  (row.zip own).map fun (value, own) => if own then some value else none

/-- Columns of all the rows are numbered, and groups of those done. -/
structure Holds (columns : List Nat) (own : List Bool) (all done : List (List Value))
    (table : GroupTable) : Prop where
  shape : ∀ row ∈ all, row.length = columns.length
  within : ∀ row ∈ done, row ∈ all
  groupColumns : table.groupColumns = columns
  parts : table.parts = (List.range columns.length).map fun index =>
    ColumnParts.of (columnOf index all)
  partsOfGroup : table.partsOfGroup = (firsts keysOf done).map fun row => partsOf all (keysOf row)
  single : columns.length = 1 → ∀ part,
    (table.groupOfPart[part]?).join = table.partsOfGroup.zipIdx.lookup [part]
  several : columns.length ≠ 1 → table.groupOfPartTuple = table.partsOfGroup.zipIdx
  labels : table.labelsOfGroup =
    if 2 ≤ columns.length ∧ own.any id then (firsts keysOf done).map (ownLabels own) else []

theorem holds_new (columns : List Nat) (own : List Bool) :
    Holds columns own [] [] (.new columns) where
  shape := by simp
  within := by simp
  groupColumns := rfl
  parts := by
    apply List.ext_getElem
    · simp [GroupTable.new]
    · intro index inside inside'
      simp [GroupTable.new, columnOf, ColumnParts.of_nil]
  partsOfGroup := rfl
  single := by simp [GroupTable.new]
  several := by simp [GroupTable.new]
  labels := by simp [GroupTable.new]

section Table
variable {columns : List Nat} {own : List Bool} {all done more : List (List Value)}
  {table next : GroupTable} {row : List Value}

theorem Holds.lookup (holds : Holds columns own all done table) (member : row ∈ all) :
    table.partsOfGroup.zipIdx.lookup (partsOf all (keysOf row)) =
      if keysOf row ∈ done.map keysOf then some (number keysOf done (keysOf row)) else none := by
  have oneToOne : Set.InjOn (partsOf all) {keys | keys ∈ done.map keysOf} := by
    apply (partsOf_inj holds.shape).mono
    intro keys known
    obtain ⟨row, seen, rfl⟩ := List.mem_map.mp known
    exact List.mem_map_of_mem (holds.within row seen)
  have renamed := firsts_rename oneToOne
  have groups : table.partsOfGroup =
      (firsts (partsOf all ∘ keysOf) done).map (partsOf all ∘ keysOf) := by
    rw [renamed, holds.partsOfGroup]
    rfl
  rw [lookup_decEq, lookup_zipIdx, groups]
  by_cases known : keysOf row ∈ done.map keysOf
  · have seen : partsOf all (keysOf row) ∈ done.map (partsOf all ∘ keysOf) := by
      rw [← List.map_map]
      exact List.mem_map_of_mem known
    rw [if_pos known, if_pos (mem_keys_firsts.mpr seen), Nat.zero_add]
    exact congrArg some (number_rename oneToOne known)
  · rw [if_neg known, if_neg]
    intro twin
    obtain ⟨other, seen, same⟩ := List.mem_map.mp (mem_keys_firsts.mp twin)
    have equal := partsOf_inj holds.shape (List.mem_map_of_mem (holds.within other seen))
      (List.mem_map_of_mem member) same
    exact known (equal ▸ List.mem_map_of_mem seen)

theorem Holds.known (holds : Holds columns own all done table) (member : row ∈ all)
    (known : keysOf row ∈ done.map keysOf) : Holds columns own all (done ++ [row]) table where
  shape := holds.shape
  within := by
    intro other seen
    rcases List.mem_append.mp seen with earlier | here
    · exact holds.within other earlier
    · rw [List.mem_singleton.mp here]
      exact member
  groupColumns := holds.groupColumns
  parts := holds.parts
  partsOfGroup := by rw [firsts_known known, holds.partsOfGroup]
  single := holds.single
  several := holds.several
  labels := by rw [firsts_known known, holds.labels]

theorem newGroup_ok {parts : List Nat} {labels : Option (List (Option Value))} {group : Nat}
    (run : GroupTable.newGroup parts labels table = .ok (group, next)) :
    group = table.partsOfGroup.length ∧ next.groupColumns = table.groupColumns ∧
      next.parts = table.parts ∧ next.partsOfGroup = table.partsOfGroup ++ [parts] ∧
      next.labelsOfGroup = table.labelsOfGroup ++ labels.toList ∧
      (∀ column part, table.groupColumns = [column] → parts = [part] → next.groupOfPart =
        (resize table.groupOfPart (part + 1)).set part (some table.partsOfGroup.length)) ∧
      (table.groupColumns.length ≠ 1 → next.groupOfPartTuple =
        table.groupOfPartTuple ++ [(parts, table.partsOfGroup.length)]) := by
  unfold GroupTable.newGroup at run
  dsimp only at run
  split at run
  · obtain ⟨numbered, grown⟩ := Prod.mk.inj (Except.ok.inj run)
    rw [← grown, ← numbered]
    split
    · rename_i column part rest columns
      refine ⟨rfl, rfl, rfl, rfl, rfl, ?_, ?_⟩
      · intro _ part' _ only
        rw [(List.cons.inj only).1]
      · intro wide
        rw [columns] at wide
        exact absurd rfl wide
    · rename_i other
      refine ⟨rfl, rfl, rfl, rfl, rfl, ?_, fun _ => rfl⟩
      intro column part columns only
      exact (other column part [] columns only).elim
  · cases run

theorem join_resize_set {α : Type} (slots : List (Option α)) (part other : Nat) (value : α) :
    (((resize slots (part + 1)).set part (some value))[other]?).join =
      if other = part then some value else (slots[other]?).join := by
  have longer : part < (resize slots (part + 1)).length := by
    unfold resize
    rw [List.length_append, List.length_replicate]
    omega
  by_cases same : other = part
  · rw [same, List.getElem?_set_self longer, if_pos rfl]
    rfl
  · rw [List.getElem?_set_ne (Ne.symm same), if_neg same]
    unfold resize
    by_cases inside : other < slots.length
    · rw [List.getElem?_append_left inside]
    · rw [List.getElem?_append_right (Nat.not_lt.mp inside),
        List.getElem?_eq_none (Nat.not_lt.mp inside), List.getElem?_replicate]
      split <;> rfl

theorem lookup_snoc {α : Type} [BEq α] [LawfulBEq α] [DecidableEq α] (items : List α)
    (item other : α) : (items ++ [item]).zipIdx.lookup other =
      (items.zipIdx.lookup other).or (if other = item then some items.length else none) := by
  rw [List.zipIdx_append, List.lookup_append, Nat.zero_add]
  congr 1
  rw [List.zipIdx_singleton, List.lookup_cons, List.lookup_nil]
  by_cases same : other = item
  · rw [if_pos same, same, beq_self_eq_true]
  · rw [if_neg same, beq_eq_false_iff_ne.mpr same]

theorem Holds.newGroup (holds : Holds columns own all done table) (member : row ∈ all)
    (fresh : keysOf row ∉ done.map keysOf) {labels : Option (List (Option Value))} {group : Nat}
    (labelled : labels =
      if 2 ≤ columns.length ∧ own.any id then some (ownLabels own row) else none)
    (run : GroupTable.newGroup (partsOf all (keysOf row)) labels table = .ok (group, next)) :
    Holds columns own all (done ++ [row]) next ∧
      group = number keysOf (done ++ [row]) (keysOf row) := by
  obtain ⟨numbered, sameColumns, sameParts, groups, held, one, many⟩ := newGroup_ok run
  have count : table.partsOfGroup.length = (firsts keysOf done).length := by
    rw [holds.partsOfGroup, List.length_map]
  refine ⟨⟨holds.shape, ?_, sameColumns.trans holds.groupColumns, sameParts.trans holds.parts, ?_,
    ?_, ?_, ?_⟩, ?_⟩
  · intro other seen
    rcases List.mem_append.mp seen with earlier | here
    · exact holds.within other earlier
    · rw [List.mem_singleton.mp here]
      exact member
  · rw [groups, holds.partsOfGroup, firsts_new fresh, List.map_append, List.map_singleton]
  · intro width part
    obtain ⟨column, only⟩ := List.length_eq_one_iff.mp width
    obtain ⟨mine, this⟩ : ∃ mine, partsOf all (keysOf row) = [mine] := by
      apply List.length_eq_one_iff.mp
      rw [← width, ← holds.shape row member]
      unfold partsOf keysOf
      rw [List.length_mapIdx, List.length_map]
    have absent : table.partsOfGroup.zipIdx.lookup [mine] = none := by
      rw [← this, holds.lookup member, if_neg fresh]
    rw [one column mine (holds.groupColumns.trans only) this, join_resize_set, groups, this,
      lookup_snoc, holds.single width part]
    by_cases same : part = mine
    · rw [same, if_pos rfl, if_pos rfl, absent]
      rfl
    · rw [if_neg same, if_neg (fun equal => same (List.cons.inj equal).1), Option.or_none]
  · intro width
    rw [many (by rw [holds.groupColumns]; exact width), holds.several width, groups,
      List.zipIdx_append, List.zipIdx_singleton, Nat.zero_add]
  · rw [held, holds.labels, labelled, firsts_new fresh]
    split
    · rw [List.map_append]
      rfl
    · rfl
  · rw [numbered, count, number_new fresh]

end Table

/-! ### A batch's columns -/

section Batch
variable {batch : Batch} {columns : List Nat} {own : List Bool} {old all done : List (List Value)}
  {table next : GroupTable}

theorem decode_eq_columnOf {index column : Nat} {array : Column}
    (here : columns[index]? = some column) (there : batch.columns[column]? = some array) :
    array.decode = columnOf index (batch.rows columns) := by
  have length : array.decode.length = batch.numRows :=
    batch.lengths array (List.mem_of_getElem? there)
  apply List.ext_getElem
  · simp [columnOf, Batch.rows, length]
  · intro row inside inside'
    simp [columnOf, Batch.rows, Batch.row, GroupTable.valueAt, here, there,
      List.getElem?_eq_getElem inside]

/-- The table once the first `step` columns have numbered the batch's rows. -/
def advance (table : GroupTable) (old rows : List (List Value)) (width step : Nat) : GroupTable :=
  { table with parts := (List.range width).map fun index =>
      ColumnParts.of (columnOf index (if index < step then old ++ rows else old)) }

theorem columnPartsAt_ok {step : Nat} {ids : List Nat} (inside : step < columns.length)
    (groupColumns : table.groupColumns = columns)
    (run : GroupTable.columnPartsAt batch step
        (advance table old (batch.rows columns) columns.length step) = .ok (ids, next)) :
    next = advance table old (batch.rows columns) columns.length (step + 1) ∧
      ids = (columnOf step (batch.rows columns)).map
        (partOf (columnOf step (old ++ batch.rows columns))) ∧
      ∃ column array, columns[step]? = some column ∧ batch.columns[column]? = some array ∧
        array.Groupable := by
  have here : columns[step]? = some columns[step] := List.getElem?_eq_getElem inside
  have parts : (advance table old (batch.rows columns) columns.length step).parts[step]? =
      some (.of (columnOf step old)) := by
    simp [advance, inside]
  have held : (advance table old (batch.rows columns) columns.length step).groupColumns = columns :=
    groupColumns
  unfold GroupTable.columnPartsAt at run
  rw [parts, held, here, Option.bind_some] at run
  cases there : batch.columns[columns[step]]? with
  | none =>
    rw [there] at run
    cases run
  | some array =>
    rw [there] at run
    obtain ⟨⟨ids', parts'⟩, made, run⟩ := bind_eq_ok run
    obtain ⟨same, changed⟩ := Prod.mk.inj (Except.ok.inj run)
    obtain ⟨grown, numbered⟩ := columnParts_ok made
    rw [decode_eq_columnOf here there] at grown numbered
    have joined : columnOf step old ++ columnOf step (batch.rows columns) =
        columnOf step (old ++ batch.rows columns) := List.map_append.symm
    rw [joined] at grown numbered
    refine ⟨?_, same.symm.trans numbered, _, array, here, there, columnParts_keys made⟩
    rw [← changed, grown]
    unfold advance
    congr 1
    · exact groupColumns.symm
    · apply List.ext_getElem
      · simp
      · intro index bound bound'
        rw [List.getElem_set, List.getElem_map, List.getElem_map, List.getElem_range]
        by_cases this : step = index
        · rw [if_pos this, ← this, if_pos (Nat.lt_succ_self step)]
        · have before : (index < step + 1) = (index < step) := by
            apply propext
            omega
          rw [if_neg this]
          simp only [before]

theorem columnsPhase_ok {step count : Nat} {idss : List (List Nat)}
    (reach : step + count = columns.length) (groupColumns : table.groupColumns = columns)
    (run : (List.range' step count).mapM (GroupTable.columnPartsAt batch)
        (advance table old (batch.rows columns) columns.length step) = .ok (idss, next)) :
    next = advance table old (batch.rows columns) columns.length columns.length ∧
      idss = (List.range' step count).map (fun index =>
        (columnOf index (batch.rows columns)).map
          (partOf (columnOf index (old ++ batch.rows columns)))) ∧
      ∀ index, step ≤ index → index < columns.length → ∃ column array,
        columns[index]? = some column ∧ batch.columns[column]? = some array ∧ array.Groupable := by
  induction count generalizing step idss with
  | zero =>
    obtain ⟨none, same⟩ := pure_ok run
    rw [← same, ← none, show step = columns.length by omega]
    refine ⟨rfl, rfl, fun index low high => ?_⟩
    omega
  | succ count ih =>
    rw [List.range'_succ, List.mapM_cons] at run
    obtain ⟨ids, mid, first, run⟩ := bind_ok run
    obtain ⟨rest, last, later, run⟩ := bind_ok run
    obtain ⟨all, same⟩ := pure_ok run
    obtain ⟨moved, here, fine⟩ := columnPartsAt_ok (by omega) groupColumns first
    rw [moved, same] at later
    obtain ⟨final, there, others⟩ := ih (by omega) later
    refine ⟨final, ?_, ?_⟩
    · rw [← all, here, there, List.range'_succ, List.map_cons]
    · intro index low high
      rcases Nat.eq_or_lt_of_le low with this | above
      · rw [← this]
        exact fine
      · exact others index above high

/-! ### A batch's rows -/

def ownOf (dtypes : List FieldDataType) (columns : List Nat) : List Bool :=
  columns.map fun column => ((dtypes[column]?).map ownLabel).getD true

theorem length_row (index : Nat) : (batch.row columns index).length = columns.length := by
  simp [Batch.row]

theorem rows_shape : ∀ row ∈ batch.rows columns, row.length = columns.length := by
  intro row member
  obtain ⟨index, _, same⟩ := List.mem_map.mp member
  rw [← same, length_row]

theorem Holds.advance (holds : Holds columns own old old table) :
    Holds columns own (old ++ batch.rows columns) old
      (advance table old (batch.rows columns) columns.length columns.length) where
  shape := by
    intro row member
    rcases List.mem_append.mp member with earlier | here
    · exact holds.shape row earlier
    · exact rows_shape row here
  within := fun row member => List.mem_append_left _ member
  groupColumns := holds.groupColumns
  parts := by
    apply List.map_congr_left
    intro index inside
    rw [if_pos (List.mem_range.mp inside)]
  partsOfGroup := by
    rw [show (Grouping.advance _ _ _ _ _).partsOfGroup = table.partsOfGroup from rfl,
      holds.partsOfGroup]
    apply List.map_congr_left
    intro row kept
    exact (partsOf_append (mem_of_mem_firsts kept)).symm
  single := holds.single
  several := holds.several
  labels := holds.labels

def groupNumber (done : List (List Value)) (row : List Value) : Nat :=
  number keysOf done (keysOf row)

theorem groupNumber_stable (done more : List (List Value)) (row : List Value)
    (member : row ∈ done) : groupNumber (done ++ more) row = groupNumber done row :=
  number_append (List.mem_map_of_mem member)

theorem Holds.group {row : List Value} (holds : Holds columns own all done table)
    (member : row ∈ all) {labels : Option (List (Option Value))} {group : Nat}
    (labelled : labels =
      if 2 ≤ columns.length ∧ own.any id then some (ownLabels own row) else none)
    (run : (match table.partsOfGroup.zipIdx.lookup (partsOf all (keysOf row)) with
      | some group => .ok (group, table)
      | none => GroupTable.newGroup (partsOf all (keysOf row)) labels table : Except Error (Nat × GroupTable)) =
        .ok (group, next)) :
    Holds columns own all (done ++ [row]) next ∧ group = groupNumber (done ++ [row]) row := by
  rw [holds.lookup member] at run
  by_cases known : keysOf row ∈ done.map keysOf
  · rw [if_pos known] at run
    obtain ⟨same, unchanged⟩ := Prod.mk.inj (Except.ok.inj run)
    rw [← unchanged, ← same]
    exact ⟨holds.known member known, (number_append known).symm⟩
  · rw [if_neg known] at run
    exact holds.newGroup member known labelled run

theorem groupOf_ok {row : List Value} (holds : Holds columns own all done table)
    (member : row ∈ all) (width : columns.length = 1) {part group : Nat}
    (this : partsOf all (keysOf row) = [part]) (run : groupOf part table = .ok (group, next)) :
    Holds columns own all (done ++ [row]) next ∧ group = groupNumber (done ++ [row]) row := by
  have narrow : ¬ (2 ≤ columns.length ∧ own.any id) := by omega
  unfold groupOf at run
  rw [holds.single width part, ← this] at run
  exact holds.group member (if_neg narrow).symm run

theorem ownLabels_row {index : Nat} {own : Nat → Bool}
    (present : ∀ column ∈ columns, ∃ value, valueAt batch column index = some value) :
    ((columns.zip (columns.map own)).map fun (column, own) =>
      if own then valueAt batch column index else none) =
      ownLabels (columns.map own) (batch.row columns index) := by
  unfold ownLabels Batch.row
  induction columns with
  | nil => rfl
  | cons column columns ih =>
    obtain ⟨value, here⟩ := present column List.mem_cons_self
    have rest := ih fun other member => present other (List.mem_cons_of_mem _ member)
    rw [List.map_cons, List.map_cons, List.zip_cons_cons, List.zip_cons_cons, List.map_cons,
      List.map_cons, rest]
    congr 1
    change (if own column then valueAt batch column index else none) =
      if own column then some ((valueAt batch column index).getD .null) else none
    rw [here, Option.getD_some]

theorem groupOfRow_ok {parts : List (List Nat)} {index group : Nat}
    (holds : Holds columns (ownOf batch.dtypes columns) all done table)
    (member : batch.row columns index ∈ all) (width : 2 ≤ columns.length)
    (present : ∀ column ∈ columns, ∃ value, valueAt batch column index = some value)
    (key : parts.map (·.getD index 0) = partsOf all (keysOf (batch.row columns index)))
    (run : groupOfRow batch parts index table = .ok (group, next)) :
    Holds columns (ownOf batch.dtypes columns) all (done ++ [batch.row columns index]) next ∧
      group = groupNumber (done ++ [batch.row columns index]) (batch.row columns index) := by
  have labels : ((columns.zip (ownOf batch.dtypes columns)).map fun (column, own) =>
      if own then valueAt batch column index else none) =
      ownLabels (ownOf batch.dtypes columns) (batch.row columns index) := ownLabels_row present
  unfold groupOfRow at run
  dsimp only at run
  rw [key, holds.several (by omega), holds.groupColumns] at run
  refine holds.group member ?_ run
  by_cases any : (ownOf batch.dtypes columns).any id
  · exact (if_pos any).trans ((congrArg some labels).trans (if_pos ⟨width, any⟩).symm)
  · exact (if_neg any).trans (if_neg fun both => any both.2).symm

theorem Holds.knowns {rows : List (List Value)} (holds : Holds columns own all done table)
    (within : ∀ row ∈ rows, row ∈ all) (known : ∀ row ∈ rows, keysOf row ∈ done.map keysOf) :
    Holds columns own all (done ++ rows) table := by
  induction rows generalizing done with
  | nil =>
    rw [List.append_nil]
    exact holds
  | cons row rows ih =>
    have first := holds.known (within row List.mem_cons_self) (known row List.mem_cons_self)
    have rest := ih first (fun other member => within other (List.mem_cons_of_mem _ member))
      (fun other member => by
        rw [List.map_append]
        exact List.mem_append_left _ (known other (List.mem_cons_of_mem _ member)))
    rw [List.append_assoc] at rest
    exact rest

/-- Every value grouped by has a key, and is of its column's type where labels are shared. -/
def Keyed (columns : List Nat) (dtypes : List FieldDataType) (rows : List (List Value)) : Prop :=
  ∀ row ∈ rows, ∀ (index column : Nat) (value : Value), columns[index]? = some column →
    row[index]? = some value → (∃ key, value.key = .ok key) ∧ ∃ dtype,
      dtypes[column]? = some dtype ∧ (ownLabel dtype = false → Fits dtype value)

theorem present_rows (columnsFine : ∀ index, index < columns.length → ∃ column array,
      columns[index]? = some column ∧ batch.columns[column]? = some array ∧ array.Groupable) :
    ∀ index < batch.numRows, ∀ column ∈ columns, ∃ value,
      valueAt batch column index = some value ∧ (∃ key, value.key = .ok key) ∧ ∃ dtype,
        batch.dtypes[column]? = some dtype ∧ (ownLabel dtype = false → Fits dtype value) := by
  intro index inside column member
  obtain ⟨at', bound, here⟩ := List.getElem_of_mem member
  obtain ⟨column', array, this, there, groupable⟩ := columnsFine at' bound
  rw [List.getElem?_eq_getElem bound, here] at this
  rw [← Option.some.inj this] at there
  have length : array.decode.length = batch.numRows :=
    batch.lengths array (List.mem_of_getElem? there)
  have held : index < array.decode.length := by omega
  refine ⟨array.decode[index], ?_, ?_, array.dtype, ?_, ?_⟩
  · unfold valueAt
    rw [there, Option.bind_some, List.getElem?_eq_getElem held]
  · cases array with
    | states family length => exact groupable.elim
    | _ => exact groupable _ (List.getElem_mem held)
  · rw [Batch.dtypes, List.getElem?_map, there]
    rfl
  · intro shared
    exact decode_fits groupable shared _ (List.getElem_mem held)

theorem keyed_rows (columnsFine : ∀ index, index < columns.length → ∃ column array,
      columns[index]? = some column ∧ batch.columns[column]? = some array ∧ array.Groupable) :
    Keyed columns batch.dtypes (batch.rows columns) := by
  intro row member at' column value here inRow
  obtain ⟨index, inside, same⟩ := List.mem_map.mp member
  obtain ⟨found, there, keyed⟩ := present_rows columnsFine index (List.mem_range.mp inside) column
    (List.mem_of_getElem? here)
  rw [← same, Batch.row, List.getElem?_map, here, Option.map_some, there, Option.getD_some] at inRow
  rw [← Option.some.inj inRow]
  exact keyed

theorem advance_zero (holds : Holds columns own old old table) (rows : List (List Value)) :
    Grouping.advance table old rows columns.length 0 = table := by
  have parts : ((List.range columns.length).map fun index =>
      ColumnParts.of (columnOf index (if index < 0 then old ++ rows else old))) = table.parts := by
    rw [holds.parts]
    rfl
  unfold Grouping.advance
  rw [parts]

theorem groupIds_none {ids : List Nat} (holds : Holds [] own old old table)
    (run : GroupTable.groupIds batch table = .ok (ids, next)) :
    Holds [] own (old ++ batch.rows []) (old ++ batch.rows []) next ∧
      ids = (batch.rows []).map (groupNumber (old ++ batch.rows [])) ∧
      Keyed [] batch.dtypes (batch.rows []) := by
  have rows : batch.rows [] = List.replicate batch.numRows [] := by
    apply List.eq_replicate_iff.mpr
    refine ⟨by simp [Batch.rows], fun row member => ?_⟩
    exact List.length_eq_zero_iff.mp (rows_shape row member)
  have keyed : Keyed [] batch.dtypes (batch.rows []) := by
    intro row member index column value here
    cases here
  have held : Holds [] own (old ++ batch.rows []) old table := by
    have moved := @Holds.advance batch _ _ _ _ holds
    have stays := advance_zero holds (batch.rows [])
    exact stays ▸ moved
  have empty : ∀ row ∈ old ++ batch.rows [], row = [] := fun row member =>
    List.length_eq_zero_iff.mp (held.shape row member)
  have numbers : (batch.rows []).map (groupNumber (old ++ batch.rows [])) =
      List.replicate batch.numRows 0 := by
    apply List.eq_replicate_iff.mpr
    refine ⟨by simp [Batch.rows], fun number member => ?_⟩
    obtain ⟨row, inRows, same⟩ := List.mem_map.mp member
    rw [← same, empty row (List.mem_append_right _ inRows)]
    cases all : old ++ batch.rows [] with
    | nil => rfl
    | cons first rest =>
      rw [empty first (by rw [all]; exact List.mem_cons_self)]
      exact groupNumber_stable [[]] rest [] List.mem_cons_self
  unfold GroupTable.groupIds at run
  rw [holds.groupColumns] at run
  dsimp only at run
  rw [numbers]
  by_cases first : 0 < batch.numRows ∧ table.partsOfGroup = []
  · rw [if_pos first] at run
    obtain ⟨⟨group, mid⟩, added, run⟩ := bind_eq_ok run
    obtain ⟨same, unchanged⟩ := Prod.mk.inj (Except.ok.inj run)
    have member : [] ∈ old ++ batch.rows [] := by
      apply List.mem_append_right
      rw [rows]
      exact List.mem_replicate.mpr ⟨by omega, rfl⟩
    have fresh : keysOf [] ∉ old.map keysOf := by
      intro known
      have kept := mem_keys_firsts.mpr known
      have none : firsts keysOf old = [] := by
        have groups := holds.partsOfGroup
        rw [first.2] at groups
        exact List.map_eq_nil_iff.mp groups.symm
      rw [none] at kept
      cases kept
    have grown := (held.newGroup member fresh (if_neg (by simp)).symm added).1
    have rest : old ++ [[]] ++ List.replicate (batch.numRows - 1) [] = old ++ batch.rows [] := by
      rw [rows, List.append_assoc, List.singleton_append, ← List.replicate_succ,
        Nat.sub_add_cancel first.1]
    have final : Holds [] own (old ++ batch.rows [])
        (old ++ [[]] ++ List.replicate (batch.numRows - 1) []) mid := by
      apply grown.knowns
      · intro row inRest
        rw [List.eq_of_mem_replicate inRest]
        exact member
      · intro row inRest
        rw [List.eq_of_mem_replicate inRest]
        exact List.mem_map_of_mem (List.mem_append_right _ List.mem_cons_self)
    rw [rest] at final
    rw [← unchanged]
    exact ⟨final, same.symm, keyed⟩
  · rw [if_neg first] at run
    obtain ⟨same, unchanged⟩ := Prod.mk.inj (Except.ok.inj run)
    rw [← unchanged]
    refine ⟨held.knowns (fun row inRows => List.mem_append_right _ inRows) ?_, same.symm, keyed⟩
    intro row inRows
    have some : old ≠ [] := by
      intro none
      apply first
      rw [rows] at inRows
      refine ⟨Nat.pos_of_ne_zero (List.mem_replicate.mp inRows).1, ?_⟩
      rw [holds.partsOfGroup, none]
      rfl
    obtain ⟨other, inOld⟩ := List.exists_mem_of_ne_nil old some
    rw [empty row (List.mem_append_right _ inRows), ← empty other (List.mem_append_left _ inOld)]
    exact List.mem_map_of_mem inOld

def onlyPart (all : List (List Value)) (row : List Value) : Nat :=
  partOf (columnOf 0 all) (row.getD 0 .null)

theorem onlyPart_step {column : Nat} {row : List Value} {group : Nat}
    (member : row ∈ batch.rows [column])
    (holds : Holds [column] own (old ++ batch.rows [column]) done table)
    (run : groupOf (onlyPart (old ++ batch.rows [column]) row) table = .ok (group, next)) :
    Holds [column] own (old ++ batch.rows [column]) (done ++ [row]) next ∧
      group = groupNumber (done ++ [row]) row := by
  obtain ⟨value, only⟩ := List.length_eq_one_iff.mp (rows_shape row member)
  refine groupOf_ok holds (List.mem_append_right _ member) rfl ?_ run
  rw [only]
  rfl

theorem map_onlyPart {column : Nat} : (columnOf 0 (batch.rows [column])).map
      (partOf (columnOf 0 (old ++ batch.rows [column]))) =
    (batch.rows [column]).map (onlyPart (old ++ batch.rows [column])) := by
  unfold columnOf onlyPart
  rw [List.map_map]
  rfl

theorem groupIds_one {column : Nat} {ids : List Nat} (holds : Holds [column] own old old table)
    (run : GroupTable.groupIds batch table = .ok (ids, next)) :
    Holds [column] own (old ++ batch.rows [column]) (old ++ batch.rows [column]) next ∧
      ids = (batch.rows [column]).map (groupNumber (old ++ batch.rows [column])) ∧
      Keyed [column] batch.dtypes (batch.rows [column]) := by
  unfold GroupTable.groupIds at run
  rw [holds.groupColumns] at run
  obtain ⟨⟨parts, mid⟩, numbered, run⟩ := bind_eq_ok run
  rw [← advance_zero holds (batch.rows [column])] at numbered
  obtain ⟨moved, partsAre, fine⟩ := columnPartsAt_ok Nat.zero_lt_one holds.groupColumns numbered
  have columnsFine : ∀ index, index < [column].length → ∃ found array,
      [column][index]? = some found ∧ batch.columns[found]? = some array ∧ array.Groupable := by
    intro index inside
    rw [List.length_singleton, Nat.lt_one_iff] at inside
    rw [inside]
    exact fine
  have keyed := keyed_rows columnsFine
  have held : Holds [column] own (old ++ batch.rows [column]) old mid := by
    rw [moved]
    exact holds.advance
  rw [partsAre, map_onlyPart] at run
  dsimp only at run
  rw [List.mapM_map] at run
  have step : ∀ row ∈ batch.rows [column], ∀ done table group next,
      Holds [column] own (old ++ batch.rows [column]) done table →
      groupOf (onlyPart (old ++ batch.rows [column]) row) table = .ok (group, next) →
      Holds [column] own (old ++ batch.rows [column]) (done ++ [row]) next ∧
        group = groupNumber (done ++ [row]) row :=
    fun row member done table group next holds run => onlyPart_step member holds run
  obtain ⟨final, groups⟩ := mapM_seen groupNumber_stable step held run
  rw [List.map_id'] at final groups
  exact ⟨final, groups, keyed⟩

def batchParts (columns : List Nat) (old rows : List (List Value)) : List (List Nat) :=
  (List.range' 0 columns.length).map fun index =>
    (columnOf index rows).map (partOf (columnOf index (old ++ rows)))

theorem batchParts_row {index : Nat} (inside : index < batch.numRows) :
    (batchParts columns old (batch.rows columns)).map (·.getD index 0) =
      partsOf (old ++ batch.rows columns) (keysOf (batch.row columns index)) := by
  unfold batchParts
  apply List.ext_getElem?
  intro at'
  rw [List.map_map, getElem?_partsOf, List.getElem?_map, ← List.range_eq_range']
  have rowWidth := @length_row batch columns index
  by_cases bound : at' < columns.length
  · obtain ⟨value, here⟩ : ∃ value, (batch.row columns index)[at']? = some value :=
      ⟨_, List.getElem?_eq_getElem (by omega)⟩
    have slot : (columnOf at' (batch.rows columns))[index]? = some value := by
      unfold columnOf Batch.rows
      rw [List.map_map, List.getElem?_map, List.getElem?_range inside, Option.map_some]
      rw [Function.comp_apply, List.getD_eq_getElem?_getD, here, Option.getD_some]
    rw [List.getElem?_range bound, here, Option.map_some, Option.map_some, Function.comp_apply,
      List.getD_eq_getElem?_getD, List.getElem?_map, slot, Option.map_some, Option.getD_some]
  · have outside : (batch.row columns index)[at']? = none :=
      List.getElem?_eq_none (by omega)
    rw [outside, List.getElem?_eq_none (by rw [List.length_range]; omega)]
    rfl

theorem row_step {index group : Nat} (owned : own = ownOf batch.dtypes columns)
    (width : 2 ≤ columns.length) (present : ∀ index < batch.numRows, ∀ column ∈ columns,
      ∃ value, valueAt batch column index = some value)
    (member : index ∈ List.range batch.numRows)
    (holds : Holds columns own (old ++ batch.rows columns) done table)
    (run : groupOfRow batch (batchParts columns old (batch.rows columns)) index table =
      .ok (group, next)) :
    Holds columns own (old ++ batch.rows columns) (done ++ [batch.row columns index]) next ∧
      group = groupNumber (done ++ [batch.row columns index]) (batch.row columns index) := by
  have inside := List.mem_range.mp member
  have mine : batch.row columns index ∈ old ++ batch.rows columns :=
    List.mem_append_right _ (List.mem_map_of_mem member)
  rw [owned] at holds ⊢
  exact groupOfRow_ok holds mine width (present index inside) (batchParts_row inside) run

theorem groupIds_several {ids : List Nat} (width : 2 ≤ columns.length)
    (holds : Holds columns own old old table) (owned : own = ownOf batch.dtypes columns)
    (run : GroupTable.groupIds batch table = .ok (ids, next)) :
    Holds columns own (old ++ batch.rows columns) (old ++ batch.rows columns) next ∧
      ids = (batch.rows columns).map (groupNumber (old ++ batch.rows columns)) ∧
      Keyed columns batch.dtypes (batch.rows columns) := by
  have steps : GroupTable.groupIds batch table = (do
      let numbered ← (List.range columns.length).mapM (columnPartsAt batch) table
      (List.range batch.numRows).mapM (groupOfRow batch numbered.1) numbered.2) := by
    unfold GroupTable.groupIds
    rw [holds.groupColumns]
    cases columns with
    | nil => cases width
    | cons _ columns =>
      cases columns with
      | nil => simp at width
      | cons _ _ => rfl
  rw [steps] at run
  obtain ⟨⟨parts, mid⟩, numbered, run⟩ := bind_eq_ok run
  rw [← advance_zero holds (batch.rows columns), List.range_eq_range'] at numbered
  obtain ⟨moved, partsAre, fine⟩ := columnsPhase_ok (Nat.zero_add _) holds.groupColumns numbered
  have columnsFine : ∀ index, index < columns.length → ∃ column array,
      columns[index]? = some column ∧ batch.columns[column]? = some array ∧ array.Groupable :=
    fun index inside => fine index (Nat.zero_le _) inside
  have keyed := keyed_rows columnsFine
  have present : ∀ index < batch.numRows, ∀ column ∈ columns, ∃ value,
      valueAt batch column index = some value := by
    intro index inside column member
    obtain ⟨value, here, _⟩ := present_rows columnsFine index inside column member
    exact ⟨value, here⟩
  have held : Holds columns own (old ++ batch.rows columns) old mid := by
    rw [moved]
    exact holds.advance
  rw [partsAre] at run
  dsimp only at run
  have step : ∀ index ∈ List.range batch.numRows, ∀ done table group next,
      Holds columns own (old ++ batch.rows columns) done table →
      groupOfRow batch (batchParts columns old (batch.rows columns)) index table =
        .ok (group, next) →
      Holds columns own (old ++ batch.rows columns) (done ++ [batch.row columns index]) next ∧
        group = groupNumber (done ++ [batch.row columns index]) (batch.row columns index) :=
    fun index member done table group next holds run =>
      row_step owned width present member holds run
  obtain ⟨final, groups⟩ := mapM_seen groupNumber_stable step held run
  refine ⟨final, ?_, keyed⟩
  rw [groups]
  unfold Batch.rows
  rw [List.map_map]
  rfl

theorem groupIds_ok {ids : List Nat} (holds : Holds columns own old old table)
    (owned : own = ownOf batch.dtypes columns)
    (run : GroupTable.groupIds batch table = .ok (ids, next)) :
    Holds columns own (old ++ batch.rows columns) (old ++ batch.rows columns) next ∧
      ids = (batch.rows columns).map (groupNumber (old ++ batch.rows columns)) ∧
      Keyed columns batch.dtypes (batch.rows columns) := by
  match columns, holds, owned with
  | [], holds, _ => exact groupIds_none holds run
  | [_], holds, _ => exact groupIds_one holds run
  | _ :: _ :: _, holds, owned => exact groupIds_several (by simp) holds owned run

/-! ### Room -/

theorem newGroup_fine (holds : Holds columns own all done table) (room : done.length < u32Max + 1)
    (parts : List Nat) (labels : Option (List (Option Value))) :
    ∃ group next, newGroup parts labels table = .ok (group, next) := by
  have few : (firsts keysOf done).length ≤ done.length := length_firsts_le
  have fits : table.partsOfGroup.length ≤ u32Max := by
    rw [holds.partsOfGroup, List.length_map]
    omega
  exact ⟨_, _, if_pos fits⟩

theorem groupOf_fine (holds : Holds columns own all done table) (room : done.length < u32Max + 1)
    (part : Nat) : ∃ group next, groupOf part table = .ok (group, next) := by
  unfold groupOf
  cases (table.groupOfPart[part]?).join with
  | some group => exact ⟨group, table, rfl⟩
  | none => exact newGroup_fine holds room _ _

theorem groupOfRow_fine (holds : Holds columns own all done table)
    (room : done.length < u32Max + 1) (parts : List (List Nat)) (index : Nat) :
    ∃ group next, groupOfRow batch parts index table = .ok (group, next) := by
  unfold groupOfRow
  dsimp only
  cases table.groupOfPartTuple.lookup (parts.map (·.getD index 0)) with
  | some group => exact ⟨group, table, rfl⟩
  | none => exact newGroup_fine holds room _ _

/-- The group columns are columns of the batch, and can be grouped by. -/
def Accepts (columns : List Nat) (batch : Batch) : Prop :=
  ∀ column ∈ columns, ∃ array, batch.columns[column]? = some array ∧ array.Groupable

theorem columnPartsAt_fine {step : Nat} (accepts : Accepts columns batch)
    (inside : step < columns.length) (groupColumns : table.groupColumns = columns)
    (room : old.length + batch.numRows ≤ u32Max + 1) : ∃ ids next, columnPartsAt batch step
      (advance table old (batch.rows columns) columns.length step) = .ok (ids, next) := by
  obtain ⟨array, there, groupable⟩ := accepts columns[step] (List.getElem_mem inside)
  have here : columns[step]? = some columns[step] := List.getElem?_eq_getElem inside
  have parts : (advance table old (batch.rows columns) columns.length step).parts[step]? =
      some (.of (columnOf step old)) := by
    simp [advance, inside]
  have held : (advance table old (batch.rows columns) columns.length step).groupColumns = columns :=
    groupColumns
  have length : (columnOf step old).length + array.decode.length ≤ u32Max + 1 := by
    rw [batch.lengths array (List.mem_of_getElem? there), columnOf, List.length_map]
    exact room
  obtain ⟨ids, next, made⟩ := columnParts_fine groupable length
  unfold columnPartsAt
  rw [parts, held, here, Option.bind_some, there]
  dsimp only
  rw [made]
  exact ⟨ids, _, rfl⟩

theorem columnsPhase_fine {step count : Nat} (accepts : Accepts columns batch)
    (reach : step + count = columns.length) (groupColumns : table.groupColumns = columns)
    (room : old.length + batch.numRows ≤ u32Max + 1) : ∃ idss next,
      (List.range' step count).mapM (columnPartsAt batch)
        (advance table old (batch.rows columns) columns.length step) = .ok (idss, next) := by
  induction count generalizing step with
  | zero => exact ⟨[], _, rfl⟩
  | succ count ih =>
    have inside : step < columns.length := by omega
    obtain ⟨ids, mid, first⟩ := columnPartsAt_fine accepts inside groupColumns room
    obtain ⟨moved, _⟩ := columnPartsAt_ok inside groupColumns first
    obtain ⟨rest, last, later⟩ := @ih (step + 1) (by omega)
    rw [← moved] at later
    refine ⟨ids :: rest, last, ?_⟩
    rw [List.range'_succ, List.mapM_cons]
    change (columnPartsAt batch step _ >>= fun result => _) = _
    rw [first]
    change ((List.range' (step + 1) count).mapM (columnPartsAt batch) mid >>= fun result => _) = _
    rw [later]
    rfl

theorem groupIds_fine (holds : Holds columns own old old table)
    (owned : own = ownOf batch.dtypes columns) (accepts : Accepts columns batch)
    (room : old.length + batch.numRows ≤ u32Max + 1) :
    ∃ ids next, GroupTable.groupIds batch table = .ok (ids, next) := by
  match columns, holds, owned, accepts with
  | [], holds, _, _ =>
    unfold GroupTable.groupIds
    rw [holds.groupColumns]
    dsimp only
    by_cases first : 0 < batch.numRows ∧ table.partsOfGroup = []
    · obtain ⟨group, next, added⟩ := newGroup_fine holds (by omega) [] none
      rw [if_pos first, added]
      exact ⟨_, next, rfl⟩
    · rw [if_neg first]
      exact ⟨_, table, rfl⟩
  | [column], holds, owned, accepts =>
    have first := columnPartsAt_fine accepts Nat.zero_lt_one holds.groupColumns room
    rw [advance_zero holds] at first
    obtain ⟨parts, mid, numbered⟩ := first
    have again := numbered
    rw [← advance_zero holds (batch.rows [column])] at again
    obtain ⟨moved, partsAre, _⟩ := columnPartsAt_ok Nat.zero_lt_one holds.groupColumns again
    have held : Holds [column] own (old ++ batch.rows [column]) old mid := by
      rw [moved]
      exact holds.advance
    have step : ∀ row ∈ batch.rows [column], ∀ done table,
        Holds [column] own (old ++ batch.rows [column]) done table → done.length < u32Max + 1 →
        ∃ group next, groupOf (onlyPart (old ++ batch.rows [column]) row) table =
            .ok (group, next) ∧
          Holds [column] own (old ++ batch.rows [column]) (done ++ [row]) next := by
      intro row member done table holds room
      obtain ⟨group, next, run⟩ := groupOf_fine holds room _
      exact ⟨group, next, run, (onlyPart_step member holds run).1⟩
    have length : (batch.rows [column]).length = batch.numRows := by simp [Batch.rows]
    obtain ⟨ids, next, run⟩ := mapM_fine step held (by omega)
    refine ⟨ids, next, ?_⟩
    unfold GroupTable.groupIds
    rw [holds.groupColumns]
    dsimp only
    rw [numbered]
    change parts.mapM groupOf mid = _
    rw [partsAre, map_onlyPart, List.mapM_map]
    exact run
  | first :: second :: rest, holds, owned, accepts =>
    have phase := columnsPhase_fine accepts (Nat.zero_add _) holds.groupColumns room
    rw [advance_zero holds] at phase
    obtain ⟨parts, mid, numbered⟩ := phase
    have again := numbered
    rw [← advance_zero holds (batch.rows (first :: second :: rest))] at again
    obtain ⟨moved, partsAre, fine⟩ := columnsPhase_ok (Nat.zero_add _) holds.groupColumns again
    have held : Holds (first :: second :: rest) own (old ++ batch.rows (first :: second :: rest))
        old mid := by
      rw [moved]
      exact holds.advance
    have present : ∀ index < batch.numRows, ∀ column ∈ first :: second :: rest,
        ∃ value, valueAt batch column index = some value := by
      intro index inside column member
      obtain ⟨value, here, _⟩ :=
        present_rows (fun index inside => fine index (Nat.zero_le _) inside) index inside column
          member
      exact ⟨value, here⟩
    have step : ∀ index ∈ List.range batch.numRows, ∀ done table,
        Holds (first :: second :: rest) own (old ++ batch.rows (first :: second :: rest)) done
          table → done.length < u32Max + 1 →
        ∃ group next, groupOfRow batch
            (batchParts (first :: second :: rest) old (batch.rows (first :: second :: rest)))
            index table = .ok (group, next) ∧
          Holds (first :: second :: rest) own (old ++ batch.rows (first :: second :: rest))
            (done ++ [batch.row (first :: second :: rest) index]) next := by
      intro index member done table holds room
      obtain ⟨group, next, run⟩ := groupOfRow_fine holds room _ index
      exact ⟨group, next, run, (row_step owned (by simp) present member holds run).1⟩
    have length : (List.range batch.numRows).length = batch.numRows := List.length_range
    obtain ⟨ids, next, run⟩ := mapM_fine step held (by omega)
    refine ⟨ids, next, ?_⟩
    unfold GroupTable.groupIds
    rw [holds.groupColumns]
    dsimp only
    rw [List.range_eq_range', numbered]
    change (List.range batch.numRows).mapM (groupOfRow batch parts) mid = _
    rw [partsAre]
    exact run

end Batch
end AsapPlanner.Grouping
