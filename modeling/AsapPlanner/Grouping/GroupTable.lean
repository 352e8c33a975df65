import AsapPlanner.Grouping.Value
import AsapPlanner.Interning.First
import Mathlib.Data.List.Flatten
import Mathlib.Data.List.Lex
import Mathlib.Order.Fin.Basic

/-!
Group ids for the rows of grouped operators, assigned across all batches of one run: each column's
distinct values get part ids, and a group is a tuple of part ids. Rows selected from a batch: slices,
filters, and the chunks in which groups are found.
-/

namespace AsapPlanner.Grouping
open Ir Rust

def tooMany (what : String) : Error := .invalid ("more than u32::MAX " ++ what)

/-! ### One column's distinct values -/

structure ColumnParts where
  partOfKey : List (Key × Nat)
  firstValues : List Value

namespace ColumnParts

def empty : ColumnParts := { partOfKey := [], firstValues := [] }

/-- The part id of a key; `value` makes it the first time. -/
def part (key : Key) (value : Value) : StateT ColumnParts (Except Error) Nat := fun parts =>
  match parts.partOfKey.lookup key with
  | some id => .ok (id, parts)
  | none =>
    let id := parts.firstValues.length
    if id ≤ u32Max then
      .ok (id, { partOfKey := parts.partOfKey ++ [(key, id)]
                 firstValues := parts.firstValues ++ [value] })
    else .error (tooMany "group values")

/-- Each part id's position in key order. -/
def ranks (parts : ColumnParts) : List Nat :=
  let byKey := parts.partOfKey.mergeSort fun a b => a.1 ≤ b.1
  byKey.zipIdx.foldl (fun rank entry => rank.set entry.1.2 entry.2)
    (List.replicate byKey.length 0)

end ColumnParts

/-! ### The part ids of a batch's column -/

/-- The dictionary entries resolved so far: a slot per entry, or a map. -/
structure Entries where
  slotOfEntry : List (Option Nat)
  mapOfEntry : List (Nat × Nat)
  nullPart : Option Nat

/-- Whether a slot per entry is worth it for reading `rows` rows. -/
def denseDictionary (entries rows : Nat) : Bool := entries ≤ 4 * rows + 64

def Entries.new (dense : Bool) (length : Nat) : Entries where
  slotOfEntry := if dense then List.replicate length none else []
  mapOfEntry := []
  nullPart := none

/-- The part id held for an entry. -/
def Entries.cached (entries : Entries) (dense : Bool) (entry : Nat) : Option Nat :=
  if dense then (entries.slotOfEntry[entry]?).join else entries.mapOfEntry.lookup entry

def Entries.hold (entries : Entries) (dense : Bool) (entry part : Nat) : Entries :=
  if dense then { entries with slotOfEntry := entries.slotOfEntry.set entry (some part) }
  else { entries with mapOfEntry := (entry, part) :: entries.mapOfEntry }

def lookupEntry (dense : Bool) (column : Dictionary) (entry : Fin column.texts.length) :
    StateT (ColumnParts × Entries) (Except Error) Nat := fun (parts, entries) =>
  match entries.cached dense entry.val with
  | some part => .ok (part, parts, entries)
  | none => do
    let text := column.texts.get entry
    let (part, parts) ← ColumnParts.part (4 :: utf8 text) (.utf8 text) parts
    pure (part, parts, entries.hold dense entry.val part)

def dictionaryPart (dense : Bool) (column : Dictionary) (slot : Option (Fin column.texts.length)) :
    StateT (ColumnParts × Entries) (Except Error) Nat := fun (parts, entries) =>
  match slot with
  | some entry => lookupEntry dense column entry (parts, entries)
  | none =>
    match entries.nullPart with
    | some part => .ok (part, parts, entries)
    | none => do
      let (part, parts) ← ColumnParts.part [0] .null parts
      pure (part, parts, { entries with nullPart := some part })

def slotPart {α : Type} (write : α → Key) (value : α → Value) :
    Option α → StateT ColumnParts (Except Error) Nat
  | none => ColumnParts.part [0] .null
  | some v => ColumnParts.part (write v) (value v)

def primitive {α : Type} (write : α → Key) (value : α → Value) (values : List (Option α)) :
    StateT ColumnParts (Except Error) (List Nat) :=
  values.mapM (slotPart write value)

def valuePart (value : Value) : StateT ColumnParts (Except Error) Nat := do
  let key ← StateT.lift value.key
  ColumnParts.part key value

/-- The part id of each row's value. -/
def columnParts : Column → StateT ColumnParts (Except Error) (List Nat)
  | .dictionary column => fun parts => do
    let dense := denseDictionary column.texts.length column.keys.length
    let entries := Entries.new dense column.texts.length
    let (ids, parts, _) ← column.keys.mapM (dictionaryPart dense column) (parts, entries)
    pure (ids, parts)
  | .int64 values => primitive (fun v => 2 :: Value.int64Bytes v) .int64 values
  | .timestamp values => primitive (fun v => 5 :: Value.int64Bytes v) .timestamp values
  | .float64 values => primitive (fun v => 3 :: bitsLe (Value.floatBits v)) .float64 values
  | .bool values => primitive (fun v => [1, if v then 1 else 0]) .bool values
  | .states _ _ => fun _ => .error (.invalid "summary states cannot be grouping keys")
  | column => column.decode.mapM valuePart

/-! ### The table -/

structure GroupTable where
  groupColumns : List Nat
  parts : List ColumnParts
  -- With one group column: the group of each part id.
  groupOfPart : List (Option Nat)
  -- With several: the group of each tuple of part ids.
  groupOfPartTuple : List (List Nat × Nat)
  partsOfGroup : List (List Nat)
  -- With several, of which some keep their own labels: each group's first values there.
  labelsOfGroup : List (List (Option Value))

/-- A vector grown to at least `length`, with `none`. -/
def resize {α : Type} (slots : List (Option α)) (length : Nat) : List (Option α) :=
  slots ++ List.replicate (length - slots.length) none

namespace GroupTable

def new (groupColumns : List Nat) : GroupTable where
  groupColumns := groupColumns
  parts := groupColumns.map fun _ => .empty
  groupOfPart := []
  groupOfPartTuple := []
  partsOfGroup := []
  labelsOfGroup := []

def newGroup (parts : List Nat) (labels : Option (List (Option Value))) :
    StateT GroupTable (Except Error) Nat := fun table =>
  let group := table.partsOfGroup.length
  if group ≤ u32Max then
    let table :=
      match table.groupColumns, parts with
      | [_], part :: _ =>
        { table with groupOfPart := (resize table.groupOfPart (part + 1)).set part (some group) }
      | _, _ => { table with groupOfPartTuple := table.groupOfPartTuple ++ [(parts, group)] }
    let table := { table with labelsOfGroup := table.labelsOfGroup ++ labels.toList }
    .ok (group, { table with partsOfGroup := table.partsOfGroup ++ [parts] })
  else .error (tooMany "groups")

/-- The part ids of the rows in group column `index`. -/
def columnPartsAt (batch : Batch) (index : Nat) : StateT GroupTable (Except Error) (List Nat) :=
  fun table =>
    match (table.groupColumns[index]?).bind (batch.columns[·]?), table.parts[index]? with
    | some column, some parts => do
      let (ids, parts) ← columnParts column parts
      pure (ids, { table with parts := table.parts.set index parts })
    | _, _ => .error .panic

def valueAt (batch : Batch) (column row : Nat) : Option Value :=
  (batch.columns[column]?).bind (·.decode[row]?)

/-- A type whose values can differ while equal by key. -/
def ownLabel : FieldDataType → Bool
  | .plain dtype =>
    match dtype with
    | .utf8 | .int64 | .bool | .timestamp | .date | .interval | .null => false
    | _ => true
  | _ => true

def groupOf (part : Nat) : StateT GroupTable (Except Error) Nat := fun table =>
  match (table.groupOfPart[part]?).join with
  | some group => .ok (group, table)
  | none => newGroup [part] none table

def groupOfRow (batch : Batch) (columns : List (List Nat)) (row : Nat) :
    StateT GroupTable (Except Error) Nat := fun table =>
  let key := columns.map (·.getD row 0)
  match table.groupOfPartTuple.lookup key with
  | some group => .ok (group, table)
  | none =>
    let own := table.groupColumns.map fun column => ((batch.dtypes[column]?).map ownLabel).getD true
    let labels :=
      if own.any id then
        some ((table.groupColumns.zip own).map fun (column, own) =>
          if own then valueAt batch column row else none)
      else none
    newGroup key labels table

def groupIds (batch : Batch) : StateT GroupTable (Except Error) (List Nat) := fun table =>
  match table.groupColumns with
  | [] => do
    let (_, table) ←
      if 0 < batch.numRows ∧ table.partsOfGroup = [] then newGroup [] none table
      else pure (0, table)
    pure (List.replicate batch.numRows 0, table)
  | [_] => do
    let (parts, table) ← columnPartsAt batch 0 table
    parts.mapM groupOf table
  | groupColumns => do
    let (columns, table) ← (List.range groupColumns.length).mapM (columnPartsAt batch) table
    (List.range batch.numRows).mapM (groupOfRow batch columns) table

/-- Group `group`'s label in group column `index`. -/
def label (table : GroupTable) (group index : Nat) : Option Value :=
  match (table.labelsOfGroup[group]?).bind (·[index]?) with
  | some (some label) => some label
  | _ => do
    let part ← (table.partsOfGroup[group]?).bind (·[index]?)
    let parts ← table.parts[index]?
    parts.firstValues[part]?

/-- Two groups' part ids compared by each column's ranks. -/
def compareRanks : List Nat → List Nat → List (List Nat) → Ordering
  | a :: as, b :: bs, rank :: ranks =>
    (compare (rank.getD a 0) (rank.getD b 0)).then (compareRanks as bs ranks)
  | _, _, _ => .eq

def groupsInKeyOrder (table : GroupTable) : List Nat :=
  let ranks := table.parts.map ColumnParts.ranks
  (List.range table.partsOfGroup.length).mergeSort fun a b =>
    (compareRanks (table.partsOfGroup.getD a []) (table.partsOfGroup.getD b []) ranks).isLE

end GroupTable

def groupAll (groupColumns : List Nat) (batches : List Batch) :
    Except Error (List (List Nat) × GroupTable) :=
  batches.mapM GroupTable.groupIds (GroupTable.new groupColumns)

/-! ### Rows -/

def Batch.row (batch : Batch) (groupColumns : List Nat) (row : Nat) : List Value :=
  groupColumns.map fun column => (GroupTable.valueAt batch column row).getD .null

def Batch.rows (batch : Batch) (groupColumns : List Nat) : List (List Value) :=
  (List.range batch.numRows).map (batch.row groupColumns)

theorem length_rows (batch : Batch) (columns : List Nat) : (batch.rows columns).length = batch.numRows := by
  simp [Batch.rows]

/-! ### Rows selected from a batch -/

/-- A choice of list elements by their places alone. -/
structure Selection where
  pick : {α : Type} → List α → List α
  natural : ∀ {α β : Type} (f : α → β) (items : List α), pick (items.map f) = (pick items).map f

namespace Selection

/-- `length` elements from `offset` on. -/
def slice (offset length : Nat) : Selection where
  pick items := (items.drop offset).take length
  natural f items := by rw [← List.map_drop, ← List.map_take]

/-- The elements where `keep` is true. -/
def filter (keep : List Bool) : Selection where
  pick items := ((items.zip keep).filter (·.2)).map (·.1)
  natural f items := by
    rw [List.zip_map_left, List.filter_map, List.map_map, List.map_map]
    rfl

variable (selection : Selection) {α β : Type}

theorem pick_eq_map (items : List α) (absent : α) : selection.pick items =
    (selection.pick (List.range items.length)).map (items.getD · absent) := by
  rw [← selection.natural]
  refine congrArg selection.pick (List.ext_getElem (by simp) fun index inside _ => ?_)
  simp [List.getD_eq_getElem?_getD, inside]

theorem length_pick (items : List α) :
    (selection.pick items).length = (selection.pick (List.range items.length)).length := by
  have units := selection.pick_eq_map (items.map fun _ => ()) ()
  have same := congrArg List.length units
  rw [selection.natural, List.length_map, List.length_map, List.length_map] at same
  exact same

theorem mem_pick {items : List α} {item : α} (member : item ∈ selection.pick items) : item ∈ items := by
  rw [← List.attach_map_subtype_val items, selection.natural] at member
  obtain ⟨⟨_, inside⟩, _, rfl⟩ := List.mem_map.mp member
  exact inside

theorem pick_replicate (length : Nat) (item : α) : selection.pick (List.replicate length item) =
    List.replicate (selection.pick (List.replicate length ())).length item := by
  have same := selection.natural (fun _ : Unit => item) (List.replicate length ())
  rwa [List.map_replicate, List.map_const'] at same

end Selection

def Column.select (selection : Selection) : Column → Column
  | null length => .null (selection.pick (List.replicate length ())).length
  | bool values => .bool (selection.pick values)
  | int64 values => .int64 (selection.pick values)
  | float64 values => .float64 (selection.pick values)
  | timestamp values => .timestamp (selection.pick values)
  | date values => .date (selection.pick values)
  | interval values => .interval (selection.pick values)
  | dictionary column => .dictionary ⟨column.texts, selection.pick column.keys⟩
  | nested dtype values => .nested dtype (selection.pick values)
  | states family length => .states family (selection.pick (List.replicate length ())).length

theorem Column.decode_select (selection : Selection) (column : Column) :
    (column.select selection).decode = selection.pick column.decode := by
  cases column with
  | null length | states family length => exact (selection.pick_replicate _ _).symm
  | nested dtype values => rfl
  | _ => exact (selection.natural _ _).symm

namespace Batch
variable (batch : Batch) (selection : Selection)

def select : Batch where
  numRows := (selection.pick (List.range batch.numRows)).length
  columns := batch.columns.map (Column.select selection)
  lengths := by
    intro selected member
    obtain ⟨column, here, rfl⟩ := List.mem_map.mp member
    rw [Column.decode_select, selection.length_pick, batch.lengths column here]

/-- Rows `offset .. offset + length`. -/
def slice (offset length : Nat) : Batch := batch.select (.slice offset length)

/-- The rows where `keep` is true. -/
def filter (keep : List Bool) : Batch := batch.select (.filter keep)

theorem dtypes_select : (batch.select selection).dtypes = batch.dtypes := by
  rw [dtypes, select, List.map_map]
  refine List.map_congr_left fun column _ => ?_
  cases column <;> rfl

theorem valueAt_select {column row : Nat} (inside : row < (batch.select selection).numRows) :
    (GroupTable.valueAt (batch.select selection) column row).getD .null =
      (GroupTable.valueAt batch column ((selection.pick (List.range batch.numRows)).get ⟨row, inside⟩)).getD
        .null := by
  unfold GroupTable.valueAt select
  rw [List.getElem?_map]
  cases found : batch.columns[column]? with
  | none => rfl
  | some array =>
    have length := batch.lengths array (List.mem_of_getElem? found)
    have picked := selection.pick_eq_map array.decode .null
    rw [length] at picked
    simp only [Option.map_some, Option.bind_some, Column.decode_select, picked, List.getElem?_map]
    rw [List.getElem?_eq_getElem inside, Option.map_some, Option.getD_some, List.getD_eq_getElem?_getD]
    rfl

theorem rows_select (columns : List Nat) :
    (batch.select selection).rows columns = selection.pick (batch.rows columns) := by
  have picked : (batch.select selection).rows columns =
      (selection.pick (List.range batch.numRows)).map (batch.row columns) := by
    refine List.ext_getElem (by simp [rows, select]) fun row inside inside' => ?_
    rw [rows, List.length_map, List.length_range] at inside
    simp only [rows, List.getElem_map, List.getElem_range]
    exact List.map_congr_left fun column _ => batch.valueAt_select selection inside
  rw [picked, ← selection.natural]
  rfl

end Batch

/-! ### Chunks -/

/-- The rows a grouped operator processes at once. -/
def rowsPerChunk : Nat := 1024

/-- A batch in slices of at most `rowsPerChunk` rows. -/
def Batch.rowChunks (batch : Batch) : List Batch :=
  (List.range ((batch.numRows + rowsPerChunk - 1) / rowsPerChunk)).map fun chunk =>
    let offset := chunk * rowsPerChunk
    batch.slice offset (min rowsPerChunk (batch.numRows - offset))

def chunkedGroupIds (batch : Batch) : StateT GroupTable (Except Error) (List Nat) :=
  -- `Vec::with_capacity` makes room for four bytes a row.
  if isizeMax < 4 * batch.numRows then fun _ => .error .panic
  else do
    let ids ← batch.rowChunks.mapM GroupTable.groupIds
    pure ids.flatten

theorem chunkedGroupIds_of_grouped {batch : Batch} {table next : GroupTable} {ids : List (List Nat)}
    (room : 4 * batch.numRows ≤ isizeMax)
    (grouped : batch.rowChunks.mapM GroupTable.groupIds table = .ok (ids, next)) :
    chunkedGroupIds batch table = .ok (ids.flatten, next) := by
  rw [chunkedGroupIds, if_neg (Nat.not_lt.mpr room)]
  change (batch.rowChunks.mapM GroupTable.groupIds table >>= fun result => _) = _
  rw [grouped]
  rfl

theorem take_chunks {α : Type} (items : List α) (size chunks : Nat) :
    ((List.range chunks).flatMap fun chunk =>
      (items.drop (chunk * size)).take (min size (items.length - chunk * size))) =
        items.take (chunks * size) := by
  induction chunks with
  | zero => simp
  | succ chunks ih =>
    rw [List.range_succ, List.flatMap_append, ih, List.flatMap_singleton, Nat.succ_mul, List.take_add]
    congr 1
    rw [List.take_eq_take_iff, List.length_drop]
    omega

theorem rows_chunks (batch : Batch) (columns : List Nat) :
    batch.rowChunks.flatMap (·.rows columns) = batch.rows columns := by
  have enough : (batch.rows columns).length ≤
      (batch.numRows + rowsPerChunk - 1) / rowsPerChunk * rowsPerChunk := by
    rw [length_rows, rowsPerChunk]
    omega
  rw [Batch.rowChunks, List.flatMap_map]
  have each : ∀ chunk : Nat, (batch.slice (chunk * rowsPerChunk)
      (min rowsPerChunk (batch.numRows - chunk * rowsPerChunk))).rows columns =
      ((batch.rows columns).drop (chunk * rowsPerChunk)).take
        (min rowsPerChunk ((batch.rows columns).length - chunk * rowsPerChunk)) := by
    intro chunk
    rw [Batch.slice, Batch.rows_select, length_rows]
    rfl
  simp only [each]
  rw [take_chunks, List.take_of_length_le enough]

theorem dtypes_chunks {batch chunk : Batch} (member : chunk ∈ batch.rowChunks) : chunk.dtypes = batch.dtypes := by
  obtain ⟨_, _, rfl⟩ := List.mem_map.mp member
  exact batch.dtypes_select _

end AsapPlanner.Grouping
