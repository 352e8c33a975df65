import AsapPlanner.Expressions.Evaluate
import AsapPlanner.Grouping.Value
import Mathlib.Algebra.GroupWithZero.Nat

/-!
The Arrow layout of each column type, and what the Arrow library is relied on for.
-/

namespace AsapPlanner.ArrowColumns
open Ir Rust Grouping

/-! ### Types -/

/-- Where a column sits: text is dictionary encoded in a batch column, plain in a nested one. -/
inductive ColumnDepth
  | batchColumn | nested
deriving DecidableEq, Repr

structure ArrowField (T : Type) where
  name : String
  dataType : T
  nullable : Bool

/-- The Arrow types in use. A dictionary has `u32` keys into texts. -/
inductive ArrowType
  | null | boolean | int64 | float64 | dictionary | utf8 | timestampMs | date32 | intervalMonthDayNano
  | list (field : ArrowField ArrowType)
  | struct (fields : List (ArrowField ArrowType))
  | map (entries : ArrowField ArrowType) (sorted : Bool)

mutual
def arrowType : DataType → ColumnDepth → ArrowType
  | .null, _ => .null
  | .bool, _ => .boolean
  | .int64, _ => .int64
  | .float64, _ => .float64
  | .utf8, .batchColumn => .dictionary
  | .utf8, .nested => .utf8
  | .timestamp, _ => .timestampMs
  | .date, _ => .date32
  | .interval, _ => .intervalMonthDayNano
  | .list element, _ => .list (listField element)
  | .struct fields, _ => .struct (structFields fields)
  | .map key value _, _ => .map ⟨"entries", .struct [⟨"key", arrowType key .nested, false⟩,
      ⟨"value", arrowType value .nested, true⟩], false⟩ false

def listField : Ir.Field DataType → ArrowField ArrowType
  | ⟨name, dtype, _, _⟩ => ⟨name, arrowType dtype .nested, true⟩

def structFields : List (Ir.Field DataType) → List (ArrowField ArrowType)
  | [] => []
  | field :: rest => listField field :: structFields rest
end

def mapEntryFields (key value : DataType) : List (ArrowField ArrowType) :=
  [⟨"key", arrowType key .nested, false⟩, ⟨"value", arrowType value .nested, true⟩]

def mapEntriesField (key value : DataType) : ArrowField ArrowType :=
  ⟨"entries", .struct (mapEntryFields key value), false⟩

/-! ### Arrays -/

/-- An array by its parts. A slice of a list's rows keeps the whole child and offsets into it. -/
inductive ArrowArray
  | null (length : Nat)
  | boolean (slots : List (Option Bool))
  | int64 (slots : List (Option Int64))
  | float64 (slots : List (Option F64))
  | timestampMs (slots : List (Option Int64))
  | date32 (slots : List (Option Int32))
  | interval (slots : List (Option (Int32 × Int32 × Int64)))
  | utf8 (slots : List (Option String))
  | dictionary (keys : List (Option Nat)) (texts : List String)
  | list (field : ArrowField ArrowType) (offsets : List Nat) (values : ArrowArray) (nulls : Option (List Bool))
  | struct (fields : List (ArrowField ArrowType)) (columns : List ArrowArray) (nulls : Option (List Bool))
      (length : Nat)
  | map (field : ArrowField ArrowType) (offsets : List Nat) (entries : ArrowArray) (nulls : Option (List Bool))
      (sorted : Bool)

def isNullAt (nulls : Option (List Bool)) (row : Nat) : Bool :=
  match nulls with
  | none => false
  | some valid => !valid.getD row true

namespace ArrowArray

def len : ArrowArray → Nat
  | null length | struct _ _ _ length => length
  | boolean slots => slots.length
  | int64 slots => slots.length
  | float64 slots => slots.length
  | timestampMs slots => slots.length
  | date32 slots => slots.length
  | interval slots => slots.length
  | utf8 slots => slots.length
  | dictionary keys _ => keys.length
  | list _ offsets _ _ | map _ offsets _ _ _ => offsets.length - 1

def dataType : ArrowArray → ArrowType
  | null _ => .null
  | boolean _ => .boolean
  | int64 _ => .int64
  | float64 _ => .float64
  | timestampMs _ => .timestampMs
  | date32 _ => .date32
  | interval _ => .intervalMonthDayNano
  | utf8 _ => .utf8
  | dictionary _ _ => .dictionary
  | list field _ _ _ => .list field
  | struct fields _ _ _ => .struct fields
  | map field _ _ _ sorted => .map field sorted

def slotAt {α : Type} (value : α → Value) (slots : List (Option α)) (row : Nat) : Value :=
  Column.ofSlot value (slots[row]?).join

def rowsAt (offsets : List Nat) (row : Nat) : List Nat :=
  List.range' (offsets.getD row 0) (offsets.getD (row + 1) 0 - offsets.getD row 0)

mutual
def valueAt : ArrowArray → Nat → Value
  | null _, _ => .null
  | boolean slots, row => slotAt .bool slots row
  | int64 slots, row => slotAt .int64 slots row
  | float64 slots, row => slotAt .float64 slots row
  | timestampMs slots, row => slotAt .timestamp slots row
  | date32 slots, row => slotAt .date slots row
  | interval slots, row => slotAt (fun v => .interval v.1 v.2.1 v.2.2) slots row
  | utf8 slots, row => slotAt .utf8 slots row
  | dictionary keys texts, row => slotAt (fun key => .utf8 (texts.getD key "")) keys row
  | list _ offsets values nulls, row =>
    if isNullAt nulls row then .null else .list ((rowsAt offsets row).map fun item => valueAt values item)
  | struct _ columns nulls _, row => if isNullAt nulls row then .null else .struct (valuesAt columns row)
  | map _ offsets entries nulls _, row =>
    if isNullAt nulls row then .null else .map ((rowsAt offsets row).map fun entry => entryAt entries entry)

def valuesAt : List ArrowArray → Nat → List Value
  | [], _ => []
  | column :: rest, row => valueAt column row :: valuesAt rest row

def entryAt : ArrowArray → Nat → Value × Value
  | struct _ columns _ _, row =>
    match valuesAt columns row with
    | key :: value :: _ => (key, value)
    | _ => (.null, .null)
  | _, _ => (.null, .null)
end

/-- Offsets into a child, in order. -/
structure Offsets (offsets : List Nat) (length : Nat) : Prop where
  nonempty : offsets ≠ []
  ordered : offsets.Pairwise (· ≤ ·)
  inside : ∀ offset ∈ offsets, offset ≤ length

mutual
/-- What holds of the parts of every array. -/
def Valid : ArrowArray → Prop
  | dictionary keys texts => ∀ key, some key ∈ keys → key < texts.length
  | list field offsets values _ => Offsets offsets values.len ∧ values.dataType = field.dataType ∧ Valid values
  | struct fields columns _ length => AllValid fields columns length
  | map field offsets entries _ _ => Offsets offsets entries.len ∧ entries.dataType = field.dataType ∧ Valid entries
  | _ => True

def AllValid : List (ArrowField ArrowType) → List ArrowArray → Nat → Prop
  | [], [], _ => True
  | field :: fields, column :: columns, length =>
    column.len = length ∧ column.dataType = field.dataType ∧ Valid column ∧ AllValid fields columns length
  | _, _, _ => False
end

end ArrowArray

/-! ### The Arrow library -/

def i32Max : Nat := 2147483647

def offsetsOf (lengths : List Nat) : List Nat :=
  (List.range (lengths.length + 1)).map fun count => (lengths.take count).sum

def textBytes (texts : List String) : Nat := (texts.map String.utf8ByteSize).sum

/-- The array constructors that can fail. -/
structure Arrow where
  -- `OffsetBuffer::from_lengths` and the string builders panic when 32-bit offsets overflow.
  fromLengths : List Nat → Except Error (List Nat)
  strings : List (Option String) → Except Error (List (Option String))
  texts : List String → Except Error (List String)
  -- `try_new` of each array.
  dictionary : List (Option Nat) → List String → Except String ArrowArray
  list : ArrowField ArrowType → List Nat → ArrowArray → Option (List Bool) → Except String ArrowArray
  struct : List (ArrowField ArrowType) → List ArrowArray → Option (List Bool) → Nat → Except String ArrowArray
  map : ArrowField ArrowType → List Nat → ArrowArray → Option (List Bool) → Bool → Except String ArrowArray

/-- A constructor that keeps what it is given, or refuses it. -/
def Keeps {ε α : Type} (run : Except ε α) (given : α) (accepted : Prop) : Prop :=
  (∀ kept, run = .ok kept → accepted ∧ kept = given) ∧ (accepted → run = .ok given)

def validityFits (nulls : Option (List Bool)) (length : Nat) : Prop := ∀ valid ∈ nulls, valid.length = length

open ArrowArray in
/-- A struct's column: of its field's type and the struct's length, with a NULL only where the field is nullable
or the struct is NULL itself. -/
structure ColumnFits (nulls : Option (List Bool)) (length : Nat) (field : ArrowField ArrowType)
    (column : ArrowArray) : Prop where
  dataType : column.dataType = field.dataType
  len_eq : column.len = length
  nullable : field.nullable = false → ∀ row < length, isNullAt nulls row = false → column.valueAt row ≠ .null

open ArrowArray in
/-- The library's documented checks; what passes them is kept. -/
structure Arrow.Lawful (arrow : Arrow) : Prop where
  fromLengths lengths : Keeps (arrow.fromLengths lengths) (offsetsOf lengths) (lengths.sum ≤ i32Max)
  strings slots : Keeps (arrow.strings slots) slots (textBytes slots.reduceOption ≤ i32Max)
  texts texts : Keeps (arrow.texts texts) texts (textBytes texts ≤ i32Max)
  dictionary keys texts : Keeps (arrow.dictionary keys texts) (.dictionary keys texts)
    (∀ key, some key ∈ keys → key < texts.length)
  list field offsets values nulls : Offsets offsets values.len → Keeps (arrow.list field offsets values nulls)
    (.list field offsets values nulls) (values.dataType = field.dataType ∧ validityFits nulls (offsets.length - 1) ∧
      (field.nullable = false → ∀ row < values.len, values.valueAt row ≠ .null))
  struct fields columns nulls length : Keeps (arrow.struct fields columns nulls length)
    (.struct fields columns nulls length)
    (validityFits nulls length ∧ List.Forall₂ (ColumnFits nulls length) fields columns)
  -- Entries with a validity of their own, or a nullable field of them, are not asked about.
  map field offsets fields columns length nulls sorted : field.nullable = false → Offsets offsets length →
    Keeps (arrow.map field offsets (.struct fields columns none length) nulls sorted)
      (.map field offsets (.struct fields columns none length) nulls sorted)
      ((ArrowArray.struct fields columns none length).dataType = field.dataType ∧ validityFits nulls (offsets.length - 1) ∧
        columns.length = 2)

end AsapPlanner.ArrowColumns
