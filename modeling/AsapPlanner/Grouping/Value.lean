import AsapPlanner.Ir.Schema
import AsapPlanner.Rust.Integer
import AsapPlanner.Traversal.Run

/-!
Runtime values, their equality keys, and the columns of a batch.
-/

namespace AsapPlanner.Grouping
open Ir Rust

-- Named, so that a key names what its bytes rest on.
scoped instance neZeroByte : NeZero 256 := ⟨by decide⟩

inductive Error
  | invalid (message : String)
  -- An index out of bounds, or more than can be allocated.
  | panic
deriving DecidableEq

/-! ### Values -/

inductive Value
  | null
  | bool (v : Bool)
  | int64 (v : Int64)
  | float64 (v : F64)
  | utf8 (v : String)
  | timestamp (v : Int64)
  | date (v : Int32)
  | interval (months days : Int32) (nanos : Int64)
  | list (items : List Value)
  | struct (fields : List Value)
  | map (entries : List (Value × Value))
  | summary (family : FieldDataType)

abbrev Key := List Byte

namespace Value

def bitsOf (v : F64) : BitVec (8 * 8) := (BitVec.ofBool v.negative ++ v.magnitude).cast rfl

/-- The bits a double is keyed by: one pattern for both zeros and one for every NaN. -/
def floatBits (v : F64) : BitVec (8 * 8) :=
  if v.eq ⟨false, 0⟩ then 0
  else if v.isNan then 0x7ff8000000000000
  else bitsOf v

def int64Bytes (v : Int64) : Key := bitsLe (v.toBitVec.cast rfl : BitVec (8 * 8))
def int32Bytes (v : Int32) : Key := bitsLe (v.toBitVec.cast rfl : BitVec (8 * 4))

mutual
/-- Stable typed equality key: zero signs and NaN payloads form one group. -/
def key : Value → Except Error Key
  | null => .ok [0]
  | bool v => .ok [1, if v then 1 else 0]
  | int64 v => .ok (2 :: int64Bytes v)
  | float64 v => .ok (3 :: bitsLe (floatBits v))
  | utf8 v => .ok (4 :: Rust.utf8 v)
  | timestamp v => .ok (5 :: int64Bytes v)
  | date v => .ok (6 :: int32Bytes v)
  | interval months days nanos =>
    .ok (7 :: int32Bytes months ++ 8 :: int32Bytes days ++ 9 :: int64Bytes nanos)
  | list items => do
    let body ← keys items
    pure (10 :: body)
  | struct fields => do
    let body ← keys fields
    pure (11 :: body)
  | map entries => do
    let body ← entryKeys entries
    pure (12 :: body)
  | summary _ => .error (.invalid "summary states cannot be grouping keys")

def keys : List Value → Except Error Key
  | [] => .ok []
  | value :: rest => do
    let key ← value.key
    let others ← keys rest
    pure (leBytes 8 key.length ++ key ++ others)

def entryKeys : List (Value × Value) → Except Error Key
  | [] => .ok []
  | (key, value) :: rest => do
    let first ← key.key
    let second ← value.key
    let others ← entryKeys rest
    pure (leBytes 8 first.length ++ first ++ (leBytes 8 second.length ++ second) ++ others)
end

end Value

/-! ### Columns -/

/-- A text column: rows are entries of its dictionary. -/
structure Dictionary where
  texts : List String
  keys : List (Option (Fin texts.length))

inductive NestedType
  | list (element : Ir.Field DataType)
  | struct (fields : List (Ir.Field DataType))
  | map (key value : DataType) (valueNullable : Bool)

def NestedType.toDataType : NestedType → DataType
  | list element => .list element
  | struct fields => .struct fields
  | map key value valueNullable => .map key value valueNullable

/-- A column in its type's layout; a nested column is given by the values it decodes to. -/
inductive Column
  | null (length : Nat)
  | bool (values : List (Option Bool))
  | int64 (values : List (Option Int64))
  | float64 (values : List (Option F64))
  | timestamp (values : List (Option Int64))
  | date (values : List (Option Int32))
  | interval (values : List (Option (Int32 × Int32 × Int64)))
  | dictionary (column : Dictionary)
  | nested (dtype : NestedType) (values : List Value)
  | states (family : FieldDataType) (length : Nat)

namespace Column

def dtype : Column → FieldDataType
  | null _ => .plain .null
  | bool _ => .plain .bool
  | int64 _ => .plain .int64
  | float64 _ => .plain .float64
  | timestamp _ => .plain .timestamp
  | date _ => .plain .date
  | interval _ => .plain .interval
  | dictionary _ => .plain .utf8
  | nested dtype _ => .plain dtype.toDataType
  | states family _ => family

def ofSlot {α : Type} (value : α → Value) (slot : Option α) : Value := slot.elim .null value

def decode : Column → List Value
  | null length => List.replicate length .null
  | bool values => values.map (ofSlot .bool)
  | int64 values => values.map (ofSlot .int64)
  | float64 values => values.map (ofSlot .float64)
  | timestamp values => values.map (ofSlot .timestamp)
  | date values => values.map (ofSlot .date)
  | interval values => values.map (ofSlot fun v => .interval v.1 v.2.1 v.2.2)
  | dictionary column => column.keys.map (ofSlot fun entry => .utf8 column.texts[entry])
  | nested _ values => values
  | states family length => List.replicate length (.summary family)

end Column

/-- Equal-length columns. -/
structure Batch where
  numRows : Nat
  columns : List Column
  lengths : ∀ column ∈ columns, column.decode.length = numRows

/-- The schema's types. -/
def Batch.dtypes (batch : Batch) : List FieldDataType := batch.columns.map Column.dtype

end AsapPlanner.Grouping
