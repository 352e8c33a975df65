import AsapPlanner.ArrowColumns.Layout
import AsapPlanner.Expressions.Columnar

/-!
A column of values as its Arrow array, and back.
-/

namespace AsapPlanner.ArrowColumns
open Ir Rust Grouping

def mismatch : Error := Expressions.mismatch

def arrowError {α : Type} : Except String α → Except Error α :=
  Except.mapError fun message => .invalid ("columnar encoding: " ++ message)

def nullsOf (values : List Value) : Option (List Bool) :=
  if values.any Value.isNull then some (values.map (!Value.isNull ·)) else none

/-! ### Values of one kind -/

def asBool : Value → Option Bool
  | .bool v => some v
  | _ => none

def asInt64 : Value → Option Int64
  | .int64 v => some v
  | _ => none

def asFloat64 : Value → Option F64
  | .float64 v => some v
  | _ => none

def asTimestamp : Value → Option Int64
  | .timestamp v => some v
  | _ => none

def asDate : Value → Option Int32
  | .date v => some v
  | _ => none

def asInterval : Value → Option (Int32 × Int32 × Int64)
  | .interval months days nanos => some (months, days, nanos)
  | _ => none

def asText : Value → Option String
  | .utf8 v => some v
  | _ => none

/-! ### Text -/

/-- The distinct texts so far, and the code of each. -/
structure TextCodes where
  codes : String → Option Nat
  dictionary : List String

def TextCodes.code (state : TextCodes) (text : String) : TextCodes × Nat :=
  let next := state.dictionary.length % (u32Max + 1)
  match state.codes text with
  | some code => (state, code)
  | none => ({ codes := Function.update state.codes text (some next), dictionary := state.dictionary ++ [text] }, next)

def encodeTexts (state : TextCodes) : List Value → Except Error (TextCodes × List (Option Nat))
  | [] => .ok (state, [])
  | .utf8 text :: rest => do
    let (state, code) := state.code text
    let (state, keys) ← encodeTexts state rest
    .ok (state, some code :: keys)
  | .null :: rest => do
    let (state, keys) ← encodeTexts state rest
    .ok (state, none :: keys)
  | _ :: _ => .error mismatch

/-! ### Nested columns -/

def listParts : List Value → Except Error (List Value × List Nat)
  | [] => .ok ([], [])
  | .list items :: rest => do
    let (children, lengths) ← listParts rest
    .ok (items ++ children, items.length :: lengths)
  | .null :: rest => do
    let (children, lengths) ← listParts rest
    .ok (children, 0 :: lengths)
  | _ :: _ => .error mismatch

def mapParts : List Value → Except Error (List Value × List Value × List Nat)
  | [] => .ok ([], [], [])
  | .map entries :: rest => do
    let (keys, items, lengths) ← mapParts rest
    .ok (entries.map Prod.fst ++ keys, entries.map Prod.snd ++ items, entries.length :: lengths)
  | .null :: rest => do
    let (keys, items, lengths) ← mapParts rest
    .ok (keys, items, 0 :: lengths)
  | _ :: _ => .error mismatch

def structItem (index : Nat) : Value → Except Error Value
  | .struct items =>
    match items[index]? with
    | some item => .ok item
    | none => .error mismatch
  | .null => .ok .null
  | _ => .error mismatch

section Encode
variable (arrow : Arrow)

mutual
def encode : DataType → ColumnDepth → List Value → Except Error ArrowArray
  | .null, _, values => if values.all Value.isNull then .ok (.null values.length) else .error mismatch
  | .bool, _, values => (Expressions.slots asBool values).map .boolean
  | .int64, _, values => (Expressions.slots asInt64 values).map .int64
  | .float64, _, values => (Expressions.slots asFloat64 values).map .float64
  | .timestamp, _, values => (Expressions.slots asTimestamp values).map .timestampMs
  | .date, _, values => (Expressions.slots asDate values).map .date32
  | .interval, _, values => (Expressions.slots asInterval values).map .interval
  | .utf8, .batchColumn, values => do
    let (state, keys) ← encodeTexts ⟨fun _ => none, []⟩ values
    let texts ← arrow.texts state.dictionary
    arrowError (arrow.dictionary keys texts)
  | .utf8, .nested, values => do
    let slots ← Expressions.slots asText values
    let slots ← arrow.strings slots
    .ok (.utf8 slots)
  | .list element, _, values => do
    let (children, lengths) ← listParts values
    let child ← encodeField element children
    let offsets ← arrow.fromLengths lengths
    arrowError (arrow.list (listField element) offsets child (nullsOf values))
  | .struct fields, _, values => do
    let columns ← encodeFields fields 0 values
    arrowError (arrow.struct (structFields fields) columns (nullsOf values) values.length)
  | .map key value _, _, values => do
    let (keys, items, lengths) ← mapParts values
    let keyColumn ← encode key .nested keys
    let itemColumn ← encode value .nested items
    let entries ← arrowError (arrow.struct (mapEntryFields key value) [keyColumn, itemColumn] none keys.length)
    let offsets ← arrow.fromLengths lengths
    arrowError (arrow.map (mapEntriesField key value) offsets entries (nullsOf values) false)

def encodeField : Ir.Field DataType → List Value → Except Error ArrowArray
  | ⟨_, dtype, _, _⟩, values => encode dtype .nested values

/-- The columns of a struct's fields from `index` on. -/
def encodeFields : List (Ir.Field DataType) → Nat → List Value → Except Error (List ArrowArray)
  | [], _, _ => .ok []
  | field :: rest, index, values => do
    let column ← values.mapM (structItem index)
    let child ← encodeField field column
    let others ← encodeFields rest (index + 1) values
    .ok (child :: others)
end

/-- `repeat`: copies of one value, text as one dictionary entry. -/
def «repeat» (dtype : DataType) (depth : ColumnDepth) (value : Value) (length : Nat) : Except Error ArrowArray :=
  match dtype, depth, value with
  | .utf8, .batchColumn, .utf8 text => do
    let texts ← arrow.texts [text]
    arrowError (arrow.dictionary (List.replicate length (some 0)) texts)
  | dtype, depth, value => encode arrow dtype depth (List.replicate length value)

end Encode

/-! ### Decoding -/

/-- The texts decoded so far: a slot for each entry, or a map from entries. -/
inductive DecodedTexts
  | dense (texts : List (Option String))
  | sparse (texts : Nat → Option String)

structure DictionaryTexts where
  values : List String
  decoded : DecodedTexts

def denseDictionary (entries rows : Nat) : Bool := entries ≤ 4 * rows + 64

namespace DictionaryTexts

def new (values : List String) (rows : Nat) : DictionaryTexts where
  values := values
  decoded :=
    if denseDictionary values.length rows then .dense (List.replicate values.length none)
    else .sparse fun _ => none

def get (texts : DictionaryTexts) (entry : Nat) : Except Error (String × DictionaryTexts) :=
  match texts.decoded with
  | .dense slots =>
    match slots[entry]? with
    | none => .error .panic
    | some (some text) => .ok (text, texts)
    | some none =>
      match texts.values[entry]? with
      | some text => .ok (text, { texts with decoded := .dense (slots.set entry (some text)) })
      | none => .error .panic
  | .sparse held =>
    match held entry with
    | some text => .ok (text, texts)
    | none =>
      match texts.values[entry]? with
      | some text => .ok (text, { texts with decoded := .sparse (Function.update held entry (some text)) })
      | none => .error .panic

end DictionaryTexts

def decodeKeys (texts : DictionaryTexts) : List (Option Nat) → Except Error (List Value)
  | [] => .ok []
  | none :: rest => do
    let others ← decodeKeys texts rest
    .ok (.null :: others)
  | some key :: rest => do
    let (text, texts) ← texts.get key
    let others ← decodeKeys texts rest
    .ok (.utf8 text :: others)

/-- `items[start..end]`. -/
def sliceOf (items : List Value) (offsets : List Nat) (row : Nat) : Except Error (List Value) :=
  match offsets[row]?, offsets[row + 1]? with
  | some start, some stop =>
    if start ≤ stop ∧ stop ≤ items.length then .ok ((items.drop start).take (stop - start)) else .error .panic
  | _, _ => .error .panic

/-- An element by its index. -/
def itemAt (items : List Value) (row : Nat) : Except Error Value :=
  match items[row]? with
  | some item => .ok item
  | none => .error .panic

def entriesOf (keys items : List Value) (offsets : List Nat) (row : Nat) : Except Error (List (Value × Value)) :=
  match offsets[row]?, offsets[row + 1]? with
  | some start, some stop => (List.range' start (stop - start)).mapM fun entry => do
    let key ← itemAt keys entry
    let item ← itemAt items entry
    .ok (key, item)
  | _, _ => .error .panic

mutual
def decode : DataType → ColumnDepth → ArrowArray → Except Error (List Value)
  | .null, _, array => .ok (List.replicate array.len .null)
  | .bool, _, .boolean slots => .ok (slots.map (Column.ofSlot .bool))
  | .int64, _, .int64 slots => .ok (slots.map (Column.ofSlot .int64))
  | .float64, _, .float64 slots => .ok (slots.map (Column.ofSlot .float64))
  | .timestamp, _, .timestampMs slots => .ok (slots.map (Column.ofSlot .timestamp))
  | .date, _, .date32 slots => .ok (slots.map (Column.ofSlot .date))
  | .interval, _, .interval slots => .ok (slots.map (Column.ofSlot fun v => .interval v.1 v.2.1 v.2.2))
  | .utf8, .batchColumn, .dictionary keys texts => decodeKeys (DictionaryTexts.new texts keys.length) keys
  | .utf8, .nested, .utf8 slots => .ok (slots.map (Column.ofSlot .utf8))
  | .list element, _, .list field offsets values nulls => do
    let children ← decodeField element values
    (List.range (ArrowArray.list field offsets values nulls).len).mapM fun row =>
      if isNullAt nulls row then .ok .null else (sliceOf children offsets row).map .list
  | .struct fields, _, .struct _ columns nulls length => do
    let children ← decodeFields fields columns
    (List.range length).mapM fun row =>
      if isNullAt nulls row then .ok .null else (children.mapM (itemAt · row)).map .struct
  | .map key value _, _, .map field offsets (.struct fields (keyColumn :: itemColumn :: others) entryNulls length)
      nulls sorted => do
    let keys ← decode key .nested keyColumn
    let items ← decode value .nested itemColumn
    let entries : ArrowArray := .struct fields (keyColumn :: itemColumn :: others) entryNulls length
    (List.range (ArrowArray.map field offsets entries nulls sorted).len).mapM fun row =>
      if isNullAt nulls row then .ok .null else (entriesOf keys items offsets row).map .map
  | _, _, _ => .error .panic

def decodeField : Ir.Field DataType → ArrowArray → Except Error (List Value)
  | ⟨_, dtype, _, _⟩, array => decode dtype .nested array

def decodeFields : List (Ir.Field DataType) → List ArrowArray → Except Error (List (List Value))
  | field :: fields, column :: columns => do
    let child ← decodeField field column
    let others ← decodeFields fields columns
    .ok (child :: others)
  | _, _ => .ok []
end

end AsapPlanner.ArrowColumns
