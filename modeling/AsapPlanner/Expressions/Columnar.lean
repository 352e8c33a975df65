import AsapPlanner.Expressions.Compile
import AsapPlanner.Grouping.GroupTable
import Mathlib.Data.List.ReduceOption

/-!
Expressions evaluated over a whole batch, one result column a call: by operations over whole columns where
every part of the expression has one, else once for each distinct input.
-/

namespace AsapPlanner.Expressions
open Ir Rust Grouping Construction

/-! ### Batches of a schema -/

def hasLayout : Column → FieldDataType → Bool
  | .null _, .plain .null | .bool _, .plain .bool | .int64 _, .plain .int64
  | .float64 _, .plain .float64 | .timestamp _, .plain .timestamp | .date _, .plain .date
  | .interval _, .plain .interval | .dictionary _, .plain .utf8 => true
  | .nested dtype _, .plain expected => same dtype.toDataType expected
  | .states _ _, .plain _ => false
  | .states family _, expected => same family expected
  | _, _ => false

/-- A column of a field: its layout, and values of its type, NULL only where the field is nullable. -/
structure OfField (column : Column) (field : SchemaField) : Prop where
  layout : hasLayout column field.dtype = true
  cells : ∀ value ∈ column.decode, holdsCell field value = true

structure TypedBatch where
  schema : Schema
  batch : Batch
  typed : List.Forall₂ OfField batch.columns schema.fields

namespace TypedBatch
variable (typed : TypedBatch)

def numRows : Nat := typed.batch.numRows

/-- A row's cells. -/
def row (index : Nat) : List Value := typed.batch.columns.map fun column => column.decode.getD index .null

def toRows : List (List Value) := (List.range typed.numRows).map typed.row

end TypedBatch

/-! ### Values as columns -/

def mismatch : Error := .invalid "value differs from its column type"

/-- The cells of a column of one type. -/
def slots {α : Type} (read : Value → Option α) (values : List Value) : Except Error (List (Option α)) :=
  values.mapM fun value =>
    if value.isNull then .ok none
    else
      match read value with
      | some held => .ok (some held)
      | none => .error mismatch

/-- A dictionary of the texts in order of first appearance. -/
def dictionaryOf (texts : List (Option String)) : Dictionary where
  texts := texts.reduceOption.eraseDups
  keys := texts.attach.map fun
    | ⟨none, _⟩ => none
    | ⟨some text, member⟩ => some ⟨texts.reduceOption.eraseDups.idxOf text,
        List.idxOf_lt_length_of_mem (by simpa [List.reduceOption_mem_iff] using member)⟩

mutual
/-- Whether a value can be stored as a nested type, whose cells are all nullable. -/
def hasShape : Value → DataType → Bool
  | .null, _ => true
  | .list items, .list element => allHaveShape items element.dtype
  | .struct items, .struct fields => fieldsHaveShape items fields
  | .map entries, .map key value _ => entriesHaveShape entries key value
  | value, dtype => value.hasType dtype true

def allHaveShape : List Value → DataType → Bool
  | [], _ => true
  | item :: rest, dtype => hasShape item dtype && allHaveShape rest dtype

def fieldsHaveShape : List Value → List (Ir.Field DataType) → Bool
  | _, [] => true
  | item :: rest, field :: fields => hasShape item field.dtype && fieldsHaveShape rest fields
  | [], _ :: _ => false

def entriesHaveShape : List (Value × Value) → DataType → DataType → Bool
  | [], _, _ => true
  | (key, value) :: rest, keyType, valueType =>
    !key.isNull && hasShape key keyType && hasShape value valueType &&
      entriesHaveShape rest keyType valueType
end

def encodeNested (dtype : NestedType) (values : List Value) : Except Error Column :=
  if values.all (hasShape · dtype.toDataType) then .ok (.nested dtype values) else .error mismatch

def encode (dtype : DataType) (values : List Value) : Except Error Column :=
  match dtype with
  | .null => if values.all Value.isNull then .ok (.null values.length) else .error mismatch
  | .bool => (slots (fun | .bool v => some v | _ => none) values).map .bool
  | .int64 => (slots (fun | .int64 v => some v | _ => none) values).map .int64
  | .float64 => (slots (fun | .float64 v => some v | _ => none) values).map .float64
  | .timestamp => (slots (fun | .timestamp v => some v | _ => none) values).map .timestamp
  | .date => (slots (fun | .date v => some v | _ => none) values).map .date
  | .interval => (slots (fun
      | .interval months days nanos => some (months, days, nanos)
      | _ => none) values).map .interval
  | .utf8 => (slots (fun | .utf8 v => some v | _ => none) values).map (.dictionary ∘ dictionaryOf)
  | .list element => encodeNested (.list element) values
  | .struct fields => encodeNested (.struct fields) values
  | .map key value valueNullable => encodeNested (.map key value valueNullable) values

def repeatValue (dtype : DataType) (value : Value) (length : Nat) : Except Error Column :=
  match dtype, value with
  | .utf8, .utf8 text => .ok (.dictionary ⟨[text], List.replicate length (some 0)⟩)
  | dtype, value => encode dtype (List.replicate length value)

/-! ### Whole-column operations -/

/-- An expression lowered to the operations evaluated over whole columns. -/
inductive VectorExpr
  | column (column : Nat)
  | literal (value : Value) (dtype : DataType)
  | negateFloat (operand : VectorExpr)
  | floatArithmetic (op : ArithmeticOpKind) (left right : VectorExpr)
  | compare (op : CompareOpKind) (left right : VectorExpr) (dtype : DataType)
  | and (parts : List VectorExpr)
  | or (parts : List VectorExpr)
  | not (operand : VectorExpr)
  | isNull (operand : VectorExpr)
  | isNotNull (operand : VectorExpr)
  | intToFloat (operand : VectorExpr)

/-- A full column, or one value for every row. -/
inductive Evaluated
  | column (array : Column)
  | constant (value : Value) (dtype : DataType)

def scalarComparable : DataType → Bool
  | .int64 | .float64 | .utf8 | .bool | .timestamp | .date => true
  | _ => false

def isFloat64 : DataType → Bool
  | .float64 => true
  | _ => false

def isBool : DataType → Bool
  | .bool => true
  | _ => false

def isDate : DataType → Bool
  | .date => true
  | _ => false

def isTimestamp : Checked (DataType × Bool) → Bool
  | .ok (.timestamp, _) => true
  | _ => false

def plainType (schema : Schema) (column : Nat) : Option DataType :=
  schema.fields[column]?.bind Ir.Field.plainDtype

abbrev Lowered := VectorExpr × DataType

def lowerNegate (operand : Lowered) : Option Lowered :=
  if isFloat64 operand.2 then some (.negateFloat operand.1, operand.2) else none

def lowerArithmetic (op : ArithmeticOpKind) (left right : Lowered) : Option Lowered :=
  if isFloat64 left.2 && isFloat64 right.2 then some (.floatArithmetic op left.1 right.1, .float64)
  else none

/-- A comparison of two operands of one type. Dates have none. -/
def lowerCompare (op : CompareOpKind) (left right : Lowered) : Option Lowered :=
  if same left.2 right.2 && scalarComparable left.2 && !isDate left.2 then
    some (.compare op left.1 right.1 left.2, .bool)
  else none

def lowerNot (operand : Lowered) : Option Lowered :=
  if isBool operand.2 then some (.not operand.1, .bool) else none

def lowerCast (target : DataType) (operand : Lowered) : Option Lowered :=
  if same operand.2 target then some operand
  else
    match operand.2, target with
    | .int64, .float64 => some (.intToFloat operand.1, .float64)
    | _, _ => none

section Lower
variable (host : Host) (schema : Schema) (evaluationTimeMs : Option Int64)

mutual
/-- An expression as whole-column operations with its type, where no part of it can fail. -/
def lowerScalar : LocalExpr → Option Lowered
  | .currentTimestamp => evaluationTimeMs.map fun at_ => (.literal (.timestamp at_) .timestamp, .timestamp)
  | .column column => (plainType schema column).map fun dtype => (.column column, dtype)
  | .literal value => some (.literal (literal value).1 (literal value).2, (literal value).2)
  | .negative expr _ => lowerScalar expr >>= lowerNegate
  | .arithmetic op left right semantics =>
    let expression : LocalExpr := .arithmetic op left right semantics
    if expression.columnsReferenced.isEmpty && isTimestamp (scalarType host schema expression) then
      -- Its row semantics, once; an error stays on the row path.
      match evaluate host { schema, row := [], evaluationTimeMs, regexes := fun _ => none } expression with
      | .ok value => some (.literal value .timestamp, .timestamp)
      | .error _ => none
    else do
      let l ← lowerScalar left
      let r ← lowerScalar right
      lowerArithmetic op l r
  | .compare left op right _ =>
    if isOrdering op then do
      let l ← lowerScalar left
      let r ← lowerScalar right
      lowerCompare op l r
    else none
  | .boolAnd parts => (lowerParts parts).map fun parts => (.and parts, .bool)
  | .boolOr parts => (lowerParts parts).map fun parts => (.or parts, .bool)
  -- A disjunction of comparisons: nothing of the operand is left where the list is empty.
  | .inList expr list negated => (lowerItems (lowerScalar expr) list).map fun parts =>
    (if negated then .not (.or parts) else .or parts, .bool)
  | .not expr => lowerScalar expr >>= lowerNot
  | .isNull expr => (lowerScalar expr).map fun operand => (.isNull operand.1, .bool)
  | .isNotNull expr => (lowerScalar expr).map fun operand => (.isNotNull operand.1, .bool)
  | .cast expr target _ => lowerScalar expr >>= lowerCast target
  | _ => none

def lowerParts : List LocalExpr → Option (List VectorExpr)
  | [] => some []
  | part :: rest => do
    let part ← lowerScalar part
    let others ← lowerParts rest
    if isBool part.2 then some (part.1 :: others) else none

def lowerItems (operand : Option Lowered) : List LocalExpr → Option (List VectorExpr)
  | [] => some []
  | item :: rest => do
    let l ← operand
    let r ← lowerScalar item
    let part ← lowerCompare .eq l r
    let others ← lowerItems operand rest
    some (part.1 :: others)
end

end Lower

/-! ### Their evaluation -/

namespace Evaluated

def intoArray (rows : Nat) : Evaluated → Except Error Column
  | column array => .ok array
  | constant value dtype => repeatValue dtype value rows

/-- A downcast array. -/
def booleans : Column → Except Error (List (Option Bool))
  | .bool values => .ok values
  | _ => .error .panic

def boolean (rows : Nat) (evaluated : Evaluated) : Except Error (List (Option Bool)) :=
  evaluated.intoArray rows >>= booleans

end Evaluated

/-- A column or one value for all rows. -/
inductive FloatOperand
  | column (values : List (Option F64))
  | constant (value : Option F64)

namespace FloatOperand

def of : Evaluated → Except Error FloatOperand
  | .column (.float64 values) => .ok (.column values)
  | .column _ => .error .panic
  | .constant (.float64 v) _ => .ok (.constant (some v))
  | .constant _ _ => .ok (.constant none)

def get (row : Nat) : FloatOperand → Option F64
  | column values => (values[row]?).join
  | constant value => value

/-- A result of two operands, NULL where either is. -/
def zip {α : Type} (rows : Nat) (f : F64 → F64 → Option α) (left right : FloatOperand) : List (Option α) :=
  (List.range rows).map fun row => (left.get row).bind fun a => (right.get row).bind (f a)

end FloatOperand

/-- IEEE comparisons: NaN compares false except with `!=`, and the zeros are equal. -/
def floatCompare (op : CompareOpKind) (a b : F64) : Option Bool :=
  match op with
  | .eq => some (a.eq b)
  | .ne => some (!a.eq b)
  | .lt => some (a.partialCmp b == some .lt)
  | .le => some (a.partialCmp b == some .lt || a.partialCmp b == some .eq)
  | .gt => some (a.partialCmp b == some .gt)
  | .ge => some (a.partialCmp b == some .gt || a.partialCmp b == some .eq)
  | _ => none

/-- The comparison of two arrays, NULL where either side is. -/
def compareSlots {α : Type} [Ord α] (op : CompareOpKind) (left right : List (Option α)) : List (Option Bool) :=
  List.zipWith (fun a b => a.bind fun a => b.bind fun b => holds op (Ord.compare a b)) left right

def Dictionary.slots (dictionary : Dictionary) : List (Option String) :=
  dictionary.keys.map (Option.map dictionary.texts.get)

def compareArrays (op : CompareOpKind) (left right : Column) : Except Error Column :=
  match left, right with
  | .bool l, .bool r => .ok (.bool (compareSlots op l r))
  | .int64 l, .int64 r => .ok (.bool (compareSlots op l r))
  | .timestamp l, .timestamp r => .ok (.bool (compareSlots op l r))
  | .dictionary l, .dictionary r => .ok (.bool (compareSlots op (Dictionary.slots l) (Dictionary.slots r)))
  | _, _ => .error (.invalid "columnar expression: invalid comparison operation")

/-- An operand of a comparison beside `rows` rows: a constant is one cell that stands beside each of them. -/
def operandArray (rows : Nat) : Evaluated → Except Error Column
  | .column array => .ok array
  | .constant value dtype => do
    let _ ← repeatValue dtype value 1
    repeatValue dtype value rows

def compareKernel (rows : Nat) (op : CompareOpKind) (left right : Evaluated) : Except Error Evaluated := do
  let l ← operandArray rows left
  let r ← operandArray rows right
  let result ← compareArrays op l r
  .ok (.column result)

def andKleene (a b : Option Bool) : Option Bool :=
  match a, b with
  | some false, _ | _, some false => some false
  | some true, some true => some true
  | _, _ => none

def orKleene (a b : Option Bool) : Option Bool :=
  match a, b with
  | some true, _ | _, some true => some true
  | some false, some false => some false
  | _, _ => none

section Vector
variable (host : Host) (batch : Batch)

def negateEvaluated : Evaluated → Except Error Evaluated
  | .constant (.float64 v) dtype => .ok (.constant (.float64 (F64.neg v)) dtype)
  | .constant value dtype => .ok (.constant value dtype)
  | .column (.float64 values) => .ok (.column (.float64 (values.map (Option.map F64.neg))))
  | .column _ => .error .panic

def intToFloat : Evaluated → Except Error Evaluated
  | .constant (.int64 v) _ => .ok (.constant (.float64 (host.ofInt64 v)) .float64)
  | .constant value _ => .ok (.constant value .float64)
  | .column (.int64 values) => .ok (.column (.float64 (values.map (Option.map host.ofInt64))))
  | .column _ => .error .panic

def floatArithmetic (op : ArithmeticOpKind) (left right : Evaluated) : Except Error Evaluated := do
  let l ← FloatOperand.of left
  let r ← FloatOperand.of right
  .ok (.column (.float64 (FloatOperand.zip batch.numRows
    (fun a b => some (host.evaluateFloat64Arithmetic op a b)) l r)))

def compareEvaluated (op : CompareOpKind) (dtype : DataType) (left right : Evaluated) :
    Except Error Evaluated :=
  if isFloat64 dtype then do
    let l ← FloatOperand.of left
    let r ← FloatOperand.of right
    .ok (.column (.bool (FloatOperand.zip batch.numRows (floatCompare op) l r)))
  else
    match left, right with
    | .constant _ _, .constant _ _ => do
      let l ← left.intoArray batch.numRows
      compareKernel batch.numRows op (.column l) right
    | _, _ => compareKernel batch.numRows op left right

def nullTest (null : Bool) (operand : Evaluated) : Except Error Evaluated := do
  let array ← operand.intoArray batch.numRows
  .ok (.column (.bool (array.decode.map fun value => some (value.isNull == null))))

/-- The parts so far joined with the next. -/
def joinPart (and : Bool) (result : Option (List (Option Bool))) (part : List (Option Bool)) :
    List (Option Bool) :=
  match result with
  | none => part
  | some previous => List.zipWith (if and then andKleene else orKleene) previous part

mutual
def evaluateVector : VectorExpr → Except Error Evaluated
  | .column column =>
    match batch.columns[column]? with
    | some array => .ok (.column array)
    | none => .error .panic
  | .literal value dtype => .ok (.constant value dtype)
  | .negateFloat operand => evaluateVector operand >>= negateEvaluated
  | .floatArithmetic op left right => do
    let l ← evaluateVector left
    let r ← evaluateVector right
    floatArithmetic host batch op l r
  | .compare op left right dtype => do
    let l ← evaluateVector left
    let r ← evaluateVector right
    compareEvaluated batch op dtype l r
  | .and parts => joinParts true none parts
  | .or parts => joinParts false none parts
  | .not operand => do
    let evaluated ← evaluateVector operand
    let values ← evaluated.boolean batch.numRows
    .ok (.column (.bool (values.map (Option.map (!·)))))
  | .isNull operand => evaluateVector operand >>= nullTest batch true
  | .isNotNull operand => evaluateVector operand >>= nullTest batch false
  | .intToFloat operand => evaluateVector operand >>= intToFloat host

def joinParts (and : Bool) (result : Option (List (Option Bool))) :
    List VectorExpr → Except Error Evaluated
  | [] => .ok (match result with
    | some values => .column (.bool values)
    | none => .constant (.bool and) .bool)
  | part :: rest => do
    let evaluated ← evaluateVector part
    let values ← evaluated.boolean batch.numRows
    joinParts and (some (joinPart and result values)) rest
end

end Vector

/-! ### Once for each distinct input -/

mutual
/-- A well-typed value filling row cells an expression does not read. -/
def placeholder : DataType → Value
  | .null => .null
  | .bool => .bool false
  | .int64 => .int64 0
  | .float64 => .float64 ⟨false, 0⟩
  | .utf8 => .utf8 ""
  | .timestamp => .timestamp 0
  | .date => .date 0
  | .interval => .interval 0 0 0
  | .list _ => .list []
  | .struct fields => .struct (placeholders fields)
  | .map _ _ _ => .map []

def placeholders : List (Ir.Field DataType) → List Value
  | [] => []
  | field :: rest => placeholderOf field :: placeholders rest

def placeholderOf : Ir.Field DataType → Value
  | ⟨_, dtype, _, _⟩ => placeholder dtype
end

def placeholderCell (field : SchemaField) : Value := field.plainDtype.elim .null placeholder

def fill (row : List Value) (cells : List (Nat × Value)) : List Value :=
  cells.foldl (fun row cell => row.set cell.1 cell.2) row

/-- The distinct results so far, and the position of each key met among them. -/
structure Memo (K : Type) where
  positions : K → Option Nat
  results : List Value

section Memo
variable {K : Type} [DecidableEq K]

/-- A key's position, its result made the first time. -/
def Memo.position (evaluateKey : K → Except String Value) (memo : Memo K) (key : K) :
    Except String (Memo K × Nat) :=
  match memo.positions key with
  | some position => .ok (memo, position)
  | none => do
    let result ← evaluateKey key
    let position := memo.results.length % (u32Max + 1)
    .ok ({ positions := Function.update memo.positions key (some position)
           results := memo.results ++ [result] }, position)

def Memo.run (evaluateKey : K → Except String Value) (memo : Memo K) : List K →
    Except String (Memo K × List Nat)
  | [] => .ok (memo, [])
  | key :: rest => do
    let (memo, position) ← memo.position evaluateKey key
    let (memo, positions) ← memo.run evaluateKey rest
    .ok (memo, position :: positions)

end Memo

theorem filterMap_rows (indices : List Nat) {α β : Type} (f : α → β) (items : List α) :
    indices.filterMap (fun index => (items.map f)[index]?) = (indices.filterMap fun index => items[index]?).map f := by
  simp only [List.getElem?_map, List.map_filterMap]

def rowsAt (indices : List Nat) : Selection where
  pick items := indices.filterMap fun index => items[index]?
  natural := filterMap_rows indices

def asDictionary : Column → Option Dictionary
  | .dictionary column => some column
  | _ => none

def bad {α : Type} : Except String α → Except Error α := Except.mapError .invalid

section PerInput
variable (typed : TypedBatch) (columns : List Nat)

def codeAt (row : Nat) (dictionary : Dictionary) : Option Nat := ((dictionary.keys[row]?).join).map (·.val)

def textOf (dictionary : Dictionary) (code : Option Nat) : Value :=
  (code.bind fun code => dictionary.texts[code]?).elim .null .utf8

def decodeColumn (column : Nat) : Except Error (List Value) :=
  match typed.schema.fields[column]?.bind Ir.Field.plainDtype, typed.batch.columns[column]? with
  | some _, some array => .ok array.decode
  | none, some _ => .error (.invalid "scalar expression cannot consume summary state")
  | _, none => .error .panic

/-- The column of `evaluateRow` over full-width rows in which only `columns` hold the row's values. -/
def evaluatePerInput (dtype : DataType) (evaluateRow : List Value → Except String Value) :
    Except Error Column := do
  let row := typed.schema.fields.map placeholderCell
  match columns.mapM fun column => typed.batch.columns[column]?.bind asDictionary with
  | some dictionaries => do
    -- Once for each distinct combination of keys, in order of first appearance.
    let evaluateKey := fun key => evaluateRow (fill row (columns.zip (List.zipWith textOf dictionaries key)))
    let keys := (List.range typed.numRows).map fun index => dictionaries.map (codeAt index)
    let (memo, indices) ← bad ((Memo.mk (fun _ => none) []).run evaluateKey keys)
    let distinct ← encode dtype memo.results
    .ok (distinct.select (rowsAt indices))
  | none => do
    let decoded ← columns.mapM (decodeColumn typed)
    let results ← bad ((List.range typed.numRows).mapM fun index =>
      evaluateRow (fill row (columns.zip (decoded.map fun values => values.getD index .null))))
    encode dtype results

end PerInput

/-- Columns in order, each once. -/
def distinctColumns (columns : List Nat) : List Nat := (columns.mergeSort (· ≤ ·)).dedup

def CompiledExpression.evaluateBatch (host : Host) (compiled : CompiledExpression) (typed : TypedBatch) :
    Except Error Column :=
  match lowerScalar host typed.schema compiled.evaluationTimeMs compiled.expression with
  | some (vector, _) => do
    let evaluated ← evaluateVector host typed.batch vector
    evaluated.intoArray typed.numRows
  | none =>
    evaluatePerInput typed (distinctColumns compiled.expression.columnsReferenced) compiled.output.1
      (compiled.evaluate host)

end AsapPlanner.Expressions
