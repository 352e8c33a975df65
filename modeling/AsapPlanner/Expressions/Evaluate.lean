import AsapPlanner.Construction.OutputSchema
import AsapPlanner.Grouping.Value
import AsapPlanner.Ir.Scalar
import Mathlib.Algebra.Group.Int.Defs

/-!
Planner scalar expressions evaluated over native typed rows.
-/

namespace AsapPlanner.Grouping.Value
open Ir

def isNull : Value → Bool
  | null => true
  | _ => false

mutual
def hasType : Value → DataType → Bool → Bool
  | null, dtype, nullable => nullable || match dtype with
    | .null => true
    | _ => false
  | bool _, .bool, _ | int64 _, .int64, _ | float64 _, .float64, _ | utf8 _, .utf8, _
  | timestamp _, .timestamp, _ | date _, .date, _ | interval .., .interval, _ => true
  | list items, .list element, _ => allHaveType items element.dtype element.nullable
  | struct items, .struct fields, _ => fieldsHaveType items fields
  | map entries, .map key value valueNullable, _ => entriesHaveType entries key value valueNullable
  | _, _, _ => false

def allHaveType : List Value → DataType → Bool → Bool
  | [], _, _ => true
  | item :: rest, dtype, nullable => item.hasType dtype nullable && allHaveType rest dtype nullable

def fieldsHaveType : List Value → List (Ir.Field DataType) → Bool
  | [], [] => true
  | item :: rest, field :: fields =>
    item.hasType field.dtype field.nullable && fieldsHaveType rest fields
  | _, _ => false

def entriesHaveType : List (Value × Value) → DataType → DataType → Bool → Bool
  | [], _, _, _ => true
  | (key, value) :: rest, keyType, valueType, nullable =>
    key.hasType keyType false && value.hasType valueType nullable &&
      entriesHaveType rest keyType valueType nullable
end

theorem hasType_nullable {value : Value} {dtype : DataType} {nullable declared : Bool}
    (typed : value.hasType dtype nullable = true) (wider : nullable = true → declared = true) :
    value.hasType dtype declared = true := by
  cases value with
  | null =>
    unfold Value.hasType at typed ⊢
    rw [Bool.or_eq_true] at typed ⊢
    exact typed.imp_left wider
  | _ => cases dtype <;> exact typed

end AsapPlanner.Grouping.Value

namespace AsapPlanner.Expressions
open Ir Rust Grouping Construction

/-- A scalar expression the executor evaluates: it reads no operator. -/
abbrev LocalExpr := ScalarExpr Unit

/-- IEEE arithmetic, the calendar, regular expressions and the registered scalar functions. -/
structure Host where
  text : LeafText
  -- `i64 as f64`, `f64 as i64` and `f64::fract`.
  ofInt64 : Int64 → F64
  toInt64 : F64 → Int64
  fract : F64 → F64
  evaluateFloat64Arithmetic : ArithmeticOpKind → F64 → F64 → F64
  -- A timestamp moved by calendar months (UTC).
  addMonths : Int64 → Int → Option Int64
  regex : String → Option (String → Bool)
  -- A call by its name and arguments: its type, whether it is evaluated, and its value.
  functionType : String → List LocalExpr → Schema → Checked (DataType × Bool)
  isEvaluated : String → Bool
  function : String → List LocalExpr → Schema → List Value → Except String Value

/-! ### Types -/

def signature (message : String) : SchemaDerivationError := .invalidScalarSignature message

def numericType : DataType → Bool
  | .int64 | .float64 | .null => true
  | _ => false

def requireBool : DataType → Checked Unit
  | .bool | .null => .ok ()
  | _ => .error (signature "boolean expression required")

def commonScalarType (a b : DataType) : Checked DataType :=
  if same a b || same b .null then .ok a
  else if same a .null then .ok b
  else if numericType a && numericType b then .ok .float64
  else .error (signature "incompatible scalar types")

def isPattern : CompareOpKind → Bool
  | .regex | .notRegex | .like | .notLike | .iLike | .notILike => true
  | _ => false

def compareType (op : CompareOpKind) (left right : DataType × Bool) : Checked (DataType × Bool) := do
  let _ ← commonScalarType left.1 right.1
  if isPattern op && (!same left.1 .utf8 || !same right.1 .utf8) then
    .error (signature "pattern comparison requires strings")
  else .ok (.bool, left.2 || right.2)

def arithmeticType (op : ArithmeticOpKind) (left right : DataType × Bool) : Checked (DataType × Bool) :=
  let temporal : DataType → Bool := fun
    | .date | .timestamp => true
    | _ => false
  if op == .sub && temporal left.1 && temporal right.1 then
    .error (signature "temporal subtraction produces an unsupported duration type")
  else do
    let dtype ← match op, left.1, right.1 with
      | .mul, .int64, .interval | .mul, .interval, .int64 => .ok .interval
      | .add, .timestamp, .interval | .sub, .timestamp, .interval
      | .add, .interval, .timestamp => .ok .timestamp
      | .add, .date, .interval | .sub, .date, .interval | .add, .interval, .date => .ok .date
      | .add, .interval, .interval | .sub, .interval, .interval => .ok .interval
      | _, .int64, .int64 => .ok .int64
      | _, a, b =>
        if numericType a && numericType b then commonScalarType a b
        else .error (signature "invalid arithmetic operand types")
    .ok (dtype, left.2 || right.2)

def literal : ScalarValue → Value × DataType
  | .null => (.null, .null)
  | .int64 v => (.int64 (Int64.ofInt v), .int64)
  | .float64 v => (.float64 v, .float64)
  | .utf8 v => (.utf8 v, .utf8)
  | .boolean v => (.bool v, .bool)
  | .interval months days nanos =>
    (.interval (Int32.ofInt months) (Int32.ofInt days) (Int64.ofInt nanos), .interval)

section Typing
variable (host : Host) (schema : Schema)

def columnType (id : Nat) : Checked (DataType × Bool) :=
  match schema.fields[id]? with
  | some field =>
    match field.plainDtype with
    | some dtype => .ok (dtype, field.nullable)
    | none => .error (signature
      ("column \x60" ++ field.name ++ "\x60 carries summary state and cannot be read as a value"))
  | none => .error (signature "column outside scalar input scope")

mutual
def scalarType : LocalExpr → Checked (DataType × Bool)
  | .currentTimestamp => .ok (.timestamp, false)
  | .evalTimestamp => .ok (.float64, false)
  | .column id => columnType schema id
  | .literal value => .ok ((literal value).2, (literal value).1.isNull)
  | .compare left op right _ => do
    let l ← scalarType left
    let r ← scalarType right
    compareType op l r
  | .boolAnd parts | .boolOr parts => do
    let nullable ← boolTypes parts
    .ok (.bool, nullable)
  | .not expr => do
    let (dtype, nullable) ← scalarType expr
    let _ ← requireBool dtype
    .ok (.bool, nullable)
  | .isNull expr | .isNotNull expr => do
    let _ ← scalarType expr
    .ok (.bool, false)
  | .inList expr list _ => do
    let (dtype, nullable) ← scalarType expr
    itemTypes dtype nullable list
  | .negative expr _ => do
    let (dtype, nullable) ← scalarType expr
    if numericType dtype || same dtype .interval then .ok (dtype, nullable)
    else .error (signature "negation requires a number or interval")
  | .arithmetic op left right _ => do
    let l ← scalarType left
    let r ← scalarType right
    arithmeticType op l r
  | .cast expr target tryCast => do
    let (_, nullable) ← scalarType expr
    .ok (target, tryCast || nullable)
  | .functionCall name args => host.functionType name args schema
  | .case operand branches elseExpr => do
    let operand ← optionType operand
    let (dtype, nullable) ← branchTypes operand .null elseExpr.isNone branches
    match ← optionType elseExpr with
    | none => .ok (dtype, nullable)
    | some (other, n) => do
      let dtype ← commonScalarType dtype other
      .ok (dtype, nullable || n)
  -- A reference-free expression has none of these.
  | .promqlScalarFromVector _ | .scalarSubquery _ | .exists _ _ | .inSubquery _ _ _ =>
    .error (signature "operator reference")

def boolTypes : List LocalExpr → Checked Bool
  | [] => .ok false
  | part :: rest => do
    let (dtype, nullable) ← scalarType part
    let _ ← requireBool dtype
    let others ← boolTypes rest
    .ok (nullable || others)

def itemTypes (dtype : DataType) (nullable : Bool) : List LocalExpr → Checked (DataType × Bool)
  | [] => .ok (.bool, nullable)
  | item :: rest => do
    let (other, n) ← scalarType item
    let _ ← commonScalarType dtype other
    itemTypes dtype (nullable || n) rest

def optionType : Option LocalExpr → Checked (Option (DataType × Bool))
  | none => .ok none
  | some expr => do
    let found ← scalarType expr
    .ok (some found)

def branchTypes (operand : Option (DataType × Bool)) (dtype : DataType) (nullable : Bool) :
    List (LocalExpr × LocalExpr) → Checked (DataType × Bool)
  | [] => .ok (dtype, nullable)
  | (condition, value) :: rest => do
    let (tested, _) ← scalarType condition
    let _ ← match operand with
      | some (expected, _) => (commonScalarType expected tested).map fun _ => ()
      | none => requireBool tested
    let (other, n) ← scalarType value
    let dtype ← commonScalarType dtype other
    branchTypes operand dtype (nullable || n) rest
end

end Typing

/-! ### Values -/

def F64.neg (v : F64) : F64 := ⟨!v.negative, v.magnitude⟩

def checkedInt64 (exact : Int) : Option Int64 := if FitsI64 exact then some (Int64.ofInt exact) else none

/-- Checked `i64` arithmetic. -/
def integerArithmetic (op : ArithmeticOpKind) (a b : Int64) : Option Int64 :=
  match op with
  | .add => checkedInt64 (a.toInt + b.toInt)
  | .sub => checkedInt64 (a.toInt - b.toInt)
  | .mul => checkedInt64 (a.toInt * b.toInt)
  | .div => if b = 0 then none else checkedInt64 (a.toInt.tdiv b.toInt)
  -- The remainder of the least integer by -1 overflows as its quotient does.
  | .mod => if b = 0 ∨ ¬ FitsI64 (a.toInt.tdiv b.toInt) then none else checkedInt64 (a.toInt.tmod b.toInt)
  | .pow => if 0 ≤ b.toInt ∧ b.toInt ≤ u32Max then checkedInt64 (a.toInt ^ b.toInt.toNat) else none
  | .atan2 => none

/-- The truth of a comparison, by the operands' order. -/
def holds (op : CompareOpKind) (ordering : Ordering) : Option Bool :=
  match op with
  | .eq => some (ordering == .eq)
  | .ne => some (ordering != .eq)
  | .lt => some (ordering == .lt)
  | .le => some (ordering != .gt)
  | .gt => some (ordering == .gt)
  | .ge => some (ordering != .lt)
  | _ => none

section Rows
variable (host : Host)

def numeric (op : ArithmeticOpKind) (a b : Value) : Except String Value :=
  match a, b with
  | .null, _ | _, .null => .ok .null
  | .float64 a, .float64 b => .ok (.float64 (host.evaluateFloat64Arithmetic op a b))
  | .int64 a, .int64 b =>
    match integerArithmetic op a b with
    | some v => .ok (.int64 v)
    | none => .error "invalid integer arithmetic or overflow"
  | _, _ => .error "arithmetic type mismatch"

/-- A timestamp in milliseconds plus an interval, or minus it when `subtract`. -/
def shiftedTimestamp (atMs : Int64) (months days : Int32) (nanos : Int64) (subtract : Bool) :
    Except String Value :=
  let outOfRange := .error "timestamp arithmetic leaves the timestamp range"
  if nanos.toInt % 1000000 ≠ 0 then
    .error "an interval with a fraction of a millisecond has no millisecond timestamp"
  else
    let sign : Int := if subtract then -1 else 1
    match host.addMonths atMs (months.toInt * sign) with
    | none => outOfRange
    | some moved =>
      let fixedMs := days.toInt * 86400000 + nanos.toInt.tdiv 1000000
      if FitsI64 fixedMs ∧ FitsI64 (fixedMs * sign) ∧ FitsI64 (moved.toInt + fixedMs * sign) then
        .ok (.timestamp (Int64.ofInt (moved.toInt + fixedMs * sign)))
      else outOfRange

def arithmetic (op : ArithmeticOpKind) (left right : Value) : Except String Value :=
  match op, left, right with
  | .add, .timestamp atMs, .interval months days nanos =>
    shiftedTimestamp host atMs months days nanos false
  | .sub, .timestamp atMs, .interval months days nanos =>
    shiftedTimestamp host atMs months days nanos true
  | .add, .interval months days nanos, .timestamp atMs =>
    shiftedTimestamp host atMs months days nanos false
  | op, .int64 a, .float64 b => numeric host op (.float64 (host.ofInt64 a)) (.float64 b)
  | op, .float64 a, .int64 b => numeric host op (.float64 a) (.float64 (host.ofInt64 b))
  | op, left, right => numeric host op left right

def integerFloatCmp (integer : Int64) (float : F64) : Option Ordering :=
  if float.isNan then none
  -- The bounds are powers of two: 2^63 and -2^63.
  else if F64.key ⟨false, 0x43e0000000000000⟩ ≤ float.key then some .lt
  else if float.key < F64.key ⟨true, 0x43e0000000000000⟩ then some .gt
  else
    match compare integer (host.toInt64 float) with
    | .eq => F64.partialCmp ⟨false, 0⟩ (host.fract float)
    | other => some other

/-- A NULL comes after every other value of a map. -/
def cmpNullable (cmp : Option Ordering) (left right : Value) : Option Ordering :=
  match left, right with
  | .null, .null => some .eq
  | .null, _ => some .gt
  | _, .null => some .lt
  | _, _ => cmp

mutual
def cellCmp : Value → Value → Option Ordering
  | .int64 left, .int64 right => some (compare left right)
  | .float64 left, .float64 right => left.partialCmp right
  | .int64 left, .float64 right => integerFloatCmp host left right
  | .float64 left, .int64 right => (integerFloatCmp host right left).map Ordering.swap
  | .utf8 left, .utf8 right => some (compare left right)
  | .bool left, .bool right => some (compare left right)
  | .timestamp left, .timestamp right => some (compare left right)
  | .map left, .map right => entriesCmp left right
  | _, _ => none

def entriesCmp : List (Value × Value) → List (Value × Value) → Option Ordering
  | [], [] => some .eq
  | [], _ :: _ => some .lt
  | _ :: _, [] => some .gt
  | (leftKey, leftValue) :: left, (rightKey, rightValue) :: right =>
    match cellCmp leftKey rightKey with
    | some .eq =>
      match cmpNullable (cellCmp leftValue rightValue) leftValue rightValue with
      | some .eq => entriesCmp left right
      | other => other
    | other => other
end

def isNanValue : Value → Bool
  | .float64 v => v.isNan
  | _ => false

def compareValues (op : CompareOpKind) (left right : Value) : Except String Value :=
  let unsupported := .error ("comparison " ++ op.name)
  if left.isNull || right.isNull then .ok .null
  -- NaN is unordered, not a type mismatch.
  else if isNanValue left || isNanValue right then
    match op with
    | .ne => .ok (.bool true)
    | .eq | .lt | .le | .gt | .ge => .ok (.bool false)
    | _ => unsupported
  else
    match cellCmp host left right with
    | none => .error "comparison of incompatible values"
    | some ordering =>
      match holds op ordering with
      | some truth => .ok (.bool truth)
      | none => unsupported

def castValue (target : DataType) (source : Checked (DataType × Bool)) (value : Value) :
    Except String Value :=
  match value, target with
  | .null, _ => .ok .null
  | .int64 v, .float64 => .ok (.float64 (host.ofInt64 v))
  | value, target =>
    match source with
    | .error e => .error e.message
    | .ok (dtype, _) => if same dtype target then .ok value else .error "unsupported cast"

def negateValue : Value → Except String Value
  | .float64 v => .ok (.float64 (F64.neg v))
  | .int64 v =>
    match checkedInt64 (-v.toInt) with
    | some v => .ok (.int64 v)
    | none => .error "integer negation overflow"
  | .null => .ok .null
  | _ => .error "invalid negation input"

def notValue : Value → Except String Value
  | .bool v => .ok (.bool !v)
  | .null => .ok .null
  | _ => .error "boolean predicate required"

def matchText (op : CompareOpKind) (isMatch : String → Bool) : Value → Except String Value
  | .null => .ok .null
  | .utf8 text => .ok (.bool (isMatch text == (op == .regex)))
  | _ => .error ("comparison " ++ op.name ++ " of non-text values")

end Rows

/-! ### Expressions -/

/-- What an expression is evaluated in: its schema, a row of it, SQL `now()`, and the compiled pattern of
each `=~` and `!~`. -/
structure Scope where
  schema : Schema
  row : List Value
  evaluationTimeMs : Option Int64
  regexes : String → Option (String → Bool)

section Evaluate
variable (host : Host) (scope : Scope)

mutual
def evaluate : LocalExpr → Except String Value
  | .currentTimestamp =>
    match scope.evaluationTimeMs with
    | some at_ => .ok (.timestamp at_)
    | none => .error "now() has a value only in a query run, at its evaluation time"
  | .column index =>
    match scope.row[index]? with
    | some value => .ok value
    | none => .error ("column " ++ toString index ++ " outside row width " ++ toString scope.row.length)
  | .literal value => .ok (literal value).1
  | .cast expr target _ =>
    evaluate expr >>= castValue host target (scalarType host scope.schema expr)
  | .negative expr _ => evaluate expr >>= negateValue
  | .compare left op right _ =>
    if op = .regex ∨ op = .notRegex then
      match right with
      | .literal (.utf8 pattern) =>
        match scope.regexes pattern with
        | some isMatch => evaluate left >>= matchText op isMatch
        | none => .error ("label regex " ++ host.text.str pattern ++ " not compiled")
      | _ => .error (op.name ++ " needs a literal pattern")
    else do
      let l ← evaluate left
      let r ← evaluate right
      compareValues host op l r
  | .arithmetic op left right _ => do
    let l ← evaluate left
    let r ← evaluate right
    arithmetic host op l r
  | .case none branches elseExpr => evaluateBranches (evaluateElse elseExpr) branches
  | .boolAnd parts => evaluateParts true false parts
  | .boolOr parts => evaluateParts false false parts
  | .inList expr list negated => do
    let value ← evaluate expr
    evaluateItems value negated false list
  | .not expr => evaluate expr >>= notValue
  | .isNull expr => do
    let value ← evaluate expr
    .ok (.bool value.isNull)
  | .isNotNull expr => do
    let value ← evaluate expr
    .ok (.bool !value.isNull)
  | .functionCall name args => do
    let values ← evaluateArgs args
    host.function name args scope.schema values
  | expr => .error ("scalar expression " ++ (datum expr).debug host.text)

/-- The first part that decides the conjunction (`and`) or disjunction, or NULL when a part before the end
is. -/
def evaluateParts (and null : Bool) : List LocalExpr → Except String Value
  | [] => .ok (if null then .null else .bool and)
  | part :: rest => do
    match ← evaluate part with
    | .bool value => if value != and then .ok (.bool value) else evaluateParts and null rest
    | .null => evaluateParts and true rest
    | _ => .error "boolean predicate required"

def evaluateItems (value : Value) (negated null : Bool) : List LocalExpr → Except String Value
  | [] => .ok (if null then .null else .bool negated)
  | item :: rest => do
    let item ← evaluate item
    match ← compareValues host .eq value item with
    | .bool true => .ok (.bool !negated)
    | .bool false => evaluateItems value negated null rest
    | .null => evaluateItems value negated true rest
    | _ => .error "boolean predicate required"

def evaluateBranches (otherwise : Except String Value) :
    List (LocalExpr × LocalExpr) → Except String Value
  | [] => otherwise
  | (condition, value) :: rest => do
    match ← evaluate condition with
    | .bool true => evaluate value
    | _ => evaluateBranches otherwise rest

def evaluateElse : Option LocalExpr → Except String Value
  | none => .ok .null
  | some expr => evaluate expr

def evaluateArgs : List LocalExpr → Except String (List Value)
  | [] => .ok []
  | arg :: rest => do
    let value ← evaluate arg
    let values ← evaluateArgs rest
    .ok (value :: values)
end

end Evaluate
end AsapPlanner.Expressions
