import AsapPlanner.Vectors.SeriesBinary

/-!
What a binary operator gives for two instant vectors, row by row and label by label: the matching of
Prometheus' VectorBinop and its set operators.
-/

namespace AsapPlanner.Vectors
open Ir Rust

/-! ### One pair of rows -/

section
variable (arithmetic : Arithmetic) (operator : BinaryOperator)

def Sees (name : String) : Prop :=
  match (matchOf operator).1 with
  | .on => name ∈ (matchOf operator).2.1
  | .ignoring => name ≠ metricName ∧ name ∉ (matchOf operator).2.1

def Same (a b : Sample) : Prop :=
  ∀ name, Sees operator name → a.labels.get? name = b.labels.get? name

/-- What an operator gives for two values; a filter gives the left one or nothing. -/
def binopValue (left right : F64) : Option F64 :=
  match operator.kind with
  | .arithmetic op => some (arithmetic op left right)
  | .compare op => if compareValues op left right = some true then some left else none
  | .compareBool op => some (if compareValues op left right = some true then one else zero)
  | .set _ => none

/-- Whether an operator has a value there: a checked division is one in its domain. -/
def Applies (left right : F64) : Prop :=
  validKind operator.kind = true ∧
    (operator.checkedRelativeDivision = true ∨ operator.checkedFiniteDivision = true →
      operator.kind = .arithmetic .div ∧ left.isFinite = true ∧ right.isFinite = true ∧
        right.eq zero = false ∧ (arithmetic .div left right).isFinite = true ∧
        (operator.checkedRelativeDivision = true → isNormal (arithmetic .div left right) = true))

def valuesOf (many one : Sample) : F64 × F64 :=
  if swapped operator then (one.value, many.value) else (many.value, one.value)

def Gives (many one : Sample) (value : F64) : Prop :=
  Same operator many one ∧
    binopValue arithmetic operator (valuesOf operator many one).1 (valuesOf operator many one).2 =
      some value

/-- A label of the row that a pair gives: an included one is the "one" side's, `on` and `ignoring`
hold for one-to-one results, and arithmetic and `bool` drop the name. -/
def resultLabel (many one : Sample) (name : String) : Option String :=
  if isCompareBool operator.kind = true ∧ name = metricName then none
  else match (matchOf operator).2.2 with
    | some grouping =>
      if name ∈ grouping.labels then one.labels.get? name
      else if isArithmetic operator.kind = true ∧ name = metricName then none
      else many.labels.get? name
    | none =>
      if isArithmetic operator.kind = true ∧ name = metricName then none
      else match (matchOf operator).1 with
        | .on => if name ∈ (matchOf operator).2.1 then many.labels.get? name else none
        | .ignoring => if name ∈ (matchOf operator).2.1 then none else many.labels.get? name

end

/-! ### Two vectors -/

section
variable (arithmetic : Arithmetic) (sides : Sides) (operator : BinaryOperator)
  (left right : List Sample)

def manyOf : List Sample := if swapped operator then right else left

def oneOf : List Sample := if swapped operator then left else right

def InResult (row : Sample) : Prop :=
  match operator.kind with
  | .set .and => ∃ l ∈ left, (∃ r ∈ right, Same operator l r) ∧
      row = { l with time := timeAt sides.output sides.left l }
  | .set .unless => ∃ l ∈ left, (¬ ∃ r ∈ right, Same operator l r) ∧
      row = { l with time := timeAt sides.output sides.left l }
  | .set .or => (∃ l ∈ left, row = { l with time := timeAt sides.output sides.left l }) ∨
      ∃ r ∈ right, (¬ ∃ l ∈ left, Same operator l r) ∧
        row = { r with time := timeAt sides.output sides.right r }
  | _ => ∃ m ∈ manyOf operator left right, ∃ o ∈ oneOf operator left right,
      Gives arithmetic operator m o row.value ∧
        (∀ name, row.labels.get? name = resultLabel operator m o name) ∧
        row.time = timeAt sides.output sides.left (if swapped operator then o else m)

/-- Matching fails: the "one" side repeats a signature, a pair has no value, a one-to-one signature
matches twice, or two rows of alike rows of the "many" side carry one label set. Nothing is matched
when a side is empty. -/
def Fails (alike : Sample → Sample → Prop) : Prop :=
  isSet operator.kind = false ∧ left ≠ [] ∧ right ≠ [] ∧
    ((∃ a ∈ oneOf operator left right, ∃ b ∈ oneOf operator left right, a ≠ b ∧ Same operator a b) ∨
      (∃ m ∈ manyOf operator left right, ∃ o ∈ oneOf operator left right, Same operator m o ∧
        ¬ Applies arithmetic operator (valuesOf operator m o).1 (valuesOf operator m o).2) ∨
      ∃ m ∈ manyOf operator left right, ∃ m' ∈ manyOf operator left right,
        ∃ o ∈ oneOf operator left right, ∃ o' ∈ oneOf operator left right, m ≠ m' ∧
          (∃ value, Gives arithmetic operator m o value) ∧
          (∃ value, Gives arithmetic operator m' o' value) ∧
          ((matchOf operator).2.2 = none ∧ Same operator m m' ∨
            alike m m' ∧ ∀ name, resultLabel operator m o name = resultLabel operator m' o' name))

def matchErrors : List String :=
  ["found duplicate series for the match group on the left hand-side of the operation",
    "found duplicate series for the match group on the right hand-side of the operation",
    "many-to-one matching must be explicit (group_left/group_right)",
    "multiple matches for labels: grouping labels must ensure unique matches",
    "vector cannot contain metrics with the same labelset", invalidBinary]

/-- A run does what the reference does: it fails with an error of matching where the reference fails,
and else returns the reference's rows, no two with one label set. -/
def Meets {Text : Type} (json : IdentityText Text) (run : Except String (List (List (Cell Text)))) :
    Prop :=
  (Fails arithmetic operator left right (fun _ _ => True) →
    ∃ error ∈ matchErrors, run = .error error) ∧
  (¬ Fails arithmetic operator left right (fun _ _ => True) →
    ∃ batch rows, run = .ok batch ∧ seriesRows json sides.output batch = .ok rows ∧
      (rows.map Sample.labels).Nodup ∧
      ∀ row, row ∈ rows ↔ InResult arithmetic sides operator left right row)

/-! ### Where the code does -/

/-- Two match groups of `on` that differ in the metric name alone give one label set once the
operator drops the name. -/
def NameClash : Prop :=
  (matchOf operator).1 = .on ∧ metricName ∈ (matchOf operator).2.1 ∧
    (isCompareBool operator.kind = true ∨ isArithmetic operator.kind = true ∧
      ∀ grouping ∈ (matchOf operator).2.2, metricName ∉ grouping.labels) ∧
    ∃ m ∈ manyOf operator left right, ∃ m' ∈ manyOf operator left right,
      ∃ o ∈ oneOf operator left right, ∃ o' ∈ oneOf operator left right,
        (∃ value, Gives arithmetic operator m o value) ∧
        (∃ value, Gives arithmetic operator m' o' value) ∧
        m.labels.get? metricName ≠ m'.labels.get? metricName ∧
        ∀ name, name ≠ metricName →
          match (matchOf operator).2.2 with
          | some grouping =>
            if name ∈ grouping.labels then o.labels.get? name = o'.labels.get? name
            else m.labels.get? name = m'.labels.get? name
          | none => name ∈ (matchOf operator).2.1 → m.labels.get? name = m'.labels.get? name

def Writable (output : Schema) : Prop :=
  ∃ to', layout output = .ok to' ∧ (List.range output.fields.length).all (written output to') = true

def Covered : Prop :=
  ∀ to', layout sides.output = .ok to' → to'.identity.isSome = true ∨
    ∀ row, InResult arithmetic sides operator left right row → ∀ name value,
      row.labels.get? name = some value → ∃ column ∈ to'.labels, fieldName sides.output column = name

end
end AsapPlanner.Vectors
