import AsapPlanner.Ir.Schema
import AsapPlanner.Rust.BTreeMap
import AsapPlanner.Ir.OperatorProperties
import AsapPlanner.Rust.Value
import Mathlib.Data.String.Basic

/-!
Instant vectors as rows: where a row keeps its label set, and how a label set is read and written. The
PromQL binary operators over instant vectors: which operators there are, how rows of the two sides
match, and the rows that come out.
-/

namespace AsapPlanner.Vectors
open Ir Rust

abbrev Labels := BTreeMap String String

def metricName : String := "__name__"

/-- A cell of a vector's row; the texts of series identities have a type of their own. -/
inductive Cell (Text : Type)
  | label (value : Option String)
  | identity (text : Text)
  | value (value : F64)
  | time (time : Int)

/-- The text of a label set, and the label set that a text holds. -/
structure IdentityText (Text : Type) where
  parse : Text → Option Labels
  text : Labels → Text
  parse_text : ∀ labels, parse (text labels) = some labels

/-- Where a row's label set lives: the series identity when there is one, else the label columns. -/
structure Layout where
  identity : Option Nat
  labels : List Nat
  value : Nat
deriving DecidableEq, Repr

/-- The columns found so far, by what they hold. -/
structure Placed where
  identity : Option Nat
  labels : List Nat
  value : Option Nat

def place (timeIndex : Option Nat) (placed : Placed) : SchemaField × Nat → Except String Placed
  | (field, i) =>
    match field.dtype, field.nullable with
    | .plain .utf8, nullable =>
      if field.name = promqlSeriesIdentity then
        if nullable then .error "PromQL vector requires labels, time and one value"
        else .ok { placed with identity := some i }
      else .ok { placed with labels := placed.labels ++ [i] }
    | .plain .float64, false =>
      if placed.value.isNone then .ok { placed with value := some i }
      else .error "PromQL vector requires labels, time and one value"
    | .plain .timestamp, false =>
      if timeIndex = some i then .ok placed
      else .error "PromQL vector requires labels, time and one value"
    | .plain _, _ => .error "PromQL vector requires labels, time and one value"
    | _, _ => .error "plain value required"

def layout (schema : Schema) : Except String Layout := do
  let placed ← schema.fields.zipIdx.foldlM (place schema.timeIndex) ⟨none, [], none⟩
  match placed.value with
  | some value => .ok ⟨placed.identity, placed.labels, value⟩
  | none => .error "PromQL vector requires one value"

/-- One row of a vector: its time, when there is a time column, its label set and its value. -/
structure Sample where
  time : Option Int
  labels : Labels
  value : F64
deriving DecidableEq

section
variable {Text : Type} (json : IdentityText Text)

def fieldName (schema : Schema) (column : Nat) : String :=
  match schema.fields[column]? with
  | some field => field.name
  | none => ""

def readLabel (schema : Schema) (row : List (Cell Text)) (labels : Labels) (column : Nat) :
    Except String Labels :=
  match row[column]? with
  | some (.label (some value)) =>
    .ok (if value = "" then labels else labels.insert (fieldName schema column) value)
  | some (.label none) => .ok labels
  | _ => .error "label must be Utf8"

/-- A row's label set without its empty labels, which PromQL treats as absent. -/
def readLabels (schema : Schema) (layout : Layout) (row : List (Cell Text)) : Except String Labels :=
  match layout.identity with
  | some i =>
    match row[i]? with
    | some (.identity text) =>
      match json.parse text with
      | some labels => .ok (labels.retain fun _ value => value ≠ "")
      | none => .error "invalid series identity"
    | _ => .error "series identity must be Utf8"
  | none => layout.labels.foldlM (readLabel schema row) BTreeMap.empty

def readSample (schema : Schema) (layout : Layout) (row : List (Cell Text)) : Except String Sample := do
  let labels ← readLabels json schema layout row
  match row[layout.value]? with
  | some (.value value) =>
    match schema.timeIndex with
    | none => .ok ⟨none, labels, value⟩
    | some index =>
      match row[index]? with
      | some (.time time) => .ok ⟨some time, labels, value⟩
      | _ => .error "series timestamps are timestamps"
  | _ => .error "vector value must be Float64"

def timesTyped (schema : Schema) : Bool :=
  schema.timeIndex.all fun index =>
    match schema.fields[index]? with
    | some field => match field.dtype with
      | .plain .timestamp => true
      | _ => false
    | none => false

/-- `series_rows`. -/
def seriesRows (schema : Schema) (batch : List (List (Cell Text))) : Except String (List Sample) := do
  let layout ← layout schema
  if timesTyped schema then batch.mapM (readSample json schema layout)
  else .error "series timestamps are timestamps"

def written (output : Schema) (layout : Layout) (column : Nat) : Bool :=
  column = layout.value || output.timeIndex = some column || column ∈ layout.labels ||
    layout.identity = some column

/-- One cell of a row written; of what a column may be taken for, what is written last. -/
def renderCell (output : Schema) (layout : Layout) (sample : Sample) (column : Nat) :
    Except String (Cell Text) :=
  if column = layout.value then .ok (.value sample.value)
  else if output.timeIndex = some column then
    match sample.time with
    | some time => .ok (.time time)
    | none => .error "value differs from its column's type"
  else if column ∈ layout.labels then
    .ok (.label (some ((sample.labels.get? (fieldName output column)).getD "")))
  else .ok (.identity (json.text sample.labels))

/-- The rows of an output: the identity as the label set's text, each label column its label or
empty. -/
def render (output : Schema) (samples : List Sample) : Except String (List (List (Cell Text))) := do
  let layout ← layout output
  if (List.range output.fields.length).all (written output layout) then
    samples.mapM fun sample =>
      (List.range output.fields.length).mapM (renderCell json output layout sample)
  else .error "PromQL vector requires labels, time and one value"

end

/-! ### Binary operators -/

/-! ### Values -/

def zero : F64 := ⟨false, 0⟩

def one : F64 := ⟨false, 0x3ff0000000000000#63⟩

def isNormal (x : F64) : Bool := 0x0010000000000000 ≤ x.magnitude.toNat && x.isFinite

/-- IEEE comparison: NaN is unequal to everything, itself included. -/
def compareValues (op : CompareOpKind) (left right : F64) : Option Bool :=
  match op with
  | .eq => some (left.eq right)
  | .ne => some (!left.eq right)
  | .lt => some (left.partialCmp right = some .lt)
  | .le => some (left.partialCmp right = some .lt || left.partialCmp right = some .eq)
  | .gt => some (left.partialCmp right = some .gt)
  | .ge => some (left.partialCmp right = some .gt || left.partialCmp right = some .eq)
  | _ => none

/-- IEEE arithmetic on doubles. -/
abbrev Arithmetic := ArithmeticOpKind → F64 → F64 → F64

def invalidBinary : String := "unsupported binary operation or invalid checked-division domain"

def evaluateBinary (arithmetic : Arithmetic) (operator : BinaryOperator) (left right : F64) :
    Except String (F64 ⊕ Bool) :=
  if operator.checkedRelativeDivision || operator.checkedFiniteDivision then
    if operator.kind ≠ .arithmetic .div || !left.isFinite || !right.isFinite || right.eq zero then
      .error invalidBinary
    else
      let value := arithmetic .div left right
      if !value.isFinite || operator.checkedRelativeDivision && !isNormal value then
        .error invalidBinary
      else .ok (.inl value)
  else match operator.kind with
    | .arithmetic op => .ok (.inl (arithmetic op left right))
    | .compare op =>
      match compareValues op left right with
      | some keep => .ok (.inr keep)
      | none => .error invalidBinary
    | .compareBool op =>
      match compareValues op left right with
      | some holds => .ok (.inl (if holds then one else zero))
      | none => .error invalidBinary
    | .set _ => .error invalidBinary

def apply (arithmetic : Arithmetic) (operator : BinaryOperator) (left right : F64) :
    Except String (Option F64) :=
  match evaluateBinary arithmetic operator left right with
  | .ok (.inl value) => .ok (some value)
  | .ok (.inr keep) => .ok (if keep then some left else none)
  | .error error => .error error

/-! ### Label sets -/

/-- The matching signature: `on` keeps the listed labels, `ignoring` drops them and the name. -/
def signature (kind : VectorMatchKind) (names : List String) (labels : Labels) : Labels :=
  match kind with
  | .on => labels.retain fun key _ => key ∈ names
  | .ignoring => labels.retain fun key _ => key ≠ metricName && key ∉ names

def matchOf (operator : BinaryOperator) : VectorMatchKind × List String × Option VectorGrouping :=
  match operator.vectorMatch with
  | none => (.ignoring, [], none)
  | some m => (m.kind, m.labels, m.grouping)

/-- `group_right` makes the left side the "one" side. -/
def swapped (operator : BinaryOperator) : Bool :=
  (matchOf operator).2.2.any fun grouping => grouping.side = .right

def includeLabel (oneLabels metric : Labels) (name : String) : Labels :=
  match oneLabels.get? name with
  | some value => metric.insert name value
  | none => metric.remove name

/-- Labels taken from the "one" side. -/
def included (oneLabels metric : Labels) (names : List String) : Labels :=
  names.foldl (includeLabel oneLabels) metric

def isArithmetic : BinaryOpKind → Bool
  | .arithmetic _ => true
  | _ => false

def isCompareBool : BinaryOpKind → Bool
  | .compareBool _ => true
  | _ => false

/-- The label set of a row of the "many" side matched with one of the "one" side. -/
def resultMetric (operator : BinaryOperator) (many oneLabels : Labels) : Labels :=
  let (kind, names, grouping) := matchOf operator
  let metric := if isArithmetic operator.kind then many.remove metricName else many
  let metric := match grouping with
    | none =>
      match kind with
      | .on => metric.retain fun key _ => key ∈ names
      | .ignoring => metric.retain fun key _ => key ∉ names
    | some grouping => included oneLabels metric grouping.labels
  if isCompareBool operator.kind then metric.remove metricName else metric

/-! ### Matching -/

/-- The operands' schemas and the output's. -/
structure Sides where
  left : Schema
  right : Schema
  output : Schema

def compares : CompareOpKind → Bool
  | .eq | .ne | .lt | .le | .gt | .ge => true
  | _ => false

def validKind : BinaryOpKind → Bool
  | .arithmetic _ => true
  | .compare op | .compareBool op => compares op
  | .set _ => true

def isSet : BinaryOpKind → Bool
  | .set _ => true
  | _ => false

def labelFields (schema : Schema) (layout : Layout) : List SchemaField :=
  (layout.labels ++ layout.identity.toList).filterMap fun column => schema.fields[column]?

/-- `Operator::series_binary` of two vectors: the left operand's columns, and those for what a
result takes from the right one. -/
def seriesBinarySides (left right : Schema) (operator : BinaryOperator) : Except String Sides := do
  let (_, _, grouping) := matchOf operator
  if !validKind operator.kind || grouping.isSome && isSet operator.kind then
    .error "unsupported PromQL binary operation"
  else
    let _ ← layout left
    let rightLayout ← layout right
    let rightRows := operator.kind = .set .or || grouping.any fun grouping => grouping.side = .right
    let additions := (if rightRows then labelFields right rightLayout else []) ++
      match grouping with
      | some grouping => grouping.labels.map fun name => Field.ofPlain name .utf8 true
      | none => []
    let fields := additions.foldl (fun fields field =>
      if fields.any fun other => other.name = field.name then fields else fields ++ [field]) left.fields
    if operator.kind = .set .or && left.timeIndex.isSome && right.timeIndex.isNone then
      .error "PromQL binary right row requires a timestamp"
    else .ok ⟨left, right, { left with fields := fields }⟩

def timeAt (output side : Schema) (sample : Sample) : Option Int :=
  if output.timeIndex.isSome && side.timeIndex.isSome then sample.time else none

def setRows (sides : Sides) (set : PromQLVectorSetOpKind) (kind : VectorMatchKind)
    (names : List String) (left right : List Sample) : List Sample :=
  -- `and` and `unless` look up the right side; `or` adds unmatched right rows.
  let signatures := (if set = .or then left else right).map fun row => signature kind names row.labels
  let kept := left.filter fun row =>
    set = .or || decide (signature kind names row.labels ∈ signatures) = decide (set = .and)
  kept.map (fun row => { row with time := timeAt sides.output sides.left row }) ++
    if set = .or then
      (right.filter fun row => signature kind names row.labels ∉ signatures).map fun row =>
        { row with time := timeAt sides.output sides.right row }
    else []

def addOne (kind : VectorMatchKind) (names : List String) (swapped : Bool)
    (found : List (Labels × Sample)) (row : Sample) : Except String (List (Labels × Sample)) :=
  if (found.lookup (signature kind names row.labels)).isSome then
    .error (if swapped then
      "found duplicate series for the match group on the left hand-side of the operation"
      else "found duplicate series for the match group on the right hand-side of the operation")
  else .ok (found ++ [(signature kind names row.labels, row)])

/-- The "one" side's rows by their signatures. -/
def onesOf (kind : VectorMatchKind) (names : List String) (swapped : Bool) (ones : List Sample) :
    Except String (List (Labels × Sample)) :=
  ones.foldlM (addOne kind names swapped) []

/-- What the rows matched so far have given: label sets by signature, and the rows. -/
structure Matched where
  results : List (Labels × Labels)
  rows : List Sample

def addRow (grouping : Option VectorGrouping) (matched : Matched) (key : Labels) (row : Sample) :
    Except String Matched :=
  if grouping.isNone && key ∈ matched.results.map Prod.fst then
    .error "many-to-one matching must be explicit (group_left/group_right)"
  else if (key, row.labels) ∈ matched.results then
    .error "multiple matches for labels: grouping labels must ensure unique matches"
  else .ok ⟨matched.results ++ [(key, row.labels)], matched.rows ++ [row]⟩

def matchRow (arithmetic : Arithmetic) (sides : Sides) (operator : BinaryOperator)
    (ones : List (Labels × Sample)) (matched : Matched) (row : Sample) : Except String Matched :=
  let (kind, names, grouping) := matchOf operator
  let key := signature kind names row.labels
  match ones.lookup key with
  | none => .ok matched
  | some oneRow =>
    let (l, r) := if swapped operator then (oneRow.value, row.value) else (row.value, oneRow.value)
    match apply arithmetic operator l r with
    | .error error => .error error
    | .ok none => .ok matched
    | .ok (some value) =>
      -- The output row takes its time from the left side's row.
      let time := timeAt sides.output sides.left (if swapped operator then oneRow else row)
      addRow grouping matched key ⟨time, resultMetric operator row.labels oneRow.labels, value⟩

def vectorRows (arithmetic : Arithmetic) (sides : Sides) (operator : BinaryOperator)
    (left right : List Sample) : Except String (List Sample) :=
  let (kind, names, _) := matchOf operator
  match operator.kind with
  | .set set => .ok (setRows sides set kind names left right)
  | _ =>
    -- Prometheus returns before matching when either side is empty.
    if left.isEmpty || right.isEmpty then .ok []
    else
      let (ones, many) := if swapped operator then (left, right) else (right, left)
      do
        let ones ← onesOf kind names (swapped operator) ones
        let matched ← many.foldlM (matchRow arithmetic sides operator ones) ⟨[], []⟩
        .ok matched.rows

/-- `series_binary` of two vectors. -/
def seriesBinary {Text : Type} (json : IdentityText Text) (arithmetic : Arithmetic) (sides : Sides)
    (operator : BinaryOperator) (left right : List (List (Cell Text))) :
    Except String (List (List (Cell Text))) := do
  let left ← seriesRows json sides.left left
  let right ← seriesRows json sides.right right
  let rows ← vectorRows arithmetic sides operator left right
  render json sides.output rows

end AsapPlanner.Vectors
