import AsapPlanner.Coverage.Merge
import AsapPlanner.Ir.OutputKind

/-!
The schemas of the operators that planning passes build themselves: filters and time operators, which
keep their input's schema, summary builds, and merges of summary states.
-/

namespace AsapPlanner.Construction
open Rust Ir Coverage

inductive SchemaDerivationError
  | invalidScalarSignature (message : String)
  | invalidGroupByColumn (column columns : Nat)
  | invalidSampleColumn (message : String)
  | coverage (error : CoverageError)
deriving DecidableEq, Repr

def SchemaDerivationError.message : SchemaDerivationError → String
  | invalidScalarSignature message => "invalid scalar function signature: " ++ message
  | invalidGroupByColumn column columns =>
    "by-column id " ++ toString column ++ " out of range (input has " ++ toString columns
      ++ " columns)"
  | invalidSampleColumn message => "invalid per-series sample column: " ++ message
  | coverage error => "invalid summary coverage: " ++ error.message

abbrev Checked := Except SchemaDerivationError

/-! ### Aggregates -/

def isNumeric (field : SchemaField) : Bool :=
  match field.dtype with
  | .plain .float64 | .plain .int64 => true
  | _ => false

/-- `ColumnRef::SampleValue`: the column `value`, or else the only numeric one beside time. -/
def resolveSampleValue (schema : Schema) : Option ColumnId :=
  (schema.columnId "value").or
    (match (List.range schema.fields.length).filter fun i =>
        schema.timeIndex != some i && schema.fields[i]?.any isNumeric with
      | [only] => some only
      | _ => none)

section Text
variable (text : LeafText)

def noSampleValue (schema : Schema) : String :=
  "ColumnRef::SampleValue has no `value` column in schema (have: "
    ++ (datum (schema.fields.map (·.name))).debug text ++ ")"

/-- The output column of `Sum` over `input`. -/
def sumColumn (input : SchemaField) : SchemaField :=
  { name := "sum", dtype := input.dtype, nullable := false, table := none }

def perSeriesReductionSchema (input : Schema) : Checked Schema :=
  match resolveSampleValue input with
  | none => .error (.invalidSampleColumn (noSampleValue text input))
  | some value =>
    match input.fields[value]?.filter isNumeric with
    | none => .error (.invalidSampleColumn ("column " ++ toString value ++ " is not numeric"))
    | some field =>
      let out := { sumColumn field with name := "value", dtype := .plain .float64 }
      .ok { input with fields := input.fields.set value out }

def sampleProbe (input : Schema) (column : Option ColumnId) : SchemaField :=
  (column.bind fun id => input.fields[id]?).getD (Field.ofPlain "value" .float64 false)

/-- `without(excluded)`: the other label columns, then the aggregate. -/
def withoutOutputSchema (input : Schema) (excluded : List ColumnId) : Checked Schema :=
  match excluded.find? fun id => decide (input.fields.length ≤ id) with
  | some id => .error (.invalidGroupByColumn id input.fields.length)
  | none =>
    let kept := input.fields.zipIdx.filter fun (_, i) =>
      input.timeIndex != some i && resolveSampleValue input != some i && !excluded.contains i
    .ok {
      fields := kept.map (·.1) ++ [sumColumn (sampleProbe input (input.columnId "value"))]
      timeIndex := none
      uniqueKeys := []
      closed := false }

/-- The output schema of a `Sum` of the sample value. -/
def aggregateOutputSchema (input : Schema) : Reduction → Checked Schema
  | .perEntity => perSeriesReductionSchema text input
  | .reduce group =>
    if group.without then withoutOutputSchema input group.keys
    else do
      let keys ← group.keys.mapM fun id => match input.fields[id]? with
        | some field => .ok field
        | none => .error (.invalidGroupByColumn id input.fields.length)
      let value := (resolveSampleValue input).or
        ((List.range input.fields.length).find? fun i => !group.keys.contains i)
      pure {
        fields := keys ++ [sumColumn (sampleProbe input value)]
        timeIndex := none
        uniqueKeys := if group.keys = [] then [] else [List.range group.keys.length]
        closed := true }

/-! ### Summaries -/

def summaryOutputSchema (input : Schema) (family : FieldDataType) (reduction : Reduction) :
    Checked Schema := do
  let schema ← aggregateOutputSchema text input reduction
  let index ← match reduction with
    | .perEntity => match resolveSampleValue schema with
      | some index => .ok index
      | none => .error (.invalidScalarSignature (noSampleValue text schema))
    | .reduce _ => .ok (schema.fields.length - 1)
  let state := { name := "state", dtype := family, nullable := false, table := none }
  pure { schema with fields := schema.fields.set index state }

end Text

/-- The key columns of a regrouping merge, each a distinct plain column other than time, then the
state. -/
def regroupedSchema (input : Schema) (keys : List ColumnId) : Checked Schema := do
  let fields ← keys.zipIdx.mapM fun (key, position) => match input.fields[key]? with
    | none => .error (.invalidScalarSignature "a regrouping merge key is not an input column")
    | some field =>
      if !field.isPlain || input.timeIndex == some key || (keys.take position).contains key then
        .error (.invalidScalarSignature
          "a regrouping merge keys by distinct plain input columns other than time")
      else .ok field
  pure {
    fields := fields ++ (input.fields.find? fun field => !field.isPlain).toList
    timeIndex := none
    uniqueKeys := if keys = [] then [] else [List.range keys.length]
    closed := true }

def onlyChainCount (dag : Dag) : List NodeRef → Option Nat
  | [chain] => match (dag.node chain).asap with
    | some (.summaryTumblingWindowChain _ _ _ _ _ _ _ count) => some count
    | _ => none
  | _ => none

def validateMerge (dag : Dag) (children : List NodeRef) (newest : Option Nat)
    (groupBy : Option (List ColumnId)) : Checked Unit := do
  if newest.isSome && groupBy.isSome then
    throw (.invalidScalarSignature
      "a rollup merges every input state, not the newest tumbling windows")
  if newest.any fun n => !(onlyChainCount dag children).any fun count => 1 ≤ n && n < count then
    throw (.invalidScalarSignature
      ("a merge of the newest tumbling windows reads one tumbling-window chain, and fewer "
        ++ "tumbling windows than it has"))
  match children with
  | [] => throw (.invalidScalarSignature "summary merge requires at least one state input")
  | first :: _ =>
    let schema := (dag.node first).schema
    if (schema.fields.filter fun field => !field.isPlain).length != 1 then
      throw (.invalidScalarSignature "summary merge requires exactly one state column")
    children.forM fun child => do
      let node := dag.node child
      if node.resultKind != .state then
        throw (.invalidScalarSignature ("SummaryMerge requires summary state as input, got "
          ++ node.resultKind.name))
      if !same node.schema schema then
        throw (.invalidScalarSignature
          "summary merge inputs must have identical state and grouping schemas")

def mergeOutputSchema (dag : Dag) (children : List NodeRef) (newest : Option Nat)
    (groupBy : Option (List ColumnId)) : Checked Schema := do
  validateMerge dag children newest groupBy
  let input := (dag.node (children.headD 0)).schema
  match groupBy with
  | none => pure input
  | some keys => regroupedSchema input keys

end AsapPlanner.Construction
