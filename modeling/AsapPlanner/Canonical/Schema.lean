import AsapPlanner.Construction.OutputSchema
import AsapPlanner.Rust.Result

/-!
The schemas of the operators that canonicalization builds: projections, ranked rows, row-preserving operators and
semi/anti joins. The types of computed items and the schemas of every other operator are taken as given.
-/

namespace AsapPlanner.Canonical
open Rust Ir Construction

/-- The type of a computed expression over a schema, and the schema of an operator that no rewrite builds. -/
structure Derivation where
  text : LeafText
  scalarType : ScalarExpr NodeRef → Schema → Checked (DataType × Bool)
  others : Dag → Operator NodeRef → Checked Schema

/-! ### Projections -/

def bareField (input : Schema) : ScalarExpr NodeRef → Option SchemaField
  | .column id => input.fields[id]?
  | _ => none

def defaultProjName (expr : ScalarExpr NodeRef) (idx : Nat) (input : Schema) : String :=
  match bareField input expr with
  | some field => field.name
  | none => "col_" ++ toString idx

def isColumn (expr : ScalarExpr NodeRef) (column : ColumnId) : Bool :=
  match expr with
  | .column id => id = column
  | _ => false

section
variable (d : Derivation)

/-- The field of a bare column, or a new one of the expression's type. -/
def itemField (input : Schema) (expr : ScalarExpr NodeRef) : Checked SchemaField :=
  match bareField input expr with
  | some field => .ok field
  | none => (d.scalarType expr input).map fun (dtype, nullable) => Field.ofPlain "" dtype nullable

/-- The output column of one projection item. -/
def projectField (input : Schema) (qualifier : Option String) (item : ProjectItem NodeRef × Nat) :
    Checked SchemaField := do
  let field ← itemField d input item.1.expr
  pure { field with
    name := item.1.alias.getD (defaultProjName item.1.expr item.2 input)
    table := qualifier }

def projectSchema (input : Schema) (cols : List (ProjectItem NodeRef)) (qualifier : Option String) :
    Checked Schema := do
  let fields ← cols.zipIdx.mapM (projectField d input qualifier)
  pure {
    fields
    timeIndex := fields.findIdx? fun field => field.name = "ts"
    uniqueKeys := input.uniqueKeys.filterMap fun key =>
      key.mapM fun inputCol => cols.findIdx? fun item => isColumn item.expr inputCol
    closed := true }

/-! ### Ranked rows -/

/-- A projection of every column in place. -/
def isRenaming (cols : List (ProjectItem NodeRef)) (input : Schema) : Bool :=
  cols.length = input.fields.length && cols.zipIdx.all fun (item, i) => isColumn item.expr i

/-- What ranks a relation: the partition keys of a top-k, the reduction of an aggregate, or nothing. -/
inductive RankedBy
  | topK (reduction : Reduction)
  | aggregate (reduction : Reduction)
  | rows

/-- What a top-k over a node ranks by, through renamings, filters and state readouts. -/
def rankedBy (dag : Dag) (ref : NodeRef) : RankedBy :=
  let through (child : NodeRef) : RankedBy := if _below : child < ref then rankedBy dag child else .rows
  match (dag.node ref).operator with
  | .nonASAP (.project cols _ child) =>
    if isRenaming cols (dag.node child).schema then through child else .rows
  | .nonASAP (.filter _ child) | .asap (.finalizeExactAccumulator child) | .asap (.summaryEstimate child _) =>
    through child
  | .asap (.summaryAgg _ _ _ reduction _ _) => .aggregate reduction
  | .nonASAP (.aggregate reduction [.topK _ _] _ _ _ _) => .topK reduction
  | .nonASAP (.aggregate reduction [_] _ _ _ _) => .aggregate reduction
  | _ => .rows

def groupKeys : Reduction → List ColumnId
  | .reduce group => group.keys
  | .perEntity => []

def rankedColumn (dag : Dag) (child : NodeRef) : Checked ColumnId :=
  let schema := (dag.node child).schema
  let sampleValue := match resolveSampleValue schema with
    | some id => .ok id
    | none => .error (.invalidScalarSignature (noSampleValue d.text schema))
  match rankedBy dag child with
  | .topK reduction => .ok (groupKeys reduction).length
  | .aggregate (.reduce _) => .ok (schema.fields.length - 1)
  | .aggregate .perEntity | .rows => sampleValue

def readsOnlyTimeSeries (dag : Dag) (ref : NodeRef) : Bool :=
  match (dag.node ref).nonAsap with
  | some (.scan (.timeSeries _) _ _) => true
  | some (.scan (.table _) _ _) => false
  | _ => (dag.children ref).all fun child => if _below : child < ref then readsOnlyTimeSeries dag child else true

def kept (schema : Schema) (index : ColumnId) : ProjectItem NodeRef :=
  ⟨(schema.fields[index]?).map (·.name), .column index⟩

def rankedRowProjection (dag : Dag) (child : NodeRef) (reduction : Reduction) (outputName : String) :
    Checked (List (ProjectItem NodeRef)) := do
  let schema := (dag.node child).schema
  let value ← rankedColumn d dag child
  let keys := groupKeys reduction
  if let some index := keys.find? fun index => schema.fields.length ≤ index then
    .error (.invalidGroupByColumn index schema.fields.length)
  let promql := readsOnlyTimeSeries dag child
  let names (index : ColumnId) (field : SchemaField) : Bool :=
    (!promql || same field.dtype (.plain .utf8)) && index ≠ value && !keys.contains index &&
      field.name ≠ promqlSeriesIdentity
  let items := schema.fields.zipIdx.filterMap fun (field, index) =>
    if names index field then some (kept schema index) else none
  -- The series identity is appended, so that the labels stay in place.
  let identity := match (List.range schema.fields.length).filter fun index =>
      (schema.fields[index]?).any fun field => field.name = promqlSeriesIdentity with
    | [index] => if keys.contains index then [] else [kept schema index]
    | _ => []
  pure (keys.map (kept schema) ++ ⟨some outputName, .column value⟩ :: items ++ identity)

/-! ### Operators -/

def outputSchema (dag : Dag) : Operator NodeRef → Checked Schema
  | .nonASAP (.filter _ child) | .nonASAP (.sort _ _ child) | .nonASAP (.limit _ _ _ child) =>
    .ok (dag.node child).schema
  | .nonASAP (.project cols qualifier child) => projectSchema d (dag.node child).schema cols qualifier
  | .nonASAP (.join .semi _ left _) | .nonASAP (.join .anti _ left _) =>
    .ok { (dag.node left).schema with uniqueKeys := [] }
  | .nonASAP (.aggregate reduction [.topK k _] outputNames _ _ child) => do
    let name := (outputNames.head?.filter (· ≠ "")).getD ("topk_" ++ toString k)
    projectSchema d (dag.node child).schema (← rankedRowProjection d dag child reduction name) none
  | op => d.others dag op

/-- `OperatorNode::new_shared`. -/
def newShared (dag : Dag) (op : Operator NodeRef) : Checked (NodeRef × Dag) := do
  let schema ← outputSchema d dag op
  pure (dag.alloc (dag.withSchema op schema))

end

/-! ### What derivation gives -/

theorem projectField_name {d : Derivation} {input : Schema} {qualifier : Option String}
    {item : ProjectItem NodeRef × Nat} {field : SchemaField} (derived : projectField d input qualifier item = .ok field) :
    field.name = item.1.alias.getD (defaultProjName item.1.expr item.2 input) := by
  obtain ⟨_, _, derived⟩ := bind_eq_ok derived
  cases derived
  rfl

theorem projectSchema_fields {d : Derivation} {input schema : Schema} {qualifier : Option String}
    {cols : List (ProjectItem NodeRef)} (derived : projectSchema d input cols qualifier = .ok schema) :
    List.Forall₂ (fun item field => field.name = item.1.alias.getD (defaultProjName item.1.expr item.2 input))
      cols.zipIdx schema.fields := by
  obtain ⟨fields, listed, derived⟩ := bind_eq_ok derived
  cases derived
  exact (mapM_eq_ok.mp listed).imp fun _ _ => projectField_name

theorem projectSchema_length {d : Derivation} {input schema : Schema} {qualifier : Option String}
    {cols : List (ProjectItem NodeRef)} (derived : projectSchema d input cols qualifier = .ok schema) :
    schema.fields.length = cols.length := by
  rw [← (projectSchema_fields derived).length_eq, List.length_zipIdx]

structure Built (d : Derivation) (dag : Dag) (op : Operator NodeRef) (ref : NodeRef) (later : Dag) : Prop where
  grown : later.Extends dag
  place : ref = dag.size
  size : later.size = dag.size + 1
  node : ∃ schema, outputSchema d dag op = .ok schema ∧ later.node ref = dag.withSchema op schema

theorem newShared_built {d : Derivation} {dag later : Dag} {op : Operator NodeRef} {ref : NodeRef}
    (inside : ∀ held ∈ op.children ++ op.held.toList, held < dag.size)
    (run : newShared d dag op = .ok (ref, later)) : Built d dag op ref later := by
  obtain ⟨schema, derived, run⟩ := bind_eq_ok run
  have new : ∀ held ∈ (dag.withSchema op schema).refs, held < dag.size := inside
  have pair : dag.alloc (dag.withSchema op schema) = (ref, later) := Except.ok.inj run
  have place : ref = dag.size := by rw [← dag.alloc_ref (dag.withSchema op schema), pair]
  have grown := dag.alloc_extends (dag.withSchema op schema)
  have size := Dag.alloc_size new
  have node := Dag.alloc_node new
  rw [pair] at grown size node
  exact ⟨grown, place, size, schema, derived, by rw [place, node]⟩

theorem Built.inside {d : Derivation} {dag later : Dag} {op : Operator NodeRef} {ref : NodeRef}
    (built : Built d dag op ref later) : ref < later.size := by
  rw [built.size, built.place]
  exact Nat.lt_succ_self _

theorem Built.operator {d : Derivation} {dag later : Dag} {op : Operator NodeRef} {ref : NodeRef}
    (built : Built d dag op ref later) : (later.node ref).operator = op := by
  obtain ⟨schema, _, node⟩ := built.node
  rw [node]
  rfl

end AsapPlanner.Canonical
