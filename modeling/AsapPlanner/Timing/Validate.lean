import AsapPlanner.Ir.Population
import AsapPlanner.Timing.Write

/-!
The edge rules. Every node of a timed store is checked once, against its own kind and the data states
of its children.
-/

namespace AsapPlanner.Timing
open Rust Traversal Ir

abbrev Check := Except ExecutionDataStateError Unit

def stateOf (dag : Dag) (ref : NodeRef) : ExecutionDataState where
  timing := (dag.node ref).timing.getD .queryTime
  primitive := primitive dag (dag.node ref)

/-! ### Columns -/

def isPlainOrExact : FieldDataType → Bool
  | .plain _ | .exactAggregate .. => true
  | _ => false

section Validate
variable (text : LeafText)

def isExactAccumulatorState (schema : Schema) : Check :=
  match schema.fields.find? fun field => !isPlainOrExact field.dtype with
  | some field => .error (.unsupportedStateComposition ((datum field.dtype).debug text))
  | none => .ok ()

/-- The first field `accepts` refuses is an error. -/
def checkFields (accepts : SchemaField → Bool) (fields : List SchemaField) : Check :=
  match fields.find? fun field => !accepts field with
  | some field => .error (.nonPlainOperand field.name ((datum field.dtype).debug text))
  | none => .ok ()

def checkPlainOrExactValues (schema : Schema) : Check :=
  checkFields text (fun field => isPlainOrExact field.dtype) schema.fields

def checkAllPlain (schema : Schema) : Check := checkFields text Field.isPlain schema.fields

variable (dag : Dag)

/-! ### Summary operators -/

/-- A query-time build reads an ingestion-time input only from where it is stored; an ingestion-time
build reads no query-time value. -/
def validateBuildTiming (edge : String) (child : NodeRef) (timing : ExecutionTiming) : Check :=
  let avail := stateOf dag child
  if timing = .queryTime ∧ avail.timing = .ingestionTime
      ∧ (dag.node child).materialization.timing ≠ .ingestionTime then
    .error (.unstoredIngestionInputUnderQueryTimeSummary edge (dag.node child).operator.kindName)
  else if timing = .ingestionTime ∧ avail.timing = .queryTime then
    .error (.queryTimeValueUnderIngestionSummary edge avail)
  else .ok ()

def validateBuildInput (edge : String) (child : NodeRef) (timing : ExecutionTiming) : Check := do
  if (stateOf dag child).primitive = .summaryState then
    isExactAccumulatorState text (dag.node child).schema
  validateBuildTiming dag edge child timing

def validateEstimate (node : NodeRef) (child : NodeRef) (timing : ExecutionTiming) : Check :=
  let state := stateOf dag child
  if state.primitive ≠ .summaryState then
    .error (.illegalChildDataState "SummaryEstimate.summary_input" state)
  else if timing ≠ .queryTime then
    .error (.illegalChildDataState "SummaryEstimate" (stateOf dag node))
  else .ok ()

def validateFinalize (child : NodeRef) (timing : ExecutionTiming) : Check :=
  let state := stateOf dag child
  if state.primitive ≠ .summaryState
      ∨ (isExactAccumulatorState text (dag.node child).schema).isOk = false
      ∨ (timing = .ingestionTime ∧ state.timing ≠ timing) then
    .error (.illegalChildDataState "FinalizeExactAccumulator.child" state)
  else .ok ()

def validateMaintain (child : NodeRef) (population : MaintainedPopulation)
    (timing : ExecutionTiming) : Check :=
  if population.matchesNode dag child ∧ stateOf dag child = { timing, primitive := .raw } then .ok ()
  else .error .invalidMaintainedPopulation

/-- Whether `child` is a timed population that supports the evaluation. -/
def evaluates (child : NodeRef) (evaluation : PopulationStatistic) : Bool :=
  match (dag.node child).operator with
  | .asap (.maintainPopulation _ population) =>
    population.supports evaluation && (dag.node child).timing.isSome
  | _ => false

def validateEvaluate (child : NodeRef) (evaluation : PopulationStatistic)
    (timing : ExecutionTiming) : Check :=
  if timing = .queryTime ∧ evaluates dag child evaluation then .ok ()
  else .error .invalidMaintainedPopulation

def validateMergeInput (child : NodeRef) (timing : ExecutionTiming) : Check :=
  let state := stateOf dag child
  if state.primitive ≠ .summaryState ∨ (timing = .ingestionTime ∧ state.timing ≠ timing) then
    .error (.illegalChildDataState "SummaryMerge.children" state)
  else .ok ()

def validateAsap (node : NodeRef) (op : ASAPOp NodeRef) (timing : ExecutionTiming) : Check :=
  match op with
  | .summaryAgg child .. => validateBuildInput text dag "SummaryAgg.child" child timing
  | .summaryTumblingWindowChain child .. =>
    validateBuildInput text dag "SummaryTumblingWindowChain.child" child timing
  | .summaryEstimate child _ => validateEstimate dag node child timing
  | .finalizeExactAccumulator child => validateFinalize text dag child timing
  | .maintainPopulation child population => validateMaintain dag child population timing
  | .evaluatePopulation child evaluation => validateEvaluate dag child evaluation timing
  | .summaryMerge children _ _ => children.forM fun child => validateMergeInput dag child timing
  | .summarySubtract .. | .summaryDelete .. | .summaryJoin .. | .extension .. =>
    .error (.unimplementedOperator op.kindName)

/-! ### Ordinary operators -/

/-- A filter that keeps whole summary states by their key columns. -/
def keepsStates (node : NodeRef) : Bool := (selectedFrom (dag.node node)).isSome

/-- The operators that pass exact-accumulator state through unchanged. -/
def isProjectionLike : NonASAPOp NodeRef → Bool
  | .project .. | .filter .. | .sort .. | .limit .. => true
  | _ => false

def validateInput (node : NodeRef) (op : NonASAPOp NodeRef) (timing : ExecutionTiming)
    (child : NodeRef) : Check :=
  let state := stateOf dag child
  let passesState := isProjectionLike op && state.primitive == .summaryState
    && ((isExactAccumulatorState text (dag.node child).schema).isOk || keepsStates dag node)
  let readsStored := timing == .queryTime
    && (dag.node child).materialization.timing == .ingestionTime
  if (state.timing ≠ timing ∧ readsStored = false) ∨ (state.primitive ≠ .raw ∧ passesState = false)
  then .error (.illegalChildDataState op.kindName state)
  else .ok ()

def validateMeasures (reduction : Reduction) (measures : List AggIntent) (child : NodeRef) : Check :=
  let referenced := ((reduction.groupKeys.map (·.keys)).getD []) ++ measures.flatMap (·.inputCols)
  let implicit := measures.any fun measure => measure.inputCols.isEmpty
  let fields := (dag.node child).schema.fields
  let read := fields.zipIdx.filter fun entry => implicit || referenced.contains entry.2
  checkFields text Field.isPlain (read.map (·.1))

/-- A non-null text series identity; every other column a non-null number or timestamp. -/
def plainFloatOrTs (schema : Schema) : Bool :=
  schema.fields.all fun field => !field.nullable &&
    if field.name == promqlSeriesIdentity then same field.dtype (.plain .utf8)
    else match field.dtype with
      | .plain .float64 | .plain .timestamp => true
      | _ => false

/-- Whether ingestion-time maintenance can evaluate a `BinaryOp`. -/
def isIngestionBinary (node : NodeRef) (operator : BinaryOperator) (lhs rhs : NodeRef) : Bool :=
  let schema := (dag.node node).schema
  let floatCount := schema.fields.countP fun field => match field.dtype with
    | .plain .float64 => true
    | _ => false
  let arithmetic := match operator.kind with
    | .arithmetic _ => true
    | _ => false
  operator.vectorMatch.isNone && arithmetic
    && same (dag.node lhs).schema (dag.node rhs).schema && same (dag.node lhs).schema schema
    && schema.fields.countP (fun field => field.name == promqlSeriesIdentity) ≤ 1
    && !(hasSeriesIdentity schema && !alignedRows dag lhs rhs)
    && plainFloatOrTs schema && floatCount == 1

def validateBinary (node : NodeRef) (operator : BinaryOperator) (lhs rhs : NodeRef)
    (timing : ExecutionTiming) : Check :=
  let relative := operator.checkedRelativeDivision
  let finite := operator.checkedFiniteDivision
  if (relative && finite) = true
      ∨ ((relative || finite) = true ∧ (timing ≠ .queryTime ∨ operator.kind ≠ .arithmetic .div)) then
    .error .invalidCheckedDivision
  else if timing = .ingestionTime ∧ isIngestionBinary dag node operator lhs rhs = false then
    .error .invalidIngestionTimeBinary
  else .ok ()

def validateColumns (node : NodeRef) (op : NonASAPOp NodeRef) (timing : ExecutionTiming) : Check :=
  match op with
  | .filter _ child =>
    if keepsStates dag node then .ok () else checkPlainOrExactValues text (dag.node child).schema
  | .project _ _ child | .sort _ _ child | .limit _ _ _ child =>
    checkPlainOrExactValues text (dag.node child).schema
  | .aggregate reduction measures _ _ _ child => validateMeasures text dag reduction measures child
  | .binaryOp operator _ lhs rhs => validateBinary dag node operator lhs rhs timing
  | _ => op.children.forM fun child => checkAllPlain text (dag.node child).schema

def validateNonAsap (node : NodeRef) (op : NonASAPOp NodeRef) (timing : ExecutionTiming) : Check := do
  op.children.forM (validateInput text dag node op timing)
  validateColumns text dag node op timing

/-! ### The traversal -/

/-- One node against the edge rules. -/
def validateNode (ref : NodeRef) : Check :=
  let timing := (stateOf dag ref).timing
  match (dag.node ref).operator with
  | .asap op => validateAsap text dag ref op timing
  | .nonASAP op => validateNonAsap text dag ref op timing

/-- Check every edge below `ref` once. -/
def validate (ref : NodeRef) : StateT (Cache NodeRef Unit) (Except ExecutionDataStateError) Unit := do
  if ((← get) ref).isSome then pure ()
  else
    modify fun seen => seen.insert ref ()
    StateT.lift (validateNode text dag ref)
    let _ ← (dag.children ref).attach.mapM fun child => validate child.1
termination_by ref
decreasing_by exact dag.child_lt child.2

end Validate

/-! ### What a successful validation checked -/

section Checked
variable {text : LeafText} {dag : Dag}

/-- Nothing seen is forgotten, and what is newly seen was checked with its children. -/
structure Checked (text : LeafText) (dag : Dag) (before after : Cache NodeRef Unit) : Prop where
  kept : ∀ ref, before ref = some () → after ref = some ()
  checked : ∀ ref, after ref = some () → before ref = some () ∨
    (validateNode text dag ref = .ok () ∧ ∀ child ∈ dag.children ref, after child = some ())

theorem Checked.refl (seen : Cache NodeRef Unit) : Checked text dag seen seen :=
  ⟨fun _ found => found, fun _ found => .inl found⟩

theorem Checked.trans (a b c : Cache NodeRef Unit) (ab : Checked text dag a b)
    (bc : Checked text dag b c) : Checked text dag a c where
  kept ref found := bc.kept ref (ab.kept ref found)
  checked ref found := by
    rcases bc.checked ref found with middle | here
    · rcases ab.checked ref middle with old | ⟨valid, below⟩
      · exact .inl old
      · exact .inr ⟨valid, fun child reads => bc.kept child (below child reads)⟩
    · exact .inr here

theorem validate_checked (ref : NodeRef) {seen later : Cache NodeRef Unit}
    (run : validate text dag ref seen = .ok ((), later)) :
    Checked text dag seen later ∧ later ref = some () := by
  induction ref using Nat.strongRecOn generalizing seen later with
  | ind ref ih =>
    rw [validate] at run
    obtain ⟨before, state, read, run⟩ := bind_ok run
    cases read
    cases known : seen ref with
    | some _ =>
      rw [known] at run
      obtain ⟨_, rfl⟩ := pure_ok run
      exact ⟨Checked.refl _, known⟩
    | none =>
      rw [known] at run
      obtain ⟨_, marked, mark, run⟩ := bind_ok run
      cases mark
      obtain ⟨_, state, check, run⟩ := bind_ok run
      obtain ⟨valid, rfl⟩ := lift_ok check
      obtain ⟨_, final, children, run⟩ := bind_ok run
      obtain ⟨_, rfl⟩ := pure_ok run
      have each : ∀ child ∈ (dag.children ref).attach, ∀ done t t', True →
          validate text dag child.1 t = .ok (done, t') →
          True ∧ Checked text dag t t' ∧ t' child.1 = some () := by
        intro child _ done t t' _ here
        exact ⟨trivial, ih child.1 (dag.child_lt child.2) here⟩
      have stable : ∀ (child : {child // child ∈ dag.children ref}) (_ : Unit) t t',
          t child.1 = some () → Checked text dag t t' → t' child.1 = some () :=
        fun child _ _ _ found grown => grown.kept child.1 found
      obtain ⟨-, grown, below⟩ := mapM_ok Checked.refl Checked.trans stable each trivial children
      have childrenSeen : ∀ child ∈ dag.children ref, final child = some () := by
        intro child reads
        obtain ⟨_, found⟩ := exists_of_forall₂ below ⟨child, reads⟩ (List.mem_attach _ _)
        exact found
      refine ⟨⟨?_, ?_⟩, grown.kept ref (if_pos rfl)⟩
      · intro other found
        apply grown.kept other
        by_cases same : other = ref
        · exact if_pos same
        · exact (if_neg same).trans found
      · intro other found
        by_cases same : other = ref
        · rw [same]
          exact .inr ⟨valid, childrenSeen⟩
        · rcases grown.checked other found with old | here
          · exact .inl ((if_neg same).symm.trans old)
          · exact .inr here

theorem validate_ok {root : NodeRef} {later : Cache NodeRef Unit}
    (run : validate text dag root Cache.empty = .ok ((), later)) {ref : NodeRef}
    (reached : dag.Reaches root ref) : validateNode text dag ref = .ok () := by
  obtain ⟨checked, rootSeen⟩ := validate_checked root run
  have valid : ∀ ref, later ref = some () →
      validateNode text dag ref = .ok () ∧ ∀ child ∈ dag.children ref, later child = some () := by
    intro ref found
    rcases checked.checked ref found with old | here
    · cases old
    · exact here
  have seen : later ref = some () := by
    induction reached with
    | refl => exact rootSeen
    | tail _ reads ih => exact (valid _ ih).2 _ reads
  exact (valid ref seen).1

end Checked
end AsapPlanner.Timing
