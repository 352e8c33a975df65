import AsapPlanner.Demand.Instants
import AsapPlanner.Rust.Integer
import AsapPlanner.Rust.Result
import AsapPlanner.Timing.Placement

/-!
Which summary builds may run at ingestion time for their readers, which of them may be kept across
evaluations, and whether their tumbling windows end on every step of a range evaluation.
-/

namespace AsapPlanner.Demand

def QueryRecurrence.fixedIntervalMs : QueryRecurrence → Option Nat
  | .repeated (.fixedInterval interval) | .repeated (.fixedIntervalAt interval _) =>
    if 0 < interval then some interval else none
  | _ => none

end AsapPlanner.Demand

namespace AsapPlanner.Eligibility
open Rust Ir Demand Timing

/-! ### The workload -/

inductive Predictability
  | adHoc
  | predictable (knownAt : Option Nat)
  | unknown

/-- What planning reads of a query's demand. -/
structure QueryWorkloadEntry extends ReaderDemand where
  predictability : Predictability

inductive DataArrival
  | atRest
  | ingesting (rowsPerSecond : F64)
  | mixed (rowsPerSecond : F64)
  | unknown

structure DataWorkload where
  arrival : DataArrival

inductive IngestionPruneReason
  | notIngesting
  | notRepeated
  | notPredictable
  | filtered
  | counterNeedsTimeOrder
  | windowNotFixed
  | windowOffEpochGrid
  | rangeEvaluatedWholeWindow
  | tumblingWindowsOffPhase
  | tumblingWindowsOffInterval
  | notASummaryBuild
deriving DecidableEq, Repr

inductive PhysicalASAPOptimizationError
  | tumblingWindowWidthOffRangeStep (tumblingWindowWidthMs stepMs : Nat)
deriving DecidableEq, Repr

def QueryWorkloadEntry.isRepeated (entry : QueryWorkloadEntry) : Bool :=
  match entry.recurrence with
  | .repeated _ => true
  | _ => false

def QueryWorkloadEntry.isPredictable (entry : QueryWorkloadEntry) : Bool :=
  match entry.predictability with
  | .predictable _ => true
  | _ => false

/-- More than one step for each request. -/
def QueryWorkloadEntry.evaluatesRange (entry : QueryWorkloadEntry) : Bool :=
  entry.rangeEvaluation.any fun range => 1 < range.evaluationsPerRequest

/-! ### Chains -/

def planTumblingWindowPhase (demand : RepeatedDemand) (tumblingWindowWidthMs : Nat) : Option Nat :=
  match demand with
  | .fixedIntervalAt _ evaluationPhase => some (evaluationPhase % tumblingWindowWidthMs)
  | .scheduled times => (times.head?.map (· % tumblingWindowWidthMs)).filter fun phase =>
      times.all fun time => time % tumblingWindowWidthMs == phase
  | .fixedInterval _ | .estimatedRate _ => none

def checkChainReader (tumblingWindowWidthMs : Nat) (entry : QueryWorkloadEntry) :
    Except IngestionPruneReason Unit :=
  match entry.recurrence with
  | .repeated demand =>
    if entry.recurrence.fixedIntervalMs.any fun interval => !decide (tumblingWindowWidthMs ∣ interval) then
      .error .tumblingWindowsOffInterval
    else if tumblingWindowWidthMs = 0 then .error .tumblingWindowsOffPhase
    else match planTumblingWindowPhase demand tumblingWindowWidthMs, demand with
      | some phase, _ => if phase ≠ 0 then .error .tumblingWindowsOffPhase else .ok ()
      | none, .scheduled _ => .error .tumblingWindowsOffPhase
      | none, _ => .ok ()
  | _ => .ok ()

/-! ### Whole windows -/

/-- The one interval of the readers so far, and the phase those that declare one agree on. -/
structure Cadence where
  interval : Option Nat
  phase : Option Nat

def Cadence.read (cadence : Cadence) (entry : QueryWorkloadEntry) :
    Except IngestionPruneReason Cadence := do
  let (interval, phase) ← match entry.recurrence with
    | .repeated (.fixedInterval interval) => pure (interval, none)
    | .repeated (.fixedIntervalAt interval evaluationPhase) =>
      pure (interval, if interval = 0 then none else some (evaluationPhase % interval))
    | _ => throw .windowNotFixed
  if interval = 0 then throw .windowNotFixed
  if cadence.interval.getD interval ≠ interval then throw .windowNotFixed
  match phase with
  | none => pure { cadence with interval := some interval }
  | some phase =>
    if cadence.phase.getD phase ≠ phase then throw .windowNotFixed
    pure { interval := some interval, phase := some phase }

/-- The width of the unshifted range a build reads. -/
def wholeWindowMs (dag : Dag) (ref : NodeRef) : Option Nat := do
  let input ← (dag.children ref).head?
  match (dag.node input).nonAsap with
  | some (.timeRange range .range child) =>
    match (dag.node child).nonAsap with
    | some (.timeShift ..) => none
    | _ => if 0 < range.asMillis ∧ range.asMillis ≤ u64Max then some range.asMillis else none
  | _ => none

def checkWholeWindow (dag : Dag) (ref : NodeRef) (demands : List QueryWorkloadEntry) :
    Except IngestionPruneReason Unit := do
  if demands.any (·.evaluatesRange) then throw .rangeEvaluatedWholeWindow
  let cadence ← demands.foldlM Cadence.read { interval := none, phase := none }
  match cadence.interval, wholeWindowMs dag ref with
  | some interval, some window =>
    if window ∣ interval ∧ ∀ phase ∈ cadence.phase, window ∣ phase then pure ()
    else throw .windowOffEpochGrid
  | _, _ => throw .windowNotFixed

/-! ### Eligibility -/

def readsOnlyTimeSeries (dag : Dag) (ref : NodeRef) : Bool :=
  match (dag.node ref).nonAsap with
  | some (.scan (.timeSeries _) ..) => true
  | some (.scan ..) => false
  | _ => (dag.children ref).attach.all fun child => readsOnlyTimeSeries dag child.1
termination_by ref
decreasing_by exact dag.child_lt child.2

/-- A counter's state, whose update needs each series' samples in time order. -/
def needsTimeOrder : FieldDataType → Bool
  | .exactAggregate .rate _ | .exactAggregate .increase _ | .exactAggregate .iRate _ => true
  | _ => false

def isIngesting : DataArrival → Bool
  | .ingesting _ => true
  | _ => false

def checkArrival : DataArrival → Except IngestionPruneReason Unit
  | .ingesting _ | .mixed _ => .ok ()
  | .atRest | .unknown => .error .notIngesting

def summaryFamily (node : OperatorNode) : Except IngestionPruneReason (FieldDataType × Option Nat) :=
  match node.asap with
  | some (.summaryAgg _ family ..) => .ok (family, none)
  | some (.summaryTumblingWindowChain _ family _ _ _ _ width _) => .ok (family, some width)
  | _ => .error .notASummaryBuild

def ingestionEligibility (dag : Dag) (ref : NodeRef) (readers : List Nat)
    (entries : List QueryWorkloadEntry) (data : DataWorkload) : Except IngestionPruneReason Unit := do
  checkArrival data.arrival
  let demands := readers.map fun query => entries[query]?
  if demands.any fun demand => !demand.any (·.isRepeated) then throw .notRepeated
  if demands.any fun demand => !demand.any (·.isPredictable) then throw .notPredictable
  if isFilteredBuild (dag.node ref) then throw .filtered
  let (family, chainTumblingWindowWidthMs) ← summaryFamily (dag.node ref)
  if needsTimeOrder family && !(isIngesting data.arrival && readsOnlyTimeSeries dag ref) then
    throw .counterNeedsTimeOrder
  let present := demands.filterMap id
  match chainTumblingWindowWidthMs with
  | some width => present.forM (checkChainReader width)
  | none => checkWholeWindow dag ref present

/-! ### Range steps -/

def checkSummaryRangeSteps (dag : Dag) (ref : NodeRef) (readers : List Nat)
    (entries : List QueryWorkloadEntry) : Except PhysicalASAPOptimizationError Unit :=
  match (dag.node ref).asap with
  | some (.summaryTumblingWindowChain _ _ _ _ _ _ width _) =>
    readers.forM fun query =>
      match (entries[query]?.bind (·.rangeEvaluation)).filter fun range =>
        decide (1 < range.evaluationsPerRequest) with
      | none => .ok ()
      | some range =>
        if range.stepMs % max width 1 ≠ 0 then
          .error (.tumblingWindowWidthOffRangeStep width range.stepMs)
        else .ok ()
  | _ => .ok ()

/-! ### Keeping states -/

def joinPhase (tumblingWindowWidthMs : Nat) (phase : Option Nat) (recurrence : QueryRecurrence) :
    Option (Option Nat) :=
  if recurrence.fixedIntervalMs ≠ some tumblingWindowWidthMs then none
  else match recurrence with
    | .repeated (.fixedIntervalAt _ evaluationPhase) =>
      let own := evaluationPhase % tumblingWindowWidthMs
      if phase.getD own ≠ own then none else some (some own)
    | _ => some phase

def buildsOneTumblingWindowPerEvaluation (tumblingWindowWidthMs : Nat)
    (readers : List QueryRecurrence) : Bool :=
  tumblingWindowWidthMs ≠ 0 && (readers.foldlM (joinPhase tumblingWindowWidthMs) none).isSome &&
    !readers.isEmpty

structure SummaryMaterializationEligibility where
  atIngestion : Except IngestionPruneReason Unit
  mayKeepAcrossEvaluations : Bool
  rangeCompatibility : Except PhysicalASAPOptimizationError Unit

def summaryReaderEligibility (dag : Dag) (ref : NodeRef) (readers : List Nat)
    (entries : List QueryWorkloadEntry) (data : DataWorkload) (queryTimeResultsRetained : Bool) :
    SummaryMaterializationEligibility where
  atIngestion := ingestionEligibility dag ref readers entries data
  mayKeepAcrossEvaluations := queryTimeResultsRetained &&
    match (dag.node ref).asap, readers.mapM fun query => entries[query]?.map (·.recurrence) with
    | some (.summaryTumblingWindowChain _ _ _ _ _ _ width _), some recurrences =>
      buildsOneTumblingWindowPerEvaluation width recurrences
    | _, _ => false
  rangeCompatibility := checkSummaryRangeSteps dag ref readers entries

end AsapPlanner.Eligibility
