import AsapPlanner.Grouping.GroupTable
import AsapPlanner.Grouping.Value
import AsapPlanner.Ir.OperatorProperties
import Mathlib.Algebra.Group.Nat.Defs

/-!
The PromQL range functions over one series' samples in a window, for any rounded arithmetic. PromQL
per-series evaluation over the samples before an evaluation instant.
-/

namespace AsapPlanner.Series
open Ir Rust Grouping

/-- A time and a value. -/
abbrev Sample := Int64 × F64

/-- Rounded arithmetic on doubles, the nearest double of an integer, and `floor` as an index. -/
structure Arithmetic where
  add : F64 → F64 → F64
  sub : F64 → F64 → F64
  mul : F64 → F64 → F64
  div : F64 → F64 → F64
  ofInt : Int → F64
  floor : F64 → Nat

namespace Arithmetic
variable (ops : Arithmetic)

def zero : F64 := ⟨false, 0⟩
def one : F64 := ⟨false, 0x3ff0000000000000⟩
def two : F64 := ⟨false, 0x4000000000000000⟩
def elevenTenths : F64 := ⟨false, 0x3ff199999999999a⟩
def thousand : F64 := ⟨false, 0x408f400000000000⟩
def nan : F64 := ⟨false, 0x7ff8000000000000⟩

def lt (x y : F64) : Bool := x.partialCmp y = some .lt
def le (x y : F64) : Bool := lt x y || x.eq y

def isInfinite (x : F64) : Bool := x.magnitude = F64.infinity

def abs (x : F64) : F64 := ⟨false, x.magnitude⟩

/-- `f64::min`. -/
def min (x y : F64) : F64 := if x.isNan || lt y x then y else x

/-- `f64::total_cmp` of numbers, NaN before them. -/
def rankLe (x y : F64) : Bool :=
  let place (v : F64) : Int := if v.negative then -v.magnitude.toNat - 1 else v.magnitude.toNat
  x.isNan || !y.isNan && place x ≤ place y

/-- Compensated addition; the compensation is cleared once the sum is infinite. -/
def kahanInc (inc : F64) (acc : F64 × F64) : F64 × F64 :=
  let (sum, c) := acc
  let t := ops.add sum inc
  (t, if isInfinite t then zero
    else if le (abs inc) (abs sum) then ops.add c (ops.add (ops.sub sum t) inc)
    else ops.add c (ops.add (ops.sub inc t) sum))

def promqlSum (start : F64) (values : List F64) : F64 :=
  let (sum, c) := values.foldl (fun acc v => ops.kahanInc v acc) (start, zero)
  if isInfinite sum then sum else ops.add sum c

/-- A compensated sum, or once that would overflow an incremental mean. -/
structure Average where
  sum : F64
  c : F64
  mean : F64
  incremental : Bool

def averageStep (state : Average) (item : F64 × Nat) : Average :=
  let (v, i) := item
  let count := ops.ofInt (i + 2)
  let before := ops.sub count one
  let (next, nextC) := ops.kahanInc v (state.sum, state.c)
  if !state.incremental && !isInfinite next then { state with sum := next, c := nextC }
  else
    let state := if state.incremental then state
      else { state with incremental := true, mean := ops.div state.sum before, c := ops.div state.c before }
    let q := ops.div before count
    let (mean, c) := ops.kahanInc (ops.div v count) (ops.mul q state.mean, ops.mul q state.c)
    { state with mean, c }

def promqlAvg : List F64 → F64
  | [] => nan
  | first :: rest =>
    let state := rest.zipIdx.foldl ops.averageStep ⟨first, zero, zero, false⟩
    let count := ops.ofInt (rest.length + 1)
    if state.incremental then ops.add state.mean state.c
    else ops.add (ops.div state.sum count) (ops.div state.c count)

/-- Interpolation between the closest ranks of sorted values. -/
def interpolated (q : F64) (values : List F64) : Except Error F64 :=
  let rank := ops.mul q (ops.ofInt (values.length - 1))
  let low := ops.floor rank
  let high := Nat.min (low + 1) (values.length - 1)
  let weight := ops.sub rank (ops.ofInt low)
  match values[low]?, values[high]? with
  | some below, some above => .ok (ops.add (ops.mul below (ops.sub one weight)) (ops.mul above weight))
  | _, _ => .error .panic

def quantile (q : F64) (values : List F64) : Except Error F64 :=
  if values = [] ∨ q.isNan then .ok nan
  else if lt q zero then .ok ⟨true, F64.infinity⟩
  else if lt one q then .ok ⟨false, F64.infinity⟩
  else ops.interpolated q (values.mergeSort rankLe)

/-- The least-squares slope, and the value at `anchor`. -/
def regression (points : List Sample) (anchor : Int64) : Option (F64 × F64) :=
  match points with
  | (_, first) :: _ :: _ =>
    if points.all fun p => p.2.eq first then
      some (if first.isFinite then (zero, first) else (nan, nan))
    else
      let x (p : Sample) := ops.div (ops.ofInt (p.1.toInt - anchor.toInt)) thousand
      let total (term : Sample → F64) :=
        let (sum, c) := points.foldl (fun acc p => ops.kahanInc (term p) acc) (zero, zero)
        ops.add sum c
      let sx := total x
      let sy := total Prod.snd
      let sxy := total fun p => ops.mul (x p) p.2
      let sxx := total fun p => ops.mul (x p) (x p)
      let n := ops.ofInt points.length
      let slope := ops.div (ops.sub sxy (ops.div (ops.mul sx sy) n)) (ops.sub sxx (ops.div (ops.mul sx sx) n))
      some (slope, ops.sub (ops.div sy n) (ops.div (ops.mul slope sx) n))
  | _ => none

/-- `end as f64 - start as f64`, in seconds. -/
def seconds (start stop : Int64) : F64 := ops.div (ops.sub (ops.ofInt stop.toInt) (ops.ofInt start.toInt)) thousand

/-- The extrapolated rate; `counter` corrects resets and bounds the extrapolation below by zero. -/
def rate (points : List Sample) (start stop : Int64) (counter : Bool) : Option F64 :=
  match points.head?, points.getLast? with
  | some (firstT, first), some (lastT, last) =>
    let span := ops.seconds firstT lastT
    if points.length < 2 ∨ le span zero then none
    else
      let resets := (points.zip points.tail).filterMap fun (before, after) =>
        if counter && lt after.2 before.2 then some before.2 else none
      let delta := resets.foldl ops.add (ops.sub last first)
      let average := ops.div span (ops.ofInt (points.length - 1))
      let most := ops.mul average elevenTenths
      let capped (gap : F64) := if le most gap then ops.div average two else gap
      let toStart := capped (ops.seconds start firstT)
      let toStart := if counter && lt zero delta && le zero first
        then min toStart (ops.div (ops.mul span first) delta) else toStart
      let toEnd := capped (ops.seconds lastT stop)
      some (ops.div (ops.div (ops.mul delta (ops.add (ops.add span toStart) toEnd)) span) (ops.seconds start stop))
  | _, _ => none

/-- `increase` and `delta`: a rate over the whole window. -/
def overWindow (start stop : Int64) (rate : F64) : F64 :=
  ops.div (ops.mul rate (ops.sub (ops.ofInt stop.toInt) (ops.ofInt start.toInt))) thousand

/-- The last two samples' change; after a counter reset the last value is the increase. -/
def instant (points : List Sample) (rate : Bool) : Option F64 :=
  match points.reverse with
  | (t1, v1) :: (t0, v0) :: _ =>
    let delta := if rate && lt v1 v0 then v1 else ops.sub v1 v0
    let interval := t1 - t0
    if interval = 0 then none
    else some (if rate then ops.div delta (ops.div (ops.ofInt interval.toInt) thousand) else delta)
  | _ => none

/-- The least value by `before`; NaN only among NaNs. -/
def extreme (before : F64 → F64 → Bool) (points : List Sample) : F64 :=
  points.foldl (fun a p => if a.isNan || before p.2 a then p.2 else a) nan

def countPairs (changed : F64 → F64 → Bool) (points : List Sample) : F64 :=
  ops.ofInt ((points.zip points.tail).countP fun (a, b) => changed a.2 b.2)

end Arithmetic

open Arithmetic

/-- One series' value over its sorted samples in the window `(start, stop]`; PromQL may emit none. -/
def windowValue (ops : Arithmetic) (intent : AggIntent) (points : List Sample) (start stop evaluationTime : Int64) :
    Except Error (Option Value) :=
  match intent with
  | .deriv => .ok ((ops.regression points ((points.head?.map (·.1)).getD 0)).map fun line => .float64 line.1)
  | .predictLinear seconds => .ok ((ops.regression points evaluationTime).map fun line =>
      .float64 (ops.add (ops.mul line.1 seconds) line.2))
  | .rate => .ok ((ops.rate points start stop true).map .float64)
  | .delta => .ok ((ops.rate points start stop false).map fun v => .float64 (ops.overWindow start stop v))
  | .increase => .ok ((ops.rate points start stop true).map fun v => .float64 (ops.overWindow start stop v))
  | .count _ => if points.length ≤ i64Max then .ok (some (.int64 (.ofNat points.length)))
      else .error (.invalid "count overflow")
  | .sum _ => .ok (some (.float64 (ops.promqlSum zero (points.map Prod.snd))))
  | .avg _ => .ok (some (.float64 (ops.promqlAvg (points.map Prod.snd))))
  | .min _ => .ok (some (.float64 (extreme lt points)))
  | .max _ => .ok (some (.float64 (extreme (fun v a => lt a v) points)))
  | .iRate => .ok ((ops.instant points true).map .float64)
  | .iDelta => .ok ((ops.instant points false).map .float64)
  | .changes => .ok (some (.float64 (ops.countPairs (fun a b => !a.eq b && !(a.isNan && b.isNan)) points)))
  | .resets => .ok (some (.float64 (ops.countPairs (fun a b => lt b a) points)))
  | .lastOverTime => .ok (points.getLast?.map fun p => .float64 p.2)
  | .quantile none q _ => do pure (some (.float64 (← ops.quantile q (points.map Prod.snd))))
  | _ => .error (.invalid "unsupported temporal intent")

/-! ### Evaluation at an instant -/

/-- A result of `i64` arithmetic, where it fits. -/
def checked (value : Int) : Option Int64 := if FitsI64 value then some (.ofInt value) else none

def checkedOr (message : String) (value : Int) : Except Error Int64 :=
  match checked value with
  | some v => .ok v
  | none => .error (.invalid message)

/-- `i64::div_euclid`. -/
def divEuclid (a b : Int64) : Int64 := .ofInt (a.toInt / b.toInt)

/-- A subquery grid: every multiple of `stepMs` in `(T - offsetMs - rangeMs, T - offsetMs]`. -/
structure SubquerySteps where
  rangeMs : Int64
  stepMs : Int64
  offsetMs : Int64
  atMs : Option Int64

inductive AtModifier
  | start | stop
  | timestamp (ms : Int64)

/-- The Prometheus stale marker, which is not a sample. -/
def staleMarker : F64 := ⟨false, 0x7ff0000000000002⟩

def maxSubquerySteps : Int64 := 100000

structure SeriesWindow where
  function : Option AggIntent
  coordinate : Nat
  value : Nat
  rangeMs : Int64
  offsetMs : Int64
  atMs : Option Int64
  steps : Option SubquerySteps
  rangeAt : Option AtModifier
  stepsRangeAt : Option AtModifier
  output : Schema

/-! ### Construction -/

/-- The PromQL range functions a series window evaluates. -/
def supported : AggIntent → Bool
  | .rate | .deriv | .predictLinear _ | .increase | .delta | .count _ => true
  | .sum none | .avg none | .min none | .max none => true
  | .iRate | .iDelta | .changes | .resets | .lastOverTime | .quantile none _ _ => true
  | _ => false

def plain (schema : Schema) (column : Nat) : Except Error (DataType × Bool) :=
  match schema.fields[column]? with
  | none => .error (.invalid "column out of range")
  | some field =>
    match field.dtype with
    | .plain dtype => .ok (dtype, field.nullable)
    | _ => .error (.invalid "plain value required")

def SubquerySteps.positive (steps : SubquerySteps) : Bool := 0 < steps.rangeMs && 0 < steps.stepMs

def SeriesWindow.new (input : Schema) (function : Option AggIntent) (rangeMs offsetMs : Int64)
    (atMs : Option Int64) (steps : Option SubquerySteps) : Except Error SeriesWindow := do
  let some coordinate := input.timeIndex | .error (.invalid "series window requires a time column")
  let [value] := (List.range input.fields.length).filter fun column =>
      (input.fields[column]?).any fun field => field.name = "value"
    | .error (.invalid "series window requires one value column")
  let mistyped := Error.invalid "series window requires non-null time and Float64 value"
  let (.timestamp, false) ← plain input coordinate | .error mistyped
  let (.float64, false) ← plain input value | .error mistyped
  if rangeMs ≤ 0 ∨ steps.any (fun steps => !steps.positive) then
    .error (.invalid "series window ranges and steps must be positive")
  -- Bounds per-run work independently of the data.
  if steps.any fun steps => maxSubquerySteps < steps.rangeMs / steps.stepMs then
    .error (.invalid "subquery exceeds 100000 steps")
  if function.any fun intent => !supported intent then
    .error (.invalid "unsupported PromQL range function")
  pure ⟨function, coordinate, value, rangeMs, offsetMs, atMs, steps, none, none, input⟩

def AtModifier.isTimestamp : AtModifier → Bool
  | .timestamp _ => true
  | _ => false

def SeriesWindow.withSeriesRangeBounds (window : SeriesWindow) (anchor stepsAnchor : Option AtModifier) :
    Except Error SeriesWindow :=
  if anchor.any AtModifier.isTimestamp ∨ stepsAnchor.any AtModifier.isTimestamp ∨
      anchor.isSome ∧ window.atMs.isSome ∨
      stepsAnchor.isSome ∧ window.steps.all (fun steps => steps.atMs.isSome) then
    .error (.invalid "invalid range-bound anchor")
  else .ok { window with rangeAt := anchor, stepsRangeAt := stepsAnchor }

/-! ### Evaluation times -/

/-- A run's evaluation time, unless it is an ingestion run, and the outer range query's bounds. -/
structure RunContext where
  evaluationTimeMs : Option Int64
  queryRange : Option (Int64 × Int64)

def anchor (context : RunContext) (literal : Option Int64) : Option AtModifier → Except Error (Option Int64)
  | none => .ok literal
  | some bound =>
    match context.queryRange with
    | none => .error (.invalid "@ start() and @ end() require query range bounds")
    | some (start, stop) =>
      match bound with
      | .start => .ok (some start)
      | .stop => .ok (some stop)
      | .timestamp _ => .error (.invalid "invalid range-bound anchor")

def evaluationTime (context : RunContext) : Except Error Int64 :=
  match context.evaluationTimeMs with
  | some time => .ok time
  | none => .error (.invalid "series window requires a query evaluation time")

/-- The first and last evaluation instants for the query evaluated at a time, and the step between them. -/
def evaluationTimes (evaluationTimeMs : Int64) : Option SubquerySteps → Except Error (Int64 × Int64 × Int64)
  | none => .ok (evaluationTimeMs, evaluationTimeMs, 1)
  | some steps => do
    let overflow := "subquery grid overflows"
    let stop ← checkedOr overflow ((steps.atMs.getD evaluationTimeMs).toInt - steps.offsetMs.toInt)
    let start ← checkedOr overflow (stop.toInt - steps.rangeMs.toInt)
    let first ← checkedOr overflow ((divEuclid start steps.stepMs + 1).toInt * steps.stepMs.toInt)
    pure (first, stop, steps.stepMs)

/-- When an operator evaluates: its grid, its `@`, and the one instant at which a pinned window is evaluated. -/
structure Times where
  first : Int64
  last : Int64
  step : Int64
  atMs : Option Int64
  invariantTime : Option Int64

/-- The subquery grid with its `@`. -/
def SeriesWindow.resolvedSteps (window : SeriesWindow) (context : RunContext) :
    Except Error (Option SubquerySteps) :=
  match window.steps with
  | none => .ok none
  | some steps => do
    let atMs ← anchor context steps.atMs window.stepsRangeAt
    pure (some { steps with atMs })

/-- A window pinned by `@` is evaluated once, at the first instant of the query or of its subquery grid. -/
def pinnedInstant (first : Int64) (steps : Option SubquerySteps) (atMs : Option Int64)
    (queryRange : Option (Int64 × Int64)) : Except Error (Option Int64) :=
  match atMs, queryRange with
  | none, _ => .ok none
  | some _, none => .ok (some first)
  | some _, some (start, _) => (evaluationTimes start steps).map fun grid => some grid.1

def SeriesWindow.times (window : SeriesWindow) (context : RunContext) : Except Error Times := do
  let steps ← window.resolvedSteps context
  let atMs ← anchor context window.atMs window.rangeAt
  let (first, last, step) ← evaluationTimes (← evaluationTime context) steps
  let invariantTime ← pinnedInstant first steps atMs context.queryRange
  pure ⟨first, last, step, atMs, invariantTime⟩

/-! ### Samples -/

/-- Each series' first row, which has its labels, and its samples. -/
structure Points where
  template : List Nat
  samples : List (List Sample)

def Points.empty (series : Nat) : Points := ⟨List.replicate series 0, List.replicate series []⟩

/-- The row number is kept in 32 bits. -/
def Points.push (points : Points) (item : (Nat × Sample) × Nat) : Points :=
  let ((series, sample), row) := item
  let samples := points.samples.getD series []
  { template := if samples.isEmpty then points.template.set series (row % 2 ^ 32) else points.template
    samples := points.samples.set series (samples ++ [sample]) }

def pointsOf (series : Nat) (rows : List (Nat × Sample)) : Points :=
  rows.zipIdx.foldl Points.push (.empty series)

/-- `sort_by_key` and the check of two samples of one series at one time. -/
def sortSamples (samples : List Sample) : Except Error (List Sample) :=
  let sorted := samples.mergeSort fun a b => a.1 ≤ b.1
  if (sorted.zip sorted.tail).any fun (a, b) => a.1 = b.1 then
    .error (.invalid "duplicate sample timestamp for one series")
  else .ok sorted

/-! ### Evaluation -/

/-- `partition_point` of a partitioned slice. -/
def partitionPoint (samples : List Sample) (before : Sample → Bool) : Nat := (samples.takeWhile before).length

/-- The samples after `start`, up to `stop`. -/
def inWindow (samples : List Sample) (start stop : Int64) : List Sample :=
  let first := partitionPoint samples fun p => p.1 ≤ start
  let last := partitionPoint samples fun p => p.1 ≤ stop
  (samples.take last).drop first

/-- The value of one window; an instant selection gives the latest sample unless it is a stale marker. -/
def seriesValue (ops : Arithmetic) (function : Option AggIntent) (samples : List Sample)
    (start stop evaluationTime : Int64) : Except Error (Option F64) :=
  match function with
  | none => .ok ((samples.getLast?.filter fun p => p.2 ≠ staleMarker).map (·.2))
  | some intent =>
    let fresh := samples.filter fun p => p.2 ≠ staleMarker
    if fresh = [] then .ok none
    else do
      match ← windowValue ops intent fresh start stop evaluationTime with
      | some (.float64 v) => pure (some v)
      | some (.int64 v) => pure (some (ops.ofInt v.toInt))
      | some _ => .error (.invalid "invalid range function result")
      | none => pure none

/-- An output row: the input row of its labels, its time and its value. -/
structure OutRow where
  row : Nat
  time : Int64
  value : F64

section
variable (ops : Arithmetic) (window : SeriesWindow) (times : Times) (points : Points)

def evaluateSeries (time start stop : Int64) (series : Nat) : Except Error (List OutRow) := do
  let samples := inWindow (points.samples.getD series []) start stop
  match ← seriesValue ops window.function samples start stop (times.invariantTime.getD time) with
  | some value => pure [⟨points.template.getD series 0, time, value⟩]
  | none => pure []

/-- Every series at one instant. -/
def evaluateAt (order : List Nat) (time : Int64) : Except Error (List OutRow) := do
  let overflow := "series window overflows"
  let stop ← checkedOr overflow ((times.atMs.getD time).toInt - window.offsetMs.toInt)
  let start ← checkedOr overflow (stop.toInt - window.rangeMs.toInt)
  (order.mapM (evaluateSeries ops window times points time start stop)).map List.flatten

/-- The evaluation loop; `none` where it is still running after these rounds. -/
def evaluateFrom (order : List Nat) : Nat → Int64 → Option (Except Error (List OutRow))
  | 0, _ => none
  | rounds + 1, time =>
    if time ≤ times.last ∧ order ≠ [] then
      match evaluateAt ops window times points order time with
      | .error e => some (.error e)
      | .ok rows =>
        match checked (time.toInt + times.step.toInt) with
        | none => some (.ok rows)
        | some next => (evaluateFrom order rounds next).map fun later => later.map (rows ++ ·)
    else some (.ok [])

end

/-- A series is every column but the time and the value. -/
def SeriesWindow.identity (window : SeriesWindow) : List Nat :=
  (List.range window.output.fields.length).filter fun i => i ≠ window.coordinate ∧ i ≠ window.value

def SeriesWindow.samples (window : SeriesWindow) (batch : Batch) : Except Error (List Sample) :=
  match batch.columns[window.coordinate]?, batch.columns[window.value]? with
  | some (.timestamp times), some (.float64 values) =>
    .ok ((times.map (·.getD 0)).zip (values.map (·.getD ⟨false, 0⟩)))
  | _, _ => .error .panic

def SeriesWindow.series (window : SeriesWindow) (batch : Batch) : Except Error (Points × List Nat) := do
  let samples ← window.samples batch
  let (seriesOfRow, table) ← chunkedGroupIds batch (.new window.identity)
  let points := pointsOf table.partsOfGroup.length (seriesOfRow.zip samples)
  let sorted ← points.samples.mapM sortSamples
  pure ({ points with samples := sorted }, table.groupsInKeyOrder)

structure ResultRow where
  labels : List Value
  time : Int64
  value : F64

def SeriesWindow.takeRows (window : SeriesWindow) (batch : Batch) (rows : List OutRow) :
    Except Error (List ResultRow) :=
  rows.mapM fun row =>
    if row.row < batch.numRows then .ok ⟨batch.row window.identity row.row, row.time, row.value⟩
    else .error .panic

/-- The operator over one batch; `none` where the loop is still running after these rounds. -/
def SeriesWindow.execute (ops : Arithmetic) (window : SeriesWindow) (context : RunContext) (batch : Batch)
    (rounds : Nat) : Option (Except Error (List ResultRow)) :=
  match window.times context with
  | .error e => some (.error e)
  | .ok times =>
    match window.series batch with
    | .error e => some (.error e)
    | .ok (points, order) =>
      (evaluateFrom ops window times points order rounds times.first).map (· >>= window.takeRows batch)

end AsapPlanner.Series
