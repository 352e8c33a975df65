import AsapPlanner.Eligibility.Ingestion
import AsapPlanner.Selection.Levels
import AsapPlanner.Traversal.Run
import Mathlib.Data.Int.ModEq
import Mathlib.Data.Nat.ModEq
import Mathlib.Tactic.Ring

/-!
When the readers of a build that may run at ingestion time are evaluated on the grid of its width.
-/

namespace AsapPlanner.Eligibility
open Rust Traversal Ir Demand Timing

/-! ### Evaluations -/

/-- A request may end here: a multiple of the interval where no phase is declared, any time where only
a rate is known. -/
def RequestEnds (recurrence : QueryRecurrence) (time : Nat) : Prop :=
  match recurrence with
  | .repeated (.fixedInterval interval) => interval ∣ time
  | .repeated (.fixedIntervalAt interval evaluationPhase) => time ≡ evaluationPhase [MOD interval]
  | .repeated (.scheduled times) => time ∈ times
  | _ => True

/-- The query is evaluated here: at a request's end, or at a step of its range. -/
def QueryWorkloadEntry.EvaluatedAt (entry : QueryWorkloadEntry) (instant : Int) : Prop :=
  ∃ time, RequestEnds entry.recurrence time ∧
    match entry.rangeEvaluation with
    | none => instant = time
    | some range => ∃ k ≤ range.spanMs / range.stepMs, instant = time - range.spanMs + k * range.stepMs

/-- A range's span is a whole number of steps. -/
def QueryWorkloadEntry.WholeSteps (entry : QueryWorkloadEntry) : Prop :=
  ∀ range ∈ entry.rangeEvaluation, range.stepMs ∣ range.spanMs

def chainWidthMs (node : OperatorNode) : Option Nat :=
  match node.asap with
  | some (.summaryTumblingWindowChain _ _ _ _ _ _ width _) => some width
  | _ => none

def buildWidthMs (dag : Dag) (ref : NodeRef) : Option Nat :=
  (chainWidthMs (dag.node ref)).or (wholeWindowMs dag ref)

/-- Only a rate is known. -/
def OnlyRate (recurrence : QueryRecurrence) : Prop := ∃ rate, recurrence = .repeated (.estimatedRate rate)

section
variable {entry : QueryWorkloadEntry} {width : Nat} {dag : Dag} {ref : NodeRef}

theorem evaluatedAt_dvd (ends : ∀ time, RequestEnds entry.recurrence time → width ∣ time)
    (whole : entry.WholeSteps)
    (steps : ∀ range ∈ entry.rangeEvaluation, 1 < range.evaluationsPerRequest → width ∣ range.stepMs)
    {instant : Int} (evaluated : entry.EvaluatedAt instant) : (width : Int) ∣ instant := by
  obtain ⟨time, ended, place⟩ := evaluated
  have onGrid : (width : Int) ∣ time := Int.natCast_dvd_natCast.mpr (ends time ended)
  split at place
  · rwa [place]
  · rename_i range declared
    obtain ⟨k, bound, rfl⟩ := place
    obtain ⟨n, span⟩ := whole range declared
    have positive : max range.stepMs 1 = range.stepMs := max_eq_left range.positive
    have count : range.spanMs / range.stepMs = n := by
      rw [span, Nat.mul_div_cancel_left _ range.positive]
    rw [count] at bound
    cases n with
    | zero =>
      obtain rfl := Nat.le_zero.mp bound
      rw [span]
      simpa using onGrid
    | succ n =>
      have step : (width : Int) ∣ range.stepMs := by
        refine Int.natCast_dvd_natCast.mpr (steps range declared ?_)
        rw [RangeEvaluation.evaluationsPerRequest, positive, count]
        omega
      have spanned : (width : Int) ∣ range.spanMs := by
        rw [span, Nat.cast_mul]
        exact step.mul_right _
      exact (onGrid.sub spanned).add (step.mul_left _)

theorem evaluatedAt_end (whole : entry.WholeSteps) {time : Nat}
    (ends : RequestEnds entry.recurrence time) : entry.EvaluatedAt time := by
  refine ⟨time, ends, ?_⟩
  split
  · rfl
  · rename_i range declared
    refine ⟨_, le_refl _, ?_⟩
    have span := Nat.div_mul_cancel (whole range declared)
    have cast : ((range.spanMs / range.stepMs : Nat) : Int) * range.stepMs = range.spanMs := by
      exact_mod_cast span
    rw [cast]
    ring

/-! ### Chains -/

theorem checkChainReader_ends (checked : checkChainReader width entry = .ok ())
    (repeated : entry.isRepeated = true) (known : ¬ OnlyRate entry.recurrence) {time : Nat}
    (ends : RequestEnds entry.recurrence time) : width ∣ time := by
  unfold checkChainReader at checked
  unfold QueryWorkloadEntry.isRepeated at repeated
  split at checked
  · rename_i demand recurrence
    rw [recurrence] at ends known checked
    split at checked
    · cases checked
    rename_i divides
    split at checked
    · cases checked
    cases demand with
    | fixedInterval interval =>
      simp only [QueryRecurrence.fixedIntervalMs] at divides
      split at divides
      · exact Nat.dvd_trans (by simpa using divides) ends
      · rename_i zero
        obtain rfl := Nat.eq_zero_of_not_pos zero
        rw [Nat.eq_zero_of_zero_dvd ends]
        exact Nat.dvd_zero _
    | fixedIntervalAt interval phase =>
      simp only [planTumblingWindowPhase] at checked
      split at checked
      · cases checked
      rename_i onGrid
      have phased : width ∣ phase := Nat.dvd_of_mod_eq_zero (not_not.mp onGrid)
      simp only [QueryRecurrence.fixedIntervalMs] at divides
      split at divides
      · have interval' : width ∣ interval := by simpa using divides
        exact (Nat.ModEq.dvd_iff (Nat.ModEq.of_dvd interval' ends) (Nat.dvd_refl _)).mpr phased
      · rename_i zero
        obtain rfl := Nat.eq_zero_of_not_pos zero
        rw [Nat.modEq_zero_iff.mp ends]
        exact phased
    | scheduled times =>
      simp only [planTumblingWindowPhase] at checked
      split at checked
      · rename_i phase first
        split at checked
        · cases checked
        rename_i zero
        obtain ⟨-, all⟩ := Option.filter_eq_some_iff.mp first
        have here := List.all_eq_true.mp all time ends
        rw [beq_iff_eq, not_not.mp zero] at here
        exact Nat.dvd_of_mod_eq_zero here
      · cases checked
      · rename_i other
        exact absurd rfl (other times)
    | estimatedRate rate => exact absurd ⟨rate, rfl⟩ known
  · rename_i other
    split at repeated
    · rename_i demand recurrence
      exact absurd recurrence (other demand)
    · cases repeated

theorem checkChainReader_positive (checked : checkChainReader width entry = .ok ())
    (repeated : entry.isRepeated = true) : 0 < width := by
  unfold checkChainReader at checked
  unfold QueryWorkloadEntry.isRepeated at repeated
  split at checked
  · split at checked
    · cases checked
    split at checked
    · cases checked
    · exact Nat.pos_of_ne_zero ‹_›
  · rename_i other
    split at repeated
    · rename_i demand recurrence
      exact absurd recurrence (other demand)
    · cases repeated

/-! ### Whole windows -/

/-- The reader runs at the cadence's interval, and at its phase if it declares one. -/
def Cadence.Fits (cadence : Cadence) (recurrence : QueryRecurrence) : Prop :=
  ∃ interval, cadence.interval = some interval ∧
    (recurrence = .repeated (.fixedInterval interval) ∨ ∃ phase, cadence.phase = some (phase % interval) ∧
      recurrence = .repeated (.fixedIntervalAt interval phase))

theorem Cadence.read_ok {cadence next : Cadence} (read : cadence.read entry = .ok next) :
    next.Fits entry.recurrence ∧
      ∀ recurrence, cadence.Fits recurrence → next.Fits recurrence := by
  -- What is known already stays: another interval, or another phase, is an error.
  have stays : ∀ {interval : Nat} {recurrence : QueryRecurrence},
      cadence.interval.getD interval = interval → cadence.Fits recurrence →
        cadence.interval = some interval := by
    rintro interval recurrence same ⟨own, known, -⟩
    rw [known, Option.getD_some] at same
    rw [known, same]
  unfold Cadence.read at read
  split at read
  · rename_i interval recurrence
    simp only [pure_bind] at read
    split at read
    · cases read
    split at read
    · cases read
    rename_i same
    cases read
    refine ⟨⟨interval, rfl, .inl recurrence⟩, fun other fits => ?_⟩
    have known := stays (not_not.mp same) fits
    rw [← known]
    exact fits
  · rename_i interval phase recurrence
    simp only [pure_bind] at read
    split at read
    · cases read
    rename_i positive
    split at read
    · cases read
    rename_i same
    simp only at read
    split at read
    · cases read
    rename_i agreed
    cases read
    refine ⟨⟨interval, rfl, .inr ⟨phase, rfl, recurrence⟩⟩, fun other fits => ?_⟩
    have known := stays (not_not.mp same) fits
    obtain ⟨own, interval', fits⟩ := fits
    obtain rfl := Option.some.inj (interval'.symm.trans known)
    refine ⟨own, rfl, fits.imp_right ?_⟩
    rintro ⟨other, declared, recurrence⟩
    rw [declared, Option.getD_some, not_not] at agreed
    exact ⟨other, by rw [agreed], recurrence⟩
  · cases read

theorem foldlM_read_ok {entries : List QueryWorkloadEntry} {cadence last : Cadence}
    (read : entries.foldlM Cadence.read cadence = .ok last) :
    (∀ entry ∈ entries, last.Fits entry.recurrence) ∧
      ∀ recurrence, cadence.Fits recurrence → last.Fits recurrence := by
  induction entries generalizing cadence with
  | nil =>
    cases read
    exact ⟨fun _ member => (List.not_mem_nil member).elim, fun _ fits => fits⟩
  | cons entry rest ih =>
    rw [List.foldlM_cons] at read
    obtain ⟨next, first, later⟩ := bind_eq_ok read
    obtain ⟨here, kept⟩ := Cadence.read_ok first
    obtain ⟨others, kept'⟩ := ih later
    refine ⟨fun other member => ?_, fun recurrence fits => kept' recurrence (kept recurrence fits)⟩
    rcases List.mem_cons.mp member with rfl | member
    · exact kept' _ here
    · exact others other member

theorem checkWholeWindow_ok {demands : List QueryWorkloadEntry}
    (checked : checkWholeWindow dag ref demands = .ok ()) (wide : wholeWindowMs dag ref = some width)
    (member : entry ∈ demands) : entry.evaluatesRange = false ∧ ¬ OnlyRate entry.recurrence ∧
      ∀ time, RequestEnds entry.recurrence time → width ∣ time := by
  unfold checkWholeWindow at checked
  split at checked
  · cases checked
  rename_i single
  obtain ⟨cadence, read, checked⟩ := bind_eq_ok checked
  split at checked
  · rename_i interval window known found
    obtain rfl := Option.some.inj (found.symm.trans wide)
    split at checked
    · rename_i onGrid
      obtain ⟨own, known', fits⟩ := (foldlM_read_ok read).1 entry member
      obtain rfl := Option.some.inj (known.symm.trans known')
      refine ⟨?_, ?_, fun time ends => ?_⟩
      · by_contra ranged
        exact single (List.any_eq_true.mpr ⟨entry, member, Bool.eq_true_of_not_eq_false ranged⟩)
      · rintro ⟨rate, recurrence⟩
        rcases fits with fixed | ⟨phase, -, fixed⟩
        · cases recurrence.symm.trans fixed
        · cases recurrence.symm.trans fixed
      · rcases fits with fixed | ⟨phase, declared, fixed⟩
        · rw [fixed] at ends
          exact Nat.dvd_trans onGrid.1 ends
        · rw [fixed] at ends
          have phased : window ∣ phase :=
            (Nat.dvd_mod_iff onGrid.1).mp (onGrid.2 _ declared)
          exact (Nat.ModEq.dvd_iff (Nat.ModEq.of_dvd onGrid.1 ends) (Nat.dvd_refl _)).mpr phased
    · cases checked
  · cases checked

/-! ### Eligible builds -/

variable {readers : List Nat} {entries : List QueryWorkloadEntry} {data : DataWorkload}

theorem ingestionEligibility_ok (eligible : ingestionEligibility dag ref readers entries data = .ok ()) :
    (∀ query ∈ readers, ∀ entry ∈ entries[query]?, entry.isRepeated = true) ∧
    match chainWidthMs (dag.node ref) with
    | some width => ∀ query ∈ readers, ∀ entry ∈ entries[query]?, checkChainReader width entry = .ok ()
    | none =>
      checkWholeWindow dag ref ((readers.map fun query => entries[query]?).filterMap id) = .ok () := by
  have listed : ∀ query ∈ readers, ∀ entry ∈ entries[query]?,
      entry ∈ (readers.map fun query => entries[query]?).filterMap id := fun query member entry present =>
    List.mem_filterMap.mpr ⟨_, List.mem_map_of_mem member, present⟩
  unfold ingestionEligibility at eligible
  obtain ⟨-, -, eligible⟩ := bind_eq_ok eligible
  simp only at eligible
  split at eligible
  · cases eligible
  rename_i repeated
  split at eligible
  · cases eligible
  split at eligible
  · cases eligible
  refine ⟨fun query member entry present => ?_, ?_⟩
  · by_contra once
    refine repeated (List.any_eq_true.mpr ⟨_, List.mem_map_of_mem member, ?_⟩)
    rw [present]
    simpa using once
  obtain ⟨⟨family, width⟩, found, eligible⟩ := bind_eq_ok eligible
  simp only at eligible
  split at eligible
  · cases eligible
  unfold summaryFamily at found
  unfold chainWidthMs
  split at found
  · rename_i build
    cases found
    rw [build]
    exact eligible
  · rename_i build
    cases found
    rw [build]
    exact fun query member entry present => forM_ok eligible entry (listed query member entry present)
  · cases found

theorem checkSummaryRangeSteps_ok (chain : chainWidthMs (dag.node ref) = some width)
    (checked : checkSummaryRangeSteps dag ref readers entries = .ok ()) (positive : 0 < width) :
    ∀ query ∈ readers, ∀ entry ∈ entries[query]?, ∀ range ∈ entry.rangeEvaluation,
      1 < range.evaluationsPerRequest → width ∣ range.stepMs := by
  intro query member entry present range declared several
  unfold chainWidthMs at chain
  split at chain
  · rename_i build
    obtain rfl := Option.some.inj chain
    unfold checkSummaryRangeSteps at checked
    rw [build] at checked
    have here := forM_ok checked query member
    have found : (entries[query]?.bind (·.rangeEvaluation)).filter
        (fun range => decide (1 < range.evaluationsPerRequest)) = some range :=
      Option.filter_eq_some_iff.mpr ⟨by rw [present, Option.bind_some, declared], decide_eq_true several⟩
    rw [found] at here
    simp only at here
    split at here
    · cases here
    rename_i onStep
    rw [max_eq_left positive, not_not] at onStep
    exact Nat.dvd_of_mod_eq_zero onStep
  · cases chain

/-- Where a build may run at ingestion time, its readers are evaluated on the grid of its width exactly
when it is a whole window, its tumbling windows are a millisecond wide, or no reader has only a rate. -/
theorem readers_on_grid_iff {retained : Bool} {width : Nat}
    (eligible : (summaryReaderEligibility dag ref readers entries data retained).atIngestion = .ok ())
    (compatible :
      (summaryReaderEligibility dag ref readers entries data retained).rangeCompatibility = .ok ())
    (wide : buildWidthMs dag ref = some width)
    (whole : ∀ query ∈ readers, ∀ entry ∈ entries[query]?, entry.WholeSteps) :
    (∀ query ∈ readers, ∀ entry ∈ entries[query]?, ∀ instant, entry.EvaluatedAt instant →
      (width : Int) ∣ instant) ↔
    (chainWidthMs (dag.node ref) = some width → width ≠ 1 →
      ∀ query ∈ readers, ∀ entry ∈ entries[query]?, ¬ OnlyRate entry.recurrence) := by
  obtain ⟨repeated, checked⟩ := ingestionEligibility_ok eligible
  constructor
  · -- A query of which only the rate is known may be evaluated at time 1.
    rintro onGrid - wider query member entry present ⟨rate, recurrence⟩
    have ends : RequestEnds entry.recurrence 1 := by
      rw [recurrence]
      trivial
    have one := onGrid query member entry present _
      (evaluatedAt_end (whole query member entry present) ends)
    exact wider (Nat.dvd_one.mp (Int.natCast_dvd_natCast.mp one))
  · intro known query member entry present instant evaluated
    have whole := whole query member entry present
    cases chain : chainWidthMs (dag.node ref) with
    | some own =>
      rw [buildWidthMs, chain, Option.some_or] at wide
      obtain rfl := Option.some.inj wide
      rw [chain] at checked
      by_cases one : own = 1
      · rw [one]
        exact one_dvd instant
      · refine evaluatedAt_dvd (fun time => ?_) whole ?_ evaluated
        · exact checkChainReader_ends (checked query member entry present)
            (repeated query member entry present) (known chain one query member entry present)
        · exact checkSummaryRangeSteps_ok chain compatible
            (checkChainReader_positive (checked query member entry present)
              (repeated query member entry present)) query member entry present
    | none =>
      rw [buildWidthMs, chain, Option.none_or] at wide
      rw [chain] at checked
      obtain ⟨single, -, ends⟩ := checkWholeWindow_ok checked wide
        (List.mem_filterMap.mpr ⟨_, List.mem_map_of_mem member, present⟩)
      refine evaluatedAt_dvd ends whole (fun range declared several => ?_) evaluated
      rw [QueryWorkloadEntry.evaluatesRange, declared] at single
      exact absurd (decide_eq_true several) (Bool.not_eq_true _ ▸ single)

end

/-! A sum over five minutes of a metric, kept in tumbling windows of one minute. -/

def minuteWindows : Dag :=
  let family : FieldDataType := .exactAggregate .sum .sum
  let node (operator : Operator NodeRef) : OperatorNode := { (default : OperatorNode) with operator }
  Dag.ofNodes [
    node (.nonASAP (.scan (.timeSeries "m") [] (Schema.new []))),
    node (.nonASAP (.timeRange ⟨300000000000⟩ .range 0)),
    node (.asap (.summaryTumblingWindowChain 1 family ⟨none, .column .sampleValue, .unknownOrSigned⟩
      (.reduce .none) .perSubpopulationInstance none 60000 5))]

def ingestingData : DataWorkload := ⟨.ingesting ⟨false, 0x3ff0000000000000#63⟩⟩

theorem minute_pos : 0 < 60000 := by decide

/-- A panel over the last hour in steps of a minute, refreshed every minute. -/
def minutePanel : QueryWorkloadEntry where
  recurrence := .repeated (.fixedInterval 60000)
  rangeEvaluation := some ⟨60000, 3600000, minute_pos⟩
  predictability := .predictable none

/-- A query expected once in ten seconds. -/
def expectedQuery : QueryWorkloadEntry where
  recurrence := .repeated (.estimatedRate (1 / 10))
  rangeEvaluation := none
  predictability := .predictable none

theorem minutePanel_on_grid : minutePanel.EvaluatedAt 0 ∧
    ∀ instant, minutePanel.EvaluatedAt instant → (60000 : Int) ∣ instant := by
  have readers : ∀ query ∈ [0], ∀ entry ∈ [minutePanel][query]?, entry = minutePanel := by
    intro query member entry present
    rw [List.mem_singleton.mp member] at present
    exact (Option.some.inj present).symm
  have whole : ∀ query ∈ [0], ∀ entry ∈ [minutePanel][query]?, entry.WholeSteps := by
    intro query member entry present range declared
    rw [readers query member entry present] at declared
    rw [← Option.some.inj declared]
    decide
  have eligible : (summaryReaderEligibility minuteWindows 2 [0] [minutePanel] ingestingData
      true).atIngestion = .ok () := rfl
  refine ⟨⟨0, dvd_zero _, 60, by decide, by decide⟩, ?_⟩
  refine (readers_on_grid_iff eligible rfl rfl whole).mpr (fun _ _ query member entry present => ?_)
    0 (by simp) minutePanel rfl
  rw [readers query member entry present]
  rintro ⟨rate, recurrence⟩
  cases recurrence

/-- The expected query may read the tumbling windows a millisecond after the epoch. -/
theorem expectedQuery_off_grid :
    let eligibility := summaryReaderEligibility minuteWindows 2 [0] [expectedQuery] ingestingData true
    eligibility.atIngestion = .ok () ∧ eligibility.rangeCompatibility = .ok () ∧
      buildWidthMs minuteWindows 2 = some 60000 ∧ expectedQuery.EvaluatedAt 1 ∧ ¬ (60000 : Int) ∣ 1 :=
  ⟨rfl, rfl, rfl, ⟨1, trivial, rfl⟩, by decide⟩

end AsapPlanner.Eligibility
