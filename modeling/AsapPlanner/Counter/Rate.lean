import AsapPlanner.Counter.Increase
import Mathlib.Tactic.FieldSimp
import Mathlib.Tactic.Positivity

/-!
Counter rates extrapolated to an evaluation range: from a summary's accumulator and from the raw
samples of the range, over exact arithmetic.
-/

namespace AsapPlanner.Counter
open Rust

/-! ### The summary path -/

/-- PromQL-style increase or rate, extrapolated to `range` when given. -/
def IncreaseAccumulator.extrapolatedValue (acc : IncreaseAccumulator) (range : Option (Int × Int))
    (isRate : Bool) : Except String ℚ :=
  if acc.sampleCount < 2 ∨ acc.lastSeenTimestamp ≤ acc.startingTimestamp then
    .error "at least two ordered counter samples are required"
  else
    let sampledInterval : ℚ := (acc.lastSeenTimestamp - acc.startingTimestamp : Int) / 1000
    match range with
    | none => .ok (if isRate then acc.totalIncrease / sampledInterval else acc.totalIncrease)
    | some (rangeStart, rangeEnd) =>
      if rangeEnd ≤ rangeStart then .error "invalid counter evaluation range"
      else
        let durationToStart : ℚ := saturatingSub acc.startingTimestamp rangeStart / 1000
        let durationToEnd : ℚ := saturatingSub rangeEnd acc.lastSeenTimestamp / 1000
        let averageSampleInterval : ℚ := sampledInterval / (acc.sampleCount - 1 : Nat)
        let extrapolationThreshold := averageSampleInterval * (11 / 10)
        let durationToStart :=
          if 0 < acc.totalIncrease ∧ 0 ≤ acc.startingValue then
            min durationToStart (sampledInterval * (acc.startingValue / acc.totalIncrease))
          else durationToStart
        let extrapolateTo := sampledInterval
          + (if durationToStart < extrapolationThreshold then max durationToStart 0
            else averageSampleInterval / 2)
          + (if durationToEnd < extrapolationThreshold then max durationToEnd 0
            else averageSampleInterval / 2)
        let factor := extrapolateTo / sampledInterval
        let factor :=
          if isRate then factor / ((rangeEnd - rangeStart : Int) / 1000) else factor
        .ok (acc.totalIncrease * factor)

/-- A population's value for `statistic`. -/
def CounterState.evaluation (state : CounterState) (statistic : CounterFamily)
    (range : Option (Int × Int)) : Except String ℚ :=
  match state with
  | some counter => counter.extrapolatedValue range (statistic = .rate)
  | none => .error "empty counter population"

/-! ### The raw path -/

def correctResets (counter : Bool) : ℚ → List Sample → ℚ
  | delta, before :: after :: rest =>
    correctResets counter
      (if counter ∧ after.value < before.value then delta + before.value else delta)
      (after :: rest)
  | delta, _ => delta

/-- `extrapolatedRate`; `counter` enables reset correction and the zero bound. -/
def rate (points : List Sample) (start stop : Int) (counter : Bool) : Option ℚ :=
  match points with
  | first :: second :: rest =>
    let last := lastOf first (second :: rest)
    let span : ℚ := ((last.time : ℚ) - first.time) / 1000
    if span ≤ 0 then none
    else
      let delta := correctResets counter (last.value - first.value) points
      let average := span / (points.length - 1 : Nat)
      let toStart : ℚ := ((first.time : ℚ) - start) / 1000
      let toEnd : ℚ := ((stop : ℚ) - last.time) / 1000
      let toStart := if toStart ≥ average * (11 / 10) then average / 2 else toStart
      -- The zero bound comes after the half-interval cap.
      let toStart :=
        if counter ∧ 0 < delta ∧ 0 ≤ first.value then min toStart (span * first.value / delta)
        else toStart
      let toEnd := if toEnd ≥ average * (11 / 10) then average / 2 else toEnd
      some (delta * (span + toStart + toEnd) / span / (((stop : ℚ) - start) / 1000))
  | _ => none

/-- The counter arms: one series' value over its sorted samples in the window `(start, stop]`. -/
def windowValue (intent : CounterFamily) (points : List Sample) (start stop : Int) : Option ℚ :=
  match intent with
  | .rate => rate points start stop true
  | .increase => (rate points start stop true).map fun v => v * ((stop : ℚ) - start) / 1000

/-! ### Windows -/

/-- An evaluation range: its end less an `i64` lookback. -/
structure Window where
  start : Int
  stop : Int
  fits : stop - start ≤ i64Max

/-- The samples lie in `(start, stop]`. -/
def Window.Holds (window : Window) (series : List Sample) : Prop :=
  ∀ sample ∈ series, window.start < sample.time ∧ sample.time ≤ window.stop

instance (window : Window) (series : List Sample) : Decidable (window.Holds series) :=
  inferInstanceAs (Decidable (∀ _ ∈ series, _ ∧ _))

theorem InOrder.length_le_span {first : Sample} {rest : List Sample}
    (ordered : InOrder (first :: rest)) :
    (rest.length : Int) ≤ (lastOf first rest).time - first.time := by
  induction rest generalizing first with
  | nil => simp
  | cons second rest ih =>
    obtain ⟨before, later⟩ := List.pairwise_cons.mp ordered
    have rest := ih later
    have next := before second List.mem_cons_self
    rw [List.length_cons, lastOf_cons]
    push_cast
    omega

theorem correctResets_eq (first : Sample) (rest : List Sample) (delta : ℚ) :
    correctResets true delta (first :: rest) =
      delta + increaseOf (first :: rest) - ((lastOf first rest).value - first.value) := by
  induction rest generalizing first delta with
  | nil => simp [correctResets, increaseOf]
  | cons second rest ih =>
    rw [correctResets, ih, increaseOf, lastOf_cons]
    unfold gain
    by_cases reset : second.value < first.value
    · have down : ¬ first.value ≤ second.value := not_le.mpr reset
      rw [if_pos ⟨rfl, reset⟩, if_neg down]
      ring
    · have up : first.value ≤ second.value := not_lt.mp reset
      rw [if_neg (fun both => reset both.2), if_pos up]
      ring

/-! ### Extrapolation -/

/-- The seconds between a series' ends. -/
def spanOf (first : Sample) (rest : List Sample) : ℚ :=
  ((lastOf first rest).time - first.time : Int) / 1000

def averageOf (first : Sample) (rest : List Sample) : ℚ := spanOf first rest / rest.length

/-- The seconds before the first sample at which the counter would have been zero. -/
def zeroOf (first : Sample) (rest : List Sample) : ℚ :=
  spanOf first rest * (first.value / increaseOf (first :: rest))

/-- The value of an increase over `span`, extrapolated on both sides. -/
def extrapolated (statistic : CounterFamily) (increase span toStart toEnd range : ℚ) : ℚ :=
  match statistic with
  | .rate => increase * ((span + toStart + toEnd) / span / range)
  | .increase => increase * ((span + toStart + toEnd) / span)

/-- Half an average interval where the gap to the range's end is too long. -/
def cap (average gap : ℚ) : ℚ := if gap < average * (11 / 10) then max gap 0 else average / 2

def bound (gap : ℚ) : Option ℚ → ℚ
  | some zero => min gap zero
  | none => gap

theorem cap_near {average gap : ℚ} (after : 0 ≤ gap) (near : gap < average * (11 / 10)) :
    cap average gap = gap := (if_pos near).trans (max_eq_left after)

theorem cap_far {average gap : ℚ} (far : average * (11 / 10) ≤ gap) :
    cap average gap = average / 2 := if_neg (not_lt.mpr far)

theorem cap_bound_iff {average gap zero : ℚ} (positive : 0 < average) (after : 0 ≤ gap)
    (start : 0 ≤ zero) : cap average (min gap zero) = min (cap average gap) zero ↔
      ¬ (average * (11 / 10) ≤ gap ∧ average / 2 < zero ∧ zero < average * (11 / 10)) := by
  by_cases near : gap < average * (11 / 10)
  · have below : min gap zero < average * (11 / 10) := lt_of_le_of_lt (min_le_left _ _) near
    rw [cap_near (le_min after start) below, cap_near after near]
    refine ⟨fun _ inside => ?_, fun _ => rfl⟩
    exact absurd inside.1 (not_le.mpr near)
  · have far := not_lt.mp near
    rw [cap_far far]
    by_cases close : zero < average * (11 / 10)
    · have least : min gap zero = zero := min_eq_right (by linarith)
      rw [least, cap_near start close]
      constructor
      · rintro same ⟨_, past, _⟩
        rw [min_eq_left (le_of_lt past)] at same
        linarith
      · intro inside
        have short : zero ≤ average / 2 := by
          by_contra past
          exact inside ⟨far, not_le.mp past, close⟩
        rw [min_eq_right short]
    · have distant := not_lt.mp close
      have past : average / 2 ≤ zero := by linarith
      rw [cap_far (le_min far distant), min_eq_left past]
      exact ⟨fun _ inside => close inside.2.2, fun _ => rfl⟩

section Paths
variable {first second : Sample} {rest : List Sample} {window : Window}

def zeroBound (first : Sample) (rest : List Sample) : Option ℚ :=
  if 0 < increaseOf (first :: rest) ∧ 0 ≤ first.value then some (zeroOf first rest) else none

def fromStart (window : Window) (first : Sample) : ℚ := (first.time - window.start : Int) / 1000

def fromLast (window : Window) (first : Sample) (rest : List Sample) : ℚ :=
  (window.stop - (lastOf first rest).time : Int) / 1000

theorem extrapolatedValue_eq {acc : IncreaseAccumulator} {start stop : Int}
    (several : 2 ≤ acc.sampleCount) (later : acc.startingTimestamp < acc.lastSeenTimestamp)
    (wide : start < stop) (statistic : CounterFamily) :
    acc.extrapolatedValue (some (start, stop)) (statistic = .rate) =
      .ok (extrapolated statistic acc.totalIncrease
        ((acc.lastSeenTimestamp - acc.startingTimestamp : Int) / 1000)
        (cap ((acc.lastSeenTimestamp - acc.startingTimestamp : Int) / 1000 /
            (acc.sampleCount - 1 : Nat))
          (bound (saturatingSub acc.startingTimestamp start / 1000)
            (if 0 < acc.totalIncrease ∧ 0 ≤ acc.startingValue then
              some ((acc.lastSeenTimestamp - acc.startingTimestamp : Int) / 1000 *
                (acc.startingValue / acc.totalIncrease))
            else none)))
        (cap ((acc.lastSeenTimestamp - acc.startingTimestamp : Int) / 1000 /
            (acc.sampleCount - 1 : Nat))
          (saturatingSub stop acc.lastSeenTimestamp / 1000))
        ((stop - start : Int) / 1000)) := by
  have ordered : ¬ (acc.sampleCount < 2 ∨ acc.lastSeenTimestamp ≤ acc.startingTimestamp) := by
    omega
  unfold IncreaseAccumulator.extrapolatedValue
  rw [if_neg ordered]
  dsimp only
  rw [if_neg (by omega)]
  unfold extrapolated cap
  by_cases zero : 0 < acc.totalIncrease ∧ 0 ≤ acc.startingValue
  · simp only [if_pos zero, bound]
    cases statistic <;> rfl
  · simp only [if_neg zero, bound]
    cases statistic <;> rfl

theorem gaps (ordered : InOrder (first :: second :: rest))
    (inside : window.Holds (first :: second :: rest)) :
    0 < spanOf first (second :: rest) ∧ (0 : ℚ) < (window.stop - window.start : Int) / 1000 ∧
      0 ≤ fromStart window first ∧ 0 ≤ fromLast window first (second :: rest) := by
  have span := ordered.length_le_span
  have starts := inside first List.mem_cons_self
  have ends := inside _ (lastOf_mem first (second :: rest))
  rw [List.length_cons] at span
  have later : 0 < (lastOf first (second :: rest)).time - first.time := by omega
  have wide : 0 < window.stop - window.start := by omega
  have after : 0 < first.time - window.start := by omega
  have before : 0 ≤ window.stop - (lastOf first (second :: rest)).time := by omega
  unfold spanOf fromStart fromLast
  refine ⟨?_, ?_, ?_, ?_⟩ <;> positivity

theorem summary_value (statistic : CounterFamily) (ordered : InOrder (first :: second :: rest))
    (inside : window.Holds (first :: second :: rest)) :
    CounterState.evaluation ((first :: second :: rest).foldl CounterState.update none) statistic
        (some (window.start, window.stop)) =
      .ok (extrapolated statistic (increaseOf (first :: second :: rest))
        (spanOf first (second :: rest))
        (cap (averageOf first (second :: rest))
          (bound (fromStart window first) (zeroBound first (second :: rest))))
        (cap (averageOf first (second :: rest)) (fromLast window first (second :: rest)))
        ((window.stop - window.start : Int) / 1000)) := by
  have fits := window.fits
  have span := ordered.length_le_span
  have starts := inside first List.mem_cons_self
  have ends := inside _ (lastOf_mem first (second :: rest))
  have count : min ((second :: rest).length + 1) u64Max = (second :: rest).length + 1 := by
    have small : i64Max < u64Max := by decide
    omega
  have several : 2 ≤ min ((second :: rest).length + 1) u64Max := by
    rw [count, List.length_cons]
    omega
  have later : first.time < (lastOf first (second :: rest)).time := by
    rw [List.length_cons] at span
    omega
  have toStart := @saturatingSub_eq first.time window.start (by omega) (by omega)
  have toEnd := @saturatingSub_eq window.stop (lastOf first (second :: rest)).time (by omega)
    (by omega)
  rw [CounterState.foldl_update ordered]
  refine (@extrapolatedValue_eq (.ofSeries first (second :: rest)) window.start window.stop
    several later (by omega) statistic).trans ?_
  simp only [IncreaseAccumulator.ofSeries, toStart, toEnd, count, Nat.add_sub_cancel]
  rfl

theorem capped_eq {average gap : ℚ} (after : 0 ≤ gap) :
    (if gap ≥ average * (11 / 10) then average / 2 else gap) = cap average gap := by
  by_cases near : gap < average * (11 / 10)
  · rw [cap_near after near, if_neg (not_le.mpr near)]
  · rw [cap_far (not_lt.mp near), if_pos (not_lt.mp near)]

theorem rate_eq (later : 0 < spanOf first (second :: rest)) (after : 0 ≤ fromStart window first)
    (before : 0 ≤ fromLast window first (second :: rest)) :
    rate (first :: second :: rest) window.start window.stop true =
      some (increaseOf (first :: second :: rest) * (spanOf first (second :: rest)
        + bound (cap (averageOf first (second :: rest)) (fromStart window first))
            (zeroBound first (second :: rest))
        + cap (averageOf first (second :: rest)) (fromLast window first (second :: rest)))
        / spanOf first (second :: rest) / ((window.stop - window.start : Int) / 1000)) := by
  have delta : correctResets true ((lastOf first (second :: rest)).value - first.value)
      (first :: second :: rest) = increaseOf (first :: second :: rest) := by
    rw [correctResets_eq]
    ring
  have span : ((lastOf first (second :: rest)).time - first.time : ℚ) / 1000 =
      spanOf first (second :: rest) := by
    unfold spanOf
    push_cast
    rfl
  have toStart : ((first.time : ℚ) - window.start) / 1000 = fromStart window first := by
    unfold fromStart
    push_cast
    rfl
  have toEnd : ((window.stop : ℚ) - (lastOf first (second :: rest)).time) / 1000 =
      fromLast window first (second :: rest) := by
    unfold fromLast
    push_cast
    rfl
  have average : spanOf first (second :: rest) / ((first :: second :: rest).length - 1 : Nat) =
      averageOf first (second :: rest) := rfl
  unfold rate
  dsimp only
  rw [delta, span, toStart, toEnd, average, if_neg (not_le.mpr later), capped_eq after,
    capped_eq before]
  congr 2
  · congr 2
    unfold zeroBound
    by_cases bounded : 0 < increaseOf (first :: second :: rest) ∧ 0 ≤ first.value
    · rw [if_pos ⟨rfl, bounded⟩, if_pos bounded, bound, zeroOf, mul_div_assoc]
    · rw [if_neg (fun both => bounded both.2), if_neg bounded, bound]
  · push_cast
    rfl

theorem raw_value (statistic : CounterFamily) (ordered : InOrder (first :: second :: rest))
    (inside : window.Holds (first :: second :: rest)) :
    windowValue statistic (first :: second :: rest) window.start window.stop =
      some (extrapolated statistic (increaseOf (first :: second :: rest))
        (spanOf first (second :: rest))
        (bound (cap (averageOf first (second :: rest)) (fromStart window first))
          (zeroBound first (second :: rest)))
        (cap (averageOf first (second :: rest)) (fromLast window first (second :: rest)))
        ((window.stop - window.start : Int) / 1000)) := by
  obtain ⟨positive, wide, after, before⟩ := gaps ordered inside
  have value := rate_eq positive after before
  cases statistic with
  | rate =>
    rw [windowValue, value, extrapolated]
    congr 1
    ring
  | increase =>
    have whole : ((window.stop : ℚ) - window.start) = (window.stop - window.start : Int) := by
      push_cast
      rfl
    rw [windowValue, value, Option.map_some, extrapolated, whole]
    have apart : ((window.stop - window.start : Int) : ℚ) ≠ 0 := by
      intro none
      rw [none] at wide
      norm_num at wide
    congr 1
    field_simp

theorem extrapolated_start {statistic : CounterFamily} {increase span a b toEnd range : ℚ}
    (moved : increase ≠ 0) (later : span ≠ 0) (wide : range ≠ 0)
    (same : extrapolated statistic increase span a toEnd range =
      extrapolated statistic increase span b toEnd range) : a = b := by
  cases statistic with
  | rate =>
    rw [extrapolated, extrapolated, mul_right_inj' moved, div_left_inj' wide,
      div_left_inj' later] at same
    linarith
  | increase =>
    rw [extrapolated, extrapolated, mul_right_inj' moved, div_left_inj' later] at same
    linarith

end Paths

/-- The zero bound is past half an average interval and within 1.1 of it, and the window starts
further back. -/
def BoundPastCap (window : Window) : List Sample → Prop
  | first :: rest => 0 < increaseOf (first :: rest) ∧ 0 ≤ first.value ∧
      averageOf first rest * (11 / 10) ≤ fromStart window first ∧
      averageOf first rest / 2 < zeroOf first rest ∧
      zeroOf first rest < averageOf first rest * (11 / 10)
  | [] => False

instance (window : Window) : (series : List Sample) → Decidable (BoundPastCap window series)
  | _ :: _ => inferInstanceAs (Decidable (_ ∧ _))
  | [] => isFalse id

/-- The summary's value is the raw one exactly when the order of the cap and the bound is moot. -/
theorem summary_is_raw_iff (statistic : CounterFamily) (window : Window) (series : List Sample)
    (ordered : InOrder series) (several : 2 ≤ series.length) (inside : window.Holds series) :
    (∃ value, CounterState.evaluation (series.foldl CounterState.update none) statistic
        (some (window.start, window.stop)) = .ok value ∧
      windowValue statistic series window.start window.stop = some value) ↔
      ¬ BoundPastCap window series := by
  obtain ⟨first, second, rest, same⟩ : ∃ first second rest, series = first :: second :: rest := by
    cases series with
    | nil => simp at several
    | cons first rest =>
      cases rest with
      | nil => simp at several
      | cons second rest => exact ⟨first, second, rest, rfl⟩
  subst same
  obtain ⟨later, wide, after, before⟩ := gaps ordered inside
  rw [summary_value statistic ordered inside, raw_value statistic ordered inside]
  have average : 0 < averageOf first (second :: rest) := by
    unfold averageOf
    have count : (0 : ℚ) < (second :: rest).length := by
      rw [List.length_cons]
      positivity
    positivity
  unfold BoundPastCap
  by_cases bounded : 0 < increaseOf (first :: second :: rest) ∧ 0 ≤ first.value
  · have zero : zeroBound first (second :: rest) = some (zeroOf first (second :: rest)) :=
      if_pos bounded
    have start : 0 ≤ zeroOf first (second :: rest) := by
      obtain ⟨moved, nonneg⟩ := bounded
      unfold zeroOf
      positivity
    have commute := cap_bound_iff average after start
    rw [zero]
    change (∃ value, Except.ok (extrapolated statistic _ _ (cap _ (min _ _)) _ _) = .ok value ∧
      some (extrapolated statistic _ _ (min (cap _ _) _) _ _) = some value) ↔ _
    constructor
    · rintro ⟨value, summary, raw⟩ past
      have equal := (Except.ok.inj summary).trans (Option.some.inj raw).symm
      have starts := extrapolated_start (ne_of_gt bounded.1) (ne_of_gt later) (ne_of_gt wide) equal
      exact commute.mp starts past.2.2
    · intro clear
      have starts := commute.mpr fun past => clear ⟨bounded.1, bounded.2, past⟩
      rw [starts]
      exact ⟨_, rfl, rfl⟩
  · have zero : zeroBound first (second :: rest) = none := if_neg bounded
    rw [zero]
    constructor
    · intro _ past
      exact bounded ⟨past.1, past.2.1⟩
    · intro _
      exact ⟨_, rfl, rfl⟩

/-- Two samples ten seconds apart in a long window, of a counter zero eight seconds before them: the
raw path extrapolates five seconds back and the summary eight. -/
theorem summary_exceeds_raw :
    CounterState.evaluation ([⟨100000, 8⟩, ⟨110000, 18⟩].foldl CounterState.update none) .increase
        (some (0, 110000)) = .ok 18 ∧
      windowValue .increase [⟨100000, 8⟩, ⟨110000, 18⟩] 0 110000 = some 15 ∧
      CounterState.evaluation ([⟨100000, 8⟩, ⟨110000, 18⟩].foldl CounterState.update none) .rate
        (some (0, 110000)) = .ok (18 / 110) ∧
      windowValue .rate [⟨100000, 8⟩, ⟨110000, 18⟩] 0 110000 = some (15 / 110) := by
  decide +kernel

/-- A counter that reset, in a window it fills. -/
theorem summary_is_raw_example :
    ∃ value, CounterState.evaluation
        ([⟨10000, 7⟩, ⟨20000, 2⟩, ⟨30000, 5⟩].foldl CounterState.update none) .rate
        (some (0, 30000)) = .ok value ∧
      windowValue .rate [⟨10000, 7⟩, ⟨20000, 2⟩, ⟨30000, 5⟩] 0 30000 = some value :=
  (summary_is_raw_iff .rate ⟨0, 30000, by decide⟩ _ (by decide +kernel) (by decide)
    (by decide +kernel)).mpr (by decide +kernel)

end AsapPlanner.Counter
