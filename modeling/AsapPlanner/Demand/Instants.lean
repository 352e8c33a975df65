import AsapPlanner.Rust.BTreeMap
import AsapPlanner.Rust.Masks
import Mathlib.Algebra.BigOperators.Intervals
import Mathlib.Data.Finset.Lattice.Fold
import Mathlib.Data.Nat.GCD.Basic
import Mathlib.Data.Prod.Lex
import Mathlib.Data.List.Sort
import Mathlib.Data.Rat.Defs
import Mathlib.Algebra.Order.Ring.Rat
import Mathlib.Order.WithBot

/-!
The distinct instants one request evaluates at: the union of the offsets its steps reach back from the
request's end, counted in exact arithmetic. `schedule_groups` and `evaluation_rate`: which readers of a
node are evaluated together and how often the node is computed for them, in exact arithmetic.
-/

namespace AsapPlanner.Demand
open Rust

/-- The offsets `k · step_ms ≤ span_ms` back from a request's end. -/
def offsets (stepMs spanMs : Nat) : Finset Nat :=
  (Finset.range (spanMs / max stepMs 1 + 1)).image (· * stepMs)

theorem mem_offsets {stepMs spanMs offset : Nat} (positive : 0 < stepMs) :
    offset ∈ offsets stepMs spanMs ↔ stepMs ∣ offset ∧ offset ≤ spanMs := by
  have step : max stepMs 1 = stepMs := by omega
  simp only [offsets, step, Finset.mem_image, Finset.mem_range, Nat.lt_succ_iff]
  constructor
  · rintro ⟨k, small, rfl⟩
    exact ⟨Nat.dvd_mul_left .., (Nat.le_div_iff_mul_le positive).mp small⟩
  · rintro ⟨⟨k, rfl⟩, small⟩
    refine ⟨k, (Nat.le_div_iff_mul_le positive).mpr ?_, Nat.mul_comm ..⟩
    rwa [Nat.mul_comm]

theorem offsets_card {stepMs : Nat} (positive : 0 < stepMs) (spanMs : Nat) :
    (offsets stepMs spanMs).card = spanMs / stepMs + 1 := by
  have step : max stepMs 1 = stepMs := by omega
  rw [offsets, step, Finset.card_image_of_injective, Finset.card_range]
  exact fun a b same => Nat.eq_of_mul_eq_mul_right positive same

theorem offsets_max (stepMs a b : Nat) (positive : 0 < stepMs) :
    offsets stepMs (max a b) = offsets stepMs a ∪ offsets stepMs b := by
  ext offset
  simp only [Finset.mem_union, mem_offsets positive, le_max_iff]
  tauto

/-! ### Intersections -/

/-- The least common multiple of the steps, `none` from the first prefix where it passes `span`. -/
def commonStep (span : Nat) : Nat → List (Nat × Nat) → Option Nat
  | lcm, [] => some lcm
  | lcm, (step, _) :: rest =>
    let next := lcm / Nat.gcd lcm (max step 1) * max step 1
    if next ≤ span then commonStep span next rest else none

/-- `offset_intersection_count`: the offsets common to all geometries. -/
def offsetIntersectionCount (geometries : List (Nat × Nat)) : Nat :=
  match (geometries.map Prod.snd).min? with
  | none => 0
  | some span =>
    match commonStep span 1 geometries with
    -- A least common multiple past the shortest span leaves the offset zero.
    | none => 1
    | some lcm => span / lcm + 1

theorem commonStep_dvd {span lcm offset : Nat} {geometries : List (Nat × Nat)}
    (positive : ∀ geometry ∈ geometries, 0 < geometry.1) (small : offset ≤ span) (start : 0 < lcm) :
    (lcm ∣ offset ∧ ∀ geometry ∈ geometries, geometry.1 ∣ offset) ↔
      match commonStep span lcm geometries with
      | none => offset = 0
      | some step => step ∣ offset := by
  induction geometries generalizing lcm with
  | nil => simp [commonStep]
  | cons head rest ih =>
    obtain ⟨step, own⟩ := head
    have stepPositive := positive _ List.mem_cons_self
    have step1 : max step 1 = step := by simp only at stepPositive; omega
    have next : lcm / Nat.gcd lcm step * step = Nat.lcm lcm step := by
      rw [show Nat.lcm lcm step = lcm * step / Nat.gcd lcm step from rfl, Nat.div_mul_right_comm (Nat.gcd_dvd_left ..)]
    simp only [commonStep, step1, next]
    have both : (lcm ∣ offset ∧ ∀ geometry ∈ (step, own) :: rest, geometry.1 ∣ offset) ↔
        Nat.lcm lcm step ∣ offset ∧ ∀ geometry ∈ rest, geometry.1 ∣ offset := by
      rw [List.forall_mem_cons, Nat.lcm_dvd_iff, and_assoc]
    rw [both]
    by_cases fits : Nat.lcm lcm step ≤ span
    · rw [if_pos fits]
      exact ih (fun geometry member => positive geometry (List.mem_cons_of_mem _ member))
        (Nat.lcm_pos start stepPositive)
    · rw [if_neg fits]
      constructor
      · intro divides
        exact Nat.eq_zero_of_dvd_of_lt divides.1 (by omega)
      · intro zero
        simp [zero]

theorem commonStep_pos {span lcm step : Nat} {geometries : List (Nat × Nat)} (start : 0 < lcm)
    (found : commonStep span lcm geometries = some step) : 0 < step := by
  induction geometries generalizing lcm with
  | nil => simp only [commonStep, Option.some.injEq] at found; omega
  | cons head rest ih =>
    simp only [commonStep] at found
    split at found
    · refine ih ?_ found
      exact Nat.mul_pos (Nat.div_pos (Nat.gcd_le_left _ start) (Nat.gcd_pos_of_pos_left _ start))
        (by omega)
    · cases found

theorem mem_all_offsets {geometries : List (Nat × Nat)} {span offset : Nat}
    (positive : ∀ geometry ∈ geometries, 0 < geometry.1)
    (least : (geometries.map Prod.snd).min? = some span) :
    (∀ geometry ∈ geometries, offset ∈ offsets geometry.1 geometry.2) ↔
      offset ≤ span ∧ ∀ geometry ∈ geometries, geometry.1 ∣ offset := by
  obtain ⟨member, below⟩ := List.min?_eq_some_iff.mp least
  obtain ⟨shortest, inside, rfl⟩ := List.mem_map.mp member
  constructor
  · intro every
    refine ⟨((mem_offsets (positive _ inside)).mp (every _ inside)).2, fun geometry held => ?_⟩
    exact ((mem_offsets (positive _ held)).mp (every _ held)).1
  · rintro ⟨small, divides⟩ geometry held
    refine (mem_offsets (positive _ held)).mpr ⟨divides _ held, small.trans ?_⟩
    exact below _ (List.mem_map_of_mem held)

theorem offsetIntersectionCount_card {geometries : List (Nat × Nat)} {values : Finset Nat}
    (positive : ∀ geometry ∈ geometries, 0 < geometry.1) (nonempty : geometries ≠ [])
    (within : ∀ geometry ∈ geometries, offsets geometry.1 geometry.2 ⊆ values) :
    offsetIntersectionCount geometries = (values.filter fun offset =>
      ∀ geometry ∈ geometries, offset ∈ offsets geometry.1 geometry.2).card := by
  obtain ⟨first, firstMember⟩ := List.exists_mem_of_ne_nil geometries nonempty
  unfold offsetIntersectionCount
  cases least : (geometries.map Prod.snd).min? with
  | none => simp [nonempty] at least
  | some span =>
    have common : ∀ offset, (∀ geometry ∈ geometries, offset ∈ offsets geometry.1 geometry.2) ↔
        offset ≤ span ∧ (1 ∣ offset ∧ ∀ geometry ∈ geometries, geometry.1 ∣ offset) := by
      intro offset
      simp only [mem_all_offsets positive least, one_dvd, true_and]
    have inside : ∀ offset, (∀ geometry ∈ geometries, offset ∈ offsets geometry.1 geometry.2) →
        offset ∈ values := fun offset every => within _ firstMember (every _ firstMember)
    cases reached : commonStep span 1 geometries with
    | none =>
      have only : (values.filter fun offset =>
          ∀ geometry ∈ geometries, offset ∈ offsets geometry.1 geometry.2) = {0} := by
        ext offset
        rw [Finset.mem_filter, Finset.mem_singleton]
        constructor
        · rintro ⟨_, every⟩
          obtain ⟨small, divides⟩ := (common offset).mp every
          simpa [reached] using (commonStep_dvd positive small Nat.one_pos).mp divides
        · rintro rfl
          have every := (common 0).mpr ⟨Nat.zero_le _, by simp⟩
          exact ⟨inside 0 every, every⟩
      simp [reached, only]
    | some lcm =>
      have step := commonStep_pos Nat.one_pos reached
      have same : (values.filter fun offset =>
          ∀ geometry ∈ geometries, offset ∈ offsets geometry.1 geometry.2) = offsets lcm span := by
        ext offset
        rw [Finset.mem_filter, mem_offsets step]
        have divisible : offset ≤ span →
            ((1 ∣ offset ∧ ∀ geometry ∈ geometries, geometry.1 ∣ offset) ↔ lcm ∣ offset) := by
          intro small
          simpa [reached] using commonStep_dvd positive small Nat.one_pos
        constructor
        · rintro ⟨_, every⟩
          obtain ⟨small, divides⟩ := (common offset).mp every
          exact ⟨(divisible small).mp divides, small⟩
        · rintro ⟨divides, small⟩
          have every := (common offset).mpr ⟨small, (divisible small).mpr divides⟩
          exact ⟨inside offset every, every⟩
      simp [reached, same, offsets_card step]

/-! ### Unions -/

/-- Inclusion–exclusion over the nonempty sub-lists of the geometries. -/
def inclusionExclusion (geometries : List (Nat × Nat)) : Int :=
  (List.range' 1 (2 ^ geometries.length - 1)).foldl (fun total mask =>
    let intersection := selected mask geometries
    let count : Int := offsetIntersectionCount intersection
    -- The mask has as many ones as it selects geometries.
    if intersection.length % 2 = 1 then total + count else total - count) 0

/-- `distinct_instants_per_request`. -/
def distinctInstantsPerRequest (longestSpanMsByStepMs : BTreeMap Nat Nat) : Nat :=
  match longestSpanMsByStepMs.entries with
  | [(stepMs, spanMs)] => spanMs / max stepMs 1 + 1
  | geometries =>
    if geometries.length ≤ 12 then (inclusionExclusion geometries).toNat
    else (geometries.flatMap fun geometry =>
      (List.range (geometry.2 / max geometry.1 1 + 1)).map (· * geometry.1)).toFinset.card

/-- The offsets any of the steps reaches. -/
def instants (longestSpanMsByStepMs : BTreeMap Nat Nat) : Finset Nat :=
  longestSpanMsByStepMs.entries.toFinset.biUnion fun geometry => offsets geometry.1 geometry.2

/-- A mask's signed term, by which the loop changes its total. -/
def maskTerm (geometries : List (Nat × Nat)) (mask : Nat) : Int :=
  -((-1) ^ (selected mask geometries).length *
    (offsetIntersectionCount (selected mask geometries) : Int))

theorem inclusionExclusion_sum (geometries : List (Nat × Nat)) :
    inclusionExclusion geometries =
      ∑ mask ∈ Finset.Ico 1 (2 ^ geometries.length), maskTerm geometries mask := by
  have step : ∀ (total : Int) (mask : Nat),
      (if (selected mask geometries).length % 2 = 1
        then total + (offsetIntersectionCount (selected mask geometries) : Int)
        else total - (offsetIntersectionCount (selected mask geometries) : Int)) =
      total + maskTerm geometries mask := by
    intro total mask
    unfold maskTerm
    split_ifs with odd
    · rw [(Nat.odd_iff.mpr odd).neg_one_pow]
      ring
    · rw [(Nat.even_iff.mpr (by omega)).neg_one_pow]
      ring
  have loop : ∀ (masks : List Nat) (total : Int),
      masks.foldl (fun total mask => total + maskTerm geometries mask) total =
        total + (masks.map (maskTerm geometries)).sum := by
    intro masks
    induction masks with
    | nil => simp
    | cons mask rest ih =>
      intro total
      rw [List.foldl_cons, ih, List.map_cons, List.sum_cons, Int.add_assoc]
  simp only [inclusionExclusion, step, loop, Int.zero_add]
  rfl

theorem inclusionExclusion_card {geometries : List (Nat × Nat)}
    (positive : ∀ geometry ∈ geometries, 0 < geometry.1) :
    inclusionExclusion geometries =
      (geometries.toFinset.biUnion fun geometry => offsets geometry.1 geometry.2).card := by
  set reached := geometries.toFinset.biUnion fun geometry => offsets geometry.1 geometry.2
    with reachedDef
  have within : ∀ geometry ∈ geometries, offsets geometry.1 geometry.2 ⊆ reached :=
    fun geometry member =>
      Finset.subset_biUnion_of_mem (fun g : Nat × Nat => offsets g.1 g.2)
        (List.mem_toFinset.mpr member)
  have none : (reached.filter fun offset =>
      ∀ geometry ∈ geometries, offset ∉ offsets geometry.1 geometry.2) = ∅ := by
    refine Finset.filter_false_of_mem fun offset member outside => ?_
    obtain ⟨geometry, held, inside⟩ := Finset.mem_biUnion.mp member
    exact outside geometry (List.mem_toFinset.mp held) inside
  have alternating := sum_masks
    (fun (geometry : Nat × Nat) offset => offset ∈ offsets geometry.1 geometry.2)
    geometries reached
  rw [none, Finset.range_eq_Ico, Finset.sum_eq_sum_Ico_succ_bot (Nat.two_pow_pos _),
    selected_zero] at alternating
  have terms : ∀ mask ∈ Finset.Ico 1 (2 ^ geometries.length), maskTerm geometries mask =
      -((-1) ^ (selected mask geometries).length * ((reached.filter fun offset =>
        ∀ geometry ∈ selected mask geometries,
          offset ∈ offsets geometry.1 geometry.2).card : Int)) := by
    intro mask bounds
    obtain ⟨low, high⟩ := Finset.mem_Ico.mp bounds
    rw [maskTerm, offsetIntersectionCount_card
      (fun geometry member => positive geometry (mem_of_mem_selected member))
      (selected_ne_nil low high)
      (fun geometry member => within geometry (mem_of_mem_selected member))]
  rw [inclusionExclusion_sum, Finset.sum_congr rfl terms, Finset.sum_neg_distrib]
  simp only [List.length_nil, pow_zero, one_mul, List.not_mem_nil, false_implies, implies_true,
    Finset.filter_true, Finset.card_empty, Nat.zero_add, Int.natCast_zero] at alternating
  omega

def StepsPositive (longestSpanMsByStepMs : BTreeMap Nat Nat) : Prop :=
  ∀ stepMs spanMs, longestSpanMsByStepMs.get? stepMs = some spanMs → 0 < stepMs

theorem distinctInstants_card {longestSpanMsByStepMs : BTreeMap Nat Nat}
    (positive : StepsPositive longestSpanMsByStepMs) :
    distinctInstantsPerRequest longestSpanMsByStepMs = (instants longestSpanMsByStepMs).card := by
  have steps : ∀ geometry ∈ longestSpanMsByStepMs.entries, 0 < geometry.1 :=
    fun geometry member => positive _ _ (BTreeMap.mem_entries.mp member)
  unfold distinctInstantsPerRequest instants
  split
  · next stepMs spanMs single =>
    have step : 0 < stepMs := steps (stepMs, spanMs) (by rw [single]; exact List.mem_singleton_self _)
    have step1 : max stepMs 1 = stepMs := by omega
    simp [single, offsets_card step, step1]
  · split
    · rw [inclusionExclusion_card steps, Int.toNat_natCast]
    · congr 1
      ext offset
      simp [offsets]

/-! ### Recording a step -/

/-- The longest spans with `spanMs` recorded at `stepMs`. -/
def record (longestSpanMsByStepMs : BTreeMap Nat Nat) (stepMs spanMs : Nat) : BTreeMap Nat Nat :=
  longestSpanMsByStepMs.change stepMs 0 (max · spanMs)

theorem mem_instants {longestSpanMsByStepMs : BTreeMap Nat Nat} {offset : Nat} :
    offset ∈ instants longestSpanMsByStepMs ↔ ∃ stepMs spanMs,
      longestSpanMsByStepMs.get? stepMs = some spanMs ∧ offset ∈ offsets stepMs spanMs := by
  simp only [instants, Finset.mem_biUnion, List.mem_toFinset, Prod.exists, BTreeMap.mem_entries]

theorem record_positive {longestSpanMsByStepMs : BTreeMap Nat Nat} {stepMs spanMs : Nat}
    (before : StepsPositive longestSpanMsByStepMs) (positive : 0 < stepMs) :
    StepsPositive (record longestSpanMsByStepMs stepMs spanMs) := by
  intro step span held
  rw [record, BTreeMap.get?_change] at held
  split at held
  · next same => exact same ▸ positive
  · exact before step span held

theorem mem_instants_record {longestSpanMsByStepMs : BTreeMap Nat Nat} {stepMs spanMs offset : Nat}
    (positive : 0 < stepMs) :
    offset ∈ instants (record longestSpanMsByStepMs stepMs spanMs) ↔
      offset ∈ instants longestSpanMsByStepMs ∨ offset ∈ offsets stepMs spanMs := by
  simp only [mem_instants, record, BTreeMap.get?_change]
  constructor
  · rintro ⟨step, span, held, inside⟩
    split at held
    · next same =>
      subst same
      cases held
      rw [offsets_max _ _ _ positive, Finset.mem_union] at inside
      cases before : longestSpanMsByStepMs.get? step with
      | none =>
        rw [before, Option.getD_none, mem_offsets positive] at inside
        rcases inside with ⟨divides, zero⟩ | here
        · refine .inr ((mem_offsets positive).mpr ⟨divides, ?_⟩)
          omega
        · exact .inr here
      | some own =>
        rw [before, Option.getD_some] at inside
        exact inside.imp (fun here => ⟨step, own, before, here⟩) id
    · exact .inl ⟨step, span, held, inside⟩
  · rintro (⟨step, span, held, inside⟩ | inside)
    · by_cases same : step = stepMs
      · subst same
        refine ⟨step, max span spanMs, by simp [held], ?_⟩
        rw [offsets_max _ _ _ positive, Finset.mem_union]
        exact .inl inside
      · exact ⟨step, span, by simp [same, held], inside⟩
    · refine ⟨stepMs, _, if_pos rfl, ?_⟩
      rw [offsets_max _ _ _ positive, Finset.mem_union]
      exact .inr inside

/-! ### Readers evaluated together -/

/-- How one request is answered as a range request; validated to have a positive step. -/
structure RangeEvaluation where
  stepMs : Nat
  spanMs : Nat
  positive : 0 < stepMs

def RangeEvaluation.evaluationsPerRequest (range : RangeEvaluation) : Nat :=
  range.spanMs / max range.stepMs 1 + 1

inductive RepeatedDemand where
  | fixedInterval (interval : Nat)
  | fixedIntervalAt (interval evaluationPhase : Nat)
  | scheduled (times : List Nat)
  | estimatedRate (expectedRate : ℚ)

inductive QueryRecurrence where
  | oneTime (invocations : Nat)
  | repeated (demand : RepeatedDemand)
  | unknown

structure ReaderDemand where
  recurrence : QueryRecurrence
  rangeEvaluation : Option RangeEvaluation

inductive Schedule where
  | fixedInterval
  | estimatedRate
  | nonRepeating
deriving DecidableEq

structure ScheduleGroup where
  readers : List Nat
  evaluationsPerSecond : ℚ
  schedule : Schedule

inductive AnalyticalCostError where
  | invalidRecurrence
deriving DecidableEq

/-- The validated `non_repeating_query_horizon_seconds`. -/
abbrev Horizon := { seconds : ℚ // 0 < seconds }

/-- An interval and the phase on it, an unknown phase before every known one. -/
abbrev ScheduleKey := Nat ×ₗ WithBot Nat

/-- The longest span at each step, and the readers. -/
abbrev FixedSchedule := BTreeMap Nat Nat × List Nat

def FixedSchedule.empty : FixedSchedule := (BTreeMap.empty, [])

/-- The locals of the loop of `schedule_groups`. -/
structure ReaderLoop where
  bySchedule : BTreeMap ScheduleKey FixedSchedule
  estimated : List ScheduleGroup
  invocations : Nat
  nonRepeating : List Nat

def ReaderLoop.start : ReaderLoop := ⟨BTreeMap.empty, [], 0, []⟩

namespace ReaderDemand

def steps (demand : ReaderDemand) : Nat :=
  (demand.rangeEvaluation.map RangeEvaluation.evaluationsPerRequest).getD 1

def stepAndSpan (demand : ReaderDemand) (interval : Nat) : Nat × Nat :=
  match demand.rangeEvaluation.filter fun _ => 1 < demand.steps with
  | none => (interval, 0)
  | some range => (range.stepMs, range.spanMs)

end ReaderDemand

namespace ReaderLoop

def readFixed (loop : ReaderLoop) (reader : Nat) (demand : ReaderDemand) (interval : Nat)
    (phaseMs : WithBot Nat) : Except AnalyticalCostError ReaderLoop :=
  if interval = 0 then .error .invalidRecurrence
  else
    let (stepMs, spanMs) := demand.stepAndSpan interval
    let add := fun (schedule : FixedSchedule) =>
      (record schedule.1 stepMs spanMs, schedule.2 ++ [reader])
    .ok { loop with
      bySchedule := loop.bySchedule.change (toLex (interval, phaseMs)) FixedSchedule.empty add }

/-- The batch takes the most evaluations. -/
def readBatch (loop : ReaderLoop) (reader invocations : Nat) : ReaderLoop :=
  { loop with
    invocations := max loop.invocations invocations
    nonRepeating := loop.nonRepeating ++ [reader] }

def read (loop : ReaderLoop) (reader : Nat) (demand : ReaderDemand) :
    Except AnalyticalCostError ReaderLoop :=
  match demand.recurrence with
  | .repeated (.fixedInterval interval) => loop.readFixed reader demand interval ⊥
  | .repeated (.fixedIntervalAt interval evaluationPhase) =>
    loop.readFixed reader demand interval ((evaluationPhase % interval : Nat) : WithBot Nat)
  | .repeated (.estimatedRate rate) =>
    if rate < 0 then .error .invalidRecurrence
    else .ok { loop with
      estimated := loop.estimated ++ [⟨[reader], rate * demand.steps, .estimatedRate⟩] }
  | .repeated (.scheduled times) => .ok (loop.readBatch reader (times.length * demand.steps))
  | .oneTime count => .ok (loop.readBatch reader (count * demand.steps))
  | .unknown => .ok (loop.readBatch reader demand.steps)

def readAll : Nat → List ReaderDemand → ReaderLoop → Except AnalyticalCostError ReaderLoop
  | _, [], loop => .ok loop
  | reader, demand :: rest, loop => do
    let loop ← loop.read reader demand
    readAll (reader + 1) rest loop

end ReaderLoop

def joinKnown (bySchedule : BTreeMap ScheduleKey FixedSchedule) (intervalMs : Nat) :
    BTreeMap ScheduleKey FixedSchedule :=
  match bySchedule.entries.find? fun entry =>
    (ofLex entry.1).1 = intervalMs ∧ (ofLex entry.1).2 ≠ ⊥ with
  | none => bySchedule
  | some (known, _) =>
    let unknown := (bySchedule.get? (toLex (intervalMs, ⊥))).getD FixedSchedule.empty
    let join := fun (schedule : FixedSchedule) =>
      (unknown.1.entries.foldl (fun spans entry => record spans entry.1 entry.2) schedule.1,
        (schedule.2 ++ unknown.2).insertionSort (· ≤ ·))
    (bySchedule.remove (toLex (intervalMs, ⊥))).change known FixedSchedule.empty join

/-- The intervals with readers of unknown phase, once the readers are read. -/
def unknownPhaseIntervalsMs (bySchedule : BTreeMap ScheduleKey FixedSchedule) : List Nat :=
  (bySchedule.entries.filter fun entry => (ofLex entry.1).2 = ⊥).map fun entry => (ofLex entry.1).1

/-- Evaluations per second of readers evaluated together at this many instants a request. -/
def intervalRate (intervalMs instants : Nat) : ℚ := 1000 / intervalMs * instants

def fixedGroup (entry : ScheduleKey × FixedSchedule) : ScheduleGroup where
  readers := entry.2.2
  evaluationsPerSecond := intervalRate (ofLex entry.1).1 (distinctInstantsPerRequest entry.2.1)
  schedule := .fixedInterval

def ReaderLoop.batchGroup (loop : ReaderLoop) (horizon : Horizon) : List ScheduleGroup :=
  if loop.nonRepeating.isEmpty then []
  else [⟨loop.nonRepeating, loop.invocations / horizon.1, .nonRepeating⟩]

/-- `schedule_groups`: the readers evaluated together. -/
def scheduleGroups (readers : List ReaderDemand) (horizon : Horizon) :
    Except AnalyticalCostError (List ScheduleGroup) := do
  let loop ← ReaderLoop.readAll 0 readers ReaderLoop.start
  let bySchedule := (unknownPhaseIntervalsMs loop.bySchedule).foldl joinKnown loop.bySchedule
  return bySchedule.entries.map fixedGroup ++ loop.estimated ++ loop.batchGroup horizon

def ratesOf (schedule : Schedule) (groups : List ScheduleGroup) : List ℚ :=
  (groups.filter (·.schedule = schedule)).map ScheduleGroup.evaluationsPerSecond

/-- `evaluation_rate`: the sum of the groups' rates. -/
def evaluationRate (queries : List ReaderDemand) (horizon : Horizon) :
    Except AnalyticalCostError ℚ := do
  let groups ← scheduleGroups queries horizon
  let repeated := (ratesOf .fixedInterval groups).sum
  let estimated := (ratesOf .estimatedRate groups).foldl (· + ·) 0
  let batch := (ratesOf .nonRepeating groups).head?.getD 0
  return repeated + estimated + batch

end AsapPlanner.Demand
