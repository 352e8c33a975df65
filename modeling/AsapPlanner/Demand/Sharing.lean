import AsapPlanner.Demand.Groups
import Mathlib.Algebra.BigOperators.Group.Finset.Sigma
import Mathlib.Algebra.Order.BigOperators.Group.Finset
import Mathlib.Algebra.Order.BigOperators.Group.List
import Mathlib.Data.Finset.Sum
import Mathlib.Tactic.Linarith

/-!
Readers of one node against the same readers apart: the rate of two lists together is at least that of
either, and at most their sum where no reader of unknown phase has to leave a known phase for an earlier one.
-/

namespace AsapPlanner.Demand
open Rust Ordered

/-! ### Sums over matched sets -/

theorem sum_le_of_matched {α β : Type} [DecidableEq β] {s : Finset α} {t : Finset β} {R : β → α → Prop}
    {v : α → ℚ} {w : β → ℚ} (nonneg : ∀ y ∈ t, 0 ≤ w y) (matched : ∀ x ∈ s, ∃ y ∈ t, R y x)
    (once : ∀ y, ∀ x ∈ s, ∀ x' ∈ s, R y x → R y x' → x = x') (same : ∀ y, ∀ x ∈ s, R y x → v x = w y) :
    ∑ x ∈ s, v x ≤ ∑ y ∈ t, w y := by
  rcases s.eq_empty_or_nonempty with rfl | ⟨some, member⟩
  · exact Finset.sum_nonneg nonneg
  have : Nonempty β := ⟨(matched some member).choose⟩
  choose! f inside related using matched
  have injective : Set.InjOn f s := fun x member x' member' equal =>
    once (f x) x member x' member' (related x member) (equal ▸ related x' member')
  calc ∑ x ∈ s, v x = ∑ x ∈ s, w (f x) := Finset.sum_congr rfl fun x member => same _ x member (related x member)
    _ = ∑ y ∈ s.image f, w y := (Finset.sum_image injective).symm
    _ ≤ ∑ y ∈ t, w y := Finset.sum_le_sum_of_subset_of_nonneg (Finset.image_subset_iff.mpr inside)
        fun y member _ => nonneg y member

/-! ### Instants at their homes -/

def placed (home : ScheduleKey → ScheduleKey) (demands : List ReaderDemand) : Finset (Σ _ : ScheduleKey, Nat) :=
  ((keysOf demands).image home).sigma fun key => instantsOf (groupOf home key demands)

/-- The evaluations per second at one instant of a schedule. -/
def instantRate (entry : Σ _ : ScheduleKey, Nat) : ℚ := 1000 / ((ofLex entry.1).1 : ℚ)

theorem instantRate_nonneg (entry : Σ _ : ScheduleKey, Nat) : 0 ≤ instantRate entry := by
  unfold instantRate
  positivity

theorem mem_placed {home : ScheduleKey → ScheduleKey} {demands : List ReaderDemand} {key : ScheduleKey}
    {offset : Nat} : ⟨key, offset⟩ ∈ placed home demands ↔
      ∃ demand ∈ demands, ∃ own, demand.key = some own ∧ home own = key ∧ offset ∈ demand.instants := by
  simp only [placed, Finset.mem_sigma, mem_instantsOf, groupOf, List.mem_filter, decide_eq_true_eq,
    ReaderDemand.AtHome, Option.map_eq_some_iff, keysOf, Finset.mem_image, List.mem_toFinset, List.mem_filterMap]
  constructor
  · rintro ⟨_, demand, ⟨member, own, isKey, there⟩, inside⟩
    exact ⟨demand, member, own, isKey, there, inside⟩
  · rintro ⟨demand, member, own, isKey, there, inside⟩
    exact ⟨⟨own, ⟨demand, member, isKey⟩, there⟩, demand, ⟨member, own, isKey, there⟩, inside⟩

theorem fixedRate_eq_sum (home : ScheduleKey → ScheduleKey) (demands : List ReaderDemand) :
    fixedRate home demands = ∑ entry ∈ placed home demands, instantRate entry := by
  rw [placed, Finset.sum_sigma, fixedRate]
  refine Finset.sum_congr rfl fun key _ => ?_
  simp only [instantRate, Finset.sum_const, intervalRate, nsmul_eq_mul]
  exact mul_comm _ _

/-! ### Readers together -/

/-- The key is that of a fixed-interval reader of the list. -/
def KeyOf (demands : List ReaderDemand) (key : ScheduleKey) : Prop := ∃ demand ∈ demands, demand.key = some key

theorem same_home_of_joined {demands : List ReaderDemand} {home there : ScheduleKey → ScheduleKey}
    (interval : ∀ key, (ofLex (home key)).1 = (ofLex key).1)
    (known : ∀ key, (ofLex key).2 ≠ ⊥ → home key = key ∧ there key = key)
    (joined : ∀ key otherKey, KeyOf demands key → KeyOf demands otherKey → (ofLex otherKey).1 = (ofLex key).1 →
      (ofLex key).2 = ⊥ → (ofLex otherKey).2 ≠ ⊥ → home key = otherKey → there key = otherKey)
    {key otherKey : ScheduleKey} (isKey : KeyOf demands key) (isOther : KeyOf demands otherKey)
    (together : home key = home otherKey) : there key = there otherKey := by
  have apart : (ofLex key).1 = (ofLex otherKey).1 := by rw [← interval key, together, interval]
  by_cases unknown : (ofLex key).2 = ⊥
  · by_cases otherUnknown : (ofLex otherKey).2 = ⊥
    · exact congrArg there (Prod.ext apart (unknown.trans otherUnknown.symm))
    · rw [(known otherKey otherUnknown).2]
      rw [(known otherKey otherUnknown).1] at together
      exact joined key otherKey isKey isOther apart.symm unknown otherUnknown together
  · by_cases otherUnknown : (ofLex otherKey).2 = ⊥
    · rw [(known key unknown).2]
      rw [(known key unknown).1] at together
      exact (joined otherKey key isOther isKey apart otherUnknown unknown together.symm).symm
    · rw [(known key unknown).1, (known otherKey otherUnknown).1] at together
      exact congrArg there together

/-- Where a list has readers of unknown and of known phase on one interval, `added` has no earlier phase on it. -/
def Undisturbed (own added : List ReaderDemand) : Prop :=
  ∀ key knownKey otherKey, KeyOf own key → KeyOf own knownKey → KeyOf added otherKey →
    (ofLex knownKey).1 = (ofLex key).1 → (ofLex otherKey).1 = (ofLex key).1 →
    (ofLex key).2 = ⊥ → (ofLex knownKey).2 ≠ ⊥ → (ofLex otherKey).2 ≠ ⊥ →
    ∃ firstKey, KeyOf own firstKey ∧ (ofLex firstKey).1 = (ofLex key).1 ∧ (ofLex firstKey).2 ≠ ⊥ ∧
      firstKey ≤ otherKey

section
variable {demands others : List ReaderDemand} {home there : ScheduleKey → ScheduleKey}
  (settled : Settled demands home) (first : FirstHomes demands home)
  (settled' : Settled others there) (first' : FirstHomes others there) (subset : demands ⊆ others)
include settled first settled' first' subset

theorem together_alone {key otherKey : ScheduleKey} (isKey : KeyOf demands key) (isOther : KeyOf demands otherKey)
    (together : there key = there otherKey) : home key = home otherKey := by
  refine same_home_of_joined settled'.interval
    (fun key known => ⟨settled'.known key known, settled.known key known⟩) ?_ isKey isOther together
  rintro key otherKey ⟨demand, member, isKey⟩ ⟨other, otherMember, isOther⟩ interval unknown known joined
  have moved' : there key ≠ key := fun stays => known (by rw [← joined, stays, unknown])
  rcases settled.unknown demand member key isKey unknown with ⟨phase, third, thirdMember, isThird⟩ | ⟨_, none⟩
  · have moved : home key ≠ key := fun stays => phase (by rw [stays, unknown])
    have low := first key moved other otherMember otherKey isOther interval known
    have high := first' key moved' third (subset thirdMember) _ isThird (settled.interval key) phase
    exact le_antisymm low (joined ▸ high)
  · exact absurd (none other otherMember otherKey isOther interval) known

theorem together_among {added : List ReaderDemand} (rest : ∀ other ∈ others, other ∈ demands ∨ other ∈ added)
    (undisturbed : Undisturbed demands added) {key otherKey : ScheduleKey} (isKey : KeyOf demands key)
    (isOther : KeyOf demands otherKey) (together : home key = home otherKey) : there key = there otherKey := by
  refine same_home_of_joined settled.interval
    (fun key known => ⟨settled.known key known, settled'.known key known⟩) ?_ isKey isOther together
  rintro key otherKey ⟨demand, member, isKey⟩ ⟨other, otherMember, isOther⟩ interval unknown known joined
  have moved : home key ≠ key := fun stays => known (by rw [← joined, stays, unknown])
  rcases settled'.unknown demand (subset member) key isKey unknown with
    ⟨phase, third, thirdMember, isThird⟩ | ⟨_, none⟩
  · have moved' : there key ≠ key := fun stays => phase (by rw [stays, unknown])
    have low := first' key moved' other (subset otherMember) otherKey isOther interval known
    refine le_antisymm low ?_
    rcases rest third thirdMember with own | new
    · rw [← joined]
      exact first key moved third own _ isThird (settled'.interval key) phase
    · obtain ⟨earlyKey, ⟨early, earlyMember, isEarly⟩, earlyInterval, earlyKnown, before⟩ :=
        undisturbed key otherKey _ ⟨demand, member, isKey⟩ ⟨other, otherMember, isOther⟩ ⟨third, new, isThird⟩
          interval (settled'.interval key) unknown known phase
      have least := first key moved early earlyMember earlyKey isEarly earlyInterval earlyKnown
      exact (joined ▸ least).trans before
  · exact absurd (none other (subset otherMember) otherKey isOther interval) known

theorem fixedRate_mono : fixedRate home demands ≤ fixedRate there others := by
  rw [fixedRate_eq_sum, fixedRate_eq_sum]
  refine sum_le_of_matched (R := fun among alone => among.2 = alone.2 ∧
    ∃ own, KeyOf demands own ∧ home own = alone.1 ∧ there own = among.1) (fun entry _ => instantRate_nonneg entry)
    ?_ ?_ ?_
  · rintro ⟨key, offset⟩ member
    obtain ⟨demand, held, own, isKey, rfl, inside⟩ := mem_placed.mp member
    exact ⟨⟨there own, offset⟩, mem_placed.mpr ⟨demand, subset held, own, isKey, rfl, inside⟩, rfl, own,
      ⟨demand, held, isKey⟩, rfl, rfl⟩
  · rintro ⟨_, offset⟩ ⟨_, _⟩ _ ⟨_, _⟩ _ ⟨rfl, own, isOwn, rfl, rfl⟩ ⟨rfl, other, isOther, rfl, same⟩
    rw [together_alone settled first settled' first' subset isOther isOwn same]
  · rintro ⟨_, _⟩ ⟨_, _⟩ _ ⟨rfl, own, _, rfl, rfl⟩
    simp only [instantRate, settled.interval, settled'.interval]

end

theorem fixedRate_le_add {left right combined : List ReaderDemand} {home home' there : ScheduleKey → ScheduleKey}
    (settled : Settled left home) (first : FirstHomes left home) (settled' : Settled right home')
    (first' : FirstHomes right home') (shared : Settled combined there) (sharedFirst : FirstHomes combined there)
    (members : ∀ demand, demand ∈ combined ↔ demand ∈ left ∨ demand ∈ right)
    (undisturbed : Undisturbed left right) (undisturbed' : Undisturbed right left) :
    fixedRate there combined ≤ fixedRate home left + fixedRate home' right := by
  have leftSubset : left ⊆ combined := fun demand member => (members demand).mpr (.inl member)
  have rightSubset : right ⊆ combined := fun demand member => (members demand).mpr (.inr member)
  have ofLeft := @together_among left combined home there settled first shared sharedFirst leftSubset right
    (fun other member => (members other).mp member) undisturbed
  have ofRight := @together_among right combined home' there settled' first' shared sharedFirst rightSubset left
    (fun other member => ((members other).mp member).symm) undisturbed'
  have both : ∑ entry ∈ placed home left, instantRate entry + ∑ entry ∈ placed home' right, instantRate entry =
      ∑ entry ∈ (placed home left).disjSum (placed home' right), Sum.elim instantRate instantRate entry := by
    rw [Finset.sum_disjSum]
    rfl
  rw [fixedRate_eq_sum, fixedRate_eq_sum, fixedRate_eq_sum, both]
  -- An instant of the two lists is an instant of one of them.
  refine sum_le_of_matched (R := fun alone among => match alone with
    | .inl own => own.2 = among.2 ∧ ∃ key, KeyOf left key ∧ home key = own.1 ∧ there key = among.1
    | .inr own => own.2 = among.2 ∧ ∃ key, KeyOf right key ∧ home' key = own.1 ∧ there key = among.1) ?_ ?_ ?_ ?_
  · rintro (entry | entry) _
    · exact instantRate_nonneg entry
    · exact instantRate_nonneg entry
  · rintro ⟨key, offset⟩ member
    obtain ⟨demand, held, own, isKey, rfl, inside⟩ := mem_placed.mp member
    rcases (members demand).mp held with fromLeft | fromRight
    · exact ⟨.inl ⟨home own, offset⟩, Finset.inl_mem_disjSum.mpr
        (mem_placed.mpr ⟨demand, fromLeft, own, isKey, rfl, inside⟩), rfl, own, ⟨demand, fromLeft, isKey⟩, rfl, rfl⟩
    · exact ⟨.inr ⟨home' own, offset⟩, Finset.inr_mem_disjSum.mpr
        (mem_placed.mpr ⟨demand, fromRight, own, isKey, rfl, inside⟩), rfl, own, ⟨demand, fromRight, isKey⟩, rfl, rfl⟩
  · rintro (⟨_, offset⟩ | ⟨_, offset⟩) ⟨_, _⟩ _ ⟨_, _⟩ _ ⟨rfl, own, isOwn, rfl, rfl⟩ ⟨rfl, other, isOther, same, rfl⟩
    · rw [ofLeft isOther isOwn same]
    · rw [ofRight isOther isOwn same]
  · rintro (⟨_, _⟩ | ⟨_, _⟩) ⟨_, _⟩ _ ⟨rfl, own, _, rfl, rfl⟩
    · simp only [Sum.elim_inl, instantRate, settled.interval, shared.interval]
    · simp only [Sum.elim_inr, instantRate, settled'.interval, shared.interval]

/-! ### Estimated rates and the batch -/

theorem estimatedRates_nonneg {demands : List ReaderDemand} (valid : ∀ demand ∈ demands, demand.Valid) :
    0 ≤ (demands.map ReaderDemand.estimatedRate).sum := by
  refine List.sum_nonneg fun rate member => ?_
  obtain ⟨demand, held, rfl⟩ := List.mem_map.mp member
  exact demand.estimatedRate_nonneg (valid demand held)

theorem batchInvocations_le {demands : List ReaderDemand} {bound : Nat} :
    batchInvocations demands ≤ bound ↔ ∀ demand ∈ demands, demand.batch?.getD 0 ≤ bound := by
  rw [batchInvocations, foldl_max_le, List.forall_mem_map]
  exact and_iff_right (Nat.zero_le bound)

theorem batchInvocations_mono {demands others : List ReaderDemand} (subset : demands ⊆ others) :
    batchInvocations demands ≤ batchInvocations others :=
  batchInvocations_le.mpr fun demand member => batchInvocations_le.mp le_rfl demand (subset member)

theorem batchRate_mono {demands others : List ReaderDemand} (horizon : Horizon) (subset : demands ⊆ others) :
    batchRate demands horizon ≤ batchRate others horizon :=
  div_le_div_of_nonneg_right (Nat.cast_le.mpr (batchInvocations_mono subset)) horizon.2.le

theorem batchRate_le_add {left right combined : List ReaderDemand} (horizon : Horizon)
    (members : ∀ demand ∈ combined, demand ∈ left ∨ demand ∈ right) :
    batchRate combined horizon ≤ batchRate left horizon + batchRate right horizon := by
  have most : batchInvocations combined ≤ batchInvocations left + batchInvocations right := by
    rw [batchInvocations_le]
    intro demand member
    rcases members demand member with fromLeft | fromRight
    · exact Nat.le_add_right_of_le (batchInvocations_le.mp le_rfl demand fromLeft)
    · exact Nat.le_add_left_of_le (batchInvocations_le.mp le_rfl demand fromRight)
  unfold batchRate
  rw [← add_div]
  exact div_le_div_of_nonneg_right (by exact_mod_cast most) horizon.2.le

/-! ### Rates of shared readers -/

theorem evaluationRate_valid {demands : List ReaderDemand} {horizon : Horizon} {rate : ℚ}
    (run : evaluationRate demands horizon = .ok rate) : ∀ demand ∈ demands, demand.Valid := by
  unfold evaluationRate at run
  cases groups : scheduleGroups demands horizon with
  | error _ =>
    rw [groups] at run
    cases run
  | ok _ => exact scheduleGroups_valid groups

theorem evaluationRate_perm {demands others : List ReaderDemand} (horizon : Horizon)
    (valid : ∀ demand ∈ demands, demand.Valid) (same : others.Perm demands) :
    evaluationRate others horizon = evaluationRate demands horizon := by
  obtain ⟨home, settled, first, run⟩ := evaluationRate_first horizon valid
  obtain ⟨there, settled', first', run'⟩ :=
    evaluationRate_first horizon fun demand member => valid demand (same.subset member)
  have fixed := le_antisymm (fixedRate_mono settled' first' settled first same.subset)
    (fixedRate_mono settled first settled' first' same.symm.subset)
  have batch := le_antisymm (batchRate_mono horizon same.subset) (batchRate_mono horizon same.symm.subset)
  rw [run, run', fixed, batch, (same.map ReaderDemand.estimatedRate).sum_eq]

/-- Two lists of readers together are computed at least as often as either, in any order of the readers, and at
most as often as both apart where neither makes the other's readers of unknown phase leave a known phase. -/
theorem sharing_rate {left right : List ReaderDemand} {horizon : Horizon} {leftRate rightRate : ℚ}
    (leftRun : evaluationRate left horizon = .ok leftRate) (rightRun : evaluationRate right horizon = .ok rightRate) :
    ∃ rate, (∀ combined, combined.Perm (left ++ right) → evaluationRate combined horizon = .ok rate) ∧
      leftRate ≤ rate ∧ rightRate ≤ rate ∧
      (Undisturbed left right → Undisturbed right left → rate ≤ leftRate + rightRate) := by
  have leftValid := evaluationRate_valid leftRun
  have rightValid := evaluationRate_valid rightRun
  have valid : ∀ demand ∈ left ++ right, demand.Valid := fun demand member =>
    (List.mem_append.mp member).elim (leftValid demand) (rightValid demand)
  obtain ⟨home, settled, first, run⟩ := evaluationRate_first horizon leftValid
  obtain ⟨home', settled', first', run'⟩ := evaluationRate_first horizon rightValid
  obtain ⟨there, shared, sharedFirst, sharedRun⟩ := evaluationRate_first horizon valid
  cases run.symm.trans leftRun
  cases run'.symm.trans rightRun
  have leftSubset : left ⊆ left ++ right := List.subset_append_left left right
  have rightSubset : right ⊆ left ++ right := List.subset_append_right left right
  have leftEstimated := estimatedRates_nonneg leftValid
  have rightEstimated := estimatedRates_nonneg rightValid
  have estimated : ((left ++ right).map ReaderDemand.estimatedRate).sum =
      (left.map ReaderDemand.estimatedRate).sum + (right.map ReaderDemand.estimatedRate).sum := by
    rw [List.map_append, List.sum_append]
  refine ⟨_, fun combined same => (evaluationRate_perm horizon valid same).trans sharedRun, ?_, ?_, ?_⟩
  · have fixed := fixedRate_mono settled first shared sharedFirst leftSubset
    have batch := batchRate_mono horizon leftSubset
    rw [estimated]
    linarith
  · have fixed := fixedRate_mono settled' first' shared sharedFirst rightSubset
    have batch := batchRate_mono horizon rightSubset
    rw [estimated]
    linarith
  · intro undisturbed undisturbed'
    have fixed := fixedRate_le_add settled first settled' first' shared sharedFirst
      (fun demand => List.mem_append) undisturbed undisturbed'
    have batch := @batchRate_le_add left right (left ++ right) horizon fun demand member => List.mem_append.mp member
    rw [estimated]
    linarith

/-! ### A panel of unknown phase between two known ones -/

def minuteRange : RangeEvaluation := ⟨20000, 40000, by decide⟩

/-- A minute's panel of unknown phase, with one at half past. -/
def panelAtHalf : List ReaderDemand :=
  [⟨.repeated (.fixedInterval 60000), some minuteRange⟩,
    ⟨.repeated (.fixedIntervalAt 60000 30000), some minuteRange⟩]

def panelOnMinute : List ReaderDemand := [⟨.repeated (.fixedIntervalAt 60000 0), none⟩]

/-- Alone, the panel of unknown phase shares all three instants with the one at half past; beside the panel on the
minute it joins that one, and six instants a minute are computed in place of four. -/
theorem sharing_raises_rate :
    evaluationRate panelAtHalf ⟨1, by decide⟩ = .ok (3 / 60) ∧
    evaluationRate panelOnMinute ⟨1, by decide⟩ = .ok (1 / 60) ∧
    evaluationRate (panelAtHalf ++ panelOnMinute) ⟨1, by decide⟩ = .ok (6 / 60) ∧
    ¬(6 / 60 : ℚ) ≤ 3 / 60 + 1 / 60 := by
  decide +kernel

/-- Two panels at half past are computed together. -/
theorem sharing_rate_panels : ∃ rate, (∀ combined, combined.Perm (panelAtHalf ++ panelAtHalf) →
    evaluationRate combined ⟨1, by decide⟩ = .ok rate) ∧ 3 / 60 ≤ rate ∧ rate ≤ 3 / 60 + 3 / 60 := by
  have run : evaluationRate panelAtHalf ⟨1, by decide⟩ = .ok (3 / 60) := by decide +kernel
  obtain ⟨rate, every, least, _, most⟩ := sharing_rate run run
  have undisturbed : Undisturbed panelAtHalf panelAtHalf := fun _ _ otherKey _ _ isOther _ interval _ _ known =>
    ⟨otherKey, isOther, interval, known, le_rfl⟩
  exact ⟨rate, every, least, most undisturbed undisturbed⟩

end AsapPlanner.Demand
