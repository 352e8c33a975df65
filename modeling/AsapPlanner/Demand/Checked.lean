import AsapPlanner.Demand.Instants
import AsapPlanner.Rust.Integer
import AsapPlanner.Rust.Result
import Mathlib.Data.Set.Card
import Mathlib.Data.Finset.Card

/-!
The counting of evaluation instants in machine integers, where every operation that does not fit fails.
-/

namespace AsapPlanner.Demand
open Rust

/-- A `u64` result. -/
def fitsU64 (value : Nat) : Option Nat := if value ≤ u64Max then some value else none

/-- An `i128` result. -/
def fitsI128 (value : Int) : Option Int := if -2 ^ 127 ≤ value ∧ value < 2 ^ 127 then some value else none

theorem fitsU64_eq {value : Nat} (fits : value ≤ u64Max) : fitsU64 value = some value := if_pos fits

theorem fitsI128_eq {value : Int} (fits : value.natAbs < 2 ^ 127) : fitsI128 value = some value := by
  unfold fitsI128
  rw [if_pos]
  omega

/-! ### The algorithms -/

/-- The running least common multiple; `none` once it overflows or passes `span`. -/
def commonStepU64 (span : Nat) : Nat → List (Nat × Nat) → Option Nat
  | lcm, [] => some lcm
  | lcm, (step, _) :: rest =>
    -- `checked_mul`
    match fitsU64 (lcm / Nat.gcd lcm (max step 1) * max step 1) with
    | some next => if next ≤ span then commonStepU64 span next rest else none
    | none => none

/-- `offset_intersection_count`. -/
def offsetIntersectionCountI128 (geometries : List (Nat × Nat)) : Option Int :=
  match (geometries.map Prod.snd).min? with
  | none => some 0
  | some span =>
    match commonStepU64 span 1 geometries with
    | none => some 1
    | some lcm => fitsI128 ((span / lcm : Nat) + 1)

/-- One mask of the inclusion–exclusion. -/
def addMask (geometries : List (Nat × Nat)) (total : Int) (mask : Nat) : Option Int := do
  let intersection := selected mask geometries
  let count ← offsetIntersectionCountI128 intersection
  if intersection.length % 2 = 1 then fitsI128 (total + count) else fitsI128 (total - count)

/-- `u64::try_from`. -/
def u64OfI128 (total : Int) : Option Nat := if 0 ≤ total then fitsU64 total.toNat else none

def inclusionExclusionU64 (geometries : List (Nat × Nat)) : Option Nat := do
  u64OfI128 (← (List.range' 1 (2 ^ geometries.length - 1)).foldlM (addMask geometries) 0)

def offsetsU64 (geometry : Nat × Nat) : Option (List Nat) :=
  (List.range (geometry.2 / max geometry.1 1 + 1)).mapM fun k => fitsU64 (k * geometry.1)

def enumerationU64 (geometries : List (Nat × Nat)) : Option Nat := do
  -- `len() as u64`
  pure ((← geometries.mapM offsetsU64).flatten.toFinset.card % 2 ^ 64)

/-- `distinct_instants_per_request`; `none` where an operation overflows or a conversion panics. -/
def distinctInstantsPerRequestU64 (longestSpanMsByStepMs : BTreeMap Nat Nat) : Option Nat :=
  match longestSpanMsByStepMs.entries with
  | [(stepMs, spanMs)] => fitsU64 (spanMs / max stepMs 1 + 1)
  | geometries => if geometries.length ≤ 12 then inclusionExclusionU64 geometries else enumerationU64 geometries

/-! ### Intersections -/

/-- Every step and span is a `u64`. -/
def U64Geometries (geometries : List (Nat × Nat)) : Prop :=
  ∀ geometry ∈ geometries, geometry.1 ≤ u64Max ∧ geometry.2 ≤ u64Max

theorem commonStepU64_eq {span : Nat} (small : span ≤ u64Max) (lcm : Nat) (geometries : List (Nat × Nat)) :
    commonStepU64 span lcm geometries = commonStep span lcm geometries := by
  induction geometries generalizing lcm with
  | nil => rfl
  | cons head rest ih =>
    obtain ⟨step, own⟩ := head
    unfold commonStepU64 commonStep
    by_cases fits : lcm / Nat.gcd lcm (max step 1) * max step 1 ≤ u64Max
    · rw [fitsU64_eq fits]
      dsimp only
      rw [ih]
    · have long : ¬lcm / Nat.gcd lcm (max step 1) * max step 1 ≤ span := fun within => fits (within.trans small)
      rw [fitsU64, if_neg fits]
      dsimp only
      rw [if_neg long]

theorem offsetIntersectionCount_le {geometries : List (Nat × Nat)} (small : U64Geometries geometries) :
    offsetIntersectionCount geometries ≤ 2 ^ 64 := by
  unfold offsetIntersectionCount
  cases least : (geometries.map Prod.snd).min? with
  | none => exact Nat.zero_le _
  | some span =>
    obtain ⟨shortest, inside, rfl⟩ := List.mem_map.mp (List.min?_eq_some_iff.mp least).1
    have bound := (small shortest inside).2
    unfold u64Max at bound
    dsimp only
    cases commonStep shortest.2 1 geometries with
    | none => exact Nat.one_le_two_pow
    | some lcm =>
      have quotient := Nat.div_le_self shortest.2 lcm
      dsimp only
      omega

theorem offsetIntersectionCountI128_eq {geometries : List (Nat × Nat)} (small : U64Geometries geometries) :
    offsetIntersectionCountI128 geometries = some (offsetIntersectionCount geometries : Int) := by
  have count := offsetIntersectionCount_le small
  unfold offsetIntersectionCountI128
  unfold offsetIntersectionCount at count ⊢
  cases least : (geometries.map Prod.snd).min? with
  | none => rfl
  | some span =>
    obtain ⟨shortest, inside, rfl⟩ := List.mem_map.mp (List.min?_eq_some_iff.mp least).1
    rw [least] at count
    dsimp only at count ⊢
    rw [commonStepU64_eq (small shortest inside).2]
    cases reached : commonStep shortest.2 1 geometries with
    | none => rfl
    | some lcm =>
      rw [reached] at count
      dsimp only at count ⊢
      rw [← Int.natCast_succ, fitsI128_eq]
      rw [Int.natAbs_natCast]
      omega

/-! ### The alternating sum -/

theorem U64Geometries.selected {geometries : List (Nat × Nat)} (small : U64Geometries geometries) (mask : Nat) :
    U64Geometries (selected mask geometries) :=
  fun geometry member => small geometry (mem_of_mem_selected member)

theorem foldlM_addMask {geometries : List (Nat × Nat)} (small : U64Geometries geometries) (masks : List Nat)
    {total : Int} (room : total.natAbs + masks.length * 2 ^ 64 < 2 ^ 127) :
    masks.foldlM (addMask geometries) total = some (masks.foldl (fun total mask =>
      let intersection := selected mask geometries
      let count : Int := offsetIntersectionCount intersection
      if intersection.length % 2 = 1 then total + count else total - count) total) := by
  induction masks generalizing total with
  | nil => rfl
  | cons mask rest ih =>
    have count := offsetIntersectionCount_le (small.selected mask)
    rw [List.length_cons] at room
    rw [List.foldlM_cons, List.foldl_cons, addMask, offsetIntersectionCountI128_eq (small.selected mask)]
    simp only [Option.bind_eq_bind, Option.bind_some]
    split
    · rw [fitsI128_eq (by omega), Option.bind_some]
      exact ih (by omega)
    · rw [fitsI128_eq (by omega), Option.bind_some]
      exact ih (by omega)

theorem inclusionExclusionU64_eq {geometries : List (Nat × Nat)} (positive : ∀ geometry ∈ geometries, 0 < geometry.1)
    (small : U64Geometries geometries) (few : geometries.length ≤ 12)
    (fits : (geometries.toFinset.biUnion fun geometry => offsets geometry.1 geometry.2).card ≤ u64Max) :
    inclusionExclusionU64 geometries =
      some (geometries.toFinset.biUnion fun geometry => offsets geometry.1 geometry.2).card := by
  have masks : 2 ^ geometries.length ≤ 2 ^ 12 := Nat.pow_le_pow_right (by decide) few
  have run := @foldlM_addMask geometries small (List.range' 1 (2 ^ geometries.length - 1)) 0 (by
    rw [List.length_range']
    omega)
  have total := inclusionExclusion_card positive
  unfold inclusionExclusion at total
  rw [inclusionExclusionU64, run, total, Option.bind_eq_bind, Option.bind_some, u64OfI128,
    if_pos (Int.natCast_nonneg _), Int.toNat_natCast, fitsU64_eq fits]

/-! ### The enumeration -/

theorem offsetsU64_eq {geometry : Nat × Nat} (positive : 0 < geometry.1) (small : geometry.2 ≤ u64Max) :
    offsetsU64 geometry = some ((List.range (geometry.2 / max geometry.1 1 + 1)).map (· * geometry.1)) := by
  rw [offsetsU64, option_mapM_eq_some, List.forall₂_map_right_iff, List.forall₂_same]
  intro k inside
  have step : max geometry.1 1 = geometry.1 := Nat.max_eq_left positive
  rw [step, List.mem_range, Nat.lt_succ_iff, Nat.le_div_iff_mul_le positive] at inside
  exact fitsU64_eq (inside.trans small)

theorem enumerationU64_eq {geometries : List (Nat × Nat)} (positive : ∀ geometry ∈ geometries, 0 < geometry.1)
    (small : U64Geometries geometries)
    (fits : (geometries.toFinset.biUnion fun geometry => offsets geometry.1 geometry.2).card ≤ u64Max) :
    enumerationU64 geometries =
      some (geometries.toFinset.biUnion fun geometry => offsets geometry.1 geometry.2).card := by
  have listed : geometries.mapM offsetsU64 = some (geometries.map fun geometry =>
      (List.range (geometry.2 / max geometry.1 1 + 1)).map (· * geometry.1)) := by
    rw [option_mapM_eq_some, List.forall₂_map_right_iff, List.forall₂_same]
    exact fun geometry member => offsetsU64_eq (positive geometry member) (small geometry member).2
  have same : (geometries.map fun geometry =>
      (List.range (geometry.2 / max geometry.1 1 + 1)).map (· * geometry.1)).flatten.toFinset =
      geometries.toFinset.biUnion fun geometry => offsets geometry.1 geometry.2 := by
    ext offset
    simp [offsets]
  unfold u64Max at fits
  rw [enumerationU64, listed, Option.bind_eq_bind, Option.bind_some, same, Nat.mod_eq_of_lt (by omega)]
  rfl

/-! ### The count -/

/-- The offsets `k · step ≤ span` of all entries. -/
def evaluationOffsets (longestSpanMsByStepMs : BTreeMap Nat Nat) : Set Nat :=
  {offset | ∃ stepMs spanMs k, longestSpanMsByStepMs.get? stepMs = some spanMs ∧
    offset = k * stepMs ∧ k * stepMs ≤ spanMs}

theorem coe_instants {longestSpanMsByStepMs : BTreeMap Nat Nat} (positive : StepsPositive longestSpanMsByStepMs) :
    (instants longestSpanMsByStepMs : Set Nat) = evaluationOffsets longestSpanMsByStepMs := by
  ext offset
  rw [Finset.mem_coe, mem_instants]
  refine exists_congr fun stepMs => exists_congr fun spanMs => ?_
  constructor
  · rintro ⟨held, inside⟩
    obtain ⟨⟨k, rfl⟩, small⟩ := (mem_offsets (positive stepMs spanMs held)).mp inside
    rw [Nat.mul_comm] at small ⊢
    exact ⟨k, held, rfl, small⟩
  · rintro ⟨k, held, rfl, small⟩
    exact ⟨held, (mem_offsets (positive stepMs spanMs held)).mpr ⟨Nat.dvd_mul_left _ _, small⟩⟩

/-- The three algorithms count the distinct offsets, and no operation overflows. -/
theorem distinct_instants_exact {longestSpanMsByStepMs : BTreeMap Nat Nat}
    (positive : StepsPositive longestSpanMsByStepMs) (small : U64Geometries longestSpanMsByStepMs.entries)
    (fits : (evaluationOffsets longestSpanMsByStepMs).ncard ≤ u64Max) :
    distinctInstantsPerRequestU64 longestSpanMsByStepMs = some (evaluationOffsets longestSpanMsByStepMs).ncard ∧
      (∀ stepMs spanMs, longestSpanMsByStepMs.entries = [(stepMs, spanMs)] →
        fitsU64 (spanMs / max stepMs 1 + 1) = some (evaluationOffsets longestSpanMsByStepMs).ncard) ∧
      (longestSpanMsByStepMs.entries.length ≤ 12 → inclusionExclusionU64 longestSpanMsByStepMs.entries =
        some (evaluationOffsets longestSpanMsByStepMs).ncard) ∧
      enumerationU64 longestSpanMsByStepMs.entries = some (evaluationOffsets longestSpanMsByStepMs).ncard := by
  rw [← coe_instants positive, Set.ncard_coe_finset] at fits ⊢
  have steps : ∀ geometry ∈ longestSpanMsByStepMs.entries, 0 < geometry.1 :=
    fun geometry member => positive _ _ (BTreeMap.mem_entries.mp member)
  have single : ∀ stepMs spanMs, longestSpanMsByStepMs.entries = [(stepMs, spanMs)] →
      fitsU64 (spanMs / max stepMs 1 + 1) = some (instants longestSpanMsByStepMs).card := by
    intro stepMs spanMs only
    have count := distinctInstants_card positive
    rw [distinctInstantsPerRequest, only] at count
    rw [← count] at fits ⊢
    exact fitsU64_eq fits
  have alternating := fun few => inclusionExclusionU64_eq steps small few fits
  have listed := enumerationU64_eq steps small fits
  refine ⟨?_, single, alternating, listed⟩
  unfold distinctInstantsPerRequestU64
  split
  · next stepMs spanMs only => exact single stepMs spanMs only
  · split
    · next few => exact alternating few
    · exact listed

def twoSteps : BTreeMap Nat Nat := ⟨[(2, 10), (3, 9)], by simp⟩

/-- Six multiples of two, four of three, and two in common. -/
theorem distinct_instants_twoSteps :
    distinctInstantsPerRequestU64 twoSteps = some (evaluationOffsets twoSteps).ncard ∧
      (evaluationOffsets twoSteps).ncard = 8 := by
  have positive : StepsPositive twoSteps := by
    intro stepMs spanMs held
    have member := BTreeMap.mem_entries.mpr held
    simp only [twoSteps, List.mem_cons, Prod.mk.injEq, List.not_mem_nil, or_false] at member
    omega
  have count : (evaluationOffsets twoSteps).ncard = 8 := by
    rw [← coe_instants positive, Set.ncard_coe_finset]
    decide
  have small : U64Geometries twoSteps.entries := by simp [U64Geometries, twoSteps, u64Max]
  refine ⟨(distinct_instants_exact positive small ?_).1, count⟩
  rw [count]
  decide

end AsapPlanner.Demand
