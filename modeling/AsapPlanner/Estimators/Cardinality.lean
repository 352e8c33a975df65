import AsapPlanner.Estimators.Params
import Mathlib.Analysis.SpecialFunctions.Log.Basic
import Mathlib.Analysis.SpecialFunctions.Pow.NNReal

/-!
KMV's distinct-count bound.
-/

namespace AsapPlanner.Estimators
open Accuracy
open Ir (SketchAlgorithm SketchStatistic)

/-- The smallest `k` the estimate is defined for. -/
def kmvMinK : Nat := 2

/-- The largest `k` sizing returns. -/
def kmvMaxK : Nat := 2 ^ 26

/-- The slack a certified probability is rounded up by. -/
noncomputable def roundedUp : ℝ := 1 + 1 / 10 ^ 12

/-- Both Chernoff tails of a KMV with `k` at relative error `eps`. -/
noncomputable def kmvFailureProbability (k : Nat) (eps : ℝ) : ℝ :=
  if k < kmvMinK ∨ ¬0 < eps then 1
  else
    let ranks : ℝ := (k - 1 : Nat)
    let overshoot := Real.exp (-eps * eps * ranks / ((1 + eps) * (2 + eps)))
    let under := if eps < 1 then Real.exp (-eps * eps * ranks / (2 * (1 - eps))) else 0
    min ((overshoot + under) * roundedUp) 1

noncomputable def kmvGuarantee (explain : Explain) (algorithm : SketchAlgorithm)
    (params : SketchParams) (query : SketchStatistic) : Option (AccuracyGuarantee ℝ) :=
  match params with
  | .kmv k relativeError =>
    let eps := relativeError.getD (1 / √(max (k - 2) 1 : Nat))
    some (boundedGuarantee explain algorithm params query .relative eps
      (.constant (kmvFailureProbability k eps)) "kmv_exact_below_k_chernoff_v1")
  | _ => none

/-- The smallest `k` in `[low, high]` that fails no more often than `delta`, by bisection. -/
noncomputable def kmvSearch (eps delta : ℝ) (low high : Nat) : Nat :=
  if low < high then
    let mid := low + (high - low) / 2
    if kmvFailureProbability mid eps ≤ delta then kmvSearch eps delta low mid
    else kmvSearch eps delta (mid + 1) high
  else high
termination_by high - low
decreasing_by all_goals omega

noncomputable def kmvK (eps delta : ℝ) : Nat :=
  if ¬(0 < eps ∧ 0 < delta) then kmvMaxK
  else
    let kAt (lnInverse : ℝ) : Nat :=
      saturatingCeil (1 + (1 + eps) * (2 + eps) * lnInverse / (eps * eps)) kmvMinK kmvMaxK
    let low := kAt (Real.log (1 / delta))
    let high := kAt (Real.log (2 / delta))
    if delta < kmvFailureProbability high eps then kmvMaxK else kmvSearch eps delta low high

theorem roundedUp_pos : 0 < roundedUp := by norm_num [roundedUp]

theorem one_le_roundedUp : 1 ≤ roundedUp := by norm_num [roundedUp]

theorem kmvFailureProbability_nonneg (k : Nat) (eps : ℝ) : 0 ≤ kmvFailureProbability k eps := by
  unfold kmvFailureProbability
  split
  · exact zero_le_one
  · refine le_min (mul_nonneg (add_nonneg (Real.exp_nonneg _) ?_) roundedUp_pos.le) zero_le_one
    split
    · exact Real.exp_nonneg _
    · exact le_refl 0

theorem kmvFailureProbability_le_one (k : Nat) (eps : ℝ) : kmvFailureProbability k eps ≤ 1 := by
  unfold kmvFailureProbability
  split
  · exact le_refl 1
  · exact min_le_right _ _

theorem kmvFailureProbability_antitone {k k' : Nat} (le : k ≤ k') (eps : ℝ) :
    kmvFailureProbability k' eps ≤ kmvFailureProbability k eps := by
  by_cases none : k < kmvMinK ∨ ¬0 < eps
  · exact (kmvFailureProbability_le_one k' eps).trans (by rw [kmvFailureProbability, if_pos none])
  have none' : ¬(k' < kmvMinK ∨ ¬0 < eps) := by
    rw [not_or, not_not] at none ⊢
    exact ⟨fun few => none.1 (lt_of_le_of_lt le few), none.2⟩
  have positive : 0 < eps := not_not.mp (not_or.mp none).2
  have ranks : ((k - 1 : Nat) : ℝ) ≤ (k' - 1 : Nat) := Nat.cast_le.mpr (Nat.sub_le_sub_right le 1)
  -- Either exponent falls with the ranks.
  have falls : ∀ scale : ℝ, 0 < scale → Real.exp (-eps * eps * (k' - 1 : Nat) / scale) ≤
      Real.exp (-eps * eps * (k - 1 : Nat) / scale) := by
    intro scale above
    refine Real.exp_le_exp.mpr (div_le_div_of_nonneg_right ?_ above.le)
    linarith [mul_le_mul_of_nonneg_left ranks (mul_pos positive positive).le]
  rw [kmvFailureProbability, kmvFailureProbability, if_neg none, if_neg none']
  refine min_le_min_right 1 (mul_le_mul_of_nonneg_right (add_le_add (falls _ (by positivity)) ?_)
    roundedUp_pos.le)
  split
  · rename_i below
    exact falls _ (mul_pos two_pos (sub_pos.mpr below))
  · exact le_refl 0

theorem kmvSearch_le {eps delta : ℝ} {low high : Nat} : kmvSearch eps delta low high ≤ high := by
  induction low, high using kmvSearch.induct eps delta with
  | case1 low high more mid small ih =>
    rw [kmvSearch, if_pos more, if_pos small]
    exact ih.trans (by show low + (high - low) / 2 ≤ high; omega)
  | case2 low high more mid large ih =>
    rw [kmvSearch, if_pos more, if_neg large]
    exact ih
  | case3 low high done => rw [kmvSearch, if_neg done]

theorem kmvK_le {eps delta : ℝ} {n : Nat} (positive : 0 < eps) (one : eps < 1) (some : 0 < delta)
    (small : delta ≤ 9 / 10) (apart : 4 * (1 - eps) ≤ (1 + eps) * (2 + eps))
    (bound : 1 + (1 + eps) * (2 + eps) * Real.log (2 / delta) / (eps * eps) ≤ n)
    (least : kmvMinK ≤ n) (fits : n < kmvMaxK) : kmvK eps delta ≤ n := by
  have logarithm : 0 < Real.log (2 / delta) := Real.log_pos (by rw [lt_div_iff₀ some]; linarith)
  have squared : 0 < eps * eps := mul_pos positive positive
  have scale : 0 < (1 + eps) * (2 + eps) := by positivity
  have argument : 0 < 1 + (1 + eps) * (2 + eps) * Real.log (2 / delta) / (eps * eps) := by positivity
  obtain ⟨k, defined⟩ : ∃ k, saturatingCeil
      (1 + (1 + eps) * (2 + eps) * Real.log (2 / delta) / (eps * eps)) kmvMinK kmvMaxK = k := ⟨_, rfl⟩
  have high : k ≤ n := defined ▸ saturatingCeil_le argument bound least
  have two : kmvMinK ≤ k := defined ▸ low_le_saturatingCeil (by decide)
  have reach : 1 + (1 + eps) * (2 + eps) * Real.log (2 / delta) / (eps * eps) ≤ k := by
    rw [← defined]
    exact le_saturatingCeil (defined ▸ high.trans_lt fits) (by decide)
  rw [kmvK, if_neg (not_not.mpr ⟨positive, some⟩)]
  simp only [defined]
  rw [if_neg ?_]
  · exact kmvSearch_le.trans high
  have ranks : (1 + eps) * (2 + eps) * Real.log (2 / delta) ≤ eps * eps * (k - 1 : Nat) := by
    rw [Nat.cast_sub (one_le_two.trans two), Nat.cast_one, mul_comm (eps * eps), ← div_le_iff₀ squared]
    linarith
  have half : Real.exp (-Real.log (2 / delta)) = delta / 2 := by
    rw [Real.exp_neg, Real.exp_log (by positivity), inv_div]
  have overshoot : Real.exp (-eps * eps * (k - 1 : Nat) / ((1 + eps) * (2 + eps))) ≤ delta / 2 := by
    rw [← half]
    refine Real.exp_le_exp.mpr ?_
    rw [div_le_iff₀ scale]
    linarith
  have under : Real.exp (-eps * eps * (k - 1 : Nat) / (2 * (1 - eps))) ≤ (delta / 2) ^ 2 := by
    rw [← half, ← Real.exp_nat_mul]
    refine Real.exp_le_exp.mpr ?_
    rw [div_le_iff₀ (mul_pos two_pos (sub_pos.mpr one))]
    have stretched := mul_le_mul_of_nonneg_right apart logarithm.le
    push_cast
    linarith
  rw [kmvFailureProbability, if_neg (not_or.mpr ⟨not_lt.mpr two, not_not.mpr positive⟩)]
  simp only [if_pos one]
  rw [not_lt]
  refine (min_le_left _ _).trans ?_
  have sum := add_le_add overshoot under
  have squares : (delta / 2) ^ 2 ≤ delta / 2 * (9 / 20) := by
    rw [sq]
    exact mul_le_mul_of_nonneg_left (by linarith) (by linarith)
  calc _ ≤ delta / 2 * (29 / 20) * roundedUp :=
        mul_le_mul_of_nonneg_right (by linarith) roundedUp_pos.le
    _ ≤ delta := by
        rw [roundedUp]
        linarith

end AsapPlanner.Estimators
