import AsapPlanner.Estimators.Params
import AsapPlanner.Estimators.Cardinality
import AsapPlanner.Probability.Finite
import Mathlib.Analysis.SpecialFunctions.Log.Basic

/-!
Count-Min's L1 frequency error and DDSketch's relative value error. Count Sketch's L2 frequency error,
and the median of an odd number of rows.
-/

namespace AsapPlanner.Estimators
open Accuracy Probability
open Ir (SketchAlgorithm SketchStatistic)

def cmsMaxWidth : Nat := 2 ^ 26
def cmsMaxDepth : Nat := 32

/-- The share of the stream a count misses by. -/
noncomputable def cmsError (width : Nat) : ℝ := Real.exp 1 / width

noncomputable def cmsFailureProbability (depth : Nat) : ℝ := Real.exp (-depth)

noncomputable def cmsBounded (explain : Explain) (algorithm : SketchAlgorithm) (params : SketchParams)
    (query : SketchStatistic) (width depth : Nat) : AccuracyGuarantee ℝ :=
  boundedGuarantee explain algorithm params query (.absolute (some .streamL1)) (cmsError width)
    (.constant (cmsFailureProbability depth)) "count_min_l1_markov_v1"

noncomputable def cmsGuarantee (explain : Explain) (algorithm : SketchAlgorithm)
    (params : SketchParams) (query : SketchStatistic) : Option (AccuracyGuarantee ℝ) :=
  match params with
  | .cms width depth => some (cmsBounded explain algorithm params query width depth)
  | .cmsWithHeap width depth _ => some (cmsBounded explain algorithm params query width depth)
  | _ => none

/-- Over-count at most `ε · N` with `⌈e/ε⌉` columns. -/
noncomputable def cmsWidth (eps : ℝ) : Nat := saturatingCeil (Real.exp 1 / eps) 2 cmsMaxWidth

/-- Failure probability at most `δ` with `⌈ln(1/δ)⌉` rows. -/
noncomputable def cmsDepth (delta : ℝ) : Nat := saturatingCeil (Real.log (1 / delta)) 1 cmsMaxDepth

theorem cmsError_nonneg (width : Nat) : 0 ≤ cmsError width :=
  div_nonneg (Real.exp_nonneg 1) width.cast_nonneg

theorem cmsFailureProbability_mem (depth : Nat) :
    0 ≤ cmsFailureProbability depth ∧ cmsFailureProbability depth ≤ 1 :=
  ⟨Real.exp_nonneg _, Real.exp_le_one_iff.mpr (neg_nonpos.mpr depth.cast_nonneg)⟩

theorem cmsError_le {eps : ℝ} (positive : 0 < eps) (below : cmsWidth eps < cmsMaxWidth) {width : Nat}
    (wider : cmsWidth eps ≤ width) : cmsError width ≤ eps := by
  have fits := le_saturatingCeil below (by decide)
  have columns : Real.exp 1 / eps ≤ width := fits.trans (Nat.cast_le.mpr wider)
  have some : (0 : ℝ) < width := lt_of_lt_of_le (div_pos (Real.exp_pos 1) positive) columns
  rwa [cmsError, div_le_comm₀ some positive]

theorem cmsFailureProbability_le {delta : ℝ} (positive : 0 < delta)
    (below : cmsDepth delta < cmsMaxDepth) {depth : Nat} (deeper : cmsDepth delta ≤ depth) :
    cmsFailureProbability depth ≤ delta := by
  have fits := le_saturatingCeil below (by decide)
  have rows : Real.log (1 / delta) ≤ depth := fits.trans (Nat.cast_le.mpr deeper)
  rw [one_div, Real.log_inv, neg_le] at rows
  exact (Real.le_log_iff_exp_le positive).mp rows

/-! ### DDSketch -/

noncomputable def ddSketchGuarantee (explain : Explain) (algorithm : SketchAlgorithm)
    (params : SketchParams) (query : SketchStatistic) : Option (AccuracyGuarantee ℝ) :=
  match params with
  | .ddSketch alpha => some (boundedGuarantee explain algorithm params query .relative alpha .zero
      "ddsketch_relative_error_alpha_v1")
  | _ => none

/-! ### Count Sketch -/

/-! ### Binomial tails -/

/-- One term of the tail: the running `ln C(n, i)` and the sum so far. -/
noncomputable def tailStep (n k : Nat) (lnP lnQ : ℝ) (state : ℝ × ℝ) (i : Nat) : ℝ × ℝ :=
  let lnChoose := if 0 < i then state.1 + (Real.log (n - i + 1 : Nat) - Real.log i) else state.1
  (lnChoose,
    if k ≤ i then state.2 + Real.exp (lnChoose + i * lnP + (n - i : Nat) * lnQ) else state.2)

/-- `P(Binomial(n, p) ≥ k)`, summed term by term in log space and rounded up. -/
noncomputable def binomialUpperTail (n : Nat) (p : ℝ) (k : Nat) : ℝ :=
  if k = 0 ∨ 1 ≤ p then 1
  else if n < k ∨ p ≤ 0 then 0
  else
    let sum := (List.range (n + 1)).foldl (tailStep n k (Real.log p) (Real.log (1 - p))) (0, 0)
    min (sum.2 * roundedUp) 1

section
variable {n k : Nat} {p : ℝ}

theorem log_choose_succ {m : Nat} (inside : m < n) :
    Real.log (n.choose m) + (Real.log (n - (m + 1) + 1 : Nat) - Real.log (m + 1 : Nat)) =
      Real.log (n.choose (m + 1)) := by
  have step : (n.choose (m + 1) : ℝ) * (m + 1 : Nat) = n.choose m * (n - (m + 1) + 1 : Nat) := by
    have whole : n - (m + 1) + 1 = n - m := by omega
    rw [whole]
    exact_mod_cast Nat.choose_succ_right_eq n m
  have before : (n.choose m : ℝ) ≠ 0 := Nat.cast_ne_zero.mpr (Nat.choose_pos inside.le).ne'
  have after : (n.choose (m + 1) : ℝ) ≠ 0 := Nat.cast_ne_zero.mpr (Nat.choose_pos inside).ne'
  have left : ((m + 1 : Nat) : ℝ) ≠ 0 := Nat.cast_ne_zero.mpr (Nat.succ_ne_zero m)
  have right : ((n - (m + 1) + 1 : Nat) : ℝ) ≠ 0 := Nat.cast_ne_zero.mpr (Nat.succ_ne_zero _)
  have logs := congrArg Real.log step
  rw [Real.log_mul after left, Real.log_mul before right] at logs
  linarith

theorem exp_term (positive : 0 < p) (below : p < 1) {i : Nat} (inside : i ≤ n) :
    Real.exp (Real.log (n.choose i) + i * Real.log p + (n - i : Nat) * Real.log (1 - p)) =
      binomialMass p n i := by
  have some : (0 : ℝ) < n.choose i := Nat.cast_pos.mpr (Nat.choose_pos inside)
  rw [Real.exp_add, Real.exp_add, Real.exp_log some, Real.exp_nat_mul, Real.exp_nat_mul,
    Real.exp_log positive, Real.exp_log (sub_pos.mpr below), binomialMass]

theorem foldl_tailStep (positive : 0 < p) (below : p < 1) {m : Nat} (inside : m ≤ n) :
    (List.range (m + 1)).foldl (tailStep n k (Real.log p) (Real.log (1 - p))) (0, 0) =
      (Real.log (n.choose m),
        ∑ i ∈ Finset.range (m + 1), if k ≤ i then binomialMass p n i else 0) := by
  induction m with
  | zero =>
    have first := exp_term positive below (Nat.zero_le n)
    rw [Nat.choose_zero_right, Nat.cast_one, Real.log_one, zero_add] at first
    simp only [List.range_one, List.foldl_cons, List.foldl_nil, tailStep, Nat.lt_irrefl, if_false,
      Finset.range_one, Finset.sum_singleton, Nat.choose_zero_right, Nat.cast_one,
      Real.log_one, zero_add, first]
  | succ m ih =>
    have sum := Finset.sum_range_succ (fun i => if k ≤ i then binomialMass p n i else 0) (m + 1)
    rw [List.range_succ, List.foldl_concat, ih (by omega), sum, tailStep]
    simp only [Nat.succ_pos, if_true, log_choose_succ inside, exp_term positive below inside]
    split
    · rfl
    · rw [add_zero]

theorem binomialUpperTail_eq (positive : 0 < p) (below : p < 1) (some : 0 < k) (inside : k ≤ n) :
    binomialUpperTail n p k = min (upperTail p n k * roundedUp) 1 := by
  have regular : ¬(k = 0 ∨ 1 ≤ p) := not_or.mpr ⟨some.ne', not_le.mpr below⟩
  have reached : ¬(n < k ∨ p ≤ 0) := not_or.mpr ⟨not_lt.mpr inside, not_le.mpr positive⟩
  rw [binomialUpperTail, if_neg regular, if_neg reached, foldl_tailStep positive below (le_refl n)]
  rfl

end

/-! ### Count Sketch -/

def countSketchMaxWidth : Nat := 2 ^ 26
def countSketchMaxDepth : Nat := 255

/-- How often two keys share a column: the low 32 hash bits modulo the width. -/
noncomputable def columnCollision (cols : Nat) : ℝ := 1 / (max cols 1 : Nat) + 1 / 2 ^ 32

/-- One row misses by more than `√(3/w)` of the stream's norm. -/
noncomputable def rowFailureProbability (width : Nat) : ℝ :=
  columnCollision width * (max width 1 : Nat) / 3

noncomputable def countSketchFailureProbability (width depth : Nat) : Option ℝ :=
  if depth = 0 ∨ depth % 2 = 0 then none
  else some (binomialUpperTail depth (rowFailureProbability width) ((depth + 1) / 2))

noncomputable def countSketchBounded (explain : Explain) (algorithm : SketchAlgorithm)
    (params : SketchParams) (query : SketchStatistic) (width depth : Nat) :
    Option (AccuracyGuarantee ℝ) :=
  (countSketchFailureProbability width depth).map fun failure =>
    boundedGuarantee explain algorithm params query (.absolute (some .streamL2)) (√(3 / width))
      (.constant failure) "count_sketch_l2_median_binomial_v1"

noncomputable def countSketchGuarantee (explain : Explain) (algorithm : SketchAlgorithm)
    (params : SketchParams) (query : SketchStatistic) : Option (AccuracyGuarantee ℝ) :=
  match params with
  | .countSketch width depth => countSketchBounded explain algorithm params query width depth
  | .countSketchWithHeap width depth _ =>
    countSketchBounded explain algorithm params query width depth
  | _ => none

noncomputable def countSketchWidth (eps : ℝ) : Nat :=
  saturatingCeil (3 / (eps * eps)) 2 countSketchMaxWidth

/-- The smallest odd depth whose median fails no more often than `delta`. -/
noncomputable def countSketchDepth (width : Nat) (delta : ℝ) : Nat :=
  if ¬(0 < delta ∧ delta < 1) then countSketchMaxDepth
  else (((List.range' 1 128 2).find? fun depth =>
    (countSketchFailureProbability width depth).any fun tail => decide (tail ≤ delta))).getD
      countSketchMaxDepth

section
variable {width : Nat}

theorem rowFailureProbability_eq (some : 0 < width) :
    rowFailureProbability width = 1 / 3 + width / (3 * 2 ^ 32) := by
  have columns : (width : ℝ) ≠ 0 := Nat.cast_ne_zero.mpr some.ne'
  rw [rowFailureProbability, columnCollision, max_eq_left (Nat.one_le_iff_ne_zero.mpr some.ne')]
  field_simp

theorem rowFailureProbability_mem (some : 0 < width) (fits : width ≤ countSketchMaxWidth) :
    0 < rowFailureProbability width ∧ rowFailureProbability width ≤ 1 - rowFailureProbability width := by
  have columns : (width : ℝ) ≤ 2 ^ 26 := by exact_mod_cast fits
  have positive : (0 : ℝ) < width := Nat.cast_pos.mpr some
  rw [rowFailureProbability_eq some]
  exact ⟨by positivity, by linarith⟩

theorem countSketchFailureProbability_odd (some : 0 < width) (fits : width ≤ countSketchMaxWidth)
    (j : Nat) : countSketchFailureProbability width (2 * j + 1) =
      .some (min (majority (rowFailureProbability width) j * roundedUp) 1) := by
  obtain ⟨positive, half⟩ := rowFailureProbability_mem some fits
  have odd : ¬(2 * j + 1 = 0 ∨ (2 * j + 1) % 2 = 0) := by omega
  have most : (2 * j + 1 + 1) / 2 = j + 1 := by omega
  rw [countSketchFailureProbability, if_neg odd, most,
    binomialUpperTail_eq positive (by linarith) (Nat.succ_pos j) (by omega), majority]

theorem countSketchDepth_odd (width : Nat) (delta : ℝ) :
    ∃ j, countSketchDepth width delta = 2 * j + 1 := by
  have last : ∃ j, countSketchMaxDepth = 2 * j + 1 := ⟨127, rfl⟩
  unfold countSketchDepth
  split
  · exact last
  · cases found : (List.range' 1 128 2).find? _ with
    | none => exact last
    | some depth =>
      obtain ⟨i, -, rfl⟩ := List.mem_range'.mp (List.mem_of_find?_eq_some found)
      exact ⟨i, Nat.add_comm _ _⟩

theorem sqrt_width_le {eps : ℝ} (positive : 0 < eps) (below : countSketchWidth eps < countSketchMaxWidth)
    (wider : countSketchWidth eps ≤ width) : √(3 / width) ≤ eps := by
  have fits := le_saturatingCeil below (by decide)
  have columns : 3 / (eps * eps) ≤ width := fits.trans (Nat.cast_le.mpr wider)
  have squared : 0 < eps * eps := mul_pos positive positive
  have some : (0 : ℝ) < width := lt_of_lt_of_le (div_pos three_pos squared) columns
  rw [Real.sqrt_le_left positive.le, div_le_comm₀ some (pow_pos positive 2), sq]
  exact columns

end

end AsapPlanner.Estimators
