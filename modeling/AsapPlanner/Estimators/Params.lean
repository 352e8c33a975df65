import AsapPlanner.Accuracy.Guarantee
import AsapPlanner.Ir.OperatorProperties
import Mathlib.Algebra.Order.Archimedean.Real.Basic
import Mathlib.Algebra.Order.Floor.Semiring

/-!
Sketch parameters with real numbers for the `f64`s, and the guarantee they state.
-/

namespace AsapPlanner.Estimators
open Accuracy Rust
open Ir (AccuracyMetric SketchAlgorithm SketchStatistic)

-- Named, so that a bound names what its constants rest on.
scoped instance atLeastTwoTwo : Nat.AtLeastTwo 2 := ⟨by decide⟩
scoped instance atLeastTwoThree : Nat.AtLeastTwo 3 := ⟨by decide⟩
scoped instance atLeastTwoFour : Nat.AtLeastTwo 4 := ⟨by decide⟩
scoped instance atLeastTwoTen : Nat.AtLeastTwo 10 := ⟨by decide⟩

inductive SketchParams
  | univMon (heapSize sketchRows sketchCols layers : Nat) (distinctFailureProbability : Option ℝ)
  | kll (k : Nat) (failureProbability : Option ℝ)
  | cms (width depth : Nat)
  | hll (precision : Nat) (relativeError : Option ℝ)
  | ddSketch (alpha : ℝ)
  | cmsWithHeap (width depth heapSize : Nat)
  | kmv (k : Nat) (relativeError : Option ℝ)
  | countSketch (width depth : Nat)
  | countSketchWithHeap (width depth heapSize : Nat)

/-- How parameters serialize and a statistic prints in a guarantee's explanation. -/
structure Explain where
  params : SketchParams → Json
  query : SketchStatistic → String

noncomputable def boundedGuarantee (explain : Explain) (algorithm : SketchAlgorithm)
    (params : SketchParams) (query : SketchStatistic) (metric : AccuracyMetric) (bound : ℝ)
    (delta : ProbabilityExpr ℝ) (contract : String) : AccuracyGuarantee ℝ :=
  .new metric (.constant bound) delta
    [.sketchEvaluation algorithm.name contract (explain.params params) (explain.query query)]

/-- The largest `u32`. -/
def maxU32 : Nat := 2 ^ 32 - 1

/-- `⌈x⌉` clamped to `[low, high]`; a value that is not positive saturates to `high`. -/
noncomputable def saturatingCeil (x : ℝ) (low high : Nat) : Nat :=
  if x ≤ 0 then high else max low (min (min ⌈x⌉₊ maxU32) high)

section
variable {x : ℝ} {low high : Nat}

theorem le_saturatingCeil (below : saturatingCeil x low high < high) (fits : high ≤ maxU32) :
    x ≤ saturatingCeil x low high := by
  unfold saturatingCeil at below ⊢
  split at below
  · exact absurd below (lt_irrefl high)
  · rename_i positive
    rw [if_neg positive]
    have unclamped : ⌈x⌉₊ ≤ max low (min (min ⌈x⌉₊ maxU32) high) := by omega
    exact (Nat.le_ceil x).trans (Nat.cast_le.mpr unclamped)

theorem low_le_saturatingCeil (ordered : low ≤ high) : low ≤ saturatingCeil x low high := by
  unfold saturatingCeil
  split
  · exact ordered
  · exact le_max_left _ _

theorem saturatingCeil_eq {n : Nat} (some : 0 < n) (above : ((n - 1 : Nat) : ℝ) < x) (le : x ≤ n)
    (least : low ≤ n) (most : n ≤ high) (fits : high ≤ maxU32) : saturatingCeil x low high = n := by
  have ceil : ⌈x⌉₊ = n := (Nat.ceil_eq_iff some.ne').mpr ⟨above, le⟩
  have positive : 0 < x := (Nat.cast_nonneg _).trans_lt above
  rw [saturatingCeil, if_neg (not_le.mpr positive), ceil]
  omega

theorem saturatingCeil_le {n : Nat} (positive : 0 < x) (le : x ≤ n) (least : low ≤ n) :
    saturatingCeil x low high ≤ n := by
  have ceil : ⌈x⌉₊ ≤ n := Nat.ceil_le.mpr le
  rw [saturatingCeil, if_neg (not_le.mpr positive)]
  omega

end

/-- The smaller of two recorded values; an unrecorded one yields to a recorded one. -/
noncomputable def minRecorded : Option ℝ → Option ℝ → Option ℝ
  | some a, some b => some (min a b)
  | a, b => a.or b

theorem boundedGuarantee_bounds {explain : Explain} {algorithm : SketchAlgorithm}
    {params : SketchParams} {query : SketchStatistic} {metric : AccuracyMetric} {e d : ℝ}
    {contract : String} (error : 0 ≤ e) (nonneg : 0 ≤ d) (one : d ≤ 1) :
    (boundedGuarantee explain algorithm params query metric e (.constant d) contract).Bounds e d := by
  constructor
  · exact nonNegative_eq_some.mpr ⟨rfl, error⟩
  · simp [boundedGuarantee, ProbabilityExpr.evaluate, nonneg, one, clamp_eq_self]

end AsapPlanner.Estimators
