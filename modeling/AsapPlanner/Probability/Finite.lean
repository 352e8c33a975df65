import Mathlib.Algebra.BigOperators.Intervals
import Mathlib.Algebra.Order.BigOperators.Ring.Finset
import Mathlib.Data.Nat.Choose.Sum
import Mathlib.Tactic.Linarith
import Mathlib.Tactic.Ring
import Mathlib.Algebra.BigOperators.Field
import Mathlib.Algebra.Order.BigOperators.Group.List
import Mathlib.Algebra.Order.Field.Basic

/-!
Upper tails of a binomial law, and the median of an odd number of trials.
-/

namespace AsapPlanner.Probability

section
variable {K : Type} [Field K] (p : K)

/-- The probability of `i` successes in `n` trials. -/
def binomialMass (n i : Nat) : K := n.choose i * p ^ i * (1 - p) ^ (n - i)

/-- The probability of at least `k` successes in `n` trials. -/
def upperTail (n k : Nat) : K :=
  ∑ i ∈ Finset.range (n + 1), if k ≤ i then binomialMass p n i else 0

theorem binomialMass_of_lt {n i : Nat} (outside : n < i) : binomialMass p n i = 0 := by
  simp [binomialMass, Nat.choose_eq_zero_of_lt outside]

theorem binomialMass_succ (n i : Nat) :
    binomialMass p (n + 1) (i + 1) = p * binomialMass p n i + (1 - p) * binomialMass p n (i + 1) := by
  rcases Nat.lt_or_ge i n with inside | outside
  · have fewer : n - i = n - (i + 1) + 1 := by omega
    simp only [binomialMass, Nat.choose_succ_succ, Nat.cast_add, Nat.add_sub_add_right, fewer]
    ring
  · rw [binomialMass_of_lt p (Nat.lt_succ_of_le outside), mul_zero, add_zero]
    rcases Nat.eq_or_lt_of_le outside with rfl | beyond
    · simp only [binomialMass, Nat.choose_self, Nat.sub_self]
      ring
    · rw [binomialMass_of_lt p beyond, binomialMass_of_lt p (Nat.succ_lt_succ beyond), mul_zero]

theorem upperTail_succ (n k : Nat) :
    upperTail p (n + 1) (k + 1) = p * upperTail p n k + (1 - p) * upperTail p n (k + 1) := by
  have shifted : upperTail p n (k + 1) =
      ∑ i ∈ Finset.range (n + 1), if k ≤ i then binomialMass p n (i + 1) else 0 := by
    have wider : upperTail p n (k + 1) =
        ∑ i ∈ Finset.range (n + 1 + 1), if k + 1 ≤ i then binomialMass p n i else 0 := by
      rw [Finset.sum_range_succ, binomialMass_of_lt p (Nat.lt_succ_self n), ite_self, add_zero]
      rfl
    rw [wider, Finset.sum_range_succ']
    simp
  have larger : upperTail p (n + 1) (k + 1) =
      ∑ i ∈ Finset.range (n + 1), if k ≤ i then binomialMass p (n + 1) (i + 1) else 0 := by
    rw [upperTail, Finset.sum_range_succ']
    simp
  rw [shifted, larger, upperTail, Finset.mul_sum, Finset.mul_sum, ← Finset.sum_add_distrib]
  refine Finset.sum_congr rfl fun i _ => ?_
  split
  · exact binomialMass_succ p n i
  · simp

theorem upperTail_eq_add {n k : Nat} (inside : k ≤ n) :
    upperTail p n k = binomialMass p n k + upperTail p n (k + 1) := by
  have present : k ∈ Finset.range (n + 1) := Finset.mem_range.mpr (Nat.lt_succ_of_le inside)
  rw [upperTail, upperTail, ← Finset.sum_erase_add _ _ present,
    ← Finset.sum_erase_add (Finset.range (n + 1)) (fun i => if k + 1 ≤ i then _ else _) present,
    if_pos (le_refl k), if_neg (Nat.not_succ_le_self k), add_zero, add_comm]
  congr 1
  refine Finset.sum_congr rfl fun i member => ?_
  have other := Finset.ne_of_mem_erase member
  have same : k ≤ i ↔ k + 1 ≤ i := by omega
  simp only [same]

/-- The chance that most of `2j + 1` trials succeed. -/
def majority (j : Nat) : K := upperTail p (2 * j + 1) (j + 1)

theorem majority_zero : majority p 0 = p := by
  simp [majority, upperTail, Finset.sum_range_succ, binomialMass]

variable [LinearOrder K] [IsStrictOrderedRing K] {p}

theorem binomialMass_nonneg (nonneg : 0 ≤ p) (one : p ≤ 1) (n i : Nat) : 0 ≤ binomialMass p n i :=
  mul_nonneg (mul_nonneg (Nat.cast_nonneg _) (pow_nonneg nonneg _)) (pow_nonneg (sub_nonneg.mpr one) _)

theorem upperTail_nonneg (nonneg : 0 ≤ p) (one : p ≤ 1) (n k : Nat) : 0 ≤ upperTail p n k := by
  refine Finset.sum_nonneg fun i _ => ?_
  split
  · exact binomialMass_nonneg nonneg one n i
  · exact le_refl 0

theorem majority_succ_le (nonneg : 0 ≤ p) (half : p ≤ 1 - p) (j : Nat) :
    majority p (j + 1) ≤ majority p j := by
  have two : majority p (j + 1) = majority p j +
      (p ^ 2 * binomialMass p (2 * j + 1) j - (1 - p) ^ 2 * binomialMass p (2 * j + 1) (j + 1)) := by
    have last := upperTail_succ p (2 * j + 1 + 1) (j + 1)
    have won := upperTail_succ p (2 * j + 1) j
    have lost := upperTail_succ p (2 * j + 1) (j + 1)
    have few := upperTail_eq_add p (n := 2 * j + 1) (k := j) (by omega)
    have most := upperTail_eq_add p (n := 2 * j + 1) (k := j + 1) (by omega)
    rw [majority, majority, Nat.mul_succ, last, won, lost, few, most]
    ring
  have gap : p ^ 2 * binomialMass p (2 * j + 1) j - (1 - p) ^ 2 * binomialMass p (2 * j + 1) (j + 1) =
      (2 * j + 1).choose j * (p * (1 - p)) ^ (j + 1) * (p - (1 - p)) := by
    have left : 2 * j + 1 - j = j + 1 := by omega
    have right : 2 * j + 1 - (j + 1) = j := by omega
    simp only [binomialMass, Nat.choose_symm_half, left, right, mul_pow]
    ring
  have positive : 0 ≤ (2 * j + 1).choose j * (p * (1 - p)) ^ (j + 1) :=
    mul_nonneg (Nat.cast_nonneg _) (pow_nonneg (mul_nonneg nonneg (nonneg.trans half)) _)
  rw [two, gap]
  linarith [mul_nonpos_of_nonneg_of_nonpos positive (sub_nonpos.mpr half)]

theorem majority_antitone (nonneg : 0 ≤ p) (half : p ≤ 1 - p) : Antitone (majority p) :=
  antitone_nat_of_succ_le (majority_succ_le nonneg half)

end

end AsapPlanner.Probability
