import Mathlib.Algebra.Order.BigOperators.Group.List
import Mathlib.Algebra.Order.Field.Basic

/-!
Symbolic error bounds and failure probabilities with exact numbers for the `f64`s.
-/

namespace AsapPlanner.Accuracy

/-- A symbolic error bound; `unknown` names a statistic nothing has supplied. -/
inductive BoundExpr (K : Type)
  | zero
  | constant (value : K)
  | sum (terms : List (BoundExpr K))
  | product (factors : List (BoundExpr K))
  | scaled (factor : K) (inner : BoundExpr K)
  | max (terms : List (BoundExpr K))
  | unknown (statistic : String)

/-- A symbolic failure probability. -/
inductive ProbabilityExpr (K : Type)
  | zero
  | constant (value : K)
  | unionBound (terms : List (ProbabilityExpr K))
  | scaled (count : BoundExpr K) (inner : ProbabilityExpr K)
  | unknown (statistic : String)

section
variable {K : Type} [Field K] [LinearOrder K]

/-! ### Evaluation -/

def nonNegative (value : Option K) : Option K := value.filter (0 ≤ ·)

@[simp] theorem nonNegative_eq_some {value : Option K} {e : K} :
    nonNegative value = some e ↔ value = some e ∧ 0 ≤ e := by
  rw [nonNegative, Option.filter_eq_some_iff, decide_eq_true_eq]

mutual
def BoundExpr.evaluate : BoundExpr K → Option K
  | .zero => nonNegative (some 0)
  | .constant value => nonNegative (some value)
  | .sum terms => nonNegative ((BoundExpr.evaluateAll terms).map List.sum)
  | .product factors => nonNegative ((BoundExpr.evaluateAll factors).map List.prod)
  | .scaled factor inner => nonNegative (inner.evaluate.map (factor * ·))
  | .max terms => nonNegative ((BoundExpr.evaluateAll terms).map (List.foldl Max.max 0))
  | .unknown _ => none

def BoundExpr.evaluateAll : List (BoundExpr K) → Option (List K)
  | [] => some []
  | term :: rest =>
    match term.evaluate, BoundExpr.evaluateAll rest with
    | some value, some values => some (value :: values)
    | _, _ => none
end

/-- `f64::clamp(0.0, 1.0)`. -/
def clamp (raw : K) : K := max 0 (min raw 1)

mutual
def ProbabilityExpr.evaluate : ProbabilityExpr K → Option K
  | .zero => some (clamp 0)
  | .constant value => if 0 ≤ value ∧ value ≤ 1 then some (clamp value) else none
  | .unionBound terms => (ProbabilityExpr.evaluateAll terms).map fun values => clamp values.sum
  | .scaled count inner =>
    match count.evaluate, inner.evaluate with
    | some count, some each => some (clamp (count * each))
    | _, _ => none
  | .unknown _ => none

def ProbabilityExpr.evaluateAll : List (ProbabilityExpr K) → Option (List K)
  | [] => some []
  | term :: rest =>
    match term.evaluate, ProbabilityExpr.evaluateAll rest with
    | some value, some values => some (value :: values)
    | _, _ => none
end

/-! ### Binding statistics -/

mutual
/-- The bound with the statistics `value` supplies in place. -/
def BoundExpr.bind (value : String → Option K) : BoundExpr K → BoundExpr K
  | .zero => .zero
  | .constant number => .constant number
  | .sum terms => .sum (BoundExpr.bindAll value terms)
  | .product factors => .product (BoundExpr.bindAll value factors)
  | .max terms => .max (BoundExpr.bindAll value terms)
  | .scaled factor inner => .scaled factor (inner.bind value)
  | .unknown statistic =>
    match value statistic with
    | some supplied => .constant supplied
    | none => .unknown statistic

def BoundExpr.bindAll (value : String → Option K) : List (BoundExpr K) → List (BoundExpr K)
  | [] => []
  | term :: rest => term.bind value :: BoundExpr.bindAll value rest
end

mutual
def ProbabilityExpr.bind (value : String → Option K) : ProbabilityExpr K → ProbabilityExpr K
  | .zero => .zero
  | .constant number => .constant number
  | .unionBound terms => .unionBound (ProbabilityExpr.bindAll value terms)
  | .scaled count inner => .scaled (count.bind value) (inner.bind value)
  | .unknown statistic =>
    match value statistic with
    | some supplied => .constant supplied
    | none => .unknown statistic

def ProbabilityExpr.bindAll (value : String → Option K) :
    List (ProbabilityExpr K) → List (ProbabilityExpr K)
  | [] => []
  | term :: rest => term.bind value :: ProbabilityExpr.bindAll value rest
end

/-! ### What evaluation gives -/

theorem clamp_zero : clamp (0 : K) = 0 := max_eq_left (min_le_left _ _)

variable [IsStrictOrderedRing K]

theorem one_le_clamp {raw : K} : 1 ≤ clamp raw ↔ 1 ≤ raw := by
  rw [clamp, le_max_iff, le_min_iff]
  exact ⟨fun large => (large.resolve_left (not_le.mpr one_pos)).1, fun large => .inr ⟨large, le_refl 1⟩⟩

omit [IsStrictOrderedRing K] in
theorem clamp_eq_self {raw : K} (nonneg : 0 ≤ raw) (one : raw ≤ 1) : clamp raw = raw := by
  rw [clamp, min_eq_left one, max_eq_right nonneg]

end

end AsapPlanner.Accuracy
