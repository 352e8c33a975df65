import Mathlib.Algebra.Order.BigOperators.Group.List
import Mathlib.Data.Rat.Defs
import Mathlib.Algebra.Order.Ring.Rat
import Mathlib.Algebra.BigOperators.Ring.List
import Mathlib.Tactic.Linarith
import Mathlib.Tactic.Ring

/-!
Linear expressions and constraints over rational values, and sums of variables that are zero or one.
-/

namespace AsapPlanner.Milp

/-- A sum of variables with coefficients, and a constant. -/
structure Expression (V : Type) where
  terms : List (ℚ × V)
  constant : ℚ

namespace Expression
variable {V : Type}

def eval (value : V → ℚ) (e : Expression V) : ℚ :=
  (e.terms.map fun term => term.1 * value term.2).sum + e.constant

def const (c : ℚ) : Expression V := ⟨[], c⟩

def sum (columns : List V) : Expression V := ⟨columns.map fun v => (1, v), 0⟩

def var (v : V) : Expression V := sum [v]

def scale (c : ℚ) (e : Expression V) : Expression V :=
  ⟨e.terms.map fun term => (c * term.1, term.2), c * e.constant⟩

instance : Add (Expression V) := ⟨fun a b => ⟨a.terms ++ b.terms, a.constant + b.constant⟩⟩

instance : Sub (Expression V) := ⟨fun a b => a + b.scale (-1)⟩

variable (value : V → ℚ)

@[simp] theorem eval_const (c : ℚ) : (const c : Expression V).eval value = c := by
  simp [const, eval]

@[simp] theorem eval_sum (columns : List V) :
    (sum columns).eval value = (columns.map value).sum := by
  simp [sum, eval, Function.comp_def]

@[simp] theorem eval_var (v : V) : (var v).eval value = value v := by simp [var]

@[simp] theorem eval_add (a b : Expression V) : (a + b).eval value = a.eval value + b.eval value := by
  show (((a.terms ++ b.terms).map _).sum + (a.constant + b.constant)) = _
  rw [List.map_append, List.sum_append, eval, eval]
  ring

@[simp] theorem eval_scale (c : ℚ) (e : Expression V) : (e.scale c).eval value = c * e.eval value := by
  rw [eval, eval, mul_add, ← List.sum_map_mul_left]
  simp [scale, Function.comp_def, mul_assoc]

@[simp] theorem eval_sub (a b : Expression V) : (a - b).eval value = a.eval value - b.eval value := by
  show (a + b.scale (-1)).eval value = _
  rw [eval_add, eval_scale]
  ring

end Expression

inductive Constraint (V : Type)
  | le (left right : Expression V)
  | eq (left right : Expression V)

namespace Constraint
variable {V : Type}

def ge (left right : Expression V) : Constraint V := .le right left

def Holds (value : V → ℚ) : Constraint V → Prop
  | le left right => left.eval value ≤ right.eval value
  | eq left right => left.eval value = right.eval value

instance (value : V → ℚ) : (constraint : Constraint V) → Decidable (constraint.Holds value)
  | le left right => inferInstanceAs (Decidable (left.eval value ≤ right.eval value))
  | eq left right => inferInstanceAs (Decidable (left.eval value = right.eval value))

end Constraint

/-! ### Sums of zeros and ones -/

section
variable {V : Type} {value : V → ℚ}

def Binary (x : ℚ) : Prop := x = 0 ∨ x = 1

theorem Binary.ite (p : Prop) [Decidable p] : Binary (if p then 1 else 0) := by
  by_cases here : p
  · exact .inr (if_pos here)
  · exact .inl (if_neg here)

theorem Binary.eq_one {x : ℚ} (binary : Binary x) (above : 1 ≤ x) : x = 1 := by
  rcases binary with rfl | rfl
  · exact absurd above (by norm_num)
  · rfl

theorem Binary.nonneg {x : ℚ} (binary : Binary x) : 0 ≤ x := by
  rcases binary with rfl | rfl <;> norm_num

theorem Binary.le_one {x : ℚ} (binary : Binary x) : x ≤ 1 := by
  rcases binary with rfl | rfl <;> norm_num

theorem sum_nonneg {columns : List V} (binary : ∀ v ∈ columns, Binary (value v)) :
    0 ≤ (columns.map value).sum := by
  apply List.sum_nonneg
  intro x member
  obtain ⟨v, here, rfl⟩ := List.mem_map.mp member
  exact (binary v here).nonneg

theorem le_sum {columns : List V} (binary : ∀ v ∈ columns, Binary (value v)) {v : V}
    (member : v ∈ columns) : value v ≤ (columns.map value).sum := by
  obtain ⟨before, after, rfl⟩ := List.append_of_mem member
  have early := sum_nonneg fun u here => binary u (List.mem_append_left _ here)
  have late := sum_nonneg fun u here =>
    binary u (List.mem_append_right _ (List.mem_cons_of_mem _ here))
  simp only [List.map_append, List.map_cons, List.sum_append, List.sum_cons]
  linarith

theorem exists_one {columns : List V} (binary : ∀ v ∈ columns, Binary (value v))
    (above : 1 ≤ (columns.map value).sum) : ∃ v ∈ columns, value v = 1 := by
  by_contra none
  have zero : ∀ x ∈ columns.map value, x = 0 := by
    intro x member
    obtain ⟨v, here, rfl⟩ := List.mem_map.mp member
    exact (binary v here).resolve_right fun one => none ⟨v, here, one⟩
  rw [List.sum_eq_zero zero] at above
  norm_num at above

theorem sum_le_one {columns : List V} (distinct : columns.Nodup)
    (binary : ∀ v ∈ columns, Binary (value v))
    (one : ∀ u ∈ columns, ∀ v ∈ columns, value u = 1 → value v = 1 → u = v) :
    (columns.map value).sum ≤ 1 := by
  induction columns with
  | nil => norm_num
  | cons first rest ih =>
    obtain ⟨absent, distinct⟩ := List.nodup_cons.mp distinct
    rw [List.map_cons, List.sum_cons]
    rcases binary first List.mem_cons_self with zero | here
    · rw [zero, zero_add]
      exact ih distinct (fun v member => binary v (List.mem_cons_of_mem _ member))
        fun u uHere v vHere => one u (List.mem_cons_of_mem _ uHere) v (List.mem_cons_of_mem _ vHere)
    · have others : ∀ x ∈ rest.map value, x = 0 := by
        intro x member
        obtain ⟨v, listed, rfl⟩ := List.mem_map.mp member
        refine (binary v (List.mem_cons_of_mem _ listed)).resolve_right fun there => absent ?_
        rw [one first List.mem_cons_self v (List.mem_cons_of_mem _ listed) here there]
        exact listed
      rw [List.sum_eq_zero others, here, add_zero]

theorem one_of_sum_le {columns : List V} (binary : ∀ v ∈ columns, Binary (value v))
    (below : (columns.map value).sum ≤ 1) {u v : V} (uHere : u ∈ columns) (vHere : v ∈ columns)
    (uOne : value u = 1) (vOne : value v = 1) : u = v := by
  by_contra apart
  obtain ⟨before, after, rfl⟩ := List.append_of_mem uHere
  have early : ∀ w ∈ before, Binary (value w) := fun w here => binary w (List.mem_append_left _ here)
  have late : ∀ w ∈ after, Binary (value w) := fun w here =>
    binary w (List.mem_append_right _ (List.mem_cons_of_mem _ here))
  have total : (before.map value).sum + (1 + (after.map value).sum) ≤ 1 := by
    simpa [uOne] using below
  have earlySum := sum_nonneg early
  have lateSum := sum_nonneg late
  rcases List.mem_append.mp vHere with here | here
  · have one := le_sum early here
    linarith
  · rcases List.mem_cons.mp here with same | here
    · exact apart same.symm
    · have one := le_sum late here
      linarith

end
end AsapPlanner.Milp
