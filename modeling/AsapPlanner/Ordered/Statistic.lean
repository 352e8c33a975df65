import Mathlib.Order.MinMax

/-!
The largest entry of a list.
-/

namespace AsapPlanner.Ordered

variable {α : Type} [LinearOrder α]

theorem foldl_max_le {values : List α} {start bound : α} :
    values.foldl max start ≤ bound ↔ start ≤ bound ∧ ∀ value ∈ values, value ≤ bound := by
  induction values generalizing start with
  | nil => simp
  | cons value rest ih => rw [List.foldl_cons, ih, max_le_iff, List.forall_mem_cons, and_assoc]

theorem foldl_max_mem (values : List α) (start : α) :
    values.foldl max start = start ∨ values.foldl max start ∈ values := by
  induction values generalizing start with
  | nil => exact .inl rfl
  | cons value rest ih =>
    rw [List.foldl_cons]
    rcases ih (max start value) with same | inside
    · rcases max_choice start value with first | second
      · exact .inl (same.trans first)
      · exact .inr (List.mem_cons.mpr (.inl (same.trans second)))
    · exact .inr (List.mem_cons_of_mem _ inside)

end AsapPlanner.Ordered
