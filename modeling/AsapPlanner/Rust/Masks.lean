import Mathlib.Algebra.BigOperators.Group.Finset.Basic
import Mathlib.Algebra.BigOperators.Ring.Finset
import Mathlib.Algebra.Order.Group.Int
import Mathlib.Algebra.Ring.Int.Defs
import Mathlib.Data.List.Forall2
import Mathlib.Tactic.Ring

/-!
The sub-lists the bit masks of a list select, and inclusion–exclusion over them.
-/

namespace AsapPlanner.Rust

/-- The items at the positions of `mask`'s set bits. -/
def selected {α : Type} : Nat → List α → List α
  | _, [] => []
  | mask, item :: rest =>
    if mask % 2 = 1 then item :: selected (mask / 2) rest else selected (mask / 2) rest

section
variable {α β : Type}

@[simp] theorem selected_nil (mask : Nat) : selected mask ([] : List α) = [] := by
  cases mask <;> rfl

theorem selected_zero (items : List α) : selected 0 items = [] := by
  induction items with
  | nil => rfl
  | cons item rest ih => simpa [selected] using ih

theorem selected_even (mask : Nat) (item : α) (rest : List α) :
    selected (2 * mask) (item :: rest) = selected mask rest := by
  simp [selected]

theorem selected_odd (mask : Nat) (item : α) (rest : List α) :
    selected (2 * mask + 1) (item :: rest) = item :: selected mask rest := by
  have half : (2 * mask + 1) / 2 = mask := by omega
  simp [selected, half]

theorem mem_of_mem_selected {mask : Nat} {items : List α} {item : α}
    (member : item ∈ selected mask items) : item ∈ items := by
  induction items generalizing mask with
  | nil => simp at member
  | cons head rest ih =>
    unfold selected at member
    split at member
    · rcases List.mem_cons.mp member with rfl | inner
      · exact List.mem_cons_self
      · exact List.mem_cons_of_mem _ (ih inner)
    · exact List.mem_cons_of_mem _ (ih member)

theorem selected_ne_nil {mask : Nat} {items : List α} (positive : 0 < mask)
    (small : mask < 2 ^ items.length) : selected mask items ≠ [] := by
  induction items generalizing mask with
  | nil => simp at small; omega
  | cons head rest ih =>
    rw [List.length_cons, Nat.pow_succ] at small
    unfold selected
    split
    · exact List.cons_ne_nil _ _
    · exact ih (by omega) (by omega)

theorem sum_range_double {M : Type} [AddCommMonoid M] (f : Nat → M) (n : Nat) :
    ∑ k ∈ Finset.range (2 * n), f k = ∑ k ∈ Finset.range n, (f (2 * k) + f (2 * k + 1)) := by
  induction n with
  | zero => rfl
  | succ n ih =>
    rw [Nat.mul_succ, Finset.sum_range_succ, Finset.sum_range_succ, ih, Finset.sum_range_succ, add_assoc]

theorem sum_masks (holds : α → β → Prop) [∀ item, DecidablePred (holds item)] (items : List α)
    (values : Finset β) :
    ∑ mask ∈ Finset.range (2 ^ items.length), (-1 : ℤ) ^ (selected mask items).length *
        (values.filter fun value => ∀ item ∈ selected mask items, holds item value).card =
      (values.filter fun value => ∀ item ∈ items, ¬holds item value).card := by
  induction items generalizing values with
  | nil => simp
  | cons head rest ih =>
    have split : ∀ mask, (values.filter fun value =>
        ∀ item ∈ head :: selected mask rest, holds item value) =
        (values.filter (holds head)).filter fun value =>
          ∀ item ∈ selected mask rest, holds item value := by
      intro mask
      ext value
      simp only [Finset.mem_filter, List.forall_mem_cons, and_assoc]
    have without : (values.filter fun value => ∀ item ∈ rest, ¬holds item value).card =
        ((values.filter (holds head)).filter fun value => ∀ item ∈ rest, ¬holds item value).card +
          (values.filter fun value => ∀ item ∈ head :: rest, ¬holds item value).card := by
      rw [← Finset.card_filter_add_card_filter_not (s := values.filter _) (p := holds head)]
      congr 2
      · ext value
        simp only [Finset.mem_filter]
        tauto
      · ext value
        simp only [Finset.mem_filter, List.forall_mem_cons]
        tauto
    rw [List.length_cons, Nat.pow_succ, Nat.mul_comm, sum_range_double]
    simp only [selected_even, selected_odd, List.length_cons, split, pow_succ]
    have halves := ih values
    have inner := ih (values.filter (holds head))
    rw [Finset.sum_add_distrib, halves]
    simp only [mul_neg, mul_one, neg_mul, Finset.sum_neg_distrib, inner]
    omega

end
end AsapPlanner.Rust
