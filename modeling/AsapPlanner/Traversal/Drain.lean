import Mathlib.Data.List.Perm.Subperm
import Mathlib.Data.List.Nodup
import Mathlib.Logic.Function.Basic

/-!
A check for cycles: items that wait for nothing are taken from a stack, and each one taken is one item
less for those that read it. Every item is taken when none reads itself through others.
-/

namespace AsapPlanner.Traversal

/-- The items ready, what each item still waits for, and how many have been taken. -/
structure Draining where
  ready : List Nat
  outstanding : Nat → Nat
  visited : Nat

def Draining.release (state : Draining) (consumer : Nat) : Draining :=
  let left := state.outstanding consumer - 1
  { state with
    outstanding := Function.update state.outstanding consumer left
    ready := if left = 0 then consumer :: state.ready else state.ready }

section
variable (consumers : Nat → List Nat)

def drain : Nat → Draining → Nat
  | 0, state => state.visited
  | fuel + 1, state =>
    match state.ready with
    | [] => state.visited
    | producer :: rest => drain fuel
      ((consumers producer).foldl Draining.release { state with ready := rest, visited := state.visited + 1 })

end

/-- The items that wait for nothing, the last on top. -/
def Draining.start (count : Nat) (slots : Nat → List Nat) : Draining where
  ready := ((List.range count).filter fun item => (slots item).length = 0).reverse
  outstanding item := (slots item).length
  visited := 0

/-! ### Invariant -/

section
variable {count : Nat} {slots consumers : Nat → List Nat} {state : Draining} {taken : List Nat}

variable (count slots) in
/-- What every state of the loop has, after `taken`. -/
structure Draining.Sound (state : Draining) (taken : List Nat) : Prop where
  visited : state.visited = taken.length
  distinct : taken.Nodup
  inside : ∀ item ∈ taken, item < count
  outstanding : ∀ item, state.outstanding item = (slots item).countP (· ∉ taken)
  distinctReady : state.ready.Nodup
  ready : ∀ item ∈ state.ready, item < count ∧ item ∉ taken ∧ state.outstanding item = 0
  settled : ∀ item ∈ taken, state.outstanding item = 0
  grounded : ∀ item ∈ taken, Acc (fun producer consumer => producer ∈ slots consumer) item

theorem foldl_release_spec (released : List Nat) (enough : ∀ item, released.count item ≤ state.outstanding item)
    (fresh : ∀ item ∈ released, item ∉ state.ready) (distinct : state.ready.Nodup) :
    (released.foldl Draining.release state).visited = state.visited ∧
    (∀ item, (released.foldl Draining.release state).outstanding item =
      state.outstanding item - released.count item) ∧
    (released.foldl Draining.release state).ready.Nodup ∧
    ∀ item ∈ (released.foldl Draining.release state).ready, item ∈ state.ready ∨
      item ∈ released ∧ (released.foldl Draining.release state).outstanding item = 0 := by
  induction released generalizing state with
  | nil => exact ⟨rfl, fun item => rfl, distinct, fun item ready => .inl ready⟩
  | cons first rest ih =>
    have here := enough first
    rw [List.count_cons_self] at here
    -- The last release of an item is the one that makes it ready.
    have last : state.outstanding first - 1 = 0 → first ∉ rest := by
      intro done again
      have more := List.count_pos_iff.mpr again
      omega
    have waits (item : Nat) : (state.release first).outstanding item =
        state.outstanding item - if item = first then 1 else 0 := by
      by_cases same : item = first
      · rw [same, if_pos rfl]
        exact Function.update_self ..
      · rw [if_neg same]
        exact Function.update_of_ne same ..
    obtain ⟨visited, outstanding, nodup, ready⟩ := @ih (state.release first) (by
      intro item
      have all := enough item
      rw [waits]
      rw [List.count_cons] at all
      by_cases same : item = first
      · rw [if_pos same]
        rw [if_pos (by simpa using same.symm)] at all
        omega
      · rw [if_neg same]
        omega) (by
      intro item member listed
      unfold Draining.release at listed
      simp only at listed
      split at listed
      · rename_i done
        rcases List.mem_cons.mp listed with rfl | old
        · exact last done member
        · exact fresh item (List.mem_cons_of_mem _ member) old
      · exact fresh item (List.mem_cons_of_mem _ member) listed) (by
      unfold Draining.release
      simp only
      split
      · exact List.nodup_cons.mpr ⟨fresh first List.mem_cons_self, distinct⟩
      · exact distinct)
    have sum (item : Nat) : (rest.foldl Draining.release (state.release first)).outstanding item =
        state.outstanding item - (first :: rest).count item := by
      rw [outstanding, waits, List.count_cons]
      by_cases same : item = first
      · rw [if_pos same, if_pos (by simpa using same.symm)]
        omega
      · rw [if_neg same, if_neg (by simpa using fun other : first = item => same other.symm)]
        omega
    refine ⟨visited, sum, nodup, fun item listed => ?_⟩
    rw [List.foldl_cons] at listed ⊢
    rcases ready item listed with before | ⟨later, done⟩
    · unfold Draining.release at before
      simp only at before
      split at before
      · rename_i done
        rcases List.mem_cons.mp before with rfl | old
        · refine .inr ⟨List.mem_cons_self, ?_⟩
          rw [outstanding, waits, if_pos rfl, done]
          exact Nat.zero_sub _
        · exact .inl old
      · exact .inl before
    · exact .inr ⟨List.mem_cons_of_mem _ later, done⟩

theorem countP_notMem_cons {items taken : List Nat} {item : Nat} (fresh : item ∉ taken) :
    items.countP (· ∉ item :: taken) = items.countP (· ∉ taken) - items.count item := by
  induction items with
  | nil => rfl
  | cons first rest ih =>
    have room : rest.count item ≤ rest.countP (· ∉ taken) := by
      rw [List.count]
      apply List.countP_mono_left
      intro other _ same
      rw [eq_of_beq same]
      exact decide_eq_true fresh
    rw [List.countP_cons, List.countP_cons, List.count_cons, ih]
    by_cases same : first = item
    · subst same
      simp [fresh]
    · by_cases old : first ∈ taken
      · simp [old, same]
      · have differs : (first == item) = false := beq_false_of_ne same
        simp only [differs, List.mem_cons, same, old, or_self, not_false_eq_true, decide_true, if_true,
          Bool.false_eq_true, if_false]
        omega

theorem Draining.Sound.take (sound : state.Sound count slots taken) {producer : Nat} {rest : List Nat}
    (small : ∀ item, slots item ≠ [] → item < count)
    (matched : ∀ producer item, (consumers producer).count item = (slots item).count producer)
    (top : state.ready = producer :: rest) :
    ((consumers producer).foldl Draining.release
      { state with ready := rest, visited := state.visited + 1 }).Sound count slots (producer :: taken) := by
  obtain ⟨inside, fresh, idle⟩ := sound.ready producer (by rw [top]; exact List.mem_cons_self)
  have distinct := sound.distinctReady
  rw [top, List.nodup_cons] at distinct
  have fits : ∀ item, (consumers producer).count item ≤ state.outstanding item := by
    intro item
    rw [matched, sound.outstanding, List.count]
    apply List.countP_mono_left
    intro other _ same
    rw [eq_of_beq same]
    exact decide_eq_true fresh
  obtain ⟨visited, outstanding, nodup, ready⟩ := @foldl_release_spec
    { state with ready := rest, visited := state.visited + 1 } (consumers producer) fits (by
      intro item member listed
      have waiting := List.count_pos_iff.mpr member
      have done := (sound.ready item (by rw [top]; exact List.mem_cons_of_mem _ listed)).2.2
      have enough := fits item
      omega) distinct.2
  have settled : ∀ item ∈ producer :: taken, state.outstanding item = 0 :=
    fun item member => (List.mem_cons.mp member).elim (· ▸ idle) (sound.settled item)
  refine ⟨?_, List.nodup_cons.mpr ⟨fresh, sound.distinct⟩, ?_, ?_, nodup, ?_, ?_, ?_⟩
  · rw [visited, List.length_cons]
    exact congrArg (· + 1) sound.visited
  · exact fun item member => (List.mem_cons.mp member).elim (· ▸ inside) (sound.inside item)
  · intro item
    rw [outstanding, countP_notMem_cons fresh, ← sound.outstanding, matched]
  · intro item listed
    rcases ready item listed with old | ⟨read, done⟩
    · obtain ⟨below, other, idle⟩ := sound.ready item (by rw [top]; exact List.mem_cons_of_mem _ old)
      refine ⟨below, ?_, ?_⟩
      · intro member
        rcases List.mem_cons.mp member with rfl | before
        · exact distinct.1 old
        · exact other before
      · rw [outstanding]
        exact Nat.sub_eq_zero_of_le (by rw [show state.outstanding item = 0 from idle]; exact Nat.zero_le _)
    · have waiting := List.count_pos_iff.mpr read
      refine ⟨small item ?_, ?_, done⟩
      · intro none
        rw [matched, none] at waiting
        exact absurd waiting (Nat.lt_irrefl 0)
      · intro member
        have none := settled item member
        have enough := fits item
        omega
  · intro item member
    rw [outstanding, settled item member]
    exact Nat.zero_sub _
  · intro item member
    rcases List.mem_cons.mp member with rfl | before
    · refine ⟨_, fun other read => sound.grounded other ?_⟩
      have none := sound.outstanding item
      rw [idle, eq_comm, List.countP_eq_zero] at none
      simpa using none other read
    · exact sound.grounded item before

theorem start_sound_drain : (Draining.start count slots).Sound count slots [] where
  visited := rfl
  distinct := List.nodup_nil
  inside := nofun
  outstanding item := by simp [Draining.start]
  distinctReady := List.nodup_reverse.mpr (List.nodup_range.filter _)
  ready item listed := by
    simp only [Draining.start, List.mem_reverse, List.mem_filter, List.mem_range, decide_eq_true_eq] at listed
    exact ⟨listed.1, List.not_mem_nil, listed.2⟩
  settled := nofun
  grounded := nofun

theorem all_taken (distinct : taken.Nodup) (inside : ∀ item ∈ taken, item < count)
    (many : count ≤ taken.length) : List.range count ⊆ taken := by
  have within : taken ⊆ List.range count := fun item member => List.mem_range.mpr (inside item member)
  have same := (distinct.subperm within).perm_of_length_le (by rw [List.length_range]; exact many)
  exact fun item listed => same.mem_iff.mpr listed

theorem drain_sound (small : ∀ item, slots item ≠ [] → item < count)
    (matched : ∀ producer item, (consumers producer).count item = (slots item).count producer)
    (fuel : Nat) (sound : state.Sound count slots taken) :
    ∃ taken : List Nat, taken.length = drain consumers fuel state ∧ taken.Nodup ∧
      (∀ item ∈ taken, item < count) ∧
      ∀ item ∈ taken, Acc (fun producer consumer => producer ∈ slots consumer) item := by
  induction fuel generalizing state taken with
  | zero => exact ⟨taken, sound.visited.symm, sound.distinct, sound.inside, sound.grounded⟩
  | succ fuel ih =>
    unfold drain
    split
    · exact ⟨taken, sound.visited.symm, sound.distinct, sound.inside, sound.grounded⟩
    · rename_i producer rest top
      exact ih (sound.take small matched top)

theorem drain_grounded (small : ∀ item, slots item ≠ [] → item < count)
    (matched : ∀ producer item, (consumers producer).count item = (slots item).count producer)
    (all : drain consumers count (Draining.start count slots) = count) :
    ∀ item < count, Acc (fun producer consumer => producer ∈ slots consumer) item := by
  obtain ⟨taken, length, distinct, inside, grounded⟩ :=
    drain_sound small matched count start_sound_drain
  intro item below
  have full : List.range count ⊆ taken := all_taken distinct inside (Nat.le_of_eq (length.trans all).symm)
  exact grounded item (full (List.mem_range.mpr below))

end
end AsapPlanner.Traversal
