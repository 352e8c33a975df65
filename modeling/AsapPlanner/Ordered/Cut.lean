import Mathlib.Order.Basic

/-!
Intervals over a comparison that need not relate every two values. A bound is read as a cut, a
place just before or just after a value, and cuts are compared through their values.
-/

namespace AsapPlanner.Ordered

/-- `left` comes strictly before `right`. -/
def Before {α : Type*} (cmp : α → α → Option Ordering) (left right : α) : Prop :=
  cmp left right = some .lt

/-- `left` and `right` stand at one place. -/
def Level {α : Type*} (cmp : α → α → Option Ordering) (left right : α) : Prop :=
  cmp left right = some .eq

/-- `left` does not come after `right`, and the two are comparable. -/
def NotAfter {α : Type*} (cmp : α → α → Option Ordering) (left right : α) : Prop :=
  Before cmp left right ∨ Level cmp left right

/-- A comparison that orders the values it relates. It may relate no two values at all, a value
and itself included. -/
class LawfulCompare {α : Type*} (cmp : α → α → Option Ordering) : Prop where
  swap (left right : α) : cmp right left = (cmp left right).map Ordering.swap
  trans {a b c : α} : NotAfter cmp a b → NotAfter cmp b c → NotAfter cmp a c

/-- A total comparison is a lawful one. -/
instance {α : Type*} [Ord α] [Std.TransOrd α] :
    LawfulCompare (fun left right : α => some (compare left right)) where
  swap left right := by
    simp only [Option.map_some, Option.some.injEq]
    exact Std.OrientedOrd.eq_swap
  trans {a b c} ab bc := by
    have le : ∀ {x y : α}, NotAfter (fun left right : α => some (compare left right)) x y ↔
        (compare x y).isLE := by
      intro x y
      simp only [NotAfter, Before, Level, Option.some.injEq]
      cases compare x y <;> simp
    rw [le] at *
    exact Std.TransOrd.isLE_trans ab bc

theorem compare_swap {α : Type*} (cmp : α → α → Option Ordering) [LawfulCompare cmp]
    (left right : α) : cmp right left = (cmp left right).map Ordering.swap :=
  LawfulCompare.swap left right

theorem compare_trans {α : Type*} (cmp : α → α → Option Ordering) [LawfulCompare cmp] {a b c : α}
    (ab : NotAfter cmp a b) (bc : NotAfter cmp b c) : NotAfter cmp a c :=
  LawfulCompare.trans ab bc

section Compare
variable {α : Type*} {cmp : α → α → Option Ordering} {a b c : α}

theorem notAfter_of_level (level : Level cmp a b) : NotAfter cmp a b := .inr level

theorem notAfter_of_before (before : Before cmp a b) : NotAfter cmp a b := .inl before

variable [LawfulCompare cmp]

theorem before_iff_swap : Before cmp a b ↔ cmp b a = some .gt := by
  rw [Before, compare_swap cmp b a]
  cases cmp a b with
  | none => simp
  | some order => cases order <;> simp

theorem level_symm (level : Level cmp a b) : Level cmp b a := by
  unfold Level at *
  rw [compare_swap cmp a b, level]
  rfl

theorem comparable_cases (comparable : (cmp a b).isSome) : NotAfter cmp a b ∨ Before cmp b a := by
  rw [before_iff_swap]
  simp only [NotAfter, Before, Level]
  obtain ⟨order, found⟩ := Option.isSome_iff_exists.mp comparable
  rw [found]
  cases order <;> simp

theorem not_before_of_notAfter (le : NotAfter cmp a b) : ¬ Before cmp b a := by
  rw [before_iff_swap]
  rcases le with lt | eq
  · rw [lt]; simp
  · rw [eq]; simp

theorem level_of_notAfter (le : NotAfter cmp a b) (ge : NotAfter cmp b a) : Level cmp a b := by
  rcases le with lt | eq
  · exact absurd lt (not_before_of_notAfter ge)
  · exact eq

theorem before_of_before_of_notAfter (ab : Before cmp a b) (bc : NotAfter cmp b c) :
    Before cmp a c := by
  rcases LawfulCompare.trans (notAfter_of_before ab) bc with lt | eq
  · exact lt
  · -- were `a` and `c` level, `b` would not come after `a`
    have ba := LawfulCompare.trans bc (notAfter_of_level (level_symm eq))
    exact absurd ab (not_before_of_notAfter ba)

theorem before_of_notAfter_of_before (ab : NotAfter cmp a b) (bc : Before cmp b c) :
    Before cmp a c := by
  rcases LawfulCompare.trans ab (notAfter_of_before bc) with lt | eq
  · exact lt
  · have cb := LawfulCompare.trans (notAfter_of_level (level_symm eq)) ab
    exact absurd bc (not_before_of_notAfter cb)

theorem level_trans (ab : Level cmp a b) (bc : Level cmp b c) : Level cmp a c :=
  level_of_notAfter (LawfulCompare.trans (notAfter_of_level ab) (notAfter_of_level bc))
    (LawfulCompare.trans (notAfter_of_level (level_symm bc)) (notAfter_of_level (level_symm ab)))

theorem compare_congr (level : Level cmp a b) : cmp a c = cmp b c := by
  have comparable : ∀ {x y : α}, Level cmp x y → ∀ order, cmp y c = some order →
      cmp x c = some order := by
    intro x y same order found
    cases order with
    | lt => exact before_of_notAfter_of_before (notAfter_of_level same) found
    | eq => exact level_trans same found
    | gt =>
      have before : Before cmp c y := before_iff_swap.mpr found
      have swapped := before_of_before_of_notAfter before (notAfter_of_level (level_symm same))
      exact before_iff_swap.mp swapped
  cases left : cmp a c with
  | some order => exact (comparable (level_symm level) order left).symm
  | none =>
    cases right : cmp b c with
    | none => rfl
    | some order =>
      rw [comparable level order right] at left
      cases left

end Compare

/-! ### Cuts -/

/-- The place just before `value`, or just after it. -/
structure Cut (α : Type*) where
  value : α
  after : Bool
deriving DecidableEq, Repr

namespace Cut
variable {α : Type*}

/-- `x` lies above the cut. -/
def Above (cmp : α → α → Option Ordering) (cut : Cut α) (x : α) : Prop :=
  if cut.after then Before cmp cut.value x else NotAfter cmp cut.value x

/-- `x` lies below the cut. -/
def Below (cmp : α → α → Option Ordering) (cut : Cut α) (x : α) : Prop :=
  if cut.after then NotAfter cmp x cut.value else Before cmp x cut.value

/-- The order of two places: by value, before a value ahead of after it. -/
def Le (cmp : α → α → Option Ordering) (left right : Cut α) : Prop :=
  Before cmp left.value right.value ∨
    (Level cmp left.value right.value ∧ (left.after → right.after))

variable {cmp : α → α → Option Ordering} {c d e : Cut α} {x y : α}

instance : Decidable (c.Above cmp x) := by
  unfold Above NotAfter Before Level
  infer_instance

instance : Decidable (c.Below cmp x) := by
  unfold Below NotAfter Before Level
  infer_instance

instance : Decidable (c.Le cmp d) := by
  unfold Le Before Level
  infer_instance

variable [LawfulCompare cmp]

theorem above_congr (level : Level cmp x y) : c.Above cmp x ↔ c.Above cmp y := by
  have same : cmp c.value x = cmp c.value y := by
    rw [compare_swap cmp x c.value, compare_swap cmp y c.value, compare_congr level]
  simp only [Above, Before, NotAfter, Level, same]

theorem below_congr (level : Level cmp x y) : c.Below cmp x ↔ c.Below cmp y := by
  simp only [Below, Before, NotAfter, Level, compare_congr level]

theorem not_above_of_below (below : c.Below cmp x) : ¬ c.Above cmp x := by
  intro above
  unfold Above Below at *
  split at above
  · rename_i after
    rw [if_pos after] at below
    exact not_before_of_notAfter below above
  · rename_i before
    rw [if_neg before] at below
    exact not_before_of_notAfter above below

theorem above_or_below (comparable : (cmp x c.value).isSome) : c.Above cmp x ∨ c.Below cmp x := by
  unfold Above Below
  split
  · exact (comparable_cases comparable).symm
  · have swapped : (cmp c.value x).isSome := by
      rw [compare_swap cmp x c.value]
      simpa using comparable
    exact comparable_cases swapped

theorem above_of_le (le : c.Le cmp d) (above : d.Above cmp x) : c.Above cmp x := by
  have weaken : d.Above cmp x → NotAfter cmp d.value x := by
    unfold Above
    split
    · exact notAfter_of_before
    · exact id
  rcases le with lt | ⟨level, sides⟩
  · have strict := before_of_before_of_notAfter lt (weaken above)
    unfold Above
    split
    · exact strict
    · exact notAfter_of_before strict
  · unfold Above at *
    by_cases after : c.after
    · rw [if_pos (sides after)] at above
      rw [if_pos after]
      exact before_of_notAfter_of_before (notAfter_of_level level) above
    · rw [if_neg after]
      exact LawfulCompare.trans (notAfter_of_level level) (weaken above)

theorem below_of_le (le : c.Le cmp d) (below : c.Below cmp x) : d.Below cmp x := by
  have weaken : c.Below cmp x → NotAfter cmp x c.value := by
    unfold Below
    split
    · exact id
    · exact notAfter_of_before
  rcases le with lt | ⟨level, sides⟩
  · have strict := before_of_notAfter_of_before (weaken below) lt
    unfold Below
    split
    · exact notAfter_of_before strict
    · exact strict
  · unfold Below at *
    by_cases after : d.after
    · rw [if_pos after]
      exact LawfulCompare.trans (weaken below) (notAfter_of_level level)
    · have before : ¬ c.after := fun held => after (sides held)
      rw [if_neg before] at below
      rw [if_neg after]
      exact before_of_before_of_notAfter below (notAfter_of_level level)

theorem le_trans (cd : c.Le cmp d) (de : d.Le cmp e) : c.Le cmp e := by
  rcases cd with lt | ⟨level, sides⟩
  · rcases de with lt' | ⟨level', _⟩
    · exact .inl (before_of_before_of_notAfter lt (notAfter_of_before lt'))
    · exact .inl (before_of_before_of_notAfter lt (notAfter_of_level level'))
  · rcases de with lt' | ⟨level', sides'⟩
    · exact .inl (before_of_notAfter_of_before (notAfter_of_level level) lt')
    · exact .inr ⟨level_trans level level', sides' ∘ sides⟩

end Cut

/-! ### Bounds -/

/-- One end of an interval. -/
inductive Bound (α : Type*)
  | included (value : α)
  | excluded (value : α)
  | unbounded
deriving DecidableEq, Repr

namespace Bound
variable {α : Type*}

def lowerCut : Bound α → Option (Cut α)
  | included value => some ⟨value, false⟩
  | excluded value => some ⟨value, true⟩
  | unbounded => none

def upperCut : Bound α → Option (Cut α)
  | included value => some ⟨value, true⟩
  | excluded value => some ⟨value, false⟩
  | unbounded => none

/-- `x` satisfies a lower bound. -/
def AtLeast (cmp : α → α → Option Ordering) (lower : Bound α) (x : α) : Prop :=
  ∀ cut ∈ lower.lowerCut, cut.Above cmp x

/-- `x` satisfies an upper bound. -/
def AtMost (cmp : α → α → Option Ordering) (upper : Bound α) (x : α) : Prop :=
  ∀ cut ∈ upper.upperCut, cut.Below cmp x

/-- The value of a bound, if it has one, can be compared with `x`. -/
def Comparable (cmp : α → α → Option Ordering) (bound : Bound α) (x : α) : Prop :=
  match bound with
  | included value | excluded value => (cmp x value).isSome
  | unbounded => True

/-- The upper bound ends no later than the lower bound starts: nothing satisfies both. -/
def Precedes (cmp : α → α → Option Ordering) (upper lower : Bound α) : Prop :=
  ∃ c ∈ upper.upperCut, ∃ d ∈ lower.lowerCut, c.Le cmp d

/-- The lower bound starts no later than the upper bound ends. -/
def Proper (cmp : α → α → Option Ordering) (lower upper : Bound α) : Prop :=
  ∀ c ∈ lower.lowerCut, ∀ d ∈ upper.upperCut, c.Le cmp d

variable {cmp : α → α → Option Ordering} {lower upper lower' upper' : Bound α} {x y : α}

@[simp] theorem atLeast_included {l : α} :
    (included l).AtLeast cmp x ↔ NotAfter cmp l x := by
  simp [AtLeast, lowerCut, Cut.Above]

@[simp] theorem atLeast_excluded {l : α} : (excluded l).AtLeast cmp x ↔ Before cmp l x := by
  simp [AtLeast, lowerCut, Cut.Above]

@[simp] theorem atLeast_unbounded : unbounded.AtLeast cmp x := by
  simp [AtLeast, lowerCut]

@[simp] theorem atMost_included {u : α} : (included u).AtMost cmp x ↔ NotAfter cmp x u := by
  simp [AtMost, upperCut, Cut.Below]

@[simp] theorem atMost_excluded {u : α} : (excluded u).AtMost cmp x ↔ Before cmp x u := by
  simp [AtMost, upperCut, Cut.Below]

@[simp] theorem atMost_unbounded : unbounded.AtMost cmp x := by
  simp [AtMost, upperCut]

instance : Decidable (lower.AtLeast cmp x) := inferInstanceAs (Decidable (∀ _ ∈ _, _))

instance : Decidable (upper.AtMost cmp x) := inferInstanceAs (Decidable (∀ _ ∈ _, _))

instance : Decidable (Proper cmp lower upper) :=
  inferInstanceAs (Decidable (∀ _ ∈ lower.lowerCut, ∀ _ ∈ upper.upperCut, _))

instance : Decidable (lower.Comparable cmp x) := by
  unfold Comparable
  split <;> infer_instance

variable [LawfulCompare cmp]

theorem atLeast_congr (level : Level cmp x y) : lower.AtLeast cmp x ↔ lower.AtLeast cmp y :=
  forall₂_congr fun _ _ => Cut.above_congr level

theorem atMost_congr (level : Level cmp x y) : upper.AtMost cmp x ↔ upper.AtMost cmp y :=
  forall₂_congr fun _ _ => Cut.below_congr level

theorem not_both_of_precedes (precedes : Precedes cmp upper lower) :
    ¬ (upper.AtMost cmp x ∧ lower.AtLeast cmp x) := by
  obtain ⟨c, upperAt, d, lowerAt, le⟩ := precedes
  rintro ⟨atMost, atLeast⟩
  exact Cut.not_above_of_below (Cut.below_of_le le (atMost c upperAt)) (atLeast d lowerAt)

/-- Two intervals that meet in one cut, neither of them reversed, make up the interval between
their outer ends. -/
theorem between_iff_of_meet {cut : Cut α} (meetsUpper : cut ∈ upper.upperCut)
    {cut' : Cut α} (meetsLower : cut' ∈ lower'.lowerCut) (le : cut.Le cmp cut')
    (ge : cut'.Le cmp cut) (proper : Proper cmp lower upper) (proper' : Proper cmp lower' upper')
    (comparable : (cmp x cut.value).isSome) :
    (lower.AtLeast cmp x ∧ upper'.AtMost cmp x) ↔
      (lower.AtLeast cmp x ∧ upper.AtMost cmp x) ∨ (lower'.AtLeast cmp x ∧ upper'.AtMost cmp x) := by
  constructor
  · rintro ⟨atLeast, atMost⟩
    rcases Cut.above_or_below comparable with above | below
    · refine .inr ⟨fun other found => ?_, atMost⟩
      obtain rfl : cut' = other := Option.mem_unique meetsLower found
      exact Cut.above_of_le ge above
    · refine .inl ⟨atLeast, fun other found => ?_⟩
      obtain rfl : cut = other := Option.mem_unique meetsUpper found
      exact below
  · rintro (⟨atLeast, atMost⟩ | ⟨atLeast, atMost⟩)
    · refine ⟨atLeast, fun other found => ?_⟩
      have below := atMost cut meetsUpper
      exact Cut.below_of_le (proper' cut' meetsLower other found) (Cut.below_of_le le below)
    · refine ⟨fun other found => ?_, atMost⟩
      have above := atLeast cut' meetsLower
      exact Cut.above_of_le (proper other found cut meetsUpper) (Cut.above_of_le le above)

theorem proper_of_meet {cut cut' : Cut α} (meetsUpper : cut ∈ upper.upperCut)
    (meetsLower : cut' ∈ lower'.lowerCut) (le : cut.Le cmp cut')
    (proper : Proper cmp lower upper) (proper' : Proper cmp lower' upper') :
    Proper cmp lower upper' := by
  intro first firstAt last lastAt
  exact Cut.le_trans (proper first firstAt cut meetsUpper)
    (Cut.le_trans le (proper' cut' meetsLower last lastAt))

end Bound

end AsapPlanner.Ordered
