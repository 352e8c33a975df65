import Mathlib.Data.List.Basic
import Mathlib.Data.List.Chain
import Mathlib.Logic.Relation

/-!
Predicates on nonempty lists that their pairs decide, and folds in which every item that declares a
value must declare the same one. Fusing neighbours of a list. Where three in a row fuse alike from
either side, every series of fusions that can go no further ends at the same list.
-/

namespace AsapPlanner.Ordered
open Relation

section
variable {α β : Type*} {P Q : List α → Prop}

/-- `P` holds of a nonempty list when its items stand in some relation, each with itself too. -/
def DecidedByPairs (P : List α → Prop) : Prop :=
  ∃ R : α → α → Prop, ∀ items, items ≠ [] → (P items ↔ ∀ left ∈ items, ∀ right ∈ items, R left right)

namespace DecidedByPairs

theorem const (p : Prop) : DecidedByPairs fun _ : List α => p := by
  refine ⟨fun _ _ => p, fun items some => ?_⟩
  obtain ⟨item, member⟩ := List.exists_mem_of_ne_nil items some
  exact ⟨fun holds _ _ _ _ => holds, fun holds => holds item member item member⟩

theorem each (p : α → Prop) : DecidedByPairs fun items => ∀ item ∈ items, p item := by
  refine ⟨fun left _ => p left, fun items _ => ?_⟩
  exact ⟨fun holds left member _ _ => holds left member,
    fun holds item member => holds item member item member⟩

theorem and (first : DecidedByPairs P) (second : DecidedByPairs Q) :
    DecidedByPairs fun items => P items ∧ Q items := by
  obtain ⟨R, first⟩ := first
  obtain ⟨S, second⟩ := second
  refine ⟨fun left right => R left right ∧ S left right, fun items some => ?_⟩
  show P items ∧ Q items ↔ _
  rw [first items some, second items some]
  exact ⟨fun holds left l right r => ⟨holds.1 left l right r, holds.2 left l right r⟩,
    fun holds => ⟨fun left l right r => (holds left l right r).1,
      fun left l right r => (holds left l right r).2⟩⟩

theorem congr (decided : DecidedByPairs P) (same : ∀ items, items ≠ [] → (Q items ↔ P items)) :
    DecidedByPairs Q := by
  obtain ⟨R, decided⟩ := decided
  exact ⟨R, fun items some => (same items some).trans (decided items some)⟩

theorem iff_of_mem_iff (decided : DecidedByPairs P) {items items' : List α} (some : items ≠ [])
    (same : ∀ item, item ∈ items' ↔ item ∈ items) : P items' ↔ P items := by
  obtain ⟨R, decided⟩ := decided
  have some' : items' ≠ [] := by
    obtain ⟨item, member⟩ := List.exists_mem_of_ne_nil items some
    exact List.ne_nil_of_mem ((same item).mpr member)
  rw [decided items some, decided items' some']
  simp only [same]

theorem filterMap (decided : DecidedByPairs P) (value : β → Option α) :
    DecidedByPairs fun items => (∀ item ∈ items, (value item).isSome) ∧ P (items.filterMap value) := by
  obtain ⟨R, decided⟩ := decided
  refine ⟨fun left right => (value left).isSome ∧ ∀ a ∈ value left, ∀ b ∈ value right, R a b,
    fun items some => ?_⟩
  constructor
  · rintro ⟨present, holds⟩ left l right r
    refine ⟨present left l, fun a here b there => ?_⟩
    have a_mem : a ∈ items.filterMap value := List.mem_filterMap.mpr ⟨left, l, here⟩
    exact (decided _ (List.ne_nil_of_mem a_mem)).mp holds a a_mem b
      (List.mem_filterMap.mpr ⟨right, r, there⟩)
  · intro holds
    have present : ∀ item ∈ items, (value item).isSome :=
      fun item member => (holds item member item member).1
    obtain ⟨item, member⟩ := List.exists_mem_of_ne_nil items some
    obtain ⟨a, here⟩ := Option.isSome_iff_exists.mp (present item member)
    refine ⟨present, (decided _ (List.ne_nil_of_mem (List.mem_filterMap.mpr ⟨item, member, here⟩))).mpr ?_⟩
    intro a a_mem b b_mem
    obtain ⟨left, l, here⟩ := List.mem_filterMap.mp a_mem
    obtain ⟨right, r, there⟩ := List.mem_filterMap.mp b_mem
    exact (holds left l right r).2 a here b there

theorem iff_pairs (decided : DecidedByPairs P) {items : List α} (some : items ≠ []) :
    P items ↔ (∀ item ∈ items, P [item]) ∧ ∀ left ∈ items, ∀ right ∈ items, P [left, right] := by
  obtain ⟨R, decided⟩ := decided
  have pair (left right : α) : P [left, right] ↔
      ∀ a ∈ [left, right], ∀ b ∈ [left, right], R a b := decided _ (List.cons_ne_nil _ _)
  have alone (item : α) : P [item] ↔ R item item := by
    rw [decided _ (List.cons_ne_nil _ _)]
    simp
  rw [decided items some]
  constructor
  · intro holds
    refine ⟨fun item member => (alone item).mpr (holds item member item member), ?_⟩
    intro left l right r
    rw [pair]
    have inside : ∀ a ∈ [left, right], a ∈ items := by simp [l, r]
    exact fun a a_mem b b_mem => holds a (inside a a_mem) b (inside b b_mem)
  · rintro ⟨-, holds⟩ left l right r
    exact (pair left right).mp (holds left l right r) left (by simp) right (by simp)

end DecidedByPairs
end

/-! ### Agreement -/

section
variable {α ν : Type*} [DecidableEq ν]

/-- What is known after an item that may declare a value, or `none` when it declares another. -/
def agree (known declared : Option ν) : Option (Option ν) :=
  match declared with
  | none => some known
  | some own => if known.getD own = own then some (some own) else none

theorem foldlM_agree {known final : Option ν} {declared : List (Option ν)} :
    declared.foldlM agree known = some final ↔
      ∀ value, final = some value ↔ known = some value ∨ some value ∈ declared := by
  induction declared generalizing known with
  | nil =>
    rw [List.foldlM_nil, Option.pure_def, Option.some_inj]
    simp only [List.not_mem_nil, or_false]
    exact ⟨fun same value => by rw [same], fun same => (Option.ext fun value => same value).symm⟩
  | cons first rest ih =>
    rw [List.foldlM_cons]
    cases first with
    | none =>
      show (rest.foldlM agree known = some final) ↔ _
      rw [ih]
      simp
    | some own =>
      by_cases same : known.getD own = own
      · rw [agree, if_pos same, Option.bind_eq_bind, Option.bind_some, ih]
        apply forall_congr'
        intro value
        rw [List.mem_cons]
        have known_own : known = some value → some own = some value := by
          rintro rfl
          exact congrArg some same.symm
        have flip : (some value = some own) = (some own = some value) := propext eq_comm
        rw [flip]
        tauto
      · rw [agree, if_neg same, Option.bind_eq_bind, Option.bind_none]
        refine ⟨nofun, fun all => absurd ?_ same⟩
        cases known with
        | none => rfl
        | some value =>
          have one : final = some value := (all value).mpr (.inl rfl)
          have other : final = some own := (all own).mpr (.inr List.mem_cons_self)
          exact Option.some.inj (one.symm.trans other)

theorem decidedByPairs_agree (declared : α → Option ν) (fine : ν → Prop) :
    DecidedByPairs fun items : List α =>
      ∃ final, (items.map declared).foldlM agree none = some final ∧ ∀ value ∈ final, fine value := by
  refine ⟨fun left right => ∀ a ∈ declared left, fine a ∧ ∀ b ∈ declared right, a = b,
    fun items _ => ?_⟩
  simp only [foldlM_agree, reduceCtorEq, false_or, List.mem_map]
  constructor
  · rintro ⟨final, all, good⟩ left l right r a here
    have is_a : final = some a := (all a).mpr ⟨left, l, here⟩
    refine ⟨good a is_a, fun b there => ?_⟩
    exact Option.some.inj (is_a.symm.trans ((all b).mpr ⟨right, r, there⟩))
  · intro holds
    by_cases declares : ∃ item ∈ items, ∃ value, declared item = some value
    · obtain ⟨item, member, value, here⟩ := declares
      refine ⟨some value, fun other => ⟨fun same => ⟨item, member, here.trans same⟩, ?_⟩, ?_⟩
      · rintro ⟨right, r, there⟩
        exact congrArg some ((holds item member right r value here).2 other there)
      · intro other same
        exact (holds item member item member other (here.trans same)).1
    · refine ⟨none, fun value => ⟨nofun, ?_⟩, nofun⟩
      rintro ⟨item, member, here⟩
      exact absurd ⟨item, member, value, here⟩ declares

end

/-! ### Fusing neighbours -/

section Fusing
variable {α : Type*} (fuse : α → α → Option α)

/-- Two neighbours fused. -/
inductive Fusion : List α → List α → Prop
  | here {a b c : α} {rest : List α} (fused : fuse a b = some c) : Fusion (a :: b :: rest) (c :: rest)
  | later {a : α} {items others : List α} (step : Fusion items others) :
      Fusion (a :: items) (a :: others)

/-- Three that fuse two by two fuse into one, from either side. -/
def FusesAlike : Prop := ∀ ⦃a b c left right : α⦄, fuse a b = some left → fuse b c = some right →
  ∃ all, fuse left c = some all ∧ fuse a right = some all

/-- No neighbours fuse. -/
def Apart (items : List α) : Prop := items.IsChain fun a b => fuse a b = none

variable {fuse} {items left right : List α}

theorem Fusion.append (before : List α) (step : Fusion fuse left right) :
    Fusion fuse (before ++ left) (before ++ right) := by
  induction before with
  | nil => exact step
  | cons first rest ih => exact .later ih

theorem Fusion.diamond (alike : FusesAlike fuse) (first : Fusion fuse items left)
    (second : Fusion fuse items right) :
    left = right ∨ ∃ meet, Fusion fuse left meet ∧ Fusion fuse right meet := by
  induction first generalizing right with
  | here fused =>
    cases second with
    | here fused' => exact .inl (by rw [Option.some.inj (fused.symm.trans fused')])
    | later step =>
      cases step with
      | here fused' =>
        obtain ⟨all, fromLeft, fromRight⟩ := alike fused fused'
        exact .inr ⟨_, .here fromLeft, .here fromRight⟩
      | later step => exact .inr ⟨_, .later step, .here fused⟩
  | later step ih =>
    cases second with
    | here fused' =>
      cases step with
      | here fused =>
        obtain ⟨all, fromLeft, fromRight⟩ := alike fused' fused
        exact .inr ⟨_, .here fromRight, .here fromLeft⟩
      | later step => exact .inr ⟨_, .here fused', .later step⟩
    | later step' =>
      rcases ih step' with same | ⟨meet, fromLeft, fromRight⟩
      · exact .inl (by rw [same])
      · exact .inr ⟨_, .later fromLeft, .later fromRight⟩

theorem Apart.not_fusion (apart : Apart fuse items) : ¬ Fusion fuse items left := by
  intro step
  induction step with
  | here fused =>
    have none := (List.isChain_cons_cons.mp apart).1
    rw [fused] at none
    cases none
  | later step ih => exact ih (List.IsChain.tail apart)

theorem Apart.eq_of_fusions (apart : Apart fuse items) (path : ReflTransGen (Fusion fuse) items left) :
    items = left := by
  rcases ReflTransGen.cases_head path with same | ⟨next, step, _⟩
  · exact same
  · exact absurd step apart.not_fusion

theorem fusions_unique (alike : FusesAlike fuse) (first : ReflTransGen (Fusion fuse) items left)
    (second : ReflTransGen (Fusion fuse) items right) (apart : Apart fuse left)
    (apart' : Apart fuse right) : left = right := by
  have confluent : ∀ a b c, Fusion fuse a b → Fusion fuse a c →
      ∃ d, ReflGen (Fusion fuse) b d ∧ ReflTransGen (Fusion fuse) c d := by
    intro a b c one other
    rcases one.diamond alike other with rfl | ⟨meet, fromLeft, fromRight⟩
    · exact ⟨b, .refl, .refl⟩
    · exact ⟨meet, .single fromLeft, .single fromRight⟩
  obtain ⟨meet, fromLeft, fromRight⟩ := church_rosser confluent first second
  rw [apart.eq_of_fusions fromLeft, apart'.eq_of_fusions fromRight]

end Fusing

end AsapPlanner.Ordered
