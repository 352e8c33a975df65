import Mathlib.Data.List.Forall2

/-!
Inversion of computations that may fail.
-/

namespace AsapPlanner.Rust

section
variable {ε α β : Type}

theorem bind_eq_ok {first : Except ε α} {next : α → Except ε β} {result : β}
    (run : (first >>= next) = .ok result) : ∃ value, first = .ok value ∧ next value = .ok result := by
  cases first with
  | error _ => cases run
  | ok value => exact ⟨value, rfl, run⟩

theorem mapM_eq_ok {f : α → Except ε β} {items : List α} {results : List β} :
    items.mapM f = .ok results ↔ List.Forall₂ (fun item result => f item = .ok result) items results := by
  induction items generalizing results with
  | nil =>
    rw [List.mapM_nil, List.forall₂_nil_left_iff]
    exact ⟨fun run => by cases run; rfl, fun same => by rw [same]; rfl⟩
  | cons item rest ih =>
    rw [List.mapM_cons]
    constructor
    · intro run
      obtain ⟨first, ran, run⟩ := bind_eq_ok run
      obtain ⟨others, ranRest, run⟩ := bind_eq_ok run
      cases run
      exact .cons ran (ih.mp ranRest)
    · rintro (_ | ⟨ran, ranRest⟩)
      rw [ran, ih.mpr ranRest]
      rfl

theorem mem_mapM {f : α → Except ε β} {items : List α} {results : List β} (run : items.mapM f = .ok results) :
    ∀ result ∈ results, ∃ item ∈ items, f item = .ok result := by
  induction mapM_eq_ok.mp run with
  | nil => exact nofun
  | cons first rest ih =>
    intro result member
    rcases List.mem_cons.mp member with rfl | later
    · exact ⟨_, List.mem_cons_self, first⟩
    · obtain ⟨item, here, ran⟩ := ih (mapM_eq_ok.mpr rest) result later
      exact ⟨item, List.mem_cons_of_mem _ here, ran⟩

theorem mapM_pure {f : α → Except ε β} {g : α → β} {items : List α}
    (each : ∀ item ∈ items, f item = .ok (g item)) : items.mapM f = .ok (items.map g) := by
  rw [mapM_eq_ok, List.forall₂_map_right_iff, List.forall₂_same]
  exact each

theorem mapM_total {f : α → Except ε β} {items : List α}
    (each : ∀ item ∈ items, ∃ result, f item = .ok result) :
    ∃ results, items.mapM f = .ok results := by
  simp only [mapM_eq_ok]
  induction items with
  | nil => exact ⟨[], .nil⟩
  | cons item rest ih =>
    obtain ⟨result, first⟩ := each item List.mem_cons_self
    obtain ⟨results, later⟩ := ih fun other member => each other (List.mem_cons_of_mem _ member)
    exact ⟨result :: results, .cons first later⟩

theorem mapM_congr {f g : α → Except ε β} {items : List α} (same : ∀ item ∈ items, f item = g item) :
    items.mapM f = items.mapM g := by
  induction items with
  | nil => rfl
  | cons item rest ih =>
    rw [List.mapM_cons, List.mapM_cons, same item List.mem_cons_self,
      ih fun other member => same other (List.mem_cons_of_mem _ member)]

theorem mapM_flatten_cons (f : α → Except ε (List β)) (item : α) (rest : List α) :
    ((item :: rest).mapM f).map List.flatten =
      f item >>= fun first => ((rest.mapM f).map List.flatten).map (first ++ ·) := by
  rw [List.mapM_cons]
  cases f item with
  | error e => rfl
  | ok first =>
    change (rest.mapM f >>= fun others => pure (first :: others)).map List.flatten =
      ((rest.mapM f).map List.flatten).map (first ++ ·)
    cases rest.mapM f <;> rfl

theorem map_mapM_flatten {γ : Type} (f : α → Except ε (List β)) (change : β → γ) (items : List α) :
    ((items.mapM f).map List.flatten).map (List.map change) =
      (items.mapM fun item => (f item).map (List.map change)).map List.flatten := by
  induction items with
  | nil => rfl
  | cons item rest ih =>
    rw [mapM_flatten_cons, mapM_flatten_cons, ← ih]
    cases f item with
    | error e => rfl
    | ok first =>
      change (((rest.mapM f).map List.flatten).map (first ++ ·)).map (List.map change) =
        (((rest.mapM f).map List.flatten).map (List.map change)).map (first.map change ++ ·)
      cases (rest.mapM f).map List.flatten with
      | error e => rfl
      | ok others => exact congrArg Except.ok List.map_append

theorem mapM_flatten_cases {f : α → Except ε (List β)} {g : α → List β} {items : List α}
    (each : ∀ item ∈ items, f item = .ok (g item) ∨ ∃ e, f item = .error e) :
    (∀ item ∈ items, f item = .ok (g item)) ∧ (items.mapM f).map List.flatten = .ok (items.flatMap g) ∨
      ∃ item ∈ items, ∃ e, f item = .error e ∧ (items.mapM f).map List.flatten = .error e := by
  induction items with
  | nil => exact .inl ⟨nofun, rfl⟩
  | cons item rest ih =>
    rw [mapM_flatten_cons]
    rcases each item List.mem_cons_self with fine | ⟨e, failed⟩
    · rcases ih fun other member => each other (List.mem_cons_of_mem _ member) with
        ⟨all, run⟩ | ⟨other, member, e, failed, run⟩
      · refine .inl ⟨List.forall_mem_cons.mpr ⟨fine, all⟩, ?_⟩
        rw [fine, run]
        rfl
      · refine .inr ⟨other, List.mem_cons_of_mem _ member, e, failed, ?_⟩
        rw [fine, run]
        rfl
    · refine .inr ⟨item, List.mem_cons_self, e, failed, ?_⟩
      rw [failed]
      rfl

theorem option_mapM_eq_some {f : α → Option β} {items : List α} {results : List β} :
    items.mapM f = some results ↔ List.Forall₂ (fun item result => f item = some result) items results := by
  induction items generalizing results with
  | nil => simp [eq_comm]
  | cons item rest ih =>
    rw [List.mapM_cons, List.forall₂_cons_left_iff]
    simp only [Option.bind_eq_bind, Option.pure_def, Option.bind_eq_some_iff, Option.some.injEq, ih]
    exact exists_congr fun first => by aesop

theorem option_mapM_eq_some_iff {f : α → Option β} {items : List α} {results : List β} :
    items.mapM f = some results ↔
      (∀ item ∈ items, (f item).isSome) ∧ items.filterMap f = results := by
  induction items generalizing results with
  | nil => simp
  | cons item rest ih =>
    rw [List.mapM_cons, List.forall_mem_cons]
    cases first : f item with
    | none => simp
    | some value =>
      rw [List.filterMap_cons_some first, Option.bind_eq_bind, Option.bind_some]
      simp only [Option.bind_eq_bind, Option.pure_def, Option.bind_eq_some_iff, Option.some.injEq, ih,
        Option.isSome_some, true_and]
      constructor
      · rintro ⟨others, ⟨present, rfl⟩, rfl⟩
        exact ⟨present, rfl⟩
      · rintro ⟨present, rfl⟩
        exact ⟨_, ⟨present, rfl⟩, rfl⟩

theorem getElem?_of_forall₂ {R : α → β → Prop} {items : List α} {results : List β}
    (all : List.Forall₂ R items results) {position : Nat} {item : α} {result : β}
    (here : items[position]? = some item) (there : results[position]? = some result) :
    R item result := by
  induction all generalizing position with
  | nil => simp at here
  | cons first _ ih =>
    cases position with
    | zero =>
      cases here
      cases there
      exact first
    | succ position => exact ih here there

end
end AsapPlanner.Rust
