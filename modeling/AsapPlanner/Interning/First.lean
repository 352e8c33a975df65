import Mathlib.Data.List.Basic
import Mathlib.Data.List.Nodup
import Mathlib.Data.List.Infix
import Mathlib.Data.Set.Function

/-!
Numbering by first appearance: the first element of each key, and a key's number among them.
-/

namespace AsapPlanner.Interning

variable {α κ ν : Type} [DecidableEq κ] [DecidableEq ν]

/-- Keep an element unless one of its key is kept. -/
def addFirst (key : α → κ) (kept : List α) (item : α) : List α :=
  if key item ∈ kept.map key then kept else kept ++ [item]

/-- The first element of each key, in order of appearance. -/
def firsts (key : α → κ) (items : List α) : List α := items.foldl (addFirst key) []

/-- The number of a key: how many keys appeared before it. -/
def number (key : α → κ) (items : List α) (k : κ) : Nat := ((firsts key items).map key).idxOf k

section First
variable {key : α → κ} {items more : List α} {item : α} {k : κ}

@[simp] theorem firsts_nil : firsts key [] = [] := rfl

theorem firsts_snoc : firsts key (items ++ [item]) = addFirst key (firsts key items) item := by
  unfold firsts
  rw [List.foldl_append]
  rfl

theorem mem_keys_firsts : k ∈ (firsts key items).map key ↔ k ∈ items.map key := by
  induction items using List.reverseRecOn with
  | nil => simp
  | append_singleton items item ih =>
    rw [firsts_snoc, List.map_append, List.mem_append, ← ih]
    unfold addFirst
    by_cases known : key item ∈ (firsts key items).map key
    · rw [if_pos known]
      constructor
      · exact .inl
      · rintro (earlier | here)
        · exact earlier
        · rw [List.map_singleton, List.mem_singleton] at here
          rw [here]
          exact known
    · rw [if_neg known, List.map_append, List.mem_append]

theorem nodup_keys_firsts : ((firsts key items).map key).Nodup := by
  induction items using List.reverseRecOn with
  | nil => exact List.nodup_nil
  | append_singleton items item ih =>
    rw [firsts_snoc]
    unfold addFirst
    by_cases known : key item ∈ (firsts key items).map key
    · rw [if_pos known]
      exact ih
    · rw [if_neg known, List.map_append, List.map_singleton]
      apply List.nodup_append.mpr ⟨ih, List.nodup_singleton _, ?_⟩
      intro a member b only same
      rw [List.mem_singleton.mp only] at same
      exact known (same ▸ member)

theorem firsts_known (known : key item ∈ items.map key) :
    firsts key (items ++ [item]) = firsts key items := by
  rw [firsts_snoc]
  exact if_pos (mem_keys_firsts.mpr known)

theorem firsts_new (fresh : key item ∉ items.map key) :
    firsts key (items ++ [item]) = firsts key items ++ [item] := by
  rw [firsts_snoc]
  exact if_neg fun known => fresh (mem_keys_firsts.mp known)

theorem firsts_of_nodup (distinct : (items.map key).Nodup) : firsts key items = items := by
  induction items using List.reverseRecOn with
  | nil => rfl
  | append_singleton items item ih =>
    rw [List.map_append, List.nodup_append] at distinct
    rw [firsts_new fun known => distinct.2.2 _ known _ (List.mem_singleton_self _) rfl, ih distinct.1]

theorem firsts_prefix : firsts key items <+: firsts key (items ++ more) := by
  induction more using List.reverseRecOn with
  | nil => rw [List.append_nil]
  | append_singleton more item ih =>
    rw [← List.append_assoc, firsts_snoc]
    unfold addFirst
    split
    · exact ih
    · exact ih.trans (List.prefix_append _ _)

theorem length_firsts_le : (firsts key items).length ≤ items.length := by
  induction items using List.reverseRecOn with
  | nil => exact Nat.le_refl _
  | append_singleton items item ih =>
    rw [firsts_snoc, List.length_append, List.length_singleton]
    unfold addFirst
    split
    · omega
    · rw [List.length_append, List.length_singleton]
      omega

theorem mem_firsts : item ∈ firsts key items ↔
    ∃ before after, items = before ++ item :: after ∧ key item ∉ before.map key := by
  induction items using List.reverseRecOn with
  | nil => simp
  | append_singleton items last ih =>
    have kept : item ∈ firsts key (items ++ [last]) ↔
        item ∈ firsts key items ∨ item = last ∧ key last ∉ items.map key := by
      by_cases known : key last ∈ items.map key
      · rw [firsts_known known]
        simp [known]
      · rw [firsts_new known, List.mem_append, List.mem_singleton]
        simp [known]
    rw [kept, ih]
    constructor
    · rintro (⟨before, after, split, fresh⟩ | ⟨same, fresh⟩)
      · exact ⟨before, after ++ [last], by rw [split]; simp, fresh⟩
      · exact ⟨items, [], by rw [same], same ▸ fresh⟩
    · rintro ⟨before, after, split, fresh⟩
      rcases List.eq_nil_or_concat after with none | ⟨init, final, some⟩
      · rw [none] at split
        obtain ⟨same, one⟩ := List.append_inj' split rfl
        have equal : last = item := List.singleton_inj.mp one
        refine .inr ⟨equal.symm, ?_⟩
        rw [same, equal]
        exact fresh
      · rw [some, List.concat_eq_append, ← List.cons_append, ← List.append_assoc] at split
        obtain ⟨same, _⟩ := List.append_inj' split rfl
        exact .inl ⟨before, init, same, fresh⟩

theorem mem_of_mem_firsts (kept : item ∈ firsts key items) : item ∈ items := by
  obtain ⟨before, after, split, _⟩ := mem_firsts.mp kept
  rw [split]
  simp

/-! ### Numbers -/

theorem number_lt (seen : k ∈ items.map key) : number key items k < (firsts key items).length := by
  have kept := mem_keys_firsts.mpr seen
  have inside := List.idxOf_lt_length_of_mem kept
  rw [List.length_map] at inside
  exact inside

theorem number_append (seen : k ∈ items.map key) :
    number key (items ++ more) k = number key items k := by
  have longer : (firsts key items).map key <+: (firsts key (items ++ more)).map key :=
    firsts_prefix.map key
  exact (longer.idxOf_eq_of_mem (mem_keys_firsts.mpr seen)).symm

theorem number_new (fresh : key item ∉ items.map key) :
    number key (items ++ [item]) (key item) = (firsts key items).length := by
  have absent : key item ∉ (firsts key items).map key := fun kept => fresh (mem_keys_firsts.mp kept)
  unfold number
  rw [firsts_new fresh, List.map_append, List.idxOf_append_of_notMem absent, List.map_singleton,
    List.idxOf_cons_self, List.length_map, Nat.add_zero]

theorem number_inj {j : κ} (seen : j ∈ items.map key) (seen' : k ∈ items.map key) :
    number key items j = number key items k ↔ j = k := by
  constructor
  · intro same
    have left := List.getElem_idxOf (List.idxOf_lt_length_of_mem (mem_keys_firsts.mpr seen))
    have right := List.getElem_idxOf (List.idxOf_lt_length_of_mem (mem_keys_firsts.mpr seen'))
    unfold number at same
    rw [← left, ← right]
    congr 1
  · intro same
    rw [same]

theorem number_getElem {index : Nat} (inside : index < (firsts key items).length) :
    number key items (key (firsts key items)[index]) = index := by
  have bound : index < ((firsts key items).map key).length := by
    rw [List.length_map]
    exact inside
  have kept : key (firsts key items)[index] = ((firsts key items).map key)[index] := by
    rw [List.getElem_map]
  unfold number
  rw [kept, nodup_keys_firsts.idxOf_getElem index bound]

theorem getElem?_number (seen : k ∈ items.map key) :
    ∃ item, (firsts key items)[number key items k]? = some item ∧ key item = k := by
  have inside := number_lt seen
  refine ⟨_, List.getElem?_eq_getElem inside, ?_⟩
  have found := List.getElem_idxOf (List.idxOf_lt_length_of_mem (mem_keys_firsts.mpr seen))
  rw [List.getElem_map] at found
  exact found

theorem find?_eq_getElem? (seen : k ∈ items.map key) :
    items.find? (fun item => key item = k) = (firsts key items)[number key items k]? := by
  obtain ⟨item, held, same⟩ := getElem?_number seen
  obtain ⟨before, after, split, fresh⟩ := mem_firsts.mp (List.mem_of_getElem? held)
  have none : before.find? (fun other => key other = k) = none := by
    apply List.find?_eq_none.mpr
    intro other member twin
    exact fresh (same ▸ of_decide_eq_true twin ▸ List.mem_map_of_mem member)
  rw [held, split, List.find?_append, none, Option.none_or, List.find?_cons_of_pos]
  exact decide_eq_true same

theorem firsts_rename {rename : κ → ν} (oneToOne : Set.InjOn rename {k | k ∈ items.map key}) :
    firsts (rename ∘ key) items = firsts key items := by
  induction items using List.reverseRecOn with
  | nil => rfl
  | append_singleton items item ih =>
    have known : ∀ k ∈ items.map key, k ∈ (items ++ [item]).map key := by
      intro k seen
      rw [List.map_append]
      exact List.mem_append_left _ seen
    have last : key item ∈ (items ++ [item]).map key :=
      List.mem_map_of_mem (List.mem_append_right _ List.mem_cons_self)
    have earlier := ih (oneToOne.mono known)
    by_cases seen : key item ∈ items.map key
    · have renamed : (rename ∘ key) item ∈ items.map (rename ∘ key) := by
        rw [← List.map_map]
        exact List.mem_map_of_mem seen
      rw [firsts_known seen, firsts_known renamed, earlier]
    · have renamed : (rename ∘ key) item ∉ items.map (rename ∘ key) := by
        intro twin
        obtain ⟨other, member, same⟩ := List.mem_map.mp twin
        have equal := oneToOne (known _ (List.mem_map_of_mem member)) last same
        exact seen (equal ▸ List.mem_map_of_mem member)
      rw [firsts_new seen, firsts_new renamed, earlier]

theorem number_rename {rename : κ → ν} (oneToOne : Set.InjOn rename {k | k ∈ items.map key})
    (seen : k ∈ items.map key) : number (rename ∘ key) items (rename k) = number key items k := by
  obtain ⟨item, held, same⟩ := getElem?_number seen
  obtain ⟨inside, here⟩ := List.getElem?_eq_some_iff.mp held
  have kept := firsts_rename oneToOne
  have inside' : number key items k < (firsts (rename ∘ key) items).length := by
    rw [kept]
    exact inside
  have numbered := number_getElem inside'
  have there : (firsts (rename ∘ key) items)[number key items k] = item := by
    rw [← here]
    congr 1
  rw [there] at numbered
  rw [← numbered, Function.comp_apply, same]

end First
end AsapPlanner.Interning
