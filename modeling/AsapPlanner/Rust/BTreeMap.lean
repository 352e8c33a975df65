import Mathlib.Data.List.Basic
import Mathlib.Data.List.Induction
import Mathlib.Data.List.Pairwise
import Mathlib.Order.Basic
import Mathlib.Order.Defs.LinearOrder
import Mathlib.Order.Lattice
import Mathlib.Tactic.Common

/-!
An ordered map as its entries in ascending order of their keys.
-/

namespace AsapPlanner.Rust

section
variable {κ ν : Type} [LinearOrder κ]

/-- Ascending entries with `key`'s value put through `change`, `start` where it has none. -/
def changeEntry (key : κ) (start : ν) (change : ν → ν) : List (κ × ν) → List (κ × ν)
  | [] => [(key, change start)]
  | (other, value) :: rest =>
    if key < other then (key, change start) :: (other, value) :: rest
    else if key = other then (other, change value) :: rest
    else (other, value) :: changeEntry key start change rest

def entryAt (key : κ) : List (κ × ν) → Option ν
  | [] => none
  | (other, value) :: rest => if other = key then some value else entryAt key rest

theorem mem_changeEntry_key {key : κ} {start : ν} {change : ν → ν} {entries : List (κ × ν)}
    {entry : κ × ν} (member : entry ∈ changeEntry key start change entries) :
    entry.1 = key ∨ entry ∈ entries := by
  induction entries with
  | nil => simp_all [changeEntry]
  | cons head rest ih =>
    obtain ⟨other, value⟩ := head
    unfold changeEntry at member
    split_ifs at member with before here
    · rcases List.mem_cons.mp member with rfl | kept
      · exact .inl rfl
      · exact .inr kept
    · rcases List.mem_cons.mp member with rfl | kept
      · exact .inl here.symm
      · exact .inr (List.mem_cons_of_mem _ kept)
    · rcases List.mem_cons.mp member with rfl | kept
      · exact .inr List.mem_cons_self
      · exact (ih kept).imp id (List.mem_cons_of_mem _)

theorem changeEntry_sorted {key : κ} {start : ν} {change : ν → ν} {entries : List (κ × ν)}
    (sorted : entries.Pairwise fun x y => x.1 < y.1) :
    (changeEntry key start change entries).Pairwise fun x y => x.1 < y.1 := by
  induction entries with
  | nil => exact List.pairwise_singleton ..
  | cons head rest ih =>
    obtain ⟨other, value⟩ := head
    obtain ⟨first, later⟩ := List.pairwise_cons.mp sorted
    unfold changeEntry
    split_ifs with before here
    · refine List.pairwise_cons.mpr ⟨fun entry member => ?_, sorted⟩
      rcases List.mem_cons.mp member with rfl | below
      · exact before
      · exact before.trans (first entry below)
    · exact List.pairwise_cons.mpr ⟨first, later⟩
    · refine List.pairwise_cons.mpr ⟨fun entry member => ?_, ih later⟩
      rcases mem_changeEntry_key member with same | kept
      · exact same ▸ lt_of_le_of_ne (not_lt.mp before) (Ne.symm here)
      · exact first entry kept

theorem entryAt_of_below {key : κ} {entries : List (κ × ν)}
    (below : ∀ entry ∈ entries, key < entry.1) : entryAt key entries = none := by
  induction entries with
  | nil => rfl
  | cons head rest ih =>
    have apart : head.1 ≠ key := (below head List.mem_cons_self).ne'
    simp only [entryAt, if_neg apart]
    exact ih fun entry member => below entry (List.mem_cons_of_mem _ member)

theorem mem_entryAt {key : κ} {value : ν} {entries : List (κ × ν)}
    (sorted : entries.Pairwise fun x y => x.1 < y.1) :
    (key, value) ∈ entries ↔ entryAt key entries = some value := by
  induction entries with
  | nil => simp [entryAt]
  | cons head rest ih =>
    obtain ⟨other, held⟩ := head
    obtain ⟨first, later⟩ := List.pairwise_cons.mp sorted
    by_cases here : other = key
    · subst here
      have absent : (other, value) ∉ rest := fun member => (first _ member).false
      simp [entryAt, absent, eq_comm]
    · simp [entryAt, here, Ne.symm here, ih later]

theorem entryAt_changeEntry {key other : κ} {start : ν} {change : ν → ν} {entries : List (κ × ν)}
    (sorted : entries.Pairwise fun x y => x.1 < y.1) :
    entryAt other (changeEntry key start change entries) =
      if other = key then some (change ((entryAt key entries).getD start))
      else entryAt other entries := by
  induction entries with
  | nil => by_cases same : key = other <;> simp [changeEntry, entryAt, same, eq_comm]
  | cons head rest ih =>
    obtain ⟨first, value⟩ := head
    obtain ⟨below, later⟩ := List.pairwise_cons.mp sorted
    unfold changeEntry
    by_cases before : key < first
    · have absent := entryAt_of_below fun entry member => before.trans (below entry member)
      by_cases same : key = other
      · subst same
        simp [before, entryAt, before.ne', absent]
      · simp [before, entryAt, same, Ne.symm same]
    · by_cases here : key = first
      · subst here
        by_cases same : key = other
        · simp [entryAt, same]
        · simp [entryAt, same, Ne.symm same]
      · by_cases same : first = other
        · subst same
          simp [before, here, entryAt, Ne.symm here]
        · simp [before, here, entryAt, same, ih later, Ne.symm here]

theorem changeEntry_keys {key : κ} {start value : ν} {change : ν → ν} {entries : List (κ × ν)}
    (sorted : entries.Pairwise fun x y => x.1 < y.1) (there : entryAt key entries = some value) :
    (changeEntry key start change entries).map Prod.fst = entries.map Prod.fst := by
  induction entries with
  | nil => cases there
  | cons head rest ih =>
    obtain ⟨first, held⟩ := head
    obtain ⟨below, later⟩ := List.pairwise_cons.mp sorted
    unfold changeEntry
    unfold entryAt at there
    split_ifs with before here
    · rw [if_neg before.ne', entryAt_of_below fun entry member => before.trans (below entry member)] at there
      cases there
    · rfl
    · rw [if_neg (Ne.symm here)] at there
      rw [List.map_cons, List.map_cons, ih later there]

end

structure BTreeMap (κ ν : Type) [LinearOrder κ] where
  entries : List (κ × ν)
  sorted : entries.Pairwise fun x y => x.1 < y.1

namespace BTreeMap
variable {κ ν : Type} [LinearOrder κ]

def empty : BTreeMap κ ν := ⟨[], List.Pairwise.nil⟩

def get? (map : BTreeMap κ ν) (key : κ) : Option ν := entryAt key map.entries

/-- `*map.entry(key).or_insert(start) = change(…)`. -/
def change (map : BTreeMap κ ν) (key : κ) (start : ν) (change : ν → ν) : BTreeMap κ ν :=
  ⟨changeEntry key start change map.entries, changeEntry_sorted map.sorted⟩

def remove (map : BTreeMap κ ν) (key : κ) : BTreeMap κ ν :=
  ⟨map.entries.filter fun entry => entry.1 ≠ key, map.sorted.filter _⟩

def retain (map : BTreeMap κ ν) (keep : κ → ν → Bool) : BTreeMap κ ν :=
  ⟨map.entries.filter fun entry => keep entry.1 entry.2, map.sorted.filter _⟩

def insert (map : BTreeMap κ ν) (key : κ) (value : ν) : BTreeMap κ ν :=
  map.change key value fun _ => value

instance [DecidableEq ν] : DecidableEq (BTreeMap κ ν) := fun a b =>
  decidable_of_iff (a.entries = b.entries)
    ⟨fun same => by cases a; cases b; cases same; rfl, fun same => same ▸ rfl⟩

theorem mem_entries {map : BTreeMap κ ν} {key : κ} {value : ν} :
    (key, value) ∈ map.entries ↔ map.get? key = some value :=
  mem_entryAt map.sorted

theorem keys_nodup (map : BTreeMap κ ν) : (map.entries.map Prod.fst).Nodup := by
  rw [List.Nodup, List.pairwise_map]
  exact map.sorted.imp ne_of_lt

@[simp] theorem get?_empty (key : κ) : (empty : BTreeMap κ ν).get? key = none := rfl

@[simp] theorem get?_change (map : BTreeMap κ ν) (key other : κ) (start : ν) (change : ν → ν) :
    (map.change key start change).get? other =
      if other = key then some (change ((map.get? key).getD start)) else map.get? other :=
  entryAt_changeEntry map.sorted

@[simp] theorem get?_remove (map : BTreeMap κ ν) (key other : κ) :
    (map.remove key).get? other = if other = key then none else map.get? other := by
  apply Option.ext
  intro value
  rw [← mem_entries]
  by_cases same : other = key
  · simp [remove, same]
  · simp [remove, same, mem_entries]

@[simp] theorem get?_retain (map : BTreeMap κ ν) (keep : κ → ν → Bool) (key : κ) :
    (map.retain keep).get? key = (map.get? key).filter (keep key) := by
  apply Option.ext
  intro value
  rw [← mem_entries, Option.filter_eq_some_iff, ← mem_entries]
  exact List.mem_filter

@[simp] theorem get?_insert (map : BTreeMap κ ν) (key other : κ) (value : ν) :
    (map.insert key value).get? other = if other = key then some value else map.get? other :=
  get?_change map key other value fun _ => value

theorem ext_get? {a b : BTreeMap κ ν} (same : ∀ key, a.get? key = b.get? key) : a = b := by
  have members : ∀ entry, entry ∈ a.entries ↔ entry ∈ b.entries := by
    intro entry
    rw [show entry = (entry.1, entry.2) from rfl, mem_entries, mem_entries, same]
  have distinct (map : BTreeMap κ ν) : map.entries.Nodup :=
    map.sorted.imp fun below equal => (equal ▸ below).false
  have permuted : a.entries.Perm b.entries :=
    (List.perm_ext_iff_of_nodup (distinct a) (distinct b)).mpr members
  have entries : a.entries = b.entries :=
    permuted.eq_of_pairwise (fun x y _ _ below above => absurd (below.trans above) (lt_irrefl _))
      a.sorted b.sorted
  cases a
  cases b
  cases entries
  rfl

theorem get?_foldl_change {ι : Type} (items : List ι) (keyOf : ι → κ) (start : ν) (put : ι → ν → ν) (key : κ) :
    (items.foldl (fun map item => map.change (keyOf item) start (put item)) (empty : BTreeMap κ ν)).get? key =
      if items.filter (keyOf · = key) = [] then none
      else some ((items.filter (keyOf · = key)).foldl (fun value item => put item value) start) := by
  induction items using List.reverseRecOn with
  | nil => rfl
  | append_singleton before last ih =>
    rw [List.foldl_append, List.foldl_cons, List.foldl_nil, get?_change, List.filter_append]
    by_cases here : key = keyOf last
    · subst here
      have mine : [last].filter (keyOf · = keyOf last) = [last] := by simp
      have full : before.filter (keyOf · = keyOf last) ++ [last] ≠ [] := by simp
      rw [if_pos rfl, ih, mine, if_neg full, List.foldl_append, List.foldl_cons, List.foldl_nil]
      split
      next none => rw [none, Option.getD_none, List.foldl_nil]
      next => rw [Option.getD_some]
    · have none : [last].filter (keyOf · = key) = [] := by simp [Ne.symm here]
      rw [if_neg here, ih, none, List.append_nil]

end BTreeMap
end AsapPlanner.Rust
