import AsapPlanner.Grouping.Groups
import Mathlib.Order.Fin.Basic

/-!
Groups come out in the order of their key tuples.
-/

namespace AsapPlanner.Grouping
open Ir Rust Interning Traversal GroupTable

/-! ### Comparisons -/

/-- A comparison that tells the order of two elements. -/
def Agrees {α : Type} [LT α] (order : Ordering) (a b : α) : Prop :=
  (order = .lt ↔ a < b) ∧ (order = .eq ↔ a = b)

theorem Agrees.cons {α : Type} [LT α] [Std.Irrefl (α := α) (· < ·)] {first rest : Ordering}
    {a b : α} {as bs : List α} (head : Agrees first a b) (tail : Agrees rest as bs) :
    Agrees (first.then rest) (a :: as) (b :: bs) := by
  obtain ⟨headLt, headEq⟩ := head
  obtain ⟨tailLt, tailEq⟩ := tail
  unfold Agrees
  rw [List.cons_lt_cons_iff, List.cons.injEq]
  cases first with
  | lt =>
    have less := headLt.mp rfl
    have differ : a ≠ b := fun same => nomatch headEq.mpr same
    simp [Ordering.then, less, differ]
  | eq =>
    have same := headEq.mp rfl
    have notLess : ¬ a < b := fun less => nomatch headLt.mpr less
    simp [Ordering.then, same, tailLt, tailEq]
    exact fun less => (notLess (same ▸ less)).elim
  | gt =>
    have notLess : ¬ a < b := fun less => nomatch headLt.mpr less
    have differ : a ≠ b := fun same => nomatch headEq.mpr same
    simp [Ordering.then, notLess, differ]

theorem compareRanks_agrees {indices : List Nat} {a b : Nat → Nat} {rank : Nat → List Nat}
    {left right : Nat → Key} (each : ∀ index ∈ indices,
      Agrees (compare ((rank index).getD (a index) 0) ((rank index).getD (b index) 0))
        (left index) (right index)) :
    Agrees (compareRanks (indices.map a) (indices.map b) (indices.map rank))
      (indices.map left) (indices.map right) := by
  induction indices with
  | nil => exact ⟨⟨fun h => (nomatch h), fun h => (nomatch h)⟩, ⟨fun _ => rfl, fun _ => rfl⟩⟩
  | cons index indices ih =>
    have rest := ih fun other member => each other (List.mem_cons_of_mem _ member)
    exact (each index List.mem_cons_self).cons rest

/-! ### Ranks -/

theorem foldl_set_other {entries : List (Nat × Nat)} {slots : List Nat} {part : Nat}
    (other : part ∉ entries.map Prod.fst) :
    (entries.foldl (fun slots entry => slots.set entry.1 entry.2) slots)[part]? = slots[part]? := by
  induction entries generalizing slots with
  | nil => rfl
  | cons entry entries ih =>
    rw [List.map_cons, List.mem_cons, not_or] at other
    rw [List.foldl_cons, ih other.2, List.getElem?_set_ne (Ne.symm other.1)]

theorem foldl_set_mem {entries : List (Nat × Nat)} {slots : List Nat}
    (distinct : (entries.map Prod.fst).Nodup) {part position : Nat}
    (member : (part, position) ∈ entries) (inside : part < slots.length) :
    (entries.foldl (fun slots entry => slots.set entry.1 entry.2) slots)[part]? =
      some position := by
  induction entries generalizing slots with
  | nil => cases member
  | cons entry entries ih =>
    rw [List.map_cons, List.nodup_cons] at distinct
    rw [List.foldl_cons]
    rcases List.mem_cons.mp member with here | later
    · rw [← here] at distinct ⊢
      rw [foldl_set_other distinct.1, List.getElem?_set_self inside]
    · exact ih distinct.2 later (by rw [List.length_set]; exact inside)

section Ranks
variable {seen : List Value}

def byKey (seen : List Value) : List (Key × Nat) :=
  (ColumnParts.of seen).partOfKey.mergeSort fun a b => a.1 ≤ b.1

theorem mem_byKey {value : Value} (member : value ∈ seen) :
    (keyOf value, partOf seen value) ∈ byKey seen := by
  rw [byKey, List.mem_mergeSort]
  apply List.mem_iff_getElem?.mpr
  refine ⟨partOf seen value, ?_⟩
  have seenKey : keyOf value ∈ seen.map keyOf := List.mem_map_of_mem member
  obtain ⟨first, held, same⟩ := getElem?_number seenKey
  change ((firsts keyOf seen).map keyOf).zipIdx[partOf seen value]? = _
  rw [List.getElem?_zipIdx, List.getElem?_map]
  unfold partOf
  rw [held, Option.map_some, Option.map_some, same, Nat.zero_add]

theorem byKey_sorted : (byKey seen).Pairwise fun a b => a.1 < b.1 := by
  have sorted : (byKey seen).Pairwise fun a b => a.1 ≤ b.1 := by
    have ordered := @List.pairwise_mergeSort (Key × Nat) (fun a b => a.1 ≤ b.1)
      (fun a b c ab bc => decide_eq_true (Std.le_trans (of_decide_eq_true ab) (of_decide_eq_true bc)))
      (fun a b => by
        rw [Bool.or_eq_true, decide_eq_true_iff, decide_eq_true_iff]
        exact Std.le_total) (ColumnParts.of seen).partOfKey
    exact ordered.imp of_decide_eq_true
  have distinct : (byKey seen).Pairwise fun a b => a.1 ≠ b.1 := by
    have keys : ((ColumnParts.of seen).partOfKey).Pairwise fun a b => a.1 ≠ b.1 := by
      apply List.pairwise_map.mp
      change (((firsts keyOf seen).map keyOf).zipIdx.map Prod.fst).Pairwise _
      rw [List.zipIdx_map_fst]
      exact nodup_keys_firsts
    exact (List.mergeSort_perm _ _).symm.pairwise keys fun different => different.symm
  exact (sorted.and distinct).imp fun both => Std.lt_of_le_of_ne both.1 both.2

theorem rank_of {value : Value} (member : value ∈ seen) :
    ∃ position, (ColumnParts.of seen).ranks[partOf seen value]? = some position ∧
      (byKey seen)[position]? = some (keyOf value, partOf seen value) := by
  obtain ⟨position, here⟩ := List.mem_iff_getElem?.mp (mem_byKey member)
  refine ⟨position, ?_, here⟩
  have sets : (ColumnParts.of seen).ranks = ((byKey seen).zipIdx.map fun entry =>
      (entry.1.2, entry.2)).foldl (fun slots entry => slots.set entry.1 entry.2)
        (List.replicate (byKey seen).length 0) := by
    rw [List.foldl_map]
    rfl
  have distinct : (((byKey seen).zipIdx.map fun entry =>
      (entry.1.2, entry.2)).map Prod.fst).Nodup := by
    have parts : ((byKey seen).zipIdx.map fun entry => (entry.1.2, entry.2)).map Prod.fst =
        ((byKey seen).zipIdx.map Prod.fst).map Prod.snd := by
      rw [List.map_map, List.map_map]
      rfl
    rw [parts, List.zipIdx_map_fst]
    have perm := (List.mergeSort_perm (ColumnParts.of seen).partOfKey
      (fun a b => decide (a.1 ≤ b.1))).map Prod.snd
    refine perm.nodup_iff.mpr ?_
    change (((firsts keyOf seen).map keyOf).zipIdx.map Prod.snd).Nodup
    rw [List.zipIdx_map_snd]
    exact List.nodup_range'
  rw [sets]
  apply foldl_set_mem distinct
  · refine List.mem_map.mpr ⟨((keyOf value, partOf seen value), position), ?_, rfl⟩
    apply List.mem_iff_getElem?.mpr
    refine ⟨position, ?_⟩
    rw [List.getElem?_zipIdx, here, Option.map_some, Nat.zero_add]
  · have inside : partOf seen value < (firsts keyOf seen).length :=
      number_lt (List.mem_map_of_mem member)
    have length : (byKey seen).length = (firsts keyOf seen).length := by
      rw [byKey, List.length_mergeSort]
      change (((firsts keyOf seen).map keyOf).zipIdx).length = _
      rw [List.length_zipIdx, List.length_map]
    rw [List.length_replicate, length]
    exact inside

theorem ranks_agree {v w : Value} (member : v ∈ seen) (member' : w ∈ seen) :
    Agrees (compare ((ColumnParts.of seen).ranks.getD (partOf seen v) 0)
      ((ColumnParts.of seen).ranks.getD (partOf seen w) 0)) (keyOf v) (keyOf w) := by
  obtain ⟨i, rankV, here⟩ := rank_of member
  obtain ⟨j, rankW, there⟩ := rank_of member'
  have ordered : ∀ (i j : Nat) (a b : Key × Nat), (byKey seen)[i]? = some a → (byKey seen)[j]? = some b → i < j →
      a.1 < b.1 := by
    intro i j a b here there before
    obtain ⟨inside, same⟩ := List.getElem?_eq_some_iff.mp here
    obtain ⟨inside', same'⟩ := List.getElem?_eq_some_iff.mp there
    rw [← same, ← same']
    exact List.pairwise_iff_getElem.mp byKey_sorted i j inside inside' before
  rw [List.getD_eq_getElem?_getD, List.getD_eq_getElem?_getD, rankV, rankW, Option.getD_some,
    Option.getD_some]
  unfold Agrees
  rw [Nat.compare_eq_lt, Nat.compare_eq_eq]
  rcases Nat.lt_trichotomy i j with before | same | after
  · have less := ordered i j _ _ here there before
    refine ⟨⟨fun _ => less, fun _ => before⟩, ⟨fun equal => by omega, fun equal => ?_⟩⟩
    exact (Std.lt_irrefl (equal ▸ less)).elim
  · rw [same, there] at here
    have equal : keyOf w = keyOf v := (Prod.mk.inj (Option.some.inj here)).1
    refine ⟨⟨fun before => by omega, fun less => ?_⟩, ⟨fun _ => equal.symm, fun _ => same⟩⟩
    exact (Std.lt_irrefl (equal ▸ less)).elim
  · have greater := ordered j i _ _ there here after
    refine ⟨⟨fun before => by omega, fun less => ?_⟩, ⟨fun equal => by omega, fun equal => ?_⟩⟩
    · exact (Std.lt_irrefl (Std.lt_trans less greater)).elim
    · exact (Std.lt_irrefl (equal ▸ greater)).elim

end Ranks

/-! ### The order of groups -/

section Groups
variable {columns : List Nat} {own : List Bool} {all : List (List Value)} {table : GroupTable}

theorem keysOf_eq_map {row : List Value} {width : Nat} (shape : row.length = width) :
    keysOf row = (List.range width).map fun index => keyOf (row.getD index .null) := by
  unfold keysOf
  apply List.ext_getElem
  · simp [shape]
  · intro index inside inside'
    rw [List.length_map] at inside
    simp [inside]

theorem partsOf_eq_map {row : List Value} {width : Nat} (shape : row.length = width) :
    partsOf all (keysOf row) =
      (List.range width).map fun index => partOf (columnOf index all) (row.getD index .null) := by
  apply List.ext_getElem?
  intro index
  rw [getElem?_partsOf, List.getElem?_map]
  by_cases inside : index < width
  · rw [List.getElem?_range inside, Option.map_some, List.getD_eq_getElem?_getD,
      List.getElem?_eq_getElem (shape ▸ inside)]
    rfl
  · rw [List.getElem?_eq_none (by omega), List.getElem?_eq_none (by rw [List.length_range]; omega)]
    rfl

theorem compareRanks_rows (holds : Holds columns own all all table) {row other : List Value}
    (member : row ∈ all) (member' : other ∈ all) :
    Agrees (compareRanks (partsOf all (keysOf row)) (partsOf all (keysOf other))
      (table.parts.map ColumnParts.ranks)) (keysOf row) (keysOf other) := by
  have shape := holds.shape row member
  have shape' := holds.shape other member'
  rw [partsOf_eq_map shape, partsOf_eq_map shape', keysOf_eq_map shape, keysOf_eq_map shape',
    holds.parts, List.map_map]
  apply compareRanks_agrees
  intro index inRange
  have inside := List.mem_range.mp inRange
  have here : ∀ row ∈ all, row.getD index .null ∈ columnOf index all :=
    fun row member => List.mem_map.mpr ⟨row, member, rfl⟩
  exact ranks_agree (here row member) (here other member')

def groupKeys (all : List (List Value)) : List (List Key) := (firsts keysOf all).map keysOf

theorem group_row (holds : Holds columns own all all table) {group : Nat}
    (inside : group < table.partsOfGroup.length) : ∃ row ∈ all,
      table.partsOfGroup.getD group [] = partsOf all (keysOf row) ∧
      (groupKeys all).getD group [] = keysOf row := by
  have bound : group < (firsts keysOf all).length := by
    rw [holds.partsOfGroup, List.length_map] at inside
    exact inside
  refine ⟨(firsts keysOf all)[group], mem_of_mem_firsts (List.getElem_mem bound), ?_, ?_⟩
  · rw [holds.partsOfGroup, List.getD_eq_getElem?_getD, List.getElem?_map,
      List.getElem?_eq_getElem bound]
    rfl
  · rw [groupKeys, List.getD_eq_getElem?_getD, List.getElem?_map, List.getElem?_eq_getElem bound]
    rfl

theorem isLE_iff {α : Type} [LT α] [LE α] [Std.IsLinearOrder α] [Std.LawfulOrderLT α]
    {order : Ordering} {a b : α} (agrees : Agrees order a b) : order.isLE = true ↔ a ≤ b := by
  rw [Std.le_iff_lt_or_eq, ← agrees.1, ← agrees.2]
  cases order <;> decide

theorem groupsInKeyOrder_keys (holds : Holds columns own all all table) :
    (groupsInKeyOrder table).map (fun group => (groupKeys all).getD group []) =
      (groupKeys all).mergeSort fun a b => a ≤ b := by
  have groups : table.partsOfGroup.length = (groupKeys all).length := by
    rw [holds.partsOfGroup, groupKeys, List.length_map, List.length_map]
  have keys : (List.range table.partsOfGroup.length).map
      (fun group => (groupKeys all).getD group []) = groupKeys all := by
    rw [groups]
    apply List.ext_getElem
    · simp
    · intro index inside inside'
      simp [inside']
  unfold groupsInKeyOrder
  dsimp only
  have ordered : ∀ a ∈ List.range table.partsOfGroup.length,
      ∀ b ∈ List.range table.partsOfGroup.length,
      (compareRanks (table.partsOfGroup.getD a []) (table.partsOfGroup.getD b [])
        (table.parts.map ColumnParts.ranks)).isLE =
        decide ((groupKeys all).getD a [] ≤ (groupKeys all).getD b []) := by
    intro a inA b inB
    obtain ⟨row, member, partsA, keysA⟩ := group_row holds (List.mem_range.mp inA)
    obtain ⟨other, member', partsB, keysB⟩ := group_row holds (List.mem_range.mp inB)
    rw [partsA, partsB, keysA, keysB, Bool.eq_iff_iff, decide_eq_true_iff]
    exact isLE_iff (compareRanks_rows holds member member')
  have sorted := @List.map_mergeSort _ _ _ (fun a b => decide (a ≤ b))
    (fun group => (groupKeys all).getD group []) _ ordered
  rw [keys] at sorted
  exact sorted

end Groups
end AsapPlanner.Grouping
