import Mathlib.Data.Finset.Card
import Mathlib.Logic.Relation
import Mathlib.Algebra.Order.Group.Nat
import Mathlib.Data.List.Nodup
import Mathlib.Logic.Function.Basic
import Mathlib.Order.MinMax

/-!
Ranks of a finite relation without cycles: along every step they rise, and they stay below the number of
keys they are given to. Kahn's algorithm: the items `0 … n - 1`, each after every item it reads, the
smallest first among those ready.
-/

namespace AsapPlanner.Traversal
open Relation

variable {K ι : Type} {r : K → K → Prop}

/-- No key leads back to itself. -/
def Acyclic (r : K → K → Prop) : Prop := ∀ key, ¬ TransGen r key key

theorem Acyclic.mono {s : K → K → Prop} (acyclic : Acyclic s) (fewer : ∀ a b, r a b → s a b) :
    Acyclic r := fun key cycle => acyclic key (TransGen.mono fewer _ _ cycle)

theorem transGen_lt {α : Type} [Preorder α] {rank : K → α} (rises : ∀ a b, r a b → rank a < rank b)
    {a b : K} (path : TransGen r a b) : rank a < rank b := by
  induction path with
  | single step => exact rises _ _ step
  | tail _ step ih => exact ih.trans (rises _ _ step)

theorem acyclic_of_rank {α : Type} [Preorder α] {rank : K → α}
    (rises : ∀ a b, r a b → rank a < rank b) : Acyclic r :=
  fun _ cycle => lt_irrefl _ (transGen_lt rises cycle)

theorem TransGen.leadingBack {a b : K} (there : TransGen r a b) (back : ReflTransGen r b a) :
    TransGen (fun x y => r x y ∧ TransGen r y x) a b := by
  induction there with
  | single step =>
    refine .single ⟨step, ?_⟩
    rcases reflTransGen_iff_eq_or_transGen.mp back with rfl | path
    · exact .single step
    · exact path
  | tail before step ih =>
    exact .tail (ih (.head step back)) ⟨step, TransGen.trans_right back before⟩

theorem Acyclic.exists_ranks [DecidableEq ι] (acyclic : Acyclic r) (nodes : Finset K)
    (part : K → ι) :
    ∃ rank : K → Nat,
      (∀ a ∈ nodes, ∀ b ∈ nodes, part a = part b → r a b → rank a < rank b) ∧
      ∀ a ∈ nodes, rank a < (nodes.filter fun b => part b = part a).card := by
  classical
  let before (b : K) := nodes.filter fun a => part a = part b ∧ TransGen r a b
  refine ⟨fun b => (before b).card, ?_, ?_⟩
  · intro a aNode b _ same step
    apply Finset.card_lt_card
    rw [Finset.ssubset_iff_of_subset]
    · refine ⟨a, Finset.mem_filter.mpr ⟨aNode, same, .single step⟩, ?_⟩
      intro member
      exact acyclic a (Finset.mem_filter.mp member).2.2
    · intro other member
      obtain ⟨node, alike, path⟩ := Finset.mem_filter.mp member
      exact Finset.mem_filter.mpr ⟨node, alike.trans same, path.tail step⟩
  · intro a aNode
    apply Finset.card_lt_card
    rw [Finset.ssubset_iff_of_subset]
    · refine ⟨a, Finset.mem_filter.mpr ⟨aNode, rfl⟩, ?_⟩
      intro member
      exact acyclic a (Finset.mem_filter.mp member).2.2
    · intro other member
      obtain ⟨node, alike, _⟩ := Finset.mem_filter.mp member
      exact Finset.mem_filter.mpr ⟨node, alike⟩

/-! ### Kahn's algorithm -/

/-- The ready items, what each item still waits for, and the order so far. -/
structure Sorting where
  ready : List Nat
  waiting : Nat → Nat
  order : List Nat

def Sorting.release (state : Sorting) (reader : Nat) : Sorting :=
  let left := state.waiting reader - 1
  { state with
    waiting := Function.update state.waiting reader left
    ready := if left = 0 then reader :: state.ready else state.ready }

section Kahn
variable (n : Nat) (reads : Nat → List Nat)

def readersOf (item : Nat) : List Nat := (List.range n).filter fun reader => item ∈ reads reader

def Sorting.take (state : Sorting) (item : Nat) : Sorting :=
  (readersOf n reads item).foldl Sorting.release
    { state with ready := state.ready.erase item, order := state.order ++ [item] }

def sorting : Nat → Sorting → List Nat
  | 0, state => state.order
  | fuel + 1, state =>
    match state.ready.min? with
    | none => state.order
    | some item => sorting fuel (state.take n reads item)

def Sorting.start : Sorting where
  ready := (List.range n).filter fun item => (reads item).length = 0
  waiting item := (reads item).length
  order := []

/-- All items in reading order, or `none` when some never get ready. -/
def topologicalOrder : Option (List Nat) :=
  let order := sorting n reads n (Sorting.start n reads)
  if order.length = n then some order else none

/-- Every item comes after those it reads. -/
def Respects (order : List Nat) : Prop :=
  ∀ before item after, order = before ++ item :: after → ∀ read ∈ reads item, read ∈ before

/-- What every state of the loop has. -/
structure Sorting.Sound (state : Sorting) : Prop where
  distinct : state.order.Nodup
  inside : ∀ item ∈ state.order, item < n
  respects : Respects reads state.order
  waiting : ∀ item < n, state.waiting item = (reads item).countP (· ∉ state.order)
  ready : ∀ item, item ∈ state.ready ↔ item < n ∧ item ∉ state.order ∧ state.waiting item = 0
  distinctReady : state.ready.Nodup

end Kahn

section
variable {n : Nat} {reads : Nat → List Nat} {state : Sorting}

theorem foldl_release (readers : List Nat) (distinct : readers.Nodup) :
    (readers.foldl Sorting.release state).order = state.order ∧
    (∀ item, (readers.foldl Sorting.release state).waiting item =
      state.waiting item - if item ∈ readers then 1 else 0) ∧
    (readers.foldl Sorting.release state).ready =
      (readers.filter fun reader => state.waiting reader - 1 = 0).reverse ++ state.ready := by
  induction readers generalizing state with
  | nil => simp
  | cons reader rest ih =>
    obtain ⟨new, distinct⟩ := List.nodup_cons.mp distinct
    obtain ⟨order, waiting, ready⟩ := @ih (state.release reader) distinct
    have others : ∀ other ∈ rest, (state.release reader).waiting other = state.waiting other := by
      intro other member
      exact Function.update_of_ne (by rintro rfl; exact new member) _ _
    rw [List.foldl_cons]
    refine ⟨order, fun item => ?_, ?_⟩
    · rw [waiting]
      by_cases same : item = reader
      · rw [same, if_neg new, if_pos List.mem_cons_self]
        exact Function.update_self ..
      · rw [show (state.release reader).waiting item = state.waiting item from
          Function.update_of_ne same _ _]
        simp [same]
    · rw [ready, List.filter_cons, List.filter_congr fun other member => by rw [others other member]]
      show _ ++ (if state.waiting reader - 1 = 0 then reader :: state.ready else state.ready) = _
      by_cases last : state.waiting reader - 1 = 0 <;> simp [last]

theorem mem_readersOf {item reader : Nat} :
    reader ∈ readersOf n reads item ↔ reader < n ∧ item ∈ reads reader := by
  simp [readersOf]

theorem respects_snoc {order : List Nat} {item : Nat} (respects : Respects reads order)
    (fits : ∀ read ∈ reads item, read ∈ order) : Respects reads (order ++ [item]) := by
  intro before other after split read member
  rcases List.eq_nil_or_concat after with rfl | ⟨after, last, rfl⟩
  · obtain ⟨rfl, same⟩ := List.append_inj' split rfl
    obtain rfl := List.singleton_inj.mp same
    exact fits read member
  · rw [List.concat_eq_append, ← List.cons_append, ← List.append_assoc] at split
    exact respects before other after (List.append_inj' split rfl).1 read member

theorem countP_snoc {items order : List Nat} {item : Nat} (distinct : items.Nodup)
    (fresh : item ∉ order) : items.countP (· ∉ order ++ [item]) =
      items.countP (· ∉ order) - if item ∈ items then 1 else 0 := by
  induction items with
  | nil => rfl
  | cons first rest ih =>
    obtain ⟨new, distinct⟩ := List.nodup_cons.mp distinct
    rw [List.countP_cons, List.countP_cons, ih distinct]
    by_cases same : first = item
    · subst same
      simp [new, fresh]
    · have other : first ∉ order ++ [item] ↔ first ∉ order := by simp [same]
      by_cases read : item ∈ rest
      · have some : 0 < rest.countP (· ∉ order) :=
          List.countP_pos_iff.mpr ⟨item, read, by simpa using fresh⟩
        simp only [other, read, List.mem_cons, or_true, if_true]
        omega
      · simp [read, same, Ne.symm same]

theorem start_sound : (Sorting.start n reads).Sound n reads where
  distinct := List.nodup_nil
  inside item member := by cases member
  respects before item after split := by simp [Sorting.start] at split
  waiting item _ := by simp [Sorting.start]
  ready item := by simp [Sorting.start]
  distinctReady := List.nodup_range.filter _

theorem take_sound (distinctReads : ∀ item, (reads item).Nodup) (sound : state.Sound n reads)
    {item : Nat} (ready : item ∈ state.ready) : (state.take n reads item).Sound n reads ∧
      (state.take n reads item).order = state.order ++ [item] := by
  obtain ⟨inside, fresh, idle⟩ := (sound.ready item).mp ready
  have distinct : (readersOf n reads item).Nodup := List.nodup_range.filter _
  obtain ⟨order, waiting, left⟩ := @foldl_release
    { state with ready := state.ready.erase item, order := state.order ++ [item] } _ distinct
  have fits : ∀ read ∈ reads item, read ∈ state.order := by
    intro read member
    rw [sound.waiting item inside, List.countP_eq_zero] at idle
    simpa using idle read member
  -- A reader of the item has not been ordered, and waits.
  have unordered : ∀ reader ∈ readersOf n reads item, reader ∉ state.order ++ [item] ∧
      0 < state.waiting reader := by
    intro reader member
    obtain ⟨small, read⟩ := mem_readersOf.mp member
    constructor
    · intro earlier
      rcases List.mem_append.mp earlier with old | new
      · obtain ⟨before, after, split⟩ := List.append_of_mem old
        refine fresh ?_
        rw [split]
        exact List.mem_append_left _ (sound.respects before reader after split item read)
      · rw [List.mem_singleton.mp new] at read
        exact fresh (fits item read)
    · rw [sound.waiting reader small, List.countP_pos_iff]
      exact ⟨item, read, by simpa using fresh⟩
  refine ⟨⟨?_, ?_, ?_, ?_, ?_, ?_⟩, order⟩
  · rw [Sorting.take, order]
    refine List.nodup_append.mpr ⟨sound.distinct, List.nodup_singleton item, ?_⟩
    rintro other member one same rfl
    exact fresh (List.mem_singleton.mp same ▸ member)
  · rw [Sorting.take, order]
    intro other member
    rcases List.mem_append.mp member with old | new
    · exact sound.inside other old
    · exact List.mem_singleton.mp new ▸ inside
  · rw [Sorting.take, order]
    exact respects_snoc sound.respects fits
  · intro other small
    rw [Sorting.take, order, waiting, countP_snoc (distinctReads other) fresh,
      ← sound.waiting other small]
    simp [mem_readersOf, small]
  · intro other
    rw [Sorting.take, order, left, waiting, List.mem_append, List.mem_reverse, List.mem_filter,
      decide_eq_true_eq, sound.distinctReady.mem_erase_iff, sound.ready]
    constructor
    · rintro (⟨reads, last⟩ | ⟨different, small, old, none⟩)
      · rw [if_pos reads]
        exact ⟨(mem_readersOf.mp reads).1, (unordered other reads).1, last⟩
      · exact ⟨small, by simpa using ⟨old, different⟩, by simp only [none, Nat.zero_sub]⟩
    · rintro ⟨small, new, none⟩
      obtain ⟨old, different⟩ : other ∉ state.order ∧ other ≠ item := by simpa using new
      by_cases reads : other ∈ readersOf n reads item
      · rw [if_pos reads] at none
        exact .inl ⟨reads, none⟩
      · rw [if_neg reads] at none
        exact .inr ⟨different, small, old, none⟩
  · rw [Sorting.take, left, List.nodup_append]
    refine ⟨List.nodup_reverse.mpr (distinct.filter _), sound.distinctReady.erase item, ?_⟩
    rintro other member one same rfl
    have positive := (unordered other (List.mem_filter.mp (List.mem_reverse.mp member)).1).2
    have zero := ((sound.ready other).mp (List.mem_of_mem_erase same)).2.2
    omega

theorem sorting_sound (distinctReads : ∀ item, (reads item).Nodup) {fuel : Nat}
    (sound : state.Sound n reads) : ∃ final : Sorting, final.Sound n reads ∧
      sorting n reads fuel state = final.order ∧
      (final.ready = [] ∨ final.order.length = state.order.length + fuel) := by
  induction fuel generalizing state with
  | zero => exact ⟨state, sound, rfl, .inr rfl⟩
  | succ fuel ih =>
    unfold sorting
    cases smallest : state.ready.min? with
    | none => exact ⟨state, sound, rfl, .inl (List.min?_eq_none_iff.mp smallest)⟩
    | some item =>
      obtain ⟨after, order⟩ := take_sound distinctReads sound (List.min?_mem smallest)
      obtain ⟨final, sound', same, done⟩ := ih after
      refine ⟨final, sound', same, done.imp_right fun length => ?_⟩
      rw [length, order, List.length_append, List.length_singleton]
      omega

theorem Sorting.Sound.length_le (sound : state.Sound n reads) : state.order.length ≤ n := by
  have within : state.order ⊆ List.range n :=
    fun item member => List.mem_range.mpr (sound.inside item member)
  exact (sound.distinct.subperm within).length_le.trans_eq List.length_range

theorem Sorting.Sound.all_ordered (sound : state.Sound n reads) (all : state.order.length = n) :
    ∀ item, item < n → item ∈ state.order := by
  have within : state.order ⊆ List.range n :=
    fun item member => List.mem_range.mpr (sound.inside item member)
  have same := (sound.distinct.subperm within).perm_of_length_le (by rw [all, List.length_range])
  exact fun item small => same.mem_iff.mpr (List.mem_range.mpr small)

theorem topologicalOrder_final (distinctReads : ∀ item, (reads item).Nodup) :
    ∃ final : Sorting, final.Sound n reads ∧ (final.ready = [] ∨ final.order.length = n) ∧
      topologicalOrder n reads = if final.order.length = n then some final.order else none := by
  have start : (Sorting.start n reads).Sound n reads := start_sound
  obtain ⟨final, sound, same, done⟩ := sorting_sound distinctReads start
  refine ⟨final, sound, done.imp_right fun length => length.trans (Nat.zero_add n), ?_⟩
  rw [topologicalOrder, same]

theorem topologicalOrder_sound (distinctReads : ∀ item, (reads item).Nodup) {order : List Nat}
    (found : topologicalOrder n reads = some order) :
    order.Nodup ∧ (∀ item, item ∈ order ↔ item < n) ∧ Respects reads order := by
  obtain ⟨final, sound, -, same⟩ := topologicalOrder_final (n := n) distinctReads
  rw [same] at found
  split at found
  · rename_i all
    obtain rfl := Option.some.inj found
    exact ⟨sound.distinct, fun item => ⟨sound.inside item, sound.all_ordered all item⟩, sound.respects⟩
  · cases found

def Reading (n : Nat) (reads : Nat → List Nat) (item read : Nat) : Prop := item < n ∧ read ∈ reads item

theorem idxOf_lt {order : List Nat} (distinct : order.Nodup) (respects : Respects reads order)
    {item read : Nat} (member : item ∈ order) (here : read ∈ reads item) :
    order.idxOf read < order.idxOf item := by
  obtain ⟨before, after, rfl⟩ := List.append_of_mem member
  have first := respects before item after rfl read here
  have later : item ∉ before := fun early =>
    (List.nodup_append.mp distinct).2.2 item early item List.mem_cons_self rfl
  rw [List.idxOf_append_of_mem first, List.idxOf_append_of_notMem later, List.idxOf_cons_self]
  exact Nat.lt_add_right 0 (List.idxOf_lt_length_iff.mpr first)

theorem topologicalOrder_isSome (distinctReads : ∀ item, (reads item).Nodup) :
    (topologicalOrder n reads).isSome ↔
      (∀ item, item < n → ∀ read ∈ reads item, read < n) ∧ Acyclic (Reading n reads) := by
  constructor
  · intro found
    obtain ⟨order, found⟩ := Option.isSome_iff_exists.mp found
    obtain ⟨distinct, all, respects⟩ := topologicalOrder_sound distinctReads found
    constructor
    · intro item small read here
      obtain ⟨before, after, split⟩ := List.append_of_mem ((all item).mpr small)
      rw [← all, split]
      exact List.mem_append_left _ (respects before item after split read here)
    · have rises : ∀ item read, Reading n reads item read →
          OrderDual.toDual (order.idxOf item) < OrderDual.toDual (order.idxOf read) :=
        fun item read here => idxOf_lt distinct respects ((all item).mpr here.1) here.2
      exact acyclic_of_rank rises
  · rintro ⟨inside, acyclic⟩
    obtain ⟨final, sound, done, same⟩ := topologicalOrder_final (n := n) distinctReads
    rw [same, if_pos]
    · rfl
    rcases done with idle | all
    · obtain ⟨rank, rises, bounded⟩ := acyclic.exists_ranks (Finset.range n) fun _ => ()
      -- The deepest unordered item would be ready.
      have every : ∀ depth item, item < n → n - rank item ≤ depth → item ∈ final.order := by
        intro depth
        induction depth with
        | zero =>
          intro item small deep
          have below := bounded item (Finset.mem_range.mpr small)
          simp at below
          omega
        | succ depth ih =>
          intro item small deep
          by_contra unordered
          have waits : final.waiting item ≠ 0 := fun none => by
            have ready := (sound.ready item).mpr ⟨small, unordered, none⟩
            rw [idle] at ready
            cases ready
          rw [sound.waiting item small, Ne, List.countP_eq_zero] at waits
          obtain ⟨read, here, missing⟩ : ∃ read ∈ reads item, read ∉ final.order := by
            simpa using waits
          have smallRead := inside item small read here
          have deeper := rises item (Finset.mem_range.mpr small) read (Finset.mem_range.mpr smallRead)
            rfl ⟨small, here⟩
          exact missing (ih read smallRead (by omega))
      have within : List.range n ⊆ final.order :=
        fun item member => every n item (List.mem_range.mp member) (Nat.sub_le _ _)
      have most := (List.nodup_range.subperm within).length_le
      rw [List.length_range] at most
      exact le_antisymm sound.length_le most
    · exact all

end

end AsapPlanner.Traversal
