import Mathlib.Data.List.Sort

/-!
Stable sorting by a comparison that is a total preorder, and comparisons that are one on some values.
-/

namespace AsapPlanner.Ordered
open Std

/-! ### Stable sorts -/

section
variable {α : Type*} {cmp : α → α → Ordering} {xs xs' ys ys' : List α}

/-- `ys` is `xs` in order, what compares equal as it came. -/
structure StableSorted (cmp : α → α → Ordering) (xs ys : List α) : Prop where
  sorted : ys.Pairwise fun a b => (cmp a b).isLE
  kept : ∀ x, ys.filter (fun y => cmp x y = .eq) = xs.filter (fun y => cmp x y = .eq)

theorem StableSorted.nil : StableSorted cmp [] [] := ⟨List.Pairwise.nil, fun _ => rfl⟩

variable [TransCmp cmp]

theorem eq_of_isLE {a b : α} (there : (cmp a b).isLE) (back : (cmp b a).isLE) : cmp a b = .eq :=
  OrientedCmp.isLE_antisymm there back

theorem sorted_unique {ys zs : List α} (sorted : ys.Pairwise fun a b => (cmp a b).isLE)
    (sorted' : zs.Pairwise fun a b => (cmp a b).isLE)
    (kept : ∀ x, ys.filter (fun y => cmp x y = .eq) = zs.filter (fun y => cmp x y = .eq)) :
    ys = zs := by
  have member : ∀ {ys zs : List α}, (∀ x, ys.filter (fun y => cmp x y = .eq) =
      zs.filter (fun y => cmp x y = .eq)) → ∀ x ∈ ys, x ∈ zs := by
    intro ys zs kept x inside
    have here : x ∈ ys.filter fun y => cmp x y = .eq := by
      simp [inside, ReflCmp.compare_self]
    rw [kept x] at here
    exact (List.mem_filter.mp here).1
  induction ys generalizing zs with
  | nil =>
    cases zs with
    | nil => rfl
    | cons z zs => exact nomatch member (fun x => (kept x).symm) z List.mem_cons_self
  | cons y ys ih =>
    cases zs with
    | nil => exact nomatch member kept y List.mem_cons_self
    | cons z zs =>
      obtain ⟨first, sorted⟩ := List.pairwise_cons.mp sorted
      obtain ⟨first', later'⟩ := List.pairwise_cons.mp sorted'
      have below : (cmp y z).isLE := by
        rcases List.mem_cons.mp (member (fun x => (kept x).symm) z List.mem_cons_self) with rfl | later
        · simp [ReflCmp.compare_self]
        · exact first z later
      have above : (cmp z y).isLE := by
        rcases List.mem_cons.mp (member kept y List.mem_cons_self) with rfl | later
        · simp [ReflCmp.compare_self]
        · exact first' y later
      have level : cmp y z = .eq := eq_of_isLE below above
      have own := kept y
      rw [List.filter_cons_of_pos (by simp [ReflCmp.compare_self]),
        List.filter_cons_of_pos (by simp [level])] at own
      obtain ⟨rfl, -⟩ := List.cons.inj own
      congr 1
      refine ih sorted later' fun x => ?_
      have own := kept x
      rw [List.filter_cons, List.filter_cons] at own
      split at own
      · exact (List.cons.inj own).2
      · exact own

theorem StableSorted.unique {zs : List α} (first : StableSorted cmp xs ys)
    (second : StableSorted cmp xs zs) : ys = zs :=
  sorted_unique first.sorted second.sorted fun x => (first.kept x).trans (second.kept x).symm

theorem StableSorted.pairwise {before : α → α → Prop} (sorted : StableSorted cmp xs ys)
    (came : xs.Pairwise before) :
    ys.Pairwise fun a b => cmp a b = .lt ∨ cmp a b = .eq ∧ before a b := by
  refine List.pairwise_iff_forall_sublist.mpr fun {a b} inside => ?_
  have order := List.pairwise_iff_forall_sublist.mp sorted.sorted inside
  cases compared : cmp a b with
  | lt => exact .inl rfl
  | gt => simp [compared] at order
  | eq =>
    refine .inr ⟨rfl, ?_⟩
    have level := inside.filter fun y => cmp a y = .eq
    rw [sorted.kept a] at level
    have both : [a, b].filter (fun y => cmp a y = .eq) = [a, b] := by
      simp [compared, ReflCmp.compare_self]
    rw [both] at level
    exact List.pairwise_iff_forall_sublist.mp came (level.trans List.filter_sublist)

theorem isLE_total (a b : α) : ((cmp a b).isLE || (cmp b a).isLE) = true := by
  rw [show cmp b a = (cmp a b).swap from OrientedCmp.eq_swap]
  cases cmp a b <;> rfl

theorem stableSorted_mergeSort (xs : List α) :
    StableSorted cmp xs (xs.mergeSort fun a b => (cmp a b).isLE) := by
  have trans : ∀ a b c : α, (cmp a b).isLE → (cmp b c).isLE → (cmp a c).isLE :=
    fun _ _ _ => TransCmp.isLE_trans
  refine ⟨List.pairwise_mergeSort trans isLE_total xs, fun x => ?_⟩
  -- One class is a sorted sublist, which the sort keeps.
  have level : (xs.filter fun y => cmp x y = .eq).Pairwise fun a b => (cmp a b).isLE := by
    refine List.pairwise_of_forall_mem_list fun a first b second => ?_
    have isA := of_decide_eq_true (List.mem_filter.mp first).2
    have isB := of_decide_eq_true (List.mem_filter.mp second).2
    rw [TransCmp.eq_trans (OrientedCmp.eq_symm isA) isB]
    rfl
  have inside := List.sublist_mergeSort trans isLE_total level List.filter_sublist
  have filtered := inside.filter fun y => cmp x y = .eq
  rw [List.filter_filter] at filtered
  simp only [Bool.and_self] at filtered
  refine (filtered.eq_of_length ?_).symm
  exact ((List.mergeSort_perm xs _).filter _).length_eq.symm

omit [TransCmp cmp] in
theorem merge_cons_cons (le : α → α → Bool) (x y : α) (xs ys : List α) :
    List.merge (x :: xs) (y :: ys) le =
      if le x y then x :: List.merge xs (y :: ys) le else y :: List.merge (x :: xs) ys le := by
  rw [List.merge]

theorem filter_merge (x : α) (sorted : xs.Pairwise fun a b => (cmp a b).isLE)
    (sorted' : ys.Pairwise fun a b => (cmp a b).isLE) :
    (List.merge xs ys fun a b => (cmp a b).isLE).filter (fun y => cmp x y = .eq) =
      xs.filter (fun y => cmp x y = .eq) ++ ys.filter (fun y => cmp x y = .eq) := by
  induction xs generalizing ys with
  | nil => simp
  | cons a xs ih =>
    induction ys with
    | nil => simp
    | cons b ys ih' =>
      rw [merge_cons_cons]
      split
      · rw [List.filter_cons, ih (List.pairwise_cons.mp sorted).2 sorted', @List.filter_cons _ a xs]
        split <;> rfl
      · next after =>
        rw [List.filter_cons, ih' (List.pairwise_cons.mp sorted').2]
        split
        · next here =>
          -- No element from the left is in the class of `b`, which comes before them all.
          have before : cmp b a = .lt := by
            rw [show cmp b a = (cmp a b).swap from OrientedCmp.eq_swap]
            cases order : cmp a b with
            | gt => rfl
            | _ => exact absurd (by rw [order]; rfl) after
          have none : (a :: xs).filter (fun y => cmp x y = .eq) = [] := by
            refine List.filter_eq_nil_iff.mpr fun y member same => ?_
            have least : (cmp a y).isLE := by
              rcases List.mem_cons.mp member with rfl | later
              · simp [ReflCmp.compare_self]
              · exact (List.pairwise_cons.mp sorted).1 y later
            have above := TransCmp.lt_of_lt_of_isLE before least
            have level := TransCmp.eq_trans (OrientedCmp.eq_symm (of_decide_eq_true here))
              (of_decide_eq_true same)
            rw [above] at level
            cases level
          rw [none, List.nil_append, List.nil_append, List.filter_cons, if_pos here]
        · next here => rw [@List.filter_cons _ b ys, if_neg here]

theorem StableSorted.merge (first : StableSorted cmp xs xs') (second : StableSorted cmp ys ys') :
    StableSorted cmp (xs ++ ys) (List.merge xs' ys' fun a b => (cmp a b).isLE) := by
  refine ⟨List.pairwise_merge (fun _ _ _ => TransCmp.isLE_trans) isLE_total _ _ first.sorted
    second.sorted, fun x => ?_⟩
  rw [filter_merge x first.sorted second.sorted, first.kept, second.kept, List.filter_append]

end

/-! ### Comparisons of some values -/

section
variable {α β : Type*} {S : α → Prop} {cmp cmp' : α → α → Ordering}

/-- A total preorder on the values `S` holds of. -/
def PreorderOn (S : α → Prop) (cmp : α → α → Ordering) : Prop :=
  TransCmp fun a b : Subtype S => cmp a.1 b.1

theorem PreorderOn.eq_swap (order : PreorderOn S cmp) {a b : α} (inA : S a) (inB : S b) :
    cmp a b = (cmp b a).swap :=
  order.toOrientedCmp.eq_swap (a := ⟨a, inA⟩) (b := ⟨b, inB⟩)

theorem PreorderOn.isLE_trans (order : PreorderOn S cmp) {a b c : α} (inA : S a) (inB : S b)
    (inC : S c) (ab : (cmp a b).isLE) (bc : (cmp b c).isLE) : (cmp a c).isLE :=
  @TransCmp.isLE_trans _ _ order ⟨a, inA⟩ ⟨b, inB⟩ ⟨c, inC⟩ ab bc

theorem PreorderOn.of (swap : ∀ a b, S a → S b → cmp a b = (cmp b a).swap)
    (trans : ∀ a b c, S a → S b → S c → (cmp a b).isLE → (cmp b c).isLE → (cmp a c).isLE) :
    PreorderOn S cmp where
  eq_swap {a b} := swap a.1 b.1 a.2 b.2
  isLE_trans {a b c} := trans a.1 b.1 c.1 a.2 b.2 c.2

theorem PreorderOn.trans_cmp (order : PreorderOn S cmp) (all : ∀ a, S a) : TransCmp cmp where
  eq_swap {a b} := order.eq_swap (all a) (all b)
  isLE_trans {a b c} := order.isLE_trans (all a) (all b) (all c)

theorem PreorderOn.mono {T : α → Prop} (order : PreorderOn S cmp) (fewer : ∀ a, T a → S a) :
    PreorderOn T cmp :=
  .of (fun _ _ inA inB => order.eq_swap (fewer _ inA) (fewer _ inB))
    fun _ _ _ inA inB inC => order.isLE_trans (fewer _ inA) (fewer _ inB) (fewer _ inC)

theorem PreorderOn.comap (order : PreorderOn S cmp) (f : β → α) :
    PreorderOn (fun b => S (f b)) fun b c => cmp (f b) (f c) :=
  .of (fun _ _ => order.eq_swap) fun _ _ _ => order.isLE_trans

theorem PreorderOn.congr (order : PreorderOn S cmp) (same : ∀ a b, S a → S b → cmp' a b = cmp a b) :
    PreorderOn S cmp' := by
  refine .of (fun a b inA inB => ?_) fun a b c inA inB inC ab bc => ?_
  · rw [same a b inA inB, same b a inB inA]
    exact order.eq_swap inA inB
  · rw [same a b inA inB] at ab
    rw [same b c inB inC] at bc
    rw [same a c inA inC]
    exact order.isLE_trans inA inB inC ab bc

theorem PreorderOn.image (f : β → α) (cmpβ : β → β → Ordering) [TransCmp cmpβ]
    (from_f : ∀ a, S a → ∃ x, a = f x) (same : ∀ x y, cmp (f x) (f y) = cmpβ x y) :
    PreorderOn S cmp := by
  refine .of (fun a b inA inB => ?_) fun a b c inA inB inC => ?_
  · obtain ⟨x, rfl⟩ := from_f a inA
    obtain ⟨y, rfl⟩ := from_f b inB
    rw [same, same]
    exact OrientedCmp.eq_swap
  · obtain ⟨x, rfl⟩ := from_f a inA
    obtain ⟨y, rfl⟩ := from_f b inB
    obtain ⟨z, rfl⟩ := from_f c inC
    rw [same, same, same]
    exact TransCmp.isLE_trans

theorem PreorderOn.swap (order : PreorderOn S cmp) : PreorderOn S fun a b => (cmp a b).swap := by
  refine .of (fun a b inA inB => ?_) fun a b c inA inB inC => ?_
  · rw [order.eq_swap inA inB]
  · rw [← order.eq_swap inB inA, ← order.eq_swap inC inB, ← order.eq_swap inC inA]
    exact fun ab bc => order.isLE_trans inC inB inA bc ab

theorem PreorderOn.then {cmp₂ : α → α → Ordering} (first : PreorderOn S cmp)
    (second : PreorderOn S cmp₂) : PreorderOn S fun a b => (cmp a b).then (cmp₂ a b) :=
  have : TransCmp fun a b : Subtype S => cmp a.1 b.1 := first
  have : TransCmp fun a b : Subtype S => cmp₂ a.1 b.1 := second
  inferInstanceAs (TransCmp (compareLex (fun a b : Subtype S => cmp a.1 b.1)
    fun a b : Subtype S => cmp₂ a.1 b.1))

/-- What `p` holds of stands together on one side of the other values, at `after` to them. -/
def apart (p : α → Bool) (after : Ordering) (cmp : α → α → Ordering) (a b : α) : Ordering :=
  match p a, p b with
  | true, true => .eq
  | true, false => after
  | false, true => after.swap
  | false, false => cmp a b

theorem PreorderOn.apart (p : α → Bool) {after : Ordering} (strict : after ≠ .eq)
    (order : PreorderOn (fun a => S a ∧ p a = false) cmp) : PreorderOn S (apart p after cmp) := by
  refine .of (fun a b inA inB => ?_) fun a b c inA inB inC => ?_
  · unfold Ordered.apart
    cases isA : p a <;> cases isB : p b <;> try simp
    exact order.eq_swap ⟨inA, isA⟩ ⟨inB, isB⟩
  · unfold Ordered.apart
    cases isA : p a <;> cases isB : p b <;> cases isC : p c <;> try simp
    · exact order.isLE_trans ⟨inA, isA⟩ ⟨inB, isB⟩ ⟨inC, isC⟩
    · cases after <;> simp at strict ⊢
    · cases after <;> simp at strict ⊢

theorem PreorderOn.list (order : PreorderOn S cmp) :
    PreorderOn (fun items : List α => ∀ item ∈ items, S item) (List.compareLex cmp) := by
  have : TransCmp fun a b : Subtype S => cmp a.1 b.1 := order
  have each : ∀ items items' : List (Subtype S), List.compareLex cmp (items.map Subtype.val)
      (items'.map Subtype.val) = List.compareLex (fun a b : Subtype S => cmp a.1 b.1) items items' := by
    intro items items'
    induction items generalizing items' with
    | nil => cases items' <;> rfl
    | cons item items ih =>
      cases items' with
      | nil => rfl
      | cons item' items' =>
        rw [List.map_cons, List.map_cons, List.compareLex_cons_cons, List.compareLex_cons_cons, ih]
  refine .image (List.map Subtype.val) (List.compareLex fun a b : Subtype S => cmp a.1 b.1)
    (fun items all => ⟨items.attachWith S all, ?_⟩) each
  simp

end
end AsapPlanner.Ordered
