import AsapPlanner.Traversal.Search
import Mathlib.Algebra.GroupWithZero.Nat
import Mathlib.Data.List.Nodup

/-!
An iterative depth-first postorder of a graph, and marks spread along it: up from what is read to its
readers, and down from readers to what they read.
-/

namespace AsapPlanner.Traversal
open Relation

namespace Graph
variable {K : Type} (graph : Graph K)

def ReadsFirst (order : List K) : Prop :=
  ∀ before key after, order = before ++ key :: after → ∀ other ∈ graph.reads key, other ∈ before

/-- The keys settled so far; a key met and not settled waits for its reads. -/
structure Ordered (visited order : List K) : Prop where
  first : graph.ReadsFirst order
  distinct : order.Nodup
  met : ∀ key ∈ order, key ∈ visited

/-- From one state to a later one, nothing that was waiting is settled. -/
structure Later (visited order visited' order' : List K) : Prop where
  met : ∀ key ∈ visited, key ∈ visited'
  grown : order <+: order'
  waits : ∀ key ∈ visited, key ∉ order → key ∉ order'
  settled : ∀ key ∈ visited', key ∉ order' → key ∈ visited

variable {graph} {visited order visited' order' visited'' order'' : List K} {key : K}

theorem Later.refl : Later visited order visited order :=
  ⟨fun _ member => member, List.prefix_refl _, fun _ _ waits => waits, fun _ member _ => member⟩

theorem Later.trans (first : Later visited order visited' order')
    (second : Later visited' order' visited'' order'') : Later visited order visited'' order'' where
  met key member := second.met key (first.met key member)
  grown := first.grown.trans second.grown
  waits key member waits := second.waits key (first.met key member) (first.waits key member waits)
  settled key member waits := by
    have before := second.settled key member waits
    exact first.settled key before fun done => waits (second.grown.subset done)

theorem readsFirst_snoc (first : graph.ReadsFirst order) (reads : ∀ other ∈ graph.reads key, other ∈ order) :
    graph.ReadsFirst (order ++ [key]) := by
  intro before middle after split other read
  rcases List.eq_nil_or_concat after with none | ⟨rest, last, same⟩
  · rw [none] at split
    obtain ⟨equal, here⟩ := List.append_inj' split rfl
    rw [List.cons.injEq] at here
    rw [← equal]
    exact reads other (here.1 ▸ read)
  · rw [same, List.concat_eq_append, ← List.cons_append, ← List.append_assoc] at split
    obtain ⟨equal, _⟩ := List.append_inj' split rfl
    exact first before middle rest equal other read

section Search
variable [DecidableEq K] (graph)

/-- What is left of the stack, a key waiting for its reads counted once and a new key twice. -/
def waiting (pending : List (K × Bool)) : Nat := (pending.map fun item => if item.2 then 1 else 2).sum

theorem left_cons_le (seen : List K) (key : K) : graph.left (key :: seen) ≤ graph.left seen := by
  unfold left
  apply List.Sublist.length_le
  apply List.monotone_filter_right
  intro other unmet
  simp at unmet ⊢
  exact unmet.2

/-- Every key after those it reads: the stack holds each key with whether its reads were pushed. -/
def postorder : List (K × Bool) → List K → List K → List K × List K
  | [], visited, order => (visited, order)
  | (key, true) :: pending, visited, order => postorder pending visited (order ++ [key])
  | (key, false) :: pending, visited, order =>
    if key ∈ visited then postorder pending visited order
    else
      postorder ((graph.reads key).reverse.map (·, false) ++ (key, true) :: pending) (key :: visited)
        order
termination_by pending visited _ => (graph.left visited, waiting pending)
decreasing_by
  · apply Prod.Lex.right
    simp [waiting]
  · apply Prod.Lex.right
    simp [waiting]
  · rename_i unseen
    cases reads : graph.reads key with
    | nil =>
      rcases Nat.lt_or_eq_of_le (graph.left_cons_le visited key) with fewer | same
      · exact Prod.Lex.left _ _ fewer
      · rw [same]
        apply Prod.Lex.right
        simp [waiting]
    | cons child rest =>
      apply Prod.Lex.left
      exact graph.left_cons_lt unseen (graph.covers key child (by rw [reads]; exact List.mem_cons_self))

variable {graph}

theorem postorder_settles (grounded : graph.Grounded key) (ordered : graph.Ordered visited order)
    (above : ∀ waiting ∈ visited, waiting ∉ order →
      TransGen (fun key other => other ∈ graph.reads key) waiting key) (pending : List (K × Bool)) :
    ∃ visited' order', graph.postorder ((key, false) :: pending) visited order =
        graph.postorder pending visited' order' ∧ graph.Ordered visited' order' ∧
      Later visited order visited' order' ∧ key ∈ order' := by
  induction grounded generalizing visited order pending with
  | intro key below ih =>
    rw [postorder]
    split
    · rename_i met
      have whole : graph.Grounded key := .intro key below
      exact ⟨visited, order, rfl, ordered, .refl,
        by_contra fun waits => whole.acyclic (above key met waits)⟩
    · rename_i fresh
      have all : ∀ (children : List K) (visited₁ order₁ : List K), (∀ child ∈ children, child ∈ graph.reads key) →
          graph.Ordered visited₁ order₁ →
          (∀ waiting ∈ visited₁, waiting ∉ order₁ → waiting = key ∨
            TransGen (fun key other => other ∈ graph.reads key) waiting key) →
          ∀ pending, ∃ visited' order',
            graph.postorder (children.map (·, false) ++ pending) visited₁ order₁ =
              graph.postorder pending visited' order' ∧ graph.Ordered visited' order' ∧
            Later visited₁ order₁ visited' order' ∧ ∀ child ∈ children, child ∈ order' := by
        intro children
        induction children with
        | nil => exact fun visited₁ order₁ _ kept _ pending =>
            ⟨visited₁, order₁, rfl, kept, .refl, fun child member => nomatch member⟩
        | cons child children next =>
          intro visited₁ order₁ reads kept upper pending
          have read := reads child List.mem_cons_self
          obtain ⟨visited₂, order₂, run, kept₂, later, here⟩ := ih child read kept
            (fun waiting met waits => (upper waiting met waits).elim
              (fun same => same ▸ .single read) (fun path => path.tail read))
            (children.map (·, false) ++ pending)
          obtain ⟨visited₃, order₃, run', kept₃, later', there⟩ := next visited₂ order₂
            (fun other member => reads other (List.mem_cons_of_mem _ member)) kept₂
            (fun waiting met waits => upper waiting (later.settled waiting met waits)
              fun done => waits (later.grown.subset done)) pending
          refine ⟨visited₃, order₃, run.trans run', kept₃, later.trans later', ?_⟩
          exact List.forall_mem_cons.mpr ⟨later'.grown.subset here, there⟩
      have started : graph.Ordered (key :: visited) order :=
        ⟨ordered.first, ordered.distinct, fun other member => List.mem_cons_of_mem _ (ordered.met other member)⟩
      obtain ⟨visited', order', run, kept, later, children⟩ := all (graph.reads key).reverse
        (key :: visited) order (fun child member => List.mem_reverse.mp member) started
        (fun waiting met waits => (List.mem_cons.mp met).imp_right fun before => above waiting before waits)
        ((key, true) :: pending)
      have waits : key ∉ order' := later.waits key List.mem_cons_self fun done => fresh (ordered.met key done)
      refine ⟨visited', order' ++ [key], ?_, ⟨?_, ?_, ?_⟩, ⟨?_, ?_, ?_, ?_⟩, List.mem_concat_self⟩
      · rw [run, postorder]
      · exact readsFirst_snoc kept.first fun other read => children other (List.mem_reverse.mpr read)
      · rw [← List.concat_eq_append]
        exact List.Nodup.concat waits kept.distinct
      · intro other member
        rcases List.mem_append.mp member with earlier | last
        · exact kept.met other earlier
        · rw [List.mem_singleton.mp last]
          exact later.met key List.mem_cons_self
      · exact fun other member => later.met other (List.mem_cons_of_mem _ member)
      · exact later.grown.trans (List.prefix_append _ _)
      · intro other met waiting member
        rcases List.mem_append.mp member with earlier | last
        · exact later.waits other (List.mem_cons_of_mem _ met) waiting earlier
        · exact fresh (List.mem_singleton.mp last ▸ met)
      · intro other met unsettled
        rw [List.mem_append, not_or, List.mem_singleton] at unsettled
        exact (List.mem_cons.mp (later.settled other met unsettled.1)).resolve_left unsettled.2

theorem postorder_each {keys : List K} (grounded : ∀ key ∈ keys, graph.Grounded key)
    (ordered : graph.Ordered visited order) (none : ∀ key ∈ visited, key ∈ order) :
    let found := keys.foldl (fun found key => graph.postorder [(key, false)] found.1 found.2)
      (visited, order)
    graph.Ordered found.1 found.2 ∧ (∀ key ∈ found.1, key ∈ found.2) ∧ order <+: found.2 ∧
      ∀ key ∈ keys, key ∈ found.2 := by
  induction keys generalizing visited order with
  | nil => exact ⟨ordered, none, List.prefix_refl _, fun key member => nomatch member⟩
  | cons key keys ih =>
    obtain ⟨visited', order', run, kept, later, here⟩ := postorder_settles
      (grounded key List.mem_cons_self) ordered (fun waiting met waits => absurd (none waiting met) waits) []
    rw [postorder] at run
    obtain ⟨first, nothing, grown, rest⟩ := ih
      (fun other member => grounded other (List.mem_cons_of_mem _ member)) kept
      (fun other met => by_contra fun waits => waits (later.grown.subset
        (none other (later.settled other met waits))))
    rw [List.foldl_cons, run]
    exact ⟨first, nothing, later.grown.trans grown, List.forall_mem_cons.mpr ⟨grown.subset here, rest⟩⟩

end Search

/-! ### Marks along an order -/

section Marks
variable (graph)

def markUp (test : List K → K → Bool) (order : List K) : List K :=
  order.foldl (fun marked key => if test marked key then key :: marked else marked) []

def markDown [DecidableEq K] (source : K → Bool) (order : List K) : List K :=
  order.foldr (fun key marked => if key ∈ marked ∨ source key then graph.reads key ++ marked else marked) []

variable {graph} {test : List K → K → Bool} {source : K → Bool}

theorem subset_markUp (before after : List K) :
    ∀ key ∈ markUp test before, key ∈ markUp test (before ++ after) := by
  unfold markUp
  rw [List.foldl_append]
  generalize before.foldl (fun marked key => if test marked key then key :: marked else marked) [] = marked
  induction after generalizing marked with
  | nil => exact fun key member => member
  | cons next after ih =>
    intro key member
    rw [List.foldl_cons]
    apply ih
    split
    · exact List.mem_cons_of_mem _ member
    · exact member

theorem mem_markUp {P : K → Prop} (first : graph.ReadsFirst order)
    (passes : ∀ key marked, P key → (∀ other ∈ graph.reads key, P other → other ∈ marked) →
      test marked key = true) (member : key ∈ order) (holds : P key) : key ∈ markUp test order := by
  induction size : order.length using Nat.strongRecOn generalizing key order with
  | ind size ih =>
    obtain ⟨before, after, split⟩ := List.append_of_mem member
    have smaller : ∀ other ∈ graph.reads key, P other → other ∈ markUp test before := by
      intro other read meant
      have shorter : before.length < order.length := by
        rw [split, List.length_append, List.length_cons]
        omega
      refine ih _ (size ▸ shorter) ?_ (first before key after split other read) meant rfl
      intro before' middle after' inner
      exact first before' middle (after' ++ key :: after) (by rw [split, inner]; simp)
    have here : key ∈ markUp test (before ++ [key]) := by
      unfold markUp at smaller ⊢
      rw [List.foldl_append, List.foldl_cons, List.foldl_nil, if_pos (passes key _ holds smaller)]
      exact List.mem_cons_self
    rw [split, List.append_cons]
    exact subset_markUp _ _ key here

variable [DecidableEq K]

theorem subset_markDown (before after : List K) :
    ∀ key ∈ graph.markDown source after, key ∈ graph.markDown source (before ++ after) := by
  induction before with
  | nil => exact fun key member => member
  | cons next before ih =>
    intro key member
    rw [List.cons_append, markDown, List.foldr_cons]
    split
    · exact List.mem_append_right _ (ih key member)
    · exact ih key member

theorem mem_markDown_after {before after : List K} (unread : ∀ other ∈ before, key ∉ graph.reads other)
    (marked : key ∈ graph.markDown source (before ++ after)) : key ∈ graph.markDown source after := by
  induction before with
  | nil => exact marked
  | cons next before ih =>
    apply ih (fun other member => unread other (List.mem_cons_of_mem _ member))
    rw [List.cons_append, markDown, List.foldr_cons] at marked
    split at marked
    · exact (List.mem_append.mp marked).resolve_left (unread next List.mem_cons_self)
    · exact marked

theorem markDown_closed (first : graph.ReadsFirst order) (distinct : order.Nodup) (member : key ∈ order)
    (spreads : source key = true ∨ key ∈ graph.markDown source order) :
    ∀ other ∈ graph.reads key, other ∈ graph.markDown source order := by
  obtain ⟨before, after, split⟩ := List.append_of_mem member
  have apart : key ∉ before := by
    rw [split, List.nodup_append] at distinct
    exact fun twin => distinct.2.2 key twin key List.mem_cons_self rfl
  have unread : ∀ other ∈ before ++ [key], key ∉ graph.reads other := by
    intro other reader read
    rcases List.mem_append.mp reader with earlier | last
    · obtain ⟨start, rest, inner⟩ := List.append_of_mem earlier
      have there := first start other (rest ++ key :: after) (by rw [split, inner]; simp) key read
      exact apart (inner ▸ List.mem_append_left _ there)
    · rw [List.mem_singleton.mp last] at read
      exact apart (first before key after split key read)
  have fires : key ∈ graph.markDown source after ∨ source key = true := by
    rcases spreads with isSource | marked
    · exact .inr isSource
    · rw [split, List.append_cons] at marked
      exact .inl (mem_markDown_after unread marked)
  intro other read
  rw [split]
  apply subset_markDown
  rw [markDown, List.foldr_cons]
  exact (if_pos fires).symm ▸ List.mem_append_left _ read

end Marks
end Graph
end AsapPlanner.Traversal
