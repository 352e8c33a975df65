import AsapPlanner.Traversal.Kahn
import Mathlib.Algebra.BigOperators.Group.Finset.Basic
import Mathlib.Algebra.BigOperators.Group.Finset.Piecewise
import Mathlib.Algebra.GroupWithZero.Nat
import Mathlib.Algebra.Order.BigOperators.Group.Finset
import Mathlib.Data.List.Nodup

/-!
The strongly connected components of the links that get order ranks: Tarjan's algorithm without
recursion, over the nodes themselves in place of their positions.
-/

namespace AsapPlanner.Milp
open Relation Traversal

structure Components (K : Type) where
  of : K → Option Nat
  sizes : List Nat

def Components.sizeOf {K : Type} (components : Components K) (node : K) : Nat :=
  match components.of node with
  | some component => components.sizes.getD component 0
  | none => 0

/-- The state of the algorithm; `none` is an unvisited node. -/
structure Tarjan (K : Type) where
  order : K → Option Nat
  lowest : K → Nat
  onStack : K → Bool
  stack : List K
  of : K → Option Nat
  sizes : List Nat
  next : Nat

namespace Tarjan
variable {K : Type} [DecidableEq K]

def start : Tarjan K where
  order := fun _ => none
  lowest := fun _ => 0
  onStack := fun _ => false
  stack := []
  of := fun _ => none
  sizes := []
  next := 0

/-- A node met for the first time. -/
def meet (s : Tarjan K) (node : K) : Tarjan K :=
  { s with
    order := Function.update s.order node (some s.next)
    lowest := Function.update s.lowest node s.next
    onStack := Function.update s.onStack node true
    stack := node :: s.stack
    next := s.next + 1 }

def lower (s : Tarjan K) (node : K) (bound : Nat) : Tarjan K :=
  { s with lowest := Function.update s.lowest node (min (s.lowest node) bound) }

/-- The members of a component leave the stack, `node` last. -/
def close (node : K) (component : Nat) : List K → Nat → Tarjan K → Tarjan K
  | [], _, s => s
  | member :: stack, size, s =>
    let left :=
      { s with
        onStack := Function.update s.onStack member false
        of := Function.update s.of member (some component)
        stack := stack }
    if member = node then { left with sizes := left.sizes ++ [size + 1] }
    else close node component stack (size + 1) left

/-- One round of the loop over the path, its last node first. -/
def step (successors : K → List K) : List (K × Nat) → Tarjan K → List (K × Nat) × Tarjan K
  | [], s => ([], s)
  | (node, successor) :: path, s =>
    match (successors node)[successor]? with
    | some target =>
      match s.order target with
      | none => ((target, 0) :: (node, successor + 1) :: path, s.meet target)
      | some number =>
        ((node, successor + 1) :: path, if s.onStack target then s.lower node number else s)
    | none =>
      let s := match path with
        | [] => s
        | (parent, _) :: _ => s.lower parent (s.lowest node)
      (path, if some (s.lowest node) = s.order node then
        s.close node s.sizes.length s.stack 0 else s)

def search (successors : K → List K) : Nat → List (K × Nat) → Tarjan K → Tarjan K
  | 0, _, s => s
  | fuel + 1, path, s =>
    let (path, s) := step successors path s
    search successors fuel path s

end Tarjan

section
variable {K : Type} [DecidableEq K]

def successors (edges : List (K × K)) (node : K) : List K :=
  (edges.filter fun edge => edge.1 = node).map Prod.snd

/-- The search from one root, if it is unvisited: every round takes a link or leaves a node, so the
links and nodes bound the rounds. -/
def searchFrom (nodes : List K) (edges : List (K × K)) (s : Tarjan K) (root : K) : Tarjan K :=
  match s.order root with
  | some _ => s
  | none =>
    Tarjan.search (successors edges) (nodes.length + edges.length) [(root, 0)] (s.meet root)

def stronglyConnectedComponents (nodes : List K) (edges : List (K × K)) : Components K :=
  let final := nodes.foldl (searchFrom nodes edges) Tarjan.start
  ⟨final.of, final.sizes⟩

theorem mem_successors {edges : List (K × K)} {u v : K} :
    v ∈ successors edges u ↔ (u, v) ∈ edges := by
  simp [successors]

end

/-! ### The stack -/

namespace Tarjan
variable {K : Type} [DecidableEq K] {nodes : List K} {successors : K → List K} {s s' : Tarjan K}
  {first : Nat} {path : List (K × Nat)} {node target : K} {k : Nat} {above below stack : List K}

def number (s : Tarjan K) (node : K) : Nat := (s.order node).getD 0

omit [DecidableEq K] in
theorem number_of {n : Nat} (numbered : s.order node = some n) : s.number node = n := by
  rw [number, numbered]
  rfl

/-- Whatever of the path and the links followed. -/
structure Table (nodes : List K) (successors : K → List K) (s : Tarjan K) : Prop where
  stacked : ∀ v, s.onStack v = true ↔ v ∈ s.stack
  visited : ∀ v, s.order v ≠ none ↔ v ∈ s.stack ∨ s.of v ≠ none
  apart : ∀ v ∈ s.stack, s.of v = none
  inside : ∀ v, s.order v ≠ none → v ∈ nodes
  ordered : s.stack.Pairwise fun a b => s.number b < s.number a
  next : ∀ v n, s.order v = some n → n < s.next
  closed : ∀ u k, s.of u = some k →
    k < s.sizes.length ∧ ∀ v ∈ successors u, ∃ l ≤ k, s.of v = some l
  sized : ∀ k size, s.sizes[k]? = some size →
    ∃ members : List K, members.Nodup ∧ members.length = size ∧ ∀ v, v ∈ members ↔ s.of v = some k

omit [DecidableEq K] in
theorem Table.start : Table nodes successors Tarjan.start where
  stacked := by simp [Tarjan.start]
  visited := by simp [Tarjan.start]
  apart := by simp [Tarjan.start]
  inside := by simp [Tarjan.start]
  ordered := List.Pairwise.nil
  next := by simp [Tarjan.start]
  closed := by simp [Tarjan.start]
  sized := by simp [Tarjan.start]

theorem Table.lower (table : Table nodes successors s) (bound : Nat) :
    Table nodes successors (s.lower node bound) :=
  ⟨table.stacked, table.visited, table.apart, table.inside, table.ordered, table.next, table.closed,
    table.sized⟩

theorem Table.meet (table : Table nodes successors s) (new : s.order node = none)
    (member : node ∈ nodes) : Table nodes successors (s.meet node) := by
  have unstacked : node ∉ s.stack := fun here => (table.visited node).mpr (.inl here) new
  have unassigned : s.of node = none := by
    by_contra assigned
    exact (table.visited node).mpr (.inr assigned) new
  constructor
  · intro v
    by_cases same : v = node
    · simp [Tarjan.meet, same]
    · simp [Tarjan.meet, same, table.stacked]
  · intro v
    by_cases same : v = node
    · simp [Tarjan.meet, same]
    · simp [Tarjan.meet, same, table.visited]
  · intro v here
    rcases List.mem_cons.mp here with rfl | below
    · exact unassigned
    · exact table.apart v below
  · intro v known
    by_cases same : v = node
    · rwa [same]
    · exact table.inside v (by simpa [Tarjan.meet, same] using known)
  · have kept : ∀ v ∈ s.stack, (s.meet node).number v = s.number v := by
      intro v here
      have other : v ≠ node := fun same => unstacked (same ▸ here)
      simp [number, Tarjan.meet, other]
    refine List.pairwise_cons.mpr ⟨fun v here => ?_, ?_⟩
    · obtain ⟨n, numbered⟩ := Option.ne_none_iff_exists'.mp ((table.visited v).mpr (.inl here))
      rw [kept v here, number_of numbered]
      have below := table.next v n numbered
      simpa [number, Tarjan.meet] using below
    · refine table.ordered.imp_of_mem fun {a b} aHere bHere before => ?_
      rwa [kept a aHere, kept b bHere]
  · intro v n numbered
    show n < s.next + 1
    by_cases same : v = node
    · simp [Tarjan.meet, same] at numbered
      omega
    · have before := table.next v n (by simpa [Tarjan.meet, same] using numbered)
      omega
  · exact table.closed
  · exact table.sized

theorem close_eq {component size : Nat} (fresh : node ∉ above) :
    s.close node component (above ++ node :: below) size =
      { s with
        onStack := fun v => if v ∈ above ++ [node] then false else s.onStack v
        of := fun v => if v ∈ above ++ [node] then some component else s.of v
        stack := below
        sizes := s.sizes ++ [size + above.length + 1] } := by
  induction above generalizing s size with
  | nil =>
    simp only [List.nil_append, Tarjan.close, if_true, List.length_nil, Nat.add_zero]
    congr 1 <;> funext v <;> by_cases same : v = node <;> simp [same]
  | cons member above ih =>
    have other : member ≠ node := fun same => fresh (same ▸ List.mem_cons_self)
    have later : node ∉ above := fun here => fresh (List.mem_cons_of_mem _ here)
    rw [List.cons_append, Tarjan.close, if_neg other, ih later]
    congr 1
    · funext v
      by_cases here : v = member <;> simp [here]
    · funext v
      by_cases here : v = member <;> simp [here]
    · simp only [List.length_cons]
      congr 2
      omega

theorem Table.close (table : Table nodes successors s) (stack : s.stack = above ++ node :: below)
    (closed : ∀ u ∈ above ++ [node], ∀ v ∈ successors u, v ∈ above ++ [node] ∨ s.of v ≠ none) :
    Table nodes successors (s.close node s.sizes.length s.stack 0) := by
  have nodup : (above ++ node :: below).Nodup := by
    rw [← stack]
    exact table.ordered.imp fun before same => (same ▸ before).false
  have fresh : node ∉ above := fun here =>
    (List.nodup_append.mp nodup).2.2 node here node List.mem_cons_self rfl
  have split : above ++ node :: below = (above ++ [node]) ++ below := by simp
  have disjoint : ∀ v ∈ above ++ [node], v ∉ below := fun v here later =>
    (List.nodup_append.mp (split ▸ nodup)).2.2 v here v later rfl
  have unassigned : ∀ v ∈ above ++ [node], s.of v = none := fun v here =>
    table.apart v (by rw [stack, split]; exact List.mem_append_left _ here)
  rw [stack, close_eq fresh]
  constructor
  · intro v
    by_cases here : v ∈ above ++ [node]
    · simp [here, disjoint v here]
    · have same := table.stacked v
      rw [stack, split, List.mem_append] at same
      simpa [here] using same
  · intro v
    have same := table.visited v
    rw [stack, split, List.mem_append] at same
    by_cases here : v ∈ above ++ [node]
    · simpa [here] using same
    · simpa [here] using same
  · intro v here
    have outside : v ∉ above ++ [node] := fun early => disjoint v early here
    have before := table.apart v (by rw [stack, split]; exact List.mem_append_right _ here)
    simpa [outside] using before
  · exact table.inside
  · have ordered := table.ordered
    rw [stack, split] at ordered
    exact (List.pairwise_append.mp ordered).2.1
  · exact table.next
  · intro u k assigned
    dsimp only at assigned ⊢
    rw [List.length_append, List.length_singleton]
    split at assigned
    · next member =>
      cases assigned
      refine ⟨Nat.lt_succ_self _, fun v link => ?_⟩
      by_cases here : v ∈ above ++ [node]
      · exact ⟨_, Nat.le_refl _, if_pos here⟩
      · rw [if_neg here]
        have known := (closed u member v link).resolve_left here
        obtain ⟨l, isL⟩ := Option.ne_none_iff_exists'.mp known
        exact ⟨l, (table.closed v l isL).1.le, isL⟩
    · obtain ⟨bound, links⟩ := table.closed u k assigned
      refine ⟨Nat.lt_succ_of_lt bound, fun v link => ?_⟩
      obtain ⟨l, below, isL⟩ := links v link
      have outside : v ∉ above ++ [node] := fun here => by
        rw [unassigned v here] at isL
        cases isL
      exact ⟨l, below, by rw [if_neg outside, isL]⟩
  · intro k size here
    dsimp only at here ⊢
    rcases Nat.lt_trichotomy k s.sizes.length with earlier | rfl | later
    · rw [List.getElem?_append_left earlier] at here
      obtain ⟨members, distinct, length, same⟩ := table.sized k size here
      refine ⟨members, distinct, length, fun v => ?_⟩
      rw [same]
      by_cases inside : v ∈ above ++ [node]
      · simp [inside, unassigned v inside, Nat.ne_of_gt earlier]
      · simp [inside]
    · rw [List.getElem?_concat_length] at here
      cases here
      refine ⟨above ++ [node], (List.nodup_append.mp (split ▸ nodup)).1, by simp, fun v => ?_⟩
      by_cases inside : v ∈ above ++ [node]
      · simp [inside]
      · rw [if_neg inside]
        refine ⟨fun impossible => absurd impossible inside, fun assigned => ?_⟩
        exact absurd (table.closed v _ assigned).1 (Nat.lt_irrefl _)
    · rw [List.getElem?_eq_none (by simp; omega)] at here
      cases here

/-! ### The path -/

/-- A visited node that bounds what `node` may reach while it is on the stack. -/
def Met (s : Tarjan K) (node v : K) : Prop :=
  ∃ n, s.order v = some n ∧ (s.onStack v = true → s.lowest node ≤ n)

/-- The path through the stack: between two of its nodes the stack holds finished ones, whose links
the lower node answers for. -/
inductive Spine (successors : K → List K) (s : Tarjan K) (first : Nat) :
    List (K × Nat) → List K → Prop
  | nil : Spine successors s first [] []
  | cons {node : K} {k : Nat} {path : List (K × Nat)} {above below : List K}
      (rest : Spine successors s first path below)
      (known : ∃ n, s.order node = some n ∧ s.lowest node ≤ n ∧ (path = [] → n = first))
      (count : k ≤ (successors node).length)
      (own : ∀ v ∈ (successors node).take k, s.Met node v)
      (finished : ∀ u ∈ above, ∀ v ∈ successors u, s.Met node v) :
      Spine successors s first ((node, k) :: path) (above ++ node :: below)

omit [DecidableEq K] in
theorem Met.mono {later : Tarjan K} {v : K} (met : s.Met node v)
    (order : ∀ v n, s.order v = some n → later.order v = some n)
    (onStack : ∀ v n, s.order v = some n → later.onStack v = true → s.onStack v = true)
    (lowest : later.lowest node ≤ s.lowest node) : later.Met node v := by
  obtain ⟨n, known, bound⟩ := met
  exact ⟨n, order v n known, fun here => lowest.trans (bound (onStack v n known here))⟩

omit [DecidableEq K] in
theorem Spine.mono {later : Tarjan K} (spine : Spine successors s first path stack)
    (order : ∀ v n, s.order v = some n → later.order v = some n)
    (onStack : ∀ v n, s.order v = some n → later.onStack v = true → s.onStack v = true)
    (lowest : ∀ entry ∈ path, later.lowest entry.1 ≤ s.lowest entry.1) :
    Spine successors later first path stack := by
  induction spine with
  | nil => exact .nil
  | cons rest known count own finished ih =>
    have here := lowest _ List.mem_cons_self
    obtain ⟨n, numbered, bound, root⟩ := known
    exact .cons (ih fun entry member => lowest entry (List.mem_cons_of_mem _ member))
      ⟨n, order _ _ numbered, here.trans bound, root⟩ count
      (fun v member => (own v member).mono order onStack here)
      (fun u member v link => (finished u member v link).mono order onStack here)

omit [DecidableEq K] in
theorem Spine.visited (spine : Spine successors s first path stack) {entry : K × Nat}
    (member : entry ∈ path) : s.order entry.1 ≠ none := by
  induction spine with
  | nil => cases member
  | cons rest known count own finished ih =>
    rcases List.mem_cons.mp member with rfl | later
    · obtain ⟨n, numbered, _⟩ := known
      simp [numbered]
    · exact ih later

omit [DecidableEq K] in
theorem Spine.push (rest : Spine successors s first path below)
    (known : ∃ n, s.order node = some n ∧ s.lowest node ≤ n ∧ (path = [] → n = first)) :
    Spine successors s first ((node, 0) :: path) (node :: below) := by
  show Spine successors s first ((node, 0) :: path) ([] ++ node :: below)
  exact .cons rest known (Nat.zero_le _) (fun v member => nomatch member)
    (fun u member => nomatch member)

omit [DecidableEq K] in
theorem Spine.last (spine : Spine successors s first ((node, k) :: path) stack)
    (done : (successors node)[k]? = none) :
    ∃ above below, stack = above ++ node :: below ∧ Spine successors s first path below ∧
      ∀ u ∈ above ++ [node], ∀ v ∈ successors u, s.Met node v := by
  cases spine with
  | @cons _ _ _ above below rest known count own finished =>
    refine ⟨above, below, rfl, rest, fun u member v link => ?_⟩
    rcases List.mem_append.mp member with early | here
    · exact finished u early v link
    · rw [List.mem_singleton.mp here] at link
      rw [List.take_of_length_le (List.getElem?_eq_none_iff.mp done)] at own
      exact own v link

omit [DecidableEq K] in
theorem Spine.merge {parent : K} {followed : Nat}
    (spine : Spine successors s first ((parent, followed) :: path) below)
    (low : s.lowest parent ≤ s.lowest node)
    (links : ∀ u ∈ above ++ [node], ∀ v ∈ successors u, s.Met node v) :
    Spine successors s first ((parent, followed) :: path) (above ++ node :: below) := by
  cases spine with
  | @cons _ _ _ between lower rest known count own finished =>
    have regroup : above ++ node :: (between ++ parent :: lower) =
        (above ++ [node] ++ between) ++ parent :: lower := by simp
    rw [regroup]
    refine .cons rest known count own fun u member v link => ?_
    rcases List.mem_append.mp member with early | late
    · obtain ⟨n, known, bound⟩ := links u early v link
      exact ⟨n, known, fun here => low.trans (bound here)⟩
    · exact finished u late v link

omit [DecidableEq K] in
theorem Spine.known (spine : Spine successors s first ((node, k) :: path) stack) :
    ∃ n, s.order node = some n ∧ s.lowest node ≤ n ∧ (path = [] → n = first) := by
  cases spine with
  | cons rest known => exact known

omit [DecidableEq K] in
theorem Spine.empty (spine : Spine successors s first [] stack) : stack = [] := by
  cases spine
  rfl

omit [DecidableEq K] in
theorem Spine.follow (spine : Spine successors s first ((node, k) :: path) stack)
    (link : (successors node)[k]? = some target) (met : s.Met node target) :
    Spine successors s first ((node, k + 1) :: path) stack := by
  cases spine with
  | cons rest known count own finished =>
    have inside := (List.getElem?_eq_some_iff.mp link).1
    refine .cons rest known inside (fun v member => ?_) finished
    rw [List.take_add_one, link, List.mem_append] at member
    rcases member with before | here
    · exact own v before
    · rwa [List.mem_singleton.mp here]

structure Inv (nodes : List K) (successors : K → List K) (first : Nat) (path : List (K × Nat))
    (s : Tarjan K) : Prop where
  table : Table nodes successors s
  spine : Spine successors s first path s.stack
  since : ∀ v ∈ s.stack, first ≤ s.number v
  lowSince : ∀ entry ∈ path, first ≤ s.lowest entry.1

theorem spine_meet (spine : Spine successors s first path stack) (new : s.order target = none) :
    Spine successors (s.meet target) first path stack := by
  refine spine.mono (fun v n numbered => ?_) (fun v n numbered => ?_) (fun entry member => ?_)
  · have other : v ≠ target := fun same => by simp [same, new] at numbered
    simp [meet, other, numbered]
  · have other : v ≠ target := fun same => by simp [same, new] at numbered
    simp [meet, other]
  · have other : entry.1 ≠ target := fun same => spine.visited member (same ▸ new)
    simp [meet, other]

theorem Inv.root (inv : Inv nodes successors first [] s) (new : s.order node = none)
    (member : node ∈ nodes) :
    Inv nodes successors s.next [(node, 0)] (s.meet node) := by
  have empty : s.stack = [] := inv.spine.empty
  have numbered : (s.meet node).order node = some s.next := by simp [Tarjan.meet]
  have lowest : (s.meet node).lowest node = s.next := by simp [Tarjan.meet]
  have stack : (s.meet node).stack = [node] := by simp [Tarjan.meet, empty]
  refine ⟨inv.table.meet new member, ?_, ?_, ?_⟩
  · rw [stack]
    exact .push .nil ⟨_, numbered, lowest.le, fun _ => rfl⟩
  · intro v here
    rw [stack, List.mem_singleton] at here
    rw [here, number_of numbered]
  · intro entry here
    rw [List.mem_singleton.mp here, lowest]

theorem Inv.meet (inv : Inv nodes successors first ((node, k) :: path) s)
    (link : (successors node)[k]? = some target) (new : s.order target = none)
    (member : target ∈ nodes) :
    Inv nodes successors first ((target, 0) :: (node, k + 1) :: path) (s.meet target) := by
  have numbered : (s.meet target).order target = some s.next := by simp [Tarjan.meet]
  have lowest : (s.meet target).lowest target = s.next := by simp [Tarjan.meet]
  have kept : ∀ v, s.order v ≠ none → (s.meet target).number v = s.number v ∧
      (s.meet target).lowest v = s.lowest v := by
    intro v known
    have other : v ≠ target := fun same => known (same ▸ new)
    simp [number, Tarjan.meet, other]
  have visited : s.order node ≠ none := inv.spine.visited List.mem_cons_self
  have bound : (s.meet target).lowest node ≤ s.next := by
    rw [(kept node visited).2]
    obtain ⟨n, isN, low, _⟩ := inv.spine.known
    exact low.trans (inv.table.next node n isN).le
  have oldest : first ≤ s.next := by
    have low := inv.lowSince _ List.mem_cons_self
    rw [← (kept node visited).2] at low
    exact low.trans bound
  refine ⟨inv.table.meet new member, ?_, ?_, ?_⟩
  · exact .push ((spine_meet inv.spine new).follow link ⟨_, numbered, fun _ => bound⟩)
      ⟨_, numbered, lowest.le, nofun⟩
  · intro v here
    rcases List.mem_cons.mp here with rfl | below
    · rwa [number_of numbered]
    · rw [(kept v ((inv.table.visited v).mpr (.inl below))).1]
      exact inv.since v below
  · intro entry here
    rcases List.mem_cons.mp here with rfl | here
    · rwa [lowest]
    · rcases List.mem_cons.mp here with rfl | below
      · rw [(kept node visited).2]
        exact inv.lowSince _ List.mem_cons_self
      · rw [(kept _ (inv.spine.visited (List.mem_cons_of_mem _ below))).2]
        exact inv.lowSince _ (List.mem_cons_of_mem _ below)

theorem lower_lowest_le (s : Tarjan K) (node v : K) (bound : Nat) :
    (s.lower node bound).lowest v ≤ s.lowest v := by
  by_cases same : v = node
  · simp [lower, same]
  · simp [lower, same]

theorem Inv.lower (inv : Inv nodes successors first path s) (node : K) {bound : Nat}
    (above : first ≤ bound) :
    Inv nodes successors first path (s.lower node bound) := by
  refine ⟨inv.table.lower bound, ?_, inv.since, ?_⟩
  · exact inv.spine.mono (fun _ _ numbered => numbered) (fun _ _ _ here => here)
      fun entry _ => lower_lowest_le s node entry.1 bound
  · intro entry member
    have low := inv.lowSince entry member
    by_cases same : entry.1 = node
    · simp [Tarjan.lower, ← same, low, above]
    · simpa [Tarjan.lower, same] using low

omit [DecidableEq K] in
theorem Inv.follow (inv : Inv nodes successors first ((node, k) :: path) s)
    (link : (successors node)[k]? = some target) (met : s.Met node target) :
    Inv nodes successors first ((node, k + 1) :: path) s where
  table := inv.table
  spine := inv.spine.follow link met
  since := inv.since
  lowSince := by
    intro entry member
    rcases List.mem_cons.mp member with rfl | later
    · exact inv.lowSince (node, k) List.mem_cons_self
    · exact inv.lowSince _ (List.mem_cons_of_mem _ later)

theorem Inv.close (inv : Inv nodes successors first ((node, k) :: path) s)
    (done : (successors node)[k]? = none) (root : some (s.lowest node) = s.order node) :
    Inv nodes successors first path (s.close node s.sizes.length s.stack 0) := by
  obtain ⟨above, below, stack, rest, links⟩ := inv.spine.last done
  have ordered := inv.table.ordered
  rw [stack] at ordered
  have apart := (List.pairwise_append.mp ordered).2.2
  have lower := (List.pairwise_cons.mp (List.pairwise_append.mp ordered).2.1).1
  have fresh : node ∉ above := fun here => (apart node here node List.mem_cons_self).false
  have closed : ∀ u ∈ above ++ [node], ∀ v ∈ successors u,
      v ∈ above ++ [node] ∨ s.of v ≠ none := by
    intro u member v link
    obtain ⟨n, numbered, bound⟩ := links u member v link
    have visited := (inv.table.visited v).mp (by simp [numbered])
    refine visited.imp_left fun here => ?_
    -- A node below the closing one was numbered before it.
    have late : s.lowest node ≤ n := bound ((inv.table.stacked v).mpr here)
    rw [stack] at here
    rcases List.mem_append.mp here with early | here
    · exact List.mem_append_left _ early
    · rcases List.mem_cons.mp here with rfl | under
      · exact List.mem_append_right _ List.mem_cons_self
      · have before := lower v under
        rw [number_of numbered, number_of root.symm] at before
        omega
  have table := inv.table.close stack closed
  rw [stack, close_eq fresh] at table ⊢
  refine ⟨table, ?_, fun v here => ?_, fun entry member => ?_⟩
  · refine rest.mono (fun _ _ numbered => numbered) (fun v _ _ here => ?_) fun _ _ => Nat.le_refl _
    dsimp only at here
    split at here
    · cases here
    · exact here
  · exact inv.since v (by rw [stack]; exact List.mem_append_right _ (List.mem_cons_of_mem _ here))
  · exact inv.lowSince entry (List.mem_cons_of_mem _ member)

/-- The last node of the path has no link left: what is above it is answered for by its parent, or
is a component. -/
theorem Inv.leave (inv : Inv nodes successors first ((node, k) :: path) s)
    (done : (successors node)[k]? = none) :
    Inv nodes successors first (step successors ((node, k) :: path) s).1
      (step successors ((node, k) :: path) s).2 := by
  have oldest := inv.lowSince _ List.mem_cons_self
  cases path with
  | nil =>
    simp only [step, done]
    obtain ⟨n, numbered, low, root⟩ := inv.spine.known
    have same : s.lowest node = n := Nat.le_antisymm low ((root rfl).trans_le oldest)
    rw [if_pos (by rw [same, numbered])]
    exact inv.close done (by rw [same, numbered])
  | cons entry path =>
    obtain ⟨parent, followed⟩ := entry
    simp only [step, done]
    have lowered := inv.lower parent oldest
    split
    · next root => exact lowered.close done root
    · obtain ⟨above, below, stack, rest, links⟩ := lowered.spine.last done
      refine ⟨lowered.table, ?_, lowered.since, fun entry member =>
        lowered.lowSince entry (List.mem_cons_of_mem _ member)⟩
      rw [stack]
      refine rest.merge ?_ links
      by_cases same : node = parent
      · rw [same]
      · simp [Tarjan.lower, same]

/-! ### Rounds -/

/-- The rounds that unvisited nodes will take. -/
def pending (nodes : List K) (successors : K → List K) (s : Tarjan K) : Nat :=
  ∑ v ∈ nodes.toFinset with s.order v = none, ((successors v).length + 1)

/-- The rounds that the nodes on the path will still take. -/
def left (successors : K → List K) (path : List (K × Nat)) : Nat :=
  (path.map fun entry => (successors entry.1).length + 1 - entry.2).sum

theorem pending_meet (successors : K → List K) (member : node ∈ nodes) (new : s.order node = none) :
    (successors node).length + 1 + pending nodes successors (s.meet node) =
      pending nodes successors s := by
  have here : node ∈ nodes.toFinset.filter fun v => s.order v = none :=
    Finset.mem_filter.mpr ⟨List.mem_toFinset.mpr member, new⟩
  have rest : (nodes.toFinset.filter fun v => (s.meet node).order v = none) =
      (nodes.toFinset.filter fun v => s.order v = none).erase node := by
    ext v
    rw [Finset.mem_filter, Finset.mem_erase, Finset.mem_filter]
    by_cases same : v = node <;> simp [Tarjan.meet, same]
  rw [pending, rest, pending]
  exact Finset.add_sum_erase _ (fun v => (successors v).length + 1) here

omit [DecidableEq K] in
theorem Spine.count (spine : Spine successors s first ((node, k) :: path) stack) :
    k ≤ (successors node).length := by
  cases spine with
  | cons rest known count => exact count

@[simp] theorem lower_order (s : Tarjan K) (node : K) (bound : Nat) :
    (s.lower node bound).order = s.order := rfl

@[simp] theorem close_order (s : Tarjan K) (node : K) (component size : Nat) (stack : List K) :
    (s.close node component stack size).order = s.order := by
  induction stack generalizing s size with
  | nil => rfl
  | cons member stack ih =>
    rw [Tarjan.close]
    split
    · rfl
    · rw [ih]

theorem Inv.step (inv : Inv nodes successors first ((node, k) :: path) s)
    (inside : ∀ u, ∀ v ∈ successors u, v ∈ nodes) {path' : List (K × Nat)}
    (round : Tarjan.step successors ((node, k) :: path) s = (path', s')) :
    Inv nodes successors first path' s' ∧ (∀ v, s.order v ≠ none → s'.order v ≠ none) ∧
      pending nodes successors s' + left successors path' <
        pending nodes successors s + left successors ((node, k) :: path) := by
  have count := inv.spine.count
  cases link : (successors node)[k]? with
  | none =>
    have next := inv.leave link
    rw [round] at next
    simp only [Tarjan.step, link] at round
    obtain ⟨samePath, sameState⟩ := Prod.mk.inj round
    have same : s'.order = s.order := by
      rw [← sameState]
      cases path <;> dsimp only <;> split <;> simp
    refine ⟨next, fun v known => same ▸ known, ?_⟩
    simp only [pending, same, left, ← samePath, List.map_cons, List.sum_cons]
    omega
  | some target =>
    have followed := (List.getElem?_eq_some_iff.mp link).1
    have member : target ∈ nodes := inside node target (List.mem_of_getElem? link)
    simp only [Tarjan.step, link] at round
    cases seen : s.order target with
    | none =>
      rw [seen] at round
      obtain ⟨rfl, rfl⟩ := Prod.mk.inj round
      refine ⟨inv.meet link seen member, fun v known => ?_, ?_⟩
      · have other : v ≠ target := fun same => known (same ▸ seen)
        simpa [Tarjan.meet, other] using known
      · have fewer := pending_meet successors member seen
        simp only [left, List.map_cons, List.sum_cons]
        omega
    | some n =>
      rw [seen] at round
      obtain ⟨rfl, rfl⟩ := Prod.mk.inj round
      have rounds : left successors ((node, k + 1) :: path) < left successors ((node, k) :: path) := by
        simp only [left, List.map_cons, List.sum_cons]
        omega
      split
      · next stacked =>
        have number := inv.since target ((inv.table.stacked target).mp stacked)
        rw [number_of seen] at number
        have lowered := inv.lower node number
        have met : (s.lower node n).Met node target := ⟨n, seen, fun _ => by simp [Tarjan.lower]⟩
        exact ⟨lowered.follow link met, fun v known => known, Nat.add_lt_add_left rounds _⟩
      · next unstacked =>
        exact ⟨inv.follow link ⟨n, seen, fun stacked => absurd stacked unstacked⟩,
          fun v known => known, Nat.add_lt_add_left rounds _⟩

theorem search_nil (fuel : Nat) : Tarjan.search successors fuel [] s = s := by
  induction fuel with
  | zero => rfl
  | succ fuel ih => exact ih

theorem Inv.search (inv : Inv nodes successors first path s)
    (inside : ∀ u, ∀ v ∈ successors u, v ∈ nodes) {fuel : Nat}
    (enough : pending nodes successors s + left successors path ≤ fuel) :
    Inv nodes successors first [] (Tarjan.search successors fuel path s) ∧
      ∀ v, s.order v ≠ none → (Tarjan.search successors fuel path s).order v ≠ none := by
  induction fuel generalizing path s with
  | zero =>
    cases path with
    | nil => exact ⟨inv, fun v known => known⟩
    | cons entry path =>
      have count := Spine.count inv.spine
      simp only [left, List.map_cons, List.sum_cons] at enough
      omega
  | succ fuel ih =>
    cases path with
    | nil =>
      rw [search_nil]
      exact ⟨inv, fun v known => known⟩
    | cons entry path =>
      obtain ⟨node, k⟩ := entry
      obtain ⟨next, kept, fewer⟩ := inv.step inside rfl
      obtain ⟨final, kept'⟩ := ih next (by omega)
      exact ⟨final, fun v known => kept' v (kept v known)⟩

/-- Some first number, with nothing on the stack. -/
def Rest (nodes : List K) (successors : K → List K) (s : Tarjan K) : Prop :=
  ∃ first, Inv nodes successors first [] s

omit [DecidableEq K] in
theorem Rest.start : Rest nodes successors Tarjan.start :=
  ⟨0, Table.start, .nil, nofun, nofun⟩

end Tarjan

section
variable {K : Type} [DecidableEq K] {nodes : List K} {edges : List (K × K)}

theorem links_sum (inside : ∀ edge ∈ edges, edge.1 ∈ nodes) :
    ∑ v ∈ nodes.toFinset, (successors edges v).length = edges.length := by
  induction edges with
  | nil => simp [successors]
  | cons edge edges ih =>
    have rest := ih fun other member => inside other (List.mem_cons_of_mem _ member)
    have here : edge.1 ∈ nodes.toFinset :=
      List.mem_toFinset.mpr (inside edge List.mem_cons_self)
    have each : ∀ v, (successors (edge :: edges) v).length =
        (if edge.1 = v then 1 else 0) + (successors edges v).length := by
      intro v
      by_cases same : edge.1 = v
      · simp [successors, same, Nat.add_comm]
      · simp [successors, same]
    simp only [each, Finset.sum_add_distrib, rest, Finset.sum_ite_eq, here, if_true,
      List.length_cons]
    omega

theorem rounds_le (inside : ∀ edge ∈ edges, edge.1 ∈ nodes) (s : Tarjan K) :
    s.pending nodes (successors edges) ≤ nodes.length + edges.length := by
  have all : ∑ v ∈ nodes.toFinset, ((successors edges v).length + 1) ≤
      nodes.length + edges.length := by
    rw [Finset.sum_add_distrib, links_sum inside, ← Finset.card_eq_sum_ones]
    have distinct := nodes.toFinset_card_le
    omega
  exact (Finset.sum_le_sum_of_subset (Finset.filter_subset ..)).trans all

theorem rounds_enough (inside : ∀ edge ∈ edges, edge.1 ∈ nodes) {s : Tarjan K} {root : K}
    (member : root ∈ nodes) (new : s.order root = none) :
    (s.meet root).pending nodes (successors edges) + Tarjan.left (successors edges) [(root, 0)] ≤
      nodes.length + edges.length := by
  have rounds := rounds_le inside s
  rw [← Tarjan.pending_meet (successors edges) member new] at rounds
  simp only [Tarjan.left, List.map_cons, List.map_nil, List.sum_cons, List.sum_nil]
  omega

theorem searchFrom_rest (inside : ∀ edge ∈ edges, edge.1 ∈ nodes ∧ edge.2 ∈ nodes)
    {s : Tarjan K} (rest : s.Rest nodes (successors edges)) {root : K} (member : root ∈ nodes) :
    (searchFrom nodes edges s root).Rest nodes (successors edges) ∧
      (∀ v, s.order v ≠ none → (searchFrom nodes edges s root).order v ≠ none) ∧
      (searchFrom nodes edges s root).order root ≠ none := by
  cases new : s.order root with
  | some n =>
    simp only [searchFrom, new]
    exact ⟨rest, fun v known => known, by simp⟩
  | none =>
    simp only [searchFrom, new]
    obtain ⟨first, inv⟩ := rest
    have targets : ∀ u, ∀ v ∈ successors edges u, v ∈ nodes := fun u v link =>
      (inside _ (mem_successors.mp link)).2
    have enough := rounds_enough (fun edge here => (inside edge here).1) member new
    obtain ⟨final, kept⟩ := (inv.root new member).search targets enough
    refine ⟨⟨_, final⟩, fun v known => kept v ?_, kept root ?_⟩
    · by_cases same : v = root <;> simp [Tarjan.meet, same, known]
    · simp [Tarjan.meet]

theorem searchAll_rest (inside : ∀ edge ∈ edges, edge.1 ∈ nodes ∧ edge.2 ∈ nodes)
    {s : Tarjan K} (rest : s.Rest nodes (successors edges)) {roots : List K}
    (members : ∀ root ∈ roots, root ∈ nodes) :
    (roots.foldl (searchFrom nodes edges) s).Rest nodes (successors edges) ∧
      (∀ v, s.order v ≠ none → (roots.foldl (searchFrom nodes edges) s).order v ≠ none) ∧
      ∀ root ∈ roots, (roots.foldl (searchFrom nodes edges) s).order root ≠ none := by
  induction roots generalizing s with
  | nil => exact ⟨rest, fun v known => known, fun root member => nomatch member⟩
  | cons root roots ih =>
    obtain ⟨next, kept, here⟩ := searchFrom_rest inside rest (members root List.mem_cons_self)
    obtain ⟨final, kept', there⟩ := ih next fun other member =>
      members other (List.mem_cons_of_mem _ member)
    refine ⟨final, fun v known => kept' v (kept v known), fun other member => ?_⟩
    rcases List.mem_cons.mp member with rfl | later
    · exact kept' _ here
    · exact there other later

/-- Components are numbered against their links, and each has as many nodes as its size says. -/
structure Components.Sound (components : Components K) (nodes : List K) (edges : List (K × K)) :
    Prop where
  assigned : ∀ node ∈ nodes, components.of node ≠ none
  closed : ∀ u v, (u, v) ∈ edges → ∀ k, components.of u = some k →
    ∃ l ≤ k, components.of v = some l
  sized : ∀ node ∈ nodes, components.sizeOf node =
    (nodes.toFinset.filter fun other => components.of other = components.of node).card

theorem components_sound (inside : ∀ edge ∈ edges, edge.1 ∈ nodes ∧ edge.2 ∈ nodes) :
    (stronglyConnectedComponents nodes edges).Sound nodes edges := by
  obtain ⟨⟨first, inv⟩, -, visited⟩ :=
    searchAll_rest inside Tarjan.Rest.start fun root (member : root ∈ nodes) => member
  have empty := inv.spine.empty
  have assigned : ∀ node ∈ nodes, (stronglyConnectedComponents nodes edges).of node ≠ none := by
    intro node member
    have placed := (inv.table.visited node).mp (visited node member)
    rw [empty] at placed
    exact placed.resolve_left List.not_mem_nil
  refine ⟨assigned, fun u v link k isK => ?_, fun node member => ?_⟩
  · exact (inv.table.closed u k isK).2 v (mem_successors.mpr link)
  · obtain ⟨k, isK⟩ := Option.ne_none_iff_exists'.mp (assigned node member)
    obtain ⟨bound, -⟩ := inv.table.closed node k isK
    obtain ⟨members, distinct, length, same⟩ :=
      inv.table.sized k _ (List.getElem?_eq_getElem bound)
    have size : (stronglyConnectedComponents nodes edges).sizeOf node = members.length := by
      rw [length, Components.sizeOf, isK]
      exact (List.getElem_eq_getD 0).symm
    rw [size, ← List.toFinset_card_of_nodup distinct]
    congr 1
    ext other
    rw [List.mem_toFinset, same, Finset.mem_filter, List.mem_toFinset, isK]
    refine ⟨fun isOther => ⟨inv.table.inside other ?_, isOther⟩, fun both => both.2⟩
    exact (inv.table.visited other).mpr (.inr (by simp [isOther]))

theorem Components.Sound.same {components : Components K} (sound : components.Sound nodes edges)
    {u v : K} (node : u ∈ nodes) (there : TransGen (fun a b => (a, b) ∈ edges) u v)
    (back : TransGen (fun a b => (a, b) ∈ edges) v u) : components.of u = components.of v := by
  have down : ∀ {a b}, TransGen (fun a b => (a, b) ∈ edges) a b → ∀ k, components.of a = some k →
      ∃ l ≤ k, components.of b = some l := by
    intro a b path
    induction path with
    | single step => exact sound.closed _ _ step
    | tail _ step ih =>
      intro k isK
      obtain ⟨l, low, isL⟩ := ih k isK
      obtain ⟨m, lower, isM⟩ := sound.closed _ _ step l isL
      exact ⟨m, lower.trans low, isM⟩
  obtain ⟨k, isK⟩ := Option.ne_none_iff_exists'.mp (sound.assigned u node)
  obtain ⟨l, low, isL⟩ := down there k isK
  obtain ⟨m, lower, isM⟩ := down back l isL
  have same : m = k := Option.some.inj (isM.symm.trans isK)
  rw [isK, isL, Nat.le_antisymm (same ▸ lower) low]

end
end AsapPlanner.Milp
