import Mathlib.Data.List.Induction
import Mathlib.Logic.Function.Iterate
import Mathlib.Tactic.Common

/-!
Union-find by parent pointers alone: a root points to itself, a search shortens the path it climbs, and two
classes are joined by pointing one root to the other.
-/

namespace AsapPlanner.Traversal

namespace UnionFind
variable {K : Type} [DecidableEq K]

/-- The root above a node; each node passed points to its grandparent afterwards. -/
def find : Nat → (K → K) → K → K × (K → K)
  | 0, parent, node => (node, parent)
  | fuel + 1, parent, node =>
    if parent node = node then (node, parent)
    else
      let parent := Function.update parent node (parent (parent node))
      find fuel parent (parent node)

/-- Joins `first`'s class and the classes of `nodes`. -/
def join (fuel : Nat) : List K → Option K → (K → K) → K → K
  | [], _, parent => parent
  | node :: rest, first, parent =>
    let found := find fuel parent node
    match first with
    | none => join fuel rest (some found.1) found.2
    | some known =>
      if known ≠ found.1 then join fuel rest (some known) (Function.update found.2 found.1 known)
      else join fuel rest (some known) found.2

def findAll (fuel : Nat) : List K → (K → K) → List K × (K → K)
  | [], parent => ([], parent)
  | node :: rest, parent =>
    let found := find fuel parent node
    let later := findAll fuel rest found.2
    (found.1 :: later.1, later.2)

/-! ### Climbing -/

section
variable {K : Type}

/-- Every step up raises a rank that is at most `height`. -/
structure Ranked (parent : K → K) (rank : K → Nat) (height : Nat) : Prop where
  rises : ∀ node, parent node ≠ node → rank node < rank (parent node)
  below : ∀ node, rank node ≤ height

/-- What `fuel` steps up lead to. -/
def top (fuel : Nat) (parent : K → K) (node : K) : K := parent^[fuel] node

variable {fuel height : Nat} {parent : K → K} {rank : K → Nat} {node : K}

theorem ranked_id (height : Nat) : Ranked (id : K → K) (fun _ => 0) height :=
  ⟨fun _ moves => absurd rfl moves, fun _ => Nat.zero_le _⟩

theorem top_of_root (root : parent node = node) : top fuel parent node = node :=
  Function.iterate_fixed root fuel

namespace Ranked
variable (ranked : Ranked parent rank height)
include ranked

theorem mono {more : Nat} (le : height ≤ more) : Ranked parent rank more :=
  ⟨ranked.rises, fun node => Nat.le_trans (ranked.below node) le⟩

theorem top_root (enough : height ≤ fuel) (node : K) : parent (top fuel parent node) = top fuel parent node := by
  have climbed : ∀ steps, parent (parent^[steps] node) = parent^[steps] node ∨
      steps ≤ rank (parent^[steps] node) := by
    intro steps
    induction steps with
    | zero => exact .inr (Nat.zero_le _)
    | succ steps ih =>
      rw [Function.iterate_succ_apply']
      by_cases root : parent (parent^[steps] node) = parent^[steps] node
      · left
        rw [root, root]
      · have high := ih.resolve_left root
        exact .inr (Nat.lt_of_le_of_lt high (ranked.rises _ root))
  by_contra moves
  have high : fuel ≤ rank (top fuel parent node) := (climbed fuel).resolve_left moves
  have higher := ranked.rises _ moves
  have below := ranked.below (parent (top fuel parent node))
  omega

theorem top_parent (enough : height ≤ fuel) (node : K) : top fuel parent (parent node) = top fuel parent node := by
  have once := ranked.top_root enough node
  rwa [top, ← Function.iterate_succ_apply' parent, Function.iterate_succ_apply] at once

theorem induction {P : K → Prop} (root : ∀ node, parent node = node → P node)
    (step : ∀ node, parent node ≠ node → P (parent node) → P (parent (parent node)) → P node) (node : K) :
    P node := by
  induction gap : height - rank node using Nat.strongRecOn generalizing node with
  | ind gap ih =>
    by_cases still : parent node = node
    · exact root node still
    · have higher {other : K} (above : rank node < rank other) : P other := by
        have bounded := ranked.below other
        exact ih _ (by omega) other rfl
      have once := ranked.rises node still
      refine step node still (higher once) (higher ?_)
      by_cases top : parent (parent node) = parent node
      · rwa [top]
      · exact Nat.lt_trans once (ranked.rises _ top)

end Ranked

/-- A later state in which every class is part of one, `nodes` all in one class. -/
structure Joins (fuel : Nat) (parent : K → K) (nodes : List K) (parent' : K → K) : Prop where
  keeps : ∀ x y, top fuel parent x = top fuel parent y → top fuel parent' x = top fuel parent' y
  joins : ∀ x ∈ nodes, ∀ y ∈ nodes, top fuel parent' x = top fuel parent' y

theorem Joins.after {between last : K → K} {nodes more : List K} (joined : Joins fuel between nodes last)
    (keeps : ∀ x y, top fuel parent x = top fuel parent y → top fuel between x = top fuel between y)
    (covers : ∀ x ∈ more, ∃ y ∈ nodes, top fuel between x = top fuel between y) :
    Joins fuel parent more last := by
  refine ⟨fun x y same => joined.keeps x y (keeps x y same), fun x xIn y yIn => ?_⟩
  obtain ⟨x', xIn', xSame⟩ := covers x xIn
  obtain ⟨y', yIn', ySame⟩ := covers y yIn
  rw [joined.keeps x x' xSame, joined.keeps y y' ySame, joined.joins x' xIn' y' yIn']

end

/-! ### Halving and linking -/

variable {fuel height : Nat} {parent : K → K} {rank : K → Nat} {node : K}

namespace Ranked
variable (ranked : Ranked parent rank height)
include ranked

theorem halve (node : K) : Ranked (Function.update parent node (parent (parent node))) rank height := by
  refine ⟨fun other moves => ?_, ranked.below⟩
  by_cases here : other = node
  · subst here
    rw [Function.update_self] at moves ⊢
    by_cases still : parent other = other
    · rw [still, still] at moves
      exact absurd rfl moves
    · have once := ranked.rises other still
      by_cases top : parent (parent other) = parent other
      · rwa [top]
      · exact Nat.lt_trans once (ranked.rises _ top)
  · rw [Function.update_of_ne here] at moves ⊢
    exact ranked.rises other moves

theorem top_halve (enough : height ≤ fuel) (node : K) : ∀ other,
    top fuel (Function.update parent node (parent (parent node))) other = top fuel parent other := by
  refine ranked.induction (fun other root => ?_) fun other moves ih ih' => ?_
  · have still : Function.update parent node (parent (parent node)) other = other := by
      by_cases here : other = node
      · subst here
        rw [Function.update_self, root, root]
      · rw [Function.update_of_ne here, root]
    rw [top_of_root still, top_of_root root]
  · rw [← (ranked.halve node).top_parent enough other]
    by_cases here : other = node
    · subst here
      rw [Function.update_self, ih', ranked.top_parent enough, ranked.top_parent enough]
    · rw [Function.update_of_ne here, ih, ranked.top_parent enough]

theorem link {low high : K} (highRoot : parent high = high) (differ : low ≠ high) :
    Ranked (Function.update parent low high) (Function.update rank high (max (rank high) (rank low + 1)))
      (height + 1) := by
  constructor
  · intro other moves
    by_cases here : other = low
    · subst here
      rw [Function.update_self, Function.update_self, Function.update_of_ne differ]
      omega
    · rw [Function.update_of_ne here] at moves ⊢
      have inner : other ≠ high := by
        rintro rfl
        exact moves highRoot
      have once := ranked.rises other moves
      rw [Function.update_of_ne inner]
      by_cases reaches : parent other = high
      · rw [reaches, Function.update_self]
        rw [reaches] at once
        omega
      · rwa [Function.update_of_ne reaches]
  · intro other
    have lowBelow := ranked.below low
    have otherBelow := ranked.below other
    by_cases here : other = high
    · subst here
      rw [Function.update_self]
      omega
    · rw [Function.update_of_ne here]
      omega

theorem top_link {low high : K} (enough : height < fuel) (lowRoot : parent low = low)
    (highRoot : parent high = high) (differ : low ≠ high) : ∀ other,
    top fuel (Function.update parent low high) other =
      if top fuel parent other = low then high else top fuel parent other := by
  have linked := ranked.link highRoot differ
  have highStays : top fuel (Function.update parent low high) high = high :=
    top_of_root (by rw [Function.update_of_ne (Ne.symm differ), highRoot])
  refine ranked.induction (fun other root => ?_) fun other moves ih _ => ?_
  · rw [top_of_root root]
    split
    next here =>
      subst here
      rw [← linked.top_parent enough, Function.update_self, highStays]
    next here => exact top_of_root (by rw [Function.update_of_ne here, root])
  · have inner : other ≠ low := by
      rintro rfl
      exact moves lowRoot
    rw [← linked.top_parent enough, Function.update_of_ne inner, ih, ranked.top_parent (Nat.le_of_lt enough)]

end Ranked

/-! ### Searches -/

theorem find_ranked (rounds : Nat) (node : K) (ranked : Ranked parent rank height) :
    Ranked (find rounds parent node).2 rank height := by
  induction rounds generalizing parent node with
  | zero => exact ranked
  | succ rounds ih =>
    unfold find
    split
    next => exact ranked
    next => exact ih _ (ranked.halve node)

theorem find_top (rounds : Nat) (node : K) (ranked : Ranked parent rank height) (enough : height ≤ fuel)
    (other : K) :
    top fuel (find rounds parent node).2 other = top fuel parent other := by
  induction rounds generalizing parent node with
  | zero => rfl
  | succ rounds ih =>
    unfold find
    split
    next => rfl
    next => rw [ih _ (ranked.halve node), ranked.top_halve enough]

theorem find_root (rounds : Nat) (node : K) (ranked : Ranked parent rank height) (enough : height ≤ fuel)
    (lasts : height ≤ rank node + rounds) : (find rounds parent node).1 = top fuel parent node := by
  induction rounds generalizing parent node with
  | zero =>
    have root : parent node = node := by
      by_contra moves
      have once := ranked.rises node moves
      have below := ranked.below (parent node)
      omega
    exact (top_of_root root).symm
  | succ rounds ih =>
    unfold find
    split
    next root => exact (top_of_root root).symm
    next moves =>
      have halved := ranked.halve node
      have once := ranked.rises node moves
      have twice : rank (parent node) ≤ rank (parent (parent node)) := by
        by_cases still : parent (parent node) = parent node
        · exact Nat.le_of_eq (by rw [still])
        · exact Nat.le_of_lt (ranked.rises _ still)
      rw [ih _ halved (by rw [Function.update_self]; omega), ranked.top_halve enough, Function.update_self,
        ranked.top_parent enough, ranked.top_parent enough]

theorem findAll_spec (nodes : List K) (ranked : Ranked parent rank height) (enough : height ≤ fuel) :
    (findAll fuel nodes parent).1 = nodes.map (top fuel parent) ∧
      Ranked (findAll fuel nodes parent).2 rank height ∧
      ∀ other, top fuel (findAll fuel nodes parent).2 other = top fuel parent other := by
  induction nodes generalizing parent with
  | nil => exact ⟨rfl, ranked, fun _ => rfl⟩
  | cons node rest ih =>
    obtain ⟨roots, later, tops⟩ := ih (find_ranked fuel node ranked)
    have before := find_top fuel node ranked enough
    refine ⟨?_, later, fun other => (tops other).trans (before other)⟩
    simp only [findAll, roots, find_root fuel node ranked enough (Nat.le_add_left_of_le enough), List.map_cons]
    exact congrArg _ (List.map_congr_left fun other _ => before other)

/-! ### Joining -/

theorem join_spec (nodes : List K) (first : Option K) (ranked : Ranked parent rank height)
    (enough : height + nodes.length ≤ fuel) (root : ∀ known ∈ first, parent known = known) :
    (∃ rank, Ranked (join fuel nodes first parent) rank (height + nodes.length)) ∧
      Joins fuel parent (first.toList ++ nodes) (join fuel nodes first parent) := by
  induction nodes generalizing first parent rank height with
  | nil =>
    refine ⟨⟨rank, ranked⟩, fun _ _ same => same, fun x xIn y yIn => ?_⟩
    rw [List.append_nil, Option.mem_toList] at xIn yIn
    rw [Option.mem_unique xIn yIn]
  | cons node rest ih =>
    rw [List.length_cons] at enough ⊢
    have enough' : height ≤ fuel := by omega
    have found := find_root fuel node ranked enough' (Nat.le_add_left_of_le enough')
    have ranked' := find_ranked fuel node ranked
    have tops := find_top fuel node ranked enough'
    have keeps : ∀ x y, top fuel parent x = top fuel parent y →
        top fuel (find fuel parent node).2 x = top fuel (find fuel parent node).2 y := by
      intro x y same
      rw [tops, tops, same]
    have still : (find fuel parent node).2 (find fuel parent node).1 = (find fuel parent node).1 := by
      rw [found, ← tops]
      exact ranked'.top_root enough' node
    have up : top fuel (find fuel parent node).2 node = (find fuel parent node).1 := (tops node).trans found.symm
    unfold join
    cases first with
    | none =>
      obtain ⟨⟨rank, later⟩, joined⟩ := ih (some (find fuel parent node).1) ranked' (by omega) (by simpa)
      refine ⟨⟨rank, later.mono (by omega)⟩, joined.after keeps fun x xIn => ?_⟩
      rcases List.mem_cons.mp xIn with rfl | below
      · exact ⟨_, List.mem_cons_self, up.trans (top_of_root still).symm⟩
      · exact ⟨x, List.mem_cons_of_mem _ below, rfl⟩
    | some known =>
      have knownStill : (find fuel parent node).2 known = known := by
        have here := ranked'.top_root enough' known
        rwa [tops, top_of_root (root known rfl)] at here
      dsimp only
      split
      next differ =>
        have less : height < fuel := by omega
        have tops' := ranked'.top_link less still knownStill (Ne.symm differ)
        have linked := ranked'.link knownStill (Ne.symm differ)
        have linkStill : Function.update (find fuel parent node).2 (find fuel parent node).1 known known = known := by
          rw [Function.update_of_ne differ, knownStill]
        obtain ⟨⟨rank, later⟩, joined⟩ := ih (some known) linked (by omega) (by simpa)
        refine ⟨⟨rank, later.mono (by omega)⟩, joined.after (fun x y same => ?_) fun x xIn => ?_⟩
        · rw [tops', tops', keeps x y same]
        · rcases List.mem_cons.mp xIn with rfl | below
          · exact ⟨x, List.mem_cons_self, rfl⟩
          · rcases List.mem_cons.mp below with rfl | below
            · refine ⟨known, List.mem_cons_self, ?_⟩
              rw [tops', tops', up, if_pos rfl, top_of_root knownStill, if_neg differ]
            · exact ⟨x, List.mem_cons_of_mem _ below, rfl⟩
      next same =>
        rw [not_not] at same
        obtain ⟨⟨rank, later⟩, joined⟩ := ih (some known) ranked' (by omega) (by simpa)
        refine ⟨⟨rank, later.mono (by omega)⟩, joined.after keeps fun x xIn => ?_⟩
        rcases List.mem_cons.mp xIn with rfl | below
        · exact ⟨x, List.mem_cons_self, rfl⟩
        · rcases List.mem_cons.mp below with rfl | below
          · exact ⟨known, List.mem_cons_self, by rw [up, top_of_root knownStill, same]⟩
          · exact ⟨x, List.mem_cons_of_mem _ below, rfl⟩

def joinAll (fuel : Nat) (groups : List (List K)) : K → K :=
  groups.foldl (fun parent nodes => join fuel nodes none parent) id

theorem joinAll_spec (groups : List (List K)) (enough : groups.flatten.length ≤ fuel) :
    (∃ rank, Ranked (joinAll fuel groups) rank groups.flatten.length) ∧
      ∀ nodes ∈ groups, ∀ x ∈ nodes, ∀ y ∈ nodes,
        top fuel (joinAll fuel groups) x = top fuel (joinAll fuel groups) y := by
  induction groups using List.reverseRecOn with
  | nil => exact ⟨⟨_, ranked_id _⟩, by simp⟩
  | append_singleton before last ih =>
    have length : (before ++ [last]).flatten.length = before.flatten.length + last.length := by simp
    rw [length] at enough ⊢
    obtain ⟨⟨rank, ranked⟩, together⟩ := ih (by omega)
    obtain ⟨later, joined⟩ := join_spec last none ranked enough (by simp)
    have split : joinAll fuel (before ++ [last]) = join fuel last none (joinAll fuel before) := by
      simp [joinAll, List.foldl_append]
    rw [split]
    refine ⟨later, fun nodes listed x xIn y yIn => ?_⟩
    rcases List.mem_append.mp listed with listed | listed
    · exact joined.keeps x y (together nodes listed x xIn y yIn)
    · obtain rfl := List.mem_singleton.mp listed
      exact joined.joins x (by simpa) y (by simpa)

end UnionFind
end AsapPlanner.Traversal
