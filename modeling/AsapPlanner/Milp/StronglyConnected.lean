import AsapPlanner.Milp.Components

/-!
The components are the classes of mutual reachability, and every loop of the search for them ends.
-/

namespace AsapPlanner.Milp
open Relation Traversal

namespace Tarjan
variable {K : Type}

def Reach (successors : K → List K) : K → K → Prop :=
  ReflTransGen fun u v => v ∈ successors u

/-- The path through the stack, each of its nodes reached from the one under it. A node that is
finished but still on the stack reaches one numbered before it, which its path node answers for. -/
inductive Tree (successors : K → List K) (s : Tarjan K) : List (K × Nat) → List K → Prop
  | nil : Tree successors s [] []
  | cons {node : K} {k : Nat} {path : List (K × Nat)} {above below : List K}
      (rest : Tree successors s path below)
      (child : ∀ parent ∈ path.head?, Reach successors parent.1 node)
      (low : ∃ w ∈ node :: below, s.number w = s.lowest node ∧ Reach successors node w)
      (hung : ∀ u ∈ above, Reach successors node u ∧ ∃ w ∈ above ++ node :: below,
        Reach successors u w ∧ s.lowest node ≤ s.number w ∧ s.number w < s.number u) :
      Tree successors s ((node, k) :: path) (above ++ node :: below)

/-- The loop over the path runs to its end, and a node that leaves the path is on the stack. -/
inductive Ends [DecidableEq K] (successors : K → List K) :
    List (K × Nat) → Tarjan K → Tarjan K → Prop
  | done {s : Tarjan K} : Ends successors [] s s
  | round {node : K} {k : Nat} {path : List (K × Nat)} {s final : Tarjan K}
      (stacked : (successors node)[k]? = none → node ∈ s.stack)
      (rest : Ends successors (step successors ((node, k) :: path) s).1
        (step successors ((node, k) :: path) s).2 final) :
      Ends successors ((node, k) :: path) s final

/-- The loop over the roots. -/
inductive Searches [DecidableEq K] (successors : K → List K) :
    List K → Tarjan K → Tarjan K → Prop
  | done {s : Tarjan K} : Searches successors [] s s
  | seen {root : K} {roots : List K} {s final : Tarjan K} {n : Nat}
      (known : s.order root = some n) (rest : Searches successors roots s final) :
      Searches successors (root :: roots) s final
  | search {root : K} {roots : List K} {s next final : Tarjan K}
      (new : s.order root = none) (ends : Ends successors [(root, 0)] (s.meet root) next)
      (rest : Searches successors roots next final) :
      Searches successors (root :: roots) s final

structure Mutual (successors : K → List K) (path : List (K × Nat)) (s : Tarjan K) : Prop where
  tree : Tree successors s path s.stack
  component : ∀ u v k, s.of u = some k → s.of v = some k → Reach successors u v

variable {nodes : List K} {successors : K → List K} {s s' : Tarjan K} {first : Nat}
  {path : List (K × Nat)} {node target : K} {k : Nat} {above below stack : List K}

/-! ### The tree of links followed -/

theorem Tree.congr {later : Tarjan K} (tree : Tree successors s path stack)
    (number : ∀ v ∈ stack, later.number v = s.number v)
    (lowest : ∀ v ∈ stack, later.lowest v = s.lowest v) : Tree successors later path stack := by
  induction tree with
  | nil => exact .nil
  | @cons node k path above below rest child low hung ih =>
    have here : node ∈ above ++ node :: below := List.mem_append_right _ List.mem_cons_self
    have under : ∀ v ∈ node :: below, v ∈ above ++ node :: below := fun v =>
      List.mem_append_right _
    have deeper : ∀ v ∈ below, v ∈ above ++ node :: below := fun v member =>
      under v (List.mem_cons_of_mem _ member)
    refine .cons (ih (fun v member => number v (deeper v member))
      fun v member => lowest v (deeper v member)) child ?_ ?_
    · obtain ⟨w, member, same, reach⟩ := low
      refine ⟨w, member, ?_, reach⟩
      rw [number w (under w member), lowest node here, same]
    · intro u member
      obtain ⟨reach, w, inside, back, above_low, before⟩ := hung u member
      refine ⟨reach, w, inside, back, ?_, ?_⟩
      · rwa [number w inside, lowest node here]
      · rwa [number w inside, number u (List.mem_append_left _ member)]

theorem Tree.follow (tree : Tree successors s ((node, k) :: path) stack) :
    Tree successors s ((node, k + 1) :: path) stack := by
  cases tree with
  | cons rest child low hung => exact .cons rest child low hung

theorem Tree.mem (tree : Tree successors s ((node, k) :: path) stack) : node ∈ stack := by
  cases tree with
  | cons => exact List.mem_append_right _ List.mem_cons_self

theorem mem_below {v w : K}
    (ordered : (above ++ v :: below).Pairwise fun a b => s.number b < s.number a)
    (member : w ∈ above ++ v :: below) (before : s.number w < s.number v) : w ∈ below := by
  rcases List.mem_append.mp member with early | late
  · have after := (List.pairwise_append.mp ordered).2.2 w early v List.mem_cons_self
    omega
  · rcases List.mem_cons.mp late with rfl | under
    · omega
    · exact under

theorem Tree.lowest_le (tree : Tree successors s ((node, k) :: path) stack)
    (ordered : stack.Pairwise fun a b => s.number b < s.number a) :
    s.lowest node ≤ s.number node := by
  cases tree with
  | cons rest child low hung =>
    obtain ⟨w, member, same, -⟩ := low
    rw [← same]
    rcases List.mem_cons.mp member with rfl | under
    · exact Nat.le_refl _
    · exact ((List.pairwise_cons.mp (List.pairwise_append.mp ordered).2.1).1 w under).le

variable [DecidableEq K]

theorem Tree.lower {w : K} (tree : Tree successors s ((node, k) :: path) stack)
    (ordered : stack.Pairwise fun a b => s.number b < s.number a)
    (reach : Reach successors node w) (stacked : s.number w < s.lowest node → w ∈ stack) :
    Tree successors (s.lower node (s.number w)) ((node, k) :: path) stack := by
  have bound := tree.lowest_le ordered
  cases tree with
  | @cons _ _ _ above below rest child low hung =>
    have apart := (List.pairwise_cons.mp (List.pairwise_append.mp ordered).2.1).1
    have lowest : (s.lower node (s.number w)).lowest node = min (s.lowest node) (s.number w) := by
      simp [Tarjan.lower]
    refine .cons (rest.congr (fun _ _ => rfl) fun v member => ?_) child ?_ ?_
    · have other : v ≠ node := fun same => (apart v member).ne (congrArg s.number same)
      simp [Tarjan.lower, other]
    · rw [lowest]
      by_cases less : s.number w < s.lowest node
      · have under := mem_below ordered (stacked less) (less.trans_le bound)
        refine ⟨w, List.mem_cons_of_mem _ under, ?_, reach⟩
        show s.number w = _
        omega
      · obtain ⟨v, member, same, reaches⟩ := low
        refine ⟨v, member, ?_, reaches⟩
        show s.number v = _
        omega
    · intro u member
      obtain ⟨down, v, inside, back, above_low, before⟩ := hung u member
      refine ⟨down, v, inside, back, ?_, before⟩
      rw [lowest]
      exact (Nat.min_le_left _ _).trans above_low

omit [DecidableEq K] in
theorem Tree.merge {parent : K} {followed : Nat}
    (tree : Tree successors s ((parent, followed) :: path) below)
    (child : Reach successors parent node) (parent_low : s.lowest parent ≤ s.lowest node)
    (low : ∃ w ∈ below, s.number w = s.lowest node ∧ Reach successors node w)
    (late : s.lowest node < s.number node)
    (hung : ∀ u ∈ above, Reach successors node u ∧ ∃ w ∈ above ++ node :: below,
      Reach successors u w ∧ s.lowest node ≤ s.number w ∧ s.number w < s.number u) :
    Tree successors s ((parent, followed) :: path) (above ++ node :: below) := by
  cases tree with
  | @cons _ _ _ between lower rest grandchild parent_own parent_hung =>
    have regroup : above ++ node :: (between ++ parent :: lower) =
        (above ++ node :: between) ++ parent :: lower := by simp
    rw [regroup] at hung ⊢
    have inside : ∀ v ∈ between ++ parent :: lower,
        v ∈ (above ++ node :: between) ++ parent :: lower := by
      intro v member
      rw [← regroup]
      exact List.mem_append_right _ (List.mem_cons_of_mem _ member)
    refine .cons rest grandchild parent_own fun u member => ?_
    rcases List.mem_append.mp member with early | late'
    · obtain ⟨down, w, place, back, bound, before⟩ := hung u early
      exact ⟨child.trans down, w, place, back, parent_low.trans bound, before⟩
    · rcases List.mem_cons.mp late' with rfl | old
      · obtain ⟨w, place, same, reach⟩ := low
        refine ⟨child, w, inside w place, reach, ?_, ?_⟩
        · rwa [same]
        · rwa [same]
      · obtain ⟨down, w, place, back, bound, before⟩ := parent_hung u old
        exact ⟨down, w, inside w place, back, bound, before⟩

omit [DecidableEq K] in
theorem reach_root (ordered : (above ++ node :: below).Pairwise fun a b => s.number b < s.number a)
    (root : s.lowest node = s.number node)
    (hung : ∀ u ∈ above, Reach successors node u ∧ ∃ w ∈ above ++ node :: below,
      Reach successors u w ∧ s.lowest node ≤ s.number w ∧ s.number w < s.number u) :
    ∀ u ∈ above, Reach successors u node := by
  have below_least := (List.pairwise_cons.mp (List.pairwise_append.mp ordered).2.1).1
  have by_number : ∀ n, ∀ u ∈ above, s.number u = n → Reach successors u node := by
    intro n
    induction n using Nat.strong_induction_on with
    | _ n ih =>
      intro u member here
      obtain ⟨-, w, inside, back, bound, before⟩ := hung u member
      rcases List.mem_append.mp inside with early | late
      · exact back.trans (ih _ (here ▸ before) w early rfl)
      · rcases List.mem_cons.mp late with rfl | under
        · exact back
        · have least := below_least w under
          omega
  exact fun u member => by_number _ u member rfl

/-! ### One round -/

theorem Mutual.root (mutually : Mutual successors [] s) (empty : s.stack = []) :
    Mutual successors [(node, 0)] (s.meet node) := by
  refine ⟨?_, mutually.component⟩
  show Tree successors (s.meet node) _ (node :: s.stack)
  rw [empty]
  show Tree successors (s.meet node) _ ([] ++ node :: [])
  refine .cons .nil nofun ⟨node, List.mem_cons_self, ?_, .refl⟩ nofun
  simp [number, Tarjan.meet]

theorem Mutual.meet (mutually : Mutual successors ((node, k) :: path) s)
    (inv : Inv nodes successors first ((node, k) :: path) s)
    (link : (successors node)[k]? = some target) (new : s.order target = none) :
    Mutual successors ((target, 0) :: (node, k + 1) :: path) (s.meet target) := by
  have other : ∀ v ∈ s.stack, v ≠ target := fun v member same =>
    (inv.table.visited v).mpr (.inl member) (same ▸ new)
  have kept : Tree successors (s.meet target) ((node, k + 1) :: path) s.stack := by
    refine mutually.tree.follow.congr (fun v member => ?_) fun v member => ?_
    · simp [number, Tarjan.meet, other v member]
    · simp [Tarjan.meet, other v member]
  refine ⟨?_, mutually.component⟩
  show Tree successors (s.meet target) _ ([] ++ target :: s.stack)
  refine .cons kept ?_ ⟨target, List.mem_cons_self, ?_, .refl⟩ (by rintro _ ⟨⟩)
  · intro parent isParent
    cases isParent
    exact .single (List.mem_of_getElem? link)
  · simp [number, Tarjan.meet]

omit [DecidableEq K] in
theorem Mutual.follow (mutually : Mutual successors ((node, k) :: path) s) :
    Mutual successors ((node, k + 1) :: path) s :=
  ⟨mutually.tree.follow, mutually.component⟩

theorem Mutual.lower {n : Nat} (mutually : Mutual successors ((node, k) :: path) s)
    (inv : Inv nodes successors first ((node, k) :: path) s)
    (link : (successors node)[k]? = some target) (seen : s.order target = some n)
    (stacked : s.onStack target = true) :
    Mutual successors ((node, k + 1) :: path) (s.lower node n) := by
  have member := (inv.table.stacked target).mp stacked
  have reach : Reach successors node target := .single (List.mem_of_getElem? link)
  have lowered := mutually.tree.lower inv.table.ordered reach fun _ => member
  rw [number_of seen] at lowered
  exact ⟨lowered.follow, mutually.component⟩

theorem Mutual.close (table : Table nodes successors s)
    (component : ∀ u v k, s.of u = some k → s.of v = some k → Reach successors u v)
    (stack : s.stack = above ++ node :: below) (rest : Tree successors s path below)
    (root : s.lowest node = s.number node)
    (hung : ∀ u ∈ above, Reach successors node u ∧ ∃ w ∈ above ++ node :: below,
      Reach successors u w ∧ s.lowest node ≤ s.number w ∧ s.number w < s.number u) :
    Mutual successors path (s.close node s.sizes.length s.stack 0) := by
  have ordered := table.ordered
  rw [stack] at ordered
  have fresh : node ∉ above := fun here =>
    ((List.pairwise_append.mp ordered).2.2 node here node List.mem_cons_self).false
  have back := reach_root ordered root hung
  have there : ∀ v ∈ above ++ [node], Reach successors node v := by
    intro v member
    rcases List.mem_append.mp member with early | here
    · exact (hung v early).1
    · rw [List.mem_singleton.mp here]
      exact .refl
  have home : ∀ u ∈ above ++ [node], Reach successors u node := by
    intro u member
    rcases List.mem_append.mp member with early | here
    · exact back u early
    · rw [List.mem_singleton.mp here]
      exact .refl
  rw [stack, close_eq fresh]
  refine ⟨rest.congr (fun _ _ => rfl) fun _ _ => rfl, fun u v k isU isV => ?_⟩
  dsimp only at isU isV
  split at isU
  · next memberU =>
    cases isU
    split at isV
    · next memberV => exact (home u memberU).trans (there v memberV)
    · exact absurd (table.closed v _ isV).1 (Nat.lt_irrefl _)
  · split at isV
    · cases isV
      exact absurd (table.closed u _ isU).1 (Nat.lt_irrefl _)
    · exact component u v k isU isV

theorem Mutual.leave (mutually : Mutual successors ((node, k) :: path) s)
    (inv : Inv nodes successors first ((node, k) :: path) s)
    (done : (successors node)[k]? = none) :
    Mutual successors (step successors ((node, k) :: path) s).1
      (step successors ((node, k) :: path) s).2 := by
  have numbered : ∀ n, s.order node = some n → s.number node = n := fun n => number_of
  obtain ⟨m, isM, low_m, root_m⟩ := inv.spine.known
  have tree := mutually.tree
  have bound := tree.lowest_le inv.table.ordered
  generalize found : s.stack = stack at tree
  have ordered := inv.table.ordered
  rw [found] at ordered
  cases tree with
  | @cons _ _ _ above below rest child low hung =>
    cases path with
    | nil =>
      have same : s.lowest node = m :=
        Nat.le_antisymm low_m ((root_m rfl).trans_le (inv.lowSince _ List.mem_cons_self))
      simp only [step, done]
      rw [if_pos (by rw [same, isM])]
      exact .close inv.table mutually.component found rest (by rw [same, number_of isM]) hung
    | cons entry path =>
      obtain ⟨parent, followed⟩ := entry
      have down : Reach successors parent node := child (parent, followed) rfl
      obtain ⟨w, place, same, reach⟩ := low
      have under := (List.pairwise_append.mp ordered).2.1
      have parent_below := rest.mem
      have parent_before := (List.pairwise_cons.mp under).1 parent parent_below
      have other : node ≠ parent := fun eq => parent_before.ne (congrArg s.number eq.symm)
      have parent_low := rest.lowest_le (List.pairwise_cons.mp under).2
      have rest := rest.lower (List.pairwise_cons.mp under).2 (down.trans reach) fun less => by
        rcases List.mem_cons.mp place with rfl | here
        · omega
        · exact here
      rw [same] at rest
      have lowest : (s.lower parent (s.lowest node)).lowest node = s.lowest node := by
        simp [Tarjan.lower, other]
      have lowered : Table nodes successors (s.lower parent (s.lowest node)) := inv.table.lower _
      have kept : ∀ u ∈ above, Reach successors node u ∧ ∃ w ∈ above ++ node :: below,
          Reach successors u w ∧ (s.lower parent (s.lowest node)).lowest node ≤ s.number w ∧
            s.number w < s.number u := by
        rw [lowest]
        exact hung
      simp only [step, done]
      split
      · next root =>
        rw [lowest, lower_order, isM] at root
        refine .close lowered mutually.component found rest ?_ kept
        rw [lowest]
        exact (Option.some.inj root).trans (number_of isM).symm
      · next root =>
        rw [lowest, lower_order, isM, Option.some.injEq] at root
        have late : s.lowest node < s.number node := by
          rw [number_of isM] at bound ⊢
          omega
        refine ⟨?_, mutually.component⟩
        show Tree successors _ _ s.stack
        rw [found]
        refine rest.merge down ?_ ⟨w, ?_, ?_, reach⟩ ?_ kept
        · rw [lowest]
          simp [Tarjan.lower]
        · rcases List.mem_cons.mp place with rfl | here
          · omega
          · exact here
        · rw [lowest]
          exact same
        · rw [lowest]
          exact late

theorem Mutual.step (mutually : Mutual successors ((node, k) :: path) s)
    (inv : Inv nodes successors first ((node, k) :: path) s) :
    Mutual successors (step successors ((node, k) :: path) s).1
      (step successors ((node, k) :: path) s).2 := by
  cases link : (successors node)[k]? with
  | none => exact mutually.leave inv link
  | some target =>
    cases seen : s.order target with
    | none =>
      simp only [Tarjan.step, link, seen]
      exact mutually.meet inv link seen
    | some n =>
      simp only [Tarjan.step, link, seen]
      split
      · next stacked => exact mutually.lower inv link seen stacked
      · exact mutually.follow

/-! ### Runs -/

theorem Inv.ends (inv : Inv nodes successors first path s)
    (mutually : Mutual successors path s)
    (inside : ∀ u, ∀ v ∈ successors u, v ∈ nodes) {fuel : Nat}
    (enough : pending nodes successors s + left successors path ≤ fuel) :
    Ends successors path s (Tarjan.search successors fuel path s) ∧
      Mutual successors [] (Tarjan.search successors fuel path s) := by
  induction fuel generalizing path s with
  | zero =>
    cases path with
    | nil => exact ⟨.done, mutually⟩
    | cons entry path =>
      have count := Spine.count inv.spine
      simp only [left, List.map_cons, List.sum_cons] at enough
      omega
  | succ fuel ih =>
    cases path with
    | nil =>
      rw [search_nil]
      exact ⟨.done, mutually⟩
    | cons entry path =>
      obtain ⟨node, k⟩ := entry
      obtain ⟨next, -, fewer⟩ := inv.step inside rfl
      obtain ⟨ends, final⟩ := ih next (mutually.step inv) (by omega)
      exact ⟨.round (fun _ => mutually.tree.mem) ends, final⟩

end Tarjan

section
variable {K : Type} [DecidableEq K] {nodes : List K} {edges : List (K × K)}

theorem searchAll_mutual (inside : ∀ edge ∈ edges, edge.1 ∈ nodes ∧ edge.2 ∈ nodes)
    {s : Tarjan K} (rest : s.Rest nodes (successors edges))
    (mutually : s.Mutual (successors edges) []) {roots : List K}
    (members : ∀ root ∈ roots, root ∈ nodes) :
    Tarjan.Searches (successors edges) roots s (roots.foldl (searchFrom nodes edges) s) ∧
      (roots.foldl (searchFrom nodes edges) s).Mutual (successors edges) [] := by
  induction roots generalizing s with
  | nil => exact ⟨.done, mutually⟩
  | cons root roots ih =>
    have member := members root List.mem_cons_self
    obtain ⟨next, -, -⟩ := searchFrom_rest inside rest member
    have others := fun other later => members other (List.mem_cons_of_mem _ later)
    rw [List.foldl_cons]
    cases new : s.order root with
    | some n =>
      have same : searchFrom nodes edges s root = s := by simp only [searchFrom, new]
      rw [same] at next ⊢
      obtain ⟨searches, final⟩ := ih next mutually others
      exact ⟨.seen new searches, final⟩
    | none =>
      obtain ⟨first, inv⟩ := rest
      have enough := rounds_enough (fun edge here => (inside edge here).1) member new
      obtain ⟨ends, found⟩ := (inv.root new member).ends (mutually.root inv.spine.empty)
        (fun u v link => (inside _ (mem_successors.mp link)).2) enough
      have same : searchFrom nodes edges s root =
          Tarjan.search (successors edges) (nodes.length + edges.length) [(root, 0)]
            (s.meet root) := by
        simp only [searchFrom, new]
      rw [same] at next ⊢
      obtain ⟨searches, final⟩ := ih next found others
      exact ⟨.search new ends searches, final⟩

theorem reach_successors {u v : K} :
    Tarjan.Reach (successors edges) u v ↔ ReflTransGen (fun a b => (a, b) ∈ edges) u v := by
  simp only [Tarjan.Reach, mem_successors]

end

/-- On the nodes `0..count` every loop ends, every node gets a component, two nodes get the same one
exactly when each reaches the other, and each size is the number of nodes of its component. -/
theorem stronglyConnectedComponents_exact (count : Nat) (edges : List (Nat × Nat))
    (inside : ∀ edge ∈ edges, edge.1 < count ∧ edge.2 < count) :
    (∃ final, Tarjan.Searches (successors edges) (List.range count) Tarjan.start final ∧
      stronglyConnectedComponents (List.range count) edges = ⟨final.of, final.sizes⟩) ∧
    (∀ node < count, ∃ c < (stronglyConnectedComponents (List.range count) edges).sizes.length,
      (stronglyConnectedComponents (List.range count) edges).of node = some c) ∧
    (∀ u < count, ∀ v < count,
      (stronglyConnectedComponents (List.range count) edges).of u =
          (stronglyConnectedComponents (List.range count) edges).of v ↔
        ReflTransGen (fun a b => (a, b) ∈ edges) u v ∧
          ReflTransGen (fun a b => (a, b) ∈ edges) v u) ∧
    ∀ c size, (stronglyConnectedComponents (List.range count) edges).sizes[c]? = some size →
      size = ((Finset.range count).filter fun node =>
        (stronglyConnectedComponents (List.range count) edges).of node = some c).card := by
  have members : ∀ edge ∈ edges, edge.1 ∈ List.range count ∧ edge.2 ∈ List.range count := by
    simpa only [List.mem_range] using inside
  have all := fun root (member : root ∈ List.range count) => member
  obtain ⟨⟨first, inv⟩, -, visited⟩ := searchAll_rest members Tarjan.Rest.start all
  obtain ⟨searches, mutually⟩ := searchAll_mutual members Tarjan.Rest.start
    ⟨.nil, fun u v k isU => nomatch isU⟩ all
  have sound := components_sound members
  have assigned : ∀ node < count, ∃ c, (stronglyConnectedComponents (List.range count) edges).of
      node = some c := fun node inRange =>
    Option.ne_none_iff_exists'.mp (sound.assigned node (List.mem_range.mpr inRange))
  refine ⟨⟨_, searches, rfl⟩, fun node inRange => ?_, fun u uRange v vRange => ?_, ?_⟩
  · obtain ⟨c, isC⟩ := assigned node inRange
    exact ⟨c, (inv.table.closed node c isC).1, isC⟩
  · obtain ⟨c, isC⟩ := assigned u uRange
    constructor
    · intro same
      have there := mutually.component u v c isC (same.symm.trans isC)
      have back := mutually.component v u c (same.symm.trans isC) isC
      exact ⟨reach_successors.mp there, reach_successors.mp back⟩
    · rintro ⟨there, back⟩
      rcases reflTransGen_iff_eq_or_transGen.mp there with rfl | there
      · rfl
      · rcases reflTransGen_iff_eq_or_transGen.mp back with rfl | back
        · rfl
        · exact sound.same (List.mem_range.mpr uRange) there back
  · intro c size here
    obtain ⟨members, distinct, length, same⟩ := inv.table.sized c size here
    rw [← length, ← List.toFinset_card_of_nodup distinct]
    congr 1
    ext node
    rw [List.mem_toFinset, same, Finset.mem_filter, Finset.mem_range]
    refine ⟨fun isC => ⟨?_, isC⟩, fun both => both.2⟩
    have known := (inv.table.visited node).mpr (.inr (by simp [isC]))
    exact List.mem_range.mp (inv.table.inside node known)

theorem stronglyConnectedComponents_exact_two_classes :
    (stronglyConnectedComponents (List.range 3) [(0, 1), (1, 0), (1, 2), (2, 2)]).of 0 =
        (stronglyConnectedComponents (List.range 3) [(0, 1), (1, 0), (1, 2), (2, 2)]).of 1 ↔
      ReflTransGen (fun a b => (a, b) ∈ [(0, 1), (1, 0), (1, 2), (2, 2)]) 0 1 ∧
        ReflTransGen (fun a b => (a, b) ∈ [(0, 1), (1, 0), (1, 2), (2, 2)]) 1 0 :=
  (stronglyConnectedComponents_exact 3 [(0, 1), (1, 0), (1, 2), (2, 2)] (by decide)).2.2.1
    0 (by decide) 1 (by decide)

end AsapPlanner.Milp
