import AsapPlanner.Ir.Copies
import AsapPlanner.Traversal.Memo
import AsapPlanner.Traversal.Run
import Mathlib.Algebra.Order.Group.Nat

/-!
Redirecting every reference to one node. A node that reaches it is copied over what stands for its
children; every other node is shared.
-/

namespace AsapPlanner.Ir
open Traversal

/-- The store with the copies, and what stands for each node done. -/
structure Replacing where
  dag : Dag
  cache : Cache NodeRef NodeRef

namespace Replacing

section
variable (input : Dag) (old new : NodeRef)

/-- `ref` over what stands for its children, in the order of `children`. A copy takes them in the order a
rebuild asks for them. -/
def remake (ref : NodeRef) (replaced : List NodeRef) : StateM Replacing NodeRef := fun state =>
  let node := input.node ref
  let made := if input.children ref = replaced then (ref, state.dag)
    else state.dag.alloc { node with operator := node.operator.walk.build replaced }
  (made.1, { dag := made.2, cache := state.cache.insert ref made.1 })

def replace (ref : NodeRef) : StateM Replacing NodeRef := do
  if ref = old then pure new
  else
    match (← get).cache ref with
    | some done => pure done
    | none =>
      let replaced ← (input.children ref).attach.mapM fun child => replace child.1
      remake input ref replaced
termination_by ref
decreasing_by exact input.child_lt child.2

end

/-- What stands for `ref`, once it is known. -/
def imageOf (state : Replacing) (old new ref : NodeRef) : Option NodeRef :=
  if ref = old then some new else state.cache ref

def image (state : Replacing) (old new ref : NodeRef) : NodeRef :=
  (state.imageOf old new ref).getD ref

end Replacing

/-- `node` with every use of `old` replaced by `new`. -/
def withReplaced (dag : Dag) (node old new : NodeRef) : NodeRef × Replacing :=
  Replacing.replace dag old new node { dag, cache := Cache.empty }

/-- The run redirected every reference to `old`, and left every other reference in its place. -/
structure Redirected (dag : Dag) (node old new : NodeRef) (run : NodeRef × Replacing) : Prop where
  grown : run.2.dag.Extends dag
  root : run.1 = run.2.image old new node
  target : run.2.image old new old = new
  shared : ∀ ref, dag.Reaches node ref → ¬ dag.Reaches ref old → run.2.image old new ref = ref
  copied : ∀ ref, dag.Reaches node ref → ref ≠ old →
    run.2.dag.node (run.2.image old new ref) = (dag.node ref).mapChildren (run.2.image old new)

/-- What stands for `a` stands for `b`. -/
def Interchangeable (dag : Dag) (old new a b : NodeRef) : Prop :=
  a = b ∨ ¬ dag.Reaches new old ∧ (a = old ∧ b = new ∨ a = new ∧ b = old)

/-- At every operator copied, the children are in the order a rebuild visits them. -/
def ChildrenInOrder (dag : Dag) (node old new : NodeRef) : Prop :=
  old = new ∨ ∀ ref, dag.Reaches node ref → ref ≠ old → dag.Reaches ref old →
    List.Forall₂ (Interchangeable dag old new) (dag.children ref) (dag.node ref).operator.walk.refs

namespace Replacing
variable {input dag : Dag} {old new ref child made : NodeRef} {state later : Replacing}

/-! ### What a run keeps -/

variable (input old new) in
/-- `made` is `ref` over what stands for its children. -/
structure Made (state : Replacing) (ref made : NodeRef) : Prop where
  below : ∀ child ∈ input.children ref, (state.imageOf old new child).isSome
  inside : made < state.dag.size
  node : ((input.children ref).map (state.image old new) = input.children ref ∧ made = ref) ∨
    ((input.children ref).map (state.image old new) ≠ input.children ref ∧ input.size ≤ made ∧
      state.dag.node made = { input.node ref with
        operator := (input.node ref).operator.walk.build ((input.children ref).map (state.image old new)) })

variable (input old new) in
structure Sound (state : Replacing) : Prop where
  grown : state.dag.Extends input
  made : ∀ ref made, state.cache ref = some made → Made input old new state ref made
  distinct : ∀ ref ref' made, state.cache ref = some made → state.cache ref' = some made →
    input.size ≤ made → ref = ref'

/-- Nothing is lost, and only what stands for nodes below `bound` is new. -/
structure Grown (bound : NodeRef) (before after : Replacing) : Prop where
  dag : after.dag.Extends before.dag
  kept : ∀ ref made, before.cache ref = some made → after.cache ref = some made
  frame : ∀ ref, bound ≤ ref → after.cache ref = before.cache ref

namespace Grown
variable {bound bound' : NodeRef} {a b c : Replacing}

theorem refl (state : Replacing) : Grown bound state state :=
  ⟨Dag.Extends.refl _, fun _ _ known => known, fun _ _ => rfl⟩

theorem trans (ab : Grown bound a b) (bc : Grown bound b c) : Grown bound a c :=
  ⟨ab.dag.trans bc.dag, fun ref made known => bc.kept ref made (ab.kept ref made known),
    fun ref above => (bc.frame ref above).trans (ab.frame ref above)⟩

theorem mono (ab : Grown bound a b) (le : bound ≤ bound') : Grown bound' a b :=
  ⟨ab.dag, ab.kept, fun ref above => ab.frame ref (le.trans above)⟩

theorem imageOf (ab : Grown bound a b) (known : a.imageOf old new ref = some made) :
    b.imageOf old new ref = some made := by
  unfold Replacing.imageOf at known ⊢
  split at known
  · rename_i same
    rw [if_pos same]
    exact known
  · rename_i apart
    rw [if_neg apart]
    exact ab.kept ref made known

theorem isSome (ab : Grown bound a b) (known : (a.imageOf old new ref).isSome) :
    (b.imageOf old new ref).isSome := by
  obtain ⟨made, known⟩ := Option.isSome_iff_exists.mp known
  rw [ab.imageOf known]
  rfl

theorem image (ab : Grown bound a b) (known : (a.imageOf old new ref).isSome) :
    b.image old new ref = a.image old new ref := by
  obtain ⟨made, known⟩ := Option.isSome_iff_exists.mp known
  rw [Replacing.image, Replacing.image, known, ab.imageOf known]

end Grown

theorem Made.grow {bound : NodeRef} (here : Made input old new state ref made)
    (grown : state.Grown bound later) : Made input old new later ref made := by
  have images : (input.children ref).map (later.image old new) =
      (input.children ref).map (state.image old new) :=
    List.map_congr_left fun child reads => grown.image (here.below child reads)
  refine ⟨fun child reads => grown.isSome (here.below child reads),
    here.inside.trans_le grown.dag.size_le, ?_⟩
  rw [images, grown.dag.node here.inside]
  exact here.node

theorem image_old : state.image old new old = new := by
  rw [image, imageOf, if_pos rfl, Option.getD_some]

theorem image_of_cache (apart : ref ≠ old) (known : state.cache ref = some made) :
    state.image old new ref = made := by
  rw [image, imageOf, if_neg apart, known, Option.getD_some]

theorem Sound.inside (sound : Sound input old new state) (stored : new < input.size)
    (small : ref < input.size) : state.image old new ref < state.dag.size := by
  by_cases same : ref = old
  · rw [same, image_old]
    exact stored.trans_le sound.grown.size_le
  · cases known : state.cache ref with
    | none =>
      rw [image, imageOf, if_neg same, known, Option.getD_none]
      exact small.trans_le sound.grown.size_le
    | some made =>
      rw [image_of_cache same known]
      exact (sound.made ref made known).inside

theorem record_spec (sound : Sound input old new state) (absent : state.imageOf old new ref = none)
    (grown : dag.Extends state.dag) (fresh : made = ref ∧ ref < input.size ∨ state.dag.size ≤ made)
    (here : Made input old new { dag, cache := state.cache } ref made) :
    let recorded : Replacing := { dag, cache := state.cache.insert ref made }
    Sound input old new recorded ∧ state.Grown (ref + 1) recorded ∧
      recorded.imageOf old new ref = some made := by
  intro recorded
  have apart : ref ≠ old := by
    intro same
    rw [imageOf, if_pos same] at absent
    cases absent
  rw [imageOf, if_neg apart] at absent
  have entry : ∀ other image, recorded.cache other = some image →
      other = ref ∧ image = made ∨ state.cache other = some image := by
    intro other image known
    by_cases same : other = ref
    · exact .inl ⟨same, (Option.some.inj ((if_pos same).symm.trans known)).symm⟩
    · exact .inr ((if_neg same).symm.trans known)
  have more : state.Grown (ref + 1) recorded := by
    refine ⟨grown, fun other image known => ?_, fun other above => if_neg (Nat.ne_of_gt above)⟩
    refine (if_neg ?_).trans known
    rintro rfl
    rw [absent] at known
    cases known
  have moreMade : Grown (ref + 1) { dag, cache := state.cache } recorded :=
    ⟨Dag.Extends.refl _, more.kept, more.frame⟩
  refine ⟨⟨sound.grown.trans grown, fun other image known => ?_, ?_⟩, more, ?_⟩
  · rcases entry other image known with ⟨rfl, rfl⟩ | before
    · exact here.grow moreMade
    · exact (sound.made other image before).grow more
  · intro one two image first second high
    -- An image recorded before lies in the old store, the new one beside it.
    have apart : ∀ other, state.cache other = some made → input.size ≤ made → False := by
      intro other before high
      have inside := (sound.made other made before).inside
      rcases fresh with ⟨same, small⟩ | above
      · exact absurd (same ▸ small) (Nat.not_lt_of_le high)
      · exact absurd inside (Nat.not_lt_of_le above)
    rcases entry one image first with ⟨isOne, rfl⟩ | before <;>
      rcases entry two image second with ⟨isTwo, same⟩ | before'
    · rw [isOne, isTwo]
    · exact (apart two before' high).elim
    · exact (apart one (same ▸ before) (same ▸ high)).elim
    · exact sound.distinct one two image before before' high
  · rw [imageOf, if_neg apart]
    exact if_pos rfl

theorem remake_spec (stored : new < input.size) (sound : Sound input old new state)
    (small : ref < input.size) (absent : state.imageOf old new ref = none)
    (below : ∀ child ∈ input.children ref, (state.imageOf old new child).isSome) :
    let run := remake input ref ((input.children ref).map (state.image old new)) state
    Sound input old new run.2 ∧ state.Grown (ref + 1) run.2 ∧
      run.2.imageOf old new ref = some run.1 := by
  intro run
  by_cases same : input.children ref = (input.children ref).map (state.image old new)
  · have made : run = (ref, { dag := state.dag, cache := state.cache.insert ref ref }) := by
      simp only [run, remake, if_pos same]
    rw [made]
    exact record_spec sound absent (Dag.Extends.refl _) (.inl ⟨rfl, small⟩)
      ⟨below, small.trans_le sound.grown.size_le, .inl ⟨same.symm, rfl⟩⟩
  · let node := { input.node ref with
      operator := (input.node ref).operator.walk.build ((input.children ref).map (state.image old new)) }
    have made : run = ((state.dag.alloc node).1,
        { dag := (state.dag.alloc node).2, cache := state.cache.insert ref (state.dag.alloc node).1 }) := by
      simp only [run, remake, if_neg same, node]
    have length : ((input.children ref).map (state.image old new)).length =
        (input.node ref).operator.walk.refs.length :=
      List.length_map _ |>.trans (Operator.refs_walk_perm _).length_eq.symm
    have earlier : ∀ held ∈ node.refs, held < state.dag.size := by
      intro held holds
      rcases List.mem_append.mp holds with reads | own
      · have mapped := (Operator.finds_children _ _ length held).mp reads
        obtain ⟨child, read, rfl⟩ := List.mem_map.mp mapped
        exact sound.inside stored ((input.child_lt read).trans small)
      · rw [Operator.held_build] at own
        exact (input.refs_size (List.mem_append_right _ own)).trans_le sound.grown.size_le
    have grown := Dag.alloc_extends state.dag node
    rw [made, Dag.alloc_ref]
    refine record_spec sound absent grown (.inr (le_refl _)) ⟨below, ?_, .inr ⟨Ne.symm same, ?_, ?_⟩⟩
    · rw [Dag.alloc_size earlier]
      exact Nat.lt_succ_self _
    · exact sound.grown.size_le
    · exact Dag.alloc_node earlier

theorem replace_spec (stored : new < input.size) (sound : Sound input old new state)
    (small : ref < input.size) :
    Sound input old new (replace input old new ref state).2 ∧
      state.Grown (ref + 1) (replace input old new ref state).2 ∧
      (replace input old new ref state).2.imageOf old new ref =
        some (replace input old new ref state).1 := by
  induction ref using Nat.strongRecOn generalizing state with
  | ind ref ih =>
    cases known : state.imageOf old new ref with
    | some found =>
      have hit : replace input old new ref state = (found, state) := by
        unfold imageOf at known
        rw [replace]
        split at known
        · rename_i same
          rw [if_pos same, ← Option.some.inj known]
          rfl
        · rename_i apart
          rw [if_neg apart]
          change (match state.cache ref with
            | some done => (pure done : StateM Replacing NodeRef)
            | none => _) state = _
          rw [known]
          rfl
      rw [hit]
      exact ⟨sound, .refl state, known⟩
    | none =>
      obtain ⟨run, defined⟩ : ∃ run, (input.children ref).attach.mapM
        (fun child => replace input old new child.1) state = run := ⟨_, rfl⟩
      have miss : replace input old new ref state = remake input ref run.1 run.2 := by
        unfold imageOf at known
        split at known
        · cases known
        · rename_i apart
          rw [replace, if_neg apart]
          change (match state.cache ref with
            | some done => (pure done : StateM Replacing NodeRef)
            | none => _) state = _
          rw [known, ← defined]
          rfl
      have each : ∀ child ∈ (input.children ref).attach, ∀ t, Sound input old new t →
          Sound input old new (replace input old new child.1 t).2 ∧
          t.Grown ref (replace input old new child.1 t).2 ∧
          (replace input old new child.1 t).2.imageOf old new child.1 =
            some (replace input old new child.1 t).1 := by
        intro child _ t kept
        have below := input.child_lt child.2
        obtain ⟨kept, grown, image⟩ := ih child.1 below kept (below.trans small)
        exact ⟨kept, grown.mono below, image⟩
      have stable : ∀ (child : {child // child ∈ input.children ref}) made t t',
          Replacing.imageOf t old new child.1 = some made → Grown ref t t' →
          t'.imageOf old new child.1 = some made := fun _ _ _ _ here grown => grown.imageOf here
      have refl : ∀ t, Grown ref t t := Grown.refl
      obtain ⟨kept, grown, images⟩ := mapM_kept refl (fun _ _ _ => Grown.trans) stable each sound
      rw [defined] at kept grown images
      have images : List.Forall₂ (fun child made => run.2.imageOf old new child = some made)
          (input.children ref) run.1 := by
        rw [← List.attach_map_subtype_val (input.children ref)]
        exact List.forall₂_map_left_iff.mpr images
      have replaced : run.1 = (input.children ref).map (run.2.image old new) := by
        rw [← List.forall₂_eq_eq_eq, List.forall₂_map_right_iff]
        exact images.flip.imp fun made child here => by rw [image, here, Option.getD_some]
      have below : ∀ child ∈ input.children ref, (run.2.imageOf old new child).isSome := by
        intro child reads
        obtain ⟨_, here⟩ := exists_of_forall₂ images child reads
        rw [here]
        rfl
      have absent : run.2.imageOf old new ref = none := by
        unfold imageOf at known ⊢
        rw [grown.frame ref (le_refl ref)]
        exact known
      rw [miss, replaced]
      obtain ⟨keptMade, grownMade, image⟩ := remake_spec stored kept small absent below
      exact ⟨keptMade, (grown.mono (Nat.le_succ ref)).trans grownMade, image⟩

/-! ### What stands for each node -/

theorem Sound.unchanged (sound : Sound input old new state) (apart : ref ≠ old)
    (fixed : ∀ child ∈ input.children ref, state.image old new child = child) :
    state.image old new ref = ref := by
  cases known : state.cache ref with
  | none => rw [image, imageOf, if_neg apart, known, Option.getD_none]
  | some made =>
    rw [image_of_cache apart known]
    rcases (sound.made ref made known).node with ⟨_, same⟩ | ⟨changed, _⟩
    · exact same
    · exact absurd ((List.map_congr_left fixed).trans (List.map_id' _)) changed

theorem Sound.shared (sound : Sound input old new state) (far : ¬ input.Reaches ref old) :
    state.image old new ref = ref := by
  induction ref using Nat.strongRecOn with
  | ind ref ih =>
    have apart : ref ≠ old := fun same => far (same ▸ .refl)
    refine sound.unchanged apart fun child reads => ih child (input.child_lt reads) fun reaches => ?_
    exact far (.head reads reaches)

theorem Sound.image_self (sound : Sound input old old state) : state.image old old ref = ref := by
  induction ref using Nat.strongRecOn with
  | ind ref ih =>
    by_cases same : ref = old
    · rw [same, image_old]
    · exact sound.unchanged same fun child reads => ih child (input.child_lt reads)

theorem Sound.below (sound : Sound input old new state) (apart : ref ≠ old)
    (done : (state.imageOf old new ref).isSome) :
    ∀ child ∈ input.children ref, (state.imageOf old new child).isSome := by
  rw [imageOf, if_neg apart] at done
  obtain ⟨made, known⟩ := Option.isSome_iff_exists.mp done
  exact (sound.made ref made known).below

theorem Sound.done {root : NodeRef} (sound : Sound input old new state)
    (done : (state.imageOf old new root).isSome) (reached : input.Reaches root ref)
    (reaches : input.Reaches ref old) : (state.imageOf old new ref).isSome := by
  induction reached with
  | refl => exact done
  | @tail parent child _ reads ih =>
    have apart : parent ≠ old := by
      rintro rfl
      exact absurd reaches.le (Nat.not_le_of_lt (input.child_lt reads))
    exact sound.below apart (ih (reaches.head reads)) child reads

/-- What a copied node's copy is. -/
structure Copied (input : Dag) (old new : NodeRef) (state : Replacing) (ref : NodeRef) : Prop where
  fresh : input.size ≤ state.image old new ref
  node : state.dag.node (state.image old new ref) = { input.node ref with
    operator := (input.node ref).operator.walk.build ((input.children ref).map (state.image old new)) }

theorem Sound.copied (sound : Sound input old new state) (differ : old ≠ new) (apart : ref ≠ old)
    (done : (state.imageOf old new ref).isSome) (reaches : input.Reaches ref old) :
    Copied input old new state ref := by
  induction ref using Nat.strongRecOn with
  | ind ref ih =>
    obtain ⟨child, reads, onward⟩ : ∃ child ∈ input.children ref, input.Reaches child old :=
      (Relation.ReflTransGen.cases_head reaches).resolve_left apart
    have below := sound.below apart done child reads
    have moved : state.image old new child ≠ child := by
      by_cases same : child = old
      · rw [same, image_old]
        exact differ.symm
      · have high := (ih child (input.child_lt reads) same below onward).fresh
        have low := input.refs_size (List.mem_append_left _ reads)
        exact Nat.ne_of_gt (Nat.lt_of_lt_of_le low high)
    rw [imageOf, if_neg apart] at done
    obtain ⟨made, known⟩ := Option.isSome_iff_exists.mp done
    rcases (sound.made ref made known).node with ⟨fixed, _⟩ | ⟨_, fresh, node⟩
    · exact absurd (List.map_inj_left.mp (fixed.trans (List.map_id' _).symm) child reads) moved
    · rw [← image_of_cache apart known] at fresh node
      exact ⟨fresh, node⟩

section Images
variable (sound : Sound input old new state) (differ : old ≠ new) (stored : new < input.size)
include sound differ stored

theorem Sound.image_inj {a b : NodeRef} (doneA : (state.imageOf old new a).isSome)
    (doneB : (state.imageOf old new b).isSome) (reachesA : input.Reaches a old)
    (reachesB : input.Reaches b old) (equal : state.image old new a = state.image old new b) : a = b := by
  have apart : ∀ {ref : NodeRef}, ref ≠ old → (state.imageOf old new ref).isSome → input.Reaches ref old →
      state.image old new ref ≠ new := fun apart done reaches =>
    Nat.ne_of_gt (Nat.lt_of_lt_of_le stored (sound.copied differ apart done reaches).fresh)
  have known : ∀ {ref : NodeRef}, ref ≠ old → (state.imageOf old new ref).isSome →
      state.cache ref = some (state.image old new ref) := by
    intro ref apart done
    rw [imageOf, if_neg apart] at done
    obtain ⟨made, known⟩ := Option.isSome_iff_exists.mp done
    rw [image_of_cache apart known, known]
  by_cases sameA : a = old <;> by_cases sameB : b = old
  · rw [sameA, sameB]
  · rw [sameA, image_old] at equal
    exact absurd equal.symm (apart sameB doneB reachesB)
  · rw [sameB, image_old] at equal
    exact absurd equal (apart sameA doneA reachesA)
  · refine sound.distinct a b _ (known sameA doneA) ?_ (sound.copied differ sameA doneA reachesA).fresh
    rw [equal]
    exact known sameB doneB

omit stored in
theorem Sound.image_shared {a b : NodeRef} (inside : b < input.size)
    (done : (state.imageOf old new a).isSome) (reaches : input.Reaches a old)
    (far : ¬ input.Reaches b old) (equal : state.image old new a = state.image old new b) :
    a = old ∧ b = new := by
  rw [sound.shared far] at equal
  by_cases same : a = old
  · rw [same, image_old] at equal
    exact ⟨same, equal.symm⟩
  · have high := (sound.copied differ same done reaches).fresh
    exact absurd (equal ▸ inside) (Nat.not_lt_of_le high)

theorem Sound.image_eq_iff {a b : NodeRef} (insideA : a < input.size) (insideB : b < input.size)
    (doneA : (state.imageOf old new a).isSome) (doneB : (state.imageOf old new b).isSome) :
    state.image old new a = state.image old new b ↔ Interchangeable input old new a b := by
  constructor
  · intro equal
    by_cases reachesA : input.Reaches a old <;> by_cases reachesB : input.Reaches b old
    · exact .inl (sound.image_inj differ stored doneA doneB reachesA reachesB equal)
    · obtain ⟨isOld, isNew⟩ := sound.image_shared differ insideB doneA reachesA reachesB equal
      exact .inr ⟨isNew ▸ reachesB, .inl ⟨isOld, isNew⟩⟩
    · obtain ⟨isOld, isNew⟩ := sound.image_shared differ insideA doneB reachesB reachesA equal.symm
      exact .inr ⟨isNew ▸ reachesA, .inr ⟨isNew, isOld⟩⟩
    · rw [sound.shared reachesA, sound.shared reachesB] at equal
      exact .inl equal
  · rintro (rfl | ⟨far, ⟨rfl, rfl⟩ | ⟨rfl, rfl⟩⟩)
    · rfl
    · rw [image_old, sound.shared far]
    · rw [image_old, sound.shared far]

theorem Sound.copied_iff (apart : ref ≠ old) (done : (state.imageOf old new ref).isSome)
    (reaches : input.Reaches ref old) :
    state.dag.node (state.image old new ref) = (input.node ref).mapChildren (state.image old new) ↔
      List.Forall₂ (Interchangeable input old new) (input.children ref)
        (input.node ref).operator.walk.refs := by
  have known := sound.below apart done
  have inside : ∀ child ∈ input.children ref, child < input.size :=
    fun child reads => input.refs_size (List.mem_append_left _ reads)
  have length : ((input.children ref).map (state.image old new)).length =
      (input.node ref).operator.walk.refs.length :=
    (List.length_map _).trans (Operator.refs_walk_perm _).length_eq.symm
  rw [(sound.copied differ apart done reaches).node]
  have images : (input.children ref).map (state.image old new) =
      (input.node ref).operator.walk.refs.map (state.image old new) ↔
      List.Forall₂ (Interchangeable input old new) (input.children ref)
        (input.node ref).operator.walk.refs := by
    rw [← List.forall₂_eq_eq_eq, List.forall₂_map_left_iff, List.forall₂_map_right_iff]
    rw [List.forall₂_iff_zip, List.forall₂_iff_zip]
    refine and_congr_right fun _ => forall_congr' fun a => forall_congr' fun b => imp_congr_right fun both => ?_
    obtain ⟨readA, visitedB⟩ := List.of_mem_zip both
    have readB := (Operator.mem_refs_walk _).mp visitedB
    exact sound.image_eq_iff differ stored (inside a readA) (inside b readB) (known a readA) (known b readB)
  rw [← images]
  constructor
  · intro same
    have operator := congrArg OperatorNode.operator same
    have left := Operator.lists_refs (D := NodeRef) (input.node ref).operator _ length
    have right := Operator.refs_mapChildren (state.image old new) (input.node ref).operator
    rw [← left, ← right]
    exact congrArg (fun operator : Operator NodeRef => operator.walk.refs) operator
  · intro same
    rw [same]
    rfl

end Images

end Replacing

/-! ### Redirecting -/

section
variable {dag : Dag} {node old new : NodeRef}

/-- The run redirects the references to `old` and keeps the others in place exactly when every operator
copied lists its children in the order a rebuild visits them. -/
theorem withReplaced_redirects_iff (inside : node < dag.size) (stored : new < dag.size) :
    Redirected dag node old new (withReplaced dag node old new) ↔ ChildrenInOrder dag node old new := by
  have start : Replacing.Sound dag old new { dag, cache := Cache.empty } :=
    ⟨Dag.Extends.refl dag, fun _ _ known => (nomatch known), fun _ _ _ known => (nomatch known)⟩
  obtain ⟨sound, -, result⟩ := Replacing.replace_spec stored start inside
  change (withReplaced dag node old new).2.Sound dag old new at sound
  change (withReplaced dag node old new).2.imageOf old new node = some (withReplaced dag node old new).1
    at result
  generalize withReplaced dag node old new = run at sound result
  have root : (run.2.imageOf old new node).isSome := by rw [result]; rfl
  have unchanged : ∀ {ref : NodeRef}, (∀ other, dag.Reaches ref other → run.2.image old new other = other) →
      dag.Reaches node ref →
      run.2.dag.node (run.2.image old new ref) = (dag.node ref).mapChildren (run.2.image old new) := by
    intro ref same reached
    rw [mapChildren_same fun child reads => same child (.single reads), same ref .refl]
    exact sound.grown.node (Nat.lt_of_le_of_lt reached.le inside)
  constructor
  · intro redirected
    refine or_iff_not_imp_left.mpr fun differ ref reached apart reaches => ?_
    have done := sound.done root reached reaches
    exact (sound.copied_iff differ stored apart done reaches).mp (redirected.copied ref reached apart)
  · intro inOrder
    refine {
      grown := sound.grown
      root := by rw [Replacing.image, result, Option.getD_some]
      target := Replacing.image_old
      shared := fun ref _ far => sound.shared far
      copied := fun ref reached apart => ?_ }
    by_cases differ : old = new
    · subst differ
      exact unchanged (fun _ _ => sound.image_self) reached
    · by_cases reaches : dag.Reaches ref old
      · have done := sound.done root reached reaches
        exact (sound.copied_iff differ stored apart done reaches).mpr
          ((inOrder.resolve_left differ) ref reached apart reaches)
      · exact unchanged (fun other below => sound.shared fun onward => reaches (below.trans onward)) reached

end

/-! ### A filter over a subquery -/

/-- A filter of node 1 that asks whether node 0 has rows, and a distinct of node 1. -/
def existsFilter : Dag := Dag.ofNodes [default, default, default,
  { (default : OperatorNode) with operator := .nonASAP (.filter ⟨.exists 0 false⟩ 1) },
  { (default : OperatorNode) with operator := .nonASAP (.dedup [] 1) }]

/-- Node 2 for the filter's input: it becomes the subquery, and the subquery becomes the input. -/
theorem filter_inputs_exchanged : existsFilter.Reaches 3 1 ∧
    ¬ Redirected existsFilter 3 1 2 (withReplaced existsFilter 3 1 2) := by
  refine ⟨.single (by decide +kernel), fun redirected => ?_⟩
  have built : (withReplaced existsFilter 3 1 2).2.dag.children (withReplaced existsFilter 3 1 2).1 = [0, 2] := by
    decide +kernel
  have expected := redirected.copied 3 .refl (by decide)
  rw [← redirected.root] at expected
  rw [Dag.children, expected, OperatorNode.children, OperatorNode.mapChildren, Operator.children_mapChildren]
    at built
  have inputs : (existsFilter.node 3).operator.children = [1, 0] := by decide +kernel
  rw [inputs, List.map_cons, redirected.target] at built
  exact absurd (List.cons.inj built).1 (by decide)

/-- The distinct is copied over node 2. -/
theorem dedup_redirected : Redirected existsFilter 4 1 2 (withReplaced existsFilter 4 1 2) := by
  refine (withReplaced_redirects_iff (by decide +kernel) (by decide +kernel)).mpr (.inr ?_)
  intro ref reached apart _
  have only : ref = 4 := by
    rcases Relation.ReflTransGen.cases_head reached with same | ⟨child, reads, onward⟩
    · exact same.symm
    · have inputs : existsFilter.children 4 = [1] := by decide +kernel
      rw [inputs, List.mem_singleton] at reads
      subst reads
      have leaf : existsFilter.children 1 = [] := by decide +kernel
      rcases Relation.ReflTransGen.cases_head onward with same | ⟨below, reads, _⟩
      · exact absurd same.symm apart
      · rw [leaf] at reads
        cases reads
  rw [only]
  have inOrder : existsFilter.children 4 = (existsFilter.node 4).operator.walk.refs := by decide +kernel
  rw [← inOrder]
  exact List.forall₂_same.mpr fun _ _ => .inl rfl

end AsapPlanner.Ir
