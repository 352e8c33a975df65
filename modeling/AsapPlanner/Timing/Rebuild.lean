import AsapPlanner.Timing.Split

/-!
What the second pass makes. Every node and timing it reaches has one copy, the node over the copies of
its children at their own timings, and no two have the same.
-/

namespace AsapPlanner.Timing
open Rust Traversal Ir

/-- Every node's output category is the one its constructor derives. -/
def Constructed (dag : Dag) : Prop :=
  ∀ ref < dag.size, (dag.node ref).resultKind = dag.outputKind (dag.node ref).operator

section Rebuild
variable (assignment : MaterializationAssignment) (input : Dag)

/-- `out` is the copy of `ref` at `timing`. -/
structure CopiedAt (split : Splitting) (ref : NodeRef) (timing : ExecutionTiming) (out : NodeRef) :
    Prop where
  reached : timing ∈ split.reached ref
  original : ref < input.size
  inside : out < split.dag.size
  -- The node itself, reached with this timing only, or a node allocated for the copy.
  place : (out = ref ∧ (split.reached ref).length ≤ 1) ∨ input.size ≤ out
  node : ∃ image, split.dag.node out = (input.node ref).mapChildren image ∧
    ∀ child ∈ input.children ref,
      ((child, timingOf assignment input child timing), image child) ∈ split.copies

structure Rebuilt (split : Splitting) : Prop where
  sound : Cache.Sound (forced assignment input) split.forced
  grown : split.dag.Extends input
  closed : ∀ ref, ∀ timing ∈ split.reached ref, Closed assignment input split.reached ref timing
  copied : ∀ ref timing out, ((ref, timing), out) ∈ split.copies →
    CopiedAt assignment input split ref timing out
  -- One key has one copy, and one copy has one key.
  same : ∀ a ∈ split.copies, ∀ b ∈ split.copies, a.1 = b.1 ↔ a.2 = b.2

/-- No copy is lost, and only nodes below `bound` are newly copied. -/
structure CopiedMore (bound : NodeRef) (before after : Splitting) : Prop where
  dag : after.dag.Extends before.dag
  reached : after.reached = before.reached
  kept : ∀ entry ∈ before.copies, entry ∈ after.copies
  frame : ∀ entry ∈ after.copies, entry ∈ before.copies ∨ entry.1.1 < bound

end Rebuild

namespace CopiedMore
variable {bound : NodeRef} {a b c : Splitting}

theorem refl : CopiedMore bound a a := ⟨Dag.Extends.refl _, rfl, fun _ here => here, fun _ here => .inl here⟩

theorem trans (ab : CopiedMore bound a b) (bc : CopiedMore bound b c) : CopiedMore bound a c where
  dag := ab.dag.trans bc.dag
  reached := bc.reached.trans ab.reached
  kept entry here := bc.kept entry (ab.kept entry here)
  frame entry here := by
    rcases bc.frame entry here with before | below
    · exact ab.frame entry before
    · exact .inr below

theorem mono {bound' : NodeRef} (ab : CopiedMore bound a b) (le : bound ≤ bound') :
    CopiedMore bound' a b :=
  { ab with frame := fun entry here => (ab.frame entry here).imp_right fun below =>
      Nat.lt_of_lt_of_le below le }

end CopiedMore

section Run
variable {assignment : MaterializationAssignment} {input : Dag} {split later : Splitting}

theorem CopiedAt.grow {bound ref out : NodeRef} {timing : ExecutionTiming}
    (here : CopiedAt assignment input split ref timing out) (more : CopiedMore bound split later) :
    CopiedAt assignment input later ref timing out where
  reached := more.reached ▸ here.reached
  original := here.original
  inside := Nat.lt_of_lt_of_le here.inside more.dag.size_le
  place := more.reached ▸ here.place
  node := by
    obtain ⟨image, node, below⟩ := here.node
    rw [more.dag.node here.inside]
    exact ⟨image, node, fun child reads => more.kept _ (below child reads)⟩

/-- The copies made so far, as a relation between copy and original. -/
def Splitting.isCopy (split : Splitting) (out ref : NodeRef) : Prop :=
  ∃ timing, ((ref, timing), out) ∈ split.copies

theorem Rebuilt.copies (kept : Rebuilt assignment input split) :
    Copies split.dag input split.isCopy where
  grown := kept.grown
  inside copied := by
    obtain ⟨timing, here⟩ := copied
    exact (kept.copied _ timing _ here).original
  node copied := by
    obtain ⟨timing, here⟩ := copied
    obtain ⟨image, node, below⟩ := (kept.copied _ timing _ here).node
    exact ⟨image, node, fun child reads => ⟨_, below child reads⟩⟩

theorem Rebuilt.lookup (kept : Rebuilt assignment input split) {key : NodeRef × ExecutionTiming}
    {out : NodeRef} (here : (key, out) ∈ split.copies) : split.copies.lookup key = some out := by
  cases found : split.copies.lookup key with
  | none =>
    have absent := List.lookup_eq_none_iff.mp found (key, out) here
    simp at absent
  | some other =>
    obtain ⟨before, after, listed, _⟩ := List.lookup_eq_some_iff.mp found
    have there : (key, other) ∈ split.copies := by simp [listed]
    exact congrArg some ((kept.same _ there _ here).mp rfl)

theorem Rebuilt.add {ref out : NodeRef} {timing : ExecutionTiming}
    (kept : Rebuilt assignment input split) (copied : CopiedAt assignment input split ref timing out)
    (key : ∀ entry ∈ split.copies, entry.1 ≠ (ref, timing)) (own : ∀ entry ∈ split.copies, entry.2 ≠ out) :
    let added := { split with copies := split.copies ++ [((ref, timing), out)] }
    Rebuilt assignment input added ∧ CopiedMore (ref + 1) split added := by
  have more : CopiedMore (ref + 1) split
      { split with copies := split.copies ++ [((ref, timing), out)] } := {
    dag := Dag.Extends.refl _
    reached := rfl
    kept := fun entry here => List.mem_append_left _ here
    frame := by
      intro entry here
      rcases List.mem_append.mp here with before | new
      · exact .inl before
      · rw [List.mem_singleton.mp new]
        exact .inr (Nat.lt_succ_self ref) }
  refine ⟨⟨kept.sound, kept.grown, kept.closed, ?_, ?_⟩, more⟩
  · intro other timing' out' here
    rcases List.mem_append.mp here with before | new
    · exact (kept.copied _ _ _ before).grow more
    · cases List.mem_singleton.mp new
      exact copied.grow more
  · intro a left b right
    rcases List.mem_append.mp left with left | left <;> rcases List.mem_append.mp right with right | right
    · exact kept.same a left b right
    · rw [List.mem_singleton.mp right]
      exact iff_of_false (key a left) (own a left)
    · rw [List.mem_singleton.mp left]
      exact iff_of_false (Ne.symm (key b right)) (Ne.symm (own b right))
    · rw [List.mem_singleton.mp left, List.mem_singleton.mp right]
      exact iff_of_true rfl rfl

theorem eq_map_of_forall₂ {refs images : List NodeRef} {image : NodeRef → NodeRef}
    (each : List.Forall₂ (fun (child : {child // child ∈ refs}) made => image child.1 = made)
      refs.attach images) : images = refs.map image := by
  have equal : List.Forall₂ Eq (refs.attach.map fun child => image child.1) images :=
    List.forall₂_map_left_iff.mpr each
  rw [List.forall₂_eq_eq_eq] at equal
  exact equal.symm.trans List.attach_map_val

section Copy
variable {ref : NodeRef} {timing : ExecutionTiming} {image : NodeRef → NodeRef}

theorem copyNode_eq (constructed : Constructed input) (kept : Rebuilt assignment input split)
    (inside : ref < input.size)
    (below : ∀ child ∈ input.children ref,
      ((child, timingOf assignment input child timing), image child) ∈ split.copies) :
    copyNode input split.dag ref ((input.node ref).operator.mapChildren image) =
      (input.node ref).mapChildren image := by
  have kind : split.dag.outputKind ((input.node ref).operator.mapChildren image) =
      (input.node ref).resultKind := by
    rw [constructed ref inside]
    exact kept.copies.outputKind fun child reads => ⟨_, below child reads⟩
  unfold copyNode Dag.withSchema OperatorNode.mapChildren
  rw [kind]

theorem alloc_more (constructed : Constructed input) (kept : Rebuilt assignment input split)
    (inside : ref < input.size)
    (below : ∀ child ∈ input.children ref,
      ((child, timingOf assignment input child timing), image child) ∈ split.copies) :
    let made := split.dag.alloc (copyNode input split.dag ref ((input.node ref).operator.mapChildren image))
    let after := { split with dag := made.2 }
    made.1 = split.dag.size ∧ made.1 < after.dag.size ∧
      after.dag.node made.1 = (input.node ref).mapChildren image ∧
      Rebuilt assignment input after ∧ CopiedMore ref split after := by
  have earlier : ∀ held ∈ ((input.node ref).mapChildren image).refs, held < split.dag.size := by
    intro held holds
    change held ∈ ((input.node ref).operator.mapChildren image).children ++
      ((input.node ref).operator.mapChildren image).held.toList at holds
    rw [Operator.children_mapChildren, Operator.held_mapChildren] at holds
    rcases List.mem_append.mp holds with mapped | held'
    · obtain ⟨child, reads, same⟩ := List.mem_map.mp mapped
      rw [← same]
      exact (kept.copied _ _ _ (below child reads)).inside
    · have inside := @Dag.refs_size input ref held (List.mem_append_right _ held')
      exact Nat.lt_of_lt_of_le inside kept.grown.size_le
  have more : CopiedMore ref split { split with
      dag := (split.dag.alloc ((input.node ref).mapChildren image)).2 } :=
    ⟨Dag.alloc_extends _ _, rfl, fun _ here => here, fun _ here => .inl here⟩
  rw [copyNode_eq constructed kept inside below]
  dsimp only
  rw [Dag.alloc_ref, Dag.alloc_size earlier]
  refine ⟨rfl, Nat.lt_succ_self _, Dag.alloc_node earlier, ?_, more⟩
  exact {
    sound := kept.sound
    grown := kept.grown.trans more.dag
    closed := kept.closed
    copied := fun other timing' out here => (kept.copied other timing' out here).grow more
    same := kept.same }

theorem eq_of_length_le_one {α : Type} {items : List α} {a b : α} (single : items.length ≤ 1)
    (left : a ∈ items) (right : b ∈ items) : a = b := by
  match items, single with
  | [only], _ => rw [List.mem_singleton.mp left, List.mem_singleton.mp right]

theorem copyChanged_copies {changed : Bool} (constructed : Constructed input)
    (kept : Rebuilt assignment input split) (inside : ref < input.size)
    (reached : timing ∈ split.reached ref)
    (fresh : ∀ entry ∈ split.copies, entry.1 ≠ (ref, timing))
    (below : ∀ child ∈ input.children ref,
      ((child, timingOf assignment input child timing), image child) ∈ split.copies)
    (unchanged : changed = false → (split.reached ref).length ≤ 1 ∧
      ∀ child ∈ input.children ref, image child = child) :
    let made := copyChanged input ref ((input.node ref).operator.mapChildren image) changed split
    let after := { made.2 with copies := made.2.copies ++ [((ref, timing), made.1)] }
    Rebuilt assignment input after ∧ CopiedMore (ref + 1) split after := by
  cases changed with
  | true =>
    obtain ⟨place, here, node, kept', more⟩ := alloc_more constructed kept inside below
    have copied : CopiedAt assignment input _ ref timing _ := {
      reached := more.reached.symm ▸ reached
      original := inside
      inside := here
      place := .inr (place ▸ kept.grown.size_le)
      node := ⟨image, node, fun child reads => more.kept _ (below child reads)⟩ }
    have own : ∀ entry ∈ split.copies, entry.2 ≠ split.dag.size := by
      intro entry here
      exact Nat.ne_of_lt (kept.copied _ _ _ here).inside
    obtain ⟨kept'', more'⟩ := kept'.add copied fresh (place.symm ▸ own)
    exact ⟨kept'', (more.mono (Nat.le_succ ref)).trans more'⟩
  | false =>
    obtain ⟨single, same⟩ := unchanged rfl
    have copied : CopiedAt assignment input split ref timing ref := {
      reached
      original := inside
      inside := Nat.lt_of_lt_of_le inside kept.grown.size_le
      place := .inl ⟨rfl, single⟩
      node := by
        refine ⟨image, ?_, below⟩
        rw [kept.grown.node inside, mapChildren_same same] }
    have own : ∀ entry ∈ split.copies, entry.2 ≠ ref := by
      intro entry here itself
      have there := kept.copied _ _ _ here
      rcases there.place with ⟨original, _⟩ | beyond
      · have key : entry.1.1 = ref := original.symm.trans itself
        have other : entry.1.2 ∈ split.reached ref := key ▸ there.reached
        exact fresh entry here (Prod.ext key (eq_of_length_le_one single other reached))
      · exact absurd inside (Nat.not_lt.mpr (itself ▸ beyond))
    exact kept.add copied fresh own

theorem rebuild_miss {consumer : ExecutionTiming} {decided : Splitting}
    (predicted : predict assignment input ref consumer split = (timing, decided))
    (absent : decided.copies.lookup (ref, timing) = none) :
    let refs := (input.node ref).operator.walk.refs
    let rebuilt := (refs.attach.mapM fun child => rebuild assignment input child.1 timing) decided
    let made := copyChanged input ref ((input.node ref).operator.walk.build rebuilt.1)
      (1 < (decided.reached ref).length || (refs.zip rebuilt.1).any fun pair => pair.1 ≠ pair.2) rebuilt.2
    rebuild assignment input ref consumer split =
      (made.1, { made.2 with copies := made.2.copies ++ [((ref, timing), made.1)] }) := by
  have got : (get : StateM Splitting Splitting) decided = (decided, decided) := rfl
  rw [rebuild, bind_run, predicted, bind_run]
  dsimp only
  rw [got]
  dsimp only
  rw [absent]
  rfl

theorem rebuild_hit {consumer : ExecutionTiming} {decided : Splitting} {done : NodeRef}
    (predicted : predict assignment input ref consumer split = (timing, decided))
    (present : decided.copies.lookup (ref, timing) = some done) :
    rebuild assignment input ref consumer split = (done, decided) := by
  have got : (get : StateM Splitting Splitting) decided = (decided, decided) := rfl
  rw [rebuild, bind_run, predicted, bind_run]
  dsimp only
  rw [got]
  dsimp only
  rw [present]
  rfl

end Copy

theorem Rebuilt.decide {known : Cache NodeRef Bool} (kept : Rebuilt assignment input split)
    (sound : Cache.Sound (forced assignment input) known) :
    Rebuilt assignment input { split with forced := known } where
  sound := sound
  grown := kept.grown
  closed := kept.closed
  copied := by
    intro ref timing out here
    have same : CopiedMore 0 split { split with forced := known } :=
      ⟨Dag.Extends.refl _, rfl, fun _ here => here, fun _ here => .inl here⟩
    exact (kept.copied ref timing out here).grow same
  same := kept.same

theorem rebuild_copies (constructed : Constructed input) {ref : NodeRef} {consumer : ExecutionTiming}
    (kept : Rebuilt assignment input split) (inside : ref < input.size)
    (reached : timingOf assignment input ref consumer ∈ split.reached ref) :
    let made := rebuild assignment input ref consumer split
    Rebuilt assignment input made.2 ∧ CopiedMore (ref + 1) split made.2 ∧
      ((ref, timingOf assignment input ref consumer), made.1) ∈ made.2.copies := by
  induction ref using Nat.strongRecOn generalizing consumer split with
  | ind ref ih =>
    obtain ⟨known, predicted, sound⟩ := @predict_eq assignment input split ref consumer kept.sound
    let timing := timingOf assignment input ref consumer
    let decided : Splitting := { split with forced := known }
    have keptDecided : Rebuilt assignment input decided := kept.decide sound
    have start : CopiedMore (ref + 1) split decided :=
      ⟨Dag.Extends.refl _, rfl, fun _ here => here, fun _ here => .inl here⟩
    cases found : decided.copies.lookup (ref, timing) with
    | some done =>
      rw [rebuild_hit predicted found]
      obtain ⟨before, after, listed, _⟩ := List.lookup_eq_some_iff.mp found
      have here : ((ref, timing), done) ∈ decided.copies := by simp [listed]
      exact ⟨keptDecided, start, here⟩
    | none =>
      rw [rebuild_miss predicted found]
      let refs := (input.node ref).operator.walk.refs
      have each : ∀ child ∈ refs.attach, ∀ before : Splitting,
          (Rebuilt assignment input before ∧ before.reached = split.reached) →
          let made := rebuild assignment input child.1 timing before
          (Rebuilt assignment input made.2 ∧ made.2.reached = split.reached) ∧
            CopiedMore ref before made.2 ∧
            ((child.1, timingOf assignment input child.1 timing), made.1) ∈ made.2.copies := by
        intro child _ before holds
        obtain ⟨keptBefore, same⟩ := holds
        have reads : child.1 ∈ input.children ref := (Operator.mem_refs_walk _).mp child.2
        have below := input.child_lt reads
        have reachedChild : timingOf assignment input child.1 timing ∈ before.reached child.1 :=
          same ▸ kept.closed ref timing reached child.1 reads
        obtain ⟨keptAfter, more, here⟩ :=
          @ih child.1 below before timing keptBefore (Nat.lt_trans below inside) reachedChild
        exact ⟨⟨keptAfter, more.reached.trans same⟩, more.mono below, here⟩
      have stable : ∀ (child : {child // child ∈ refs}) (made : NodeRef) before after,
          ((child.1, timingOf assignment input child.1 timing), made) ∈ Splitting.copies before →
          CopiedMore ref before after →
          ((child.1, timingOf assignment input child.1 timing), made) ∈ after.copies :=
        fun _ _ _ _ here more => more.kept _ here
      obtain ⟨⟨keptAfter, same⟩, more, all⟩ := mapM_kept (fun _ => CopiedMore.refl)
        (fun _ _ _ => CopiedMore.trans) stable each (s := decided) ⟨keptDecided, rfl⟩
      let rebuilt := (refs.attach.mapM fun child => rebuild assignment input child.1 timing) decided
      let image : NodeRef → NodeRef := fun child =>
        (rebuilt.2.copies.lookup (child, timingOf assignment input child timing)).getD 0
      have images : rebuilt.1 = refs.map image := eq_map_of_forall₂ <| all.imp fun child made here =>
        congrArg (Option.getD · 0) (keptAfter.lookup here)
      have below : ∀ child ∈ input.children ref,
          ((child, timingOf assignment input child timing), image child) ∈ rebuilt.2.copies := by
        intro child reads
        obtain ⟨made, here⟩ := exists_of_forall₂ all
          ⟨child, (Operator.mem_refs_walk _).mpr reads⟩ (List.mem_attach _ _)
        have same : image child = made := congrArg (Option.getD · 0) (keptAfter.lookup here)
        exact same ▸ here
      have fresh : ∀ entry ∈ rebuilt.2.copies, entry.1 ≠ (ref, timing) := by
        intro entry here key
        rcases more.frame entry here with before | earlier
        · have absent := List.lookup_eq_none_iff.mp found entry before
          simp [key] at absent
        · rw [key] at earlier
          exact Nat.lt_irrefl ref earlier
      let changed : Bool := 1 < (decided.reached ref).length ||
        (refs.zip rebuilt.1).any fun pair => pair.1 ≠ pair.2
      have unchanged : changed = false → (rebuilt.2.reached ref).length ≤ 1 ∧
          ∀ child ∈ input.children ref, image child = child := by
        intro same'
        obtain ⟨single, zipped⟩ := Bool.or_eq_false_iff.mp same'
        refine ⟨?_, fun child reads => ?_⟩
        · rw [same]
          simpa using single
        · have pairs : refs.zip rebuilt.1 = refs.map fun child => (child, image child) := by
            rw [images, ← List.zip_map', List.map_id']
          rw [pairs, List.any_eq_false] at zipped
          have member : (child, image child) ∈ refs.map fun child => (child, image child) :=
            List.mem_map_of_mem ((Operator.mem_refs_walk _).mpr reads)
          exact (not_not.mp fun differ => zipped _ member (decide_eq_true differ)).symm
      have built : (input.node ref).operator.walk.build rebuilt.1 =
          (input.node ref).operator.mapChildren image :=
        congrArg (input.node ref).operator.walk.build images
      have done := copyChanged_copies constructed keptAfter inside (same ▸ reached) fresh below unchanged
      rw [← built] at done
      exact ⟨done.1, start.trans ((more.mono (Nat.le_succ ref)).trans done.2), by simp⟩

end Run

/-! ### Remapped assignments -/

section Remapped
variable {assignment : MaterializationAssignment} {ref out : NodeRef}

theorem unassigned_remapped (copies : List ((NodeRef × ExecutionTiming) × NodeRef)) :
    (remapped assignment copies).unassigned = assignment.unassigned := by
  unfold remapped
  refine List.foldlRecOn copies _
    (motive := fun built : MaterializationAssignment => built.unassigned = assignment.unassigned)
    rfl fun built same entry _ => ?_
  unfold remap
  cases assignment.get entry.1.1 <;> exact same

theorem get_remap {built : MaterializationAssignment} (entry : (NodeRef × ExecutionTiming) × NodeRef) :
    (remap assignment built entry).get out =
      if entry.2 = out then (assignment.get entry.1.1).or (built.get out) else built.get out := by
  unfold remap
  cases assignment.get entry.1.1 with
  | none => simp
  | some materialization =>
    unfold MaterializationAssignment.set MaterializationAssignment.get
    simp [eq_comm]

theorem get_foldl {built : MaterializationAssignment}
    {copies : List ((NodeRef × ExecutionTiming) × NodeRef)}
    (only : ∀ entry ∈ copies, entry.2 = out → entry.1.1 = ref)
    (copied : built.get out = assignment.get ref ∨ ∃ entry ∈ copies, entry.2 = out)
    (own : assignment.get ref = none → built.get out = none) :
    (copies.foldl (remap assignment) built).get out = assignment.get ref := by
  induction copies generalizing built with
  | nil => simpa using copied
  | cons entry rest ih =>
    have here := @get_remap assignment out built entry
    have onlyRest := fun other member => only other (List.mem_cons_of_mem entry member)
    rw [List.foldl_cons]
    by_cases itself : entry.2 = out
    · have original := only entry List.mem_cons_self itself
      rw [if_pos itself, original] at here
      have set : (assignment.get ref).or (built.get out) = assignment.get ref := by
        cases found : assignment.get ref with
        | none => rw [own found, Option.or_none]
        | some materialization => rfl
      rw [set] at here
      exact ih onlyRest (.inl here) fun none => here.trans none
    · rw [if_neg itself] at here
      refine ih onlyRest ?_ fun none => here.trans (own none)
      rcases copied with same | ⟨other, member, there⟩
      · exact .inl (here.trans same)
      · rcases List.mem_cons.mp member with rfl | later
        · exact absurd there itself
        · exact .inr ⟨other, later, there⟩

end Remapped

/-! ### What a split is -/

section Splits
variable (assignment : MaterializationAssignment) (input : Dag)

structure Splits (roots : List NodeRef) (split : SplitRoots)
    (copies : NodeRef → ExecutionTiming → NodeRef → Prop) : Prop where
  grown : split.dag.Extends input
  original : ∀ {ref timing out}, copies ref timing out → ref < input.size
  node : ∀ {ref timing out}, copies ref timing out →
    ∃ image, split.dag.node out = (input.node ref).mapChildren image ∧
      ∀ child ∈ input.children ref, copies child (timingOf assignment input child timing) (image child)
  same : ∀ {ref timing out ref' timing' out'}, copies ref timing out → copies ref' timing' out' →
    (out = out' ↔ ref = ref' ∧ timing = timing')
  roots : List.Forall₂ (fun root out => copies root (timingOf assignment input root .queryTime) out)
    roots split.roots
  get : ∀ {ref timing out}, copies ref timing out → split.assignment.get out = assignment.get ref
  unassigned : split.assignment.unassigned = assignment.unassigned

variable {assignment input} {roots : List NodeRef}

theorem unsplit_splits {state : Splitting} (collected : Collected assignment input roots state)
    (single : ∀ ref < input.size, (state.reached ref).length ≤ 1) :
    Splits assignment input roots { dag := input, roots, assignment } fun ref timing out =>
      out = ref ∧ timing ∈ state.reached ref where
  grown := Dag.Extends.refl input
  original copied := collected.original copied.2
  node copied := by
    obtain ⟨rfl, here⟩ := copied
    refine ⟨id, ?_, fun child reads => ⟨rfl, collected.closed _ _ here child reads⟩⟩
    exact (mapChildren_same fun _ _ => rfl).symm
  same left right := by
    obtain ⟨rfl, here⟩ := left
    obtain ⟨rfl, there⟩ := right
    refine ⟨fun equal => ⟨equal, ?_⟩, And.left⟩
    subst equal
    exact eq_of_length_le_one (single _ (collected.original here)) here there
  roots := List.forall₂_same.mpr fun root member => ⟨rfl, collected.roots root member⟩
  get copied := by rw [copied.1]
  unassigned := rfl

theorem rebuilt_splits {state : Splitting} (collected : Collected assignment input roots state)
    (constructed : Constructed input) (inside : ∀ root ∈ roots, root < input.size)
    (assigned : ∀ ref materialization, assignment.get ref = some materialization → ref < input.size) :
    let rebuilt := (roots.mapM fun root => rebuild assignment input root .queryTime) state
    Splits assignment input roots
      { dag := rebuilt.2.dag, roots := rebuilt.1, assignment := remapped assignment rebuilt.2.copies }
      fun ref timing out => ((ref, timing), out) ∈ rebuilt.2.copies := by
  have start : Rebuilt assignment input state := {
    sound := collected.sound
    grown := collected.dag ▸ Dag.Extends.refl _
    closed := collected.closed
    copied := fun _ _ _ here => absurd here (by rw [collected.copies]; exact List.not_mem_nil)
    same := fun _ here => absurd here (by rw [collected.copies]; exact List.not_mem_nil) }
  have each : ∀ root ∈ roots, ∀ before : Splitting,
      (Rebuilt assignment input before ∧ before.reached = state.reached) →
      let made := rebuild assignment input root .queryTime before
      (Rebuilt assignment input made.2 ∧ made.2.reached = state.reached) ∧
        CopiedMore input.size before made.2 ∧
        ((root, timingOf assignment input root .queryTime), made.1) ∈ made.2.copies := by
    intro root member before holds
    obtain ⟨kept, same⟩ := holds
    obtain ⟨keptAfter, more, here⟩ :=
      @rebuild_copies assignment input before constructed root .queryTime kept (inside root member)
        (same ▸ collected.roots root member)
    exact ⟨⟨keptAfter, more.reached.trans same⟩, more.mono (inside root member), here⟩
  have stable : ∀ (root made : NodeRef) before after,
      ((root, timingOf assignment input root .queryTime), made) ∈ Splitting.copies before →
      CopiedMore input.size before after →
      ((root, timingOf assignment input root .queryTime), made) ∈ after.copies :=
    fun _ _ _ _ here more => more.kept _ here
  obtain ⟨⟨kept, _⟩, _, all⟩ := mapM_kept (fun _ => CopiedMore.refl)
    (fun _ _ _ => CopiedMore.trans) stable each (s := state) ⟨start, rfl⟩
  intro rebuilt
  exact {
    grown := kept.grown
    original := fun copied => (kept.copied _ _ _ copied).original
    node := fun copied => (kept.copied _ _ _ copied).node
    same := fun left right => ((kept.same _ left _ right).symm.trans Prod.ext_iff)
    roots := all
    get := by
      intro ref timing out copied
      refine get_foldl ?_ (.inr ⟨_, copied, rfl⟩) fun none => ?_
      · intro entry member same
        exact congrArg Prod.fst ((kept.same _ member _ copied).mpr same)
      · rcases (kept.copied _ _ _ copied).place with ⟨itself, _⟩ | beyond
        · rw [itself, none]
        · cases found : assignment.get out with
          | none => rfl
          | some materialization => exact absurd (assigned out _ found) (Nat.not_lt.mpr beyond)
    unassigned := unassigned_remapped _ }

theorem splitSharedByTiming_splits (constructed : Constructed input)
    (inside : ∀ root ∈ roots, root < input.size)
    (assigned : ∀ ref materialization, assignment.get ref = some materialization → ref < input.size) :
    ∃ copies, Splits assignment input roots (splitSharedByTiming assignment input roots) copies := by
  have first := @collected assignment input roots inside
  unfold splitSharedByTiming
  dsimp only
  split
  · rename_i all
    refine ⟨_, unsplit_splits first fun ref below => ?_⟩
    exact of_decide_eq_true (List.all_eq_true.mp all ref (List.mem_range.mpr below))
  · exact ⟨_, rebuilt_splits first constructed inside assigned⟩

end Splits
end AsapPlanner.Timing
