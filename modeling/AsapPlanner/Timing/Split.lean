import AsapPlanner.Timing.Copies
import AsapPlanner.Traversal.Run

/-!
Splitting what is shared between two timings. A first pass finds the timings each node is reached with; a
second rebuilds every node that is reached with two, once for each.
-/

namespace AsapPlanner.Timing
open Rust Traversal Ir

section Timing
variable (assignment : MaterializationAssignment) (dag : Dag)

/-- The timing `ref` takes under a consumer; an assignment that cannot be honored is reported later. -/
def timingUnderConsumer (ref : NodeRef) (consumer : ExecutionTiming) :
    StateM (Cache NodeRef Bool) ExecutionTiming := do
  match ← placement assignment dag ref consumer with
  | .ok (timing, _) => pure timing
  | .error _ => pure .queryTime

/-- The timing of `ref` under a consumer. -/
def timingOf (ref : NodeRef) (consumer : ExecutionTiming) : ExecutionTiming :=
  match placed assignment dag ref consumer with
  | .ok (timing, _) => timing
  | .error _ => .queryTime

theorem timingUnderConsumer_returns (ref : NodeRef) (consumer : ExecutionTiming) :
    Returns (Cache.Sound (forced assignment dag)) (timingUnderConsumer assignment dag ref consumer)
      (timingOf assignment dag ref consumer) := by
  refine Returns.bind (placement_returns assignment dag ref consumer) ?_
  unfold timingOf
  cases placed assignment dag ref consumer <;> exact Returns.pure _

end Timing

/-! ### The two passes -/

/-- The store, the timings each node was reached with, each node and timing's copy, and what is known to
be forced to query time. -/
structure Splitting where
  dag : Dag
  reached : NodeRef → List ExecutionTiming
  copies : List ((NodeRef × ExecutionTiming) × NodeRef)
  forced : Cache NodeRef Bool

section Split
variable (assignment : MaterializationAssignment) (input : Dag)

def predict (ref : NodeRef) (consumer : ExecutionTiming) : StateM Splitting ExecutionTiming :=
  fun split =>
    let (timing, forced) := timingUnderConsumer assignment input ref consumer split.forced
    (timing, { split with forced })

/-- Record every timing the sub-DAG at `ref` is reached with. -/
def collect (ref : NodeRef) (consumer : ExecutionTiming) : StateM Splitting Unit := do
  let timing ← predict assignment input ref consumer
  if timing ∈ (← get).reached ref then pure ()
  else
    modify fun split => { split with
      reached := Function.update split.reached ref (split.reached ref ++ [timing]) }
    let _ ← (input.children ref).attach.mapM fun child => collect child.1 timing
termination_by ref
decreasing_by exact input.child_lt child.2

/-- The copy of `ref` over `operator`. -/
def copyNode (dag : Dag) (ref : NodeRef) (operator : Operator NodeRef) : OperatorNode :=
  let node := input.node ref
  { dag.withSchema operator node.schema with
    guarantee := node.guarantee
    timing := node.timing
    materialization := node.materialization }

/-- Allocate the copy of `ref` when it is reached with two timings or a child was rebuilt. -/
def copyChanged (ref : NodeRef) (operator : Operator NodeRef) (changed : Bool) : StateM Splitting NodeRef :=
  fun split =>
    if changed then
      let made := split.dag.alloc (copyNode input split.dag ref operator)
      (made.1, { split with dag := made.2 })
    else (ref, split)

def rebuild (ref : NodeRef) (consumer : ExecutionTiming) : StateM Splitting NodeRef := do
  let timing ← predict assignment input ref consumer
  match (← get).copies.lookup (ref, timing) with
  | some done => pure done
  | none =>
    let conflicted := 1 < ((← get).reached ref).length
    let operator := (input.node ref).operator
    let rebuilt ← operator.walk.refs.attach.mapM fun child => rebuild child.1 timing
    let changed := conflicted || (operator.walk.refs.zip rebuilt).any fun pair => pair.1 ≠ pair.2
    let out ← copyChanged input ref (operator.walk.build rebuilt) changed
    modify fun split => { split with copies := split.copies ++ [((ref, timing), out)] }
    pure out
termination_by ref
decreasing_by exact input.child_lt ((Operator.mem_refs_walk _).mp child.2)

def remap (remapped : MaterializationAssignment) (entry : (NodeRef × ExecutionTiming) × NodeRef) :
    MaterializationAssignment :=
  match assignment.get entry.1.1 with
  | some materialization => remapped.set entry.2 materialization
  | none => remapped

def remapped (copies : List ((NodeRef × ExecutionTiming) × NodeRef)) : MaterializationAssignment :=
  copies.foldl (remap assignment) assignment

def Splitting.start : Splitting :=
  { dag := input, reached := fun _ => [], copies := [], forced := Cache.empty }

/-- The rewritten roots in their store, and the assignment remapped onto them. -/
structure SplitRoots where
  dag : Dag
  roots : List NodeRef
  assignment : MaterializationAssignment

/-- Copy every sub-DAG that the assignment would reach with two timings, once for each. -/
def splitSharedByTiming (roots : List NodeRef) : SplitRoots :=
  let collected := (roots.mapM fun root => collect assignment input root .queryTime)
    (Splitting.start input)
  if (List.range input.size).all fun ref => (collected.2.reached ref).length ≤ 1 then
    { dag := input, roots, assignment }
  else
    let rebuilt := (roots.mapM fun root => rebuild assignment input root .queryTime) collected.2
    { dag := rebuilt.2.dag, roots := rebuilt.1, assignment := remapped assignment rebuilt.2.copies }

end Split

/-! ### The timings reached -/

section Collect
variable {assignment : MaterializationAssignment} {input : Dag} {split : Splitting} {ref : NodeRef}
  {consumer : ExecutionTiming}

theorem predict_eq (sound : Cache.Sound (forced assignment input) split.forced) :
    ∃ known, predict assignment input ref consumer split =
      (timingOf assignment input ref consumer, { split with forced := known }) ∧
      Cache.Sound (forced assignment input) known := by
  obtain ⟨value, kept⟩ :=
    timingUnderConsumer_returns assignment input ref consumer split.forced sound
  exact ⟨_, Prod.ext value rfl, kept⟩

/-- Every node reached with `timing` has its children reached with theirs. -/
def Closed (assignment : MaterializationAssignment) (input : Dag)
    (reached : NodeRef → List ExecutionTiming) (ref : NodeRef) (timing : ExecutionTiming) : Prop :=
  ∀ child ∈ input.children ref, timingOf assignment input child timing ∈ reached child

/-- More is reached, below `bound` only, and everything new is closed. -/
structure ReachedMore (assignment : MaterializationAssignment) (input : Dag) (bound : NodeRef)
    (before after : Splitting) : Prop where
  dag : after.dag = before.dag
  copies : after.copies = before.copies
  kept : ∀ ref, ∀ timing ∈ before.reached ref, timing ∈ after.reached ref
  frame : ∀ ref, bound ≤ ref → after.reached ref = before.reached ref
  closed : ∀ ref, ∀ timing ∈ after.reached ref,
    timing ∈ before.reached ref ∨ Closed assignment input after.reached ref timing

namespace ReachedMore
variable {bound : NodeRef} {a b c : Splitting}

theorem refl : ReachedMore assignment input bound a a :=
  ⟨rfl, rfl, fun _ _ here => here, fun _ _ => rfl, fun _ _ here => .inl here⟩

theorem trans (ab : ReachedMore assignment input bound a b)
    (bc : ReachedMore assignment input bound b c) : ReachedMore assignment input bound a c where
  dag := bc.dag.trans ab.dag
  copies := bc.copies.trans ab.copies
  kept ref timing here := bc.kept ref timing (ab.kept ref timing here)
  frame ref above := (bc.frame ref above).trans (ab.frame ref above)
  closed ref timing here := by
    rcases bc.closed ref timing here with before | closed
    · rcases ab.closed ref timing before with first | closed
      · exact .inl first
      · exact .inr fun child reads => bc.kept _ _ (closed child reads)
    · exact .inr closed

theorem mono {bound' : NodeRef} (ab : ReachedMore assignment input bound a b) (le : bound ≤ bound') :
    ReachedMore assignment input bound' a b :=
  { ab with frame := fun ref above => ab.frame ref (Nat.le_trans le above) }

end ReachedMore

/-- The state after `timing` is recorded for `ref`. -/
def Splitting.reach (split : Splitting) (ref : NodeRef) (timing : ExecutionTiming) : Splitting :=
  { split with reached := Function.update split.reached ref (split.reached ref ++ [timing]) }

theorem collect_run {timing : ExecutionTiming} {decided : Splitting}
    (predicted : predict assignment input ref consumer split = (timing, decided)) :
    (collect assignment input ref consumer split).2 =
      if timing ∈ decided.reached ref then decided
      else (((input.children ref).attach.mapM fun child => collect assignment input child.1 timing)
        (decided.reach ref timing)).2 := by
  have got : (get : StateM Splitting Splitting) decided = (decided, decided) := rfl
  rw [collect, bind_run, predicted, bind_run]
  dsimp only
  rw [got]
  by_cases present : timing ∈ decided.reached ref
  · rw [if_pos present, if_pos present]
    rfl
  · rw [if_neg present, if_neg present]
    rfl

theorem mem_reach {other : NodeRef} {timing timing' : ExecutionTiming} :
    timing' ∈ (split.reach ref timing).reached other ↔
      timing' ∈ split.reached other ∨ (other = ref ∧ timing' = timing) := by
  unfold Splitting.reach
  by_cases same : other = ref
  · subst same
    simp
  · simp [same]

theorem collect_reaches (sound : Cache.Sound (forced assignment input) split.forced) :
    let after := (collect assignment input ref consumer split).2
    Cache.Sound (forced assignment input) after.forced ∧
      ReachedMore assignment input (ref + 1) split after ∧
      timingOf assignment input ref consumer ∈ after.reached ref := by
  induction ref using Nat.strongRecOn generalizing consumer split with
  | ind ref ih =>
    obtain ⟨known, predicted, sound'⟩ := @predict_eq assignment input split ref consumer sound
    rw [collect_run predicted]
    let timing := timingOf assignment input ref consumer
    let decided : Splitting := { split with forced := known }
    have start : ReachedMore assignment input (ref + 1) split decided :=
      ⟨rfl, rfl, fun _ _ here => here, fun _ _ => rfl, fun _ _ here => .inl here⟩
    split
    · rename_i present
      exact ⟨sound', start, present⟩
    · have each : ∀ child ∈ (input.children ref).attach, ∀ before : Splitting,
          Cache.Sound (forced assignment input) before.forced →
          let after := (collect assignment input child.1 timing before).2
          Cache.Sound (forced assignment input) after.forced ∧
            ReachedMore assignment input ref before after ∧
            timingOf assignment input child.1 timing ∈ after.reached child.1 := by
        intro child _ before soundBefore
        have below := input.child_lt child.2
        obtain ⟨kept, grown, here⟩ := @ih child.1 below before timing soundBefore
        exact ⟨kept, grown.mono below, here⟩
      have stable : ∀ (child : {child // child ∈ input.children ref}) (_ : Unit) before after,
          timingOf assignment input child.1 timing ∈ before.reached child.1 →
          ReachedMore assignment input ref before after →
          timingOf assignment input child.1 timing ∈ after.reached child.1 :=
        fun _ _ _ _ here grown => grown.kept _ _ here
      obtain ⟨soundAfter, more, below⟩ := mapM_kept (fun _ => ReachedMore.refl)
        (fun _ _ _ => ReachedMore.trans) stable each (s := decided.reach ref timing)
        sound'
      refine ⟨soundAfter, ?_, more.kept ref timing (mem_reach.mpr (.inr ⟨rfl, rfl⟩))⟩
      exact {
        dag := more.dag
        copies := more.copies
        kept := fun other earlier here => more.kept other earlier (mem_reach.mpr (.inl here))
        frame := fun other above =>
          (more.frame other (Nat.le_of_succ_le above)).trans (Function.update_of_ne (Nat.ne_of_gt above) _ _)
        closed := by
          intro other later here
          rcases more.closed other later here with before | closed
          · rcases mem_reach.mp before with earlier | ⟨rfl, rfl⟩
            · exact .inl earlier
            · refine .inr fun child reads => ?_
              obtain ⟨_, recorded⟩ := exists_of_forall₂ below ⟨child, reads⟩ (List.mem_attach _ _)
              exact recorded
          · exact .inr closed }

/-- What the first pass leaves: every root's timing recorded, and every recorded timing closed. -/
structure Collected (assignment : MaterializationAssignment) (input : Dag) (roots : List NodeRef)
    (split : Splitting) : Prop where
  sound : Cache.Sound (forced assignment input) split.forced
  dag : split.dag = input
  copies : split.copies = []
  closed : ∀ ref, ∀ timing ∈ split.reached ref, Closed assignment input split.reached ref timing
  roots : ∀ root ∈ roots, timingOf assignment input root .queryTime ∈ split.reached root
  outside : ∀ ref, input.size ≤ ref → split.reached ref = []

theorem Collected.original {roots : List NodeRef} {timing : ExecutionTiming}
    (collected : Collected assignment input roots split) (here : timing ∈ split.reached ref) :
    ref < input.size := by
  by_contra beyond
  rw [collected.outside ref (Nat.le_of_not_lt beyond)] at here
  cases here

theorem collected (roots : List NodeRef) (inside : ∀ root ∈ roots, root < input.size) :
    Collected assignment input roots
      ((roots.mapM fun root => collect assignment input root .queryTime) (Splitting.start input)).2 := by
  have each : ∀ root ∈ roots, ∀ before : Splitting,
      Cache.Sound (forced assignment input) before.forced →
      let after := (collect assignment input root .queryTime before).2
      Cache.Sound (forced assignment input) after.forced ∧
        ReachedMore assignment input input.size before after ∧
        timingOf assignment input root .queryTime ∈ after.reached root := by
    intro root member before sound
    obtain ⟨kept, grown, here⟩ := @collect_reaches assignment input before root .queryTime sound
    exact ⟨kept, grown.mono (inside root member), here⟩
  have stable : ∀ (root : NodeRef) (_ : Unit) before after,
      timingOf assignment input root .queryTime ∈ before.reached root →
      ReachedMore assignment input input.size before after →
      timingOf assignment input root .queryTime ∈ after.reached root :=
    fun _ _ _ _ here grown => grown.kept _ _ here
  obtain ⟨sound, more, recorded⟩ := mapM_kept (fun _ => ReachedMore.refl)
    (fun _ _ _ => ReachedMore.trans) stable each (s := Splitting.start input)
      (Cache.sound_empty _)
  exact {
    sound
    dag := more.dag
    copies := more.copies
    closed := fun ref timing here => (more.closed ref timing here).resolve_left List.not_mem_nil
    roots := by
      intro root member
      obtain ⟨_, here⟩ := exists_of_forall₂ recorded root member
      exact here
    outside := fun ref above => more.frame ref above }

end Collect
end AsapPlanner.Timing
