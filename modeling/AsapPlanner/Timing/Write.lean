import AsapPlanner.Timing.Placement
import AsapPlanner.Traversal.Run

/-!
Writing timings. The pass rebuilds every node it reaches with its placement, and keeps the timed node of
each, so that a node two consumers share is timed once.
-/

namespace AsapPlanner.Timing
open Rust Traversal Ir

/-! ### Data states -/

def primitive (dag : Dag) (node : OperatorNode) : DataPrimitive :=
  match node.operator with
  | .asap (.maintainPopulation ..) => .summaryState
  | .asap op =>
    if (dag.producedState op).isSome then .summaryState
    else if node.resultKind = .state then .summaryState else .raw
  | .nonASAP _ => if node.resultKind = .state then .summaryState else .raw

def dataState (dag : Dag) (ref : NodeRef) : Option ExecutionDataState :=
  (dag.node ref).timing.map fun timing => { timing, primitive := primitive dag (dag.node ref) }

/-! ### The pass -/

/-- The store with the timed nodes written so far, the timed node of each input node, and what is
known to be forced to query time. -/
structure Pass where
  dag : Dag
  timedNodeOf : Cache NodeRef NodeRef
  forced : Cache NodeRef Bool

abbrev PassM := StateT Pass (Except ExecutionDataStateError)

section Write
variable (assignment : MaterializationAssignment) (input : Dag)

def place (ref : NodeRef) (consumer : ExecutionTiming) :
    PassM (ExecutionTiming × Materialization) := fun pass =>
  let decided := placement assignment input ref consumer pass.forced
  decided.1.map fun placed => (placed, { pass with forced := decided.2 })

/-- The node already timed for another consumer, which must need the same timing. -/
def reuse (done : NodeRef) (timing : ExecutionTiming) : PassM NodeRef := do
  let dag := (← get).dag
  -- A recorded node is timed, so `.expect` finds its timing.
  let previous := (dag.node done).timing.getD .queryTime
  if previous ≠ timing then
    let primitive := ((dataState dag done).map (·.primitive)).getD .raw
    throw (.conflictingTiming { timing := previous, primitive } { timing, primitive })
  else pure done

/-- The node of `ref` over its timed children, with its placement. -/
def timedNode (dag : Dag) (ref : NodeRef) (operator : Operator NodeRef) (timing : ExecutionTiming)
    (materialization : Materialization) : OperatorNode :=
  { dag.withSchema operator (input.node ref).schema with
    guarantee := (input.node ref).guarantee
    timing := some timing
    materialization }

/-- Allocate the timed node of `ref` and record it. -/
def writeNode (ref : NodeRef) (operator : Operator NodeRef) (timing : ExecutionTiming)
    (materialization : Materialization) : PassM NodeRef := fun pass =>
  let written := pass.dag.alloc (timedNode input pass.dag ref operator timing materialization)
  .ok (written.1, { pass with
    dag := written.2
    timedNodeOf := pass.timedNodeOf.insert ref written.1 })

def write (ref : NodeRef) (consumer : ExecutionTiming) : PassM NodeRef := do
  let (timing, materialization) ← place assignment input ref consumer
  match (← get).timedNodeOf ref with
  | some done => reuse done timing
  | none =>
    -- The first error among the children is the one reported.
    let operator := (input.node ref).operator
    let timed ← operator.walk.refs.attach.mapM fun child => write child.1 timing
    writeNode input ref (operator.walk.build timed) timing materialization
termination_by ref
decreasing_by exact input.child_lt ((Operator.mem_refs_walk _).mp child.2)

end Write

/-! ### What a pass keeps -/

section Written
variable (assignment : MaterializationAssignment) (input : Dag)

/-- `timed` is the timed node of `source` and runs when a consumer at `consumer` needs it. -/
structure PlacedUnder (pass : Pass) (source : NodeRef) (consumer : ExecutionTiming)
    (timed : NodeRef) : Prop where
  recorded : pass.timedNodeOf source = some timed
  inside : timed < pass.dag.size
  timing : ∃ timing materialization,
    placed assignment input source consumer = .ok (timing, materialization) ∧
      (pass.dag.node timed).timing = some timing

/-- `timed` is `source` over its timed children, with the placement it got from the consumer that
reached it first. -/
structure Written (pass : Pass) (source timed : NodeRef) : Prop where
  inside : timed < pass.dag.size
  placed : ∃ consumer timing, placed assignment input source consumer =
      .ok (timing, (pass.dag.node timed).materialization) ∧
    (pass.dag.node timed).timing = some timing ∧
    ∃ image : NodeRef → NodeRef,
      (pass.dag.node timed).operator = (input.node source).operator.mapChildren image ∧
      ∀ child ∈ input.children source, PlacedUnder assignment input pass child timing (image child)

structure Inv (pass : Pass) : Prop where
  grown : pass.dag.Extends input
  sound : Cache.Sound (forced assignment input) pass.forced
  written : ∀ source timed, pass.timedNodeOf source = some timed →
    Written assignment input pass source timed

end Written

/-- Nothing written is lost. -/
structure Grown (before after : Pass) : Prop where
  dag : after.dag.Extends before.dag
  kept : ∀ source timed, before.timedNodeOf source = some timed →
    after.timedNodeOf source = some timed

/-- Only nodes below `bound` are newly recorded. -/
structure GrownBelow (bound : NodeRef) (before after : Pass) : Prop extends Grown before after where
  frame : ∀ source, bound ≤ source → after.timedNodeOf source = before.timedNodeOf source

theorem Grown.refl (pass : Pass) : Grown pass pass :=
  ⟨Dag.Extends.refl _, fun _ _ recorded => recorded⟩

theorem Grown.trans {a b c : Pass} (ab : Grown a b) (bc : Grown b c) : Grown a c :=
  ⟨ab.dag.trans bc.dag, fun source timed recorded => bc.kept source timed (ab.kept source timed recorded)⟩

namespace GrownBelow
variable {bound : NodeRef}

theorem refl (pass : Pass) : GrownBelow bound pass pass := ⟨Grown.refl pass, fun _ _ => rfl⟩

theorem trans {a b c : Pass} (ab : GrownBelow bound a b) (bc : GrownBelow bound b c) :
    GrownBelow bound a c :=
  ⟨ab.toGrown.trans bc.toGrown, fun source above =>
    (bc.frame source above).trans (ab.frame source above)⟩

theorem mono {bound' : NodeRef} {a b : Pass} (ab : GrownBelow bound a b) (le : bound ≤ bound') :
    GrownBelow bound' a b :=
  ⟨ab.toGrown, fun source above => ab.frame source (Nat.le_trans le above)⟩

end GrownBelow

section Run
variable {assignment : MaterializationAssignment} {input : Dag} {pass later : Pass}

theorem PlacedUnder.grow {source timed : NodeRef} {consumer : ExecutionTiming}
    (here : PlacedUnder assignment input pass source consumer timed) (grown : Grown pass later) :
    PlacedUnder assignment input later source consumer timed where
  recorded := grown.kept _ _ here.recorded
  inside := Nat.lt_of_lt_of_le here.inside grown.dag.size_le
  timing := by
    obtain ⟨timing, materialization, placed, at_⟩ := here.timing
    exact ⟨timing, materialization, placed, by rw [grown.dag.node here.inside, at_]⟩

theorem Written.grow {source timed : NodeRef} (here : Written assignment input pass source timed)
    (grown : Grown pass later) : Written assignment input later source timed where
  inside := Nat.lt_of_lt_of_le here.inside grown.dag.size_le
  placed := by
    obtain ⟨consumer, timing, placed, at_, image, operator, below⟩ := here.placed
    rw [grown.dag.node here.inside]
    exact ⟨consumer, timing, placed, at_, image, operator, fun child reads =>
      (below child reads).grow grown⟩

theorem place_ok {ref : NodeRef} {consumer : ExecutionTiming}
    {result : ExecutionTiming × Materialization} (kept : Inv assignment input pass)
    (run : place assignment input ref consumer pass = .ok (result, later)) :
    placed assignment input ref consumer = .ok result ∧ Inv assignment input later ∧
      later.dag = pass.dag ∧ later.timedNodeOf = pass.timedNodeOf := by
  obtain ⟨value, sound⟩ := placement_returns assignment input ref consumer pass.forced kept.sound
  unfold place at run
  dsimp only at run
  rw [value] at run
  cases found : placed assignment input ref consumer with
  | error e =>
    rw [found] at run
    cases run
  | ok placed =>
    rw [found] at run
    cases run
    refine ⟨rfl, ⟨kept.grown, sound, fun source timed recorded => ?_⟩, rfl, rfl⟩
    exact (kept.written source timed recorded).grow
      ⟨Dag.Extends.refl _, fun _ _ recorded => recorded⟩

theorem place_error {ref : NodeRef} {consumer : ExecutionTiming} {e : ExecutionDataStateError}
    (kept : Inv assignment input pass) (run : place assignment input ref consumer pass = .error e) :
    placed assignment input ref consumer = .error e := by
  obtain ⟨value, _⟩ := placement_returns assignment input ref consumer pass.forced kept.sound
  unfold place at run
  dsimp only at run
  rw [value] at run
  cases found : placed assignment input ref consumer with
  | error e' =>
    rw [found] at run
    cases run
    rfl
  | ok placed =>
    rw [found] at run
    cases run

theorem reuse_ok {done timed : NodeRef} {timing : ExecutionTiming}
    (run : reuse done timing pass = .ok (timed, later)) :
    timed = done ∧ later = pass ∧ (pass.dag.node done).timing.getD .queryTime = timing := by
  unfold reuse at run
  obtain ⟨seen, state, read, run⟩ := bind_ok run
  cases read
  dsimp only at run
  split at run
  · cases run
  · rename_i agrees
    obtain ⟨rfl, rfl⟩ := pure_ok run
    exact ⟨rfl, rfl, not_not.mp agrees⟩

theorem timedNode_earlier {ref : NodeRef} {operator : Operator NodeRef} {timing : ExecutionTiming}
    {materialization : Materialization} {image : NodeRef → NodeRef} (grown : pass.dag.Extends input)
    (rebuilt : operator = (input.node ref).operator.mapChildren image)
    (below : ∀ child ∈ input.children ref, image child < pass.dag.size) :
    ∀ held ∈ (timedNode input pass.dag ref operator timing materialization).refs,
      held < pass.dag.size := by
  intro held holds
  change held ∈ operator.children ++ operator.held.toList at holds
  rw [rebuilt, Operator.children_mapChildren, Operator.held_mapChildren] at holds
  rcases List.mem_append.mp holds with mapped | kept
  · obtain ⟨child, reads, same⟩ := List.mem_map.mp mapped
    rw [← same]
    exact below child reads
  · have inside := @Dag.refs_size input ref held (List.mem_append_right _ kept)
    exact Nat.lt_of_lt_of_le inside grown.size_le

theorem writeNode_ok {ref timed : NodeRef} {operator : Operator NodeRef}
    {consumer timing : ExecutionTiming} {materialization : Materialization}
    {image : NodeRef → NodeRef} (kept : Inv assignment input pass)
    (absent : pass.timedNodeOf ref = none)
    (placed : placed assignment input ref consumer = .ok (timing, materialization))
    (rebuilt : operator = (input.node ref).operator.mapChildren image)
    (below : ∀ child ∈ input.children ref,
      PlacedUnder assignment input pass child timing (image child))
    (run : writeNode input ref operator timing materialization pass = .ok (timed, later)) :
    Inv assignment input later ∧ GrownBelow (ref + 1) pass later ∧
      PlacedUnder assignment input later ref consumer timed := by
  let new := timedNode input pass.dag ref operator timing materialization
  have earlier : ∀ held ∈ new.refs, held < pass.dag.size :=
    timedNode_earlier kept.grown rebuilt fun child reads => (below child reads).inside
  have inside := Nat.lt_of_lt_of_eq (Nat.lt_succ_self _) (Dag.alloc_size earlier).symm
  have node := Dag.alloc_node earlier
  unfold writeNode at run
  dsimp only at run
  rw [Dag.alloc_ref] at run
  cases run
  have grown : GrownBelow (ref + 1) pass ⟨(pass.dag.alloc new).2,
      pass.timedNodeOf.insert ref pass.dag.size, pass.forced⟩ := {
    dag := Dag.alloc_extends _ _
    kept := by
      intro source timed recorded
      have other : source ≠ ref := by
        intro same
        rw [same, absent] at recorded
        cases recorded
      exact (if_neg other).trans recorded
    frame := by
      intro source above
      have other : source ≠ ref := Nat.ne_of_gt above
      exact if_neg other }
  have recorded : pass.timedNodeOf.insert ref pass.dag.size ref = some pass.dag.size := if_pos rfl
  refine ⟨⟨kept.grown.trans (Dag.alloc_extends _ _), kept.sound, ?_⟩, grown, recorded, inside, ?_⟩
  · intro source timed found
    by_cases here : source = ref
    · subst here
      cases recorded.symm.trans found
      refine ⟨inside, consumer, timing, ?_⟩
      rw [node]
      exact ⟨placed, rfl, image, rebuilt, fun child reads => (below child reads).grow grown.toGrown⟩
    · have before : pass.timedNodeOf source = some timed := (if_neg here).symm.trans found
      exact (kept.written source timed before).grow grown.toGrown
  · rw [node]
    exact ⟨timing, materialization, placed, rfl⟩

theorem images_recorded {refs images : List NodeRef} {timing : ExecutionTiming}
    (written : List.Forall₂ (fun (child : {child // child ∈ refs}) timed =>
      PlacedUnder assignment input pass child.1 timing timed) refs.attach images) :
    let image := fun child => (pass.timedNodeOf child).getD 0
    images = refs.map image ∧
      ∀ child ∈ refs, PlacedUnder assignment input pass child timing (image child) := by
  intro image
  have both : List.Forall₂ (fun child timed =>
      PlacedUnder assignment input pass child.1 timing (image child.1) ∧ image child.1 = timed)
      refs.attach images := by
    refine written.imp fun child timed here => ?_
    have same : image child.1 = timed := congrArg (Option.getD · 0) here.recorded
    exact ⟨same ▸ here, same⟩
  obtain ⟨each, mapped⟩ := (List.forall₂_and_left _ _).mp both
  have equal : List.Forall₂ Eq (refs.attach.map fun child => image child.1) images :=
    List.forall₂_map_left_iff.mpr mapped
  rw [List.forall₂_eq_eq_eq] at equal
  refine ⟨?_, fun child member => each ⟨child, member⟩ (List.mem_attach _ _)⟩
  exact equal.symm.trans List.attach_map_val

theorem write_ok (ref : NodeRef) {consumer : ExecutionTiming} {timed : NodeRef}
    (kept : Inv assignment input pass)
    (run : write assignment input ref consumer pass = .ok (timed, later)) :
    Inv assignment input later ∧ GrownBelow (ref + 1) pass later ∧
      PlacedUnder assignment input later ref consumer timed := by
  induction ref using Nat.strongRecOn generalizing consumer timed pass later with
  | ind ref ih =>
    rw [write] at run
    obtain ⟨⟨timing, materialization⟩, decided, choice, run⟩ := bind_ok run
    obtain ⟨found, kept', sameDag, sameTable⟩ := place_ok kept choice
    obtain ⟨seen, state, read, run⟩ := bind_ok run
    cases read
    have start : GrownBelow (ref + 1) pass decided :=
      ⟨⟨sameDag ▸ Dag.Extends.refl _, fun _ _ recorded => by rw [sameTable, recorded]⟩,
        fun _ _ => by rw [sameTable]⟩
    cases recorded : decided.timedNodeOf ref with
    | some done =>
      rw [recorded] at run
      obtain ⟨rfl, rfl, agrees⟩ := reuse_ok run
      have written := kept'.written ref timed recorded
      obtain ⟨_, previous, _, at_, _⟩ := written.placed
      rw [at_, Option.getD_some] at agrees
      rw [agrees] at at_
      exact ⟨kept', start, recorded, written.inside, timing, materialization, found, at_⟩
    | none =>
      rw [recorded] at run
      obtain ⟨images, built, children, run⟩ := bind_ok run
      have each : ∀ child ∈ (input.node ref).operator.walk.refs.attach, ∀ timed t t',
          Inv assignment input t → write assignment input child.1 timing t = .ok (timed, t') →
          Inv assignment input t' ∧ GrownBelow ref t t' ∧
            PlacedUnder assignment input t' child.1 timing timed := by
        intro child _ timed t t' keptHere here
        have below := input.child_lt ((Operator.mem_refs_walk _).mp child.2)
        obtain ⟨kept'', grown, placed⟩ := ih child.1 below keptHere here
        exact ⟨kept'', grown.mono below, placed⟩
      have stable : ∀ (child : {child // child ∈ (input.node ref).operator.walk.refs}) timed t t',
          PlacedUnder assignment input t child.1 timing timed → GrownBelow ref t t' →
          PlacedUnder assignment input t' child.1 timing timed :=
        fun _ _ _ _ here grown => here.grow grown.toGrown
      obtain ⟨keptBuilt, grown, written⟩ :=
        mapM_ok GrownBelow.refl (fun _ _ _ => GrownBelow.trans) stable each kept' children
      obtain ⟨images, recordedChildren⟩ := images_recorded written
      have rebuilt := congrArg (input.node ref).operator.walk.build images
      have below : ∀ child ∈ input.children ref, PlacedUnder assignment input built child timing
          ((built.timedNodeOf child).getD 0) :=
        fun child reads => recordedChildren child ((Operator.mem_refs_walk _).mpr reads)
      have absent : built.timedNodeOf ref = none := (grown.frame ref (Nat.le_refl ref)).trans recorded
      obtain ⟨keptLater, grownLater, placed⟩ :=
        writeNode_ok keptBuilt absent found rebuilt below run
      exact ⟨keptLater, (start.trans (grown.mono (Nat.le_succ ref))).trans grownLater, placed⟩

end Run
end AsapPlanner.Timing
