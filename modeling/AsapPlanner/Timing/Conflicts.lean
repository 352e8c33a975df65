import AsapPlanner.Timing.Apply

/-!
When timing a store meets no conflict: when one timing can be given to every node so that each consumer
places its inputs at theirs.
-/

namespace AsapPlanner.Timing
open Rust Traversal Ir

def Unconflicted (e : ExecutionDataStateError) : Prop :=
  ∀ first second, e ≠ .conflictingTiming first second

section Labels
variable (assignment : MaterializationAssignment) (input : Dag)

/-- At most one timing for each node, and for the inputs of a labelled node the timings it places them
at. -/
structure Labels (labels : NodeRef → ExecutionTiming → Prop) : Prop where
  single : ∀ {ref timing timing'}, labels ref timing → labels ref timing' → timing = timing'
  below : ∀ {ref timing}, labels ref timing →
    ∀ child ∈ input.children ref, labels child (timingOf assignment input child timing)

/-- Every node timed so far runs when its label says. -/
def Labelled (labels : NodeRef → ExecutionTiming → Prop) (pass : Pass) : Prop :=
  ∀ source timed, pass.timedNodeOf source = some timed →
    ∃ timing, labels source timing ∧ (pass.dag.node timed).timing = some timing

end Labels

section Run
variable {assignment : MaterializationAssignment} {input : Dag} {pass later : Pass}
  {labels : NodeRef → ExecutionTiming → Prop}

theorem resolve_unconflicted {ref : NodeRef} {upstream : Bool} {e : ExecutionDataStateError}
    (failed : assignment.resolve input ref upstream = .error e) : Unconflicted e := by
  intro first second same
  subst same
  unfold MaterializationAssignment.resolve at failed
  dsimp only at failed
  repeat' split at failed
  all_goals cases failed

theorem placed_unconflicted {ref : NodeRef} {consumer : ExecutionTiming} {e : ExecutionDataStateError}
    (failed : placed assignment input ref consumer = .error e) : Unconflicted e := by
  unfold placed placedBy keepFixed placeEvaluation placeOption at failed
  dsimp only at failed
  repeat' split at failed
  all_goals cases failed
  all_goals first
    | exact resolve_unconflicted ‹_›
    | exact fun _ _ same => by cases same

theorem timingOf_placed {ref : NodeRef} {consumer timing : ExecutionTiming}
    {materialization : Materialization}
    (found : placed assignment input ref consumer = .ok (timing, materialization)) :
    timingOf assignment input ref consumer = timing := by
  unfold timingOf
  rw [found]

theorem Labelled.same (marked : Labelled labels pass) {later : Pass} (dag : later.dag = pass.dag)
    (table : later.timedNodeOf = pass.timedNodeOf) : Labelled labels later := by
  intro source timed recorded
  rw [dag]
  exact marked source timed (table ▸ recorded)

theorem get_bind {σ ε β : Type} (next : σ → StateT σ (Except ε) β) (s : σ) :
    ((get : StateT σ (Except ε) σ) >>= next) s = next s s := rfl

theorem reuse_labelled {ref done : NodeRef} {timing : ExecutionTiming} (rules : Labels assignment input labels)
    (marked : Labelled labels pass) (recorded : pass.timedNodeOf ref = some done)
    (here : labels ref timing) : reuse done timing pass = .ok (done, pass) := by
  obtain ⟨previous, before, at_⟩ := marked ref done recorded
  have agrees : (pass.dag.node done).timing.getD .queryTime = timing := by
    rw [at_]
    exact rules.single before here
  unfold reuse
  rw [get_bind]
  dsimp only
  rw [if_neg (not_not.mpr agrees)]
  rfl

theorem writeNode_labelled {ref timed : NodeRef} {operator : Operator NodeRef} {timing : ExecutionTiming}
    {materialization : Materialization} {image : NodeRef → NodeRef} (kept : Inv assignment input pass)
    (marked : Labelled labels pass) (here : labels ref timing)
    (rebuilt : operator = (input.node ref).operator.mapChildren image)
    (below : ∀ child ∈ input.children ref, image child < pass.dag.size)
    (run : writeNode input ref operator timing materialization pass = .ok (timed, later)) :
    Labelled labels later := by
  have earlier := @timedNode_earlier input pass ref operator timing materialization image kept.grown
    rebuilt below
  unfold writeNode at run
  dsimp only at run
  rw [Dag.alloc_ref] at run
  cases run
  intro source timed recorded
  by_cases same : source = ref
  · subst same
    cases (if_pos rfl).symm.trans recorded
    refine ⟨timing, here, ?_⟩
    rw [Dag.alloc_node earlier]
    rfl
  · have before : pass.timedNodeOf source = some timed := (if_neg same).symm.trans recorded
    obtain ⟨label, labelled, at_⟩ := marked source timed before
    refine ⟨label, labelled, ?_⟩
    rw [(Dag.alloc_extends _ _).node (kept.written source timed before).inside, at_]

theorem write_labelled (rules : Labels assignment input labels) {ref : NodeRef} {consumer : ExecutionTiming}
    (kept : Inv assignment input pass) (marked : Labelled labels pass)
    (here : labels ref (timingOf assignment input ref consumer)) :
    (∀ e, write assignment input ref consumer pass = .error e → Unconflicted e) ∧
      ∀ timed later, write assignment input ref consumer pass = .ok (timed, later) →
        Labelled labels later := by
  induction ref using Nat.strongRecOn generalizing consumer pass with
  | ind ref ih =>
    let holds : Pass → Prop := fun pass => Inv assignment input pass ∧ Labelled labels pass
    have each : ∀ {timing : ExecutionTiming}, labels ref timing →
        ∀ child ∈ (input.node ref).operator.walk.refs.attach, ∀ timed t t', holds t →
          write assignment input child.1 timing t = .ok (timed, t') →
          holds t' ∧ Grown t t' ∧ PlacedUnder assignment input t' child.1 timing timed := by
      intro timing label child _ timed t t' holdsHere run
      have reads : child.1 ∈ input.children ref := (Operator.mem_refs_walk _).mp child.2
      obtain ⟨keptAfter, grown, placed⟩ := write_ok child.1 holdsHere.1 run
      exact ⟨⟨keptAfter, (ih child.1 (input.child_lt reads) holdsHere.1 holdsHere.2
        (rules.below label child.1 reads)).2 timed t' run⟩, grown.toGrown, placed⟩
    constructor
    · intro e run
      rw [write] at run
      rcases bind_error run with failed | ⟨⟨timing, materialization⟩, decided, choice, run⟩
      · exact placed_unconflicted (place_error kept failed)
      obtain ⟨found, kept', sameDag, sameTable⟩ := place_ok kept choice
      have marked' := marked.same sameDag sameTable
      have label : labels ref timing := timingOf_placed found ▸ here
      dsimp only at run
      rw [get_bind] at run
      cases recorded : decided.timedNodeOf ref with
      | some done =>
        rw [recorded] at run
        dsimp only at run
        rw [reuse_labelled rules marked' recorded label] at run
        cases run
      | none =>
        rw [recorded] at run
        dsimp only at run
        rcases bind_error run with failed | ⟨images, built, children, run⟩
        · obtain ⟨child, member, t, holdsHere, failed⟩ :=
            mapM_error (fun child member timed t t' holdsHere run =>
              (each label child member timed t t' holdsHere run).1) ⟨kept', marked'⟩ failed
          have reads : child.1 ∈ input.children ref := (Operator.mem_refs_walk _).mp child.2
          exact (ih child.1 (input.child_lt reads) holdsHere.1 holdsHere.2
            (rules.below label child.1 reads)).1 e failed
        · cases run
    · intro timed later run
      rw [write] at run
      obtain ⟨⟨timing, materialization⟩, decided, choice, run⟩ := bind_ok run
      obtain ⟨found, kept', sameDag, sameTable⟩ := place_ok kept choice
      have marked' := marked.same sameDag sameTable
      have label : labels ref timing := timingOf_placed found ▸ here
      dsimp only at run
      rw [get_bind] at run
      cases recorded : decided.timedNodeOf ref with
      | some done =>
        rw [recorded] at run
        dsimp only at run
        rw [reuse_labelled rules marked' recorded label] at run
        cases run
        exact marked'
      | none =>
        rw [recorded] at run
        dsimp only at run
        obtain ⟨images, built, children, run⟩ := bind_ok run
        have stable : ∀ (child : {child // child ∈ (input.node ref).operator.walk.refs}) timed t t',
            PlacedUnder assignment input t child.1 timing timed → Grown t t' →
            PlacedUnder assignment input t' child.1 timing timed :=
          fun _ _ _ _ here grown => here.grow grown
        obtain ⟨holdsBuilt, _, written⟩ :=
          mapM_ok Grown.refl (fun _ _ _ => Grown.trans) stable (each label) ⟨kept', marked'⟩ children
        obtain ⟨images, recordedChildren⟩ := images_recorded written
        have rebuilt := congrArg (input.node ref).operator.walk.build images
        exact writeNode_labelled holdsBuilt.1 holdsBuilt.2 label rebuilt
          (fun child reads => (recordedChildren child ((Operator.mem_refs_walk _).mpr reads)).inside) run

end Run

/-! ### Checks -/

/-- A check that fails in another way, if at all. -/
def Clear {α : Type} (check : Except ExecutionDataStateError α) : Prop :=
  ∀ e, check = .error e → Unconflicted e

namespace Clear
variable {α β : Type}

theorem ok (a : α) : Clear (.ok a) := by
  intro e failed
  cases failed

theorem bind {check : Except ExecutionDataStateError α} {next : α → Except ExecutionDataStateError β}
    (first : Clear check) (second : ∀ a, Clear (next a)) : Clear (check >>= next) := by
  intro e failed
  cases check with
  | error _ =>
    cases failed
    exact first e rfl
  | ok a => exact second a e failed

theorem forM {f : β → Check} {items : List β} (each : ∀ item ∈ items, Clear (f item)) :
    Clear (items.forM f) := by
  induction items with
  | nil => exact ok PUnit.unit
  | cons item rest ih =>
    exact bind (each item List.mem_cons_self) fun _ => ih fun other member =>
      each other (List.mem_cons_of_mem _ member)

end Clear

section Checks
variable (text : LeafText) (dag : Dag)

theorem clear_columns :
    (∀ schema, Clear (isExactAccumulatorState text schema)) ∧
      ∀ accepts fields, Clear (checkFields text accepts fields) := by
  constructor
  · intro schema e failed
    unfold isExactAccumulatorState at failed
    split at failed <;> cases failed
    exact fun _ _ same => by cases same
  · intro accepts fields e failed
    unfold checkFields at failed
    split at failed <;> cases failed
    exact fun _ _ same => by cases same

theorem clear_buildInput (edge : String) (child : NodeRef) (timing : ExecutionTiming) :
    Clear (validateBuildInput text dag edge child timing) := by
  have timed : Clear (validateBuildTiming dag edge child timing) := by
    intro e failed
    unfold validateBuildTiming at failed
    dsimp only at failed
    repeat' split at failed
    all_goals cases failed
    all_goals exact fun _ _ same => by cases same
  unfold validateBuildInput
  split
  · exact Clear.bind ((clear_columns text).1 _) fun _ => timed
  · exact timed

theorem clear_asap (node : NodeRef) (op : ASAPOp NodeRef) (timing : ExecutionTiming) :
    Clear (validateAsap text dag node op timing) := by
  cases op with
  | summaryAgg child | summaryTumblingWindowChain child => exact clear_buildInput text dag _ child timing
  | summaryMerge children newest groupBy =>
    refine Clear.forM fun child _ e failed => ?_
    unfold validateMergeInput at failed
    dsimp only at failed
    split at failed <;> cases failed
    exact fun _ _ same => by cases same
  | _ =>
    intro e failed
    unfold validateAsap at failed
    dsimp only at failed
    try unfold validateEstimate at failed
    try unfold validateFinalize at failed
    try unfold validateMaintain at failed
    try unfold validateEvaluate at failed
    try dsimp only at failed
    repeat' split at failed
    all_goals cases failed
    all_goals exact fun _ _ same => by cases same

theorem clear_nonAsap (node : NodeRef) (op : NonASAPOp NodeRef) (timing : ExecutionTiming) :
    Clear (validateNonAsap text dag node op timing) := by
  have columns := (clear_columns text).2
  refine Clear.bind (Clear.forM fun child _ e failed => ?_) fun _ => ?_
  · unfold validateInput at failed
    dsimp only at failed
    split at failed <;> cases failed
    exact fun _ _ same => by cases same
  · cases op with
    | filter pred child =>
      unfold validateColumns
      dsimp only
      split
      · exact Clear.ok _
      · exact columns _ _
    | project | sort | limit | aggregate => exact columns _ _
    | binaryOp operator returnBool lhs rhs =>
      intro e failed
      unfold validateColumns validateBinary at failed
      dsimp only at failed
      repeat' split at failed
      all_goals cases failed
      all_goals exact fun _ _ same => by cases same
    | _ => exact Clear.forM fun child _ => columns _ _

theorem clear_node (ref : NodeRef) : Clear (validateNode text dag ref) := by
  unfold validateNode
  dsimp only
  split
  · exact clear_asap text dag ref _ _
  · exact clear_nonAsap text dag ref _ _

theorem lift_error {σ ε α : Type} {m : Except ε α} {e : ε} {s : σ}
    (failed : (StateT.lift m : StateT σ (Except ε) α) s = .error e) : m = .error e := by
  cases m with
  | error _ =>
    cases failed
    rfl
  | ok _ => cases failed

theorem validate_unconflicted {ref : NodeRef} {seen : Cache NodeRef Unit} {e : ExecutionDataStateError}
    (failed : validate text dag ref seen = .error e) : Unconflicted e := by
  induction ref using Nat.strongRecOn generalizing seen with
  | ind ref ih =>
    rw [validate, get_bind] at failed
    split at failed
    · cases failed
    rcases bind_error failed with impossible | ⟨_, marked, _, failed⟩
    · cases impossible
    rcases bind_error failed with here | ⟨_, checked, _, failed⟩
    · exact clear_node text dag ref e (lift_error here)
    rcases bind_error failed with below | ⟨_, _, _, failed⟩
    · obtain ⟨child, _, t, _, failed⟩ :=
        @mapM_error _ _ _ _ (fun _ => True) _ _ _ _ (fun _ _ _ _ _ _ _ => trivial) trivial below
      exact ih child.1 (dag.child_lt child.2) failed
    · cases failed

theorem checkRoot_unconflicted {timed : NodeRef} {e : ExecutionDataStateError}
    (failed : checkRoot text dag timed = .error e) : Unconflicted e := by
  unfold checkRoot at failed
  dsimp only at failed
  split at failed
  · cases failed
    exact fun _ _ same => by cases same
  · cases checks : validate text dag timed Cache.empty with
    | error _ =>
      rw [checks] at failed
      cases failed
      exact validate_unconflicted text dag checks
    | ok _ =>
      rw [checks] at failed
      cases failed

end Checks

/-! ### Timing the roots -/

section Roots
variable {text : LeafText} {assignment : MaterializationAssignment} {input : Dag} {pass later : Pass}
  {labels : NodeRef → ExecutionTiming → Prop}

theorem Inv.clear (kept : Inv assignment input pass) :
    Inv assignment input { pass with forced := Cache.empty } where
  grown := kept.grown
  sound := Cache.sound_empty _
  written source timed recorded := (kept.written source timed recorded).grow
    ⟨Dag.Extends.refl _, fun _ _ recorded => recorded⟩

theorem apply_labelled (rules : Labels assignment input labels) {root : NodeRef}
    (kept : Inv assignment input pass) (marked : Labelled labels pass)
    (here : labels root (timingOf assignment input root .queryTime)) :
    (∀ e, applyMaterializationTimings text assignment input root pass = .error e → Unconflicted e) ∧
      ∀ timed later, applyMaterializationTimings text assignment input root pass = .ok (timed, later) →
        Labelled labels later := by
  have written := write_labelled rules kept.clear (marked.same rfl rfl) here
  constructor
  · intro e failed
    unfold applyMaterializationTimings at failed
    rcases bind_error failed with impossible | ⟨_, cleared, clear, failed⟩
    · cases impossible
    cases clear
    rcases bind_error failed with here | ⟨timed, after, _, failed⟩
    · exact written.1 e here
    rw [get_bind] at failed
    rcases bind_error failed with check | ⟨_, _, _, failed⟩
    · exact checkRoot_unconflicted text _ (lift_error check)
    · cases failed
  · intro timed later run
    unfold applyMaterializationTimings at run
    obtain ⟨_, cleared, clear, run⟩ := bind_ok run
    cases clear
    obtain ⟨made, after, writes, run⟩ := bind_ok run
    rw [get_bind] at run
    obtain ⟨_, state, check, run⟩ := bind_ok run
    obtain ⟨_, rfl⟩ := lift_ok check
    obtain ⟨_, rfl⟩ := pure_ok run
    exact written.2 made after writes

theorem applyToRoots_unconflicted (rules : Labels assignment input labels) {roots : List NodeRef}
    (here : ∀ root ∈ roots, labels root (timingOf assignment input root .queryTime))
    {e : ExecutionDataStateError}
    (failed : applyMaterializationTimingsToRoots text assignment input (roots.map .operator) = .error e) :
    Unconflicted e := by
  let holds : Pass → Prop := fun pass => Inv assignment input pass ∧ Labelled labels pass
  have start : holds (Pass.start input) := by
    refine ⟨inv_start, fun source timed recorded => ?_⟩
    cases recorded
  have kept : ∀ root ∈ roots.map QueryRoot.operator, ∀ timed t t', holds t →
      applyToRoot text assignment input root t = .ok (timed, t') → holds t' := by
    intro root member timed t t' holdsHere run
    obtain ⟨ref, listed, rfl⟩ := List.mem_map.mp member
    unfold applyToRoot at run
    obtain ⟨made, after, applied, run⟩ := bind_ok run
    obtain ⟨_, rfl⟩ := pure_ok run
    exact ⟨(apply_ok holdsHere.1 applied).1,
      (apply_labelled rules holdsHere.1 holdsHere.2 (here ref listed)).2 made _ applied⟩
  obtain ⟨root, member, t, holdsHere, failed⟩ := mapM_error kept start failed
  obtain ⟨ref, listed, rfl⟩ := List.mem_map.mp member
  unfold applyToRoot at failed
  rcases bind_error failed with failed | ⟨_, _, _, failed⟩
  · exact (apply_labelled rules holdsHere.1 holdsHere.2 (here ref listed)).1 e failed
  · cases failed

end Roots
end AsapPlanner.Timing
