import AsapPlanner.Timing.Unshared

/-!
Writing an untimed sub-DAG with one option for every build. The option is always honored or left out, so
only a node that two consumers need at different timings stops a write, and nothing that can only run at
query time is below a build at ingestion time.
-/

namespace AsapPlanner.Timing
open Rust Traversal Ir Relation

/-! ### One option for every build -/

section Default
variable {m : Materialization} {input : Dag} {ref below : NodeRef} {consumer : ExecutionTiming}

theorem resolve_default (upstream : Bool) :
    (MaterializationAssignment.withDefault m).resolve input ref upstream =
      .ok (if m.timing == .ingestionTime && (upstream || isFilteredBuild (input.node ref)) then
        .notMaterialized else m) := by
  unfold MaterializationAssignment.resolve
  dsimp only [MaterializationAssignment.withDefault, MaterializationAssignment.get]
  exact (apply_ite Except.ok _ _ _).symm

/-- A default never fails to place a node, and a build it puts at ingestion time has nothing above it
that can only run at query time. -/
theorem placed_default (untimed : (input.node ref).timing = none) : ∃ timing materialization,
    placed (.withDefault m) input ref consumer = .ok (timing, materialization) ∧
      (isMaterializationPoint (input.node ref).operator = true → timing = .ingestionTime →
        m.timing = .ingestionTime ∧ upstreamForced (.withDefault m) input ref = false ∧
          isFilteredBuild (input.node ref) = false) := by
  unfold placed placedBy
  dsimp only
  rw [untimed]
  dsimp only
  split
  · exact ⟨_, _, rfl, fun _ early => nomatch early⟩
  · split
    · unfold placeOption
      rw [resolve_default]
      by_cases dropped : (m.timing == .ingestionTime && (upstreamForced (.withDefault m) input ref ||
          isFilteredBuild (input.node ref))) = true
      · rw [if_pos dropped]
        dsimp only
        split
        · rename_i plain
          refine ⟨_, _, rfl, fun point _ => ?_⟩
          simp [point] at plain
        · exact ⟨_, _, rfl, fun _ early => absurd early (by decide)⟩
      · rw [if_neg dropped]
        dsimp only
        split
        · rename_i plain
          refine ⟨_, _, rfl, fun point _ => ?_⟩
          simp [point] at plain
        · refine ⟨_, _, rfl, fun _ early => ⟨early, ?_⟩⟩
          rw [early] at dropped
          simpa using dropped
    · rename_i other
      refine ⟨_, _, rfl, fun point _ => ?_⟩
      simp [point] at other

/-- Where builds go to ingestion time by default, what a node reads is forced to query time only if
the node is. -/
theorem not_forced_child (early : m.timing = .ingestionTime) (untimed : (input.node ref).timing = none)
    (free : forced (.withDefault m) input ref = false) {child : NodeRef}
    (reads : child ∈ input.children ref) : forced (.withDefault m) input child = false := by
  rw [forced_eq] at free
  have upstream : upstreamForced (.withDefault m) input ref = false := by
    generalize upstreamForced (.withDefault m) input ref = upstream at free
    cases upstream with
    | false => rfl
    | true =>
      unfold forcedBy at free
      dsimp only at free
      rw [untimed] at free
      split at free
      · cases free
      split at free
      · cases free
      split at free
      · rename_i point
        have point : isMaterializationPoint (input.node ref).operator = true := by
          simpa [MaterializationAssignment.withDefault, MaterializationAssignment.get] using point
        unfold optionForces at free
        rw [resolve_default, early, point] at free
        simp [Materialization.timing] at free
      · simp at free
  by_contra isForced
  rw [Bool.not_eq_false] at isForced
  rw [upstreamForced, List.any_eq_false] at upstream
  exact upstream child reads isForced

theorem not_forced_below (early : m.timing = .ingestionTime)
    (untimed : ∀ other, input.Reaches ref other → (input.node other).timing = none)
    (free : forced (.withDefault m) input ref = false) (reached : input.Reaches ref below) :
    forced (.withDefault m) input below = false := by
  induction reached with
  | refl => exact free
  | tail path reads ih => exact not_forced_child early (untimed _ path) ih reads

theorem point_not_forced (early : m.timing = .ingestionTime) (untimed : (input.node ref).timing = none)
    (point : isMaterializationPoint (input.node ref).operator = true)
    (upstream : upstreamForced (.withDefault m) input ref = false)
    (plain : isFilteredBuild (input.node ref) = false) : forced (.withDefault m) input ref = false := by
  have notEvaluation : isEvaluation (input.node ref).operator = false := by
    unfold isMaterializationPoint at point
    unfold isEvaluation
    split at point <;> simp_all
  have option : optionForces (.withDefault m) input ref false = false := by
    unfold optionForces
    rw [resolve_default, plain, point, early]
    simp [early]
  rw [forced_eq, upstream]
  unfold forcedBy
  simp [untimed, notEvaluation, point, option]

end Default

/-! ### Writes -/

/-- A pass some writes left, each root's with nothing known to be forced. -/
inductive Reachable (assignment : MaterializationAssignment) (input : Dag) : Pass → Prop
  | start : Reachable assignment input (Pass.start input)
  | write {pass later : Pass} {ref timed : NodeRef} {consumer : ExecutionTiming}
      (before : Reachable assignment input pass)
      (run : Timing.write assignment input ref consumer pass = .ok (timed, later)) :
      Reachable assignment input later
  | clear {pass : Pass} (before : Reachable assignment input pass) :
      Reachable assignment input { pass with forced := Cache.empty }

/-- A node that a write from `root` adds to the pass reads `ref`, and places it at `timing`. -/
structure Needs (assignment : MaterializationAssignment) (input : Dag) (pass : Pass) (root reader ref : NodeRef)
    (timing : ExecutionTiming) : Prop where
  reached : input.Reaches root reader
  added : pass.timedNodeOf reader = none
  reads : ref ∈ input.children reader
  runs : ∃ consumer runsAt materialization materialization',
    placed assignment input reader consumer = .ok (runsAt, materialization) ∧
      placed assignment input ref runsAt = .ok (timing, materialization')

/-- One node is needed at two timings: the pass holds it at one, and the write's own consumer or a reader
it adds needs it at the other, or two readers it adds need it each at one. -/
def SharedConflict (assignment : MaterializationAssignment) (input : Dag) (pass : Pass) (root : NodeRef)
    (consumer : ExecutionTiming) (error : ExecutionDataStateError) : Prop :=
  ∃ ref first second, error = .conflictingTiming first second ∧ first.timing ≠ second.timing ∧
    ((∃ done, pass.timedNodeOf ref = some done ∧ (pass.dag.node done).timing = some first.timing ∧
        ((ref = root ∧ ∃ materialization,
            placed assignment input root consumer = .ok (second.timing, materialization)) ∨
          ∃ reader, Needs assignment input pass root reader ref second.timing)) ∨
      ∃ other reader, other ≠ reader ∧ Needs assignment input pass root other ref first.timing ∧
        Needs assignment input pass root reader ref second.timing)

/-- A pass within a write from `root`: the nodes being written have no timed node yet, and each node the
write has added below its root has a reader, added too or being written. -/
structure Traced (assignment : MaterializationAssignment) (input : Dag) (start : Pass) (root : NodeRef)
    (running : Cache NodeRef ExecutionTiming) (pass : Pass) : Prop where
  inv : Inv assignment input pass
  grown : Grown start pass
  open_ : ∀ reader runsAt, running reader = some runsAt → pass.timedNodeOf reader = none ∧
    input.Reaches root reader ∧
    ∃ consumer materialization, placed assignment input reader consumer = .ok (runsAt, materialization)
  asked : ∀ ref done timing, pass.timedNodeOf ref = some done → (pass.dag.node done).timing = some timing →
    start.timedNodeOf ref = none → ref ≠ root → ∃ reader, Needs assignment input start root reader ref timing ∧
      ((pass.timedNodeOf reader).isSome ∨ ∃ runsAt materialization, running reader = some runsAt ∧
        placed assignment input ref runsAt = .ok (timing, materialization))

section Writes
variable {m : Materialization} {assignment : MaterializationAssignment} {input : Dag} {pass later : Pass}
  {root ref : NodeRef} {consumer : ExecutionTiming} {error : ExecutionDataStateError}

theorem Reachable.inv (reachable : Reachable assignment input pass) : Inv assignment input pass := by
  induction reachable with
  | start => exact inv_start
  | write _ run ih => exact (write_ok _ ih run).1
  | clear _ ih =>
    exact ⟨ih.grown, Cache.sound_empty _, fun source timed recorded =>
      (ih.written source timed recorded).grow ⟨Dag.Extends.refl _, fun _ _ recorded => recorded⟩⟩

theorem reuse_error {done : NodeRef} {timing : ExecutionTiming}
    (run : reuse done timing pass = .error error) : ∃ first second,
      error = .conflictingTiming first second ∧ first.timing = (pass.dag.node done).timing.getD .queryTime ∧
        second.timing = timing ∧ first.timing ≠ second.timing := by
  unfold reuse at run
  rcases bind_error run with failed | ⟨_, _, read, run⟩
  · cases failed
  · cases read
    dsimp only at run
    split at run
    · rename_i differs
      cases run
      exact ⟨_, _, rfl, rfl, rfl, differs⟩
    · cases run

namespace Traced
variable {start decided : Pass} {running : Cache NodeRef ExecutionTiming} {timing : ExecutionTiming}
  {materialization : Materialization}

theorem outset (kept : Inv assignment input pass) : Traced assignment input pass root Cache.empty pass where
  inv := kept
  grown := .refl pass
  open_ := fun _ _ isOpen => by cases isOpen
  asked := fun _ _ _ recorded _ added _ => by cases added.symm.trans recorded

theorem needs (traced : Traced assignment input start root running pass) {reader : NodeRef}
    (isOpen : running reader = some consumer) (reads : ref ∈ input.children reader)
    (found : placed assignment input ref consumer = .ok (timing, materialization)) :
    Needs assignment input start root reader ref timing := by
  obtain ⟨unrecorded, reached, above, stored, runs⟩ := traced.open_ reader consumer isOpen
  refine ⟨reached, ?_, reads, above, consumer, stored, materialization, runs, found⟩
  cases held : start.timedNodeOf reader with
  | none => rfl
  | some done => cases unrecorded.symm.trans (traced.grown.kept reader done held)

theorem below_root (traced : Traced assignment input start root running pass) {reader : NodeRef}
    (isOpen : running reader = some consumer) (reads : ref ∈ input.children reader) : ref ≠ root := by
  have reached := (traced.open_ reader consumer isOpen).2.1
  exact Nat.ne_of_lt (Nat.lt_of_lt_of_le (input.child_lt reads) reached.le)

theorem decide (traced : Traced assignment input start root running pass)
    {result : ExecutionTiming × Materialization}
    (choice : place assignment input ref consumer pass = .ok (result, decided)) :
    Traced assignment input start root running decided := by
  obtain ⟨_, kept, sameDag, sameTable⟩ := place_ok traced.inv choice
  refine ⟨kept, ⟨sameDag ▸ traced.grown.dag, sameTable ▸ traced.grown.kept⟩, ?_, ?_⟩
  · rw [sameTable]
    exact traced.open_
  · rw [sameDag, sameTable]
    exact traced.asked

theorem enter (traced : Traced assignment input start root running pass) (closed : running ref = none)
    (absent : pass.timedNodeOf ref = none) (reached : input.Reaches root ref)
    (found : placed assignment input ref consumer = .ok (timing, materialization)) :
    Traced assignment input start root (running.insert ref timing) pass where
  inv := traced.inv
  grown := traced.grown
  open_ := by
    intro reader runsAt isOpen
    by_cases here : reader = ref
    · subst here
      rw [Cache.insert_self] at isOpen
      cases isOpen
      exact ⟨absent, reached, consumer, materialization, found⟩
    · rw [Cache.insert_ne here] at isOpen
      exact traced.open_ reader runsAt isOpen
  asked := by
    intro other done needed recorded at_ added notRoot
    obtain ⟨reader, needs, later | ⟨runsAt, stored, isOpen, placed⟩⟩ :=
      traced.asked other done needed recorded at_ added notRoot
    · exact ⟨reader, needs, .inl later⟩
    · refine ⟨reader, needs, .inr ⟨runsAt, stored, ?_, placed⟩⟩
      rw [Cache.insert_ne, isOpen]
      intro same
      subst same
      cases closed.symm.trans isOpen

theorem leave {timed : NodeRef} (traced : Traced assignment input start root (running.insert ref timing) pass)
    (kept : Inv assignment input later) (grown : Grown pass later)
    (recordedHere : later.timedNodeOf ref = some timed) (runsAt : (later.dag.node timed).timing = some timing)
    (others : ∀ other, other ≠ ref → later.timedNodeOf other = pass.timedNodeOf other)
    (closed : running ref = none)
    (asker : ref ≠ root → ∃ reader consumer materialization, running reader = some consumer ∧
      ref ∈ input.children reader ∧ placed assignment input ref consumer = .ok (timing, materialization)) :
    Traced assignment input start root running later := by
  have apart : ∀ {reader at_}, running reader = some at_ → reader ≠ ref := by
    intro reader at_ isOpen same
    rw [same, closed] at isOpen
    cases isOpen
  have still : ∀ {reader at_}, running reader = some at_ → running.insert ref timing reader = some at_ :=
    fun isOpen => (Cache.insert_ne (apart isOpen)).trans isOpen
  refine ⟨kept, traced.grown.trans grown, fun reader at_ isOpen => ?_, ?_⟩
  · obtain ⟨absent, rest⟩ := traced.open_ reader at_ (still isOpen)
    exact ⟨(others reader (apart isOpen)).trans absent, rest⟩
  · intro other done needed recorded at_ added notRoot
    by_cases here : other = ref
    · subst here
      obtain ⟨reader, consumer, stored, isOpen, reads, found⟩ := asker notRoot
      cases recordedHere.symm.trans recorded
      cases runsAt.symm.trans at_
      exact ⟨reader, traced.needs (still isOpen) reads found, .inr ⟨consumer, stored, isOpen, found⟩⟩
    · rw [others other here] at recorded
      rw [grown.dag.node (traced.inv.written other done recorded).inside] at at_
      obtain ⟨reader, needs, held⟩ := traced.asked other done needed recorded at_ added notRoot
      refine ⟨reader, needs, ?_⟩
      by_cases closing : reader = ref
      · rw [closing, recordedHere]
        exact .inl rfl
      · rw [others reader closing]
        rw [Cache.insert_ne closing] at held
        exact held

end Traced

/-- Who needs the node of a write: the consumer of the whole write, or a reader being written. -/
def Asker (input : Dag) (start : Pass) (root : NodeRef) (consumer : ExecutionTiming)
    (running : Cache NodeRef ExecutionTiming) (pass : Pass) (ref : NodeRef) (at_ : ExecutionTiming) : Prop :=
  (ref = root ∧ at_ = consumer ∧ pass.timedNodeOf = start.timedNodeOf) ∨
    ∃ reader, running reader = some at_ ∧ ref ∈ input.children reader

section Trace
variable {start decided : Pass} {running : Cache NodeRef ExecutionTiming} {at_ timing : ExecutionTiming}
  {materialization : Materialization}

theorem Asker.reached (asker : Asker input start root consumer running pass ref at_)
    (traced : Traced assignment input start root running pass) : input.Reaches root ref := by
  rcases asker with ⟨rfl, _⟩ | ⟨reader, isOpen, reads⟩
  · exact .refl
  · exact .tail (traced.open_ reader at_ isOpen).2.1 reads

theorem Traced.open_child (traced : Traced assignment input start root running decided)
    (above : ∀ reader runsAt, running reader = some runsAt → ref < reader)
    (absent : decided.timedNodeOf ref = none) (reached : input.Reaches root ref)
    (found : placed assignment input ref at_ = .ok (timing, materialization)) :
    Traced assignment input start root (running.insert ref timing) decided ∧
      ∀ child ∈ input.children ref,
        (∀ reader runsAt, running.insert ref timing reader = some runsAt → child < reader) ∧
        ∀ t, Asker input start root consumer (running.insert ref timing) t child timing := by
  have closed : running ref = none := by
    cases isOpen : running ref with
    | none => rfl
    | some runsAt => exact absurd (above ref runsAt isOpen) (Nat.lt_irrefl ref)
  refine ⟨traced.enter closed absent reached found, fun child reads => ⟨?_, fun _ =>
    .inr ⟨ref, Cache.insert_self .., reads⟩⟩⟩
  intro reader runsAt isOpen
  have below := input.child_lt reads
  by_cases here : reader = ref
  · exact here ▸ below
  · exact Nat.lt_trans below (above reader runsAt ((Cache.insert_ne here).symm.trans isOpen))

theorem write_traced (ref : NodeRef) {timed : NodeRef}
    (traced : Traced assignment input start root running pass)
    (above : ∀ reader runsAt, running reader = some runsAt → ref < reader)
    (asker : Asker input start root consumer running pass ref at_)
    (run : write assignment input ref at_ pass = .ok (timed, later)) :
    Traced assignment input start root running later := by
  induction ref using Nat.strongRecOn generalizing at_ timed running pass later with
  | ind ref ih =>
    obtain ⟨keptLater, grownLater, placedHere⟩ := write_ok ref traced.inv run
    rw [write] at run
    obtain ⟨⟨timing, materialization⟩, decided, choice, run⟩ := bind_ok run
    obtain ⟨found, _, sameDag, sameTable⟩ := place_ok traced.inv choice
    have decidedTraced := traced.decide choice
    obtain ⟨_, _, read, run⟩ := bind_ok run
    cases read
    cases recorded : decided.timedNodeOf ref with
    | some done =>
      rw [recorded] at run
      obtain ⟨_, rfl, _⟩ := reuse_ok run
      exact decidedTraced
    | none =>
      rw [recorded] at run
      obtain ⟨images, built, children, run⟩ := bind_ok run
      obtain ⟨entered, below⟩ := @Traced.open_child _ _ _ _ consumer _ _ _ _ _ _ decidedTraced above recorded
        (asker.reached traced) found
      have builtTraced : Traced assignment input start root (running.insert ref timing) built := by
        refine mapM_keeps (fun child _ image t t' here ran => ?_) entered children
        have reads := (Operator.mem_refs_walk _).mp child.2
        exact ih child.1 (input.child_lt reads) here (below child.1 reads).1 ((below child.1 reads).2 t) ran
      have absent : built.timedNodeOf ref = none :=
        (builtTraced.open_ ref timing (Cache.insert_self ..)).1
      obtain ⟨timing', materialization', found', runsAt⟩ := placedHere.timing
      cases found.symm.trans found'
      have others : ∀ other, other ≠ ref → later.timedNodeOf other = built.timedNodeOf other := by
        cases run
        exact fun other ne => Cache.insert_ne ne
      have grown : Grown built later := by
        refine ⟨?_, fun source timed held => ?_⟩
        · cases run
          exact Dag.alloc_extends _ _
        · rw [others source, held]
          intro same
          rw [same, absent] at held
          cases held
      refine builtTraced.leave keptLater grown placedHere.recorded runsAt others ?_ fun notRoot => ?_
      · cases isOpen : running ref with
        | none => rfl
        | some at_ => exact absurd (above ref at_ isOpen) (Nat.lt_irrefl ref)
      · rcases asker with ⟨isRoot, _⟩ | ⟨reader, isOpen, reads⟩
        · exact absurd isRoot notRoot
        · exact ⟨reader, at_, materialization, isOpen, reads, found⟩

theorem write_conflict (ref : NodeRef) (traced : Traced (.withDefault m) input start root running pass)
    (fromStart : Inv (.withDefault m) input start)
    (untimed : ∀ other, input.Reaches root other → (input.node other).timing = none)
    (above : ∀ reader runsAt, running reader = some runsAt → ref < reader)
    (asker : Asker input start root consumer running pass ref at_)
    (run : write (.withDefault m) input ref at_ pass = .error error) :
    SharedConflict (.withDefault m) input start root consumer error := by
  induction ref using Nat.strongRecOn generalizing at_ running pass with
  | ind ref ih =>
    obtain ⟨timing, materialization, found, _⟩ :=
      @placed_default m input ref at_ (untimed ref (asker.reached traced))
    rw [write] at run
    rcases bind_error run with failed | ⟨⟨timing', materialization'⟩, decided, choice, run⟩
    · cases found.symm.trans (place_error traced.inv failed)
    obtain ⟨found', _, sameDag, sameTable⟩ := place_ok traced.inv choice
    cases found.symm.trans found'
    have decidedTraced := traced.decide choice
    rcases bind_error run with failed | ⟨_, _, read, run⟩
    · cases failed
    cases read
    cases recorded : decided.timedNodeOf ref with
    | some done =>
      rw [recorded] at run
      obtain ⟨first, second, rfl, previous, needed, differs⟩ := reuse_error run
      obtain ⟨_, timing', _, runsAt, _⟩ := (decidedTraced.inv.written ref done recorded).placed
      rw [runsAt, Option.getD_some] at previous
      subst needed previous
      refine ⟨ref, first, second, rfl, differs, ?_⟩
      cases held : start.timedNodeOf ref with
      | some done' =>
        cases (decidedTraced.grown.kept ref done' held).symm.trans recorded
        rw [decidedTraced.grown.dag.node (fromStart.written ref done held).inside] at runsAt
        refine .inl ⟨done, rfl, runsAt, ?_⟩
        rcases asker with ⟨rfl, rfl, _⟩ | ⟨reader, isOpen, reads⟩
        · exact .inl ⟨rfl, materialization, found⟩
        · exact .inr ⟨reader, traced.needs isOpen reads found⟩
      | none =>
        rcases asker with ⟨rfl, _, same⟩ | ⟨reader, isOpen, reads⟩
        · rw [sameTable, same, held] at recorded
          cases recorded
        obtain ⟨other, needs, later⟩ := decidedTraced.asked ref done first.timing recorded runsAt held
          (traced.below_root isOpen reads)
        refine .inr ⟨other, reader, ?_, needs, traced.needs isOpen reads found⟩
        rintro rfl
        -- The reader being written has no timed node yet, and places its inputs by its own timing alone.
        rcases later with later | ⟨runs, stored, isOpen', placed⟩
        · rw [(decidedTraced.open_ other at_ isOpen).1] at later
          cases later
        · cases isOpen.symm.trans isOpen'
          exact differs (congrArg Prod.fst (Except.ok.inj (placed.symm.trans found)))
    | none =>
      rw [recorded] at run
      rcases bind_error run with failed | ⟨images, built, children, run⟩
      · obtain ⟨entered, below⟩ := @Traced.open_child _ _ _ _ consumer _ _ _ _ _ _ decidedTraced above recorded
          (asker.reached traced) found
        obtain ⟨child, _, t, here, failed⟩ := mapM_error (fun child _ image t t' here ran => by
          have reads := (Operator.mem_refs_walk _).mp child.2
          exact write_traced child.1 here (below child.1 reads).1 ((below child.1 reads).2 t) ran) entered failed
        have reads := (Operator.mem_refs_walk _).mp child.2
        exact ih child.1 (input.child_lt reads) here (below child.1 reads).1 ((below child.1 reads).2 t) failed
      · cases run

end Trace
theorem written_point (kept : Inv (.withDefault m) input later)
    (untimed : ∀ other, input.Reaches root other → (input.node other).timing = none) {point placed : NodeRef}
    (reached : input.Reaches root point)
    (isPoint : isMaterializationPoint (input.node point).operator = true)
    (recorded : later.timedNodeOf point = some placed)
    (early : (later.dag.node placed).timing = some .ingestionTime) :
    m.timing = .ingestionTime ∧ forced (.withDefault m) input point = false := by
  obtain ⟨consumer, timing, found, at_, _⟩ := (kept.written point placed recorded).placed
  obtain ⟨timing', materialization, found', honored⟩ :=
    @placed_default m input point consumer (untimed point reached)
  cases found.symm.trans found'
  obtain ⟨stored, upstream, plain⟩ := honored isPoint (Option.some.inj (at_.symm.trans early))
  exact ⟨stored, point_not_forced stored (untimed point reached) isPoint upstream plain⟩

/-- With one option for every build of an untimed sub-DAG, a write fails only where one node is needed at two
timings, and nothing at or below a build it puts at ingestion time can only run at query time. -/
theorem default_writes_agree (reachable : Reachable (.withDefault m) input pass)
    (untimed : ∀ ref, input.Reaches root ref → (input.node ref).timing = none) :
    (∀ error, write (.withDefault m) input root consumer pass = .error error →
      SharedConflict (.withDefault m) input pass root consumer error) ∧
    ∀ timed later, write (.withDefault m) input root consumer pass = .ok (timed, later) →
      ∀ point placed, input.Reaches root point →
        isMaterializationPoint (input.node point).operator = true →
        later.timedNodeOf point = some placed →
        (later.dag.node placed).timing = some .ingestionTime → ∀ below, input.Reaches point below →
          (forcesQueryTime (.withDefault m) input below Cache.empty).1 = false := by
  have kept := reachable.inv
  refine ⟨fun error run => write_conflict root (.outset kept) kept untimed (fun _ _ isOpen => by cases isOpen)
    (.inl ⟨rfl, rfl, rfl⟩) run, ?_⟩
  intro timed later run point placed reached isPoint recorded early below reachedBelow
  obtain ⟨stored, free⟩ := written_point (write_ok root kept run).1 untimed reached isPoint recorded early
  rw [(forcesQueryTime_returns _ _ below _ (Cache.sound_empty _)).1]
  exact not_forced_below stored (fun other path => untimed other (reached.trans path)) free reachedBelow

/-- Beside its samples a stored sum fails at the scan they share; alone, it runs over a scan that is free to
run at ingestion time. -/
theorem sumBesideSamples_agree :
    let stored := MaterializationAssignment.withDefault (.matAtIngestion .memory)
    (∃ error, write stored sumBesideSamples 3 .queryTime (Pass.start sumBesideSamples) = .error error ∧
      SharedConflict stored sumBesideSamples (Pass.start sumBesideSamples) 3 .queryTime error) ∧
    ∃ timed later, write stored sumBesideSamples 2 .queryTime (Pass.start sumBesideSamples) =
        .ok (timed, later) ∧
      (∃ sum, later.timedNodeOf 1 = some sum ∧ (later.dag.node sum).timing = some .ingestionTime) ∧
      (forcesQueryTime stored sumBesideSamples 0 Cache.empty).1 = false := by
  intro stored
  have all : ∀ ref ≤ 3, (sumBesideSamples.node ref).timing = none := by decide +kernel
  have untimed : ∀ root ≤ 3, ∀ ref, sumBesideSamples.Reaches root ref →
      (sumBesideSamples.node ref).timing = none :=
    fun root inside ref reached => all ref (Nat.le_trans reached.le inside)
  constructor
  · have fails : (write stored sumBesideSamples 3 .queryTime (Pass.start sumBesideSamples)).isOk = false := by
      decide +kernel
    cases run : write stored sumBesideSamples 3 .queryTime (Pass.start sumBesideSamples) with
    | error error => exact ⟨error, rfl, (default_writes_agree .start (untimed 3 (by decide))).1 error run⟩
    | ok result =>
      rw [run] at fails
      cases fails
  · have early : (match write stored sumBesideSamples 2 .queryTime (Pass.start sumBesideSamples) with
        | .ok (_, later) => (later.timedNodeOf 1).any fun sum =>
          (later.dag.node sum).timing == some .ingestionTime
        | .error _ => false) = true := by
      decide +kernel
    cases run : write stored sumBesideSamples 2 .queryTime (Pass.start sumBesideSamples) with
    | error error =>
      rw [run] at early
      cases early
    | ok result =>
      obtain ⟨timed, later⟩ := result
      rw [run] at early
      obtain ⟨sum, recorded, timing⟩ := (Option.any_eq_true _ _).mp early
      have free := (default_writes_agree .start (untimed 2 (by decide))).2 timed later run 1 sum
        (.single (by decide +kernel)) (by decide +kernel) recorded (eq_of_beq timing) 0
        (.single (by decide +kernel))
      exact ⟨timed, later, rfl, ⟨sum, recorded, eq_of_beq timing⟩, free⟩

end Writes
end AsapPlanner.Timing
