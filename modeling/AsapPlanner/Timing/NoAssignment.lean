import AsapPlanner.Timing.Live

/-!
Whether an explicit `NotMaterialized` on a node that is not a materialization point changes anything.
-/

namespace AsapPlanner.Timing
open Rust Traversal Ir

/-! ### The entry -/

/-- An untimed node that is not a materialization point and has no explicit assignment. -/
structure Plain (assignment : MaterializationAssignment) (input : Dag) (node : NodeRef) : Prop where
  untimed : (input.node node).timing = none
  notPoint : isMaterializationPoint (input.node node).operator = false
  unassigned : assignment.get node = none

/-- The assignment extended by `NotMaterialized` on `node`. -/
abbrev MaterializationAssignment.notStored (assignment : MaterializationAssignment) (node : NodeRef) :
    MaterializationAssignment :=
  assignment.set node .notMaterialized

section Entry
variable {assignment : MaterializationAssignment} {input : Dag} {node ref : NodeRef}
  {consumer timing : ExecutionTiming} {materialization : Materialization}

theorem get_set_other {m : Materialization} (other : ref ≠ node) :
    (assignment.set node m).get ref = assignment.get ref := if_neg other

theorem get_set_same {m : Materialization} : (assignment.set node m).get node = some m := if_pos rfl

theorem resolve_other {m : Materialization} {upstream : Bool} (other : ref ≠ node) :
    (assignment.set node m).resolve input ref upstream = assignment.resolve input ref upstream := by
  unfold MaterializationAssignment.resolve
  rw [get_set_other other]
  rfl

theorem resolve_notStored {upstream : Bool} :
    (assignment.notStored node).resolve input node upstream = .ok .notMaterialized := by
  unfold MaterializationAssignment.resolve
  rw [get_set_same]
  rfl

theorem placedBy_other {m : Materialization} {upstream : Bool} (other : ref ≠ node) :
    placedBy (assignment.set node m) input ref consumer upstream =
      placedBy assignment input ref consumer upstream := by
  unfold placedBy keepFixed placeEvaluation placeOption
  rw [get_set_other other, resolve_other other]

theorem forcedBy_other {m : Materialization} {upstream : Bool} (other : ref ≠ node) :
    forcedBy (assignment.set node m) input ref upstream = forcedBy assignment input ref upstream := by
  unfold forcedBy optionForces
  rw [get_set_other other, resolve_other other]

theorem placedBy_plain (plain : Plain assignment input node) {up up' : Bool} :
    placedBy (assignment.notStored node) input node consumer up =
      placedBy assignment input node consumer up' := by
  unfold placedBy placeEvaluation placeOption
  dsimp only
  rw [plain.untimed, plain.notPoint, plain.unassigned, get_set_same, resolve_notStored]
  rfl

theorem forcedBy_notStored (plain : Plain assignment input node) {upstream : Bool} :
    forcedBy (assignment.notStored node) input node upstream =
      (isEvaluation (input.node node).operator || upstream) := by
  unfold forcedBy optionForces
  dsimp only
  rw [plain.untimed, plain.notPoint, get_set_same, resolve_notStored]
  cases isEvaluation (input.node node).operator <;> rfl

theorem forcedBy_plain (plain : Plain assignment input node) {upstream : Bool} :
    forcedBy assignment input node upstream =
      (isEvaluation (input.node node).operator || (isMisaligned input node || upstream)) := by
  unfold forcedBy
  dsimp only
  rw [plain.untimed, plain.notPoint, plain.unassigned]
  cases isEvaluation (input.node node).operator <;> rfl

end Entry

/-! ### Nodes that decide by what is upstream -/

/-- The option a node is given, explicitly or by default. -/
def MaterializationAssignment.option (assignment : MaterializationAssignment) (ref : NodeRef) :
    Materialization :=
  (assignment.get ref).getD assignment.unassigned

/-- Whether a node's placement depends on what is upstream: its timing is fixed at ingestion time, or it
is untimed and its option stores it there; and it is no filtered build and no evaluation. -/
def readsUpstream (assignment : MaterializationAssignment) (input : Dag) (ref : NodeRef) : Bool :=
  let node := input.node ref
  !isFilteredBuild node && match node.timing with
    | some timing => timing == .ingestionTime
    | none => !isEvaluation node.operator
      && (isMaterializationPoint node.operator || (assignment.get ref).isSome)
      && (assignment.option ref).timing == .ingestionTime

section Upstream
variable {assignment : MaterializationAssignment} {input : Dag} {node ref : NodeRef}
  {consumer timing : ExecutionTiming} {materialization : Materialization}

theorem readsUpstream_other {m : Materialization} (other : ref ≠ node) :
    readsUpstream (assignment.set node m) input ref = readsUpstream assignment input ref := by
  unfold readsUpstream MaterializationAssignment.option
  rw [get_set_other other]
  rfl

theorem readsUpstream_plain (plain : Plain assignment input node) :
    readsUpstream assignment input node = false := by
  unfold readsUpstream
  dsimp only
  rw [plain.untimed, plain.unassigned, plain.notPoint]
  simp

theorem resolve_settled (settled : isFilteredBuild (input.node ref) = true ∨
    (assignment.option ref).timing = .queryTime) (up up' : Bool) :
    assignment.resolve input ref up = assignment.resolve input ref up' := by
  unfold MaterializationAssignment.option at settled
  unfold MaterializationAssignment.resolve
  dsimp only
  cases assigned : assignment.get ref <;> rw [assigned] at settled <;>
    rcases settled with filtered | late <;> simp_all

theorem resolve_late (stored : (assignment.option ref).timing = .ingestionTime)
    (found : assignment.resolve input ref true = .ok materialization) :
    materialization = .notMaterialized ∧ assignment.get ref = none := by
  unfold MaterializationAssignment.option at stored
  unfold MaterializationAssignment.resolve at found
  dsimp only at found
  cases assigned : assignment.get ref with
  | some m =>
    rw [assigned] at stored found
    simp only [Option.getD_some] at stored
    simp only [stored, BEq.rfl, Bool.true_and] at found
    split at found <;> cases found
  | none =>
    rw [assigned] at stored found
    simp only [Option.getD_none] at stored
    simp [stored] at found
    exact ⟨found.symm, rfl⟩

theorem resolve_early (unfiltered : isFilteredBuild (input.node ref) = false) :
    assignment.resolve input ref false = .ok (assignment.option ref) := by
  unfold MaterializationAssignment.resolve MaterializationAssignment.option
  cases assigned : assignment.get ref <;> simp [unfiltered]

theorem placedBy_indifferent (indifferent : readsUpstream assignment input ref = false)
    (up up' : Bool) : placedBy assignment input ref consumer up =
      placedBy assignment input ref consumer up' := by
  unfold readsUpstream at indifferent
  unfold placedBy
  dsimp only at *
  cases fixed : (input.node ref).timing with
  | some at_ =>
    rw [fixed] at indifferent
    cases at_ with
    | queryTime => rfl
    | ingestionTime =>
      have filtered : isFilteredBuild (input.node ref) = true := by simpa using indifferent
      rw [filtered]
      rfl
  | none =>
    rw [fixed] at indifferent
    dsimp only
    split
    · rfl
    split
    · rename_i other chosen
      rw [Bool.not_eq_true] at other
      have settled : isFilteredBuild (input.node ref) = true ∨
          (assignment.option ref).timing = .queryTime := by
        rw [other, chosen] at indifferent
        rcases Bool.and_eq_false_iff.mp indifferent with filtered | late
        · exact .inl (by simpa using filtered)
        · exact .inr (timing_late (by simpa using late))
      unfold placeOption
      rw [resolve_settled settled up up']
    · rfl

theorem placedBy_late (reads : readsUpstream assignment input ref = true)
    (found : placedBy assignment input ref consumer true = .ok (timing, materialization)) :
    timing = .queryTime := by
  unfold readsUpstream at reads
  unfold placedBy at found
  dsimp only at *
  obtain ⟨unfiltered, reads⟩ := Bool.and_eq_true_iff.mp reads
  cases fixed : (input.node ref).timing with
  | some at_ =>
    rw [fixed] at reads found
    rw [beq_iff_eq.mp reads] at found
    dsimp only at found
    split at found <;> cases found
  | none =>
    rw [fixed] at reads found
    simp only [Bool.and_eq_true] at reads
    obtain ⟨⟨other, chosen⟩, stored⟩ := reads
    rw [Bool.not_eq_true'] at other
    dsimp only at found
    rw [other, chosen] at found
    rcases placeOption_cases found with ⟨inner, _, option⟩ | ⟨early, option, _⟩
    · rw [inner, (resolve_late (beq_iff_eq.mp stored) option).2] at chosen
      cases chosen
    · rw [early, (resolve_late (beq_iff_eq.mp stored) option).1]
      rfl

theorem placedBy_early (reads : readsUpstream assignment input ref = true)
    (found : placedBy assignment input ref consumer false = .ok (timing, materialization)) :
    timing = .ingestionTime := by
  unfold readsUpstream at reads
  unfold placedBy at found
  dsimp only at *
  obtain ⟨unfiltered, reads⟩ := Bool.and_eq_true_iff.mp reads
  cases fixed : (input.node ref).timing with
  | some at_ =>
    rw [fixed] at reads found
    have early := beq_iff_eq.mp reads
    dsimp only at found
    split at found
    · cases found
    split at found
    · cases found
    · rw [keepFixed_timing found, early]
  | none =>
    rw [fixed] at reads found
    simp only [Bool.and_eq_true] at reads
    obtain ⟨⟨other, chosen⟩, stored⟩ := reads
    rw [Bool.not_eq_true'] at other unfiltered
    dsimp only at found
    rw [other, chosen] at found
    unfold placeOption at found
    rw [resolve_early unfiltered] at found
    have early := beq_iff_eq.mp stored
    have kept : assignment.option ref ≠ .notMaterialized := by
      intro unstored
      rw [unstored] at early
      cases early
    simp only [decide_eq_false kept, Bool.false_and] at found
    cases found
    exact early

end Upstream

/-! ### The two answers about what is upstream -/

section Answers
variable {assignment : MaterializationAssignment} {input : Dag} {node ref : NodeRef}

/-- Writing `ref` for its consumer places the last node before anything fails. -/
inductive Places (assignment : MaterializationAssignment) (input : Dag) :
    NodeRef → ExecutionTiming → Pass → NodeRef → Prop
  | self {ref : NodeRef} {consumer : ExecutionTiming} {pass : Pass} : Places assignment input ref consumer pass ref
  | child {ref child other : NodeRef} {consumer timing : ExecutionTiming} {materialization : Materialization}
      {pass decided later : Pass} {front back images : List NodeRef}
      (choice : place assignment input ref consumer pass = .ok ((timing, materialization), decided))
      (anew : decided.timedNodeOf ref = none)
      (split : (input.node ref).operator.walk.refs = front ++ child :: back)
      (earlier : front.mapM (fun before => write assignment input before timing) decided = .ok (images, later))
      (below : Places assignment input child timing later other) : Places assignment input ref consumer pass other

/-- Timing the roots places `ref` before anything fails. -/
def RootsPlace (text : LeafText) (assignment : MaterializationAssignment) (input : Dag)
    (roots : List QueryRoot) (ref : NodeRef) : Prop :=
  ∃ front root back, roots = front ++ root :: back ∧ ∃ timed pass,
    front.mapM (applyToRoot text assignment input) (Pass.start input) = .ok (timed, pass) ∧
    ∃ first read rest, root.refs = first ++ read :: rest ∧ ∃ images later,
      first.mapM (applyMaterializationTimings text assignment input) pass = .ok (images, later) ∧
        Places assignment input read .queryTime { later with forced := Cache.empty } ref

/-- Every node that is placed before anything fails, and asks what is upstream, gets one answer with and
without the entry. -/
def Undisturbed (text : LeafText) (assignment : MaterializationAssignment) (input : Dag) (node : NodeRef)
    (roots : List QueryRoot) : Prop :=
  ∀ ref, RootsPlace text assignment input roots ref → readsUpstream assignment input ref = true →
    upstreamForced (assignment.notStored node) input ref = upstreamForced assignment input ref

theorem Places.reached {root : NodeRef} {consumer : ExecutionTiming} {pass : Pass}
    (places : Places assignment input root consumer pass ref) : input.Reaches root ref := by
  induction places with
  | self => exact .refl
  | child _ _ split _ _ ih =>
    refine Relation.ReflTransGen.head ((Operator.mem_refs_walk _).mp ?_) ih
    rw [split]
    exact List.mem_append_right _ List.mem_cons_self

theorem RootsPlace.reached {text : LeafText} {roots : List QueryRoot}
    (places : RootsPlace text assignment input roots ref) :
    ∃ root ∈ roots, ∃ read ∈ root.refs, input.Reaches read ref := by
  obtain ⟨front, root, back, rfl, _, _, _, first, read, rest, split, _, _, _, below⟩ := places
  refine ⟨root, List.mem_append_right _ List.mem_cons_self, read, ?_, below.reached⟩
  rw [split]
  exact List.mem_append_right _ List.mem_cons_self

/-- The entry of a node that is forced to query time anyway, or does not force itself there, disturbs
nothing. -/
theorem undisturbed_of_aligned (plain : Plain assignment input node)
    (aligned : isMisaligned input node = false ∨ upstreamForced assignment input node = true)
    (text : LeafText) (roots : List QueryRoot) : Undisturbed text assignment input node roots := by
  have same : ∀ ref, forced (assignment.notStored node) input ref = forced assignment input ref := by
    intro ref
    induction ref using Nat.strongRecOn with
    | ind ref ih =>
      have below : upstreamForced (assignment.notStored node) input ref =
          upstreamForced assignment input ref := by
        unfold upstreamForced
        rw [Bool.eq_iff_iff, List.any_eq_true, List.any_eq_true]
        constructor
        · rintro ⟨child, reads, late⟩
          exact ⟨child, reads, ih child (input.child_lt reads) ▸ late⟩
        · rintro ⟨child, reads, late⟩
          exact ⟨child, reads, (ih child (input.child_lt reads)).symm ▸ late⟩
      rw [forced_eq, forced_eq, below]
      by_cases here : ref = node
      · subst here
        rw [forcedBy_notStored plain, forcedBy_plain plain]
        rcases aligned with rows | forcedBelow
        · rw [rows, Bool.false_or]
        · simp only [forcedBelow, Bool.or_true]
      · exact forcedBy_other here
  intro ref _ _
  unfold upstreamForced
  rw [funext same]

theorem placed_notStored (plain : Plain assignment input node) {consumer : ExecutionTiming}
    (undisturbed : readsUpstream assignment input ref = true →
      upstreamForced (assignment.notStored node) input ref = upstreamForced assignment input ref) :
    placed assignment input ref consumer = placed (assignment.notStored node) input ref consumer := by
  unfold placed
  by_cases here : ref = node
  · subst here
    exact (placedBy_plain plain).symm
  · rw [placedBy_other here]
    cases asks : readsUpstream assignment input ref with
    | false => exact placedBy_indifferent asks _ _
    | true => rw [undisturbed asks]

end Answers

/-! ### Two passes in lockstep -/

/-- The same timed nodes, whatever each pass knows to be forced to query time. -/
structure SameTable (a b : MaterializationAssignment) (input : Dag) (left right : Pass) : Prop where
  dag : left.dag = right.dag
  table : left.timedNodeOf = right.timedNodeOf
  left : Cache.Sound (forced a input) left.forced
  right : Cache.Sound (forced b input) right.forced

section Lockstep
variable {text : LeafText} {a b : MaterializationAssignment} {input : Dag} {left right : Pass}

theorem place_matching {ref : NodeRef} {consumer : ExecutionTiming} (same : SameTable a b input left right)
    (agree : placed a input ref consumer = placed b input ref consumer) :
    Matching (SameTable a b input) (place a input ref consumer left) (place b input ref consumer right) := by
  obtain ⟨leftValue, leftSound⟩ := placement_returns a input ref consumer left.forced same.left
  obtain ⟨rightValue, rightSound⟩ := placement_returns b input ref consumer right.forced same.right
  unfold place
  dsimp only
  rw [leftValue, rightValue, agree]
  cases placed b input ref consumer with
  | error e => exact rfl
  | ok choice => exact ⟨rfl, same.dag, same.table, leftSound, rightSound⟩

theorem reuse_matching (same : SameTable a b input left right) (done : NodeRef) (timing : ExecutionTiming) :
    Matching (SameTable a b input) (reuse done timing left) (reuse done timing right) := by
  unfold reuse
  change Matching _ ((if (left.dag.node done).timing.getD .queryTime ≠ timing then _ else _ : PassM _) left)
    ((if (right.dag.node done).timing.getD .queryTime ≠ timing then _ else _ : PassM _) right)
  rw [same.dag]
  split
  · exact rfl
  · exact ⟨rfl, same⟩

theorem writeNode_matching (same : SameTable a b input left right) (ref : NodeRef)
    (operator : Operator NodeRef) (timing : ExecutionTiming) (materialization : Materialization) :
    Matching (SameTable a b input) (writeNode input ref operator timing materialization left)
      (writeNode input ref operator timing materialization right) := by
  unfold writeNode
  dsimp only
  rw [same.dag, same.table]
  exact ⟨rfl, rfl, rfl, same.left, same.right⟩

theorem reuse_matching_or {ref : NodeRef} {timing : ExecutionTiming} {first second : PassM NodeRef}
    (same : SameTable a b input left right)
    (anew : left.timedNodeOf ref = none → Matching (SameTable a b input) (first left) (second right)) :
    Matching (SameTable a b input)
      ((do
        match (← get).timedNodeOf ref with
        | some done => reuse done timing
        | none => first : PassM NodeRef) left)
      ((do
        match (← get).timedNodeOf ref with
        | some done => reuse done timing
        | none => second : PassM NodeRef) right) := by
  show Matching _ ((match left.timedNodeOf ref with
    | some done => reuse done timing
    | none => first : PassM NodeRef) left) ((match right.timedNodeOf ref with
    | some done => reuse done timing
    | none => second : PassM NodeRef) right)
  rw [← same.table]
  cases known : left.timedNodeOf ref with
  | some done => exact reuse_matching same done timing
  | none => exact anew known

theorem write_matching (ref : NodeRef) {consumer : ExecutionTiming} (same : SameTable a b input left right)
    (agree : ∀ other, Places a input ref consumer left other → ∀ consumer,
      placed a input other consumer = placed b input other consumer) :
    Matching (SameTable a b input) (write a input ref consumer left) (write b input ref consumer right) := by
  induction ref using Nat.strongRecOn generalizing consumer left right with
  | ind ref ih =>
    rw [write, write]
    refine Matching.bind (place_matching same (agree ref .self consumer)) fun choice decided decided' ran same => ?_
    obtain ⟨timing, materialization⟩ := choice
    refine reuse_matching_or same fun anew => ?_
    refine Matching.bind (Matching.mapM same ?_) fun images later later' _ same =>
      writeNode_matching same _ _ _ _
    intro front child back images later later' split earlier same
    have reads := (Operator.mem_refs_walk _).mp child.2
    have apart := congrArg (List.map Subtype.val) split
    rw [List.attach_map_subtype_val, List.map_append, List.map_cons] at apart
    have before : (front.map Subtype.val).mapM (fun child => write a input child timing) decided =
        .ok (images, later) := by
      rw [List.mapM_map]
      exact earlier
    exact ih child.1 (input.child_lt reads) same fun other below => agree other (.child ran anew apart before below)

theorem apply_matching {root : NodeRef} (same : SameTable a b input left right)
    (agree : ∀ other, Places a input root .queryTime { left with forced := Cache.empty } other → ∀ consumer,
      placed a input other consumer = placed b input other consumer) :
    Matching (SameTable a b input) (applyMaterializationTimings text a input root left)
      (applyMaterializationTimings text b input root right) := by
  unfold applyMaterializationTimings
  have cleared : SameTable a b input { left with forced := Cache.empty } { right with forced := Cache.empty } :=
    ⟨same.dag, same.table, Cache.sound_empty _, Cache.sound_empty _⟩
  refine Matching.bind (m := modify _) (n := modify _) (R := SameTable a b input) ⟨rfl, cleared⟩ ?_
  rintro _ start start' begun same
  cases begun
  refine Matching.bind (write_matching root same agree) fun timed later later' _ same => ?_
  change Matching _ ((StateT.lift (checkRoot text later.dag timed) >>= fun _ => pure timed : PassM _) later)
    ((StateT.lift (checkRoot text later'.dag timed) >>= fun _ => pure timed : PassM _) later')
  rw [same.dag]
  cases checkRoot text later'.dag timed with
  | error e => exact rfl
  | ok _ => exact ⟨rfl, same⟩

theorem applyToRoot_matching {root : QueryRoot} (same : SameTable a b input left right)
    (agree : ∀ first read rest images later, root.refs = first ++ read :: rest →
      first.mapM (applyMaterializationTimings text a input) left = .ok (images, later) →
      ∀ other, Places a input read .queryTime { later with forced := Cache.empty } other → ∀ consumer,
        placed a input other consumer = placed b input other consumer) :
    Matching (SameTable a b input) (applyToRoot text a input root left)
      (applyToRoot text b input root right) := by
  cases root with
  | operator node =>
    exact Matching.bind (apply_matching same (agree [] node [] [] left rfl rfl)) fun _ _ _ _ same => ⟨rfl, same⟩
  | scalar expr =>
    refine Matching.bind (Matching.mapM same fun first read rest images later later' split earlier same =>
      apply_matching same (agree first read rest images later split earlier)) fun _ later later' _ same => ?_
    refine ⟨?_, same⟩
    rw [same.table]

end Lockstep

/-! ### The outcome -/

def Pass.placementOf (pass : Pass) (source : NodeRef) :
    Option (Option ExecutionTiming × Materialization) :=
  (pass.timedNodeOf source).map fun timed =>
    ((pass.dag.node timed).timing, (pass.dag.node timed).materialization)

/-- Both fail, or both succeed and write the same timing and materialization on every node. -/
def SameOutcome : Except ExecutionDataStateError (List QueryRoot × Pass) →
    Except ExecutionDataStateError (List QueryRoot × Pass) → Prop
  | .ok (_, pass), .ok (_, pass') => ∀ source, pass.placementOf source = pass'.placementOf source
  | .error _, .error _ => True
  | _, _ => False

section Outcome
variable {text : LeafText} {assignment : MaterializationAssignment} {input : Dag} {node : NodeRef}
  {roots : List QueryRoot}

theorem sameOutcome_of_undisturbed (plain : Plain assignment input node)
    (undisturbed : Undisturbed text assignment input node roots) :
    SameOutcome (applyMaterializationTimingsToRoots text assignment input roots)
      (applyMaterializationTimingsToRoots text (assignment.notStored node) input roots) := by
  have matching : Matching (SameTable assignment (assignment.notStored node) input)
      (roots.mapM (applyToRoot text assignment input) (Pass.start input))
      (roots.mapM (applyToRoot text (assignment.notStored node) input) (Pass.start input)) := by
    refine Matching.mapM ⟨rfl, rfl, Cache.sound_empty _, Cache.sound_empty _⟩ ?_
    intro front root back timed pass pass' split earlier same
    refine applyToRoot_matching same fun first read rest images later reads earlier' other below _ =>
      placed_notStored plain (undisturbed other ?_)
    exact ⟨front, root, back, split, timed, pass, earlier, first, read, rest, reads, images, later, earlier', below⟩
  unfold applyMaterializationTimingsToRoots
  generalize roots.mapM (applyToRoot text assignment input) (Pass.start input) = without at *
  generalize roots.mapM (applyToRoot text (assignment.notStored node) input) (Pass.start input) =
    extended at *
  cases without with
  | error e =>
    cases extended with
    | error f => exact trivial
    | ok result => exact matching.elim
  | ok result =>
    cases extended with
    | error f => exact matching.elim
    | ok result' =>
      obtain ⟨_, same⟩ := matching
      intro source
      unfold Pass.placementOf
      rw [same.dag, same.table]

theorem placed_of_reached {timed : List QueryRoot} {pass : Pass}
    (run : applyMaterializationTimingsToRoots text assignment input roots = .ok (timed, pass))
    {root : QueryRoot} (member : root ∈ roots) {read ref : NodeRef} (reads : read ∈ root.refs)
    (reached : input.Reaches read ref) : ∃ consumer timing materialization,
      placed assignment input ref consumer = .ok (timing, materialization) ∧
        pass.placementOf ref = some (some timing, materialization) := by
  obtain ⟨kept, live⟩ := roots_live run
  obtain ⟨_, here⟩ := exists_of_forall₂ live root member
  have recorded : ∃ timed, pass.timedNodeOf ref = some timed := by
    induction reached with
    | refl => exact here.recorded read reads
    | tail _ readsChild ih =>
      obtain ⟨above, recordedAbove⟩ := ih
      obtain ⟨_, _, _, _, image, _, below⟩ := (kept.written _ above recordedAbove).placed
      exact ⟨_, (below _ readsChild).recorded⟩
  obtain ⟨timed, recorded⟩ := recorded
  obtain ⟨consumer, timing, found, at_, _⟩ := (kept.written ref timed recorded).placed
  refine ⟨consumer, timing, _, found, ?_⟩
  unfold Pass.placementOf
  rw [recorded, Option.map_some, at_]

theorem undisturbed_of_sameOutcome (plain : Plain assignment input node)
    (same : SameOutcome (applyMaterializationTimingsToRoots text assignment input roots)
      (applyMaterializationTimingsToRoots text (assignment.notStored node) input roots))
    (succeeds : (applyMaterializationTimingsToRoots text assignment input roots).isOk = true ∨
      (applyMaterializationTimingsToRoots text (assignment.notStored node) input roots).isOk = true) :
    Undisturbed text assignment input node roots := by
  cases without : applyMaterializationTimingsToRoots text assignment input roots with
  | error e =>
    cases extended :
        applyMaterializationTimingsToRoots text (assignment.notStored node) input roots with
    | error f =>
      rw [without, extended] at succeeds
      rcases succeeds with fine | fine <;> cases fine
    | ok result =>
      rw [without, extended] at same
      exact same.elim
  | ok result =>
    cases extended :
        applyMaterializationTimingsToRoots text (assignment.notStored node) input roots with
    | error f =>
      rw [without, extended] at same
      exact same.elim
    | ok result' =>
      rw [without, extended] at same
      intro ref places asks
      obtain ⟨root, member, read, reads, reached⟩ := places.reached
      obtain ⟨_, timing, _, found, written⟩ := placed_of_reached without member reads reached
      obtain ⟨_, timing', _, found', written'⟩ := placed_of_reached extended member reads reached
      have timings : timing = timing' := by
        have equal := same ref
        rw [written, written'] at equal
        cases equal
        rfl
      have other : ref ≠ node := by
        intro here
        rw [here, readsUpstream_plain plain] at asks
        cases asks
      have asks' : readsUpstream (assignment.notStored node) input ref = true :=
        (readsUpstream_other other).trans asks
      unfold placed at found found'
      cases flag : upstreamForced assignment input ref <;>
        cases flag' : upstreamForced (assignment.notStored node) input ref
      · rfl
      · rw [flag] at found
        rw [flag'] at found'
        cases (placedBy_early asks found).symm.trans (timings.trans (placedBy_late asks' found'))
      · rw [flag] at found
        rw [flag'] at found'
        cases (placedBy_late asks found).symm.trans (timings.trans (placedBy_early asks' found'))
      · rfl

/-- An explicit `NotMaterialized` on a node that is not a materialization point is no assignment, exactly
when it disturbs no node that is placed by what is upstream before anything fails. It disturbs none unless the node is a misaligned
`BinaryOp` that nothing else forces to query time. -/
theorem notMaterialized_is_no_assignment (text : LeafText) (assignment : MaterializationAssignment)
    (input : Dag) (node : NodeRef) (roots : List QueryRoot) (plain : Plain assignment input node) :
    let without := applyMaterializationTimingsToRoots text assignment input roots
    let extended := applyMaterializationTimingsToRoots text (assignment.notStored node) input roots
    (Undisturbed text assignment input node roots → SameOutcome without extended) ∧
      (without.isOk = true ∨ extended.isOk = true → SameOutcome without extended →
        Undisturbed text assignment input node roots) ∧
      (isMisaligned input node = false ∨ upstreamForced assignment input node = true →
        Undisturbed text assignment input node roots) :=
  ⟨sameOutcome_of_undisturbed plain, fun succeeds same => undisturbed_of_sameOutcome plain same succeeds,
    fun aligned => undisturbed_of_aligned plain aligned text roots⟩

end Outcome

/-! A build over arithmetic on two metrics, whose series rows nothing aligns. -/

def perSeries (operator : Operator NodeRef) : OperatorNode :=
  { (default : OperatorNode) with
    operator
    resultKind := .instantVector
    schema := Schema.lifted [Field.ofPlain promqlSeriesIdentity .utf8 false,
      Field.ofPlain "ts" .timestamp false, Field.ofPlain "value" .float64 false] (some 1) }

def twoMetrics : Dag :=
  let scan (metric : String) := perSeries (.nonASAP (.scan (.timeSeries metric) []
    (Schema.lifted [Field.ofPlain promqlSeriesIdentity .utf8 false,
      Field.ofPlain "ts" .timestamp false, Field.ofPlain "value" .float64 false] (some 1))))
  Dag.ofNodes [scan "a", scan "b",
    perSeries (.nonASAP (.binaryOp ⟨false, false, .arithmetic .add, none⟩ false 0 1)), sumState 2 none]

def atIngestion : MaterializationAssignment := .withDefault (.matAtIngestion .memory)

theorem notMaterialized_is_no_assignment_on_scan :
    let without := applyMaterializationTimingsToRoots default atIngestion twoMetrics [.operator 3]
    let extended :=
      applyMaterializationTimingsToRoots default (atIngestion.notStored 0) twoMetrics [.operator 3]
    SameOutcome without extended :=
  have noted := notMaterialized_is_no_assignment default atIngestion twoMetrics 0 [.operator 3]
    ⟨by decide +kernel, by decide +kernel, by decide +kernel⟩
  noted.1 (noted.2.2 (.inl (by decide +kernel)))

/-- With the entry the arithmetic moves to ingestion time, where it cannot run. -/
theorem notMaterialized_moves_misaligned : Plain atIngestion twoMetrics 2 ∧
    (applyMaterializationTimingsToRoots default atIngestion twoMetrics [.operator 3]).isOk = true ∧
      (applyMaterializationTimingsToRoots default (atIngestion.notStored 2) twoMetrics
        [.operator 3]).isOk = false :=
  ⟨⟨by decide +kernel, by decide +kernel, by decide +kernel⟩, by decide +kernel, by decide +kernel⟩

end AsapPlanner.Timing
