import AsapPlanner.Timing.Apply

/-!
What a timed store promises its readers: ingestion-time work reads no query-time value, and a query-time
reader finds what it reads.
-/

namespace AsapPlanner.Timing
open Rust Traversal Ir

/-! ### Edges -/

def acceptsEitherTiming : Operator NodeRef → Bool
  | .asap (.summaryEstimate ..) | .asap (.summaryMerge ..) | .asap (.finalizeExactAccumulator _)
  | .asap (.evaluatePopulation ..) => true
  | _ => false

/-- Whether a summary build's filter reads `child`. -/
def readByFilter (operator : Operator NodeRef) (child : NodeRef) : Prop :=
  match operator with
  | .asap (.summaryAgg _ _ _ _ _ (some pred))
  | .asap (.summaryTumblingWindowChain _ _ _ _ _ (some pred) _ _) => child ∈ pred.expr.operatorRefs
  | _ => False

/-- An input at ingestion time is one a consumer at ingestion time can read, and its stored output is
one a consumer at query time can read. -/
def ReadsLive (dag : Dag) (timing : ExecutionTiming) (child : NodeRef) : Prop :=
  (timing = .ingestionTime → (stateOf dag child).timing = .ingestionTime) ∧
    (timing = .queryTime → (stateOf dag child).timing = .ingestionTime →
      isMatAtIngestion (dag.node child).materialization = true)

theorem isMatAtIngestion_iff {m : Materialization} :
    isMatAtIngestion m = true ↔ m.timing = .ingestionTime := by
  cases m <;> simp [isMatAtIngestion, Materialization.timing]

section Edges
variable {text : LeafText} {dag : Dag} {ref child : NodeRef} {timing : ExecutionTiming}

theorem buildInput_live {edge : String}
    (valid : validateBuildInput text dag edge child timing = .ok ()) : ReadsLive dag timing child := by
  have timed : validateBuildTiming dag edge child timing = .ok () := by
    unfold validateBuildInput at valid
    split at valid
    · obtain ⟨_, _, timed⟩ := bind_eq_ok valid
      exact timed
    · exact valid
  unfold validateBuildTiming at timed
  dsimp only at timed
  split at timed
  · cases timed
  split at timed
  · cases timed
  · rename_i stored early
    refine ⟨fun atIngestion => ?_, fun atQuery ready => ?_⟩
    · cases seen : (stateOf dag child).timing with
      | ingestionTime => rfl
      | queryTime => exact absurd ⟨atIngestion, seen⟩ early
    · rw [isMatAtIngestion_iff]
      by_contra unstored
      exact stored ⟨atQuery, ready, unstored⟩

theorem input_live {op : NonASAPOp NodeRef}
    (valid : validateInput text dag ref op timing child = .ok ()) : ReadsLive dag timing child := by
  unfold validateInput at valid
  dsimp only at valid
  split at valid
  · cases valid
  · rename_i accepted
    obtain ⟨timed, -⟩ := not_or.mp accepted
    refine ⟨fun atIngestion => ?_, fun atQuery ready => ?_⟩
    · subst atIngestion
      by_contra late
      exact timed ⟨late, rfl⟩
    · subst atQuery
      rw [isMatAtIngestion_iff]
      by_contra unstored
      apply timed
      refine ⟨by rw [ready]; decide, ?_⟩
      rw [Bool.and_eq_false_iff]
      exact .inr (beq_eq_false_iff_ne.mpr unstored)

theorem maintain_live {population : MaintainedPopulation}
    (valid : validateMaintain dag child population timing = .ok ()) : ReadsLive dag timing child := by
  unfold validateMaintain at valid
  split at valid
  · rename_i matching
    rw [ReadsLive, matching.2]
    refine ⟨id, fun atQuery ready => ?_⟩
    rw [atQuery] at ready
    cases ready
  · cases valid

theorem estimate_late {node : NodeRef} (valid : validateEstimate dag node child timing = .ok ()) :
    timing = .queryTime := by
  unfold validateEstimate at valid
  dsimp only at valid
  split at valid
  · cases valid
  split at valid
  · cases valid
  · rename_i late
    exact not_not.mp late

theorem evaluate_late {evaluation : PopulationStatistic}
    (valid : validateEvaluate dag child evaluation timing = .ok ()) : timing = .queryTime := by
  unfold validateEvaluate at valid
  split at valid
  · rename_i accepted
    exact accepted.1
  · cases valid

theorem finalize_early (valid : validateFinalize text dag child timing = .ok ())
    (atIngestion : timing = .ingestionTime) : (stateOf dag child).timing = .ingestionTime := by
  unfold validateFinalize at valid
  dsimp only at valid
  split at valid
  · cases valid
  · rename_i accepted
    by_contra late
    exact accepted (.inr (.inr ⟨atIngestion, atIngestion ▸ late⟩))

theorem mergeInput_early (valid : validateMergeInput dag child timing = .ok ())
    (atIngestion : timing = .ingestionTime) : (stateOf dag child).timing = .ingestionTime := by
  unfold validateMergeInput at valid
  dsimp only at valid
  split at valid
  · cases valid
  · rename_i accepted
    by_contra late
    exact accepted (.inr ⟨atIngestion, atIngestion ▸ late⟩)

theorem build_child {pred : Option (Predicate NodeRef)} {built : NodeRef}
    (reads : child ∈ built :: pred.toList.flatMap (·.expr.operatorRefs))
    (direct : ∀ p ∈ pred, child ∉ p.expr.operatorRefs) : child = built := by
  rcases List.mem_cons.mp reads with same | filtered
  · exact same
  · obtain ⟨p, held, found⟩ := List.mem_flatMap.mp filtered
    exact absurd found (direct p (Option.mem_toList.mp held))

theorem edge_live (valid : validateNode text dag ref = .ok ()) (reads : child ∈ dag.children ref)
    (direct : ¬ readByFilter (dag.node ref).operator child) :
    ReadsLive dag (stateOf dag ref).timing child ∨
      (acceptsEitherTiming (dag.node ref).operator = true ∧
        ((stateOf dag ref).timing = .ingestionTime → (stateOf dag child).timing = .ingestionTime)) := by
  unfold validateNode at valid
  unfold Dag.children OperatorNode.children at reads
  dsimp only at valid
  cases shape : (dag.node ref).operator with
  | nonASAP op =>
    rw [shape] at valid reads
    obtain ⟨_, inputs, _⟩ := bind_eq_ok valid
    exact .inl (input_live (forM_ok inputs child reads))
  | asap op =>
    rw [shape] at valid reads direct
    cases op with
    | summaryAgg built family input reduction grouping pred
    | summaryTumblingWindowChain built family input reduction grouping pred width count =>
      have same := build_child reads (by
        intro p held found
        cases held
        exact direct found)
      subst same
      exact .inl (buildInput_live valid)
    | maintainPopulation built population =>
      rw [List.mem_singleton.mp reads]
      exact .inl (maintain_live valid)
    | summaryEstimate built query =>
      exact .inr ⟨rfl, fun early => by cases (estimate_late valid).symm.trans early⟩
    | evaluatePopulation built evaluation =>
      exact .inr ⟨rfl, fun early => by cases (evaluate_late valid).symm.trans early⟩
    | finalizeExactAccumulator built =>
      rw [List.mem_singleton.mp reads]
      exact .inr ⟨rfl, finalize_early valid⟩
    | summaryMerge children newest groupBy =>
      exact .inr ⟨rfl, mergeInput_early (forM_ok valid child reads)⟩
    | summarySubtract | summaryDelete | summaryJoin | extension => cases valid

end Edges

/-! ### Placements -/

section Placements
variable {assignment : MaterializationAssignment} {input : Dag} {ref : NodeRef}
  {consumer timing : ExecutionTiming} {materialization : Materialization}

theorem keepFixed_timing {fixed : ExecutionTiming}
    (kept : keepFixed assignment input ref fixed = .ok (timing, materialization)) : timing = fixed := by
  unfold keepFixed at kept
  split at kept
  · split at kept
    · cases kept
    · cases kept
      rfl
  · cases kept
    rfl

theorem placed_fixed {fixed : ExecutionTiming} (at_ : (input.node ref).timing = some fixed)
    (found : placed assignment input ref consumer = .ok (timing, materialization)) :
    timing = fixed := by
  unfold placed placedBy at found
  dsimp only at found
  rw [at_] at found
  dsimp only at found
  split at found
  · cases found
  split at found
  · cases found
  · exact keepFixed_timing found

theorem placeEvaluation_late (found : placeEvaluation assignment input ref = .ok (timing, materialization)) :
    timing = .queryTime := by
  unfold placeEvaluation at found
  split at found
  · split at found <;> cases found
    rfl
  · cases found
    rfl

theorem placeOption_cases {upstream : Bool}
    (found : placeOption assignment input ref consumer upstream = .ok (timing, materialization)) :
    (isMaterializationPoint (input.node ref).operator = false ∧ timing = consumer ∧
      assignment.resolve input ref upstream = .ok .notMaterialized) ∨
      (timing = materialization.timing ∧
        assignment.resolve input ref upstream = .ok materialization ∧
        ∀ other, placeOption assignment input ref other upstream = .ok (timing, materialization)) := by
  unfold placeOption at *
  cases option : assignment.resolve input ref upstream with
  | error e =>
    rw [option] at found
    cases found
  | ok m =>
    rw [option] at found
    dsimp only at *
    split at found
    · rename_i unstored
      obtain ⟨same, inner⟩ := Bool.and_eq_true_iff.mp unstored
      cases found
      exact .inl ⟨by simpa using inner, rfl, by rw [of_decide_eq_true same]⟩
    · rename_i stored
      cases found
      exact .inr ⟨rfl, rfl, fun _ => if_neg stored⟩

/-- An untimed node runs at ingestion time under a query-time consumer only where it is stored, and
then it is placed so under every consumer. -/
theorem placed_untimed (untimed : (input.node ref).timing = none)
    (found : placed assignment input ref .queryTime = .ok (.ingestionTime, materialization))
    (consumer : ExecutionTiming) : isMatAtIngestion materialization = true ∧
      placed assignment input ref consumer = .ok (.ingestionTime, materialization) := by
  unfold placed placedBy at *
  dsimp only at *
  rw [untimed] at *
  dsimp only at *
  split at found
  · cases placeEvaluation_late found
  rename_i other
  rw [if_neg other]
  split at found
  · rename_i chosen
    rw [if_pos chosen]
    rcases placeOption_cases found with ⟨_, late, _⟩ | ⟨early, _, same⟩
    · cases late
    · exact ⟨isMatAtIngestion_iff.mpr early.symm, same consumer⟩
  · cases found

theorem timing_late {m : Materialization} (late : ¬ (m.timing == .ingestionTime) = true) :
    m.timing = .queryTime := by
  cases m <;> first | rfl | exact absurd rfl late

theorem resolve_filtered {upstream : Bool} (filtered : isFilteredBuild (input.node ref) = true)
    (found : assignment.resolve input ref upstream = .ok materialization) :
    materialization.timing = .queryTime := by
  unfold MaterializationAssignment.resolve at found
  dsimp only at found
  simp only [filtered, Bool.or_true, Bool.and_true] at found
  split at found
  · split at found
    · cases found
    · rename_i m _ late
      rw [if_neg (by rw [Bool.and_eq_true]; exact fun both => late both.1)] at found
      cases found
      exact timing_late late
  · split at found
    · cases found
      rfl
    · rename_i late
      cases found
      exact timing_late late

theorem filtered_point {node : OperatorNode} (filtered : isFilteredBuild node = true) :
    isMaterializationPoint node.operator = true ∧ isEvaluation node.operator = false := by
  unfold isFilteredBuild OperatorNode.asap at filtered
  cases shape : node.operator with
  | nonASAP op =>
    rw [shape] at filtered
    cases filtered
  | asap op =>
    rw [shape] at filtered
    cases op <;> first | cases filtered | exact ⟨rfl, rfl⟩

theorem placed_filtered (filtered : isFilteredBuild (input.node ref) = true)
    (found : placed assignment input ref consumer = .ok (timing, materialization)) :
    timing = .queryTime := by
  obtain ⟨point, other⟩ := filtered_point filtered
  cases fixed : (input.node ref).timing with
  | some at_ =>
    have kept := placed_fixed fixed found
    unfold placed placedBy at found
    dsimp only at found
    rw [fixed, filtered] at found
    cases at_ with
    | queryTime => exact kept
    | ingestionTime => cases found
  | none =>
    unfold placed placedBy at found
    dsimp only at found
    rw [fixed] at found
    dsimp only at found
    rw [other, point] at found
    rcases placeOption_cases found with ⟨unstored, _⟩ | ⟨early, option, _⟩
    · rw [point] at unstored
      cases unstored
    · rw [early]
      exact resolve_filtered filtered option

end Placements

/-! ### Live inputs -/

/-- The node `timed` was written from had its ingestion timing fixed in advance. -/
def FixedAtIngestion (input : Dag) (pass : Pass) (timed : NodeRef) : Prop :=
  ∃ source, pass.timedNodeOf source = some timed ∧
    (input.node source).timing = some .ingestionTime

/-- Every node below `root` is timed; an ingestion-time one reads only ingestion-time inputs; one that
runs at query time reads an ingestion-time input where it is stored, inputs fixed in advance apart. -/
structure LiveEdge (input : Dag) (pass : Pass) (ref child : NodeRef) : Prop where
  early : (pass.dag.node ref).timing = some .ingestionTime →
    (pass.dag.node child).timing = some .ingestionTime
  stored : (pass.dag.node ref).timing = some .queryTime →
    (pass.dag.node child).timing = some .ingestionTime →
    isMatAtIngestion (pass.dag.node child).materialization = true ∨
      (FixedAtIngestion input pass child ∧
        (acceptsEitherTiming (pass.dag.node ref).operator = true ∨
          readByFilter (pass.dag.node ref).operator child))

def LiveInputs (input : Dag) (pass : Pass) (root : NodeRef) : Prop :=
  ∀ ref, pass.dag.Reaches root ref → (pass.dag.node ref).timing ≠ none ∧
    ∀ child ∈ pass.dag.children ref, LiveEdge input pass ref child

section Live
variable {text : LeafText} {assignment : MaterializationAssignment} {input : Dag} {pass later : Pass}

theorem LiveInputs.grow {root : NodeRef} (live : LiveInputs input pass root)
    (inside : root < pass.dag.size) (grown : Grown pass later) : LiveInputs input later root := by
  intro ref reached
  obtain ⟨before, here⟩ := grown.dag.reaches inside reached
  obtain ⟨timed, edges⟩ := live ref before
  have sameRef := grown.dag.node here
  refine ⟨by rwa [sameRef], fun child reads => ?_⟩
  unfold Dag.children at reads
  rw [sameRef] at reads
  have sameChild := grown.dag.node (pass.dag.refs_size (List.mem_append_left _ reads))
  obtain ⟨early, stored⟩ := edges child reads
  constructor
  · rw [sameRef, sameChild]
    exact early
  · rw [sameRef, sameChild]
    intro atQuery ready
    rcases stored atQuery ready with kept | ⟨⟨source, recorded, fixed⟩, edge⟩
    · exact .inl kept
    · exact .inr ⟨⟨source, grown.kept _ _ recorded, fixed⟩, edge⟩

theorem recorded_of_reaches (kept : Inv assignment input pass) {source root ref : NodeRef}
    (recorded : pass.timedNodeOf source = some root) (reached : pass.dag.Reaches root ref) :
    ∃ source, pass.timedNodeOf source = some ref := by
  induction reached with
  | refl => exact ⟨source, recorded⟩
  | tail _ reads ih =>
    obtain ⟨above, recordedAbove⟩ := ih
    obtain ⟨_, _, _, _, image, operator, below⟩ := (kept.written above _ recordedAbove).placed
    unfold Dag.children OperatorNode.children at reads
    rw [operator, Operator.children_mapChildren] at reads
    obtain ⟨child, readsChild, same⟩ := List.mem_map.mp reads
    exact ⟨child, same ▸ (below child readsChild).recorded⟩

theorem filtered_of_readByFilter {source timed child : NodeRef} {image : NodeRef → NodeRef}
    (operator : (pass.dag.node timed).operator = (input.node source).operator.mapChildren image)
    (filter : readByFilter (pass.dag.node timed).operator child) :
    isFilteredBuild (input.node source) = true := by
  rw [operator] at filter
  unfold isFilteredBuild OperatorNode.asap
  cases shape : (input.node source).operator with
  | nonASAP op =>
    rw [shape] at filter
    exact filter.elim
  | asap op =>
    rw [shape] at filter
    unfold Operator.mapChildren Operator.walk ASAPOp.walk at filter
    cases op with
    | summaryAgg built family input reduction grouping pred
    | summaryTumblingWindowChain built family input reduction grouping pred width count =>
      cases pred with
      | none => simp [readByFilter] at filter
      | some p => rfl
    | _ => simp [readByFilter] at filter

theorem live_of_valid (kept : Inv assignment input pass) {source root : NodeRef}
    (recorded : pass.timedNodeOf source = some root) (valid : Valid text pass root) :
    LiveInputs input pass root := by
  intro ref reached
  obtain ⟨above, recordedAbove⟩ := recorded_of_reaches kept recorded reached
  obtain ⟨consumer, timing, found, at_, image, operator, below⟩ :=
    (kept.written above ref recordedAbove).placed
  refine ⟨by rw [at_]; exact Option.some_ne_none _, fun child reads => ?_⟩
  have readsTimed := reads
  unfold Dag.children OperatorNode.children at reads
  rw [operator, Operator.children_mapChildren] at reads
  obtain ⟨origin, readsOrigin, same⟩ := List.mem_map.mp reads
  subst same
  have under := below origin readsOrigin
  obtain ⟨childTiming, childOption, childFound, childAt⟩ := under.timing
  have stateRef : (stateOf pass.dag ref).timing = timing := by
    unfold stateOf
    rw [at_, Option.getD_some]
  have stateChild : (stateOf pass.dag (image origin)).timing = childTiming := by
    unfold stateOf
    rw [childAt, Option.getD_some]
  have edge := edge_live (valid ref reached) readsTimed
  rw [stateRef] at edge
  unfold ReadsLive at edge
  rw [stateChild] at edge
  constructor
  · rw [at_, childAt]
    intro early
    cases early
    have direct : ¬ readByFilter (pass.dag.node ref).operator (image origin) := by
      intro filter
      cases placed_filtered (filtered_of_readByFilter operator filter) found
    rcases edge direct with ⟨live, _⟩ | ⟨_, live⟩ <;> rw [live rfl]
  · rw [at_, childAt]
    intro late ready
    cases late
    cases ready
    cases fixed : (input.node origin).timing with
    | none =>
      left
      obtain ⟨first, _, firstFound, _⟩ := (kept.written origin _ under.recorded).placed
      have anywhere := placed_untimed fixed childFound first
      rw [anywhere.2] at firstFound
      cases firstFound
      exact anywhere.1
    | some t =>
      cases placed_fixed fixed childFound
      have advance : FixedAtIngestion input pass (image origin) := ⟨origin, under.recorded, fixed⟩
      by_cases filter : readByFilter (pass.dag.node ref).operator (image origin)
      · exact .inr ⟨advance, .inr filter⟩
      rcases edge filter with ⟨_, live⟩ | ⟨either, _⟩
      · exact .inl (live rfl rfl)
      · exact .inr ⟨advance, .inl either⟩

/-- Every operator a root reads is timed, and the timed root has only live inputs below it. -/
structure RootLive (input : Dag) (pass : Pass) (root timed : QueryRoot) : Prop where
  recorded : ∀ ref ∈ root.refs, ∃ timed, pass.timedNodeOf ref = some timed
  live : ∀ ref ∈ timed.refs, ref < pass.dag.size ∧ LiveInputs input pass ref

theorem RootLive.grow {root timed : QueryRoot} (here : RootLive input pass root timed)
    (grown : Grown pass later) : RootLive input later root timed where
  recorded ref read := by
    obtain ⟨timed, recorded⟩ := here.recorded ref read
    exact ⟨timed, grown.kept _ _ recorded⟩
  live ref read := by
    obtain ⟨inside, live⟩ := here.live ref read
    exact ⟨Nat.lt_of_lt_of_le inside grown.dag.size_le, live.grow inside grown⟩

theorem apply_live {root timed : NodeRef} (kept : Inv assignment input pass)
    (run : applyMaterializationTimings text assignment input root pass = .ok (timed, later)) :
    Inv assignment input later ∧ Grown pass later ∧
      (later.timedNodeOf root = some timed ∧ timed < later.dag.size ∧ LiveInputs input later timed) := by
  obtain ⟨keptLater, grown, placed, valid⟩ := apply_ok kept run
  exact ⟨keptLater, grown, placed.recorded, placed.inside,
    live_of_valid keptLater placed.recorded valid⟩

theorem applyToRoot_live {root timed : QueryRoot} (kept : Inv assignment input pass)
    (run : applyToRoot text assignment input root pass = .ok (timed, later)) :
    Inv assignment input later ∧ Grown pass later ∧ RootLive input later root timed := by
  cases root with
  | operator node =>
    obtain ⟨written, after, applied, run⟩ := bind_ok run
    obtain ⟨rfl, rfl⟩ := pure_ok run
    obtain ⟨keptAfter, grown, recorded, inside, live⟩ := apply_live kept applied
    refine ⟨keptAfter, grown, fun ref read => ?_, fun ref read => ?_⟩
    · rw [List.mem_singleton.mp read]
      exact ⟨written, recorded⟩
    · rw [List.mem_singleton.mp read]
      exact ⟨inside, live⟩
  | scalar expr =>
    obtain ⟨written, after, applied, run⟩ := bind_ok run
    obtain ⟨seen, state, read, run⟩ := bind_ok run
    cases read
    obtain ⟨rfl, rfl⟩ := pure_ok run
    have stable : ∀ node timed before after,
        (before.timedNodeOf node = some timed ∧ timed < before.dag.size ∧
          LiveInputs input before timed) → Grown before after →
        (after.timedNodeOf node = some timed ∧ timed < after.dag.size ∧
          LiveInputs input after timed) := by
      intro node timed before after here grown
      obtain ⟨recorded, inside, live⟩ := here
      exact ⟨grown.kept _ _ recorded, Nat.lt_of_lt_of_le inside grown.dag.size_le,
        live.grow inside grown⟩
    obtain ⟨keptAfter, grown, each⟩ := mapM_ok Grown.refl (fun _ _ _ => Grown.trans) stable
      (fun node _ timed before after keptHere here => apply_live keptHere here) kept applied
    refine ⟨keptAfter, grown, fun ref read => ?_, fun ref read => ?_⟩
    · obtain ⟨timed, recorded, _⟩ := exists_of_forall₂ each ref read
      exact ⟨timed, recorded⟩
    · dsimp only [QueryRoot.refs] at read
      rw [ScalarExpr.operatorRefs_image] at read
      obtain ⟨node, reads, same⟩ := List.mem_map.mp read
      obtain ⟨timed, recorded, inside, live⟩ := exists_of_forall₂ each node reads
      rw [recorded, Option.getD_some] at same
      rw [← same]
      exact ⟨inside, live⟩

theorem roots_live {roots timed : List QueryRoot}
    (run : applyMaterializationTimingsToRoots text assignment input roots = .ok (timed, pass)) :
    Inv assignment input pass ∧ List.Forall₂ (RootLive input pass) roots timed := by
  have stable : ∀ root timed before after, RootLive input before root timed →
      Grown before after → RootLive input after root timed :=
    fun _ _ _ _ live grown => live.grow grown
  have each : ∀ root ∈ roots, ∀ out before after, Inv assignment input before →
      applyToRoot text assignment input root before = .ok (out, after) →
      Inv assignment input after ∧ Grown before after ∧ RootLive input after root out :=
    fun _ _ _ _ _ kept here => applyToRoot_live kept here
  obtain ⟨kept, _, live⟩ := mapM_ok Grown.refl (fun _ _ _ => Grown.trans) stable each inv_start run
  exact ⟨kept, live⟩

/-- In a timed workload no consumer reads data that no longer exists: inputs whose ingestion timing was
fixed in advance are the only ones read without being stored, by the operators that accept summary state
at either timing or by a build's filter. -/
theorem timed_roots_live (text : LeafText) (assignment : MaterializationAssignment) (input : Dag)
    (roots timed : List QueryRoot) (pass : Pass)
    (run : applyMaterializationTimingsToRoots text assignment input roots = .ok (timed, pass)) :
    ∀ root ∈ timed, ∀ ref ∈ root.refs, LiveInputs input pass ref := by
  intro root member ref read
  obtain ⟨_, here⟩ := exists_of_forall₂ (roots_live run).2.flip root member
  exact (here.live ref read).2

end Live

/-! A sum over raw samples, read at query time. -/

def samples (metric : String) : OperatorNode :=
  let schema := Schema.new [Field.ofPlain "ts" .timestamp false, Field.ofPlain "value" .float64 false]
  { (default : OperatorNode) with
    operator := .nonASAP (.scan (.timeSeries metric) [] schema)
    resultKind := .instantVector
    schema }

def sumState (child : NodeRef) (timing : Option ExecutionTiming) : OperatorNode :=
  let family : FieldDataType := .exactAggregate .sum .sum
  { (default : OperatorNode) with
    operator := .asap (.summaryAgg child family ⟨none, .column .sampleValue, .unknownOrSigned⟩ .perEntity
      .perSubpopulationInstance none)
    resultKind := .state
    schema := Schema.lifted [⟨"state", family, false, none⟩] none
    timing }

def finalized (child : NodeRef) : OperatorNode :=
  { (default : OperatorNode) with
    operator := .asap (.finalizeExactAccumulator child)
    resultKind := .instantVector
    schema := Schema.lifted [Field.ofPlain "value" .float64 false] none }

def timedSum (assignment : MaterializationAssignment) (timing : Option ExecutionTiming) :
    Except ExecutionDataStateError (List QueryRoot × Pass) :=
  applyMaterializationTimingsToRoots default assignment
    (Dag.ofNodes [samples "m", sumState 0 timing, finalized 1]) [.operator 2]

theorem timed_roots_live_of_stored_sum : ∃ timed pass,
    timedSum (.withDefault (.matAtIngestion .memory)) none = .ok (timed, pass) ∧
      ∀ root ∈ timed, ∀ ref ∈ root.refs,
        LiveInputs (Dag.ofNodes [samples "m", sumState 0 none, finalized 1]) pass ref := by
  obtain ⟨⟨timed, pass⟩, run⟩ := exists_ok (show (timedSum
    (.withDefault (.matAtIngestion .memory)) none).isOk = true by decide +kernel)
  exact ⟨timed, pass, run, timed_roots_live _ _ _ _ _ _ run⟩

def readsUnstored (outcome : Except ExecutionDataStateError (List QueryRoot × Pass)) : Bool :=
  match outcome with
  | .error _ => false
  | .ok (roots, pass) => (roots.flatMap QueryRoot.refs).any fun root =>
    (pass.dag.node root).timing == some .queryTime && (pass.dag.children root).any fun child =>
      (pass.dag.node child).timing == some .ingestionTime
        && !isMatAtIngestion (pass.dag.node child).materialization

/-- A sum fixed at ingestion time and not stored is read at query time. -/
theorem fixed_sum_read_unstored :
    readsUnstored (timedSum (.withDefault .notMaterialized) (some .ingestionTime)) = true := by
  decide +kernel

end AsapPlanner.Timing
