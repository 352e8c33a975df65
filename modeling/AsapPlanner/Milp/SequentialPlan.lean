import AsapPlanner.Milp.WarmStarted

/-!
A run that plans query after query: each failed choice and each failed attempt is undone exactly,
and the plan returned meets its rows and gives every output reference of the queries planned.
-/

namespace AsapPlanner.Milp
open Plan Milp.Derivation

namespace MilpInputs
variable {n : Nat} (inputs : MilpInputs n) {Memo Number : Type} [LinearOrder Number]

/-! ### The calls of a derivation -/

inductive Call (n : Nat)
  | read (context : Nat) (allowed : List (Fin n))
  | choose (context : Nat) (candidate : Fin n)

/-- A query's derivation from a plan comes to a call in a state, with a depth left for the reads
below it. -/
inductive Makes (estimates : Estimates n Memo Number) (query : Nat) (plan : Plan n) :
    Nat → Call n → Derivation n Memo → Prop
  | output {earlier later allowed state}
      (wanted : inputs.allowedOutputs query = earlier ++ allowed :: later)
      (done : readEach (inputs.read estimates mostStepsPerQuery) query earlier
        ⟨plan, [], estimates.start, 0⟩ = (state, true)) :
      Makes estimates query plan mostStepsPerQuery (.read query allowed) state
  | option {depth context allowed state earlier candidate later memo tried}
      (reads : Makes estimates query plan (depth + 1) (.read context allowed) state)
      (within : state.steps + 1 ≤ mostStepsPerQuery)
      (unchosen : (allowed.find? fun candidate => inputs.Chosen state.plan context candidate) = none)
      (priced : inputs.pricedOptions estimates context allowed
        { state with steps := state.steps + 1 } = (earlier ++ candidate :: later, memo))
      (failed : tryEach (inputs.choose (inputs.read estimates depth) context) earlier
        { state with steps := state.steps + 1, memo := memo } = (tried, none)) :
      Makes estimates query plan depth (.choose context candidate) tried
  | input {depth context candidate state earlier producers input later reached}
      (chooses : Makes estimates query plan depth (.choose context candidate) state)
      (computed : inputs.computes context candidate = true)
      (wanted : (inputs.producers candidate).zipIdx = earlier ++ (producers, input) :: later)
      (done : inputs.readInputs (inputs.read estimates depth) context candidate earlier
        (inputs.fillSlot context candidate state) = (reached, true)) :
      Makes estimates query plan depth (.read context (producers.filter fun producer =>
        inputs.slot producer ≠ inputs.slot candidate)) reached
  | own {depth context candidate own state earlier producers later reached}
      (chooses : Makes estimates query plan depth (.choose context candidate) state)
      (kind : inputs.kind candidate = .shareable) (unselected : candidate ∉ state.plan.selected)
      (place : inputs.contextOfShareable candidate = some own)
      (wanted : inputs.producers candidate = earlier ++ producers :: later)
      (done : readEach (inputs.read estimates depth) own earlier
        ((inputs.fillSlot context candidate state).select candidate) = (reached, true)) :
      Makes estimates query plan depth (.read own producers) reached
  | ingestion {depth context candidate source state}
      (chooses : Makes estimates query plan depth (.choose context candidate) state)
      (kind : inputs.kind candidate = .ingestion)
      (place : inputs.ingestionContextReadBy context = some source) (apart : context ≠ source) :
      Makes estimates query plan depth (.read source [candidate])
        (inputs.fillSlot context candidate state)

/-- A choice is made of an option for a slot still free. -/
def Ready (state : Derivation n Memo) : Call n → Prop
  | .read _ _ => True
  | .choose context candidate => candidate ∈ inputs.options context ∧
      (state.plan.chosen context).lookup (inputs.slot candidate) = none

variable {inputs} {estimates : Estimates n Memo Number} {query : Nat} {plan : Plan n}

theorem Makes.ready (recorded : inputs.Recorded plan) {depth : Nat} {call : Call n}
    {state : Derivation n Memo} (made : inputs.Makes estimates query plan depth call state) :
    inputs.Recorded state.plan ∧ inputs.Ready state call := by
  induction made with
  | output wanted done =>
    obtain ⟨_, grows, _⟩ := readEach_reads (read_reads _) done recorded
    exact ⟨grows.recorded recorded, trivial⟩
  | option reads within unchosen priced failed ih =>
    rename_i context allowed state earlier candidate later memo tried
    have fillable : ∀ other ∈ earlier ++ candidate :: later, other ∈ inputs.options context ∧
        (state.plan.chosen context).lookup (inputs.slot other) = none := by
      intro other member
      apply And.right
      apply @mem_pricedOptions n inputs Memo { state with steps := state.steps + 1 } Number estimates
      rw [priced]
      exact member
    obtain ⟨same, _⟩ := (tryEach_reads (read_reads _) failed ih.1 fun other member =>
      fillable other (List.mem_append_left _ member)).1 rfl
    rw [Ready, same]
    exact ⟨ih.1, fillable candidate (List.mem_append_right _ List.mem_cons_self)⟩
  | input chooses computed wanted done ih =>
    obtain ⟨recorded, listed, free⟩ := ih
    obtain ⟨_, grows, chosen, absent⟩ := fillSlot_grows free listed
    have distinct := congrArg (fun entries => (entries.map Prod.snd).Nodup) wanted
    rw [List.zipIdx_map_snd, List.map_append, eq_iff_iff] at distinct
    obtain ⟨_, grown, _⟩ := readInputs_reads (read_reads _) done grows recorded absent chosen
      (distinct.mp List.nodup_range').of_append_left
      fun entry _ => fillSlot_fresh recorded absent entry.2
    exact ⟨grown.recorded recorded, trivial⟩
  | own chooses kind unselected place wanted done ih =>
    obtain ⟨recorded, listed, free⟩ := ih
    obtain ⟨_, grows, chosen, _⟩ := fillSlot_grows free listed
    have selects := grows.select ⟨kind, _, listed, chosen⟩
    obtain ⟨_, grown, _⟩ := readEach_reads (read_reads _) done (selects.recorded recorded)
    exact ⟨grown.recorded (selects.recorded recorded), trivial⟩
  | ingestion chooses kind place apart ih =>
    obtain ⟨recorded, listed, free⟩ := ih
    exact ⟨(fillSlot_grows free listed).2.1.recorded recorded, trivial⟩

/-! ### Attempts -/

variable {attempting : Attempting n Memo Number}

theorem attempt_reads (recorded : inputs.Recorded plan) {tried : Objective × Approximate}
    {state : Derivation n Memo} {derived : Bool}
    (run : inputs.attempt attempting query tried plan = (state, derived)) :
    state.plan.undoAll state.undo = plan ∧ inputs.Grows ∅ ∅ plan state.plan ∧
      (derived = true → ∀ allowed ∈ inputs.allowedOutputs query, ∃ candidate ∈ allowed,
        inputs.Chosen state.plan query candidate) := by
  obtain ⟨⟨log, undo, restored⟩, grows, each⟩ := readEach_reads (read_reads _) run recorded
  rw [List.nil_append] at undo
  exact ⟨undo ▸ restored, grows, each⟩

theorem tryAttempts_reads (recorded : inputs.Recorded plan)
    {tries : List (Objective × Approximate)} {fallback kept : Option (Objective × Approximate)}
    {after : Plan n} {fast : Bool}
    (run : inputs.tryAttempts attempting query tries fallback plan = (after, fast, kept)) :
    (fast = false → after = plan) ∧ (fast = true → inputs.Grows ∅ ∅ plan after ∧
      ∀ allowed ∈ inputs.allowedOutputs query, ∃ candidate ∈ allowed,
        inputs.Chosen after query candidate) := by
  induction tries generalizing fallback with
  | nil =>
    cases run
    exact ⟨fun _ => rfl, nofun⟩
  | cons tried tries ih =>
    unfold tryAttempts at run
    cases attempted : inputs.attempt attempting query tried plan with
    | mk state derived =>
      obtain ⟨restored, grows, each⟩ := attempt_reads recorded attempted
      rw [attempted] at run
      dsimp only at run
      split at run
      · next accepted =>
        cases run
        rw [Bool.and_eq_true, Bool.and_eq_true] at accepted
        exact ⟨nofun, fun _ => ⟨grows, each accepted.1.1⟩⟩
      · rw [restored] at run
        exact ih run

theorem planQuery_grows (recorded : inputs.Recorded plan) {after : Plan n}
    (planned : inputs.planQuery attempting plan query = some after) :
    inputs.Grows ∅ ∅ plan after ∧ ∀ allowed ∈ inputs.allowedOutputs query, ∃ candidate ∈ allowed,
      inputs.Chosen after query candidate := by
  unfold planQuery at planned
  split at planned
  · next fast =>
    cases planned
    exact (tryAttempts_reads recorded fast).2 rfl
  · cases planned
  · next middle fallback kept =>
    cases (tryAttempts_reads recorded kept).1 rfl
    split at planned
    · next state attempted =>
      cases planned
      obtain ⟨_, grows, each⟩ := attempt_reads recorded attempted
      exact ⟨grows, each rfl⟩
    · cases planned

theorem sequentialPlan_grows {order : List Nat} {start after : Plan n}
    (recorded : inputs.Recorded start)
    (planned : order.foldlM (inputs.planQuery attempting) start = some after) :
    inputs.Grows ∅ ∅ start after ∧ ∀ query ∈ order, ∀ allowed ∈ inputs.allowedOutputs query,
      ∃ candidate ∈ allowed, inputs.Chosen after query candidate := by
  induction order generalizing start with
  | nil =>
    cases planned
    exact ⟨.refl _, nofun⟩
  | cons query order ih =>
    rw [List.foldlM_cons, Option.bind_eq_bind, Option.bind_eq_some_iff] at planned
    obtain ⟨middle, first, rest⟩ := planned
    obtain ⟨grows, each⟩ := planQuery_grows recorded first
    obtain ⟨grown, later⟩ := ih (grows.recorded recorded) rest
    refine ⟨grows.trans grown, fun other member allowed listed => ?_⟩
    rcases List.mem_cons.mp member with rfl | member
    · obtain ⟨candidate, here, chosen⟩ := each allowed listed
      exact ⟨candidate, here, chosen.mono grown.toExtends⟩
    · exact later other member allowed listed

theorem empty_recorded : inputs.Recorded Plan.empty :=
  fun _ _ _ _ found => by simp [Plan.empty] at found

/-- An output reference planned has a candidate chosen, and one alone where all its candidates stand
in one slot. -/
theorem coverage_met (grows : inputs.Grows ∅ ∅ Plan.empty plan) {entry : Nat × List (Fin n)}
    (listed : entry ∈ inputs.references.zip inputs.outputs)
    (each : ∀ allowed ∈ inputs.allowedOutputs entry.1, ∃ candidate ∈ allowed,
      inputs.Chosen plan entry.1 candidate) :
    1 ≤ (inputs.chosenSum entry.1 entry.2).eval (inputs.binariesOf plan) ∧
      (entry.2.Nodup → (∀ a ∈ entry.2, ∀ b ∈ entry.2, a ∈ inputs.options entry.1 →
        b ∈ inputs.options entry.1 → inputs.slot a = inputs.slot b) →
        (inputs.chosenSum entry.1 entry.2).eval (inputs.binariesOf plan) = 1) := by
  obtain ⟨candidate, here, chosen⟩ := each (entry.2.filter fun candidate =>
    candidate ∈ inputs.options entry.1) (List.mem_filterMap.mpr ⟨entry, listed, if_pos rfl⟩)
  have above := chosen_le_sum grows (List.mem_filter.mp here).1 chosen
  exact ⟨above, fun distinct same => le_antisymm (chosenSum_le_one grows distinct same) above⟩

end MilpInputs

namespace PhysicalASAPMemoCandidates
variable {n : Nat} (physical : PhysicalASAPMemoCandidates n) (alive usable : Fin n → Bool)
  (refreshWindow : Fin n → Option RefreshWindow) {Memo Number : Type} [LinearOrder Number]

theorem outputs_distinct {candidates : List (Fin n)}
    (listed : candidates ∈ (physical.milpInputs alive usable refreshWindow).outputs) :
    candidates.Nodup := by
  obtain ⟨_, _, rfl⟩ := List.mem_map.mp listed
  exact ascending_nodup _

/-- Whatever the estimates and the order of the queries: an attempt, a failed choice of an attempt
and attempts that all fail are undone to the plan before them, and a plan returned meets rows 2, 3
and 5, with an output candidate chosen for each output reference of the queries planned, which is
the only one where the reference's candidates share a slot. -/
theorem sequentialPlan_starts (attempting : MilpInputs.Attempting n Memo Number) (order : List Nat)
    (plan : Plan n) (planned : (physical.milpInputs alive usable refreshWindow).sequentialPlan
      attempting order = some plan) :
    let inputs := physical.milpInputs alive usable refreshWindow
    (∀ query tried state derived, inputs.attempt attempting query tried plan = (state, derived) →
      state.plan.undoAll state.undo = plan) ∧
    (∀ query tries fallback after kept,
      inputs.tryAttempts attempting query tries fallback plan = (after, false, kept) → after = plan) ∧
    (∀ query tried depth context candidate before after,
      inputs.Makes (attempting.estimates query tried) query plan depth (.choose context candidate)
        before →
      inputs.choose (inputs.read (attempting.estimates query tried) depth) context candidate before =
        (after, false) →
      after.plan.undoAll (after.undo.drop before.undo.length) = before.plan) ∧
    (∀ row ∈ inputs.startingRows, row.Holds (inputs.binariesOf plan)) ∧
    ∀ entry ∈ inputs.references.zip inputs.outputs, entry.1 ∈ order →
      1 ≤ (inputs.chosenSum entry.1 entry.2).eval (inputs.binariesOf plan) ∧
      ((∀ a ∈ entry.2, ∀ b ∈ entry.2, a ∈ inputs.options entry.1 → b ∈ inputs.options entry.1 →
          inputs.slot a = inputs.slot b) →
        (Constraint.eq (inputs.chosenSum entry.1 entry.2) (.const 1)).Holds
          (inputs.binariesOf plan)) := by
  intro inputs
  obtain ⟨grows, each⟩ := MilpInputs.sequentialPlan_grows MilpInputs.empty_recorded planned
  have recorded := MilpInputs.recorded_of grows
  refine ⟨?_, ?_, ?_, ?_, ?_⟩
  · intro query tried state derived run
    exact (MilpInputs.attempt_reads recorded run).1
  · intro query tries fallback after kept run
    exact (MilpInputs.tryAttempts_reads recorded run).1 rfl
  · intro query tried depth context candidate before after made run
    obtain ⟨recorded, listed, free⟩ := made.ready recorded
    exact (MilpInputs.choose_reads (MilpInputs.read_reads _) run recorded free listed).1.undone.1
  · intro row member
    rcases List.mem_append.mp member with local' | sharing
    · obtain ⟨context, _, here⟩ := List.mem_flatMap.mp local'
      rw [List.mem_append, List.mem_append, List.mem_append] at here
      rcases here with ((slot | validity) | own) | links
      · exact MilpInputs.slotRows_met grows (options_distinct context) row slot
      · obtain ⟨option, _, listed⟩ := List.mem_flatMap.mp validity
        exact MilpInputs.validityRows_met grows row listed
      · exact MilpInputs.ownRows_met grows (fun _ kind => (context_owned kind).2) row own
      · obtain ⟨reader, _, listed⟩ := List.mem_flatMap.mp links
        exact MilpInputs.slotLinkRows_met grows row listed
    · exact MilpInputs.sharingRows_met grows row sharing
  · intro entry listed inOrder
    obtain ⟨above, alone⟩ := MilpInputs.coverage_met grows listed (each entry.1 inOrder)
    refine ⟨above, fun same => ?_⟩
    show _ = (Expression.const 1).eval _
    rw [Expression.eval_const]
    exact alone (outputs_distinct physical alive usable refreshWindow (List.of_mem_zip listed).2) same

/-! ### A root that reads another root of its group -/

def selfReading : PhysicalASAPMemoCandidates 2 where
  operatorNodes := [⟨0, true⟩, ⟨0, true⟩]
  candidates candidate :=
    { operatorNode := candidate
      timing := .queryTime
      materialization := .notMaterialized
      producerCandidatesPerInput := if candidate = 0 then [[1]] else []
      mayProduceQueryOutput := true }
  queryRoots := [.operator 0]

def selfReadingInputs : MilpInputs 2 :=
  selfReading.milpInputs (fun _ => true) (fun _ => true) fun _ => none

/-- Every candidate is estimated at zero, and every plan meets its query. -/
def level {n : Nat} : MilpInputs.Attempting n Unit Nat where
  estimates _ _ := ⟨(), fun _ _ _ _ => (0, ()), fun _ => true⟩
  meetsAccuracy _ _ := true
  meetsLatency _ _ := true

/-- Both roots are chosen for the one output reference. -/
theorem selfReading_covered_twice : ∃ plan, selfReadingInputs.sequentialPlan level [0] = some plan ∧
    ∃ row ∈ selfReadingInputs.coverageRows, ¬ row.Holds (selfReadingInputs.binariesOf plan) := by
  have fails : (selfReadingInputs.sequentialPlan level [0]).any (fun plan =>
      selfReadingInputs.coverageRows.any fun row =>
        ¬ row.Holds (selfReadingInputs.binariesOf plan)) = true := by decide +kernel
  cases planned : selfReadingInputs.sequentialPlan level [0] with
  | none =>
    rw [planned] at fails
    cases fails
  | some plan =>
    rw [planned] at fails
    obtain ⟨row, listed, broken⟩ := List.any_eq_true.mp fails
    exact ⟨plan, rfl, row, listed, of_decide_eq_true broken⟩

/-- A query reads either of two views; what the first reads is not alive. -/
def twoViews : PhysicalASAPMemoCandidates 5 where
  operatorNodes := [⟨0, true⟩, ⟨1, true⟩, ⟨1, true⟩, ⟨2, true⟩, ⟨3, true⟩]
  candidates candidate :=
    { operatorNode := candidate
      timing := .queryTime
      materialization := if candidate = 1 ∨ candidate = 2 then .matAtQuery .memory else .notMaterialized
      producerCandidatesPerInput := match candidate with
        | 0 => [[1, 2]]
        | 1 => [[4]]
        | 2 => [[3]]
        | _ => []
      mayProduceQueryOutput := candidate = 0 }
  queryRoots := [.operator 0]

def twoViewsInputs : MilpInputs 5 := twoViews.milpInputs (· ≠ 4) (fun _ => true) fun _ => none

/-- The first view is chosen, fails and is undone. -/
theorem sequentialPlan_starts_secondView :
    ∃ plan, twoViewsInputs.sequentialPlan level [0] = some plan ∧ 1 ∉ plan.selected ∧ 2 ∈ plan.selected ∧
      ∀ row ∈ twoViewsInputs.startingRows, row.Holds (twoViewsInputs.binariesOf plan) := by
  have found : (twoViewsInputs.sequentialPlan level [0]).any (fun plan =>
      1 ∉ plan.selected ∧ 2 ∈ plan.selected) = true := by decide +kernel
  obtain ⟨plan, planned, second⟩ := (Option.any_eq_true _ _).mp found
  obtain ⟨undone, chosen⟩ := of_decide_eq_true second
  exact ⟨plan, planned, undone, chosen, (sequentialPlan_starts twoViews (· ≠ 4) (fun _ => true)
    (fun _ => none) level [0] plan planned).2.2.2.1⟩

end PhysicalASAPMemoCandidates
end AsapPlanner.Milp
