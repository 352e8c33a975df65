import AsapPlanner.Milp.ContextRanks
import AsapPlanner.Milp.Needed

/-!
The plans of ranked solutions: cycles are excluded inside contexts and between the runs that read
across them, but not through a shareable candidate's own context back to it.
-/

namespace AsapPlanner.Milp
open Relation Rust Traversal

namespace MilpInputs
variable {n : Nat} {inputs : MilpInputs n} {chosen : ChosenCandidates n} {value : Variable n → ℚ}

def Within (inputs : MilpInputs n) (own : Fin n) : Run n → Prop
  | .shared shareable => shareable = own
  | .computed context _ => (inputs.context context).kind = .shared own

/-- The own run of a shareable candidate reads itself through the runs of its context. -/
def OwnCycle (inputs : MilpInputs n) (chosen : ChosenCandidates n) (own : Fin n) : Prop :=
  TransGen (fun run read => inputs.ReadsReached chosen run read ∧ inputs.Within own run ∧
    inputs.Within own read) (.shared own) (.shared own)

/-! ### Where a run's reads count across contexts -/

/-- The run that reads across contexts for a run: the own run of its context, or a pipeline's run. -/
def home (inputs : MilpInputs n) : Run n → Option (Nat × Fin n)
  | .shared own => (inputs.contextOfShareable own).map fun context => (context, own)
  | .computed context candidate =>
    match (inputs.context context).kind with
    | .query _ => none
    | .ingestion _ => some (context, candidate)
    | .shared own => some (context, own)

def ReadAcross (inputs : MilpInputs n) (value : Variable n → ℚ) (reader read : Nat × Fin n) : Prop :=
  inputs.UsedRead value reader read ∧ reader ≠ read

/-- One read of a reached run: within its context, of a shareable candidate's own run, or of a
pipeline's run from outside. -/
inductive Step (inputs : MilpInputs n) (chosen : ChosenCandidates n) : Run n → Run n → Prop
  | inside {context : Nat} {reader producer : Fin n}
      (readerHere : reader ∈ chosen.chosen context)
      (readerComputed : inputs.computes context reader = true)
      (producerHere : producer ∈ chosen.chosen context)
      (producerComputed : inputs.computes context producer = true)
      (apart : inputs.slot producer ≠ inputs.slot reader)
      (listed : ∃ producers ∈ inputs.producers reader, producer ∈ producers) :
      Step inputs chosen (.computed context reader) (.computed context producer)
  | own {own producer : Fin n} {context : Nat} (place : inputs.contextOfShareable own = some context)
      (producerHere : producer ∈ chosen.chosen context)
      (producerComputed : inputs.computes context producer = true) :
      Step inputs chosen (.shared own) (.computed context producer)
  | across {run : Run n} {producer : Fin n} {context : Nat} {read : Run n}
      (place : inputs.contextOf run = some context)
      (listed : ∃ producers ∈ inputs.producers run.candidate, producer ∈ producers)
      (producerHere : producer ∈ chosen.chosen context)
      (boundary : inputs.computes context producer = false)
      (resolved : inputs.runOf chosen context producer = some read) : Step inputs chosen run read

theorem Reached.step (formed : inputs.WellFormed) {run read : Run n}
    (reached : inputs.Reached chosen run) (reads : inputs.Reads chosen run read) :
    inputs.Step chosen run read := by
  obtain ⟨context, input, producers, producer, place, found, readable, resolved⟩ := reads_ok reads
  have here := (runOf_some resolved).1
  have listed : ∃ producers ∈ inputs.producers run.candidate, producer ∈ producers :=
    ⟨producers, List.mem_of_getElem? found, mem_of_readable readable⟩
  cases computes : inputs.computes context producer with
  | false => exact .across place listed here computes resolved
  | true =>
    have same : read = .computed context producer := by
      rw [runOf, if_neg (not_not.mpr here), if_pos computes] at resolved
      exact (Option.some.inj resolved).symm
    subst same
    cases run with
    | shared own => exact .own place here computes
    | computed context' reader =>
      cases place
      obtain ⟨readerHere, readerComputed⟩ := reached.chosen formed
      exact .inside readerHere readerComputed here computes (slot_of_readable readable).1 listed

theorem Reached.place (formed : inputs.WellFormed) {context : Nat} {candidate own : Fin n}
    (reached : inputs.Reached chosen (.computed context candidate))
    (kind : (inputs.context context).kind = .shared own) :
    inputs.contextOfShareable own = some context := by
  obtain ⟨outputs, result, output, listed, path⟩ := reached
  generalize same : Run.computed context candidate = run at path
  induction path generalizing candidate with
  | refl =>
    subst same
    obtain ⟨query, _, _, pair, _, found⟩ := outputRuns_ok result listed
    obtain ⟨rfl, rfl⟩ := read_cases formed found kind rfl
    rw [formed.queries _ (List.of_mem_zip pair).1] at kind
    cases kind
  | @tail reader run _ reads ih =>
    subst same
    obtain ⟨there, _, _, _, place, _, _, found⟩ := reads_ok reads
    obtain ⟨rfl, rfl⟩ := read_cases formed found kind rfl
    cases reader with
    | computed context' candidate' =>
      cases place
      exact ih rfl
    | shared own' =>
      have kind' := (formed.shared own' there place).2
      rw [kind] at kind'
      cases kind'
      exact place

theorem home_computed {context : Nat} {candidate : Fin n} {place : Nat × Fin n}
    (here : inputs.home (.computed context candidate) = some place) :
    (∃ pipeline, (inputs.context context).kind = .ingestion pipeline) ∧ place = (context, candidate) ∨
      (inputs.context context).kind = .shared place.2 ∧ place.1 = context := by
  rw [home] at here
  split at here
  · cases here
  · next pipeline kind =>
    cases here
    exact .inl ⟨⟨pipeline, kind⟩, rfl⟩
  · next own kind =>
    cases here
    exact .inr ⟨kind, rfl⟩

theorem Solution.read_home (solution : inputs.Solution value) (formed : inputs.WellFormed)
    {context : Nat} {producer : Fin n} {read : Run n}
    (boundary : inputs.computes context producer = false)
    (resolved : inputs.runOf (inputs.chosenBy value) context producer = some read) :
    ∃ place, inputs.home read = some place ∧ inputs.nodeRead context producer = some place := by
  obtain ⟨_, ⟨computes, _⟩ | ⟨kind, selected, rfl⟩ | ⟨ingestion, kind, source, there, rfl⟩⟩ :=
    runOf_some resolved
  · rw [boundary] at computes
    cases computes
  · obtain ⟨place, found⟩ :=
      Option.isSome_iff_exists.mp ((mem_selected solution.integral).mp selected).1
    refine ⟨(place, producer), by rw [home, found]; rfl, ?_⟩
    exact nodeRead_some.mpr ⟨rfl, mem_nodes.mpr (.inl found), .inl ⟨kind, found⟩⟩
  · obtain ⟨pipeline, isPipeline⟩ := pipeline_of_source formed source
    have computed : producer ∈ inputs.computed ingestion := by
      refine mem_computed.mpr ⟨((mem_chosen solution.integral).mp there).1, ?_⟩
      rw [MilpInputs.computes, kind, ExecutionContext.computes, isPipeline]
    refine ⟨(ingestion, producer), by rw [home, isPipeline], ?_⟩
    exact nodeRead_some.mpr ⟨rfl, mem_nodes.mpr (.inr ⟨⟨pipeline, isPipeline⟩, computed⟩),
      .inr ⟨kind, source⟩⟩

theorem pipeline_kind (formed : inputs.WellFormed) {context : Nat} {pipeline : IngestionPipeline n}
    (isPipeline : (inputs.context context).kind = .ingestion pipeline) {candidate : Fin n}
    (computes : inputs.computes context candidate = true) : inputs.kind candidate = .ingestion := by
  unfold MilpInputs.computes at computes
  cases kind : inputs.kind candidate with
  | ingestion => rfl
  | perContext =>
    rw [kind, ExecutionContext.computes, formed.ingestionTime context pipeline isPipeline] at computes
    cases computes
  | shareable =>
    rw [kind] at computes
    cases computes

theorem Solution.step_home (solution : inputs.Solution value) (formed : inputs.WellFormed)
    {run read : Run n} (reached : inputs.Reached (inputs.chosenBy value) run)
    (step : inputs.Step (inputs.chosenBy value) run read) {place : Nat × Fin n}
    (here : inputs.home run = some place) :
    ∃ other, inputs.home read = some other ∧ (other = place ∨ inputs.UsedRead value place other) := by
  cases step with
  | @inside context reader producer readerHere readerComputed producerHere producerComputed apart
      listed =>
    obtain ⟨readerListed, readerOne⟩ := (mem_chosen solution.integral).mp readerHere
    obtain ⟨producerListed, producerOne⟩ := (mem_chosen solution.integral).mp producerHere
    rcases home_computed here with ⟨⟨pipeline, kind⟩, rfl⟩ | ⟨kind, rfl⟩
    · refine ⟨(context, producer), by rw [home, kind], .inr ?_⟩
      obtain ⟨producers, listed, member⟩ := listed
      refine .pipeline kind ⟨mem_computed.mpr ⟨readerListed, readerComputed⟩, readerOne⟩
        (List.mem_flatten.mpr ⟨producers, listed, member⟩) producerListed producerOne ?_ ?_
      · refine nodeRead_some.mpr ⟨rfl, mem_nodes.mpr (.inr ⟨⟨pipeline, kind⟩,
          mem_computed.mpr ⟨producerListed, producerComputed⟩⟩), .inr
            ⟨pipeline_kind formed kind producerComputed, ?_⟩⟩
        rw [ingestionContextReadBy, kind]
      · intro same
        cases same
        exact apart rfl
    · exact ⟨place, by rw [home, kind], .inl rfl⟩
  | @own own producer context ownPlace producerHere producerComputed =>
    rw [home, ownPlace, Option.map_some, Option.some.injEq] at here
    subst here
    exact ⟨(context, own), by rw [home, (formed.shared own context ownPlace).2], .inl rfl⟩
  | @across _ producer context _ runPlace listed producerHere boundary resolved =>
    obtain ⟨other, readHome, node⟩ := solution.read_home formed boundary resolved
    obtain ⟨producerListed, producerOne⟩ := (mem_chosen solution.integral).mp producerHere
    refine ⟨other, readHome, .inr ?_⟩
    cases run with
    | shared own =>
      have ownPlace : inputs.contextOfShareable own = some context := runPlace
      rw [home, ownPlace, Option.map_some, Option.some.injEq] at here
      subst here
      exact .own ownPlace producerListed producerOne node
    | computed context' candidate =>
      cases runPlace
      rcases home_computed here with ⟨⟨pipeline, kind⟩, rfl⟩ | ⟨kind, rfl⟩
      · obtain ⟨candidateHere, candidateComputed⟩ := reached.chosen formed
        obtain ⟨candidateListed, candidateOne⟩ := (mem_chosen solution.integral).mp candidateHere
        obtain ⟨producers, listed, member⟩ := listed
        refine .pipeline kind ⟨mem_computed.mpr ⟨candidateListed, candidateComputed⟩, candidateOne⟩
          (List.mem_flatten.mpr ⟨producers, listed, member⟩) producerListed producerOne node ?_
        intro same
        have named := (nodeRead_some.mp node).1
        rw [same] at named
        cases named
        rw [boundary] at candidateComputed
        cases candidateComputed
      · exact .own (reached.place formed kind) producerListed producerOne node

/-! ### Cycles of reads -/

section Cycles
variable (solution : inputs.Solution value) (formed : inputs.WellFormed)
include solution formed

theorem home_path {run read : Run n}
    (path : TransGen (inputs.ReadsReached (inputs.chosenBy value)) run read) {place : Nat × Fin n}
    (here : inputs.home run = some place) :
    ∃ other, inputs.home read = some other ∧ ReflTransGen (inputs.ReadAcross value) place other := by
  have one : ∀ {a b place}, inputs.ReadsReached (inputs.chosenBy value) a b →
      inputs.home a = some place → ∃ other, inputs.home b = some other ∧
        ReflTransGen (inputs.ReadAcross value) place other := by
    rintro a b place ⟨reached, reads⟩ here
    obtain ⟨other, there, same | used⟩ :=
      solution.step_home formed reached (reached.step formed reads) here
    · exact ⟨other, there, same ▸ .refl⟩
    · refine ⟨other, there, ?_⟩
      by_cases same : place = other
      · exact same ▸ .refl
      · exact .single ⟨used, same⟩
  induction path with
  | single step => exact one step here
  | tail _ step ih =>
    obtain ⟨middle, there, before⟩ := ih
    obtain ⟨other, last, after⟩ := one step there
    exact ⟨other, last, before.trans after⟩

variable (across : Acyclic (inputs.ReadAcross value))
include across

theorem home_cycle {run read : Run n}
    (there : TransGen (inputs.ReadsReached (inputs.chosenBy value)) run read)
    (back : TransGen (inputs.ReadsReached (inputs.chosenBy value)) read run) :
    inputs.home run = inputs.home read := by
  cases here : inputs.home run with
  | none =>
    cases readHome : inputs.home read with
    | none => rfl
    | some place =>
      obtain ⟨other, runHome, _⟩ := home_path solution formed back readHome
      rw [here] at runHome
      cases runHome
  | some place =>
    obtain ⟨other, readHome, forward⟩ := home_path solution formed there here
    obtain ⟨place', runHome, backward⟩ := home_path solution formed back readHome
    cases here.symm.trans runHome
    rw [readHome]
    rcases reflTransGen_iff_eq_or_transGen.mp forward with same | path
    · rw [same]
    · exact absurd (TransGen.trans_left path backward) (across place)

theorem ownCycle_of_cycle {own : Fin n}
    (cycle : TransGen (inputs.ReadsReached (inputs.chosenBy value)) (.shared own) (.shared own)) :
    inputs.OwnCycle (inputs.chosenBy value) own := by
  have placed : ∃ context, inputs.contextOfShareable own = some context := by
    obtain ⟨_, ⟨reached, _⟩, _⟩ := TransGen.head'_iff.mp cycle
    have selected : own ∈ (inputs.chosenBy value).selected := reached.chosen formed
    exact Option.isSome_iff_exists.mp ((mem_selected solution.integral).mp selected).1
  obtain ⟨context, place⟩ := placed
  have kind := (formed.shared own context place).2
  have home : inputs.home (.shared own) = some (context, own) := by
    rw [MilpInputs.home, place]
    rfl
  have within : ∀ run, TransGen (inputs.ReadsReached (inputs.chosenBy value)) (.shared own) run →
      TransGen (inputs.ReadsReached (inputs.chosenBy value)) run (.shared own) →
      inputs.Within own run := by
    intro run there back
    have same := (home_cycle solution formed across there back).symm.trans home
    cases run with
    | shared shareable =>
      rw [MilpInputs.home] at same
      obtain ⟨_, _, same⟩ := Option.map_eq_some_iff.mp same
      cases same
      rfl
    | computed context' candidate =>
      rcases home_computed same with ⟨⟨pipeline, kind'⟩, same⟩ | ⟨kind', same⟩
      · cases same
        rw [kind] at kind'
        cases kind'
      · exact kind'
  have steps : ∀ {run}, TransGen (inputs.ReadsReached (inputs.chosenBy value)) (.shared own) run →
      TransGen (inputs.ReadsReached (inputs.chosenBy value)) run (.shared own) →
      TransGen (fun run read => inputs.ReadsReached (inputs.chosenBy value) run read ∧
        inputs.Within own run ∧ inputs.Within own read) (.shared own) run := by
    intro run path
    induction path with
    | single step => exact fun back => .single ⟨step, rfl, within _ (.single step) back⟩
    | tail before step ih =>
      intro back
      have backBefore := TransGen.head step back
      exact (ih backBefore).tail ⟨step, within _ before backBefore, within _ (before.tail step) back⟩
  exact steps cycle cycle

theorem acyclic_of_ranked (inside : ∀ context, Acyclic (inputs.UsedLink value context))
    (unfed : ∀ own, ¬ inputs.OwnCycle (inputs.chosenBy value) own) :
    Acyclic (inputs.ReadsReached (inputs.chosenBy value)) := by
  intro run cycle
  have links : ∀ a b, inputs.ReadsReached (inputs.chosenBy value) a b ∧
      TransGen (inputs.ReadsReached (inputs.chosenBy value)) b a →
      ∃ context reader producer, a = .computed context reader ∧ b = .computed context producer ∧
        inputs.UsedLink value context producer reader := by
    rintro a b ⟨⟨reached, reads⟩, back⟩
    have forth : TransGen (inputs.ReadsReached (inputs.chosenBy value)) a b := .single ⟨reached, reads⟩
    have unshared : ∀ {own}, a ≠ .shared own ∧ b ≠ .shared own := by
      refine fun {own} => ⟨?_, ?_⟩
      · rintro rfl
        exact unfed own (ownCycle_of_cycle solution formed across (forth.trans back))
      · rintro rfl
        exact unfed own (ownCycle_of_cycle solution formed across (back.trans forth))
    cases reached.step formed reads with
    | inside readerHere readerComputed producerHere producerComputed apart listed =>
      obtain ⟨readerListed, readerOne⟩ := (mem_chosen solution.integral).mp readerHere
      obtain ⟨producerListed, producerOne⟩ := (mem_chosen solution.integral).mp producerHere
      exact ⟨_, _, _, rfl, rfl, ⟨mem_computed.mpr ⟨producerListed, producerComputed⟩, producerOne⟩,
        ⟨mem_computed.mpr ⟨readerListed, readerComputed⟩, readerOne⟩, apart, listed⟩
    | own _ _ _ => exact absurd rfl unshared.1
    | @across _ producer context _ place _ _ boundary resolved =>
      obtain ⟨_, ⟨computes, _⟩ | ⟨_, _, rfl⟩ | ⟨ingestion, kind, source, there, rfl⟩⟩ :=
        runOf_some resolved
      · rw [boundary] at computes
        cases computes
      · exact absurd rfl unshared.2
      · obtain ⟨pipeline, isPipeline⟩ := pipeline_of_source formed source
        have readHome : inputs.home (.computed ingestion producer) = some (ingestion, producer) := by
          rw [home, isPipeline]
        have same := (home_cycle solution formed across forth back).trans readHome
        cases a with
        | shared own => exact absurd rfl unshared.1
        | computed context' candidate =>
          cases place
          rcases home_computed same with ⟨_, same⟩ | ⟨kind', same⟩
          · cases same
            rw [MilpInputs.computes, kind, ExecutionContext.computes, isPipeline] at boundary
            cases boundary
          · dsimp only at same
            subst same
            rw [isPipeline] at kind'
            cases kind'
  have turned := TransGen.leadingBack cycle .refl
  obtain ⟨_, first, _⟩ := TransGen.head'_iff.mp turned
  obtain ⟨context, start, _, rfl, _, _⟩ := links _ _ first
  have path : ∀ {read}, TransGen (fun a b => inputs.ReadsReached (inputs.chosenBy value) a b ∧
      TransGen (inputs.ReadsReached (inputs.chosenBy value)) b a) (.computed context start) read →
      ∃ producer, read = .computed context producer ∧
        TransGen (inputs.UsedLink value context) producer start := by
    intro read path
    induction path with
    | single step =>
      obtain ⟨_, _, producer, same, rfl, link⟩ := links _ _ step
      cases same
      exact ⟨producer, rfl, .single link⟩
    | tail _ step ih =>
      obtain ⟨middle, rfl, before⟩ := ih
      obtain ⟨_, _, producer, same, rfl, link⟩ := links _ _ step
      cases same
      exact ⟨producer, rfl, .head link before⟩
  obtain ⟨producer, same, path⟩ := path turned
  cases same
  exact inside context start path

end Cycles

theorem suppliesItself_of_ownCycle (solution : inputs.Solution value) (formed : inputs.WellFormed)
    {own : Fin n} (cycle : inputs.OwnCycle (inputs.chosenBy value) own) :
    inputs.SuppliesItself value own := by
  have start : inputs.Reached (inputs.chosenBy value) (.shared own) := by
    obtain ⟨_, ⟨⟨reached, _⟩, _⟩, _⟩ := TransGen.head'_iff.mp cycle
    exact reached
  obtain ⟨context, place⟩ : ∃ context, inputs.contextOfShareable own = some context :=
    Option.isSome_iff_exists.mp ((mem_selected solution.integral).mp (start.chosen formed)).1
  have kind := (formed.shared own context place).2
  obtain ⟨query, below⟩ := start.runOfQuery
  obtain ⟨reading, option, needed, resolved⟩ := solution.needed_of_runOfQuery formed below
  obtain ⟨shareable, rfl⟩ : inputs.kind option = .shareable ∧ option = own := by
    obtain ⟨_, ⟨_, same⟩ | ⟨shareable, _, same⟩ | ⟨_, _, _, _, same⟩⟩ := runOf_some resolved
    · cases same
    · exact ⟨shareable, (Run.shared.inj same).symm⟩
    · cases same
  refine ⟨shareable, ⟨query, reading, needed⟩, context, place, ?_⟩
  have read {producer : Fin n} {read : Run n} (supply : inputs.OwnSupply value context option producer)
      (found : inputs.runOf (inputs.chosenBy value) context producer = some read)
      (within : inputs.Within option read) : inputs.OwnSupply value context option option ∨
        ∃ candidate, read = .computed context candidate ∧
          inputs.OwnSupply value context option candidate := by
    cases read with
    | shared shareable =>
      cases within
      cases runOf_candidate found
      exact .inl supply
    | computed context' candidate =>
      obtain ⟨rfl, rfl⟩ := read_cases formed found within rfl
      exact .inr ⟨producer, rfl, supply⟩
  -- Until it comes back, the cycle visits candidates that the context supplies.
  have path : ∀ {run}, TransGen (fun run read => inputs.ReadsReached (inputs.chosenBy value) run read ∧
      inputs.Within option run ∧ inputs.Within option read) (.shared option) run →
      inputs.OwnSupply value context option option ∨ ∃ candidate, run = .computed context candidate ∧
        inputs.OwnSupply value context option candidate := by
    intro run path
    induction path with
    | single step =>
      obtain ⟨⟨_, reads⟩, _, within⟩ := step
      obtain ⟨_, input, producers, there, found, first⟩ := reads_first reads
      cases place.symm.trans there
      obtain ⟨producer, firstChosen, resolved⟩ := (solution.findSome_runOf formed).mp first
      exact read (.input ⟨producers, List.mem_of_getElem? found, firstChosen⟩) resolved within
    | tail _ step ih =>
      obtain supplied | ⟨candidate, rfl, supply⟩ := ih
      · exact .inl supplied
      · obtain ⟨⟨reached, reads⟩, _, within⟩ := step
        obtain ⟨_, input, producers, there, found, first⟩ := reads_first reads
        cases there
        obtain ⟨producer, firstChosen, resolved⟩ := (solution.findSome_runOf formed).mp first
        have supplies := solution.supplies_of_readable (reached.chosen formed) found
          (List.mem_of_find?_eq_some firstChosen) ((chooses_iff solution.integral).mpr (runOf_some resolved).1)
        exact read (.link supply supplies) resolved within
  obtain supplied | ⟨_, same, _⟩ := path cycle
  · exact supplied
  · cases same

/-- A ranked solution is a plan exactly when no needed shareable candidate is supplied to itself by its own
context. -/
theorem plan_iff (physical : PhysicalASAPMemoCandidates n) (alive usable : Fin n → Bool)
    (refreshWindow : Fin n → Option RefreshWindow) (value : Variable n → ℚ)
    (solution : (physical.milpInputs alive usable refreshWindow).Solution value)
    (ranked : ∀ row ∈ (physical.milpInputs alive usable refreshWindow).rankRows, row.Met value) :
    (∃ dag, (physical.milpInputs alive usable refreshWindow).decode
      ((physical.milpInputs alive usable refreshWindow).chosenBy value) = .ok dag ∧
      dag.Acyclic ∧ dag.Valid physical) ↔
      ∀ own, ¬ (physical.milpInputs alive usable refreshWindow).SuppliesItself value own := by
  have formed : (physical.milpInputs alive usable refreshWindow).WellFormed :=
    PhysicalASAPMemoCandidates.milpInputs_wellFormed
  have integral := solution.integral
  constructor
  · rintro ⟨dag, decoded, acyclic, _⟩ own supplied
    exact (decode_fine decoded).2.mp acyclic (.shared own)
      (solution.cycle_of_suppliesItself formed supplied)
  · intro unsupplied
    have unfed : ∀ own, ¬ (physical.milpInputs alive usable refreshWindow).OwnCycle
        ((physical.milpInputs alive usable refreshWindow).chosenBy value) own :=
      fun own => mt (suppliesItself_of_ownCycle solution formed) (unsupplied own)
    obtain ⟨dag, decoded, valid⟩ := PhysicalASAPMemoCandidates.decode_valid solution
    refine ⟨dag, decoded, (decode_fine decoded).2.mpr ?_, valid⟩
    have same : withRanks value (fun context candidate => value (.rank context candidate))
        (fun run => value (.contextRank run)) = value := by
      funext v
      cases v <;> rfl
    rw [← same] at ranked
    obtain ⟨inside, across⟩ := (rankRows_met _ _).mp ranked
    refine acyclic_of_ranked solution formed (reads_acyclic formed integral across) ?_ unfed
    intro context
    by_cases here : context < (physical.milpInputs alive usable refreshWindow).contexts.length
    · exact links_acyclic integral (inside context here)
    · intro candidate cycle
      obtain ⟨_, ⟨⟨computed, _⟩, _⟩, _⟩ := TransGen.head'_iff.mp cycle
      exact here (lt_of_option (mem_computed.mp computed).1)

/-! ### A view that reads itself -/

/-- A view over a filter that may read the view's own group, which a query reads. -/
def ownReader : PhysicalASAPMemoCandidates 4 where
  operatorNodes := [⟨0, true⟩, ⟨1, true⟩, ⟨0, true⟩, ⟨2, true⟩]
  candidates candidate :=
    { operatorNode := candidate
      timing := .queryTime
      materialization := if candidate = 0 then .matAtQuery .memory else .notMaterialized
      producerCandidatesPerInput := match candidate with
        | 0 => [[1]]
        | 1 => [[0, 2]]
        | 3 => [[0, 2]]
        | _ => []
      mayProduceQueryOutput := candidate = 3 }
  queryRoots := [.operator 2]

def ownInputs : MilpInputs 4 := ownReader.milpInputs (fun _ => true) (fun _ => true) fun _ => none

def ownChoices (read : Fin 4) : List (Variable 4) :=
  [.choice 0 3, .choice 0 0, .choice 1 1, .choice 1 read, .selected 0]

theorem own_solution : ownInputs.Solution (assignment (ownChoices 0)) ∧
    ownInputs.Solution (assignment (ownChoices 2)) :=
  ⟨⟨assignment_integral _, by decide +kernel⟩, ⟨assignment_integral _, by decide +kernel⟩⟩

theorem own_ranked {ones : List (Variable 4)} :
    ∀ row ∈ ownInputs.rankRows, row.Met (assignment ones) := by
  have none : ownInputs.rankRows.length = 0 := by decide +kernel
  rw [List.length_eq_zero_iff.mp none]
  exact nofun

/-- No rank row rules out the view's read of itself, since its component has one node. -/
theorem own_cycle : ownInputs.Solution (assignment (ownChoices 0)) ∧
    (∀ row ∈ ownInputs.rankRows, row.Met (assignment (ownChoices 0))) ∧
    ∃ dag : DagOfSelectedCandidates 4,
      ownInputs.decode (ownInputs.chosenBy (assignment (ownChoices 0))) = .ok dag ∧ ¬ dag.Acyclic := by
  refine ⟨own_solution.1, own_ranked, ⟨[3, 0, 1], [⟨1, 0, 0⟩, ⟨2, 1, 0⟩, ⟨1, 2, 0⟩], [0]⟩,
    by decide +kernel, fun acyclic => acyclic 1 ?_⟩
  exact .tail (.single ⟨⟨2, 1, 0⟩, by decide, rfl, rfl⟩) ⟨⟨1, 2, 0⟩, by decide, rfl, rfl⟩

theorem own_plan : ∃ dag, ownInputs.decode (ownInputs.chosenBy (assignment (ownChoices 2))) = .ok dag ∧
    dag.Acyclic ∧ dag.Valid ownReader := by
  have decoded : ownInputs.decode (ownInputs.chosenBy (assignment (ownChoices 2))) =
      .ok ⟨[3, 0, 1, 2], [⟨1, 0, 0⟩, ⟨2, 1, 0⟩, ⟨3, 2, 0⟩], [0]⟩ := by decide +kernel
  refine (plan_iff ownReader (fun _ => true) (fun _ => true) (fun _ => none)
    (assignment (ownChoices 2)) own_solution.2 own_ranked).mpr fun own supplied => ?_
  have acyclic := (decode_fine decoded).2.mp
    (DagOfSelectedCandidates.acyclic_of_rank id (by decide))
  exact acyclic (.shared own) (own_solution.2.cycle_of_suppliesItself
    PhysicalASAPMemoCandidates.milpInputs_wellFormed supplied)

end MilpInputs
end AsapPlanner.Milp
