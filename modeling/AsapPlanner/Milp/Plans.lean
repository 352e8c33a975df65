import AsapPlanner.Milp.Dependence
import AsapPlanner.Milp.WellFormed

/-!
Every solution decodes: each reached run is chosen, and each of its inputs has a chosen producer.
-/

namespace AsapPlanner.Milp
open Relation Rust Traversal

/-- Every input of every node has one edge, from a node of a listed producer candidate, and every
output reference comes from one of its output candidates. -/
structure DagOfSelectedCandidates.Valid {n : Nat} (dag : DagOfSelectedCandidates n)
    (physical : PhysicalASAPMemoCandidates n) : Prop where
  inputs : ∀ (node input : Nat) candidate producers, dag.candidateOfNode[node]? = some candidate →
    (physical.candidates candidate).producerCandidatesPerInput[input]? = some producers →
    ∃ edge ∈ dag.edges, (edge.consumer = node ∧ edge.input = input) ∧
      (∃ producer ∈ producers, dag.candidateOfNode[edge.producer]? = some producer) ∧
      ∀ other ∈ dag.edges, other.consumer = node → other.input = input → other = edge
  outputs : ∀ (reference : Nat) owner, (outputReferences physical.queryRoots)[reference]? = some owner →
    ∃ (node : Nat) (candidate : Fin n), dag.nodeOfOutputReference[reference]? = some node ∧
      dag.candidateOfNode[node]? = some candidate ∧
      candidate ∈ physical.queryOutputCandidates owner.2

namespace MilpInputs
variable {n : Nat} {inputs : MilpInputs n} {value : Variable n → ℚ}

def RunChosen (inputs : MilpInputs n) (chosen : ChosenCandidates n) : Run n → Prop
  | .computed context candidate =>
    candidate ∈ chosen.chosen context ∧ inputs.computes context candidate = true
  | .shared shareable => shareable ∈ chosen.selected

theorem runOf_runChosen (formed : inputs.WellFormed) {chosen : ChosenCandidates n} {context : Nat}
    {producer : Fin n} {run : Run n} (found : inputs.runOf chosen context producer = some run) :
    inputs.RunChosen chosen run := by
  obtain ⟨here, ⟨computes, rfl⟩ | ⟨_, selected, rfl⟩ | ⟨ingestion, kind, source, there, rfl⟩⟩ :=
    runOf_some found
  · exact ⟨here, computes⟩
  · exact selected
  · obtain ⟨pipeline, isPipeline⟩ := pipeline_of_source formed source
    refine ⟨there, ?_⟩
    rw [MilpInputs.computes, kind, ExecutionContext.computes, isPipeline]

theorem Reached.chosen (formed : inputs.WellFormed) {chosen : ChosenCandidates n} {run : Run n}
    (reached : inputs.Reached chosen run) : inputs.RunChosen chosen run := by
  obtain ⟨_, _, found⟩ := reached.resolved
  exact runOf_runChosen formed found

theorem Solution.inputOf_total (solution : inputs.Solution value) (formed : inputs.WellFormed)
    {run : Run n} (here : inputs.RunChosen (inputs.chosenBy value) run) {context : Nat}
    (place : inputs.contextOf run = some context) {producers : List (Fin n)} {input : Nat}
    (found : (inputs.producers run.candidate)[input]? = some producers) :
    ∃ result, inputs.inputOf (inputs.chosenBy value) context run (producers, input) = .ok result := by
  have readable : ∃ producer ∈ inputs.readable (inputs.chosenBy value) run input producers,
      producer ∈ (inputs.chosenBy value).chosen context := by
    have listed := List.mem_of_getElem? found
    cases run with
    | shared own =>
      obtain ⟨_, one⟩ := (mem_selected solution.integral).mp here
      obtain ⟨inside, kind⟩ := formed.shared own context place
      exact solution.own_chosen inside kind one listed
    | computed context' candidate =>
      cases place
      obtain ⟨chosenHere, computes⟩ := here
      cases links : inputs.slotLinks context candidate input with
      | none =>
        obtain ⟨producer, member, apart, there⟩ := solution.input_chosen chosenHere computes listed
        refine ⟨producer, List.mem_filter.mpr ⟨List.mem_filter.mpr
          ⟨member, decide_eq_true apart⟩, ?_⟩, there⟩
        simp [chosenBy, links]
      | some slots =>
        obtain ⟨slot, inSlots, read, producer, member, same, there⟩ :=
          solution.slot_chosen chosenHere links found
        obtain ⟨_, _, producers', found', rfl⟩ := slotLinks_some links
        have apart := (mem_slotsRead.mp inSlots).1
        rw [← same] at apart
        refine ⟨producer, List.mem_filter.mpr ⟨List.mem_filter.mpr
          ⟨member, decide_eq_true apart⟩, ?_⟩, there⟩
        rw [read]
        exact decide_eq_true same
  obtain ⟨producer, member, there⟩ := readable
  obtain ⟨read, resolved⟩ := solution.runOf_chosen formed there
  cases first : (inputs.readable (inputs.chosenBy value) run input producers).findSome?
      (inputs.runOf (inputs.chosenBy value) context) with
  | none =>
    have missing := List.findSome?_eq_none_iff.mp first producer member
    rw [resolved] at missing
    cases missing
  | some other => exact ⟨(input, other), inputOf_ok.mpr ⟨rfl, first⟩⟩

theorem Solution.inputsOf_total (solution : inputs.Solution value) (formed : inputs.WellFormed)
    {run : Run n} (here : inputs.RunChosen (inputs.chosenBy value) run) :
    ∃ reads, inputs.inputsOf (inputs.chosenBy value) run = .ok reads := by
  have place : ∃ context, inputs.contextOf run = some context := by
    cases run with
    | computed context candidate => exact ⟨context, rfl⟩
    | shared own => exact Option.isSome_iff_exists.mp ((mem_selected solution.integral).mp here).1
  obtain ⟨context, place⟩ := place
  have each : ∀ read ∈ (inputs.producers run.candidate).zipIdx, ∃ result,
      inputs.inputOf (inputs.chosenBy value) context run read = .ok result := by
    rintro ⟨producers, input⟩ member
    exact solution.inputOf_total formed here place (List.mem_zipIdx_iff_getElem?.mp member)
  unfold inputsOf
  rw [place]
  exact mapM_total each

theorem Solution.outputRuns_total (solution : inputs.Solution value) (formed : inputs.WellFormed) :
    ∃ outputs, inputs.outputRuns (inputs.chosenBy value) = .ok outputs := by
  refine mapM_total ?_
  rintro ⟨⟨query, outputs⟩, reference⟩ member
  obtain ⟨output, listed, here⟩ :=
    solution.output_chosen (List.mem_of_getElem? (List.mem_zipIdx_iff_getElem?.mp member))
  obtain ⟨run, resolved⟩ := solution.runOf_chosen formed here
  dsimp only
  cases first : outputs.findSome? (inputs.runOf (inputs.chosenBy value) query) with
  | none =>
    have missing := List.findSome?_eq_none_iff.mp first output listed
    rw [resolved] at missing
    cases missing
  | some run => exact ⟨run, rfl⟩

theorem runOf_candidate {chosen : ChosenCandidates n} {context : Nat} {producer : Fin n} {run : Run n}
    (found : inputs.runOf chosen context producer = some run) : run.candidate = producer := by
  obtain ⟨_, ⟨_, rfl⟩ | ⟨_, _, rfl⟩ | ⟨_, _, _, _, rfl⟩⟩ := runOf_some found <;> rfl

theorem inputsOf_at {chosen : ChosenCandidates n} {run : Run n} {reads : List (Nat × Run n)}
    (result : inputs.inputsOf chosen run = .ok reads) :
    (∀ (input : Nat) producers, (inputs.producers run.candidate)[input]? = some producers →
      ∃ other, reads[input]? = some (input, other) ∧ other.candidate ∈ producers) ∧
    ∀ (position input : Nat) other, reads[position]? = some (input, other) → position = input := by
  obtain ⟨context, _, each⟩ := inputsOf_ok result
  constructor
  · intro input producers found
    have item : (inputs.producers run.candidate).zipIdx[input]? = some (producers, input) := by
      rw [List.getElem?_zipIdx, found]
      simp
    obtain ⟨⟨position, other⟩, there, ok⟩ :=
      exists_getElem?_of_forall₂ (show List.Forall₂ (fun result read => _) reads _ from each.flip) item
    obtain ⟨same, first⟩ := inputOf_ok.mp ok
    obtain ⟨producer, readable, resolved⟩ := List.exists_of_findSome?_eq_some first
    dsimp only at same
    subst same
    exact ⟨other, there, (runOf_candidate resolved).symm ▸ mem_of_readable readable⟩
  · intro position input other found
    obtain ⟨⟨producers, index⟩, item, ok⟩ := exists_getElem?_of_forall₂ each found
    rw [List.getElem?_zipIdx, Option.map_eq_some_iff] at item
    obtain ⟨_, _, same⟩ := item
    have index := (inputOf_ok.mp ok).1
    simp only [Prod.mk.injEq, Nat.zero_add] at same index
    omega

variable {chosen : ChosenCandidates n} {outputs : List (Run n)} {numbered : List (Numbered n)}

theorem Numbering.candidate_idxOf {run : Run n} (known : run ∈ numbered.map Prod.fst) :
    (dagOf outputs numbered).candidateOfNode[(numbered.map Prod.fst).idxOf run]? =
      some run.candidate := by
  rw [candidateOfNode_dagOf, List.getElem?_map, List.getElem?_idxOf known]
  rfl

theorem Numbering.entry (numbering : Numbering inputs chosen outputs [] numbered) {node : Nat}
    {candidate : Fin n} (here : (dagOf outputs numbered).candidateOfNode[node]? = some candidate) :
    ∃ run reads, numbered[node]? = some (run, reads) ∧ run.candidate = candidate ∧
      inputs.inputsOf chosen run = .ok reads := by
  obtain ⟨⟨run, reads⟩, found, same⟩ :=
    Option.map_eq_some_iff.mp ((List.getElem?_map ..).symm.trans here)
  exact ⟨run, reads, found, same, numbering.reads _ (List.mem_of_getElem? found)⟩

theorem Numbering.edge_unique (numbering : Numbering inputs chosen outputs [] numbered) {node : Nat}
    {run : Run n} {reads : List (Nat × Run n)} (found : numbered[node]? = some (run, reads))
    {input : Nat} {producers : List (Fin n)}
    (listed : (inputs.producers run.candidate)[input]? = some producers) :
    ∃ edge ∈ (dagOf outputs numbered).edges, (edge.consumer = node ∧ edge.input = input) ∧
      (∃ producer ∈ producers,
        (dagOf outputs numbered).candidateOfNode[edge.producer]? = some producer) ∧
      ∀ other ∈ (dagOf outputs numbered).edges,
        other.consumer = node → other.input = input → other = edge := by
  have entry := List.mem_of_getElem? found
  obtain ⟨total, placed⟩ := inputsOf_at (numbering.reads _ entry)
  obtain ⟨other, there, member⟩ := total input producers listed
  have read := List.mem_of_getElem? there
  have known := (numbering.closed _ entry _ read).resolve_right List.not_mem_nil
  refine ⟨⟨(numbered.map Prod.fst).idxOf other, node, input⟩,
    mem_edgesOf.mpr ⟨run, reads, found, other, read, rfl⟩, ⟨rfl, rfl⟩,
    ⟨other.candidate, member, Numbering.candidate_idxOf known⟩, ?_⟩
  rintro ⟨producer, consumer, input'⟩ edge rfl rfl
  obtain ⟨run', reads', found', read', listed', same⟩ := mem_edgesOf.mp edge
  cases found.symm.trans found'
  obtain ⟨position, inside⟩ := List.mem_iff_getElem?.mp listed'
  have here := placed position _ _ inside
  dsimp only at here
  rw [here] at inside
  cases there.symm.trans inside
  rw [SelectedEdge.mk.injEq]
  exact ⟨same, rfl, rfl⟩

end MilpInputs

namespace PhysicalASAPMemoCandidates
variable {n : Nat} {physical : PhysicalASAPMemoCandidates n} {alive usable : Fin n → Bool}
  {refreshWindow : Fin n → Option RefreshWindow}

theorem alive_of_reached {chosen : ChosenCandidates n} {run : Run n}
    (reached : (physical.milpInputs alive usable refreshWindow).Reached chosen run) :
    alive run.candidate = true := by
  obtain ⟨outputs, result, output, listed, path⟩ := reached
  cases path with
  | refl =>
    obtain ⟨query, candidates, candidate, pair, member, found⟩ :=
      MilpInputs.outputRuns_ok result listed
    rw [MilpInputs.runOf_candidate found]
    obtain ⟨reference, _, rfl⟩ := List.mem_map.mp (List.of_mem_zip pair).2
    exact (List.mem_filter.mp (mem_ascending.mp member)).2
  | tail _ reads =>
    obtain ⟨context, input, producers, producer, _, item, readable, found⟩ := MilpInputs.reads_ok reads
    rw [MilpInputs.runOf_candidate found]
    have member := MilpInputs.mem_of_readable readable
    have left : producers ∈ physical.producerCandidatesLeft alive _ := List.mem_of_getElem? item
    unfold producerCandidatesLeft at left
    split at left
    · obtain ⟨_, _, rfl⟩ := List.mem_map.mp left
      exact (List.mem_filter.mp member).2
    · cases left

theorem producers_left {candidate : Fin n} (live : alive candidate = true) {input : Nat}
    {producers : List (Fin n)}
    (listed : (physical.candidates candidate).producerCandidatesPerInput[input]? = some producers) :
    ∃ left, (physical.producerCandidatesLeft alive candidate)[input]? = some left ∧
      ∀ producer ∈ left, producer ∈ producers := by
  unfold producerCandidatesLeft candidateLinks
  rw [if_pos live, List.getElem?_map, List.getElem?_map, listed]
  refine ⟨_, rfl, fun producer member => ?_⟩
  exact mem_ascending.mp (List.mem_of_mem_filter (List.mem_of_mem_filter member))

theorem decode_valid {value : Variable n → ℚ}
    (solution : (physical.milpInputs alive usable refreshWindow).Solution value) :
    ∃ dag, (physical.milpInputs alive usable refreshWindow).decode
      ((physical.milpInputs alive usable refreshWindow).chosenBy value) = .ok dag ∧
      dag.Valid physical := by
  have formed : (physical.milpInputs alive usable refreshWindow).WellFormed := milpInputs_wellFormed
  obtain ⟨outputs, result⟩ := solution.outputRuns_total formed
  obtain ⟨dag, decoded⟩ := MilpInputs.decode_total MilpInputs.chosenBy_bounded result
    fun run reached => solution.inputsOf_total formed (reached.chosen formed)
  obtain ⟨outputs', numbered, result', numbering, rfl⟩ :=
    MilpInputs.decode_ok MilpInputs.chosenBy_bounded decoded
  cases result.symm.trans result'
  refine ⟨_, decoded, ?_, ?_⟩
  · intro node input candidate producers here listed
    obtain ⟨run, reads, found, rfl, _⟩ := numbering.entry here
    have reached := numbering.reached_of_mem result
      (List.mem_map_of_mem (f := Prod.fst) (List.mem_of_getElem? found))
    obtain ⟨left, there, subset⟩ := producers_left (alive_of_reached reached) listed
    obtain ⟨edge, member, place, ⟨producer, produced, produces⟩, unique⟩ :=
      numbering.edge_unique found there
    exact ⟨edge, member, place, ⟨producer, subset producer produced, produces⟩, unique⟩
  · rintro reference ⟨query, group⟩ owner
    have item : ((physical.milpInputs alive usable refreshWindow).references.zip
        (physical.milpInputs alive usable refreshWindow).outputs).zipIdx[reference]? =
        some ((query, ascending ((physical.queryOutputCandidates group).filter alive)),
          reference) := by
      rw [List.getElem?_zipIdx, Option.map_eq_some_iff]
      refine ⟨(query, ascending ((physical.queryOutputCandidates group).filter alive)),
        List.getElem?_zip_eq_some.mpr ⟨?_, ?_⟩, by simp⟩
      · exact (List.getElem?_map ..).trans (by rw [owner]; rfl)
      · exact (List.getElem?_map ..).trans (by rw [owner]; rfl)
    obtain ⟨run, found, ok⟩ := exists_getElem?_of_forall₂
      (show List.Forall₂ (fun run item => _) outputs _ from (mapM_eq_ok.mp result).flip) item
    dsimp only at ok
    split at ok
    · next first =>
      cases ok
      obtain ⟨candidate, member, resolved⟩ := List.exists_of_findSome?_eq_some first
      have known := (numbering.listed run (List.mem_of_getElem? found)).resolve_right
        List.not_mem_nil
      refine ⟨_, run.candidate, (List.getElem?_map ..).trans (by rw [found]; rfl),
        MilpInputs.Numbering.candidate_idxOf known, ?_⟩
      rw [MilpInputs.runOf_candidate resolved]
      exact List.mem_of_mem_filter (mem_ascending.mp member)
    · cases ok

end PhysicalASAPMemoCandidates
end AsapPlanner.Milp
