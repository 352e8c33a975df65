import AsapPlanner.Milp.Solution

/-!
How the runs of a solution read one another: within a context, or across its boundary. Which candidates
a query's outputs depend on, in the decoded DAG and over runs.
-/

namespace AsapPlanner.Milp
open Relation Rust Traversal

namespace MilpInputs
variable {n : Nat} {inputs : MilpInputs n} {chosen : ChosenCandidates n} {run other : Run n}

theorem reads_ok (reads : inputs.Reads chosen run other) :
    ∃ context input producers producer, inputs.contextOf run = some context ∧
      (inputs.producers run.candidate)[input]? = some producers ∧
      producer ∈ inputs.readable chosen run input producers ∧
      inputs.runOf chosen context producer = some other := by
  obtain ⟨results, result, input, listed⟩ := reads
  obtain ⟨context, here, each⟩ := inputsOf_ok result
  have flipped : List.Forall₂ (fun result read => inputs.inputOf chosen context run read = .ok result)
      results (inputs.producers run.candidate).zipIdx := List.Forall₂.flip each
  obtain ⟨⟨producers, position⟩, member, found⟩ := mem_of_forall₂ flipped _ listed
  obtain ⟨producer, readable, resolved⟩ := List.exists_of_findSome?_eq_some (inputOf_ok.mp found).2
  exact ⟨context, position, producers, producer, here, List.mem_zipIdx_iff_getElem?.mp member,
    readable, resolved⟩

theorem mem_of_readable {input : Nat} {producers : List (Fin n)} {producer : Fin n}
    (readable : producer ∈ inputs.readable chosen run input producers) : producer ∈ producers := by
  unfold MilpInputs.readable at readable
  cases run with
  | computed context candidate => exact List.mem_of_mem_filter (List.mem_of_mem_filter readable)
  | shared candidate => exact readable

theorem slot_of_readable {context input : Nat} {candidate producer : Fin n}
    {producers : List (Fin n)}
    (readable : producer ∈ inputs.readable chosen (.computed context candidate) input producers) :
    inputs.slot producer ≠ inputs.slot candidate ∧
      ∀ slot ∈ chosen.slotReads context candidate input, inputs.slot producer = slot := by
  obtain ⟨apart, alike⟩ := List.mem_filter.mp readable
  refine ⟨of_decide_eq_true (List.mem_filter.mp apart).2, fun slot read => ?_⟩
  rw [Option.mem_def.mp read] at alike
  exact of_decide_eq_true alike

theorem read_cases (formed : inputs.WellFormed) {context : Nat} {producer : Fin n}
    (found : inputs.runOf chosen context producer = some other) {own candidate : Fin n} {here : Nat}
    (kind : (inputs.context here).kind = .shared own) (same : other = .computed here candidate) :
    context = here ∧ producer = candidate := by
  obtain ⟨_, computed | shared | ⟨ingestion, _, source, _, resolved⟩⟩ := runOf_some found
  · rw [computed.2] at same
    exact Run.computed.inj same
  · rw [shared.2.2] at same
    cases same
  · rw [resolved] at same
    obtain ⟨rfl, rfl⟩ := Run.computed.inj same
    unfold ingestionContextReadBy at source
    split at source
    · next pipeline kind' =>
      cases source
      rw [kind'] at kind
      cases kind
    · obtain ⟨pipeline, kind'⟩ := formed.pipelines _ _ source
      rw [kind'] at kind
      cases kind
    · cases source

theorem below_own (formed : inputs.WellFormed) {own candidate : Fin n} {context : Nat}
    (kind : (inputs.context context).kind = .shared own)
    (reached : inputs.Reached chosen (.computed context candidate)) :
    TransGen (inputs.ReadsReached chosen) (.shared own) (.computed context candidate) := by
  obtain ⟨outputs, result, output, listed, path⟩ := reached
  generalize same : Run.computed context candidate = run at path
  induction path generalizing candidate with
  | refl =>
    subst same
    obtain ⟨query, outputs', candidate', pair, _, found⟩ := outputRuns_ok result listed
    obtain ⟨rfl, rfl⟩ := read_cases formed found kind rfl
    rw [formed.queries _ (List.of_mem_zip pair).1] at kind
    cases kind
  | @tail reader run before reads ih =>
    subst same
    have reached : inputs.Reached chosen reader := ⟨outputs, result, output, listed, before⟩
    obtain ⟨there, input, producers, producer, place, _, _, found⟩ := reads_ok reads
    obtain ⟨rfl, rfl⟩ := read_cases formed found kind rfl
    cases reader with
    | computed context' candidate' =>
      cases place
      exact (ih rfl).tail ⟨reached, reads⟩
    | shared own' =>
      have kind' := (formed.shared own' there place).2
      rw [kind] at kind'
      cases kind'
      exact .single ⟨reached, reads⟩

/-! ### Which listed producer a used reader reads -/

theorem mem_slotsRead {context : Nat} {reader : Fin n} {producers : List (Fin n)}
    {slot : ResultSlot} : slot ∈ inputs.slotsRead context reader producers ↔
      slot ≠ inputs.slot reader ∧
        ∃ producer ∈ producers, producer ∈ inputs.options context ∧ inputs.slot producer = slot := by
  unfold slotsRead
  rw [(List.perm_insertionSort _ _).mem_iff, List.mem_dedup, List.mem_filter, List.mem_map]
  simp only [List.mem_filter, decide_eq_true_eq, and_assoc]
  exact and_comm

theorem slot_eq_of_no_links {context : Nat} {reader : Fin n} {input : Nat} {producers : List (Fin n)}
    (listed : reader ∈ inputs.options context) (computes : inputs.computes context reader = true)
    (found : (inputs.producers reader)[input]? = some producers)
    (links : inputs.slotLinks context reader input = none) {a b : ResultSlot}
    (aHere : a ∈ inputs.slotsRead context reader producers)
    (bHere : b ∈ inputs.slotsRead context reader producers) : a = b := by
  unfold slotLinks at links
  rw [if_pos ⟨listed, computes⟩, found] at links
  dsimp only at links
  split at links
  · cases links
  · next few =>
    obtain ⟨i, inside, rfl⟩ := List.mem_iff_getElem.mp aHere
    obtain ⟨j, inside', rfl⟩ := List.mem_iff_getElem.mp bHere
    congr 1
    omega

variable {value : Variable n → ℚ}

def ReadsSlot (inputs : MilpInputs n) (value : Variable n → ℚ) (context : Nat) (reader : Fin n)
    (input : Nat) (slot : ResultSlot) : Prop :=
  match inputs.slotLinks context reader input with
  | some _ => (inputs.chosenBy value).slotReads context reader input = some slot
  | none => True

theorem Solution.reads_listed (solution : inputs.Solution value) {context input : Nat}
    {reader producer : Fin n} {producers : List (Fin n)}
    (readerHere : reader ∈ (inputs.chosenBy value).chosen context)
    (computes : inputs.computes context reader = true)
    (found : (inputs.producers reader)[input]? = some producers) (listed : producer ∈ producers)
    (producerHere : producer ∈ (inputs.chosenBy value).chosen context)
    (apart : inputs.slot producer ≠ inputs.slot reader)
    (readsSlot : inputs.ReadsSlot value context reader input (inputs.slot producer))
    (resolved : inputs.runOf (inputs.chosenBy value) context producer = some other)
    {reads : List (Nat × Run n)}
    (result : inputs.inputsOf (inputs.chosenBy value) (.computed context reader) = .ok reads) :
    (input, other) ∈ reads := by
  obtain ⟨readerListed, _⟩ := (mem_chosen solution.integral).mp readerHere
  obtain ⟨producerListed, _⟩ := (mem_chosen solution.integral).mp producerHere
  obtain ⟨context', here, each⟩ := inputsOf_ok result
  cases here
  have item : (producers, input) ∈ (inputs.producers reader).zipIdx :=
    List.mem_zipIdx_iff_getElem?.mpr found
  obtain ⟨⟨position, run⟩, member, ok⟩ := mem_of_forall₂ each _ item
  obtain ⟨same, first⟩ := inputOf_ok.mp ok
  subst same
  obtain ⟨read, readable, resolved'⟩ := List.exists_of_findSome?_eq_some first
  have readHere := (runOf_some resolved').1
  obtain ⟨readListed, _⟩ := (mem_chosen solution.integral).mp readHere
  obtain ⟨readApart, readSlot⟩ := slot_of_readable readable
  have same : inputs.slot read = inputs.slot producer := by
    unfold ReadsSlot at readsSlot
    cases links : inputs.slotLinks context reader position with
    | some slots =>
      rw [links] at readsSlot
      exact readSlot _ readsSlot
    | none =>
      exact slot_eq_of_no_links readerListed computes found links
        (mem_slotsRead.mpr ⟨readApart, read, mem_of_readable readable, readListed, rfl⟩)
        (mem_slotsRead.mpr ⟨apart, producer, listed, producerListed, rfl⟩)
  rw [solution.slot_unique readHere producerHere same] at resolved'
  cases resolved.symm.trans resolved'
  exact member

end MilpInputs

/-! ### Dependence of a query's outputs -/

def DagOfSelectedCandidates.DependsOn {n : Nat} (dag : DagOfSelectedCandidates n)
    (references : List Nat) (query : Nat) (candidate : Fin n) : Prop :=
  ∃ reference output node : Nat, references[reference]? = some query ∧
    dag.nodeOfOutputReference[reference]? = some output ∧
    ReflTransGen (fun consumer producer =>
      ∃ edge ∈ dag.edges, edge.consumer = consumer ∧ edge.producer = producer) output node ∧
    dag.candidateOfNode[node]? = some candidate

namespace MilpInputs
variable {n : Nat} {inputs : MilpInputs n} {chosen : ChosenCandidates n}

/-- The runs below a query's outputs. -/
def RunOfQuery (inputs : MilpInputs n) (chosen : ChosenCandidates n) (query : Nat) (run : Run n) :
    Prop :=
  ∃ (outputs : List (Run n)) (reference : Nat) (output : Run n),
    inputs.outputRuns chosen = .ok outputs ∧ inputs.references[reference]? = some query ∧ outputs[reference]? = some output ∧
    ReflTransGen (inputs.Reads chosen) output run

theorem RunOfQuery.reached {query : Nat} {run : Run n} (below : inputs.RunOfQuery chosen query run) :
    inputs.Reached chosen run := by
  obtain ⟨outputs, reference, output, result, _, found, path⟩ := below
  exact ⟨outputs, result, output, List.mem_of_getElem? found, path⟩

theorem RunOfQuery.tail {query : Nat} {run other : Run n} (below : inputs.RunOfQuery chosen query run)
    (reads : inputs.Reads chosen run other) : inputs.RunOfQuery chosen query other := by
  obtain ⟨outputs, reference, output, result, owner, found, path⟩ := below
  exact ⟨outputs, reference, output, result, owner, found, path.tail reads⟩

theorem Reached.resolved {run : Run n} (reached : inputs.Reached chosen run) :
    ∃ context producer, inputs.runOf chosen context producer = some run := by
  obtain ⟨outputs, result, output, listed, path⟩ := reached
  cases path with
  | refl =>
    obtain ⟨query, _, producer, _, _, found⟩ := outputRuns_ok result listed
    exact ⟨query, producer, found⟩
  | tail _ reads =>
    obtain ⟨place, _, _, producer, _, _, _, found⟩ := reads_ok reads
    exact ⟨place, producer, found⟩

theorem reached_computed {context : Nat} {candidate : Fin n}
    (reached : inputs.Reached chosen (.computed context candidate)) :
    inputs.kind candidate ≠ .shareable := by
  obtain ⟨place, producer, found⟩ := reached.resolved
  intro kind
  obtain ⟨_, ⟨computes, same⟩ | ⟨_, _, same⟩ | ⟨ingestion, kind', _, _, same⟩⟩ := runOf_some found
  · cases same
    rw [MilpInputs.computes, kind] at computes
    cases computes
  · cases same
  · cases same
    rw [kind] at kind'
    cases kind'

variable {outputs : List (Run n)} {numbered : List (Numbered n)}

theorem candidateOfNode_dagOf : (dagOf outputs numbered).candidateOfNode =
    (numbered.map Prod.fst).map Run.candidate := by
  simp [dagOf, Function.comp_def]

theorem Numbering.runs_of_path (numbering : Numbering inputs chosen outputs [] numbered)
    (result : inputs.outputRuns chosen = .ok outputs) {node other : Nat} {run : Run n}
    (here : (numbered.map Prod.fst)[node]? = some run)
    (path : ReflTransGen (fun consumer producer => ∃ edge ∈ (dagOf outputs numbered).edges,
      edge.consumer = consumer ∧ edge.producer = producer) node other) :
    ∃ read, (numbered.map Prod.fst)[other]? = some read ∧
      ReflTransGen (inputs.Reads chosen) run read := by
  induction path with
  | refl => exact ⟨run, here, .refl⟩
  | tail _ link ih =>
    obtain ⟨edge, member, rfl, rfl⟩ := link
    obtain ⟨a, middle, before⟩ := ih
    obtain ⟨a', b, middle', there, reads⟩ := numbering.reads_of_edge result member
    cases middle.symm.trans middle'
    exact ⟨b, there, before.tail reads.2⟩

theorem Numbering.nodes_of_path (numbering : Numbering inputs chosen outputs [] numbered)
    {run read : Run n} (known : run ∈ numbered.map Prod.fst)
    (path : ReflTransGen (inputs.Reads chosen) run read) :
    read ∈ numbered.map Prod.fst ∧
      ReflTransGen (fun consumer producer => ∃ edge ∈ (dagOf outputs numbered).edges,
        edge.consumer = consumer ∧ edge.producer = producer)
        ((numbered.map Prod.fst).idxOf run) ((numbered.map Prod.fst).idxOf read) := by
  induction path with
  | refl => exact ⟨known, .refl⟩
  | @tail reader read _ reads ih =>
    obtain ⟨readerKnown, before⟩ := ih
    obtain ⟨reads, result, input, listed⟩ := reads
    obtain ⟨reads', found, result'⟩ := numbering.position readerKnown
    cases result.symm.trans result'
    refine ⟨(numbering.closed _ (List.mem_of_getElem? found) _ listed).resolve_right
      List.not_mem_nil, before.tail ?_⟩
    exact ⟨⟨_, _, input⟩, mem_edgesOf.mpr ⟨reader, reads, found, read, listed, rfl⟩, rfl, rfl⟩

theorem decode_fine {value : Variable n → ℚ} {dag : DagOfSelectedCandidates n}
    (decoded : inputs.decode (inputs.chosenBy value) = .ok dag) :
    (∀ run, inputs.Reached (inputs.chosenBy value) run →
      ∃ reads, inputs.inputsOf (inputs.chosenBy value) run = .ok reads) ∧
    (dag.Acyclic ↔ Acyclic (inputs.ReadsReached (inputs.chosenBy value))) := by
  obtain ⟨outputs, numbered, result, numbering, rfl⟩ := decode_ok chosenBy_bounded decoded
  refine ⟨fun run reached => ?_, numbering.acyclic_iff result⟩
  obtain ⟨reads, _, read⟩ := numbering.position (numbering.mem_of_reached result reached)
  exact ⟨reads, read⟩

/-- A query depends on a shareable candidate of the DAG when its outputs lead to the candidate's own
run. -/
theorem dependsOn_iff (bounded : inputs.Bounded chosen) {dag : DagOfSelectedCandidates n}
    (decoded : inputs.decode chosen = .ok dag) {query : Nat} {shareable : Fin n}
    (kind : inputs.kind shareable = .shareable) :
    dag.DependsOn inputs.references query shareable ↔
      inputs.RunOfQuery chosen query (.shared shareable) := by
  obtain ⟨outputs, numbered, result, numbering, rfl⟩ := decode_ok bounded decoded
  constructor
  · rintro ⟨reference, node, below, owner, output, path, candidate⟩
    obtain ⟨run, found, rfl⟩ := Option.map_eq_some_iff.mp ((List.getElem?_map ..).symm.trans output)
    have known := (numbering.listed run (List.mem_of_getElem? found)).resolve_right List.not_mem_nil
    obtain ⟨read, there, reads⟩ := numbering.runs_of_path result (List.getElem?_idxOf known) path
    have belowQuery : inputs.RunOfQuery chosen query read :=
      ⟨outputs, reference, run, result, owner, found, reads⟩
    have isCandidate : read.candidate = shareable := by
      rw [candidateOfNode_dagOf, List.getElem?_map, there] at candidate
      exact Option.some.inj candidate
    cases read with
    | computed context other =>
      cases isCandidate
      exact absurd kind (reached_computed belowQuery.reached)
    | shared other =>
      cases isCandidate
      exact belowQuery
  · rintro ⟨outputs', reference, run, result', owner, found, path⟩
    cases result.symm.trans result'
    have known := (numbering.listed run (List.mem_of_getElem? found)).resolve_right List.not_mem_nil
    obtain ⟨readKnown, edges⟩ := numbering.nodes_of_path known path
    refine ⟨reference, _, _, owner, ?_, edges, ?_⟩
    · show (outputs.map _)[reference]? = _
      rw [List.getElem?_map, found]
      rfl
    · rw [candidateOfNode_dagOf, List.getElem?_map, List.getElem?_idxOf readKnown]
      rfl

end MilpInputs
end AsapPlanner.Milp
