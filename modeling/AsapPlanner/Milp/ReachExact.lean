import AsapPlanner.Milp.Needed
import AsapPlanner.Milp.RankedSelections
import AsapPlanner.Milp.ReachRows

/-!
When the reach variables are exact: options lead to whatever a query needs without going back in the
readers-first order, choices to what a pipeline needs for it, and nothing else supplies the candidates
whose reach is bounded from above.
-/

namespace AsapPlanner.Milp
open Relation Rust Traversal

namespace MilpInputs
variable {n : Nat} {inputs : MilpInputs n} {queries : Nat} {constraints : List (ReaderConstraint n)}
  {value : Variable n → ℚ}

/-- A context where a pipeline runs. -/
def IsIngestion (inputs : MilpInputs n) (context : Nat) : Prop :=
  ∃ pipeline, (inputs.context context).kind = .ingestion pipeline

structure Accounted (inputs : MilpInputs n) (queries : Nat) (constraints : List (ReaderConstraint n))
    (value : Variable n → ℚ) : Prop where
  /-- Options lead from a query to every shareable candidate it needs, and its choices to those that a
  pipeline needs for it. -/
  lead : ∀ query context shareable, inputs.Needed value query context shareable →
    inputs.kind shareable = .shareable → inputs.OptionsLead queries query shareable ∧
      (inputs.IsIngestion context → inputs.Counted value queries query shareable)
  /-- Nothing supplies an exact candidate that the query does not need. -/
  unsupplied : ∀ query, ∀ shareable ∈ inputs.shareablesNeedingExactReach constraints,
    inputs.OptionsLead queries query shareable →
    (∀ context, ¬ inputs.Needed value query context shareable) →
    ¬ inputs.Supplied value queries query shareable

theorem mem_sharedReaders (formed : inputs.WellFormed) {own shareable : Fin n} {context : Nat}
    (place : inputs.contextOfShareable own = some context)
    (option : shareable ∈ inputs.shareableOptions context) :
    own ∈ inputs.sharedReaders shareable := by
  obtain ⟨inside, kind⟩ := formed.shared own context place
  obtain ⟨listed, shareableKind⟩ := List.mem_filter.mp option
  refine List.mem_filterMap.mpr ⟨inputs.context context, ?_, ?_⟩
  · rw [context_of (List.getElem?_eq_getElem inside)]
    exact List.getElem_mem inside
  · rw [kind]
    exact if_pos ⟨listed, of_decide_eq_true shareableKind⟩

/-- Where choices lead from a query: to a candidate's own run, or to runs of the query's context, of
such a candidate's context or of a pipeline. -/
def Led (inputs : MilpInputs n) (value : Variable n → ℚ) (queries query : Nat) : Run n → Prop
  | .shared shareable => inputs.Counted value queries query shareable
  | .computed context _ =>
    context = query ∨ (∃ own, inputs.contextOfShareable own = some context ∧
      inputs.Counted value queries query own) ∨
      ∃ pipeline, (inputs.context context).kind = .ingestion pipeline

theorem Solution.led (solution : inputs.Solution value) (formed : inputs.WellFormed)
    (few : ∀ query ∈ inputs.references, query < queries)
    (lead : ∀ query context shareable, inputs.Needed value query context shareable →
      inputs.kind shareable = .shareable → inputs.OptionsLead queries query shareable ∧
        (inputs.IsIngestion context → inputs.Counted value queries query shareable))
    {query : Nat} {run : Run n} (below : inputs.RunOfQuery (inputs.chosenBy value) query run) :
    inputs.Led value queries query run := by
  obtain ⟨outputs, reference, output, result, owner, found, path⟩ := below
  have inside := few query (List.mem_of_getElem? owner)
  have directly : ∀ {shareable}, shareable ∈ (inputs.chosenBy value).chosen query →
      inputs.kind shareable = .shareable → inputs.Counted value queries query shareable := by
    intro shareable here shareableKind
    obtain ⟨listed, one⟩ := (mem_chosen solution.integral).mp here
    exact ⟨shareable, ⟨inside, List.mem_filter.mpr ⟨listed, decide_eq_true shareableKind⟩, one⟩, .refl⟩
  induction path with
  | refl =>
    obtain ⟨_, candidate, _, _, resolved⟩ := outputRuns_at result owner found
    obtain ⟨here, ⟨_, rfl⟩ | ⟨shareableKind, _, rfl⟩ | ⟨ingestion, _, source, _, rfl⟩⟩ :=
      runOf_some resolved
    · exact .inl rfl
    · exact directly here shareableKind
    · exact .inr (.inr (pipeline_of_source formed source))
  | @tail reader run before reads ih =>
    have readerBelow : inputs.RunOfQuery (inputs.chosenBy value) query reader :=
      ⟨outputs, reference, output, result, owner, found, before⟩
    obtain ⟨_, _, readerNeeded, readerFound⟩ := solution.needed_of_runOfQuery formed readerBelow
    obtain ⟨context, producer, place, needed, resolved⟩ :=
      solution.needed_of_reads formed readerNeeded readerFound reads
    have linked : ∀ {own}, inputs.contextOfShareable own = some context →
        inputs.Counted value queries query own →
        producer ∈ (inputs.chosenBy value).chosen context → inputs.kind producer = .shareable →
        inputs.Counted value queries query producer := by
      intro own ownPlace counted here shareableKind
      obtain ⟨listed, one⟩ := (mem_chosen solution.integral).mp here
      have option : producer ∈ inputs.shareableOptions context :=
        List.mem_filter.mpr ⟨listed, decide_eq_true shareableKind⟩
      exact counted.tail ⟨counted.lead, (lead query context producer needed shareableKind).1,
        mem_sharedReaders formed ownPlace option, context, ownPlace, one⟩
    obtain ⟨here, ⟨_, rfl⟩ | ⟨shareableKind, _, rfl⟩ | ⟨ingestion, _, source, _, rfl⟩⟩ :=
      runOf_some resolved
    · cases reader with
      | computed context' candidate =>
        cases place
        exact ih
      | shared own => exact .inr (.inl ⟨own, place, ih⟩)
    · cases reader with
      | computed context' candidate =>
        cases place
        rcases ih with rfl | ⟨own, ownPlace, counted⟩ | ingestion
        · exact directly here shareableKind
        · exact linked ownPlace counted here shareableKind
        · exact (lead query context producer needed shareableKind).2 ingestion
      | shared own => exact linked place ih here shareableKind
    · exact .inr (.inr (pipeline_of_source formed source))

/-! ### Contexts without cycles -/

/-- Where no shareable candidates' contexts may read one another in a cycle and no pipeline may read a
shareable candidate, options lead to all that a query needs. -/
theorem lead_of_acyclic (formed : inputs.WellFormed) (acyclic : Acyclic inputs.MayRead)
    (unread : ∀ context, inputs.IsIngestion context → inputs.shareableOptions context = [])
    {query context : Nat} (inside : query < queries) {shareable : Fin n}
    (needed : inputs.Needed value query context shareable) (kind : inputs.kind shareable = .shareable) :
    inputs.OptionsLead queries query shareable ∧ ¬ inputs.IsIngestion context := by
  -- The readers on the way, each before the next, or a pipeline that reads none.
  have ahead : ∀ {context option}, inputs.Needed value query context option →
      (inputs.kind option = .shareable → option ∈ inputs.shareableOptions context) ∧
        (context = query ∨ (∃ own start, inputs.contextOfShareable own = some context ∧
          start ∈ inputs.shareableOptions query ∧ ReflTransGen inputs.ReadsAhead start own) ∨
            inputs.IsIngestion context) := by
    have optionOf : ∀ {context option}, inputs.Chooses value context option →
        inputs.kind option = .shareable → option ∈ inputs.shareableOptions context :=
      fun chooses kind => List.mem_filter.mpr ⟨chooses.1, decide_eq_true kind⟩
    intro context option needed
    induction needed with
    | output _ _ chooses => exact ⟨optionOf chooses, .inl rfl⟩
    | link _ supplies ih => exact ⟨optionOf supplies.chooses, ih.2⟩
    | @own reading context own producer _ shareable place first ih =>
      obtain ⟨producers, _, first⟩ := first
      have chooses : inputs.Chooses value context producer := by simpa using List.find?_some first
      refine ⟨optionOf chooses, .inr (.inl ?_)⟩
      have option := ih.1 shareable
      rcases ih.2 with rfl | ⟨reader, start, readerPlace, direct, path⟩ | ingestion
      · exact ⟨own, own, place, option, .refl⟩
      · have reads : inputs.MayRead reader own := mem_sharedReads.mpr ⟨reading, readerPlace, option⟩
        refine ⟨own, start, place, direct, path.tail ?_⟩
        refine (readsAhead_or_back reads (by rw [readerPlace]; rfl)).resolve_right fun back => ?_
        exact acyclic reader (TransGen.head' reads back)
      · rw [unread reading ingestion] at option
        exact absurd option List.not_mem_nil
    | pipeline _ _ kind source =>
      refine ⟨fun shareable => ?_, .inr (.inr (pipeline_of_source formed source))⟩
      rw [kind] at shareable
      cases shareable
  obtain ⟨option, rfl | ⟨own, start, place, direct, path⟩ | ingestion⟩ := ahead needed
  · refine ⟨⟨inside, .inl (option kind)⟩, fun ingestion => ?_⟩
    have none := option kind
    rw [unread _ ingestion] at none
    exact absurd none List.not_mem_nil
  · refine ⟨⟨inside, .inr ⟨start, own, direct, path, mem_sharedReads.mpr ⟨context, place, option kind⟩⟩⟩, ?_⟩
    rintro ⟨pipeline, isPipeline⟩
    rw [(formed.shared own context place).2] at isPipeline
    cases isPipeline
  · have none := option kind
    rw [unread context ingestion] at none
    exact absurd none List.not_mem_nil

/-- Views 0 and 1 may read each other and view 0 reads view 2; the query may read view 1. -/
def mutualViews : PhysicalASAPMemoCandidates 5 where
  operatorNodes := [⟨0, true⟩, ⟨1, true⟩, ⟨2, true⟩, ⟨1, true⟩, ⟨3, true⟩]
  candidates candidate :=
    { operatorNode := candidate
      timing := .queryTime
      materialization := if candidate < 3 then .matAtQuery .memory else .notMaterialized
      producerCandidatesPerInput := match candidate with
        | 0 => [[1, 3], [2]]
        | 1 => [[0]]
        | 4 => [[1, 3]]
        | _ => []
      mayProduceQueryOutput := candidate = 4 }
  queryRoots := [.operator 3]

def mutualInputs : MilpInputs 5 :=
  mutualViews.milpInputs (fun _ => true) (fun _ => true) fun _ => none

/-- The query reads view 1, which reads view 0, which reads view 2 and a scan. -/
def mutualChoices : List (Variable 5) :=
  [.choice 0 4, .choice 0 1, .choice 2 0, .choice 1 3, .choice 1 2, .selected 0, .selected 1,
    .selected 2]

def mutualDag : DagOfSelectedCandidates 5 where
  candidateOfNode := [4, 1, 0, 2, 3]
  edges := [⟨1, 0, 0⟩, ⟨2, 1, 0⟩, ⟨4, 2, 0⟩, ⟨3, 2, 1⟩]
  nodeOfOutputReference := [0]

def oneView : PhysicalASAPMemoCandidates 2 where
  operatorNodes := [⟨0, true⟩, ⟨1, true⟩]
  candidates candidate :=
    { operatorNode := candidate
      timing := .queryTime
      materialization := if candidate = 0 then .matAtQuery .memory else .notMaterialized
      producerCandidatesPerInput := if candidate = 0 then [] else [[0]]
      mayProduceQueryOutput := candidate = 1 }
  queryRoots := [.operator 1]

def oneInputs : MilpInputs 2 := oneView.milpInputs (fun _ => true) (fun _ => true) fun _ => none

def oneChoices : List (Variable 2) := [.choice 0 1, .choice 0 0, .selected 0]

def oneDag : DagOfSelectedCandidates 2 := ⟨[1, 0], [⟨1, 0, 0⟩], [0]⟩

example : oneInputs.references = [0] := by decide +kernel

theorem one_solution : oneInputs.Solution (assignment oneChoices) :=
  ⟨assignment_integral _, by decide +kernel⟩

theorem one_decodes : oneInputs.decode (oneInputs.chosenBy (assignment oneChoices)) = .ok oneDag := by
  decide +kernel

theorem one_dependsOn : oneDag.DependsOn oneInputs.references 0 0 :=
  ⟨0, 0, 1, by decide +kernel, rfl, .tail .refl ⟨⟨1, 0, 0⟩, by decide, rfl, rfl⟩, rfl⟩

theorem one_accounted : oneInputs.Accounted 1 [.minimumQueryReaders 0 [[0]] 1] (assignment oneChoices) := by
  have formed : oneInputs.WellFormed := PhysicalASAPMemoCandidates.milpInputs_wellFormed
  have kind : ∀ view, oneInputs.kind view = .shareable → view = 0 := by decide +kernel
  have queries : ∀ query ∈ oneInputs.references, query = 0 := by decide +kernel
  have kinds : oneInputs.contexts.map (·.kind) = [.query 0, .shared 0] := by decide +kernel
  have contexts : ∀ context, ¬ oneInputs.IsIngestion context := by
    rintro context ⟨pipeline, isPipeline⟩
    rw [MilpInputs.context, List.getD_eq_getElem?_getD] at isPipeline
    cases found : oneInputs.contexts[context]? with
    | none => simp [found] at isPipeline
    | some data =>
      have listed := List.mem_map_of_mem (f := (·.kind)) (List.mem_of_getElem? found)
      rw [kinds] at listed
      rw [found, Option.getD_some] at isPipeline
      simp [isPipeline] at listed
  have acyclic : Acyclic oneInputs.MayRead := by
    have none : ∀ reader view, view ∉ oneInputs.sharedReads reader := by decide +kernel
    intro view cycle
    obtain ⟨read, reads, _⟩ := TransGen.head'_iff.mp cycle
    exact none view read reads
  constructor
  · intro query context view needed shareable
    obtain ⟨run, _, _, reference, _, _, owner, _⟩ := one_solution.runOfQuery_of_needed formed needed
    obtain rfl := queries query (List.mem_of_getElem? owner)
    obtain ⟨lead, outside⟩ := lead_of_acyclic formed acyclic
      (fun context ingestion => absurd ingestion (contexts context)) Nat.one_pos needed shareable
    exact ⟨lead, fun ingestion => absurd ingestion outside⟩
  · intro query view _ lead apart
    obtain rfl := kind view lead.kind
    obtain rfl : query = 0 := by
      have inside := lead.1
      omega
    obtain ⟨context, option, needed, resolved⟩ := one_solution.needed_of_runOfQuery formed
      ((dependsOn_iff chosenBy_bounded one_decodes lead.kind).mp one_dependsOn)
    cases runOf_candidate resolved
    exact absurd needed (apart context)

end MilpInputs
end AsapPlanner.Milp
