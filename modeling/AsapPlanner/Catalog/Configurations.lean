import AsapPlanner.Catalog.Pruning
import AsapPlanner.Eligibility.Grid
import AsapPlanner.Eligibility.Readers
import AsapPlanner.Traversal.Search

/-!
The candidates of every operator node, one for each timing and materialization, with the constraints on
who may read them. The constraints on a summary admit the sets of readers that the rule for the set
admits.
-/

namespace AsapPlanner.Catalog
open Rust Ir Physical Eligibility Traversal
open Milp (MemoGroupId outputReferences)

/-! ### The inventory -/

structure CandidateInventory where
  operatorNodes : List OperatorNodeOfCandidateForMemoGroup
  producerNodesPerInput : List (List (List Nat))
  queryOutputNodes : List (List Nat)
  implementationRootsOfGroup : List (List Nat)

inductive ConfigurationError
  | invalidInventory (message : String)
  | assignedExecution (candidate : Nat)
deriving DecidableEq, Repr

namespace CandidateInventory
variable (source : CandidateInventory)

def validate : Except String Unit := do
  let count := source.operatorNodes.length
  if source.producerNodesPerInput.length ≠ count then
    throw "producer lists are not indexed by node"
  source.producerNodesPerInput.zipIdx.forM fun (inputs, node) =>
    inputs.zipIdx.forM fun (producers, input) =>
      validateIds producers count s!"candidate {node}, requirement {input}"
  source.queryOutputNodes.zipIdx.forM fun (nodes, output) =>
    validateIds nodes count s!"query root {output}"

def graph : Graph Nat where
  reads node := (source.producerNodesPerInput.getD node []).flatten
  inner := List.range source.producerNodesPerInput.length
  covers node producer read := by
    rw [List.mem_range]
    by_contra beyond
    rw [List.getD_eq_getElem?_getD, List.getElem?_eq_none (not_lt.mp beyond)] at read
    cases read

def potential (queryOutputs : List Nat) : List Nat :=
  queryOutputs.foldl (fun seen output => source.graph.mark (source.queryOutputNodes.getD output []) seen) []

end CandidateInventory

/-! ### Modes -/

/-- `agg_has_exact_per_entity_kernel`. -/
def aggHasExactPerEntityKernel : AggIntent → Bool
  | .count _ | .sum _ | .avg _ | .min _ | .max _ | .quantile .. | .cardinality .. | .frequencyL2 ..
  | .frequencyEntropy .. => true
  | _ => false

def perEntityAggregateExecutable (node : OperatorNode) : Bool :=
  match node.nonAsap with
  | some (.aggregate .perEntity measures _ filters having _) =>
    (match measures with
      | [measure] => aggHasExactPerEntityKernel measure
      | _ => false) && filters.all (·.isNone) && having.isNone
  | _ => true

def isScan (node : OperatorNode) : Bool :=
  match node.nonAsap with
  | some (.scan ..) => true
  | _ => false

def forcedQuery (node : OperatorNode) : Bool :=
  match node.asap with
  | some (.summaryEstimate ..) | some (.evaluatePopulation ..) | some (.maintainPopulation ..) => true
  | _ => false

def compatibleTiming (consumerTiming : ExecutionTiming) (producer : PhysicalCandidate) : Bool :=
  consumerTiming = producer.timing ||
    (consumerTiming = .queryTime && match producer.materialization with
      | .matAtIngestion _ => true
      | _ => false)

structure Configuration where
  operatorNode : Nat
  materialization : Materialization
  timing : ExecutionTiming

/-- Every two items, in their order. -/
def pairs {α : Type} : List α → List (α × α)
  | [] => []
  | first :: rest => rest.map (first, ·) ++ pairs rest

section
variable (dag : Dag) (entries : List QueryWorkloadEntry) (data : DataWorkload)
  (queryTimeResultsRetained rawDataRetained : Bool)

def mayKeepAcrossEvaluationsPerSoleReaderQuery (ref : NodeRef) (materialization : Materialization) :
    List Bool :=
  if materialization ≠ .matAtQueryKeptAcrossEvaluations .memory ∨ !isTumblingWindowChain (dag.node ref)
      ∨ !queryTimeResultsRetained then []
  else (List.range entries.length).map fun reader =>
    match summaryMaterializationEligibility dag ref [reader] entries data queryTimeResultsRetained with
    | .ok eligibility => eligibility.mayKeepAcrossEvaluations
    | .error _ => false

def someQueryAllows (ref : NodeRef) (queries : List Nat) (mode : Materialization) : Bool :=
  queries.any fun query => summaryModeAllowed dag ref [query] mode entries data queryTimeResultsRetained

/-- The modes of a node that `queries` may read, before what the deployment cannot run is pruned. -/
def modes (ref : NodeRef) (queries : List Nat) : List (Materialization × ExecutionTiming) :=
  let node := dag.node ref
  let allows := someQueryAllows dag entries data queryTimeResultsRetained ref queries
  (.notMaterialized, .queryTime) ::
    ((if isSummaryBuild node then
        (.matAtQuery .memory, .queryTime) ::
        ((if allows (.matAtIngestion .memory) then [(.matAtIngestion .memory, .ingestionTime)] else []) ++
          if isTumblingWindowChain node && allows (.matAtQueryKeptAcrossEvaluations .memory) then
            [(.matAtQueryKeptAcrossEvaluations .memory, .queryTime)]
          else [])
      else if !forcedQuery node then [(.notMaterialized, .ingestionTime)]
      else []) ++
    if !isSummaryBuild node && 2 ≤ queries.length then [(.matAtQuery .memory, .queryTime)] else [])

/-- Why the deployment cannot run a mode. The rules are tried in order. -/
def pruneMode (ref : NodeRef) (timing : ExecutionTiming) : Option PruneReason :=
  if !perEntityAggregateExecutable (dag.node ref) then some .perEntityAggregateNotExecutable
  else if !rawDataRetained && isScan (dag.node ref) && timing ≠ .ingestionTime then
    some .rawDataNotRetained
  else none

/-- The constraints on who reads candidate `id`. -/
def readerConstraintsOf (ref : NodeRef) (queries : List Nat) (queryOutputs : List (List Nat))
    (materialization : Materialization) (id : Nat) : List ReaderConstraint :=
  let summary := isSummaryBuild (dag.node ref)
  let allowed (readers : List Nat) :=
    summaryModeAllowed dag ref readers materialization entries data queryTimeResultsRetained
  let outputsOf (query : Nat) := queryOutputs.getD query []
  (if materialization = .matAtQuery .memory then
      (if !summary then [.highestSharedQueryMaterialization id queryOutputs] else []) ++
        [.minimumQueryReaders id queryOutputs 2]
    else []) ++
  if summary then
    let eligible := queries.filter fun query => allowed [query]
    .allowedOutputs id (eligible.flatMap outputsOf) ::
      ((pairs eligible).filter fun (left, right) => !allowed [left, right]).flatMap fun (left, right) =>
        (outputsOf left).flatMap fun leftOutput =>
          (outputsOf right).map fun rightOutput => .incompatibleOutputs id leftOutput rightOutput
  else []

end

/-! ### Enumeration -/

section
variable (dag : Dag) (source : CandidateInventory) (queryRoots : List (QueryRoot MemoGroupId))
  (entries : List QueryWorkloadEntry) (data : DataWorkload)
  (queryTimeResultsRetained rawDataRetained : Bool)

def queryOutputs : List (List Nat) :=
  let outputQueries := (outputReferences queryRoots).map (·.1)
  (List.range entries.length).map fun query =>
    (List.range outputQueries.length).filter fun output => outputQueries[output]? = some query

def potentialQueries (node : Nat) : List Nat :=
  (List.range entries.length).filter fun query =>
    node ∈ source.potential ((queryOutputs queryRoots entries).getD query [])

def physicalNode (node : Nat) : NodeRef := (source.operatorNodes[node]?.map (·.physicalNode)).getD 0

def allConfigurations : List (Configuration × Option PruneReason) :=
  (List.range source.operatorNodes.length).flatMap fun node =>
    (modes dag entries data queryTimeResultsRetained (physicalNode source node)
      (potentialQueries source queryRoots entries node)).map fun (materialization, timing) =>
        (⟨node, materialization, timing⟩, pruneMode dag rawDataRetained (physicalNode source node) timing)

/-- The candidates to be, each at its id. -/
def configurations : List Configuration :=
  ((allConfigurations dag source queryRoots entries data queryTimeResultsRetained rawDataRetained).filter
    (·.2.isNone)).map (·.1)

def candidateOf (configuration : Configuration) : PhysicalCandidate where
  operatorNode := configuration.operatorNode
  timing := configuration.timing
  materialization := configuration.materialization
  producerCandidatesPerInput := []
  mayProduceQueryOutput := configuration.operatorNode ∈ source.queryOutputNodes.flatten &&
    configuration.timing = .queryTime
  mayKeepAcrossEvaluationsPerSoleReaderQuery :=
    mayKeepAcrossEvaluationsPerSoleReaderQuery dag entries data queryTimeResultsRetained
      (physicalNode source configuration.operatorNode) configuration.materialization

/-- The candidates of a node that may produce an input of a consumer that runs at `timing`. -/
def compatibleCandidates (candidates : List PhysicalCandidate) (timing : ExecutionTiming) (node : Nat) :
    List Nat :=
  (List.range candidates.length).filter fun id => candidates[id]?.any fun candidate =>
    candidate.operatorNode = node && compatibleTiming timing candidate

def withProducers (candidates : List PhysicalCandidate) (candidate : PhysicalCandidate) :
    PhysicalCandidate :=
  { candidate with
    producerCandidatesPerInput :=
      (source.producerNodesPerInput.getD candidate.operatorNode []).map fun producers =>
        producers.flatMap (compatibleCandidates candidates candidate.timing) }

def isAssigned (node : Nat) : Bool :=
  (dag.node (physicalNode source node)).timing.isSome ||
    (dag.node (physicalNode source node)).materialization ≠ .notMaterialized

def configuredCandidates : PhysicalASAPMemoCandidates :=
  let configured :=
    configurations dag source queryRoots entries data queryTimeResultsRetained rawDataRetained
  let candidates := configured.map (candidateOf dag source entries data queryTimeResultsRetained)
  { operatorNodes := source.operatorNodes
    candidates := candidates.map (withProducers source candidates)
    queryRoots
    readerConstraints := configured.zipIdx.flatMap fun (configuration, id) =>
      readerConstraintsOf dag entries data queryTimeResultsRetained
        (physicalNode source configuration.operatorNode)
        (potentialQueries source queryRoots entries configuration.operatorNode)
        (queryOutputs queryRoots entries) configuration.materialization id
    prunedCandidates :=
      (allConfigurations dag source queryRoots entries data queryTimeResultsRetained
        rawDataRetained).filterMap fun (configuration, reason) => reason.map fun reason =>
          { group := (source.operatorNodes[configuration.operatorNode]?.map (·.group)).getD 0
            candidate :=
              ⟨configuration.operatorNode, configuration.timing, configuration.materialization⟩
            reason } }

def enumerateCandidateConfigurations : Except ConfigurationError PhysicalASAPMemoCandidates := do
  source.validate.mapError .invalidInventory
  let outputQueries := (outputReferences queryRoots).map (·.1)
  let sourceCount := source.operatorNodes.length
  if outputQueries.length ≠ source.queryOutputNodes.length ∨
      outputQueries.any (entries.length ≤ ·) then
    throw (.invalidInventory "template or output/query mapping is incomplete")
  if source.implementationRootsOfGroup.flatten.any (sourceCount ≤ ·) then
    throw (.invalidInventory "group references missing source candidate")
  if let some candidate := (List.range sourceCount).find? (isAssigned dag source) then
    throw (.assignedExecution candidate)
  let physical := configuredCandidates dag source queryRoots entries data queryTimeResultsRetained
    rawDataRetained
  (validateCandidates physical).mapError .invalidInventory
  pure physical

end

/-! ### Pairs -/

theorem pairs_total {α : Type} {items : List α} {left right : α} (l : left ∈ items) (r : right ∈ items)
    (different : left ≠ right) : (left, right) ∈ pairs items ∨ (right, left) ∈ pairs items := by
  induction items with
  | nil => cases l
  | cons first rest ih =>
    simp only [pairs, List.mem_append, List.mem_map, Prod.mk.injEq]
    rcases List.mem_cons.mp l with rfl | l'
    · exact .inl (.inl ⟨right, (List.mem_cons.mp r).resolve_left different.symm, rfl, rfl⟩)
    · rcases List.mem_cons.mp r with rfl | r'
      · exact .inr (.inl ⟨left, l', rfl, rfl⟩)
      · rcases ih l' r' with listed | listed
        · exact .inl (.inr listed)
        · exact .inr (.inr listed)

/-! ### Reach -/

namespace CandidateInventory

/-- An output may read a node, through producers. -/
def MayRead (source : CandidateInventory) (output node : Nat) : Prop :=
  ∃ start ∈ source.queryOutputNodes.getD output [], source.graph.Reaches start node

theorem foldl_mark {source : CandidateInventory} (outputs seen : List Nat)
    (closed : ∀ node ∈ seen, ∀ producer ∈ source.graph.reads node, producer ∈ seen) :
    let met := outputs.foldl
      (fun seen output => source.graph.mark (source.queryOutputNodes.getD output []) seen) seen
    (∀ node ∈ seen, node ∈ met) ∧ (∀ node ∈ met, ∀ producer ∈ source.graph.reads node, producer ∈ met) ∧
      ∀ output ∈ outputs, ∀ start ∈ source.queryOutputNodes.getD output [], start ∈ met := by
  induction outputs generalizing seen with
  | nil => exact ⟨fun node met => met, closed, nofun⟩
  | cons output rest ih =>
    have kept := source.graph.subset_mark (source.queryOutputNodes.getD output []) seen
    obtain ⟨before, closed, starts⟩ := ih _ (source.graph.mark_closed _ seen
      fun node met producer read => .inl (closed node met producer read))
    refine ⟨fun node met => before node (kept node (.inr met)), closed, fun other member => ?_⟩
    rcases List.mem_cons.mp member with rfl | later
    · exact fun start first => before start (kept start (.inl first))
    · exact starts other later

theorem mem_potential {source : CandidateInventory} {outputs : List Nat} {output node : Nat}
    (member : output ∈ outputs) (reads : source.MayRead output node) :
    node ∈ source.potential outputs := by
  obtain ⟨-, closed, starts⟩ := @foldl_mark source outputs [] nofun
  obtain ⟨start, first, reached⟩ := reads
  induction reached with
  | refl => exact starts output member start first
  | tail _ read ih => exact closed _ ih _ read

end CandidateInventory

/-! ### Readers -/

/-- Whether the output references `readers` may together read the candidate constrained. -/
def ReaderConstraint.Admits (readers : List Nat) : ReaderConstraint → Prop
  | allowedOutputs _ outputs => ∀ output ∈ readers, output ∈ outputs
  | incompatibleOutputs _ left right => ¬ (left ∈ readers ∧ right ∈ readers)
  | minimumQueryReaders .. | highestSharedQueryMaterialization .. => True

section
variable {dag : Dag} {entries : List QueryWorkloadEntry} {data : DataWorkload} {retained : Bool}

theorem readerConstraintsOf_exact {ref : NodeRef} {queries : List Nat} {queryOutputs : List (List Nat)}
    {materialization : Materialization} {id : Nat} {readers : List Nat} {queryOf : Nat → Nat}
    (summary : isSummaryBuild (dag.node ref) = true) (some : readers ≠ [])
    (each : ∀ output ∈ readers, queryOf output ∈ queries)
    (own : ∀ output ∈ readers, ∀ query, output ∈ queryOutputs.getD query [] ↔ queryOf output = query) :
    (∀ constraint ∈ readerConstraintsOf dag entries data retained ref queries queryOutputs materialization id,
        constraint.Admits readers) ↔
      summaryModeAllowed dag ref (readers.map queryOf) materialization entries data retained = true := by
  have decided := @summaryModeAllowed_decided dag ref entries data materialization retained
  rw [decided.iff_pairs (by simpa using some)]
  simp only [List.forall_mem_map]
  unfold readerConstraintsOf
  simp only [summary, if_true]
  set allowed := fun queries : List Nat =>
    summaryModeAllowed dag ref queries materialization entries data retained
  set eligible := queries.filter fun query => allowed [query]
  have chosen : ∀ output ∈ readers, output ∈ eligible.flatMap (queryOutputs.getD · []) ↔
      allowed [queryOf output] = true := by
    intro output member
    rw [List.mem_flatMap]
    constructor
    · rintro ⟨query, listed, produced⟩
      rw [(own output member query).mp produced]
      exact (List.mem_filter.mp listed).2
    · intro alone
      exact ⟨_, List.mem_filter.mpr ⟨each output member, alone⟩, (own output member _).mpr rfl⟩
  constructor
  · intro admits
    have alone : ∀ output ∈ readers, allowed [queryOf output] = true := by
      intro output member
      have outputs := admits _ (List.mem_append_right _ List.mem_cons_self)
      exact (chosen output member).mp (outputs output member)
    refine ⟨alone, fun left l right r => ?_⟩
    by_cases same : queryOf left = queryOf right
    · have one : ∀ query, query ∈ [queryOf left, queryOf right] ↔ query ∈ [queryOf left] := by
        simp [same]
      exact (decided.iff_of_mem_iff (List.cons_ne_nil _ _) one).mpr (alone left l)
    -- A pair that is not allowed is listed, one way or the other.
    have apart : ∀ {left right}, left ∈ readers → right ∈ readers →
        (queryOf left, queryOf right) ∈ pairs eligible →
        allowed [queryOf left, queryOf right] = true := by
      intro left right l r listed
      by_contra refused
      refine admits (.incompatibleOutputs id left right) (List.mem_append_right _
        (List.mem_cons_of_mem _ (List.mem_flatMap.mpr ⟨_, List.mem_filter.mpr ⟨listed, ?_⟩, ?_⟩))) ⟨l, r⟩
      · simpa using refused
      · refine List.mem_flatMap.mpr ⟨left, (own left l _).mpr rfl, ?_⟩
        exact List.mem_map.mpr ⟨right, (own right r _).mpr rfl, rfl⟩
    have listed : ∀ output ∈ readers, queryOf output ∈ eligible := fun output member =>
      List.mem_filter.mpr ⟨each output member, alone output member⟩
    rcases pairs_total (listed left l) (listed right r) same with there | back
    · exact apart l r there
    · have turned : ∀ query, query ∈ [queryOf left, queryOf right] ↔
          query ∈ [queryOf right, queryOf left] := by simp [or_comm]
      exact (decided.iff_of_mem_iff (List.cons_ne_nil _ _) turned).mpr (apart r l back)
  · rintro ⟨alone, two⟩ constraint member
    rcases List.mem_append.mp member with counted | member
    · split at counted
      · rcases List.mem_append.mp counted with highest | counted
        · cases highest
        · obtain rfl := List.mem_singleton.mp counted
          trivial
      · cases counted
    rcases List.mem_cons.mp member with rfl | member
    · exact fun output member => (chosen output member).mpr (alone output member)
    · obtain ⟨⟨left, right⟩, refused, member⟩ := List.mem_flatMap.mp member
      obtain ⟨leftOutput, l, member⟩ := List.mem_flatMap.mp member
      obtain ⟨rightOutput, r, rfl⟩ := List.mem_map.mp member
      rintro ⟨l', r'⟩
      have fine := two leftOutput l' rightOutput r'
      rw [(own leftOutput l' left).mp l, (own rightOutput r' right).mp r] at fine
      have wrong := (List.mem_filter.mp refused).2
      simp only [fine] at wrong
      cases wrong

theorem readerConstraintsOf_candidate {ref : NodeRef} {queries : List Nat} {outputs : List (List Nat)}
    {materialization : Materialization} {id : Nat} :
    ∀ constraint ∈ readerConstraintsOf dag entries data retained ref queries outputs materialization id,
      constraint.candidate = id := by
  intro constraint member
  unfold readerConstraintsOf at member
  rcases List.mem_append.mp member with counted | member
  · split at counted
    · rcases List.mem_append.mp counted with highest | counted
      · split at highest
        · rw [List.mem_singleton.mp highest]
          rfl
        · cases highest
      · rw [List.mem_singleton.mp counted]
        rfl
    · cases counted
  · split at member
    · rcases List.mem_cons.mp member with rfl | member
      · rfl
      · obtain ⟨_, _, member⟩ := List.mem_flatMap.mp member
        obtain ⟨_, _, member⟩ := List.mem_flatMap.mp member
        obtain ⟨_, _, rfl⟩ := List.mem_map.mp member
        rfl
    · cases member

end

/-! ### What is enumerated -/

def queryOf (queryRoots : List (QueryRoot MemoGroupId)) (output : Nat) : Nat :=
  ((outputReferences queryRoots)[output]?.map (·.1)).getD 0

section
variable {dag : Dag} {source : CandidateInventory} {queryRoots : List (QueryRoot MemoGroupId)}
  {entries : List QueryWorkloadEntry} {data : DataWorkload} {retained rawRetained : Bool}
  {physical : PhysicalASAPMemoCandidates}

theorem mem_queryOutputs {query output : Nat}
    (known : ∀ query ∈ (outputReferences queryRoots).map (·.1), query < entries.length)
    (small : output < (outputReferences queryRoots).length) :
    output ∈ (queryOutputs queryRoots entries).getD query [] ↔ queryOf queryRoots output = query := by
  obtain ⟨reference, found⟩ : ∃ reference, (outputReferences queryRoots)[output]? = some reference :=
    ⟨_, List.getElem?_eq_getElem small⟩
  have inside := known reference.1 (List.mem_map_of_mem (List.mem_of_getElem? found))
  have own : queryOf queryRoots output = reference.1 := by rw [queryOf, found]; rfl
  rw [own, queryOutputs, List.getD_eq_getElem?_getD, List.getElem?_map]
  by_cases listed : query < entries.length
  · simp [List.getElem?_range listed, small, (List.getElem?_eq_some_iff.mp found).2]
  · rw [List.getElem?_eq_none (by simpa using listed)]
    refine iff_of_false List.not_mem_nil ?_
    rintro rfl
    exact listed inside

theorem enumerate_ok
    (run : enumerateCandidateConfigurations dag source queryRoots entries data retained rawRetained =
      .ok physical) :
    (outputReferences queryRoots).length = source.queryOutputNodes.length ∧
    (∀ query ∈ (outputReferences queryRoots).map (·.1), query < entries.length) ∧
    physical = configuredCandidates dag source queryRoots entries data retained rawRetained := by
  unfold enumerateCandidateConfigurations at run
  obtain ⟨-, -, run⟩ := bind_eq_ok run
  simp only at run
  split at run
  · cases run
  rename_i mapped
  split at run
  · cases run
  split at run
  · cases run
  obtain ⟨-, -, run⟩ := bind_eq_ok run
  cases run
  rw [not_or] at mapped
  refine ⟨by simpa using mapped.1, fun query member => ?_, rfl⟩
  by_contra beyond
  exact mapped.2 (List.any_eq_true.mpr ⟨query, member, by simpa using beyond⟩)

theorem constraint_on {constraint : ReaderConstraint} {configuration : Configuration} {id : Nat}
    (here : (configurations dag source queryRoots entries data retained rawRetained)[id]? =
      some configuration) :
    constraint ∈ (configuredCandidates dag source queryRoots entries data retained
        rawRetained).readerConstraints ∧ constraint.candidate = id ↔
      constraint ∈ readerConstraintsOf dag entries data retained
        (physicalNode source configuration.operatorNode)
        (potentialQueries source queryRoots entries configuration.operatorNode)
        (queryOutputs queryRoots entries) configuration.materialization id := by
  unfold configuredCandidates
  rw [List.mem_flatMap]
  constructor
  · rintro ⟨⟨⟨other, id'⟩, listed, member⟩, same⟩
    obtain rfl : id' = id := (readerConstraintsOf_candidate _ member).symm.trans same
    obtain rfl := Option.some.inj ((List.mem_zipIdx_iff_getElem?.mp listed).symm.trans here)
    exact member
  · intro member
    exact ⟨⟨(configuration, id), List.mem_zipIdx_iff_getElem?.mpr here, member⟩,
      readerConstraintsOf_candidate _ member⟩

end

section
variable (dag : Dag) (entries : List QueryWorkloadEntry) (data : DataWorkload) (retained : Bool)

/-- A set of queries may read a summary when its queries may alone and two by two, and the constraints
enumerated on a summary admit the output references whose queries may. -/
theorem reader_constraints_exact :
    (∀ ref mode readers, readers ≠ [] →
      (summaryModeAllowed dag ref readers mode entries data retained = true ↔
        (∀ query ∈ readers, summaryModeAllowed dag ref [query] mode entries data retained = true) ∧
        ∀ left ∈ readers, ∀ right ∈ readers,
          summaryModeAllowed dag ref [left, right] mode entries data retained = true)) ∧
    ∀ source queryRoots rawRetained physical,
      enumerateCandidateConfigurations dag source queryRoots entries data retained rawRetained =
        .ok physical →
      ∀ (id : Nat) (candidate : PhysicalCandidate), physical.candidates[id]? = some candidate →
      isSummaryBuild (dag.node (physicalNode source candidate.operatorNode)) = true →
      ∀ readers : List Nat, readers ≠ [] →
      (∀ output ∈ readers, source.MayRead output candidate.operatorNode) →
        ((∀ constraint ∈ physical.readerConstraints, constraint.candidate = id →
            constraint.Admits readers) ↔
          summaryModeAllowed dag (physicalNode source candidate.operatorNode)
            (readers.map (queryOf queryRoots)) candidate.materialization entries data retained = true) := by
  refine ⟨fun ref mode readers some => (summaryModeAllowed_decided mode retained).iff_pairs some, ?_⟩
  intro source queryRoots rawRetained physical run id candidate found summary readers some reads
  obtain ⟨mapped, known, rfl⟩ := enumerate_ok run
  obtain ⟨configuration, here, rfl⟩ : ∃ configuration,
      (configurations dag source queryRoots entries data retained rawRetained)[id]? = .some configuration ∧
      candidate = withProducers source ((configurations dag source queryRoots entries data retained
        rawRetained).map (candidateOf dag source entries data retained))
          (candidateOf dag source entries data retained configuration) := by
    simp only [configuredCandidates, List.getElem?_map, Option.map_eq_some_iff,
      exists_exists_and_eq_and] at found
    obtain ⟨configuration, here, same⟩ := found
    exact ⟨configuration, here, same.symm⟩
  -- An output reference that may read the node is one of its query's.
  have small : ∀ output ∈ readers, output < (outputReferences queryRoots).length := by
    intro output member
    obtain ⟨start, first, -⟩ := reads output member
    rw [mapped]
    by_contra beyond
    rw [List.getD_eq_getElem?_getD, List.getElem?_eq_none (not_lt.mp beyond)] at first
    cases first
  have own : ∀ output ∈ readers, ∀ query,
      output ∈ (queryOutputs queryRoots entries).getD query [] ↔ queryOf queryRoots output = query :=
    fun output member query => mem_queryOutputs known (small output member)
  have each : ∀ output ∈ readers, queryOf queryRoots output ∈
      potentialQueries source queryRoots entries configuration.operatorNode := by
    intro output member
    have listed := (own output member _).mpr rfl
    refine List.mem_filter.mpr ⟨?_, decide_eq_true ?_⟩
    · rw [List.mem_range]
      by_contra beyond
      rw [List.getD_eq_getElem?_getD, List.getElem?_eq_none (by simpa [queryOutputs] using beyond)] at listed
      cases listed
    · exact CandidateInventory.mem_potential listed (reads output member)
  have admits := @readerConstraintsOf_exact dag entries data retained _ _ _ configuration.materialization
    id readers _ summary some each own
  refine Iff.trans ?_ admits
  constructor
  · intro all constraint member
    obtain ⟨listed, same⟩ := (constraint_on here).mpr member
    exact all constraint listed same
  · intro all constraint listed same
    exact all constraint ((constraint_on here).mp ⟨listed, same⟩)

end

/-! Two queries on one chain of one-minute tumbling windows, half a minute apart. -/

def minuteChain : CandidateInventory where
  operatorNodes := [{ group := 0, isImplementationRoot := true, physicalNode := 2 }]
  producerNodesPerInput := [[]]
  queryOutputNodes := [[0], [0]]
  implementationRootsOfGroup := [[0]]

def everyMinuteAt (evaluationPhase : Nat) : QueryWorkloadEntry where
  recurrence := .repeated (.fixedIntervalAt 60000 evaluationPhase)
  rangeEvaluation := none
  predictability := .predictable none

def halfMinuteApart : List QueryWorkloadEntry := [everyMinuteAt 0, everyMinuteAt 30000]

theorem potentialQueries_minuteChain :
    potentialQueries minuteChain [.operator 0, .operator 0] halfMinuteApart 0 = [0, 1] := by
  have own : ∀ query < 2, (0 : Nat) ∈ minuteChain.potential
      ((queryOutputs [.operator 0, .operator 0] halfMinuteApart).getD query []) := by
    intro query small
    obtain rfl | rfl : query = 0 ∨ query = 1 := by omega
    · exact @CandidateInventory.mem_potential minuteChain [0] 0 0 List.mem_cons_self
        ⟨0, List.mem_cons_self, .refl⟩
    · exact @CandidateInventory.mem_potential minuteChain [1] 1 0 List.mem_cons_self
        ⟨0, List.mem_cons_self, .refl⟩
  unfold potentialQueries
  exact List.filter_eq_self.mpr fun query listed => decide_eq_true (own query (List.mem_range.mp listed))

theorem configurations_minuteChain :
    configurations minuteWindows minuteChain [.operator 0, .operator 0] halfMinuteApart ingestingData
      true true = [⟨0, .notMaterialized, .queryTime⟩, ⟨0, .matAtQuery .memory, .queryTime⟩,
        ⟨0, .matAtIngestion .memory, .ingestionTime⟩,
        ⟨0, .matAtQueryKeptAcrossEvaluations .memory, .queryTime⟩] := by
  unfold configurations allConfigurations
  rw [show List.range minuteChain.operatorNodes.length = [0] from rfl, List.flatMap_singleton,
    potentialQueries_minuteChain]
  rfl

theorem enumerate_minuteChain :
    enumerateCandidateConfigurations minuteWindows minuteChain [.operator 0, .operator 0]
      halfMinuteApart ingestingData true true = .ok (configuredCandidates minuteWindows minuteChain
        [.operator 0, .operator 0] halfMinuteApart ingestingData true true) := by
  have valid : validateCandidates (configuredCandidates minuteWindows minuteChain
      [.operator 0, .operator 0] halfMinuteApart ingestingData true true) = .ok () := by
    unfold configuredCandidates
    rw [configurations_minuteChain]
    simp only [List.zipIdx_cons, List.zipIdx_nil, List.flatMap_cons, List.flatMap_nil, potentialQueries_minuteChain]
    rfl
  show ((validateCandidates (configuredCandidates minuteWindows minuteChain _ _ _ _ _)).mapError
    ConfigurationError.invalidInventory >>= fun _ => pure _) = _
  rw [valid]
  rfl

/-- The two queries may not read a chain kept across evaluations together. -/
theorem reader_constraints_exact_apart :
    ¬ ∀ constraint ∈ (configuredCandidates minuteWindows minuteChain [.operator 0, .operator 0]
        halfMinuteApart ingestingData true true).readerConstraints,
      constraint.candidate = 3 → constraint.Admits [0, 1] := by
  have fourth : ∃ candidate, (configuredCandidates minuteWindows minuteChain [.operator 0, .operator 0]
      halfMinuteApart ingestingData true true).candidates[3]? = some candidate ∧
      candidate.operatorNode = 0 ∧
      candidate.materialization = .matAtQueryKeptAcrossEvaluations .memory := by
    unfold configuredCandidates
    rw [configurations_minuteChain]
    exact ⟨_, rfl, rfl, rfl⟩
  obtain ⟨candidate, found, node, kept⟩ := fourth
  have exact := (reader_constraints_exact minuteWindows halfMinuteApart ingestingData true).2 _ _ _ _
    enumerate_minuteChain 3 candidate found (by rw [node]; rfl) [0, 1] (List.cons_ne_nil _ _) (by
      rw [node]
      intro output member
      obtain rfl | rfl : output = 0 ∨ output = 1 := by simpa using member
      · exact ⟨0, List.mem_cons_self, .refl⟩
      · exact ⟨0, List.mem_cons_self, .refl⟩)
  rw [node, kept] at exact
  have refused : summaryModeAllowed minuteWindows 2 [0, 1] (.matAtQueryKeptAcrossEvaluations .memory)
      halfMinuteApart ingestingData true = false := rfl
  intro admits
  exact Bool.false_ne_true (refused.symm.trans (exact.mp admits))

end AsapPlanner.Catalog
