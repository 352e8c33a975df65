import AsapPlanner.Physical.Flatten
import AsapPlanner.Rust.BTreeMap
import Mathlib.Data.List.Sort
import Mathlib.Data.Prod.Lex

/-!
The physical candidates that plan selection chooses among, where each runs and which result it gives.
The execution contexts of the selection MILP: one per query, per ingestion pipeline and per shareable
candidate that some context may read, each with the candidates it may use.
-/

namespace AsapPlanner.Milp
open Rust Ir Physical

-- Named, so that a definition over candidates names what it uses.
scoped instance lawfulCandidate {n : Nat} : LawfulBEq (Fin n) := inferInstance
scoped instance lawfulPlace {n : Nat} : LawfulBEq (Nat × Fin n) := inferInstance
scoped instance neZeroTwo : NeZero 2 := ⟨by decide⟩
scoped instance neZeroThree : NeZero 3 := ⟨by decide⟩
scoped instance neZeroFour : NeZero 4 := ⟨by decide⟩
scoped instance neZeroFive : NeZero 5 := ⟨by decide⟩

abbrev MemoGroupId := Nat

structure OperatorNodeOfCandidateForMemoGroup where
  group : MemoGroupId
  isImplementationRoot : Bool

/-- One operator node with one timing and materialization, one of `n` candidates. -/
structure PhysicalCandidate (n nodes : Nat) where
  operatorNode : Fin nodes
  timing : ExecutionTiming
  materialization : Materialization
  producerCandidatesPerInput : List (List (Fin n))
  mayProduceQueryOutput : Bool

structure PhysicalASAPMemoCandidates (n : Nat) where
  operatorNodes : List OperatorNodeOfCandidateForMemoGroup
  candidates : Fin n → PhysicalCandidate n operatorNodes.length
  queryRoots : List (QueryRoot MemoGroupId)

/-- Where a candidate runs. -/
inductive RunKind
  | perContext | ingestion | shareable
deriving DecidableEq, Repr

def runKind : ExecutionTiming → Materialization → RunKind
  | .queryTime, .notMaterialized => .perContext
  | .ingestionTime, .notMaterialized => .ingestion
  | _, _ => .shareable

/-- The candidates that give one result: a memo group's roots of one self-read depth, or a private
operator node. -/
inductive ResultSlot
  | group (group : MemoGroupId) (depth : Nat)
  | privateNode (node : Nat)
deriving DecidableEq, Repr

/-- The order of the variants and their fields. -/
def ResultSlot.le : ResultSlot → ResultSlot → Bool
  | group g d, group g' d' => g < g' || g == g' && d ≤ d'
  | group _ _, privateNode _ => true
  | privateNode _, group _ _ => false
  | privateNode node, privateNode node' => node ≤ node'

/-- An ordered set of candidates. -/
def ascending {n : Nat} (candidates : List (Fin n)) : List (Fin n) :=
  (List.finRange n).filter fun candidate => candidate ∈ candidates

@[simp] theorem mem_ascending {n : Nat} {candidates : List (Fin n)} {candidate : Fin n} :
    candidate ∈ ascending candidates ↔ candidate ∈ candidates := by
  simp [ascending]

theorem ascending_nodup {n : Nat} (candidates : List (Fin n)) : (ascending candidates).Nodup :=
  (List.nodup_finRange n).filter _

def outputReferences (queryRoots : List (QueryRoot MemoGroupId)) : List (Nat × MemoGroupId) :=
  queryRoots.zipIdx.flatMap fun (root, query) => root.refs.map (query, ·)

namespace PhysicalASAPMemoCandidates
variable {n : Nat} (physical : PhysicalASAPMemoCandidates n)

def operatorNode (candidate : Fin n) : OperatorNodeOfCandidateForMemoGroup :=
  physical.operatorNodes.get (physical.candidates candidate).operatorNode

def root (candidate : Fin n) : Option MemoGroupId :=
  if (physical.operatorNode candidate).isImplementationRoot then
    some (physical.operatorNode candidate).group
  else none

def implementationRoots (group : MemoGroupId) : List (Fin n) :=
  (List.finRange n).filter fun candidate => physical.root candidate = some group

def queryOutputCandidates (group : MemoGroupId) : List (Fin n) :=
  (physical.implementationRoots group).filter fun candidate =>
    (physical.candidates candidate).mayProduceQueryOutput

/-- One for a root that may read another root of its own group. -/
def selfReadDepth (candidate : Fin n) : Nat :=
  match physical.root candidate with
  | none => 0
  | some group =>
    if (physical.candidates candidate).producerCandidatesPerInput.flatten.any fun producer =>
        producer ≠ candidate && physical.root producer = some group
    then 1 else 0

/-- `result_slots`. -/
def resultSlot (candidate : Fin n) : ResultSlot :=
  match physical.root candidate with
  | some group => .group group (physical.selfReadDepth candidate)
  | none => .privateNode (physical.candidates candidate).operatorNode

def kind (candidate : Fin n) : RunKind :=
  runKind (physical.candidates candidate).timing (physical.candidates candidate).materialization

/-- `CandidateLinks::new`: a candidate that runs in a context cannot read its own slot there, and no
candidate reads itself. -/
def candidateLinks (reader : Fin n) : List (List (Fin n)) :=
  (physical.candidates reader).producerCandidatesPerInput.map fun producers =>
    (ascending producers).filter fun producer =>
      producer ≠ reader && (physical.kind reader = .shareable ||
        physical.resultSlot producer ≠ physical.resultSlot reader)

/-- The links that pruning leaves. -/
def producerCandidatesLeft (alive : Fin n → Bool) (candidate : Fin n) : List (List (Fin n)) :=
  if alive candidate then (physical.candidateLinks candidate).map fun producers =>
    producers.filter alive
  else []

def outputCandidates (alive : Fin n → Bool) : List (List (Fin n)) :=
  (outputReferences physical.queryRoots).map fun (_, group) =>
    ascending ((physical.queryOutputCandidates group).filter alive)

end PhysicalASAPMemoCandidates

/-! ### Execution contexts -/

structure RefreshWindow where
  widthMs : Nat
  phaseMs : Nat
deriving DecidableEq, Repr

/-- Which ingestion pipeline: the views of one refresh window, or a view refreshed alone. -/
inductive IngestionPipeline (n : Nat)
  | window (window : RefreshWindow)
  | alone (shareable : Fin n)
deriving DecidableEq, Repr

namespace IngestionPipeline
variable {n : Nat}

/-- The variant and its fields, by which pipelines are ordered. -/
def key : IngestionPipeline n → Nat ×ₗ Nat ×ₗ Nat
  | window w => toLex (0, toLex (w.widthMs, w.phaseMs))
  | alone shareable => toLex (1, toLex (shareable.val, 0))

theorem key_injective : Function.Injective (key : IngestionPipeline n → _) := by
  rintro (⟨width, phase⟩ | shareable) (⟨width', phase'⟩ | shareable') same
  · have fields := congrArg (fun k => ofLex (ofLex k).2) same
    obtain ⟨rfl, rfl⟩ := Prod.mk.inj fields
    rfl
  · exact absurd (congrArg (fun k => (ofLex k).1) same) Nat.zero_ne_one
  · exact absurd (congrArg (fun k => (ofLex k).1) same) Nat.one_ne_zero
  · have fields := congrArg (fun k => (ofLex (ofLex k).2).1) same
    exact congrArg alone (Fin.ext fields)

instance : LinearOrder (IngestionPipeline n) := LinearOrder.lift' key key_injective

end IngestionPipeline

inductive ContextKind (n : Nat)
  | query (query : Nat)
  | ingestion (pipeline : IngestionPipeline n)
  | shared (shareable : Fin n)
deriving DecidableEq, Repr

structure ExecutionContext (n : Nat) where
  kind : ContextKind n
  atQueryTime : Bool
  options : List (Fin n)

/-- Whether a candidate is computed in the context, not read across its boundary. -/
def ExecutionContext.computes {n : Nat} (context : ExecutionContext n) : RunKind → Bool
  | .perContext => context.atQueryTime
  | .ingestion => match context.kind with
    | .ingestion _ => true
    | _ => false
  | .shareable => false

/-- What the contexts are found from: the links and outputs left after pruning, each candidate's
kind and timing, the usable candidates and the refresh windows of ingestion-time views. -/
structure ContextInputs (n : Nat) where
  queries : Nat
  references : List Nat
  outputs : List (List (Fin n))
  producers : Fin n → List (List (Fin n))
  kind : Fin n → RunKind
  atQueryTime : Fin n → Bool
  usable : Fin n → Bool
  refreshWindow : Fin n → Option RefreshWindow

namespace ContextInputs
variable {n : Nat} (inputs : ContextInputs n)

def ingestionPipeline (shareable : Fin n) : IngestionPipeline n :=
  match inputs.refreshWindow shareable with
  | some window => .window window
  | none => .alone shareable

/-- Whether the search of a context's options passes over a candidate. -/
def skips (context : ExecutionContext n) (seen : List (Fin n)) (candidate : Fin n) : Bool :=
  !inputs.usable candidate || candidate ∈ seen ||
    inputs.kind candidate = .perContext && !context.atQueryTime

def expandFrom (context : ExecutionContext n) : Nat → List (Fin n) → List (Fin n) → List (Fin n)
  | 0, _, seen => seen
  | rounds + 1, stack, seen =>
    match stack.dropWhile (inputs.skips context seen) with
    | [] => seen
    | candidate :: stack =>
      let below := if context.computes (inputs.kind candidate) then
        (inputs.producers candidate).flatten.reverse ++ stack else stack
      expandFrom context rounds below (candidate :: seen)

def expand (context : ExecutionContext n) (seeds : List (Fin n)) : ExecutionContext n :=
  { context with options := ascending (inputs.expandFrom context n seeds.reverse []) }

def queryContext (query : Nat) : ExecutionContext n :=
  inputs.expand ⟨.query query, true, []⟩
    ((inputs.references.zip inputs.outputs).flatMap fun (owner, outputs) =>
      if owner = query then outputs else [])

def sharedContext (shareable : Fin n) : ExecutionContext n :=
  inputs.expand ⟨.shared shareable, inputs.atQueryTime shareable, []⟩
    (inputs.producers shareable).flatten

def ingestionContext (pipeline : IngestionPipeline n) (seeds : List (Fin n)) : ExecutionContext n :=
  inputs.expand ⟨.ingestion pipeline, false, []⟩ seeds

/-- The contexts found: shareable candidates' in order of discovery, and each pipeline's with the
candidates read across its boundary. -/
structure Found (n : Nat) where
  shared : List (ExecutionContext n)
  known : List (Fin n)
  ingestion : BTreeMap (IngestionPipeline n) (ExecutionContext n × List (Fin n))
  scanned : Nat

/-- What a scan of contexts asks for: new shareable candidates and candidates of pipelines. -/
structure Asked (n : Nat) where
  pending : List (Fin n)
  seeds : List (IngestionPipeline n × Fin n)

def pipelineOf (context : ExecutionContext n) : Option (IngestionPipeline n) :=
  match context.kind with
  | .shared shareable => if context.atQueryTime then none else some (inputs.ingestionPipeline shareable)
  | _ => none

def ask (known : List (Fin n)) (context : ExecutionContext n) (asked : Asked n) (option : Fin n) :
    Asked n :=
  match inputs.kind option with
  | .shareable =>
    if option ∈ known ∨ option ∈ asked.pending then asked
    else { asked with pending := asked.pending ++ [option] }
  | .ingestion =>
    match inputs.pipelineOf context with
    | some pipeline => { asked with seeds := asked.seeds ++ [(pipeline, option)] }
    | none => asked
  | .perContext => asked

def scan (known : List (Fin n)) (contexts : List (ExecutionContext n)) : Asked n :=
  contexts.foldl (fun asked context => context.options.foldl (inputs.ask known context) asked)
    ⟨[], []⟩

/-- Note a pipeline's candidate; the pipelines that grew. -/
def seed (state : BTreeMap (IngestionPipeline n) (ExecutionContext n × List (Fin n)) ×
    List (IngestionPipeline n)) (asked : IngestionPipeline n × Fin n) :
    BTreeMap (IngestionPipeline n) (ExecutionContext n × List (Fin n)) ×
      List (IngestionPipeline n) :=
  let start := (⟨.ingestion asked.1, false, []⟩, [])
  let (_, known) := (state.1.get? asked.1).getD start
  if asked.2 ∈ known then state
  else
    (state.1.change asked.1 start fun entry => (entry.1, entry.2 ++ [asked.2]),
      asked.1 :: state.2)

/-- One round of the discovery; `none` when nothing is new. -/
def discover (queries : List (ExecutionContext n)) (found : Found n) : Option (Found n) :=
  let unscanned := (queries ++ found.shared).drop found.scanned
  let asked := inputs.scan found.known
    (unscanned ++ found.ingestion.entries.map fun entry => entry.2.1)
  let scanned := queries.length + found.shared.length
  let (ingestion, grown) := asked.seeds.foldl seed (found.ingestion, [])
  if asked.pending = [] ∧ grown = [] then none
  else some {
    shared := found.shared ++ (ascending asked.pending).map inputs.sharedContext
    known := found.known ++ ascending asked.pending
    ingestion := grown.foldl (fun ingestion pipeline =>
      ingestion.change pipeline (⟨.ingestion pipeline, false, []⟩, []) fun entry =>
        (inputs.ingestionContext pipeline (ascending entry.2), entry.2)) ingestion
    scanned }

def discoverAll (queries : List (ExecutionContext n)) : Nat → Found n → Found n
  | 0, found => found
  | rounds + 1, found =>
    match inputs.discover queries found with
    | none => found
    | some found => discoverAll queries rounds found

/-- Every round finds a shareable candidate or a candidate of a pipeline. -/
def discovered (queries : List (ExecutionContext n)) : Found n :=
  inputs.discoverAll queries (n + n * n + 1) ⟨[], [], BTreeMap.empty, 0⟩

def queryContexts : List (ExecutionContext n) :=
  (List.range inputs.queries).map inputs.queryContext

/-- The order of the shareable candidates whose contexts they are. -/
def sharedLe (a b : ExecutionContext n) : Bool :=
  match a.kind, b.kind with
  | .shared a, .shared b => a ≤ b
  | _, _ => false

/-- `execution_contexts`: queries, pipelines, then shareable candidates. -/
def contexts : List (ExecutionContext n) :=
  let found := inputs.discovered inputs.queryContexts
  inputs.queryContexts ++ found.ingestion.entries.map (fun entry => entry.2.1) ++
    found.shared.insertionSort fun a b => sharedLe a b

end ContextInputs

/-- What the selection MILP is built from. -/
structure MilpInputs (n : Nat) where
  references : List Nat
  outputs : List (List (Fin n))
  producers : Fin n → List (List (Fin n))
  kind : Fin n → RunKind
  slot : Fin n → ResultSlot
  contexts : List (ExecutionContext n)
  contextOfShareable : Fin n → Option Nat
  ingestionContextOfShareable : Fin n → Option Nat

namespace PhysicalASAPMemoCandidates
variable {n : Nat} (physical : PhysicalASAPMemoCandidates n) (alive usable : Fin n → Bool)
  (refreshWindow : Fin n → Option RefreshWindow)

def contextInputs : ContextInputs n where
  queries := physical.queryRoots.length
  references := (outputReferences physical.queryRoots).map Prod.fst
  outputs := physical.outputCandidates alive
  producers := physical.producerCandidatesLeft alive
  kind := physical.kind
  atQueryTime := fun candidate => (physical.candidates candidate).timing = .queryTime
  usable := usable
  refreshWindow := refreshWindow

/-- `prepare_milp_inputs_with`, from the candidates pruning keeps, those that can be costed and the
refresh windows of ingestion-time views. -/
def milpInputs : MilpInputs n :=
  let inputs := physical.contextInputs alive usable refreshWindow
  let contexts := inputs.contexts
  { references := inputs.references
    outputs := inputs.outputs
    producers := inputs.producers
    kind := physical.kind
    slot := physical.resultSlot
    contexts
    contextOfShareable := fun shareable =>
      contexts.findIdx? fun context => context.kind = .shared shareable
    ingestionContextOfShareable := fun shareable =>
      if contexts.any fun context => context.kind = .shared shareable && !context.atQueryTime then
        contexts.findIdx? fun context =>
          context.kind = .ingestion (inputs.ingestionPipeline shareable)
      else none }

end PhysicalASAPMemoCandidates
end AsapPlanner.Milp
