import AsapPlanner.Ir.Node
import AsapPlanner.Milp.Contexts
import AsapPlanner.Traversal.Built
import AsapPlanner.Traversal.Search
import Mathlib.Data.List.Dedup
import Mathlib.Data.List.FinRange

/-!
Stage 2's output: the physical candidates, which of them may produce each input, and which sets of
output references may read them. Pruning the candidates that no selection can use: rounds of what can be
built, what a query output reaches and how many queries can read it, until a round rules out none. The
candidates left are renumbered in their order.
-/

namespace AsapPlanner.Catalog
open Ir Physical Traversal
open Milp (MemoGroupId outputReferences)

structure OperatorNodeOfCandidateForMemoGroup extends Milp.OperatorNodeOfCandidateForMemoGroup where
  physicalNode : NodeRef

structure PhysicalCandidate where
  operatorNode : Nat
  timing : ExecutionTiming
  materialization : Materialization
  producerCandidatesPerInput : List (List Nat)
  mayProduceQueryOutput : Bool
  mayKeepAcrossEvaluationsPerSoleReaderQuery : List Bool

/-- A candidate that is pruned, as it would have been. -/
structure PhysicalCandidateKey where
  operatorNode : Nat
  timing : ExecutionTiming
  materialization : Materialization

inductive PruneReason
  | perEntityAggregateNotExecutable
  | rawDataNotRetained
  | inputHasNoBuildableProducer
  | reachesNoQueryOutput
  | tooFewQueryReaders
deriving DecidableEq, Repr

structure PrunedCandidate where
  group : MemoGroupId
  candidate : PhysicalCandidateKey
  reason : PruneReason

/-- Which output references may read a candidate. -/
inductive ReaderConstraint
  | minimumQueryReaders (candidate : Nat) (queryOutputs : List (List Nat)) (minimum : Nat)
  | highestSharedQueryMaterialization (candidate : Nat) (queryOutputs : List (List Nat))
  | allowedOutputs (candidate : Nat) (outputs : List Nat)
  | incompatibleOutputs (candidate left right : Nat)
deriving DecidableEq, Repr

namespace ReaderConstraint

def candidate : ReaderConstraint → Nat
  | minimumQueryReaders candidate .. | highestSharedQueryMaterialization candidate _
  | allowedOutputs candidate _ | incompatibleOutputs candidate .. => candidate

/-- `candidate_mut`. -/
def setCandidate (id : Nat) : ReaderConstraint → ReaderConstraint
  | minimumQueryReaders _ queryOutputs minimum => minimumQueryReaders id queryOutputs minimum
  | highestSharedQueryMaterialization _ queryOutputs => highestSharedQueryMaterialization id queryOutputs
  | allowedOutputs _ outputs => allowedOutputs id outputs
  | incompatibleOutputs _ left right => incompatibleOutputs id left right

end ReaderConstraint

structure PhysicalASAPMemoCandidates where
  operatorNodes : List OperatorNodeOfCandidateForMemoGroup
  candidates : List PhysicalCandidate
  queryRoots : List (QueryRoot MemoGroupId)
  readerConstraints : List ReaderConstraint
  prunedCandidates : List PrunedCandidate

namespace PhysicalASAPMemoCandidates
variable (physical : PhysicalASAPMemoCandidates)

def implementationRoots (group : MemoGroupId) : List Nat :=
  (List.range physical.candidates.length).filter fun id =>
    (physical.candidates[id]?.bind fun candidate => physical.operatorNodes[candidate.operatorNode]?).any
      fun node => node.isImplementationRoot && node.group == group

def outputReferenceGroups : List MemoGroupId := (outputReferences physical.queryRoots).map (·.2)

def outputReferenceCount : Nat := physical.outputReferenceGroups.length

def queryOutputCandidates (output : Nat) : List Nat :=
  match physical.outputReferenceGroups[output]? with
  | some group => (physical.implementationRoots group).filter fun id =>
      physical.candidates[id]?.any (·.mayProduceQueryOutput)
  | none => []

end PhysicalASAPMemoCandidates

/-! ### Validation -/

/-- The ids name candidates, of `count`, each once. -/
def validateIds (ids : List Nat) (count : Nat) (context : String) : Except String Unit :=
  go [] ids
where
  go (seen : List Nat) : List Nat → Except String Unit
    | [] => .ok ()
    | id :: rest =>
      if count ≤ id then .error s!"{context} references missing candidate {id}"
      else if id ∈ seen then .error s!"{context} repeats candidate {id}"
      else go (id :: seen) rest

def constrainedOutputs (outputsCount : Nat) : ReaderConstraint → Except String (List Nat)
  | .minimumQueryReaders _ queryOutputs _ | .highestSharedQueryMaterialization _ queryOutputs =>
    let outputs := queryOutputs.flatten
    if outputs.length ≠ outputsCount ∨ outputs.dedup.length ≠ outputs.length then
      .error "query reader buckets must partition every output exactly once"
    else .ok outputs
  | .allowedOutputs _ outputs => .ok outputs
  | .incompatibleOutputs _ left right => .ok [left, right]

def validateConstraint (count outputsCount : Nat) (constraint : ReaderConstraint) :
    Except String Unit := do
  let outputs ← constrainedOutputs outputsCount constraint
  if count ≤ constraint.candidate ∨ outputs.any (outputsCount ≤ ·) then
    throw "reader constraint references missing candidate or output"

def validateCandidate (nodes count : Nat) (candidate : PhysicalCandidate) (index : Nat) :
    Except String Unit := do
  if nodes ≤ candidate.operatorNode then
    throw s!"candidate {index} references missing operator node"
  candidate.producerCandidatesPerInput.zipIdx.forM fun (producers, input) =>
    validateIds producers count s!"candidate {index}, requirement {input}"

def validateCandidates (physical : PhysicalASAPMemoCandidates) : Except String Unit :=
  let count := physical.candidates.length
  Except.mapError ("invalid physical ASAP memo candidates: " ++ ·) do
    physical.readerConstraints.forM (validateConstraint count physical.outputReferenceCount)
    physical.candidates.zipIdx.forM fun (candidate, index) =>
      validateCandidate physical.operatorNodes.length count candidate index

/-! ### Pruning -/

/-! ### Reasons -/

/-- Reasons found in a round, where there was none before. -/
def addReasons (reasons : List (Option PruneReason)) (round : Nat → Option PruneReason) :
    List (Option PruneReason) :=
  reasons.zipIdx.map fun (reason, id) => reason.or (round id)

def ReaderConstraint.lets (id output : Nat) : ReaderConstraint → Bool
  | .allowedOutputs candidate outputs => candidate ≠ id || output ∈ outputs
  | _ => true

namespace PhysicalASAPMemoCandidates
variable (physical : PhysicalASAPMemoCandidates) (reasons : List (Option PruneReason))

def inputs (id : Nat) : List (List Nat) :=
  (physical.candidates[id]?.map (·.producerCandidatesPerInput)).getD []

/-- No reason against a candidate yet. -/
def enabled (id : Nat) : Bool := reasons[id]? = some none

/-- What can be built of the candidates enabled: a cycle without a way out cannot. -/
def realizable : List Nat :=
  settle (List.range physical.candidates.length) (enabled reasons) physical.inputs []

def realizableGraph : Graph Nat where
  reads id := (physical.inputs id).flatten.filter fun producer => producer ∈ physical.realizable reasons
  inner := List.range physical.candidates.length
  covers id producer read := by
    rw [List.mem_range]
    by_contra beyond
    rw [inputs, List.getElem?_eq_none (not_lt.mp beyond)] at read
    cases read

def reachedFrom (output : Nat) : List Nat :=
  (physical.realizableGraph reasons).mark
    ((physical.queryOutputCandidates output).filter fun root => root ∈ physical.realizable reasons) []

def reached (id output : Nat) : Bool :=
  id ∈ physical.reachedFrom reasons output &&
    physical.readerConstraints.all (ReaderConstraint.lets id output)

def tooFew (id : Nat) : ReaderConstraint → Bool
  | .minimumQueryReaders candidate queryOutputs minimum =>
    candidate = id && (queryOutputs.countP fun outputs => outputs.any fun output =>
      physical.reached reasons id output) < minimum
  | _ => false

/-- The first reason of a round against a candidate. -/
def roundReason (id : Nat) : Option PruneReason :=
  let base := if !enabled reasons id then none
    else if id ∉ physical.realizable reasons then some .inputHasNoBuildableProducer
    else if !(List.range physical.outputReferenceCount).any fun output =>
        physical.reached reasons id output then some .reachesNoQueryOutput
    else none
  base.or (if physical.readerConstraints.any (physical.tooFew reasons id) then some .tooFewQueryReaders
    else none)

end PhysicalASAPMemoCandidates

theorem addReasons_getElem? (reasons : List (Option PruneReason)) (round : Nat → Option PruneReason)
    (id : Nat) : (addReasons reasons round)[id]? = reasons[id]?.map (·.or (round id)) := by
  unfold addReasons
  rw [List.getElem?_map, List.getElem?_zipIdx]
  cases reasons[id]? <;> simp

theorem zipIdx_or {round : Nat → Option PruneReason} (reasons : List (Option PruneReason)) (first : Nat) :
    let next := (reasons.zipIdx first).map fun (reason, id) => reason.or (round id)
    next.countP (·.isNone) ≤ reasons.countP (·.isNone) ∧
      (next ≠ reasons → next.countP (·.isNone) < reasons.countP (·.isNone)) := by
  induction reasons generalizing first with
  | nil => exact ⟨Nat.le_refl _, fun more => absurd rfl more⟩
  | cons reason rest ih =>
    obtain ⟨most, fewer⟩ := ih (first + 1)
    simp only [List.zipIdx_cons, List.map_cons]
    generalize (rest.zipIdx (first + 1)).map (fun (reason, id) => reason.or (round id)) = next at most fewer
    cases reason with
    | some reason =>
      rw [Option.some_or, List.countP_cons_of_neg (by simp), List.countP_cons_of_neg (by simp)]
      exact ⟨most, fun more => fewer fun same => more (by rw [same])⟩
    | none =>
      rw [Option.none_or, List.countP_cons_of_pos (l := rest) (by rfl)]
      cases round first with
      | none =>
        rw [List.countP_cons_of_pos (by rfl)]
        refine ⟨Nat.succ_le_succ most, fun more => Nat.succ_lt_succ (fewer fun same => more ?_)⟩
        rw [same]
      | some reason =>
        rw [List.countP_cons_of_neg (by simp)]
        exact ⟨Nat.le_succ_of_le most, fun _ => Nat.lt_succ_of_le most⟩

theorem addReasons_lt {reasons : List (Option PruneReason)} {round : Nat → Option PruneReason}
    (more : addReasons reasons round ≠ reasons) :
    (addReasons reasons round).countP (·.isNone) < reasons.countP (·.isNone) := by
  exact (zipIdx_or reasons 0).2 more

def PhysicalASAPMemoCandidates.pruneRounds (physical : PhysicalASAPMemoCandidates)
    (reasons : List (Option PruneReason)) : List (Option PruneReason) :=
  let next := addReasons reasons (physical.roundReason reasons)
  if next = reasons then reasons else physical.pruneRounds next
termination_by reasons.countP (·.isNone)
decreasing_by exact addReasons_lt (by assumption)

namespace PhysicalASAPMemoCandidates
variable (physical : PhysicalASAPMemoCandidates)

def pruneReasons : List (Option PruneReason) :=
  physical.pruneRounds (List.replicate physical.candidates.length none)

/-- The ids of the candidates left, ascending. -/
def kept : List Nat := (List.range physical.candidates.length).filter (enabled physical.pruneReasons)

/-- The new id of a candidate that is left. -/
def mapping (id : Nat) : Option Nat := physical.kept.idxOf? id

def renumbered (candidate : PhysicalCandidate) : PhysicalCandidate :=
  { candidate with
    producerCandidatesPerInput := candidate.producerCandidatesPerInput.map (·.filterMap physical.mapping) }

def removed : List PrunedCandidate :=
  (physical.candidates.zip physical.pruneReasons).filterMap fun (candidate, reason) =>
    reason.map fun reason =>
      { group := (physical.operatorNodes[candidate.operatorNode]?.map (·.group)).getD 0
        candidate := ⟨candidate.operatorNode, candidate.timing, candidate.materialization⟩
        reason }

/-- The catalog of what is left. -/
def pruned : PhysicalASAPMemoCandidates where
  operatorNodes := physical.operatorNodes
  candidates := physical.kept.filterMap fun id => physical.candidates[id]?.map physical.renumbered
  queryRoots := physical.queryRoots
  readerConstraints := physical.readerConstraints.filterMap fun constraint =>
    (physical.mapping constraint.candidate).map fun id => constraint.setCandidate id
  prunedCandidates := physical.prunedCandidates ++ physical.removed

def prune : Except String PhysicalASAPMemoCandidates := do
  validateCandidates physical.pruned
  pure physical.pruned

end PhysicalASAPMemoCandidates
end AsapPlanner.Catalog
