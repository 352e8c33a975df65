import AsapPlanner.Catalog.Pruning
import AsapPlanner.Rust.Result
import AsapPlanner.Traversal.Drain
import AsapPlanner.Traversal.Search

/-!
Selections over the physical candidates, one node for each run of a candidate, and their structural
validation.
-/

namespace AsapPlanner.Catalog
open Rust Traversal

/-- The output of `producer` is input `input` of `consumer`. -/
structure SelectedEdge where
  producer : Nat
  consumer : Nat
  input : Nat
deriving DecidableEq, Repr

structure DagOfSelectedCandidates where
  candidateOfNode : List Nat
  edges : List SelectedEdge
  nodeOfOutputReference : List Nat
deriving DecidableEq, Repr

/-- The producer of each input of each node, and the consumers of each node. -/
structure Links where
  producers : Nat → List (Option Nat)
  consumers : Nat → List Nat

/-- The parts of a catalog that a selection is checked against. -/
structure CatalogParts where
  candidateCount : Nat
  inputCount : Nat → Nat
  producersOfInput : Nat → Nat → Option (List Nat)
  queryOutputCandidates : List (List Nat)
  readerConstraints : List ReaderConstraint

def PhysicalASAPMemoCandidates.parts (physical : PhysicalASAPMemoCandidates) : CatalogParts where
  candidateCount := physical.candidates.length
  inputCount candidate :=
    ((physical.candidates[candidate]?.map (·.producerCandidatesPerInput)).getD []).length
  producersOfInput candidate input :=
    ((physical.candidates[candidate]?.map (·.producerCandidatesPerInput)).getD [])[input]?
  queryOutputCandidates := (List.range physical.outputReferenceCount).map physical.queryOutputCandidates
  readerConstraints := physical.readerConstraints

namespace DagOfSelectedCandidates
variable (selected : DagOfSelectedCandidates)

def count : Nat := selected.candidateOfNode.length

def candidate (node : Nat) : Nat := selected.candidateOfNode.getD node 0

def unlinked (parts : CatalogParts) : Links where
  producers node :=
    List.replicate ((selected.candidateOfNode[node]?.map parts.inputCount).getD 0) none
  consumers _ := []

/-- One edge, unless it has no such input, another producer or one that is not allowed. -/
def link (parts : CatalogParts) (links : Links) (edge : SelectedEdge) : Option Links := do
  if selected.count ≤ edge.producer ∨ selected.count ≤ edge.consumer then none
  let producerCandidates ← parts.producersOfInput (selected.candidate edge.consumer) edge.input
  let target ← (links.producers edge.consumer)[edge.input]?
  if target.isSome ∨ selected.candidate edge.producer ∉ producerCandidates then none
  some {
    producers := Function.update links.producers edge.consumer
      ((links.producers edge.consumer).set edge.input (some edge.producer))
    consumers := Function.update links.consumers edge.producer
      (links.consumers edge.producer ++ [edge.consumer]) }

/-- The nodes that produce a node's inputs. -/
def slots (links : Links) (node : Nat) : List Nat :=
  if node < selected.count then (links.producers node).filterMap id else []

def graph (links : Links) : Graph Nat where
  reads := selected.slots links
  inner := List.range selected.count
  covers node producer read := by
    unfold slots at read
    split at read
    · rename_i small
      exact List.mem_range.mpr small
    · cases read

def outputReach (links : Links) (output : Nat) : List Nat :=
  match selected.nodeOfOutputReference[output]? with
  | some root => (selected.graph links).mark [root] []
  | none => []

def queriesReaching (links : Links) (node : Nat) (queryOutputs : List (List Nat)) : Nat :=
  queryOutputs.countP fun outputs => outputs.any fun output => node ∈ selected.outputReach links output

/-- Whether a node that runs the candidate constrained breaks the constraint. -/
def violated (links : Links) (node : Nat) : ReaderConstraint → Bool
  | .minimumQueryReaders _ queryOutputs minimum =>
    selected.queriesReaching links node queryOutputs < minimum
  | .highestSharedQueryMaterialization _ queryOutputs =>
    node ∉ selected.nodeOfOutputReference && !(links.consumers node).any fun consumer =>
      selected.queriesReaching links consumer queryOutputs ≤ 1
  | .allowedOutputs _ outputs =>
    (List.range selected.nodeOfOutputReference.length).any fun output =>
      output ∉ outputs && node ∈ selected.outputReach links output
  | .incompatibleOutputs _ left right =>
    node ∈ selected.outputReach links left && node ∈ selected.outputReach links right

def violates (links : Links) (constraint : ReaderConstraint) : Bool :=
  (List.range selected.count).any fun node =>
    selected.candidateOfNode[node]? = some constraint.candidate && selected.violated links node constraint

def invalid : String := "decoded candidate selection violates dependency or root constraints"

def rootsAllowed (parts : CatalogParts) : Bool :=
  (selected.nodeOfOutputReference.zip parts.queryOutputCandidates).all fun (node, allowed) =>
    node < selected.count && selected.candidate node ∈ allowed

/-- Every input has a producer, no node reads itself through others, and every node is read. -/
def wellLinked (links : Links) : Bool :=
  ((List.range selected.count).all fun node => (links.producers node).all Option.isSome) &&
  drain links.consumers selected.count
    (Draining.start selected.count (selected.slots links)) = selected.count &&
  (List.range selected.count).all fun node =>
    (List.range selected.nodeOfOutputReference.length).any fun output =>
      node ∈ selected.outputReach links output

def validateAgainst (parts : CatalogParts) : Except String Unit :=
  if selected.candidateOfNode.any (parts.candidateCount ≤ ·) ∨
      selected.nodeOfOutputReference.length ≠ parts.queryOutputCandidates.length then .error invalid
  else if !selected.rootsAllowed parts then .error invalid
  else match selected.edges.foldlM (selected.link parts) (selected.unlinked parts) with
    | none => .error invalid
    | some links =>
      if !selected.wellLinked links then .error invalid
      else if parts.readerConstraints.any (selected.violates links) then
        .error "decoded selection violates selected-reader compatibility"
      else .ok ()

def validate (physical : PhysicalASAPMemoCandidates) : Except String Unit :=
  selected.validateAgainst physical.parts

/-! ### What is accepted -/

section
variable {selected : DagOfSelectedCandidates} {parts : CatalogParts} {links links' : Links}

variable (selected parts) in
/-- A selection that passes, with its links. -/
structure Accepted (links : Links) : Prop where
  known : ∀ candidate ∈ selected.candidateOfNode, candidate < parts.candidateCount
  outputs : selected.nodeOfOutputReference.length = parts.queryOutputCandidates.length
  roots : selected.rootsAllowed parts = true
  linked : selected.edges.foldlM (selected.link parts) (selected.unlinked parts) = some links
  wellLinked : selected.wellLinked links = true
  compatible : ∀ constraint ∈ parts.readerConstraints, selected.violates links constraint = false

theorem validateAgainst_ok :
    selected.validateAgainst parts = .ok () ↔ ∃ links, selected.Accepted parts links := by
  unfold validateAgainst
  constructor
  · intro run
    split at run
    · cases run
    rename_i fits
    split at run
    · cases run
    rename_i roots
    split at run
    · cases run
    rename_i links linked
    split at run
    · cases run
    rename_i wellLinked
    split at run
    · cases run
    rename_i compatible
    rw [not_or, not_not] at fits
    exact ⟨links, by simpa using fits.1, fits.2, by simpa using roots, linked, by simpa using wellLinked,
      by simpa using compatible⟩
  · rintro ⟨links, known, outputs, roots, linked, wellLinked, compatible⟩
    have fits : ¬ (selected.candidateOfNode.any (parts.candidateCount ≤ ·) = true ∨
        selected.nodeOfOutputReference.length ≠ parts.queryOutputCandidates.length) := by
      rw [not_or, not_not]
      exact ⟨by simpa using known, outputs⟩
    have kept : ¬ parts.readerConstraints.any (selected.violates links) = true := by simpa using compatible
    rw [if_neg fits, roots, linked]
    simp only [Bool.not_true, Bool.false_eq_true, if_false, wellLinked, kept]

variable (selected parts) in
/-- What every state of the loop over the edges has. -/
structure Linked (links : Links) : Prop where
  inputs : ∀ node, (links.producers node).length =
    ((selected.candidateOfNode[node]?).map parts.inputCount).getD 0
  allowed : ∀ node input producer, (links.producers node)[input]? = some (some producer) →
    producer < selected.count ∧ ∃ producers,
      parts.producersOfInput (selected.candidate node) input = some producers ∧
        selected.candidate producer ∈ producers
  matched : ∀ producer consumer, (links.consumers producer).count consumer =
    ((links.producers consumer).filterMap id).count producer

theorem unlinked_linked : selected.Linked parts (selected.unlinked parts) where
  inputs node := List.length_replicate
  allowed node input producer found := by
    have same := List.eq_of_mem_replicate (List.mem_of_getElem? found)
    cases same
  matched producer consumer := by
    have none : ((selected.unlinked parts).producers consumer).filterMap id = [] := by
      rw [List.filterMap_eq_nil_iff]
      exact fun slot listed => List.eq_of_mem_replicate listed
    rw [none]
    rfl

theorem count_filterMap_set {slots : List (Option Nat)} {input producer other : Nat}
    (empty : slots[input]? = some none) :
    ((slots.set input (some producer)).filterMap id).count other =
      (slots.filterMap id).count other + if other = producer then 1 else 0 := by
  induction slots generalizing input with
  | nil => cases empty
  | cons slot rest ih =>
    cases input with
    | zero =>
      obtain rfl : slot = none := Option.some.inj empty
      show (producer :: rest.filterMap id).count other = (rest.filterMap id).count other + _
      rw [List.count_cons]
      by_cases same : other = producer
      · simp [same]
      · simp [same, Ne.symm same]
    | succ input =>
      have later := @ih input empty
      cases slot with
      | none => exact later
      | some first =>
        show (first :: (rest.set input (some producer)).filterMap id).count other =
          (first :: rest.filterMap id).count other + _
        rw [List.count_cons, List.count_cons, later]
        omega

theorem link_eq_some {edge : SelectedEdge} (step : selected.link parts links edge = some links') :
    edge.producer < selected.count ∧ edge.consumer < selected.count ∧
    (links.producers edge.consumer)[edge.input]? = some none ∧
    (∃ producers, parts.producersOfInput (selected.candidate edge.consumer) edge.input = some producers ∧
      selected.candidate edge.producer ∈ producers) ∧
    links' = {
      producers := Function.update links.producers edge.consumer
        ((links.producers edge.consumer).set edge.input (some edge.producer))
      consumers := Function.update links.consumers edge.producer
        (links.consumers edge.producer ++ [edge.consumer]) } := by
  unfold link at step
  split at step
  · cases step
  rename_i inside
  obtain ⟨producers, listed, step⟩ := Option.bind_eq_some_iff.mp step
  obtain ⟨target, found, step⟩ := Option.bind_eq_some_iff.mp step
  split at step
  · cases step
  rename_i free
  obtain ⟨empty, member⟩ : target = none ∧ selected.candidate edge.producer ∈ producers := by
    simpa using free
  rw [empty] at found
  rw [not_or, not_le, not_le] at inside
  exact ⟨inside.1, inside.2, found, ⟨producers, listed, member⟩, (Option.some.inj step).symm⟩

theorem link_linked {edge : SelectedEdge} (linked : selected.Linked parts links)
    (step : selected.link parts links edge = some links') : selected.Linked parts links' := by
  obtain ⟨small, -, empty, allowed, rfl⟩ := link_eq_some step
  refine ⟨fun node => ?_, fun node input producer found => ?_, fun producer consumer => ?_⟩
  · dsimp only
    by_cases same : node = edge.consumer
    · rw [same, Function.update_self, List.length_set]
      exact linked.inputs _
    · rw [Function.update_of_ne same]
      exact linked.inputs node
  · dsimp only at found
    by_cases same : node = edge.consumer
    · rw [same, Function.update_self, List.getElem?_set] at found
      split at found
      · rename_i here
        split at found
        · cases found
          rw [same, ← here]
          exact ⟨small, allowed⟩
        · cases found
      · rw [same]
        exact linked.allowed _ _ _ found
    · rw [Function.update_of_ne same] at found
      exact linked.allowed node input producer found
  · have filled : ((Function.update links.producers edge.consumer
        ((links.producers edge.consumer).set edge.input (some edge.producer)) consumer).filterMap
          id).count producer = ((links.producers consumer).filterMap id).count producer +
        if consumer = edge.consumer ∧ producer = edge.producer then 1 else 0 := by
      by_cases same : consumer = edge.consumer
      · rw [same, Function.update_self, count_filterMap_set empty]
        simp
      · rw [Function.update_of_ne same, if_neg fun both => same both.1]
        rfl
    have pushed : (Function.update links.consumers edge.producer
        (links.consumers edge.producer ++ [edge.consumer]) producer).count consumer =
        (links.consumers producer).count consumer +
          if consumer = edge.consumer ∧ producer = edge.producer then 1 else 0 := by
      by_cases same : producer = edge.producer
      · rw [same, Function.update_self, List.count_append, List.count_singleton]
        by_cases own : consumer = edge.consumer
        · simp [own]
        · simp [own, Ne.symm own]
      · rw [Function.update_of_ne same, if_neg fun both => same both.2]
        rfl
    exact pushed.trans ((congrArg (· + _) (linked.matched producer consumer)).trans filled.symm)

theorem foldlM_link_linked {edges : List SelectedEdge} (linked : selected.Linked parts links)
    (run : edges.foldlM (selected.link parts) links = some links') : selected.Linked parts links' := by
  induction edges generalizing links with
  | nil =>
    obtain rfl := Option.some.inj run
    exact linked
  | cons edge rest ih =>
    obtain ⟨next, step, run⟩ := Option.bind_eq_some_iff.mp run
    exact ih (link_linked linked step) run

theorem Accepted.isLinked (accepted : selected.Accepted parts links) : selected.Linked parts links :=
  foldlM_link_linked unlinked_linked accepted.linked

theorem candidateOfNode_getElem? {node : Nat} (small : node < selected.count) :
    selected.candidateOfNode[node]? = some (selected.candidate node) := by
  unfold candidate
  rw [List.getD_eq_getElem?_getD, List.getElem?_eq_getElem small, Option.getD_some]

theorem Accepted.producer (accepted : selected.Accepted parts links) {node input : Nat}
    (small : node < selected.count) (needed : input < parts.inputCount (selected.candidate node)) :
    ∃ producer ∈ selected.slots links node, ∃ producers,
      parts.producersOfInput (selected.candidate node) input = some producers ∧
        selected.candidate producer ∈ producers := by
  have linked := accepted.isLinked
  have length := linked.inputs node
  rw [candidateOfNode_getElem? small, Option.map_some, Option.getD_some] at length
  obtain ⟨slot, found⟩ : ∃ slot, (links.producers node)[input]? = some slot :=
    ⟨_, List.getElem?_eq_getElem (by omega)⟩
  have filled := accepted.wellLinked
  simp only [DagOfSelectedCandidates.wellLinked, Bool.and_eq_true, List.all_eq_true, List.mem_range] at filled
  obtain ⟨producer, rfl⟩ := Option.isSome_iff_exists.mp
    (filled.1.1 node small slot (List.mem_of_getElem? found))
  refine ⟨producer, ?_, (linked.allowed node input producer found).2⟩
  rw [slots, if_pos small]
  exact List.mem_filterMap.mpr ⟨_, List.mem_of_getElem? found, rfl⟩

theorem Accepted.slots_lt (accepted : selected.Accepted parts links) {node producer : Nat}
    (read : producer ∈ selected.slots links node) : producer < selected.count := by
  unfold slots at read
  split at read
  · obtain ⟨slot, listed, same⟩ := List.mem_filterMap.mp read
    obtain ⟨input, found⟩ := List.getElem?_of_mem listed
    rw [show slot = some producer from same] at found
    exact (accepted.isLinked.allowed node input producer found).1
  · cases read

theorem Accepted.acyclic (accepted : selected.Accepted parts links) :
    ∀ node < selected.count, Acc (fun producer node => producer ∈ selected.slots links node) node := by
  have linked := accepted.isLinked
  have all := accepted.wellLinked
  simp only [DagOfSelectedCandidates.wellLinked, Bool.and_eq_true, decide_eq_true_eq] at all
  refine drain_grounded (fun node some => ?_) (fun producer node => ?_) all.1.2
  · by_contra beyond
    exact some (if_neg beyond)
  · rw [linked.matched, slots]
    split
    · rfl
    · rename_i beyond
      have length := linked.inputs node
      rw [List.getElem?_eq_none (not_lt.mp beyond)] at length
      rw [List.length_eq_zero_iff.mp length]
      rfl

end
end DagOfSelectedCandidates
end AsapPlanner.Catalog
