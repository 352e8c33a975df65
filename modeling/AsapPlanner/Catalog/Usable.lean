import AsapPlanner.Catalog.Pruning
import AsapPlanner.Catalog.Selections

/-!
No round of pruning rules out a candidate that an accepted selection runs, and what is left can be built
from what is left.
-/

namespace AsapPlanner.Catalog
open Traversal DagOfSelectedCandidates

namespace PhysicalASAPMemoCandidates
variable {physical : PhysicalASAPMemoCandidates} {reasons : List (Option PruneReason)}
  {selected : DagOfSelectedCandidates} {links : Links}

/-! ### One round -/

theorem roundReason_eq_none {id : Nat} (on : enabled reasons id = true) :
    physical.roundReason reasons id = none ↔ id ∈ physical.realizable reasons ∧
      (∃ output < physical.outputReferenceCount, physical.reached reasons id output = true) ∧
      ∀ constraint ∈ physical.readerConstraints, physical.tooFew reasons id constraint = false := by
  unfold roundReason
  rw [on, Option.or_eq_none_iff]
  by_cases built : id ∈ physical.realizable reasons
  · simp [built]
  · simp [built]

theorem candidate_known {node : Nat} (small : node < selected.count) :
    selected.candidate node ∈ selected.candidateOfNode :=
  List.mem_of_getElem? (candidateOfNode_getElem? small)

section
variable (accepted : selected.Accepted physical.parts links)
  (used : ∀ candidate ∈ selected.candidateOfNode, enabled reasons candidate = true)
include accepted

theorem producer_mem_inputs {node producer : Nat} (small : node < selected.count)
    (read : producer ∈ selected.slots links node) :
    selected.candidate producer ∈ (physical.inputs (selected.candidate node)).flatten := by
  rw [slots, if_pos small] at read
  obtain ⟨slot, listed, same⟩ := List.mem_filterMap.mp read
  obtain ⟨input, found⟩ := List.getElem?_of_mem listed
  rw [show slot = some producer from same] at found
  obtain ⟨-, producers, offered, member⟩ := accepted.isLinked.allowed node input producer found
  exact List.mem_flatten.mpr ⟨producers, List.mem_of_getElem? offered, member⟩

include used

theorem used_realizable {node : Nat} (small : node < selected.count) :
    selected.candidate node ∈ physical.realizable reasons := by
  rw [realizable, mem_settle]
  induction accepted.acyclic node small with
  | intro node _ ih =>
    have known := candidate_known small
    refine .mk (List.mem_range.mpr (accepted.known _ known)) (used _ known) fun input needed => ?_
    obtain ⟨position, found⟩ := List.getElem?_of_mem needed
    have inside : position < physical.parts.inputCount (selected.candidate node) :=
      (List.getElem?_eq_some_iff.mp found).1
    obtain ⟨producer, read, producers, offered, member⟩ := accepted.producer small inside
    obtain rfl : producers = input := Option.some.inj (offered.symm.trans found)
    exact ⟨_, member, ih producer read (accepted.slots_lt read)⟩

theorem used_reachedFrom {node output : Nat} (reach : node ∈ selected.outputReach links output) :
    node < selected.count ∧ selected.candidate node ∈ physical.reachedFrom reasons output := by
  unfold outputReach at reach
  split at reach
  · rename_i root rooted
    obtain ⟨start, first, path⟩ := (Graph.mem_mark _).mp reach
    clear reach
    obtain rfl := List.mem_singleton.mp first
    have small := (List.getElem?_eq_some_iff.mp rooted).1
    have fits := accepted.outputs
    have allowed := accepted.roots
    simp only [rootsAllowed, List.all_eq_true, Bool.and_eq_true, decide_eq_true_eq] at allowed
    have listed : physical.parts.queryOutputCandidates[output]? =
        some (physical.queryOutputCandidates output) := by
      rw [fits] at small
      have inside : output < physical.outputReferenceCount := by simpa [parts] using small
      rw [parts, List.getElem?_map, List.getElem?_range inside, Option.map_some]
    obtain ⟨root_small, root_allowed⟩ := allowed (start, physical.queryOutputCandidates output)
      (List.mem_of_getElem? (List.getElem?_zip_eq_some.mpr ⟨rooted, listed⟩))
    have start_realizable := used_realizable accepted used root_small
    rw [reachedFrom, Graph.mem_mark]
    suffices node < selected.count ∧
        (physical.realizableGraph reasons).Reaches (selected.candidate start) (selected.candidate node) from
      ⟨this.1, _, List.mem_filter.mpr ⟨root_allowed, decide_eq_true start_realizable⟩, this.2⟩
    induction path with
    | refl => exact ⟨root_small, .refl⟩
    | tail _ read ih =>
      obtain ⟨node_small, path⟩ := ih
      have producer_small := accepted.slots_lt read
      refine ⟨producer_small, path.tail (List.mem_filter.mpr ⟨?_, ?_⟩)⟩
      · exact producer_mem_inputs accepted node_small read
      · exact decide_eq_true (used_realizable accepted used producer_small)
  · cases reach

theorem used_reached {node output : Nat} (reach : node ∈ selected.outputReach links output) :
    physical.reached reasons (selected.candidate node) output = true := by
  obtain ⟨small, reached⟩ := used_reachedFrom accepted used reach
  rw [PhysicalASAPMemoCandidates.reached, Bool.and_eq_true]
  refine ⟨decide_eq_true reached, List.all_eq_true.mpr fun constraint listed => ?_⟩
  have kept := accepted.compatible constraint listed
  cases constraint with
  | allowedOutputs candidate outputs =>
    by_cases own : candidate = selected.candidate node
    · -- The selection lets only allowed outputs reach the node.
      by_contra outside
      have missing : output ∉ outputs := by simpa [ReaderConstraint.lets, own] using outside
      have inside : output < selected.nodeOfOutputReference.length := by
        unfold outputReach at reach
        split at reach
        · rename_i rooted
          exact (List.getElem?_eq_some_iff.mp rooted).1
        · cases reach
      rw [violates, List.any_eq_false] at kept
      refine kept node (List.mem_range.mpr small) ?_
      simp only [ReaderConstraint.candidate, own, candidateOfNode_getElem? small, violated, decide_true,
        Bool.true_and, List.any_eq_true, List.mem_range, Bool.and_eq_true, decide_eq_true_eq]
      exact ⟨output, inside, missing, reach⟩
    · simp [ReaderConstraint.lets, own]
  | _ => rfl

theorem used_roundReason {candidate : Nat} (runs : candidate ∈ selected.candidateOfNode) :
    physical.roundReason reasons candidate = none := by
  obtain ⟨node, found⟩ := List.getElem?_of_mem runs
  have small : node < selected.count := (List.getElem?_eq_some_iff.mp found).1
  obtain rfl : selected.candidate node = candidate :=
    Option.some.inj ((candidateOfNode_getElem? small).symm.trans found)
  have read := accepted.wellLinked
  simp only [DagOfSelectedCandidates.wellLinked, Bool.and_eq_true, List.all_eq_true, List.any_eq_true,
    List.mem_range, decide_eq_true_eq] at read
  obtain ⟨output, inside, reach⟩ := read.2 node small
  rw [roundReason_eq_none (used _ runs)]
  refine ⟨used_realizable accepted used small, ⟨output, ?_, used_reached accepted used reach⟩, ?_⟩
  · rw [accepted.outputs] at inside
    simpa [parts] using inside
  · intro constraint listed
    have kept := accepted.compatible constraint listed
    cases constraint with
    | minimumQueryReaders constrained queryOutputs minimum =>
      by_contra few
      rw [Bool.not_eq_false] at few
      simp only [tooFew, Bool.and_eq_true, decide_eq_true_eq] at few
      obtain ⟨rfl, few⟩ := few
      rw [violates, List.any_eq_false] at kept
      have most := kept node (List.mem_range.mpr small)
      simp only [ReaderConstraint.candidate, candidateOfNode_getElem? small, violated, decide_true,
        Bool.true_and, decide_eq_true_eq, not_lt] at most
      have counted : selected.queriesReaching links node queryOutputs ≤
          queryOutputs.countP fun outputs => outputs.any fun output =>
            physical.reached reasons (selected.candidate node) output := by
        apply List.countP_mono_left
        intro outputs _ reaches
        obtain ⟨output, member, reach⟩ := List.any_eq_true.mp reaches
        exact List.any_eq_true.mpr ⟨output, member, used_reached accepted used (of_decide_eq_true reach)⟩
      omega
    | _ => rfl

end

/-! ### All rounds -/

theorem used_pruneRounds (accepted : selected.Accepted physical.parts links)
    (used : ∀ candidate ∈ selected.candidateOfNode, enabled reasons candidate = true) :
    ∀ candidate ∈ selected.candidateOfNode, enabled (physical.pruneRounds reasons) candidate = true := by
  fun_induction pruneRounds physical reasons with
  | case1 reasons next same => exact used
  | case2 reasons next more ih =>
    refine ih fun candidate runs => ?_
    have before := used candidate runs
    simp only [enabled, decide_eq_true_eq] at before ⊢
    rw [addReasons_getElem?, before, Option.map_some, used_roundReason accepted used runs]
    rfl

theorem Accepted.kept (accepted : selected.Accepted physical.parts links) :
    ∀ candidate ∈ selected.candidateOfNode, candidate ∈ physical.kept := by
  intro candidate runs
  have small : candidate < physical.candidates.length := accepted.known candidate runs
  refine List.mem_filter.mpr ⟨List.mem_range.mpr small, used_pruneRounds accepted ?_ candidate runs⟩
  intro other runs
  have other_small : other < physical.candidates.length := accepted.known other runs
  simp [enabled, other_small]

theorem pruneRounds_fixed (reasons : List (Option PruneReason)) :
    addReasons (physical.pruneRounds reasons) (physical.roundReason (physical.pruneRounds reasons)) =
      physical.pruneRounds reasons := by
  fun_induction pruneRounds physical reasons with
  | case1 reasons next same => exact same
  | case2 reasons next more ih => exact ih

theorem kept_roundReason {id : Nat} (left : id ∈ physical.kept) :
    physical.roundReason physical.pruneReasons id = none := by
  have on := (List.mem_filter.mp left).2
  simp only [enabled, decide_eq_true_eq] at on
  have fixed : (addReasons physical.pruneReasons (physical.roundReason physical.pruneReasons))[id]? =
      physical.pruneReasons[id]? := congrArg (·[id]?) (pruneRounds_fixed _)
  rw [addReasons_getElem?, on, Option.map_some, Option.none_or] at fixed
  exact Option.some.inj fixed

theorem mem_kept {id : Nat} :
    id ∈ physical.kept ↔ id ∈ physical.realizable physical.pruneReasons := by
  constructor
  · intro left
    exact ((roundReason_eq_none (List.mem_filter.mp left).2).mp (kept_roundReason left)).1
  · intro built
    have built := mem_settle.mp built
    exact List.mem_filter.mpr ⟨built.member, built.on⟩

end PhysicalASAPMemoCandidates
end AsapPlanner.Catalog
