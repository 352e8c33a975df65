import AsapPlanner.Catalog.Renumbered
import AsapPlanner.Traversal.Run

/-!
Pruning a catalog that is well formed gives one that is, and that pruning leaves as it is.
-/

namespace AsapPlanner.Catalog
open Rust Traversal DagOfSelectedCandidates

/-! ### Well-formed catalogs -/

theorem validateIds_ok {ids : List Nat} {count : Nat} {context : String} :
    validateIds ids count context = .ok () ↔ ids.Nodup ∧ ∀ id ∈ ids, id < count := by
  have all : ∀ ids seen, validateIds.go count context seen ids = .ok () ↔
      ids.Nodup ∧ ∀ id ∈ ids, id < count ∧ id ∉ seen := by
    intro ids
    induction ids with
    | nil => exact fun seen => ⟨fun _ => ⟨List.nodup_nil, nofun⟩, fun _ => rfl⟩
    | cons id rest ih =>
      intro seen
      unfold validateIds.go
      by_cases missing : count ≤ id
      · rw [if_pos missing]
        refine ⟨nofun, fun fine => ?_⟩
        have small := (fine.2 id List.mem_cons_self).1
        omega
      by_cases twice : id ∈ seen
      · rw [if_neg missing, if_pos twice]
        exact ⟨nofun, fun fine => absurd twice (fine.2 id List.mem_cons_self).2⟩
      · rw [if_neg missing, if_neg twice, ih, List.nodup_cons, List.forall_mem_cons]
        have small := not_le.mp missing
        constructor
        · rintro ⟨distinct, each⟩
          exact ⟨⟨fun again => (each id again).2 List.mem_cons_self, distinct⟩, ⟨small, twice⟩,
            fun other member => ⟨(each other member).1,
              fun old => (each other member).2 (List.mem_cons_of_mem _ old)⟩⟩
        · rintro ⟨⟨new, distinct⟩, -, each⟩
          refine ⟨distinct, fun other member => ⟨(each other member).1, fun old => ?_⟩⟩
          rcases List.mem_cons.mp old with rfl | old
          · exact new member
          · exact (each other member).2 old
  unfold validateIds
  rw [all]
  simp

theorem forall_zipIdx {α : Type} {items : List α} {p : α → Prop} :
    (∀ entry ∈ items.zipIdx, p entry.1) ↔ ∀ item ∈ items, p item := by
  constructor
  · intro each item member
    obtain ⟨position, found⟩ := List.getElem?_of_mem member
    exact each (item, position) (List.mem_zipIdx_iff_getElem?.mpr found)
  · intro each entry member
    exact each entry.1 (List.mem_of_getElem? (List.mem_zipIdx_iff_getElem?.mp member))

theorem mapError_eq_ok {ε ε' α : Type} {change : ε → ε'} {run : Except ε α} {value : α} :
    run.mapError change = .ok value ↔ run = .ok value := by
  cases run <;> simp [Except.mapError]

def ReaderConstraint.WellFormed (count outputsCount : Nat) (constraint : ReaderConstraint) : Prop :=
  ∃ outputs, constrainedOutputs outputsCount constraint = .ok outputs ∧ constraint.candidate < count ∧
    ∀ output ∈ outputs, output < outputsCount

theorem validateConstraint_ok {count outputsCount : Nat} {constraint : ReaderConstraint} :
    validateConstraint count outputsCount constraint = .ok () ↔ constraint.WellFormed count outputsCount := by
  unfold validateConstraint ReaderConstraint.WellFormed
  cases constrainedOutputs outputsCount constraint with
  | error e => exact ⟨nofun, fun ⟨_, run, _⟩ => nomatch run⟩
  | ok outputs =>
    show (if _ then _ else _) = _ ↔ _
    by_cases outside : count ≤ constraint.candidate ∨ outputs.any (outputsCount ≤ ·) = true
    · rw [if_pos outside]
      refine ⟨nofun, fun ⟨_, same, small, inside⟩ => ?_⟩
      cases same
      rcases outside with beyond | beyond
      · omega
      · obtain ⟨output, member, beyond⟩ := List.any_eq_true.mp beyond
        exact absurd (inside output member) (not_lt.mpr (of_decide_eq_true beyond))
    · rw [if_neg outside]
      rw [not_or, not_le] at outside
      exact ⟨fun _ => ⟨outputs, rfl, outside.1, by simpa using outside.2⟩, fun _ => rfl⟩

structure PhysicalCandidate.WellFormed (nodes count : Nat) (candidate : PhysicalCandidate) : Prop where
  node : candidate.operatorNode < nodes
  producers : ∀ input ∈ candidate.producerCandidatesPerInput, input.Nodup ∧ ∀ id ∈ input, id < count

theorem validateCandidate_ok {nodes count index : Nat} {candidate : PhysicalCandidate} :
    validateCandidate nodes count candidate index = .ok () ↔ candidate.WellFormed nodes count := by
  unfold validateCandidate
  by_cases missing : nodes ≤ candidate.operatorNode
  · rw [if_pos missing]
    exact ⟨nofun, fun fine => absurd fine.node (not_lt.mpr missing)⟩
  · rw [if_neg missing]
    show List.forM _ _ = _ ↔ _
    simp only [forM_eq_ok, validateIds_ok]
    rw [@forall_zipIdx _ _ fun input : List Nat => input.Nodup ∧ ∀ id ∈ input, id < count]
    exact ⟨fun producers => ⟨not_le.mp missing, producers⟩, fun fine => fine.producers⟩

namespace PhysicalASAPMemoCandidates

/-- Every id names a candidate, a node or an output reference. -/
structure WellFormed (physical : PhysicalASAPMemoCandidates) : Prop where
  constraints : ∀ constraint ∈ physical.readerConstraints,
    constraint.WellFormed physical.candidates.length physical.outputReferenceCount
  candidates : ∀ candidate ∈ physical.candidates,
    candidate.WellFormed physical.operatorNodes.length physical.candidates.length

theorem validateCandidates_ok {physical : PhysicalASAPMemoCandidates} :
    validateCandidates physical = .ok () ↔ physical.WellFormed := by
  have constraints : physical.readerConstraints.forM
      (validateConstraint physical.candidates.length physical.outputReferenceCount) = .ok () ↔ _ := forM_eq_ok
  have candidates : physical.candidates.zipIdx.forM (fun entry =>
      validateCandidate physical.operatorNodes.length physical.candidates.length entry.1 entry.2) = .ok () ↔
      ∀ candidate ∈ physical.candidates,
        candidate.WellFormed physical.operatorNodes.length physical.candidates.length := by
    simp only [forM_eq_ok, validateCandidate_ok]
    exact forall_zipIdx
  simp only [validateConstraint_ok] at constraints
  unfold validateCandidates
  rw [mapError_eq_ok]
  constructor
  · intro run
    obtain ⟨⟨⟩, first, run⟩ := bind_eq_ok run
    exact ⟨constraints.mp first, candidates.mp run⟩
  · rintro ⟨first, second⟩
    show (_ >>= fun _ => _) = _
    rw [constraints.mpr first]
    exact candidates.mpr second

variable {physical : PhysicalASAPMemoCandidates}

theorem mem_pruned_candidates {candidate : PhysicalCandidate} (member : candidate ∈ physical.pruned.candidates) :
    ∃ id ∈ physical.kept, ∃ before, physical.candidates[id]? = some before ∧
      candidate = physical.renumbered before := by
  obtain ⟨id, left, found⟩ := List.mem_filterMap.mp member
  obtain ⟨before, here, rfl⟩ := Option.map_eq_some_iff.mp found
  exact ⟨id, left, before, here, rfl⟩

theorem mapping_lt {id new : Nat} (mapped : physical.mapping id = some new) :
    new < physical.pruned.candidates.length := by
  rw [pruned_candidates_length]
  exact (List.getElem?_eq_some_iff.mp (mapping_eq_some.mp mapped)).1

theorem WellFormed.pruned (fine : physical.WellFormed) : physical.pruned.WellFormed where
  constraints constraint listed := by
    obtain ⟨before, inside, mapped⟩ := List.mem_filterMap.mp listed
    obtain ⟨new, found, rfl⟩ := Option.map_eq_some_iff.mp mapped
    obtain ⟨outputs, named, -, known⟩ := fine.constraints before inside
    refine ⟨outputs, ?_, ?_, known⟩
    · rw [← named]
      cases before <;> rfl
    · have own : (before.setCandidate new).candidate = new := by cases before <;> rfl
      rw [own]
      exact mapping_lt found
  candidates candidate member := by
    obtain ⟨id, left, before, here, rfl⟩ := mem_pruned_candidates member
    have known := fine.candidates before (List.mem_of_getElem? here)
    refine ⟨known.node, fun input needed => ?_⟩
    obtain ⟨ids, listed, rfl⟩ := List.mem_map.mp needed
    refine ⟨?_, fun new member => ?_⟩
    · refine List.Nodup.filterMap (fun id other new one two => ?_) (known.producers ids listed).1
      have same := (mapping_eq_some.mp one).symm.trans (mapping_eq_some.mp two)
      exact Option.some.inj same
    · obtain ⟨id, -, mapped⟩ := List.mem_filterMap.mp member
      exact mapping_lt mapped

/-! ### A second time -/

/-- No reason yet against any candidate left. -/
def fresh (physical : PhysicalASAPMemoCandidates) : List (Option PruneReason) :=
  List.replicate physical.candidates.length none

theorem fresh_enabled {id : Nat} (small : id < physical.candidates.length) :
    enabled physical.fresh id = true := by
  simp [enabled, fresh, small]

theorem pruned_realizable {id new : Nat} (left : physical.kept[new]? = some id) :
    new ∈ physical.pruned.realizable physical.pruned.fresh := by
  have built := mem_settle.mp (mem_kept.mp (List.mem_of_getElem? left))
  rw [realizable, mem_settle]
  induction built generalizing new with
  | intro id pick member on offered built ih =>
    have small := mapping_lt (mapping_eq_some.mpr left)
    refine .mk (List.mem_range.mpr small) (fresh_enabled small) fun input needed => ?_
    rw [pruned_inputs left] at needed
    obtain ⟨ids, listed, rfl⟩ := List.mem_map.mp needed
    have producer_left : pick ids ∈ physical.kept := mem_kept.mpr (mem_settle.mpr (built ids listed))
    obtain ⟨other, found⟩ := List.getElem?_of_mem producer_left
    exact ⟨other, (mem_filterMap_mapping found).mpr (offered ids listed), ih ids listed found⟩

theorem pruned_reachedFrom {id new output : Nat} (left : physical.kept[new]? = some id)
    (reached : id ∈ physical.reachedFrom physical.pruneReasons output) :
    new ∈ physical.pruned.reachedFrom physical.pruned.fresh output := by
  rw [reachedFrom, Graph.mem_mark] at reached ⊢
  obtain ⟨start, first, path⟩ := reached
  obtain ⟨root, built⟩ := List.mem_filter.mp first
  obtain ⟨start', found⟩ := List.getElem?_of_mem (mem_kept.mpr (of_decide_eq_true built))
  refine ⟨start', List.mem_filter.mpr ⟨(mem_pruned_queryOutputCandidates found).mpr root,
    decide_eq_true (pruned_realizable found)⟩, ?_⟩
  have start_left := List.mem_of_getElem? found
  suffices id ∈ physical.kept ∧ ∀ new, physical.kept[new]? = some id →
      (physical.pruned.realizableGraph physical.pruned.fresh).Reaches start' new from this.2 new left
  clear left
  induction path with
  | refl =>
    refine ⟨start_left, fun new left => ?_⟩
    rw [← mapping_eq_some] at left found
    obtain rfl := Option.some.inj (left.symm.trans found)
    exact .refl
  | tail _ read ih =>
    obtain ⟨offered, built⟩ := List.mem_filter.mp read
    refine ⟨mem_kept.mpr (of_decide_eq_true built), fun new left => ?_⟩
    obtain ⟨reader_left, paths⟩ := ih
    obtain ⟨reader, here⟩ := List.getElem?_of_mem reader_left
    refine (paths reader here).tail (List.mem_filter.mpr ⟨?_, decide_eq_true (pruned_realizable left)⟩)
    obtain ⟨input, needed, member⟩ := List.mem_flatten.mp offered
    rw [pruned_inputs here]
    exact List.mem_flatten.mpr ⟨_, List.mem_map_of_mem needed, (mem_filterMap_mapping left).mpr member⟩

theorem pruned_reached {id new output : Nat} (left : physical.kept[new]? = some id)
    (reached : physical.reached physical.pruneReasons id output = true) :
    physical.pruned.reached physical.pruned.fresh new output = true := by
  unfold PhysicalASAPMemoCandidates.reached at reached ⊢
  rw [Bool.and_eq_true, decide_eq_true_iff] at reached ⊢
  refine ⟨pruned_reachedFrom left reached.1, List.all_eq_true.mpr fun constraint listed => ?_⟩
  obtain ⟨before, inside, mapped⟩ := List.mem_filterMap.mp listed
  obtain ⟨own, found, rfl⟩ := Option.map_eq_some_iff.mp mapped
  have lets := List.all_eq_true.mp reached.2 before inside
  cases before with
  | allowedOutputs candidate outputs =>
    simp only [ReaderConstraint.lets, ReaderConstraint.setCandidate, Bool.or_eq_true,
      decide_eq_true_iff] at lets ⊢
    refine lets.imp (fun other same => other ?_) fun member => member
    -- One new id stands for one old id.
    rw [same, mapping_eq_some, left] at found
    exact (Option.some.inj found).symm
  | _ => rfl

theorem pruned_roundReason {new : Nat} (small : new < physical.pruned.candidates.length) :
    physical.pruned.roundReason physical.pruned.fresh new = none := by
  obtain ⟨id, left⟩ : ∃ id, physical.kept[new]? = some id := by
    rw [pruned_candidates_length] at small
    exact ⟨_, List.getElem?_eq_getElem small⟩
  have member := List.mem_of_getElem? left
  obtain ⟨-, ⟨output, inside, reached⟩, enough⟩ :=
    (roundReason_eq_none (List.mem_filter.mp member).2).mp (kept_roundReason member)
  rw [roundReason_eq_none (fresh_enabled small)]
  refine ⟨pruned_realizable left, ⟨output, inside, pruned_reached left reached⟩, ?_⟩
  intro constraint listed
  obtain ⟨before, there, mapped⟩ := List.mem_filterMap.mp listed
  obtain ⟨own, found, rfl⟩ := Option.map_eq_some_iff.mp mapped
  cases before with
  | minimumQueryReaders candidate queryOutputs minimum =>
    have before := enough _ there
    simp only [tooFew, ReaderConstraint.setCandidate, Bool.and_eq_false_iff, decide_eq_false_iff_not,
      not_lt] at before ⊢
    by_cases same : own = new
    · right
      subst same
      have candidate_id : candidate = id := by
        rw [ReaderConstraint.candidate, mapping_eq_some, left] at found
        exact (Option.some.inj found).symm
      refine (before.resolve_left fun other => other candidate_id).trans (List.countP_mono_left ?_)
      intro outputs _ reaches
      obtain ⟨output, member, reach⟩ := List.any_eq_true.mp reaches
      exact List.any_eq_true.mpr ⟨output, member, pruned_reached left reach⟩
    · exact .inl same
  | _ => rfl

theorem pruned_pruneReasons : physical.pruned.pruneReasons = physical.pruned.fresh := by
  have fixed : addReasons physical.pruned.fresh (physical.pruned.roundReason physical.pruned.fresh) =
      physical.pruned.fresh := by
    apply List.ext_getElem?
    intro new
    rw [addReasons_getElem?]
    by_cases small : new < physical.pruned.candidates.length
    · rw [pruned_roundReason small]
      cases physical.pruned.fresh[new]? <;> simp
    · rw [List.getElem?_eq_none (by simpa [fresh] using small)]
      rfl
  unfold pruneReasons
  rw [pruneRounds]
  exact if_pos fixed

theorem pruned_kept : physical.pruned.kept = List.range physical.pruned.candidates.length := by
  rw [kept, pruned_pruneReasons]
  exact List.filter_eq_self.mpr fun new listed => fresh_enabled (List.mem_range.mp listed)

theorem pruned_mapping {new : Nat} (small : new < physical.pruned.candidates.length) :
    physical.pruned.mapping new = some new := by
  rw [mapping_eq_some, pruned_kept, List.getElem?_range small]

theorem filterMap_eq_self {α : Type} {value : α → Option α} {items : List α}
    (each : ∀ item ∈ items, value item = some item) : items.filterMap value = items :=
  (List.filterMap_congr each).trans List.filterMap_some

theorem pruned_removed : physical.pruned.removed = [] := by
  unfold removed
  rw [List.filterMap_eq_nil_iff]
  rintro ⟨candidate, reason⟩ listed
  obtain rfl : reason = none := by
    rw [pruned_pruneReasons] at listed
    exact List.eq_of_mem_replicate (List.of_mem_zip listed).2
  rfl

theorem pruned_pruned (again : physical.pruned.WellFormed) : physical.pruned.pruned = physical.pruned := by
  have renumbered : ∀ candidate ∈ physical.pruned.candidates,
      physical.pruned.renumbered candidate = candidate := by
    intro candidate member
    have producers := (again.candidates candidate member).producers
    obtain ⟨node, timing, materialization, inputs, output, keeps⟩ := candidate
    unfold PhysicalASAPMemoCandidates.renumbered
    congr 1
    refine (List.map_congr_left fun input needed => ?_).trans (List.map_id _)
    exact filterMap_eq_self fun id listed => pruned_mapping ((producers input needed).2 id listed)
  have candidates : physical.pruned.pruned.candidates = physical.pruned.candidates := by
    apply List.ext_getElem?
    intro new
    rw [pruned_candidates_getElem?, pruned_kept]
    by_cases small : new < physical.pruned.candidates.length
    · rw [List.getElem?_range small, Option.bind_some, List.getElem?_eq_getElem small, Option.map_some,
        renumbered _ (List.getElem_mem small)]
    · rw [List.getElem?_eq_none (by simpa using small), List.getElem?_eq_none (not_lt.mp small)]
      rfl
  have constraints : physical.pruned.pruned.readerConstraints = physical.pruned.readerConstraints := by
    refine filterMap_eq_self fun constraint listed => ?_
    obtain ⟨_, _, small, _⟩ := again.constraints constraint listed
    rw [pruned_mapping small]
    cases constraint <;> rfl
  have none : physical.pruned.pruned.prunedCandidates = physical.pruned.prunedCandidates := by
    show physical.pruned.prunedCandidates ++ physical.pruned.removed = _
    rw [pruned_removed, List.append_nil]
  calc physical.pruned.pruned
      = ⟨physical.pruned.operatorNodes, physical.pruned.pruned.candidates, physical.pruned.queryRoots,
          physical.pruned.pruned.readerConstraints, physical.pruned.pruned.prunedCandidates⟩ := rfl
    _ = physical.pruned := by rw [candidates, constraints, none]

theorem prune_eq_ok {left : PhysicalASAPMemoCandidates} :
    physical.prune = .ok left ↔ physical.pruned.WellFormed ∧ left = physical.pruned := by
  rw [← validateCandidates_ok]
  unfold prune
  cases validateCandidates physical.pruned with
  | error e => exact ⟨nofun, nofun⟩
  | ok _ => exact ⟨fun run => ⟨rfl, (Except.ok.inj run).symm⟩, fun ⟨_, same⟩ => congrArg _ same.symm⟩

variable (physical) in
/-- Pruning removes no candidate that an accepted selection runs, renumbers what is accepted one to one
and leaves each input of a candidate a producer. Of a valid catalog it gives one, and it is done after one
time. -/
theorem prune_exact :
    (validateCandidates physical = .ok () → physical.prune = .ok physical.pruned) ∧
    (∀ selected : DagOfSelectedCandidates, selected.validate physical = .ok () →
      ∀ candidate ∈ selected.candidateOfNode, candidate ∈ physical.kept) ∧
    Set.BijOn physical.renumber {selected | selected.validate physical = .ok ()}
      {selected | selected.validate physical.pruned = .ok ()} ∧
    (∀ id ∈ physical.kept, ∀ input ∈ physical.inputs id, ∃ producer ∈ input, producer ∈ physical.kept) ∧
    ∀ left, physical.prune = .ok left → left = physical.pruned ∧ left.prune = .ok left := by
  refine ⟨fun valid => ?_, fun selected passes => ?_, renumber_bijOn, fun id left => ?_, fun left run => ?_⟩
  · exact prune_eq_ok.mpr ⟨(validateCandidates_ok.mp valid).pruned, rfl⟩
  · obtain ⟨links, accepted⟩ := validateAgainst_ok.mp passes
    exact Accepted.kept accepted
  · intro input needed
    obtain ⟨producer, offered, built⟩ := (mem_settle.mp (mem_kept.mp left)).producer input needed
    exact ⟨producer, offered, mem_kept.mpr (mem_settle.mpr built)⟩
  · obtain ⟨again, rfl⟩ := prune_eq_ok.mp run
    refine ⟨rfl, prune_eq_ok.mpr ⟨?_, (pruned_pruned again).symm⟩⟩
    rwa [pruned_pruned again]

/-- A query output over a candidate that only reads itself, or over one that reads a scan or the output. -/
def cycleWithScan : PhysicalASAPMemoCandidates where
  operatorNodes := [⟨⟨0, true⟩, 0⟩, ⟨⟨1, true⟩, 1⟩, ⟨⟨2, true⟩, 2⟩, ⟨⟨1, true⟩, 3⟩]
  candidates := [
    ⟨0, .queryTime, .notMaterialized, [[1, 3]], true, []⟩,
    ⟨1, .queryTime, .notMaterialized, [[1]], false, []⟩,
    ⟨2, .queryTime, .notMaterialized, [], false, []⟩,
    ⟨3, .queryTime, .notMaterialized, [[0, 2]], false, []⟩]
  queryRoots := [.operator 0]
  readerConstraints := [.minimumQueryReaders 3 [[0]] 1]
  prunedCandidates := []

def throughScan : DagOfSelectedCandidates := ⟨[0, 3, 2], [⟨1, 0, 0⟩, ⟨2, 1, 0⟩], [0]⟩

theorem prune_exact_cycleWithScan : cycleWithScan.prune = .ok cycleWithScan.pruned ∧ cycleWithScan.kept = [0, 2, 3] ∧
    throughScan.validate cycleWithScan = .ok () ∧
    (cycleWithScan.renumber throughScan).validate cycleWithScan.pruned = .ok () ∧
    cycleWithScan.pruned.prune = .ok cycleWithScan.pruned := by
  obtain ⟨runs, -, renumbered, -, again⟩ := prune_exact cycleWithScan
  have done := runs rfl
  have accepted : throughScan.validate cycleWithScan = .ok () := by decide +kernel
  exact ⟨done, by decide +kernel, accepted, renumbered.mapsTo accepted, (again _ done).2⟩

end PhysicalASAPMemoCandidates
end AsapPlanner.Catalog
