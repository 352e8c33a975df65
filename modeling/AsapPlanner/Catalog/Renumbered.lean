import AsapPlanner.Catalog.Usable
import Mathlib.Data.Set.Function

/-!
The catalog that pruning leaves accepts the selections the whole catalog accepts, renumbered, and
pruning it removes nothing.
-/

namespace AsapPlanner.Catalog
open Rust Traversal DagOfSelectedCandidates

namespace PhysicalASAPMemoCandidates
variable {physical : PhysicalASAPMemoCandidates}

/-! ### New ids -/

theorem kept_nodup : physical.kept.Nodup := List.nodup_range.filter _

theorem kept_lt {id : Nat} (left : id ∈ physical.kept) : id < physical.candidates.length :=
  List.mem_range.mp (List.mem_filter.mp left).1

theorem mapping_eq_some {id new : Nat} :
    physical.mapping id = some new ↔ physical.kept[new]? = some id := by
  unfold mapping
  rw [List.idxOf?_eq_some_iff]
  constructor
  · rintro ⟨small, here, -⟩
    exact List.getElem?_eq_some_iff.mpr ⟨small, here⟩
  · intro found
    obtain ⟨small, here⟩ := List.getElem?_eq_some_iff.mp found
    refine ⟨small, here, fun other before same => ?_⟩
    have twice := (List.Nodup.getElem_inj_iff kept_nodup).mp (same.trans here.symm)
    omega

theorem mapping_isSome {id : Nat} : (physical.mapping id).isSome ↔ id ∈ physical.kept := by
  rw [Option.isSome_iff_exists]
  simp only [mapping_eq_some]
  exact List.mem_iff_getElem?.symm

theorem filterMap_getElem? {α β : Type} {value : α → Option β} {items : List α}
    (each : ∀ item ∈ items, (value item).isSome) (position : Nat) :
    (items.filterMap value)[position]? = items[position]?.bind value := by
  induction items generalizing position with
  | nil => simp
  | cons item rest ih =>
    obtain ⟨first, here⟩ := Option.isSome_iff_exists.mp (each item List.mem_cons_self)
    rw [List.filterMap_cons_some here]
    cases position with
    | zero => exact here.symm
    | succ position => exact ih (fun other member => each other (List.mem_cons_of_mem _ member)) position

theorem pruned_candidates_getElem? (new : Nat) :
    physical.pruned.candidates[new]? =
      physical.kept[new]?.bind fun id => physical.candidates[id]?.map physical.renumbered := by
  refine filterMap_getElem? (fun id left => ?_) new
  rw [List.getElem?_eq_getElem (kept_lt left)]
  rfl

theorem pruned_candidates_length : physical.pruned.candidates.length = physical.kept.length := by
  apply Nat.le_antisymm
  · exact List.length_filterMap_le _ _
  · by_contra short
    rw [not_le] at short
    have missing := @pruned_candidates_getElem? physical physical.pruned.candidates.length
    rw [List.getElem?_eq_none (Nat.le_refl _), List.getElem?_eq_getElem short, Option.bind_some,
      List.getElem?_eq_getElem (kept_lt (List.getElem_mem short))] at missing
    cases missing

theorem pruned_inputs {id new : Nat} (left : physical.kept[new]? = some id) :
    physical.pruned.inputs new = (physical.inputs id).map (·.filterMap physical.mapping) := by
  unfold inputs
  rw [pruned_candidates_getElem?, left, Option.bind_some]
  cases physical.candidates[id]? <;> rfl

theorem mem_filterMap_mapping {id new : Nat} {ids : List Nat} (left : physical.kept[new]? = some id) :
    new ∈ ids.filterMap physical.mapping ↔ id ∈ ids := by
  rw [List.mem_filterMap]
  constructor
  · rintro ⟨other, member, same⟩
    rw [mapping_eq_some, left] at same
    exact Option.some.inj same ▸ member
  · intro member
    exact ⟨id, member, mapping_eq_some.mpr left⟩

theorem mem_pruned_queryOutputCandidates {id new output : Nat} (left : physical.kept[new]? = some id) :
    new ∈ physical.pruned.queryOutputCandidates output ↔ id ∈ physical.queryOutputCandidates output := by
  obtain ⟨small, -⟩ := List.getElem?_eq_some_iff.mp left
  have id_small := kept_lt (List.mem_of_getElem? left)
  unfold queryOutputCandidates
  rw [show physical.pruned.outputReferenceGroups = physical.outputReferenceGroups from rfl]
  cases physical.outputReferenceGroups[output]? with
  | none => simp
  | some group =>
    simp only [implementationRoots, List.mem_filter, List.mem_range, pruned_candidates_getElem?, left,
      Option.bind_some, pruned_candidates_length, small, id_small, true_and]
    rw [List.getElem?_eq_getElem id_small]
    rfl

/-! ### Selections -/

variable (physical) in
/-- A selection of what is left, under the new ids. -/
def renumber (selected : DagOfSelectedCandidates) : DagOfSelectedCandidates :=
  { selected with
    candidateOfNode := selected.candidateOfNode.map fun id => (physical.mapping id).getD 0 }

variable (physical) in
/-- The second selection runs what the first does, under the new ids. -/
structure Renumbers (selected selected' : DagOfSelectedCandidates) : Prop where
  edges : selected'.edges = selected.edges
  outputs : selected'.nodeOfOutputReference = selected.nodeOfOutputReference
  count : selected'.count = selected.count
  candidate : ∀ node < selected.count,
    physical.kept[selected'.candidate node]? = some (selected.candidate node)

section
variable {selected selected' : DagOfSelectedCandidates} {links : Links}
  (same : physical.Renumbers selected selected')
include same

theorem Renumbers.slots : selected'.slots links = selected.slots links := by
  funext node
  unfold DagOfSelectedCandidates.slots
  rw [same.count]

theorem Renumbers.graph : selected'.graph links = selected.graph links := by
  unfold DagOfSelectedCandidates.graph
  simp only [same.slots, same.count]

theorem Renumbers.outputReach (output : Nat) :
    selected'.outputReach links output = selected.outputReach links output := by
  unfold DagOfSelectedCandidates.outputReach
  rw [same.outputs, same.graph]

theorem Renumbers.queriesReaching (node : Nat) (queryOutputs : List (List Nat)) :
    selected'.queriesReaching links node queryOutputs = selected.queriesReaching links node queryOutputs := by
  unfold DagOfSelectedCandidates.queriesReaching
  simp only [same.outputReach]

theorem Renumbers.wellLinked : selected'.wellLinked links = selected.wellLinked links := by
  unfold DagOfSelectedCandidates.wellLinked
  rw [same.count, same.outputs, same.slots]
  simp only [same.outputReach]

theorem Renumbers.violated (node new : Nat) (constraint : ReaderConstraint) :
    selected'.violated links node (constraint.setCandidate new) = selected.violated links node constraint := by
  cases constraint <;>
  simp only [ReaderConstraint.setCandidate, DagOfSelectedCandidates.violated, same.queriesReaching,
    same.outputs, same.outputReach]

theorem Renumbers.violates {constraint : ReaderConstraint} {new : Nat}
    (mapped : physical.mapping constraint.candidate = some new) :
    selected'.violates links (constraint.setCandidate new) = selected.violates links constraint := by
  have own : (constraint.setCandidate new).candidate = new := by cases constraint <;> rfl
  unfold DagOfSelectedCandidates.violates
  rw [same.count, own]
  rw [Bool.eq_iff_iff, List.any_eq_true, List.any_eq_true]
  refine exists_congr fun node => and_congr_right fun listed => ?_
  have small := List.mem_range.mp listed
  have runs : selected'.candidateOfNode[node]? = some new ↔
      selected.candidateOfNode[node]? = some constraint.candidate := by
    have here := same.candidate node small
    rw [candidateOfNode_getElem? (same.count ▸ small), candidateOfNode_getElem? small, Option.some_inj,
      Option.some_inj]
    rw [← mapping_eq_some] at here
    constructor
    · intro equal
      rw [equal, mapping_eq_some] at here
      rw [mapping_eq_some, here] at mapped
      exact Option.some.inj mapped
    · intro equal
      rw [equal, mapped] at here
      exact (Option.some.inj here).symm
  rw [same.violated, Bool.and_eq_true, Bool.and_eq_true, decide_eq_true_iff, decide_eq_true_iff, runs]

theorem Renumbers.unlinked : selected'.unlinked physical.pruned.parts = selected.unlinked physical.parts := by
  unfold DagOfSelectedCandidates.unlinked
  congr 1
  funext node
  congr 1
  by_cases small : node < selected.count
  · rw [candidateOfNode_getElem? (same.count ▸ small), candidateOfNode_getElem? small, Option.map_some,
      Option.map_some, Option.getD_some, Option.getD_some]
    have inputs := pruned_inputs (same.candidate node small)
    show (physical.pruned.inputs _).length = (physical.inputs _).length
    rw [inputs, List.length_map]
  · have beyond : ¬ node < selected'.count := by rwa [same.count]
    rw [List.getElem?_eq_none (not_lt.mp beyond), List.getElem?_eq_none (not_lt.mp small)]
    rfl

theorem Renumbers.link : selected'.link physical.pruned.parts = selected.link physical.parts := by
  funext links edge
  unfold DagOfSelectedCandidates.link
  rw [same.count]
  by_cases outside : selected.count ≤ edge.producer ∨ selected.count ≤ edge.consumer
  · rw [if_pos outside, if_pos outside]
    rfl
  rw [if_neg outside, if_neg outside]
  rw [not_or, not_le, not_le] at outside
  have producer := same.candidate edge.producer outside.1
  have inputs := pruned_inputs (same.candidate edge.consumer outside.2)
  have offered : physical.pruned.parts.producersOfInput (selected'.candidate edge.consumer) edge.input =
      (physical.parts.producersOfInput (selected.candidate edge.consumer) edge.input).map
        (·.filterMap physical.mapping) := by
    show (physical.pruned.inputs _)[edge.input]? = ((physical.inputs _)[edge.input]?).map _
    rw [inputs, List.getElem?_map]
  rw [offered]
  cases physical.parts.producersOfInput (selected.candidate edge.consumer) edge.input with
  | none => rfl
  | some producers =>
    simp only [Option.map_some, Option.bind_eq_bind, Option.bind_some, mem_filterMap_mapping producer]

theorem Renumbers.rootsAllowed :
    selected'.rootsAllowed physical.pruned.parts = selected.rootsAllowed physical.parts := by
  unfold DagOfSelectedCandidates.rootsAllowed
  rw [same.outputs, same.count]
  show ((selected.nodeOfOutputReference.zip ((List.range physical.outputReferenceCount).map
    physical.pruned.queryOutputCandidates)).all _) = ((selected.nodeOfOutputReference.zip
      ((List.range physical.outputReferenceCount).map physical.queryOutputCandidates)).all _)
  rw [List.zip_map_right, List.zip_map_right, List.all_map, List.all_map]
  congr 1
  funext ⟨node, output⟩
  show (decide _ && decide _) = (decide _ && decide _)
  by_cases small : node < selected.count
  · simp only [id, small,
      mem_pruned_queryOutputCandidates (same.candidate node small)]
  · simp [small]

theorem Renumbers.known :
    (∀ candidate ∈ selected'.candidateOfNode, candidate < physical.pruned.parts.candidateCount) ∧
      ∀ candidate ∈ selected.candidateOfNode, candidate < physical.parts.candidateCount := by
  constructor
  · intro candidate runs
    obtain ⟨node, found⟩ := List.getElem?_of_mem runs
    have small : node < selected'.count := (List.getElem?_eq_some_iff.mp found).1
    obtain rfl := Option.some.inj ((candidateOfNode_getElem? small).symm.trans found)
    show _ < physical.pruned.candidates.length
    rw [pruned_candidates_length]
    exact (List.getElem?_eq_some_iff.mp (same.candidate node (same.count ▸ small))).1
  · intro candidate runs
    obtain ⟨node, found⟩ := List.getElem?_of_mem runs
    have small : node < selected.count := (List.getElem?_eq_some_iff.mp found).1
    obtain rfl := Option.some.inj ((candidateOfNode_getElem? small).symm.trans found)
    exact kept_lt (List.mem_of_getElem? (same.candidate node small))

theorem Renumbers.compatible :
    (∀ constraint ∈ physical.pruned.parts.readerConstraints, selected'.violates links constraint = false) ↔
      ∀ constraint ∈ physical.parts.readerConstraints, selected.violates links constraint = false := by
  constructor
  · intro all constraint listed
    cases mapped : physical.mapping constraint.candidate with
    | some new =>
      rw [← same.violates mapped]
      exact all _ (List.mem_filterMap.mpr ⟨constraint, listed, by rw [mapped]; rfl⟩)
    | none =>
      rw [DagOfSelectedCandidates.violates, List.any_eq_false]
      intro node inside breaks
      have small := List.mem_range.mp inside
      rw [Bool.and_eq_true, decide_eq_true_iff, candidateOfNode_getElem? small, Option.some_inj] at breaks
      have left := mapping_eq_some.mpr (same.candidate node small)
      rw [breaks.1, mapped] at left
      cases left
  · intro all constraint listed
    obtain ⟨before, inside, mapped⟩ := List.mem_filterMap.mp listed
    obtain ⟨new, found, rfl⟩ := Option.map_eq_some_iff.mp mapped
    rw [same.violates found]
    exact all before inside

theorem Renumbers.accepted :
    selected'.Accepted physical.pruned.parts links ↔ selected.Accepted physical.parts links := by
  constructor
  · rintro ⟨-, outputs, roots, linked, wellLinked, compatible⟩
    refine ⟨same.known.2, ?_, same.rootsAllowed ▸ roots, ?_, same.wellLinked ▸ wellLinked,
      same.compatible.mp compatible⟩
    · rw [← same.outputs, outputs]
      simp [parts]
      rfl
    · rwa [same.edges, same.link, same.unlinked] at linked
  · rintro ⟨-, outputs, roots, linked, wellLinked, compatible⟩
    refine ⟨same.known.1, ?_, same.rootsAllowed.symm ▸ roots, ?_, same.wellLinked.symm ▸ wellLinked,
      same.compatible.mpr compatible⟩
    · rw [same.outputs, outputs]
      simp [parts]
      rfl
    · rwa [same.edges, same.link, same.unlinked]

end

section
variable {selected : DagOfSelectedCandidates}

theorem renumbers_renumber (left : ∀ candidate ∈ selected.candidateOfNode, candidate ∈ physical.kept) :
    physical.Renumbers selected (physical.renumber selected) where
  edges := rfl
  outputs := rfl
  count := List.length_map _
  candidate node small := by
    have listed := left _ (candidate_known small)
    obtain ⟨new, mapped⟩ := Option.isSome_iff_exists.mp (mapping_isSome.mpr listed)
    have here : (physical.renumber selected).candidate node = new := by
      unfold renumber candidate
      rw [List.getD_eq_getElem?_getD, List.getElem?_map, candidateOfNode_getElem? small, Option.map_some,
        mapped]
      rfl
    rw [here]
    exact mapping_eq_some.mp mapped

variable (physical) in
/-- A selection of what is left, under the old ids. -/
def restored (selected : DagOfSelectedCandidates) : DagOfSelectedCandidates :=
  { selected with candidateOfNode := selected.candidateOfNode.map fun new => physical.kept.getD new 0 }

theorem restored_renumber (left : ∀ candidate ∈ selected.candidateOfNode, candidate ∈ physical.kept) :
    physical.restored (physical.renumber selected) = selected := by
  obtain ⟨candidates, edges, outputs⟩ := selected
  unfold restored renumber
  simp only [List.map_map]
  congr 1
  refine (List.map_congr_left fun id runs => ?_).trans (List.map_id _)
  obtain ⟨new, mapped⟩ := Option.isSome_iff_exists.mp (mapping_isSome.mpr (left id runs))
  rw [Function.comp_apply, mapped, Option.getD_some, List.getD_eq_getElem?_getD,
    mapping_eq_some.mp mapped]
  rfl

theorem renumber_restored
    (known : ∀ candidate ∈ selected.candidateOfNode, candidate < physical.kept.length) :
    physical.renumber (physical.restored selected) = selected ∧
      ∀ candidate ∈ (physical.restored selected).candidateOfNode, candidate ∈ physical.kept := by
  have back : ∀ new ∈ selected.candidateOfNode, physical.kept[new]? = some (physical.kept.getD new 0) := by
    intro new runs
    rw [List.getD_eq_getElem?_getD, List.getElem?_eq_getElem (known new runs), Option.getD_some]
  constructor
  · obtain ⟨candidates, edges, outputs⟩ := selected
    unfold restored renumber
    simp only [List.map_map]
    congr 1
    refine (List.map_congr_left fun new runs => ?_).trans (List.map_id _)
    rw [Function.comp_apply, mapping_eq_some.mpr (back new runs)]
    rfl
  · intro candidate runs
    obtain ⟨new, inside, rfl⟩ := List.mem_map.mp runs
    exact List.mem_of_getElem? (back new inside)

theorem renumber_bijOn :
    Set.BijOn physical.renumber {selected | selected.validate physical = .ok ()}
      {selected | selected.validate physical.pruned = .ok ()} := by
  refine ⟨fun selected passes => ?_, fun first one second two equal => ?_, fun selected passes => ?_⟩
  · obtain ⟨links, accepted⟩ := validateAgainst_ok.mp passes
    exact validateAgainst_ok.mpr
      ⟨links, (renumbers_renumber (Accepted.kept accepted)).accepted.mpr accepted⟩
  · obtain ⟨links, accepted⟩ := validateAgainst_ok.mp one
    obtain ⟨links', accepted'⟩ := validateAgainst_ok.mp two
    rw [← restored_renumber (Accepted.kept accepted), equal, restored_renumber (Accepted.kept accepted')]
  · obtain ⟨links, accepted⟩ := validateAgainst_ok.mp passes
    have known : ∀ candidate ∈ selected.candidateOfNode, candidate < physical.kept.length := by
      intro candidate runs
      rw [← pruned_candidates_length]
      exact accepted.known candidate runs
    obtain ⟨there, left⟩ := renumber_restored known
    refine ⟨physical.restored selected, validateAgainst_ok.mpr ⟨links, ?_⟩, there⟩
    refine (renumbers_renumber left).accepted.mp ?_
    rwa [there]

end

end PhysicalASAPMemoCandidates
end AsapPlanner.Catalog
