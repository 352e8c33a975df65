import AsapPlanner.Milp.Derived
import AsapPlanner.Milp.OwnContexts
import AsapPlanner.Milp.Dependence

/-!
The rows that a starting plan meets: all of the structural rows but that a choice is read, and but
that an output reference has one chosen candidate where its candidates stand in several slots.
-/

namespace AsapPlanner.Milp
open Plan Milp.Derivation

namespace MilpInputs
variable {n : Nat} (inputs : MilpInputs n) {Memo Number : Type} [LinearOrder Number]

def startingRows : List (Constraint (Variable n)) :=
  ((List.range inputs.contexts.length).flatMap fun context =>
    inputs.slotRows context ++ (inputs.options context).flatMap (inputs.validityRows context) ++
      inputs.ownRows context ++ (inputs.options context).flatMap (inputs.slotLinkRows context)) ++
    inputs.sharingRows

variable {inputs} {plan : Plan n}

/-! ### Binaries -/

theorem binariesOf_choice (context : Nat) (option : Fin n) :
    Binary (inputs.binariesOf plan (.choice context option)) := Binary.ite _

theorem binariesOf_selected (shareable : Fin n) :
    Binary (inputs.binariesOf plan (.selected shareable)) := Binary.ite _

theorem slotLink_eq {context input : Nat} {reader : Fin n} {slots : List ResultSlot}
    (links : inputs.slotLinks context reader input = some slots) (slot : ResultSlot) :
    inputs.binariesOf plan (.slotLink context reader input slot) =
      if slot ∈ slots ∧ plan.slotReads.lookup (context, reader, input) = some slot then 1 else 0 := by
  simp only [binariesOf, links]

theorem one_le_chosenSum {context : Nat} {candidates : List (Fin n)} {candidate : Fin n}
    (member : candidate ∈ candidates) (listed : candidate ∈ inputs.options context)
    (one : inputs.binariesOf plan (.choice context candidate) = 1) :
    1 ≤ (inputs.chosenSum context candidates).eval (inputs.binariesOf plan) := by
  rw [chosenSum, Expression.eval_sum, ← one]
  apply le_sum
  · intro column there
    obtain ⟨option, _, rfl⟩ := List.mem_map.mp there
    exact binariesOf_choice _ _
  · exact List.mem_map_of_mem (List.mem_filter.mpr ⟨member, decide_eq_true listed⟩)

theorem chosenSum_nonneg (context : Nat) (candidates : List (Fin n)) :
    0 ≤ (inputs.chosenSum context candidates).eval (inputs.binariesOf plan) := by
  rw [chosenSum, Expression.eval_sum]
  apply sum_nonneg
  intro column there
  obtain ⟨option, _, rfl⟩ := List.mem_map.mp there
  exact binariesOf_choice _ _

/-! ### Plans derived from nothing -/

section
variable (grows : inputs.Grows ∅ ∅ Plan.empty plan)
include grows

theorem supported_of {context : Nat} {slot : ResultSlot} {candidate : Fin n}
    (found : (plan.chosen context).lookup slot = some candidate) :
    slot = inputs.slot candidate ∧ candidate ∈ inputs.options context ∧
      inputs.Supported plan context candidate := by
  rcases grows.newChosen _ _ _ found with before | ⟨same, listed, supported⟩
  · simp [Plan.empty] at before
  · exact ⟨same, listed, supported.resolve_left (Set.notMem_empty _)⟩

theorem choice_eq_one {context : Nat} {candidate : Fin n} :
    inputs.binariesOf plan (.choice context candidate) = 1 ↔
      inputs.Chosen plan context candidate := by
  simp only [binariesOf, ite_eq_left_iff, zero_ne_one, imp_false, not_not, Multiset.mem_map]
  constructor
  · rintro ⟨_, ⟨slot, other⟩, member, rfl⟩
    have found := Finmap.mem_lookup_iff.mpr member
    rw [Chosen, ← (supported_of grows found).1]
    exact found
  · intro chosen
    exact ⟨(supported_of grows chosen).2.1, ⟨_, candidate⟩, Finmap.mem_lookup_iff.mp chosen, rfl⟩

theorem selected_eq_one {shareable : Fin n} :
    inputs.binariesOf plan (.selected shareable) = 1 ↔ shareable ∈ plan.selected := by
  simp only [binariesOf, ite_eq_left_iff, zero_ne_one, imp_false, not_not]
  refine ⟨And.right, fun member => ⟨?_, member⟩⟩
  rcases grows.newSelected shareable member with before | ⟨_, supported⟩
  · cases before
  · obtain ⟨own, found, _⟩ := supported.resolve_left (Set.notMem_empty _)
    rw [found]
    rfl

theorem recorded_of : inputs.Recorded plan :=
  grows.recorded fun _ _ _ _ found => by simp [Plan.empty] at found

theorem choice_le {context : Nat} {candidate : Fin n} {total : ℚ} (nonneg : 0 ≤ total)
    (made : inputs.Chosen plan context candidate → 1 ≤ total) :
    inputs.binariesOf plan (.choice context candidate) ≤ total := by
  rcases @binariesOf_choice _ inputs plan context candidate with zero | one
  · rwa [zero]
  · rw [one]
    exact made ((choice_eq_one grows).mp one)

theorem chosen_le_sum {context : Nat} {candidates : List (Fin n)} {candidate : Fin n}
    (member : candidate ∈ candidates) (chosen : inputs.Chosen plan context candidate) :
    1 ≤ (inputs.chosenSum context candidates).eval (inputs.binariesOf plan) :=
  one_le_chosenSum member (supported_of grows chosen).2.1 ((choice_eq_one grows).mpr chosen)

theorem chosenSum_le_one {context : Nat} {candidates : List (Fin n)} (distinct : candidates.Nodup)
    (same : ∀ a ∈ candidates, ∀ b ∈ candidates, a ∈ inputs.options context →
      b ∈ inputs.options context → inputs.slot a = inputs.slot b) :
    (inputs.chosenSum context candidates).eval (inputs.binariesOf plan) ≤ 1 := by
  rw [chosenSum, Expression.eval_sum]
  apply sum_le_one
  · exact (distinct.filter _).map fun a b equal => (Variable.choice.inj equal).2
  · intro column there
    obtain ⟨option, _, rfl⟩ := List.mem_map.mp there
    exact binariesOf_choice _ _
  · intro u uHere v vHere uOne vOne
    obtain ⟨a, aHere, rfl⟩ := List.mem_map.mp uHere
    obtain ⟨b, bHere, rfl⟩ := List.mem_map.mp vHere
    obtain ⟨aMember, aListed⟩ := List.mem_filter.mp aHere
    obtain ⟨bMember, bListed⟩ := List.mem_filter.mp bHere
    have first := (choice_eq_one grows).mp uOne
    have second := (choice_eq_one grows).mp vOne
    rw [Chosen, same a aMember b bMember (of_decide_eq_true aListed) (of_decide_eq_true bListed)]
      at first
    rw [Option.some.inj (first.symm.trans second)]

/-! ### Rows 2, 3 and 5 -/

theorem slotRows_met {context : Nat} (distinct : (inputs.options context).Nodup) :
    ∀ row ∈ inputs.slotRows context, row.Holds (inputs.binariesOf plan) := by
  intro row member
  obtain ⟨slot, _, made⟩ := List.mem_filterMap.mp member
  dsimp only at made
  split at made
  · cases made
    show _ ≤ (Expression.const 1).eval _
    rw [Expression.eval_const]
    apply chosenSum_le_one grows (distinct.filter _)
    intro a aHere b bHere _ _
    exact (of_decide_eq_true (List.mem_filter.mp aHere).2).trans
      (of_decide_eq_true (List.mem_filter.mp bHere).2).symm
  · cases made

theorem validityRows_met {context : Nat} {option : Fin n} :
    ∀ row ∈ inputs.validityRows context option, row.Holds (inputs.binariesOf plan) := by
  intro row member
  have supported (chosen : inputs.Chosen plan context option) := (supported_of grows chosen).2.2
  unfold Supported at supported
  unfold validityRows at member
  dsimp only at member
  split at member
  · next computed =>
    obtain ⟨producers, here, rfl⟩ := List.mem_map.mp member
    show (Expression.var _).eval _ ≤ _
    rw [Expression.eval_var]
    apply choice_le grows (chosenSum_nonneg _ _)
    intro chosen
    have rests := supported chosen
    rw [if_pos computed] at rests
    obtain ⟨input, found⟩ := List.getElem?_of_mem here
    obtain ⟨producer, listed, apart, given, _⟩ :=
      rests producers input (List.mem_zipIdx_iff_getElem?.mpr found)
    exact chosen_le_sum grows (List.mem_filter.mpr ⟨listed, decide_eq_true apart⟩) given
  · next crossing =>
    simp only [if_neg crossing] at supported
    have below {right : Expression (Variable n)} (nonneg : 0 ≤ right.eval (inputs.binariesOf plan))
        (made : inputs.Chosen plan context option → 1 ≤ right.eval (inputs.binariesOf plan)) :
        (Constraint.le (.var (.choice context option)) right).Holds (inputs.binariesOf plan) := by
      show (Expression.var _).eval _ ≤ _
      rw [Expression.eval_var]
      exact choice_le grows nonneg made
    split at member
    · next kind =>
      cases List.mem_singleton.mp member
      rw [kind] at supported
      apply below
      · rw [Expression.eval_var]
        exact (binariesOf_selected option).nonneg
      · intro chosen
        rw [Expression.eval_var, (selected_eq_one grows).mpr (supported chosen)]
    · next kind =>
      rw [kind] at supported
      split at member
      · next source found =>
        split at member
        · cases List.mem_singleton.mp member
          apply below
          · rw [Expression.eval_var]
            exact (binariesOf_choice source option).nonneg
          · intro chosen
            obtain ⟨read, same, given⟩ := supported chosen
            cases found.symm.trans same
            rw [Expression.eval_var, (choice_eq_one grows).mpr given]
        · next absent =>
          cases List.mem_singleton.mp member
          apply below
          · rw [Expression.eval_const]
          · intro chosen
            obtain ⟨read, same, given⟩ := supported chosen
            cases found.symm.trans same
            exact absurd (supported_of grows given).2.1 absent
      · next none =>
        cases List.mem_singleton.mp member
        apply below
        · rw [Expression.eval_const]
        · intro chosen
          obtain ⟨read, same, _⟩ := supported chosen
          cases none.symm.trans same
    · next kind =>
      rw [kind] at supported
      cases List.mem_singleton.mp member
      apply below
      · rw [Expression.eval_const]
      · exact fun chosen => (supported chosen).elim

theorem ownRows_met {context : Nat} (owned : ∀ own, (inputs.context context).kind = .shared own →
      inputs.contextOfShareable own = some context) :
    ∀ row ∈ inputs.ownRows context, row.Holds (inputs.binariesOf plan) := by
  intro row member
  unfold ownRows at member
  split at member
  · next own kind =>
    obtain ⟨producers, here, rfl⟩ := List.mem_map.mp member
    show (Expression.var _).eval _ ≤ _
    rw [Expression.eval_var]
    rcases @binariesOf_selected _ inputs plan own with zero | one
    · rw [zero]
      exact chosenSum_nonneg _ _
    · rw [one]
      rcases grows.newSelected own ((selected_eq_one grows).mp one) with before | ⟨_, supported⟩
      · cases before
      · obtain ⟨at', found, each⟩ := supported.resolve_left (Set.notMem_empty _)
        cases (owned own kind).symm.trans found
        obtain ⟨producer, listed, given⟩ := each producers here
        exact chosen_le_sum grows listed given
  · cases member

theorem linked_of {context input : Nat} {reader : Fin n} {slots : List ResultSlot}
    {producers : List (Fin n)} (here : (producers, input) ∈ (inputs.producers reader).zipIdx)
    (links : inputs.slotLinks context reader input = some slots)
    (chosen : inputs.Chosen plan context reader) : ∃ producer ∈ producers,
      inputs.Chosen plan context producer ∧ inputs.slot producer ∈ slots ∧
        plan.slotReads.lookup (context, reader, input) = some (inputs.slot producer) := by
  have several : (inputs.slotLinks context reader input).isSome := by
    rw [links]
    rfl
  unfold slotLinks at links
  split at links
  · next computed =>
    have supported := (supported_of grows chosen).2.2
    rw [Supported, if_pos computed.2] at supported
    obtain ⟨producer, listed, apart, given, recorded⟩ := supported producers input here
    refine ⟨producer, listed, given, ?_, recorded several⟩
    rw [List.mem_zipIdx_iff_getElem?.mp here] at links
    dsimp only at links
    split at links
    · cases links
      exact mem_slotsRead.mpr ⟨apart, producer, listed, (supported_of grows given).2.1, rfl⟩
    · cases links
  · cases links

theorem slotLinkRows_met {context : Nat} {reader : Fin n} :
    ∀ row ∈ inputs.slotLinkRows context reader, row.Holds (inputs.binariesOf plan) := by
  intro row member
  obtain ⟨⟨producers, input⟩, here, made⟩ := List.mem_flatMap.mp member
  dsimp only at made
  split at made
  · cases made
  · next slots links =>
    have value := @slotLink_eq _ inputs plan _ _ _ _ links
    have binary (slot : ResultSlot) :
        Binary (inputs.binariesOf plan (.slotLink context reader input slot)) := by
      rw [value]
      exact Binary.ite _
    have read {slot : ResultSlot}
        (one : inputs.binariesOf plan (.slotLink context reader input slot) = 1) :
        plan.slotReads.lookup (context, reader, input) = some slot := by
      rw [value] at one
      split at one
      · next both => exact both.2
      · exact absurd one zero_ne_one
    have distinct : slots.Nodup := by
      unfold slotLinks at links
      split at links
      · rw [List.mem_zipIdx_iff_getElem?.mp here] at links
        dsimp only at links
        split at links
        · cases links
          exact (List.perm_insertionSort _ _).nodup_iff.mpr (List.nodup_dedup _)
        · cases links
      · cases links
    rcases List.mem_cons.mp made with rfl | link
    · show (Expression.sum _).eval _ = (Expression.var _).eval _
      rw [Expression.eval_sum, Expression.eval_var]
      rcases @binariesOf_choice _ inputs plan context reader with zero | one
      · rw [zero]
        apply List.sum_eq_zero
        intro x mapped
        obtain ⟨column, listed, rfl⟩ := List.mem_map.mp mapped
        obtain ⟨slot, _, rfl⟩ := List.mem_map.mp listed
        refine (binary slot).resolve_right fun one => ?_
        have chosen := recorded_of grows _ _ _ _ (read one)
        rw [(choice_eq_one grows).mpr chosen] at zero
        exact one_ne_zero zero
      · rw [one]
        have chosen := (choice_eq_one grows).mp one
        obtain ⟨producer, _, _, inSlots, recorded⟩ := linked_of grows here links chosen
        have columns : ∀ column ∈ slots.map (Variable.slotLink context reader input),
            Binary (inputs.binariesOf plan column) := by
          intro column listed
          obtain ⟨slot, _, rfl⟩ := List.mem_map.mp listed
          exact binary slot
        apply le_antisymm
        · apply sum_le_one
          · exact distinct.map fun a b same => (Variable.slotLink.inj same).2.2.2
          · exact columns
          · intro u uHere v vHere uOne vOne
            obtain ⟨a, _, rfl⟩ := List.mem_map.mp uHere
            obtain ⟨b, _, rfl⟩ := List.mem_map.mp vHere
            rw [Option.some.inj ((read uOne).symm.trans (read vOne))]
        · have given : inputs.binariesOf plan
              (.slotLink context reader input (inputs.slot producer)) = 1 := by
            rw [value, if_pos ⟨inSlots, recorded⟩]
          rw [← given]
          exact le_sum columns (List.mem_map_of_mem inSlots)
    · obtain ⟨slot, _, rfl⟩ := List.mem_map.mp link
      show (Expression.var _).eval _ ≤ _
      rw [Expression.eval_var]
      rcases binary slot with zero | one
      · rw [zero]
        exact chosenSum_nonneg _ _
      · rw [one]
        have chosen := recorded_of grows _ _ _ _ (read one)
        obtain ⟨producer, listed, given, _, recorded⟩ := linked_of grows here links chosen
        have same := Option.some.inj (recorded.symm.trans (read one))
        exact chosen_le_sum grows (List.mem_filter.mpr ⟨listed, decide_eq_true same⟩) given

theorem sharingRows_met : ∀ row ∈ inputs.sharingRows, row.Holds (inputs.binariesOf plan) := by
  intro row member
  obtain ⟨shareable, _, made⟩ := List.mem_filterMap.mp member
  split at made
  · cases made
    have binary : ∀ column ∈ ((List.range inputs.contexts.length).filter fun context =>
        shareable ∈ inputs.options context && inputs.kind shareable = .shareable).map
          fun context => Variable.choice context shareable, Binary (inputs.binariesOf plan column) := by
      intro column listed
      obtain ⟨context, _, rfl⟩ := List.mem_map.mp listed
      exact binariesOf_choice _ _
    show (Expression.var _).eval _ ≤ (Expression.sum _).eval _
    rw [Expression.eval_var, Expression.eval_sum]
    rcases @binariesOf_selected _ inputs plan shareable with zero | one
    · rw [zero]
      exact sum_nonneg binary
    · rw [one]
      rcases grows.newSelected shareable ((selected_eq_one grows).mp one) with before | ⟨shared, _⟩
      · cases before
      · obtain ⟨kind, context, listed, chosen⟩ := shared
        rw [← (choice_eq_one grows).mpr chosen]
        apply le_sum binary
        refine List.mem_map.mpr ⟨context, List.mem_filter.mpr ⟨?_, ?_⟩, rfl⟩
        · exact List.mem_range.mpr (List.getElem?_eq_some_iff.mp (context_of_option listed)).1
        · rw [Bool.and_eq_true]
          exact ⟨decide_eq_true listed, decide_eq_true kind⟩
  · cases made

end

end MilpInputs
end AsapPlanner.Milp
