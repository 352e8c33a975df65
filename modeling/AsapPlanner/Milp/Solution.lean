import AsapPlanner.Milp.Numbering
import AsapPlanner.Milp.WellFormed

/-!
What the structural rows say of an integral solution: every read has one chosen producer, and every
chosen candidate a read.
-/

namespace AsapPlanner.Milp

structure Integral {n : Nat} (value : Variable n → ℚ) : Prop where
  choice : ∀ context option, Binary (value (.choice context option))
  selected : ∀ shareable, Binary (value (.selected shareable))
  slotLink : ∀ context reader input slot, Binary (value (.slotLink context reader input slot))

/-- These variables at one and every other at zero. -/
def assignment {n : Nat} (ones : List (Variable n)) : Variable n → ℚ :=
  fun v => if v ∈ ones then 1 else 0

theorem assignment_integral {n : Nat} (ones : List (Variable n)) : Integral (assignment ones) := by
  have binary : ∀ v, Binary (assignment ones v) := by
    intro v
    unfold assignment
    split
    · exact .inr rfl
    · exact .inl rfl
  exact ⟨fun _ _ => binary _, fun _ => binary _, fun _ _ _ _ => binary _⟩

namespace MilpInputs
variable {n : Nat} {inputs : MilpInputs n} {value : Variable n → ℚ}

structure Solution (inputs : MilpInputs n) (value : Variable n → ℚ) : Prop where
  integral : Integral value
  rows : ∀ row ∈ inputs.structuralRows, row.Holds value

theorem half_lt_iff {x : ℚ} (binary : Binary x) : 1 / 2 < x ↔ x = 1 := by
  rcases binary with rfl | rfl <;> norm_num

theorem mem_chosen (integral : Integral value) {context : Nat} {option : Fin n} :
    option ∈ (inputs.chosenBy value).chosen context ↔
      option ∈ inputs.options context ∧ value (.choice context option) = 1 := by
  simp only [chosenBy, List.mem_filter, decide_eq_true_eq, half_lt_iff (integral.choice ..)]

theorem mem_selected (integral : Integral value) {shareable : Fin n} :
    shareable ∈ (inputs.chosenBy value).selected ↔
      (inputs.contextOfShareable shareable).isSome ∧ value (.selected shareable) = 1 := by
  simp only [chosenBy, List.mem_filter, List.mem_finRange, true_and, Bool.and_eq_true,
    decide_eq_true_eq, half_lt_iff (integral.selected _)]

theorem lt_of_option {context : Nat} {option : Fin n} (listed : option ∈ inputs.options context) :
    context < inputs.contexts.length :=
  (List.getElem?_eq_some_iff.mp (context_of_option listed)).1

theorem chosenBy_bounded : inputs.Bounded (inputs.chosenBy value) :=
  fun _ _ member => lt_of_option (List.mem_of_mem_filter member)

theorem eval_chosenSum (context : Nat) (candidates : List (Fin n)) :
    (inputs.chosenSum context candidates).eval value =
      (((candidates.filter (· ∈ inputs.options context)).map (Variable.choice context)).map value).sum :=
  Expression.eval_sum value _

theorem chosen_of_sum (integral : Integral value) {context : Nat} {candidates : List (Fin n)}
    (above : 1 ≤ (inputs.chosenSum context candidates).eval value) :
    ∃ candidate ∈ candidates, candidate ∈ (inputs.chosenBy value).chosen context := by
  rw [eval_chosenSum] at above
  obtain ⟨v, member, one⟩ := exists_one (fun v member => by
    obtain ⟨option, _, rfl⟩ := List.mem_map.mp member
    exact integral.choice context option) above
  obtain ⟨option, listed, rfl⟩ := List.mem_map.mp member
  obtain ⟨candidate, inside⟩ := List.mem_filter.mp listed
  exact ⟨option, candidate, (mem_chosen integral).mpr ⟨of_decide_eq_true inside, one⟩⟩

/-! ### The rows of one context -/

theorem mem_structuralRows {context : Nat} (inside : context < inputs.contexts.length)
    {row : Constraint (Variable n)}
    (member : row ∈ inputs.slotRows context ++
      (inputs.options context).flatMap (inputs.validityRows context) ++ inputs.ownRows context ++
      (inputs.options context).flatMap (inputs.slotLinkRows context) ++
      (inputs.options context).map (inputs.usedRow context)) : row ∈ inputs.structuralRows := by
  refine List.mem_append_left _ (List.mem_append_right _ ?_)
  exact List.mem_flatMap.mpr ⟨context, List.mem_range.mpr inside, member⟩

namespace Solution
variable (solution : inputs.Solution value) {context : Nat} {option reader : Fin n}
include solution

theorem slotRow {row : Constraint (Variable n)} (inside : context < inputs.contexts.length)
    (member : row ∈ inputs.slotRows context) : row.Holds value := by
  apply solution.rows _ (mem_structuralRows inside _)
  simp [member]

theorem validityRow {row : Constraint (Variable n)} (listed : option ∈ inputs.options context)
    (member : row ∈ inputs.validityRows context option) : row.Holds value := by
  apply solution.rows _ (mem_structuralRows (lt_of_option listed) _)
  have rows := List.mem_flatMap.mpr ⟨option, listed, member⟩
  simp only [List.mem_append, rows, or_true, true_or]

theorem ownRow {row : Constraint (Variable n)} (inside : context < inputs.contexts.length)
    (member : row ∈ inputs.ownRows context) : row.Holds value := by
  apply solution.rows _ (mem_structuralRows inside _)
  simp [member]

theorem slotLinkRow {row : Constraint (Variable n)} (listed : option ∈ inputs.options context)
    (member : row ∈ inputs.slotLinkRows context option) : row.Holds value := by
  apply solution.rows _ (mem_structuralRows (lt_of_option listed) _)
  have rows := List.mem_flatMap.mpr ⟨option, listed, member⟩
  simp only [List.mem_append, rows, or_true, true_or]

theorem usedRow (listed : option ∈ inputs.options context) :
    (inputs.usedRow context option).Holds value := by
  apply solution.rows _ (mem_structuralRows (lt_of_option listed) _)
  exact List.mem_append_right _ (List.mem_map_of_mem listed)

theorem output_chosen {query : Nat} {outputs : List (Fin n)}
    (listed : (query, outputs) ∈ inputs.references.zip inputs.outputs) :
    ∃ output ∈ outputs, output ∈ (inputs.chosenBy value).chosen query := by
  have row := solution.rows _ (List.mem_append_left _ (List.mem_append_left _
    (List.mem_map_of_mem listed)))
  have sum : (inputs.chosenSum query outputs).eval value = 1 := by
    simpa [Constraint.Holds] using row
  exact chosen_of_sum solution.integral sum.ge

theorem slot_unique {other : Fin n} (here : option ∈ (inputs.chosenBy value).chosen context)
    (there : other ∈ (inputs.chosenBy value).chosen context)
    (same : inputs.slot option = inputs.slot other) : option = other := by
  obtain ⟨listed, one⟩ := (mem_chosen solution.integral).mp here
  obtain ⟨otherListed, otherOne⟩ := (mem_chosen solution.integral).mp there
  by_contra apart
  let alike := (inputs.options context).filter fun candidate =>
    inputs.slot candidate = inputs.slot option
  have inAlike : option ∈ alike := List.mem_filter.mpr ⟨listed, by simp⟩
  have otherAlike : other ∈ alike := List.mem_filter.mpr ⟨otherListed, by simp [same]⟩
  have several : 1 < alike.length := by
    have pair : [option, other].Subperm alike := by
      apply List.subperm_of_subset
      · simp [apart]
      · intro candidate member
        rcases List.mem_cons.mp member with rfl | member
        · exact inAlike
        · exact List.mem_singleton.mp member ▸ otherAlike
    exact pair.length_le
  have row : Constraint.le (inputs.chosenSum context alike) (.const 1) ∈ inputs.slotRows context := by
    refine List.mem_filterMap.mpr ⟨inputs.slot option, ?_, if_pos several⟩
    rw [(List.perm_insertionSort _ _).mem_iff, List.mem_dedup]
    exact List.mem_map_of_mem listed
  have holds := solution.slotRow (lt_of_option listed) row
  have below : (inputs.chosenSum context alike).eval value ≤ 1 := by
    simpa [Constraint.Holds] using holds
  rw [eval_chosenSum] at below
  have within : ∀ candidate ∈ alike, Variable.choice context candidate ∈
      (alike.filter (· ∈ inputs.options context)).map (Variable.choice context) := fun candidate member =>
    List.mem_map_of_mem (List.mem_filter.mpr ⟨member,
      decide_eq_true (List.mem_of_mem_filter member)⟩)
  have equal := one_of_sum_le (fun v member => by
    obtain ⟨candidate, _, rfl⟩ := List.mem_map.mp member
    exact solution.integral.choice context candidate) below (within _ inAlike)
    (within _ otherAlike) one otherOne
  exact apart (Variable.choice.inj equal).2

theorem input_chosen (here : reader ∈ (inputs.chosenBy value).chosen context)
    (computes : inputs.computes context reader = true) {producers : List (Fin n)}
    (input : producers ∈ inputs.producers reader) :
    ∃ producer ∈ producers, inputs.slot producer ≠ inputs.slot reader ∧
      producer ∈ (inputs.chosenBy value).chosen context := by
  obtain ⟨listed, one⟩ := (mem_chosen solution.integral).mp here
  have row : Constraint.ge (inputs.chosenSum context (producers.filter fun producer =>
      inputs.slot producer ≠ inputs.slot reader)) (.var (.choice context reader)) ∈
      inputs.validityRows context reader := by
    rw [validityRows, if_pos computes]
    exact List.mem_map.mpr ⟨producers, input, rfl⟩
  have holds := solution.validityRow listed row
  have above : 1 ≤ (inputs.chosenSum context (producers.filter fun producer =>
      inputs.slot producer ≠ inputs.slot reader)).eval value := by
    simpa [Constraint.ge, Constraint.Holds, one] using holds
  obtain ⟨producer, member, chosen⟩ := chosen_of_sum solution.integral above
  obtain ⟨inside, apart⟩ := List.mem_filter.mp member
  exact ⟨producer, inside, by simpa using apart, chosen⟩

theorem own_chosen (inside : context < inputs.contexts.length) {own : Fin n}
    (kind : (inputs.context context).kind = .shared own) (one : value (.selected own) = 1)
    {producers : List (Fin n)} (input : producers ∈ inputs.producers own) :
    ∃ producer ∈ producers, producer ∈ (inputs.chosenBy value).chosen context := by
  have row : Constraint.ge (inputs.chosenSum context producers) (.var (.selected own)) ∈
      inputs.ownRows context := by
    rw [ownRows, kind]
    exact List.mem_map.mpr ⟨producers, input, rfl⟩
  have holds := solution.ownRow inside row
  have above : 1 ≤ (inputs.chosenSum context producers).eval value := by
    simpa [Constraint.ge, Constraint.Holds, one] using holds
  exact chosen_of_sum solution.integral above

theorem runOf_chosen (formed : inputs.WellFormed)
    (here : option ∈ (inputs.chosenBy value).chosen context) :
    ∃ run, inputs.runOf (inputs.chosenBy value) context option = some run := by
  obtain ⟨listed, one⟩ := (mem_chosen solution.integral).mp here
  cases computes : inputs.computes context option with
  | true => exact ⟨.computed context option, by rw [runOf, if_neg (not_not.mpr here), if_pos computes]⟩
  | false =>
    have holds : ∀ row ∈ inputs.validityRows context option, row.Holds value :=
      fun _ member => solution.validityRow listed member
    unfold runOf
    rw [if_neg (not_not.mpr here), computes]
    unfold validityRows at holds
    rw [computes] at holds
    cases kind : inputs.kind option with
    | shareable =>
      simp [kind, Constraint.Holds, one] at holds
      have selected : option ∈ (inputs.chosenBy value).selected :=
        (mem_selected solution.integral).mpr ⟨formed.known context option listed kind,
          (solution.integral.selected option).eq_one holds⟩
      exact ⟨.shared option, by simp [selected]⟩
    | ingestion =>
      cases source : inputs.ingestionContextReadBy context with
      | none =>
        simp [kind, source, Constraint.Holds, one] at holds
        norm_num at holds
      | some ingestion =>
        by_cases there : option ∈ inputs.options ingestion
        · simp [kind, source, there, Constraint.Holds, one] at holds
          have chosen : option ∈ (inputs.chosenBy value).chosen ingestion :=
            (mem_chosen solution.integral).mpr
              ⟨there, (solution.integral.choice ingestion option).eq_one holds⟩
          exact ⟨.computed ingestion option, by simp [chosen]⟩
        · simp [kind, source, there, Constraint.Holds, one] at holds
          norm_num at holds
    | perContext =>
      simp [kind, Constraint.Holds, one] at holds
      norm_num at holds

omit solution in
theorem slotLinks_some {input : Nat} {slots : List ResultSlot}
    (links : inputs.slotLinks context reader input = some slots) :
    reader ∈ inputs.options context ∧ inputs.computes context reader = true ∧
      ∃ producers, (inputs.producers reader)[input]? = some producers ∧
        slots = inputs.slotsRead context reader producers := by
  unfold slotLinks at links
  split at links
  · next here =>
    split at links
    · next producers found =>
      dsimp only at links
      split at links
      · exact ⟨here.1, here.2, producers, found, (Option.some.inj links).symm⟩
      · cases links
    · cases links
  · cases links

theorem slotLink_rows {input : Nat} {slots : List ResultSlot}
    (links : inputs.slotLinks context reader input = some slots) :
    (slots.map fun slot => value (.slotLink context reader input slot)).sum =
        value (.choice context reader) ∧
      ∀ slot ∈ slots, ∀ producers, (inputs.producers reader)[input]? = some producers →
        value (.slotLink context reader input slot) ≤
          (inputs.chosenSum context (producers.filter fun producer =>
            inputs.slot producer = slot)).eval value := by
  obtain ⟨listed, computes, producers, found, _⟩ := slotLinks_some links
  have rows : ∀ row ∈ (.eq (.sum (slots.map (.slotLink context reader input)))
      (.var (.choice context reader)) :: slots.map fun slot =>
        .le (.var (.slotLink context reader input slot)) (inputs.chosenSum context
          (producers.filter fun producer => inputs.slot producer = slot)) :
      List (Constraint (Variable n))), row.Holds value := by
    intro row member
    refine solution.slotLinkRow listed (List.mem_flatMap.mpr ⟨(producers, input), ?_, ?_⟩)
    · exact List.mem_zipIdx_iff_getElem?.mpr found
    · simpa only [links] using member
  have sum := rows _ List.mem_cons_self
  rw [Constraint.Holds, Expression.eval_sum, Expression.eval_var, List.map_map] at sum
  refine ⟨sum, fun slot member producers' found' => ?_⟩
  cases found.symm.trans found'
  have row := rows _ (List.mem_cons_of_mem _ (List.mem_map_of_mem member))
  rwa [Constraint.Holds, Expression.eval_var] at row

theorem slotReads_of_one {input : Nat} {slots : List ResultSlot} {slot : ResultSlot}
    (links : inputs.slotLinks context reader input = some slots) (member : slot ∈ slots)
    (one : value (.slotLink context reader input slot) = 1) :
    (inputs.chosenBy value).slotReads context reader input = some slot := by
  have binary : ∀ other ∈ slots, Binary (value (.slotLink context reader input other)) :=
    fun other _ => solution.integral.slotLink context reader input other
  have sum := (solution.slotLink_rows links).1
  have below : (slots.map fun slot => value (.slotLink context reader input slot)).sum ≤ 1 := by
    rw [sum]
    exact (solution.integral.choice context reader).le_one
  simp only [chosenBy, links]
  cases found : slots.find? fun slot =>
      decide (1 / 2 < value (.slotLink context reader input slot)) with
  | none =>
    have off := List.find?_eq_none.mp found slot member
    exact absurd (decide_eq_true ((half_lt_iff (binary slot member)).mpr one)) off
  | some other =>
    have otherMember := List.mem_of_find?_eq_some found
    have on := List.find?_some found
    rw [decide_eq_true_eq, half_lt_iff (binary other otherMember)] at on
    rw [one_of_sum_le binary below otherMember member on one]

theorem slot_chosen (here : reader ∈ (inputs.chosenBy value).chosen context) {input : Nat}
    {slots : List ResultSlot} (links : inputs.slotLinks context reader input = some slots)
    {producers : List (Fin n)} (found : (inputs.producers reader)[input]? = some producers) :
    ∃ slot ∈ slots, (inputs.chosenBy value).slotReads context reader input = some slot ∧
      ∃ producer ∈ producers, inputs.slot producer = slot ∧
        producer ∈ (inputs.chosenBy value).chosen context := by
  obtain ⟨_, used⟩ := (mem_chosen solution.integral).mp here
  obtain ⟨sum, given⟩ := solution.slotLink_rows links
  obtain ⟨slot, member, one⟩ := exists_one
    (fun other _ => solution.integral.slotLink context reader input other) (sum.trans used).ge
  have above := given slot member producers found
  rw [one] at above
  obtain ⟨producer, listed, chosen⟩ := chosen_of_sum solution.integral above
  obtain ⟨inside, same⟩ := List.mem_filter.mp listed
  exact ⟨slot, member, solution.slotReads_of_one links member one, producer, inside,
    of_decide_eq_true same, chosen⟩

theorem read_of_chosen (here : option ∈ (inputs.chosenBy value).chosen context) :
    (∃ read ∈ inputs.readers context option,
      0 < (inputs.readValue context option read).eval value) ∨
      ∃ other ∈ inputs.readersOfIngestion context, option ∈ (inputs.chosenBy value).chosen other := by
  obtain ⟨listed, one⟩ := (mem_chosen solution.integral).mp here
  have row := solution.usedRow listed
  have total : ∀ (reads : List (Reader n)) (start : Expression (Variable n)),
      (reads.foldl (fun sum read => sum + inputs.readValue context option read) start).eval value =
        start.eval value +
          (reads.map fun read => (inputs.readValue context option read).eval value).sum := by
    intro reads
    induction reads with
    | nil => simp
    | cons read reads ih =>
      intro start
      rw [List.foldl_cons, ih, Expression.eval_add, List.map_cons, List.sum_cons]
      ring
  unfold MilpInputs.usedRow at row
  simp only [Constraint.Holds, Expression.eval_var, Expression.eval_add, Expression.eval_sum, total,
    Expression.eval_const, one, zero_add] at row
  by_contra neither
  rw [not_or] at neither
  have noReads : ((inputs.readers context option).map fun read =>
      (inputs.readValue context option read).eval value).sum ≤ 0 := by
    refine (List.sum_le_card_nsmul _ 0 fun x member => ?_).trans_eq (nsmul_zero _)
    obtain ⟨read, reading, rfl⟩ := List.mem_map.mp member
    exact not_lt.mp fun positive => neither.1 ⟨read, reading, positive⟩
  have noViews : ∀ x ∈ (((inputs.readersOfIngestion context).filter fun other =>
      option ∈ inputs.options other).map fun other => Variable.choice other option).map value, x = 0 := by
    intro x member
    obtain ⟨v, inside, rfl⟩ := List.mem_map.mp member
    obtain ⟨other, view, rfl⟩ := List.mem_map.mp inside
    obtain ⟨reading, there⟩ := List.mem_filter.mp view
    refine (solution.integral.choice other option).resolve_right fun used => neither.2 ?_
    exact ⟨other, reading, (mem_chosen solution.integral).mpr ⟨of_decide_eq_true there, used⟩⟩
  rw [List.sum_eq_zero noViews] at row
  linarith

end Solution
end MilpInputs
end AsapPlanner.Milp
