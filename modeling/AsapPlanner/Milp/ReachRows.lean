import AsapPlanner.Milp.ReadersFirst
import AsapPlanner.Milp.Solution

/-!
What the reach rows count: the shareable candidates that a query's choices lead to.
-/

namespace AsapPlanner.Milp
open Relation Traversal

def withReach {n : Nat} (value : Variable n → ℚ) (reach : Nat → Fin n → ℚ)
    (through : Nat → Fin n → Fin n → ℚ) : Variable n → ℚ
  | .reach query shareable => reach query shareable
  | .through query shareable reader => through query shareable reader
  | v => value v

namespace MilpInputs
variable {n : Nat} {inputs : MilpInputs n} {queries : Nat} {constraints : List (ReaderConstraint n)}
  {value : Variable n → ℚ}

/-- The reach variables are within their bounds and meet row 6. -/
structure Completes (inputs : MilpInputs n) (queries : Nat) (constraints : List (ReaderConstraint n))
    (value : Variable n → ℚ) : Prop where
  reach : ∀ pair ∈ inputs.reachVariables queries,
    0 ≤ value (.reach pair.1 pair.2) ∧ value (.reach pair.1 pair.2) ≤ 1
  through : ∀ pair ∈ inputs.reachVariables queries,
    pair.2 ∈ inputs.shareablesNeedingExactReach constraints →
    ∀ reader ∈ inputs.reachReaders queries pair.1 pair.2,
      0 ≤ value (.through pair.1 pair.2 reader.1) ∧ value (.through pair.1 pair.2 reader.1) ≤ 1
  rows : ∀ row ∈ inputs.reachRows queries constraints, row.Holds value

/-! ### Choices that lead to a shareable candidate -/

/-- A query chooses a shareable candidate in its own context. -/
def Direct (inputs : MilpInputs n) (value : Variable n → ℚ) (queries query : Nat)
    (shareable : Fin n) : Prop :=
  query < queries ∧ shareable ∈ inputs.shareableOptions query ∧ value (.choice query shareable) = 1

/-- The context of a shareable candidate chooses another, and the query's options lead to both. -/
def Link (inputs : MilpInputs n) (value : Variable n → ℚ) (queries query : Nat)
    (reader shareable : Fin n) : Prop :=
  inputs.OptionsLead queries query reader ∧
    inputs.OptionsLead queries query shareable ∧
    reader ∈ inputs.sharedReaders shareable ∧
    ∃ context, inputs.contextOfShareable reader = some context ∧
      value (.choice context shareable) = 1

/-- Choices lead from the query to a candidate. -/
def Counted (inputs : MilpInputs n) (value : Variable n → ℚ) (queries query : Nat)
    (shareable : Fin n) : Prop :=
  ∃ start, inputs.Direct value queries query start ∧
    ReflTransGen (inputs.Link value queries query) start shareable

/-- Choices lead to a candidate from the query, or from a cycle of them. -/
def Supplied (inputs : MilpInputs n) (value : Variable n → ℚ) (queries query : Nat)
    (shareable : Fin n) : Prop :=
  inputs.Counted value queries query shareable ∨
    ∃ start, TransGen (inputs.Link value queries query) start start ∧
      ReflTransGen (inputs.Link value queries query) start shareable

theorem Counted.tail {query : Nat} {reader shareable : Fin n}
    (counted : inputs.Counted value queries query reader)
    (link : inputs.Link value queries query reader shareable) :
    inputs.Counted value queries query shareable := by
  obtain ⟨start, direct, path⟩ := counted
  exact ⟨start, direct, path.tail link⟩

theorem Supplied.tail {query : Nat} {reader shareable : Fin n}
    (supplied : inputs.Supplied value queries query reader)
    (link : inputs.Link value queries query reader shareable) :
    inputs.Supplied value queries query shareable := by
  rcases supplied with counted | ⟨start, cycle, path⟩
  · exact .inl (counted.tail link)
  · exact .inr ⟨start, cycle, path.tail link⟩

theorem Counted.source {query : Nat} {shareable : Fin n}
    (counted : inputs.Counted value queries query shareable) :
    inputs.Direct value queries query shareable ∨
      ∃ reader, inputs.Counted value queries query reader ∧
        inputs.Link value queries query reader shareable := by
  obtain ⟨start, direct, path⟩ := counted
  cases path with
  | refl => exact .inl direct
  | tail before link => exact .inr ⟨_, ⟨start, direct, before⟩, link⟩

theorem Supplied.source {query : Nat} {shareable : Fin n}
    (supplied : inputs.Supplied value queries query shareable) :
    inputs.Direct value queries query shareable ∨
      ∃ reader, inputs.Supplied value queries query reader ∧
        inputs.Link value queries query reader shareable := by
  rcases supplied with counted | ⟨start, cycle, path⟩
  · exact counted.source.imp_right fun ⟨reader, counted, link⟩ => ⟨reader, .inl counted, link⟩
  · right
    cases path with
    | refl =>
      obtain ⟨reader, before, link⟩ := TransGen.tail'_iff.mp cycle
      exact ⟨reader, .inr ⟨shareable, cycle, before⟩, link⟩
    | tail before link => exact ⟨_, .inr ⟨start, cycle, before⟩, link⟩

/-! ### The rows of one variable -/

theorem mem_reachReaders (formed : inputs.WellFormed) {query : Nat} {shareable reader : Fin n}
    {context : Nat} : (reader, context) ∈ inputs.reachReaders queries query shareable ↔
      reader ∈ inputs.sharedReaders shareable ∧
        inputs.OptionsLead queries query reader ∧
        inputs.contextOfShareable reader = some context := by
  unfold reachReaders
  simp only [List.mem_filterMap, ← mem_reachVariables_iff formed]
  constructor
  · rintro ⟨other, reads, some⟩
    split at some
    · next here =>
      obtain ⟨place, found, same⟩ := Option.map_eq_some_iff.mp some
      cases same
      exact ⟨reads, here, found⟩
    · cases some
  · rintro ⟨reads, here, found⟩
    exact ⟨reader, reads, by rw [if_pos here, found]; rfl⟩

theorem mem_exact_readers {shareable reader : Fin n}
    (needed : shareable ∈ inputs.shareablesNeedingExactReach constraints)
    (reads : reader ∈ inputs.sharedReaders shareable) :
    reader ∈ inputs.shareablesNeedingExactReach constraints :=
  inputs.readersGraph.mark_closed _ [] nofun _ needed _ reads

theorem holds_fromBelow {query : Nat} {shareable : Fin n} :
    (∀ row ∈ inputs.reachFromBelow queries query shareable, row.Holds value) ↔
      (shareable ∈ inputs.options query →
        value (.choice query shareable) ≤ value (.reach query shareable)) ∧
      ∀ reader context, (reader, context) ∈ inputs.reachReaders queries query shareable →
        value (.reach query reader) + value (.choice context shareable) - 1 ≤
          value (.reach query shareable) := by
  unfold reachFromBelow
  rw [List.forall_mem_append, List.forall_mem_map]
  refine and_congr ?_ ?_
  · split
    · next here => simp [here, Constraint.ge, Constraint.Holds]
    · next outside => simp [outside]
  · simp [Constraint.ge, Constraint.Holds]

theorem holds_fromAbove {query : Nat} {shareable : Fin n} :
    (∀ row ∈ inputs.reachFromAbove queries query shareable, row.Holds value) ↔
      (∀ reader context, (reader, context) ∈ inputs.reachReaders queries query shareable →
        value (.through query shareable reader) ≤ value (.reach query reader) ∧
        value (.through query shareable reader) ≤ value (.choice context shareable)) ∧
      value (.reach query shareable) ≤
        (if shareable ∈ inputs.options query then value (.choice query shareable) else 0) +
          (((inputs.reachReaders queries query shareable).map fun reader =>
            Variable.through query shareable reader.1).map value).sum := by
  unfold reachFromAbove
  rw [List.forall_mem_append]
  refine and_congr ?_ ?_
  · simp only [List.mem_flatMap, Prod.exists, forall_exists_index, and_imp]
    constructor
    · intro all reader context member
      have reach := all _ reader context member List.mem_cons_self
      have choice := all _ reader context member (List.mem_cons_of_mem _ List.mem_cons_self)
      simpa [Constraint.Holds] using And.intro reach choice
    · intro all row reader context member listed
      rcases List.mem_pair.mp listed with rfl | rfl
      · simpa [Constraint.Holds] using (all reader context member).1
      · simpa [Constraint.Holds] using (all reader context member).2
  · split <;> simp [Constraint.Holds]

/-! ### Completions -/

theorem Direct.lead {query : Nat} {shareable : Fin n}
    (direct : inputs.Direct value queries query shareable) :
    inputs.OptionsLead queries query shareable :=
  ⟨direct.1, .inl direct.2.1⟩

theorem Counted.lead {query : Nat} {shareable : Fin n}
    (counted : inputs.Counted value queries query shareable) :
    inputs.OptionsLead queries query shareable := by
  rcases counted.source with direct | ⟨_, _, link⟩
  · exact direct.lead
  · exact link.2.1

section
variable {completion : Variable n → ℚ} (formed : inputs.WellFormed)
  (completes : inputs.Completes queries constraints completion)
  (same : ∀ context option, completion (.choice context option) = value (.choice context option))
include formed completes same

theorem Completes.below {query : Nat} {shareable : Fin n}
    (here : inputs.OptionsLead queries query shareable) :
    (shareable ∈ inputs.options query →
        value (.choice query shareable) ≤ completion (.reach query shareable)) ∧
      ∀ reader, inputs.Link value queries query reader shareable →
        completion (.reach query reader) ≤ completion (.reach query shareable) := by
  have variable_here := (mem_reachVariables_iff formed).mpr here
  obtain ⟨direct, through⟩ := holds_fromBelow.mp fun row member => completes.rows row
    (List.mem_append_left _ (List.mem_flatMap.mpr ⟨_, variable_here, member⟩))
  refine ⟨fun listed => (same query shareable) ▸ direct listed, ?_⟩
  rintro reader ⟨announced, _, reads, context, place, one⟩
  have row := through reader context ((mem_reachReaders formed).mpr ⟨reads, announced, place⟩)
  rw [same, one] at row
  linarith

theorem Completes.counted {query : Nat} {shareable : Fin n}
    (counted : inputs.Counted value queries query shareable) :
    completion (.reach query shareable) = 1 := by
  have most := fun {other} (here : inputs.Counted value queries query other) =>
    (completes.reach _ ((mem_reachVariables_iff formed).mpr here.lead)).2
  obtain ⟨start, direct, path⟩ := counted
  induction path with
  | refl =>
    have row := (completes.below formed same direct.lead).1 (List.mem_of_mem_filter direct.2.1)
    rw [direct.2.2] at row
    exact le_antisymm (most ⟨start, direct, .refl⟩) row
  | tail before link ih =>
    have row := (completes.below formed same link.2.1).2 _ link
    rw [ih] at row
    exact le_antisymm (most ⟨start, direct, before.tail link⟩) row

theorem Completes.not_supplied (integral : Integral value) {query : Nat} {shareable : Fin n}
    (here : inputs.OptionsLead queries query shareable)
    (needed : shareable ∈ inputs.shareablesNeedingExactReach constraints)
    (unsupplied : ¬ inputs.Supplied value queries query shareable) :
    completion (.reach query shareable) = 0 := by
  -- Without a cycle above it, what leads to an unsupplied candidate has ranks.
  let up := fun reader other => inputs.Link value queries query reader other ∧
    ¬ inputs.Supplied value queries query other
  have acyclic : Acyclic up := by
    intro other cycle
    have supplied : inputs.Supplied value queries query other :=
      .inr ⟨other, TransGen.mono (fun _ _ step => step.1) _ _ cycle, .refl⟩
    obtain ⟨_, _, step⟩ := TransGen.tail'_iff.mp cycle
    exact step.2 supplied
  obtain ⟨rank, rises, _⟩ := acyclic.exists_ranks Finset.univ fun _ => ()
  induction level : rank shareable using Nat.strongRecOn generalizing shareable with
  | ind level ih =>
    have variable_here := (mem_reachVariables_iff formed).mpr here
    obtain ⟨through, above⟩ := holds_fromAbove.mp fun row member => completes.rows row
      (List.mem_append_right _ (List.mem_flatMap.mpr ⟨_, List.mem_filter.mpr
        ⟨variable_here, decide_eq_true needed⟩, member⟩))
    have none : (((inputs.reachReaders queries query shareable).map fun reader =>
        Variable.through query shareable reader.1).map completion).sum ≤ 0 := by
      refine (List.sum_le_card_nsmul _ 0 fun x member => ?_).trans_eq (nsmul_zero _)
      obtain ⟨_, column, rfl⟩ := List.mem_map.mp member
      obtain ⟨⟨reader, context⟩, listed, rfl⟩ := List.mem_map.mp column
      obtain ⟨reach, choice⟩ := through reader context listed
      obtain ⟨reads, announced, place⟩ := (mem_reachReaders formed).mp listed
      rw [same] at choice
      rcases integral.choice context shareable with zero | one
      · exact choice.trans_eq zero
      · have link : inputs.Link value queries query reader shareable :=
          ⟨announced, here, reads, context, place, one⟩
        have readerUnsupplied := fun supplied => unsupplied (Supplied.tail supplied link)
        have lower := rises reader (Finset.mem_univ _) shareable (Finset.mem_univ _) rfl
          ⟨link, unsupplied⟩
        have zero := ih _ (level ▸ lower) announced (mem_exact_readers needed reads)
          readerUnsupplied rfl
        exact reach.trans_eq zero
    have direct : (if shareable ∈ inputs.options query then
        completion (.choice query shareable) else 0) = 0 := by
      split
      · next listed =>
        rw [same]
        refine (integral.choice query shareable).resolve_right fun one => unsupplied (.inl ?_)
        exact ⟨shareable, ⟨here.1, List.mem_filter.mpr ⟨listed, decide_eq_true here.kind⟩, one⟩,
          .refl⟩
      · rfl
    have low := (completes.reach _ variable_here).1
    rw [direct] at above
    linarith

end

theorem exists_completion (formed : inputs.WellFormed) (integral : Integral value)
    (constraints : List (ReaderConstraint n)) (leads : Nat → Fin n → Prop)
    (direct : ∀ query shareable, inputs.Direct value queries query shareable → leads query shareable)
    (step : ∀ query reader shareable, leads query reader →
      inputs.Link value queries query reader shareable → leads query shareable)
    (source : ∀ query, ∀ shareable ∈ inputs.shareablesNeedingExactReach constraints,
      leads query shareable → inputs.Direct value queries query shareable ∨
        ∃ reader, leads query reader ∧ inputs.Link value queries query reader shareable) :
    ∃ reach through, inputs.Completes queries constraints (withReach value reach through) ∧
      ∀ query shareable, leads query shareable ∧ reach query shareable = 1 ∨
        ¬ leads query shareable ∧ reach query shareable = 0 := by
  classical
  let chosen := fun (reader shareable : Fin n) => ∃ context,
    inputs.contextOfShareable reader = some context ∧ value (.choice context shareable) = 1
  let reach : Nat → Fin n → ℚ := fun query shareable => if leads query shareable then 1 else 0
  let through : Nat → Fin n → Fin n → ℚ := fun query shareable reader =>
    if leads query reader ∧ chosen reader shareable then 1 else 0
  have cases : ∀ query shareable, leads query shareable ∧ reach query shareable = 1 ∨
      ¬ leads query shareable ∧ reach query shareable = 0 := by
    intro query shareable
    by_cases here : leads query shareable
    · exact .inl ⟨here, if_pos here⟩
    · exact .inr ⟨here, if_neg here⟩
  have reachBinary : ∀ query shareable, Binary (reach query shareable) := fun query shareable =>
    (cases query shareable).elim (fun one => .inr one.2) fun zero => .inl zero.2
  have throughBinary : ∀ query shareable reader, Binary (through query shareable reader) := by
    intro query shareable reader
    by_cases here : leads query reader ∧ chosen reader shareable
    · exact .inr (if_pos here)
    · exact .inl (if_neg here)
  refine ⟨reach, through, ⟨?_, ?_, ?_⟩, cases⟩
  · exact fun pair _ => ⟨(reachBinary pair.1 pair.2).nonneg, (reachBinary pair.1 pair.2).le_one⟩
  · exact fun pair _ _ reader _ => ⟨(throughBinary pair.1 pair.2 reader.1).nonneg,
      (throughBinary pair.1 pair.2 reader.1).le_one⟩
  · intro row member
    rcases List.mem_append.mp member with below | above
    · obtain ⟨⟨query, shareable⟩, here, member⟩ := List.mem_flatMap.mp below
      have announced := (mem_reachVariables_iff formed).mp here
      refine holds_fromBelow.mpr ⟨fun listed => ?_, fun reader context reading => ?_⟩ row member
      · show value (.choice query shareable) ≤ reach query shareable
        rcases integral.choice query shareable with zero | one
        · exact zero.trans_le (reachBinary query shareable).nonneg
        · have leading := direct query shareable ⟨announced.1,
            List.mem_filter.mpr ⟨listed, decide_eq_true announced.kind⟩, one⟩
          rcases cases query shareable with ⟨_, reached⟩ | ⟨not, _⟩
          · exact (one.trans reached.symm).le
          · exact absurd leading not
      · show reach query reader + value (.choice context shareable) - 1 ≤ reach query shareable
        obtain ⟨reads, readerAnnounced, place⟩ := (mem_reachReaders formed).mp reading
        rcases integral.choice context shareable with zero | one
        · have most := (reachBinary query reader).le_one
          have least := (reachBinary query shareable).nonneg
          linarith
        · rcases cases query reader with ⟨leading, _⟩ | ⟨_, zero⟩
          · have next := step query reader shareable leading
              ⟨readerAnnounced, announced, reads, context, place, one⟩
            rcases cases query shareable with ⟨_, reached⟩ | ⟨not, _⟩
            · have most := (reachBinary query reader).le_one
              linarith
            · exact absurd next not
          · have least := (reachBinary query shareable).nonneg
            linarith
    · obtain ⟨⟨query, shareable⟩, filtered, member⟩ := List.mem_flatMap.mp above
      obtain ⟨here, needed⟩ := List.mem_filter.mp filtered
      have announced := (mem_reachVariables_iff formed).mp here
      refine holds_fromAbove.mpr ⟨fun reader context reading => ?_, ?_⟩ row member
      · show through query shareable reader ≤ reach query reader ∧
          through query shareable reader ≤ value (.choice context shareable)
        obtain ⟨_, _, place⟩ := (mem_reachReaders formed).mp reading
        by_cases here : leads query reader ∧ chosen reader shareable
        · obtain ⟨leading, context', place', one⟩ := id here
          cases place.symm.trans place'
          rw [show through query shareable reader = 1 from if_pos here, one]
          exact ⟨((cases query reader).resolve_right fun not => not.1 leading).2.ge, le_refl _⟩
        · rw [show through query shareable reader = 0 from if_neg here]
          exact ⟨(reachBinary query reader).nonneg, (integral.choice context shareable).nonneg⟩
      · show reach query shareable ≤ _ + (List.map (withReach value reach through) _).sum
        have columns : ∀ v ∈ (inputs.reachReaders queries query shareable).map fun reader =>
            Variable.through query shareable reader.1, Binary (withReach value reach through v) := by
          intro v column
          obtain ⟨reader, _, rfl⟩ := List.mem_map.mp column
          exact throughBinary query shareable reader.1
        rcases cases query shareable with ⟨leading, one⟩ | ⟨_, zero⟩
        · rw [one]
          rcases source query shareable (of_decide_eq_true needed) leading with
            directly | ⟨reader, readerLeads, link⟩
          · rw [if_pos (List.mem_of_mem_filter directly.2.1)]
            have rest := sum_nonneg columns
            have own : withReach value reach through (.choice query shareable) = 1 := directly.2.2
            linarith
          · obtain ⟨readerAnnounced, _, reads, context, place, chosenHere⟩ := link
            have reading := (mem_reachReaders formed).mpr ⟨reads, readerAnnounced, place⟩
            have whole := le_sum columns (List.mem_map_of_mem reading)
            have own : withReach value reach through (.through query shareable reader) = 1 :=
              if_pos ⟨readerLeads, context, place, chosenHere⟩
            have least : 0 ≤ if shareable ∈ inputs.options query then
                withReach value reach through (.choice query shareable) else 0 := by
              split
              · exact (integral.choice query shareable).nonneg
              · exact le_refl _
            linarith
        · rw [zero]
          have least : 0 ≤ if shareable ∈ inputs.options query then
              withReach value reach through (.choice query shareable) else 0 := by
            split
            · exact (integral.choice query shareable).nonneg
            · exact le_refl _
          have rest := sum_nonneg columns
          linarith

end MilpInputs
end AsapPlanner.Milp
