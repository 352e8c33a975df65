import AsapPlanner.Milp.Accuracy
import AsapPlanner.Milp.Plans
import AsapPlanner.Milp.ReachExact

/-!
Row 8 of a query can be met exactly when no approximate run of a pipeline is chosen and the approximate runs
it counts meet the query's accuracy.
-/

namespace AsapPlanner.Milp
open Relation Rust

/-! ### Counting by variables -/

section
variable {V A : Type} [DecidableEq A] {value : V → ℚ} {entries : List (A × V)} {counts : A → Prop}

theorem card_le_sum (nonneg : ∀ entry ∈ entries, 0 ≤ value entry.2)
    (one : ∀ entry ∈ entries, counts entry.1 → 1 ≤ value entry.2) {together : Finset A}
    (each : ∀ a ∈ together, counts a ∧ ∃ entry ∈ entries, entry.1 = a) :
    (together.card : ℚ) ≤ ((entries.map Prod.snd).map value).sum := by
  induction entries generalizing together with
  | nil =>
    have none : together = ∅ := by
      refine Finset.eq_empty_of_forall_notMem fun a here => ?_
      obtain ⟨_, _, impossible, _⟩ := each a here
      cases impossible
    simp [none]
  | cons entry entries ih =>
    have later : ∀ a ∈ together.erase entry.1, counts a ∧ ∃ other ∈ entries, other.1 = a := by
      intro a here
      obtain ⟨apart, inside⟩ := Finset.mem_erase.mp here
      obtain ⟨counted, other, listed, rfl⟩ := each a inside
      refine ⟨counted, other, (List.mem_cons.mp listed).resolve_left ?_, rfl⟩
      rintro rfl
      exact apart rfl
    have rest := ih (fun other here => nonneg other (List.mem_cons_of_mem _ here))
      (fun other here => one other (List.mem_cons_of_mem _ here)) later
    simp only [List.map_cons, List.sum_cons]
    by_cases inside : entry.1 ∈ together
    · have here := one entry List.mem_cons_self (each _ inside).1
      have card : (together.card : ℚ) = (together.erase entry.1).card + 1 := by
        exact_mod_cast (Finset.card_erase_add_one inside).symm
      linarith
    · rw [Finset.erase_eq_of_notMem inside] at rest
      have here := nonneg entry List.mem_cons_self
      linarith

open Classical in
theorem exists_card_eq_sum (distinct : (entries.map Prod.fst).Nodup)
    (indicator : ∀ entry ∈ entries, value entry.2 = if counts entry.1 then 1 else 0) :
    ∃ together : Finset A, (∀ a ∈ together, counts a ∧ ∃ entry ∈ entries, entry.1 = a) ∧
      ((entries.map Prod.snd).map value).sum = together.card := by
  induction entries with
  | nil => exact ⟨∅, by simp⟩
  | cons entry entries ih =>
    obtain ⟨fresh, distinct⟩ := List.nodup_cons.mp distinct
    obtain ⟨together, each, sum⟩ := ih distinct fun other here => indicator other (List.mem_cons_of_mem _ here)
    have later : ∀ a ∈ together, counts a ∧ ∃ other ∈ entry :: entries, other.1 = a := fun a here =>
      (each a here).imp_right fun ⟨other, listed, same⟩ => ⟨other, List.mem_cons_of_mem _ listed, same⟩
    have first := indicator entry List.mem_cons_self
    simp only [List.map_cons, List.sum_cons, sum, first]
    by_cases counted : counts entry.1
    · refine ⟨insert entry.1 together, fun a here => ?_, ?_⟩
      · rcases Finset.mem_insert.mp here with rfl | inside
        · exact ⟨counted, entry, List.mem_cons_self, rfl⟩
        · exact later a inside
      · have apart : entry.1 ∉ together := fun inside => by
          obtain ⟨_, other, listed, same⟩ := each _ inside
          exact fresh (same ▸ List.mem_map_of_mem listed)
        rw [if_pos counted, Finset.card_insert_of_notMem apart, Nat.cast_succ, add_comm]
    · exact ⟨together, later, by rw [if_neg counted, zero_add]⟩

end

namespace MilpInputs
variable {n : Nat} {inputs : MilpInputs n} {accuracy : AccuracyInputs n} {queries query : Nat}
  {value : Variable n → ℚ}

/-! ### The runs -/

/-- A context of a shareable candidate is where its own run reads. -/
def ContextsOwned (inputs : MilpInputs n) : Prop :=
  ∀ context own, (inputs.context context).kind = .shared own →
    inputs.kind own = .shareable ∧ inputs.contextOfShareable own = some context

theorem mem_runs {run : Nat × Fin n} : run ∈ inputs.runs ↔ run.1 < inputs.contexts.length ∧
    (run.2 ∈ inputs.options run.1 ∧ inputs.computes run.1 run.2 = true ∨
      (inputs.context run.1).kind = .shared run.2 ∧ (inputs.contextOfShareable run.2).isSome) := by
  obtain ⟨context, candidate⟩ := run
  simp only [runs, List.mem_flatMap, List.mem_range, List.mem_append, List.mem_map, List.mem_filter,
    mem_ascending, Prod.mk.injEq]
  constructor
  · rintro ⟨other, inside, ⟨_, computed, rfl, rfl⟩ | own⟩
    · exact ⟨inside, .inl computed⟩
    · split at own
      · next shareable kind =>
        split at own
        · next known =>
          cases List.mem_singleton.mp own
          exact ⟨inside, .inr ⟨kind, known⟩⟩
        · cases own
      · cases own
  · rintro ⟨inside, computed | ⟨kind, known⟩⟩
    · exact ⟨context, inside, .inl ⟨candidate, computed, rfl, rfl⟩⟩
    · refine ⟨context, inside, .inr ?_⟩
      simp [kind, known]

theorem computes_shareable {context : Nat} {candidate : Fin n} (kind : inputs.kind candidate = .shareable) :
    inputs.computes context candidate = false := by
  rw [MilpInputs.computes, kind]
  rfl

theorem context_of_run {context : Nat} {run : Nat × Fin n}
    (member : run ∈ ((ascending (inputs.options context)).filter (inputs.computes context)).map (context, ·) ++
      match (inputs.context context).kind with
      | .shared own => if (inputs.contextOfShareable own).isSome then [(context, own)] else []
      | _ => []) : run.1 = context := by
  rcases List.mem_append.mp member with computed | own
  · obtain ⟨_, _, rfl⟩ := List.mem_map.mp computed
    rfl
  · split at own
    · split at own
      · rw [List.mem_singleton.mp own]
      · cases own
    · cases own

theorem runs_nodup (owned : inputs.ContextsOwned) : inputs.runs.Nodup := by
  refine List.nodup_flatMap.mpr ⟨fun context _ => ?_, ?_⟩
  · refine List.nodup_append.mpr ⟨?_, ?_, ?_⟩
    · exact ((ascending_nodup _).filter _).map fun _ _ same => (Prod.mk.inj same).2
    · split
      · split
        · exact List.nodup_singleton _
        · exact List.nodup_nil
      · exact List.nodup_nil
    · intro run computed other own
      obtain ⟨candidate, listed, rfl⟩ := List.mem_map.mp computed
      split at own
      · next shareable kind =>
        split at own
        · rw [List.mem_singleton.mp own]
          rintro same
          cases same
          have notComputed : inputs.computes context candidate = false :=
            computes_shareable (owned context candidate kind).1
          rw [(List.mem_filter.mp listed).2] at notComputed
          cases notComputed
        · cases own
      · cases own
  · exact List.nodup_range.imp fun differ run first second =>
      differ ((context_of_run first).symm.trans (context_of_run second))

/-! ### What stands for a dependence -/

theorem mem_weightedRuns {run : Nat × Fin n} : run ∈ inputs.weightedRuns accuracy query ↔
    run ∈ inputs.runs ∧ accuracy.weighted query run.2 = true :=
  List.mem_filter

theorem mem_counted {entry : (Nat × Fin n) × AccuracyVariable n} :
    entry ∈ inputs.counted accuracy queries query ↔ entry.1 ∈ inputs.weightedRuns accuracy query ∧
      accuracy.usable query entry.1.2 = true ∧ inputs.dep queries query entry.1 = some entry.2 := by
  obtain ⟨run, v⟩ := entry
  simp only [counted, List.mem_filterMap, Option.ite_none_right_eq_some, Option.map_eq_some_iff, Prod.mk.injEq]
  constructor
  · rintro ⟨_, listed, usable, _, found, rfl, rfl⟩
    exact ⟨listed, usable, found⟩
  · rintro ⟨listed, usable, found⟩
    exact ⟨run, listed, usable, v, found, rfl, rfl⟩

theorem counted_nodup (owned : inputs.ContextsOwned) :
    ((inputs.counted accuracy queries query).map Prod.fst).Nodup := by
  refine List.Nodup.sublist ?_ ((runs_nodup owned).filter fun run => accuracy.weighted query run.2)
  unfold counted weightedRuns
  generalize inputs.runs.filter _ = runs
  induction runs with
  | nil => exact .slnil
  | cons run runs ih =>
    rw [List.filterMap_cons]
    split
    · exact ih.cons run
    · next entry found =>
      split at found
      · obtain ⟨v, _, rfl⟩ := Option.map_eq_some_iff.mp found
        exact ih.cons_cons run
      · cases found

theorem Counts.dep {run : Nat × Fin n} (exact : inputs.ReachExact queries value)
    (counts : inputs.Counts query value run) : ∃ v, inputs.dep queries query run = some v := by
  unfold MilpInputs.Counts at counts
  unfold MilpInputs.dep
  split at counts
  · exact ⟨_, if_pos counts.1⟩
  · rw [if_pos (exact.announced query _ counts.1)]
    split
    · exact ⟨_, rfl⟩
    · exact ⟨_, rfl⟩
  · exact counts.elim

theorem dep_bounds {run : Nat × Fin n} {auxiliary : AccuracyVariable n → ℚ} {v : AccuracyVariable n}
    (integral : Integral value) (exact : inputs.ReachExact queries value)
    (dependsOn : 0 ≤ auxiliary (.dependsOn query run.1 run.2))
    (rows : ∀ row ∈ inputs.depRows queries query run, row.Holds (withAccuracy value auxiliary))
    (found : inputs.dep queries query run = some v) :
    0 ≤ withAccuracy value auxiliary v ∧
      (inputs.Counts query value run → 1 ≤ withAccuracy value auxiliary v) := by
  unfold dep at found
  unfold depRows at rows
  unfold Counts
  split at found
  · next other kind =>
    split at found
    · cases found
      exact ⟨(integral.choice ..).nonneg, fun counts => counts.2.ge⟩
    · cases found
  · next own kind =>
    rw [kind] at rows
    split at found
    · next announced =>
      split at found
      · next same =>
        cases found
        subst same
        rcases exact.reach _ announced with ⟨_, one⟩ | ⟨apart, zero⟩
        · have above : 1 ≤ withAccuracy value auxiliary (.model (.reach query run.2)) := one.ge
          exact ⟨zero_le_one.trans above, fun _ => above⟩
        · exact ⟨zero.ge, fun counts => absurd counts.1 apart⟩
      · next differ =>
        cases found
        refine ⟨dependsOn, fun ⟨below, chosen⟩ => ?_⟩
        dsimp only at rows
        rw [if_pos ⟨differ, announced⟩] at rows
        have row := rows _ (List.mem_singleton_self _)
        have reach : value (.reach query own) = 1 := by
          rcases exact.reach _ announced with ⟨_, one⟩ | ⟨apart, _⟩
          · exact one
          · exact absurd below apart
        have choice := chosen.resolve_left differ
        simp only [Constraint.ge, Constraint.Holds, Expression.eval_sub, Expression.eval_add,
          Expression.eval_var, Expression.eval_const, withAccuracy, reach, choice] at row
        show 1 ≤ auxiliary _
        linarith
    · cases found
  · cases found

theorem card_le_most (solution : inputs.Solution value) {together : Finset (Nat × Fin n)}
    (each : ∀ run ∈ together, inputs.Counts query value run ∧
      ∃ entry ∈ inputs.counted accuracy queries query, entry.1 = run) :
    together.card ≤ inputs.most accuracy queries query := by
  unfold most
  rw [← List.card_toFinset]
  refine Finset.card_le_card_of_injOn inputs.place (fun run here => ?_) fun one first other second same => ?_
  · obtain ⟨_, entry, listed, rfl⟩ := each run here
    exact List.mem_toFinset.mpr (List.mem_map_of_mem listed)
  · have chosen : ∀ run ∈ together, ∀ slot, (inputs.place run).2 = some slot →
        inputs.slot run.2 = slot ∧ run.2 ∈ (inputs.chosenBy value).chosen run.1 := by
      intro run here slot found
      obtain ⟨counts, entry, listed, rfl⟩ := each run here
      obtain ⟨_, computed | ⟨kind, _⟩⟩ := mem_runs.mp (mem_weightedRuns.mp (mem_counted.mp listed).1).1
      · unfold Counts at counts
        unfold place at found
        rw [mem_chosen solution.integral]
        split at counts
        · next kind =>
          rw [kind] at found
          exact ⟨Option.some.inj found, computed.1, counts.2⟩
        · next kind =>
          rw [kind] at found
          dsimp only at found
          split at found
          · cases found
          · next differ => exact ⟨Option.some.inj found, computed.1, counts.2.resolve_left differ⟩
        · exact counts.elim
      · rw [place, kind] at found
        simp at found
    have own : ∀ run, (inputs.place run).2 = none → (inputs.context run.1).kind = .shared run.2 := by
      intro run found
      unfold place at found
      split at found
      · next kind =>
        split at found
        · next same => rw [kind, same]
        · cases found
      · cases found
    have context : ∀ run, (inputs.place run).1 = run.1 := by
      intro run
      unfold place
      split
      · split <;> rfl
      · rfl
    have here : one.1 = other.1 := by rw [← context one, ← context other, same]
    refine Prod.ext here ?_
    cases slot : (inputs.place one).2 with
    | none =>
      have oneOwn := own one slot
      have otherOwn := own other (same ▸ slot)
      rw [here, otherOwn] at oneOwn
      exact (ContextKind.shared.inj oneOwn).symm
    | some slot' =>
      obtain ⟨oneSlot, oneChosen⟩ := chosen one first slot' slot
      obtain ⟨otherSlot, otherChosen⟩ := chosen other second slot' (same ▸ slot)
      rw [here] at oneChosen
      exact solution.slot_unique oneChosen otherChosen (oneSlot.trans otherSlot.symm)

/-! ### Meeting the rows -/

open Classical in
noncomputable def accuracyValues (inputs : MilpInputs n) (accuracy : AccuracyInputs n) (queries query : Nat)
    (value : Variable n → ℚ) : AccuracyVariable n → ℚ
  | .model v => value v
  | .dependsOn _ context candidate => if inputs.Counts query value (context, candidate) then 1 else 0
  | .shares _ => ((inputs.counted accuracy queries query).map fun entry =>
      if inputs.Counts query value entry.1 then (1 : ℚ) else 0).sum
  | .reads _ parts => if ∃ entry ∈ inputs.counted accuracy queries query,
      accuracy.accuracyBudgetParts entry.1.2 = parts ∧ inputs.Counts query value entry.1 then 1 else 0

open Classical in
theorem dep_indicator {run : Nat × Fin n} {v : AccuracyVariable n} (integral : Integral value)
    (exact : inputs.ReachExact queries value) (found : inputs.dep queries query run = some v) :
    withAccuracy value (inputs.accuracyValues accuracy queries query value) v =
      if inputs.Counts query value run then 1 else 0 := by
  unfold dep at found
  split at found
  · next other kind =>
    split at found
    · next same =>
      cases found
      have counts : inputs.Counts query value run ↔ value (.choice run.1 run.2) = 1 := by
        simp only [Counts, kind, same, true_and]
      rw [if_congr counts rfl rfl]
      show value _ = _
      rcases integral.choice run.1 run.2 with zero | one
      · rw [zero, if_neg zero_ne_one]
      · rw [one, if_pos rfl]
    · cases found
  · next own kind =>
    split at found
    · next announced =>
      split at found
      · next same =>
        cases found
        have counts : inputs.Counts query value run ↔
            inputs.RunOfQuery (inputs.chosenBy value) query (.shared own) := by
          simp only [Counts, kind, same, true_or, and_true]
        rw [if_congr counts rfl rfl, ← same]
        rcases exact.reach _ announced with ⟨below, one⟩ | ⟨apart, zero⟩
        · rw [if_pos below]
          exact one
        · rw [if_neg apart]
          exact zero
      · cases found
        rfl
    · cases found
  · cases found

/-- No approximate run of a pipeline is chosen. -/
def PipelinesExact (inputs : MilpInputs n) (accuracy : AccuracyInputs n) (query : Nat) (value : Variable n → ℚ) :
    Prop :=
  ∀ run ∈ inputs.weightedRuns accuracy query, ∀ pipeline,
    (inputs.context run.1).kind = .ingestion pipeline → value (.choice run.1 run.2) = 0

variable {auxiliary : AccuracyVariable n → ℚ}

namespace MeetsAccuracy
variable (meets : inputs.MeetsAccuracy accuracy queries query (withAccuracy value auxiliary))
include meets

theorem depRows {run : Nat × Fin n} (listed : run ∈ inputs.weightedRuns accuracy query) :
    ∀ row ∈ inputs.depRows queries query run, row.Holds (withAccuracy value auxiliary) :=
  fun row member => meets.rows row (List.mem_append_left _ (List.mem_append_left _
    (List.mem_flatMap.mpr ⟨run, listed, List.mem_append_left _ member⟩)))

theorem pipelinesExact (integral : Integral value) : inputs.PipelinesExact accuracy query value := by
  intro run listed pipeline kind
  have rows := meets.depRows listed
  unfold MilpInputs.depRows at rows
  rw [kind] at rows
  have row := rows _ (List.mem_singleton_self _)
  simp only [Constraint.Holds, Expression.eval_var, Expression.eval_const, withAccuracy] at row
  exact le_antisymm row (integral.choice ..).nonneg

theorem bounds (integral : Integral value) (exact : inputs.ReachExact queries value) {run : Nat × Fin n}
    {v : AccuracyVariable n} (listed : run ∈ inputs.weightedRuns accuracy query)
    (found : inputs.dep queries query run = some v) :
    0 ≤ withAccuracy value auxiliary v ∧
      (inputs.Counts query value run → 1 ≤ withAccuracy value auxiliary v) :=
  dep_bounds integral exact (meets.dependsOn ..).1 (meets.depRows listed) found

theorem usable (integral : Integral value) (exact : inputs.ReachExact queries value) {run : Nat × Fin n}
    (listed : run ∈ inputs.weightedRuns accuracy query) (counts : inputs.Counts query value run) :
    accuracy.usable query run.2 = true := by
  by_contra unusable
  obtain ⟨v, found⟩ := counts.dep exact
  have row := meets.rows (.le (.var v) (.const 0)) (by
    refine List.mem_append_left _ (List.mem_append_left _ (List.mem_flatMap.mpr ⟨run, listed, ?_⟩))
    refine List.mem_append_right _ ?_
    simp [unusableRows, found, unusable])
  simp only [Constraint.Holds, Expression.eval_var, Expression.eval_const] at row
  have above := (meets.bounds integral exact listed found).2 counts
  linarith

theorem entry (integral : Integral value) (exact : inputs.ReachExact queries value) {run : Nat × Fin n}
    (listed : run ∈ inputs.weightedRuns accuracy query) (counts : inputs.Counts query value run) :
    ∃ entry ∈ inputs.counted accuracy queries query, entry.1 = run := by
  obtain ⟨v, found⟩ := counts.dep exact
  exact ⟨(run, v), mem_counted.mpr ⟨listed, meets.usable integral exact listed counts, found⟩, rfl⟩

theorem pairs (integral : Integral value) (exact : inputs.ReachExact queries value) {pair : Fin n × Fin n}
    (excluded : pair ∈ accuracy.accuracyExcludedPairs query) {one other : Nat × Fin n}
    (first : one ∈ inputs.weightedRuns accuracy query) (second : other ∈ inputs.weightedRuns accuracy query)
    (isFirst : one.2 = pair.1) (isSecond : other.2 = pair.2) :
    ¬ (inputs.Counts query value one ∧ inputs.Counts query value other) := by
  rintro ⟨oneCounts, otherCounts⟩
  obtain ⟨⟨one, v⟩, oneListed, rfl⟩ := meets.entry integral exact first oneCounts
  obtain ⟨⟨other, u⟩, otherListed, rfl⟩ := meets.entry integral exact second otherCounts
  have row := meets.rows (.le (.var v + .var u) (.const 1)) (by
    refine List.mem_append_left _ (List.mem_append_right _ (List.mem_flatMap.mpr ⟨pair, excluded, ?_⟩))
    refine List.mem_flatMap.mpr ⟨_, List.mem_filter.mpr ⟨oneListed, decide_eq_true isFirst⟩, ?_⟩
    exact List.mem_map.mpr ⟨_, List.mem_filter.mpr ⟨otherListed, decide_eq_true isSecond⟩, rfl⟩)
  simp only [Constraint.Holds, Expression.eval_add, Expression.eval_var, Expression.eval_const] at row
  have oneAbove := (meets.bounds integral exact first (mem_counted.mp oneListed).2.2).2 oneCounts
  have otherAbove := (meets.bounds integral exact second (mem_counted.mp otherListed).2.2).2 otherCounts
  linarith

theorem shareRows {run : (Nat × Fin n) × AccuracyVariable n}
    (listed : run ∈ inputs.counted accuracy queries query)
    (few : accuracy.accuracyBudgetParts run.1.2 < inputs.most accuracy queries query) :
    (Constraint.eq (.var (.shares query))
        (.sum ((inputs.counted accuracy queries query).map Prod.snd))).Holds (withAccuracy value auxiliary) ∧
      ∀ row ∈ inputs.partsRows accuracy queries query (accuracy.accuracyBudgetParts run.1.2),
        row.Holds (withAccuracy value auxiliary) := by
  have some : ¬ (inputs.counted accuracy queries query).all (fun entry =>
      inputs.most accuracy queries query ≤ accuracy.accuracyBudgetParts entry.1.2) = true := by
    intro all
    exact Nat.not_le.mpr few (of_decide_eq_true (List.all_eq_true.mp all run listed))
  have rows := fun row member => meets.rows row (List.mem_append_right _ member)
  unfold MilpInputs.shareRows at rows
  simp only [if_neg some] at rows
  refine ⟨rows _ List.mem_cons_self, fun row member => rows row (List.mem_cons_of_mem _ ?_)⟩
  refine List.mem_flatMap.mpr ⟨_, ?_, member⟩
  rw [partsBelow, (List.perm_insertionSort _ _).mem_iff, List.mem_dedup, List.mem_filter]
  exact ⟨List.mem_map_of_mem listed, decide_eq_true few⟩

theorem parts (solution : inputs.Solution value) (exact : inputs.ReachExact queries value) {run : Nat × Fin n}
    (listed : run ∈ inputs.weightedRuns accuracy query) (counts : inputs.Counts query value run)
    {together : Finset (Nat × Fin n)}
    (each : ∀ other ∈ together,
      other ∈ inputs.weightedRuns accuracy query ∧ inputs.Counts query value other) :
    together.card ≤ accuracy.accuracyBudgetParts run.2 := by
  have entries : ∀ other ∈ together, inputs.Counts query value other ∧
      ∃ entry ∈ inputs.counted accuracy queries query, entry.1 = other := fun other here =>
    ⟨(each other here).2, meets.entry solution.integral exact (each other here).1 (each other here).2⟩
  rcases Nat.lt_or_ge (accuracy.accuracyBudgetParts run.2) (inputs.most accuracy queries query) with few | many
  · obtain ⟨⟨run, v⟩, member, rfl⟩ := meets.entry solution.integral exact listed counts
    obtain ⟨shares, rows⟩ := meets.shareRows member few
    have reads := rows (.ge (.var (.reads query _)) (.var v)) (List.mem_append_left _
      (List.mem_map.mpr ⟨_, List.mem_filter.mpr ⟨member, decide_eq_true rfl⟩, rfl⟩))
    have below := rows _ (List.mem_append_right _ (List.mem_singleton_self _))
    have above := (meets.bounds solution.integral exact listed (mem_counted.mp member).2.2).2 counts
    have atMost := (meets.reads (accuracy.accuracyBudgetParts run.2)).2
    simp only [Constraint.ge, Constraint.Holds, Expression.eval_var, Expression.eval_sum, Expression.eval_add,
      Expression.eval_sub, Expression.eval_scale, Expression.eval_const] at shares reads below
    have one : withAccuracy value auxiliary (.reads query (accuracy.accuracyBudgetParts run.2)) = 1 :=
      le_antisymm atMost (above.trans reads)
    rw [one, sub_self, mul_zero, add_zero, shares] at below
    have bounded : ∀ entry ∈ inputs.counted accuracy queries query,
        0 ≤ withAccuracy value auxiliary entry.2 ∧
          (inputs.Counts query value entry.1 → 1 ≤ withAccuracy value auxiliary entry.2) := by
      intro entry here
      obtain ⟨entryListed, _, found⟩ := mem_counted.mp here
      exact meets.bounds solution.integral exact entryListed found
    have counted := card_le_sum (fun entry here => (bounded entry here).1)
      (fun entry here => (bounded entry here).2) entries
    exact_mod_cast counted.trans below
  · exact (card_le_most solution entries).trans many

end MeetsAccuracy

/-! ### The values meet the rows -/

section
variable (solution : inputs.Solution value) (exact : inputs.ReachExact queries value)
  (met : inputs.AccuracyMet accuracy query (inputs.Counts query value))

theorem withAccuracy_values : withAccuracy value (inputs.accuracyValues accuracy queries query value) =
    inputs.accuracyValues accuracy queries query value := by
  funext v
  cases v <;> rfl

theorem indicator_bounds {p : Prop} {_ : Decidable p} :
    (0 : ℚ) ≤ (if p then 1 else 0) ∧ (if p then (1 : ℚ) else 0) ≤ 1 := by
  split <;> norm_num

include solution exact

theorem depRows_met (pipelines : inputs.PipelinesExact accuracy query value) {run : Nat × Fin n}
    (listed : run ∈ inputs.weightedRuns accuracy query) {row : Constraint (AccuracyVariable n)}
    (member : row ∈ inputs.depRows queries query run) :
    row.Holds (inputs.accuracyValues accuracy queries query value) := by
  unfold depRows at member
  split at member
  · cases member
  · next own kind =>
    split at member
    · next here =>
      rw [List.mem_singleton.mp member]
      simp only [Constraint.ge, Constraint.Holds, Expression.eval_sub, Expression.eval_add,
        Expression.eval_var, Expression.eval_const, accuracyValues]
      have choice := (solution.integral.choice run.1 run.2).le_one
      by_cases counts : inputs.Counts query value (run.1, run.2)
      · rw [if_pos counts]
        have reach : value (.reach query own) ≤ 1 := by
          rcases exact.reach _ here.2 with ⟨_, one⟩ | ⟨_, zero⟩
          · exact one.le
          · exact zero.le.trans zero_le_one
        linarith
      · rw [if_neg counts]
        rcases exact.reach _ here.2 with ⟨below, one⟩ | ⟨_, zero⟩
        · rcases solution.integral.choice run.1 run.2 with none | chosen
          · dsimp only at one
            linarith
          · exact absurd (by simp only [Counts, kind, below, chosen, or_true, and_self]) counts
        · dsimp only at zero
          linarith
    · cases member
  · next pipeline kind =>
    rw [List.mem_singleton.mp member]
    simp only [Constraint.Holds, Expression.eval_var, Expression.eval_const, accuracyValues]
    exact (pipelines run listed pipeline kind).le

open Classical in
theorem values_indicate {run : Nat × Fin n} {v : AccuracyVariable n}
    (found : inputs.dep queries query run = some v) :
    inputs.accuracyValues accuracy queries query value v = if inputs.Counts query value run then 1 else 0 := by
  rw [← withAccuracy_values]
  exact dep_indicator solution.integral exact found

theorem values_shares : inputs.accuracyValues accuracy queries query value (.shares query) =
    (((inputs.counted accuracy queries query).map Prod.snd).map
      (inputs.accuracyValues accuracy queries query value)).sum := by
  rw [List.map_map]
  refine congrArg List.sum (List.map_congr_left fun entry here => ?_)
  exact (values_indicate solution exact (mem_counted.mp here).2.2).symm

include met

theorem unusableRows_met {run : Nat × Fin n} (listed : run ∈ inputs.weightedRuns accuracy query)
    {row : Constraint (AccuracyVariable n)} (member : row ∈ inputs.unusableRows accuracy queries query run) :
    row.Holds (inputs.accuracyValues accuracy queries query value) := by
  unfold unusableRows at member
  split at member
  · next v found =>
    split at member
    · cases member
    · next unusable =>
      rw [List.mem_singleton.mp member]
      simp only [Constraint.Holds, Expression.eval_var, Expression.eval_const]
      rw [values_indicate solution exact found, if_neg fun counts => unusable (met.usable run listed counts)]
  · cases member

theorem pairRows_met {row : Constraint (AccuracyVariable n)}
    (member : row ∈ inputs.pairRows accuracy queries query) :
    row.Holds (inputs.accuracyValues accuracy queries query value) := by
  obtain ⟨pair, excluded, member⟩ := List.mem_flatMap.mp member
  obtain ⟨one, first, member⟩ := List.mem_flatMap.mp member
  obtain ⟨other, second, rfl⟩ := List.mem_map.mp member
  obtain ⟨oneHere, isFirst⟩ := List.mem_filter.mp first
  obtain ⟨otherHere, isSecond⟩ := List.mem_filter.mp second
  obtain ⟨oneListed, _, oneFound⟩ := mem_counted.mp oneHere
  obtain ⟨otherListed, _, otherFound⟩ := mem_counted.mp otherHere
  have apart := met.pairs pair excluded _ oneListed _ otherListed (of_decide_eq_true isFirst)
    (of_decide_eq_true isSecond)
  simp only [Constraint.Holds, Expression.eval_add, Expression.eval_var, Expression.eval_const]
  rw [values_indicate solution exact oneFound, values_indicate solution exact otherFound]
  by_cases oneCounts : inputs.Counts query value one.1
  · have otherCounts : ¬ inputs.Counts query value other.1 := fun counts => apart ⟨oneCounts, counts⟩
    rw [if_pos oneCounts, if_neg otherCounts, add_zero]
  · rw [if_neg oneCounts, zero_add]
    exact indicator_bounds.2

theorem partsRows_met (owned : inputs.ContextsOwned) {parts : Nat}
    (few : parts < inputs.most accuracy queries query) {row : Constraint (AccuracyVariable n)}
    (member : row ∈ inputs.partsRows accuracy queries query parts) :
    row.Holds (inputs.accuracyValues accuracy queries query value) := by
  classical
  rcases List.mem_append.mp member with read | shares
  · obtain ⟨entry, here, rfl⟩ := List.mem_map.mp read
    obtain ⟨listed, same⟩ := List.mem_filter.mp here
    simp only [Constraint.ge, Constraint.Holds, Expression.eval_var]
    rw [values_indicate solution exact (mem_counted.mp listed).2.2]
    split
    · next counts =>
      simp only [accuracyValues]
      rw [if_pos ⟨entry, listed, of_decide_eq_true same, counts⟩]
    · exact indicator_bounds.1
  · have indicator : ∀ entry ∈ inputs.counted accuracy queries query,
        inputs.accuracyValues accuracy queries query value entry.2 =
          if inputs.Counts query value entry.1 then 1 else 0 :=
      fun entry here => values_indicate solution exact (mem_counted.mp here).2.2
    obtain ⟨together, each, sum⟩ := exists_card_eq_sum (counted_nodup owned) indicator
    have counted : inputs.accuracyValues accuracy queries query value (.shares query) = together.card :=
      (values_shares solution exact).trans sum
    rw [List.mem_singleton.mp shares]
    simp only [Constraint.Holds, Expression.eval_var, Expression.eval_add, Expression.eval_sub,
      Expression.eval_scale, Expression.eval_const]
    rw [counted]
    simp only [accuracyValues]
    split
    · next reads =>
      obtain ⟨entry, listed, rfl, counts⟩ := reads
      have below := met.parts entry.1 (mem_counted.mp listed).1 counts together fun other here => by
        obtain ⟨otherCounts, otherEntry, otherListed, rfl⟩ := each other here
        exact ⟨(mem_counted.mp otherListed).1, otherCounts⟩
      rw [sub_self, mul_zero, add_zero]
      exact_mod_cast below
    · have below := card_le_most solution each
      rw [sub_zero, mul_one, add_sub_cancel]
      exact_mod_cast below

theorem shareRows_met (owned : inputs.ContextsOwned) {row : Constraint (AccuracyVariable n)}
    (member : row ∈ inputs.shareRows accuracy queries query) :
    row.Holds (inputs.accuracyValues accuracy queries query value) := by
  unfold shareRows at member
  dsimp only at member
  split at member
  · cases member
  · rcases List.mem_cons.mp member with rfl | member
    · simp only [Constraint.Holds, Expression.eval_var, Expression.eval_sum]
      exact values_shares solution exact
    · obtain ⟨parts, below, member⟩ := List.mem_flatMap.mp member
      rw [partsBelow, (List.perm_insertionSort _ _).mem_iff, List.mem_dedup, List.mem_filter] at below
      exact partsRows_met solution exact met owned (of_decide_eq_true below.2) member

theorem values_meet (owned : inputs.ContextsOwned) (pipelines : inputs.PipelinesExact accuracy query value) :
    inputs.MeetsAccuracy accuracy queries query
      (withAccuracy value (inputs.accuracyValues accuracy queries query value)) := by
  rw [withAccuracy_values]
  constructor
  · exact fun _ _ => indicator_bounds
  · rw [values_shares solution exact]
    apply List.sum_nonneg
    intro x member
    obtain ⟨v, listed, rfl⟩ := List.mem_map.mp member
    obtain ⟨entry, here, rfl⟩ := List.mem_map.mp listed
    classical
    rw [values_indicate solution exact (mem_counted.mp here).2.2]
    exact indicator_bounds.1
  · exact fun _ => indicator_bounds
  · intro row member
    rcases List.mem_append.mp member with early | shares
    · rcases List.mem_append.mp early with ofRun | ofPair
      · obtain ⟨run, listed, member⟩ := List.mem_flatMap.mp ofRun
        rcases List.mem_append.mp member with dep | unusable
        · exact depRows_met solution exact pipelines listed dep
        · exact unusableRows_met solution exact met listed unusable
      · exact pairRows_met solution exact met ofPair
    · exact shareRows_met solution exact met owned shares

end

/-! ### The runs depended on are counted -/

/-- A run below a query's outputs is in the query's context, in that of a shareable candidate below them or
in a pipeline. -/
theorem context_of_runOfQuery (formed : inputs.WellFormed) {chosen : ChosenCandidates n} {context : Nat}
    {candidate : Fin n} (below : inputs.RunOfQuery chosen query (.computed context candidate)) :
    context = query ∧ query ∈ inputs.references ∨
      (∃ own, inputs.contextOfShareable own = some context ∧ inputs.RunOfQuery chosen query (.shared own)) ∨
      ∃ pipeline, (inputs.context context).kind = .ingestion pipeline := by
  obtain ⟨outputs, reference, output, result, owner, found, path⟩ := below
  generalize same : Run.computed context candidate = run at path
  induction path generalizing context candidate with
  | refl =>
    subst same
    obtain ⟨_, _, _, _, resolved⟩ := outputRuns_at result owner found
    obtain ⟨_, ⟨_, computed⟩ | ⟨_, _, shared⟩ | ⟨_, _, source, _, ingested⟩⟩ := runOf_some resolved
    · cases computed
      exact .inl ⟨rfl, List.mem_of_getElem? owner⟩
    · cases shared
    · cases ingested
      exact .inr (.inr (pipeline_of_source formed source))
  | @tail reader run before reads ih =>
    subst same
    obtain ⟨there, _, _, _, place, _, _, resolved⟩ := reads_ok reads
    obtain ⟨_, ⟨_, computed⟩ | ⟨_, _, shared⟩ | ⟨_, _, source, _, ingested⟩⟩ := runOf_some resolved
    · cases computed
      cases reader with
      | computed context' candidate' =>
        cases place
        exact ih rfl
      | shared own => exact .inr (.inl ⟨own, place, outputs, reference, output, result, owner, found, before⟩)
    · cases shared
    · cases ingested
      exact .inr (.inr (pipeline_of_source formed source))

theorem counts_of_runOfQuery (formed : inputs.WellFormed) (integral : Integral value) {run : Nat × Fin n}
    (outside : ∀ pipeline, (inputs.context run.1).kind ≠ .ingestion pipeline)
    (below : inputs.RunOfQuery (inputs.chosenBy value) query (inputs.asRun run)) :
    inputs.Counts query value run := by
  have computed : inputs.RunOfQuery (inputs.chosenBy value) query (.computed run.1 run.2) →
      value (.choice run.1 run.2) = 1 ∧ (run.1 = query ∧ query ∈ inputs.references ∨
        ∃ own, inputs.contextOfShareable own = some run.1 ∧
          inputs.RunOfQuery (inputs.chosenBy value) query (.shared own)) := by
    intro below
    have chosen := Reached.chosen formed below.reached
    refine ⟨((mem_chosen integral).mp chosen.1).2, ?_⟩
    rcases context_of_runOfQuery formed below with inQuery | inShared | ⟨pipeline, kind⟩
    · exact .inl inQuery
    · exact .inr inShared
    · exact absurd kind (outside pipeline)
  unfold asRun at below
  unfold Counts
  split at below
  · next own kind =>
    rw [kind]
    split at below
    · next same => exact ⟨below, .inl same⟩
    · obtain ⟨chosen, ⟨isQuery, reference⟩ | ⟨own', place, ownBelow⟩⟩ := computed below
      · rw [isQuery, formed.queries query reference] at kind
        cases kind
      · rw [(formed.shared own' run.1 place).2] at kind
        cases kind
        exact ⟨ownBelow, .inr chosen⟩
  · next kind =>
    obtain ⟨chosen, ⟨isQuery, reference⟩ | ⟨own', place, _⟩⟩ := computed below
    · rw [isQuery, formed.queries query reference]
      exact ⟨rfl, isQuery ▸ chosen⟩
    · exact absurd (formed.shared own' run.1 place).2 (kind own')

/-- Row 8 can be met exactly when no approximate run of a pipeline is chosen and the approximate runs chosen
in the query's context or below a shareable candidate it depends on, which are all the others it depends on,
meet its accuracy. -/
theorem accuracy_exact_iff (physical : PhysicalASAPMemoCandidates n) (alive usable : Fin n → Bool)
    (refreshWindow : Fin n → Option RefreshWindow) (accuracy : AccuracyInputs n) (query : Nat)
    (value : Variable n → ℚ)
    (solution : (physical.milpInputs alive usable refreshWindow).Solution value)
    (exact : (physical.milpInputs alive usable refreshWindow).ReachExact physical.queryRoots.length value) :
    let inputs := physical.milpInputs alive usable refreshWindow
    let queries := physical.queryRoots.length
    ((∃ auxiliary, inputs.MeetsAccuracy accuracy queries query (withAccuracy value auxiliary)) ↔
      inputs.PipelinesExact accuracy query value ∧
        inputs.AccuracyMet accuracy query (inputs.Counts query value)) ∧
    ∀ run, (∀ pipeline, (inputs.context run.1).kind ≠ .ingestion pipeline) →
      inputs.RunOfQuery (inputs.chosenBy value) query (inputs.asRun run) → inputs.Counts query value run := by
  intro inputs queries
  have formed : inputs.WellFormed := PhysicalASAPMemoCandidates.milpInputs_wellFormed
  have owned : inputs.ContextsOwned := fun _ _ kind => PhysicalASAPMemoCandidates.context_owned kind
  refine ⟨⟨?_, ?_⟩, fun run outside below => counts_of_runOfQuery formed solution.integral outside below⟩
  · rintro ⟨auxiliary, meets⟩
    refine ⟨meets.pipelinesExact solution.integral, ?_, ?_, ?_⟩
    · exact fun run listed counts => meets.usable solution.integral exact listed counts
    · exact fun pair excluded one first other second isFirst isSecond =>
        meets.pairs solution.integral exact excluded first second isFirst isSecond
    · exact fun run listed counts together each => meets.parts solution exact listed counts each
  · rintro ⟨pipelines, met⟩
    exact ⟨_, values_meet solution exact met owned pipelines⟩

/-! ### Approximate candidates -/

def fedView : PhysicalASAPMemoCandidates 3 where
  operatorNodes := [⟨0, true⟩, ⟨1, true⟩, ⟨2, true⟩]
  candidates candidate :=
    { operatorNode := candidate
      timing := if candidate < 2 then .ingestionTime else .queryTime
      materialization := if candidate = 1 then .matAtIngestion .memory else .notMaterialized
      producerCandidatesPerInput := match candidate with
        | 0 => []
        | 1 => [[0]]
        | 2 => [[1]]
      mayProduceQueryOutput := candidate = 2 }
  queryRoots := [.operator 2]

def fedInputs : MilpInputs 3 := fedView.milpInputs (fun _ => true) (fun _ => true) fun _ => none

def fedValue : Variable 3 → ℚ :=
  assignment [.choice 0 2, .choice 0 1, .choice 1 0, .choice 2 0, .selected 1, .reach 0 1]

def fedDag : DagOfSelectedCandidates 3 := ⟨[2, 1, 0], [⟨1, 0, 0⟩, ⟨2, 1, 0⟩], [0]⟩

def oneApproximate (candidate : Fin 3) : AccuracyInputs 3 where
  approximate other := other = candidate
  accuracyBudgetParts _ := 1
  accuracyWeights _ _ := some .one
  accuracyExcludedPairs _ := []
  exactTarget _ := false

example : fedInputs.references = [0] := by decide +kernel

theorem fed_solution : fedInputs.Solution fedValue :=
  ⟨assignment_integral _, by decide +kernel⟩

theorem reachExact_of_one {view : Fin n} {dag : DagOfSelectedCandidates n}
    (decoded : inputs.decode (inputs.chosenBy value) = .ok dag) (dependsOn : dag.DependsOn inputs.references 0 view)
    (announced : inputs.reachVariables 1 = [(0, view)]) (kind : ∀ other, inputs.kind other = .shareable ↔ other = view)
    (queries : ∀ query ∈ inputs.references, query = 0) (reach : value (.reach 0 view) = 1) :
    inputs.ReachExact 1 value := by
  constructor
  · intro query other below
    obtain ⟨_, _, resolved⟩ := Reached.resolved below.reached
    obtain ⟨_, _, _, _, owner, _⟩ := below
    obtain rfl := queries query (List.mem_of_getElem? owner)
    obtain ⟨_, ⟨_, computed⟩ | ⟨shareable, _, shared⟩ | ⟨_, _, _, _, ingested⟩⟩ := runOf_some resolved
    · cases computed
    · cases shared
      obtain rfl := (kind other).mp shareable
      exact announced ▸ List.mem_singleton_self _
    · cases ingested
  · intro pair listed
    rw [announced, List.mem_singleton] at listed
    subst listed
    exact .inl ⟨(dependsOn_iff chosenBy_bounded decoded ((kind view).mpr rfl)).mp dependsOn, reach⟩

theorem fed_reachExact : fedInputs.ReachExact 1 fedValue := by
  have decoded : fedInputs.decode (fedInputs.chosenBy fedValue) = .ok fedDag := by decide +kernel
  refine reachExact_of_one decoded ⟨0, 0, 1, by decide +kernel, rfl, ?_, rfl⟩ (by decide +kernel)
    (by decide +kernel) (by decide +kernel) (by decide +kernel)
  exact .tail .refl ⟨⟨1, 0, 0⟩, by decide, rfl, rfl⟩

theorem card_le_one_of_weighted {candidate : Fin 3} {run : Nat × Fin 3}
    (only : fedInputs.weightedRuns (oneApproximate candidate) 0 = [run]) {dependsOn : Nat × Fin 3 → Prop} :
    fedInputs.AccuracyMet (oneApproximate candidate) 0 dependsOn := by
  refine ⟨fun _ _ _ => rfl, nofun, fun _ _ _ together each => ?_⟩
  refine Finset.card_le_one.mpr fun a first b second => ?_
  have one := (each a first).1
  have other := (each b second).1
  rw [only, List.mem_singleton] at one other
  rw [one, other]

def eitherView : PhysicalASAPMemoCandidates 4 where
  operatorNodes := [⟨0, true⟩, ⟨1, true⟩, ⟨2, true⟩, ⟨3, true⟩]
  candidates candidate :=
    { operatorNode := candidate
      timing := .queryTime
      materialization := if candidate = 0 then .matAtQuery .memory else .notMaterialized
      producerCandidatesPerInput := match candidate with
        | 0 => [[1, 2]]
        | 3 => [[0]]
        | _ => []
      mayProduceQueryOutput := candidate = 3 }
  queryRoots := [.operator 3]

def eitherInputs : MilpInputs 4 := eitherView.milpInputs (fun _ => true) (fun _ => true) fun _ => none

/-- Both scans are chosen in the view's context. -/
def eitherValue : Variable 4 → ℚ :=
  assignment [.choice 0 3, .choice 0 0, .choice 1 1, .choice 1 2, .selected 0, .reach 0 0]

def eitherDag : DagOfSelectedCandidates 4 := ⟨[3, 0, 1], [⟨1, 0, 0⟩, ⟨2, 1, 0⟩], [0]⟩

def secondUnusable : AccuracyInputs 4 where
  approximate candidate := candidate = 2
  accuracyBudgetParts _ := 1
  accuracyWeights _ _ := some (.unusable .accuracyTargetMissed)
  accuracyExcludedPairs _ := []
  exactTarget _ := false

example : eitherInputs.references = [0] := by decide +kernel

theorem either_decodes : eitherInputs.decode (eitherInputs.chosenBy eitherValue) = .ok eitherDag := by
  decide +kernel

theorem either_dependsOn : eitherDag.DependsOn eitherInputs.references 0 0 :=
  ⟨0, 0, 1, by decide +kernel, rfl, .tail .refl ⟨⟨1, 0, 0⟩, by decide, rfl, rfl⟩, rfl⟩

/-- The view and both scans are approximate, of two values at most and never of both scans. -/
def viewAndScans : AccuracyInputs 4 where
  approximate candidate := candidate ≠ 3
  accuracyBudgetParts _ := 2
  accuracyWeights _ _ := some .one
  accuracyExcludedPairs _ := [(1, 2)]
  exactTarget _ := false

def firstScan : Variable 4 → ℚ :=
  assignment [.choice 0 3, .choice 0 0, .choice 1 1, .selected 0, .reach 0 0]

/-- With the first scan alone chosen the rows of shares, pairs and parts can be met. -/
theorem either_met : ∃ auxiliary,
    eitherInputs.MeetsAccuracy viewAndScans 1 0 (withAccuracy firstScan auxiliary) := by
  have runs : ∀ run ∈ eitherInputs.weightedRuns viewAndScans 0, run = (1, 1) ∨ run = (1, 2) ∨ run = (1, 0) := by
    decide +kernel
  have kind : (eitherInputs.context 1).kind = .shared 0 := by decide +kernel
  have decoded : eitherInputs.decode (eitherInputs.chosenBy firstScan) = .ok eitherDag := by decide +kernel
  have second : ¬ eitherInputs.Counts 0 firstScan (1, 2) := by
    have apart : ¬ ((0 : Fin 4) = 2 ∨ firstScan (.choice 1 2) = 1) := by decide +kernel
    simp only [Counts, kind]
    exact fun counts => apart counts.2
  refine (accuracy_exact_iff eitherView (fun _ => true) (fun _ => true) (fun _ => none) viewAndScans 0 firstScan
    ⟨assignment_integral _, by decide +kernel⟩ (reachExact_of_one decoded either_dependsOn (by decide +kernel)
      (by decide +kernel) (by decide +kernel) (by decide +kernel))).1.mpr ⟨?_, fun _ _ _ => rfl, ?_, ?_⟩
  · intro run listed pipeline isPipeline
    have first : run.1 = 1 := by rcases runs run listed with rfl | rfl | rfl <;> rfl
    rw [first] at isPipeline
    cases kind.symm.trans isPipeline
  · intro pair excluded one _ other listed _ isSecond
    cases List.mem_singleton.mp excluded
    rcases runs other listed with rfl | rfl | rfl
    · exact absurd isSecond (by decide)
    · exact fun both => second both.2
    · exact absurd isSecond (by decide)
  · intro run listed counts together each
    have few : together ⊆ {(1, 1), (1, 0)} := fun other member => by
      obtain ⟨listed, counts⟩ := each other member
      rcases runs other listed with rfl | rfl | rfl
      · decide
      · exact absurd counts second
      · decide
    exact (Finset.card_le_card few).trans (Finset.card_le_two)

theorem candidate_mem_of_runOfQuery {dag : DagOfSelectedCandidates n}
    (decoded : inputs.decode (inputs.chosenBy value) = .ok dag) {run : Run n}
    (below : inputs.RunOfQuery (inputs.chosenBy value) query run) : run.candidate ∈ dag.candidateOfNode := by
  obtain ⟨outputs, numbered, result, numbering, rfl⟩ := decode_ok chosenBy_bounded decoded
  rw [candidateOfNode_dagOf]
  exact List.mem_map_of_mem (numbering.mem_of_reached result below.reached)

/-- Row 8 rejects a solution although the approximate runs that the query depends on meet its accuracy. -/
def Rejects (inputs : MilpInputs n) (accuracy : AccuracyInputs n) (queries query : Nat) (value : Variable n → ℚ) :
    Prop :=
  inputs.Solution value ∧ inputs.ReachExact queries value ∧
    inputs.AccuracyMet accuracy query
      (fun run => inputs.RunOfQuery (inputs.chosenBy value) query (inputs.asRun run)) ∧
    ¬ ∃ auxiliary, inputs.MeetsAccuracy accuracy queries query (withAccuracy value auxiliary)

theorem fed_rejected : fedInputs.Rejects (oneApproximate 0) 1 0 fedValue := by
  have weighted : fedInputs.weightedRuns (oneApproximate 0) 0 = [(1, 0)] := by decide +kernel
  have kind : (fedInputs.context 1).kind = .ingestion (.alone 1) := by decide +kernel
  have chosen : fedValue (.choice 1 0) ≠ 0 := by decide +kernel
  refine ⟨fed_solution, fed_reachExact, card_le_one_of_weighted weighted, ?_⟩
  rintro ⟨auxiliary, meets⟩
  exact chosen (meets.pipelinesExact fed_solution.integral (1, 0) (by simp [weighted]) _ kind)

theorem either_rejected : eitherInputs.Rejects secondUnusable 1 0 eitherValue := by
  have weighted : eitherInputs.weightedRuns secondUnusable 0 = [(1, 2)] := by decide +kernel
  have kind : (eitherInputs.context 1).kind = .shared 0 := by decide +kernel
  have shareable : ∀ other, eitherInputs.kind other = .shareable ↔ other = 0 := by decide +kernel
  have integral : Integral eitherValue := assignment_integral _
  have exact : eitherInputs.ReachExact 1 eitherValue := reachExact_of_one either_decodes either_dependsOn
    (by decide +kernel) shareable (by decide +kernel) (by decide +kernel)
  have apart : ∀ run ∈ eitherInputs.weightedRuns secondUnusable 0,
      ¬ eitherInputs.RunOfQuery (eitherInputs.chosenBy eitherValue) 0 (eitherInputs.asRun run) := by
    intro run listed below
    obtain rfl := List.mem_singleton.mp (weighted ▸ listed)
    have known := candidate_mem_of_runOfQuery either_decodes below
    rw [asRun, kind] at known
    revert known
    decide
  refine ⟨⟨integral, by decide +kernel⟩, exact, ⟨fun run listed below => absurd below (apart run listed), nofun,
    fun run listed below => absurd below (apart run listed)⟩, ?_⟩
  rintro ⟨auxiliary, meets⟩
  have counts : eitherInputs.Counts 0 eitherValue (1, 2) := by
    simp only [Counts, kind]
    exact ⟨(dependsOn_iff chosenBy_bounded either_decodes ((shareable 0).mpr rfl)).mp either_dependsOn,
      .inr (by decide +kernel)⟩
  have listed : ((1, 2) : Nat × Fin 4) ∈ eitherInputs.weightedRuns secondUnusable 0 :=
    weighted ▸ List.mem_singleton_self _
  exact absurd (meets.usable integral exact listed counts) (by decide)

/-- Row 8 forbids the pipeline's approximate run that a view is fed by, and counts a chosen scan that its view
does not read. -/
theorem accuracy_not_exact : fedInputs.Rejects (oneApproximate 0) 1 0 fedValue ∧
    eitherInputs.Rejects secondUnusable 1 0 eitherValue :=
  ⟨fed_rejected, either_rejected⟩

end MilpInputs
end AsapPlanner.Milp
