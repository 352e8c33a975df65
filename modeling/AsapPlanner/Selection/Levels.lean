import AsapPlanner.Rust.Result
import AsapPlanner.Selection.ContextRates

/-!
The rate components of a query-time shareable candidate at their least values: each schedule group
is charged its fastest reached reader, which is the group's rate exactly when that reader's
instants are all the group's.
-/

namespace AsapPlanner.Selection
open Rust Demand Ordered

/-! ### The fastest rate -/

theorem fastest_le {rates : List ℚ} {bound : ℚ} :
    fastest rates ≤ bound ↔ 0 ≤ bound ∧ ∀ rate ∈ rates, rate ≤ bound :=
  foldl_max_le

theorem fastest_nonneg (rates : List ℚ) : 0 ≤ fastest rates := (fastest_le.mp le_rfl).1

theorem le_fastest {rates : List ℚ} {rate : ℚ} (member : rate ∈ rates) : rate ≤ fastest rates :=
  (fastest_le.mp le_rfl).2 rate member

theorem fastest_mem (rates : List ℚ) : fastest rates = 0 ∨ fastest rates ∈ rates :=
  foldl_max_mem rates 0

theorem fastest_congr {rates others : List ℚ} (same : ∀ rate, rate ∈ rates ↔ rate ∈ others) :
    fastest rates = fastest others := by
  apply le_antisymm
  · exact fastest_le.mpr ⟨fastest_nonneg _, fun rate member => le_fastest ((same rate).mp member)⟩
  · exact fastest_le.mpr ⟨fastest_nonneg _, fun rate member => le_fastest ((same rate).mpr member)⟩

/-! ### One group's components -/

section
variable {queries : Nat} (reached : Fin queries → Bool)

def reachedRates (members : List (Fin queries × ℚ)) : List ℚ :=
  (members.filter fun member => reached member.1).map Prod.snd

theorem mem_reachedRates {members : List (Fin queries × ℚ)} {rate : ℚ} :
    rate ∈ reachedRates reached members ↔ ∃ query, (query, rate) ∈ members ∧ reached query := by
  simp [reachedRates]

theorem componentsFrom_sum {members : List (Fin queries × ℚ)} {single : Bool} {below : ℚ}
    {levels : List ℚ} (sorted : levels.Pairwise (· ≤ ·)) (above : ∀ level ∈ levels, below ≤ level)
    (nonneg : 0 ≤ below)
    (alone : single → ∀ level ∈ levels, ∀ member ∈ members, level ≤ member.2)
    (top : fastest (reachedRates reached members) ∈ levels ∨
      fastest (reachedRates reached members) ≤ below) :
    ((componentsFrom members single below levels).map fun component =>
      component.rate * component.least reached).sum =
      max (fastest (reachedRates reached members)) below - below := by
  induction levels generalizing below with
  | nil =>
    rw [max_eq_right (top.resolve_left List.not_mem_nil), sub_self]
    rfl
  | cons level rest ih =>
    obtain ⟨first, later⟩ := List.pairwise_cons.mp sorted
    have low := above level List.mem_cons_self
    have tail := ih later first (nonneg.trans low)
      fun isSingle other member => alone isSingle other (List.mem_cons_of_mem _ member)
    rw [componentsFrom, List.map_cons, List.sum_cons]
    by_cases under : level ≤ fastest (reachedRates reached members)
    · rw [tail (top.elim (fun member => (List.mem_cons.mp member).elim (fun same => .inr same.le) .inl)
        fun small => .inr (small.trans low)), max_eq_left under, max_eq_left (low.trans under)]
      rcases low.eq_or_lt with flat | rises
      · rw [flat]
        simp
      · have here : (Component.least ⟨(members.filter fun member =>
            level ≤ member.2 || single).map Prod.fst, level - below⟩ reached) = 1 := by
          have positive := nonneg.trans_lt rises
          have inside := (fastest_mem (reachedRates reached members)).resolve_left
            fun zero => absurd under (by rw [zero]; exact not_le.mpr positive)
          obtain ⟨query, member, isReached⟩ := (mem_reachedRates reached).mp inside
          have kept : (query, fastest (reachedRates reached members)) ∈
              members.filter fun member => level ≤ member.2 || single :=
            List.mem_filter.mpr ⟨member, by simp [under]⟩
          exact if_pos (List.any_eq_true.mpr ⟨query, List.mem_map_of_mem kept, isReached⟩)
        rw [here]
        ring
    · have away : (Component.least ⟨(members.filter fun member =>
          level ≤ member.2 || single).map Prod.fst, level - below⟩ reached) = 0 := by
        refine if_neg fun some => ?_
        obtain ⟨query, listed, isReached⟩ := List.any_eq_true.mp some
        obtain ⟨member, held, rfl⟩ := List.mem_map.mp listed
        obtain ⟨member', condition⟩ := List.mem_filter.mp held
        have high : level ≤ member.2 := by
          rcases Bool.or_eq_true_iff.mp condition with own | isSingle
          · exact of_decide_eq_true own
          · exact alone isSingle level List.mem_cons_self member member'
        exact under (high.trans (le_fastest ((mem_reachedRates reached).mpr
          ⟨member.1, member', isReached⟩)))
      have small : fastest (reachedRates reached members) ≤ below := by
        rcases top with inside | small
        · rcases List.mem_cons.mp inside with same | inner
          · exact absurd same.ge under
          · exact absurd (first _ inner) under
        · exact small
      rw [away, tail (.inr (small.trans low)), max_eq_right (small.trans low), max_eq_right small]
      ring

theorem groupComponents_sum {members : List (Fin queries × ℚ)}
    (nonneg : ∀ member ∈ members, 0 ≤ member.2) :
    ((groupComponents (members, ((members.map Prod.snd).insertionSort (· ≤ ·)).dedup)).map
      fun component => component.rate * component.least reached).sum =
      fastest (reachedRates reached members) := by
  have isLevel : ∀ level, level ∈ ((members.map Prod.snd).insertionSort (· ≤ ·)).dedup ↔
      ∃ member ∈ members, member.2 = level := by
    intro level
    rw [List.mem_dedup, List.mem_insertionSort, List.mem_map]
  have sorted : (((members.map Prod.snd).insertionSort (· ≤ ·)).dedup).Pairwise (· ≤ ·) :=
    (List.pairwise_insertionSort (· ≤ ·) _).sublist (List.dedup_sublist _)
  unfold groupComponents
  rw [componentsFrom_sum reached sorted]
  · rw [max_eq_left (fastest_nonneg _), sub_zero]
  · intro level member
    obtain ⟨own, held, rfl⟩ := (isLevel level).mp member
    exact nonneg own held
  · exact le_rfl
  · intro single level member own held
    obtain ⟨only, same⟩ : ∃ only, ((members.map Prod.snd).insertionSort (· ≤ ·)).dedup = [only] :=
      List.length_eq_one_iff.mp (of_decide_eq_true single)
    have ownLevel := (isLevel own.2).mpr ⟨own, held, rfl⟩
    rw [same] at member ownLevel
    rw [List.mem_singleton.mp member, List.mem_singleton.mp ownLevel]
  · rcases fastest_mem (reachedRates reached members) with zero | inside
    · exact .inr zero.le
    · obtain ⟨query, member, _⟩ := (mem_reachedRates reached).mp inside
      exact .inl ((isLevel _).mpr ⟨_, member, rfl⟩)

end

/-! ### The groups of all possible readers -/

namespace SelectionMilp
variable {milp : SelectionMilp} {perRequest : Bool} {readers : List (Fin milp.entries.length)}

def ratedMembers (milp : SelectionMilp) (perRequest : Bool)
    (readers : List (Fin milp.entries.length)) (group : ScheduleGroup) :
    List (Fin milp.entries.length × ℚ) :=
  (group.readers.filterMap (readers[·]?)).map fun query =>
    (query, (milp.demandOf perRequest query).ownRate milp.horizon)

theorem groupLevels_ok {group : ScheduleGroup} {levels : GroupLevels milp.entries.length}
    (valid : ∀ query ∈ readers, (milp.demandOf perRequest query).Valid)
    (run : milp.groupLevels perRequest readers group = .ok (levels, [])) :
    levels = (milp.ratedMembers perRequest readers group,
      (((milp.ratedMembers perRequest readers group).map Prod.snd).insertionSort (· ≤ ·)).dedup) := by
  have alone : (group.readers.filterMap (readers[·]?)).mapM (fun query =>
      evaluationRate [milp.demandOf perRequest query] milp.horizon) =
      .ok ((milp.ratedMembers perRequest readers group).map Prod.snd) := by
    rw [ratedMembers, List.map_map]
    refine mapM_pure fun query member => ReaderDemand.evaluationRate_single (valid query ?_)
    obtain ⟨position, _, found⟩ := List.mem_filterMap.mp member
    exact List.mem_of_getElem? found
  simp only [groupLevels, alone] at run
  have result := Except.ok.inj run
  obtain ⟨same, exact⟩ := Prod.mk.inj result
  by_cases apart : 1 / 10 ^ 9 * max |group.evaluationsPerSecond| (1 / 10 ^ 12) <
    |group.evaluationsPerSecond -
      fastest ((milp.ratedMembers perRequest readers group).map Prod.snd)|
  · rw [if_pos apart] at exact
    cases exact
  · rw [if_neg apart] at same
    rw [← same]
    congr 1
    rw [ratedMembers, List.map_map]
    exact List.map_prod_left_eq_zip.symm

/-- What the group is charged when the queries of `reached` reach the candidate. -/
def groupTop (milp : SelectionMilp) (perRequest : Bool) (readers : List (Fin milp.entries.length))
    (reached : Fin milp.entries.length → Bool) (group : ScheduleGroup) : ℚ :=
  fastest (reachedRates reached (milp.ratedMembers perRequest readers group))

theorem mem_ratedMembers {group : ScheduleGroup} {here : ReaderDemand → Prop}
    (positions : ∀ position, position ∈ group.readers ↔ ∃ demand,
      (readers.map (milp.demandOf perRequest))[position]? = some demand ∧ here demand)
    {query : Fin milp.entries.length} {rate : ℚ} :
    (query, rate) ∈ milp.ratedMembers perRequest readers group ↔
      query ∈ readers ∧ here (milp.demandOf perRequest query) ∧
        (milp.demandOf perRequest query).ownRate milp.horizon = rate := by
  simp only [ratedMembers, List.mem_map, List.mem_filterMap, positions, List.getElem?_map,
    Option.map_eq_some_iff, Prod.mk.injEq]
  constructor
  · rintro ⟨other, ⟨position, ⟨_, ⟨own, found, rfl⟩, inside⟩, there⟩, rfl, rfl⟩
    cases found.symm.trans there
    exact ⟨List.mem_of_getElem? found, inside, rfl⟩
  · rintro ⟨member, inside, rfl⟩
    obtain ⟨position, found⟩ := List.mem_iff_getElem?.mp member
    exact ⟨query, ⟨position, ⟨_, ⟨query, found, rfl⟩, inside⟩, found⟩, rfl, rfl⟩

def reachedDemands (milp : SelectionMilp) (perRequest : Bool)
    (readers : List (Fin milp.entries.length)) (reached : Fin milp.entries.length → Bool) :
    List ReaderDemand :=
  (readers.filter reached).map (milp.demandOf perRequest)

theorem mem_reachedDemands {reached : Fin milp.entries.length → Bool} {demand : ReaderDemand} :
    demand ∈ milp.reachedDemands perRequest readers reached ↔
      ∃ query ∈ readers, reached query ∧ milp.demandOf perRequest query = demand := by
  simp [reachedDemands, and_assoc]

theorem groupTop_eq (group : ScheduleGroup) {reached : Fin milp.entries.length → Bool}
    (here : ReaderDemand → Prop) [DecidablePred here]
    (positions : ∀ position, position ∈ group.readers ↔ ∃ demand,
      (readers.map (milp.demandOf perRequest))[position]? = some demand ∧ here demand) :
    milp.groupTop perRequest readers reached group =
      fastest (((milp.reachedDemands perRequest readers reached).filter here).map
        (ReaderDemand.ownRate milp.horizon)) := by
  refine fastest_congr fun rate => ?_
  rw [mem_reachedRates]
  simp only [mem_ratedMembers positions, List.mem_map, List.mem_filter, mem_reachedDemands,
    decide_eq_true_eq]
  constructor
  · rintro ⟨query, ⟨member, inside, rfl⟩, isReached⟩
    exact ⟨_, ⟨⟨query, member, isReached, rfl⟩, inside⟩, rfl⟩
  · rintro ⟨_, ⟨⟨query, member, isReached, rfl⟩, inside⟩, rfl⟩
    exact ⟨query, ⟨member, inside, rfl⟩, isReached⟩

/-! ### The sum over the groups -/

section
variable {reached : Fin milp.entries.length → Bool}

theorem fixed_tops {home : ScheduleKey → ScheduleKey}
    {bySchedule : BTreeMap ScheduleKey FixedSchedule}
    (holds : Holds home (readers.map (milp.demandOf perRequest)) bySchedule) :
    ((bySchedule.entries.map fixedGroup).map (milp.groupTop perRequest readers reached)).sum =
      ∑ key ∈ (keysOf (milp.reachedDemands perRequest readers reached)).image home,
        fastest ((groupOf home key (milp.reachedDemands perRequest readers reached)).map
          (ReaderDemand.ownRate milp.horizon)) := by
  have top : ∀ entry ∈ bySchedule.entries,
      milp.groupTop perRequest readers reached (fixedGroup entry) =
        fastest ((groupOf home entry.1 (milp.reachedDemands perRequest readers reached)).map
          (ReaderDemand.ownRate milp.horizon)) := by
    intro entry member
    have described := holds.described entry.1
    rw [BTreeMap.mem_entries.mp member, Option.getD_some] at described
    exact groupTop_eq (fixedGroup entry) _ described.readers
  calc ((bySchedule.entries.map fixedGroup).map (milp.groupTop perRequest readers reached)).sum
      = (bySchedule.entries.map fun entry =>
          fastest ((groupOf home entry.1 (milp.reachedDemands perRequest readers reached)).map
            (ReaderDemand.ownRate milp.horizon))).sum := by
        rw [List.map_map]
        exact congrArg List.sum (List.map_congr_left top)
    _ = ∑ key ∈ (keysOf (readers.map (milp.demandOf perRequest))).image home,
          fastest ((groupOf home key (milp.reachedDemands perRequest readers reached)).map
            (ReaderDemand.ownRate milp.horizon)) := by
        rw [← holds.keys, ← sum_entries]
    _ = _ := by
        refine (Finset.sum_subset (Finset.image_subset_image ?_) fun key _ away => ?_).symm
        · intro key member
          obtain ⟨demand, held, isKey⟩ := List.mem_filterMap.mp (List.mem_toFinset.mp member)
          obtain ⟨query, listed, _, rfl⟩ := mem_reachedDemands.mp held
          exact List.mem_toFinset.mpr
            (List.mem_filterMap.mpr ⟨_, List.mem_map_of_mem listed, isKey⟩)
        · have empty : groupOf home key (milp.reachedDemands perRequest readers reached) = [] := by
            refine List.filter_eq_nil_iff.mpr fun demand held here => away ?_
            obtain ⟨own, isKey, rfl⟩ := Option.map_eq_some_iff.mp (of_decide_eq_true here)
            exact Finset.mem_image_of_mem home
              (List.mem_toFinset.mpr (List.mem_filterMap.mpr ⟨demand, held, isKey⟩))
          rw [empty]
          rfl

theorem sum_filterMap {α β : Type} (f : α → Option β) (g : β → ℚ) (items : List α) :
    ((items.filterMap f).map g).sum = (items.map fun item => ((f item).map g).getD 0).sum := by
  induction items with
  | nil => rfl
  | cons item rest ih =>
    rw [List.filterMap_cons, List.map_cons, List.sum_cons, ← ih]
    cases f item with
    | none => simp
    | some value => simp

theorem sum_filter {α : Type} (keep : α → Bool) (f : α → ℚ) (items : List α) :
    (items.map fun item => if keep item then f item else 0).sum = ((items.filter keep).map f).sum := by
  rw [List.sum_map_ite]
  simp

theorem estimated_top {query : Fin milp.entries.length} {position : Nat}
    (found : readers[position]? = some query) (valid : (milp.demandOf perRequest query).Valid) :
    (((milp.demandOf perRequest query).estimatedGroup position).map
      (milp.groupTop perRequest readers reached)).getD 0 =
      if reached query then (milp.demandOf perRequest query).estimatedRate else 0 := by
  rcases (milp.demandOf perRequest query).kind with ⟨_, _, notRate, _⟩ | ⟨rate, notKey, isRate, notBatch⟩ |
    ⟨_, _, notRate, _⟩
  · simp [ReaderDemand.estimatedGroup, ReaderDemand.estimatedRate, notRate]
  · have own : (milp.demandOf perRequest query).ownRate milp.horizon =
        (milp.demandOf perRequest query).estimatedRate := by
      simp [ReaderDemand.ownRate, notKey, notBatch]
    have nonneg := ReaderDemand.estimatedRate_nonneg valid
    simp only [ReaderDemand.estimatedGroup, isRate, Option.map_some, Option.getD_some, groupTop,
      ratedMembers, List.filterMap_cons, found, List.filterMap_nil, List.map_cons, List.map_nil, own]
    cases isReached : reached query with
    | true => simp [reachedRates, fastest, isReached, nonneg]
    | false => simp [reachedRates, fastest, isReached]
  · simp [ReaderDemand.estimatedGroup, ReaderDemand.estimatedRate, notRate]

theorem estimated_tops (valid : ∀ query ∈ readers, (milp.demandOf perRequest query).Valid) :
    ((estimatedGroups (readers.map (milp.demandOf perRequest))).map
      (milp.groupTop perRequest readers reached)).sum =
      ((milp.reachedDemands perRequest readers reached).map ReaderDemand.estimatedRate).sum := by
  have each : ∀ entry ∈ readers.zipIdx,
      (((milp.demandOf perRequest entry.1).estimatedGroup entry.2).map
        (milp.groupTop perRequest readers reached)).getD 0 =
      if reached entry.1 then (milp.demandOf perRequest entry.1).estimatedRate else 0 := by
    rintro ⟨query, position⟩ member
    have found := List.mem_zipIdx_iff_getElem?.mp member
    exact estimated_top found (valid query (List.mem_of_getElem? found))
  rw [estimatedGroups, sum_filterMap, List.zipIdx_map, List.map_map, reachedDemands, List.map_map,
    ← sum_filter]
  refine (congrArg List.sum (List.map_congr_left each)).trans ?_
  conv_rhs => rw [← List.zipIdx_map_fst 0 readers, List.map_map]
  rfl

theorem batch_tops {loop : ReaderLoop}
    (reads : loop.Reads (readers.map (milp.demandOf perRequest))) :
    ((loop.batchGroup milp.horizon).map (milp.groupTop perRequest readers reached)).sum =
      batchRate (milp.reachedDemands perRequest readers reached) milp.horizon := by
  have seconds := milp.horizon.2
  unfold ReaderLoop.batchGroup
  split
  · next empty =>
    have none := reads.batch_empty (List.isEmpty_iff.mp empty)
    have zero : batchInvocations (milp.reachedDemands perRequest readers reached) = 0 := by
      refine Nat.le_zero.mp (foldl_max_le.mpr ⟨le_rfl, fun value member => ?_⟩)
      obtain ⟨demand, held, rfl⟩ := List.mem_map.mp member
      obtain ⟨query, listed, _, rfl⟩ := mem_reachedDemands.mp held
      simp [none _ (List.mem_map_of_mem listed)]
    simp [batchRate, zero]
  · rw [List.map_singleton, List.sum_singleton,
      groupTop_eq _ (fun demand => demand.batch?.isSome) reads.nonRepeating]
    have own : ∀ demand : ReaderDemand, demand.batch?.isSome →
        demand.ownRate milp.horizon = (demand.batch?.getD 0 : Nat) / milp.horizon.1 := by
      intro demand isBatch
      rcases demand.kind with ⟨_, _, _, notBatch⟩ | ⟨_, _, _, notBatch⟩ | ⟨_, notKey, notRate, _⟩
      · simp [notBatch] at isBatch
      · simp [notBatch] at isBatch
      · simp [ReaderDemand.ownRate, notKey, ReaderDemand.estimatedRate, notRate]
    apply le_antisymm
    · refine fastest_le.mpr ⟨by unfold batchRate; positivity, fun rate member => ?_⟩
      obtain ⟨demand, held, rfl⟩ := List.mem_map.mp member
      obtain ⟨inside, isBatch⟩ := List.mem_filter.mp held
      rw [own demand (of_decide_eq_true isBatch), batchRate]
      refine div_le_div_of_nonneg_right (Nat.cast_le.mpr ?_) seconds.le
      exact (foldl_max_le.mp le_rfl).2 _ (List.mem_map_of_mem inside)
    · rcases foldl_max_mem ((milp.reachedDemands perRequest readers reached).map
        fun demand => demand.batch?.getD 0) 0 with zero | attained
      · rw [batchRate, batchInvocations, zero, Nat.cast_zero, zero_div]
        exact fastest_nonneg _
      · obtain ⟨demand, inside, same⟩ := List.mem_map.mp attained
        rw [batchRate, batchInvocations, ← same]
        by_cases isBatch : demand.batch?.isSome
        · rw [← own demand isBatch]
          exact le_fastest (List.mem_map_of_mem (List.mem_filter.mpr ⟨inside, by simp [isBatch]⟩))
        · rw [Option.not_isSome_iff_eq_none.mp isBatch, Option.getD_none, Nat.cast_zero, zero_div]
          exact fastest_nonneg _

end

end SelectionMilp

/-! ### Known and unknown phases -/

/-- The phases note the key's interval and phase. -/
def PhaseNoted (phases : Phases) (key : ScheduleKey) : Prop :=
  ∃ noted, phases.get? (ofLex key).1 = some noted ∧ ((ofLex key).2 = ⊥ → noted.1) ∧
    ∀ phase : Nat, (ofLex key).2 = phase → phase ∈ noted.2

theorem notePhase_keeps {phases : Phases} {key : ScheduleKey} (recurrence : QueryRecurrence)
    (noted : PhaseNoted phases key) : PhaseNoted (notePhase phases recurrence) key := by
  obtain ⟨note, held, unknown, known⟩ := noted
  unfold notePhase
  split
  · next interval =>
    by_cases same : (ofLex key).1 = interval
    · refine ⟨(true, note.2), ?_, fun _ => rfl, known⟩
      rw [BTreeMap.get?_change, if_pos same, ← same, held]
      rfl
    · exact ⟨note, by rw [BTreeMap.get?_change, if_neg same, held], unknown, known⟩
  · next interval phase =>
    by_cases same : (ofLex key).1 = interval
    · refine ⟨(note.1, insert (phase % max interval 1) note.2), ?_, unknown, fun own isOwn => ?_⟩
      · rw [BTreeMap.get?_change, if_pos same, ← same, held]
        rfl
      · exact Finset.mem_insert_of_mem (known own isOwn)
    · exact ⟨note, by rw [BTreeMap.get?_change, if_neg same, held], unknown, known⟩
  · exact ⟨note, held, unknown, known⟩

theorem notePhase_noted {phases : Phases} {demand : ReaderDemand} {key : ScheduleKey}
    (valid : demand.Valid) (isKey : demand.key = some key) :
    PhaseNoted (notePhase phases demand.recurrence) key := by
  have interval := valid.interval key isKey
  obtain ⟨recurrence, range⟩ := demand
  cases recurrence with
  | oneTime count => cases isKey
  | unknown => cases isKey
  | repeated repeated =>
    cases repeated with
    | scheduled times => cases isKey
    | estimatedRate rate => cases isKey
    | fixedInterval interval =>
      cases isKey
      refine ⟨_, by rw [notePhase, BTreeMap.get?_change]; exact if_pos rfl, fun _ => rfl, ?_⟩
      intro phase isPhase
      cases isPhase
    | fixedIntervalAt own phase =>
      cases isKey
      refine ⟨_, by rw [notePhase, BTreeMap.get?_change]; exact if_pos rfl, nofun, ?_⟩
      intro other isOther
      have positive : max own 1 = own := max_eq_left interval
      have same : phase % own = other := WithBot.coe_injective isOther
      rw [positive, ← same]
      exact Finset.mem_insert_self ..

theorem foldl_notePhase {demands : List ReaderDemand} (phases : Phases)
    (valid : ∀ demand ∈ demands, demand.Valid) (key : ScheduleKey)
    (either : PhaseNoted phases key ∨ ∃ demand ∈ demands, demand.key = some key) :
    PhaseNoted ((demands.map ReaderDemand.recurrence).foldl notePhase phases) key := by
  induction demands generalizing phases with
  | nil => simpa using either
  | cons demand rest ih =>
    refine ih _ (fun other member => valid other (List.mem_cons_of_mem _ member)) ?_
    rcases either with before | ⟨other, member, isKey⟩
    · exact .inl (notePhase_keeps _ before)
    · rcases List.mem_cons.mp member with rfl | later
      · exact .inl (notePhase_noted (valid _ List.mem_cons_self) isKey)
      · exact .inr ⟨other, later, isKey⟩

theorem onePhase_of_joins {demands : List ReaderDemand}
    (valid : ∀ demand ∈ demands, demand.Valid)
    (joins : unknownPhaseJoinsSeveral (demands.map ReaderDemand.recurrence) = false) :
    OnePhase demands := by
  intro demand member key isKey unknown first firstMember firstKey isFirst firstKnown second
    secondMember secondKey isSecond secondKnown firstInterval secondInterval
  have noted := fun (other : ReaderDemand) inside otherKey isOther =>
    foldl_notePhase BTreeMap.empty valid otherKey (.inr ⟨other, inside, isOther⟩)
  obtain ⟨note, held, isUnknown, _⟩ := noted demand member key isKey
  obtain ⟨firstNote, firstHeld, _, firstPhase⟩ := noted first firstMember firstKey isFirst
  obtain ⟨secondNote, secondHeld, _, secondPhase⟩ := noted second secondMember secondKey isSecond
  rw [firstInterval, held] at firstHeld
  rw [secondInterval, held] at secondHeld
  cases firstHeld
  cases secondHeld
  have single := (List.any_eq_false.mp joins) _ (BTreeMap.mem_entries.mpr held)
  simp only [isUnknown unknown, Bool.true_and, decide_eq_true_eq, not_lt] at single
  obtain ⟨p, isP⟩ := WithBot.ne_bot_iff_exists.mp firstKnown
  obtain ⟨q, isQ⟩ := WithBot.ne_bot_iff_exists.mp secondKnown
  have same := Finset.card_le_one.mp single p (firstPhase p isP.symm) q (secondPhase q isQ.symm)
  have samePhase : (ofLex firstKey).2 = (ofLex secondKey).2 := by rw [← isP, ← isQ, same]
  exact Prod.ext (firstInterval.trans secondInterval.symm) samePhase

/-! ### A group and its fastest reader -/

section
variable {home : ScheduleKey → ScheduleKey} {key : ScheduleKey} {demands : List ReaderDemand}
  {horizon : Horizon}

theorem ownRate_groupOf {demand : ReaderDemand} (horizon : Horizon)
    (interval : ∀ key, (ofLex (home key)).1 = (ofLex key).1)
    (here : demand ∈ groupOf home key demands) :
    demand.ownRate horizon = intervalRate (ofLex key).1 demand.instants.card := by
  obtain ⟨own, isKey, rfl⟩ := Option.map_eq_some_iff.mp (of_decide_eq_true (List.mem_filter.mp here).2)
  rw [ReaderDemand.ownRate, isKey, interval]

theorem intervalRate_le {intervalMs : Nat} (positive : 0 < intervalMs) {a b : Nat} :
    intervalRate intervalMs a ≤ intervalRate intervalMs b ↔ a ≤ b := by
  have factor : (0 : ℚ) < 1000 / intervalMs := by positivity
  rw [intervalRate, intervalRate, mul_le_mul_iff_right₀ factor, Nat.cast_le]

theorem fastest_group_le (interval : ∀ key, (ofLex (home key)).1 = (ofLex key).1)
    (positive : 0 < (ofLex key).1) :
    fastest ((groupOf home key demands).map (ReaderDemand.ownRate horizon)) ≤
      intervalRate (ofLex key).1 (instantsOf (groupOf home key demands)).card := by
  refine fastest_le.mpr ⟨by unfold intervalRate; positivity, fun rate member => ?_⟩
  obtain ⟨demand, here, rfl⟩ := List.mem_map.mp member
  rw [ownRate_groupOf _ interval here, intervalRate_le positive]
  exact Finset.card_le_card fun offset inside => mem_instantsOf.mpr ⟨demand, here, inside⟩

theorem fastest_group_iff (interval : ∀ key, (ofLex (home key)).1 = (ofLex key).1)
    (positive : 0 < (ofLex key).1) (nonempty : groupOf home key demands ≠ []) :
    fastest ((groupOf home key demands).map (ReaderDemand.ownRate horizon)) =
        intervalRate (ofLex key).1 (instantsOf (groupOf home key demands)).card ↔
      ∃ leader ∈ groupOf home key demands, ∀ other ∈ groupOf home key demands,
        other.instants ⊆ leader.instants := by
  have within : ∀ demand ∈ groupOf home key demands,
      demand.instants ⊆ instantsOf (groupOf home key demands) :=
    fun demand here offset inside => mem_instantsOf.mpr ⟨demand, here, inside⟩
  constructor
  · intro same
    rcases fastest_mem ((groupOf home key demands).map (ReaderDemand.ownRate horizon)) with
      zero | attained
    · obtain ⟨leader, here⟩ := List.exists_mem_of_ne_nil _ nonempty
      refine ⟨leader, here, fun other there offset inside => ?_⟩
      have reachable := within other there inside
      rw [zero] at same
      have none : (instantsOf (groupOf home key demands)).card ≤ 0 := by
        rw [← intervalRate_le positive, ← same]
        simp [intervalRate]
      rw [Finset.card_eq_zero.mp (Nat.le_zero.mp none)] at reachable
      exact absurd reachable (Finset.notMem_empty offset)
    · obtain ⟨leader, here, own⟩ := List.mem_map.mp attained
      rw [same, ownRate_groupOf _ interval here] at own
      refine ⟨leader, here, fun other there => ?_⟩
      have all := Finset.eq_of_subset_of_card_le (within leader here)
        ((intervalRate_le positive).mp own.ge)
      rw [all]
      exact within other there
  · rintro ⟨leader, here, leads⟩
    apply le_antisymm (fastest_group_le interval positive)
    have all : instantsOf (groupOf home key demands) = leader.instants := by
      refine Finset.Subset.antisymm (fun offset inside => ?_) (within leader here)
      obtain ⟨other, there, own⟩ := mem_instantsOf.mp inside
      exact leads other there own
    rw [all, ← ownRate_groupOf horizon interval here]
    exact le_fastest (List.mem_map_of_mem here)

end

theorem sum_image_congr {κ : Type} [DecidableEq κ] {keys : Finset κ} {f g : κ → κ} {F G : κ → ℚ}
    (same : ∀ a ∈ keys, ∀ b ∈ keys, f a = f b ↔ g a = g b)
    (value : ∀ a ∈ keys, F (f a) = G (g a)) :
    ∑ key ∈ keys.image f, F key = ∑ key ∈ keys.image g, G key := by
  -- Each class's value, spread evenly over the class.
  have spread : ∀ (h : κ → κ) (H : κ → ℚ), ∑ key ∈ keys.image h, H key =
      ∑ a ∈ keys, H (h a) / (keys.filter fun b => h b = h a).card := by
    intro h H
    refine Finset.sum_image' _ fun a member => ?_
    have const : ∀ b ∈ keys.filter fun b => h b = h a,
        H (h b) / (keys.filter fun c => h c = h b).card =
          H (h a) / (keys.filter fun c => h c = h a).card := by
      intro b inside
      rw [(Finset.mem_filter.mp inside).2]
    have positive : ((keys.filter fun b => h b = h a).card : ℚ) ≠ 0 :=
      Nat.cast_ne_zero.mpr (Finset.card_ne_zero.mpr ⟨a, Finset.mem_filter.mpr ⟨member, rfl⟩⟩)
    rw [Finset.sum_congr rfl const, Finset.sum_const, nsmul_eq_mul, mul_div_cancel₀ _ positive]
  rw [spread f F, spread g G]
  refine Finset.sum_congr rfl fun a member => ?_
  rw [value a member]
  congr 3
  exact Finset.filter_congr fun b inside => same b inside a member

/-! ### The reached readers -/

/-- In every fixed-interval schedule, some reader evaluates at every instant any of them does. -/
def Led (demands : List ReaderDemand) : Prop :=
  ∀ demand ∈ demands, demand.key ≠ none → ∃ leader ∈ demands, leader.Together demand ∧
    ∀ other ∈ demands, other.Together demand → other.instants ⊆ leader.instants

section
variable {all demands : List ReaderDemand} {home own : ScheduleKey → ScheduleKey}
  {horizon : Horizon}

theorem mem_keysOf {key : ScheduleKey} :
    key ∈ keysOf demands ↔ ∃ demand ∈ demands, demand.key = some key := by
  simp [keysOf]

theorem mem_groupOf_home (settled : Settled all home) (one : OnePhase all) (subset : demands ⊆ all)
    {demand other : ReaderDemand} {key : ScheduleKey} (member : demand ∈ demands)
    (isKey : demand.key = some key) :
    other ∈ groupOf home (home key) demands ↔ other ∈ demands ∧ other.Together demand := by
  rw [groupOf, List.mem_filter, decide_eq_true_eq]
  refine and_congr_right fun otherMember => ?_
  constructor
  · intro there
    obtain ⟨otherKey, isOther, same⟩ := Option.map_eq_some_iff.mp there
    exact ⟨otherKey, key, isOther, isKey, (settled.together one (subset otherMember) isOther
      (subset member) isKey).mp same⟩
  · rintro ⟨otherKey, _, isOther, isKey', together⟩
    cases isKey.symm.trans isKey'
    rw [ReaderDemand.AtHome, isOther, Option.map_some, (settled.together one (subset otherMember)
      isOther (subset member) isKey).mpr together]

theorem fixedRate_eq (settled : Settled all home) (one : OnePhase all) (subset : demands ⊆ all)
    (ownSettled : Settled demands own) :
    fixedRate own demands = ∑ key ∈ (keysOf demands).image home,
      intervalRate (ofLex key).1 (instantsOf (groupOf home key demands)).card := by
  have ownOne := one.subset subset
  refine sum_image_congr (fun a isA b isB => ?_) fun a isA => ?_
  · obtain ⟨first, firstMember, firstKey⟩ := mem_keysOf.mp isA
    obtain ⟨second, secondMember, secondKey⟩ := mem_keysOf.mp isB
    rw [ownSettled.together ownOne firstMember firstKey secondMember secondKey,
      settled.together one (subset firstMember) firstKey (subset secondMember) secondKey]
  · obtain ⟨demand, member, isKey⟩ := mem_keysOf.mp isA
    have same : instantsOf (groupOf own (own a) demands) =
        instantsOf (groupOf home (home a) demands) := by
      ext offset
      simp only [mem_instantsOf, mem_groupOf_home ownSettled ownOne (List.Subset.refl _) member isKey,
        mem_groupOf_home settled one subset member isKey]
    rw [same, ownSettled.interval, settled.interval]

theorem tops_eq_fixedRate_iff (horizon : Horizon) (valid : ∀ demand ∈ demands, demand.Valid)
    (settled : Settled all home) (one : OnePhase all) (subset : demands ⊆ all)
    (ownSettled : Settled demands own) :
    ∑ key ∈ (keysOf demands).image home,
        fastest ((groupOf home key demands).map (ReaderDemand.ownRate horizon)) =
        fixedRate own demands ↔ Led demands := by
  have positive : ∀ key ∈ (keysOf demands).image home, 0 < (ofLex key).1 := by
    intro key inside
    obtain ⟨a, isA, rfl⟩ := Finset.mem_image.mp inside
    obtain ⟨demand, member, isKey⟩ := mem_keysOf.mp isA
    rw [settled.interval]
    exact (valid demand member).interval a isKey
  rw [fixedRate_eq settled one subset ownSettled, Finset.sum_eq_sum_iff_of_le fun key inside =>
    fastest_group_le settled.interval (positive key inside)]
  constructor
  · intro each demand member notNone
    obtain ⟨a, isKey⟩ := Option.ne_none_iff_exists'.mp notNone
    have inside := Finset.mem_image_of_mem home (mem_keysOf.mpr ⟨demand, member, isKey⟩)
    have mine : demand ∈ groupOf home (home a) demands :=
      (mem_groupOf_home settled one subset member isKey).mpr
        ⟨member, a, a, isKey, isKey, rfl, .inl rfl⟩
    obtain ⟨leader, here, leads⟩ := (fastest_group_iff settled.interval (positive _ inside)
      (List.ne_nil_of_mem mine)).mp (each _ inside)
    obtain ⟨leaderMember, together⟩ := (mem_groupOf_home settled one subset member isKey).mp here
    refine ⟨leader, leaderMember, together, fun other otherMember otherTogether => leads other ?_⟩
    exact (mem_groupOf_home settled one subset member isKey).mpr ⟨otherMember, otherTogether⟩
  · intro led key inside
    obtain ⟨a, isA, rfl⟩ := Finset.mem_image.mp inside
    obtain ⟨demand, member, isKey⟩ := mem_keysOf.mp isA
    obtain ⟨leader, leaderMember, together, leads⟩ := led demand member (by simp [isKey])
    have here := (mem_groupOf_home settled one subset member isKey).mpr ⟨leaderMember, together⟩
    refine (fastest_group_iff settled.interval (positive _ inside) (List.ne_nil_of_mem here)).mpr
      ⟨leader, here, fun other there => ?_⟩
    obtain ⟨otherMember, otherTogether⟩ := (mem_groupOf_home settled one subset member isKey).mp there
    exact leads other otherMember otherTogether

end

/-! ### The rate at the least completion -/

namespace SelectionMilp
variable {milp : SelectionMilp} {perRequest : Bool} {candidate : Nat}
  {reached : Fin milp.entries.length → Bool}

theorem levels_exact {groups : List ScheduleGroup} {readers : List (Fin milp.entries.length)}
    {levels : List (GroupLevels milp.entries.length × List String)}
    (valid : ∀ query ∈ readers, (milp.demandOf perRequest query).Valid)
    (leveled : List.Forall₂ (fun group level =>
      milp.groupLevels perRequest readers group = .ok level) groups levels)
    (silent : levels.flatMap Prod.snd = []) :
    levels.map Prod.fst = groups.map fun group =>
      (milp.ratedMembers perRequest readers group,
        (((milp.ratedMembers perRequest readers group).map Prod.snd).insertionSort (· ≤ ·)).dedup) := by
  induction leveled with
  | nil => rfl
  | @cons group level groups levels ran _ ih =>
    obtain ⟨first, later⟩ := List.append_eq_nil_iff.mp (List.flatMap_cons ▸ silent)
    obtain ⟨level, notes⟩ := level
    cases (first : notes = [])
    rw [List.map_cons, List.map_cons, ih later, groupLevels_ok valid ran]

theorem sharedRate_least {rate : ContextRate milp.entries.length}
    (run : milp.sharedRate perRequest candidate = .ok (rate, []))
    (some : ∃ query ∈ milp.queriesReaching candidate, reached query) :
    ∃ groups, scheduleGroups ((milp.queriesReaching candidate).map (milp.demandOf perRequest))
        milp.horizon = .ok groups ∧
      unknownPhaseJoinsSeveral (((milp.queriesReaching candidate).map
        (milp.demandOf perRequest)).map ReaderDemand.recurrence) = false ∧
      rate.least reached = (groups.map
        (milp.groupTop perRequest (milp.queriesReaching candidate) reached)).sum := by
  obtain ⟨groups, grouped, run⟩ := bind_eq_ok run
  obtain ⟨levels, leveled, run⟩ := bind_eq_ok run
  set readers := milp.queriesReaching candidate with readersDef
  have valid : ∀ query ∈ readers, (milp.demandOf perRequest query).Valid := fun query member =>
    scheduleGroups_valid grouped _ (List.mem_map_of_mem member)
  obtain ⟨isRate, quiet⟩ := Prod.mk.inj (Except.ok.inj run)
  obtain ⟨noUnknown, noLevels⟩ := List.append_eq_nil_iff.mp quiet
  have exactly := levels_exact valid (mapM_eq_ok.mp leveled) noLevels
  have nonneg : ∀ group, ∀ member ∈ milp.ratedMembers perRequest readers group, 0 ≤ member.2 := by
    intro group member inside
    obtain ⟨query, held, rfl⟩ := List.mem_map.mp inside
    obtain ⟨position, _, found⟩ := List.mem_filterMap.mp held
    exact ReaderDemand.ownRate_nonneg (valid query (List.mem_of_getElem? found))
  have total : (((levels.map Prod.fst).flatMap groupComponents).map fun component =>
      component.rate * component.least reached).sum =
      (groups.map (milp.groupTop perRequest readers reached)).sum := by
    rw [exactly, List.map_flatMap, List.flatMap_def, List.sum_flatten, List.map_map, List.map_map]
    exact congrArg List.sum (List.map_congr_left fun group _ =>
      groupComponents_sum reached (nonneg group))
  refine ⟨groups, grouped, ?_, ?_⟩
  · have same : (readers.map (milp.demandOf perRequest)).map ReaderDemand.recurrence =
        readers.map fun query => (milp.entries.get query).recurrence := List.map_map
    rw [same]
    by_contra joins
    rw [unknownPhaseNotes, if_pos ((Bool.not_eq_false _).mp joins)] at noUnknown
    cases noUnknown
  rw [← isRate]
  unfold ContextRate.ofLevels
  split
  · next members level single =>
    -- The one group holds every reader, so some member is reached.
    obtain ⟨query, listed, isReached⟩ := some
    obtain ⟨position, found⟩ := List.mem_iff_getElem?.mp listed
    obtain ⟨group, member, inside⟩ := scheduleGroups_reader grouped
      position (by rw [List.getElem?_map, found]; rfl)
    have held := List.mem_map_of_mem (f := fun group =>
      (milp.ratedMembers perRequest readers group,
        (((milp.ratedMembers perRequest readers group).map Prod.snd).insertionSort (· ≤ ·)).dedup))
      member
    rw [← exactly, single, List.mem_singleton, Prod.mk.injEq] at held
    have here : (query, (milp.demandOf perRequest query).ownRate milp.horizon) ∈ members := by
      rw [← held.1]
      exact List.mem_map_of_mem (List.mem_filterMap.mpr ⟨position, inside, found⟩)
    have rows : groupComponents (members, [level]) = [⟨members.map Prod.fst, level - 0⟩] := by
      simp [groupComponents, componentsFrom]
    have least : Component.least ⟨members.map Prod.fst, level - 0⟩ reached = 1 :=
      if_pos (List.any_eq_true.mpr ⟨query, List.mem_map_of_mem here, isReached⟩)
    rw [← total, single, List.flatMap_singleton, rows, List.map_singleton, List.sum_singleton, least,
      sub_zero, mul_one]
    rfl
  · exact total

theorem sharedRate_of_contextRates {rates : List (ContextRate milp.entries.length)}
    {queryRate : List ℚ} {context : Nat} {rate : ContextRate milp.entries.length}
    (run : milp.contextRates = .ok (rates, queryRate, []))
    (shared : milp.contexts[context]? = some (.shared candidate))
    (atQuery : (milp.materialization candidate).perRequest = some perRequest)
    (encoded : rates[context]? = some rate) :
    milp.sharedRate perRequest candidate = .ok (rate, []) := by
  obtain ⟨queryRates, _, run⟩ := bind_eq_ok run
  obtain ⟨noted, ran, run⟩ := bind_eq_ok run
  obtain ⟨isRates, rest⟩ := Prod.mk.inj (Except.ok.inj run)
  have quiet := List.flatMap_eq_nil_iff.mp (Prod.mk.inj rest).2
  rw [← isRates, List.getElem?_map, Option.map_eq_some_iff] at encoded
  obtain ⟨result, found, rfl⟩ := encoded
  have here := getElem?_of_forall₂ (mapM_eq_ok.mp ran) shared found
  have silent := quiet result (List.mem_of_getElem? found)
  rw [contextRate, atQuery] at here
  rw [← silent]
  exact here

/-- Where no inexact term is noted, the rate at the least completion is the evaluation rate of the
reached readers exactly when one of them leads each of their fixed-interval schedules. -/
theorem levels_exact_iff {rates : List (ContextRate milp.entries.length)} {queryRate : List ℚ}
    {context : Nat} {rate : ContextRate milp.entries.length}
    (run : milp.contextRates = .ok (rates, queryRate, []))
    (shared : milp.contexts[context]? = some (.shared candidate))
    (atQuery : (milp.materialization candidate).perRequest = some perRequest)
    (encoded : rates[context]? = some rate)
    (nonempty : ∃ query ∈ milp.queriesReaching candidate, reached query) :
    evaluationRate (milp.reachedDemands perRequest (milp.queriesReaching candidate) reached)
        milp.horizon = .ok (rate.least reached) ↔
      Led (milp.reachedDemands perRequest (milp.queriesReaching candidate) reached) := by
  have ran := sharedRate_of_contextRates run shared atQuery encoded
  obtain ⟨groups, grouped, joins, least⟩ := sharedRate_least ran nonempty
  have valid := scheduleGroups_valid grouped
  have one := onePhase_of_joins valid joins
  have subset : milp.reachedDemands perRequest (milp.queriesReaching candidate) reached ⊆
      (milp.queriesReaching candidate).map (milp.demandOf perRequest) :=
    List.map_subset _ fun _ => List.mem_of_mem_filter
  obtain ⟨home, bySchedule, loop, settled, holds, reads, same⟩ :=
    scheduleGroups_ok milp.horizon valid
  obtain ⟨own, ownSettled, rated⟩ := evaluationRate_ok milp.horizon
    fun demand member => valid demand (subset member)
  cases same.symm.trans grouped
  have queriesValid : ∀ query ∈ milp.queriesReaching candidate,
      (milp.demandOf perRequest query).Valid := fun query member =>
    valid _ (List.mem_map_of_mem member)
  rw [rated, least, List.map_append, List.map_append, List.sum_append, List.sum_append,
    fixed_tops holds, estimated_tops queriesValid, batch_tops reads,
    ← tops_eq_fixedRate_iff milp.horizon
      (fun demand member => valid demand (subset member)) settled one subset ownSettled]
  simp only [Except.ok.injEq, add_left_inj]
  exact eq_comm

end SelectionMilp
/-- A panel refreshed every minute. -/
def panel (range : RangeEvaluation) : ReaderDemand :=
  ⟨.repeated (.fixedInterval 60000), some range⟩

/-- Three panels over the last ten minutes, by one, two and three minutes, that may reach one
query-time candidate. -/
def panels : SelectionMilp where
  entries := [panel ⟨60000, 600000, by decide⟩, panel ⟨120000, 600000, by decide⟩,
    panel ⟨180000, 540000, by decide⟩]
  horizon := ⟨3600, by decide⟩
  contexts := [.shared 0]
  materialization := fun _ => .matAtQuery
  reach := fun _ _ => true

def panelsRate : ContextRate 3 :=
  .components [⟨[0, 1, 2], 1 / 15⟩, ⟨[0, 1], 1 / 30⟩, ⟨[0], 1 / 12⟩]

theorem panels_rates :
    panels.contextRates = .ok ([panelsRate], [11 / 60, 1 / 10, 1 / 15], []) := by
  decide +kernel

/-- With the first panel, it leads. -/
theorem panels_led : Led (panels.reachedDemands false (panels.queriesReaching 0) fun _ => true) :=
  (@SelectionMilp.levels_exact_iff panels false 0 (fun _ => true) [panelsRate] _ 0 panelsRate
    panels_rates rfl rfl rfl (by decide +kernel)).mp (by decide +kernel)

/-- A solution where only the later panels reach the candidate. -/
def laterPanels (query : Fin 3) : Bool := query ≠ 0

/-- They evaluate at eight instants a request and are charged for six. -/
theorem panels_undercharged :
    panels.contextRates = .ok ([panelsRate], [11 / 60, 1 / 10, 1 / 15], []) ∧
    panelsRate.least laterPanels = 6 / 60 ∧
    evaluationRate (panels.reachedDemands false (panels.queriesReaching 0) laterPanels)
      panels.horizon = .ok (8 / 60) := by
  decide +kernel

end AsapPlanner.Selection
