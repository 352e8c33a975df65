import AsapPlanner.Demand.Instants
import AsapPlanner.Ordered.Statistic
import Mathlib.Algebra.BigOperators.Group.Finset.Basic
import Mathlib.Algebra.BigOperators.Group.List.Lemmas
import Mathlib.Data.Nat.Cast.Order.Ring
import Mathlib.Tactic.Positivity
import Mathlib.Algebra.Order.Field.Basic

/-!
What `schedule_groups` builds: every reader's group, and the instants each group evaluates at.
-/

namespace AsapPlanner.Demand
open Rust Ordered

namespace ReaderDemand

def key (demand : ReaderDemand) : Option ScheduleKey :=
  match demand.recurrence with
  | .repeated (.fixedInterval interval) => some (toLex (interval, ⊥))
  | .repeated (.fixedIntervalAt interval evaluationPhase) =>
    some (toLex (interval, ((evaluationPhase % interval : Nat) : WithBot Nat)))
  | _ => none

def estimate? (demand : ReaderDemand) : Option ℚ :=
  match demand.recurrence with
  | .repeated (.estimatedRate rate) => some rate
  | _ => none

def batch? (demand : ReaderDemand) : Option Nat :=
  match demand.recurrence with
  | .repeated (.scheduled times) => some (times.length * demand.steps)
  | .oneTime count => some (count * demand.steps)
  | .unknown => some demand.steps
  | _ => none

/-- The offsets back from a request's end a fixed-interval reader evaluates at. -/
def instants (demand : ReaderDemand) : Finset Nat :=
  match demand.key with
  | none => ∅
  | some key =>
    offsets (demand.stepAndSpan (ofLex key).1).1 (demand.stepAndSpan (ofLex key).1).2

/-- The recurrence is one `schedule_groups` accepts. -/
structure Valid (demand : ReaderDemand) : Prop where
  interval : ∀ key, demand.key = some key → 0 < (ofLex key).1
  rate : ∀ rate, demand.estimate? = some rate → 0 ≤ rate

theorem stepAndSpan_positive (demand : ReaderDemand) {interval : Nat} (positive : 0 < interval) :
    0 < (demand.stepAndSpan interval).1 := by
  unfold stepAndSpan
  split
  · exact positive
  · next range _ => exact range.positive

def estimatedGroup (demand : ReaderDemand) (reader : Nat) : Option ScheduleGroup :=
  demand.estimate?.map fun rate => ⟨[reader], rate * demand.steps, .estimatedRate⟩

end ReaderDemand

/-! ### One reader -/

def FixedSchedule.add (schedule : FixedSchedule) (reader : Nat) (demand : ReaderDemand)
    (interval : Nat) : FixedSchedule :=
  (record schedule.1 (demand.stepAndSpan interval).1 (demand.stepAndSpan interval).2,
    schedule.2 ++ [reader])

/-- The locals once a valid reader is read. -/
def ReaderLoop.after (loop : ReaderLoop) (reader : Nat) (demand : ReaderDemand) : ReaderLoop where
  bySchedule :=
    match demand.key with
    | none => loop.bySchedule
    | some key =>
      loop.bySchedule.change key FixedSchedule.empty fun schedule =>
        schedule.add reader demand (ofLex key).1
  estimated := loop.estimated ++ (demand.estimatedGroup reader).toList
  invocations := max loop.invocations (demand.batch?.getD 0)
  nonRepeating := loop.nonRepeating ++ (demand.batch?.map fun _ => reader).toList

theorem ReaderLoop.readFixed_ok {loop next : ReaderLoop} {reader interval : Nat}
    {demand : ReaderDemand} {phase : WithBot Nat}
    (isKey : demand.key = some (toLex (interval, phase))) (notRate : demand.estimate? = none)
    (notBatch : demand.batch? = none) :
    loop.readFixed reader demand interval phase = .ok next ↔
      demand.Valid ∧ next = loop.after reader demand := by
  unfold readFixed
  by_cases zero : interval = 0
  · rw [if_pos zero]
    refine ⟨nofun, fun ⟨valid, _⟩ => ?_⟩
    exact absurd (valid.interval _ isKey) (by simp [zero])
  · have valid : demand.Valid := by
      refine ⟨fun key same => ?_, fun rate same => by rw [notRate] at same; cases same⟩
      cases isKey.symm.trans same
      exact Nat.pos_of_ne_zero zero
    rw [if_neg zero]
    simp only [Except.ok.injEq, valid, true_and, after, isKey, notBatch,
      ReaderDemand.estimatedGroup, notRate, Option.map_none, Option.toList_none,
      List.append_nil, Option.getD_none, Nat.max_zero]
    exact eq_comm

theorem ReaderLoop.readBatch_ok {loop next : ReaderLoop} {reader invocations : Nat}
    {demand : ReaderDemand} (isBatch : demand.batch? = some invocations)
    (notKey : demand.key = none) (notRate : demand.estimate? = none) :
    Except.ok (loop.readBatch reader invocations) = (.ok next : Except AnalyticalCostError _) ↔
      demand.Valid ∧ next = loop.after reader demand := by
  have valid : demand.Valid := by
    refine ⟨fun key same => ?_, fun rate same => ?_⟩
    · rw [notKey] at same; cases same
    · rw [notRate] at same; cases same
  simp only [Except.ok.injEq, valid, true_and, after, readBatch, notKey, isBatch,
    ReaderDemand.estimatedGroup, notRate, Option.map_none, Option.toList_none, List.append_nil,
    Option.getD_some, Option.map_some, Option.toList_some]
  exact eq_comm

theorem ReaderLoop.read_ok {loop next : ReaderLoop} {reader : Nat} {demand : ReaderDemand} :
    loop.read reader demand = .ok next ↔ demand.Valid ∧ next = loop.after reader demand := by
  obtain ⟨recurrence, range⟩ := demand
  cases recurrence with
  | oneTime count => exact readBatch_ok rfl rfl rfl
  | unknown => exact readBatch_ok rfl rfl rfl
  | repeated demand =>
    cases demand with
    | fixedInterval interval => exact readFixed_ok rfl rfl rfl
    | fixedIntervalAt interval phase => exact readFixed_ok rfl rfl rfl
    | scheduled times => exact readBatch_ok rfl rfl rfl
    | estimatedRate rate =>
      simp only [read]
      by_cases negative : rate < 0
      · rw [if_pos negative]
        refine ⟨nofun, fun ⟨valid, _⟩ => ?_⟩
        exact absurd (valid.rate rate rfl) (not_le.mpr negative)
      · have valid : ReaderDemand.Valid ⟨.repeated (.estimatedRate rate), range⟩ := by
          refine ⟨nofun, fun other same => ?_⟩
          cases same
          exact not_lt.mp negative
        rw [if_neg negative]
        simp only [Except.ok.injEq, valid, true_and, after, ReaderDemand.key, ReaderDemand.batch?,
          ReaderDemand.estimatedGroup, ReaderDemand.estimate?, Option.map_some, Option.map_none,
          Option.toList_some, Option.toList_none, Option.getD_none, List.append_nil, Nat.max_zero]
        exact eq_comm

/-! ### What a schedule holds -/

/-- A schedule holds the readers at the demands of `here`, and the offsets they evaluate at. -/
structure FixedSchedule.Describes (schedule : FixedSchedule) (demands : List ReaderDemand)
    (here : ReaderDemand → Prop) : Prop where
  readers : ∀ reader, reader ∈ schedule.2 ↔ ∃ demand, demands[reader]? = some demand ∧ here demand
  positive : StepsPositive schedule.1
  offsets : ∀ offset, offset ∈ Demand.instants schedule.1 ↔
    ∃ demand ∈ demands, here demand ∧ offset ∈ demand.instants

theorem FixedSchedule.empty_describes {demands : List ReaderDemand} {here : ReaderDemand → Prop}
    (none : ∀ demand ∈ demands, ¬here demand) : FixedSchedule.empty.Describes demands here := by
  refine ⟨fun reader => ?_, nofun, fun offset => ?_⟩
  · refine ⟨nofun, ?_⟩
    rintro ⟨demand, found, inside⟩
    exact absurd inside (none demand (List.mem_of_getElem? found))
  · refine ⟨nofun, ?_⟩
    rintro ⟨demand, member, inside, _⟩
    exact absurd inside (none demand member)

theorem FixedSchedule.Describes.congr {schedule : FixedSchedule} {demands : List ReaderDemand}
    {here there : ReaderDemand → Prop} (holds : schedule.Describes demands here)
    (same : ∀ demand ∈ demands, here demand ↔ there demand) : schedule.Describes demands there := by
  refine ⟨fun reader => ?_, holds.positive, fun offset => ?_⟩
  · rw [holds.readers]
    refine exists_congr fun demand => and_congr_right fun found => ?_
    exact same demand (List.mem_of_getElem? found)
  · rw [holds.offsets]
    exact exists_congr fun demand => and_congr_right fun member => by rw [same demand member]

theorem getElem?_concat {demands : List ReaderDemand} {last : ReaderDemand} {reader : Nat}
    (here : ReaderDemand → Prop) :
    (∃ demand, (demands ++ [last])[reader]? = some demand ∧ here demand) ↔
      (∃ demand, demands[reader]? = some demand ∧ here demand) ∨
        reader = demands.length ∧ here last := by
  rcases Nat.lt_trichotomy reader demands.length with inside | rfl | outside
  · simp [List.getElem?_append_left inside, Nat.ne_of_lt inside]
  · simp
  · simp [List.getElem?_eq_none, outside.le, Nat.ne_of_gt outside, Nat.succ_le_of_lt outside]

theorem FixedSchedule.Describes.skip {schedule : FixedSchedule} {demands : List ReaderDemand}
    {here : ReaderDemand → Prop} {last : ReaderDemand} (holds : schedule.Describes demands here)
    (away : ¬here last) : schedule.Describes (demands ++ [last]) here := by
  refine ⟨fun reader => ?_, holds.positive, fun offset => ?_⟩
  · rw [holds.readers, getElem?_concat _]
    simp [away]
  · rw [holds.offsets]
    simp only [List.mem_append, List.mem_singleton, or_and_right, exists_or, exists_eq_left]
    simp [away]

theorem FixedSchedule.Describes.add {schedule : FixedSchedule} {demands : List ReaderDemand}
    {here : ReaderDemand → Prop} {last : ReaderDemand} {key : ScheduleKey}
    (holds : schedule.Describes demands here) (isKey : last.key = some key) (valid : last.Valid)
    (joined : here last) :
    (schedule.add demands.length last (ofLex key).1).Describes (demands ++ [last]) here := by
  have step := last.stepAndSpan_positive (valid.interval key isKey)
  refine ⟨fun reader => ?_, record_positive holds.positive step, fun offset => ?_⟩
  · rw [getElem?_concat _, ← holds.readers]
    simp [FixedSchedule.add, joined]
  · have own : last.instants = Demand.offsets (last.stepAndSpan (ofLex key).1).1
        (last.stepAndSpan (ofLex key).1).2 := by simp only [ReaderDemand.instants, isKey]
    rw [FixedSchedule.add, mem_instants_record step, holds.offsets, ← own]
    simp only [List.mem_append, List.mem_singleton, or_and_right, exists_or, exists_eq_left]
    simp [joined]

/-! ### Reading all readers -/

/-- The key is where `home` puts the demand's own. -/
def ReaderDemand.AtHome (home : ScheduleKey → ScheduleKey) (key : ScheduleKey)
    (demand : ReaderDemand) : Prop :=
  demand.key.map home = some key

/-- Every key's schedule is that of the readers whose home it is. -/
structure Holds (home : ScheduleKey → ScheduleKey) (demands : List ReaderDemand)
    (bySchedule : BTreeMap ScheduleKey FixedSchedule) : Prop where
  vacant : ∀ key, bySchedule.get? key = none ↔ ∀ demand ∈ demands, ¬demand.AtHome home key
  described : ∀ key, ((bySchedule.get? key).getD FixedSchedule.empty).Describes demands
    (ReaderDemand.AtHome home key)

theorem holds_start : Holds id [] BTreeMap.empty := by
  refine ⟨fun key => ?_, fun key => FixedSchedule.empty_describes nofun⟩
  simp

theorem Holds.after {demands : List ReaderDemand} {last : ReaderDemand} {loop : ReaderLoop}
    (before : Holds id demands loop.bySchedule) (valid : last.Valid) :
    Holds id (demands ++ [last]) (loop.after demands.length last).bySchedule := by
  cases isKey : last.key with
  | none =>
    have away : ∀ key, ¬last.AtHome id key := by simp [ReaderDemand.AtHome, isKey]
    refine ⟨fun key => ?_, fun key => ?_⟩
    · simp only [ReaderLoop.after, isKey, before.vacant, List.forall_mem_append,
        List.forall_mem_singleton, away, not_false_iff, and_true]
    · simp only [ReaderLoop.after, isKey]
      exact (before.described key).skip (away key)
  | some own =>
    have home : ∀ key, last.AtHome id key ↔ key = own := by
      simp [ReaderDemand.AtHome, isKey, eq_comm]
    refine ⟨fun key => ?_, fun key => ?_⟩
    · simp only [ReaderLoop.after, isKey, BTreeMap.get?_change, List.forall_mem_append,
        List.forall_mem_singleton, home]
      by_cases same : key = own
      · simp [same]
      · simp [same, before.vacant]
    · simp only [ReaderLoop.after, isKey, BTreeMap.get?_change]
      by_cases same : key = own
      · subst same
        rw [if_pos rfl, Option.getD_some]
        exact (before.described key).add isKey valid ((home key).mpr rfl)
      · rw [if_neg same]
        exact (before.described key).skip fun here => same ((home key).mp here)

def estimatedGroups (demands : List ReaderDemand) : List ScheduleGroup :=
  demands.zipIdx.filterMap fun entry => entry.1.estimatedGroup entry.2

/-- The most evaluations of the batch. -/
def batchInvocations (demands : List ReaderDemand) : Nat :=
  (demands.map fun demand => demand.batch?.getD 0).foldl max 0

/-- What the loop holds once it has read `demands`. -/
structure ReaderLoop.Reads (loop : ReaderLoop) (demands : List ReaderDemand) : Prop where
  valid : ∀ demand ∈ demands, demand.Valid
  holds : Holds id demands loop.bySchedule
  estimated : loop.estimated = estimatedGroups demands
  invocations : loop.invocations = batchInvocations demands
  nonRepeating : ∀ reader, reader ∈ loop.nonRepeating ↔
    ∃ demand, demands[reader]? = some demand ∧ demand.batch?.isSome

theorem ReaderLoop.start_reads : ReaderLoop.start.Reads [] :=
  ⟨nofun, holds_start, rfl, rfl, by simp [ReaderLoop.start]⟩

theorem ReaderLoop.Reads.after {loop : ReaderLoop} {demands : List ReaderDemand}
    {last : ReaderDemand} (before : loop.Reads demands) (valid : last.Valid) :
    (loop.after demands.length last).Reads (demands ++ [last]) := by
  refine ⟨?_, before.holds.after valid, ?_, ?_, fun reader => ?_⟩
  · intro demand member
    rcases List.mem_append.mp member with earlier | here
    · exact before.valid demand earlier
    · exact List.mem_singleton.mp here ▸ valid
  · simp [ReaderLoop.after, before.estimated, estimatedGroups, List.zipIdx_append,
      List.filterMap_cons]
    cases last.estimatedGroup demands.length <;> rfl
  · simp [ReaderLoop.after, before.invocations, batchInvocations]
  · rw [getElem?_concat fun demand => demand.batch?.isSome, ReaderLoop.after,
      List.mem_append, before.nonRepeating]
    cases last.batch? <;> simp

theorem ReaderLoop.readAll_ok {loop final : ReaderLoop} {done rest : List ReaderDemand}
    (before : loop.Reads done) :
    ReaderLoop.readAll done.length rest loop = .ok final → final.Reads (done ++ rest) := by
  intro run
  induction rest generalizing loop done with
  | nil =>
    cases run
    rwa [List.append_nil]
  | cons demand rest ih =>
    unfold ReaderLoop.readAll at run
    cases step : loop.read done.length demand with
    | error _ => rw [step] at run; cases run
    | ok next =>
      rw [step] at run
      obtain ⟨valid, rfl⟩ := ReaderLoop.read_ok.mp step
      have later := ih (before.after valid) (by rw [List.length_append]; exact run)
      rwa [List.append_assoc] at later

theorem ReaderLoop.readAll_total (loop : ReaderLoop) (reader : Nat) {rest : List ReaderDemand}
    (valid : ∀ demand ∈ rest, demand.Valid) :
    ∃ final, ReaderLoop.readAll reader rest loop = .ok final := by
  induction rest generalizing loop reader with
  | nil => exact ⟨loop, rfl⟩
  | cons demand rest ih =>
    have step : loop.read reader demand = .ok (loop.after reader demand) :=
      ReaderLoop.read_ok.mpr ⟨valid _ List.mem_cons_self, rfl⟩
    obtain ⟨final, run⟩ := ih (loop.after reader demand) (reader + 1)
      fun other member => valid other (List.mem_cons_of_mem _ member)
    refine ⟨final, ?_⟩
    rw [ReaderLoop.readAll, step]
    exact run

/-! ### Joining the readers of unknown phase -/

theorem foldl_record_positive {entries : List (Nat × Nat)} {spans : BTreeMap Nat Nat}
    (before : StepsPositive spans) (positive : ∀ entry ∈ entries, 0 < entry.1) :
    StepsPositive (entries.foldl (fun spans entry => record spans entry.1 entry.2) spans) := by
  induction entries generalizing spans with
  | nil => exact before
  | cons entry rest ih =>
    refine ih (record_positive before (positive _ List.mem_cons_self)) ?_
    exact fun other member => positive other (List.mem_cons_of_mem _ member)

theorem mem_instants_foldl {entries : List (Nat × Nat)} {spans : BTreeMap Nat Nat} {offset : Nat}
    (positive : ∀ entry ∈ entries, 0 < entry.1) :
    offset ∈ instants (entries.foldl (fun spans entry => record spans entry.1 entry.2) spans) ↔
      offset ∈ instants spans ∨ ∃ entry ∈ entries, offset ∈ offsets entry.1 entry.2 := by
  induction entries generalizing spans with
  | nil => simp
  | cons entry rest ih =>
    rw [List.foldl_cons, ih fun other member => positive other (List.mem_cons_of_mem _ member),
      mem_instants_record (positive _ List.mem_cons_self), List.exists_mem_cons_iff, or_assoc]

/-- The schedule of the readers of both. -/
def FixedSchedule.join (schedule unknown : FixedSchedule) : FixedSchedule :=
  (unknown.1.entries.foldl (fun spans entry => record spans entry.1 entry.2) schedule.1,
    (schedule.2 ++ unknown.2).insertionSort (· ≤ ·))

theorem FixedSchedule.Describes.join {schedule unknown : FixedSchedule}
    {demands : List ReaderDemand} {here there : ReaderDemand → Prop}
    (holds : schedule.Describes demands here) (others : unknown.Describes demands there) :
    (schedule.join unknown).Describes demands fun demand => here demand ∨ there demand := by
  have positive : ∀ entry ∈ unknown.1.entries, 0 < entry.1 :=
    fun entry member => others.positive _ _ (BTreeMap.mem_entries.mp member)
  refine ⟨fun reader => ?_, foldl_record_positive holds.positive positive, fun offset => ?_⟩
  · simp only [FixedSchedule.join, List.mem_insertionSort, List.mem_append, holds.readers,
      others.readers, and_or_left, exists_or]
  · have unknownOffsets : (∃ entry ∈ unknown.1.entries, offset ∈ Demand.offsets entry.1 entry.2) ↔
        offset ∈ instants unknown.1 := by
      simp [instants]
    simp only [FixedSchedule.join, mem_instants_foldl positive, unknownOffsets, holds.offsets,
      others.offsets, or_and_right, and_or_left, exists_or]

/-- The homes once an interval's unknown phase joins `known`. -/
def redirect (home : ScheduleKey → ScheduleKey) (unknown known : ScheduleKey) (key : ScheduleKey) :
    ScheduleKey :=
  if home key = unknown then known else home key

theorem redirect_atHome (home : ScheduleKey → ScheduleKey) {unknown known : ScheduleKey}
    (key : ScheduleKey) (apart : known ≠ unknown) (demand : ReaderDemand) :
    demand.AtHome (redirect home unknown known) key ↔
      key ≠ unknown ∧ (demand.AtHome home key ∨ key = known ∧ demand.AtHome home unknown) := by
  simp only [ReaderDemand.AtHome, Option.map_eq_some_iff, redirect]
  constructor
  · rintro ⟨own, isKey, there⟩
    split at there
    · next moved => exact ⟨there ▸ apart, .inr ⟨there.symm, own, isKey, moved⟩⟩
    · next stays => exact ⟨there ▸ stays, .inl ⟨own, isKey, there⟩⟩
  · rintro ⟨notUnknown, ⟨own, isKey, there⟩ | ⟨rfl, own, isKey, there⟩⟩
    · exact ⟨own, isKey, by rw [if_neg (by rwa [there]), there]⟩
    · exact ⟨own, isKey, by rw [if_pos there]⟩

theorem Holds.redirect {home : ScheduleKey → ScheduleKey} {demands : List ReaderDemand}
    {bySchedule : BTreeMap ScheduleKey FixedSchedule} {unknown known : ScheduleKey}
    (before : Holds home demands bySchedule) (apart : known ≠ unknown)
    (present : bySchedule.get? known ≠ none) :
    Holds (redirect home unknown known) demands
      ((bySchedule.remove unknown).change known FixedSchedule.empty fun schedule =>
        schedule.join ((bySchedule.get? unknown).getD FixedSchedule.empty)) := by
  have atHome := fun key demand => redirect_atHome home key apart demand
  refine ⟨fun key => ?_, fun key => ?_⟩
  · simp only [BTreeMap.get?_change, BTreeMap.get?_remove, atHome]
    by_cases isKnown : key = known
    · subst isKnown
      have held := mt (before.vacant key).mpr present
      push Not at held
      obtain ⟨demand, member, here⟩ := held
      exact iff_of_false (by simp) fun empty => empty demand member ⟨apart, .inl here⟩
    · by_cases isUnknown : key = unknown
      · simp [isUnknown, Ne.symm apart]
      · simp [isKnown, isUnknown, before.vacant]
  · simp only [BTreeMap.get?_change, BTreeMap.get?_remove]
    by_cases isKnown : key = known
    · subst isKnown
      rw [if_pos rfl, if_neg apart, Option.getD_some]
      refine ((before.described key).join (before.described unknown)).congr fun demand _ => ?_
      simp [atHome, apart]
    · rw [if_neg isKnown]
      by_cases isUnknown : key = unknown
      · rw [if_pos isUnknown, Option.getD_none]
        exact FixedSchedule.empty_describes fun demand _ here =>
          ((atHome key demand).mp here).1 isUnknown
      · rw [if_neg isUnknown]
        exact (before.described key).congr fun demand _ => by simp [atHome, isKnown, isUnknown]

/-- Where the readers' keys are at: on their own interval, known phases at home, and an unknown
one at a reader's known phase, or at home when it stays or its interval has none. -/
structure Homes (demands : List ReaderDemand) (stays : Nat → Prop)
    (home : ScheduleKey → ScheduleKey) : Prop where
  interval : ∀ key, (ofLex (home key)).1 = (ofLex key).1
  known : ∀ key, (ofLex key).2 ≠ ⊥ → home key = key
  unknown : ∀ key, (ofLex key).2 = ⊥ →
    ((ofLex (home key)).2 ≠ ⊥ ∧ ∃ demand ∈ demands, demand.key = some (home key)) ∨
    home key = key ∧ (stays (ofLex key).1 ∨ ∀ demand ∈ demands, ∀ other, demand.key = some other →
      (ofLex other).1 = (ofLex key).1 → (ofLex other).2 = ⊥)

/-- A key that has left its place is at the first known phase on its interval. -/
def FirstHomes (demands : List ReaderDemand) (home : ScheduleKey → ScheduleKey) : Prop :=
  ∀ key, home key ≠ key → ∀ demand ∈ demands, ∀ other, demand.key = some other →
    (ofLex other).1 = (ofLex key).1 → (ofLex other).2 ≠ ⊥ → home key ≤ other

theorem find?_sorted_le {bySchedule : BTreeMap ScheduleKey FixedSchedule}
    {p : ScheduleKey × FixedSchedule → Bool} {entry other : ScheduleKey × FixedSchedule}
    (found : bySchedule.entries.find? p = some entry) (member : other ∈ bySchedule.entries) (here : p other) :
    entry.1 ≤ other.1 := by
  obtain ⟨_, before, after, split, none⟩ := List.find?_eq_some_iff_append.mp found
  have sorted := bySchedule.sorted
  rw [split] at member sorted
  rcases List.mem_append.mp member with earlier | later
  · have absent := none other earlier
    simp [here] at absent
  · rcases List.mem_cons.mp later with rfl | below
    · exact le_rfl
    · exact ((List.pairwise_cons.mp (List.pairwise_append.mp sorted).2.1).1 other below).le

theorem joinKnown_first {home : ScheduleKey → ScheduleKey} {demands : List ReaderDemand}
    {stays : Nat → Prop} {bySchedule : BTreeMap ScheduleKey FixedSchedule} {interval : Nat}
    (homes : Homes demands stays home) (holds : Holds home demands bySchedule)
    (first : FirstHomes demands home) :
    ∃ home', Homes demands (fun other => stays other ∧ other ≠ interval) home' ∧
      Holds home' demands (joinKnown bySchedule interval) ∧ FirstHomes demands home' := by
  unfold joinKnown
  cases found : bySchedule.entries.find? fun entry =>
    (ofLex entry.1).1 = interval ∧ (ofLex entry.1).2 ≠ ⊥ with
  | none =>
    refine ⟨home, ⟨homes.interval, homes.known, fun key unknown => ?_⟩, holds, first⟩
    refine (homes.unknown key unknown).imp id fun ⟨same, why⟩ => ⟨same, ?_⟩
    by_cases here : (ofLex key).1 = interval
    · refine .inr fun demand member other isKey sameInterval => ?_
      by_contra phase
      have present := mt (holds.vacant other).mp fun none => by
        refine none demand member ?_
        rw [ReaderDemand.AtHome, isKey, Option.map_some, homes.known other phase]
      obtain ⟨schedule, held⟩ := Option.ne_none_iff_exists'.mp present
      have none := List.find?_eq_none.mp found _ (BTreeMap.mem_entries.mpr held)
      simp [sameInterval, here, phase] at none
    · exact why.imp (fun stay => ⟨stay, here⟩) id
  | some entry =>
    obtain ⟨known, schedule⟩ := entry
    have held := BTreeMap.mem_entries.mp (List.mem_of_find?_eq_some found)
    have isKnown := List.find?_some found
    simp only [decide_eq_true_eq] at isKnown
    obtain ⟨sameInterval, phase⟩ := isKnown
    have apart : known ≠ toLex (interval, ⊥) := fun same => phase (by rw [same]; rfl)
    refine ⟨redirect home (toLex (interval, ⊥)) known, ⟨fun key => ?_, fun key own => ?_,
      fun key unknown => ?_⟩, holds.redirect apart (by simp [held]), fun key left => ?_⟩
    · unfold redirect
      split
      · next moved => rw [sameInterval, ← homes.interval key, moved]; rfl
      · exact homes.interval key
    · have atHome := homes.known key own
      rw [redirect, atHome, if_neg]
      exact fun same => own (by rw [same]; rfl)
    · unfold redirect
      split
      · refine .inl ⟨phase, ?_⟩
        have some := mt (holds.vacant known).mpr (by simp [held])
        push Not at some
        obtain ⟨demand, member, there⟩ := some
        obtain ⟨own, isKey, atKnown⟩ := Option.map_eq_some_iff.mp there
        by_cases ownPhase : (ofLex own).2 = ⊥
        · rcases homes.unknown own ownPhase with ⟨_, other⟩ | ⟨same, _⟩
          · rwa [atKnown] at other
          · exact absurd (by rwa [← atKnown, same]) phase
        · exact ⟨demand, member, by rw [isKey, ← atKnown, homes.known own ownPhase]⟩
      · next stay =>
        refine (homes.unknown key unknown).imp id fun ⟨same, why⟩ => ⟨same, ?_⟩
        refine why.imp (fun stays => ⟨stays, fun here => stay ?_⟩) id
        rw [same]
        exact Prod.ext here unknown
    · intro demand member other isKey otherInterval otherKnown
      unfold redirect at left ⊢
      split at left
      · next moved =>
        rw [if_pos moved]
        have present := mt (holds.vacant other).mp fun none => by
          refine none demand member ?_
          rw [ReaderDemand.AtHome, isKey, Option.map_some, homes.known other otherKnown]
        obtain ⟨otherSchedule, otherHeld⟩ := Option.ne_none_iff_exists'.mp present
        have here : (ofLex other).1 = interval := by
          rw [otherInterval, ← homes.interval key, moved]
          rfl
        exact find?_sorted_le found (BTreeMap.mem_entries.mpr otherHeld) (by simp [here, otherKnown])
      · next stays =>
        rw [if_neg stays]
        exact first key left demand member other isKey otherInterval otherKnown

theorem foldl_joinKnown_first {home : ScheduleKey → ScheduleKey} {demands : List ReaderDemand}
    {stays : Nat → Prop} {bySchedule : BTreeMap ScheduleKey FixedSchedule} (intervals : List Nat)
    (homes : Homes demands stays home) (holds : Holds home demands bySchedule)
    (first : FirstHomes demands home) :
    ∃ home', Homes demands (fun other => stays other ∧ other ∉ intervals) home' ∧
      Holds home' demands (intervals.foldl joinKnown bySchedule) ∧ FirstHomes demands home' := by
  induction intervals generalizing home stays bySchedule with
  | nil => exact ⟨home, by simpa using homes, holds, first⟩
  | cons interval rest ih =>
    obtain ⟨joined, joinedHomes, joinedHolds, joinedFirst⟩ := joinKnown_first homes holds first
    obtain ⟨final, finalHomes, finalHolds, finalFirst⟩ := ih joinedHomes joinedHolds joinedFirst
    refine ⟨final, ?_, finalHolds, finalFirst⟩
    simpa only [List.mem_cons, not_or, and_assoc] using finalHomes

structure Settled (demands : List ReaderDemand) (home : ScheduleKey → ScheduleKey) : Prop where
  interval : ∀ key, (ofLex (home key)).1 = (ofLex key).1
  known : ∀ key, (ofLex key).2 ≠ ⊥ → home key = key
  unknown : ∀ demand ∈ demands, ∀ key, demand.key = some key → (ofLex key).2 = ⊥ →
    ((ofLex (home key)).2 ≠ ⊥ ∧ ∃ other ∈ demands, other.key = some (home key)) ∨
    home key = key ∧ ∀ other ∈ demands, ∀ otherKey, other.key = some otherKey →
      (ofLex otherKey).1 = (ofLex key).1 → (ofLex otherKey).2 = ⊥

theorem scheduleGroups_first {demands : List ReaderDemand} (horizon : Horizon)
    (valid : ∀ demand ∈ demands, demand.Valid) :
    ∃ home bySchedule loop, Settled demands home ∧ FirstHomes demands home ∧
      Holds home demands bySchedule ∧ ReaderLoop.Reads loop demands ∧ scheduleGroups demands horizon =
        .ok (bySchedule.entries.map fixedGroup ++ estimatedGroups demands ++
          loop.batchGroup horizon) := by
  obtain ⟨loop, run⟩ := ReaderLoop.readAll_total ReaderLoop.start 0 valid
  have reads : loop.Reads demands := ReaderLoop.readAll_ok ReaderLoop.start_reads run
  have start : Homes demands (fun _ => True) id :=
    ⟨fun _ => rfl, fun _ _ => rfl, fun _ _ => .inr ⟨rfl, .inl trivial⟩⟩
  obtain ⟨home, homes, holds, first⟩ := foldl_joinKnown_first
    (unknownPhaseIntervalsMs loop.bySchedule) start reads.holds fun key left => absurd rfl left
  refine ⟨home, _, loop, ⟨homes.interval, homes.known, ?_⟩, first, holds, reads, ?_⟩
  · intro demand member key isKey unknown
    refine (homes.unknown key unknown).imp id fun ⟨same, why⟩ => ⟨same, ?_⟩
    refine why.resolve_left fun ⟨_, missing⟩ => missing ?_
    have present := mt (reads.holds.vacant key).mp fun none =>
      none demand member (by simp [ReaderDemand.AtHome, isKey])
    obtain ⟨schedule, held⟩ := Option.ne_none_iff_exists'.mp present
    refine List.mem_map.mpr ⟨(key, schedule), List.mem_filter.mpr ⟨?_, ?_⟩, rfl⟩
    · exact BTreeMap.mem_entries.mpr held
    · simpa using unknown
  · simp only [scheduleGroups, run]
    rw [← reads.estimated]
    rfl

theorem scheduleGroups_ok {demands : List ReaderDemand} (horizon : Horizon)
    (valid : ∀ demand ∈ demands, demand.Valid) :
    ∃ home bySchedule loop, Settled demands home ∧ Holds home demands bySchedule ∧
      ReaderLoop.Reads loop demands ∧ scheduleGroups demands horizon =
        .ok (bySchedule.entries.map fixedGroup ++ estimatedGroups demands ++
          loop.batchGroup horizon) := by
  obtain ⟨home, bySchedule, loop, settled, _, rest⟩ := scheduleGroups_first horizon valid
  exact ⟨home, bySchedule, loop, settled, rest⟩

theorem scheduleGroups_valid {demands : List ReaderDemand} {horizon : Horizon}
    {groups : List ScheduleGroup} (run : scheduleGroups demands horizon = .ok groups) :
    ∀ demand ∈ demands, demand.Valid := by
  unfold scheduleGroups at run
  cases read : ReaderLoop.readAll 0 demands ReaderLoop.start with
  | error _ => rw [read] at run; cases run
  | ok loop => exact (ReaderLoop.readAll_ok ReaderLoop.start_reads read).valid

/-! ### Readers evaluated together -/

/-- One interval, and one phase on it unless a phase is unknown. -/
def TogetherKeys (key other : ScheduleKey) : Prop :=
  (ofLex key).1 = (ofLex other).1 ∧
    ((ofLex key).2 = (ofLex other).2 ∨ (ofLex key).2 = ⊥ ∨ (ofLex other).2 = ⊥)

def ReaderDemand.Together (demand other : ReaderDemand) : Prop :=
  ∃ key otherKey, demand.key = some key ∧ other.key = some otherKey ∧ TogetherKeys key otherKey

/-- On an interval with a reader of unknown phase, the known phases are one. -/
def OnePhase (demands : List ReaderDemand) : Prop :=
  ∀ demand ∈ demands, ∀ key, demand.key = some key → (ofLex key).2 = ⊥ →
    ∀ first ∈ demands, ∀ firstKey, first.key = some firstKey → (ofLex firstKey).2 ≠ ⊥ →
    ∀ second ∈ demands, ∀ secondKey, second.key = some secondKey → (ofLex secondKey).2 ≠ ⊥ →
      (ofLex firstKey).1 = (ofLex key).1 → (ofLex secondKey).1 = (ofLex key).1 →
      firstKey = secondKey

theorem OnePhase.subset {demands others : List ReaderDemand} (one : OnePhase demands)
    (subset : others ⊆ demands) : OnePhase others :=
  fun demand member key isKey unknown first firstMember firstKey isFirst firstKnown second
    secondMember =>
    one demand (subset member) key isKey unknown first (subset firstMember) firstKey isFirst
      firstKnown second (subset secondMember)

theorem Settled.unknown_known {demands : List ReaderDemand} {home : ScheduleKey → ScheduleKey}
    (settled : Settled demands home) (one : OnePhase demands) {demand other : ReaderDemand}
    {key otherKey : ScheduleKey} (member : demand ∈ demands) (isKey : demand.key = some key)
    (unknown : (ofLex key).2 = ⊥) (otherMember : other ∈ demands)
    (isOther : other.key = some otherKey) (otherKnown : (ofLex otherKey).2 ≠ ⊥)
    (interval : (ofLex otherKey).1 = (ofLex key).1) : home key = otherKey := by
  rcases settled.unknown demand member key isKey unknown with ⟨phase, third, thirdMember, isThird⟩ |
    ⟨_, none⟩
  · exact one demand member key isKey unknown third thirdMember _ isThird phase other otherMember
      otherKey isOther otherKnown (settled.interval key) interval
  · exact absurd (none other otherMember otherKey isOther interval) otherKnown

theorem Settled.together {demands : List ReaderDemand} {home : ScheduleKey → ScheduleKey}
    (settled : Settled demands home) (one : OnePhase demands) {demand other : ReaderDemand}
    {key otherKey : ScheduleKey} (member : demand ∈ demands) (isKey : demand.key = some key)
    (otherMember : other ∈ demands) (isOther : other.key = some otherKey) :
    home key = home otherKey ↔ TogetherKeys key otherKey := by
  by_cases unknown : (ofLex key).2 = ⊥
  · by_cases otherUnknown : (ofLex otherKey).2 = ⊥
    · constructor
      · intro same
        refine ⟨?_, .inr (.inl unknown)⟩
        rw [← settled.interval key, same, settled.interval]
      · rintro ⟨interval, _⟩
        exact congrArg home (Prod.ext interval (unknown.trans otherUnknown.symm))
    · constructor
      · intro same
        refine ⟨?_, .inr (.inl unknown)⟩
        rw [← settled.interval key, same, settled.interval]
      · rintro ⟨interval, _⟩
        rw [settled.known otherKey otherUnknown]
        exact settled.unknown_known one member isKey unknown otherMember isOther otherUnknown
          interval.symm
  · by_cases otherUnknown : (ofLex otherKey).2 = ⊥
    · constructor
      · intro same
        refine ⟨?_, .inr (.inr otherUnknown)⟩
        rw [← settled.interval key, same, settled.interval]
      · rintro ⟨interval, _⟩
        rw [settled.known key unknown]
        exact (settled.unknown_known one otherMember isOther otherUnknown member isKey unknown
          interval).symm
    · rw [settled.known key unknown, settled.known otherKey otherUnknown]
      constructor
      · rintro rfl
        exact ⟨rfl, .inl rfl⟩
      · rintro ⟨interval, phase | phase | phase⟩
        · exact Prod.ext interval phase
        · exact absurd phase unknown
        · exact absurd phase otherUnknown

/-! ### Rates -/

/-- The offsets any of the demands evaluates at. -/
def instantsOf (demands : List ReaderDemand) : Finset Nat :=
  demands.foldr (fun demand reached => demand.instants ∪ reached) ∅

theorem mem_instantsOf {demands : List ReaderDemand} {offset : Nat} :
    offset ∈ instantsOf demands ↔ ∃ demand ∈ demands, offset ∈ demand.instants := by
  induction demands with
  | nil => simp [instantsOf]
  | cons demand rest ih =>
    rw [instantsOf, List.foldr_cons, Finset.mem_union, List.exists_mem_cons_iff, ← ih]
    rfl

instance (home : ScheduleKey → ScheduleKey) (key : ScheduleKey) (demand : ReaderDemand) :
    Decidable (demand.AtHome home key) :=
  inferInstanceAs (Decidable (demand.key.map home = some key))

def groupOf (home : ScheduleKey → ScheduleKey) (key : ScheduleKey) (demands : List ReaderDemand) :
    List ReaderDemand :=
  demands.filter fun demand => demand.AtHome home key

def keysOf (demands : List ReaderDemand) : Finset ScheduleKey :=
  (demands.filterMap ReaderDemand.key).toFinset

theorem Holds.keys {home : ScheduleKey → ScheduleKey} {demands : List ReaderDemand}
    {bySchedule : BTreeMap ScheduleKey FixedSchedule} (holds : Holds home demands bySchedule) :
    (bySchedule.entries.map Prod.fst).toFinset = (keysOf demands).image home := by
  ext key
  have present : key ∈ (bySchedule.entries.map Prod.fst).toFinset ↔ bySchedule.get? key ≠ none := by
    simp [Option.ne_none_iff_exists', ← BTreeMap.mem_entries]
  rw [present, ne_eq, holds.vacant]
  push Not
  simp only [keysOf, Finset.mem_image, List.mem_toFinset, List.mem_filterMap, ReaderDemand.AtHome,
    Option.map_eq_some_iff]
  tauto

theorem Holds.rate {home : ScheduleKey → ScheduleKey} {demands : List ReaderDemand}
    {bySchedule : BTreeMap ScheduleKey FixedSchedule} {entry : ScheduleKey × FixedSchedule}
    (holds : Holds home demands bySchedule) (member : entry ∈ bySchedule.entries) :
    (fixedGroup entry).evaluationsPerSecond =
      intervalRate (ofLex entry.1).1 (instantsOf (groupOf home entry.1 demands)).card := by
  have described := holds.described entry.1
  rw [BTreeMap.mem_entries.mp member, Option.getD_some] at described
  have same : instants entry.2.1 = instantsOf (groupOf home entry.1 demands) := by
    ext offset
    rw [described.offsets, mem_instantsOf]
    simp only [groupOf, List.mem_filter, decide_eq_true_eq, and_assoc]
  rw [fixedGroup, distinctInstants_card described.positive, same]

theorem sum_entries {bySchedule : BTreeMap ScheduleKey FixedSchedule} (value : ScheduleKey → ℚ) :
    (bySchedule.entries.map fun entry => value entry.1).sum =
      ∑ key ∈ (bySchedule.entries.map Prod.fst).toFinset, value key := by
  rw [List.sum_toFinset _ bySchedule.keys_nodup, List.map_map]
  rfl

def ReaderDemand.estimatedRate (demand : ReaderDemand) : ℚ :=
  (demand.estimate?.map fun rate => rate * (demand.steps : ℚ)).getD 0

def batchRate (demands : List ReaderDemand) (horizon : Horizon) : ℚ :=
  batchInvocations demands / horizon.1

def fixedRate (home : ScheduleKey → ScheduleKey) (demands : List ReaderDemand) : ℚ :=
  ∑ key ∈ (keysOf demands).image home,
    intervalRate (ofLex key).1 (instantsOf (groupOf home key demands)).card

theorem ratesOf_all {schedule : Schedule} {groups : List ScheduleGroup}
    (all : ∀ group ∈ groups, group.schedule = schedule) :
    ratesOf schedule groups = groups.map ScheduleGroup.evaluationsPerSecond := by
  rw [ratesOf, List.filter_eq_self.mpr]
  simpa using all

theorem ratesOf_none {schedule : Schedule} {groups : List ScheduleGroup}
    (none : ∀ group ∈ groups, group.schedule ≠ schedule) : ratesOf schedule groups = [] := by
  rw [ratesOf, List.filter_eq_nil_iff.mpr, List.map_nil]
  simpa using none

theorem ratesOf_append (schedule : Schedule) (first rest : List ScheduleGroup) :
    ratesOf schedule (first ++ rest) = ratesOf schedule first ++ ratesOf schedule rest := by
  simp [ratesOf]

theorem estimatedGroups_schedule {demands : List ReaderDemand} {group : ScheduleGroup}
    (member : group ∈ estimatedGroups demands) : group.schedule = .estimatedRate := by
  obtain ⟨entry, _, made⟩ := List.mem_filterMap.mp member
  obtain ⟨rate, _, rfl⟩ := Option.map_eq_some_iff.mp made
  rfl

theorem batchGroup_schedule {loop : ReaderLoop} {horizon : Horizon} {group : ScheduleGroup}
    (member : group ∈ loop.batchGroup horizon) : group.schedule = .nonRepeating := by
  unfold ReaderLoop.batchGroup at member
  split at member
  · cases member
  · rw [List.mem_singleton.mp member]

theorem estimatedGroups_sum (demands : List ReaderDemand) (reader : Nat) :
    (((demands.zipIdx reader).filterMap fun entry => entry.1.estimatedGroup entry.2).map
      ScheduleGroup.evaluationsPerSecond).sum =
      (demands.map ReaderDemand.estimatedRate).sum := by
  induction demands generalizing reader with
  | nil => rfl
  | cons demand rest ih =>
    rw [List.zipIdx_cons, List.filterMap_cons, List.map_cons, List.sum_cons, ← ih (reader + 1)]
    unfold ReaderDemand.estimatedGroup ReaderDemand.estimatedRate
    cases demand.estimate? with
    | none => simp
    | some rate => simp

theorem ReaderLoop.Reads.batch_empty {loop : ReaderLoop} {demands : List ReaderDemand}
    (reads : loop.Reads demands) (empty : loop.nonRepeating = []) :
    ∀ demand ∈ demands, demand.batch? = none := by
  intro demand member
  obtain ⟨reader, found⟩ := List.mem_iff_getElem?.mp member
  by_contra some
  have inside := (reads.nonRepeating reader).mpr ⟨demand, found, Option.isSome_iff_ne_none.mpr some⟩
  rw [empty] at inside
  cases inside

theorem ReaderLoop.Reads.batch_rate {loop : ReaderLoop} {demands : List ReaderDemand}
    {horizon : Horizon} (reads : loop.Reads demands) :
    (ratesOf .nonRepeating (loop.batchGroup horizon)).head?.getD 0 = batchRate demands horizon := by
  rw [ratesOf_all fun group member => batchGroup_schedule member]
  unfold ReaderLoop.batchGroup batchRate
  rw [← reads.invocations]
  split
  · next empty =>
    have none := reads.batch_empty (List.isEmpty_iff.mp empty)
    have zero : loop.invocations ≤ 0 := by
      rw [reads.invocations, batchInvocations, foldl_max_le]
      refine ⟨le_rfl, fun value member => ?_⟩
      obtain ⟨demand, held, rfl⟩ := List.mem_map.mp member
      simp [none demand held]
    simp [Nat.le_zero.mp zero]
  · rfl

theorem evaluationRate_first {demands : List ReaderDemand} (horizon : Horizon)
    (valid : ∀ demand ∈ demands, demand.Valid) :
    ∃ home, Settled demands home ∧ FirstHomes demands home ∧ evaluationRate demands horizon =
      .ok (fixedRate home demands + (demands.map ReaderDemand.estimatedRate).sum +
        batchRate demands horizon) := by
  obtain ⟨home, bySchedule, loop, settled, first, holds, reads, run⟩ :=
    scheduleGroups_first horizon valid
  refine ⟨home, settled, first, ?_⟩
  have fixed : ∀ group ∈ bySchedule.entries.map fixedGroup, group.schedule = .fixedInterval := by
    intro group member
    obtain ⟨entry, _, rfl⟩ := List.mem_map.mp member
    rfl
  have repeated : ((bySchedule.entries.map fixedGroup).map
      ScheduleGroup.evaluationsPerSecond).sum = fixedRate home demands := by
    rw [fixedRate, ← holds.keys, ← sum_entries, List.map_map]
    exact congrArg List.sum (List.map_congr_left fun entry member => holds.rate member)
  have estimated : ((estimatedGroups demands).map ScheduleGroup.evaluationsPerSecond).foldl
      (· + ·) 0 = (demands.map ReaderDemand.estimatedRate).sum := by
    rw [← List.sum_eq_foldl]
    exact estimatedGroups_sum demands 0
  have byFixed : ratesOf .fixedInterval (bySchedule.entries.map fixedGroup ++
      estimatedGroups demands ++ loop.batchGroup horizon) =
      (bySchedule.entries.map fixedGroup).map ScheduleGroup.evaluationsPerSecond := by
    rw [ratesOf_append, ratesOf_append, ratesOf_all fixed,
      ratesOf_none fun group member => by simp [estimatedGroups_schedule member],
      ratesOf_none fun group member => by simp [batchGroup_schedule member]]
    simp
  have byEstimate : ratesOf .estimatedRate (bySchedule.entries.map fixedGroup ++
      estimatedGroups demands ++ loop.batchGroup horizon) =
      (estimatedGroups demands).map ScheduleGroup.evaluationsPerSecond := by
    rw [ratesOf_append, ratesOf_append, ratesOf_none fun group member => by simp [fixed group member],
      ratesOf_all fun group member => estimatedGroups_schedule member,
      ratesOf_none fun group member => by simp [batchGroup_schedule member]]
    simp
  have byBatch : ratesOf .nonRepeating (bySchedule.entries.map fixedGroup ++
      estimatedGroups demands ++ loop.batchGroup horizon) =
      ratesOf .nonRepeating (loop.batchGroup horizon) := by
    rw [ratesOf_append, ratesOf_append, ratesOf_none fun group member => by simp [fixed group member],
      ratesOf_none fun group member => by simp [estimatedGroups_schedule member]]
    simp
  simp only [evaluationRate, run]
  show Except.ok _ = Except.ok _
  rw [byFixed, byEstimate, byBatch, repeated, estimated, reads.batch_rate]

theorem evaluationRate_ok {demands : List ReaderDemand} (horizon : Horizon)
    (valid : ∀ demand ∈ demands, demand.Valid) :
    ∃ home, Settled demands home ∧ evaluationRate demands horizon =
      .ok (fixedRate home demands + (demands.map ReaderDemand.estimatedRate).sum +
        batchRate demands horizon) := by
  obtain ⟨home, settled, _, run⟩ := evaluationRate_first horizon valid
  exact ⟨home, settled, run⟩

/-! ### One demand -/

namespace ReaderDemand

/-- The evaluations per second of a node computed for this demand alone. -/
def ownRate (horizon : Horizon) (demand : ReaderDemand) : ℚ :=
  match demand.key with
  | some key => intervalRate (ofLex key).1 demand.instants.card
  | none => demand.estimatedRate + (demand.batch?.getD 0 : Nat) / horizon.1

theorem kind (demand : ReaderDemand) :
    (∃ key, demand.key = some key ∧ demand.estimate? = none ∧ demand.batch? = none) ∨
    (∃ rate, demand.key = none ∧ demand.estimate? = some rate ∧ demand.batch? = none) ∨
    ∃ count, demand.key = none ∧ demand.estimate? = none ∧ demand.batch? = some count := by
  obtain ⟨recurrence, range⟩ := demand
  cases recurrence with
  | oneTime count => exact .inr (.inr ⟨_, rfl, rfl, rfl⟩)
  | unknown => exact .inr (.inr ⟨_, rfl, rfl, rfl⟩)
  | repeated repeated =>
    cases repeated with
    | fixedInterval interval => exact .inl ⟨_, rfl, rfl, rfl⟩
    | fixedIntervalAt interval phase => exact .inl ⟨_, rfl, rfl, rfl⟩
    | scheduled times => exact .inr (.inr ⟨_, rfl, rfl, rfl⟩)
    | estimatedRate rate => exact .inr (.inl ⟨_, rfl, rfl, rfl⟩)

theorem estimatedRate_nonneg {demand : ReaderDemand} (valid : demand.Valid) :
    0 ≤ demand.estimatedRate := by
  unfold estimatedRate
  cases isRate : demand.estimate? with
  | none => exact le_rfl
  | some rate => exact mul_nonneg (valid.rate rate isRate) (Nat.cast_nonneg _)

theorem ownRate_nonneg {demand : ReaderDemand} {horizon : Horizon} (valid : demand.Valid) :
    0 ≤ demand.ownRate horizon := by
  unfold ownRate
  cases demand.key with
  | some key => unfold intervalRate; positivity
  | none =>
    have estimate := estimatedRate_nonneg valid
    have seconds := horizon.2.le
    positivity

theorem evaluationRate_single {demand : ReaderDemand} {horizon : Horizon} (valid : demand.Valid) :
    evaluationRate [demand] horizon = .ok (demand.ownRate horizon) := by
  obtain ⟨home, settled, run⟩ :=
    evaluationRate_ok horizon (List.forall_mem_singleton.mpr valid)
  rw [run]
  congr 1
  rcases demand.kind with ⟨key, isKey, notRate, notBatch⟩ | ⟨rate, notKey, _, _⟩ |
    ⟨count, notKey, _, _⟩
  · have only : groupOf home (home key) [demand] = [demand] := by
      simp [groupOf, AtHome, isKey]
    have own : instantsOf [demand] = demand.instants := by simp [instantsOf]
    simp [fixedRate, keysOf, isKey, only, own, settled.interval, ownRate, estimatedRate, notRate,
      batchRate, batchInvocations, notBatch]
  all_goals simp [fixedRate, keysOf, notKey, ownRate, batchRate, batchInvocations]

end ReaderDemand

theorem scheduleGroups_reader {demands : List ReaderDemand} {horizon : Horizon}
    {groups : List ScheduleGroup} (run : scheduleGroups demands horizon = .ok groups)
    (reader : Nat) {demand : ReaderDemand} (found : demands[reader]? = some demand) :
    ∃ group ∈ groups, reader ∈ group.readers := by
  obtain ⟨home, bySchedule, loop, _, holds, reads, ran⟩ :=
    scheduleGroups_ok horizon (scheduleGroups_valid run)
  cases ran.symm.trans run
  rcases demand.kind with ⟨key, isKey, _, _⟩ | ⟨rate, _, isRate, _⟩ | ⟨count, _, _, isBatch⟩
  · have there : demand.AtHome home (home key) := by simp [ReaderDemand.AtHome, isKey]
    have present := mt (holds.vacant (home key)).mp fun none =>
      none demand (List.mem_of_getElem? found) there
    obtain ⟨schedule, held⟩ := Option.ne_none_iff_exists'.mp present
    have described := holds.described (home key)
    rw [held, Option.getD_some] at described
    refine ⟨fixedGroup (home key, schedule), ?_, (described.readers reader).mpr ⟨demand, found, there⟩⟩
    exact List.mem_append_left _ (List.mem_append_left _
      (List.mem_map_of_mem (BTreeMap.mem_entries.mpr held)))
  · refine ⟨⟨[reader], rate * demand.steps, .estimatedRate⟩, ?_, List.mem_singleton_self _⟩
    refine List.mem_append_left _ (List.mem_append_right _ (List.mem_filterMap.mpr
      ⟨(demand, reader), List.mem_zipIdx_iff_getElem?.mpr found, ?_⟩))
    simp [ReaderDemand.estimatedGroup, isRate]
  · have inside := (reads.nonRepeating reader).mpr ⟨demand, found, by simp [isBatch]⟩
    refine ⟨⟨loop.nonRepeating, loop.invocations / horizon.1, .nonRepeating⟩, ?_, inside⟩
    refine List.mem_append_right _ ?_
    rw [ReaderLoop.batchGroup, if_neg]
    · exact List.mem_singleton_self _
    · rw [List.isEmpty_iff]
      exact List.ne_nil_of_mem inside

end AsapPlanner.Demand
