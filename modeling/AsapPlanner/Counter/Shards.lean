import AsapPlanner.Counter.Increase
import AsapPlanner.Traversal.Run

/-!
The open counter states of one tumbling window, one per group, and the merge of shards of it.
-/

namespace AsapPlanner.Counter
open Rust Traversal

/-! ### The updater -/

inductive UpdaterError
  | invalid (message : String)
  | operator (message : String)
deriving DecidableEq

/-- A group's state and its latest sample time. -/
structure Group where
  state : CounterState
  latestSampleMs : Option Int
deriving DecidableEq

def Group.empty : Group := { state := none, latestSampleMs := none }

structure Observation extends Sample where
  group : Nat
deriving DecidableEq

structure StateColumnUpdater where
  family : CounterFamily
  groups : List Group
deriving DecidableEq

/-- The later of two latest times; no sample is before any. -/
def latest : Option Int → Option Int → Option Int
  | some a, some b => some (max a b)
  | a, b => a.or b

namespace StateColumnUpdater

def new (family : CounterFamily) : StateColumnUpdater := { family, groups := [] }

def groupCount (updater : StateColumnUpdater) : Nat := updater.groups.length

def addGroup (updater : StateColumnUpdater) : Except UpdaterError StateColumnUpdater :=
  if updater.groupCount ≤ u32Max then .ok { updater with groups := updater.groups ++ [.empty] }
  else .error (.invalid "more than u32::MAX groups")

/-- Add groups until there are `count`. -/
def ensureGroups (updater : StateColumnUpdater) (count : Nat) :
    Except UpdaterError StateColumnUpdater :=
  (List.range (count - updater.groupCount)).foldlM (fun updater _ => updater.addGroup) updater

def update (updater : StateColumnUpdater) (sample : Observation) :
    Except UpdaterError StateColumnUpdater :=
  match updater.groups[sample.group]? with
  | none => .error (.invalid ("group " ++ toString sample.group ++ " was not added (the updater has "
      ++ toString updater.groupCount ++ ")"))
  | some group =>
    if group.latestSampleMs.any fun prior => sample.time ≤ prior then
      .error (.operator
        "counter samples must have strictly increasing timestamps within each group")
    else
      let updated : Group :=
        { state := group.state.update sample.toSample, latestSampleMs := some sample.time }
      .ok { updater with groups := updater.groups.set sample.group updated }

def mergeGroups : List Group → List Group → Except UpdaterError (List Group)
  | group :: groups, theirs :: others =>
    if group.state.overlapsInTime theirs.state then
      .error (.invalid ("counter shards overlap in time: a group's samples in one shard "
        ++ "must all precede its samples in the other"))
    else do
      let merged ← mergeGroups groups others
      pure ({ state := group.state.merge theirs.state
              latestSampleMs := latest group.latestSampleMs theirs.latestSampleMs } :: merged)
  | groups, _ => .ok groups

def merge (updater other : StateColumnUpdater) : Except UpdaterError StateColumnUpdater :=
  if updater.family ≠ other.family then
    .error (.invalid "cannot merge different summary families")
  else do
    let grown ← updater.ensureGroups other.groupCount
    let groups ← mergeGroups grown.groups other.groups
    pure { grown with groups }

end StateColumnUpdater

/-! ### Shards -/

/-- One shard: its groups, and its samples in the order it is fed them. -/
structure Shard where
  family : CounterFamily
  groupCount : Nat
  samples : List Observation

def Shard.run (shard : Shard) : Except UpdaterError StateColumnUpdater := do
  let updater ← (StateColumnUpdater.new shard.family).ensureGroups shard.groupCount
  shard.samples.foldlM StateColumnUpdater.update updater

inductive MergeTree
  | leaf (shard : Shard)
  | node (left right : MergeTree)

namespace MergeTree

def run : MergeTree → Except UpdaterError StateColumnUpdater
  | leaf shard => shard.run
  | node left right => do
    let receiver ← left.run
    let other ← right.run
    receiver.merge other

def samples : MergeTree → List Observation
  | leaf shard => shard.samples
  | node left right => left.samples ++ right.samples

end MergeTree

/-! ### What an updater represents -/

def samplesOf (group : Nat) (samples : List Observation) : List Sample :=
  (samples.filter (·.group = group)).map (·.toSample)

theorem samplesOf_append (group : Nat) (samples others : List Observation) :
    samplesOf group (samples ++ others) = samplesOf group samples ++ samplesOf group others := by
  simp [samplesOf]

theorem samplesOf_perm {samples others : List Observation} (group : Nat)
    (same : samples.Perm others) : (samplesOf group samples).Perm (samplesOf group others) :=
  (same.filter _).map _

theorem mem_samplesOf {group : Nat} {samples : List Observation} {sample : Sample} :
    sample ∈ samplesOf group samples ↔
      ∃ observed ∈ samples, observed.group = group ∧ observed.toSample = sample := by
  simp [samplesOf, and_assoc]

def Group.ofState (state : CounterState) : Group where
  state := state
  latestSampleMs := state.map (·.lastSeenTimestamp)

/-- Each group holds the state of its samples in time order. -/
structure Represents (updater : StateColumnUpdater) (samples : List Observation) : Prop where
  bounded : updater.groupCount ≤ u32Max + 1
  known : ∀ sample ∈ samples, sample.group < updater.groupCount
  groups : ∀ (index : Nat) (group : Group), updater.groups[index]? = some group → ∃ series,
    series.Perm (samplesOf index samples) ∧ InOrder series ∧ group = .ofState (.ofSeries series)

section Represents
variable {updater other later : StateColumnUpdater} {samples others : List Observation}

theorem InOrder.unique {left right : List Sample} (ordered : InOrder left) (same : InOrder right)
    (perm : left.Perm right) : left = right := by
  apply List.Perm.eq_of_pairwise ?_ ordered same perm
  intro a b _ _ before after
  omega

theorem Represents.unique (left : Represents updater samples) (right : Represents other others)
    (same : samples.Perm others) (family : updater.family = other.family)
    (count : updater.groupCount = other.groupCount) : updater = other := by
  obtain ⟨f, groups⟩ := updater
  obtain ⟨f', groups'⟩ := other
  have lengths : groups.length = groups'.length := count
  have equal : groups = groups' := by
    apply List.ext_getElem lengths
    intro index inside inside'
    obtain ⟨series, perm, ordered, held⟩ := left.groups index _ (List.getElem?_eq_getElem inside)
    obtain ⟨series', perm', ordered', held'⟩ :=
      right.groups index _ (List.getElem?_eq_getElem inside')
    have both := perm.trans ((samplesOf_perm index same).trans perm'.symm)
    rw [held, held', ordered.unique ordered' both]
  have families : f = f' := family
  rw [families, equal]

/-! ### Adding groups -/

/-- The updater with empty groups up to `count`. -/
def StateColumnUpdater.grow (updater : StateColumnUpdater) (count : Nat) : StateColumnUpdater :=
  { updater with
    groups := updater.groups ++ List.replicate (count - updater.groupCount) Group.empty }

theorem addGroups_room {steps : List Nat} (bounded : updater.groupCount ≤ u32Max + 1)
    (run : steps.foldlM (fun updater _ => updater.addGroup) updater = .ok later) :
    updater.groupCount + steps.length ≤ u32Max + 1 := by
  induction steps generalizing updater with
  | nil => exact bounded
  | cons step steps ih =>
    rw [List.foldlM_cons] at run
    obtain ⟨next, first, run⟩ := bind_eq_ok run
    unfold StateColumnUpdater.addGroup at first
    split at first
    · rename_i room
      have added : next.groupCount = updater.groupCount + 1 := by
        rw [← Except.ok.inj first]
        simp [StateColumnUpdater.groupCount]
      have rest := ih (by omega) run
      rw [List.length_cons]
      omega
    · cases first

theorem addGroups_fine {steps : List Nat}
    (room : updater.groupCount + steps.length ≤ u32Max + 1) :
    steps.foldlM (fun updater _ => updater.addGroup) updater =
      .ok { updater with groups := updater.groups ++ List.replicate steps.length .empty } := by
  induction steps generalizing updater with
  | nil =>
    rw [List.foldlM_nil, List.length_nil, List.replicate_zero, List.append_nil]
    rfl
  | cons step steps ih =>
    rw [List.length_cons] at room
    have added : updater.addGroup = .ok { updater with groups := updater.groups ++ [.empty] } :=
      if_pos (by omega)
    have count : (updater.groups ++ [Group.empty]).length = updater.groupCount + 1 := by
      simp [StateColumnUpdater.groupCount]
    rw [List.foldlM_cons, added]
    refine (ih ?_).trans ?_
    · change (updater.groups ++ [Group.empty]).length + _ ≤ _
      omega
    · simp [List.replicate_succ]

theorem ensureGroups_eq {count : Nat} (bounded : updater.groupCount ≤ u32Max + 1)
    (room : count ≤ u32Max + 1) : updater.ensureGroups count = .ok (updater.grow count) := by
  have fits : updater.groupCount + (List.range (count - updater.groupCount)).length ≤
      u32Max + 1 := by
    rw [List.length_range]
    omega
  have added := addGroups_fine fits
  rw [List.length_range] at added
  exact added

theorem ensureGroups_room {count : Nat} (bounded : updater.groupCount ≤ u32Max + 1)
    (run : updater.ensureGroups count = .ok later) : count ≤ u32Max + 1 := by
  have room := addGroups_room bounded run
  rw [List.length_range] at room
  omega

theorem groupCount_grow (updater : StateColumnUpdater) (count : Nat) :
    (updater.grow count).groupCount = max updater.groupCount count := by
  simp only [StateColumnUpdater.grow, StateColumnUpdater.groupCount, List.length_append,
    List.length_replicate]
  omega

theorem Represents.grow (holds : Represents updater samples) {count : Nat}
    (room : count ≤ u32Max + 1) : Represents (updater.grow count) samples := by
  have counts := groupCount_grow updater count
  refine ⟨?_, ?_, ?_⟩
  · have bounded := holds.bounded
    omega
  · intro sample member
    have known := holds.known sample member
    omega
  · intro index group read
    by_cases inside : index < updater.groups.length
    · change (updater.groups ++ _)[index]? = _ at read
      rw [List.getElem?_append_left inside] at read
      exact holds.groups index group read
    · change (updater.groups ++ _)[index]? = _ at read
      rw [List.getElem?_append_right (by omega)] at read
      have blank : group = Group.empty := List.eq_of_mem_replicate (List.mem_of_getElem? read)
      have none : samplesOf index samples = [] := by
        apply List.eq_nil_iff_forall_not_mem.mpr
        intro sample member
        obtain ⟨observed, present, same, _⟩ := mem_samplesOf.mp member
        have known := holds.known observed present
        change observed.group < updater.groups.length at known
        omega
      exact ⟨[], by rw [none], List.Pairwise.nil, blank⟩

theorem represents_new (family : CounterFamily) : Represents (.new family) [] where
  bounded := Nat.zero_le _
  known := by simp
  groups := by simp [StateColumnUpdater.new]

/-! ### Feeding samples -/

theorem Group.update_ofState {series : List Sample} {next : Sample}
    (ordered : InOrder (series ++ [next])) :
    { state := (CounterState.ofSeries series).update next, latestSampleMs := some next.time } =
      Group.ofState (.ofSeries (series ++ [next])) := by
  rw [CounterState.update_ofSeries ordered]
  unfold Group.ofState
  congr 1
  cases series with
  | nil => rfl
  | cons first rest => simp [CounterState.ofSeries, IncreaseAccumulator.ofSeries]

theorem latest_before {series : List Sample} (ordered : InOrder series) (time : Int) :
    (Group.ofState (.ofSeries series)).latestSampleMs.any (fun prior => time ≤ prior) = false ↔
      ∀ sample ∈ series, sample.time < time := by
  cases series with
  | nil => simp [Group.ofState, CounterState.ofSeries]
  | cons first rest =>
    simp only [Group.ofState, CounterState.ofSeries, IncreaseAccumulator.ofSeries, Option.map_some,
      Option.any_some, decide_eq_false_iff_not, Int.not_le]
    constructor
    · intro after sample member
      have ends := ordered.le_last sample member
      omega
    · intro before
      exact before _ (lastOf_mem first rest)

theorem update_iff (holds : Represents updater samples) (sample : Observation) :
    (∃ later, updater.update sample = .ok later) ↔ sample.group < updater.groupCount ∧
      ∀ earlier ∈ samplesOf sample.group samples, earlier.time < sample.time := by
  unfold StateColumnUpdater.update
  cases read : updater.groups[sample.group]? with
  | none =>
    have outside := List.getElem?_eq_none_iff.mp read
    constructor
    · rintro ⟨later, run⟩
      cases run
    · rintro ⟨inside, _⟩
      change sample.group < updater.groups.length at inside
      omega
  | some group =>
    obtain ⟨series, perm, ordered, held⟩ := holds.groups _ group read
    have inside : sample.group < updater.groupCount := (List.getElem?_eq_some_iff.mp read).1
    have latest := latest_before ordered sample.time
    rw [← held] at latest
    cases late : group.latestSampleMs.any fun prior => sample.time ≤ prior with
    | true =>
      rw [late] at latest
      constructor
      · rintro ⟨later, run⟩
        simp only [late, if_true] at run
        cases run
      · rintro ⟨_, before⟩
        exact absurd (latest.mpr fun earlier member => before earlier (perm.mem_iff.mp member))
          (by decide)
    | false =>
      rw [late] at latest
      refine ⟨fun _ => ⟨inside, ?_⟩, fun _ => ?_⟩
      · intro earlier member
        exact latest.mp rfl earlier (perm.mem_iff.mpr member)
      · simp only [late]
        exact ⟨_, rfl⟩

theorem Represents.update (holds : Represents updater samples) {sample : Observation}
    (run : updater.update sample = .ok later) : Represents later (samples ++ [sample]) ∧
      later.family = updater.family ∧ later.groupCount = updater.groupCount := by
  obtain ⟨inside, before⟩ := (update_iff holds sample).mp ⟨later, run⟩
  unfold StateColumnUpdater.update at run
  cases read : updater.groups[sample.group]? with
  | none =>
    rw [read] at run
    cases run
  | some group =>
    simp only [read] at run
    split at run
    · cases run
    have updated := (Except.ok.inj run).symm
    have count : later.groupCount = updater.groupCount := by
      rw [updated]
      exact List.length_set
    refine ⟨⟨by rw [count]; exact holds.bounded, ?_, ?_⟩, by rw [updated], count⟩
    · intro known member
      rw [count]
      rcases List.mem_append.mp member with old | new
      · exact holds.known known old
      · rw [List.mem_singleton.mp new]
        exact inside
    · intro index other there
      rw [updated] at there
      change (updater.groups.set sample.group _)[index]? = some other at there
      by_cases same : sample.group = index
      · subst same
        obtain ⟨series, perm, ordered, held⟩ := holds.groups _ group read
        have extended : InOrder (series ++ [sample.toSample]) := by
          refine List.pairwise_append.mpr ⟨ordered, List.pairwise_singleton _ _, ?_⟩
          intro earlier member last final
          rw [List.mem_singleton.mp final]
          exact before earlier (perm.mem_iff.mp member)
        have mine : samplesOf sample.group [sample] = [sample.toSample] := by simp [samplesOf]
        have present : sample.group < updater.groups.length := inside
        rw [List.getElem?_set_self present, held] at there
        refine ⟨series ++ [sample.toSample], ?_, extended, ?_⟩
        · rw [samplesOf_append, mine]
          exact perm.append_right _
        · exact (Option.some.inj there).symm.trans (Group.update_ofState extended)
      · have other' : samplesOf index [sample] = [] := by simp [samplesOf, same]
        rw [List.getElem?_set_ne same] at there
        rw [samplesOf_append, other', List.append_nil]
        exact holds.groups index other there

theorem Represents.feed (holds : Represents updater samples)
    (run : others.foldlM StateColumnUpdater.update updater = .ok later) :
    Represents later (samples ++ others) ∧ later.family = updater.family ∧
      later.groupCount = updater.groupCount := by
  induction others generalizing updater samples with
  | nil =>
    rw [List.foldlM_nil] at run
    rw [← Except.ok.inj run, List.append_nil]
    exact ⟨holds, rfl, rfl⟩
  | cons sample others ih =>
    rw [List.foldlM_cons] at run
    obtain ⟨next, first, run⟩ := bind_eq_ok run
    obtain ⟨held, family, count⟩ := holds.update first
    obtain ⟨fed, families, counts⟩ := ih held run
    rw [List.append_assoc] at fed
    exact ⟨fed, families.trans family, counts.trans count⟩

theorem Represents.feed_fine (holds : Represents updater samples)
    (known : ∀ sample ∈ others, sample.group < updater.groupCount)
    (ordered : ∀ group, InOrder (samplesOf group (samples ++ others))) :
    ∃ later, others.foldlM StateColumnUpdater.update updater = .ok later := by
  induction others generalizing updater samples with
  | nil => exact ⟨updater, rfl⟩
  | cons sample others ih =>
    have before : ∀ earlier ∈ samplesOf sample.group samples, earlier.time < sample.time := by
      intro earlier member
      have series := ordered sample.group
      rw [samplesOf_append] at series
      apply (List.pairwise_append.mp series).2.2 earlier member
      exact mem_samplesOf.mpr ⟨sample, List.mem_cons_self, rfl, rfl⟩
    obtain ⟨next, first⟩ := (update_iff holds sample).mpr ⟨known sample List.mem_cons_self, before⟩
    obtain ⟨held, _, count⟩ := holds.update first
    obtain ⟨later, rest⟩ := ih held
      (fun other member => by rw [count]; exact known other (List.mem_cons_of_mem _ member))
      (by simpa only [List.append_assoc, List.singleton_append] using ordered)
    refine ⟨later, ?_⟩
    rw [List.foldlM_cons, first]
    exact rest

/-! ### Merging -/

theorem CounterState.lastSeen_merge (left right : CounterState) :
    latest (left.map (·.lastSeenTimestamp)) (right.map (·.lastSeenTimestamp)) =
      (left.merge right).map (·.lastSeenTimestamp) := by
  cases left with
  | none => cases right <;> rfl
  | some a =>
    cases right with
    | none => rfl
    | some b =>
      have ordered : ∀ first second : IncreaseAccumulator,
          (first.mergeOrdered second).lastSeenTimestamp =
            max first.lastSeenTimestamp second.lastSeenTimestamp := by
        intro first second
        unfold IncreaseAccumulator.mergeOrdered
        dsimp only
        split <;> omega
      simp only [CounterState.merge, Option.map_some, latest, IncreaseAccumulator.mergePair]
      split
      · rw [ordered]
      · rw [ordered, max_comm]

theorem mergeGroups_ok {groups theirs merged : List Group}
    (run : StateColumnUpdater.mergeGroups groups theirs = .ok merged) :
    merged.length = groups.length ∧ ∀ (index : Nat) (group : Group), merged[index]? = some group →
      ∃ mine, groups[index]? = some mine ∧ (theirs[index]? = none → group = mine) ∧
        ∀ other, theirs[index]? = some other → mine.state.overlapsInTime other.state = false ∧
          group = { state := mine.state.merge other.state
                    latestSampleMs := latest mine.latestSampleMs other.latestSampleMs } := by
  induction groups generalizing theirs merged with
  | nil =>
    have none : merged = [] := by
      cases theirs <;> exact (Except.ok.inj run).symm
    rw [none]
    exact ⟨rfl, fun index group read => by simp at read⟩
  | cons mine groups ih =>
    cases theirs with
    | nil =>
      have same : merged = mine :: groups := (Except.ok.inj run).symm
      rw [same]
      exact ⟨rfl, fun index group read => ⟨group, read, fun _ => rfl, fun other there => by
        simp at there⟩⟩
    | cons other theirs =>
      unfold StateColumnUpdater.mergeGroups at run
      split at run
      · cases run
      · rename_i apart
        obtain ⟨rest, later, final⟩ := bind_eq_ok run
        obtain ⟨lengths, each⟩ := ih later
        rw [← Except.ok.inj final]
        refine ⟨by rw [List.length_cons, List.length_cons, lengths], ?_⟩
        intro index group read
        cases index with
        | zero =>
          refine ⟨mine, rfl, fun absent => by simp at absent, fun mate there => ?_⟩
          rw [List.getElem?_cons_zero] at read there
          rw [← Option.some.inj there, ← Option.some.inj read]
          exact ⟨Bool.eq_false_iff.mpr apart, rfl⟩
        | succ index =>
          rw [List.getElem?_cons_succ] at read
          exact each index group read

theorem mergeGroups_error {groups theirs : List Group} {error : UpdaterError}
    (run : StateColumnUpdater.mergeGroups groups theirs = .error error) :
    error = .invalid ("counter shards overlap in time: a group's samples in one shard "
      ++ "must all precede its samples in the other") := by
  induction groups generalizing theirs with
  | nil => cases theirs <;> cases run
  | cons mine groups ih =>
    cases theirs with
    | nil => cases run
    | cons other theirs =>
      unfold StateColumnUpdater.mergeGroups at run
      split at run
      · exact (Except.error.inj run).symm
      · cases rest : StateColumnUpdater.mergeGroups groups theirs with
        | error e =>
          rw [rest] at run
          have same : e = error := Except.error.inj run
          exact ih (rest.trans (congrArg Except.error same))
        | ok merged =>
          rw [rest] at run
          cases run

theorem Represents.merge (holds : Represents updater samples) (theirs : Represents other others)
    (run : updater.merge other = .ok later) : Represents later (samples ++ others) ∧
      later.family = updater.family := by
  unfold StateColumnUpdater.merge at run
  split at run
  · cases run
  obtain ⟨grown, ensured, run⟩ := bind_eq_ok run
  obtain ⟨merged, run, final⟩ := bind_eq_ok run
  rw [ensureGroups_eq holds.bounded theirs.bounded] at ensured
  have grew := (Except.ok.inj ensured).symm
  have held := holds.grow theirs.bounded
  rw [← grew] at held
  have counted : grown.groupCount = max updater.groupCount other.groupCount := by
    rw [grew]
    exact groupCount_grow updater other.groupCount
  obtain ⟨lengths, each⟩ := mergeGroups_ok run
  have result : later = { grown with groups := merged } := (Except.ok.inj final).symm
  have count : later.groupCount = grown.groupCount := by
    rw [result]
    exact lengths
  refine ⟨⟨by rw [count]; exact held.bounded, ?_, ?_⟩, by rw [result, grew]; rfl⟩
  · intro sample member
    rw [count, counted]
    rcases List.mem_append.mp member with mine | their
    · have known := holds.known sample mine
      omega
    · have known := theirs.known sample their
      omega
  · intro index group read
    rw [result] at read
    obtain ⟨mine, here, alone, both⟩ := each index group read
    obtain ⟨series, perm, ordered, state⟩ := held.groups index mine here
    cases there : other.groups[index]? with
    | none =>
      have unseen : samplesOf index others = [] := by
        apply List.eq_nil_iff_forall_not_mem.mpr
        intro sample member
        obtain ⟨observed, present, same, _⟩ := mem_samplesOf.mp member
        have known : observed.group < other.groups.length := theirs.known observed present
        have outside := List.getElem?_eq_none_iff.mp there
        omega
      rw [samplesOf_append, unseen, List.append_nil, alone there]
      exact ⟨series, perm, ordered, state⟩
    | some mate =>
      obtain ⟨series', perm', ordered', state'⟩ := theirs.groups index mate there
      obtain ⟨apart, joined⟩ := both mate there
      rw [state, state'] at apart joined
      obtain ⟨union, permUnion, orderedUnion, merge⟩ :=
        CounterState.merge_ofSeries ordered ordered' apart
      rw [samplesOf_append]
      refine ⟨union, permUnion.trans (perm.append perm'), orderedUnion, joined.trans ?_⟩
      change Group.mk ((CounterState.ofSeries series).merge (.ofSeries series')) (latest _ _) = _
      rw [← merge]
      unfold Group.ofState
      rw [CounterState.lastSeen_merge]

theorem Represents.merge_refused (holds : Represents updater samples)
    (theirs : Represents other others) (family : updater.family = other.family) {group : Nat}
    (interleaved : ¬ Apart (samplesOf group samples) (samplesOf group others)) :
    updater.merge other = .error (.invalid ("counter shards overlap in time: a group's samples "
      ++ "in one shard must all precede its samples in the other")) := by
  have grown := ensureGroups_eq holds.bounded theirs.bounded
  have refused : ∀ merged, StateColumnUpdater.mergeGroups (updater.grow other.groupCount).groups
      other.groups ≠ .ok merged := by
    intro merged run
    have held := holds.grow theirs.bounded
    apply interleaved
    obtain ⟨lengths, each⟩ := mergeGroups_ok run
    by_cases seen : group < other.groupCount
    · have within : group < merged.length := by
        have count := groupCount_grow updater other.groupCount
        change (updater.grow other.groupCount).groups.length = _ at count
        omega
      have there := List.getElem?_eq_getElem seen
      obtain ⟨mine, here, _, both⟩ := each group _ (List.getElem?_eq_getElem within)
      obtain ⟨series, perm, ordered, state⟩ := held.groups group mine here
      obtain ⟨series', perm', ordered', state'⟩ := theirs.groups group _ there
      have apart := (both _ there).1
      rw [state, state'] at apart
      rcases (CounterState.overlapsInTime_ofSeries ordered ordered').mp apart with before | after
      · exact .inl fun a mine b their =>
          before a (perm.mem_iff.mpr mine) b (perm'.mem_iff.mpr their)
      · exact .inr fun a mine b their =>
          after a (perm.mem_iff.mpr mine) b (perm'.mem_iff.mpr their)
    · left
      intro a _ b member
      obtain ⟨observed, present, same, _⟩ := mem_samplesOf.mp member
      have known := theirs.known observed present
      omega
  have familySame : ¬ updater.family ≠ other.family := fun different => different family
  unfold StateColumnUpdater.merge
  rw [if_neg familySame, grown]
  change (StateColumnUpdater.mergeGroups _ _ >>= _) = _
  cases result : StateColumnUpdater.mergeGroups (updater.grow other.groupCount).groups
      other.groups with
  | ok merged => exact absurd result (refused merged)
  | error error =>
    rw [mergeGroups_error result]
    rfl

/-! ### Runs -/

theorem Shard.represents {shard : Shard} (run : shard.run = .ok updater) :
    Represents updater shard.samples ∧ updater.family = shard.family := by
  unfold Shard.run at run
  obtain ⟨start, ensured, run⟩ := bind_eq_ok run
  have fresh := represents_new shard.family
  have room := ensureGroups_room fresh.bounded ensured
  rw [ensureGroups_eq fresh.bounded room] at ensured
  have held := fresh.grow room
  rw [Except.ok.inj ensured] at held
  obtain ⟨fed, family, _⟩ := held.feed run
  rw [List.nil_append] at fed
  refine ⟨fed, family.trans ?_⟩
  rw [← Except.ok.inj ensured]
  rfl

theorem MergeTree.represents {tree : MergeTree} (run : tree.run = .ok updater) :
    Represents updater tree.samples := by
  induction tree generalizing updater with
  | leaf shard => exact (Shard.represents run).1
  | node left right ihLeft ihRight =>
    obtain ⟨receiver, first, run⟩ := bind_eq_ok run
    obtain ⟨other, second, run⟩ := bind_eq_ok run
    exact ((ihLeft first).merge (ihRight second) run).1

theorem Shard.run_fine {shard : Shard} (room : shard.groupCount ≤ u32Max + 1)
    (known : ∀ sample ∈ shard.samples, sample.group < shard.groupCount)
    (ordered : ∀ group, InOrder (samplesOf group shard.samples)) :
    ∃ later, shard.run = .ok later ∧ later.groupCount = shard.groupCount := by
  have fresh := represents_new shard.family
  have held := fresh.grow room
  have count : ((StateColumnUpdater.new shard.family).grow shard.groupCount).groupCount =
      shard.groupCount := (groupCount_grow _ shard.groupCount).trans (Nat.zero_max _)
  have inside : ∀ sample ∈ shard.samples,
      sample.group < ((StateColumnUpdater.new shard.family).grow shard.groupCount).groupCount := by
    intro sample member
    rw [count]
    exact known sample member
  obtain ⟨later, run⟩ := held.feed_fine inside ordered
  obtain ⟨_, _, counts⟩ := held.feed run
  refine ⟨later, ?_, counts.trans count⟩
  unfold Shard.run
  rw [ensureGroups_eq fresh.bounded room]
  exact run

theorem inOrder_of_sorted {sorted series : List Sample}
    (order : sorted.Pairwise fun a b => a.time ≤ b.time) (ordered : InOrder series)
    (same : series.Perm sorted) : InOrder sorted := by
  have distinct : sorted.Pairwise fun a b => a.time ≠ b.time :=
    same.pairwise (ordered.imp fun before => by omega) fun different => different.symm
  apply (order.and distinct).imp
  intro a b both
  omega

end Represents

/-- A tree of merges that succeeds gives what one updater fed every sample in time order holds, and
two shards are refused when in some group neither's samples all precede the other's. -/
theorem merged_shards_are_one_stream (tree : MergeTree) :
    (∀ updater, tree.run = .ok updater → ∀ stream : List Observation,
      stream.Perm tree.samples → (stream.Pairwise fun a b => a.time ≤ b.time) →
      Shard.run ⟨updater.family, updater.groupCount, stream⟩ = .ok updater) ∧
    ∀ left right, tree = .node left right → ∀ receiver other, left.run = .ok receiver →
      right.run = .ok other → ∀ group,
      ¬ Apart (samplesOf group left.samples) (samplesOf group right.samples) →
      tree.run = .error (.invalid (if receiver.family = other.family then
          "counter shards overlap in time: a group's samples in one "
            ++ "shard must all precede its samples in the other"
        else "cannot merge different summary families")) := by
  constructor
  · intro updater run stream perm order
    have held := tree.represents run
    have ordered : ∀ group, InOrder (samplesOf group stream) := by
      intro group
      by_cases known : group < updater.groupCount
      · obtain ⟨series, same, inOrder, _⟩ :=
          held.groups group _ (List.getElem?_eq_getElem known)
        refine inOrder_of_sorted ?_ inOrder (same.trans (samplesOf_perm group perm.symm))
        exact List.pairwise_map.mpr (order.filter _)
      · have none : samplesOf group stream = [] := by
          apply List.eq_nil_iff_forall_not_mem.mpr
          intro sample member
          obtain ⟨observed, present, same, _⟩ := mem_samplesOf.mp member
          have inside := held.known observed (perm.mem_iff.mp present)
          omega
        rw [none]
        exact List.Pairwise.nil
    have known : ∀ sample ∈ stream, sample.group < updater.groupCount :=
      fun sample member => held.known sample (perm.mem_iff.mp member)
    obtain ⟨later, single, count⟩ := @Shard.run_fine ⟨updater.family, updater.groupCount, stream⟩
      held.bounded known ordered
    obtain ⟨fed, family⟩ := Shard.represents single
    rw [single, fed.unique held perm family count]
  · intro left right split receiver other first second group interleaved
    rw [split]
    change (left.run >>= fun receiver => right.run >>= fun other => receiver.merge other) = _
    rw [first, second]
    change receiver.merge other = _
    by_cases family : receiver.family = other.family
    · rw [if_pos family]
      exact (left.represents first).merge_refused (right.represents second) family interleaved
    · rw [if_neg family]
      exact if_pos family

/-- Three shards, one of them empty, merged with the later ones as receivers. -/
theorem merged_shards_example :
    Shard.run ⟨.rate, 1, [⟨⟨0, 5⟩, 0⟩, ⟨⟨10, 2⟩, 0⟩, ⟨⟨20, 6⟩, 0⟩]⟩ =
      .ok ⟨.rate, [.ofState (some ⟨5, 0, 6, 20, 6, 3⟩)]⟩ := by
  have run : (MergeTree.node (.node (.leaf ⟨.rate, 1, [⟨⟨20, 6⟩, 0⟩]⟩) (.leaf ⟨.rate, 0, []⟩))
      (.leaf ⟨.rate, 1, [⟨⟨0, 5⟩, 0⟩, ⟨⟨10, 2⟩, 0⟩]⟩)).run =
      .ok ⟨.rate, [.ofState (some ⟨5, 0, 6, 20, 6, 3⟩)]⟩ := by decide +kernel
  exact (merged_shards_are_one_stream _).1 _ run _ (by decide +kernel) (by decide +kernel)

end AsapPlanner.Counter
