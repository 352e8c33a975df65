import AsapPlanner.Runtime.Producer

/-!
What a shared producer's readers see, in whatever order they poll, stop and are cancelled.
-/

namespace AsapPlanner.Runtime
open Rust

variable {V : Type}

/-! ### What events tell -/

namespace Event

/-- A batch the stream gave to its readers. -/
def given : Event V → Option (SharedValue V)
  | polled _ (some (.batch _)) (.ready (some (.ok batch))) _ => some batch
  | _ => none

def received (reader : Nat) : Event V → Option (SharedValue V)
  | polled other _ (.ready (some (.ok batch))) _ => if other = reader then some batch else none
  | _ => none

/-- How a reader learns that its input is over. -/
def ended (reader : Nat) : Event V → Option (Option Error)
  | polled other _ (.ready none) _ => if other = reader then some none else none
  | polled other _ (.ready (some (.error error))) _ => if other = reader then some (some error) else none
  | _ => none

def asked : Event V → Option (Polled V)
  | polled _ stream _ _ => stream
  | _ => none

def streamed : Event V → Option V
  | polled _ (some (.batch value)) _ _ => some value
  | _ => none

/-- An answer of the stream that is its last. -/
def closes : Event V → Option (Option Error)
  | polled _ (some _) (.ready none) _ => some none
  | polled _ (some _) (.ready (some (.error error))) _ => some (some error)
  | _ => none

def cancels : Event V → Bool
  | cancelled _ => true
  | _ => false

/-- Whether the stream is at an end. -/
def stops (event : Event V) : Bool := event.closes.isSome || event.cancels

end Event

def given (events : List (Event V)) : List (SharedValue V) := events.filterMap Event.given
def received (reader : Nat) (events : List (Event V)) : List (SharedValue V) :=
  events.filterMap (Event.received reader)
def ended (reader : Nat) (events : List (Event V)) : List (Option Error) := events.filterMap (Event.ended reader)
def streamed (events : List (Event V)) : List V := events.filterMap Event.streamed
def closed (events : List (Event V)) : List (Option Error) := events.filterMap Event.closes

theorem filterMap_snoc {α β : Type} {read : α → Option β} {items : List α} {last : α} :
    (items ++ [last]).filterMap read = items.filterMap read ++ (read last).toList := by
  cases found : read last <;> simp [found]

section
variable {events : List (Event V)} {event : Event V} {reader : Nat}

theorem given_snoc : given (events ++ [event]) = given events ++ event.given.toList := filterMap_snoc
theorem received_snoc : received reader (events ++ [event]) = received reader events ++ (event.received reader).toList :=
  filterMap_snoc
theorem ended_snoc : ended reader (events ++ [event]) = ended reader events ++ (event.ended reader).toList := filterMap_snoc
theorem streamed_snoc : streamed (events ++ [event]) = streamed events ++ event.streamed.toList := filterMap_snoc
theorem closed_snoc : closed (events ++ [event]) = closed events ++ event.closes.toList := filterMap_snoc

theorem given_unshared (unshared : event.given = none) : given (events ++ [event]) = given events := by
  rw [given_snoc, unshared, Option.toList_none, List.append_nil]

end

/-! ### The queue -/

namespace Producer
variable {producer : Producer V} {batches : List (SharedValue V)} {batch : SharedValue V} {stopped : Bool}
  {reader position : Nat}

theorem mem_positions : position ∈ producer.positions ↔ ∃ reader, producer.readers.get? reader = some position := by
  simp [positions, ← BTreeMap.mem_entries]

theorem isEmpty_readers : producer.readers.entries.isEmpty = true ↔ ∀ reader, producer.readers.get? reader = none := by
  rw [List.isEmpty_iff]
  constructor
  · intro none reader
    cases found : producer.readers.get? reader with
    | none => rfl
    | some position =>
      have member := BTreeMap.mem_entries.mpr found
      rw [none] at member
      cases member
  · intro absent
    apply List.eq_nil_iff_forall_not_mem.mpr
    intro entry member
    have found := BTreeMap.mem_entries.mp member
    rw [absent] at found
    cases found

/-- The queue holds what was given from `base` on, and each reader has a place in it. -/
structure Delivers (batches : List (SharedValue V)) (stopped : Bool) (producer : Producer V) : Prop where
  base : producer.base ≤ batches.length
  queue : producer.queue = batches.drop producer.base ∨
    stopped = true ∧ producer.queue = [] ∧ producer.finished = true
  readers : ∀ {reader position}, producer.readers.get? reader = some position →
    producer.base ≤ position ∧ position ≤ batches.length

theorem Delivers.found (delivers : producer.Delivers batches stopped)
    (reading : producer.readers.get? reader = some position) :
    (∀ batch, producer.queue[position - producer.base]? = some batch → batches[position]? = some batch) ∧
      (producer.queue[position - producer.base]? = none → stopped = true ∨ position = batches.length) := by
  obtain ⟨above, below⟩ := delivers.readers reading
  rcases delivers.queue with queue | ⟨stopped, queue, _⟩
  · rw [queue, List.getElem?_drop, Nat.add_sub_cancel' above]
    refine ⟨fun _ found => found, fun ahead => .inr ?_⟩
    have := List.getElem?_eq_none_iff.mp ahead
    omega
  · rw [queue]
    exact ⟨nofun, fun _ => .inl stopped⟩

/-- Some reader has yet to read the first batch of the queue. -/
def Based (producer : Producer V) : Prop :=
  producer.queue ≠ [] → ∃ reader, producer.readers.get? reader = some producer.base

theorem trim_cases (placed : ∀ {reader position}, producer.readers.get? reader = some position → producer.base ≤ position) :
    ((∀ reader, producer.readers.get? reader = none) ∧ producer.trim.queue = [] ∧
      producer.trim.base = producer.base + producer.queue.length) ∨
    ∃ slowest, producer.readers.get? slowest = some producer.trim.base ∧
      producer.trim.queue = producer.queue.drop (producer.trim.base - producer.base) ∧
      ∀ {reader position}, producer.readers.get? reader = some position → producer.trim.base ≤ position := by
  cases least : producer.positions.min? with
  | none =>
    have unread : producer.positions = [] := List.min?_eq_none_iff.mp least
    have absent : ∀ reader, producer.readers.get? reader = none := by
      intro reader
      cases found : producer.readers.get? reader with
      | none => rfl
      | some position =>
        have member := mem_positions.mpr ⟨reader, found⟩
        rw [unread] at member
        cases member
    refine .inl ⟨absent, ?_, by simp [trim, least]⟩
    simp only [trim, isEmpty_readers.mpr absent, if_true]
  | some minimum =>
    obtain ⟨member, least'⟩ := List.min?_eq_some_iff.mp least
    obtain ⟨slowest, found⟩ := mem_positions.mp member
    have nonempty : producer.readers.entries.isEmpty = false := by
      apply Bool.eq_false_iff.mpr
      intro empty
      rw [isEmpty_readers.mp empty] at found
      cases found
    have moved : producer.trim.base = minimum := by simp [trim, least, placed found]
    rw [moved]
    refine .inr ⟨slowest, found, by simp [trim, least, nonempty], fun {reader position} reading => ?_⟩
    exact least' position (mem_positions.mpr ⟨reader, reading⟩)

theorem Delivers.trim (delivers : producer.Delivers batches stopped) :
    producer.trim.Delivers batches stopped ∧ producer.trim.Based := by
  obtain ⟨base, queue, readers⟩ := delivers
  rcases trim_cases fun reading => (readers reading).1 with
    ⟨absent, cleared, moved⟩ | ⟨slowest, first, dropped, behind⟩
  · refine ⟨⟨?_, ?_, fun found => ?_⟩, fun queued => absurd cleared queued⟩
    · rcases queue with queue | ⟨_, queue, _⟩
      · have := congrArg List.length queue
        rw [List.length_drop] at this
        omega
      · rw [moved, queue]
        exact base
    · rcases queue with queue | ⟨stopped, _, finished⟩
      · have := congrArg List.length queue
        rw [List.length_drop] at this
        refine .inl (cleared.trans (List.drop_eq_nil_of_le ?_).symm)
        omega
      · exact .inr ⟨stopped, cleared, finished⟩
    · rw [show producer.trim.readers = producer.readers from rfl, absent] at found
      cases found
  · obtain ⟨above, below⟩ := readers first
    refine ⟨⟨below, ?_, fun found => ⟨behind found, (readers found).2⟩⟩, fun _ => ⟨slowest, first⟩⟩
    rcases queue with queue | ⟨stopped, queue, finished⟩
    · refine .inl ?_
      rw [dropped, queue, List.drop_drop, Nat.add_sub_cancel' above]
    · exact .inr ⟨stopped, by rw [dropped, queue, List.drop_nil], finished⟩

theorem trim_stream (reading : producer.readers.get? reader = some position) :
    producer.trim.stream = producer.stream := by
  have nonempty : producer.readers.entries.isEmpty = false := by
    apply Bool.eq_false_iff.mpr
    intro empty
    rw [isEmpty_readers.mp empty] at reading
    cases reading
  simp [trim, nonempty]

theorem Delivers.placed (delivers : producer.Delivers batches stopped) (before : position < batches.length)
    (placed : producer.base ≤ position) :
    { producer with readers := producer.readers.insert reader (position + 1) : Producer V }.Delivers
      batches stopped := by
  refine ⟨delivers.base, delivers.queue, fun {other place} found => ?_⟩
  rw [BTreeMap.get?_insert] at found
  split at found
  · cases found
    exact ⟨Nat.le_succ_of_le placed, before⟩
  · exact delivers.readers found

theorem Delivers.push (delivers : producer.Delivers batches stopped) (going : producer.finished = false) :
    (producer.push batch).Delivers (batches ++ [batch]) stopped := by
  have longer : batches.length ≤ (batches ++ [batch]).length := by simp
  refine ⟨delivers.base.trans longer, .inl ?_, fun found => ?_⟩
  · rcases delivers.queue with queue | ⟨_, _, finished⟩
    · show producer.queue ++ [batch] = (batches ++ [batch]).drop producer.base
      rw [List.drop_append_of_le_length delivers.base, ← queue]
    · rw [going] at finished
      cases finished
  · obtain ⟨above, below⟩ := delivers.readers found
    exact ⟨above, below.trans longer⟩

theorem Delivers.left {left : Producer V} (delivers : producer.Delivers batches stopped)
    (base : left.base = producer.base) (queue : left.queue = producer.queue)
    (readers : left.readers = producer.readers.remove reader)
    (ends : producer.finished = true → left.finished = true) : left.Delivers batches stopped := by
  constructor
  · rw [base]
    exact delivers.base
  · rw [base, queue]
    exact delivers.queue.imp_right fun ⟨stopped, queue, finished⟩ => ⟨stopped, queue, ends finished⟩
  · intro other place found
    rw [readers, BTreeMap.get?_remove] at found
    split at found
    · cases found
    · rw [base]
      exact delivers.readers found

end Producer

/-! ### Readers -/

/-- Each reader has received what was given up to its position, all of it when its input is over, and is told once
how the stream ended. -/
structure Reads (readers : BTreeMap Nat Nat) (inputs : BTreeMap Nat Bool) (finished : Bool) (failure : Option Error)
    (isCancelled : Bool) (events : List (Event V)) : Prop where
  attached : ∀ {reader}, inputs.get? reader = some false ↔ ∃ position, readers.get? reader = some position
  reading : ∀ {reader position}, readers.get? reader = some position →
    received reader events = (given events).take position ∧ ended reader events = []
  done : ∀ {reader}, inputs.get? reader = some true → ended reader events ≠ []
  received : ∀ reader, received reader events <+: given events
  ended : ∀ reader, ended reader events = [] ∨ ∃ how polls, ended reader events = how :: List.replicate polls none ∧
    finished = true ∧ (isCancelled = false → Runtime.received reader events = given events ∧ how = failure)

/-- The stream's end: it is not asked again, and what it streamed was given but for a batch memory had no room for. -/
structure Ends (finished : Bool) (failure : Option Error) (isCancelled : Bool) (events : List (Event V)) : Prop where
  going : finished = false → closed events = []
  settled : finished = true → isCancelled = true ∨ closed events = [failure]
  silent : events.Pairwise fun earlier later => earlier.stops = true → later.asked = none
  stops : ∀ event ∈ events, event.stops = true → finished = true ∨ isCancelled = true
  cancelled : isCancelled = true → ∃ event ∈ events, event.cancels = true
  streamed : streamed events = (given events).map (·.value) ∨
    ∃ lost, streamed events = (given events).map (·.value) ++ [lost] ∧ closed events = [some .memoryLimit]

section
variable {readers : BTreeMap Nat Nat} {inputs : BTreeMap Nat Bool} {finished isCancelled : Bool}
  {failure : Option Error} {events : List (Event V)} {event : Event V} {reader position : Nat} {batch : SharedValue V}

theorem Reads.quiet (reads : Reads readers inputs finished failure isCancelled events) (unshared : event.given = none)
    (unread : ∀ reader, event.received reader = none) (unended : ∀ reader, event.ended reader = none) :
    Reads readers inputs finished failure isCancelled (events ++ [event]) := by
  constructor <;> try simp only [given_snoc, received_snoc, ended_snoc, unshared, unread, unended, Option.toList_none,
    List.append_nil]
  exacts [reads.attached, reads.reading, reads.done, reads.received, reads.ended]

theorem Reads.receive (reads : Reads readers inputs finished failure isCancelled events)
    (reading : readers.get? reader = some position)
    (placed : ∀ {other place}, readers.get? other = some place → place ≤ (given events).length)
    (found : (given events ++ event.given.toList)[position]? = some batch)
    (going : event.given = none ∨ finished = false)
    (receives : ∀ other, event.received other = if reader = other then some batch else none)
    (unended : ∀ reader, event.ended reader = none) :
    Reads (readers.insert reader (position + 1)) inputs finished failure isCancelled (events ++ [event]) := by
  have mine : Runtime.received reader (events ++ [event]) = (given (events ++ [event])).take (position + 1) := by
    rw [received_snoc, receives, if_pos rfl, (reads.reading reading).1, given_snoc, List.take_add_one, found,
      List.take_append_of_le_length (placed reading)]
  have others {other : Nat} (apart : reader ≠ other) :
      Runtime.received other (events ++ [event]) = Runtime.received other events := by
    simp [received_snoc, receives, apart]
  constructor <;> try simp only [ended_snoc, unended, Option.toList_none, List.append_nil]
  · intro other
    rw [BTreeMap.get?_insert]
    split
    next same => simp [same, reads.attached.mpr ⟨position, reading⟩]
    · exact reads.attached
  · intro other place reading'
    rw [BTreeMap.get?_insert] at reading'
    split at reading'
    next same =>
      cases reading'
      exact ⟨same ▸ mine, same ▸ (reads.reading reading).2⟩
    next apart =>
      rw [others (Ne.symm apart), given_snoc, List.take_append_of_le_length (placed reading')]
      exact reads.reading reading'
  · exact reads.done
  · intro other
    by_cases same : reader = other
    · rw [← same, mine]
      exact List.take_prefix ..
    · rw [others same, given_snoc]
      exact (reads.received other).trans (List.prefix_append ..)
  · intro other
    by_cases same : reader = other
    · exact .inl (same ▸ (reads.reading reading).2)
    · rw [others same]
      refine (reads.ended other).imp_right fun ⟨how, polls, ended, done, whole⟩ => ⟨how, polls, ended, done, ?_⟩
      rwa [given_unshared (going.resolve_right (by simp [done]))]

theorem Reads.conclude {last : Option Error} (reads : Reads readers inputs finished failure isCancelled events)
    (reading : readers.get? reader = some position) (whole : isCancelled = true ∨ position = (given events).length)
    (same : finished = true → last = failure) (unshared : event.given = none)
    (unread : ∀ other, event.received other = none)
    (ends : ∀ other, event.ended other = if reader = other then some last else none) :
    Reads (readers.remove reader) (inputs.insert reader true) true last isCancelled (events ++ [event]) := by
  constructor <;> try simp only [given_snoc, received_snoc, ended_snoc, unshared, unread, ends, Option.toList_none,
    List.append_nil]
  · intro other
    rw [BTreeMap.get?_remove, BTreeMap.get?_insert]
    split
    · simp
    · exact reads.attached
  · intro other place reading'
    rw [BTreeMap.get?_remove] at reading'
    split at reading'
    · cases reading'
    next apart => simpa [Ne.symm apart] using reads.reading reading'
  · intro other done
    rw [BTreeMap.get?_insert] at done
    split at done
    next same => simp [same]
    next apart => simpa [Ne.symm apart] using reads.done done
  · exact reads.received
  · intro other
    by_cases here : reader = other
    · subst here
      refine .inr ⟨last, 0, by simp [(reads.reading reading).2], trivial, fun running => ⟨?_, rfl⟩⟩
      rw [(reads.reading reading).1, whole.resolve_left (by simp [running]), List.take_length]
    · rw [if_neg here, Option.toList_none, List.append_nil]
      refine (reads.ended other).imp_right fun ⟨how, polls, ended, done, kept⟩ =>
        ⟨how, polls, ended, trivial, fun running => ⟨(kept running).1, ?_⟩⟩
      exact (kept running).2.trans (same done).symm

theorem Reads.again (reads : Reads readers inputs finished failure isCancelled events)
    (done' : inputs.get? reader = some true) (unshared : event.given = none)
    (unread : ∀ other, event.received other = none)
    (ends : ∀ other, event.ended other = if reader = other then some none else none) :
    Reads readers inputs finished failure isCancelled (events ++ [event]) := by
  constructor <;> try simp only [given_snoc, received_snoc, ended_snoc, unshared, unread, ends, Option.toList_none,
    List.append_nil]
  · exact reads.attached
  · intro other place reading
    have apart : reader ≠ other := by
      rintro rfl
      rw [reads.attached.mpr ⟨place, reading⟩] at done'
      cases done'
    simpa [apart] using reads.reading reading
  · exact fun done none => reads.done done (List.append_eq_nil_iff.mp none).1
  · exact reads.received
  · intro other
    by_cases same : reader = other
    · subst same
      rcases reads.ended reader with none | ⟨how, polls, ended, rest⟩
      · exact absurd none (reads.done done')
      · exact .inr ⟨how, polls + 1, by simp [ended, List.replicate_succ'], rest⟩
    · simpa [same] using reads.ended other

theorem Reads.drop (reads : Reads readers inputs finished failure isCancelled events) :
    Reads (readers.remove reader) (inputs.remove reader) finished failure isCancelled events := by
  refine { reads with attached := ?_, reading := ?_, done := ?_ }
  · intro other
    rw [BTreeMap.get?_remove, BTreeMap.get?_remove]
    split
    · simp
    · exact reads.attached
  · intro other place reading
    rw [BTreeMap.get?_remove] at reading
    split at reading
    · cases reading
    · exact reads.reading reading
  · intro other done
    rw [BTreeMap.get?_remove] at done
    split at done
    · cases done
    · exact reads.done done

theorem Ends.silent_snoc (ends : Ends finished failure isCancelled events)
    (silent : event.asked = none ∨ finished = false ∧ isCancelled = false) :
    (events ++ [event]).Pairwise fun earlier later => earlier.stops = true → later.asked = none := by
  refine List.pairwise_append.mpr ⟨ends.silent, List.pairwise_singleton .., fun earlier member later last stops => ?_⟩
  cases List.mem_singleton.mp last
  refine silent.resolve_right fun ⟨going, running⟩ => ?_
  simpa [going, running] using ends.stops earlier member stops

theorem Ends.stops_snoc {ended cancelled : Prop} (ends : Ends finished failure isCancelled events)
    (done' : finished = true → ended) (running : isCancelled = true → cancelled)
    (stops : event.stops = true → ended ∨ cancelled) :
    ∀ earlier ∈ events ++ [event], earlier.stops = true → ended ∨ cancelled := by
  intro earlier member stopped
  rcases List.mem_append.mp member with before | last
  · exact (ends.stops earlier before stopped).imp done' running
  · cases List.mem_singleton.mp last
    exact stops stopped

theorem Ends.cancelled_snoc (ends : Ends finished failure isCancelled events) (cancelled : isCancelled = true) :
    ∃ earlier ∈ events ++ [event], earlier.cancels = true := by
  obtain ⟨earlier, member, cancels⟩ := ends.cancelled cancelled
  exact ⟨earlier, List.mem_append_left _ member, cancels⟩

theorem Ends.stream (ends : Ends finished failure isCancelled events)
    (silent : event.asked = none ∨ finished = false ∧ isCancelled = false)
    (shares : event.streamed = event.given.map (·.value)) (sharing : event.given = none ∨ finished = false)
    (closes : event.closes = none) (cancels : event.cancels = false) :
    Ends finished failure isCancelled (events ++ [event]) := by
  constructor <;> try simp only [closed_snoc, closes, Option.toList_none, List.append_nil]
  · exact ends.going
  · exact ends.settled
  · exact ends.silent_snoc silent
  · exact ends.stops_snoc id id (by simp [Event.stops, closes, cancels])
  · exact ends.cancelled_snoc
  · rw [streamed_snoc, given_snoc, shares, List.map_append]
    rcases ends.streamed with same | ⟨lost, more, refused⟩
    · refine .inl ?_
      cases event.given <;> simp [same]
    · have unshared := sharing.resolve_right fun going => by simp [ends.going going] at refused
      exact .inr ⟨lost, by simp [more, unshared], refused⟩

theorem Ends.close {answer : Polled V} {last : Option Error} (ends : Ends finished failure isCancelled events)
    (going : finished = false) (running : isCancelled = false) (asked : event.asked = some answer)
    (lost : (∃ value, answer = .batch value) → last = some .memoryLimit) (unshared : event.given = none)
    (streams : event.streamed = match answer with | .batch value => some value | _ => none)
    (closes : event.closes = some last) : Ends true last isCancelled (events ++ [event]) := by
  have closed' : closed (events ++ [event]) = [last] := by rw [closed_snoc, ends.going going, closes]; rfl
  refine ⟨nofun, fun _ => .inr closed', ends.silent_snoc (.inr ⟨going, running⟩), fun _ _ _ => .inl rfl,
    ends.cancelled_snoc, ?_⟩
  have before : Runtime.streamed events = (given events).map (·.value) :=
    ends.streamed.resolve_right fun ⟨_, _, refused⟩ => by simp [ends.going going] at refused
  rw [streamed_snoc, given_unshared unshared, streams, closed', before]
  cases answer with
  | batch value => exact .inr ⟨value, rfl, by rw [lost ⟨value, rfl⟩]⟩
  | _ => exact .inl (List.append_nil _)

end

/-- What has been shown of a producer's stream, and where its readers stand. -/
structure Sound (producer : Producer V) (inputs : BTreeMap Nat Bool) (isCancelled : Bool)
    (events : List (Event V)) : Prop where
  delivers : producer.Delivers (given events) isCancelled
  based : producer.Based
  live : producer.finished = false → ∀ {reader position}, producer.readers.get? reader = some position →
    producer.stream = true
  reads : Reads producer.readers inputs producer.finished producer.failure isCancelled events
  ends : Ends producer.finished producer.failure isCancelled events

namespace Sound
variable {producer : Producer V} {inputs : BTreeMap Nat Bool} {isCancelled : Bool} {events : List (Event V)}
  {event : Event V} {reader position : Nat} {batch : SharedValue V} {woken : List Nat}

theorem stop (sound : Sound producer inputs true events) : Sound producer.stop inputs true events := by
  obtain ⟨delivers, based, live, reads, ends⟩ := sound
  refine ⟨⟨delivers.base, .inr ⟨rfl, rfl, rfl⟩, delivers.readers⟩, absurd rfl, nofun, { reads with ended := ?_ },
    nofun, fun _ => .inl rfl, ends.silent, fun _ _ _ => .inl rfl, ends.cancelled, ends.streamed⟩
  exact fun other => (reads.ended other).imp_right fun ⟨how, polls, ended, _⟩ => ⟨how, polls, ended, rfl, nofun⟩

theorem await (sound : Sound producer inputs isCancelled events) (polled : Nat) :
    Sound ((producer.await reader).count polled) inputs isCancelled events :=
  ⟨⟨sound.delivers.base, sound.delivers.queue, sound.delivers.readers⟩, sound.based, sound.live, sound.reads, sound.ends⟩

theorem quiet (sound : Sound producer inputs isCancelled events) (unshared : event.given = none)
    (unread : ∀ reader, event.received reader = none) (unended : ∀ reader, event.ended reader = none)
    (streamed : event.streamed = none) (closes : event.closes = none) (cancels : event.cancels = false)
    (silent : event.asked = none ∨ producer.finished = false ∧ isCancelled = false) :
    Sound producer inputs isCancelled (events ++ [event]) :=
  ⟨(given_unshared unshared).symm ▸ sound.delivers, sound.based, sound.live,
    sound.reads.quiet unshared unread unended,
    sound.ends.stream silent (by rw [streamed, unshared]; rfl) (.inl unshared) closes cancels⟩

theorem read (sound : Sound producer inputs isCancelled events)
    (reading : producer.readers.get? reader = some position)
    (there : producer.queue[position - producer.base]? = some batch) :
    Sound (producer.advance reader position) inputs isCancelled
      (events ++ [.polled reader none (.ready (some (.ok batch))) woken]) := by
  have found := (sound.delivers.found reading).1 batch there
  obtain ⟨trimmed, slowest⟩ := (sound.delivers.placed (List.getElem?_eq_some_iff.mp found).1
    (sound.delivers.readers reading).1).trim
  refine ⟨?_, slowest, fun going other place reading' => ?_, ?_, sound.ends.stream (.inl rfl) rfl (.inl rfl) rfl rfl⟩
  · rwa [given_unshared rfl]
  · rw [show (producer.advance reader position).stream = producer.stream from Producer.trim_stream reading']
    exact sound.live going reading
  · exact sound.reads.receive reading (fun reading => (sound.delivers.readers reading).2) (by simpa [Event.given] using found)
      (.inl rfl) (fun _ => rfl) fun _ => rfl

theorem share (sound : Sound producer inputs isCancelled events)
    (reading : producer.readers.get? reader = some position) (whole : position = (given events).length)
    (going : producer.finished = false) (running : isCancelled = false) :
    Sound ((producer.push batch).advance reader position) inputs isCancelled
      (events ++ [.polled reader (some (.batch batch.value)) (.ready (some (.ok batch))) woken]) := by
  obtain ⟨trimmed, slowest⟩ := ((sound.delivers.push going).placed (by simp [whole])
    (sound.delivers.readers reading).1).trim
  refine ⟨?_, slowest, fun going other place reading' => ?_, ?_,
    sound.ends.stream (.inr ⟨going, running⟩) rfl (.inr going) rfl rfl⟩
  · rw [given_snoc]
    exact trimmed
  · rw [show ((producer.push batch).advance reader position).stream = producer.stream from Producer.trim_stream reading']
    exact sound.live going reading
  · exact sound.reads.receive reading (fun reading => (sound.delivers.readers reading).2) (by simp [Event.given, whole])
      (.inr going) (fun _ => rfl) fun _ => rfl

theorem conclude {asked : Option (Polled V)} {failure : Option Error} (sound : Sound producer inputs isCancelled events)
    (reading : producer.readers.get? reader = some position)
    (whole : isCancelled = true ∨ position = (given events).length)
    (ends : asked = none ∧ producer.finished = true ∧ failure = producer.failure ∨
      (∃ answer, asked = some answer ∧ ((∃ value, answer = .batch value) → failure = some .memoryLimit)) ∧
        producer.finished = false ∧ isCancelled = false) :
    Sound (producer.finish reader failure) (inputs.insert reader true) isCancelled
      (events ++ [.polled reader asked (.ready (failure.map .error)) woken]) := by
  generalize shown : (Event.polled reader asked (.ready (failure.map .error)) woken : Event V) = event
  have unshared : event.given = none ∧ ∀ other, event.received other = none := by
    subst shown
    rcases asked with _ | _ | _ | _ | _ <;> cases failure <;> exact ⟨rfl, fun _ => rfl⟩
  have ending (other : Nat) : event.ended other = if reader = other then some failure else none := by
    subst shown
    cases failure <;> rfl
  have same : producer.finished = true → failure = producer.failure := by
    rcases ends with ⟨_, _, same⟩ | ⟨_, going, _⟩
    · exact fun _ => same
    · simp [going]
  have left : (producer.finish reader failure).Delivers (given events) isCancelled ∧
      (producer.finish reader failure).Based := by
    apply Producer.Delivers.trim
    exact sound.delivers.left rfl rfl rfl fun _ => rfl
  refine ⟨(given_unshared unshared.1).symm ▸ left.1, left.2, nofun,
    sound.reads.conclude reading whole same unshared.1 unshared.2 ending, ?_⟩
  rcases ends with ⟨rfl, finished, rfl⟩ | ⟨⟨answer, rfl, lost⟩, going, running⟩
  · have quiet : Ends producer.finished producer.failure isCancelled (events ++ [event]) := by
      subst shown
      exact sound.ends.stream (.inl rfl) (by rw [unshared.1]; rfl) (.inl unshared.1) rfl rfl
    rwa [finished] at quiet
  · subst shown
    exact sound.ends.close going running rfl lost unshared.1 (by cases answer <;> rfl) (by cases failure <;> rfl)

theorem drop (sound : Sound producer inputs isCancelled events) :
    Sound (producer.leave reader).trim (inputs.remove reader) isCancelled (events ++ [.dropped reader woken]) := by
  have quiet : Sound producer inputs isCancelled (events ++ [.dropped reader woken]) :=
    sound.quiet rfl (fun _ => rfl) (fun _ => rfl) rfl rfl rfl (.inl rfl)
  obtain ⟨delivers, _, live, reads, ends⟩ := quiet
  have left : (producer.leave reader).trim.Delivers (given (events ++ [.dropped reader woken])) isCancelled ∧
      (producer.leave reader).trim.Based := by
    apply Producer.Delivers.trim
    exact delivers.left rfl rfl rfl id
  refine ⟨left.1, left.2, fun going other place reading => ?_, reads.drop, ends⟩
  rw [show (producer.leave reader).trim.stream = producer.stream from Producer.trim_stream reading]
  obtain ⟨first, reading⟩ : ∃ place, producer.readers.get? other = some place := by
    rw [show (producer.leave reader).trim.readers.get? other = _ from BTreeMap.get?_remove ..] at reading
    split at reading
    · cases reading
    · exact ⟨_, reading⟩
  exact live going reading

theorem cancel (sound : Sound producer inputs isCancelled events) :
    Sound producer inputs true (events ++ [.cancelled woken]) := by
  obtain ⟨delivers, based, live, reads, ends⟩ := sound
  have reads' : Reads producer.readers inputs producer.finished producer.failure isCancelled
      (events ++ [.cancelled woken]) := reads.quiet rfl (fun _ => rfl) fun _ => rfl
  refine ⟨?_, based, live, { reads' with ended := fun other => ?_ }, ?_⟩
  · rw [given_unshared rfl]
    exact ⟨delivers.base, delivers.queue.imp_right fun ⟨_, stopped⟩ => ⟨rfl, stopped⟩, delivers.readers⟩
  · exact (reads'.ended other).imp_right fun ⟨how, polls, ended, finished, _⟩ => ⟨how, polls, ended, finished, nofun⟩
  · refine ⟨?_, fun _ => .inl rfl, ends.silent_snoc (.inl rfl), fun _ _ _ => .inr rfl,
      fun _ => ⟨_, List.mem_append_right _ List.mem_cons_self, rfl⟩, ?_⟩
    · simpa [closed_snoc, Event.closes] using ends.going
    · simpa [closed_snoc, streamed_snoc, given_snoc, Event.closes, Event.streamed, Event.given] using ends.streamed

end Sound

/-! ### Runs -/

namespace Run
variable {run next : Run V} {events : List (Event V)} {reader position : Nat}

def Sees (run : Run V) (events : List (Event V)) : Prop :=
  Sound run.producer run.inputs run.isCancelled events

theorem get?_subscribed {ν : Type} (readers : Nat) (start : ν) (reader : Nat) :
    ((List.range readers).foldl (fun map reader => map.insert reader start) BTreeMap.empty).get? reader =
      if reader < readers then some start else none := by
  induction readers with
  | zero => rfl
  | succ readers ih =>
    rw [List.range_succ, List.foldl_append, List.foldl_cons, List.foldl_nil, BTreeMap.get?_insert, ih]
    split_ifs <;> first | rfl | omega

theorem sees_start (readers node : Nat) (operation : String) (size : V → Nat) (maxBufferedBatches maxBytes : Nat) :
    (start readers node operation size maxBufferedBatches maxBytes).Sees [] := by
  have places (reader : Nat) : (start readers node operation size maxBufferedBatches maxBytes).producer.readers.get? reader =
      if reader < readers then some 0 else none := get?_subscribed readers 0 reader
  have inputs (reader : Nat) : (start readers node operation size maxBufferedBatches maxBytes).inputs.get? reader =
      if reader < readers then some false else none := get?_subscribed readers false reader
  refine ⟨⟨Nat.zero_le _, .inl rfl, fun {reader position} found => ?_⟩, absurd rfl, fun _ _ _ _ => rfl,
    ⟨fun {reader} => ?_, fun {reader position} found => ⟨by simp [received, given], rfl⟩, fun {reader} found => ?_,
      fun _ => List.prefix_refl _, fun _ => .inl rfl⟩, fun _ => rfl, nofun, .nil, nofun, nofun, .inl rfl⟩
  · rw [places] at found
    split at found <;> cases found
    exact ⟨Nat.le_refl _, Nat.zero_le _⟩
  · rw [places, inputs]
    split <;> simp
  · rw [inputs] at found
    split at found <;> cases found

theorem attend_reading {other : Nat} :
    (run.attend reader).producer.readers.get? other = run.producer.readers.get? other := by
  unfold attend
  dsimp only
  split <;> rfl

theorem Sees.attend (sees : run.Sees events) (reader : Nat) :
    (run.attend reader).Sees events ∧
      ((run.attend reader).producer.finished = false → run.isCancelled = false) := by
  unfold Sees at sees ⊢
  cases cancelled : run.isCancelled with
  | true =>
    rw [cancelled] at sees
    rw [show (run.attend reader).producer = run.producer.stop by simp [Run.attend, cancelled],
      show (run.attend reader).isCancelled = true from cancelled]
    exact ⟨sees.stop, nofun⟩
  | false =>
    rw [show (run.attend reader).producer = run.producer by simp [Run.attend, cancelled]]
    exact ⟨sees, fun _ => rfl⟩

theorem Polls.sees {asked : Option (Polled V)} {next : Run V × Event V} (polls : run.Polls reader position asked next)
    (sees : run.Sees events) (running : run.producer.finished = false → run.isCancelled = false)
    (reading : run.producer.readers.get? reader = some position) : next.1.Sees (events ++ [next.2]) := by
  have found := (sees.delivers.found reading).2
  cases polls with
  | read there => exact sees.read reading there
  | concluded ahead finished => exact sees.conclude reading (found ahead) (.inl ⟨rfl, finished, rfl⟩)
  | full => exact (sees.await _).quiet rfl (fun _ => rfl) (fun _ => rfl) rfl rfl rfl (.inl rfl)
  | yielded => exact (sees.await 0).quiet rfl (fun _ => rfl) (fun _ => rfl) rfl rfl rfl (.inl rfl)
  | pending ahead going =>
    exact (sees.await _).quiet rfl (fun _ => rfl) (fun _ => rfl) rfl rfl rfl (.inr ⟨going, running going⟩)
  | shared ahead going =>
    have whole := (found ahead).resolve_left (by simp [running going])
    exact (sees.await _).share reading whole going (running going)
  | closed ahead going lost =>
    exact (sees.await _).conclude reading (found ahead) (.inr ⟨⟨_, rfl, lost⟩, going, running going⟩)

theorem Steps.sees {action : Action V} {event : Option (Event V)} (steps : run.Steps action next event)
    (sees : run.Sees events) : next.Sees (events ++ event.toList) := by
  have unseen : run.Sees (events ++ (none : Option (Event V)).toList) := by rwa [Option.toList_none, List.append_nil]
  cases steps with
  | again done =>
    exact ⟨by rw [Option.toList_some, given_unshared rfl]; exact sees.delivers, sees.based, sees.live,
      sees.reads.again done rfl (fun _ => rfl) fun _ => rfl, sees.ends.stream (.inl rfl) rfl (.inl rfl) rfl rfl⟩
  | @polled reader position _ _ _ reading polls =>
    obtain ⟨attended, running⟩ := sees.attend reader
    exact polls.sees attended running (attend_reading.trans reading)
  | dropped => exact Sound.drop sees
  | cancelled => exact Sound.cancel sees
  | idle | released | reserved | resized | freed => exact unseen

theorem Sees.step (sees : run.Sees events) (action : Action V) :
    ∃ next event, run.step action = some (next, event) ∧ run.Steps action next event ∧
      next.Sees (events ++ event.toList) := by
  obtain ⟨next, event, stepped, steps⟩ := step_steps action fun {reader} attached => by
    obtain ⟨position, reading⟩ := sees.reads.attached.mp attached
    exact ⟨position, reading, (sees.delivers.readers reading).1, fun going => sees.live going reading⟩
  exact ⟨next, event, stepped, steps, steps.sees sees⟩

/-- Whatever order readers poll, stop and are cancelled in, nothing panics; a stream that has ended is not asked
again; and each reader receives the stream's batches in order, all of them when its input ends with no cancellation,
but for one that memory had no room for, and learns once how the stream ended. -/
theorem steps_deliver (readers node : Nat) (operation : String) (size : V → Nat) (maxBufferedBatches maxBytes : Nat)
    (actions : List (Action V)) :
    ∃ run events, (start readers node operation size maxBufferedBatches maxBytes).steps actions = some (run, events) ∧
      (events.Pairwise fun earlier later => earlier.stops = true → later.asked = none) ∧
      ∀ reader, (received reader events).map (·.value) <+: streamed events ∧
        (ended reader events = [] ∨ ∃ failure polls, ended reader events = failure :: List.replicate polls none ∧
          ((∀ event ∈ events, event.cancels = false) → closed events = [failure] ∧
            ((received reader events).map (·.value) = streamed events ∨ failure = some .memoryLimit ∧
              ∃ lost, streamed events = (received reader events).map (·.value) ++ [lost]))) := by
  obtain ⟨run, events, ran, sees⟩ := steps_keep Sees (fun {_ _} action sees => by
    obtain ⟨next, event, stepped, _, sees⟩ := Sees.step sees action
    exact ⟨next, event, stepped, sees⟩) (sees_start readers node operation size maxBufferedBatches maxBytes) actions
  rw [List.nil_append] at sees
  refine ⟨run, events, ran, sees.ends.silent, fun reader => ⟨?_, (sees.reads.ended reader).imp_right ?_⟩⟩
  · have received := (sees.reads.received reader).map (·.value)
    rcases sees.ends.streamed with same | ⟨lost, more, _⟩
    · rwa [same]
    · rw [more]
      exact received.trans (List.prefix_append ..)
  · rintro ⟨failure, polls, ended, finished, whole⟩
    refine ⟨failure, polls, ended, fun uncancelled => ?_⟩
    have running : run.isCancelled = false := by
      cases cancelled : run.isCancelled with
      | false => rfl
      | true =>
        obtain ⟨event, member, cancels⟩ := sees.ends.cancelled cancelled
        rw [uncancelled event member] at cancels
        cases cancels
    obtain ⟨all, how⟩ := whole running
    have closed := (sees.ends.settled finished).resolve_left (by simp [running])
    rw [← how] at closed
    refine ⟨closed, ?_⟩
    rw [all]
    rcases sees.ends.streamed with same | ⟨lost, more, refused⟩
    · exact .inl same.symm
    · rw [closed] at refused
      cases refused
      exact .inr ⟨rfl, lost, more⟩

end Run
end AsapPlanner.Runtime
