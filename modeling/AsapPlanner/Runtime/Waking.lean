import AsapPlanner.Runtime.Delivery

/-!
A reader that waits is woken: nobody sleeps while there is something for it, and somebody can always go on.
-/

namespace AsapPlanner.Runtime
open Rust

variable {V : Type}

namespace Event

def asks : Event V → Option (Nat × Polled V)
  | polled reader (some stream) _ _ => some (reader, stream)
  | _ => none

/-- The readers that wait and have not been woken. -/
def sleep (asleep : List Nat) : Event V → List Nat
  | polled reader _ .pending woken => (reader :: asleep).filter (· ∉ woken)
  | polled reader _ (.ready _) woken => asleep.filter fun other => other ≠ reader ∧ other ∉ woken
  | dropped reader woken => asleep.filter fun other => other ≠ reader ∧ other ∉ woken
  | cancelled woken => asleep.filter (· ∉ woken)

end Event

def asleep (events : List (Event V)) : List Nat := events.foldl Event.sleep []

/-- Who asked the stream last, and what it answered: the stream wakes that reader when it has more. -/
def lastAsked (events : List (Event V)) : Option (Nat × Polled V) := (events.filterMap Event.asks).getLast?

theorem asleep_snoc {events : List (Event V)} {event : Event V} :
    asleep (events ++ [event]) = event.sleep (asleep events) := by
  simp [asleep]

theorem lastAsked_snoc {events : List (Event V)} {event : Event V} :
    lastAsked (events ++ [event]) = event.asks.or (lastAsked events) := by
  cases found : event.asks <;> simp [lastAsked, found]

theorem Producer.trim_length {producer : Producer V} : producer.trim.queue.length ≤ producer.queue.length := by
  unfold Producer.trim
  dsimp only
  split
  · exact Nat.zero_le _
  · rw [List.length_drop]
    omega

namespace Run

/-- A reader asleep waits in the producer and in the context, and has nothing to read. -/
structure Waits (run : Run V) (events : List (Event V)) (reader : Nat) : Prop where
  waiting : reader ∈ run.waiting
  registered : run.registered.get? reader = some ()
  running : run.isCancelled = false
  going : run.producer.finished = false
  reading : run.producer.readers.get? reader = some (given events).length

/-- Somebody can go on: a reader that is awake, or the stream, which wakes one that sleeps. -/
def Lively (run : Run V) (events : List (Event V)) : Prop :=
  (∃ reader, run.inputs.get? reader = some false ∧ reader ∉ asleep events) ∨
    ∃ reader ∈ asleep events, lastAsked events = some (reader, .pending)

structure Wakes (run : Run V) (events : List (Event V)) : Prop where
  sleepers : ∀ reader ∈ asleep events, run.Waits events reader
  lively : asleep events ≠ [] → run.Lively events
  bounded : run.producer.queue.length ≤ run.maxBufferedBatches
  positive : 0 < run.maxBufferedBatches

variable {run : Run V} {events : List (Event V)} {reader position : Nat}

theorem mem_waiting : reader ∈ run.waiting ↔ run.producer.waiters.get? reader = some () := by
  simp [waiting, ← BTreeMap.mem_entries, Unique.exists_iff]

theorem Wakes.of_woken {next : Run V} {event : Event V} (wakes : run.Wakes events)
    (none : event.sleep (asleep events) = []) (bounded : next.producer.queue.length ≤ next.maxBufferedBatches)
    (same : next.maxBufferedBatches = run.maxBufferedBatches) :
    next.Wakes (events ++ [event]) where
  sleepers other member := by
    rw [asleep_snoc, none] at member
    cases member
  lively some := by
    rw [asleep_snoc, none] at some
    exact absurd rfl some
  bounded := bounded
  positive := same ▸ wakes.positive

theorem Wakes.of_pending {asked : Option (Polled V)} {woken : List Nat} {next : Run V} (wakes : run.Wakes events)
    (place : run.producer.readers.get? reader = some (given events).length)
    (running : run.isCancelled = false) (going : run.producer.finished = false)
    (registered : run.registered.get? reader = some ())
    (next_eq : ∃ polled, next = { run with producer := (run.producer.await reader).count polled })
    (unshared : (Event.polled reader asked .pending woken : Event V).given = none)
    (lively : next.Lively (events ++ [.polled reader asked .pending woken])) :
    next.Wakes (events ++ [.polled reader asked .pending woken]) := by
  obtain ⟨polled, rfl⟩ := next_eq
  have same : given (events ++ [.polled reader asked .pending woken]) = given events := by
    exact given_unshared unshared
  refine ⟨fun other member => ?_, fun _ => lively, wakes.bounded, wakes.positive⟩
  rw [asleep_snoc] at member
  have slept : other = reader ∨ other ∈ asleep events := by
    have := List.mem_of_mem_filter member
    simpa using this
  rcases slept with rfl | slept
  · exact ⟨mem_waiting.mpr (by simp [Producer.await, Producer.count]), registered, running, going, same ▸ place⟩
  · obtain ⟨waiting, registered, running, going, reading⟩ := wakes.sleepers other slept
    refine ⟨mem_waiting.mpr ?_, registered, running, going, same ▸ reading⟩
    have := mem_waiting.mp waiting
    simp only [Producer.await, Producer.count, BTreeMap.get?_insert]
    split <;> first | rfl | exact this

theorem sleep_ready {asked : Option (Polled V)} {item : Option (Except Error (SharedValue V))} {sleepers woken : List Nat}
    (all : ∀ other ∈ sleepers, other ∈ woken) :
    (Event.polled reader asked (.ready item) woken).sleep sleepers = [] := by
  simpa [Event.sleep] using fun other member _ => all other member

theorem Wakes.attend (wakes : run.Wakes events) (reader : Nat) : (run.attend reader).Wakes events := by
  have registered (other : Nat) (held : run.registered.get? other = some ()) :
      (run.attend reader).registered.get? other = some () := by
    simp only [Run.attend, BTreeMap.get?_insert]
    split <;> first | rfl | exact held
  cases cancelled : run.isCancelled with
  | true =>
    have none : asleep events = [] := by
      apply List.eq_nil_iff_forall_not_mem.mpr
      intro sleeper member
      have := (wakes.sleepers sleeper member).running
      rw [cancelled] at this
      cases this
    have stopped : (run.attend reader).producer = run.producer.stop := by simp [Run.attend, cancelled]
    refine ⟨by simp [none], by simp [none], ?_, wakes.positive⟩
    rw [stopped]
    exact Nat.zero_le _
  | false =>
    have same : (run.attend reader).producer = run.producer := by simp [Run.attend, cancelled]
    refine ⟨fun other member => ?_, wakes.lively, by rw [same]; exact wakes.bounded, wakes.positive⟩
    obtain ⟨waiting, held, running, going, reading⟩ := wakes.sleepers other member
    refine ⟨?_, registered other held, running, by rwa [same], by rwa [same]⟩
    unfold Run.waiting
    rwa [same]

theorem Polls.wakes {asked : Option (Polled V)} {next : Run V × Event V} (polls : run.Polls reader position asked next)
    (sees : run.Sees events) (wakes : run.Wakes events)
    (running : run.producer.finished = false → run.isCancelled = false)
    (reading : run.producer.readers.get? reader = some position)
    (registered : run.registered.get? reader = some ()) : next.1.Wakes (events ++ [next.2]) := by
  have all : ∀ other ∈ asleep events, other ∈ run.waiting := fun other member => (wakes.sleepers other member).waiting
  have more (other : Nat) (polled : Nat) (member : other ∈ asleep events) :
      other ∈ ({ run with producer := (run.producer.await reader).count polled } : Run V).waiting := by
    have := mem_waiting.mp (all other member)
    rw [mem_waiting]
    simp only [Producer.await, Producer.count, BTreeMap.get?_insert]
    split <;> first | rfl | exact this
  have own : run.inputs.get? reader = some false := sees.reads.attached.mpr ⟨position, reading⟩
  have last (ahead : run.producer.queue[position - run.producer.base]? = none) (going : run.producer.finished = false) :
      position = (given events).length :=
    ((sees.delivers.found reading).2 ahead).resolve_left (by simp [running going])
  cases polls with
  | read there =>
    refine wakes.of_woken (sleep_ready all) ?_ rfl
    exact Producer.trim_length.trans wakes.bounded
  | concluded ahead finished =>
    refine wakes.of_woken (sleep_ready all) ?_ rfl
    exact Producer.trim_length.trans wakes.bounded
  | full ahead going full =>
    have place := last ahead going
    refine wakes.of_pending (place ▸ reading) (running going) going registered ⟨run.producer.batchesPolled, rfl⟩ rfl ?_
    -- Whoever has yet to read the first batch of a full queue is awake.
    have queued : run.producer.queue ≠ [] := by
      intro none
      have := wakes.positive
      rw [none, List.length_nil] at full
      omega
    obtain ⟨slowest, first⟩ := sees.based queued
    have behind : run.producer.base < (given events).length := by
      rcases sees.delivers.queue with queue | ⟨_, none, _⟩
      · by_contra whole
        exact queued (queue.trans (List.drop_eq_nil_of_le (Nat.le_of_not_lt whole)))
      · exact absurd none queued
    refine .inl ⟨slowest, sees.reads.attached.mpr ⟨_, first⟩, fun member => ?_⟩
    rw [asleep_snoc] at member
    have slept : slowest = reader ∨ slowest ∈ asleep events := by
      simpa using List.mem_of_mem_filter member
    rcases slept with rfl | slept
    · have same := Option.some.inj (reading.symm.trans first)
      omega
    · have same := Option.some.inj ((wakes.sleepers slowest slept).reading.symm.trans first)
      omega
  | yielded ahead going =>
    have place := last ahead going
    refine wakes.of_pending (place ▸ reading) (running going) going registered ⟨0, rfl⟩ rfl ?_
    refine .inl ⟨reader, own, fun member => ?_⟩
    rw [asleep_snoc] at member
    have := (List.mem_filter.mp member).2
    simp at this
  | pending ahead going =>
    have place := last ahead going
    refine wakes.of_pending (place ▸ reading) (running going) going registered ⟨run.producer.batchesPolled, rfl⟩ rfl ?_
    exact .inr ⟨reader, by simp [asleep_snoc, Event.sleep], by simp [lastAsked_snoc, Event.asks]⟩
  | @shared value control polled ahead going room reserved =>
    refine wakes.of_woken (sleep_ready fun other member => more other polled member) ?_ rfl
    refine Producer.trim_length.trans ?_
    show (run.producer.queue ++ [_]).length ≤ _
    rw [List.length_append, List.length_singleton]
    exact room
  | @closed answer failure polled ahead going lost answered =>
    refine wakes.of_woken (sleep_ready fun other member => more other polled member) ?_ rfl
    exact Producer.trim_length.trans wakes.bounded

theorem Wakes.alike {next : Run V} (wakes : run.Wakes events) (producer : next.producer = run.producer)
    (inputs : next.inputs = run.inputs) (running : next.isCancelled = run.isCancelled)
    (registered : next.registered = run.registered) (limit : next.maxBufferedBatches = run.maxBufferedBatches) :
    next.Wakes events := by
  refine ⟨fun sleeper member => ?_, fun some => ?_, ?_, limit ▸ wakes.positive⟩
  · obtain ⟨waiting, held, awaited, going, reading⟩ := wakes.sleepers sleeper member
    unfold Run.waiting at waiting
    refine ⟨?_, registered ▸ held, running ▸ awaited, producer ▸ going, producer ▸ reading⟩
    unfold Run.waiting
    rwa [producer]
  · unfold Lively
    rw [inputs]
    exact wakes.lively some
  · rw [producer, limit]
    exact wakes.bounded

theorem Steps.wakes {next : Run V} {action : Action V} {event : Option (Event V)} (steps : run.Steps action next event)
    (sees : run.Sees events) (wakes : run.Wakes events) : next.Wakes (events ++ event.toList) := by
  have unseen : run.Wakes (events ++ (none : Option (Event V)).toList) := by rwa [Option.toList_none, List.append_nil]
  cases steps with
  | @again reader stream done =>
    have same : asleep (events ++ [.polled reader none (.ready none) []]) = asleep events := by
      rw [asleep_snoc]
      apply List.filter_eq_self.mpr
      intro sleeper member
      have apart : sleeper ≠ reader := by
        rintro rfl
        have := sees.reads.attached.mpr ⟨_, (wakes.sleepers sleeper member).reading⟩
        rw [done] at this
        cases this
      simp [apart]
    have unshared : given (events ++ [.polled reader none (.ready none) []]) = given events := by
      exact given_unshared rfl
    refine ⟨fun sleeper member => ?_, fun some => ?_, wakes.bounded, wakes.positive⟩
    · obtain ⟨waiting, registered, running, going, reading⟩ := wakes.sleepers sleeper (same ▸ member)
      exact ⟨waiting, registered, running, going, by rw [Option.toList_some, unshared]; exact reading⟩
    · rw [Option.toList_some] at some ⊢
      unfold Lively
      rw [same] at some ⊢
      have asked : lastAsked (events ++ [.polled reader none (.ready none) []]) = lastAsked events := lastAsked_snoc
      rw [asked]
      exact wakes.lively some
  | @polled reader position _ _ _ reading polls =>
    obtain ⟨attended, running⟩ := sees.attend reader
    have polled := polls.wakes attended (wakes.attend reader) running (attend_reading.trans reading) (by simp [Run.attend])
    exact polled.alike rfl rfl rfl rfl rfl
  | @dropped reader =>
    refine wakes.of_woken ?_ ?_ rfl
    · apply List.filter_eq_nil_iff.mpr
      intro sleeper member
      by_cases same : sleeper = reader
      · simp [same]
      · have held := mem_waiting.mp (wakes.sleepers sleeper member).waiting
        have kept : (run.producer.leave reader).waiters.get? sleeper = some () := by
          simpa [Producer.leave, same] using held
        have : sleeper ∈ (run.producer.leave reader).waiters.entries.map Prod.fst :=
          List.mem_map.mpr ⟨_, BTreeMap.mem_entries.mpr kept, rfl⟩
        simp [this]
    · exact Producer.trim_length.trans wakes.bounded
  | cancelled =>
    refine wakes.of_woken ?_ wakes.bounded rfl
    apply List.filter_eq_nil_iff.mpr
    intro sleeper member
    have : sleeper ∈ run.registered.entries.map Prod.fst :=
      List.mem_map.mpr ⟨_, BTreeMap.mem_entries.mpr (wakes.sleepers sleeper member).registered, rfl⟩
    simp [this]
  | idle => exact unseen
  | released | reserved | resized | freed =>
    exact unseen.alike rfl rfl rfl rfl rfl

/-- In any run the queue is bounded, a reader that sleeps has nothing to read from a stream that goes on, and while
one sleeps some reader is awake or the stream has promised to wake one. -/
theorem steps_wake (readers node : Nat) (operation : String) (size : V → Nat) (maxBufferedBatches maxBytes : Nat)
    (positive : 0 < maxBufferedBatches) (actions : List (Action V)) :
    ∃ run events, (start readers node operation size maxBufferedBatches maxBytes).steps actions = some (run, events) ∧
      run.producer.queue.length ≤ maxBufferedBatches ∧
      (∀ sleeper ∈ asleep events, run.inputs.get? sleeper = some false ∧ sleeper ∈ run.waiting ∧
        run.isCancelled = false ∧ run.producer.finished = false ∧
        ∃ position, run.producer.readers.get? sleeper = some position ∧
          run.producer.queue[position - run.producer.base]? = none) ∧
      (asleep events ≠ [] → run.Lively events) := by
  obtain ⟨run, events, ran, sees, wakes, limit⟩ := steps_keep
    (fun run events => run.Sees events ∧ run.Wakes events ∧ run.maxBufferedBatches = maxBufferedBatches)
    (fun {run _} action kept => by
      obtain ⟨sees, wakes, limit⟩ := kept
      obtain ⟨next, event, stepped, steps, sees'⟩ := sees.step action
      refine ⟨next, event, stepped, sees', steps.wakes sees wakes, ?_⟩
      rw [← limit]
      cases steps <;> try rfl
      next polls => cases polls <;> rfl)
    ⟨sees_start readers node operation size maxBufferedBatches maxBytes,
      ⟨fun _ member => absurd member List.not_mem_nil, absurd rfl, Nat.zero_le _, positive⟩, rfl⟩ actions
  rw [List.nil_append] at sees wakes
  refine ⟨run, events, ran, limit ▸ wakes.bounded, fun sleeper member => ?_, wakes.lively⟩
  obtain ⟨waiting, _, running, going, reading⟩ := wakes.sleepers sleeper member
  refine ⟨sees.reads.attached.mpr ⟨_, reading⟩, waiting, running, going, _, reading, ?_⟩
  cases there : run.producer.queue[(given events).length - run.producer.base]? with
  | none => rfl
  | some batch =>
    have found := (sees.delivers.found reading).1 batch there
    rw [List.getElem?_length] at found
    cases found

/-- Of two readers one is given the only batch; it then waits for the queue, and the other may read. -/
theorem steps_wake_behind :
    ∃ run events, (start 2 0 "scan" id 1 10).steps [.poll 0 (.batch 3), .poll 0 .pending] = some (run, events) ∧
      run.producer.queue.length ≤ 1 ∧
      (∀ sleeper ∈ asleep events, run.inputs.get? sleeper = some false ∧ sleeper ∈ run.waiting ∧
        run.isCancelled = false ∧ run.producer.finished = false ∧
        ∃ position, run.producer.readers.get? sleeper = some position ∧
          run.producer.queue[position - run.producer.base]? = none) ∧
      (asleep events ≠ [] → run.Lively events) :=
  steps_wake 2 0 "scan" id 1 10 (by decide) [.poll 0 (.batch 3), .poll 0 .pending]

end Run
end AsapPlanner.Runtime
