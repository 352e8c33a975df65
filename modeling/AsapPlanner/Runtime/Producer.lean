import AsapPlanner.Rust.BTreeMap
import AsapPlanner.Rust.Integer

/-!
A producer shared by its readers: one stream, the queue of batches not every reader has read, and the
memory each batch holds until nobody holds the batch.
-/

namespace AsapPlanner.Runtime
open Rust

inductive Error
  | invalid (message : String)
  | operator (message : String)
  | atNode (node : Nat) (operation : String) (source : Error)
  | memoryLimit
  | cancelled
deriving DecidableEq, Repr

/-! ### Memory -/

structure Control where
  bytes : Nat
  peak : Nat
  maxBytes : Nat
deriving DecidableEq, Repr

namespace Control

def checkedAdd (a b : Nat) : Option Nat := if a + b ≤ u64Max then some (a + b) else none

def checkedSub (a b : Nat) : Option Nat := if b ≤ a then some (a - b) else none

def hold (control : Control) : Option Nat → Except Error Control
  | none => .error .memoryLimit
  | some total =>
    if control.maxBytes < total then .error .memoryLimit
    else .ok { control with bytes := total, peak := max control.peak total }

def reserve (control : Control) (bytes : Nat) : Except Error Control :=
  control.hold (checkedAdd control.bytes bytes)

/-- `Reservation::resize` of a reservation of `own` bytes. -/
def resize (control : Control) (own bytes : Nat) : Except Error Control :=
  control.hold ((checkedSub control.bytes own).bind (checkedAdd · bytes))

def release (control : Control) (own : Nat) : Control := { control with bytes := control.bytes - own }

end Control

/-! ### The producer -/

structure SharedValue (V : Type) where
  value : V
  reservation : Nat
deriving DecidableEq, Repr

inductive Polled (V : Type)
  | pending
  | batch (value : V)
  | failed (error : Error)
  | ended
deriving DecidableEq, Repr

structure Producer (V : Type) where
  node : Nat
  operation : String
  size : V → Nat
  -- Whether the stream is still there.
  stream : Bool
  queue : List (SharedValue V)
  base : Nat
  batchesPolled : Nat
  readers : BTreeMap Nat Nat
  waiters : BTreeMap Nat Unit
  finished : Bool
  failure : Option Error

namespace Producer
variable {V : Type}

def positions (producer : Producer V) : List Nat := producer.readers.entries.map Prod.snd

/-- Batches every reader has read leave the queue, and whoever waits is woken. -/
def trim (producer : Producer V) : Producer V :=
  let minimum := producer.positions.min?.getD (producer.base + producer.queue.length)
  let empty := producer.readers.entries.isEmpty
  { producer with
    queue := if empty then [] else producer.queue.drop (minimum - producer.base)
    base := max producer.base minimum
    waiters := .empty
    stream := producer.stream && !empty }

/-- An operator's failure, at its node unless it names one or none is at fault. -/
def locate (producer : Producer V) : Error → Error
  | .atNode node operation source => .atNode node operation source
  | .cancelled => .cancelled
  | .memoryLimit => .memoryLimit
  | source => .atNode producer.node producer.operation source

/-- The stream is over, for this reader at once and for the others once they have read the queue. -/
def finish (producer : Producer V) (reader : Nat) (failure : Option Error) : Producer V :=
  trim { producer with
    failure, finished := true, stream := false, readers := producer.readers.remove reader }

def stop (producer : Producer V) : Producer V :=
  { producer with failure := some .cancelled, finished := true, stream := false, queue := [] }

def advance (producer : Producer V) (reader position : Nat) : Producer V :=
  trim { producer with readers := producer.readers.insert reader (position + 1) }

def await (producer : Producer V) (reader : Nat) : Producer V :=
  { producer with waiters := producer.waiters.insert reader () }

def count (producer : Producer V) (batchesPolled : Nat) : Producer V := { producer with batchesPolled }

def push (producer : Producer V) (batch : SharedValue V) : Producer V :=
  { producer with queue := producer.queue ++ [batch] }

def leave (producer : Producer V) (reader : Nat) : Producer V :=
  { producer with readers := producer.readers.remove reader, waiters := producer.waiters.remove reader }

end Producer

/-! ### A run -/

structure Run (V : Type) where
  producer : Producer V
  /-- The inputs not dropped, and whether each is done. -/
  inputs : BTreeMap Nat Bool
  isCancelled : Bool
  maxBufferedBatches : Nat
  control : Control
  /-- The wakers the context wakes when the run is cancelled. -/
  registered : BTreeMap Nat Unit
  /-- The reservations that shared batches own, by number. -/
  reservations : List (Nat × Nat)
  nextReservation : Nat
  /-- The reservation of each batch a consumer holds. -/
  taken : List Nat
  /-- The context's other reservations. -/
  others : List Nat

inductive Poll (V : Type)
  | pending
  | ready (item : Option (Except Error (SharedValue V)))

/-- What a step shows: what a poll answers and what the stream answered if it was asked, and who is woken. -/
inductive Event (V : Type)
  | polled (reader : Nat) (asked : Option (Polled V)) (answer : Poll V) (woken : List Nat)
  | dropped (reader : Nat) (woken : List Nat)
  | cancelled (woken : List Nat)

inductive Action (V : Type)
  /-- A reader polls its input; `stream` is what the stream answers if it is asked. -/
  | poll (reader : Nat) (stream : Polled V)
  | drop (reader : Nat)
  /-- A consumer drops a batch. -/
  | release (reservation : Nat)
  | cancel
  /-- Another owner's reservation is made, resized or dropped. -/
  | reserve (bytes : Nat)
  | resize (index bytes : Nat)
  | free (index : Nat)

namespace Run
variable {V : Type}

def owned (run : Run V) (reservation : Nat) : Bool :=
  run.taken.contains reservation || run.producer.queue.any fun batch => batch.reservation == reservation

/-- The reservations of batches that nobody holds any more are dropped. -/
def collect (run : Run V) : Run V :=
  { run with
    reservations := run.reservations.filter fun entry => run.owned entry.1
    control := (run.reservations.filter fun entry => !run.owned entry.1).foldl
      (fun control entry => control.release entry.2) run.control }

def waiting (run : Run V) : List Nat := run.producer.waiters.entries.map Prod.fst

def conclude (run : Run V) (reader : Nat) (asked : Option (Polled V)) (failure : Option Error) :
    Run V × Event V :=
  ({ run with inputs := run.inputs.insert reader true, producer := run.producer.finish reader failure },
    .polled reader asked (.ready (failure.map .error)) run.waiting)

def give (run : Run V) (reader position : Nat) (asked : Option (Polled V)) (batch : SharedValue V) :
    Run V × Event V :=
  ({ run with
      producer := run.producer.advance reader position, taken := batch.reservation :: run.taken },
    .polled reader asked (.ready (some (.ok batch))) run.waiting)

def enqueue (run : Run V) (value : V) (control : Control) : Run V :=
  { run with
    control
    reservations := run.reservations ++ [(run.nextReservation, run.producer.size value)]
    nextReservation := run.nextReservation + 1
    producer := run.producer.push ⟨value, run.nextReservation⟩ }

def answered (run : Run V) (reader position : Nat) (stream : Polled V) : Run V × Event V :=
  match stream with
  | .pending => (run, .polled reader (some stream) .pending [])
  | .batch value =>
    let run := { run with producer := run.producer.count (run.producer.batchesPolled + 1) }
    match run.control.reserve (run.producer.size value) with
    | .error error => run.conclude reader (some stream) (some error)
    | .ok control =>
      (run.enqueue value control).give reader position (some stream) ⟨value, run.nextReservation⟩
  | .failed error => run.conclude reader (some stream) (some (run.producer.locate error))
  | .ended => run.conclude reader (some stream) none

/-- A poll registers its waker before it looks whether the run is cancelled. -/
def attend (run : Run V) (reader : Nat) : Run V :=
  { run with
    registered := run.registered.insert reader ()
    producer := if run.isCancelled then run.producer.stop else run.producer }

/-- `Input::poll_next`; none where it panics. -/
def pollNext (run : Run V) (reader : Nat) (done : Bool) (stream : Polled V) :
    Option (Run V × Event V) :=
  if done then some (run, .polled reader none (.ready none) [])
  else
    let run := run.attend reader
    match run.producer.readers.get? reader with
    | none => none
    | some position =>
      if position < run.producer.base then none
      else match run.producer.queue[position - run.producer.base]? with
        | some batch => some (run.give reader position none batch)
        | none =>
          if run.producer.finished then some (run.conclude reader none run.producer.failure)
          else
            let run := { run with producer := run.producer.await reader }
            if run.maxBufferedBatches ≤ run.producer.queue.length then
              some (run, .polled reader none .pending [])
            -- Always-ready sources must still give cancellation and other readers a turn.
            else if 32 ≤ run.producer.batchesPolled then
              some ({ run with producer := run.producer.count 0 },
                .polled reader none .pending [reader])
            else if run.producer.stream then some (run.answered reader position stream)
            else none

def dropInput (run : Run V) (reader : Nat) : Run V × Event V :=
  let producer := run.producer.leave reader
  ({ run with inputs := run.inputs.remove reader, producer := producer.trim },
    .dropped reader (producer.waiters.entries.map Prod.fst))

/-- One step, whichever owner takes it; what no owner can do changes nothing. -/
def step (run : Run V) : Action V → Option (Run V × Option (Event V))
  | .poll reader stream =>
    match run.inputs.get? reader with
    | none => some (run, none)
    | some done => (run.pollNext reader done stream).map fun (run, event) => (run.collect, some event)
  | .drop reader =>
    if (run.inputs.get? reader).isNone then some (run, none)
    else
      let (run, event) := run.dropInput reader
      some (run.collect, some event)
  | .release reservation => some ({ run with taken := run.taken.erase reservation }.collect, none)
  | .cancel => some ({ run with isCancelled := true, registered := .empty },
      some (.cancelled (run.registered.entries.map Prod.fst)))
  | .reserve bytes =>
    match run.control.reserve bytes with
    | .ok control => some ({ run with control, others := run.others ++ [bytes] }, none)
    | .error _ => some (run, none)
  | .resize index bytes =>
    match run.others[index]? with
    | none => some (run, none)
    | some own =>
      match run.control.resize own bytes with
      | .ok control => some ({ run with control, others := run.others.set index bytes }, none)
      | .error _ => some (run, none)
  | .free index =>
    match run.others[index]? with
    | none => some (run, none)
    | some own => some ({ run with control := run.control.release own, others := run.others.eraseIdx index }, none)

def steps (run : Run V) : List (Action V) → Option (Run V × List (Event V))
  | [] => some (run, [])
  | action :: actions => do
    let (run, event) ← run.step action
    let (run, events) ← run.steps actions
    some (run, event.toList ++ events)

def start (readers : Nat) (node : Nat) (operation : String) (size : V → Nat) (maxBufferedBatches maxBytes : Nat) :
    Run V where
  producer := {
    node, operation, size
    stream := true
    queue := []
    base := 0
    batchesPolled := 0
    readers := (List.range readers).foldl (fun map reader => map.insert reader 0) .empty
    waiters := .empty
    finished := false
    failure := none }
  inputs := (List.range readers).foldl (fun map reader => map.insert reader false) .empty
  isCancelled := false
  maxBufferedBatches
  control := ⟨0, 0, maxBytes⟩
  registered := .empty
  reservations := []
  nextReservation := 0
  taken := []
  others := []

/-! ### What a poll does -/

/-- A poll of a reader at a position, and the stream's answer if it was asked. -/
inductive Polls (run : Run V) (reader position : Nat) : Option (Polled V) → Run V × Event V → Prop
  | read {batch : SharedValue V}
      (there : run.producer.queue[position - run.producer.base]? = some batch) :
      Polls run reader position none (run.give reader position none batch)
  | concluded (ahead : run.producer.queue[position - run.producer.base]? = none)
      (finished : run.producer.finished = true) :
      Polls run reader position none (run.conclude reader none run.producer.failure)
  | full (ahead : run.producer.queue[position - run.producer.base]? = none)
      (going : run.producer.finished = false)
      (full : run.maxBufferedBatches ≤ run.producer.queue.length) :
      Polls run reader position none
        ({ run with producer := run.producer.await reader }, .polled reader none .pending [])
  | yielded (ahead : run.producer.queue[position - run.producer.base]? = none)
      (going : run.producer.finished = false) :
      Polls run reader position none
        ({ run with producer := (run.producer.await reader).count 0 },
          .polled reader none .pending [reader])
  | pending (ahead : run.producer.queue[position - run.producer.base]? = none)
      (going : run.producer.finished = false) :
      Polls run reader position (some .pending)
        ({ run with producer := run.producer.await reader },
          .polled reader (some .pending) .pending [])
  | shared {value : V} {control : Control} {polled : Nat}
      (ahead : run.producer.queue[position - run.producer.base]? = none)
      (going : run.producer.finished = false)
      (room : run.producer.queue.length < run.maxBufferedBatches)
      (reserved : run.control.reserve (run.producer.size value) = .ok control) :
      Polls run reader position (some (.batch value))
        (({ run with producer := (run.producer.await reader).count polled }.enqueue value control).give
          reader position (some (.batch value)) ⟨value, run.nextReservation⟩)
  | closed {answer : Polled V} {failure : Option Error} {polled : Nat}
      (ahead : run.producer.queue[position - run.producer.base]? = none)
      (going : run.producer.finished = false)
      (lost : (∃ value, answer = .batch value) → failure = some .memoryLimit)
      (answered : answer ≠ .pending) :
      Polls run reader position (some answer)
        ({ run with producer := (run.producer.await reader).count polled }.conclude
          reader (some answer) failure)

theorem reserve_error {control : Control} {bytes : Nat} {error : Error}
    (refused : control.reserve bytes = .error error) : error = .memoryLimit := by
  unfold Control.reserve Control.hold at refused
  split at refused
  · cases refused
    rfl
  · split at refused <;> cases refused
    rfl

theorem answered_polls {run : Run V} {reader position : Nat} {stream : Polled V}
    (ahead : run.producer.queue[position - run.producer.base]? = none)
    (going : run.producer.finished = false)
    (room : run.producer.queue.length < run.maxBufferedBatches) :
    run.Polls reader position (some stream)
      ({ run with producer := run.producer.await reader }.answered reader position stream) := by
  cases stream with
  | pending => exact .pending ahead going
  | batch value =>
    unfold answered
    dsimp only
    split
    next error refused =>
      cases reserve_error refused
      exact .closed ahead going (fun _ => rfl) nofun
    next control reserved => exact .shared ahead going room reserved
  | failed error => exact .closed ahead going nofun nofun
  | ended => exact .closed ahead going nofun nofun

theorem pollNext_polls {run : Run V} {reader position : Nat} (stream : Polled V)
    (reading : run.producer.readers.get? reader = some position)
    (placed : run.producer.base ≤ position)
    (live : run.producer.finished = false → run.producer.stream = true) :
    ∃ asked next, run.pollNext reader false stream = some next ∧
      (run.attend reader).Polls reader position asked next := by
  have reading' : (run.attend reader).producer.readers.get? reader = some position := by
    unfold attend
    dsimp only
    split <;> exact reading
  have placed' : ¬position < (run.attend reader).producer.base := by
    unfold attend
    dsimp only
    split <;> exact Nat.not_lt.mpr placed
  have live' : (run.attend reader).producer.finished = false →
      (run.attend reader).producer.stream = true := by
    unfold attend
    dsimp only
    split
    · nofun
    · exact live
  generalize attended : run.attend reader = next at reading' placed' live'
  unfold pollNext
  simp only [Bool.false_eq_true, if_false, attended, reading', if_neg placed']
  cases there : next.producer.queue[position - next.producer.base]? with
  | some batch => exact ⟨_, _, rfl, .read there⟩
  | none =>
    cases going : next.producer.finished with
    | true => exact ⟨_, _, rfl, .concluded there going⟩
    | false =>
      simp only [Bool.false_eq_true, if_false]
      split_ifs with full yields streams
      · exact ⟨_, _, rfl, .full there going full⟩
      · exact ⟨_, _, rfl, .yielded there going⟩
      · exact ⟨_, _, rfl, answered_polls there going (Nat.lt_of_not_le full)⟩
      · exact absurd (live' going) streams

/-- What a step does when no reader is out of its place. -/
inductive Steps (run : Run V) : Action V → Run V → Option (Event V) → Prop
  | idle {action : Action V} : Steps run action run none
  | again {reader : Nat} {stream : Polled V} (done : run.inputs.get? reader = some true) :
      Steps run (.poll reader stream) run.collect (some (.polled reader none (.ready none) []))
  | polled {reader position : Nat} {stream : Polled V} {asked : Option (Polled V)} {next : Run V × Event V}
      (reading : run.producer.readers.get? reader = some position)
      (polls : (run.attend reader).Polls reader position asked next) :
      Steps run (.poll reader stream) next.1.collect (some next.2)
  | dropped {reader : Nat} :
      Steps run (.drop reader) (run.dropInput reader).1.collect (some (run.dropInput reader).2)
  | released {reservation : Nat} :
      Steps run (.release reservation) { run with taken := run.taken.erase reservation }.collect none
  | cancelled : Steps run .cancel { run with isCancelled := true, registered := .empty }
      (some (.cancelled (run.registered.entries.map Prod.fst)))
  | reserved {bytes : Nat} {control : Control} (room : run.control.reserve bytes = .ok control) :
      Steps run (.reserve bytes) { run with control, others := run.others ++ [bytes] } none
  | resized {index own bytes : Nat} {control : Control} (there : run.others[index]? = some own)
      (room : run.control.resize own bytes = .ok control) :
      Steps run (.resize index bytes) { run with control, others := run.others.set index bytes } none
  | freed {index own : Nat} (there : run.others[index]? = some own) :
      Steps run (.free index)
        { run with control := run.control.release own, others := run.others.eraseIdx index } none

theorem step_steps {run : Run V} (action : Action V)
    (placed : ∀ {reader}, run.inputs.get? reader = some false →
      ∃ position, run.producer.readers.get? reader = some position ∧ run.producer.base ≤ position ∧
        (run.producer.finished = false → run.producer.stream = true)) :
    ∃ next event, run.step action = some (next, event) ∧ run.Steps action next event := by
  cases action with
  | poll reader stream =>
    unfold step
    dsimp only
    cases input : run.inputs.get? reader with
    | none => exact ⟨_, _, rfl, .idle⟩
    | some done =>
      cases done with
      | true => exact ⟨_, _, rfl, .again input⟩
      | false =>
        obtain ⟨position, reading, above, live⟩ := placed input
        obtain ⟨asked, next, polled, polls⟩ := pollNext_polls stream reading above live
        exact ⟨_, _, by simp only [polled]; rfl, .polled reading polls⟩
  | drop reader =>
    unfold step
    dsimp only
    split
    · exact ⟨_, _, rfl, .idle⟩
    · exact ⟨_, _, rfl, .dropped⟩
  | cancel => exact ⟨_, _, rfl, .cancelled⟩
  | release reservation => exact ⟨_, _, rfl, .released⟩
  | reserve bytes =>
    unfold step
    dsimp only
    split
    next control room => exact ⟨_, _, rfl, .reserved room⟩
    · exact ⟨_, _, rfl, .idle⟩
  | resize index bytes =>
    unfold step
    dsimp only
    split
    · exact ⟨_, _, rfl, .idle⟩
    next own there =>
      split
      next control room => exact ⟨_, _, rfl, .resized there room⟩
      · exact ⟨_, _, rfl, .idle⟩
  | free index =>
    unfold step
    dsimp only
    split
    · exact ⟨_, _, rfl, .idle⟩
    next own there => exact ⟨_, _, rfl, .freed there⟩

theorem steps_keep (Kept : Run V → List (Event V) → Prop)
    (keeps : ∀ {run events} (action : Action V), Kept run events →
      ∃ next event, run.step action = some (next, event) ∧ Kept next (events ++ event.toList))
    {run : Run V} {events : List (Event V)} (kept : Kept run events) (actions : List (Action V)) :
    ∃ last later, run.steps actions = some (last, later) ∧ Kept last (events ++ later) := by
  induction actions generalizing run events with
  | nil => exact ⟨run, [], rfl, by rwa [List.append_nil]⟩
  | cons action actions ih =>
    obtain ⟨next, event, stepped, kept'⟩ := keeps action kept
    obtain ⟨last, later, rest, kept''⟩ := ih kept'
    refine ⟨last, event.toList ++ later, ?_, by rwa [← List.append_assoc]⟩
    simp [steps, stepped, rest]

end Run
end AsapPlanner.Runtime
