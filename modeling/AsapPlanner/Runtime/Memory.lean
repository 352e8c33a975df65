import AsapPlanner.Runtime.Delivery
import Mathlib.Algebra.BigOperators.Group.List.Basic

/-!
The bytes a run retains are those of the batches somebody still holds and of the other owners, never more than its
limit.
-/

namespace AsapPlanner.Runtime
open Rust

variable {V : Type}

namespace Control
variable {control next : Control} {bytes own : Nat}

theorem hold_ok {total : Option Nat} (held : control.hold total = .ok next) :
    total = some next.bytes ∧ next.bytes ≤ control.maxBytes ∧ next.peak = max control.peak next.bytes ∧
      next.maxBytes = control.maxBytes := by
  cases total with
  | none => cases held
  | some total =>
    unfold hold at held
    dsimp only at held
    split at held
    · cases held
    next within =>
      cases held
      exact ⟨rfl, Nat.not_lt.mp within, rfl, rfl⟩

theorem reserve_ok (reserved : control.reserve bytes = .ok next) :
    next.bytes = control.bytes + bytes ∧ next.bytes ≤ control.maxBytes ∧
      next.peak = max control.peak next.bytes ∧ next.maxBytes = control.maxBytes := by
  obtain ⟨total, rest⟩ := hold_ok reserved
  refine ⟨?_, rest⟩
  unfold checkedAdd at total
  split at total
  · exact (Option.some.inj total).symm
  · cases total

theorem resize_ok (resized : control.resize own bytes = .ok next) :
    own ≤ control.bytes ∧ next.bytes = control.bytes - own + bytes ∧ next.bytes ≤ control.maxBytes ∧
      next.peak = max control.peak next.bytes ∧ next.maxBytes = control.maxBytes := by
  obtain ⟨total, rest⟩ := hold_ok resized
  unfold checkedSub checkedAdd at total
  split at total
  next enough =>
    refine ⟨enough, ?_, rest⟩
    rw [Option.bind_some] at total
    split at total
    · exact (Option.some.inj total).symm
    · cases total
  · cases total

theorem release_all (control : Control) (entries : List (Nat × Nat)) :
    entries.foldl (fun control entry => control.release entry.2) control =
      { control with bytes := control.bytes - (entries.map Prod.snd).sum } := by
  induction entries generalizing control with
  | nil => rfl
  | cons entry entries ih =>
    rw [List.foldl_cons, ih]
    simp [release, Nat.sub_sub]

end Control

theorem sum_filter_add (entries : List (Nat × Nat)) (keep : Nat × Nat → Bool) :
    ((entries.filter keep).map Prod.snd).sum + ((entries.filter (!keep ·)).map Prod.snd).sum =
      (entries.map Prod.snd).sum := by
  induction entries with
  | nil => rfl
  | cons entry entries ih => cases kept : keep entry <;> simp [kept, ← ih] <;> omega

theorem mem_trim {producer : Producer V} {batch : SharedValue V} (member : batch ∈ producer.trim.queue) :
    batch ∈ producer.queue := by
  unfold Producer.trim at member
  dsimp only at member
  split at member
  · cases member
  · exact List.mem_of_mem_drop member

namespace Run

/-- The books: a reservation for each batch that `keep` keeps, and every byte of theirs and of the other owners'. -/
structure Accounts (size : V → Nat) (maxBytes : Nat) (keep : Nat → Bool) (run : Run V) (events : List (Event V)) :
    Prop where
  sized : run.producer.size = size
  kept : run.reservations =
    ((given events).filter fun batch => keep batch.reservation).map fun batch => (batch.reservation, size batch.value)
  owned : ∀ reservation, run.owned reservation = true → keep reservation = true ∧ reservation < run.nextReservation
  numbered : ∀ batch ∈ given events, batch.reservation < run.nextReservation
  bytes : run.control.bytes = (run.reservations.map Prod.snd).sum + run.others.sum
  peak : run.control.bytes ≤ run.control.peak
  limit : run.control.peak ≤ maxBytes
  maxBytes : run.control.maxBytes = maxBytes

variable {size : V → Nat} {maxBytes : Nat} {keep : Nat → Bool} {run next : Run V} {events : List (Event V)}
  {reader position reservation : Nat}

theorem owned_iff : run.owned reservation = true ↔
    reservation ∈ run.taken ∨ ∃ batch ∈ run.producer.queue, batch.reservation = reservation := by
  simp [owned]

theorem owned_of (taken : ∀ number ∈ next.taken, run.owned number = true)
    (queue : ∀ batch ∈ next.producer.queue, batch ∈ run.producer.queue) :
    ∀ number, next.owned number = true → run.owned number = true := by
  intro number owned
  rcases owned_iff.mp owned with member | ⟨batch, member, same⟩
  · exact taken number member
  · exact owned_iff.mpr (.inr ⟨batch, queue batch member, same⟩)

theorem owned_of_taken (number : Nat) (taken : number ∈ run.taken) : run.owned number = true :=
  owned_iff.mpr (.inl taken)

theorem Accounts.collect (accounts : run.Accounts size maxBytes keep events) :
    run.collect.Accounts size maxBytes run.owned events := by
  have parts := sum_filter_add run.reservations fun entry => run.owned entry.1
  have control : run.collect.control = { run.control with bytes := run.control.bytes -
      ((run.reservations.filter fun entry => !run.owned entry.1).map Prod.snd).sum } := Control.release_all ..
  refine ⟨accounts.sized, ?_, fun number owned => ⟨owned, (accounts.owned number owned).2⟩, accounts.numbered, ?_, ?_,
    ?_, ?_⟩
  · show run.reservations.filter _ = _
    rw [accounts.kept, List.filter_map, List.filter_filter]
    congr 1
    apply List.filter_congr
    intro batch _
    cases owned : run.owned batch.reservation with
    | false => simp [owned]
    | true => simp [owned, (accounts.owned _ owned).1]
  · rw [control, show run.collect.reservations = run.reservations.filter _ from rfl,
      show run.collect.others = run.others from rfl]
    have total := accounts.bytes
    dsimp only at parts ⊢
    omega
  · rw [control]
    exact Nat.le_trans (Nat.sub_le _ _) accounts.peak
  · rw [control]
    exact accounts.limit
  · rw [control]
    exact accounts.maxBytes

theorem Accounts.keeps {later : List (Event V)} (accounts : run.Accounts size maxBytes keep events)
    (same : given later = given events) (sized : next.producer.size = run.producer.size)
    (reservations : next.reservations = run.reservations) (fresh : next.nextReservation = run.nextReservation)
    (control : next.control = run.control) (others : next.others = run.others)
    (owned : ∀ number, next.owned number = true → run.owned number = true) :
    next.Accounts size maxBytes keep later := by
  refine ⟨sized.trans accounts.sized, ?_, fun number taken => ?_, ?_, ?_, ?_, ?_, ?_⟩
  · rw [same, reservations, accounts.kept]
  · rw [fresh]
    exact accounts.owned number (owned number taken)
  · rw [same, fresh]
    exact accounts.numbered
  · rw [control, reservations, others]
    exact accounts.bytes
  · rw [control]
    exact accounts.peak
  · rw [control]
    exact accounts.limit
  · rw [control]
    exact accounts.maxBytes

theorem Accounts.shares {event : Event V} {value : V} (accounts : run.Accounts size maxBytes keep events)
    (given : event.given = some ⟨value, run.nextReservation⟩) (sized : next.producer.size = run.producer.size)
    (reservations : next.reservations = run.reservations ++ [(run.nextReservation, run.producer.size value)])
    (fresh : next.nextReservation = run.nextReservation + 1)
    (reserved : run.control.reserve (run.producer.size value) = .ok next.control) (others : next.others = run.others)
    (owned : ∀ number, next.owned number = true → run.owned number = true ∨ number = run.nextReservation) :
    next.Accounts size maxBytes (fun number => keep number || number == run.nextReservation) (events ++ [event]) := by
  have more : Runtime.given (events ++ [event]) = Runtime.given events ++ [⟨value, run.nextReservation⟩] := by
    rw [given_snoc, given]
    rfl
  obtain ⟨bytes, within, peak, same⟩ := Control.reserve_ok reserved
  refine ⟨sized.trans accounts.sized, ?_, fun number taken => ?_, fun batch member => ?_, ?_, ?_, ?_,
    same.trans accounts.maxBytes⟩
  · have old : (Runtime.given events).filter (fun batch => keep batch.reservation || batch.reservation == run.nextReservation) =
        (Runtime.given events).filter fun batch => keep batch.reservation := by
      apply List.filter_congr
      intro batch member
      have := (accounts.numbered batch member).ne
      simp [this]
    rw [more, List.filter_append, List.map_append, old, reservations, accounts.kept, accounts.sized]
    simp
  · rw [fresh]
    rcases owned number taken with owned | rfl
    · obtain ⟨kept, before⟩ := accounts.owned number owned
      exact ⟨by simp [kept], Nat.lt_succ_of_lt before⟩
    · exact ⟨by simp, Nat.lt_succ_self _⟩
  · rw [more] at member
    rw [fresh]
    rcases List.mem_append.mp member with old | last
    · exact Nat.lt_succ_of_lt (accounts.numbered batch old)
    · cases List.mem_singleton.mp last
      exact Nat.lt_succ_self _
  · have := accounts.bytes
    rw [reservations, others, bytes, List.map_append, List.sum_append, List.map_singleton, List.sum_singleton]
    omega
  · omega
  · have := accounts.limit
    have := accounts.maxBytes
    omega

theorem Polls.accounts {asked : Option (Polled V)} {next : Run V × Event V} (polls : run.Polls reader position asked next)
    (accounts : run.Accounts size maxBytes keep events) : ∃ keep, next.1.Accounts size maxBytes keep (events ++ [next.2]) := by
  cases polls with
  | @read batch there =>
    refine ⟨_, accounts.keeps (given_unshared rfl) rfl rfl rfl rfl rfl (owned_of ?_ fun _ member => ?_)⟩
    · intro number taken
      rcases List.mem_cons.mp taken with rfl | taken
      · exact owned_iff.mpr (.inr ⟨batch, List.mem_of_getElem? there, rfl⟩)
      · exact owned_of_taken number taken
    · have queued := mem_trim member
      exact queued
  | concluded ahead finished =>
    refine ⟨_, accounts.keeps (given_unshared ?_) rfl rfl rfl rfl rfl (owned_of (fun _ taken => owned_of_taken _ taken) fun _ member => ?_)⟩
    · unfold conclude
      cases run.producer.failure <;> rfl
    · have queued := mem_trim member
      exact queued
  | @closed answer failure polled ahead going lost answered =>
    refine ⟨_, accounts.keeps (given_unshared ?_) rfl rfl rfl rfl rfl (owned_of (fun _ taken => owned_of_taken _ taken) fun _ member => ?_)⟩
    · cases answer <;> cases failure <;> rfl
    · have queued := mem_trim member
      exact queued
  | full => exact ⟨_, accounts.keeps (given_unshared rfl) rfl rfl rfl rfl rfl fun _ => id⟩
  | yielded => exact ⟨_, accounts.keeps (given_unshared rfl) rfl rfl rfl rfl rfl fun _ => id⟩
  | pending => exact ⟨_, accounts.keeps (given_unshared rfl) rfl rfl rfl rfl rfl fun _ => id⟩
  | shared ahead going room reserved =>
    refine ⟨_, accounts.shares rfl rfl rfl rfl reserved rfl fun number owned => ?_⟩
    rcases owned_iff.mp owned with taken | ⟨batch, member, rfl⟩
    · rcases List.mem_cons.mp taken with rfl | taken
      · exact .inr rfl
      · exact .inl (owned_of_taken number taken)
    · have queued := mem_trim member
      rcases List.mem_append.mp queued with queued | last
      · exact .inl (owned_iff.mpr (.inr ⟨batch, queued, rfl⟩))
      · cases List.mem_singleton.mp last
        exact .inr rfl

theorem Accounts.reown {control : Control} {others : List Nat} (accounts : run.Accounts size maxBytes run.owned events)
    (bytes : control.bytes + run.others.sum = run.control.bytes + others.sum)
    (peak : control.bytes ≤ control.peak) (limit : control.peak ≤ maxBytes)
    (same : control.maxBytes = run.control.maxBytes) :
    ({ run with control, others } : Run V).Accounts size maxBytes run.owned events := by
  refine ⟨accounts.sized, accounts.kept, accounts.owned, accounts.numbered, ?_, peak, limit,
    same.trans accounts.maxBytes⟩
  have := accounts.bytes
  dsimp only
  omega

theorem sum_set {others : List Nat} {index own : Nat} (there : others[index]? = some own) (bytes : Nat) :
    (others.set index bytes).sum + own = others.sum + bytes := by
  induction others generalizing index with
  | nil => cases there
  | cons first others ih =>
    cases index with
    | zero =>
      cases there
      simp
      omega
    | succ index =>
      have := ih there
      simp
      omega

theorem sum_eraseIdx {others : List Nat} {index own : Nat} (there : others[index]? = some own) :
    (others.eraseIdx index).sum + own = others.sum := by
  induction others generalizing index with
  | nil => cases there
  | cons first others ih =>
    cases index with
    | zero =>
      cases there
      simp
      omega
    | succ index =>
      have := ih there
      simp
      omega

theorem Steps.accounts {action : Action V} {event : Option (Event V)} (steps : run.Steps action next event)
    (accounts : run.Accounts size maxBytes run.owned events) : next.Accounts size maxBytes next.owned (events ++ event.toList) := by
  have unseen : run.Accounts size maxBytes run.owned (events ++ (none : Option (Event V)).toList) := by
    rwa [Option.toList_none, List.append_nil]
  cases steps with
  | idle => exact unseen
  | again done =>
    exact Accounts.collect (accounts.keeps (given_unshared rfl) rfl rfl rfl rfl rfl fun _ => id)
  | @polled reader position _ _ _ reading polls =>
    have attended : (run.attend reader).Accounts size maxBytes run.owned events := by
      refine @Accounts.keeps V size maxBytes run.owned run (run.attend reader) events events accounts rfl ?_ rfl rfl rfl
        rfl (owned_of (fun _ taken => owned_of_taken _ taken) fun _ member => ?_)
      · unfold attend
        dsimp only
        split <;> rfl
      · unfold attend at member
        dsimp only at member
        split at member
        · cases member
        · exact member
    obtain ⟨keep, polled⟩ := polls.accounts attended
    exact polled.collect
  | @dropped reader =>
    have shown : (run.dropInput reader).2.given = none := rfl
    have dropped : (run.dropInput reader).1.Accounts size maxBytes run.owned (events ++ [(run.dropInput reader).2]) := by
      refine @Accounts.keeps V size maxBytes run.owned run (run.dropInput reader).1 events _ accounts
        (given_unshared shown) rfl rfl rfl rfl rfl
        (owned_of (fun _ taken => owned_of_taken _ taken) fun _ member => ?_)
      have queued := mem_trim member
      exact queued
    exact dropped.collect
  | @released reservation =>
    have released : ({ run with taken := run.taken.erase reservation } : Run V).Accounts size maxBytes run.owned
        (events ++ (none : Option (Event V)).toList) :=
      @Accounts.keeps V size maxBytes run.owned run _ _ _ unseen rfl rfl rfl rfl rfl rfl
        (owned_of (fun _ taken => owned_of_taken _ (List.mem_of_mem_erase taken)) fun _ => id)
    exact released.collect
  | cancelled => exact accounts.keeps (given_unshared rfl) rfl rfl rfl rfl rfl fun _ => id
  | reserved room =>
    obtain ⟨bytes, within, peak, same⟩ := Control.reserve_ok room
    have := accounts.limit
    have := accounts.maxBytes
    exact unseen.reown (by simp [bytes]; omega) (by omega) (by omega) same
  | @resized index own more control there room =>
    obtain ⟨enough, bytes, within, peak, same⟩ := Control.resize_ok room
    have := accounts.limit
    have := accounts.maxBytes
    have total := sum_set there more
    exact unseen.reown (by omega) (by omega) (by omega) same
  | freed there =>
    have total := sum_eraseIdx there
    have bytes := accounts.bytes
    refine unseen.reown ?_ (Nat.le_trans (Nat.sub_le _ _) accounts.peak) accounts.limit rfl
    show run.control.bytes - _ + run.others.sum = run.control.bytes + _
    omega

theorem accounts_start (readers node : Nat) (operation : String) (size : V → Nat) (maxBufferedBatches maxBytes : Nat) :
    (start readers node operation size maxBufferedBatches maxBytes).Accounts size maxBytes
      (start readers node operation size maxBufferedBatches maxBytes).owned [] :=
  ⟨rfl, rfl, nofun, nofun, rfl, Nat.le_refl _, Nat.zero_le _, rfl⟩

/-- In any run the bytes retained are those of the batches queued or held, and of the other owners. They never
exceed the limit, and once nobody holds a batch only the other owners' are left. -/
theorem steps_account (readers node : Nat) (operation : String) (size : V → Nat) (maxBufferedBatches maxBytes : Nat)
    (actions : List (Action V)) :
    ∃ run events, (start readers node operation size maxBufferedBatches maxBytes).steps actions = some (run, events) ∧
      run.control.bytes = (((given events).filter fun batch => run.owned batch.reservation).map
        fun batch => size batch.value).sum + run.others.sum ∧
      run.control.bytes ≤ run.control.peak ∧ run.control.peak ≤ maxBytes ∧
      ((∀ reader, run.inputs.get? reader = none) → run.taken = [] → run.control.bytes = run.others.sum) := by
  obtain ⟨run, events, ran, sees, accounts⟩ := steps_keep
    (fun run events => run.Sees events ∧ run.Accounts size maxBytes run.owned events)
    (fun {run _} action kept => by
      obtain ⟨sees, accounts⟩ := kept
      obtain ⟨next, event, stepped, steps, sees'⟩ := sees.step action
      exact ⟨next, event, stepped, sees', steps.accounts accounts⟩)
    ⟨sees_start readers node operation size maxBufferedBatches maxBytes,
      accounts_start readers node operation size maxBufferedBatches maxBytes⟩ actions
  rw [List.nil_append] at sees accounts
  have bytes := accounts.bytes
  rw [accounts.kept, List.map_map] at bytes
  refine ⟨run, events, ran, bytes, accounts.peak, accounts.limit, fun dropped released => ?_⟩
  -- A queue nobody reads is empty.
  have empty : run.producer.queue = [] := by
    by_contra queued
    obtain ⟨reader, reading⟩ := sees.based queued
    have attached := sees.reads.attached.mpr ⟨_, reading⟩
    rw [dropped] at attached
    cases attached
  have unowned (batch : SharedValue V) : run.owned batch.reservation = false := by
    simp [owned, empty, released]
  rw [bytes]
  simp [unowned]

end Run
end AsapPlanner.Runtime
