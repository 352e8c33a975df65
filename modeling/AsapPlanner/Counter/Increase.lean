import AsapPlanner.Rust.Integer
import Mathlib.Data.List.Induction
import Mathlib.Data.Rat.Defs
import Mathlib.Algebra.Order.Field.Rat
import Mathlib.Tactic.Linarith
import Mathlib.Tactic.Ring

/-!
The accumulator behind counter rates: end points, reset-corrected increase and sample count of a
series, over exact arithmetic.
-/

namespace AsapPlanner.Counter
open Rust

/-! ### Series -/

structure Sample where
  time : Int
  value : ℚ
deriving DecidableEq

/-- What a counter gained between two samples: a reset restarts it from zero. -/
def gain (before after : ℚ) : ℚ := if before ≤ after then after - before else after

/-- The reset-corrected increase of a series. -/
def increaseOf : List Sample → ℚ
  | before :: after :: rest => gain before.value after.value + increaseOf (after :: rest)
  | _ => 0

/-- The last sample of a series that starts at `first`. -/
def lastOf (first : Sample) (rest : List Sample) : Sample := rest.getLastD first

@[simp] theorem lastOf_nil (first : Sample) : lastOf first [] = first := rfl

@[simp] theorem lastOf_cons (first next : Sample) (rest : List Sample) :
    lastOf first (next :: rest) = lastOf next rest := by
  unfold lastOf
  cases rest <;> rfl

@[simp] theorem lastOf_append_cons (first next : Sample) (rest more : List Sample) :
    lastOf first (rest ++ next :: more) = lastOf next more := by
  induction rest generalizing first with
  | nil => exact lastOf_cons first next more
  | cons second rest ih => rw [List.cons_append, lastOf_cons, ih]

theorem lastOf_mem (first : Sample) (rest : List Sample) : lastOf first rest ∈ first :: rest := by
  induction rest generalizing first with
  | nil => exact List.mem_singleton.mpr rfl
  | cons second rest ih =>
    rw [lastOf_cons]
    exact List.mem_cons_of_mem first (ih second)

theorem increaseOf_append (first next : Sample) (rest more : List Sample) :
    increaseOf (first :: (rest ++ next :: more)) =
      increaseOf (first :: rest) + gain (lastOf first rest).value next.value
        + increaseOf (next :: more) := by
  induction rest generalizing first with
  | nil => simp [increaseOf]
  | cons second rest ih =>
    rw [List.cons_append, increaseOf, ih, increaseOf, lastOf_cons]
    ring

/-- Samples in strictly increasing time. -/
abbrev InOrder (series : List Sample) : Prop := series.Pairwise fun a b => a.time < b.time

/-- One of two series is over before the other starts. -/
def Apart (left right : List Sample) : Prop :=
  (∀ a ∈ left, ∀ b ∈ right, a.time < b.time) ∨ ∀ a ∈ left, ∀ b ∈ right, b.time < a.time

theorem InOrder.le_last {first : Sample} {rest : List Sample} (ordered : InOrder (first :: rest)) :
    ∀ sample ∈ first :: rest, sample.time ≤ (lastOf first rest).time := by
  induction rest generalizing first with
  | nil =>
    intro sample member
    rw [List.mem_singleton.mp member, lastOf_nil]
  | cons second rest ih =>
    intro sample member
    obtain ⟨before, later⟩ := List.pairwise_cons.mp ordered
    rw [lastOf_cons]
    rcases List.mem_cons.mp member with rfl | member
    · exact Int.le_of_lt (before _ (lastOf_mem second rest))
    · exact ih later sample member

theorem InOrder.first_le {first : Sample} {rest : List Sample} (ordered : InOrder (first :: rest)) :
    ∀ sample ∈ first :: rest, first.time ≤ sample.time := by
  intro sample member
  rcases List.mem_cons.mp member with rfl | later
  · exact Int.le_refl _
  · exact Int.le_of_lt ((List.pairwise_cons.mp ordered).1 sample later)

/-! ### The accumulator -/

theorem min_add_min (a b bound : Nat) : min (min a bound + min b bound) bound = min (a + b) bound := by
  omega

theorem min_add_one (a bound : Nat) : min (min a bound + 1) bound = min (a + 1) bound := by
  omega

structure IncreaseAccumulator where
  startingValue : ℚ
  startingTimestamp : Int
  lastSeenValue : ℚ
  lastSeenTimestamp : Int
  totalIncrease : ℚ
  sampleCount : Nat
deriving DecidableEq

namespace IncreaseAccumulator

def new (startingValue : ℚ) (startingTimestamp : Int) (lastSeenValue : ℚ) (lastSeenTimestamp : Int) :
    IncreaseAccumulator :=
  { startingValue, startingTimestamp, lastSeenValue, lastSeenTimestamp
    totalIncrease :=
      if lastSeenTimestamp ≤ startingTimestamp then 0
      else if lastSeenValue ≥ startingValue then lastSeenValue - startingValue
      else lastSeenValue
    sampleCount := if lastSeenTimestamp > startingTimestamp then 2 else 1 }

def update (acc : IncreaseAccumulator) (value : ℚ) (timestamp : Int) : IncreaseAccumulator :=
  if timestamp < acc.lastSeenTimestamp then acc
  else if timestamp = acc.lastSeenTimestamp then acc
  else { acc with
    totalIncrease :=
      if value ≥ acc.lastSeenValue then acc.totalIncrease + (value - acc.lastSeenValue)
      else acc.totalIncrease + value
    lastSeenValue := value
    lastSeenTimestamp := timestamp
    sampleCount := saturatingAdd acc.sampleCount 1 }

/-- Merge an interval with one that starts no earlier: a gap between them adds its own increase. -/
def mergeOrdered (first second : IncreaseAccumulator) : IncreaseAccumulator :=
  let junction :=
    if second.startingTimestamp > first.lastSeenTimestamp then
      if second.startingValue ≥ first.lastSeenValue then second.startingValue - first.lastSeenValue
      else second.startingValue
    else 0
  let later := second.lastSeenTimestamp > first.lastSeenTimestamp
  { startingValue := first.startingValue
    startingTimestamp := first.startingTimestamp
    lastSeenValue := if later then second.lastSeenValue else first.lastSeenValue
    lastSeenTimestamp := if later then second.lastSeenTimestamp else first.lastSeenTimestamp
    totalIncrease := first.totalIncrease + junction + second.totalIncrease
    sampleCount := saturatingAdd first.sampleCount second.sampleCount }

/-- Merge two counter intervals; ties retain the left one. -/
def mergePair (left right : IncreaseAccumulator) : IncreaseAccumulator :=
  if left.startingTimestamp ≤ right.startingTimestamp then left.mergeOrdered right
  else right.mergeOrdered left

def ofSeries (first : Sample) (rest : List Sample) : IncreaseAccumulator where
  startingValue := first.value
  startingTimestamp := first.time
  lastSeenValue := (lastOf first rest).value
  lastSeenTimestamp := (lastOf first rest).time
  totalIncrease := increaseOf (first :: rest)
  sampleCount := min (rest.length + 1) u64Max

theorem new_ofSeries (first : Sample) :
    new first.value first.time first.value first.time = ofSeries first [] := by
  simp [new, ofSeries, increaseOf, u64Max]

theorem update_ofSeries {first next : Sample} {rest : List Sample}
    (later : (lastOf first rest).time < next.time) :
    (ofSeries first rest).update next.value next.time = ofSeries first (rest ++ [next]) := by
  have early : ¬ next.time < (lastOf first rest).time := by omega
  have apart : next.time ≠ (lastOf first rest).time := by omega
  unfold update ofSeries
  rw [if_neg early, if_neg apart, lastOf_append_cons, lastOf_nil, increaseOf_append]
  congr 1
  · unfold gain
    split <;> simp [increaseOf]
  · change saturatingAdd (min (rest.length + 1) u64Max) 1 = _
    rw [List.length_append, List.length_singleton]
    exact min_add_one _ _

theorem mergeOrdered_ofSeries {first next : Sample} {rest more : List Sample}
    (orderedMore : InOrder (next :: more)) (apart : (lastOf first rest).time < next.time) :
    (ofSeries first rest).mergeOrdered (ofSeries next more) =
      ofSeries first (rest ++ next :: more) := by
  have ends := orderedMore.le_last next List.mem_cons_self
  have lasts : (lastOf next more).time > (lastOf first rest).time := by omega
  have count : saturatingAdd (min (rest.length + 1) u64Max) (min (more.length + 1) u64Max) =
      min ((rest ++ next :: more).length + 1) u64Max := by
    rw [List.length_append, List.length_cons, Nat.add_right_comm]
    exact min_add_min _ _ _
  unfold mergeOrdered
  simp only [ofSeries, gt_iff_lt, if_pos apart, if_pos lasts, count, lastOf_append_cons]
  rw [increaseOf_append]
  rfl

theorem mergePair_ofSeries {first next : Sample} {rest more : List Sample}
    (ordered : InOrder (first :: rest)) (orderedMore : InOrder (next :: more))
    (apart : (lastOf first rest).time < next.time) :
    (ofSeries first rest).mergePair (ofSeries next more) = ofSeries first (rest ++ next :: more) ∧
      (ofSeries next more).mergePair (ofSeries first rest) =
        ofSeries first (rest ++ next :: more) := by
  have starts := ordered.le_last first List.mem_cons_self
  have leftFirst : first.time ≤ next.time := by omega
  have rightLater : ¬ next.time ≤ first.time := by omega
  have merged := mergeOrdered_ofSeries orderedMore apart
  constructor
  · exact (if_pos leftFirst).trans merged
  · exact (if_neg rightLater).trans merged

end IncreaseAccumulator

/-! ### Counter states -/

inductive CounterFamily
  | rate | increase
deriving DecidableEq

/-- An exact counter state: empty until its first sample. -/
abbrev CounterState := Option IncreaseAccumulator

namespace CounterState

def update (state : CounterState) (sample : Sample) : CounterState :=
  match state with
  | some counter => some (counter.update sample.value sample.time)
  | none => some (.new sample.value sample.time sample.value sample.time)

/-- Whether two states' sample intervals share any time, ends included. -/
def overlapsInTime (left right : CounterState) : Bool :=
  match left, right with
  | some a, some b =>
    a.startingTimestamp ≤ b.lastSeenTimestamp && b.startingTimestamp ≤ a.lastSeenTimestamp
  | _, _ => false

def merge (left right : CounterState) : CounterState :=
  match left, right with
  | some a, some b => some (a.mergePair b)
  | a, b => a.or b

def ofSeries : List Sample → CounterState
  | [] => none
  | first :: rest => some (.ofSeries first rest)

theorem update_ofSeries {series : List Sample} {next : Sample}
    (ordered : InOrder (series ++ [next])) :
    update (ofSeries series) next = ofSeries (series ++ [next]) := by
  cases series with
  | nil => exact congrArg some (IncreaseAccumulator.new_ofSeries next)
  | cons first rest =>
    have later := (List.pairwise_append.mp ordered).2.2 _ (lastOf_mem first rest) next
      (List.mem_singleton.mpr rfl)
    exact congrArg some (IncreaseAccumulator.update_ofSeries later)

theorem foldl_update {series : List Sample} (ordered : InOrder series) :
    series.foldl update none = ofSeries series := by
  induction series using List.reverseRecOn with
  | nil => rfl
  | append_singleton series next ih =>
    have before := (List.pairwise_append.mp ordered).1
    rw [List.foldl_append, ih before]
    exact update_ofSeries ordered

theorem overlapsInTime_ofSeries {left right : List Sample} (orderedLeft : InOrder left)
    (orderedRight : InOrder right) :
    overlapsInTime (ofSeries left) (ofSeries right) = false ↔ Apart left right := by
  unfold Apart
  cases left with
  | nil => simp [ofSeries, overlapsInTime]
  | cons first rest =>
    cases right with
    | nil => simp [ofSeries, overlapsInTime]
    | cons next more =>
      rw [ofSeries, ofSeries, overlapsInTime, Bool.and_eq_false_iff, decide_eq_false_iff_not,
        decide_eq_false_iff_not]
      constructor
      · intro apart
        rcases apart with after | before
        · right
          intro a left b right
          have ends := orderedRight.le_last b right
          have starts := orderedLeft.first_le a left
          simp only [IncreaseAccumulator.ofSeries] at after
          omega
        · left
          intro a left b right
          have ends := orderedLeft.le_last a left
          have starts := orderedRight.first_le b right
          simp only [IncreaseAccumulator.ofSeries] at before
          omega
      · intro apart
        simp only [IncreaseAccumulator.ofSeries]
        rcases apart with before | after
        · have last := before _ (lastOf_mem first rest) next List.mem_cons_self
          omega
        · have last := after first List.mem_cons_self _ (lastOf_mem next more)
          omega

theorem merge_ofSeries {left right : List Sample} (orderedLeft : InOrder left)
    (orderedRight : InOrder right)
    (apart : overlapsInTime (ofSeries left) (ofSeries right) = false) :
    ∃ both, both.Perm (left ++ right) ∧ InOrder both ∧
      merge (ofSeries left) (ofSeries right) = ofSeries both := by
  cases left with
  | nil => exact ⟨right, List.Perm.refl _, orderedRight, by cases right <;> rfl⟩
  | cons first rest =>
    cases right with
    | nil => exact ⟨first :: rest, by rw [List.append_nil], orderedLeft, rfl⟩
    | cons next more =>
      rcases (overlapsInTime_ofSeries orderedLeft orderedRight).mp apart with before | after
      · have junction := before _ (lastOf_mem first rest) next List.mem_cons_self
        refine ⟨first :: rest ++ next :: more, List.Perm.refl _, ?_, ?_⟩
        · exact List.pairwise_append.mpr ⟨orderedLeft, orderedRight, before⟩
        · exact congrArg some
            (IncreaseAccumulator.mergePair_ofSeries orderedLeft orderedRight junction).1
      · have junction := after first List.mem_cons_self _ (lastOf_mem next more)
        refine ⟨next :: more ++ first :: rest, List.perm_append_comm, ?_, ?_⟩
        · exact List.pairwise_append.mpr ⟨orderedRight, orderedLeft, fun b right a left =>
            after a left b right⟩
        · exact congrArg some
            (IncreaseAccumulator.mergePair_ofSeries orderedRight orderedLeft junction).2

end CounterState
end AsapPlanner.Counter
