import AsapPlanner.Ir.Node
import Mathlib.Data.List.Sort

/-!
Candidate dominance: a candidate is deleted when another of its key has a guarantee at least as strong and
no larger numbers. Among candidates that dominate each other the smallest id is kept.
-/

namespace AsapPlanner.Selection
open Rust Ir

/-! ### Numbers -/

/-- Rounded arithmetic on doubles. -/
structure FloatOps where
  add : F64 → F64 → F64
  mul : F64 → F64 → F64
  ofU64 : Nat → F64

namespace FloatOps

def zero : F64 := ⟨false, 0⟩
def one : F64 := ⟨false, 0x3ff0000000000000⟩

def le (x y : F64) : Bool := ((x.partialCmp y).map Ordering.isLE).getD false
def lt (x y : F64) : Bool := ((x.partialCmp y).map Ordering.isLT).getD false

/-- `f64::max`. -/
def max (x y : F64) : F64 := if x.isNan || lt x y then y else x

/-- `clamp(0.0, 1.0)`. -/
def clamp (x : F64) : F64 := if lt x zero then zero else if lt one x then one else x

def finite (x : F64) : Option F64 := if x.isFinite then some x else none

/-- A finite, nonnegative value. -/
def bound (x : F64) : Option F64 := if x.isFinite && le zero x then some x else none

variable (ops : FloatOps)

mutual
/-- A bound's value, unless a statistic it needs is unknown. -/
def evaluate : BoundExpr → Option F64
  | .zero => some zero
  | .constant value => (finite value).bind bound
  | .sum terms => do bound ((← evaluateAll terms).foldl ops.add zero)
  | .product factors => do bound ((← evaluateAll factors).foldl ops.mul one)
  | .scaled factor inner => do
    let factor ← finite factor
    bound (ops.mul factor (← evaluate inner))
  | .max terms => do bound ((← evaluateAll terms).foldl max zero)
  | .unknown _ => none

def evaluateAll : List BoundExpr → Option (List F64)
  | [] => some []
  | term :: rest => do
    let first ← evaluate term
    let others ← evaluateAll rest
    pure (first :: others)
end

mutual
def evaluateProbability : ProbabilityExpr → Option F64
  | .zero => some zero
  | .constant value => if le zero value && le value one then (finite value).map clamp else none
  | .unionBound terms => do
    let raw ← finite ((← evaluateProbabilities terms).foldl ops.add zero)
    pure (clamp raw)
  | .scaled count inner => do
    let raw ← finite (ops.mul (← evaluate ops count) (← evaluateProbability inner))
    pure (clamp raw)
  | .unknown _ => none

def evaluateProbabilities : List ProbabilityExpr → Option (List F64)
  | [] => some []
  | term :: rest => do
    let first ← evaluateProbability term
    let others ← evaluateProbabilities rest
    pure (first :: others)
end

end FloatOps

def isZeroF64 (value : F64) : Bool := value.eq FloatOps.zero

mutual
def isZeroBound : BoundExpr → Bool
  | .zero => true
  | .constant value => isZeroF64 value
  | .sum terms | .max terms => allZeroBounds terms
  | .product factors => anyZeroBound factors
  | .scaled factor inner => isZeroF64 factor || isZeroBound inner
  | .unknown _ => false

def allZeroBounds : List BoundExpr → Bool
  | [] => true
  | term :: rest => isZeroBound term && allZeroBounds rest

def anyZeroBound : List BoundExpr → Bool
  | [] => false
  | factor :: rest => isZeroBound factor || anyZeroBound rest
end

mutual
def isZeroProbability : ProbabilityExpr → Bool
  | .zero => true
  | .constant value => isZeroF64 value
  | .unionBound terms => allZeroProbabilities terms
  | .scaled count inner => isZeroBound count || isZeroProbability inner
  | .unknown _ => false

def allZeroProbabilities : List ProbabilityExpr → Bool
  | [] => true
  | term :: rest => isZeroProbability term && allZeroProbabilities rest
end

def isExact : AccuracyGuarantee → Bool
  | .mk spec _ => isZeroBound spec.error && isZeroProbability spec.failureProbability

/-- Both known, the first no larger. -/
def knownLe : Option F64 → Option F64 → Bool
  | some s, some w => FloatOps.le s w
  | _, _ => false

/-- Whether `stronger` is at least as strong as `weaker`: equal, or exact, or both in one metric and scope
with bounds and failure probabilities no larger. -/
def guaranteeAtLeastAsStrong (ops : FloatOps) : Option AccuracyGuarantee → Option AccuracyGuarantee → Bool
  | none, none => true
  | some stronger@(.mk spec _), some (.mk spec' _) =>
    same spec spec' || isExact stronger ||
      (same spec.accuracyMetric spec'.accuracyMetric && same spec.accuracyScope spec'.accuracyScope &&
        knownLe (ops.evaluate spec.error) (ops.evaluate spec'.error) &&
        knownLe (ops.evaluateProbability spec.failureProbability)
          (ops.evaluateProbability spec'.failureProbability))
  | _, _ => false

/-! ### Candidates -/

/-- The parts of an operator its readers' costs read. -/
inductive OperatorKindForReaders
  | summaryTumblingWindowChain (tumblingWindowWidthMs tumblingWindowCount : Nat)
  | other (asap : Bool) (kindName : String)

instance : Derived OperatorKindForReaders := ⟨fun kind => match kind with
  | .summaryTumblingWindowChain width count =>
    .record "SummaryTumblingWindowChain" [("tumbling_window_width_ms", datum width),
      ("tumbling_window_count", datum count)]
  | .other asap kindName => .variant "Other" [datum asap, datum kindName]⟩

/-- What must be equal for one candidate to dominate another. -/
structure DominanceKey where
  group : Nat
  timing : ExecutionTiming
  materialization : Ir.Materialization
  shareable : Bool
  producerCandidatesPerInput : List (List Nat)
  readers : List (Nat × Nat)
  outputReferences : List Nat
  readerConstraintIds : List Nat
  mayKeepAcrossEvaluationsPerSoleReaderQuery : List Bool
  outputSchema : Schema
  operatorKind : OperatorKindForReaders

instance : Derived DominanceKey := ⟨fun key =>
  .record "DominanceKey" [("group", datum key.group), ("timing", datum key.timing),
    ("materialization", datum key.materialization), ("shareable", datum key.shareable),
    ("producer_candidates_per_input", datum key.producerCandidatesPerInput),
    ("readers", datum key.readers), ("output_references", datum key.outputReferences),
    ("reader_constraint_ids", datum key.readerConstraintIds),
    ("may_keep_across_evaluations_per_sole_reader_query",
      datum key.mayKeepAcrossEvaluationsPerSoleReaderQuery),
    ("output_schema", datum key.outputSchema), ("operator_kind", datum key.operatorKind)]⟩

structure DominanceProfile where
  same : DominanceKey
  guarantee : Option AccuracyGuarantee

/-- The resources of one execution. -/
structure CandidateUsage where
  cpuOpsPerExecution : F64
  scannedBytesPerExecution : F64
  workMsPerExecution : F64
  ownLatencyMs : F64
  averageMemoryBytes : F64
  peakMemoryBytes : Nat
  diskBytes : Nat
  heldBytes : Nat
  rawDataKeptBytes : Nat
  maintainedWindowBytes : Nat
  outputRows : Nat
  outputBytes : Nat

/-- A context option that changed a candidate's usage. -/
inductive UsageContext
  | producerOutput | scanWindowOfReader | paneRetentionOfReachingQueries | producerOnACycle
  | uncostableContext
deriving DecidableEq

structure CandidateData where
  approximate : Bool
  accuracyBudgetParts : Nat
  usage : Except String CandidateUsage
  usageDependsOn : List UsageContext

abbrev Profiled : Type := DominanceProfile × CandidateData

namespace Profiled

/-- Where the bucket of a candidate is looked up. -/
def triple (candidate : Profiled) : Nat × ExecutionTiming × Ir.Materialization :=
  (candidate.1.same.group, candidate.1.same.timing, candidate.1.same.materialization)

/-- Whether two candidates have one key. -/
def sameKey (x y : Profiled) : Bool := same x.1.same y.1.same

end Profiled

variable (ops : FloatOps)

/-- Every number a candidate it dominates must not beat. -/
def comparedNumbers (usage : CandidateUsage) : List F64 :=
  [usage.cpuOpsPerExecution, usage.scannedBytesPerExecution, usage.workMsPerExecution,
    usage.ownLatencyMs, usage.averageMemoryBytes, ops.ofU64 usage.peakMemoryBytes,
    ops.ofU64 usage.diskBytes, ops.ofU64 usage.heldBytes, ops.ofU64 usage.rawDataKeptBytes,
    ops.ofU64 usage.maintainedWindowBytes, ops.ofU64 usage.outputRows, ops.ofU64 usage.outputBytes]

def dominates : Profiled → Profiled → Bool
  | (byProfile, byData), (profile, data) =>
    match byData.usage, data.usage with
    | .ok byUsage, .ok usage =>
      same byProfile.same profile.same && byData.usageDependsOn.isEmpty && data.usageDependsOn.isEmpty &&
        byData.approximate == data.approximate && byData.accuracyBudgetParts == data.accuracyBudgetParts &&
        guaranteeAtLeastAsStrong ops byProfile.guarantee profile.guarantee &&
        ((comparedNumbers ops byUsage).zip (comparedNumbers ops usage)).all
          (fun numbers => FloatOps.le numbers.1 numbers.2)
    | _, _ => false

theorem dominates_sameKey {x y : Profiled} (better : dominates ops x y = true) : x.sameKey y = true := by
  obtain ⟨xp, xd⟩ := x
  obtain ⟨yp, yd⟩ := y
  simp only [dominates] at better
  split at better
  · simp only [Bool.and_eq_true] at better
    exact better.1.1.1.1.1.1
  · cases better

theorem same_timing {x y : ExecutionTiming} (alike : same x y = true) : x = y := by
  revert alike
  cases x <;> cases y <;>
    simp [same, datum, Datum.variant, ExecutionTiming.name, Datum.eq]

theorem same_medium {x y : Medium} (alike : same x y = true) : x = y := by
  revert alike
  cases x <;> cases y <;> simp [same, datum, Datum.variant, Medium.name, Datum.eq]

theorem same_materialization {x y : Ir.Materialization} (alike : same x y = true) : x = y := by
  have media {x y : Medium} (alike : Datum.eqParts [datum x] [datum y] = true) : x = y :=
    same_medium (by simpa only [Datum.eqParts, Bool.and_true, same] using alike)
  cases x <;> cases y <;> simp only [same, datum, Datum.variant, Datum.eq, Bool.and_eq_true] at alike
  case notMaterialized.notMaterialized => rfl
  case matAtIngestion.matAtIngestion => rw [media alike.2]
  case matAtQuery.matAtQuery => rw [media alike.2]
  case matAtQueryKeptAcrossEvaluations.matAtQueryKeptAcrossEvaluations => rw [media alike.2]
  all_goals simp at alike

theorem sameKey_triple {x y : Profiled} (alike : x.sameKey y = true) : x.triple = y.triple := by
  obtain ⟨-, group, timing, materialization, -⟩ : _ ∧ same x.1.same.group y.1.same.group = true ∧
      same x.1.same.timing y.1.same.timing = true ∧
      same x.1.same.materialization y.1.same.materialization = true ∧ _ := by
    simpa only [Profiled.sameKey, same, datum, Datum.record, Datum.eq, Datum.eqParts, List.map_cons,
      Bool.and_eq_true] using alike
  simp only [Profiled.triple, same_nat.mp group, same_timing timing, same_materialization materialization]

/-! ### Buckets of equal keys -/

/-- The candidates seen, those of one key together, and by triple the places of its buckets. -/
structure Buckets where
  buckets : List (List Nat)
  bucketOfKey : Nat × ExecutionTiming × Ir.Materialization → List Nat

/-- A bucket's first candidate. -/
def Buckets.head (state : Buckets) (bucket : Nat) : Option Nat := state.buckets[bucket]?.bind List.head?

section Buckets
variable (candidates : List Profiled)

def sameKeyAt (i j : Nat) : Bool :=
  match candidates[i]?, candidates[j]? with
  | some x, some y => x.sameKey y
  | _, _ => false

def Buckets.insert (state : Buckets) (candidate : Profiled) (cls : Nat) : Buckets :=
  match (state.bucketOfKey candidate.triple).find? (fun bucket =>
      (state.head bucket).any (fun head => sameKeyAt candidates head cls)) with
  | some bucket => { state with buckets := state.buckets.modify bucket (· ++ [cls]) }
  | none => ⟨state.buckets ++ [[cls]], Function.update state.bucketOfKey candidate.triple
      (state.bucketOfKey candidate.triple ++ [state.buckets.length])⟩

def bucketsOf : Buckets :=
  candidates.zipIdx.foldl (fun state entry => state.insert candidates entry.1 entry.2) ⟨[], fun _ => []⟩

variable {candidates}

theorem sameKeyAt_iff {i j : Nat} : sameKeyAt candidates i j = true ↔
    ∃ x y, candidates[i]? = some x ∧ candidates[j]? = some y ∧ x.sameKey y = true := by
  unfold sameKeyAt
  split
  next x y atI atJ => simp [atI, atJ]
  next missing =>
    simp only [Bool.false_eq_true, false_iff]
    rintro ⟨x, y, atI, atJ, -⟩
    exact missing x y atI atJ

theorem sameKeyAt_symm {i j : Nat} (alike : sameKeyAt candidates i j = true) :
    sameKeyAt candidates j i = true := by
  rw [sameKeyAt_iff] at alike ⊢
  obtain ⟨x, y, atI, atJ, alike⟩ := alike
  exact ⟨y, x, atJ, atI, same_symm alike⟩

theorem sameKeyAt_trans {i j k : Nat} (ij : sameKeyAt candidates i j = true)
    (jk : sameKeyAt candidates j k = true) : sameKeyAt candidates i k = true := by
  rw [sameKeyAt_iff] at ij jk ⊢
  obtain ⟨x, y, atI, atJ, xy⟩ := ij
  obtain ⟨y', z, atJ', atK, yz⟩ := jk
  obtain rfl := Option.some.inj (atJ.symm.trans atJ')
  exact ⟨x, z, atI, atK, same_trans xy yz⟩

/-- After `seen` candidates: `place` is the bucket of each, equal keys are together, and a bucket is found
under the triple of its first candidate. -/
structure Bucketed (candidates : List Profiled) (seen : Nat) (state : Buckets) (place : Nat → Nat) : Prop where
  placed : ∀ c < seen, place c < state.buckets.length
  members : ∀ {b : Nat} {bucket : List Nat}, state.buckets[b]? = some bucket →
    ∀ {c}, c ∈ bucket ↔ c < seen ∧ place c = b
  ascending : ∀ {b : Nat} {bucket : List Nat}, state.buckets[b]? = some bucket → bucket.Pairwise (· < ·)
  headed : ∀ {c}, c < seen →
    ∃ head, state.head (place c) = some head ∧ (c = head ∨ sameKeyAt candidates head c = true)
  together : ∀ {c o}, c < seen → o < seen → sameKeyAt candidates c o = true → place c = place o
  found : ∀ {b triple}, b ∈ state.bucketOfKey triple ↔
    ∃ head, state.head b = some head ∧ (candidates[head]?).map Profiled.triple = some triple

theorem bucketed_empty : Bucketed candidates 0 ⟨[], fun _ => []⟩ id := by
  constructor <;> simp [Buckets.head]

namespace Bucketed
variable {seen : Nat} {state : Buckets} {place : Nat → Nat} (bucketed : Bucketed candidates seen state place)
include bucketed

theorem head_seen {b head : Nat} (first : state.head b = some head) : head < seen ∧ place head = b := by
  obtain ⟨members, bucket, first⟩ := Option.bind_eq_some_iff.mp first
  exact (bucketed.members bucket).mp (List.mem_of_head? first)

theorem push {b head : Nat} (first : state.head b = some head)
    (alike : sameKeyAt candidates head seen = true) :
    Bucketed candidates (seen + 1) { state with buckets := state.buckets.modify b (· ++ [seen]) }
      (Function.update place seen b) := by
  obtain ⟨opened, atB, _⟩ := Option.bind_eq_some_iff.mp first
  have heads (other : Nat) :
      Buckets.head { state with buckets := state.buckets.modify b (· ++ [seen]) } other = state.head other := by
    simp only [Buckets.head, List.getElem?_modify] at first ⊢
    split
    next equal =>
      subst equal
      simp only [atB, Option.bind_some] at first
      simp [atB, List.head?_append, first]
    next => simp
  have pushed {other : Nat} {bucket : List Nat}
      (stored : (state.buckets.modify b (· ++ [seen]))[other]? = some bucket) :
      ∃ was, state.buckets[other]? = some was ∧ bucket = if b = other then was ++ [seen] else was := by
    rw [List.getElem?_modify, Option.map_eq_map, Option.map_eq_some_iff] at stored
    obtain ⟨was, stored, rfl⟩ := stored
    refine ⟨was, stored, ?_⟩
    split <;> rfl
  have old {c : Nat} (before : c < seen) : Function.update place seen b c = place c :=
    Function.update_of_ne (Nat.ne_of_lt before) ..
  have new : Function.update place seen b seen = b := Function.update_self ..
  obtain ⟨earlier, home⟩ := bucketed.head_seen first
  have beside {o : Nat} (before : o < seen) (shared : sameKeyAt candidates o seen = true) : place o = b := by
    rw [← home]
    exact bucketed.together before earlier (sameKeyAt_trans shared (sameKeyAt_symm alike))
  constructor
  case placed =>
    intro c late
    rw [List.length_modify]
    rcases Nat.lt_succ_iff_lt_or_eq.mp late with before | rfl
    · rw [old before]
      exact bucketed.placed c before
    · rw [new]
      exact (List.getElem?_eq_some_iff.mp atB).1
  case members =>
    intro other bucket stored c
    obtain ⟨was, before, rfl⟩ := pushed stored
    rcases Nat.lt_trichotomy c seen with earlier | rfl | after
    · rw [old earlier]
      have late : c < seen + 1 ↔ True := iff_true_intro (Nat.lt_succ_of_lt earlier)
      split <;> simp only [bucketed.members before, earlier, late, List.mem_append, List.mem_singleton,
        Nat.ne_of_lt earlier, or_false, true_and]
    · rw [new]
      have absent : c ∉ was := fun member => Nat.lt_irrefl _ ((bucketed.members before).mp member).1
      split
      next equal => simp [equal]
      next apart => simp [absent, apart]
    · have absent : c ∉ was := fun member => Nat.lt_asymm after ((bucketed.members before).mp member).1
      have late : ¬ c < seen + 1 := by omega
      split <;> simp [absent, late, Nat.ne_of_gt after]
  case ascending =>
    intro other bucket stored
    obtain ⟨was, before, rfl⟩ := pushed stored
    split
    · rw [List.pairwise_append]
      refine ⟨bucketed.ascending before, List.pairwise_singleton .., fun c member last atEnd => ?_⟩
      obtain rfl := List.mem_singleton.mp atEnd
      exact ((bucketed.members before).mp member).1
    · exact bucketed.ascending before
  case headed =>
    intro c late
    rcases Nat.lt_succ_iff_lt_or_eq.mp late with before | rfl
    · rw [old before, heads]
      exact bucketed.headed before
    · rw [new, heads]
      exact ⟨head, first, .inr alike⟩
  case together =>
    intro c o lateC lateO shared
    rcases Nat.lt_succ_iff_lt_or_eq.mp lateC with beforeC | rfl <;>
      rcases Nat.lt_succ_iff_lt_or_eq.mp lateO with beforeO | rfl
    · rw [old beforeC, old beforeO]
      exact bucketed.together beforeC beforeO shared
    · rw [old beforeC, new]
      exact beside beforeC shared
    · rw [old beforeO, new]
      exact (beside beforeO (sameKeyAt_symm shared)).symm
    · rfl
  case found =>
    intro other triple
    simp only [heads]
    exact bucketed.found

theorem alone {candidate : Profiled} (here : candidates[seen]? = some candidate)
    (absent : ∀ b ∈ state.bucketOfKey candidate.triple, ∀ head, state.head b = some head →
      sameKeyAt candidates head seen = false) {o : Nat} (before : o < seen) :
    sameKeyAt candidates o seen = false := by
  by_contra shared
  rw [Bool.not_eq_false] at shared
  obtain ⟨head, first, leads⟩ := bucketed.headed before
  have alike : sameKeyAt candidates head seen = true := by
    rcases leads with rfl | leads
    · exact shared
    · exact sameKeyAt_trans leads shared
  obtain ⟨x, y, atHead, atSeen, same⟩ := sameKeyAt_iff.mp alike
  obtain rfl := Option.some.inj (here.symm.trans atSeen)
  have listed : place o ∈ state.bucketOfKey candidate.triple :=
    bucketed.found.mpr ⟨head, first, by rw [atHead, Option.map_some, sameKey_triple same]⟩
  rw [absent _ listed head first] at alike
  cases alike

theorem opened {candidate : Profiled} (here : candidates[seen]? = some candidate)
    (alone : ∀ o < seen, sameKeyAt candidates o seen = false) :
    Bucketed candidates (seen + 1) ⟨state.buckets ++ [[seen]], Function.update state.bucketOfKey
      candidate.triple (state.bucketOfKey candidate.triple ++ [state.buckets.length])⟩
      (Function.update place seen state.buckets.length) := by
  have old {c : Nat} (before : c < seen) : Function.update place seen state.buckets.length c = place c :=
    Function.update_of_ne (Nat.ne_of_lt before) ..
  have new : Function.update place seen state.buckets.length seen = state.buckets.length :=
    Function.update_self ..
  have heads (update) (b : Nat) : Buckets.head ⟨state.buckets ++ [[seen]], update⟩ b =
      if b = state.buckets.length then some seen else state.head b := by
    simp only [Buckets.head]
    split
    next last => rw [last, List.getElem?_concat_length, Option.bind_some, List.head?_cons]
    next inner =>
      rcases Nat.lt_or_gt_of_ne inner with inside | outside
      · rw [List.getElem?_append_left inside]
      · rw [List.getElem?_eq_none (by simp; omega), List.getElem?_eq_none (by omega)]
  have none_last : state.head state.buckets.length = none := by simp [Buckets.head]
  constructor
  case placed =>
    intro c late
    rw [List.length_append, List.length_singleton]
    rcases Nat.lt_succ_iff_lt_or_eq.mp late with before | rfl
    · rw [old before]
      exact Nat.lt_succ_of_lt (bucketed.placed c before)
    · rw [new]
      exact Nat.lt_succ_self _
  case members =>
    intro b bucket stored c
    rcases Dag.getElem?_snoc stored with stored | ⟨rfl, rfl⟩
    · have inside : b < state.buckets.length := (List.getElem?_eq_some_iff.mp stored).1
      rw [bucketed.members stored]
      rcases Nat.lt_trichotomy c seen with before | rfl | after
      · simp only [old before, before, Nat.lt_succ_of_lt before, true_and]
      · simp [Nat.ne_of_gt inside]
      · simp [Nat.lt_asymm after, Nat.not_lt_of_le (Nat.succ_le_of_lt after)]
    · rw [List.mem_singleton]
      constructor
      · rintro rfl
        exact ⟨Nat.lt_succ_self _, new⟩
      · rintro ⟨late, last⟩
        rcases Nat.lt_succ_iff_lt_or_eq.mp late with before | rfl
        · rw [old before] at last
          exact absurd last (Nat.ne_of_lt (bucketed.placed c before))
        · rfl
  case ascending =>
    intro b bucket stored
    rcases Dag.getElem?_snoc stored with stored | ⟨-, rfl⟩
    · exact bucketed.ascending stored
    · exact List.pairwise_singleton ..
  case headed =>
    intro c late
    rw [heads]
    rcases Nat.lt_succ_iff_lt_or_eq.mp late with before | rfl
    · rw [old before, if_neg (Nat.ne_of_lt (bucketed.placed c before))]
      exact bucketed.headed before
    · rw [new, if_pos rfl]
      exact ⟨c, rfl, .inl rfl⟩
  case together =>
    intro c o lateC lateO shared
    rcases Nat.lt_succ_iff_lt_or_eq.mp lateC with beforeC | rfl <;>
      rcases Nat.lt_succ_iff_lt_or_eq.mp lateO with beforeO | rfl
    · rw [old beforeC, old beforeO]
      exact bucketed.together beforeC beforeO shared
    · rw [alone c beforeC] at shared
      cases shared
    · have shared := sameKeyAt_symm shared
      rw [alone o beforeO] at shared
      cases shared
    · rfl
  case found =>
    intro b triple
    rw [heads]
    have was := @bucketed.found b triple
    have atSeen : (candidates[seen]?).map Profiled.triple = some candidate.triple := by
      rw [here, Option.map_some]
    dsimp only
    by_cases equal : triple = candidate.triple
    · subst equal
      rw [Function.update_self, List.mem_append, List.mem_singleton, was]
      split
      next last => exact iff_of_true (.inr last) ⟨seen, rfl, atSeen⟩
      next inner => simp [inner]
    · rw [Function.update_of_ne equal, was]
      split
      next last =>
        simp only [last, none_last, Option.some.injEq, exists_eq_left', atSeen, Ne.symm equal, reduceCtorEq,
          false_and, exists_false]
      next inner => rfl

theorem insert {candidate : Profiled} (here : candidates[seen]? = some candidate) :
    ∃ place, Bucketed candidates (seen + 1) (state.insert candidates candidate seen) place := by
  unfold Buckets.insert
  split
  next b search =>
    have first := List.find?_some search
    rw [Option.any_eq_true] at first
    obtain ⟨head, first, alike⟩ := first
    exact ⟨_, bucketed.push first alike⟩
  next search =>
    rw [List.find?_eq_none] at search
    refine ⟨_, bucketed.opened here fun o before => bucketed.alone here (fun b listed head first => ?_) before⟩
    simpa [first] using search b listed

theorem run (rest : List Profiled) (ahead : candidates.drop seen = rest) :
    ∃ place, Bucketed candidates (seen + rest.length)
      ((rest.zipIdx seen).foldl (fun state entry => state.insert candidates entry.1 entry.2) state) place := by
  induction rest generalizing seen state place with
  | nil => exact ⟨place, bucketed⟩
  | cons candidate rest ih =>
    have here : candidates[seen]? = some candidate := by
      rw [← List.head?_drop, ahead, List.head?_cons]
    obtain ⟨place, next⟩ := bucketed.insert here
    rw [List.length_cons, ← Nat.succ_add_eq_add_succ]
    exact ih next (by rw [← List.tail_drop, ahead, List.tail_cons])

end Bucketed

theorem bucketsOf_bucketed (candidates : List Profiled) :
    ∃ place, Bucketed candidates candidates.length (bucketsOf candidates) place := by
  have whole := bucketed_empty.run candidates List.drop_zero
  rwa [Nat.zero_add] at whole

end Buckets

/-! ### Pruning -/

variable (candidates : List Profiled)

def dominatesAt (i j : Nat) : Bool :=
  match candidates[i]?, candidates[j]? with
  | some x, some y => dominates ops x y
  | _, _ => false

/-- Whether `other` deletes `cls`: among candidates that dominate each other the smaller id does. -/
def prunes (other cls : Nat) : Bool :=
  other != cls && dominatesAt ops candidates other cls &&
    (decide (other < cls) || !dominatesAt ops candidates cls other)

structure DominatedCandidate where
  cls : Nat
  dominatedBy : Nat
  reason : String
deriving DecidableEq, Repr

def dominatedCandidate (cls other : Nat) : DominatedCandidate where
  cls := cls
  dominatedBy := other
  reason := "candidate " ++ toString other ++ " has the same memo group, producers, readers and " ++
    "(approx, parts), a guarantee at least as strong, and no larger usage, latency, output or held state"

/-- A bucket's deleted candidates, each with the first one that deletes it. -/
def prunedIn (bucket : List Nat) : List DominatedCandidate :=
  bucket.filterMap fun cls => (bucket.find? (prunes ops candidates · cls)).map (dominatedCandidate cls)

theorem prunedIn_iff {bucket : List Nat} {entry : DominatedCandidate} :
    entry ∈ prunedIn ops candidates bucket ↔ ∃ cls ∈ bucket, ∃ other,
      bucket.find? (prunes ops candidates · cls) = some other ∧ dominatedCandidate cls other = entry := by
  simp only [prunedIn, List.mem_filterMap, Option.map_eq_some_iff]

def pruneDominatedCandidates : List DominatedCandidate :=
  (((bucketsOf candidates).buckets.filter (1 < ·.length)).flatMap (prunedIn ops candidates)).mergeSort
    (fun x y => x.cls ≤ y.cls)

variable {ops candidates}

theorem dominatesAt_sameKeyAt {i j : Nat} (better : dominatesAt ops candidates i j = true) :
    sameKeyAt candidates i j = true := by
  unfold dominatesAt at better
  split at better
  next x y atI atJ => exact sameKeyAt_iff.mpr ⟨x, y, atI, atJ, dominates_sameKey ops better⟩
  next => cases better

theorem find?_ascending {items : List Nat} (ascending : items.Pairwise (· < ·)) {p : Nat → Bool} {found : Nat} :
    items.find? p = some found ↔ p found = true ∧ found ∈ items ∧ ∀ x ∈ items, x < found → p x = false := by
  rw [List.find?_eq_some_iff_append]
  constructor
  · rintro ⟨holds, before, after, rfl, earlier⟩
    obtain ⟨-, below, -⟩ := List.pairwise_append.mp ascending
    refine ⟨holds, by simp, fun x member less => ?_⟩
    rcases List.mem_append.mp member with member | member
    · simpa using earlier x member
    · rcases List.mem_cons.mp member with rfl | member
      · exact absurd less (Nat.lt_irrefl _)
      · exact absurd less (Nat.lt_asymm ((List.pairwise_cons.mp below).1 x member))
  · rintro ⟨holds, member, least⟩
    obtain ⟨before, after, rfl⟩ := List.append_of_mem member
    obtain ⟨-, -, across⟩ := List.pairwise_append.mp ascending
    refine ⟨holds, before, after, rfl, fun x earlier => ?_⟩
    simp [least x (List.mem_append_left _ earlier) (across x earlier found (by simp))]

theorem sameKeyAt_lt {i j : Nat} (alike : sameKeyAt candidates i j = true) :
    i < candidates.length ∧ j < candidates.length := by
  obtain ⟨x, y, atI, atJ, -⟩ := sameKeyAt_iff.mp alike
  exact ⟨(List.getElem?_eq_some_iff.mp atI).1, (List.getElem?_eq_some_iff.mp atJ).1⟩

theorem prunes_iff {o c : Nat} : prunes ops candidates o c = true ↔
    o ≠ c ∧ dominatesAt ops candidates o c = true ∧ (o < c ∨ dominatesAt ops candidates c o = false) := by
  simp [prunes, and_assoc]

theorem mem_pruneDominatedCandidates {entry : DominatedCandidate} :
    entry ∈ pruneDominatedCandidates ops candidates ↔
      ∃ cls other, prunes ops candidates other cls = true ∧
        (∀ o < other, prunes ops candidates o cls = false) ∧ dominatedCandidate cls other = entry := by
  obtain ⟨place, bucketed⟩ := bucketsOf_bucketed candidates
  have inBucket {b : Nat} {bucket : List Nat} (stored : (bucketsOf candidates).buckets[b]? = some bucket)
      {cls : Nat} (member : cls ∈ bucket) {o : Nat} (pruner : prunes ops candidates o cls = true) :
      o ∈ bucket := by
    have alike := dominatesAt_sameKeyAt (prunes_iff.mp pruner).2.1
    obtain ⟨before, home⟩ := (bucketed.members stored).mp member
    refine (bucketed.members stored).mpr ⟨(sameKeyAt_lt alike).1, ?_⟩
    rw [bucketed.together (sameKeyAt_lt alike).1 before alike, home]
  simp only [pruneDominatedCandidates, List.mem_mergeSort, List.mem_flatMap, List.mem_filter,
    decide_eq_true_eq, prunedIn_iff]
  constructor
  · rintro ⟨bucket, ⟨listed, -⟩, cls, member, other, first, rfl⟩
    obtain ⟨b, stored⟩ := List.mem_iff_getElem?.mp listed
    rw [find?_ascending (bucketed.ascending stored)] at first
    obtain ⟨pruner, -, least⟩ := first
    refine ⟨cls, other, pruner, fun o less => ?_, rfl⟩
    by_contra earlier
    rw [Bool.not_eq_false] at earlier
    rw [least o (inBucket stored member earlier) less] at earlier
    cases earlier
  · rintro ⟨cls, other, pruner, least, rfl⟩
    obtain ⟨differ, better, -⟩ := prunes_iff.mp pruner
    have before := (sameKeyAt_lt (dominatesAt_sameKeyAt better)).2
    obtain ⟨bucket, stored⟩ : ∃ bucket, (bucketsOf candidates).buckets[place cls]? = some bucket :=
      ⟨_, List.getElem?_eq_getElem (bucketed.placed cls before)⟩
    have member : cls ∈ bucket := (bucketed.members stored).mpr ⟨before, rfl⟩
    have beside : other ∈ bucket := inBucket stored member pruner
    have several : 1 < bucket.length := by
      rcases bucket with _ | ⟨first, _ | ⟨second, rest⟩⟩
      · cases member
      · rw [List.mem_singleton] at member beside
        exact absurd (beside.trans member.symm) differ
      · exact Nat.succ_lt_succ (Nat.succ_pos _)
    refine ⟨bucket, ⟨List.mem_iff_getElem?.mpr ⟨_, stored⟩, several⟩, cls, member, other, ?_, rfl⟩
    rw [find?_ascending (bucketed.ascending stored)]
    exact ⟨pruner, beside, fun o _ less => least o less⟩

/-! ### Kept dominators -/

/-- Whether pruning deletes a candidate. -/
def Removed (ops : FloatOps) (candidates : List Profiled) (cls : Nat) : Prop :=
  ∃ entry ∈ pruneDominatedCandidates ops candidates, entry.cls = cls

theorem removed_iff {cls : Nat} : Removed ops candidates cls ↔ ∃ o, prunes ops candidates o cls = true := by
  simp only [Removed, mem_pruneDominatedCandidates]
  constructor
  · rintro ⟨-, ⟨cls, other, pruner, -, rfl⟩, rfl⟩
    exact ⟨other, pruner⟩
  · intro pruned
    classical
    exact ⟨_, ⟨cls, Nat.find pruned, Nat.find_spec pruned,
      fun o less => Bool.eq_false_iff.mpr (Nat.find_min pruned less), rfl⟩, rfl⟩

/-- The deleted candidates are those another surviving one dominates, and each names a survivor. -/
structure KeepsDominators (ops : FloatOps) (candidates : List Profiled) : Prop where
  removed_iff : ∀ cls, Removed ops candidates cls ↔
    ∃ kept, ¬ Removed ops candidates kept ∧ kept ≠ cls ∧ dominatesAt ops candidates kept cls = true
  named_kept : ∀ entry ∈ pruneDominatedCandidates ops candidates, ¬ Removed ops candidates entry.dominatedBy

theorem survivor_prunes {kept cls : Nat} (survives : ¬ Removed ops candidates kept) (differ : kept ≠ cls)
    (better : dominatesAt ops candidates kept cls = true) : prunes ops candidates kept cls = true := by
  refine prunes_iff.mpr ⟨differ, better, ?_⟩
  rcases Nat.lt_or_gt_of_ne differ with less | greater
  · exact .inl less
  · right
    by_contra both
    rw [Bool.not_eq_false] at both
    exact survives (Selection.removed_iff.mpr ⟨cls, prunes_iff.mpr ⟨differ.symm, both, .inl greater⟩⟩)

/-- Dominators are kept exactly when, beside each deleted candidate that deletes another, one of a smaller
id deletes it too. -/
theorem keepsDominators_iff (ops : FloatOps) (candidates : List Profiled) :
    KeepsDominators ops candidates ↔
      ∀ p o c, prunes ops candidates p o = true → prunes ops candidates o c = true →
        ∃ smaller < o, prunes ops candidates smaller c = true := by
  constructor
  · intro keeps p o c deletes pruner
    by_contra none
    push Not at none
    have listed : dominatedCandidate c o ∈ pruneDominatedCandidates ops candidates :=
      mem_pruneDominatedCandidates.mpr
        ⟨c, o, pruner, fun smaller less => Bool.eq_false_iff.mpr (none smaller less), rfl⟩
    exact keeps.named_kept _ listed (removed_iff.mpr ⟨p, deletes⟩)
  · intro smaller
    have named {c o : Nat} (pruner : prunes ops candidates o c = true)
        (least : ∀ x < o, prunes ops candidates x c = false) : ¬ Removed ops candidates o := by
      intro removed
      obtain ⟨p, deletes⟩ := removed_iff.mp removed
      obtain ⟨x, less, earlier⟩ := smaller p o c deletes pruner
      rw [least x less] at earlier
      cases earlier
    constructor
    · intro cls
      constructor
      · rintro ⟨entry, listed, rfl⟩
        obtain ⟨cls, other, pruner, least, rfl⟩ := mem_pruneDominatedCandidates.mp listed
        obtain ⟨differ, better, -⟩ := prunes_iff.mp pruner
        exact ⟨other, named pruner least, differ, better⟩
      · rintro ⟨kept, survives, differ, better⟩
        exact removed_iff.mpr ⟨kept, survivor_prunes survives differ better⟩
    · intro entry listed
      obtain ⟨cls, other, pruner, least, rfl⟩ := mem_pruneDominatedCandidates.mp listed
      exact named pruner least

/-! ### Three candidates in a chain -/

def zeroOps : FloatOps where
  add _ _ := FloatOps.zero
  mul _ _ := FloatOps.zero
  ofU64 _ := FloatOps.zero

def costing (cpuOps : F64) : Profiled :=
  ({ same := {
        group := 0, timing := .queryTime, materialization := .notMaterialized, shareable := false,
        producerCandidatesPerInput := [], readers := [], outputReferences := [0], readerConstraintIds := [],
        mayKeepAcrossEvaluationsPerSoleReaderQuery := [], outputSchema := Schema.new [],
        operatorKind := .other false "Values" }
     guarantee := none },
   { approximate := false
     accuracyBudgetParts := 0
     usage := .ok {
        cpuOpsPerExecution := cpuOps, scannedBytesPerExecution := FloatOps.zero,
        workMsPerExecution := FloatOps.zero, ownLatencyMs := FloatOps.zero,
        averageMemoryBytes := FloatOps.zero, peakMemoryBytes := 0, diskBytes := 0, heldBytes := 0,
        rawDataKeptBytes := 0, maintainedWindowBytes := 0, outputRows := 0, outputBytes := 0 }
     usageDependsOn := [] })

def descending : List Profiled :=
  [costing ⟨false, 0x4008000000000000⟩, costing ⟨false, 0x4000000000000000⟩, costing FloatOps.one]

/-- The second deletes the first and is named by it, and is deleted by the third. -/
theorem descending_names_deleted :
    pruneDominatedCandidates zeroOps descending = [dominatedCandidate 0 1, dominatedCandidate 1 2] ∧
      ¬ KeepsDominators zeroOps descending := by
  have pruned : pruneDominatedCandidates zeroOps descending =
      [dominatedCandidate 0 1, dominatedCandidate 1 2] := by
    have found : ((bucketsOf descending).buckets.filter (1 < ·.length)).flatMap
        (prunedIn zeroOps descending) = [dominatedCandidate 0 1, dominatedCandidate 1 2] := by
      decide +kernel
    rw [pruneDominatedCandidates, found]
    exact List.mergeSort_of_pairwise (by decide)
  refine ⟨pruned, fun keeps => ?_⟩
  apply keeps.named_kept (dominatedCandidate 0 1) (by rw [pruned]; exact List.mem_cons_self ..)
  exact ⟨dominatedCandidate 1 2, by rw [pruned]; simp, rfl⟩

end AsapPlanner.Selection
