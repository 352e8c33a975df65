import AsapPlanner.Eligibility.Ingestion
import AsapPlanner.Ordered.Pairs
import AsapPlanner.Traversal.Run
import Mathlib.Data.List.Dedup
import Mathlib.Data.List.Sort

/-!
Which sets of queries may read a summary kept in a given way: the rule for the set is decided by its
queries alone and two by two.
-/

namespace AsapPlanner.Eligibility
open Rust Traversal Ir Demand Timing Ordered

inductive SummaryEligibilityError
  | unknownReader (query : Nat)
  | notSummary
  | noSelectedReaders
  | zeroPaneWidth
deriving DecidableEq, Repr

def isSummaryBuild (node : OperatorNode) : Bool :=
  match node.asap with
  | some (.summaryAgg ..) | some (.summaryTumblingWindowChain ..) => true
  | _ => false

def isTumblingWindowChain (node : OperatorNode) : Bool :=
  match node.asap with
  | some (.summaryTumblingWindowChain ..) => true
  | _ => false

def hasZeroPaneWidth (node : OperatorNode) : Bool :=
  match node.asap with
  | some (.summaryTumblingWindowChain _ _ _ _ _ _ width _) => width = 0
  | _ => false

section
variable (dag : Dag) (ref : NodeRef)

def summaryMaterializationEligibility (selectedReaders : List Nat) (entries : List QueryWorkloadEntry)
    (data : DataWorkload) (queryTimeResultsRetained : Bool) :
    Except SummaryEligibilityError SummaryMaterializationEligibility := do
  if !isSummaryBuild (dag.node ref) then throw .notSummary
  if selectedReaders.isEmpty then throw .noSelectedReaders
  if hasZeroPaneWidth (dag.node ref) then throw .zeroPaneWidth
  if let some query := selectedReaders.find? fun query => entries.length ≤ query then
    throw (.unknownReader query)
  let readers := (selectedReaders.insertionSort (· ≤ ·)).dedup
  pure (summaryReaderEligibility dag ref readers entries data queryTimeResultsRetained)

/-- Whether a summary may be kept as `mode` says for the readers. -/
def SummaryMaterializationEligibility.allows (eligibility : SummaryMaterializationEligibility)
    (mode : Materialization) : Bool :=
  eligibility.rangeCompatibility.isOk &&
    match mode with
    | .notMaterialized | .matAtQuery _ => true
    | .matAtIngestion _ => eligibility.atIngestion.isOk
    | .matAtQueryKeptAcrossEvaluations _ => eligibility.mayKeepAcrossEvaluations

def summaryModeAllowed (readers : List Nat) (mode : Materialization)
    (entries : List QueryWorkloadEntry) (data : DataWorkload) (queryTimeResultsRetained : Bool) :
    Bool :=
  match summaryMaterializationEligibility dag ref readers entries data queryTimeResultsRetained with
  | .ok eligibility => eligibility.allows mode
  | .error _ => false

end

/-! ### What the readers declare -/

def declaredPhase : QueryRecurrence → Option Nat
  | .repeated (.fixedIntervalAt interval evaluationPhase) => some (evaluationPhase % interval)
  | _ => none

theorem read_fixed {cadence : Cadence} {entry : QueryWorkloadEntry} {own : Nat}
    (fixed : entry.recurrence.fixedIntervalMs = some own) :
    cadence.read entry = match agree cadence.interval (some own),
        agree cadence.phase (declaredPhase entry.recurrence) with
      | some interval, some phase => .ok ⟨interval, phase⟩
      | _, _ => .error .windowNotFixed := by
  obtain ⟨interval, phase⟩ := cadence
  obtain ⟨⟨recurrence, range⟩, predictability⟩ := entry
  rcases recurrence with count | (own' | ⟨own', evaluationPhase⟩ | times | rate) | _
  case repeated.fixedInterval =>
    obtain ⟨positive, rfl⟩ : 0 < own' ∧ own' = own := by
      simpa [QueryRecurrence.fixedIntervalMs] using fixed
    by_cases same : interval.getD own' = own' <;>
    simp [Cadence.read, declaredPhase, agree, same, positive.ne', throw, throwThe, MonadExceptOf.throw,
      pure, Except.pure, bind, Except.bind]
  case repeated.fixedIntervalAt =>
    obtain ⟨positive, rfl⟩ : 0 < own' ∧ own' = own := by
      simpa [QueryRecurrence.fixedIntervalMs] using fixed
    by_cases same : interval.getD own' = own' <;>
    by_cases joined : phase.getD (evaluationPhase % own') = evaluationPhase % own' <;>
    simp [Cadence.read, declaredPhase, agree, same, positive.ne', joined, throw, throwThe,
      MonadExceptOf.throw, pure, Except.pure, bind, Except.bind]
  all_goals cases fixed

theorem read_not_fixed {cadence : Cadence} {entry : QueryWorkloadEntry}
    (fixed : entry.recurrence.fixedIntervalMs = none) :
    cadence.read entry = .error .windowNotFixed := by
  obtain ⟨⟨recurrence, range⟩, predictability⟩ := entry
  rcases recurrence with count | (own | ⟨own, evaluationPhase⟩ | times | rate) | _
  case repeated.fixedInterval | repeated.fixedIntervalAt =>
    obtain rfl : own = 0 := by simpa [QueryRecurrence.fixedIntervalMs] using fixed
    rfl
  all_goals rfl

theorem read_eq_ok {cadence next : Cadence} {entry : QueryWorkloadEntry} :
    cadence.read entry = .ok next ↔ entry.recurrence.fixedIntervalMs.isSome ∧
      agree cadence.interval entry.recurrence.fixedIntervalMs = some next.interval ∧
      agree cadence.phase (declaredPhase entry.recurrence) = some next.phase := by
  obtain ⟨interval, phase⟩ := next
  cases fixed : entry.recurrence.fixedIntervalMs with
  | none =>
    rw [read_not_fixed fixed]
    exact ⟨nofun, nofun⟩
  | some own =>
    rw [read_fixed fixed]
    cases agree cadence.interval (some own) <;>
    cases agree cadence.phase (declaredPhase entry.recurrence) <;> simp

theorem foldlM_read {entries : List QueryWorkloadEntry} {cadence final : Cadence} :
    entries.foldlM Cadence.read cadence = .ok final ↔
      (∀ entry ∈ entries, entry.recurrence.fixedIntervalMs.isSome) ∧
      (entries.map (·.recurrence.fixedIntervalMs)).foldlM agree cadence.interval = some final.interval ∧
      (entries.map (declaredPhase ·.recurrence)).foldlM agree cadence.phase = some final.phase := by
  induction entries generalizing cadence with
  | nil =>
    obtain ⟨interval, phase⟩ := cadence
    obtain ⟨interval', phase'⟩ := final
    simp [pure, Except.pure]
  | cons entry rest ih =>
    rw [List.foldlM_cons, List.forall_mem_cons, List.map_cons, List.foldlM_cons, List.map_cons,
      List.foldlM_cons, Option.bind_eq_bind, Option.bind_eq_some_iff,
      Option.bind_eq_some_iff]
    constructor
    · intro run
      obtain ⟨next, read, run⟩ := bind_eq_ok run
      obtain ⟨fixed, interval, phase⟩ := read_eq_ok.mp read
      obtain ⟨others, intervals, phases⟩ := ih.mp run
      exact ⟨⟨fixed, others⟩, ⟨_, interval, intervals⟩, _, phase, phases⟩
    · rintro ⟨⟨fixed, others⟩, ⟨interval, first, intervals⟩, phase, own, phases⟩
      have read : cadence.read entry = .ok ⟨interval, phase⟩ := read_eq_ok.mpr ⟨fixed, first, own⟩
      rw [read]
      exact ih.mpr ⟨others, intervals, phases⟩

theorem joinPhase_eq {width : Nat} {phase : Option Nat} {recurrence : QueryRecurrence} :
    joinPhase width phase recurrence =
      if recurrence.fixedIntervalMs = some width then agree phase (declaredPhase recurrence)
      else none := by
  unfold joinPhase
  by_cases fixed : recurrence.fixedIntervalMs = some width
  · rw [if_neg (not_not.mpr fixed), if_pos fixed]
    rcases recurrence with count | (own | ⟨own, evaluationPhase⟩ | times | rate) | _
    case repeated.fixedIntervalAt =>
      obtain ⟨-, rfl⟩ : 0 < own ∧ own = width := by simpa [QueryRecurrence.fixedIntervalMs] using fixed
      by_cases same : phase.getD (evaluationPhase % own) = evaluationPhase % own <;>
      simp [agree, declaredPhase, same]
    case repeated.fixedInterval => rfl
    all_goals cases fixed
  · rw [if_pos fixed, if_neg fixed]

theorem foldlM_joinPhase {width : Nat} {phase final : Option Nat} {readers : List QueryRecurrence} :
    readers.foldlM (joinPhase width) phase = some final ↔
      (∀ recurrence ∈ readers, recurrence.fixedIntervalMs = some width) ∧
      (readers.map declaredPhase).foldlM agree phase = some final := by
  induction readers generalizing phase with
  | nil => simp
  | cons recurrence rest ih =>
    rw [List.foldlM_cons, List.forall_mem_cons, List.map_cons, List.foldlM_cons, joinPhase_eq]
    by_cases fixed : recurrence.fixedIntervalMs = some width
    · rw [if_pos fixed, Option.bind_eq_bind, Option.bind_eq_some_iff,
        Option.bind_eq_some_iff]
      simp only [ih, fixed, true_and]
      constructor
      · rintro ⟨next, own, others, phases⟩
        exact ⟨others, next, own, phases⟩
      · rintro ⟨others, next, own, phases⟩
        exact ⟨next, own, others, phases⟩
    · rw [if_neg fixed]
      simp [fixed]

/-! ### The rules for a set of readers -/

section
variable {dag : Dag} {ref : NodeRef} {entries : List QueryWorkloadEntry} {data : DataWorkload}

theorem checkWholeWindow_iff {demands : List QueryWorkloadEntry} {window : Nat} (some : demands ≠ [])
    (wide : wholeWindowMs dag ref = .some window) :
    checkWholeWindow dag ref demands = .ok () ↔
      ((∀ entry ∈ demands, entry.evaluatesRange = false) ∧
        ∀ entry ∈ demands, entry.recurrence.fixedIntervalMs.isSome) ∧
      (∃ interval, (demands.map (·.recurrence.fixedIntervalMs)).foldlM agree none = .some interval ∧
        ∀ own ∈ interval, window ∣ own) ∧
      ∃ phase, (demands.map (declaredPhase ·.recurrence)).foldlM agree none = .some phase ∧
        ∀ own ∈ phase, window ∣ own := by
  obtain ⟨entry, member⟩ := List.exists_mem_of_ne_nil demands some
  unfold checkWholeWindow
  by_cases several : demands.any (·.evaluatesRange)
  · rw [if_pos several]
    obtain ⟨entry, member, evaluates⟩ := List.any_eq_true.mp several
    refine ⟨nofun, fun ⟨⟨single, _⟩, _⟩ => ?_⟩
    rw [single entry member] at evaluates
    cases evaluates
  have single : ∀ entry ∈ demands, entry.evaluatesRange = false := by simpa using several
  rw [if_neg several]
  constructor
  · intro run
    obtain ⟨cadence, read, run⟩ := bind_eq_ok run
    obtain ⟨fixed, intervals, phases⟩ := foldlM_read.mp read
    rw [wide] at run
    cases known : cadence.interval with
    | none =>
      rw [known] at run
      cases run
    | some interval =>
      rw [known] at run intervals
      simp only at run
      split at run
      · rename_i divides
        refine ⟨⟨single, fixed⟩, ⟨_, intervals, ?_⟩, _, phases, divides.2⟩
        rintro own ⟨⟩
        exact divides.1
      · cases run
  · rintro ⟨⟨-, fixed⟩, ⟨interval, intervals, widths⟩, phase, phases, steps⟩
    have read : demands.foldlM Cadence.read { interval := none, phase := none } = .ok ⟨interval, phase⟩ :=
      foldlM_read.mpr ⟨fixed, intervals, phases⟩
    -- Some reader is there, and declares its interval.
    obtain ⟨own, declared⟩ := Option.isSome_iff_exists.mp (fixed entry member)
    have known : interval = .some own := (foldlM_agree.mp intervals own).mpr
      (.inr (List.mem_map.mpr ⟨entry, member, declared⟩))
    show (demands.foldlM Cadence.read _ >>= _) = _
    rw [read]
    show (match interval, wholeWindowMs dag ref with | _, _ => _) = _
    rw [wide, known]
    exact if_pos ⟨widths own known, steps⟩

theorem checkWholeWindow_decided :
    DecidedByPairs fun demands => checkWholeWindow dag ref demands = .ok () := by
  cases wide : wholeWindowMs dag ref with
  | none =>
    refine (DecidedByPairs.const False).congr fun demands _ => iff_of_false ?_ not_false
    intro checked
    unfold checkWholeWindow at checked
    split at checked
    · cases checked
    · obtain ⟨cadence, -, run⟩ := bind_eq_ok checked
      rw [wide] at run
      cases known : cadence.interval <;> rw [known] at run <;> cases run
  | some window =>
    exact (((DecidedByPairs.each _).and (.each _)).and ((decidedByPairs_agree _ _).and
      (decidedByPairs_agree _ _))).congr fun demands some => checkWholeWindow_iff some wide

theorem buildsOneTumblingWindowPerEvaluation_decided (width : Nat) :
    DecidedByPairs fun readers => buildsOneTumblingWindowPerEvaluation width readers = true := by
  refine ((DecidedByPairs.const (width ≠ 0)).and ((DecidedByPairs.each fun recurrence =>
    recurrence.fixedIntervalMs = some width).and (decidedByPairs_agree declaredPhase
      fun _ => True))).congr fun readers some => ?_
  have joined : (readers.foldlM (joinPhase width) none).isSome ↔
      (∀ recurrence ∈ readers, recurrence.fixedIntervalMs = .some width) ∧
        ∃ final, (readers.map declaredPhase).foldlM agree none = .some final := by
    rw [Option.isSome_iff_exists]
    simp only [foldlM_joinPhase]
    exact exists_and_left
  unfold buildsOneTumblingWindowPerEvaluation
  rw [Bool.and_eq_true, Bool.and_eq_true, joined]
  simp [some]

theorem any_not {p : QueryWorkloadEntry → Bool} {readers : List Nat} :
    ((readers.map (entries[·]?)).any fun demand => !demand.any p) = true ↔
      ¬ ∀ query ∈ readers, entries[query]?.any p := by
  simp

/-- The last rule for readers that are all known. -/
def checkWindows (dag : Dag) (ref : NodeRef) (width : Option Nat) (present : List QueryWorkloadEntry) :
    Except IngestionPruneReason Unit :=
  match width with
  | some width => present.forM (checkChainReader width)
  | none => checkWholeWindow dag ref present

theorem checkWindows_decided (width : Option Nat) :
    DecidedByPairs fun present => checkWindows dag ref width present = .ok () := by
  cases width with
  | none => exact checkWholeWindow_decided
  | some width => exact (DecidedByPairs.each _).congr fun present _ => forM_eq_ok

/-- The rules that no reader decides. -/
def BuildsAsDataArrives (dag : Dag) (ref : NodeRef) (data : DataWorkload) (family : FieldDataType) :
    Prop :=
  checkArrival data.arrival = .ok () ∧ isFilteredBuild (dag.node ref) = false ∧
    (needsTimeOrder family && !(isIngesting data.arrival && readsOnlyTimeSeries dag ref)) = false

theorem ingestionEligibility_iff {readers : List Nat} {family : FieldDataType} {width : Option Nat}
    (build : summaryFamily (dag.node ref) = .ok (family, width)) :
    ingestionEligibility dag ref readers entries data = .ok () ↔
      BuildsAsDataArrives dag ref data family ∧
      (∀ query ∈ readers, entries[query]?.any (·.isRepeated)) ∧
      (∀ query ∈ readers, entries[query]?.any (·.isPredictable)) ∧
      checkWindows dag ref width (readers.filterMap (entries[·]?)) = .ok () := by
  have present : (readers.map fun query => entries[query]?).filterMap id =
      readers.filterMap (entries[·]?) := by
    rw [List.filterMap_map]
    rfl
  unfold ingestionEligibility BuildsAsDataArrives
  cases arrived : checkArrival data.arrival with
  | error e => exact ⟨nofun, fun rules => nomatch rules.1.1⟩
  | ok _ =>
    show (if _ then _ else _) = _ ↔ _
    by_cases repeated : ∀ query ∈ readers, entries[query]?.any (·.isRepeated)
    case neg =>
      rw [if_pos (any_not.mpr repeated)]
      exact ⟨nofun, fun rules => absurd rules.2.1 repeated⟩
    rw [if_neg fun some => any_not.mp some repeated]
    show (if _ then _ else _) = _ ↔ _
    by_cases predictable : ∀ query ∈ readers, entries[query]?.any (·.isPredictable)
    case neg =>
      rw [if_pos (any_not.mpr predictable)]
      exact ⟨nofun, fun rules => absurd rules.2.2.1 predictable⟩
    rw [if_neg fun some => any_not.mp some predictable, build]
    cases filtered : isFilteredBuild (dag.node ref) with
    | true => exact ⟨nofun, fun rules => nomatch rules.1.2.1⟩
    | false =>
      show (if (needsTimeOrder family && _) = true then _ else _) = _ ↔ _
      by_cases late : (needsTimeOrder family &&
          !(isIngesting data.arrival && readsOnlyTimeSeries dag ref)) = true
      case pos =>
        rw [if_pos late, late]
        exact ⟨nofun, fun rules => nomatch rules.1.2.2⟩
      rw [if_neg late]
      refine Iff.trans ?_ (and_iff_right ⟨rfl, rfl, Bool.eq_false_iff.mpr late⟩).symm
      refine Iff.trans ?_ (and_iff_right repeated).symm
      refine Iff.trans ?_ (and_iff_right predictable).symm
      rw [← present]
      rfl

theorem ingestionEligibility_decided {family : FieldDataType} {width : Option Nat}
    (build : summaryFamily (dag.node ref) = .ok (family, width)) :
    DecidedByPairs fun readers => ingestionEligibility dag ref readers entries data = .ok () := by
  have known := (@checkWindows_decided dag ref width).filterMap fun query : Nat => entries[query]?
  refine DecidedByPairs.congr ((DecidedByPairs.const (BuildsAsDataArrives dag ref data family)).and ((DecidedByPairs.each fun query =>
    entries[query]?.any (·.isRepeated)).and ((DecidedByPairs.each fun query =>
      entries[query]?.any (·.isPredictable)).and known))) fun readers _ => ?_
  rw [ingestionEligibility_iff build]
  apply and_congr_right
  intro _
  apply and_congr_right
  intro repeated
  apply and_congr_right
  intro _
  refine (and_iff_right fun query member => ?_).symm
  have some := repeated query member
  cases present : entries[query]? with
  | none =>
    rw [present] at some
    cases some
  | some entry => rfl

theorem keptAcross_decided (width : Nat) : DecidedByPairs fun readers : List Nat =>
    (match readers.mapM fun query => entries[query]?.map (·.recurrence) with
      | some recurrences => buildsOneTumblingWindowPerEvaluation width recurrences
      | none => false) = true := by
  refine ((buildsOneTumblingWindowPerEvaluation_decided width).filterMap fun query : Nat =>
    entries[query]?.map (·.recurrence)).congr fun readers _ => ?_
  split
  · rename_i recurrences listed
    obtain ⟨present, rfl⟩ := option_mapM_eq_some_iff.mp listed
    exact (and_iff_right present).symm
  · rename_i missing
    refine iff_of_false nofun fun ⟨present, _⟩ => ?_
    rw [option_mapM_eq_some_iff.mpr ⟨present, rfl⟩] at missing
    cases missing

theorem checkSummaryRangeSteps_decided :
    DecidedByPairs fun readers => checkSummaryRangeSteps dag ref readers entries = .ok () := by
  unfold checkSummaryRangeSteps
  split
  · exact (DecidedByPairs.each _).congr fun readers _ => forM_eq_ok
  · exact (DecidedByPairs.const True).congr fun readers _ => iff_of_true rfl trivial

theorem summaryFamily_eq_ok {node : OperatorNode} (summary : isSummaryBuild node = true) :
    ∃ family, summaryFamily node = .ok family := by
  unfold isSummaryBuild at summary
  unfold summaryFamily
  cases build : node.asap with
  | none =>
    rw [build] at summary
    cases summary
  | some operator =>
    rw [build] at summary
    cases operator <;> first | exact ⟨_, rfl⟩ | cases summary

theorem isOk_iff {ε : Type} {result : Except ε Unit} : result.isOk = true ↔ result = .ok () := by
  cases result <;> simp [Except.isOk, Except.toBool]

theorem mayKeepAcrossEvaluations_decided (retained : Bool) :
    DecidedByPairs fun readers =>
      (summaryReaderEligibility dag ref readers entries data retained).mayKeepAcrossEvaluations = true := by
  unfold summaryReaderEligibility
  simp only [Bool.and_eq_true]
  refine (DecidedByPairs.const _).and ?_
  cases (dag.node ref).asap with
  | none => exact (DecidedByPairs.const False).congr fun readers _ => iff_of_false nofun not_false
  | some op =>
    cases op
    case summaryTumblingWindowChain width count =>
      refine (@keptAcross_decided entries width).congr fun readers _ => ?_
      cases readers.mapM fun query => entries[query]?.map (·.recurrence) <;> rfl
    all_goals exact (DecidedByPairs.const False).congr fun readers _ => iff_of_false nofun not_false

theorem allows_decided (mode : Materialization) (retained : Bool) {family : FieldDataType}
    {width : Option Nat} (build : summaryFamily (dag.node ref) = .ok (family, width)) :
    DecidedByPairs fun readers =>
      (summaryReaderEligibility dag ref readers entries data retained).allows mode = true := by
  unfold SummaryMaterializationEligibility.allows
  simp only [Bool.and_eq_true]
  have steps : DecidedByPairs fun readers =>
      (summaryReaderEligibility dag ref readers entries data retained).rangeCompatibility.isOk = true :=
    checkSummaryRangeSteps_decided.congr fun readers _ => isOk_iff
  refine steps.and ?_
  cases mode with
  | notMaterialized | matAtQuery => exact (DecidedByPairs.const True).congr fun _ _ => iff_of_true rfl trivial
  | matAtIngestion => exact (ingestionEligibility_decided build).congr fun _ _ => isOk_iff
  | matAtQueryKeptAcrossEvaluations => exact mayKeepAcrossEvaluations_decided retained

theorem summaryModeAllowed_decided (mode : Materialization) (retained : Bool) :
    DecidedByPairs fun readers => summaryModeAllowed dag ref readers mode entries data retained = true := by
  by_cases build : isSummaryBuild (dag.node ref) = true ∧ hasZeroPaneWidth (dag.node ref) = false
  case neg =>
    refine (DecidedByPairs.const False).congr fun readers some => iff_of_false ?_ not_false
    unfold summaryModeAllowed summaryMaterializationEligibility
    cases summary : isSummaryBuild (dag.node ref) with
    | false => exact Bool.false_ne_true
    | true =>
      have narrow : hasZeroPaneWidth (dag.node ref) = true := by
        by_contra wide
        exact build ⟨summary, by simpa using wide⟩
      rw [narrow, List.isEmpty_eq_false_iff.mpr some]
      exact Bool.false_ne_true
  obtain ⟨summary, wide⟩ := build
  obtain ⟨⟨family, width⟩, build⟩ := summaryFamily_eq_ok summary
  have known : DecidedByPairs fun readers => ∀ query ∈ readers, query < entries.length := .each _
  have allows := @allows_decided dag ref entries data mode retained family width build
  refine (known.and allows).congr fun readers some => ?_
  have sorted : ∀ query, query ∈ (readers.insertionSort (· ≤ ·)).dedup ↔ query ∈ readers := by simp
  rw [← allows.iff_of_mem_iff some sorted]
  unfold summaryModeAllowed summaryMaterializationEligibility
  rw [summary, wide, List.isEmpty_eq_false_iff.mpr some]
  cases missing : readers.find? fun query => entries.length ≤ query with
  | none =>
    refine (and_iff_right fun query member => ?_).symm
    simpa using List.find?_eq_none.mp missing query member
  | some query =>
    refine iff_of_false Bool.false_ne_true fun ⟨known, _⟩ => ?_
    have beyond := List.find?_some missing
    have below := known query (List.mem_of_find?_eq_some missing)
    simp only [decide_eq_true_eq] at beyond
    omega

end
end AsapPlanner.Eligibility
