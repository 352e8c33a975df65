import AsapPlanner.Demand.Groups
import Mathlib.Algebra.Order.AbsoluteValue.Basic
import Mathlib.Data.List.Dedup
import Mathlib.Data.List.Sort

/-!
The executions per second of each execution context of the selection MILP (`context_rates`), in
exact arithmetic: a fixed rate, or rate components over the levels of its schedule groups.
-/

namespace AsapPlanner.Selection
open Rust Demand

inductive ContextKind (queries : Nat) where
  | query (query : Fin queries)
  | ingestion (rule : Nat)
  | shared (candidate : Nat)

inductive Materialization where
  | notMaterialized
  | matAtIngestion
  | matAtQuery
  | matAtQueryKeptAcrossEvaluations

def Materialization.perRequest : Materialization → Option Bool
  | .matAtIngestion | .notMaterialized => none
  | .matAtQuery => some false
  | .matAtQueryKeptAcrossEvaluations => some true

/-- What `context_rates` reads of the MILP: `reach` tells which reach variables exist. -/
structure SelectionMilp where
  entries : List ReaderDemand
  horizon : Horizon
  contexts : List (ContextKind entries.length)
  materialization : Nat → Materialization
  reach : Fin entries.length → Nat → Bool

/-- A continuous variable between zero and one with a row `z ≥ a[q, m]` for each query listed, and
the rate it is charged at. -/
structure Component (queries : Nat) where
  atLeast : List (Fin queries)
  rate : ℚ
deriving DecidableEq

inductive ContextRate (queries : Nat) where
  | fixed (rate : ℚ)
  | components (components : List (Component queries))
deriving DecidableEq

/-- A schedule group's readers with their own rates, and its rate levels. -/
abbrev GroupLevels (queries : Nat) := List (Fin queries × ℚ) × List ℚ

def unknownPhaseReason : String := "schedule: an unknown phase among several known ones"

def groupRateReason : String := "schedule: a group's rate is not its fastest reader's"

/-! ### Unknown phases -/

/-- Whether an interval has readers of unknown phase, and their known phases. -/
abbrev Phases := BTreeMap Nat (Bool × Finset Nat)

def notePhase (phases : Phases) (recurrence : QueryRecurrence) : Phases :=
  match recurrence with
  | .repeated (.fixedInterval interval) =>
    phases.change interval (false, ∅) fun noted => (true, noted.2)
  | .repeated (.fixedIntervalAt interval evaluationPhase) =>
    phases.change interval (false, ∅) fun noted =>
      (noted.1, insert (evaluationPhase % max interval 1) noted.2)
  | _ => phases

/-- `unknown_phase_joins_several`. -/
def unknownPhaseJoinsSeveral (recurrences : List QueryRecurrence) : Bool :=
  (recurrences.foldl notePhase BTreeMap.empty).entries.any fun entry =>
    entry.2.1 && decide (1 < entry.2.2.card)

def unknownPhaseNotes (recurrences : List QueryRecurrence) : List String :=
  if unknownPhaseJoinsSeveral recurrences then [unknownPhaseReason] else []

/-! ### Levels -/

/-- The rate components of one group, from the level `below`. -/
def componentsFrom {queries : Nat} (members : List (Fin queries × ℚ)) (single : Bool) :
    ℚ → List ℚ → List (Component queries)
  | _, [] => []
  | below, level :: rest =>
    ⟨(members.filter fun member => level ≤ member.2 || single).map Prod.fst, level - below⟩ ::
      componentsFrom members single level rest

def groupComponents {queries : Nat} (group : GroupLevels queries) : List (Component queries) :=
  componentsFrom group.1 (group.2.length = 1) 0 group.2

def ContextRate.ofLevels {queries : Nat} : List (GroupLevels queries) → ContextRate queries
  | [(_, [level])] => .fixed level
  | levels => .components (levels.flatMap groupComponents)

/-- `f64::max` folded from zero. -/
def fastest (rates : List ℚ) : ℚ := rates.foldl max 0

namespace SelectionMilp
variable (milp : SelectionMilp)

/-- The queries that may depend on a shareable candidate, ascending. -/
def queriesReaching (candidate : Nat) : List (Fin milp.entries.length) :=
  (List.finRange milp.entries.length).filter (milp.reach · candidate)

/-- What a query asks of a query-time shareable candidate: kept state is priced per request. -/
def demandOf (perRequest : Bool) (query : Fin milp.entries.length) : ReaderDemand where
  recurrence := (milp.entries.get query).recurrence
  rangeEvaluation := if perRequest then none else (milp.entries.get query).rangeEvaluation

def groupLevels (perRequest : Bool) (readers : List (Fin milp.entries.length))
    (group : ScheduleGroup) :
    Except AnalyticalCostError (GroupLevels milp.entries.length × List String) := do
  -- A group's readers are positions in the reader list.
  let members := group.readers.filterMap (readers[·]?)
  let alone ← members.mapM fun query =>
    evaluationRate [milp.demandOf perRequest query] milp.horizon
  let full := group.evaluationsPerSecond
  let apart := 1 / 10 ^ 9 * max |full| (1 / 10 ^ 12) < |full - fastest alone|
  let levels := if apart then [full] else alone
  return ((members.zip alone, (levels.insertionSort (· ≤ ·)).dedup),
    if apart then [groupRateReason] else [])

/-- The rate of the context of a query-time shareable candidate. -/
def sharedRate (perRequest : Bool) (candidate : Nat) :
    Except AnalyticalCostError (ContextRate milp.entries.length × List String) := do
  let readers := milp.queriesReaching candidate
  let unknown := unknownPhaseNotes (readers.map fun query => (milp.entries.get query).recurrence)
  let groups ← scheduleGroups (readers.map (milp.demandOf perRequest)) milp.horizon
  let levelsPerGroup ← groups.mapM (milp.groupLevels perRequest readers)
  return (.ofLevels (levelsPerGroup.map Prod.fst), unknown ++ levelsPerGroup.flatMap Prod.snd)

def contextRate (queryRate : List ℚ) (kind : ContextKind milp.entries.length) :
    Except AnalyticalCostError (ContextRate milp.entries.length × List String) :=
  match kind with
  | .query query => .ok (.fixed (queryRate[query.1]?.getD 0), [])
  | .ingestion _ => .ok (.fixed 1, [])
  | .shared candidate =>
    match (milp.materialization candidate).perRequest with
    | none => .ok (.fixed 1, [])
    | some perRequest => milp.sharedRate perRequest candidate

/-- `context_rates`: each context's rate and the queries' own, with the inexact terms noted. -/
def contextRates : Except AnalyticalCostError
    (List (ContextRate milp.entries.length) × List ℚ × List String) := do
  let queryRate ← milp.entries.mapM fun entry => evaluationRate [entry] milp.horizon
  let rates ← milp.contexts.mapM (milp.contextRate queryRate)
  return (rates.map Prod.fst, queryRate, rates.flatMap Prod.snd)

end SelectionMilp

/-! ### The least completion -/

/-- The component's rows at the given reach values. -/
def Component.Allows {queries : Nat} (component : Component queries) (reached : Fin queries → Bool)
    (z : ℚ) : Prop :=
  0 ≤ z ∧ z ≤ 1 ∧ ∀ query ∈ component.atLeast, (if reached query then 1 else 0) ≤ z

/-- The least value the rows allow. -/
def Component.least {queries : Nat} (component : Component queries) (reached : Fin queries → Bool) :
    ℚ :=
  if component.atLeast.any reached then 1 else 0

theorem Component.least_isLeast {queries : Nat} (component : Component queries) (reached : Fin queries → Bool) :
    IsLeast {z | component.Allows reached z} (component.least reached) := by
  unfold Component.least
  split
  · next any =>
    obtain ⟨query, member, here⟩ := List.any_eq_true.mp any
    refine ⟨⟨zero_le_one, le_refl _, fun query _ => by split <;> simp⟩, fun z allowed => ?_⟩
    have above := allowed.2.2 query member
    rwa [if_pos here] at above
  · next none =>
    refine ⟨⟨le_refl _, zero_le_one, fun query member => ?_⟩, fun z allowed => allowed.1⟩
    rw [if_neg fun here => none (List.any_eq_true.mpr ⟨query, member, here⟩)]

/-- The fixed rate, or the sum of rate times least `z`. -/
def ContextRate.least {queries : Nat} (reached : Fin queries → Bool) : ContextRate queries → ℚ
  | .fixed rate => rate
  | .components list =>
    (list.map fun component => component.rate * component.least reached).sum

end AsapPlanner.Selection
