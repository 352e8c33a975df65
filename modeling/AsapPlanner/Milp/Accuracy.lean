import AsapPlanner.Milp.Dependence
import AsapPlanner.Milp.OwnContexts
import AsapPlanner.Milp.Reach

/-!
The accuracy rows: of the approximate runs a query depends on, none is unusable for it, no excluded pair is
read together, and there are at most as many as each of them has budget parts.
-/

namespace AsapPlanner.Milp
open Relation

inductive UnusableReason
  | noAccuracyGuarantee | accuracyTargetMissed | notChecked
deriving DecidableEq, Repr

inductive AccuracyWeight
  | one
  | unusable (reason : UnusableReason)
deriving DecidableEq, Repr

/-- What the accuracy rows are built from, by query and candidate. -/
structure AccuracyInputs (n : Nat) where
  approximate : Fin n → Bool
  accuracyBudgetParts : Fin n → Nat
  accuracyWeights : Nat → Fin n → Option AccuracyWeight
  accuracyExcludedPairs : Nat → List (Fin n × Fin n)
  exactTarget : Nat → Bool

/-- The variables of the rows before, and those the accuracy rows add. -/
inductive AccuracyVariable (n : Nat)
  | model (v : Variable n)
  | dependsOn (query context : Nat) (candidate : Fin n)
  | shares (query : Nat)
  | reads (query parts : Nat)
deriving DecidableEq

namespace AccuracyInputs
variable {n : Nat} (accuracy : AccuracyInputs n)

def weighted (query : Nat) (candidate : Fin n) : Bool :=
  accuracy.approximate candidate && (accuracy.accuracyWeights query candidate).isSome

def usable (query : Nat) (candidate : Fin n) : Bool :=
  !accuracy.exactTarget query && accuracy.accuracyWeights query candidate = some .one

end AccuracyInputs

namespace MilpInputs
variable {n : Nat} (inputs : MilpInputs n) (accuracy : AccuracyInputs n) (queries query : Nat)

/-- The candidates computed in each context, and each shareable candidate's own run. -/
def runs : List (Nat × Fin n) :=
  (List.range inputs.contexts.length).flatMap fun context =>
    ((ascending (inputs.options context)).filter (inputs.computes context)).map (context, ·) ++
      match (inputs.context context).kind with
      | .shared own => if (inputs.contextOfShareable own).isSome then [(context, own)] else []
      | _ => []

def weightedRuns : List (Nat × Fin n) := inputs.runs.filter fun run => accuracy.weighted query run.2

/-- What stands for a query's dependence on a run; `none` where it cannot depend on it. -/
def dep (run : Nat × Fin n) : Option (AccuracyVariable n) :=
  match (inputs.context run.1).kind with
  | .query other => if other = query then some (.model (.choice run.1 run.2)) else none
  | .shared own =>
    if (query, own) ∈ inputs.reachVariables queries then
      if own = run.2 then some (.model (.reach query run.2)) else some (.dependsOn query run.1 run.2)
    else none
  | .ingestion _ => none

/-- The rows of a dependence in a shareable candidate's context, and of a run in a pipeline, which is forbidden. -/
def depRows (run : Nat × Fin n) : List (Constraint (AccuracyVariable n)) :=
  match (inputs.context run.1).kind with
  | .query _ => []
  | .shared own =>
    if own ≠ run.2 ∧ (query, own) ∈ inputs.reachVariables queries then
      [.ge (.var (.dependsOn query run.1 run.2))
        (.var (.model (.reach query own)) + .var (.model (.choice run.1 run.2)) - .const 1)]
    else []
  | .ingestion _ => [.le (.var (.model (.choice run.1 run.2))) (.const 0)]

def unusableRows (run : Nat × Fin n) : List (Constraint (AccuracyVariable n)) :=
  match inputs.dep queries query run with
  | some v => if accuracy.usable query run.2 then [] else [.le (.var v) (.const 0)]
  | none => []

/-- The usable runs a query may depend on, each with what stands for the dependence. -/
def counted : List ((Nat × Fin n) × AccuracyVariable n) :=
  (inputs.weightedRuns accuracy query).filterMap fun run =>
    if accuracy.usable query run.2 then (inputs.dep queries query run).map (run, ·) else none

/-- Where a run gives its value. -/
def place (run : Nat × Fin n) : Nat × Option ResultSlot :=
  match (inputs.context run.1).kind with
  | .shared own => if own = run.2 then (run.1, none) else (run.1, some (inputs.slot run.2))
  | _ => (run.1, some (inputs.slot run.2))

/-- The most values a query can depend on together. -/
def most : Nat := ((inputs.counted accuracy queries query).map fun entry => inputs.place entry.1).dedup.length

def pairRows : List (Constraint (AccuracyVariable n)) :=
  let counted := inputs.counted accuracy queries query
  (accuracy.accuracyExcludedPairs query).flatMap fun pair =>
    (counted.filter fun entry => entry.1.2 = pair.1).flatMap fun one =>
      (counted.filter fun entry => entry.1.2 = pair.2).map fun other =>
        .le (.var one.2 + .var other.2) (.const 1)

def partsBelow : List Nat :=
  (((inputs.counted accuracy queries query).map fun entry => accuracy.accuracyBudgetParts entry.1.2).filter
    (· < inputs.most accuracy queries query)).dedup.insertionSort (· ≤ ·)

/-- The rows of one parts value: whether the query reads it, and then at most as many values. -/
def partsRows (parts : Nat) : List (Constraint (AccuracyVariable n)) :=
  let reads := AccuracyVariable.reads query parts
  ((inputs.counted accuracy queries query).filter fun entry =>
      accuracy.accuracyBudgetParts entry.1.2 = parts).map (fun entry => .ge (.var reads) (.var entry.2)) ++
    [.le (.var (.shares query))
      (.const parts + (.const 1 - .var reads : Expression _).scale (inputs.most accuracy queries query - parts))]

def shareRows : List (Constraint (AccuracyVariable n)) :=
  let counted := inputs.counted accuracy queries query
  if counted.all fun entry => inputs.most accuracy queries query ≤ accuracy.accuracyBudgetParts entry.1.2 then []
  else .eq (.var (.shares query)) (.sum (counted.map Prod.snd)) ::
    (inputs.partsBelow accuracy queries query).flatMap (inputs.partsRows accuracy queries query)

def accuracyRows : List (Constraint (AccuracyVariable n)) :=
  (inputs.weightedRuns accuracy query).flatMap (fun run =>
      inputs.depRows queries query run ++ inputs.unusableRows accuracy queries query run) ++
    inputs.pairRows accuracy queries query ++ inputs.shareRows accuracy queries query

end MilpInputs

def withAccuracy {n : Nat} (value : Variable n → ℚ) (auxiliary : AccuracyVariable n → ℚ) :
    AccuracyVariable n → ℚ
  | .model v => value v
  | other => auxiliary other

namespace MilpInputs
variable {n : Nat} (inputs : MilpInputs n) (accuracy : AccuracyInputs n) (queries query : Nat)

/-- The accuracy variables are within their bounds and meet row 8. -/
structure MeetsAccuracy (value : AccuracyVariable n → ℚ) : Prop where
  dependsOn : ∀ context candidate,
    0 ≤ value (.dependsOn query context candidate) ∧ value (.dependsOn query context candidate) ≤ 1
  shares : 0 ≤ value (.shares query)
  reads : ∀ parts, 0 ≤ value (.reads query parts) ∧ value (.reads query parts) ≤ 1
  rows : ∀ row ∈ inputs.accuracyRows accuracy queries query, row.Holds value

/-! ### Accuracy of the runs depended on -/

/-- What accuracy asks of the approximate runs a query depends on. -/
structure AccuracyMet (dependsOn : Nat × Fin n → Prop) : Prop where
  usable : ∀ run ∈ inputs.weightedRuns accuracy query, dependsOn run → accuracy.usable query run.2 = true
  pairs : ∀ pair ∈ accuracy.accuracyExcludedPairs query, ∀ one ∈ inputs.weightedRuns accuracy query,
    ∀ other ∈ inputs.weightedRuns accuracy query, one.2 = pair.1 → other.2 = pair.2 →
      ¬ (dependsOn one ∧ dependsOn other)
  parts : ∀ run ∈ inputs.weightedRuns accuracy query, dependsOn run → ∀ together : Finset (Nat × Fin n),
    (∀ other ∈ together, other ∈ inputs.weightedRuns accuracy query ∧ dependsOn other) →
      together.card ≤ accuracy.accuracyBudgetParts run.2

def asRun (run : Nat × Fin n) : Run n :=
  match (inputs.context run.1).kind with
  | .shared own => if own = run.2 then .shared own else .computed run.1 run.2
  | _ => .computed run.1 run.2

/-- The reach variables tell which shareable candidates each query depends on. -/
structure ReachExact (value : Variable n → ℚ) : Prop where
  announced : ∀ query shareable, inputs.RunOfQuery (inputs.chosenBy value) query (.shared shareable) →
    (query, shareable) ∈ inputs.reachVariables queries
  reach : ∀ pair ∈ inputs.reachVariables queries,
    inputs.RunOfQuery (inputs.chosenBy value) pair.1 (.shared pair.2) ∧ value (.reach pair.1 pair.2) = 1 ∨
      ¬ inputs.RunOfQuery (inputs.chosenBy value) pair.1 (.shared pair.2) ∧ value (.reach pair.1 pair.2) = 0

/-- The runs row 8 counts for a query: those chosen in its context and in the contexts of the shareable
candidates it depends on, and these candidates' own. -/
def Counts (value : Variable n → ℚ) (run : Nat × Fin n) : Prop :=
  match (inputs.context run.1).kind with
  | .query other => other = query ∧ value (.choice run.1 run.2) = 1
  | .shared own => inputs.RunOfQuery (inputs.chosenBy value) query (.shared own) ∧
      (own = run.2 ∨ value (.choice run.1 run.2) = 1)
  | .ingestion _ => False

end MilpInputs
end AsapPlanner.Milp
