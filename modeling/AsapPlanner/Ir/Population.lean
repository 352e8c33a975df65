import AsapPlanner.Ir.Node
import Mathlib.Data.List.Destutter

/-!
Whether a maintained population reads the input it declares, and which evaluations it supports.
-/

namespace AsapPlanner.Ir
open Rust

/-! ### The order on matchers -/

def CurrentSeriesMatch.rank : CurrentSeriesMatch → Nat
  | equal => 0 | notEqual => 1 | regex => 2 | notRegex => 3

/-- The derived order: field by field. -/
def CurrentSeriesMatcher.cmp (x y : CurrentSeriesMatcher) : Ordering :=
  ((compare x.label y.label).then (compare x.value y.value)).then
    (compare x.operation.rank y.operation.rank)

/-! ### Inputs -/

def currentSeriesMatcher (schema : Schema) (predicate : Predicate NodeRef) :
    Option CurrentSeriesMatcher :=
  match predicate.expr with
  | .compare (.column col) op (.literal (.utf8 value)) _ => do
    let column ← schema.fields[col]?
    if same column.dtype (.plain .utf8) then
      let operation ← match op with
        | .eq => some CurrentSeriesMatch.equal
        | .ne => some .notEqual
        | .regex => some .regex
        | .notRegex => some .notRegex
        | _ => none
      some { label := column.name, value, operation }
    else none
  | _ => none

namespace CurrentSeriesInput

/-- The scan under the instant range that `lookback_ms` names; 300 s needs no range. -/
def scanOf (spec : CurrentSeriesInput) (dag : Dag) (input : OperatorNode) : Option OperatorNode :=
  match input.nonAsap with
  | some (.timeRange range .instant child) =>
    if 0 < spec.lookbackMs ∧ range = ⟨spec.lookbackMs * 1000000⟩ then some (dag.node child) else none
  | some (.timeRange ..) => none
  | _ => if spec.lookbackMs = 300000 then some input else none

def matchesNode (spec : CurrentSeriesInput) (dag : Dag) (input : OperatorNode) : Bool :=
  match (spec.scanOf dag input).bind (·.nonAsap) with
  | some (.scan (.timeSeries metric) predicates schema) =>
    if spec.metric.isEmpty || metric != spec.metric
      || (schema.closed && !schema.hasPromqlSeriesIdentity) || schema.timeIndex.isNone then false
    else if spec.grouping.any fun label => !schema.fields.any fun column =>
      column.name == label && same column.dtype (.plain .utf8) then false
    else match predicates.mapM (currentSeriesMatcher schema) with
      | none => false
      | some matchers =>
        let sorted := matchers.mergeSort fun x y => (x.cmp y).isLE
        spec.matchers == sorted.destutter (· ≠ ·)
          && (spec.grouping.zip spec.grouping.tail).all fun pair => pair.1 < pair.2
  | _ => false

end CurrentSeriesInput

namespace MaintainedPopulation

/-- Whether `input` is the maintenance input this population declares. -/
def matchesNode (population : MaintainedPopulation) (dag : Dag) (input : NodeRef) : Bool :=
  match population.input with
  | .currentSeries spec => spec.matchesNode dag (dag.node input)
  | .rows expected valueColumn grouping =>
    match (dag.node input).operator with
    | .nonASAP (.scan (.table _) _ schema) =>
      -- The same computation, whatever timing either node carries.
      (dag.operatorDatum expected).eq (dag.operatorDatum input)
        && same (dag.node expected).schema (dag.node input).schema
        && schema.closed
        && (schema.fields[valueColumn]?.any fun column =>
          same column.dtype (.plain .float64) && !column.nullable)
        && !grouping.without
        && grouping.keys.all (· < schema.fields.length)
    | _ => false

def supports (population : MaintainedPopulation) : PopulationStatistic → Bool
  | .quantile q => population.quantiles && q.isFinite
  | .topK k => k ≤ population.maxK
  | .sum | .count | .average => true

end MaintainedPopulation
end AsapPlanner.Ir
