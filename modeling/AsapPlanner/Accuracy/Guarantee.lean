import AsapPlanner.Accuracy.Bound
import AsapPlanner.Ir.Accuracy

/-!
Accuracy guarantees over exact numbers: what is bounded, by how much, and why.
-/

namespace AsapPlanner.Accuracy
open Rust
open Ir (AccuracyMetric AccuracySpec AccuracyTarget)

/-- How a parent operator consumes its inputs' values. -/
inductive CompositionOperator (K : Type)
  | checkedRelativeDivision
  | approximateAggregate
  | lipschitz (constant : K)
  | exactSum
  | exactAverage
  | exactExtremum
  | exactDivision
  | exactProduct
  | counterRate
  | instantCounterRate
  | counterIncrease
  | topKSelection

mutual
/-- One entry of a guarantee's explanation. -/
inductive GuaranteeSource (K : Type)
  | exact (reason : String)
  | accuracyTarget (target : AccuracyTarget)
  | sketchEvaluation (algorithm contract : String) (params : Json) (query : String)
  | childGuarantee (inputIndex : Nat) (guarantee : AccuracyGuarantee K)
  | compositionStep (operator : CompositionOperator K) (rule : String)
  | budgetAllocation (allocator : String) (layer layerCount : Nat)
      (localTarget endToEndTarget : AccuracyTarget)
  | unavailableStatistic (statistic : String)
  | runtimeObservation (source : String) (detail : Json)

/-- `Pr[err_metric(estimate, truth) > error] ≤ failure_probability`, for each value. -/
inductive AccuracyGuarantee (K : Type)
  | mk (spec : AccuracySpec (BoundExpr K) (ProbabilityExpr K)) (provenance : List (GuaranteeSource K))
end

namespace AccuracyGuarantee
variable {K : Type}

def spec : AccuracyGuarantee K → AccuracySpec (BoundExpr K) (ProbabilityExpr K)
  | .mk spec _ => spec

def provenance : AccuracyGuarantee K → List (GuaranteeSource K)
  | .mk _ provenance => provenance

def new (metric : AccuracyMetric) (error : BoundExpr K) (failureProbability : ProbabilityExpr K)
    (provenance : List (GuaranteeSource K)) : AccuracyGuarantee K :=
  .mk { accuracyMetric := metric, error, failureProbability, accuracyScope := .perValue } provenance

@[simp] theorem new_failureProbability {metric : AccuracyMetric} {error : BoundExpr K}
    {failureProbability : ProbabilityExpr K} {provenance : List (GuaranteeSource K)} :
    (new metric error failureProbability provenance).spec.failureProbability =
      failureProbability := rfl

def bind (value : String → Option K) : AccuracyGuarantee K → AccuracyGuarantee K
  | .mk spec provenance =>
    .mk { spec with error := spec.error.bind value,
                    failureProbability := spec.failureProbability.bind value } provenance

/-- Its error and failure probability, where both are known. -/
def Bounds [Field K] [LinearOrder K] (guarantee : AccuracyGuarantee K) (e d : K) : Prop :=
  guarantee.spec.error.evaluate = some e ∧ guarantee.spec.failureProbability.evaluate = some d

end AccuracyGuarantee
end AsapPlanner.Accuracy
