import AsapPlanner.Rust.Value

/-!
Accuracy requirements, and the guarantees a node carries: an error metric, a symbolic error bound
and failure probability, the values they cover, and why they hold.
-/

namespace AsapPlanner.Ir
open Rust

/-! ### Requirements -/

inductive NormScale
  | streamL1 | streamL2
deriving DecidableEq, Repr

instance : Derived NormScale := ⟨fun scale => match scale with
  | .streamL1 => .variant "StreamL1" []
  | .streamL2 => .variant "StreamL2" []⟩

inductive AccuracyMetric
  | absolute (scale : Option NormScale)
  | relative
  | rank
deriving DecidableEq, Repr

instance : Derived AccuracyMetric := ⟨fun metric => match metric with
  | .absolute scale => .record "Absolute" [("scale", datum scale)]
  | .relative => .variant "Relative" []
  | .rank => .variant "Rank" []⟩

/-- The output values one statement covers simultaneously. -/
inductive AccuracyScope
  | perValue
  | wholeResult
  | groupsWithRecordShareAtLeast (share : F64)
deriving DecidableEq, Repr

instance : Derived AccuracyScope := ⟨fun scope => match scope with
  | .perValue => .variant "PerValue" []
  | .wholeResult => .variant "WholeResult" []
  | .groupsWithRecordShareAtLeast share => .variant "GroupsWithRecordShareAtLeast" [datum share]⟩

structure AccuracySpec (E P : Type) where
  accuracyMetric : AccuracyMetric
  error : E
  failureProbability : P
  accuracyScope : AccuracyScope

structure AccuracyTarget where
  accuracyMetric : Option AccuracyMetric
  maxError : F64
  failureProbability : Option F64
  accuracyScope : AccuracyScope
deriving DecidableEq, Repr

instance : Derived AccuracyTarget := ⟨fun target =>
  .record "AccuracyTarget" [("accuracy_metric", datum target.accuracyMetric),
    ("max_error", datum target.maxError), ("failure_probability", datum target.failureProbability),
    ("accuracy_scope", datum target.accuracyScope)]⟩

/-- No approximation permitted. -/
def AccuracyTarget.exact : AccuracyTarget :=
  { accuracyMetric := none, maxError := ⟨false, 0⟩, failureProbability := some ⟨false, 0⟩,
    accuracyScope := .wholeResult }

/-! ### Bounds -/

/-- A symbolic error bound; `unknown` names a statistic nothing has supplied. -/
inductive BoundExpr
  | zero
  | constant (value : F64)
  | sum (terms : List BoundExpr)
  | product (factors : List BoundExpr)
  | scaled (factor : F64) (inner : BoundExpr)
  | max (terms : List BoundExpr)
  | unknown (statistic : String)

mutual
def BoundExpr.toDatum : BoundExpr → Datum
  | .zero => .variant "Zero" []
  | .constant value => .record "Constant" [("value", datum value)]
  | .sum terms => .record "Sum" [("terms", .node (.list "") (BoundExpr.datums terms))]
  | .product factors => .record "Product" [("factors", .node (.list "") (BoundExpr.datums factors))]
  | .scaled factor inner =>
    .record "Scaled" [("factor", datum factor), ("inner", inner.toDatum)]
  | .max terms => .record "Max" [("terms", .node (.list "") (BoundExpr.datums terms))]
  | .unknown statistic => .record "Unknown" [("statistic", datum statistic)]

def BoundExpr.datums : List BoundExpr → List Datum
  | [] => []
  | term :: rest => term.toDatum :: BoundExpr.datums rest
end

instance : Derived BoundExpr := ⟨BoundExpr.toDatum⟩

inductive ProbabilityExpr
  | zero
  | constant (value : F64)
  | unionBound (terms : List ProbabilityExpr)
  | scaled (count : BoundExpr) (inner : ProbabilityExpr)
  | unknown (statistic : String)

mutual
def ProbabilityExpr.toDatum : ProbabilityExpr → Datum
  | .zero => .variant "Zero" []
  | .constant value => .record "Constant" [("value", datum value)]
  | .unionBound terms =>
    .record "UnionBound" [("terms", .node (.list "") (ProbabilityExpr.datums terms))]
  | .scaled count inner => .record "Scaled" [("count", datum count), ("inner", inner.toDatum)]
  | .unknown statistic => .record "Unknown" [("statistic", datum statistic)]

def ProbabilityExpr.datums : List ProbabilityExpr → List Datum
  | [] => []
  | term :: rest => term.toDatum :: ProbabilityExpr.datums rest
end

instance : Derived ProbabilityExpr := ⟨ProbabilityExpr.toDatum⟩

/-! ### Guarantees -/

inductive CompositionOperator
  | checkedRelativeDivision
  | approximateAggregate
  | lipschitz (constant : F64)
  | exactSum
  | exactAverage
  | exactExtremum
  | exactDivision
  | exactProduct
  | counterRate
  | instantCounterRate
  | counterIncrease
  | topKSelection
deriving DecidableEq, Repr

instance : Derived CompositionOperator := ⟨fun operator => match operator with
  | .checkedRelativeDivision => .variant "CheckedRelativeDivision" []
  | .approximateAggregate => .variant "ApproximateAggregate" []
  | .lipschitz constant => .record "Lipschitz" [("constant", datum constant)]
  | .exactSum => .variant "ExactSum" []
  | .exactAverage => .variant "ExactAverage" []
  | .exactExtremum => .variant "ExactExtremum" []
  | .exactDivision => .variant "ExactDivision" []
  | .exactProduct => .variant "ExactProduct" []
  | .counterRate => .variant "CounterRate" []
  | .instantCounterRate => .variant "InstantCounterRate" []
  | .counterIncrease => .variant "CounterIncrease" []
  | .topKSelection => .variant "TopKSelection" []⟩

mutual
/-- One entry of a guarantee's explanation. -/
inductive GuaranteeSource
  | exact (reason : String)
  | accuracyTarget (target : AccuracyTarget)
  | sketchEvaluation (algorithm contract : String) (params : Json) (query : String)
  | childGuarantee (inputIndex : Nat) (guarantee : AccuracyGuarantee)
  | compositionStep (operator : CompositionOperator) (rule : String)
  | budgetAllocation (allocator : String) (layer layerCount : Nat)
      (localTarget endToEndTarget : AccuracyTarget)
  | unavailableStatistic (statistic : String)
  | runtimeObservation (source : String) (detail : Json)

/-- The accuracy statement of a finalized value. -/
inductive AccuracyGuarantee
  | mk (spec : AccuracySpec BoundExpr ProbabilityExpr) (provenance : List GuaranteeSource)
end

instance : Derived (AccuracySpec BoundExpr ProbabilityExpr) := ⟨fun spec =>
  .record "AccuracySpec" [("accuracy_metric", datum spec.accuracyMetric),
    ("error", datum spec.error), ("failure_probability", datum spec.failureProbability),
    ("accuracy_scope", datum spec.accuracyScope)]⟩

mutual
def GuaranteeSource.toDatum : GuaranteeSource → Datum
  | .exact reason => .record "Exact" [("reason", datum reason)]
  | .accuracyTarget target => .record "AccuracyTarget" [("target", datum target)]
  | .sketchEvaluation algorithm contract params query =>
    .record "SketchEvaluation" [("algorithm", datum algorithm), ("contract", datum contract),
      ("params", datum params), ("query", datum query)]
  | .childGuarantee inputIndex guarantee =>
    .record "ChildGuarantee" [("input_index", datum inputIndex), ("guarantee", guarantee.toDatum)]
  | .compositionStep operator rule =>
    .record "CompositionStep" [("operator", datum operator), ("rule", datum rule)]
  | .budgetAllocation allocator layer layerCount localTarget endToEndTarget =>
    .record "BudgetAllocation" [("allocator", datum allocator), ("layer", datum layer),
      ("layer_count", datum layerCount), ("local_target", datum localTarget),
      ("end_to_end_target", datum endToEndTarget)]
  | .unavailableStatistic statistic =>
    .record "UnavailableStatistic" [("statistic", datum statistic)]
  | .runtimeObservation source detail =>
    .record "RuntimeObservation" [("source", datum source), ("detail", datum detail)]

def GuaranteeSource.datums : List GuaranteeSource → List Datum
  | [] => []
  | source :: rest => source.toDatum :: GuaranteeSource.datums rest

def AccuracyGuarantee.toDatum : AccuracyGuarantee → Datum
  | .mk spec provenance =>
    .record "AccuracyGuarantee" [("spec", datum spec),
      ("provenance", .node (.list "") (GuaranteeSource.datums provenance))]
end

instance : Derived AccuracyGuarantee := ⟨AccuracyGuarantee.toDatum⟩

end AsapPlanner.Ir
