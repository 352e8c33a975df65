import AsapPlanner.Ir.Accuracy
import AsapPlanner.Ir.Scalar

/-!
The parameters operators carry: grouping, sources, vector matching, window functions, time shifts,
aggregation intents, summary updates and maintained populations.
-/

namespace AsapPlanner.Ir
open Rust

/-- A node's address: its position in the store of all allocated nodes. -/
abbrev NodeRef := Nat

/-! ### Grouping -/

/-- Kept columns (`by`) or excluded ones (`without`). -/
structure GroupKeys where
  keys : List ColumnId
  without : Bool
deriving DecidableEq, Repr

instance : Derived GroupKeys := ⟨fun group =>
  .record "GroupKeys" [("keys", datum group.keys), ("without", datum group.without)]⟩

def GroupKeys.none : GroupKeys := { keys := [], without := false }

def GroupKeys.by (keys : List ColumnId) : GroupKeys := { keys, without := false }

inductive Reduction
  | reduce (group : GroupKeys)
  | perEntity
deriving DecidableEq, Repr

instance : Derived Reduction := ⟨fun reduction => match reduction with
  | .reduce group => .variant "Reduce" [datum group]
  | .perEntity => .variant "PerEntity" []⟩

def Reduction.groupKeys : Reduction → Option GroupKeys
  | reduce group => some group
  | perEntity => none

/-! ### Relational parameters -/

inductive Source
  | timeSeries (metric : String)
  | table (tableRef : String)
deriving DecidableEq, Repr

instance : Derived Source := ⟨fun source => match source with
  | .timeSeries metric => .record "TimeSeries" [("metric", datum metric)]
  | .table tableRef => .record "Table" [("table_ref", datum tableRef)]⟩

inductive JoinKind
  | inner | left | right | full | cross | semi | anti
deriving DecidableEq, Repr

def JoinKind.name : JoinKind → String
  | inner => "Inner" | left => "Left" | right => "Right" | full => "Full" | cross => "Cross"
  | semi => "Semi" | anti => "Anti"

instance : Derived JoinKind := ⟨fun kind => .variant kind.name []⟩

inductive RelationalSetOpKind
  | union | intersect | except
deriving DecidableEq, Repr

def RelationalSetOpKind.name : RelationalSetOpKind → String
  | union => "Union" | intersect => "Intersect" | except => "Except"

instance : Derived RelationalSetOpKind := ⟨fun kind => .variant kind.name []⟩

inductive WindowFuncKind
  | rowNumber | rank | denseRank | lag | lead | lagInFrame | leadInFrame | firstValue | lastValue
  | nthValue (n : Option Nat)
  | sum | avg | count | min | max
deriving DecidableEq, Repr

instance : Derived WindowFuncKind := ⟨fun kind => match kind with
  | .rowNumber => .variant "RowNumber" [] | .rank => .variant "Rank" []
  | .denseRank => .variant "DenseRank" [] | .lag => .variant "Lag" []
  | .lead => .variant "Lead" [] | .lagInFrame => .variant "LagInFrame" []
  | .leadInFrame => .variant "LeadInFrame" [] | .firstValue => .variant "FirstValue" []
  | .lastValue => .variant "LastValue" [] | .nthValue n => .variant "NthValue" [datum n]
  | .sum => .variant "Sum" [] | .avg => .variant "Avg" [] | .count => .variant "Count" []
  | .min => .variant "Min" [] | .max => .variant "Max" []⟩

inductive WindowFrameUnits
  | rows | range
deriving DecidableEq, Repr

instance : Derived WindowFrameUnits := ⟨fun units => match units with
  | .rows => .variant "Rows" []
  | .range => .variant "Range" []⟩

inductive WindowFrameOffset
  | scalar (value : ScalarValue)
  | interval (months days nanoseconds : Int)
deriving DecidableEq, Repr

instance : Derived WindowFrameOffset := ⟨fun offset => match offset with
  | .scalar value => .variant "Scalar" [datum value]
  | .interval months days nanoseconds =>
    .record "Interval" [("months", datum months), ("days", datum days),
      ("nanoseconds", datum nanoseconds)]⟩

inductive WindowFrameBound
  | preceding (offset : WindowFrameOffset)
  | currentRow
  | following (offset : WindowFrameOffset)
deriving DecidableEq, Repr

instance : Derived WindowFrameBound := ⟨fun bound => match bound with
  | .preceding offset => .variant "Preceding" [datum offset]
  | .currentRow => .variant "CurrentRow" []
  | .following offset => .variant "Following" [datum offset]⟩

structure WindowFrame where
  units : WindowFrameUnits
  startBound : WindowFrameBound
  endBound : WindowFrameBound
deriving DecidableEq, Repr

instance : Derived WindowFrame := ⟨fun frame =>
  .record "WindowFrame" [("units", datum frame.units), ("start_bound", datum frame.startBound),
    ("end_bound", datum frame.endBound)]⟩

/-! ### PromQL parameters -/

inductive PromQLVectorSetOpKind
  | and | or | «unless»
deriving DecidableEq, Repr

def PromQLVectorSetOpKind.name : PromQLVectorSetOpKind → String
  | and => "And" | or => "Or" | «unless» => "Unless"

instance : Derived PromQLVectorSetOpKind := ⟨fun kind => .variant kind.name []⟩

inductive BinaryOpKind
  | arithmetic (op : ArithmeticOpKind)
  | compare (op : CompareOpKind)
  | compareBool (op : CompareOpKind)
  | set (op : PromQLVectorSetOpKind)
deriving DecidableEq, Repr

instance : Derived BinaryOpKind := ⟨fun kind => match kind with
  | .arithmetic op => .variant "Arithmetic" [datum op]
  | .compare op => .variant "Compare" [datum op]
  | .compareBool op => .variant "CompareBool" [datum op]
  | .set op => .variant "Set" [datum op]⟩

inductive VectorMatchKind
  | on | ignoring
deriving DecidableEq, Repr

instance : Derived VectorMatchKind := ⟨fun kind => match kind with
  | .on => .variant "On" []
  | .ignoring => .variant "Ignoring" []⟩

inductive GroupSide
  | left | right
deriving DecidableEq, Repr

instance : Derived GroupSide := ⟨fun side => match side with
  | .left => .variant "Left" []
  | .right => .variant "Right" []⟩

structure VectorGrouping where
  side : GroupSide
  labels : List String
deriving DecidableEq, Repr

instance : Derived VectorGrouping := ⟨fun grouping =>
  .record "VectorGrouping" [("side", datum grouping.side), ("labels", datum grouping.labels)]⟩

structure VectorMatch where
  kind : VectorMatchKind
  labels : List String
  grouping : Option VectorGrouping
deriving DecidableEq, Repr

instance : Derived VectorMatch := ⟨fun vectorMatch =>
  .record "VectorMatch" [("kind", datum vectorMatch.kind), ("labels", datum vectorMatch.labels),
    ("grouping", datum vectorMatch.grouping)]⟩

/-- All semantics owned by a binary operator. -/
structure BinaryOperator where
  checkedRelativeDivision : Bool
  checkedFiniteDivision : Bool
  kind : BinaryOpKind
  vectorMatch : Option VectorMatch
deriving DecidableEq, Repr

instance : Derived BinaryOperator := ⟨fun operator =>
  .record "BinaryOperator"
    [("checked_relative_division", datum operator.checkedRelativeDivision),
      ("checked_finite_division", datum operator.checkedFiniteDivision),
      ("kind", datum operator.kind), ("vector_match", datum operator.vectorMatch)]⟩

inductive TimeRangeKind
  | instant | range
deriving DecidableEq, Repr

instance : Derived TimeRangeKind := ⟨fun kind => match kind with
  | .instant => .variant "Instant" []
  | .range => .variant "Range" []⟩

/-- A time span, in nanoseconds. -/
structure Duration where
  nanos : Nat
deriving DecidableEq, Repr

instance : Derived Duration := ⟨fun span => .leaf (.duration span.nanos)⟩

def Duration.asMillis (span : Duration) : Nat := span.nanos / 1000000

inductive AtModifier
  | start | «end»
  | timestamp (millis : Int)
deriving DecidableEq, Repr

instance : Derived AtModifier := ⟨fun anchor => match anchor with
  | .start => .variant "Start" []
  | .end => .variant "End" []
  | .timestamp millis => .variant "Timestamp" [datum millis]⟩

structure TimeShift where
  offsetMs : Int
  «at» : Option AtModifier
deriving DecidableEq, Repr

instance : Derived TimeShift := ⟨fun shift =>
  .record "TimeShift" [("offset_ms", datum shift.offsetMs), ("at", datum shift.at)]⟩

structure InfoMatcher where
  label : String
  op : CompareOpKind
  value : String
deriving DecidableEq, Repr

instance : Derived InfoMatcher := ⟨fun matcher =>
  .record "InfoMatcher" [("label", datum matcher.label), ("op", datum matcher.op),
    ("value", datum matcher.value)]⟩

inductive SampleKind
  | limitK (k : Nat)
  | limitRatio (ratio : F64)
deriving DecidableEq, Repr

instance : Derived SampleKind := ⟨fun kind => match kind with
  | .limitK k => .variant "LimitK" [datum k]
  | .limitRatio ratio => .variant "LimitRatio" [datum ratio]⟩

/-! ### Aggregation intents -/

inductive TimeFunc
  | timestamp | minute | hour | dayOfWeek | dayOfMonth | dayOfYear | month | year | daysInMonth
deriving DecidableEq, Repr

def TimeFunc.name : TimeFunc → String
  | timestamp => "Timestamp" | minute => "Minute" | hour => "Hour" | dayOfWeek => "DayOfWeek"
  | dayOfMonth => "DayOfMonth" | dayOfYear => "DayOfYear" | month => "Month" | year => "Year"
  | daysInMonth => "DaysInMonth"

instance : Derived TimeFunc := ⟨fun func => .variant func.name []⟩

inductive MathFunc
  | abs | ceil | floor | exp | ln | log2 | log10 | sqrt | sgn | sin | cos | tan | asin | acos | atan
  | sinh | cosh | tanh | asinh | acosh | atanh | deg | rad
  | round (toNearest : F64)
  | clamp (min max : F64)
  | clampMin (min : F64)
  | clampMax (max : F64)
deriving DecidableEq, Repr

instance : Derived MathFunc := ⟨fun func => match func with
  | .abs => .variant "Abs" [] | .ceil => .variant "Ceil" [] | .floor => .variant "Floor" []
  | .exp => .variant "Exp" [] | .ln => .variant "Ln" [] | .log2 => .variant "Log2" []
  | .log10 => .variant "Log10" [] | .sqrt => .variant "Sqrt" [] | .sgn => .variant "Sgn" []
  | .sin => .variant "Sin" [] | .cos => .variant "Cos" [] | .tan => .variant "Tan" []
  | .asin => .variant "Asin" [] | .acos => .variant "Acos" [] | .atan => .variant "Atan" []
  | .sinh => .variant "Sinh" [] | .cosh => .variant "Cosh" [] | .tanh => .variant "Tanh" []
  | .asinh => .variant "Asinh" [] | .acosh => .variant "Acosh" [] | .atanh => .variant "Atanh" []
  | .deg => .variant "Deg" [] | .rad => .variant "Rad" []
  | .round toNearest => .record "Round" [("to_nearest", datum toNearest)]
  | .clamp min max => .record "Clamp" [("min", datum min), ("max", datum max)]
  | .clampMin min => .record "ClampMin" [("min", datum min)]
  | .clampMax max => .record "ClampMax" [("max", datum max)]⟩

/-- What an aggregation computes. `col = none` is the time-series sample value. -/
inductive AggIntent
  | count (accuracy : AccuracyTarget)
  | sum (col : Option ColumnId)
  | min (col : Option ColumnId)
  | max (col : Option ColumnId)
  | avg (col : Option ColumnId)
  | stdDev (col : Option ColumnId) (population : Bool)
  | variance (col : Option ColumnId) (population : Bool)
  | pearsonCorr (left right : ColumnId)
  | quantile (col : Option ColumnId) (q : F64) (accuracy : AccuracyTarget)
  | topK (k : Nat) (accuracy : AccuracyTarget)
  | cardinality (cols : List ColumnId) (accuracy : AccuracyTarget)
  | frequencyL2 (col : Option ColumnId) (accuracy : AccuracyTarget)
  | frequencyEntropy (col : Option ColumnId) (accuracy : AccuracyTarget)
  | rate | iRate | increase | changes | delta | iDelta | deriv | resets
  | predictLinear (seconds : F64)
  | doubleExpSmoothing (smoothing trend : F64)
  | histogramCount | histogramSum | histogramAvg | histogramStdDev | histogramStdVar
  | histogramFraction (lower upper : F64)
  | histogramQuantile (q : F64) (le : ColumnId)
  | math (func : MathFunc)
  | absent (labels : List (String × String))
  | absentOverTime | presentOverTime
  | timeFn (func : TimeFunc)
  | group
  | countValues (label : String)
  | lastOverTime | firstOverTime | madOverTime | tsOfMinOverTime | tsOfMaxOverTime
  | tsOfFirstOverTime | tsOfLastOverTime
  | extension (extKind : String) (payload : Json)

instance : Derived AggIntent := ⟨fun intent => match intent with
  | .count accuracy => .record "Count" [("accuracy", datum accuracy)]
  | .sum col => .record "Sum" [("col", datum col)]
  | .min col => .record "Min" [("col", datum col)]
  | .max col => .record "Max" [("col", datum col)]
  | .avg col => .record "Avg" [("col", datum col)]
  | .stdDev col population => .record "StdDev" [("col", datum col), ("population", datum population)]
  | .variance col population =>
    .record "Variance" [("col", datum col), ("population", datum population)]
  | .pearsonCorr left right => .record "PearsonCorr" [("left", datum left), ("right", datum right)]
  | .quantile col q accuracy =>
    .record "Quantile" [("col", datum col), ("q", datum q), ("accuracy", datum accuracy)]
  | .topK k accuracy => .record "TopK" [("k", datum k), ("accuracy", datum accuracy)]
  | .cardinality cols accuracy =>
    .record "Cardinality" [("cols", datum cols), ("accuracy", datum accuracy)]
  | .frequencyL2 col accuracy =>
    .record "FrequencyL2" [("col", datum col), ("accuracy", datum accuracy)]
  | .frequencyEntropy col accuracy =>
    .record "FrequencyEntropy" [("col", datum col), ("accuracy", datum accuracy)]
  | .rate => .variant "Rate" [] | .iRate => .variant "IRate" []
  | .increase => .variant "Increase" [] | .changes => .variant "Changes" []
  | .delta => .variant "Delta" [] | .iDelta => .variant "IDelta" []
  | .deriv => .variant "Deriv" [] | .resets => .variant "Resets" []
  | .predictLinear seconds => .record "PredictLinear" [("seconds", datum seconds)]
  | .doubleExpSmoothing smoothing trend =>
    .record "DoubleExpSmoothing" [("smoothing", datum smoothing), ("trend", datum trend)]
  | .histogramCount => .variant "HistogramCount" [] | .histogramSum => .variant "HistogramSum" []
  | .histogramAvg => .variant "HistogramAvg" []
  | .histogramStdDev => .variant "HistogramStdDev" []
  | .histogramStdVar => .variant "HistogramStdVar" []
  | .histogramFraction lower upper =>
    .record "HistogramFraction" [("lower", datum lower), ("upper", datum upper)]
  | .histogramQuantile q le => .record "HistogramQuantile" [("q", datum q), ("le", datum le)]
  | .math func => .variant "Math" [datum func]
  | .absent labels =>
    .record "Absent" [("labels", .node (.map "") (labels.map fun entry =>
      .node .entry [datum entry.1, datum entry.2]))]
  | .absentOverTime => .variant "AbsentOverTime" []
  | .presentOverTime => .variant "PresentOverTime" []
  | .timeFn func => .variant "TimeFn" [datum func]
  | .group => .variant "Group" []
  | .countValues label => .record "CountValues" [("label", datum label)]
  | .lastOverTime => .variant "LastOverTime" [] | .firstOverTime => .variant "FirstOverTime" []
  | .madOverTime => .variant "MadOverTime" []
  | .tsOfMinOverTime => .variant "TsOfMinOverTime" []
  | .tsOfMaxOverTime => .variant "TsOfMaxOverTime" []
  | .tsOfFirstOverTime => .variant "TsOfFirstOverTime" []
  | .tsOfLastOverTime => .variant "TsOfLastOverTime" []
  | .extension extKind payload =>
    .record "Extension" [("ext_kind", datum extKind), ("payload", datum payload)]⟩

def AggIntent.inputCols : AggIntent → List ColumnId
  | sum col | min col | max col | avg col | quantile col _ _ | frequencyL2 col _
  | frequencyEntropy col _ | stdDev col _ | variance col _ => col.toList
  | cardinality cols _ => cols
  | pearsonCorr left right => [left, right]
  | _ => []

/-! ### Summary updates and statistics -/

inductive NonNegativeWeightProof
  | unitCount | resetAwareCounterDerivative | counterRawDataSamples
  | declaredNonNegativeRawDataSamples | positiveConstant
deriving DecidableEq, Repr

def NonNegativeWeightProof.name : NonNegativeWeightProof → String
  | unitCount => "UnitCount" | resetAwareCounterDerivative => "ResetAwareCounterDerivative"
  | counterRawDataSamples => "CounterRawDataSamples"
  | declaredNonNegativeRawDataSamples => "DeclaredNonNegativeRawDataSamples"
  | positiveConstant => "PositiveConstant"

instance : Derived NonNegativeWeightProof := ⟨fun proof => .variant proof.name []⟩

inductive WeightDomain
  | unknownOrSigned
  | nonNegative (proof : NonNegativeWeightProof)
  | rawDataSamplesOfMetric (metric : String)
  | counterDerivativeOfMetric (metric : String)
deriving DecidableEq, Repr

instance : Derived WeightDomain := ⟨fun domain => match domain with
  | .unknownOrSigned => .variant "UnknownOrSigned" []
  | .nonNegative proof => .record "NonNegative" [("proof", datum proof)]
  | .rawDataSamplesOfMetric metric => .record "RawDataSamplesOfMetric" [("metric", datum metric)]
  | .counterDerivativeOfMetric metric =>
    .record "CounterDerivativeOfMetric" [("metric", datum metric)]⟩

inductive EntityIdentity
  | promqlLabelSet (excluding : List ColumnRef)
deriving DecidableEq, Repr

instance : Derived EntityIdentity :=
  ⟨fun | .promqlLabelSet excluding => .record "PromqlLabelSet" [("excluding", datum excluding)]⟩

inductive SummaryInputExpr
  | constant (value : F64)
  | column (ref : ColumnRef)
  | tuple (parts : List SummaryInputExpr)
  | entityIdentity (identity : EntityIdentity)

mutual
def SummaryInputExpr.toDatum : SummaryInputExpr → Datum
  | .constant value => .variant "Constant" [datum value]
  | .column ref => .variant "Column" [datum ref]
  | .tuple parts => .variant "Tuple" [.node (.list "") (SummaryInputExpr.datums parts)]
  | .entityIdentity identity => .variant "EntityIdentity" [datum identity]

def SummaryInputExpr.datums : List SummaryInputExpr → List Datum
  | [] => []
  | part :: rest => part.toDatum :: SummaryInputExpr.datums rest
end

instance : Derived SummaryInputExpr := ⟨SummaryInputExpr.toDatum⟩

/-- One summary-state update: an optional keyed item and its weight. -/
structure SummaryUpdate where
  item : Option SummaryInputExpr
  weight : SummaryInputExpr
  weightDomain : WeightDomain

instance : Derived SummaryUpdate := ⟨fun update =>
  .record "SummaryUpdate" [("item", datum update.item), ("weight", datum update.weight),
    ("weight_domain", datum update.weightDomain)]⟩

inductive SketchStatistic
  | frequencyL2
  | frequencyEntropy
  | quantile (q : F64)
  | pointCount (key : ColumnRef) (value : Option String)
  | cardinality
  | topK (k : Nat)
deriving DecidableEq, Repr

instance : Derived SketchStatistic := ⟨fun statistic => match statistic with
  | .frequencyL2 => .variant "FrequencyL2" []
  | .frequencyEntropy => .variant "FrequencyEntropy" []
  | .quantile q => .record "Quantile" [("q", datum q)]
  | .pointCount key value => .record "PointCount" [("key", datum key), ("value", datum value)]
  | .cardinality => .variant "Cardinality" []
  | .topK k => .record "TopK" [("k", datum k)]⟩

/-! ### Maintained populations -/

inductive CurrentSeriesMatch
  | equal | notEqual | regex | notRegex
deriving DecidableEq, Repr

def CurrentSeriesMatch.name : CurrentSeriesMatch → String
  | equal => "Equal" | notEqual => "NotEqual" | regex => "Regex" | notRegex => "NotRegex"

instance : Derived CurrentSeriesMatch := ⟨fun operation => .variant operation.name []⟩

structure CurrentSeriesMatcher where
  label : String
  value : String
  operation : CurrentSeriesMatch
deriving DecidableEq, Repr

instance : Derived CurrentSeriesMatcher := ⟨fun matcher =>
  .record "CurrentSeriesMatcher" [("label", datum matcher.label), ("value", datum matcher.value),
    ("operation", datum matcher.operation)]⟩

structure CurrentSeriesInput where
  metric : String
  matchers : List CurrentSeriesMatcher
  grouping : List String
  without : Bool
  lookbackMs : Nat
deriving DecidableEq, Repr

instance : Derived CurrentSeriesInput := ⟨fun input =>
  .record "CurrentSeriesInput" [("metric", datum input.metric), ("matchers", datum input.matchers),
    ("grouping", datum input.grouping), ("without", datum input.without),
    ("lookback_ms", datum input.lookbackMs)]⟩

inductive PopulationStatistic
  | quantile (q : F64)
  | topK (k : Nat)
  | sum | count | average
deriving DecidableEq, Repr

instance : Derived PopulationStatistic := ⟨fun statistic => match statistic with
  | .quantile q => .record "Quantile" [("q", datum q)]
  | .topK k => .record "TopK" [("k", datum k)]
  | .sum => .variant "Sum" []
  | .count => .variant "Count" []
  | .average => .variant "Average" []⟩

/-- The population's own input; its node is held beside the operator's children. -/
inductive PopulationInput
  | currentSeries (input : CurrentSeriesInput)
  | rows (input : NodeRef) (valueColumn : ColumnId) (grouping : GroupKeys)
deriving DecidableEq, Repr

structure MaintainedPopulation where
  input : PopulationInput
  maxK : Nat
  quantiles : Bool
deriving DecidableEq, Repr

def PopulationInput.toDatum (held : NodeRef → Datum) : PopulationInput → Datum
  | .currentSeries input => .variant "CurrentSeries" [datum input]
  | .rows input valueColumn grouping =>
    .record "Rows" [("input", held input), ("value_column", datum valueColumn),
      ("grouping", datum grouping)]

def MaintainedPopulation.toDatum (held : NodeRef → Datum) (population : MaintainedPopulation) :
    Datum :=
  .record "MaintainedPopulation" [("input", population.input.toDatum held),
    ("max_k", datum population.maxK), ("quantiles", datum population.quantiles)]

def MaintainedPopulation.held (population : MaintainedPopulation) : Option NodeRef :=
  match population.input with
  | .rows input _ _ => some input
  | _ => none

end AsapPlanner.Ir
