import AsapPlanner.Rust.Value

/-!
The schema carried by every edge of an operator DAG, and the summary families a field can hold.
-/

namespace AsapPlanner.Ir
open Rust

/-- Zero-based position of a column in one operator's input or output. -/
abbrev ColumnId := Nat

/-! ### Exact accumulators -/

inductive ExactKind
  | sum | count | min | max | increase | rate | iRate
deriving DecidableEq, Repr

def ExactKind.name : ExactKind → String
  | sum => "Sum" | count => "Count" | min => "Min" | max => "Max"
  | increase => "Increase" | rate => "Rate" | iRate => "IRate"

instance : Derived ExactKind := ⟨fun kind => .variant kind.name []⟩

inductive ExactParams
  | sum | count | min | max | increase | rate | iRate
deriving DecidableEq, Repr

def ExactParams.name : ExactParams → String
  | sum => "Sum" | count => "Count" | min => "Min" | max => "Max"
  | increase => "Increase" | rate => "Rate" | iRate => "IRate"

instance : Derived ExactParams := ⟨fun params => .variant params.name []⟩

/-! ### Sketches -/

/-- The sketch library's families. -/
inductive SketchAlgorithm
  | kll | univMon | ddSketch | hll | kmv | cms | countSketch | cmsWithHeap | countSketchWithHeap
  | countSketchWithL2Norm | cmsWithSpaceSaving | countSketchWithSpaceSaving | cmsFold
  | countSketchFold | hllHip | kllDynamic | spaceSaving | elastic | coco | bloom | setAggregator
  | univMonTwoTier | univMonQ | hydraCms | hydraCountSketch | hydraKll | hydraHll | hydraUnivMon
deriving DecidableEq, Repr

def SketchAlgorithm.name : SketchAlgorithm → String
  | kll => "Kll" | univMon => "UnivMon" | ddSketch => "DDSketch" | hll => "Hll" | kmv => "Kmv"
  | cms => "Cms" | countSketch => "CountSketch" | cmsWithHeap => "CmsWithHeap"
  | countSketchWithHeap => "CountSketchWithHeap"
  | countSketchWithL2Norm => "CountSketchWithL2Norm"
  | cmsWithSpaceSaving => "CmsWithSpaceSaving"
  | countSketchWithSpaceSaving => "CountSketchWithSpaceSaving"
  | cmsFold => "CmsFold" | countSketchFold => "CountSketchFold" | hllHip => "HllHip"
  | kllDynamic => "KllDynamic" | spaceSaving => "SpaceSaving" | elastic => "Elastic"
  | coco => "Coco" | bloom => "Bloom" | setAggregator => "SetAggregator"
  | univMonTwoTier => "UnivMonTwoTier" | univMonQ => "UnivMonQ" | hydraCms => "HydraCms"
  | hydraCountSketch => "HydraCountSketch" | hydraKll => "HydraKll" | hydraHll => "HydraHll"
  | hydraUnivMon => "HydraUnivMon"

instance : Derived SketchAlgorithm := ⟨fun algorithm => .variant algorithm.name []⟩

inductive SketchParams
  | univMon (heapSize sketchRows sketchCols layers : Nat)
      (distinctFailureProbability : Option F64)
  | kll (k : Nat) (failureProbability : Option F64)
  | cms (width depth : Nat)
  | hll (precision : Nat) (relativeError : Option F64)
  | ddSketch (alpha : F64)
  | cmsWithHeap (width depth heapSize : Nat)
  | kmv (k : Nat) (relativeError : Option F64)
  | countSketch (width depth : Nat)
  | countSketchWithHeap (width depth heapSize : Nat)
deriving DecidableEq, Repr

-- The written-out `PartialEq` skips what a sketch was sized for; `Debug` is derived and prints it.
instance : Derived SketchParams := ⟨fun params => match params with
  | .univMon heapSize sketchRows sketchCols layers distinctFailureProbability =>
    .record "UnivMon" [("heap_size", datum heapSize), ("sketch_rows", datum sketchRows),
      ("sketch_cols", datum sketchCols), ("layers", datum layers),
      ("distinct_failure_probability", .unseen (datum distinctFailureProbability))]
  | .kll k failureProbability =>
    .record "Kll" [("k", datum k), ("failure_probability", .unseen (datum failureProbability))]
  | .cms width depth => .record "Cms" [("width", datum width), ("depth", datum depth)]
  | .hll precision relativeError =>
    .record "Hll" [("precision", datum precision), ("relative_error", .unseen (datum relativeError))]
  | .ddSketch alpha => .record "DDSketch" [("alpha", datum alpha)]
  | .cmsWithHeap width depth heapSize =>
    .record "CmsWithHeap" [("width", datum width), ("depth", datum depth),
      ("heap_size", datum heapSize)]
  | .kmv k relativeError =>
    .record "Kmv" [("k", datum k), ("relative_error", .unseen (datum relativeError))]
  | .countSketch width depth =>
    .record "CountSketch" [("width", datum width), ("depth", datum depth)]
  | .countSketchWithHeap width depth heapSize =>
    .record "CountSketchWithHeap" [("width", datum width), ("depth", datum depth),
      ("heap_size", datum heapSize)]⟩

/-- The algorithm each kind of parameters belongs to. -/
def SketchParams.algorithm : SketchParams → SketchAlgorithm
  | univMon .. => .univMon
  | kll .. => .kll
  | cms .. => .cms
  | hll .. => .hll
  | ddSketch .. => .ddSketch
  | cmsWithHeap .. => .cmsWithHeap
  | kmv .. => .kmv
  | countSketch .. => .countSketch
  | countSketchWithHeap .. => .countSketchWithHeap

/-- A committed sketch: `SketchKind::new` refuses parameters of another algorithm. -/
structure SketchKind where
  algorithm : SketchAlgorithm
  params : SketchParams
  matching : params.algorithm = algorithm
deriving DecidableEq

instance : Derived SketchKind := ⟨fun kind =>
  .record "SketchKind" [("algorithm", datum kind.algorithm), ("params", datum kind.params)]⟩

/-! ### Other summary families -/

inductive SamplingKind
  | reservoir
deriving DecidableEq, Repr

instance : Derived SamplingKind := ⟨fun _ => .variant "Reservoir" []⟩

inductive SamplingParams
  | reservoir (size : Nat)
deriving DecidableEq, Repr

instance : Derived SamplingParams := ⟨fun | .reservoir size => .record "Reservoir" [("size", datum size)]⟩

inductive WaveletKind
  | haar
deriving DecidableEq, Repr

instance : Derived WaveletKind := ⟨fun _ => .variant "Haar" []⟩

inductive WaveletParams
  | haar (coefficients : Nat)
deriving DecidableEq, Repr

instance : Derived WaveletParams :=
  ⟨fun | .haar coefficients => .record "Haar" [("coefficients", datum coefficients)]⟩

inductive StatModelKind
  | parametric
deriving DecidableEq, Repr

instance : Derived StatModelKind := ⟨fun _ => .variant "Parametric" []⟩

inductive StatModelParams
  | parametric (family : String)
deriving DecidableEq, Repr

instance : Derived StatModelParams :=
  ⟨fun | .parametric family => .record "Parametric" [("family", datum family)]⟩

/-! ### Grouping -/

inductive HydraKind
  | hydraKll | hydraCms | hydraCountSketch
deriving DecidableEq, Repr

def HydraKind.name : HydraKind → String
  | hydraKll => "HydraKll" | hydraCms => "HydraCms" | hydraCountSketch => "HydraCountSketch"

instance : Derived HydraKind := ⟨fun kind => .variant kind.name []⟩

inductive HydraParams
  | hydraKll (k sharedBuckets : Nat)
  | hydraCms (width depth sharedRows sharedColumns : Nat)
  | hydraCountSketch (width depth sharedRows sharedColumns : Nat)
deriving DecidableEq, Repr

instance : Derived HydraParams := ⟨fun params => match params with
  | .hydraKll k sharedBuckets =>
    .record "HydraKll" [("k", datum k), ("shared_buckets", datum sharedBuckets)]
  | .hydraCms width depth sharedRows sharedColumns =>
    .record "HydraCms" [("width", datum width), ("depth", datum depth),
      ("shared_rows", datum sharedRows), ("shared_columns", datum sharedColumns)]
  | .hydraCountSketch width depth sharedRows sharedColumns =>
    .record "HydraCountSketch" [("width", datum width), ("depth", datum depth),
      ("shared_rows", datum sharedRows), ("shared_columns", datum sharedColumns)]⟩

inductive GroupingStrategy
  | perSubpopulationInstance
  | sharedMultiSubpopulation (kind : HydraKind) (params : HydraParams)
deriving DecidableEq, Repr

instance : Derived GroupingStrategy := ⟨fun grouping => match grouping with
  | .perSubpopulationInstance => .variant "PerSubpopulationInstance" []
  | .sharedMultiSubpopulation kind params =>
    .record "SharedMultiSubpopulation" [("kind", datum kind), ("params", datum params)]⟩

/-! ### Fields and schemas -/

/-- One column: name, type, nullability and an optional table qualifier. -/
structure Field (T : Type) where
  name : String
  dtype : T
  nullable : Bool
  table : Option String

def Field.toDatum {T : Type} (dtype : T → Datum) (field : Field T) : Datum :=
  .record "Field" [("name", datum field.name), ("dtype", dtype field.dtype),
    ("nullable", datum field.nullable), ("table", datum field.table)]

/-- Plain value types. -/
inductive DataType
  | null | int64 | float64 | utf8 | bool | timestamp | interval | date
  | list (element : Field DataType)
  | struct (fields : List (Field DataType))
  | map (key value : DataType) (valueNullable : Bool)

mutual
def DataType.toDatum : DataType → Datum
  | .null => .variant "Null" []
  | .int64 => .variant "Int64" []
  | .float64 => .variant "Float64" []
  | .utf8 => .variant "Utf8" []
  | .bool => .variant "Bool" []
  | .timestamp => .variant "Timestamp" []
  | .interval => .variant "Interval" []
  | .date => .variant "Date" []
  | .list element => .record "List" [("element", DataType.ofField element)]
  | .struct fields => .record "Struct" [("fields", .node (.list "") (DataType.ofFields fields))]
  | .map key value valueNullable =>
    .record "Map" [("key", key.toDatum), ("value", value.toDatum),
      ("value_nullable", datum valueNullable)]

def DataType.ofField : Field DataType → Datum
  | ⟨name, dtype, nullable, table⟩ =>
    .record "Field" [("name", datum name), ("dtype", dtype.toDatum),
      ("nullable", datum nullable), ("table", datum table)]

def DataType.ofFields : List (Field DataType) → List Datum
  | [] => []
  | field :: rest => DataType.ofField field :: DataType.ofFields rest
end

instance : Derived DataType := ⟨DataType.toDatum⟩

/-- What a schema field carries: a readable value, or a summary's state. -/
inductive FieldDataType
  | plain (dtype : DataType)
  | exactAggregate (kind : ExactKind) (params : ExactParams)
  | sketch (kind : SketchKind) (grouping : GroupingStrategy)
  | summarySample (kind : SamplingKind) (params : SamplingParams)
  | wavelet (kind : WaveletKind) (params : WaveletParams)
  | statModel (kind : StatModelKind) (params : StatModelParams)

instance : Derived FieldDataType := ⟨fun dtype => match dtype with
  | .plain dtype => .variant "Plain" [datum dtype]
  | .exactAggregate kind params => .variant "ExactAggregate" [datum kind, datum params]
  | .sketch kind grouping => .variant "Sketch" [datum kind, datum grouping]
  | .summarySample kind params => .variant "SummarySample" [datum kind, datum params]
  | .wavelet kind params => .variant "Wavelet" [datum kind, datum params]
  | .statModel kind params => .variant "StatModel" [datum kind, datum params]⟩

def FieldDataType.isPlain : FieldDataType → Bool
  | .plain _ => true
  | _ => false

/-- A field of an operator's output. -/
abbrev SchemaField := Field FieldDataType

instance : Derived SchemaField := ⟨Field.toDatum datum⟩

namespace Field

/-- An unqualified field carrying a readable value. -/
def ofPlain (name : String) (dtype : DataType) (nullable : Bool) : SchemaField :=
  { name, dtype := .plain dtype, nullable, table := none }

def plainDtype (field : SchemaField) : Option DataType :=
  match field.dtype with
  | .plain dtype => some dtype
  | _ => none

def isPlain (field : SchemaField) : Bool := field.dtype.isPlain

end Field

/-- The columns of an edge, its time axis, and the column sets known to identify a row. -/
structure Schema where
  fields : List SchemaField
  timeIndex : Option ColumnId
  uniqueKeys : List (List ColumnId)
  closed : Bool

instance : Derived Schema := ⟨fun schema =>
  .record "Schema" [("fields", datum schema.fields), ("time_index", datum schema.timeIndex),
    ("unique_keys", datum schema.uniqueKeys), ("closed", datum schema.closed)]⟩

def promqlSeriesIdentity : String := "$promql_series_identity"

namespace Schema

def hasPromqlSeriesIdentity (schema : Schema) : Bool :=
  schema.closed && schema.fields.any fun field =>
    field.name == promqlSeriesIdentity && same field.dtype (.plain .utf8)
      && !field.nullable && field.table.isNone

def new (fields : List SchemaField) : Schema :=
  { fields, timeIndex := none, uniqueKeys := [], closed := false }

/-- The output of a summary-planning node. -/
def lifted (fields : List SchemaField) (timeIndex : Option ColumnId) : Schema :=
  { fields, timeIndex, uniqueKeys := [], closed := true }

def isAllPlain (schema : Schema) : Bool := schema.fields.all Field.isPlain

def columnId (schema : Schema) (name : String) : Option ColumnId :=
  schema.fields.findIdx? fun field => field.name == name

end Schema
end AsapPlanner.Ir
