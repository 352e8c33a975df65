import AsapPlanner.Ir.OperatorProperties
import Mathlib.Data.List.Perm.Basic

/-!
The operations a node performs: ordinary query operators, and ASAP operators that build, combine
and read summary states. Either can consume the other's output.
-/

namespace AsapPlanner.Ir
open Rust Traversal

/-! ### The vocabularies -/

/-- The ordinary query operators. -/
inductive NonASAPOp (C : Type)
  | scan (source : Source) (predicates : List (Predicate C)) (schema : Schema)
  | values (rows : List (List (ScalarExpr C))) (schema : Schema)
  | filter (pred : Predicate C) (child : C)
  | project (cols : List (ProjectItem C)) (qualifier : Option String) (child : C)
  | aggregate (reduction : Reduction) (measures : List AggIntent) (outputNames : List String)
      (filters : List (Option (Predicate C))) (having : Option (Predicate C)) (child : C)
  | join (kind : JoinKind) (pred : Predicate C) (left right : C)
  | setOp (kind : RelationalSetOpKind) (all : Bool) (left right : C)
  | concat (children : List C)
  | dedup (cols : List ColumnId) (child : C)
  | sort (keys : List (SortKey C)) (partitionBy : GroupKeys) (child : C)
  | limit (n : Option Nat) (offset : Nat) (partitionBy : GroupKeys) (child : C)
  | binaryOp (operator : BinaryOperator) (returnBool : Bool) (lhs rhs : C)
  | sqlWindowFunc (func : WindowFuncKind) (args : List (ScalarExpr C)) (partitionBy : GroupKeys)
      (orderBy : List (SortKey C)) (frame : Option WindowFrame) (outputName : String) (child : C)
  | timeRange (range : Duration) (kind : TimeRangeKind) (child : C)
  | timeShift (shift : TimeShift) (child : C)
  | promqlVectorFromScalar (expr : ScalarExpr C)
  | promqlRelabel (dst : String) (value : ScalarExpr C) (child : C)
  | promqlInfoEnrich (selector : List InfoMatcher) (child : C)
  | promqlSeriesSample («by» : GroupKeys) (kind : SampleKind) (child : C)
  | promqlSubquery (range : Duration) (resolution : Option Duration) (child : C)

/-- The summary operators. -/
inductive ASAPOp (C : Type)
  | summaryAgg (child : C) (family : FieldDataType) (input : SummaryUpdate)
      (reduction : Reduction) (grouping : GroupingStrategy) (filter : Option (Predicate C))
  | summaryEstimate (summaryInput : C) (query : SketchStatistic)
  | finalizeExactAccumulator (child : C)
  | maintainPopulation (child : C) (population : MaintainedPopulation)
  | evaluatePopulation (child : C) (evaluation : PopulationStatistic)
  | summaryMerge (children : List C) (newestTumblingWindows : Option Nat)
      (groupBy : Option (List ColumnId))
  | summaryTumblingWindowChain (child : C) (family : FieldDataType) (input : SummaryUpdate)
      (reduction : Reduction) (grouping : GroupingStrategy) (filter : Option (Predicate C))
      (tumblingWindowWidthMs tumblingWindowCount : Nat)
  | summarySubtract (left right : C)
  | summaryDelete (summaryInput : C) (key : ColumnId)
  | summaryJoin (outer inner : C) (key : ColumnId) (family : FieldDataType)
  | extension (child : C) (name : String)

inductive Operator (C : Type)
  | nonASAP (op : NonASAPOp C)
  | asap (op : ASAPOp C)

variable {C D E : Type}

/-! ### Ordinary operators -/

namespace NonASAPOp

/-- Every scalar expression this operator owns. -/
def scalarExprs : NonASAPOp C → List (ScalarExpr C)
  | scan _ predicates _ => predicates.map (·.expr)
  | values rows _ => rows.flatten
  | filter pred _ | join _ pred _ _ => [pred.expr]
  | project cols _ _ => cols.map (·.expr)
  | aggregate _ _ _ filters having _ => (filters.filterMap id ++ having.toList).map (·.expr)
  | sort keys _ _ => keys.map (·.expr)
  | sqlWindowFunc _ args _ orderBy _ _ _ => args ++ orderBy.map (·.expr)
  | promqlVectorFromScalar expr => [expr]
  | promqlRelabel _ value _ => [value]
  | setOp .. | concat _ | dedup .. | limit .. | binaryOp .. | timeRange .. | timeShift ..
  | promqlInfoEnrich .. | promqlSeriesSample .. | promqlSubquery .. => []

/-- The operator inputs, in field order. -/
def inputs : NonASAPOp C → List C
  | scan .. | values .. | promqlVectorFromScalar _ => []
  | filter _ child | project _ _ child | aggregate _ _ _ _ _ child | dedup _ child
  | sort _ _ child | limit _ _ _ child | sqlWindowFunc _ _ _ _ _ _ child | timeRange _ _ child
  | timeShift _ child | promqlRelabel _ _ child | promqlInfoEnrich _ child
  | promqlSeriesSample _ _ child | promqlSubquery _ _ child => [child]
  | join _ _ left right | setOp _ _ left right | binaryOp _ _ left right => [left, right]
  | concat children => children

def children (op : NonASAPOp C) : List C :=
  op.inputs ++ op.scalarExprs.flatMap ScalarExpr.operatorRefs

/-- The children in the order `map_children` visits them. -/
def walk : NonASAPOp C → Walk C NonASAPOp
  | scan source predicates schema =>
    .map (scan source · schema) (.list (predicates.map Predicate.walk))
  | values rows schema =>
    .map (values · schema) (.list (rows.map fun row => .list (row.map ScalarExpr.walk)))
  | promqlVectorFromScalar expr => .map promqlVectorFromScalar expr.walk
  | filter pred child => .map2 filter pred.walk (.one child)
  | project cols qualifier child =>
    .map2 (project · qualifier ·) (.list (cols.map ProjectItem.walk)) (.one child)
  | aggregate reduction measures outputNames filters having child =>
    .map3 (aggregate reduction measures outputNames)
      (.list (filters.map fun pred => .option (pred.map Predicate.walk)))
      (.option (having.map Predicate.walk)) (.one child)
  | join kind pred left right => .map3 (join kind) pred.walk (.one left) (.one right)
  | setOp kind all left right => .map2 (setOp kind all) (.one left) (.one right)
  | concat children => .map concat (.list (children.map .one))
  | dedup cols child => .map (dedup cols) (.one child)
  | sort keys partitionBy child =>
    .map2 (sort · partitionBy ·) (.list (keys.map SortKey.walk)) (.one child)
  | limit n offset partitionBy child => .map (limit n offset partitionBy) (.one child)
  | binaryOp operator returnBool lhs rhs =>
    .map2 (binaryOp operator returnBool) (.one lhs) (.one rhs)
  | sqlWindowFunc func args partitionBy orderBy frame outputName child =>
    .map3 (sqlWindowFunc func · partitionBy · frame outputName ·)
      (.list (args.map ScalarExpr.walk)) (.list (orderBy.map SortKey.walk)) (.one child)
  | timeRange range kind child => .map (timeRange range kind) (.one child)
  | timeShift shift child => .map (timeShift shift) (.one child)
  | promqlRelabel dst value child => .map2 (promqlRelabel dst) value.walk (.one child)
  | promqlInfoEnrich selector child => .map (promqlInfoEnrich selector) (.one child)
  | promqlSeriesSample group kind child => .map (promqlSeriesSample group kind) (.one child)
  | promqlSubquery range resolution child => .map (promqlSubquery range resolution) (.one child)

def kindName : NonASAPOp C → String
  | scan .. => "Scan" | values .. => "Values" | filter .. => "Filter" | project .. => "Project"
  | aggregate .. => "Aggregate" | join .. => "Join" | setOp .. => "SetOp" | concat _ => "Concat"
  | dedup .. => "Dedup" | sort .. => "Sort" | limit .. => "Limit" | binaryOp .. => "BinaryOp"
  | sqlWindowFunc .. => "SQLWindowFunc" | timeRange .. => "TimeRange"
  | timeShift .. => "TimeShift" | promqlVectorFromScalar _ => "PromqlVectorFromScalar"
  | promqlRelabel .. => "PromqlRelabel" | promqlInfoEnrich .. => "PromqlInfoEnrich"
  | promqlSeriesSample .. => "PromqlSeriesSample" | promqlSubquery .. => "PromqlSubquery"

def toDatum [Derived C] : NonASAPOp C → Datum
  | scan source predicates schema =>
    .record "Scan" [("source", datum source), ("predicates", datum predicates),
      ("schema", datum schema)]
  | values rows schema => .record "Values" [("rows", datum rows), ("schema", datum schema)]
  | filter pred child => .record "Filter" [("pred", datum pred), ("child", datum child)]
  | project cols qualifier child =>
    .record "Project" [("cols", datum cols), ("qualifier", datum qualifier),
      ("child", datum child)]
  | aggregate reduction measures outputNames filters having child =>
    .record "Aggregate" [("reduction", datum reduction), ("measures", datum measures),
      ("output_names", datum outputNames), ("filters", datum filters), ("having", datum having),
      ("child", datum child)]
  | join kind pred left right =>
    .record "Join" [("kind", datum kind), ("pred", datum pred), ("left", datum left),
      ("right", datum right)]
  | setOp kind all left right =>
    .record "SetOp" [("kind", datum kind), ("all", datum all), ("left", datum left),
      ("right", datum right)]
  | concat children => .record "Concat" [("children", datum children)]
  | dedup cols child => .record "Dedup" [("cols", datum cols), ("child", datum child)]
  | sort keys partitionBy child =>
    .record "Sort" [("keys", datum keys), ("partition_by", datum partitionBy),
      ("child", datum child)]
  | limit n offset partitionBy child =>
    .record "Limit" [("n", datum n), ("offset", datum offset), ("partition_by", datum partitionBy),
      ("child", datum child)]
  | binaryOp operator returnBool lhs rhs =>
    .record "BinaryOp" [("operator", datum operator), ("return_bool", datum returnBool),
      ("lhs", datum lhs), ("rhs", datum rhs)]
  | sqlWindowFunc func args partitionBy orderBy frame outputName child =>
    .record "SQLWindowFunc" [("func", datum func), ("args", datum args),
      ("partition_by", datum partitionBy), ("order_by", datum orderBy), ("frame", datum frame),
      ("output_name", datum outputName), ("child", datum child)]
  | timeRange range kind child =>
    .record "TimeRange" [("range", datum range), ("kind", datum kind), ("child", datum child)]
  | timeShift shift child => .record "TimeShift" [("shift", datum shift), ("child", datum child)]
  | promqlVectorFromScalar expr => .variant "PromqlVectorFromScalar" [datum expr]
  | promqlRelabel dst value child =>
    .record "PromqlRelabel" [("dst", datum dst), ("value", datum value), ("child", datum child)]
  | promqlInfoEnrich selector child =>
    .record "PromqlInfoEnrich" [("selector", datum selector), ("child", datum child)]
  | promqlSeriesSample group kind child =>
    .record "PromqlSeriesSample" [("by", datum group), ("kind", datum kind),
      ("child", datum child)]
  | promqlSubquery range resolution child =>
    .record "PromqlSubquery" [("range", datum range), ("resolution", datum resolution),
      ("child", datum child)]

end NonASAPOp

/-! ### Summary operators -/

namespace ASAPOp

def children : ASAPOp C → List C
  | summaryAgg child _ _ _ _ filter | summaryTumblingWindowChain child _ _ _ _ filter _ _ =>
    child :: filter.toList.flatMap (·.expr.operatorRefs)
  | finalizeExactAccumulator child | maintainPopulation child _ | evaluatePopulation child _
  | extension child _ => [child]
  | summaryEstimate summaryInput _ | summaryDelete summaryInput _ => [summaryInput]
  | summarySubtract left right => [left, right]
  | summaryJoin outer inner _ _ => [outer, inner]
  | summaryMerge children _ _ => children

/-- The children in the order `map_children` visits them. -/
def walk : ASAPOp C → Walk C ASAPOp
  | summaryAgg child family input reduction grouping filter =>
    .map2 (summaryAgg · family input reduction grouping ·) (.one child)
      (.option (filter.map Predicate.walk))
  | summaryTumblingWindowChain child family input reduction grouping filter width count =>
    .map2 (summaryTumblingWindowChain · family input reduction grouping · width count) (.one child)
      (.option (filter.map Predicate.walk))
  | summaryEstimate summaryInput query => .map (summaryEstimate · query) (.one summaryInput)
  | finalizeExactAccumulator child => .map finalizeExactAccumulator (.one child)
  | maintainPopulation child population => .map (maintainPopulation · population) (.one child)
  | evaluatePopulation child evaluation => .map (evaluatePopulation · evaluation) (.one child)
  | summaryMerge children newest groupBy =>
    .map (summaryMerge · newest groupBy) (.list (children.map .one))
  | summarySubtract left right => .map2 summarySubtract (.one left) (.one right)
  | summaryDelete summaryInput key => .map (summaryDelete · key) (.one summaryInput)
  | summaryJoin outer inner key family =>
    .map2 (summaryJoin · · key family) (.one outer) (.one inner)
  | extension child name => .map (extension · name) (.one child)

def kindName : ASAPOp C → String
  | summaryAgg .. => "SummaryAgg" | summaryEstimate .. => "SummaryEstimate"
  | finalizeExactAccumulator _ => "FinalizeExactAccumulator"
  | maintainPopulation .. => "MaintainPopulation" | evaluatePopulation .. => "EvaluatePopulation"
  | summaryMerge .. => "SummaryMerge" | summaryTumblingWindowChain .. => "SummaryTumblingWindowChain"
  | summarySubtract .. => "SummarySubtract" | summaryDelete .. => "SummaryDelete"
  | summaryJoin .. => "SummaryJoin" | extension .. => "Extension"

/-- The node an operator holds beside its children: a population's own input. -/
def held : ASAPOp C → Option NodeRef
  | maintainPopulation _ population => population.held
  | _ => none

def toDatum [Derived C] (heldDatum : NodeRef → Datum) : ASAPOp C → Datum
  | summaryAgg child family input reduction grouping filter =>
    .record "SummaryAgg" [("child", datum child), ("family", datum family), ("input", datum input),
      ("reduction", datum reduction), ("grouping", datum grouping), ("filter", datum filter)]
  | summaryEstimate summaryInput query =>
    .record "SummaryEstimate" [("summary_input", datum summaryInput), ("query", datum query)]
  | finalizeExactAccumulator child =>
    .record "FinalizeExactAccumulator" [("child", datum child)]
  | maintainPopulation child population =>
    .record "MaintainPopulation" [("child", datum child),
      ("population", population.toDatum heldDatum)]
  | evaluatePopulation child evaluation =>
    .record "EvaluatePopulation" [("child", datum child), ("evaluation", datum evaluation)]
  | summaryMerge children newest groupBy =>
    .record "SummaryMerge" [("children", datum children),
      ("newest_tumbling_windows", datum newest), ("group_by", datum groupBy)]
  | summaryTumblingWindowChain child family input reduction grouping filter width count =>
    .record "SummaryTumblingWindowChain" [("child", datum child), ("family", datum family),
      ("input", datum input), ("reduction", datum reduction), ("grouping", datum grouping),
      ("filter", datum filter), ("tumbling_window_width_ms", datum width),
      ("tumbling_window_count", datum count)]
  | summarySubtract left right =>
    .record "SummarySubtract" [("left", datum left), ("right", datum right)]
  | summaryDelete summaryInput key =>
    .record "SummaryDelete" [("summary_input", datum summaryInput), ("key", datum key)]
  | summaryJoin outer inner key family =>
    .record "SummaryJoin" [("outer", datum outer), ("inner", datum inner), ("key", datum key),
      ("family", datum family)]
  | extension child name => .record "Extension" [("child", datum child), ("name", datum name)]

end ASAPOp

/-! ### Operators -/

namespace Operator

def children : Operator C → List C
  | nonASAP op => op.children
  | asap op => op.children

def walk : Operator C → Walk C Operator
  | nonASAP op => .map nonASAP op.walk
  | asap op => .map asap op.walk

def mapChildren [Inhabited D] (op : Operator C) (f : C → D) : Operator D := op.walk.image f

def kindName : Operator C → String
  | nonASAP op => op.kindName
  | asap op => op.kindName

def held : Operator C → Option NodeRef
  | nonASAP _ => none
  | asap op => op.held

def toDatum [Derived C] (heldDatum : NodeRef → Datum) : Operator C → Datum
  | nonASAP op => .variant "NonASAP" [op.toDatum]
  | asap op => .variant "ASAP" [op.toDatum heldDatum]

end Operator

/-! ### Operators over other references -/

section Image
variable [Inhabited D] [Inhabited E] (f : C → D) (g : D → E)

@[simp] theorem Predicate.walk_image (pred : Predicate C) :
    pred.walk.image f = ⟨pred.expr.walk.image f⟩ := rfl

@[simp] theorem ProjectItem.walk_image (item : ProjectItem C) :
    item.walk.image f = ⟨item.alias, item.expr.walk.image f⟩ := rfl

@[simp] theorem SortKey.walk_image (key : SortKey C) :
    key.walk.image f = ⟨key.expr.walk.image f, key.ascending, key.nullsFirst⟩ := rfl

@[simp] theorem Predicate.refs_walk (pred : Predicate C) : pred.walk.refs = pred.expr.walk.refs :=
  rfl

@[simp] theorem ProjectItem.refs_walk (item : ProjectItem C) :
    item.walk.refs = item.expr.walk.refs := rfl

@[simp] theorem SortKey.refs_walk (key : SortKey C) : key.walk.refs = key.expr.walk.refs := rfl

namespace NonASAPOp

theorem scalarExprs_image (op : NonASAPOp C) :
    (op.walk.image f).scalarExprs = op.scalarExprs.map (·.walk.image f) := by
  cases op with
  | aggregate reduction measures outputNames filters having child =>
    cases having <;> simp [walk, scalarExprs, Function.comp_def, List.map_filterMap]
  | _ => simp [walk, scalarExprs, Function.comp_def, List.map_flatten]

theorem inputs_image (op : NonASAPOp C) : (op.walk.image f).inputs = op.inputs.map f := by
  cases op <;> simp [walk, inputs, Function.comp_def]

theorem children_image (op : NonASAPOp C) : (op.walk.image f).children = op.children.map f := by
  simp [children, inputs_image, scalarExprs_image, List.flatMap_map, List.map_flatMap,
    ScalarExpr.operatorRefs_image]

theorem image_image (op : NonASAPOp C) :
    (op.walk.image f).walk.image g = op.walk.image (g ∘ f) := by
  cases op <;> simp [walk, Function.comp_def, ScalarExpr.image_image]

theorem flatMap_optional {X Y : Type} (f : X → List Y) (items : List (Option X)) :
    (items.flatMap fun item => item.elim [] f) = (items.filterMap id).flatMap f := by
  induction items with
  | nil => rfl
  | cons item rest ih =>
    cases item with
    | none => simpa using ih
    | some item => simpa using ih

theorem refs_walk (op : NonASAPOp C) :
    op.walk.refs = op.scalarExprs.flatMap (·.walk.refs) ++ op.inputs := by
  cases op with
  | values rows schema =>
    simp only [walk, scalarExprs, inputs, Walk.refs_map, Walk.refs_list, List.flatMap_map]
    rw [List.append_nil, ← List.flatMap_id, List.flatMap_assoc]
    rfl
  | aggregate reduction measures outputNames filters having child =>
    have each := flatMap_optional (fun pred : Predicate C => pred.expr.walk.refs) filters
    cases having <;> simpa [walk, scalarExprs, inputs, List.flatMap_map, Function.comp_def] using each
  | _ => simp [walk, scalarExprs, inputs, List.flatMap_map]

theorem refs_walk_perm (op : NonASAPOp C) : op.walk.refs.Perm op.children := by
  rw [refs_walk, children]
  have read : (op.scalarExprs.flatMap (·.walk.refs)).Perm (op.scalarExprs.flatMap ScalarExpr.operatorRefs) :=
    List.Perm.flatMap_left _ fun expr _ => expr.refs_walk_perm
  exact List.perm_append_comm.trans (read.append_left op.inputs)

theorem mem_refs_walk {c : C} (op : NonASAPOp C) : c ∈ op.walk.refs ↔ c ∈ op.children :=
  op.refs_walk_perm.mem_iff

end NonASAPOp

namespace ASAPOp

theorem children_image (op : ASAPOp C) : (op.walk.image f).children = op.children.map f := by
  cases op with
  | summaryAgg child family input reduction grouping filter
  | summaryTumblingWindowChain child family input reduction grouping filter =>
    cases filter <;> simp [walk, children, ScalarExpr.operatorRefs_image]
  | _ => simp [walk, children, Function.comp_def]

theorem image_image (op : ASAPOp C) : (op.walk.image f).walk.image g = op.walk.image (g ∘ f) := by
  cases op <;> simp [walk, Function.comp_def, ScalarExpr.image_image]

theorem refs_walk_perm (op : ASAPOp C) : op.walk.refs.Perm op.children := by
  cases op with
  | summaryAgg child family input reduction grouping filter
  | summaryTumblingWindowChain child family input reduction grouping filter =>
    cases filter with
    | none => exact .refl _
    | some filter => simpa [walk, children] using filter.expr.refs_walk_perm
  | _ => simp [walk, children, List.flatMap_map]

theorem mem_refs_walk {c : C} (op : ASAPOp C) : c ∈ op.walk.refs ↔ c ∈ op.children :=
  op.refs_walk_perm.mem_iff

theorem held_image (op : ASAPOp C) : (op.walk.image f).held = op.held := by
  cases op <;> simp [walk, held]

end ASAPOp

namespace Operator

theorem children_mapChildren (op : Operator C) : (op.mapChildren f).children = op.children.map f := by
  cases op with
  | nonASAP op => exact NonASAPOp.children_image f op
  | asap op => exact ASAPOp.children_image f op

theorem mapChildren_mapChildren (op : Operator C) :
    (op.mapChildren f).mapChildren g = op.mapChildren (g ∘ f) := by
  cases op with
  | nonASAP op => exact congrArg nonASAP (NonASAPOp.image_image f g op)
  | asap op => exact congrArg asap (ASAPOp.image_image f g op)

theorem refs_walk_perm (op : Operator C) : op.walk.refs.Perm op.children := by
  cases op with
  | nonASAP op => exact NonASAPOp.refs_walk_perm op
  | asap op => exact ASAPOp.refs_walk_perm op

theorem mem_refs_walk {c : C} (op : Operator C) : c ∈ op.walk.refs ↔ c ∈ op.children :=
  op.refs_walk_perm.mem_iff

theorem held_mapChildren (op : Operator C) : (op.mapChildren f).held = op.held := by
  cases op with
  | nonASAP op => rfl
  | asap op => exact ASAPOp.held_image f op

end Operator

end Image

/-! ### What a rebuild holds -/

section Built
open Walk
variable [Inhabited D]

theorem Predicate.lists_refs (pred : Predicate C) :
    pred.walk.Lists fun pred : Predicate D => pred.expr.walk.refs :=
  pred.expr.lists_refs.map fun _ => rfl

theorem ProjectItem.lists_refs (item : ProjectItem C) :
    item.walk.Lists fun item : ProjectItem D => item.expr.walk.refs :=
  item.expr.lists_refs.map fun _ => rfl

theorem SortKey.lists_refs (key : SortKey C) :
    key.walk.Lists fun key : SortKey D => key.expr.walk.refs :=
  key.expr.lists_refs.map fun _ => rfl

theorem lists_child (child : C) : (Walk.one child).Lists fun d : D => [d] := lists_one fun _ => rfl

theorem lists_mapped {X : Type} {Y : Type → Type} {items : List X} {walk : X → Walk C Y}
    {refsOf : Y D → List D} (each : ∀ item, (walk item).Lists refsOf) :
    (Walk.list (items.map walk)).Lists fun images => images.flatMap refsOf := by
  apply Lists.list
  intro image member
  obtain ⟨item, _, same⟩ := List.mem_map.mp member
  exact same ▸ each item

theorem lists_optional {X : Type} {Y : Type → Type} {item : Option X} {walk : X → Walk C Y}
    {refsOf : Y D → List D} (each : ∀ item, (walk item).Lists refsOf) :
    (Walk.option (item.map walk)).Lists fun image => image.elim [] refsOf := by
  apply Lists.option
  intro image member
  obtain ⟨item, _, same⟩ := Option.map_eq_some_iff.mp member
  exact same ▸ each item

theorem NonASAPOp.lists_refs (op : NonASAPOp C) : op.walk.Lists fun op : NonASAPOp D => op.walk.refs := by
  cases op with
  | scan source predicates schema =>
    refine Lists.map (g := (scan source · schema)) (lists_mapped Predicate.lists_refs) fun preds => ?_
    simp [walk, List.flatMap_map]
  | values rows schema =>
    refine Lists.map (g := (values · schema))
      (lists_mapped fun row : List (ScalarExpr C) => lists_mapped fun item : ScalarExpr C => item.lists_refs) fun rows => ?_
    simp [walk, List.flatMap_map]
  | promqlVectorFromScalar expr => exact expr.lists_refs.map fun _ => rfl
  | filter pred child => exact pred.lists_refs.map2 (lists_child child) fun _ _ => rfl
  | project cols qualifier child =>
    refine Lists.map2 (g := (project · qualifier ·)) (lists_mapped ProjectItem.lists_refs)
      (lists_child child) fun cols child => ?_
    simp [walk, List.flatMap_map]
  | aggregate reduction measures outputNames filters having child =>
    refine (lists_mapped fun pred => lists_optional Predicate.lists_refs).map3
      (lists_optional Predicate.lists_refs) (lists_child child) fun filters having child => ?_
    simp [walk, List.flatMap_map, Function.comp_def]
  | join kind pred left right =>
    exact pred.lists_refs.map3 (lists_child left) (lists_child right) fun _ _ _ => rfl
  | setOp kind all left right | binaryOp operator returnBool left right =>
    exact (lists_child left).map2 (lists_child right) fun _ _ => rfl
  | concat children =>
    refine (lists_mapped lists_child).map fun children => ?_
    simp [walk, List.flatMap_map]
  | sort keys partitionBy child =>
    refine Lists.map2 (g := (sort · partitionBy ·)) (lists_mapped SortKey.lists_refs)
      (lists_child child) fun keys child => ?_
    simp [walk, List.flatMap_map]
  | sqlWindowFunc func args partitionBy orderBy frame outputName child =>
    refine Lists.map3 (g := (sqlWindowFunc func · partitionBy · frame outputName ·))
      (lists_mapped ScalarExpr.lists_refs) (lists_mapped SortKey.lists_refs) (lists_child child)
      fun args keys child => ?_
    simp [walk, List.flatMap_map]
  | promqlRelabel dst value child => exact value.lists_refs.map2 (lists_child child) fun _ _ => rfl
  | dedup _ child | limit _ _ _ child | timeRange _ _ child | timeShift _ child
  | promqlInfoEnrich _ child | promqlSeriesSample _ _ child | promqlSubquery _ _ child =>
    exact (lists_child child).map fun _ => rfl

theorem ASAPOp.lists_refs (op : ASAPOp C) : op.walk.Lists fun op : ASAPOp D => op.walk.refs := by
  cases op with
  | summaryAgg child family input reduction grouping filter =>
    refine Lists.map2 (g := (summaryAgg · family input reduction grouping ·)) (lists_child child)
      (lists_optional Predicate.lists_refs) fun child filter => ?_
    simp [walk, Function.comp_def]
  | summaryTumblingWindowChain child family input reduction grouping filter width count =>
    refine Lists.map2 (g := (summaryTumblingWindowChain · family input reduction grouping · width count))
      (lists_child child) (lists_optional Predicate.lists_refs) fun child filter => ?_
    simp [walk, Function.comp_def]
  | summaryMerge children newest groupBy =>
    refine Lists.map (g := (summaryMerge · newest groupBy)) (lists_mapped lists_child) fun children => ?_
    simp [walk, List.flatMap_map]
  | summarySubtract left right => exact (lists_child left).map2 (lists_child right) fun _ _ => rfl
  | summaryJoin outer inner key family =>
    exact Lists.map2 (g := (summaryJoin · · key family)) (lists_child outer) (lists_child inner)
      fun _ _ => rfl
  | summaryEstimate child _ | finalizeExactAccumulator child | maintainPopulation child _
  | evaluatePopulation child _ | summaryDelete child _ | extension child _ =>
    intro images same
    match images, same with
    | [_], _ => rfl

theorem Operator.lists_refs (op : Operator C) : op.walk.Lists fun op : Operator D => op.walk.refs := by
  cases op with
  | nonASAP op => exact op.lists_refs.map fun _ => rfl
  | asap op => exact op.lists_refs.map fun _ => rfl

theorem Operator.finds_children (op : Operator C) : op.walk.Finds (Operator.children (C := D)) :=
  op.lists_refs.finds fun op _ => op.mem_refs_walk

theorem Operator.held_build (op : Operator C) (images : List D) :
    (op.walk.build images).held = op.held := by
  cases op with
  | nonASAP op => rfl
  | asap op => cases op <;> rfl

end Built
end AsapPlanner.Ir
