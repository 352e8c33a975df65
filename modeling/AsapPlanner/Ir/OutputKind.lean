import AsapPlanner.Ir.Node

/-!
The output category of an operator over nodes already in the store, and the nodes and families a
summary state comes from.
-/

namespace AsapPlanner.Ir

/-! ### Summary states -/

def selectedFrom (node : OperatorNode) : Option NodeRef :=
  match node.nonAsap with
  | some (.filter _ child) => if node.resultKind = .state then some child else none
  | _ => none

namespace Dag

def producedState (dag : Dag) : ASAPOp NodeRef → Option FieldDataType
  | .summaryAgg _ family _ _ _ _ | .summaryTumblingWindowChain _ family _ _ _ _ _ _
  | .summaryJoin _ _ _ family => some family
  | .summaryMerge children _ _ => do
    let child ← children.head?
    let field ← (dag.node child).schema.fields.find? fun field => !field.isPlain
    some field.dtype
  | _ => none

/-! ### Output categories -/

/-- The category of the relational input a state was built from. -/
def sourceKind (dag : Dag) (ref : NodeRef) : OperatorResultKind :=
  match _selects : selectedFrom (dag.node ref) with
  | some states => sourceKind dag states
  | none =>
    match _op : (dag.node ref).operator with
    | .asap op =>
      match _inputs : op.children with
      | child :: _ => sourceKind dag child
      | [] => .relation
    | .nonASAP _ =>
      match (dag.node ref).resultKind with
      | .rangeVector => .instantVector
      | .state => .relation
      | other => other
termination_by ref
decreasing_by
  · apply dag.child_lt
    unfold selectedFrom OperatorNode.nonAsap at _selects
    unfold children OperatorNode.children
    split at _selects
    · rename_i pred child isFilter
      cases shape : (dag.node ref).operator with
      | asap op => simp [shape] at isFilter
      | nonASAP op =>
        rw [shape] at isFilter
        cases isFilter
        split at _selects
        · cases _selects
          simp [Operator.children, NonASAPOp.children, NonASAPOp.inputs]
        · cases _selects
    · cases _selects
  · apply dag.child_lt
    unfold children OperatorNode.children
    rw [_op, Operator.children, _inputs]
    exact List.mem_cons_self

/-- Whether a filter over `child` selects whole states: it reads plain columns only. -/
def selectsStates (dag : Dag) (child : NodeRef) (pred : Predicate NodeRef) : Bool :=
  (dag.node child).resultKind == .state
    && pred.expr.columnsReferenced.all fun column =>
      (dag.node child).schema.fields[column]?.any (·.isPlain)

def readable : OperatorResultKind → OperatorResultKind
  | .state => .relation
  | other => other

def nonAsapOutputKind (dag : Dag) (op : NonASAPOp NodeRef) : OperatorResultKind :=
  let kind child := (dag.node child).resultKind
  match op with
  | .scan (.timeSeries _) .. => .instantVector
  | .scan (.table _) .. => .relation
  | .values .. | .sqlWindowFunc .. => .relation
  | .timeRange _ rangeKind child =>
    if kind child = .relation then .relation
    else match rangeKind with
      | .instant => .instantVector
      | .range => .rangeVector
  | .promqlSubquery .. => .rangeVector
  | .promqlVectorFromScalar _ => .instantVector
  | .aggregate reduction _ _ _ _ child =>
    match reduction, kind child with
    | .perEntity, .rangeVector | _, .state => .instantVector
    | _, other => other
  | .project cols _ child =>
    let keepsState := cols.any fun item => match item.expr with
      | .column id => (dag.node child).schema.fields[id]?.any fun field => !field.isPlain
      | _ => false
    if keepsState then .state else readable (kind child)
  | .filter pred child => if dag.selectsStates child pred then .state else readable (kind child)
  | .dedup _ child | .sort _ _ child | .limit _ _ _ child | .timeShift _ child
  | .promqlRelabel _ _ child | .promqlInfoEnrich _ child | .promqlSeriesSample _ _ child
  | .join _ _ child _ | .setOp _ _ child _ | .binaryOp _ _ child _ => readable (kind child)
  | .concat children => match children with
    | [] => .relation
    | child :: _ => readable (kind child)

def asapOutputKind (dag : Dag) : ASAPOp NodeRef → OperatorResultKind
  | .summaryAgg .. | .summaryTumblingWindowChain .. | .maintainPopulation .. | .summaryMerge ..
  | .summarySubtract .. | .summaryDelete .. | .summaryJoin .. | .extension .. => .state
  | .summaryEstimate child _ | .finalizeExactAccumulator child | .evaluatePopulation child _ =>
    dag.sourceKind child

def outputKind (dag : Dag) : Operator NodeRef → OperatorResultKind
  | .nonASAP op => dag.nonAsapOutputKind op
  | .asap op => dag.asapOutputKind op

/-- A node over `operator` with the given schema; its output category is derived. -/
def withSchema (dag : Dag) (operator : Operator NodeRef) (schema : Schema) : OperatorNode :=
  { operator
    resultKind := dag.outputKind operator
    schema
    guarantee := none
    timing := none
    materialization := .notMaterialized }

end Dag
end AsapPlanner.Ir
