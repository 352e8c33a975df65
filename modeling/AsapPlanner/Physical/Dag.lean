import AsapPlanner.Timing.Placement
import AsapPlanner.Traversal.Search

/-!
The physical DAG: flattened operators with the data state of every node and edge, and the checks a
plan file has to pass.
-/

namespace AsapPlanner.Physical
open Rust Traversal Ir Timing

abbrev NodeId := Nat

inductive EdgeRole
  | input | left | right
  -- Read from inside one of the consumer's scalar expressions.
  | scalarRef
deriving DecidableEq, Repr

structure PhysicalASAPDAGNode where
  id : NodeId
  payload : Operator NodeId
  outputState : ExecutionDataState
  materialization : Materialization
  outputSchema : Schema
  guarantee : Option AccuracyGuarantee
  retentionMs : Option Nat

structure PhysicalASAPDAGEdge where
  producer : NodeId
  consumer : NodeId
  role : EdgeRole
  intermediateSchema : Schema
  dataState : ExecutionDataState

/-- `store` has the nodes the populations of payloads hold as their inputs. -/
structure PhysicalASAPDAG where
  nodes : List PhysicalASAPDAGNode
  edges : List PhysicalASAPDAGEdge
  roots : List NodeId
  scalarRoots : List (Nat × ScalarExpr NodeId)
  store : Dag
  stored : ∀ node ∈ nodes, ∀ held, node.payload.held = some held → held < store.size

inductive PhysicalASAPDAGValidationError
  | materializationTimingMismatch (node : NodeId) (timing : ExecutionTiming)
      (materialization : Materialization)
  | queryDependencyInIngestion (producer consumer : NodeId)
  | unexpectedRetention (node : NodeId)
  | duplicateNodeId (node : NodeId)
  | missingRoot (root : NodeId)
  | missingEdgeEndpoint (node : NodeId)
  | edgeSchemaMismatch (producer consumer : NodeId)
  | edgeDataStateMismatch (producer consumer : NodeId)
  | edgeRoleMismatch (consumer : NodeId)
  | noRoots
  | scalarRootPosition (position : Nat)
  | cycle
  | unreachableNode (node : NodeId)
  | summaryFamilySchemaMismatch (node : NodeId)
  | summaryGroupingMismatch (node : NodeId)
deriving DecidableEq, Repr

/-! ### Edges -/

section Roles
variable {C : Type}

def inputRoles : Operator C → List EdgeRole
  | .nonASAP op => match op with
    | .join .. | .setOp .. | .binaryOp .. => [.left, .right]
    | .concat children => List.replicate children.length .input
    | .scan .. | .values .. | .promqlVectorFromScalar _ => []
    | _ => [.input]
  | .asap op => match op with
    | .summarySubtract .. | .summaryJoin .. => [.left, .right]
    | .summaryMerge children _ _ => List.replicate children.length .input
    | _ => [.input]

/-- A node that scalar expressions read several times is one input. -/
def addScalarRef [DecidableEq C] (edges : List (C × EdgeRole)) (producer : C) :
    List (C × EdgeRole) :=
  if (producer, .scalarRef) ∈ edges then edges else edges ++ [(producer, .scalarRef)]

/-- Each input of an operator with its role: the operator inputs, then what scalar expressions
read. -/
def edgeRoles [DecidableEq C] (operator : Operator C) : List (C × EdgeRole) :=
  let roles := inputRoles operator
  let direct := operator.children.take roles.length
  let scalarRefs := operator.children.drop roles.length
  scalarRefs.foldl addScalarRef (direct.zip roles)

end Roles

/-! ### Nodes -/

def isMaterializedView (materialization : Materialization) : Bool :=
  match materialization with
  | .matAtIngestion _ | .matAtQueryKeptAcrossEvaluations _ => true
  | _ => false

/-- A `Scan` run at query time, which carries how long its source's rows are kept for it. -/
def isQueryTimeScan (node : PhysicalASAPDAGNode) : Bool :=
  match node.payload with
  | .nonASAP (.scan ..) => node.outputState.timing == .queryTime
  | _ => false

abbrev Check := Except PhysicalASAPDAGValidationError Unit

def checkSummary (node : PhysicalASAPDAGNode) : Check :=
  match node.payload with
  | .asap (.summaryAgg _ family _ _ grouping _) => do
    node.outputSchema.fields.forM fun field =>
      match field.dtype with
      | .sketch _ schemaGrouping =>
        if same schemaGrouping grouping then .ok () else .error (.summaryGroupingMismatch node.id)
      | _ => .ok ()
    if node.outputSchema.fields.any fun field => same field.dtype family then .ok ()
    else .error (.summaryFamilySchemaMismatch node.id)
  | _ => .ok ()

def checkNode (node : PhysicalASAPDAGNode) : Check :=
  if (isMaterializationPoint node.payload ∨ node.materialization ≠ .notMaterialized)
      ∧ node.materialization.timing ≠ node.outputState.timing then
    .error (.materializationTimingMismatch node.id node.outputState.timing node.materialization)
  else if node.retentionMs.isSome ∧ isMaterializedView node.materialization = false
      ∧ isQueryTimeScan node = false then
    .error (.unexpectedRetention node.id)
  else checkSummary node

namespace PhysicalASAPDAG
variable (dag : PhysicalASAPDAG)

def ids : List NodeId := dag.nodes.map (·.id)

def byId (id : NodeId) : Option PhysicalASAPDAGNode := dag.nodes.find? (·.id == id)

def rootIds : List NodeId := dag.roots ++ dag.scalarRoots.flatMap fun root => root.2.operatorRefs

def children (id : NodeId) : List NodeId :=
  (dag.edges.filter (·.consumer == id)).map (·.producer)

def graph : Graph NodeId where
  reads := dag.children
  inner := dag.edges.map (·.consumer)
  covers id _ reads := by
    obtain ⟨edge, member, _⟩ := List.mem_map.mp reads
    obtain ⟨present, at'⟩ := List.mem_filter.mp member
    exact List.mem_map.mpr ⟨edge, present, eq_of_beq at'⟩

/-! ### Validation -/

def checkNodes : Check := do
  let _ ← dag.nodes.foldlM (fun seen node => do
    if node.id ∈ seen then throw (.duplicateNodeId node.id)
    checkNode node
    pure (node.id :: seen)) []

/-- Scalar roots are keyed in increasing order, inside the batch. -/
def checkScalarRoots : Check := do
  let queries := dag.roots.length + dag.scalarRoots.length
  let _ ← dag.scalarRoots.foldlM (fun next root =>
    if root.1 < next ∨ queries ≤ root.1 then .error (.scalarRootPosition root.1)
    else .ok (root.1 + 1)) 0

def checkRoots : Check :=
  dag.rootIds.forM fun root => if root ∈ dag.ids then .ok () else .error (.missingRoot root)

def takeEdge (expected : Cache NodeId (List (NodeId × EdgeRole))) (edge : PhysicalASAPDAGEdge) :
    Except PhysicalASAPDAGValidationError (Cache NodeId (List (NodeId × EdgeRole))) :=
  match expected edge.consumer with
  | none => .error (.missingEdgeEndpoint edge.consumer)
  | some inputs =>
    if (edge.producer, edge.role) ∈ inputs then
      .ok (expected.insert edge.consumer (inputs.erase (edge.producer, edge.role)))
    else .error (.edgeRoleMismatch edge.consumer)

/-- Each node's incoming edges are exactly its operator's inputs. -/
def checkEdgeRoles : Check := do
  let expected ← dag.edges.foldlM takeEdge fun id =>
    (dag.byId id).map fun node => edgeRoles node.payload
  match dag.nodes.find? fun node => expected node.id != some [] with
  | some node => .error (.edgeRoleMismatch node.id)
  | none => .ok ()

def checkEdge (edge : PhysicalASAPDAGEdge) : Check :=
  match dag.byId edge.producer with
  | none => .error (.missingEdgeEndpoint edge.producer)
  | some producer =>
    match dag.byId edge.consumer with
    | none => .error (.missingEdgeEndpoint edge.consumer)
    | some consumer =>
      if producer.outputState.timing = .queryTime ∧ consumer.outputState.timing = .ingestionTime then
        .error (.queryDependencyInIngestion edge.producer edge.consumer)
      else if same edge.intermediateSchema producer.outputSchema = false then
        .error (.edgeSchemaMismatch edge.producer edge.consumer)
      else if edge.dataState ≠ producer.outputState then
        .error (.edgeDataStateMismatch edge.producer edge.consumer)
      else .ok ()

def checkCycles : Check := do
  let _ ← dag.rootIds.mapM (dag.graph.visit .cycle []) []

def checkReachable : Check :=
  let reachable := dag.rootIds.foldl (fun seen root => dag.graph.mark [root] seen) []
  match dag.ids.find? fun id => id ∉ reachable with
  | some id => .error (.unreachableNode id)
  | none => .ok ()

def validate : Check := do
  dag.checkNodes
  if dag.roots = [] ∧ dag.scalarRoots = [] then throw .noRoots
  dag.checkScalarRoots
  dag.checkRoots
  dag.checkEdgeRoles
  dag.edges.forM dag.checkEdge
  dag.checkCycles
  dag.checkReachable

end PhysicalASAPDAG
end AsapPlanner.Physical
