import AsapPlanner.Traversal.Memo
import AsapPlanner.Ir.DataState
import AsapPlanner.Ir.OutputKind

/-!
Where a node runs. A materialization assignment gives each sub-DAG its option; a node's timing follows
from its option, its consumer's timing, and whether something upstream can only run at query time.
-/

namespace AsapPlanner.Timing
open Rust Traversal Ir

/-! ### Assignments -/

/-- The option of each sub-DAG, named by the node whose output would be stored. -/
structure MaterializationAssignment where
  assigned : NodeRef → Option Materialization
  unassigned : Materialization

/-- A `SummaryAgg`, a `SummaryTumblingWindowChain` or a `MaintainPopulation`. -/
def isMaterializationPoint {C : Type} : Operator C → Bool
  | .asap (.summaryAgg ..) | .asap (.summaryTumblingWindowChain ..)
  | .asap (.maintainPopulation ..) => true
  | _ => false

def isFilteredBuild (node : OperatorNode) : Bool :=
  match node.asap with
  | some (.summaryAgg _ _ _ _ _ filter)
  | some (.summaryTumblingWindowChain _ _ _ _ _ filter _ _) => filter.isSome
  | _ => false

def isEvaluation {C : Type} : Operator C → Bool
  | .asap (.summaryEstimate ..) | .asap (.evaluatePopulation ..) => true
  | _ => false

namespace MaterializationAssignment

def withDefault (materialization : Materialization) : MaterializationAssignment :=
  { assigned := fun _ => none, unassigned := materialization }

def set (assignment : MaterializationAssignment) (node : NodeRef) (materialization : Materialization) :
    MaterializationAssignment :=
  { assignment with assigned := fun other =>
      if other = node then some materialization else assignment.assigned other }

def get (assignment : MaterializationAssignment) (node : NodeRef) : Option Materialization :=
  assignment.assigned node

/-- The option a node gets, given whether something below it can only run at query time. -/
def resolve (assignment : MaterializationAssignment) (dag : Dag) (ref : NodeRef)
    (upstreamAtQueryTime : Bool) : Except ExecutionDataStateError Materialization :=
  let node := dag.node ref
  let atIngestion (m : Materialization) := m.timing == .ingestionTime
  match assignment.get ref with
  | some m =>
    if atIngestion m && isFilteredBuild node then
      .error (.filteredSummaryAtIngestion node.operator.kindName)
    else if atIngestion m && upstreamAtQueryTime then
      .error (.upstreamNotAtIngestion node.operator.kindName)
    else .ok m
  | none =>
    if atIngestion assignment.unassigned && (upstreamAtQueryTime || isFilteredBuild node) then
      .ok .notMaterialized
    else .ok assignment.unassigned

end MaterializationAssignment

/-! ### Aligned rows -/

def sameNode (dag : Dag) (a b : NodeRef) : Bool := (dag.datumOf a).eq (dag.datumOf b)

/-- The rows a per-series arithmetic operand is computed from, the same on both sides. -/
def perSeriesRows (dag : Dag) (ref : NodeRef) : Option NodeRef :=
  match _op : (dag.node ref).operator with
  | .asap (.finalizeExactAccumulator child) =>
    match (dag.node child).operator with
    | .asap (.summaryAgg rows (.exactAggregate .sum _) _ .perEntity _ none)
    | .asap (.summaryAgg rows (.exactAggregate .count _) _ .perEntity _ none) => some rows
    | _ => none
  | .nonASAP (.binaryOp _ _ lhs rhs) => do
    let rows ← perSeriesRows dag lhs
    if (perSeriesRows dag rhs).any fun other => sameNode dag other rows then some rows else none
  | _ => none
termination_by ref
decreasing_by
  all_goals
    apply dag.child_lt
    unfold Dag.children OperatorNode.children
    rw [_op]
    simp [Operator.children, NonASAPOp.children, NonASAPOp.inputs]

def alignedRows (dag : Dag) (lhs rhs : NodeRef) : Bool :=
  (perSeriesRows dag lhs).any fun rows => (perSeriesRows dag rhs).any fun other =>
    sameNode dag other rows

def hasSeriesIdentity (schema : Schema) : Bool :=
  schema.fields.any fun field => field.name == promqlSeriesIdentity

def isMisaligned (dag : Dag) (ref : NodeRef) : Bool :=
  match (dag.node ref).operator with
  | .nonASAP (.binaryOp _ _ lhs rhs) =>
    hasSeriesIdentity (dag.node ref).schema && !alignedRows dag lhs rhs
  | _ => false

/-! ### What can only run at query time -/

section Forced
variable (assignment : MaterializationAssignment) (dag : Dag)

/-- The option of a node it applies to, as an answer to whether the node can only run at query
time. -/
def optionForces (ref : NodeRef) (upstream : Bool) : Bool :=
  match assignment.resolve dag ref upstream with
  | .ok m =>
    if m = .notMaterialized && !isMaterializationPoint (dag.node ref).operator then upstream
    else m.timing == .queryTime
  | .error _ => true

/-- Whether the sub-DAG at `ref` contains a node that can only run at query time. -/
def forcesQueryTime (ref : NodeRef) : StateM (Cache NodeRef Bool) Bool :=
  memo ref do
    let node := dag.node ref
    let upstream := (dag.children ref).attach.anyM fun child => forcesQueryTime child.1
    if node.timing = some .queryTime then pure true
    else if isEvaluation node.operator then pure true
    else if node.timing.isNone
        && (isMaterializationPoint node.operator || (assignment.get ref).isSome) then
      let upstream ← upstream
      pure (optionForces assignment dag ref upstream)
    else if isMisaligned dag ref then pure true
    else upstream
termination_by ref
decreasing_by exact dag.child_lt child.2

def forcedBy (ref : NodeRef) (upstream : Bool) : Bool :=
  let node := dag.node ref
  if node.timing = some .queryTime then true
  else if isEvaluation node.operator then true
  else if node.timing.isNone
      && (isMaterializationPoint node.operator || (assignment.get ref).isSome) then
    optionForces assignment dag ref upstream
  else isMisaligned dag ref || upstream

def forced (ref : NodeRef) : Bool :=
  forcedBy assignment dag ref ((dag.children ref).attach.any fun child => forced child.1)
termination_by ref
decreasing_by exact dag.child_lt child.2

def upstreamForced (ref : NodeRef) : Bool := (dag.children ref).any (forced assignment dag)

theorem forced_eq (ref : NodeRef) :
    forced assignment dag ref = forcedBy assignment dag ref (upstreamForced assignment dag ref) := by
  rw [forced]
  have unattached := List.attach_map_subtype_val (dag.children ref)
  unfold upstreamForced
  conv_rhs => rw [← unattached, List.any_map]
  rfl

theorem upstream_returns {ref : NodeRef}
    (below : ∀ child ∈ dag.children ref, Returns (Cache.Sound (forced assignment dag))
      (forcesQueryTime assignment dag child) (forced assignment dag child)) :
    Returns (Cache.Sound (forced assignment dag))
      ((dag.children ref).attach.anyM fun child => forcesQueryTime assignment dag child.1)
      (upstreamForced assignment dag ref) := by
  have unattached := List.attach_map_subtype_val (dag.children ref)
  unfold upstreamForced
  conv in (List.any _ _) => rw [← unattached, List.any_map]
  exact Returns.anyM fun child _ => below child.1 child.2

theorem forcesQueryTime_returns (ref : NodeRef) :
    Returns (Cache.Sound (forced assignment dag)) (forcesQueryTime assignment dag ref)
      (forced assignment dag ref) := by
  induction ref using Nat.strongRecOn with
  | ind ref ih =>
    have upstream := upstream_returns assignment dag fun child reads => ih child (dag.child_lt reads)
    rw [forcesQueryTime]
    apply Returns.memo
    rw [forced_eq]
    unfold forcedBy
    dsimp only
    split
    · exact Returns.pure true
    split
    · exact Returns.pure true
    split
    · exact Returns.bind upstream (Returns.pure _)
    cases isMisaligned dag ref with
    | true => exact Returns.pure true
    | false => exact upstream

end Forced

/-! ### Placement -/

section Placement
variable (assignment : MaterializationAssignment) (dag : Dag)

/-- A timing fixed in advance keeps an agreeing assignment; one that needs the other is an error. -/
def keepFixed (ref : NodeRef) (placed : ExecutionTiming) :
    Except ExecutionDataStateError (ExecutionTiming × Materialization) :=
  match assignment.get ref with
  | some m =>
    if m ≠ .notMaterialized ∧ m.timing ≠ placed then
      .error (.materializationConflictsWithFixedTiming (dag.node ref).operator.kindName placed m)
    else .ok (placed, m)
  | none => .ok (placed, (dag.node ref).materialization)

def placeEvaluation (ref : NodeRef) :
    Except ExecutionDataStateError (ExecutionTiming × Materialization) :=
  match assignment.get ref with
  | some m =>
    if m.timing = .ingestionTime then
      .error (.upstreamNotAtIngestion (dag.node ref).operator.kindName)
    else .ok (.queryTime, m)
  | none => .ok (.queryTime, .notMaterialized)

/-- A node runs when its option says; one that is not to be stored, when its consumer runs. -/
def placeOption (ref : NodeRef) (consumer : ExecutionTiming) (upstream : Bool) :
    Except ExecutionDataStateError (ExecutionTiming × Materialization) :=
  match assignment.resolve dag ref upstream with
  | .error e => .error e
  | .ok m =>
    if m = .notMaterialized && !isMaterializationPoint (dag.node ref).operator then
      .ok (consumer, .notMaterialized)
    else .ok (m.timing, m)

def placement (ref : NodeRef) (consumer : ExecutionTiming) : StateM (Cache NodeRef Bool)
    (Except ExecutionDataStateError (ExecutionTiming × Materialization)) :=
  let node := dag.node ref
  let upstreamAtQueryTime := (dag.children ref).anyM (forcesQueryTime assignment dag)
  match node.timing with
  | some placed =>
    if placed = .ingestionTime && isFilteredBuild node then
      pure (.error (.filteredSummaryAtIngestion node.operator.kindName))
    else if placed = .ingestionTime then do
      if ← upstreamAtQueryTime then
        pure (.error (.upstreamNotAtIngestion node.operator.kindName))
      else pure (keepFixed assignment dag ref placed)
    else pure (keepFixed assignment dag ref placed)
  | none =>
    if isEvaluation node.operator then pure (placeEvaluation assignment dag ref)
    else if isMaterializationPoint node.operator || (assignment.get ref).isSome then do
      let upstream ← upstreamAtQueryTime
      pure (placeOption assignment dag ref consumer upstream)
    else pure (.ok (consumer, .notMaterialized))

def placedBy (ref : NodeRef) (consumer : ExecutionTiming) (upstream : Bool) :
    Except ExecutionDataStateError (ExecutionTiming × Materialization) :=
  let node := dag.node ref
  match node.timing with
  | some placed =>
    if placed = .ingestionTime && isFilteredBuild node then
      .error (.filteredSummaryAtIngestion node.operator.kindName)
    else if placed = .ingestionTime && upstream then
      .error (.upstreamNotAtIngestion node.operator.kindName)
    else keepFixed assignment dag ref placed
  | none =>
    if isEvaluation node.operator then placeEvaluation assignment dag ref
    else if isMaterializationPoint node.operator || (assignment.get ref).isSome then
      placeOption assignment dag ref consumer upstream
    else .ok (consumer, .notMaterialized)

def placed (ref : NodeRef) (consumer : ExecutionTiming) :
    Except ExecutionDataStateError (ExecutionTiming × Materialization) :=
  placedBy assignment dag ref consumer (upstreamForced assignment dag ref)

theorem placement_returns (ref : NodeRef) (consumer : ExecutionTiming) :
    Returns (Cache.Sound (forced assignment dag)) (placement assignment dag ref consumer)
      (placed assignment dag ref consumer) := by
  have upstream : Returns (Cache.Sound (forced assignment dag))
      ((dag.children ref).anyM (forcesQueryTime assignment dag)) (upstreamForced assignment dag ref) :=
    Returns.anyM fun child _ => forcesQueryTime_returns assignment dag child
  unfold placement placed placedBy
  dsimp only
  split
  · split
    · exact Returns.pure _
    split
    · rename_i atIngestion
      refine Returns.bind upstream ?_
      cases upstreamForced assignment dag ref with
      | true => simpa [atIngestion] using Returns.pure _
      | false => simpa using Returns.pure _
    · rename_i atQuery
      simpa [atQuery] using Returns.pure _
  · split
    · exact Returns.pure _
    split
    · exact Returns.bind upstream (Returns.pure _)
    · exact Returns.pure _

end Placement
end AsapPlanner.Timing
