import AsapPlanner.Timing.Placement
import AsapPlanner.Ir.Copies

/-!
Where a copy runs. A copy that keeps its original's explicit materialization is placed as the original
is, under every consumer.
-/

namespace AsapPlanner.Timing
open Rust Traversal Ir

/-- Every copy has its original's explicit assignment, and both assignments have one default. -/
structure Keeps (assignment' assignment : MaterializationAssignment)
    (copies : NodeRef → NodeRef → Prop) : Prop where
  get : ∀ {copy ref}, copies copy ref → assignment'.get copy = assignment.get ref
  unassigned : assignment'.unassigned = assignment.unassigned

/-! ### Aligned rows -/

def finalizedRows : Operator NodeRef → Option NodeRef
  | .asap (.summaryAgg rows (.exactAggregate .sum _) _ .perEntity _ none)
  | .asap (.summaryAgg rows (.exactAggregate .count _) _ .perEntity _ none) => some rows
  | _ => none

theorem finalizedRows_mapChildren (op : Operator NodeRef) (image : NodeRef → NodeRef) :
    finalizedRows (op.mapChildren image) = (finalizedRows op).map image := by
  cases op with
  | nonASAP op => rfl
  | asap op =>
    cases op with
    | summaryAgg rows family input reduction grouping filter =>
      cases filter with
      | some filter => cases family with
        | exactAggregate kind params => cases kind <;> cases reduction <;> rfl
        | _ => rfl
      | none => cases family with
        | exactAggregate kind params => cases kind <;> cases reduction <;> rfl
        | _ => rfl
    | _ => rfl

theorem finalizedRows_child {op : Operator NodeRef} {rows : NodeRef} (found : finalizedRows op = some rows) :
    rows ∈ op.children := by
  unfold finalizedRows at found
  split at found
  · cases found
    exact List.mem_cons_self
  · cases found
    exact List.mem_cons_self
  · cases found

theorem perSeriesRows_eq (dag : Dag) (ref : NodeRef) : perSeriesRows dag ref =
    match (dag.node ref).operator with
    | .asap (.finalizeExactAccumulator child) => finalizedRows (dag.node child).operator
    | .nonASAP (.binaryOp _ _ lhs rhs) => (perSeriesRows dag lhs).bind fun rows =>
      if (perSeriesRows dag rhs).any fun other => sameNode dag other rows then some rows else none
    | _ => none := by
  rw [perSeriesRows]
  split
  · rename_i child op
    rw [op]
    rfl
  · rename_i op
    rw [op]
    rfl
  · rename_i notFinalized notBinary
    split
    · exact (notFinalized _ ‹_›).elim
    · exact (notBinary _ _ _ _ ‹_›).elim
    · rfl

section Copies
variable {later dag : Dag} {copies : NodeRef → NodeRef → Prop} {copy ref : NodeRef}

theorem any_sameNode {lhs' rhs' lhs rhs : Option NodeRef}
    (left : lhs'.map later.datumOf = lhs.map dag.datumOf)
    (right : rhs'.map later.datumOf = rhs.map dag.datumOf) :
    (lhs'.any fun rows => rhs'.any fun other => sameNode later other rows) =
      lhs.any fun rows => rhs.any fun other => sameNode dag other rows := by
  cases lhs' <;> cases lhs <;> cases rhs' <;> cases rhs <;> simp_all [sameNode]

theorem agreeing_map {lhs' rhs' lhs rhs : Option NodeRef}
    (left : lhs'.map later.datumOf = lhs.map dag.datumOf)
    (right : rhs'.map later.datumOf = rhs.map dag.datumOf) :
    (lhs'.bind fun rows =>
        if rhs'.any fun other => sameNode later other rows then some rows else none).map later.datumOf =
      (lhs.bind fun rows =>
        if rhs.any fun other => sameNode dag other rows then some rows else none).map dag.datumOf := by
  cases lhs' <;> cases lhs <;> cases rhs' <;> cases rhs <;> simp_all [sameNode]
  split <;> simp_all

section Rows
variable (rel : Copies later dag copies)
include rel

theorem operator_copies (copied : copies copy ref) : ∃ image : NodeRef → NodeRef,
    (later.node copy).operator = (dag.node ref).operator.mapChildren image ∧
      ∀ child ∈ (dag.node ref).operator.children, copies (image child) child := by
  obtain ⟨image, node, below⟩ := rel.node copied
  refine ⟨image, ?_, below⟩
  rw [node]
  rfl

theorem perSeriesRows_copies (copied : copies copy ref) :
    (perSeriesRows later copy).map later.datumOf = (perSeriesRows dag ref).map dag.datumOf := by
  induction ref using Nat.strongRecOn generalizing copy with
  | ind ref ih =>
    obtain ⟨image, operator, below⟩ := operator_copies rel copied
    have each : ∀ child ∈ (dag.node ref).operator.children,
        (perSeriesRows later (image child)).map later.datumOf =
          (perSeriesRows dag child).map dag.datumOf :=
      fun child reads => ih child (dag.child_lt reads) (below child reads)
    rw [perSeriesRows_eq, perSeriesRows_eq dag, operator]
    cases shape : (dag.node ref).operator with
    | asap op =>
      rw [shape] at below
      cases op with
      | finalizeExactAccumulator child =>
        obtain ⟨image', operator', below'⟩ := operator_copies rel (below child List.mem_cons_self)
        simp only [Operator.mapChildren, Operator.walk, ASAPOp.walk, Walk.image_map, Walk.image_one]
        rw [operator', finalizedRows_mapChildren, Option.map_map]
        cases found : finalizedRows (dag.node child).operator with
        | none => rfl
        | some rows =>
          exact congrArg some (rel.datumOf (below' rows (finalizedRows_child found)))
      | _ => rfl
    | nonASAP op =>
      cases op with
      | binaryOp operator returnBool lhs rhs =>
        rw [shape] at each
        have left := each lhs (by simp [Operator.children, NonASAPOp.children, NonASAPOp.inputs])
        have right := each rhs (by simp [Operator.children, NonASAPOp.children, NonASAPOp.inputs])
        simp only [Operator.mapChildren, Operator.walk, NonASAPOp.walk, Walk.image_map, Walk.image_map2,
          Walk.image_one]
        exact agreeing_map left right
      | _ => rfl

theorem isMisaligned_copies (copied : copies copy ref) :
    isMisaligned later copy = isMisaligned dag ref := by
  obtain ⟨image, operator, below⟩ := operator_copies rel copied
  unfold isMisaligned
  rw [operator, rel.schema copied]
  cases shape : (dag.node ref).operator with
  | asap op => rfl
  | nonASAP op =>
    cases op with
    | binaryOp operator returnBool lhs rhs =>
      rw [shape] at below
      have left := perSeriesRows_copies rel
        (below lhs (by simp [Operator.children, NonASAPOp.children, NonASAPOp.inputs]))
      have right := perSeriesRows_copies rel
        (below rhs (by simp [Operator.children, NonASAPOp.children, NonASAPOp.inputs]))
      simp only [Operator.mapChildren, Operator.walk, NonASAPOp.walk, Walk.image_map, Walk.image_map2,
        Walk.image_one, alignedRows, any_sameNode left right]
    | _ => rfl

end Rows

/-! ### Placement -/

section Shape
variable (op : Operator NodeRef) (node : OperatorNode) (image : NodeRef → NodeRef)

theorem isEvaluation_mapChildren : isEvaluation (op.mapChildren image) = isEvaluation op := by
  cases op with
  | nonASAP op => rfl
  | asap op => cases op <;> rfl

theorem isMaterializationPoint_mapChildren :
    isMaterializationPoint (op.mapChildren image) = isMaterializationPoint op := by
  cases op with
  | nonASAP op => rfl
  | asap op => cases op <;> rfl

theorem kindName_mapChildren : (op.mapChildren image).kindName = op.kindName := by
  cases op with
  | nonASAP op => cases op <;> rfl
  | asap op => cases op <;> rfl

theorem isFilteredBuild_mapChildren : isFilteredBuild (node.mapChildren image) = isFilteredBuild node := by
  unfold isFilteredBuild OperatorNode.asap OperatorNode.mapChildren
  cases node.operator with
  | nonASAP op => rfl
  | asap op =>
    cases op with
    | summaryAgg child family input reduction grouping filter
    | summaryTumblingWindowChain child family input reduction grouping filter => cases filter <;> rfl
    | _ => rfl

end Shape

variable {assignment' assignment : MaterializationAssignment} {consumer : ExecutionTiming}
  {upstream : Bool} (rel : Copies later dag copies) (keeps : Keeps assignment' assignment copies)
include rel keeps

theorem resolve_copies (copied : copies copy ref) :
    assignment'.resolve later copy upstream = assignment.resolve dag ref upstream := by
  obtain ⟨image, node, _⟩ := rel.node copied
  unfold MaterializationAssignment.resolve
  dsimp only
  rw [keeps.get copied, keeps.unassigned, node, isFilteredBuild_mapChildren]
  unfold OperatorNode.mapChildren
  rw [kindName_mapChildren]

theorem forcedBy_copies (copied : copies copy ref) :
    forcedBy assignment' later copy upstream = forcedBy assignment dag ref upstream := by
  obtain ⟨image, node, _⟩ := rel.node copied
  unfold forcedBy optionForces
  dsimp only
  rw [isMisaligned_copies rel copied, resolve_copies rel keeps copied, keeps.get copied, node]
  unfold OperatorNode.mapChildren
  dsimp only
  rw [isEvaluation_mapChildren, isMaterializationPoint_mapChildren]

theorem placedBy_copies (copied : copies copy ref) :
    placedBy assignment' later copy consumer upstream =
      placedBy assignment dag ref consumer upstream := by
  obtain ⟨image, node, _⟩ := rel.node copied
  unfold placedBy keepFixed placeEvaluation placeOption
  dsimp only
  rw [resolve_copies rel keeps copied, keeps.get copied, node, isFilteredBuild_mapChildren]
  unfold OperatorNode.mapChildren
  dsimp only
  rw [isEvaluation_mapChildren, isMaterializationPoint_mapChildren, kindName_mapChildren]

omit keeps in
theorem upstreamForced_copies (copied : copies copy ref)
    (each : ∀ {copy child}, child ∈ dag.children ref → copies copy child →
      forced assignment' later copy = forced assignment dag child) :
    upstreamForced assignment' later copy = upstreamForced assignment dag ref := by
  obtain ⟨image, operator, below⟩ := operator_copies rel copied
  unfold upstreamForced Dag.children OperatorNode.children
  rw [operator, Operator.children_mapChildren, List.any_map, Bool.eq_iff_iff, List.any_eq_true,
    List.any_eq_true]
  refine exists_congr fun child => and_congr_right fun reads => ?_
  rw [Function.comp_apply, each reads (below child reads)]

theorem forced_copies (copied : copies copy ref) :
    forced assignment' later copy = forced assignment dag ref := by
  induction ref using Nat.strongRecOn generalizing copy with
  | ind ref ih =>
    rw [forced_eq, forced_eq assignment dag, forcedBy_copies rel keeps copied,
      upstreamForced_copies rel copied fun reads copied => ih _ (dag.child_lt reads) copied]

theorem placed_copies (copied : copies copy ref) :
    placed assignment' later copy consumer = placed assignment dag ref consumer := by
  unfold placed
  rw [placedBy_copies rel keeps copied,
    upstreamForced_copies rel copied fun _ copied => forced_copies rel keeps copied]

end Copies
end AsapPlanner.Timing
