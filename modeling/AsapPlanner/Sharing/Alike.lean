import AsapPlanner.Sharing.CommonSubDags

/-!
Nodes with the same data over nodes with the same data: what sharing and a node's output category depend
on is the same for both.
-/

namespace AsapPlanner.Sharing
open Rust Ir Traversal

variable {H : Type} {hasher : Hasher H}

/-! ### The same data -/

/-- A node with the parts of another, over other children. -/
def Kept (node original : OperatorNode) : Prop :=
  ∃ image, node.operator = original.operator.mapChildren image ∧ node.schema = original.schema ∧
    node.guarantee = original.guarantee ∧ node.timing = original.timing ∧
    node.materialization = original.materialization

/-- The same parts, or equal ones. -/
def SameData (hasher : Hasher H) (dag : Dag) (node original : OperatorNode) : Prop :=
  Kept node original ∨ sameData hasher dag node original = true

/-- Each pair is a shared node and a node of the input with the same data, over pairs of children. -/
structure Alike (hasher : Hasher H) (dag input : Dag) (alike : NodeRef → NodeRef → Prop) : Prop where
  data : ∀ {shared ref}, alike shared ref → SameData hasher dag (dag.node shared) (input.node ref)
  children : ∀ {shared ref}, alike shared ref →
    List.Forall₂ alike (dag.children shared) (input.children ref)

section Keep
variable {dag later input : Dag} {node original other : OperatorNode}

theorem Kept.refl (node : OperatorNode) : Kept node node :=
  ⟨id, node.operator.mapChildren_id.symm, rfl, rfl, rfl, rfl⟩

theorem Kept.ownFields (kept : Kept node original) : ownFields dag node = ownFields dag original := by
  obtain ⟨image, operator, _⟩ := kept
  rw [Sharing.ownFields, Sharing.ownFields, operator, Operator.mapChildren_mapChildren]

theorem SameData.swap (same : SameData hasher dag node original) :
    sameData hasher dag other node = true ↔ sameData hasher dag other original = true := by
  rcases same with kept | equal
  · have own := @Kept.ownFields dag _ _ kept
    obtain ⟨_, _, schema, guarantee, timing, materialization⟩ := kept
    rw [sameData, sameData, own, schema, guarantee, timing, materialization]
  · exact ⟨fun before => sameData_trans before equal, fun before => sameData_trans before (sameData_symm equal)⟩

theorem SameData.before (equal : sameData hasher dag other node = true) (same : SameData hasher dag node original) :
    SameData hasher dag other original := .inr (same.swap.mp equal)

theorem SameData.grow (grown : later.Extends dag) (inside : ∀ held ∈ node.refs, held < dag.size)
    (inside' : ∀ held ∈ original.refs, held < dag.size) (same : SameData hasher dag node original) :
    SameData hasher later node original := by
  rcases same with kept | equal
  · exact .inl kept
  · exact .inr ((sameData_grow grown inside inside').trans equal)

end Keep

/-! ### Operators without their children -/

/-- The name a value is printed under. -/
def title : Datum → String
  | .node (.variant name) _ | .node (.record name _) _ => name
  | _ => ""

theorem title_eq {x y : Datum} (equal : x.eq y = true) : title x = title y := by
  cases x <;> cases y
  case node.node head parts head' parts' =>
    rw [Datum.eq_node, Bool.and_eq_true, beq_iff_eq] at equal
    rw [equal.1]
    cases head' <;> rfl
  all_goals first | rfl | cases equal

theorem title_toDatum (op : NonASAPOp Unit) : title op.toDatum = op.kindName := by
  cases op <;> rfl

/-- Operators that are equal but for their children. -/
def AsOne (op op' : NonASAPOp Unit) : Prop := op = op' ∨ op.toDatum.eq op'.toDatum = true

def bareNonAsap (node : OperatorNode) : Option (NonASAPOp Unit) := node.nonAsap.map (·.walk.image fun _ => ())

theorem SameData.asOne {dag : Dag} {node original : OperatorNode} (same : SameData hasher dag node original) :
    Option.Rel AsOne (bareNonAsap node) (bareNonAsap original) := by
  unfold bareNonAsap OperatorNode.nonAsap
  rcases same with ⟨image, operator, _⟩ | equal
  · rw [operator]
    cases original.operator with
    | nonASAP op =>
      exact .some (.inl (NonASAPOp.image_image image (fun _ => ()) op))
    | asap op => exact .none
  · simp only [sameData, sameValue, Sharing.ownFields, Bool.and_eq_true] at equal
    obtain ⟨_, own, _⟩ := equal
    cases shape : node.operator <;> cases shape' : original.operator <;> rw [shape, shape'] at own
    · refine .some (.inr ?_)
      simpa [Operator.mapChildren, Operator.walk, Operator.toDatum, Datum.variant, Datum.eq_node, Datum.eqParts] using own
    · cases own
    · cases own
    · exact .none

/-! ### Which nodes may be one -/

theorem same_groupKeys {group group' : GroupKeys} (equal : same group group' = true) : group = group' := by
  obtain ⟨keys, without⟩ := group
  obtain ⟨keys', without'⟩ := group'
  have parts : same keys keys' = true ∧ same without without' = true := by
    simpa [same, datum, Datum.record, Datum.eq_node, Datum.eqParts] using equal
  have keysEqual : keys = keys' := by
    simpa [same_list, List.forall₂_eq_eq_eq] using parts.1
  rw [keysEqual, same_bool.mp parts.2]

theorem readsRowPositions_eq (frame : Option WindowFrame) (func : WindowFuncKind) :
    readsRowPositions frame func =
      if title (datum func) ∈ ["RowNumber", "Lag", "Lead", "LagInFrame", "LeadInFrame", "FirstValue", "LastValue",
        "NthValue"] then true
      else if title (datum func) ∈ ["Rank", "DenseRank"] then false
      else frame.any fun frame => title (datum frame.units) == "Rows" := by
  have units (units : WindowFrameUnits) : (units == .rows) = (title (datum units) == "Rows") := by
    cases units <;> rfl
  cases func <;> simp [readsRowPositions, units, title, datum, Datum.variant]

/-- What an operator's own fields say of whether it may be shared; the rest is about its child. -/
def shareableOver (sorted : GroupKeys → Bool) (width : Option Nat) : NonASAPOp Unit → Bool
  | .limit n offset partitionBy _ => (n.isNone && offset == 0) || sorted partitionBy
  | .dedup cols _ => cols.isEmpty || width.any (cols.eraseDups.length == ·)
  | .sqlWindowFunc func _ _ orderBy frame _ _ => !readsRowPositions frame func || !orderBy.isEmpty
  | _ => true

theorem shareableOver_plain {sorted : GroupKeys → Bool} {width : Option Nat} {op : NonASAPOp Unit}
    (plain : op.kindName ∉ ["Limit", "Dedup", "SQLWindowFunc"]) : shareableOver sorted width op = true := by
  cases op <;> first | rfl | simp [NonASAPOp.kindName] at plain

theorem shareableOver_asOne {sorted : GroupKeys → Bool} {width : Option Nat} {op op' : NonASAPOp Unit}
    (asOne : AsOne op op') : shareableOver sorted width op = shareableOver sorted width op' := by
  rcases asOne with rfl | equal
  · rfl
  have kind := title_eq equal
  rw [title_toDatum, title_toDatum] at kind
  by_cases special : op'.kindName ∈ ["Limit", "Dedup", "SQLWindowFunc"]
  · cases op <;> cases op' <;> simp [NonASAPOp.kindName] at kind special
    all_goals
      simp only [NonASAPOp.toDatum, Datum.record, Datum.eq_node, List.map, Datum.eqParts_cons, Bool.and_eq_true]
        at equal
    case limit.limit n offset partitionBy _ n' offset' partitionBy' _ =>
      obtain ⟨_, count, skipped, groups, _⟩ := equal
      have none : n.isNone = n'.isNone := by cases n <;> cases n' <;> first | rfl | cases same_option.mp count
      rw [shareableOver, shareableOver, none, same_nat.mp skipped, same_groupKeys groups]
    case dedup.dedup cols _ cols' _ =>
      obtain ⟨_, kept, _⟩ := equal
      have columns : cols = cols' := by simpa [List.forall₂_eq_eq_eq] using same_list.mp kept
      rw [shareableOver, shareableOver, columns]
    case sqlWindowFunc.sqlWindowFunc func _ _ orderBy frame _ _ func' _ _ orderBy' frame' _ _ =>
      obtain ⟨_, func, _, _, ordered, framed, _⟩ := equal
      have order : orderBy.isEmpty = orderBy'.isEmpty := by
        cases same_list.mp ordered <;> rfl
      have frames : (frame.any fun frame => title (datum frame.units) == "Rows") =
          frame'.any fun frame => title (datum frame.units) == "Rows" := by
        have alike := same_option.mp framed
        cases frame <;> cases frame'
        case some.some frame frame' =>
          simp only [same, datum, Datum.record, Datum.eq_node, List.map, Datum.eqParts_cons, Bool.and_eq_true]
            at alike
          exact congrArg (· == "Rows") (title_eq alike.2.1)
        all_goals first | rfl | cases alike
      rw [shareableOver, shareableOver, order, readsRowPositions_eq, readsRowPositions_eq, title_eq func, frames]
  · rw [shareableOver_plain special, shareableOver_plain (kind ▸ special)]

def sortedOver (partitionBy : GroupKeys) : NonASAPOp Unit → Bool
  | .sort _ sorted _ => sorted == partitionBy
  | _ => false

theorem sortedOver_plain {partitionBy : GroupKeys} {op : NonASAPOp Unit} (plain : op.kindName ≠ "Sort") :
    sortedOver partitionBy op = false := by
  cases op <;> first | rfl | exact absurd rfl plain

theorem sortedOver_asOne {partitionBy : GroupKeys} {op op' : NonASAPOp Unit} (asOne : AsOne op op') :
    sortedOver partitionBy op = sortedOver partitionBy op' := by
  rcases asOne with rfl | equal
  · rfl
  have kind := title_eq equal
  rw [title_toDatum, title_toDatum] at kind
  by_cases special : op'.kindName = "Sort"
  · cases op <;> cases op' <;> simp [NonASAPOp.kindName] at kind special
    case sort.sort keys sorted _ keys' sorted' _ =>
      simp only [NonASAPOp.toDatum, Datum.record, Datum.eq_node, List.map, Datum.eqParts_cons, Bool.and_eq_true]
        at equal
      rw [sortedOver, sortedOver, same_groupKeys equal.2.2.1]
  · rw [sortedOver_plain special, sortedOver_plain (kind ▸ special)]

section Same
variable {dag dag' store : Dag} {node original : OperatorNode}

theorem elim_rel {α β γ : Type} {R : α → β → Prop} {x : Option α} {y : Option β} {none : γ} {f : α → γ} {g : β → γ}
    (related : Option.Rel R x y) (each : ∀ a b, R a b → f a = g b) : x.elim none f = y.elim none g := by
  cases related with
  | none => rfl
  | some related => exact each _ _ related

theorem head_rel {α β : Type} {R : α → β → Prop} {xs : List α} {ys : List β} (related : List.Forall₂ R xs ys) :
    Option.Rel R xs.head? ys.head? := by
  cases related with
  | nil => exact .none
  | cons related _ => exact .some related

theorem sortedBy_eq {partitionBy : GroupKeys} :
    sortedBy node partitionBy = (bareNonAsap node).elim false (sortedOver partitionBy) := by
  unfold sortedBy bareNonAsap
  cases node.nonAsap with
  | none => rfl
  | some op => cases op <;> rfl

theorem SameData.sortedBy {partitionBy : GroupKeys} (same : SameData hasher dag node original) :
    sortedBy node partitionBy = sortedBy original partitionBy := by
  rw [sortedBy_eq, sortedBy_eq]
  exact elim_rel same.asOne fun _ _ => sortedOver_asOne

theorem isPlain_title (dtype : FieldDataType) : dtype.isPlain = (title (datum dtype) == "Plain") := by
  cases dtype <;> rfl

theorem SameData.plainColumns (same : SameData hasher dag node original) :
    plainColumns node.schema = plainColumns original.schema := by
  rcases same with ⟨_, _, schema, _⟩ | equal
  · rw [schema]
  simp only [sameData, Bool.and_eq_true] at equal
  have fields := (Bool.and_eq_true_iff.mp equal.1.1.1.1).1
  unfold Ir.plainColumns
  rw [← List.forall₂_eq_eq_eq, List.forall₂_map_left_iff, List.forall₂_map_right_iff]
  refine (same_list.mp fields).imp fun field field' alike => ?_
  have dtype := (Bool.and_eq_true_iff.mp (Bool.and_eq_true_iff.mp alike).2).1
  rw [Field.isPlain, Field.isPlain, isPlain_title, isPlain_title]
  exact congrArg (· == "Plain") (title_eq dtype)

theorem reusable_eq : reusable dag node = (bareNonAsap node).elim true (shareableOver
    (fun partitionBy => node.children.head?.elim false fun child => sortedBy (dag.node child) partitionBy)
    (node.children.head?.elim none fun child => some (plainColumns (dag.node child).schema).length)) := by
  unfold reusable bareNonAsap OperatorNode.isAsap OperatorNode.asap OperatorNode.nonAsap OperatorNode.children
  cases node.operator with
  | asap op => rfl
  | nonASAP op =>
    cases op <;> simp [isShareableWhenEqual, shareableOver, NonASAPOp.walk, Operator.children, NonASAPOp.children,
      NonASAPOp.inputs, plainColumns]

theorem SameData.reusable (same : SameData hasher store node original) (children : List.Forall₂
    (fun child child' => SameData hasher store (dag.node child) (dag'.node child')) node.children original.children) :
    reusable dag node = reusable dag' original := by
  rw [reusable_eq, reusable_eq]
  refine (elim_rel same.asOne fun _ _ => shareableOver_asOne).trans ?_
  refine congrArg₂ (fun sorted width => (bareNonAsap original).elim true (shareableOver sorted width)) ?_ ?_
  · exact funext fun _ => elim_rel (head_rel children) fun _ _ alike => alike.sortedBy
  · exact elim_rel (head_rel children) fun _ _ alike => congrArg (some ∘ List.length) alike.plainColumns

/-! ### Output categories -/

/-- Whether a node's rows come from the source its first child reads. -/
def readsOn (node : OperatorNode) : Bool :=
  (bareNonAsap node).elim true fun op => op.kindName == "Filter" && node.resultKind == .state

theorem SameData.readsOn (same : SameData hasher dag node original) (kinds : node.resultKind = original.resultKind) :
    readsOn node = readsOn original := by
  unfold Sharing.readsOn
  rw [kinds]
  refine elim_rel same.asOne fun op op' asOne => ?_
  rcases asOne with rfl | equal
  · rfl
  · rw [← title_toDatum, ← title_toDatum, title_eq equal]

theorem sourceKind_elim {ref : NodeRef} : dag.sourceKind ref =
    (if readsOn (dag.node ref) then (dag.children ref).head?.elim .relation dag.sourceKind
    else match (dag.node ref).resultKind with
      | .rangeVector => .instantVector
      | .state => .relation
      | other => other) := by
  rw [Dag.sourceKind_eq]
  unfold selectedFrom readsOn bareNonAsap OperatorNode.nonAsap Dag.children OperatorNode.children
  cases (dag.node ref).operator with
  | asap op => rfl
  | nonASAP op =>
    cases op with
    | filter pred child => cases (dag.node ref).resultKind <;> rfl
    | _ => rfl

theorem Alike.sourceKind {later input : Dag} {alike : NodeRef → NodeRef → Prop} (rel : Alike hasher later input alike)
    (kinds : ∀ {shared ref}, alike shared ref → (later.node shared).resultKind = (input.node ref).resultKind)
    {shared ref : NodeRef} (related : alike shared ref) : later.sourceKind shared = input.sourceKind ref := by
  induction ref using Nat.strongRecOn generalizing shared with
  | ind ref ih =>
    have below : List.Forall₂ (fun child child' => later.sourceKind child = input.sourceKind child')
        (later.children shared) (input.children ref) :=
      forall₂_imp_mem (fun child _ child' reads related' => ih child' (input.child_lt reads) related')
        (rel.children related)
    rw [sourceKind_elim, sourceKind_elim, (rel.data related).readsOn (kinds related), kinds related,
      elim_rel (head_rel below) fun _ _ same => same]

end Same
end AsapPlanner.Sharing
