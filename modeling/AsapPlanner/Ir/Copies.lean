import AsapPlanner.Ir.OutputKind

/-!
Copies of nodes. A copy is its original over copies of the original's children; in derived equality, in
its output category and in the states it comes from it cannot be told from the original.
-/

namespace AsapPlanner.Ir
open Rust Traversal

variable {C D : Type}

/-! ### Values of rebuilt operators -/

theorem datum_congr_map {X Y : Type} [Derived X] [Derived Y] {g : X → Y}
    (same : ∀ x, datum (g x) = datum x) (items : List X) : datum (items.map g) = datum items := by
  change Datum.node _ _ = Datum.node _ _
  rw [List.map_map]
  exact congrArg _ (List.map_congr_left fun item _ => same item)

theorem datum_congr_option {X Y : Type} [Derived X] [Derived Y] {g : X → Y}
    (same : ∀ x, datum (g x) = datum x) (item : Option X) : datum (item.map g) = datum item := by
  cases item with
  | none => rfl
  | some item => exact congrArg (fun d => Datum.variant "Some" [d]) (same item)

section Image
variable [Inhabited D] [Derived C] [Derived D] {f : C → D} (same : ∀ c, datum (f c) = datum c)
include same

theorem ScalarExpr.datum_image (expr : ScalarExpr C) : datum (expr.walk.image f) = datum expr := by
  change (expr.walk.image f).toDatum datum = expr.toDatum datum
  rw [ScalarExpr.toDatum_image]
  exact congrArg (expr.toDatum ·) (funext same)

theorem Predicate.datum_image (pred : Predicate C) : datum (pred.walk.image f) = datum pred :=
  congrArg (fun d => Datum.variant "Predicate" [d]) (pred.expr.datum_image same)

theorem ProjectItem.datum_image (item : ProjectItem C) : datum (item.walk.image f) = datum item := by
  have expr := item.expr.datum_image same
  simp only [datum, ProjectItem.walk_image] at expr ⊢
  rw [expr]

theorem SortKey.datum_image (key : SortKey C) : datum (key.walk.image f) = datum key := by
  have expr := key.expr.datum_image same
  simp only [datum, SortKey.walk_image] at expr ⊢
  rw [expr]

theorem NonASAPOp.toDatum_image (op : NonASAPOp C) : (op.walk.image f).toDatum = op.toDatum := by
  have expr := ScalarExpr.datum_image same
  have pred := Predicate.datum_image same
  have preds := datum_congr_map pred
  have having := datum_congr_option pred
  have filters := datum_congr_map having
  have items := datum_congr_map (ProjectItem.datum_image same)
  have keys := datum_congr_map (SortKey.datum_image same)
  have exprs := datum_congr_map expr
  have rows := datum_congr_map exprs
  have refs := datum_congr_map same
  cases op <;> simp only [walk, toDatum, Walk.image_map, Walk.image_map2, Walk.image_map3,
    Walk.image_list, Walk.image_option, Walk.image_one, List.map_map, Option.map_map,
    Function.comp_def] <;>
    simp only [same, expr, pred, having, preds, filters, items, keys, exprs, rows, refs]

theorem ASAPOp.toDatum_image (held : NodeRef → Datum) (op : ASAPOp C) :
    (op.walk.image f).toDatum held = op.toDatum held := by
  have filter := datum_congr_option (Predicate.datum_image same)
  have refs := datum_congr_map same
  cases op <;> simp only [walk, toDatum, Walk.image_map, Walk.image_map2, Walk.image_list,
    Walk.image_option, Walk.image_one, List.map_map, Option.map_map, Function.comp_def] <;>
    simp only [same, filter, refs]

theorem Operator.toDatum_image (held : NodeRef → Datum) (op : Operator C) :
    (op.mapChildren f).toDatum held = op.toDatum held := by
  cases op with
  | nonASAP op => exact congrArg (fun d => Datum.variant "NonASAP" [d]) (op.toDatum_image same)
  | asap op => exact congrArg (fun d => Datum.variant "ASAP" [d]) (op.toDatum_image same held)

end Image

theorem Operator.toDatum_mapChildren [Inhabited D] {f : C → D} {valueC : C → Datum}
    {valueD : D → Datum} {held : NodeRef → Datum} {op : Operator C}
    (same : ∀ child ∈ op.children, valueD (f child) = valueC child) :
    @Operator.toDatum D ⟨valueD⟩ held (op.mapChildren f) = @Operator.toDatum C ⟨valueC⟩ held op := by
  have : Inhabited Datum := ⟨.node .tuple []⟩
  -- Both are the value of the operator over the values themselves.
  have values : (op.mapChildren f).mapChildren valueD = op.mapChildren valueC := by
    rw [mapChildren_mapChildren]
    exact Walk.image_congr fun child reads => same child ((mem_refs_walk op).mp reads)
  have left := @Operator.toDatum_image D Datum _ ⟨valueD⟩ ⟨id⟩ valueD (fun _ => rfl) held
    (op.mapChildren f)
  have right := @Operator.toDatum_image C Datum _ ⟨valueC⟩ ⟨id⟩ valueC (fun _ => rfl) held op
  rw [← left, ← right, values]

theorem Operator.refs_mapChildren [Inhabited D] (f : C → D) (op : Operator C) :
    (op.mapChildren f).walk.refs = op.walk.refs.map f :=
  op.lists_refs.refs_image f

/-! ### Operators over their own references -/

namespace ScalarExpr
variable [Inhabited C]

mutual
theorem image_id (expr : ScalarExpr C) : expr.walk.image id = expr := by
  cases expr <;> simp [walk, image_id, imageList_id, imageOption_id, imageBranches_id]

theorem imageList_id (exprs : List (ScalarExpr C)) : (walkList exprs).image id = exprs := by
  cases exprs <;> simp [walkList, image_id, imageList_id]

theorem imageOption_id (expr : Option (ScalarExpr C)) : (walkOption expr).image id = expr := by
  cases expr <;> simp [walkOption, image_id]

theorem imageBranches_id (branches : List (ScalarExpr C × ScalarExpr C)) :
    (walkBranches branches).image id = branches := by
  match branches with
  | [] => simp [walkBranches]
  | (when, value) :: rest => simp [walkBranches, image_id, imageBranches_id]
end

end ScalarExpr

section Id
variable [Inhabited C]

theorem NonASAPOp.image_id (op : NonASAPOp C) : op.walk.image id = op := by
  cases op <;> simp [walk, Function.comp_def, ScalarExpr.image_id]

theorem ASAPOp.image_id (op : ASAPOp C) : op.walk.image id = op := by
  cases op <;> simp [walk, Function.comp_def, ScalarExpr.image_id]

theorem Operator.mapChildren_id (op : Operator C) : op.mapChildren id = op := by
  cases op with
  | nonASAP op => exact congrArg nonASAP op.image_id
  | asap op => exact congrArg asap op.image_id

end Id

/-! ### Categories of rebuilt operators -/

namespace ScalarExpr
variable [Inhabited D] (f : C → D)

mutual
theorem columnsReferenced_image (expr : ScalarExpr C) :
    (expr.walk.image f).columnsReferenced = expr.columnsReferenced := by
  cases expr <;> simp [walk, columnsReferenced, columnsReferenced_image, columnsOfList_image,
    columnsOfOption_image, columnsOfBranches_image]

theorem columnsOfList_image (exprs : List (ScalarExpr C)) :
    columnsOfList ((walkList exprs).image f) = columnsOfList exprs := by
  cases exprs <;> simp [walkList, columnsOfList, columnsReferenced_image, columnsOfList_image]

theorem columnsOfOption_image (expr : Option (ScalarExpr C)) :
    columnsOfOption ((walkOption expr).image f) = columnsOfOption expr := by
  cases expr <;> simp [walkOption, columnsOfOption, columnsReferenced_image]

theorem columnsOfBranches_image (branches : List (ScalarExpr C × ScalarExpr C)) :
    columnsOfBranches ((walkBranches branches).image f) = columnsOfBranches branches := by
  match branches with
  | [] => simp [walkBranches, columnsOfBranches]
  | (when, value) :: rest =>
    simp [walkBranches, columnsOfBranches, columnsReferenced_image, columnsOfBranches_image]
end

end ScalarExpr

theorem Dag.sourceKind_eq (dag : Dag) (ref : NodeRef) : dag.sourceKind ref =
    match selectedFrom (dag.node ref) with
    | some states => dag.sourceKind states
    | none =>
      match (dag.node ref).operator with
      | .asap op => op.children.head?.elim .relation dag.sourceKind
      | .nonASAP _ =>
        match (dag.node ref).resultKind with
        | .rangeVector => .instantVector
        | .state => .relation
        | other => other := by
  rw [sourceKind]
  split
  · rename_i selects
    rw [selects]
  · rename_i selects
    rw [selects]
    dsimp only
    split
    · rename_i op isAsap
      rw [isAsap]
      dsimp only
      split
      · rename_i inputs
        rw [inputs]
        rfl
      · rename_i inputs
        rw [inputs]
        rfl
    · rename_i isPlain
      cases kind : (dag.node ref).resultKind <;> simp only [isPlain]

def plainColumns (schema : Schema) : List Bool := schema.fields.map (·.isPlain)

theorem any_isPlain {schema : Schema} {column : ColumnId} :
    schema.fields[column]?.any (·.isPlain) = (plainColumns schema)[column]?.any id := by
  rw [plainColumns, List.getElem?_map]
  cases schema.fields[column]? <;> rfl

theorem any_notPlain {schema : Schema} {column : ColumnId} :
    (schema.fields[column]?.any fun field => !field.isPlain) = (plainColumns schema)[column]?.any (!·) := by
  rw [plainColumns, List.getElem?_map]
  cases schema.fields[column]? <;> rfl

section Image
variable {later dag : Dag} {image : NodeRef → NodeRef}

theorem Dag.nonAsapOutputKind_image {op : NonASAPOp NodeRef}
    (kinds : ∀ child ∈ op.inputs, (later.node (image child)).resultKind = (dag.node child).resultKind)
    (plain : ∀ child ∈ op.inputs,
      plainColumns (later.node (image child)).schema = plainColumns (dag.node child).schema) :
    later.nonAsapOutputKind (op.walk.image image) = dag.nonAsapOutputKind op := by
  cases op with
  | scan source => cases source <;> rfl
  | filter pred child =>
    have selects : later.selectsStates (image child) (pred.walk.image image) =
        dag.selectsStates child pred := by
      unfold Dag.selectsStates
      simp only [any_isPlain, Predicate.walk_image, ScalarExpr.columnsReferenced_image]
      rw [kinds child List.mem_cons_self, plain child List.mem_cons_self]
    simp only [NonASAPOp.walk, Walk.image_map2, Walk.image_one, Dag.nonAsapOutputKind, selects,
      kinds child List.mem_cons_self]
  | project cols qualifier child =>
    simp only [NonASAPOp.walk, Walk.image_map2, Walk.image_one, Walk.image_list, List.map_map,
      Dag.nonAsapOutputKind, List.any_map, any_notPlain, kinds child List.mem_cons_self,
      plain child List.mem_cons_self]
    refine congrArg (fun keeps : Bool => if keeps = true then OperatorResultKind.state else _) ?_
    -- A column stays a column, and nothing else becomes one.
    refine congrArg cols.any (funext fun item => ?_)
    cases shape : item.expr <;> simp [shape, ScalarExpr.walk]
  | concat children =>
    cases children with
    | nil => rfl
    | cons child rest => exact congrArg Dag.readable (kinds child List.mem_cons_self)
  | timeRange range kind child | aggregate reduction _ _ _ _ child =>
    simp [NonASAPOp.walk, Dag.nonAsapOutputKind, kinds child List.mem_cons_self]
  | dedup _ child | sort _ _ child | limit _ _ _ child | timeShift _ child
  | promqlRelabel _ _ child | promqlInfoEnrich _ child | promqlSeriesSample _ _ child
  | join _ _ child _ | setOp _ _ child _ | binaryOp _ _ child _ =>
    simp [NonASAPOp.walk, Dag.nonAsapOutputKind, kinds child List.mem_cons_self]
  | values | sqlWindowFunc | promqlSubquery | promqlVectorFromScalar => rfl

theorem Dag.outputKind_image {op : Operator NodeRef}
    (kinds : ∀ child ∈ op.children, (later.node (image child)).resultKind = (dag.node child).resultKind)
    (plain : ∀ child ∈ op.children,
      plainColumns (later.node (image child)).schema = plainColumns (dag.node child).schema)
    (sources : ∀ child ∈ op.children, later.sourceKind (image child) = dag.sourceKind child) :
    later.outputKind (op.mapChildren image) = dag.outputKind op := by
  cases op with
  | nonASAP op =>
    exact Dag.nonAsapOutputKind_image (fun child reads => kinds child (List.mem_append_left _ reads))
      fun child reads => plain child (List.mem_append_left _ reads)
  | asap op =>
    cases op with
    | summaryEstimate child | finalizeExactAccumulator child | evaluatePopulation child =>
      exact sources child List.mem_cons_self
    | _ => rfl

end Image

/-! ### Copies -/

def OperatorNode.mapChildren (node : OperatorNode) (image : NodeRef → NodeRef) : OperatorNode :=
  { node with operator := node.operator.mapChildren image }

theorem mapChildren_same {input : Dag} {ref : NodeRef} {image : NodeRef → NodeRef}
    (same : ∀ child ∈ input.children ref, image child = child) :
    (input.node ref).mapChildren image = input.node ref := by
  have operator : (input.node ref).operator.mapChildren image = (input.node ref).operator := by
    refine Eq.trans (Walk.image_congr fun child reads => ?_) (input.node ref).operator.mapChildren_id
    exact same child ((Operator.mem_refs_walk _).mp reads)
  unfold OperatorNode.mapChildren
  rw [operator]

/-- Every related pair is a node of `later` and the node of `dag` it copies, over related children. -/
structure Copies (later dag : Dag) (copies : NodeRef → NodeRef → Prop) : Prop where
  grown : later.Extends dag
  inside : ∀ {copy ref}, copies copy ref → ref < dag.size
  node : ∀ {copy ref}, copies copy ref → ∃ image, later.node copy = (dag.node ref).mapChildren image ∧
    ∀ child ∈ dag.children ref, copies (image child) child

namespace Copies
variable {later dag : Dag} {copies : NodeRef → NodeRef → Prop} (rel : Copies later dag copies)
  {copy ref : NodeRef}
include rel

theorem datumOf (copied : copies copy ref) : later.datumOf copy = dag.datumOf ref := by
  induction ref using Nat.strongRecOn generalizing copy with
  | ind ref ih =>
    obtain ⟨image, node, below⟩ := rel.node copied
    have operator := congrArg OperatorNode.operator node
    change _ = (dag.node ref).operator.mapChildren image at operator
    have children : ∀ child ∈ (dag.node ref).operator.children,
        (if _earlier : image child < copy then later.datumOf (image child) else .node .tuple []) =
          if _earlier : child < ref then dag.datumOf child else .node .tuple [] := by
      intro child reads
      have read : image child ∈ later.children copy := by
        unfold Dag.children OperatorNode.children
        rw [operator, Operator.children_mapChildren]
        exact List.mem_map_of_mem reads
      rw [dif_pos (later.child_lt read), dif_pos (dag.child_lt reads)]
      exact ih child (dag.child_lt reads) (below child reads)
    have held : ∀ held ∈ (dag.node ref).operator.held,
        (if _earlier : held < copy then later.datumOf held else .node .tuple []) =
          if _earlier : held < ref then dag.datumOf held else .node .tuple [] := by
      intro held holds
      have holdsCopy : (later.node copy).operator.held = some held := by
        rw [operator, Operator.held_mapChildren]
        exact holds
      rw [dif_pos (later.held_lt holdsCopy), dif_pos (dag.held_lt holds)]
      exact rel.grown.datumOf (Nat.lt_trans (dag.held_lt holds) (rel.inside copied))
    rw [Dag.datumOf, Dag.datumOf, node]
    unfold OperatorNode.mapChildren
    dsimp only
    rw [Operator.toDatum_mapChildren children, @Dag.toDatum_congr NodeRef ⟨_⟩ _ _ _ held]

theorem resultKind (copied : copies copy ref) :
    (later.node copy).resultKind = (dag.node ref).resultKind := by
  obtain ⟨image, node, _⟩ := rel.node copied
  rw [node]
  rfl

theorem schema (copied : copies copy ref) : (later.node copy).schema = (dag.node ref).schema := by
  obtain ⟨image, node, _⟩ := rel.node copied
  rw [node]
  rfl

theorem sourceKind (copied : copies copy ref) : later.sourceKind copy = dag.sourceKind ref := by
  induction ref using Nat.strongRecOn generalizing copy with
  | ind ref ih =>
    obtain ⟨image, node, below⟩ := rel.node copied
    have operator := congrArg OperatorNode.operator node
    change _ = (dag.node ref).operator.mapChildren image at operator
    have each : ∀ child ∈ (dag.node ref).operator.children,
        later.sourceKind (image child) = dag.sourceKind child :=
      fun child reads => ih child (dag.child_lt reads) (below child reads)
    rw [Dag.sourceKind_eq, Dag.sourceKind_eq dag]
    unfold selectedFrom OperatorNode.nonAsap
    rw [rel.resultKind copied, operator]
    cases shape : (dag.node ref).operator with
    | asap op =>
      rw [shape] at each
      have mapped : ((Operator.asap op).mapChildren image) = .asap (op.walk.image image) := rfl
      rw [mapped]
      dsimp only
      rw [ASAPOp.children_image]
      cases inputs : op.children with
      | nil => rfl
      | cons child rest => exact each child (by simp [Operator.children, inputs])
    | nonASAP op =>
      rw [shape] at each
      have mapped : ((Operator.nonASAP op).mapChildren image) = .nonASAP (op.walk.image image) := rfl
      rw [mapped]
      cases op with
      | filter pred child =>
        have here := each child (by simp [Operator.children, NonASAPOp.children, NonASAPOp.inputs])
        simp only [NonASAPOp.walk, Walk.image_map2, Walk.image_one]
        cases (dag.node ref).resultKind <;> simp [here]
      | _ => rfl

theorem outputKind {op : Operator NodeRef} {image : NodeRef → NodeRef}
    (below : ∀ child ∈ op.children, copies (image child) child) :
    later.outputKind (op.mapChildren image) = dag.outputKind op :=
  Dag.outputKind_image (fun child reads => rel.resultKind (below child reads))
    (fun child reads => congrArg plainColumns (rel.schema (below child reads)))
    fun child reads => rel.sourceKind (below child reads)

end Copies
end AsapPlanner.Ir
