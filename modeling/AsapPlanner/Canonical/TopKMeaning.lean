import AsapPlanner.Canonical.Meaning
import AsapPlanner.Traversal.Run

/-!
The rewritten per-partition top-k has the rows and the column names of its idiom.
-/

namespace AsapPlanner.Canonical
open Rust Ir Construction Traversal

theorem compareInt_rows {op : CompareOpKind} {bound : Int} {rows n : Nat}
    (counted : boundedRows op bound = some rows) (positive : 1 ≤ n) :
    compareInt op n bound = some (rowsKept (some rows) 0 (n - 1)) := by
  obtain ⟨most, found, rfl⟩ := Option.map_eq_some_iff.mp counted
  obtain ⟨found, atLeast⟩ := Option.filter_eq_some_iff.mp found
  rw [decide_eq_true_eq] at atLeast
  unfold compareInt rowsKept
  cases op with
  | le =>
    cases found
    simp only [Nat.zero_le, decide_true, Bool.true_and, Option.all_some, Nat.zero_add, Option.some.injEq,
      decide_eq_decide]
    omega
  | lt =>
    cases found
    simp only [Nat.zero_le, decide_true, Bool.true_and, Option.all_some, Nat.zero_add, Option.some.injEq,
      decide_eq_decide]
    unfold i64Min at atLeast ⊢
    omega
  | eq =>
    dsimp only at found
    split at found
    · next one =>
      cases found
      simp only [one, Nat.zero_le, decide_true, Bool.true_and, Option.all_some, Nat.zero_add, Option.some.injEq,
        decide_eq_decide]
      omega
    · cases found
  | _ => cases found

section
variable {V κ : Type} {s : Semantics V κ}

/-! ### Columns through a derived table -/

def throughRow (s : Semantics V κ) (throughDerivedTable : Option (List (ProjectItem NodeRef))) (row : List V) :
    List V :=
  match throughDerivedTable with
  | some cols => projectRow s cols row
  | none => row

variable {throughDerivedTable : Option (List (ProjectItem NodeRef))} {row : List V}

theorem getElem?_throughRow {column below : ColumnId} {v : V}
    (passes : windowColumn throughDerivedTable column = some below) (here : row[below]? = some v) :
    (throughRow s throughDerivedTable row)[column]? = some v := by
  cases throughDerivedTable with
  | none =>
    cases passes
    exact here
  | some cols =>
    change underlying cols column = some below at passes
    unfold underlying at passes
    split at passes
    · next found =>
      cases passes
      obtain ⟨item, listed, same⟩ := Option.map_eq_some_iff.mp found
      change (cols.map fun item => s.eval item.expr row)[column]? = some v
      rw [List.getElem?_map, listed, Option.map_some, same, s.eval_column here]
    · cases passes

theorem keptItem_some {rowNumber : Nat} {item : ProjectItem NodeRef × SchemaField} {kept : ProjectItem NodeRef}
    (found : keptItem throughDerivedTable rowNumber item = some kept) :
    ∃ column below, item.1.expr = .column column ∧ windowColumn throughDerivedTable column = some below ∧
      below < rowNumber ∧ kept = ⟨some item.2.name, .column below⟩ := by
  unfold keptItem at found
  split at found
  · next column bare =>
    obtain ⟨below, passes, rfl⟩ := Option.map_eq_some_iff.mp found
    obtain ⟨passes, low⟩ := Option.filter_eq_some_iff.mp passes
    exact ⟨column, below, bare, passes, of_decide_eq_true low, rfl⟩
  · cases found

theorem projectRow_kept {selectList kept : List (ProjectItem NodeRef)} {fields : List SchemaField} {number : V}
    (length : fields.length = selectList.length)
    (items : (selectList.zip fields).mapM (keptItem throughDerivedTable row.length) = some kept) :
    projectRow s selectList (throughRow s throughDerivedTable (row ++ [number])) = projectRow s kept row := by
  have values : ∀ {pairs : List (ProjectItem NodeRef × SchemaField)} {kept : List (ProjectItem NodeRef)},
      List.Forall₂ (fun item result => keptItem throughDerivedTable row.length item = some result) pairs kept →
        projectRow s (pairs.map Prod.fst) (throughRow s throughDerivedTable (row ++ [number])) =
          projectRow s kept row := by
    intro pairs kept each
    induction each with
    | nil => rfl
    | @cons item result _ _ first _ ih =>
      obtain ⟨column, below, bare, passes, low, rfl⟩ := keptItem_some first
      obtain ⟨v, here⟩ : ∃ v, row[below]? = some v := ⟨row[below], List.getElem?_eq_getElem low⟩
      have there : (row ++ [number])[below]? = some v := by rw [List.getElem?_append_left low, here]
      change s.eval item.1.expr _ :: projectRow s _ _ = s.eval (.column below) row :: projectRow s _ _
      rw [ih, bare, s.eval_column (getElem?_throughRow passes there), s.eval_column here]
  have whole := values (option_mapM_eq_some.mp items)
  rwa [List.map_fst_zip (Nat.le_of_eq length.symm)] at whole

theorem isColumn_eq {expr : ScalarExpr NodeRef} {column : ColumnId} (same : isColumn expr column = true) :
    expr = .column column := by
  unfold isColumn at same
  split at same
  · rw [of_decide_eq_true same]
  · cases same

theorem position_value {dag : Dag} {node : OperatorNode} {m : RowNumberTopK} (found : m.Matches dag node) {column position : Nat}
    {row : List V} (width : row.length = (dag.node m.ranked).schema.fields.length)
    (placed : positionInKept m.kept column = some position) :
    ∃ v, row[column]? = some v ∧ (projectRow s m.kept row)[position]? = some v := by
  obtain ⟨selectList, filter, filterChild, window, throughDerivedTable, rnColumn, op, bound, semantics, frame,
    outputName, _, _, _, _, _, _, kept⟩ := found.chain
  obtain ⟨inside, same, _⟩ := List.findIdx?_eq_some_iff_getElem.mp placed
  have bare := isColumn_eq same
  obtain ⟨item, _, from'⟩ := exists_getElem?_of_forall₂ (option_mapM_eq_some.mp kept)
    (List.getElem?_eq_getElem inside)
  obtain ⟨_, below, _, _, low, shape⟩ := keptItem_some from'
  rw [shape] at bare
  cases bare
  rw [← width] at low
  refine ⟨row[column], List.getElem?_eq_getElem low, ?_⟩
  rw [projectRow, List.getElem?_map, List.getElem?_eq_getElem inside, Option.map_some, shape,
    s.eval_column (List.getElem?_eq_getElem low)]

theorem partKey_kept {m : RowNumberTopK} {node : OperatorNode} (found : m.Matches dag node)
    {partition : List ColumnId} (placed : m.partitionBy.keys.mapM (positionInKept m.kept) = some partition)
    (inclusion : m.partitionBy.without = false) {row : List V} (schema schema' : Schema)
    (width : row.length = (dag.node m.ranked).schema.fields.length) :
    partKey s schema' (.by partition) (projectRow s m.kept row) = partKey s schema m.partitionBy row := by
  have values : ∀ {columns positions : List Nat},
      List.Forall₂ (fun column position => positionInKept m.kept column = some position) columns positions →
        (positions.map fun position => (projectRow s m.kept row)[position]?.map s.key) =
          columns.map fun column => row[column]?.map s.key := by
    intro columns positions each
    induction each with
    | nil => rfl
    | cons first _ ih =>
      obtain ⟨v, here, there⟩ := position_value found width first
      rw [List.map_cons, List.map_cons, here, there, ih]
  unfold partKey
  rw [inclusion]
  exact values (option_mapM_eq_some.mp placed)

theorem rowLe_kept {m : RowNumberTopK} {node : OperatorNode} (found : m.Matches dag node)
    {order : List (SortKey NodeRef)} (placed : m.orderBy.mapM (orderInKept m.kept) = some order) {a b : List V}
    (width : a.length = (dag.node m.ranked).schema.fields.length)
    (width' : b.length = (dag.node m.ranked).schema.fields.length) :
    rowLe s m.orderBy a b = rowLe s order (projectRow s m.kept a) (projectRow s m.kept b) := by
  have values : ∀ {keys keys' : List (SortKey NodeRef)},
      List.Forall₂ (fun key key' => orderInKept m.kept key = some key') keys keys' →
        (keys.map fun key => s.compare key.ascending key.nullsFirst (s.eval key.expr a) (s.eval key.expr b)) =
          keys'.map fun key => s.compare key.ascending key.nullsFirst (s.eval key.expr (projectRow s m.kept a))
            (s.eval key.expr (projectRow s m.kept b)) := by
    intro keys keys' each
    induction each with
    | nil => rfl
    | @cons key key' _ _ first _ ih =>
      unfold orderInKept at first
      split at first
      · next column bare =>
        obtain ⟨position, placed, rfl⟩ := Option.map_eq_some_iff.mp first
        obtain ⟨v, here, there⟩ := position_value found width placed
        obtain ⟨w, here', there'⟩ := position_value found width' placed
        rw [List.map_cons, List.map_cons, ih, bare, s.eval_column here, s.eval_column here', s.eval_column there,
          s.eval_column there']
      · cases first
  rw [rowLe, rowLe, values (option_mapM_eq_some.mp placed)]

end

section
variable {V κ : Type} [DecidableEq κ] {s : Semantics V κ} {base : NodeRef → List (List V)} {dag : Dag}
  {ref child : NodeRef} {d : Derivation} {later : Dag}

def topRows (s : Semantics V κ) (schema : Schema) (rows : Nat) (partitionBy : GroupKeys)
    (keys : List (SortKey NodeRef)) (input : List (List V)) : List (List V) :=
  Ranking.limit (partKey s schema partitionBy) (rowsKept (some rows) 0) []
    (Ranking.sorted (partKey s schema partitionBy) (rowLe s keys) input)

/-! ### The idiom's rows -/

theorem idiom_rows {m : RowNumberTopK} (found : m.Matches dag (dag.node ref))
    (items : ∀ selectList qualifier filter, (dag.node ref).operator = .nonASAP (.project selectList qualifier filter) →
      (dag.node ref).schema.fields.length = selectList.length)
    (widths : ∀ row ∈ relation s base dag m.ranked, row.length = (dag.node m.ranked).schema.fields.length) :
    relation s base dag ref =
      (topRows s (dag.node m.ranked).schema m.rowsPerPartition m.partitionBy m.orderBy
        (relation s base dag m.ranked)).map (projectRow s m.kept) := by
  obtain ⟨selectList, filter, filterChild, window, throughDerivedTable, rnColumn, op, bound, semantics, frame,
    outputName, projected, filtered, counted, passes, windowed, rowNumber, kept⟩ := found.chain
  let X := relation s base dag m.ranked
  let part := partKey s (dag.node m.ranked).schema m.partitionBy
  let number (item : List V × Nat) : List V := item.1 ++ [s.number item.2]
  have table : relation s base dag filterChild =
      (Ranking.numbered part (rowLe s m.orderBy) X).map fun item =>
        throughRow s throughDerivedTable (number item) := by
    cases passes with
    | direct => exact relation_rowNumber windowed
    | table selects => rw [relation_project selects, relation_rowNumber windowed, List.map_map]; rfl
  have keeps : ∀ item ∈ Ranking.numbered part (rowLe s m.orderBy) X,
      s.holds (s.eval (.compare (.column rnColumn) op (.literal (.int64 bound)) semantics)
        (throughRow s throughDerivedTable (number item))) = rowsKept (some m.rowsPerPartition) 0 (item.2 - 1) := by
    intro item member
    have width := widths item.1 (Ranking.numbered_fst_mem member)
    have here : (number item)[(dag.node m.ranked).schema.fields.length]? = some (s.number item.2) := by
      rw [← width]
      exact List.getElem?_concat_length ..
    exact s.eval_compare semantics (getElem?_throughRow rowNumber here)
      (compareInt_rows counted (Ranking.one_le_numbered member))
  have projects : ∀ item ∈ Ranking.numbered part (rowLe s m.orderBy) X,
      projectRow s selectList (throughRow s throughDerivedTable (number item)) = projectRow s m.kept item.1 := by
    intro item member
    rw [← widths item.1 (Ranking.numbered_fst_mem member)] at kept
    exact projectRow_kept (items _ _ _ projected) kept
  rw [relation_project projected, relation_filter filtered, table, List.filter_map, List.map_map]
  have kept' : (Ranking.numbered part (rowLe s m.orderBy) X).filter
      ((fun row => s.holds (s.eval (.compare (.column rnColumn) op (.literal (.int64 bound)) semantics) row)) ∘
        fun item => throughRow s throughDerivedTable (number item)) =
      (Ranking.numbered part (rowLe s m.orderBy) X).filter fun item =>
        rowsKept (some m.rowsPerPartition) 0 (item.2 - 1) := List.filter_congr keeps
  rw [kept', topRows, ← Ranking.numbered_filter, List.map_map]
  exact List.map_congr_left fun item member => projects item (List.mem_filter.mp member).1

/-! ### The rewritten plan -/

theorem limitSort_built {rows : Nat} {partitionBy : GroupKeys} {keys : List (SortKey NodeRef)}
    (inside : child < dag.size) (reads : ∀ key ∈ keys, ∀ held ∈ key.expr.operatorRefs, held < dag.size)
    (run : limitSort d dag rows partitionBy keys child = .ok (ref, later)) :
    ∃ sorted mid, Built d dag (.nonASAP (.sort keys partitionBy child)) sorted mid ∧
      Built d mid (.nonASAP (.limit (some rows) 0 partitionBy sorted)) ref later := by
  obtain ⟨⟨sorted, mid⟩, first, run⟩ := bind_eq_ok run
  have sort := newShared_built (fun held member => by
    rcases List.mem_append.mp member with here | none
    · rcases List.mem_cons.mp here with rfl | scalar
      · exact inside
      · obtain ⟨expr, owned, holds⟩ := List.mem_flatMap.mp scalar
        obtain ⟨key, member, rfl⟩ := List.mem_map.mp owned
        exact reads key member held holds
    · cases none) first
  refine ⟨sorted, mid, sort, newShared_built (fun held member => ?_) run⟩
  have only : held = sorted := by simpa [Operator.children, Operator.held, NonASAPOp.children,
    NonASAPOp.inputs, NonASAPOp.scalarExprs] using member
  exact only ▸ sort.inside

theorem sort_schema {keys : List (SortKey NodeRef)} {partitionBy : GroupKeys}
    (built : Built d dag (.nonASAP (.sort keys partitionBy child)) ref later) :
    (later.node ref).schema = (dag.node child).schema := by
  obtain ⟨schema, derived, node⟩ := built.node
  cases derived
  rw [node]
  rfl

theorem limit_schema {n : Option Nat} {offset : Nat} {partitionBy : GroupKeys}
    (built : Built d dag (.nonASAP (.limit n offset partitionBy child)) ref later) :
    (later.node ref).schema = (dag.node child).schema := by
  obtain ⟨schema, derived, node⟩ := built.node
  cases derived
  rw [node]
  rfl

theorem limitSort_rows {rows : Nat} {partitionBy : GroupKeys} {keys : List (SortKey NodeRef)}
    (inside : child < dag.size) (reads : ∀ key ∈ keys, ∀ held ∈ key.expr.operatorRefs, held < dag.size)
    (run : limitSort d dag rows partitionBy keys child = .ok (ref, later)) :
    relation s base later ref =
      topRows s (dag.node child).schema rows partitionBy keys (relation s base dag child) := by
  obtain ⟨sorted, mid, sort, limit⟩ := limitSort_built inside reads run
  rw [relation_limit limit.operator, limit.grown.node sort.inside, sort_schema sort,
    relation_extends limit.grown sort.inside, relation_sort sort.operator, sort.grown.node inside,
    relation_extends sort.grown inside]
  rfl

theorem ranked_inside {m : RowNumberTopK} {node : OperatorNode} (found : m.Matches dag node) :
    m.ranked < dag.size ∧ ∀ key ∈ m.orderBy, ∀ held ∈ key.expr.operatorRefs, held < dag.size := by
  obtain ⟨selectList, filter, filterChild, window, throughDerivedTable, rnColumn, op, bound, semantics, frame,
    outputName, _, _, _, _, windowed, _⟩ := found.chain
  have reads : ∀ held ∈ (NonASAPOp.sqlWindowFunc .rowNumber [] m.partitionBy m.orderBy frame outputName
      m.ranked).children, held < dag.size := by
    intro held member
    refine @Dag.refs_size dag window held (List.mem_append_left _ ?_)
    rw [OperatorNode.children, windowed]
    exact member
  refine ⟨reads _ (List.mem_append_left _ (List.mem_singleton_self _)), fun key member held holds => ?_⟩
  exact reads held (List.mem_append_right _ (List.mem_flatMap.mpr ⟨key.expr, List.mem_map_of_mem member, holds⟩))

theorem kept_refs {m : RowNumberTopK} {node : OperatorNode} (found : m.Matches dag node) :
    ∀ item ∈ m.kept, item.expr.operatorRefs = [] := by
  obtain ⟨selectList, filter, filterChild, window, throughDerivedTable, rnColumn, op, bound, semantics, frame,
    outputName, _, _, _, _, _, _, kept⟩ := found.chain
  intro item member
  obtain ⟨position, here⟩ := List.getElem?_of_mem member
  obtain ⟨_, _, from'⟩ := exists_getElem?_of_forall₂ (option_mapM_eq_some.mp kept) here
  obtain ⟨_, _, _, _, _, rfl⟩ := keptItem_some from'
  rfl

theorem inKept_some {m : RowNumberTopK} {partition : List ColumnId} {order : List (SortKey NodeRef)}
    (placed : m.inKept = some (partition, order)) :
    m.partitionBy.keys.mapM (positionInKept m.kept) = some partition ∧
      m.orderBy.mapM (orderInKept m.kept) = some order ∧ m.partitionBy.without = false := by
  unfold RowNumberTopK.inKept at placed
  split at placed
  · next partition' order' partitions orders =>
    split at placed
    · cases placed
    · next inclusion =>
      cases placed
      exact ⟨partitions, orders, Bool.not_eq_true _ ▸ inclusion⟩
  · cases placed

theorem orderInKept_refs {m : RowNumberTopK} {order : List (SortKey NodeRef)}
    (placed : m.orderBy.mapM (orderInKept m.kept) = some order) : ∀ key ∈ order, key.expr.operatorRefs = [] := by
  intro key member
  obtain ⟨position, here⟩ := List.getElem?_of_mem member
  obtain ⟨_, _, from'⟩ := exists_getElem?_of_forall₂ (option_mapM_eq_some.mp placed) here
  unfold orderInKept at from'
  split at from'
  · obtain ⟨_, _, rfl⟩ := Option.map_eq_some_iff.mp from'
    rfl
  · cases from'

theorem project_built {m : RowNumberTopK} {node : OperatorNode} (found : m.Matches dag node) {store : Dag}
    (inside : child < store.size) {result : NodeRef}
    (run : newShared d store (.nonASAP (.project m.kept m.qualifier child)) = .ok (result, later)) :
    Built d store (.nonASAP (.project m.kept m.qualifier child)) result later := by
  refine newShared_built (fun held member => ?_) run
  rcases List.mem_append.mp member with reads | none
  · rcases List.mem_cons.mp reads with rfl | scalar
    · exact inside
    · obtain ⟨expr, owned, holds⟩ := List.mem_flatMap.mp scalar
      obtain ⟨item, kept, rfl⟩ := List.mem_map.mp owned
      rw [kept_refs found item kept] at holds
      cases holds
  · cases none

theorem rewrite_rows {m : RowNumberTopK} {node : OperatorNode} (found : m.Matches dag node)
    (widths : ∀ row ∈ relation s base dag m.ranked, row.length = (dag.node m.ranked).schema.fields.length)
    {result : NodeRef} (run : m.rewrite d dag = .ok (result, later)) :
    relation s base later result =
      (topRows s (dag.node m.ranked).schema m.rowsPerPartition m.partitionBy m.orderBy
        (relation s base dag m.ranked)).map (projectRow s m.kept) := by
  obtain ⟨inside, reads⟩ := ranked_inside found
  unfold RowNumberTopK.rewrite at run
  split at run
  · next partition order placed =>
    obtain ⟨partitions, orders, inclusion⟩ := inKept_some placed
    obtain ⟨⟨selected, mid⟩, first, run⟩ := bind_eq_ok run
    have project := project_built found inside first
    have keys : ∀ key ∈ order, ∀ held ∈ key.expr.operatorRefs, held < mid.size := by
      intro key member held holds
      rw [orderInKept_refs orders key member] at holds
      cases holds
    have part : ∀ row ∈ relation s base dag m.ranked,
        partKey s (mid.node selected).schema (.by partition) (projectRow s m.kept row) =
          partKey s (dag.node m.ranked).schema m.partitionBy row := fun row member =>
      partKey_kept found partitions inclusion _ _ (widths row member)
    have le : ∀ a ∈ relation s base dag m.ranked, ∀ b ∈ relation s base dag m.ranked,
        rowLe s m.orderBy a b = rowLe s order (projectRow s m.kept a) (projectRow s m.kept b) :=
      fun a first b second => rowLe_kept found orders (widths a first) (widths b second)
    rw [limitSort_rows project.inside keys run, relation_project project.operator,
      relation_extends project.grown inside, topRows, Ranking.sorted_map part le, Ranking.limit_map]
    · rfl
    · exact fun row member => part row (Ranking.mem_sorted.mp member)
  · obtain ⟨⟨limited, mid⟩, first, run⟩ := bind_eq_ok run
    obtain ⟨_, _, _, limit⟩ := limitSort_built inside reads first
    have project := project_built found limit.inside run
    rw [relation_project project.operator, relation_extends project.grown limit.inside,
      limitSort_rows inside reads first]

theorem project_names {m : RowNumberTopK} {node : OperatorNode} (found : m.Matches dag node)
    (items : ∀ selectList qualifier filter, node.operator = .nonASAP (.project selectList qualifier filter) →
      node.schema.fields.length = selectList.length)
    {store : Dag} {result : NodeRef}
    (built : Built d store (.nonASAP (.project m.kept m.qualifier child)) result later) :
    (later.node result).schema.fields.map (·.name) = node.schema.fields.map (·.name) := by
  obtain ⟨selectList, filter, filterChild, window, throughDerivedTable, rnColumn, op, bound, semantics, frame,
    outputName, projected, _, _, _, _, _, kept⟩ := found.chain
  obtain ⟨schema, derived, node'⟩ := built.node
  have length := items _ _ _ projected
  have aliases : ∀ {pairs : List (ProjectItem NodeRef × SchemaField)} {kept : List (ProjectItem NodeRef)},
      List.Forall₂ (fun item result => keptItem throughDerivedTable (dag.node m.ranked).schema.fields.length item =
        some result) pairs kept → kept.map (·.alias) = (pairs.map Prod.snd).map fun field => some field.name := by
    intro pairs kept each
    induction each with
    | nil => rfl
    | cons first _ ih =>
      obtain ⟨_, _, _, _, _, rfl⟩ := keptItem_some first
      rw [List.map_cons, List.map_cons, List.map_cons, ih]
  have given := aliases (option_mapM_eq_some.mp kept)
  rw [List.map_snd_zip (Nat.le_of_eq length)] at given
  rw [node']
  change schema.fields.map (·.name) = _
  have names := projectSchema_fields derived
  have width : schema.fields.length = node.schema.fields.length := by
    rw [projectSchema_length derived, ← List.length_map (·.alias), given, List.length_map]
  refine List.ext_getElem (by simpa using width) fun index first second => ?_
  rw [List.length_map] at first second
  have item : index < m.kept.length := projectSchema_length derived ▸ first
  have here := getElem?_of_forall₂ names (List.getElem?_eq_getElem (by simpa using item))
    (List.getElem?_eq_getElem first)
  have alias' : (m.kept[index]).alias = some node.schema.fields[index].name := by
    have both := congrArg (·[index]?) given
    simpa [item, second] using both
  rw [List.getElem_map, List.getElem_map]
  rw [List.getElem_zipIdx] at here
  rw [here]
  simp [alias']

theorem rewrite_names {m : RowNumberTopK} {node : OperatorNode} (found : m.Matches dag node)
    (items : ∀ selectList qualifier filter, node.operator = .nonASAP (.project selectList qualifier filter) →
      node.schema.fields.length = selectList.length)
    {result : NodeRef} (run : m.rewrite d dag = .ok (result, later)) :
    (later.node result).schema.fields.map (·.name) = node.schema.fields.map (·.name) := by
  obtain ⟨inside, reads⟩ := ranked_inside found
  unfold RowNumberTopK.rewrite at run
  split at run
  · next partition order placed =>
    obtain ⟨partitions, orders, inclusion⟩ := inKept_some placed
    obtain ⟨⟨selected, mid⟩, first, run⟩ := bind_eq_ok run
    have project := project_built found inside first
    obtain ⟨sorted, _, sort, limit⟩ := limitSort_built project.inside (fun key member held holds => by
      rw [orderInKept_refs orders key member] at holds
      cases holds) run
    rw [limit_schema limit, sort_schema sort]
    exact project_names found items project
  · obtain ⟨⟨limited, mid⟩, first, run⟩ := bind_eq_ok run
    obtain ⟨_, _, _, limit⟩ := limitSort_built inside reads first
    exact project_names found items (project_built found limit.inside run)

/-- For every meaning of its expressions and every relation of its input, a rewritten per-partition top-k has the
rows and the column names of the node it replaces. -/
theorem row_number_top_k_preserves (s : Semantics V κ) (base : NodeRef → List (List V)) {dag later : Dag}
    {ref result : NodeRef} {m : RowNumberTopK} {schema : Schema}
    (derived : outputSchema d dag (dag.node ref).operator = .ok schema)
    (named : (dag.node ref).schema.fields.length = schema.fields.length)
    (found : rowNumberTopK dag (dag.node ref) = some m)
    (widths : ∀ row ∈ relation s base dag m.ranked, row.length = (dag.node m.ranked).schema.fields.length)
    (run : tryRewriteRowNumberTopK d dag (dag.node ref) = .ok (some (result, later))) :
    (relation s base later result).Perm (relation s base dag ref) ∧
      (later.node result).schema.fields.map (·.name) = (dag.node ref).schema.fields.map (·.name) := by
  have matched := rowNumberTopK_matches found
  have items : ∀ selectList qualifier filter,
      (dag.node ref).operator = .nonASAP (.project selectList qualifier filter) →
        (dag.node ref).schema.fields.length = selectList.length := by
    intro selectList qualifier filter projected
    rw [projected] at derived
    rw [named, projectSchema_length derived]
  have rewritten : m.rewrite d dag = .ok (result, later) := by
    unfold tryRewriteRowNumberTopK at run
    rw [found] at run
    dsimp only at run
    cases ran : m.rewrite d dag with
    | error e =>
      rw [ran] at run
      cases run
    | ok pair =>
      rw [ran] at run
      cases run
      rfl
  refine ⟨?_, rewrite_names matched items rewritten⟩
  rw [rewrite_rows matched widths rewritten, idiom_rows matched items widths]

end

/-! ### An instance -/

/-- Integer columns, with nothing computed but comparisons. -/
def integers : Semantics Int Int where
  eval
    | .column id, row => (row[id]?).getD 0
    | .compare (.column id) op (.literal (.int64 bound)) _, row =>
      if compareInt op ((row[id]?).getD 0) bound = some true then 1 else 0
    | _, _ => 0
  holds v := v = 1
  key := id
  compare ascending _ a b := if ascending then compareOfLessAndEq a b else compareOfLessAndEq b a
  number := Nat.cast
  others schema keys := (List.range schema.fields.length).filter fun column => !keys.contains column
  eval_column here := by simp [here]
  eval_compare semantics here decided := by
    simp only [here, Option.getD_some, decided]
    cases ‹Bool› <;> rfl

/-- The schemas of scans, for plans that rewrites build over them. -/
def overScans : Derivation where
  text := default
  scalarType _ _ := .error (.invalidScalarSignature "computed column")
  others _ op := match op with
    | .nonASAP (.scan _ _ schema) => .ok schema
    | _ => .error (.invalidScalarSignature "operator")

/-- `SELECT service, service, value FROM (SELECT *, ROW_NUMBER() OVER (PARTITION BY service ORDER BY value DESC) AS rn
FROM t) WHERE rn <= 2`. -/
def topTwo : Dag :=
  let service : SchemaField := .ofPlain "service" .int64 false
  let value : SchemaField := .ofPlain "value" .int64 false
  let node (op : NonASAPOp NodeRef) (fields : List SchemaField) : OperatorNode :=
    ⟨.nonASAP op, .relation, .new fields, none, none, .notMaterialized⟩
  .ofNodes [node (.scan (.table "t") [] (.new [service, value])) [service, value],
    node (.sqlWindowFunc .rowNumber [] (.by [0]) [⟨.column 1, false, false⟩] none "rn" 0)
      [service, value, .ofPlain "rn" .int64 false],
    node (.filter ⟨.compare (.column 2) .le (.literal (.int64 2)) .sql⟩ 1)
      [service, value, .ofPlain "rn" .int64 false],
    node (.project [⟨none, .column 0⟩, ⟨some "again", .column 0⟩, ⟨none, .column 1⟩] none 2)
      [service, { service with name := "again" }, value]]

/-- Two services, one of them with three rows. -/
def services (ref : NodeRef) : List (List Int) := if ref = 0 then [[1, 10], [2, 5], [1, 30], [1, 20]] else []

theorem row_number_top_k_preserves_topTwo : ∃ result later,
    tryRewriteRowNumberTopK overScans topTwo (topTwo.node 3) = .ok (some (result, later)) ∧
      (relation integers services later result).Perm (relation integers services topTwo 3) ∧
      (later.node result).schema.fields.map (·.name) = (topTwo.node 3).schema.fields.map (·.name) := by
  have input : relation integers services topTwo 0 = services 0 := by
    rw [relation]
    rfl
  have widths : ∀ row ∈ relation integers services topTwo 0, row.length = (topTwo.node 0).schema.fields.length := by
    rw [input]
    decide
  exact ⟨_, _, rfl, row_number_top_k_preserves (d := overScans) integers services rfl rfl rfl widths rfl⟩

end AsapPlanner.Canonical
