import AsapPlanner.TopK.Rows

/-!
The nodes an implemented top-k is made of, and exactly when it answers the logical top-k.
-/

namespace AsapPlanner.TopK
open Rust Ir Construction Canonical Traversal

variable {d : Derivation}

/-! ### The nodes -/

structure Chain (d : Derivation) (dag : Dag) (node : OperatorNode) (keys : GroupKeys) (k : Nat)
    (child result sorted limited : NodeRef) (value : ColumnId) (named : SchemaField)
    (cols : List (ProjectItem NodeRef)) : Prop where
  order : child < sorted ∧ sorted < limited ∧ limited < result ∧ result < dag.size
  ranked : rankedColumn d dag child = .ok value
  field : node.schema.fields[keys.keys.length]? = some named
  columns : rankedRowProjection d dag child (.reduce keys) named.name = .ok cols
  sort : (dag.node sorted).operator = .nonASAP (.sort [⟨.column value, false, false⟩] keys child)
  sortSchema : (dag.node sorted).schema = (dag.node child).schema
  limit : (dag.node limited).operator = .nonASAP (.limit (some k) 0 keys sorted)
  limitSchema : (dag.node limited).schema = (dag.node child).schema
  project : (dag.node result).operator = .nonASAP (.project cols none limited)
  projectSchema : projectSchema d (dag.node child).schema cols none = .ok (dag.node result).schema

theorem rankedRowProjection_extends {dag later : Dag} {child : NodeRef} {reduction : Reduction} {name : String}
    (grown : later.Extends dag) (inside : child < dag.size) :
    rankedRowProjection d later child reduction name = rankedRowProjection d dag child reduction name := by
  unfold rankedRowProjection
  rw [grown.node inside, rankedColumn_extends grown inside, readsOnlyTimeSeries_extends grown inside]

section
variable {dag later : Dag} {node : OperatorNode} {keys : GroupKeys} {k : Nat}
  {child result sorted limited : NodeRef} {value : ColumnId} {field : SchemaField}
  {cols : List (ProjectItem NodeRef)}

theorem Chain.child_lt (chain : Chain d dag node keys k child result sorted limited value field cols) :
    child < dag.size := by
  obtain ⟨first, second, third, last⟩ := chain.order
  exact Nat.lt_trans first (Nat.lt_trans second (Nat.lt_trans third last))

theorem Chain.extends (chain : Chain d dag node keys k child result sorted limited value field cols)
    (grown : later.Extends dag) :
    Chain d later node keys k child result sorted limited value field cols := by
  obtain ⟨first, second, third, last⟩ := chain.order
  have childNode := grown.node chain.child_lt
  have sortNode := grown.node (Nat.lt_trans second (Nat.lt_trans third last))
  have limitNode := grown.node (Nat.lt_trans third last)
  have projectNode := grown.node last
  exact {
    order := ⟨first, second, third, Nat.lt_of_lt_of_le last grown.size_le⟩
    ranked := by rw [rankedColumn_extends grown chain.child_lt, chain.ranked]
    field := chain.field
    columns := by rw [rankedRowProjection_extends grown chain.child_lt, chain.columns]
    sort := by rw [sortNode, chain.sort]
    sortSchema := by rw [sortNode, childNode, chain.sortSchema]
    limit := by rw [limitNode, chain.limit]
    limitSchema := by rw [limitNode, childNode, chain.limitSchema]
    project := by rw [projectNode, chain.project]
    projectSchema := by rw [projectNode, childNode, chain.projectSchema] }

/-! ### Building them -/

/-- A node built at the end of the store. -/
structure Added (d : Derivation) (state later : Implementing) (op : NonASAPOp NodeRef) (ref : NodeRef) : Prop where
  grown : later.dag.Extends state.dag
  place : ref = state.dag.size
  size : later.dag.size = state.dag.size + 1
  cache : later.cache = state.cache
  operator : (later.dag.node ref).operator = .nonASAP op
  schema : outputSchema d state.dag (.nonASAP op) = .ok (later.dag.node ref).schema

theorem build_added {op : NonASAPOp NodeRef} {guarantee : Option AccuracyGuarantee} {state later : Implementing}
    {ref : NodeRef} (inside : ∀ held ∈ op.children, held < state.dag.size)
    (run : build d op guarantee state = .ok (ref, later)) : Added d state later op ref := by
  unfold build at run
  cases derived : outputSchema d state.dag (.nonASAP op) with
  | error error =>
    rw [derived] at run
    cases run
  | ok schema =>
    rw [derived] at run
    let node : OperatorNode := { state.dag.withSchema (.nonASAP op) schema with guarantee }
    have new : ∀ held ∈ node.refs, held < state.dag.size := by
      intro held member
      rcases List.mem_append.mp member with reads | none
      · exact inside held reads
      · cases none
    have same : ((state.dag.alloc node).1, Implementing.mk (state.dag.alloc node).2 state.cache) =
        (ref, later) := Except.ok.inj run
    obtain ⟨rfl, rfl⟩ := Prod.mk.inj same
    have place := state.dag.alloc_ref node
    have stored : (state.dag.alloc node).2.node (state.dag.alloc node).1 = node := by
      rw [place]
      exact Dag.alloc_node new
    exact ⟨state.dag.alloc_extends node, place, Dag.alloc_size new, rfl, by rw [stored]; rfl,
      by rw [stored]; exact derived⟩

theorem checked_ok {α : Type} {wrap : SchemaDerivationError → PhysicalASAPOptimizationError}
    {checks : Checked α} {found : α} {state later : Implementing}
    (run : checked wrap checks state = .ok (found, later)) : checks = .ok found ∧ state = later := by
  unfold checked at run
  cases checks with
  | error error => cases run
  | ok found' =>
    cases run
    exact ⟨rfl, rfl⟩

theorem cols_refs {cols : List (ProjectItem NodeRef)} {keys : GroupKeys} {name : String}
    (listed : rankedRowProjection d dag child (.reduce keys) name = .ok cols) :
    ∀ item ∈ cols, item.expr.operatorRefs = [] := by
  obtain ⟨value, _, _, rfl⟩ := rankedRowProjection_eq listed
  intro item member
  rcases List.mem_append.mp member with key | rest
  · obtain ⟨_, _, rfl⟩ := List.mem_map.mp key
    rfl
  · rcases List.mem_cons.mp rest with rfl | other
    · rfl
    · obtain ⟨_, _, rfl⟩ := List.mem_map.mp other
      rfl

theorem rankedRows_chain {state done : Implementing} (inside : child < state.dag.size)
    (run : rankedRows d node keys k child state = .ok (result, done)) :
    done.dag.Extends state.dag ∧ done.cache = state.cache ∧ ∃ sorted limited value field cols,
      Chain d done.dag node keys k child result sorted limited value field cols := by
  unfold rankedRows at run
  obtain ⟨_, _, got, run⟩ := bind_ok run
  cases got
  obtain ⟨value, _, checks, run⟩ := bind_ok run
  obtain ⟨ranked, rfl⟩ := checked_ok checks
  obtain ⟨sorted, first, built, run⟩ := bind_ok run
  have sort := build_added (fun held member => by
    rcases List.mem_append.mp member with reads | scalar
    · cases List.mem_singleton.mp reads
      exact inside
    · cases scalar) built
  obtain ⟨limited, second, built, run⟩ := bind_ok run
  have limit := build_added (fun held member => by
    rcases List.mem_append.mp member with reads | scalar
    · cases List.mem_singleton.mp reads
      rw [sort.place, sort.size]
      exact Nat.lt_succ_self _
    · cases scalar) built
  cases found : node.schema.fields[keys.keys.length]? with
  | none =>
    rw [found] at run
    cases run
  | some field =>
    rw [found] at run
    obtain ⟨cols, _, checks, run⟩ := bind_ok run
    obtain ⟨columns, rfl⟩ := checked_ok checks
    have project := build_added (fun held member => by
      rcases List.mem_append.mp member with reads | scalar
      · cases List.mem_singleton.mp reads
        rw [limit.place, limit.size]
        exact Nat.lt_succ_self _
      · obtain ⟨expr, owned, holds⟩ := List.mem_flatMap.mp scalar
        obtain ⟨item, here, rfl⟩ := List.mem_map.mp owned
        rw [cols_refs columns item here] at holds
        cases holds) run
    have grown := sort.grown.trans (limit.grown.trans project.grown)
    have sortInside : sorted < first.dag.size := by rw [sort.place, sort.size]; exact Nat.lt_succ_self _
    have limitInside : limited < second.dag.size := by rw [limit.place, limit.size]; exact Nat.lt_succ_self _
    have childNode := grown.node inside
    have sortNode := (limit.grown.trans project.grown).node sortInside
    have limitNode := project.grown.node limitInside
    have sortSchema : (first.dag.node sorted).schema = (state.dag.node child).schema :=
      (Except.ok.inj sort.schema).symm
    have limitSchema : (second.dag.node limited).schema = (state.dag.node child).schema := by
      rw [← Except.ok.inj limit.schema]
      exact sortSchema
    refine ⟨grown, by rw [project.cache, limit.cache, sort.cache], sorted, limited, value, field, cols, ?_⟩
    exact {
      order := by
        rw [project.size, project.place, limit.place, sort.place, limit.size, sort.size]
        exact ⟨inside, Nat.lt_succ_self _, Nat.lt_succ_self _, Nat.lt_succ_self _⟩
      ranked := by rw [rankedColumn_extends grown inside, ranked]
      field := found
      columns := by rw [rankedRowProjection_extends grown inside, columns]
      sort := by rw [sortNode, sort.operator]
      sortSchema := by rw [sortNode, childNode, sortSchema]
      limit := by rw [limitNode, limit.operator]
      limitSchema := by rw [limitNode, childNode, limitSchema]
      project := project.operator
      projectSchema := by
        rw [childNode, ← limitSchema]
        exact project.schema }

/-! ### Rows -/

theorem Chain.rows {V κ : Type} [DecidableEq κ] (s : Semantics V κ) (contents : List (List V))
    (chain : Chain d dag node keys k child result sorted limited value field cols) :
    rowsOver s dag child contents result =
      (bestRows s (dag.node child).schema keys k value contents).map
        (columnsOf s (rankedColumns dag child keys.keys value)) := by
  obtain ⟨first, second, third, last⟩ := chain.order
  have leaf : rowsOver s dag child contents child = contents := by
    rw [rowsOver, if_pos rfl]
  have inSort : rowsOver s dag child contents sorted = Ranking.sorted
      (partKey s (dag.node child).schema keys) (rowLe s [⟨.column value, false, false⟩]) contents := by
    rw [rowsOver, if_neg (Nat.ne_of_gt first), chain.sort]
    dsimp only
    rw [dif_pos first, leaf]
  have inLimit : rowsOver s dag child contents limited =
      bestRows s (dag.node child).schema keys k value contents := by
    rw [rowsOver, if_neg (Nat.ne_of_gt (Nat.lt_trans first second)), chain.limit]
    dsimp only
    rw [dif_pos second, inSort, chain.sortSchema, limit_bestRows]
  rw [rowsOver, if_neg (Nat.ne_of_gt (Nat.lt_trans first (Nat.lt_trans second third))), chain.project]
  dsimp only
  rw [dif_pos third, inLimit]
  refine List.map_congr_left fun row _ => ?_
  obtain ⟨value', ranked, _, rfl⟩ := rankedRowProjection_eq chain.columns
  cases chain.ranked.symm.trans ranked
  unfold projectRow columnsOf rankedColumns
  rw [List.map_append, List.map_cons, List.map_append, List.map_cons, List.map_map, List.map_map]
  rfl

theorem getElem?_ranked {β : Type} (f : ColumnId → β) (ranked : β) (keys : List ColumnId) (value : ColumnId)
    (rest : List ColumnId) (i : Nat) :
    (keys.map f ++ ranked :: rest.map f)[i]? =
      ((keys ++ value :: rest)[i]?).map fun column => if i = keys.length then ranked else f column := by
  rcases Nat.lt_trichotomy i keys.length with before | rfl | after
  · rw [List.getElem?_append_left (by rwa [List.length_map]), List.getElem?_append_left before,
      List.getElem?_map]
    simp only [Nat.ne_of_lt before, if_false]
  · rw [List.getElem?_append_right (by rw [List.length_map]), List.getElem?_append_right (Nat.le_refl _),
      List.length_map, Nat.sub_self]
    simp
  · rw [List.getElem?_append_right (by rw [List.length_map]; omega),
      List.getElem?_append_right (Nat.le_of_lt after), List.length_map]
    obtain ⟨j, place⟩ : ∃ j, i - keys.length = j + 1 := ⟨i - keys.length - 1, by omega⟩
    rw [place, List.getElem?_cons_succ, List.getElem?_cons_succ, List.getElem?_map]
    simp only [Nat.ne_of_gt after, if_false]

theorem mem_ranked {keys rest : List ColumnId} {value column : ColumnId} {i : Nat}
    (here : (keys ++ value :: rest)[i]? = some column) (apart : i ≠ keys.length) :
    column ∈ keys ∨ column ∈ rest := by
  rcases Nat.lt_or_gt_of_ne apart with before | after
  · rw [List.getElem?_append_left before] at here
    exact .inl (List.mem_of_getElem? here)
  · obtain ⟨j, place⟩ : ∃ j, i - keys.length = j + 1 := ⟨i - keys.length - 1, by omega⟩
    rw [List.getElem?_append_right (Nat.le_of_lt after), place, List.getElem?_cons_succ] at here
    exact .inr (List.mem_of_getElem? here)

/-- The names of the result: the group keys' and the items' names in the child, and the ranked value's
own. -/
theorem Chain.names (chain : Chain d dag node keys k child result sorted limited value field cols) (i : Nat) :
    ((dag.node result).schema.fields[i]?).map (·.name) =
      ((rankedColumns dag child keys.keys value)[i]?).bind fun column =>
        if i = keys.keys.length then some field.name
        else ((dag.node child).schema.fields[column]?).map (·.name) := by
  obtain ⟨value', ranked, inside, listed⟩ := rankedRowProjection_eq chain.columns
  cases chain.ranked.symm.trans ranked
  have names := projectSchema_fields chain.projectSchema
  have item : cols[i]? = ((rankedColumns dag child keys.keys value)[i]?).map fun column =>
      if i = keys.keys.length then ⟨some field.name, .column value⟩ else kept (dag.node child).schema column := by
    rw [listed, getElem?_ranked _ _ _ value]
    rfl
  have lengths := names.length_eq
  rw [List.length_zipIdx] at lengths
  cases column : (rankedColumns dag child keys.keys value)[i]? with
  | none =>
    rw [column, Option.map_none, List.getElem?_eq_none_iff, lengths] at item
    rw [List.getElem?_eq_none item]
    rfl
  | some column' =>
    rw [column, Option.map_some] at item
    obtain ⟨before, here⟩ := List.getElem?_eq_some_iff.mp item
    have found := List.getElem?_eq_getElem (lengths ▸ before)
    have named := getElem?_of_forall₂ names (by rw [List.getElem?_zipIdx, item]; rfl) found
    rw [found, Option.map_some, Option.bind_some, named]
    by_cases place : i = keys.keys.length
    · rw [if_pos place, if_pos place]
      rfl
    · rw [if_neg place, if_neg place]
      have columnInside : column' < (dag.node child).schema.fields.length := by
        rcases mem_ranked column place with key | rest
        · exact inside column' key
        · exact mem_items rest
      unfold kept
      rw [List.getElem?_eq_getElem columnInside]
      rfl

end

/-! ### When a chain answers the top-k -/

/-- A node answers a top-k: each column of the top-k has its name there, and over any contents of the
child the columns hold what the top-k's do, for the best rows of each group. -/
structure Answers (store : Dag) (node : OperatorNode) (keys : GroupKeys) (k : Nat) (value : ColumnId)
    (columns : List ColumnId) (child result : NodeRef) : Prop where
  names : ∀ (i : Nat) (field : SchemaField), node.schema.fields[i]? = some field →
    ∃ other : SchemaField, (store.node result).schema.fields[i]? = some other ∧ other.name = field.name
  rows : ∀ (V κ : Type) [DecidableEq κ] (s : Semantics V κ) (contents : List (List V)),
    (∀ row ∈ contents, row.length = (store.node child).schema.fields.length) →
      (rowsOver s store child contents result).map (·.take columns.length) =
        (bestRows s (store.node child).schema keys k value contents).map (columnsOf s columns)

/-- The top-k's names are its child's, and the columns ranked in the implemented child start with those
ranked in the child. -/
structure Keeps (store : Dag) (node : OperatorNode) (keys : GroupKeys) (k : Nat) (columns : List ColumnId)
    (child : NodeRef) (value : ColumnId) : Prop where
  names : ∀ (i : Nat) (field : SchemaField), node.schema.fields[i]? = some field → i = keys.keys.length ∨
    ∃ column, (rankedColumns store child keys.keys value)[i]? = some column ∧
      ((store.node child).schema.fields[column]?).map (·.name) = some field.name
  columns : k = 0 ∨ columns <+: rankedColumns store child keys.keys value

def positions : Semantics Int Int where
  eval
    | .column id, row => (row[id]?).getD id
    | .compare (.column id) op (.literal (.int64 bound)) _, row =>
      if compareInt op ((row[id]?).getD id) bound = some true then 1 else 0
    | _, _ => 0
  holds v := v = 1
  key := id
  compare _ _ a b := compareOfLessAndEq a b
  number := Nat.cast
  others schema keys := (List.range schema.fields.length).filter fun column => !keys.contains column
  eval_column here := by simp [here]
  eval_compare semantics here decided := by
    simp only [here, Option.getD_some, decided]
    cases ‹Bool› <;> rfl

theorem bestRows_none {V κ : Type} [DecidableEq κ] (s : Semantics V κ) (schema : Schema) (keys : GroupKeys)
    (value : ColumnId) (rows : List (List V)) : bestRows s schema keys 0 value rows = [] := by
  unfold bestRows
  simp

theorem bestRows_single {V κ : Type} [DecidableEq κ] (s : Semantics V κ) (schema : Schema) (keys : GroupKeys)
    {k : Nat} (some : 0 < k) (value : ColumnId) (row : List V) :
    bestRows s schema keys k value [row] = [row] := by
  unfold bestRows Ranking.partitions
  obtain ⟨k, rfl⟩ := Nat.exists_eq_add_of_lt some
  simp

theorem Chain.answers_iff {store : Dag} {node : OperatorNode} {keys : GroupKeys} {k : Nat}
    {child result sorted limited : NodeRef} {value value' : ColumnId} {field : SchemaField}
    {cols : List (ProjectItem NodeRef)} (others : List ColumnId)
    (chain : Chain d store node keys k child result sorted limited value' field cols) :
    Answers store node keys k value (keys.keys ++ value :: others) child result ↔
      Keeps store node keys k (keys.keys ++ value :: others) child value' := by
  have place : (rankedColumns store child keys.keys value')[keys.keys.length]? = some value' := by
    unfold rankedColumns
    rw [List.getElem?_append_right (Nat.le_refl _), Nat.sub_self]
    rfl
  constructor
  · intro answers
    refine ⟨fun i field' here => ?_, ?_⟩
    · obtain ⟨other, there, same⟩ := answers.names i field' here
      have named := chain.names i
      rw [there, Option.map_some] at named
      obtain ⟨column, listed, shown⟩ := Option.bind_eq_some_iff.mp named.symm
      by_cases value : i = keys.keys.length
      · exact .inl value
      · rw [if_neg value] at shown
        exact .inr ⟨column, listed, by rw [shown, same]⟩
    · by_contra apart
      rw [not_or] at apart
      have some : 0 < k := Nat.pos_of_ne_zero apart.1
      -- One row whose columns hold their positions tells any two columns apart.
      have rows := answers.rows Int Int positions
        [(List.range (store.node child).schema.fields.length).map Nat.cast] (by simp)
      rw [chain.rows, bestRows_single _ _ _ some, bestRows_single _ _ _ some, List.map_singleton,
        List.map_singleton, List.map_singleton] at rows
      have own (columns : List ColumnId) : columnsOf positions columns
          ((List.range (store.node child).schema.fields.length).map Nat.cast) = columns.map Nat.cast := by
        refine List.map_congr_left fun column _ => ?_
        show (((List.range _).map Nat.cast)[column]?).getD (column : Int) = column
        rw [List.getElem?_map]
        by_cases inside : column < (store.node child).schema.fields.length
        · rw [List.getElem?_range inside]
          rfl
        · rw [List.getElem?_eq_none (by rw [List.length_range]; exact Nat.not_lt.mp inside)]
          rfl
      rw [own, own, ← List.map_take] at rows
      apply apart.2
      have same := List.map_injective_iff.mpr (fun a b same => Int.natCast_inj.mp same)
        (List.singleton_inj.mp rows)
      rw [← same]
      exact List.take_prefix _ _
  · intro keeps
    refine ⟨fun i field' here => ?_, fun V κ _ s contents _ => ?_⟩
    · have named := chain.names i
      have there : ∃ other, ((store.node result).schema.fields[i]?).map (·.name) = some other ∧
          other = field'.name := by
        rw [named]
        rcases keeps.names i field' here with rfl | ⟨column, listed, shown⟩
        · cases chain.field.symm.trans here
          exact ⟨_, by rw [place, Option.bind_some, if_pos rfl], rfl⟩
        · rw [listed, Option.bind_some]
          by_cases value : i = keys.keys.length
          · subst value
            cases chain.field.symm.trans here
            exact ⟨_, by rw [if_pos rfl], rfl⟩
          · rw [if_neg value]
            exact ⟨_, shown, rfl⟩
      obtain ⟨name, shown, same⟩ := there
      obtain ⟨other, found, own⟩ := Option.map_eq_some_iff.mp shown
      exact ⟨other, found, own.trans same⟩
    · rw [chain.rows]
      rcases keeps.columns with rfl | ⟨more, columns⟩
      · rw [bestRows_none, bestRows_none]
        rfl
      · have same : value = value' := by
          have here := congrArg (·[keys.keys.length]?) columns
          rw [place, List.append_assoc, List.getElem?_append_right (Nat.le_refl _), Nat.sub_self] at here
          exact Option.some.inj here
        rw [← columns, ← same, List.map_map]
        refine List.map_congr_left fun row _ => ?_
        show (columnsOf s _ row).take _ = _
        unfold columnsOf
        rw [← List.map_take, List.take_left]

end AsapPlanner.TopK
