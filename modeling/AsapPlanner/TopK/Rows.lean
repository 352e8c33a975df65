import AsapPlanner.TopK.Implement

/-!
The rows of an implemented top-k, over any contents of its child.
-/

namespace AsapPlanner.TopK
open Rust Ir Construction Canonical Traversal

/-! ### What a top-k asks for -/

section
variable {V κ : Type} [DecidableEq κ] (s : Semantics V κ)

def rowsOver (dag : Dag) (leaf : NodeRef) (contents : List (List V)) (ref : NodeRef) : List (List V) :=
  let of (child : NodeRef) : List (List V) :=
    if _below : child < ref then rowsOver dag leaf contents child else []
  if ref = leaf then contents
  else match (dag.node ref).operator with
    | .nonASAP (.project cols _ child) => (of child).map (projectRow s cols)
    | .nonASAP (.sort keys partitionBy child) =>
      Ranking.sorted (partKey s (dag.node child).schema partitionBy) (rowLe s keys) (of child)
    | .nonASAP (.limit n offset partitionBy child) =>
      Ranking.limit (partKey s (dag.node child).schema partitionBy) (rowsKept n offset) [] (of child)
    | _ => []

/-- A row goes before another when its ranked value is larger; NULLs go last. -/
def outranks (value : ColumnId) (a b : List V) : Bool :=
  (s.compare false false (s.eval (.column value) a) (s.eval (.column value) b)).isLE

/-- The first `k` rows of each group by their ranked value; rows that tie stay as they came. -/
def bestRows (schema : Schema) (keys : GroupKeys) (k : Nat) (value : ColumnId) (rows : List (List V)) :
    List (List V) :=
  (Ranking.partitions (partKey s schema keys) rows).flatMap fun group =>
    ((rows.filter fun row => partKey s schema keys row = group).mergeSort (outranks s value)).take k

/-- The values of some columns. -/
def columnsOf (columns : List ColumnId) (row : List V) : List V :=
  columns.map fun column => s.eval (.column column) row

end

/-- What identifies an item of the ranked rows: the columns beside the group keys and the ranked value,
the series identity last. -/
def items {β : Type} (of : ColumnId → β) (dag : Dag) (child : NodeRef) (keys : List ColumnId)
    (value : ColumnId) : List β :=
  let schema := (dag.node child).schema
  let names (index : ColumnId) (field : SchemaField) : Bool :=
    (!readsOnlyTimeSeries dag child || same field.dtype (.plain .utf8)) && index ≠ value &&
      !keys.contains index && field.name ≠ promqlSeriesIdentity
  (schema.fields.zipIdx.filterMap fun (field, index) =>
    if names index field then some (of index) else none) ++
  match (List.range schema.fields.length).filter fun index =>
      (schema.fields[index]?).any fun field => field.name = promqlSeriesIdentity with
    | [index] => if keys.contains index then [] else [of index]
    | _ => []

def rankedColumns (dag : Dag) (child : NodeRef) (keys : List ColumnId) (value : ColumnId) : List ColumnId :=
  keys ++ value :: items id dag child keys value

section
variable {d : Derivation} {dag : Dag} {child : NodeRef}

theorem items_map {β γ : Type} (of : ColumnId → β) (f : β → γ) (keys : List ColumnId) (value : ColumnId) :
    (items of dag child keys value).map f = items (f ∘ of) dag child keys value := by
  unfold items
  rw [List.map_append, List.map_filterMap]
  congr 1
  · apply List.filterMap_congr
    rintro ⟨field, index⟩ _
    dsimp only
    split <;> rfl
  · split
    · split <;> rfl
    · rfl

theorem mem_items {keys : List ColumnId} {value column : ColumnId}
    (member : column ∈ items id dag child keys value) : column < (dag.node child).schema.fields.length := by
  unfold items at member
  rcases List.mem_append.mp member with named | identity
  · obtain ⟨⟨field, index⟩, entry, shown⟩ := List.mem_filterMap.mp named
    dsimp only at shown
    split at shown
    · cases shown
      exact (List.getElem?_eq_some_iff.mp (List.mem_zipIdx_iff_getElem?.mp entry)).1
    · cases shown
  · split at identity
    · next index only =>
      split at identity
      · cases identity
      · cases List.mem_singleton.mp identity
        have listed : index ∈ (List.range (dag.node child).schema.fields.length).filter fun index =>
            ((dag.node child).schema.fields[index]?).any fun field => field.name = promqlSeriesIdentity := by
          rw [only]
          exact List.mem_singleton_self index
        exact List.mem_range.mp (List.mem_filter.mp listed).1
    · cases identity

theorem rankedRowProjection_eq {keys : GroupKeys} {name : String} {cols : List (ProjectItem NodeRef)}
    (listed : rankedRowProjection d dag child (.reduce keys) name = .ok cols) :
    ∃ value, rankedColumn d dag child = .ok value ∧
      (∀ key ∈ keys.keys, key < (dag.node child).schema.fields.length) ∧
      cols = keys.keys.map (kept (dag.node child).schema) ++ ⟨some name, .column value⟩ ::
        (items id dag child keys.keys value).map (kept (dag.node child).schema) := by
  unfold rankedRowProjection at listed
  obtain ⟨value, ranked, rest⟩ := bind_eq_ok listed
  refine ⟨value, ranked, ?_⟩
  dsimp only [groupKeys] at rest
  cases found : keys.keys.find? fun index => (dag.node child).schema.fields.length ≤ index with
  | some index =>
    rw [found] at rest
    cases rest
  | none =>
    rw [found] at rest
    cases rest
    refine ⟨fun key member => ?_, ?_⟩
    · by_contra out
      exact List.find?_eq_none.mp found key member (decide_eq_true (Nat.not_lt.mp out))
    · rw [items_map, List.append_assoc]
      rfl

/-! ### What a growing store leaves alone -/

section
variable {later : Dag} {ref : NodeRef}

theorem rankedBy_extends (grown : later.Extends dag) (inside : ref < dag.size) :
    rankedBy later ref = rankedBy dag ref := by
  induction ref using Nat.strongRecOn with
  | ind ref ih =>
    have same := grown.node inside
    have through {child : NodeRef} (reads : child ∈ dag.children ref) :
        child < ref ∧ later.node child = dag.node child ∧ rankedBy later child = rankedBy dag child := by
      have below := dag.child_lt reads
      have here := Nat.lt_trans below inside
      exact ⟨below, grown.node here, ih child below here⟩
    unfold Dag.children OperatorNode.children at through
    rw [rankedBy, rankedBy, same]
    cases operator : (dag.node ref).operator with
    | nonASAP op =>
      rw [operator] at through
      cases op with
      | project cols qualifier child =>
        obtain ⟨below, node, ranked⟩ := through (List.mem_append_left _ (List.mem_singleton_self child))
        dsimp only
        rw [node, dif_pos below, dif_pos below, ranked]
      | filter pred child =>
        obtain ⟨below, _, ranked⟩ := through (List.mem_append_left _ (List.mem_singleton_self child))
        dsimp only
        rw [dif_pos below, dif_pos below, ranked]
      | aggregate reduction measures names filters having child =>
        match measures with
        | [] => rfl
        | [measure] | measure :: _ :: _ => cases measure <;> rfl
      | _ => rfl
    | asap op =>
      rw [operator] at through
      cases op with
      | finalizeExactAccumulator child =>
        obtain ⟨below, _, ranked⟩ := through (List.mem_cons_self)
        dsimp only
        rw [dif_pos below, dif_pos below, ranked]
      | summaryEstimate child =>
        obtain ⟨below, _, ranked⟩ := through (List.mem_cons_self)
        dsimp only
        rw [dif_pos below, dif_pos below, ranked]
      | _ => rfl

theorem rankedColumn_extends (grown : later.Extends dag) (inside : ref < dag.size) :
    rankedColumn d later ref = rankedColumn d dag ref := by
  unfold rankedColumn
  rw [rankedBy_extends grown inside, grown.node inside]

theorem readsOnlyTimeSeries_extends (grown : later.Extends dag) (inside : ref < dag.size) :
    readsOnlyTimeSeries later ref = readsOnlyTimeSeries dag ref := by
  induction ref using Nat.strongRecOn with
  | ind ref ih =>
    have same := grown.node inside
    have children : later.children ref = dag.children ref := by
      unfold Dag.children
      rw [same]
    have each : ((dag.children ref).all fun child =>
        if _below : child < ref then readsOnlyTimeSeries later child else true) =
        (dag.children ref).all fun child =>
          if _below : child < ref then readsOnlyTimeSeries dag child else true := by
      apply List.all_congr rfl
      intro child
      split
      · next below => rw [ih child below (Nat.lt_trans below inside)]
      · rfl
    rw [readsOnlyTimeSeries, readsOnlyTimeSeries, same, children, each]

theorem items_extends {β : Type} {of : ColumnId → β} {keys : List ColumnId} {value : ColumnId}
    (grown : later.Extends dag) (inside : ref < dag.size) :
    items of later ref keys value = items of dag ref keys value := by
  unfold items
  rw [grown.node inside, readsOnlyTimeSeries_extends grown inside]

end

/-! ### The rows of a limited sort -/

section
variable {V κ : Type} [DecidableEq κ] {s : Semantics V κ}

theorem pick_take {α : Type} (k first : Nat) (rows : List α) :
    Ranking.pick (rowsKept (some k) 0) first rows = rows.take (k - first) := by
  induction rows generalizing first with
  | nil => rw [List.take_nil]; rfl
  | cons row rows ih =>
    have later := ih (first + 1)
    unfold Ranking.pick at later ⊢
    rw [List.zipIdx_cons, List.filter_cons]
    by_cases kept : first < k
    · have place : rowsKept (some k) 0 first = true := by simp [rowsKept, kept]
      have count : k - first = k - (first + 1) + 1 := by omega
      rw [if_pos place, List.map_cons, later, count, List.take_succ_cons]
    · have place : ¬ rowsKept (some k) 0 first = true := by simp [rowsKept, kept]
      have count : k - (first + 1) = 0 := by omega
      have none : k - first = 0 := by omega
      rw [if_neg place, later, count, none, List.take_zero, List.take_zero]

omit [DecidableEq κ] in
theorem rowLe_outranks (value : ColumnId) (a b : List V) :
    rowLe s [⟨.column value, false, false⟩] a b = outranks s value a b := by
  unfold rowLe outranks
  rw [List.map_singleton, List.foldr_cons, List.foldr_nil]
  cases s.compare false false (s.eval (.column value) a) (s.eval (.column value) b) <;> rfl

theorem limit_bestRows (schema : Schema) (keys : GroupKeys) (k : Nat) (value : ColumnId)
    (rows : List (List V)) :
    Ranking.limit (partKey s schema keys) (rowsKept (some k) 0) []
        (Ranking.sorted (partKey s schema keys) (rowLe s [⟨.column value, false, false⟩]) rows) =
      bestRows s schema keys k value rows := by
  rw [Ranking.limit_sorted]
  unfold bestRows Ranking.ranked
  have order : rowLe s [⟨.column value, false, false⟩] = outranks s value := by
    funext a b
    exact rowLe_outranks value a b
  rw [order]
  refine List.flatMap_congr fun group _ => ?_
  rw [pick_take, Nat.sub_zero]

end

end
end AsapPlanner.TopK
