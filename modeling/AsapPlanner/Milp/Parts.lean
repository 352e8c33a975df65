import AsapPlanner.Milp.Program
import AsapPlanner.Rust.BTreeMap
import AsapPlanner.Rust.Integer
import AsapPlanner.Traversal.UnionFind
import Mathlib.Logic.Relation
import Mathlib.Order.WithBot

/-!
The independent parts of a selection MILP: the columns each row joins, grouped by the first query that has an
output among them.
-/

namespace AsapPlanner.Milp
open Rust Traversal

/-- A selection MILP's program, the query and the candidates of each output reference, and the columns of a
query's choices. -/
structure SelectionMilp where
  program : Program
  inside : program.Inside
  outputs : List (Nat × List Nat)
  choice : Nat → Nat → Option Nat
  choice_lt : ∀ query candidate column, choice query candidate = some column →
    column < program.definitions.length

/-- A part's queries, beside its columns and rows. -/
structure IndependentPart extends Block where
  queries : List Nat
deriving DecidableEq, Repr

/-- The parts found, by their first query; the part without a query comes first. -/
abbrev PartMap : Type := BTreeMap (WithBot Nat) IndependentPart

namespace IndependentPart

def empty : IndependentPart := ⟨⟨[], []⟩, []⟩

def addColumn (column : Nat) (part : IndependentPart) : IndependentPart :=
  { part with columns := part.columns ++ [column] }

def addRow (row : Nat) (part : IndependentPart) : IndependentPart := { part with rows := part.rows ++ [row] }

def addQuery (query : Nat) (part : IndependentPart) : IndependentPart :=
  if query ∈ part.queries then part else { part with queries := part.queries ++ [query] }

end IndependentPart

def PartMap.changePart (parts : PartMap) (key : WithBot Nat) (change : IndependentPart → IndependentPart)
    (missing : String) : Except String PartMap :=
  match parts.get? key with
  | some _ => pure (parts.change key .empty change)
  | none => throw missing

namespace SelectionMilp
variable (milp : SelectionMilp)

def columnCount : Nat := milp.program.definitions.length

/-- The columns of a query's choices among the candidates of one of its output references. -/
def outputColumns (output : Nat × List Nat) : List Nat := output.2.filterMap (milp.choice output.1)

/-- What bounds the climb of a search: the entries of all rows. -/
def fuel : Nat := (milp.program.rows.map Row.columns).flatten.length

def queryOfComponent (roots : List Nat) (queries : List Nat) : BTreeMap Nat Nat :=
  (roots.zip queries).foldl (fun map entry => map.change entry.1 entry.2 id) .empty

def joined : Nat → Nat := UnionFind.joinAll milp.fuel (milp.program.rows.map Row.columns)

def queryColumns : List (Nat × Nat) :=
  milp.outputs.flatMap fun output => (milp.outputColumns output).map (output.1, ·)

def partKey : Option Nat → WithBot Nat
  | none => ⊥
  | some query => query

def partOfColumn : List (WithBot Nat) :=
  let found := UnionFind.findAll milp.fuel (milp.queryColumns.map Prod.snd) milp.joined
  let queries := queryOfComponent found.1 (milp.queryColumns.map Prod.fst)
  (UnionFind.findAll milp.fuel (List.range milp.columnCount) found.2).1.map fun component =>
    partKey (queries.get? component)

def listQuery (partOfColumn : List (WithBot Nat)) (parts : PartMap) (output : Nat × List Nat) :
    Except String PartMap :=
  match (milp.outputColumns output).head? with
  | none => pure parts
  | some column => do
    let key ← atIndex partOfColumn column
    parts.changePart key (.addQuery output.1) "its column's part"

def listRow (partOfColumn : List (WithBot Nat)) (parts : PartMap) (entry : Row × Nat) : Except String PartMap := do
  let key ← match entry.1.columns, parts.entries with
    | column :: _, _ => atIndex partOfColumn column
    | [], (first, _) :: _ => pure first
    | [], [] => throw "a part"
  parts.changePart key (.addRow entry.2) "a part"

/-- The place of a part in the order of first queries, the part without a query last. -/
def orderOf : WithBot Nat → Nat
  | ⊥ => u64Max
  | (query : Nat) => query

/-- The parts by key, every column, output reference and row put into one. -/
def groupedParts : Except String PartMap := do
  let partOfColumn := milp.partOfColumn
  let parts : PartMap := partOfColumn.zipIdx.foldl
    (fun parts entry => parts.change entry.1 .empty (.addColumn entry.2)) .empty
  let parts ← milp.outputs.foldlM (milp.listQuery partOfColumn) parts
  milp.program.rows.zipIdx.foldlM (listRow partOfColumn) parts

def inOrder (parts : List (WithBot Nat × IndependentPart)) : List IndependentPart :=
  (parts.mergeSort fun a b => orderOf a.1 ≤ orderOf b.1).map fun entry =>
    { entry.2 with queries := entry.2.queries.mergeSort }

def independentParts : Except String (List IndependentPart) := do
  let parts ← milp.groupedParts
  pure (inOrder parts.entries)

/-- The programs solved one by one, each with its columns: the whole one, unless there are several parts. -/
def partModels (parts : List IndependentPart) : Except String (List (Program × List Nat)) :=
  if parts.length ≤ 1 then pure [(milp.program, List.range milp.columnCount)]
  else do
    let models ← milp.program.split (parts.map (·.toBlock))
    pure (models.zip (parts.map (·.columns)))

/-! ### Keys of columns -/

def component (column : Nat) : Nat := UnionFind.top milp.fuel milp.joined column

def keyOf (column : Nat) : WithBot Nat :=
  partKey ((queryOfComponent (milp.queryColumns.map fun entry => milp.component entry.2)
    (milp.queryColumns.map Prod.fst)).get? (milp.component column))

theorem partOfColumn_eq : milp.partOfColumn = (List.range milp.columnCount).map milp.keyOf := by
  obtain ⟨⟨rank, ranked⟩, -⟩ := UnionFind.joinAll_spec (milp.program.rows.map Row.columns)
    (Nat.le_refl milp.fuel)
  obtain ⟨roots, ranked', tops⟩ := UnionFind.findAll_spec (milp.queryColumns.map Prod.snd) ranked
    (Nat.le_refl _)
  obtain ⟨columnRoots, -⟩ := UnionFind.findAll_spec (List.range milp.columnCount) ranked' (Nat.le_refl _)
  change (UnionFind.findAll milp.fuel _ milp.joined).1 = _ at roots
  change (UnionFind.findAll milp.fuel _ (UnionFind.findAll milp.fuel _ milp.joined).2).1 = _ at columnRoots
  rw [List.map_map] at roots
  simp only [partOfColumn, roots, columnRoots, List.map_map]
  refine List.map_congr_left fun column _ => ?_
  rw [Function.comp_apply, keyOf]
  exact congrArg partKey (congrArg _ (tops column))

/-- Two columns are in one row. -/
def ShareRow (a b : Nat) : Prop := ∃ row ∈ milp.program.rows, a ∈ row.columns ∧ b ∈ row.columns

theorem keyOf_shareRow {a b : Nat} (shared : milp.ShareRow a b) : milp.keyOf a = milp.keyOf b := by
  obtain ⟨row, listed, here, there⟩ := shared
  obtain ⟨-, together⟩ := UnionFind.joinAll_spec (milp.program.rows.map Row.columns)
    (Nat.le_refl milp.fuel)
  have same : milp.component a = milp.component b :=
    together row.columns (List.mem_map_of_mem listed) a here b there
  rw [keyOf, keyOf, same]

theorem keyOf_connected {a b : Nat} (connected : Relation.EqvGen milp.ShareRow a b) :
    milp.keyOf a = milp.keyOf b := by
  induction connected with
  | rel _ _ shared => exact milp.keyOf_shareRow shared
  | refl => rfl
  | symm _ _ _ ih => exact ih.symm
  | trans _ _ _ _ _ first second => exact first.trans second

/-! ### What each part holds -/

def columnsOf (key : WithBot Nat) : List Nat := (List.range milp.columnCount).filter (milp.keyOf · = key)

/-- The parts before any query or row is put into one. -/
def columnParts : PartMap :=
  milp.partOfColumn.zipIdx.foldl (fun parts entry => parts.change entry.1 .empty (.addColumn entry.2)) .empty

def keys : List (WithBot Nat) := milp.columnParts.entries.map Prod.fst

/-- The parts are those of the columns, with these queries and rows. -/
structure Holds (queries rows : WithBot Nat → List Nat) (parts : PartMap) : Prop where
  listed : parts.entries.map Prod.fst = milp.keys
  part : ∀ key ∈ milp.keys, parts.get? key = some ⟨⟨milp.columnsOf key, rows key⟩, queries key⟩

theorem foldl_addColumn (columns : List Nat) (part : IndependentPart) :
    columns.foldl (fun part column => part.addColumn column) part =
      { part with columns := part.columns ++ columns } := by
  induction columns generalizing part with
  | nil => simp
  | cons column rest ih =>
    rw [List.foldl_cons, ih]
    simp [IndependentPart.addColumn]

theorem get?_columnParts (key : WithBot Nat) : milp.columnParts.get? key =
    if milp.columnsOf key = [] then none else some ⟨⟨milp.columnsOf key, []⟩, []⟩ := by
  have numbered : milp.partOfColumn.zipIdx = (List.range milp.columnCount).map fun column =>
      (milp.keyOf column, column) := by
    apply List.ext_getElem?
    intro position
    rw [partOfColumn_eq, List.getElem?_zipIdx, List.getElem?_map, List.getElem?_map]
    by_cases inside : position < milp.columnCount
    · simp [inside]
    · simp [Nat.le_of_not_lt inside]
  have folded : milp.columnParts = (List.range milp.columnCount).foldl
      (fun parts column => parts.change (milp.keyOf column) .empty (.addColumn column)) .empty := by
    rw [columnParts, numbered, List.foldl_map]
  rw [folded, BTreeMap.get?_foldl_change, foldl_addColumn]
  rfl

theorem mem_keys {key : WithBot Nat} : key ∈ milp.keys ↔ milp.columnsOf key ≠ [] := by
  have entry : key ∈ milp.keys ↔ ∃ part, milp.columnParts.get? key = some part := by
    simp only [keys, List.mem_map, Prod.exists, BTreeMap.mem_entries]
    constructor
    · rintro ⟨_, part, here, rfl⟩
      exact ⟨part, here⟩
    · rintro ⟨part, here⟩
      exact ⟨key, part, here, rfl⟩
  rw [entry, get?_columnParts]
  split <;> simp [*]

theorem keyOf_mem_keys {column : Nat} (inside : column < milp.columnCount) : milp.keyOf column ∈ milp.keys :=
  milp.mem_keys.mpr (List.ne_nil_of_mem (List.mem_filter.mpr ⟨List.mem_range.mpr inside, by simp⟩))

theorem keys_nodup : milp.keys.Nodup := milp.columnParts.keys_nodup

theorem holds_columnParts : milp.Holds (fun _ => []) (fun _ => []) milp.columnParts :=
  ⟨rfl, fun key listed => by rw [get?_columnParts, if_neg (milp.mem_keys.mp listed)]⟩

variable {milp}

theorem Holds.changePart {queries rows : WithBot Nat → List Nat} {parts : PartMap}
    (holds : milp.Holds queries rows parts) {key : WithBot Nat} (listed : key ∈ milp.keys)
    (queries' rows' : WithBot Nat → List Nat) (change : IndependentPart → IndependentPart) (missing : String)
    (changed : change ⟨⟨milp.columnsOf key, rows key⟩, queries key⟩ =
      ⟨⟨milp.columnsOf key, rows' key⟩, queries' key⟩)
    (others : ∀ other ≠ key, queries' other = queries other ∧ rows' other = rows other) :
    ∃ parts', parts.changePart key change missing = .ok parts' ∧ milp.Holds queries' rows' parts' := by
  have here := holds.part key listed
  refine ⟨parts.change key .empty change, by rw [PartMap.changePart, here]; rfl, ?_, fun other member => ?_⟩
  · rw [← holds.listed]
    exact changeEntry_keys parts.sorted here
  · rw [BTreeMap.get?_change]
    split
    next same => rw [same, here, Option.getD_some, changed]
    next differ => rw [holds.part other member, (others other differ).1, (others other differ).2]

/-! ### Queries and rows of a part -/

theorem atIndex_partOfColumn {column : Nat} (inside : column < milp.columnCount) :
    atIndex milp.partOfColumn column = .ok (milp.keyOf column) := by
  rw [atIndex, partOfColumn_eq, List.getElem?_map, List.getElem?_range inside]
  rfl

theorem outputColumns_lt {output : Nat × List Nat} {column : Nat} (member : column ∈ milp.outputColumns output) :
    column < milp.columnCount := by
  obtain ⟨candidate, -, chosen⟩ := List.mem_filterMap.mp member
  exact milp.choice_lt _ _ _ chosen

theorem listQueries (outputs : List (Nat × List Nat)) {queries rows : WithBot Nat → List Nat} {parts : PartMap}
    (holds : milp.Holds queries rows parts) : ∃ parts' queries',
      outputs.foldlM (milp.listQuery milp.partOfColumn) parts = .ok parts' ∧ milp.Holds queries' rows parts' ∧
        ∀ key query, query ∈ queries' key ↔ query ∈ queries key ∨ ∃ output ∈ outputs, output.1 = query ∧
          ∃ column, (milp.outputColumns output).head? = some column ∧ milp.keyOf column = key := by
  induction outputs generalizing parts queries with
  | nil => exact ⟨parts, queries, rfl, holds, by simp⟩
  | cons output rest ih =>
    rw [List.foldlM_cons]
    cases first : (milp.outputColumns output).head? with
    | none =>
      obtain ⟨parts', queries', run, holds', listed⟩ := ih holds
      refine ⟨parts', queries', ?_, holds', fun key query => ?_⟩
      · rw [listQuery, first]
        exact run
      · rw [listed]
        simp [first]
    | some column =>
      have inside := outputColumns_lt (List.mem_of_head? first)
      obtain ⟨between, changed, held⟩ := holds.changePart (milp.keyOf_mem_keys inside)
        (Function.update queries (milp.keyOf column)
          (if output.1 ∈ queries (milp.keyOf column) then queries (milp.keyOf column)
            else queries (milp.keyOf column) ++ [output.1]))
        rows (.addQuery output.1) "its column's part"
        (by
          rw [Function.update_self, IndependentPart.addQuery]
          split <;> rfl)
        fun other differ => ⟨Function.update_of_ne differ .., rfl⟩
      obtain ⟨parts', queries', run, holds', listed⟩ := ih held
      refine ⟨parts', queries', ?_, holds', fun key query => ?_⟩
      · simp only [listQuery, first, atIndex_partOfColumn inside]
        exact (congrArg (· >>= _) changed).trans run
      · rw [listed, List.exists_mem_cons_iff, ← or_assoc]
        refine or_congr ?_ Iff.rfl
        simp only [first, Option.some.injEq, exists_eq_left']
        by_cases here : key = milp.keyOf column
        · subst here
          rw [Function.update_self]
          split
          next known =>
            refine ⟨.inl, ?_⟩
            rintro (old | ⟨rfl, -⟩)
            · exact old
            · exact known
          next => simp [eq_comm]
        · rw [Function.update_of_ne here]
          simp [Ne.symm here]

def firstKey (milp : SelectionMilp) : WithBot Nat := milp.keys.headD ⊥

def rowKey (milp : SelectionMilp) (row : Row) : WithBot Nat :=
  match row.columns with
  | column :: _ => milp.keyOf column
  | [] => milp.firstKey

theorem rowKey_mem {row : Row} (inside : ∀ column ∈ row.columns, column < milp.columnCount)
    (several : milp.keys ≠ []) : milp.rowKey row ∈ milp.keys := by
  rw [rowKey]
  split
  next column _ columns => exact milp.keyOf_mem_keys (inside column (by simp [columns]))
  next =>
    rw [firstKey, List.headD_eq_head?_getD, List.head?_eq_some_head several]
    exact List.head_mem several

theorem listRow_eq {row : Row} (start : Nat) {queries held : WithBot Nat → List Nat} {parts : PartMap}
    (holds : milp.Holds queries held parts) (inside : ∀ column ∈ row.columns, column < milp.columnCount)
    (several : milp.keys ≠ []) : listRow milp.partOfColumn parts (row, start) =
      parts.changePart (milp.rowKey row) (.addRow start) "a part" := by
  rw [listRow, rowKey]
  dsimp only
  cases columns : row.columns with
  | cons column _ =>
    dsimp only
    rw [atIndex_partOfColumn (inside column (by simp [columns]))]
    rfl
  | nil =>
    cases entries : parts.entries with
    | nil =>
      have none := holds.listed
      rw [entries] at none
      exact absurd none.symm several
    | cons first _ =>
      have head := holds.listed
      rw [entries, List.map_cons] at head
      rw [firstKey, ← head]
      rfl

theorem listRows (rows : List Row) (start : Nat) {queries held : WithBot Nat → List Nat} {parts : PartMap}
    (holds : milp.Holds queries held parts)
    (inside : ∀ row ∈ rows, ∀ column ∈ row.columns, column < milp.columnCount)
    (several : rows ≠ [] → milp.keys ≠ []) :
    ∃ parts', (rows.zipIdx start).foldlM (listRow milp.partOfColumn) parts = .ok parts' ∧
      milp.Holds queries (fun key => held key ++
        ((rows.zipIdx start).filter fun entry => milp.rowKey entry.1 = key).map Prod.snd) parts' := by
  induction rows generalizing parts held start with
  | nil => exact ⟨parts, rfl, by simpa using holds⟩
  | cons row rest ih =>
    have several := several (List.cons_ne_nil row rest)
    have read := listRow_eq start holds (inside row List.mem_cons_self) several
    have member := rowKey_mem (inside row List.mem_cons_self) several
    obtain ⟨between, changed, holds'⟩ := holds.changePart member queries
      (Function.update held (milp.rowKey row) (held (milp.rowKey row) ++ [start])) (.addRow start) "a part"
      (by rw [Function.update_self]; rfl) fun other differ => ⟨rfl, Function.update_of_ne differ ..⟩
    obtain ⟨parts', run, final⟩ := ih (start + 1) holds'
      (fun other listed => inside other (List.mem_cons_of_mem _ listed)) fun _ => several
    refine ⟨parts', ?_, ?_⟩
    · rw [List.zipIdx_cons, List.foldlM_cons, read, changed]
      exact run
    · have same : (fun key => held key ++
          (((row :: rest).zipIdx start).filter fun entry => milp.rowKey entry.1 = key).map Prod.snd) = fun key =>
          Function.update held (milp.rowKey row) (held (milp.rowKey row) ++ [start]) key ++
            ((rest.zipIdx (start + 1)).filter fun entry => milp.rowKey entry.1 = key).map Prod.snd := by
        funext key
        by_cases here : milp.rowKey row = key
        · subst here
          simp [List.zipIdx_cons]
        · rw [Function.update_of_ne (Ne.symm here)]
          simp [List.zipIdx_cons, here]
      rw [same]
      exact final

def rowsOf (milp : SelectionMilp) (key : WithBot Nat) : List Nat :=
  (milp.program.rows.zipIdx.filter fun entry => milp.rowKey entry.1 = key).map Prod.snd

theorem keys_ne_nil (several : milp.columnCount ≠ 0) : milp.keys ≠ [] :=
  List.ne_nil_of_mem (milp.keyOf_mem_keys (Nat.pos_of_ne_zero several))

theorem independentParts_eq (several : milp.program.rows ≠ [] → milp.columnCount ≠ 0) :
    ∃ (keys : List (WithBot Nat)) (queries : WithBot Nat → List Nat),
    keys.Perm milp.keys ∧ milp.independentParts = .ok (keys.map fun key =>
      ⟨⟨milp.columnsOf key, milp.rowsOf key⟩, queries key⟩) ∧
      ∀ key query, query ∈ queries key ↔ ∃ output ∈ milp.outputs, output.1 = query ∧
        ∃ column, (milp.outputColumns output).head? = some column ∧ milp.keyOf column = key := by
  obtain ⟨parts, queries, run, holds, listed⟩ := listQueries milp.outputs milp.holds_columnParts
  obtain ⟨parts', run', holds'⟩ := listRows milp.program.rows 0 holds milp.inside.rows fun rows => keys_ne_nil (several rows)
  refine ⟨(parts'.entries.mergeSort fun a b => orderOf a.1 ≤ orderOf b.1).map Prod.fst,
    fun key => (queries key).mergeSort, ?_, ?_, fun key query => ?_⟩
  · rw [← holds'.listed]
    exact (List.mergeSort_perm ..).map _
  · have parts_eq : inOrder parts'.entries = ((parts'.entries.mergeSort fun a b => orderOf a.1 ≤ orderOf b.1).map Prod.fst).map fun key =>
          (⟨⟨milp.columnsOf key, milp.rowsOf key⟩, (queries key).mergeSort⟩ : IndependentPart) := by
      rw [inOrder, List.map_map]
      refine List.map_congr_left fun entry member => ?_
      rw [List.mem_mergeSort] at member
      have known : entry.1 ∈ milp.keys := by
        rw [← holds'.listed]
        exact List.mem_map_of_mem member
      have held := holds'.part entry.1 known
      rw [BTreeMap.mem_entries.mp member] at held
      rw [Option.some.inj held]
      rfl
    have grouped : milp.groupedParts = .ok parts' := by
      change (milp.outputs.foldlM (milp.listQuery milp.partOfColumn) milp.columnParts >>= _) = _
      rw [run]
      exact run'
    rw [← parts_eq, independentParts, grouped]
    rfl
  · rw [List.mem_mergeSort, listed]
    simp

/-! ### Exact parts -/

theorem flatMap_filter_perm {ι K : Type} [DecidableEq K] {items : List ι} {keys : List K} {f : ι → K}
    (items_nodup : items.Nodup) (nodup : keys.Nodup) (covers : ∀ item ∈ items, f item ∈ keys) :
    (keys.flatMap fun key => items.filter (f · = key)).Perm items := by
  refine (List.perm_ext_iff_of_nodup (List.nodup_flatMap.mpr ⟨fun _ _ => items_nodup.filter _, ?_⟩) items_nodup).mpr
    fun item => ?_
  · refine nodup.imp fun {a b} differ item inA inB => differ ?_
    have here : f item = a := by simpa using (List.mem_filter.mp inA).2
    have there : f item = b := by simpa using (List.mem_filter.mp inB).2
    rw [← here, there]
  · simp only [List.mem_flatMap, List.mem_filter, decide_eq_true_eq]
    exact ⟨fun ⟨_, _, member, _⟩ => member, fun member => ⟨f item, covers item member, member, rfl⟩⟩

variable (milp) in
/-- What each part solved alone, and all of them together, have to do with the whole program. -/
structure Exact (parts : List IndependentPart) : Prop where
  columns : (parts.flatMap (·.columns)).Perm (List.range milp.columnCount)
  rows : (parts.flatMap (·.rows)).Perm (List.range milp.program.rows.length)
  inside : ∀ part ∈ parts, ∀ index ∈ part.rows, ∀ row, milp.program.rows[index]? = some row →
    ∀ column ∈ row.columns, column ∈ part.columns
  /-- A query is listed where the first output column of one of its references is. -/
  queries : ∀ part ∈ parts, ∀ query, query ∈ part.queries ↔ ∃ output ∈ milp.outputs, output.1 = query ∧
    ∃ column, (milp.outputColumns output).head? = some column ∧ column ∈ part.columns
  /-- A query whose output columns are connected by rows is in the one part that holds them all. -/
  connected : ∀ query column, (query, column) ∈ milp.queryColumns →
    (∀ other, (query, other) ∈ milp.queryColumns → Relation.EqvGen milp.ShareRow column other) →
    ∃ part ∈ parts, query ∈ part.queries ∧ (∀ other, (query, other) ∈ milp.queryColumns → other ∈ part.columns) ∧
      ∀ part' ∈ parts, query ∈ part'.queries → part' = part
  solutions : ∃ models, milp.partModels parts = .ok models ∧ ∀ value,
    (milp.program.Feasible value ↔ ∀ model ∈ models, model.1.Feasible fun position => value (model.2.getD position 0)) ∧
    (milp.program.Optimal value ↔ ∀ model ∈ models, model.1.Optimal fun position => value (model.2.getD position 0))

theorem mem_columnsOf {key : WithBot Nat} {column : Nat} :
    column ∈ milp.columnsOf key ↔ column < milp.columnCount ∧ milp.keyOf column = key := by
  simp [columnsOf]

theorem mem_rowsOf {key : WithBot Nat} {index : Nat} :
    index ∈ milp.rowsOf key ↔ ∃ row, milp.program.rows[index]? = some row ∧ milp.rowKey row = key := by
  simp [rowsOf, List.mem_zipIdx_iff_getElem?]

theorem rowKey_eq {row : Row} (listed : row ∈ milp.program.rows) {column : Nat} (member : column ∈ row.columns) :
    milp.keyOf column = milp.rowKey row := by
  rw [rowKey]
  split
  next first _ columns => exact milp.keyOf_shareRow ⟨row, listed, member, by simp [columns]⟩
  next columns => simp [columns] at member

theorem splits {keys : List (WithBot Nat)} (perm : keys.Perm milp.keys)
    (several : milp.program.rows ≠ [] → milp.columnCount ≠ 0) : milp.program.Splits (keys.map fun key =>
      ⟨milp.columnsOf key, milp.rowsOf key⟩) := by
  constructor
  · rw [List.flatMap_map]
    exact flatMap_filter_perm List.nodup_range (perm.nodup_iff.mpr milp.keys_nodup) fun column inside =>
      perm.mem_iff.mpr (milp.keyOf_mem_keys (List.mem_range.mp inside))
  · have numbers : milp.program.rows.zipIdx.map Prod.snd = List.range milp.program.rows.length := by
      rw [List.zipIdx_map_snd, List.range_eq_range']
    have nodup : milp.program.rows.zipIdx.Nodup := .of_map _ (by rw [numbers]; exact List.nodup_range)
    have grouped := flatMap_filter_perm (f := fun entry : Row × Nat => milp.rowKey entry.1) nodup
      (perm.nodup_iff.mpr milp.keys_nodup) fun entry member => ?_
    · rw [List.flatMap_map, ← numbers]
      have whole := grouped.map Prod.snd
      rwa [List.map_flatMap] at whole
    · have listed := List.mem_of_getElem? (List.mem_zipIdx_iff_getElem?.mp member)
      refine perm.mem_iff.mpr (rowKey_mem (milp.inside.rows _ listed) (keys_ne_nil (several ?_)))
      exact List.ne_nil_of_mem listed
  · rintro block blockListed index member row stored column here
    obtain ⟨key, -, rfl⟩ := List.mem_map.mp blockListed
    obtain ⟨own, ownStored, rfl⟩ := mem_rowsOf.mp member
    obtain rfl := Option.some.inj (ownStored.symm.trans stored)
    have listed := List.mem_of_getElem? stored
    exact mem_columnsOf.mpr ⟨milp.inside.rows _ listed _ here, rowKey_eq listed here⟩
  · exact milp.inside.objective

theorem partModels_solutions {parts : List IndependentPart}
    (splits : milp.program.Splits (parts.map (·.toBlock))) :
    ∃ models, milp.partModels parts = .ok models ∧ ∀ value,
      (milp.program.Feasible value ↔
        ∀ model ∈ models, model.1.Feasible fun position => value (model.2.getD position 0)) ∧
      (milp.program.Optimal value ↔
        ∀ model ∈ models, model.1.Optimal fun position => value (model.2.getD position 0)) := by
  rw [partModels]
  split
  · have agree (value : Nat → ℚ) : ∀ column < milp.program.definitions.length,
        value column = value ((List.range milp.columnCount).getD column 0) := by
      intro column inside
      rw [List.getD_eq_getElem?_getD, columnCount, List.getElem?_range inside, Option.getD_some]
    refine ⟨_, rfl, fun value => ?_⟩
    simp only [List.forall_mem_singleton]
    exact ⟨⟨milp.inside.feasible_congr (agree value),
        milp.inside.feasible_congr fun column inside => (agree value column inside).symm⟩,
      ⟨milp.inside.optimal_congr (agree value),
        milp.inside.optimal_congr fun column inside => (agree value column inside).symm⟩⟩
  · refine ⟨parts.map fun part => (part.toBlock.program milp.program, part.columns), ?_, fun value => ?_⟩
    · rw [splits.split_eq, List.map_map]
      refine congrArg Except.ok ?_
      rw [List.zip_map']
      rfl
    · rw [splits.feasible_iff, splits.optimal_iff]
      simp only [List.forall_mem_map]
      exact ⟨Iff.rfl, Iff.rfl⟩

theorem mem_queryColumns {query column : Nat} : (query, column) ∈ milp.queryColumns ↔
    ∃ output ∈ milp.outputs, output.1 = query ∧ column ∈ milp.outputColumns output := by
  simp only [queryColumns, List.mem_flatMap, List.mem_map, Prod.mk.injEq]
  constructor
  · rintro ⟨output, listed, column, member, rfl, rfl⟩
    exact ⟨output, listed, rfl, member⟩
  · rintro ⟨output, listed, rfl, member⟩
    exact ⟨output, listed, column, member, rfl, rfl⟩

theorem independentParts_panics (none : milp.columnCount = 0) (rows : milp.program.rows ≠ []) :
    milp.independentParts = .error "a part" := by
  have keys : milp.keys = [] := by
    refine List.eq_nil_iff_forall_not_mem.mpr fun key listed => milp.mem_keys.mp listed ?_
    rw [columnsOf, none, List.range_zero, List.filter_nil]
  obtain ⟨parts, queries, run, holds, -⟩ := listQueries milp.outputs milp.holds_columnParts
  have empty : parts.entries = [] := List.map_eq_nil_iff.mp (holds.listed.trans keys)
  obtain ⟨row, rest, split⟩ := List.exists_cons_of_ne_nil rows
  have columns : row.columns = [] := by
    refine List.eq_nil_iff_forall_not_mem.mpr fun column member => ?_
    have inside : column < milp.columnCount := milp.inside.rows row (by simp [split]) column member
    omega
  have read : listRow milp.partOfColumn parts (row, 0) = .error "a part" := by
    simp only [listRow, columns, empty]
    rfl
  have grouped : milp.groupedParts = .error "a part" := by
    change (milp.outputs.foldlM (milp.listQuery milp.partOfColumn) milp.columnParts >>= _) = _
    rw [run]
    change milp.program.rows.zipIdx.foldlM (listRow milp.partOfColumn) parts = _
    rw [split, List.zipIdx_cons, List.foldlM_cons, read]
    rfl
  rw [independentParts, grouped]
  rfl

/-- The parts divide the program exactly; without a column only a program without rows has parts. -/
theorem independentParts_exact (milp : SelectionMilp) :
    if milp.program.rows ≠ [] ∧ milp.columnCount = 0 then milp.independentParts = .error "a part"
    else ∃ parts, milp.independentParts = .ok parts ∧ milp.Exact parts := by
  split
  next both => exact independentParts_panics both.2 both.1
  next several =>
    rw [not_and] at several
    obtain ⟨keys, queries, perm, run, listed⟩ := independentParts_eq several
    have divided := splits perm several
    refine ⟨_, run, ?_⟩
    constructor
    case columns =>
      have columns := divided.columns
      rw [List.flatMap_map] at columns ⊢
      exact columns
    case rows =>
      have rows := divided.rows
      rw [List.flatMap_map] at rows ⊢
      exact rows
    case inside =>
      rintro part partListed index member row stored column here
      obtain ⟨key, keyListed, rfl⟩ := List.mem_map.mp partListed
      exact divided.inside _ (List.mem_map_of_mem keyListed) index member row stored column here
    case queries =>
      rintro part partListed query
      obtain ⟨key, -, rfl⟩ := List.mem_map.mp partListed
      rw [listed]
      refine exists_congr fun output => and_congr_right fun _ => and_congr_right fun _ =>
        exists_congr fun column => and_congr_right fun first => ?_
      rw [mem_columnsOf]
      exact ⟨fun own => ⟨outputColumns_lt (List.mem_of_head? first), own⟩, fun own => own.2⟩
    case connected =>
      intro query column member connected
      have keyed {other : Nat} (here : (query, other) ∈ milp.queryColumns) : milp.keyOf other = milp.keyOf column :=
        (milp.keyOf_connected (connected other here)).symm
      have within {other : Nat} (here : (query, other) ∈ milp.queryColumns) : other < milp.columnCount := by
        obtain ⟨output, -, -, own⟩ := mem_queryColumns.mp here
        exact outputColumns_lt own
      refine ⟨_, List.mem_map_of_mem (perm.mem_iff.mpr (milp.keyOf_mem_keys (within member))), ?_, ?_, ?_⟩
      · obtain ⟨output, outputListed, rfl, own⟩ := mem_queryColumns.mp member
        obtain ⟨first, rest, columns⟩ := List.exists_cons_of_ne_nil (List.ne_nil_of_mem own)
        have firstMember : (output.1, first) ∈ milp.queryColumns :=
          mem_queryColumns.mpr ⟨output, outputListed, rfl, by simp [columns]⟩
        exact (listed _ _).mpr ⟨output, outputListed, rfl, first, by rw [columns]; rfl, keyed firstMember⟩
      · exact fun other here => mem_columnsOf.mpr ⟨within here, keyed here⟩
      · intro part partListed here
        obtain ⟨key, -, rfl⟩ := List.mem_map.mp partListed
        obtain ⟨output, outputListed, rfl, first, head, rfl⟩ := (listed _ _).mp here
        rw [keyed (mem_queryColumns.mpr ⟨output, outputListed, rfl, List.mem_of_head? head⟩)]
    case solutions =>
      refine partModels_solutions ?_
      rwa [List.map_map]

/-! ### A query in two parts -/

/-- Two queries, the second with two output references, and a row that joins the first query's only choice with
one of the second's. -/
def apartOutputs : SelectionMilp where
  program := ⟨[.binary, .binary, .binary], [⟨⟨[(1, 0), (1, 1)], -1⟩, true⟩], []⟩
  inside := by
    constructor
    · intro row listed column member
      rw [List.mem_singleton.mp listed] at member
      rcases List.mem_cons.mp member with rfl | member
      · decide
      · rw [List.mem_singleton.mp member]
        decide
    · simp
  outputs := [(0, [0]), (1, [0]), (1, [1])]
  choice
    | 0, 0 => some 0
    | 1, 0 => some 1
    | 1, 1 => some 2
    | _, _ => none
  choice_lt := by
    intro query candidate column chosen
    split at chosen <;> cases chosen <;> decide

/-- The second query is listed in both parts, and neither holds all its output columns. -/
theorem apartOutputs_listed_twice : apartOutputs.queryColumns = [(0, 0), (1, 1), (1, 2)] ∧
    apartOutputs.independentParts = .ok [⟨⟨[0, 1], [0]⟩, [0, 1]⟩, ⟨⟨[2], []⟩, [1]⟩] := by
  refine ⟨rfl, ?_⟩
  obtain ⟨parts, grouped, held⟩ : ∃ parts, apartOutputs.groupedParts = .ok parts ∧
      parts.entries = [(0, ⟨⟨[0, 1], [0]⟩, [0, 1]⟩), (1, ⟨⟨[2], []⟩, [1]⟩)] := ⟨_, rfl, rfl⟩
  have sorted : inOrder parts.entries = [⟨⟨[0, 1], [0]⟩, [0, 1]⟩, ⟨⟨[2], []⟩, [1]⟩] := by
    rw [held, inOrder, List.mergeSort_of_pairwise (by decide)]
    simp only [List.map_cons, List.map_nil]
    rw [List.mergeSort_of_pairwise (by decide), List.mergeSort_of_pairwise (by decide)]
  rw [independentParts, grouped]
  exact congrArg Except.ok sorted

end SelectionMilp

end AsapPlanner.Milp
