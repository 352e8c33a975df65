import AsapPlanner.Milp.Linear
import AsapPlanner.Rust.Result
import Mathlib.Data.List.Induction
import Mathlib.Data.List.Nodup

/-!
Linear programs over numbered columns, and their division into blocks: a program of blocks that share no
column has the solutions and the optima of its blocks.
-/

namespace AsapPlanner.Milp
open Rust

/-- A variable that is zero or one, or one at least zero and at most `max`. -/
inductive VariableDefinition
  | binary
  | continuous (max : Option ℚ)
deriving DecidableEq, Repr

def VariableDefinition.Admits (x : ℚ) : VariableDefinition → Prop
  | binary => Binary x
  | continuous max => 0 ≤ x ∧ ∀ bound ∈ max, x ≤ bound

/-- An expression that is zero, or at most zero. -/
structure Row where
  expression : Expression Nat
  isEquality : Bool

namespace Row

def columns (row : Row) : List Nat := row.expression.terms.map Prod.snd

def Holds (value : Nat → ℚ) (row : Row) : Prop :=
  if row.isEquality then row.expression.eval value = 0 else row.expression.eval value ≤ 0

end Row

structure Program where
  definitions : List VariableDefinition
  rows : List Row
  objectiveTerms : List (Nat × ℚ)

namespace Program
variable (program : Program) (value : Nat → ℚ)

def objective : ℚ := (program.objectiveTerms.map fun term => term.2 * value term.1).sum

structure Feasible : Prop where
  admits : ∀ (column : Nat) (definition : VariableDefinition), program.definitions[column]? = some definition →
    definition.Admits (value column)
  holds : ∀ row ∈ program.rows, row.Holds value

/-- A solution with the least objective. -/
structure Optimal : Prop where
  feasible : program.Feasible value
  least : ∀ other, program.Feasible other → program.objective value ≤ program.objective other

/-- Rows and objective name only columns of the program. -/
structure Inside : Prop where
  rows : ∀ row ∈ program.rows, ∀ column ∈ row.columns, column < program.definitions.length
  objective : ∀ term ∈ program.objectiveTerms, term.1 < program.definitions.length

variable {program value} {other : Nat → ℚ}

theorem Inside.objective_congr (inside : program.Inside)
    (agree : ∀ column < program.definitions.length, value column = other column) :
    program.objective value = program.objective other := by
  rw [Program.objective, Program.objective]
  congr 1
  exact List.map_congr_left fun term listed => by rw [agree _ (inside.objective term listed)]

theorem Inside.feasible_congr (inside : program.Inside)
    (agree : ∀ column < program.definitions.length, value column = other column)
    (feasible : program.Feasible value) : program.Feasible other := by
  constructor
  · intro column definition stored
    rw [← agree column (List.getElem?_eq_some_iff.mp stored).1]
    exact feasible.admits column definition stored
  · intro row listed
    have same : row.expression.eval other = row.expression.eval value := by
      rw [Expression.eval, Expression.eval]
      congr 2
      exact List.map_congr_left fun term here => by
        rw [agree _ (inside.rows row listed _ (List.mem_map_of_mem here))]
    have holds := feasible.holds row listed
    rwa [Row.Holds, ← same] at holds

theorem Inside.optimal_congr (inside : program.Inside)
    (agree : ∀ column < program.definitions.length, value column = other column)
    (optimal : program.Optimal value) : program.Optimal other := by
  refine ⟨inside.feasible_congr agree optimal.feasible, fun another feasible => ?_⟩
  rw [← inside.objective_congr agree]
  exact optimal.least another feasible

end Program

/-! ### Blocks -/

/-- Columns and rows of a program. -/
structure Block where
  columns : List Nat
  rows : List Nat
deriving DecidableEq, Repr

def Block.restrict (block : Block) (value : Nat → ℚ) (position : Nat) : ℚ :=
  value (block.columns.getD position 0)

/-- The block of each column and its number there: the last one written. -/
def renamed (blocks : List Block) : Nat → Option (Nat × Nat) :=
  (blocks.zipIdx.flatMap fun (block, index) => block.columns.zipIdx.map fun (column, position) =>
    (column, index, position)).foldl (fun held write => Function.update held write.1 (some write.2)) fun _ => none

def rename (blocks : List Block) (column : Nat) : Except String (Nat × Nat) :=
  match renamed blocks column with
  | some place => pure place
  | none => throw "in a part"

def Row.renamed (blocks : List Block) (row : Row) : Except String Row := do
  let terms ← row.expression.terms.mapM fun (coefficient, column) => do
    let place ← rename blocks column
    pure (coefficient, place.2)
  pure ⟨⟨terms, row.expression.constant⟩, row.isEquality⟩

def atIndex {α : Type} (items : List α) (index : Nat) : Except String α :=
  match items[index]? with
  | some item => pure item
  | none => throw "index out of bounds"

def Program.split (program : Program) (blocks : List Block) : Except String (List Program) := do
  let terms ← program.objectiveTerms.mapM fun (column, coefficient) => do
    let place ← rename blocks column
    pure (place.1, place.2, coefficient)
  blocks.zipIdx.mapM fun (block, index) => do
    let definitions ← block.columns.mapM (atIndex program.definitions)
    let rows ← block.rows.mapM fun row => do (← atIndex program.rows row).renamed blocks
    pure ⟨definitions, rows, (terms.filter fun term => term.1 = index).map Prod.snd⟩

/-! ### Blocks that share no column -/

/-- Blocks with every column and every row once, each row among the columns of its block. -/
structure Program.Splits (program : Program) (blocks : List Block) : Prop where
  columns : (blocks.flatMap Block.columns).Perm (List.range program.definitions.length)
  rows : (blocks.flatMap Block.rows).Perm (List.range program.rows.length)
  inside : ∀ block ∈ blocks, ∀ index ∈ block.rows, ∀ row, program.rows[index]? = some row →
    ∀ column ∈ row.columns, column ∈ block.columns
  objective : ∀ term ∈ program.objectiveTerms, term.1 < program.definitions.length

def Block.row (block : Block) (row : Row) : Row :=
  ⟨⟨row.expression.terms.map fun term => (term.1, block.columns.idxOf term.2), row.expression.constant⟩,
    row.isEquality⟩

def Block.program (block : Block) (program : Program) : Program where
  definitions := block.columns.map (program.definitions.getD · .binary)
  rows := block.rows.map fun index => block.row (program.rows.getD index ⟨.const 0, true⟩)
  objectiveTerms := (program.objectiveTerms.filter fun term => term.1 ∈ block.columns).map fun term =>
    (block.columns.idxOf term.1, term.2)

theorem foldl_update_of_mem {K ν : Type} [DecidableEq K] {writes : List (K × ν)} {held : K → Option ν}
    (nodup : (writes.map Prod.fst).Nodup) {write : K × ν} (member : write ∈ writes) :
    writes.foldl (fun (held : K → Option ν) write => Function.update held write.1 (some write.2)) held write.1 =
      some write.2 := by
  induction writes using List.reverseRecOn with
  | nil => cases member
  | append_singleton before last ih =>
    rw [List.foldl_append, List.foldl_cons, List.foldl_nil]
    rw [List.map_append, List.nodup_append] at nodup
    obtain ⟨earlier, -, apart⟩ := nodup
    rcases List.mem_append.mp member with member | member
    · have differ : write.1 ≠ last.1 := apart _ (List.mem_map_of_mem member) _ (by simp)
      rw [Function.update_of_ne differ, ih earlier member]
    · rw [List.mem_singleton.mp member, Function.update_self]

namespace Program.Splits
variable {program : Program} {blocks : List Block} (splits : program.Splits blocks)
include splits

theorem nodup : (blocks.flatMap Block.columns).Nodup := splits.columns.nodup_iff.mpr List.nodup_range

theorem renamed_eq {index : Nat} {block : Block} (here : blocks[index]? = some block) {column : Nat}
    (member : column ∈ block.columns) : renamed blocks column = some (index, block.columns.idxOf column) := by
  have written : (column, index, block.columns.idxOf column) ∈ blocks.zipIdx.flatMap fun (block, index) =>
      block.columns.zipIdx.map fun (column, position) => (column, index, position) := by
    refine List.mem_flatMap.mpr ⟨(block, index), List.mem_zipIdx_iff_getElem?.mpr here, ?_⟩
    refine List.mem_map.mpr ⟨(column, block.columns.idxOf column), ?_, rfl⟩
    rw [List.mem_zipIdx_iff_getElem?, List.getElem?_idxOf member]
  refine foldl_update_of_mem ?_ written
  have keys : (blocks.zipIdx.flatMap fun (block, index) => block.columns.zipIdx.map fun (column, position) =>
      (column, index, position)).map Prod.fst = blocks.flatMap Block.columns := by
    simp only [List.map_flatMap, List.map_map, Function.comp_def, List.zipIdx_map_fst]
    rw [← List.flatMap_map Prod.fst Block.columns, List.zipIdx_map_fst]
  rw [keys]
  exact splits.nodup

theorem rename_eq {index : Nat} {block : Block} (here : blocks[index]? = some block) {column : Nat}
    (member : column ∈ block.columns) : rename blocks column = .ok (index, block.columns.idxOf column) := by
  rw [rename, splits.renamed_eq here member]
  rfl

theorem block_of {column : Nat} (inside : column < program.definitions.length) :
    ∃ (index : Nat) (block : Block), blocks[index]? = some block ∧ column ∈ block.columns := by
  have listed : column ∈ blocks.flatMap Block.columns := splits.columns.mem_iff.mpr (List.mem_range.mpr inside)
  obtain ⟨block, member, here⟩ := List.mem_flatMap.mp listed
  obtain ⟨index, found⟩ := List.mem_iff_getElem?.mp member
  exact ⟨index, block, found, here⟩

theorem column_lt {block : Block} (member : block ∈ blocks) {column : Nat} (here : column ∈ block.columns) :
    column < program.definitions.length :=
  List.mem_range.mp (splits.columns.mem_iff.mp (List.mem_flatMap.mpr ⟨block, member, here⟩))

theorem row_lt {block : Block} (member : block ∈ blocks) {index : Nat} (here : index ∈ block.rows) :
    index < program.rows.length :=
  List.mem_range.mp (splits.rows.mem_iff.mp (List.mem_flatMap.mpr ⟨block, member, here⟩))

theorem row_renamed {block : Block} (member : block ∈ blocks) {index : Nat} (here : index ∈ block.rows)
    {row : Row} (stored : program.rows[index]? = some row) : row.renamed blocks = .ok (block.row row) := by
  obtain ⟨position, found⟩ := List.mem_iff_getElem?.mp member
  have terms : row.expression.terms.mapM (fun term => do
      let place ← rename blocks term.2
      pure (term.1, place.2)) =
      Except.ok (row.expression.terms.map fun term => (term.1, block.columns.idxOf term.2)) := by
    refine mapM_pure fun term listed => ?_
    have column := splits.inside block member index here row stored term.2 (List.mem_map_of_mem listed)
    rw [splits.rename_eq found column]
    rfl
  rw [Row.renamed, terms]
  rfl

theorem terms_renamed : program.objectiveTerms.mapM (fun term => do
      let place ← rename blocks term.1
      pure (place.1, place.2, term.2)) =
    Except.ok (program.objectiveTerms.map fun term =>
      (((renamed blocks term.1).getD (0, 0)).1, ((renamed blocks term.1).getD (0, 0)).2, term.2)) := by
  refine mapM_pure fun term listed => ?_
  obtain ⟨index, block, found, here⟩ := splits.block_of (splits.objective term listed)
  rw [splits.rename_eq found here, splits.renamed_eq found here]
  rfl

theorem terms_of_block {index : Nat} {block : Block} (found : blocks[index]? = some block) :
    (((program.objectiveTerms.map fun term =>
      (((renamed blocks term.1).getD (0, 0)).1, ((renamed blocks term.1).getD (0, 0)).2, term.2)).filter
        fun term => term.1 = index).map Prod.snd) = (block.program program).objectiveTerms := by
  rw [List.filter_map, List.map_map, Block.program]
  have same : ∀ term ∈ program.objectiveTerms,
      ((renamed blocks term.1).getD (0, 0)).1 = index ↔ term.1 ∈ block.columns := by
    intro term listed
    obtain ⟨index', block', found', here⟩ := splits.block_of (splits.objective term listed)
    rw [splits.renamed_eq found' here, Option.getD_some]
    constructor
    · rintro rfl
      rwa [Option.some.inj (found.symm.trans found')]
    · intro own
      have twice := splits.renamed_eq found own
      rw [splits.renamed_eq found' here] at twice
      exact congrArg Prod.fst (Option.some.inj twice)
  have kept : program.objectiveTerms.filter ((fun term => decide (term.1 = index)) ∘ fun term =>
      (((renamed blocks term.1).getD (0, 0)).1, ((renamed blocks term.1).getD (0, 0)).2, term.2)) =
      program.objectiveTerms.filter fun term => term.1 ∈ block.columns :=
    List.filter_congr fun term listed => by simp [same term listed]
  rw [kept]
  refine List.map_congr_left fun term listed => ?_
  have own : term.1 ∈ block.columns := by simpa using (List.mem_filter.mp listed).2
  simp [splits.renamed_eq found own]

theorem split_eq : program.split blocks = .ok (blocks.map (·.program program)) := by
  have each : ∀ entry ∈ blocks.zipIdx, (do
      let definitions ← entry.1.columns.mapM (atIndex program.definitions)
      let rows ← entry.1.rows.mapM fun row => do (← atIndex program.rows row).renamed blocks
      pure (⟨definitions, rows, ((program.objectiveTerms.map fun term =>
        (((renamed blocks term.1).getD (0, 0)).1, ((renamed blocks term.1).getD (0, 0)).2, term.2)).filter
          fun term => term.1 = entry.2).map Prod.snd⟩ : Program)) = Except.ok (entry.1.program program) := by
    rintro ⟨block, index⟩ listed
    have found := List.mem_zipIdx_iff_getElem?.mp listed
    have member : block ∈ blocks := List.mem_of_getElem? found
    have definitions : block.columns.mapM (atIndex program.definitions) =
        .ok (block.columns.map (program.definitions.getD · .binary)) := by
      refine mapM_pure fun column here => ?_
      have inside := splits.column_lt member here
      simp [atIndex, inside]
      rfl
    have rows : (block.rows.mapM fun row => do (← atIndex program.rows row).renamed blocks) =
        .ok (block.rows.map fun index => block.row (program.rows.getD index ⟨.const 0, true⟩)) := by
      refine mapM_pure fun index here => ?_
      have stored := List.getElem?_eq_getElem (splits.row_lt member here)
      have read : atIndex program.rows index = .ok (program.rows.getD index ⟨.const 0, true⟩) := by
        simp only [atIndex, List.getD_eq_getElem?_getD, stored]
        rfl
      rw [read]
      exact splits.row_renamed member here (by rw [List.getD_eq_getElem?_getD, stored]; rfl)
    simp only [definitions, rows, splits.terms_of_block found]
    rfl
  rw [Program.split]
  simp only [splits.terms_renamed]
  refine (mapM_pure each).trans (congrArg Except.ok ?_)
  rw [show (fun entry : Block × Nat => entry.1.program program) = (·.program program) ∘ Prod.fst from rfl,
    ← List.map_map, List.zipIdx_map_fst]

end Program.Splits

/-! ### Solutions of blocks -/

section Block
variable {block : Block} {program : Program} {value other : Nat → ℚ}

theorem restrict_idxOf {column : Nat} (member : column ∈ block.columns) :
    block.restrict value (block.columns.idxOf column) = value column := by
  rw [Block.restrict, List.getD_eq_getElem?_getD, List.getElem?_idxOf member, Option.getD_some]

theorem eval_row {row : Row} (inside : ∀ column ∈ row.columns, column ∈ block.columns) :
    (block.row row).expression.eval (block.restrict value) = row.expression.eval value := by
  have terms : row.expression.terms.map (fun term =>
      term.1 * block.restrict value (block.columns.idxOf term.2)) =
      row.expression.terms.map fun term => term.1 * value term.2 :=
    List.map_congr_left fun term listed => by rw [restrict_idxOf (inside _ (List.mem_map_of_mem listed))]
  rw [Expression.eval, Expression.eval, ← terms, Block.row, List.map_map]
  rfl

theorem holds_row {row : Row} (inside : ∀ column ∈ row.columns, column ∈ block.columns) :
    (block.row row).Holds (block.restrict value) ↔ row.Holds value := by
  rw [Row.Holds, Row.Holds, eval_row inside]
  rfl

theorem feasible_block (inside : ∀ index ∈ block.rows, ∀ row, program.rows[index]? = some row →
    ∀ column ∈ row.columns, column ∈ block.columns)
    (columns : ∀ column ∈ block.columns, column < program.definitions.length)
    (rows : ∀ index ∈ block.rows, index < program.rows.length) :
    (block.program program).Feasible (block.restrict value) ↔
      (∀ column ∈ block.columns, ∀ definition, program.definitions[column]? = some definition →
        definition.Admits (value column)) ∧
      ∀ index ∈ block.rows, ∀ row, program.rows[index]? = some row → row.Holds value := by
  have definition {column : Nat} {definition : VariableDefinition}
      (stored : program.definitions[column]? = some definition) :
      program.definitions.getD column .binary = definition := by
    rw [List.getD_eq_getElem?_getD, stored, Option.getD_some]
  have renamedRow {index : Nat} {row : Row} (stored : program.rows[index]? = some row) :
      program.rows.getD index ⟨.const 0, true⟩ = row := by
    rw [List.getD_eq_getElem?_getD, stored, Option.getD_some]
  constructor
  · rintro ⟨admits, holds⟩
    constructor
    · intro column member held stored
      have own := admits (block.columns.idxOf column) held (by
        rw [Block.program, List.getElem?_map, List.getElem?_idxOf member, Option.map_some, definition stored])
      rwa [restrict_idxOf member] at own
    · intro index member row stored
      have own := holds (block.row row) (List.mem_map.mpr ⟨index, member, by rw [renamedRow stored]⟩)
      rwa [holds_row (inside index member row stored)] at own
  · rintro ⟨admits, holds⟩
    constructor
    · intro position held stored
      rw [Block.program, List.getElem?_map, Option.map_eq_some_iff] at stored
      obtain ⟨column, here, rfl⟩ := stored
      have member := List.mem_of_getElem? here
      obtain ⟨held, known⟩ : ∃ held, program.definitions[column]? = some held :=
        ⟨_, List.getElem?_eq_getElem (columns column member)⟩
      rw [definition known, Block.restrict, List.getD_eq_getElem?_getD, here, Option.getD_some]
      exact admits column member held known
    · intro row listed
      obtain ⟨index, member, rfl⟩ := List.mem_map.mp listed
      obtain ⟨row, stored⟩ : ∃ row, program.rows[index]? = some row :=
        ⟨_, List.getElem?_eq_getElem (rows index member)⟩
      rw [renamedRow stored, holds_row (inside index member row stored)]
      exact holds index member row stored

theorem objective_block : (block.program program).objective (block.restrict value) =
    ((program.objectiveTerms.filter fun term => term.1 ∈ block.columns).map fun term =>
      term.2 * value term.1).sum := by
  rw [Program.objective, Block.program, List.map_map]
  congr 1
  refine List.map_congr_left fun term listed => ?_
  have own : term.1 ∈ block.columns := by simpa using (List.mem_filter.mp listed).2
  rw [Function.comp_apply, restrict_idxOf own]

end Block

/-- One block's values put in place of an assignment's. -/
def Block.exchange (block : Block) (own value : Nat → ℚ) (column : Nat) : ℚ :=
  if column ∈ block.columns then own (block.columns.idxOf column) else value column

theorem restrict_exchange {block : Block} (nodup : block.columns.Nodup) {own value : Nat → ℚ} {position : Nat}
    (inside : position < block.columns.length) : block.restrict (block.exchange own value) position = own position := by
  have here : block.columns.getD position 0 = block.columns[position] := by
    rw [List.getD_eq_getElem?_getD, List.getElem?_eq_getElem inside, Option.getD_some]
  rw [Block.restrict, Block.exchange, here, if_pos (List.getElem_mem inside), nodup.idxOf_getElem]

theorem restrict_exchange_of_disjoint {block other : Block} (disjoint : other.columns.Disjoint block.columns)
    {own value : Nat → ℚ} {position : Nat} (inside : position < other.columns.length) :
    other.restrict (block.exchange own value) position = other.restrict value position := by
  have here : other.columns.getD position 0 ∈ other.columns := by
    rw [List.getD_eq_getElem?_getD, List.getElem?_eq_getElem inside, Option.getD_some]
    exact List.getElem_mem inside
  rw [Block.restrict, Block.exchange, if_neg (disjoint here), Block.restrict]

theorem apart {before after : List Block} {block : Block}
    (nodup : ((before ++ block :: after).flatMap Block.columns).Nodup) :
    block.columns.Nodup ∧ ∀ other, other ∈ before ∨ other ∈ after → other.columns.Disjoint block.columns := by
  simp only [List.flatMap_append, List.flatMap_cons, List.nodup_append, List.mem_append] at nodup
  obtain ⟨-, ⟨own, -, later⟩, earlier⟩ := nodup
  refine ⟨own, fun other listed column mine here => ?_⟩
  have held {others : List Block} (listed : other ∈ others) : column ∈ others.flatMap Block.columns :=
    List.mem_flatMap.mpr ⟨other, listed, mine⟩
  rcases listed with listed | listed
  · exact earlier column (held listed) column (.inl here) rfl
  · exact later column here column (held listed) rfl

theorem sum_of_column {blocks : List Block} (nodup : (blocks.flatMap Block.columns).Nodup) {column : Nat}
    (member : column ∈ blocks.flatMap Block.columns) (x : ℚ) :
    (blocks.map fun block => if column ∈ block.columns then x else 0).sum = x := by
  obtain ⟨block, listed, here⟩ := List.mem_flatMap.mp member
  obtain ⟨before, after, rfl⟩ := List.append_of_mem listed
  obtain ⟨-, disjoint⟩ := apart nodup
  have none {others : List Block} (listed : ∀ other ∈ others, other ∈ before ∨ other ∈ after) :
      (others.map fun block => if column ∈ block.columns then x else 0).sum = 0 := by
    refine List.sum_eq_zero fun y mapped => ?_
    obtain ⟨other, member, rfl⟩ := List.mem_map.mp mapped
    exact if_neg fun own => disjoint other (listed other member) own here
  rw [List.map_append, List.map_cons, List.sum_append, List.sum_cons, if_pos here, none fun _ => .inl,
    none fun _ => .inr, zero_add, add_zero]

theorem sum_of_terms {blocks : List Block} (nodup : (blocks.flatMap Block.columns).Nodup)
    {terms : List (Nat × ℚ)} (covered : ∀ term ∈ terms, term.1 ∈ blocks.flatMap Block.columns)
    (f : Nat × ℚ → ℚ) :
    (blocks.map fun block => ((terms.filter fun term => term.1 ∈ block.columns).map f).sum).sum =
      (terms.map f).sum := by
  induction terms with
  | nil => simp
  | cons term rest ih =>
    have one : ∀ block : Block, (((term :: rest).filter fun term => term.1 ∈ block.columns).map f).sum =
        (if term.1 ∈ block.columns then f term else 0) +
          ((rest.filter fun term => term.1 ∈ block.columns).map f).sum := by
      intro block
      by_cases own : term.1 ∈ block.columns <;> simp [own]
    simp only [one, List.sum_map_add]
    rw [sum_of_column nodup (covered term List.mem_cons_self),
      ih fun other listed => covered other (List.mem_cons_of_mem _ listed), List.map_cons, List.sum_cons]

namespace Program.Splits
variable {program : Program} {blocks : List Block} (splits : program.Splits blocks) {value : Nat → ℚ}
include splits

theorem feasible_of {block : Block} (member : block ∈ blocks) :
    (block.program program).Feasible (block.restrict value) ↔
      (∀ column ∈ block.columns, ∀ definition, program.definitions[column]? = some definition →
        definition.Admits (value column)) ∧
      ∀ index ∈ block.rows, ∀ row, program.rows[index]? = some row → row.Holds value :=
  feasible_block (splits.inside block member) (fun _ => splits.column_lt member) fun _ => splits.row_lt member

theorem feasible_iff : program.Feasible value ↔
    ∀ block ∈ blocks, (block.program program).Feasible (block.restrict value) := by
  constructor
  · intro feasible block member
    exact (splits.feasible_of member).mpr ⟨fun column _ definition stored => feasible.admits column definition stored,
      fun index _ row stored => feasible.holds row (List.mem_of_getElem? stored)⟩
  · intro each
    constructor
    · intro column definition stored
      obtain ⟨index, block, found, here⟩ := splits.block_of (List.getElem?_eq_some_iff.mp stored).1
      have member := List.mem_of_getElem? found
      exact ((splits.feasible_of member).mp (each block member)).1 column here definition stored
    · intro row listed
      obtain ⟨index, stored⟩ := List.mem_iff_getElem?.mp listed
      have covered : index ∈ blocks.flatMap Block.rows :=
        splits.rows.mem_iff.mpr (List.mem_range.mpr (List.getElem?_eq_some_iff.mp stored).1)
      obtain ⟨block, member, here⟩ := List.mem_flatMap.mp covered
      exact ((splits.feasible_of member).mp (each block member)).2 index here row stored

theorem inside_block {block : Block} (member : block ∈ blocks) : (block.program program).Inside := by
  constructor
  · intro row listed column here
    obtain ⟨index, own, rfl⟩ := List.mem_map.mp listed
    have stored := List.getElem?_eq_getElem (splits.row_lt member own)
    simp only [Block.row, Row.columns, List.getD_eq_getElem?_getD, stored, Option.getD_some, List.map_map,
      List.mem_map, Function.comp_apply] at here
    obtain ⟨term, termListed, rfl⟩ := here
    have column := splits.inside block member index own _ stored term.2 (List.mem_map_of_mem termListed)
    rw [Block.program, List.length_map]
    exact List.idxOf_lt_length_of_mem column
  · intro term listed
    obtain ⟨whole, own, rfl⟩ := List.mem_map.mp listed
    have column : whole.1 ∈ block.columns := by simpa using (List.mem_filter.mp own).2
    rw [Block.program, List.length_map]
    exact List.idxOf_lt_length_of_mem column

theorem objective_eq : program.objective value =
    (blocks.map fun block => (block.program program).objective (block.restrict value)).sum := by
  simp only [objective_block]
  refine (sum_of_terms splits.nodup (fun term listed => ?_) fun term => term.2 * value term.1).symm
  exact splits.columns.mem_iff.mpr (List.mem_range.mpr (splits.objective term listed))

theorem optimal_iff : program.Optimal value ↔
    ∀ block ∈ blocks, (block.program program).Optimal (block.restrict value) := by
  constructor
  · intro optimal block member
    have feasible := splits.feasible_iff.mp optimal.feasible
    refine ⟨feasible block member, fun own solves => ?_⟩
    obtain ⟨before, after, rfl⟩ := List.append_of_mem member
    obtain ⟨nodup, disjoint⟩ := apart splits.nodup
    have own_agrees : ∀ position < (block.program program).definitions.length,
        own position = block.restrict (block.exchange own value) position := by
      intro position inside
      rw [Block.program, List.length_map] at inside
      exact (restrict_exchange nodup inside).symm
    have agrees {other : Block} (listed : other ∈ before ∨ other ∈ after) :
        ∀ position < (other.program program).definitions.length,
          other.restrict value position = other.restrict (block.exchange own value) position := by
      intro position inside
      rw [Block.program, List.length_map] at inside
      exact (restrict_exchange_of_disjoint (disjoint other listed) inside).symm
    have solution : program.Feasible (block.exchange own value) := by
      refine splits.feasible_iff.mpr fun other listed => ?_
      have inside := splits.inside_block listed
      rcases List.mem_append.mp listed with here | here
      · exact inside.feasible_congr (agrees (.inl here)) (feasible other listed)
      · rcases List.mem_cons.mp here with rfl | here
        · exact inside.feasible_congr own_agrees solves
        · exact inside.feasible_congr (agrees (.inr here)) (feasible other listed)
    have sums {others : List Block} (listed : ∀ other ∈ others, other ∈ before ∨ other ∈ after) :
        (others.map fun other => (other.program program).objective (other.restrict (block.exchange own value))).sum =
          (others.map fun other => (other.program program).objective (other.restrict value)).sum := by
      refine congrArg List.sum (List.map_congr_left fun other here => ?_)
      have member : other ∈ before ++ block :: after := by
        rcases listed other here with here | here <;> simp [here]
      exact ((splits.inside_block member).objective_congr (agrees (listed other here))).symm
    have least := optimal.least _ solution
    rw [splits.objective_eq, splits.objective_eq] at least
    simp only [List.map_append, List.map_cons, List.sum_append, List.sum_cons] at least
    rw [sums fun _ => .inl, sums fun _ => .inr,
      ← (splits.inside_block member).objective_congr own_agrees] at least
    linarith
  · intro each
    refine ⟨splits.feasible_iff.mpr fun block member => (each block member).feasible, fun other feasible => ?_⟩
    rw [splits.objective_eq, splits.objective_eq]
    refine List.sum_le_sum fun block member => ?_
    exact (each block member).least _ (splits.feasible_iff.mp feasible block member)

end Program.Splits

end AsapPlanner.Milp
