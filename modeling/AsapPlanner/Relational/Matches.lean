import AsapPlanner.Expressions.Lowered
import AsapPlanner.Relational.Join
import Mathlib.Data.List.Dedup

/-!
The matches of a left row: the column of the predicate, or the row replayed.
-/

namespace AsapPlanner.Relational
open Ir Rust Grouping Expressions Construction

/-! ### A compiled predicate -/

structure Bound (host : Host) (schema : Schema) (predicate : CompiledExpression) : Prop where
  schema_eq : predicate.schema = schema
  valid : Valid host schema predicate.expression
  typedAs : scalarType host schema predicate.expression = .ok predicate.output
  boolean : predicate.output.1 = .bool
  plain : schema.isAllPlain = true

theorem compile_ok {host : Host} {expression : LocalExpr} {schema : Schema} {compiled : CompiledExpression}
    (ran : compile host expression schema = .ok compiled) : compiled.expression = expression ∧
      compiled.schema = schema ∧ Valid host schema expression ∧
        scalarType host schema expression = .ok compiled.output ∧ schema.isAllPlain = true := by
  unfold compile at ran
  split at ran
  · rename_i plain
    unfold bindExpression at ran
    obtain ⟨_, valid, ran⟩ := bind_eq_ok ran
    split at ran
    · cases ran
    · rename_i typedAs
      obtain ⟨_, _, ran⟩ := bind_eq_ok ran
      cases ran
      exact ⟨rfl, rfl, valid, typedAs, plain⟩
  · cases ran

theorem new_ok {host : Host} {left right output : Schema} {kind : JoinKind} {predicate : LocalExpr}
    {operator : JoinOperator} (made : JoinOperator.new host left right kind predicate output = .ok operator)
    (evaluationTimeMs : Option Int64) :
    Bound host (schemaOf (left.fields ++ right.fields)) { operator.predicate with evaluationTimeMs } ∧
      operator.left = left ∧ operator.right = right ∧ operator.kind = kind ∧
        declares (outputFields kind left right) operator.output = true ∧
          operator.predicate.expression = predicate := by
  unfold JoinOperator.new at made
  obtain ⟨compiled, ran, made⟩ := bind_eq_ok made
  obtain ⟨expression, schema, valid, typedAs, plain⟩ := compile_ok ran
  split at made
  · cases made
  · rename_i boolean
    split at made
    · cases made
    · rename_i declared
      split at made
      · cases made
      · cases made
        simp only [Bool.not_eq_true', Bool.not_eq_false] at boolean declared
        exact ⟨⟨schema, expression ▸ valid, expression ▸ typedAs, isBool_eq boolean, plain⟩, rfl, rfl, rfl, declared,
          expression⟩

section Bound
variable {host : Host} {predicate : CompiledExpression} {typed : TypedBatch}

theorem evaluate_row (schema : predicate.schema = typed.schema) {index : Nat} (small : index < typed.numRows) :
    predicate.evaluate host (typed.row index) =
      Expressions.evaluate host (predicate.scope (typed.row index)) predicate.expression := by
  unfold CompiledExpression.evaluate
  rw [if_pos]
  rw [schema]
  refine ⟨by rw [TypedBatch.row, List.length_map, typed.typed.length_eq], List.all_eq_true.mpr ?_⟩
  rintro ⟨value, field⟩ member
  rw [TypedBatch.row, List.zip_map_left, List.mem_map] at member
  obtain ⟨⟨column, field⟩, paired, same⟩ := member
  cases same
  have length := typed.batch.lengths column (List.of_mem_zip paired).1
  refine ((List.forall₂_iff_zip.mp typed.typed).2 paired).cells _ ?_
  show column.decode.getD index .null ∈ column.decode
  rw [List.getD_eq_getElem?_getD, List.getElem?_eq_getElem (by rw [length]; exact small)]
  exact List.getElem_mem _

variable (host predicate) in
/-- The predicate has a form over whole columns whose constants are of their types. -/
def Vectorizes : Prop :=
  ∃ vector dtype, lowerScalar host predicate.schema predicate.evaluationTimeMs predicate.expression =
    some (vector, dtype) ∧ vector.Typed

variable (host predicate) in
/-- A row of the predicate's schema on which an empty `IN` list loses a failing operand. -/
def Lost (row : List Value) : Prop := OperandLost host (predicate.scope row) predicate.expression

theorem lowered_means (bound : Bound host typed.schema predicate) {vector : VectorExpr} {dtype : DataType}
    (lowered : lowerScalar host typed.schema predicate.evaluationTimeMs predicate.expression =
      some (vector, dtype)) :
    Means host typed (fun index => Expressions.evaluate host (predicate.scope (typed.row index)) predicate.expression)
      (fun index => Lost host predicate (typed.row index)) vector .bool := by
  have boolean : dtype = .bool := by
    have alike := lowerScalar_type predicate.expression lowered bound.typedAs
    rw [bound.boolean] at alike
    obtain rfl | equal := alike
    · rfl
    · exact same_scalar rfl equal
  subst boolean
  have scope : ∀ index, scopeAt typed predicate.evaluationTimeMs predicate.labelRegexes index =
      predicate.scope (typed.row index) := fun index => by
    rw [scopeAt, CompiledExpression.scope, bound.schema_eq]
  have means : Means host typed (fun index => Expressions.evaluate host
      (scopeAt typed predicate.evaluationTimeMs predicate.labelRegexes index) predicate.expression)
      (fun index => OperandLost host (scopeAt typed predicate.evaluationTimeMs predicate.labelRegexes index)
        predicate.expression) vector .bool := lowerScalar_means predicate.expression bound.valid lowered
  simp only [scope] at means
  exact means

/-! ### A predicate's column -/

theorem encode_bool {values : List Value} {array : Column} (run : encode .bool values = .ok array) :
    ∃ cells, array = .bool cells := by
  obtain ⟨cells, _, rfl⟩ := map_eq_ok run
  exact ⟨cells, rfl⟩

theorem evaluatePerInput_bool {columns : List Nat} {evaluateRow : List Value → Except String Value}
    {array : Column} (run : evaluatePerInput typed columns .bool evaluateRow = .ok array) :
    ∃ cells, array = .bool cells := by
  unfold evaluatePerInput at run
  simp only at run
  split at run
  · obtain ⟨⟨memo, indices⟩, _, run⟩ := bind_eq_ok run
    obtain ⟨distinct, encoded, run⟩ := bind_eq_ok run
    cases run
    obtain ⟨cells, rfl⟩ := encode_bool encoded
    exact ⟨_, rfl⟩
  · obtain ⟨_, _, run⟩ := bind_eq_ok run
    obtain ⟨_, _, encoded⟩ := bind_eq_ok run
    exact encode_bool encoded

theorem mem_distinctColumns {columns : List Nat} {column : Nat} :
    column ∈ distinctColumns columns ↔ column ∈ columns := by
  rw [distinctColumns, List.mem_dedup, List.mem_mergeSort]

variable (host predicate typed) in
/-- The column of a predicate: each row's value, or its operand of an empty list lost. -/
structure Column.Gives (cells : List (Option Bool)) : Prop where
  length : cells.length = typed.numRows
  cell : ∀ index < typed.numRows, Expressions.Gives (Vectorizes host predicate ∧ Lost host predicate (typed.row index))
    (Column.ofSlot .bool (cells[index]?).join) (predicate.evaluate host (typed.row index))

theorem cell_bool (cells : List (Option Bool)) (index : Nat) :
    (Column.bool cells).decode.getD index .null = Column.ofSlot .bool (cells[index]?).join := cell_slots _ _ _

theorem vectorized_gives (bound : Bound host typed.schema predicate) {vector : VectorExpr} {dtype : DataType}
    (lowered : lowerScalar host typed.schema predicate.evaluationTimeMs predicate.expression =
      some (vector, dtype)) {evaluated : Evaluated} {array : Column}
    (ran : evaluateVector host typed.batch vector = .ok evaluated)
    (stored : evaluated.intoArray typed.numRows = .ok array) :
    ∃ cells, array = .bool cells ∧ Column.Gives host predicate typed cells := by
  obtain ⟨outcome, right⟩ := lowered_means bound lowered
  rw [ran] at outcome
  have whole := outcome.intoArray
  rw [stored] at whole
  cases whole with
  | held layout length fine same =>
    obtain ⟨cells, rfl⟩ := layout_bool layout
    refine ⟨cells, rfl, by simpa [Column.decode] using length, fun index small => ?_⟩
    rw [evaluate_row bound.schema_eq small, ← cell_bool, same index small]
    refine (right evaluated ran index small).change fun lost => ⟨?_, lost⟩
    exact ⟨vector, dtype, by rw [bound.schema_eq]; exact lowered, fine (by omega)⟩

theorem perInput_gives (bound : Bound host typed.schema predicate) (few : typed.numRows ≤ u32Max + 1)
    {array : Column} (run : evaluatePerInput typed (distinctColumns predicate.expression.columnsReferenced)
      predicate.output.1 (predicate.evaluate host) = .ok array) :
    ∃ cells, array = .bool cells ∧ Column.Gives host predicate typed cells := by
  rw [bound.boolean] at run
  obtain ⟨cells, rfl⟩ := evaluatePerInput_bool run
  have inside : ∀ column ∈ distinctColumns predicate.expression.columnsReferenced,
      column < typed.schema.fields.length := fun column member =>
    columns_lt predicate.expression bound.valid column (mem_distinctColumns.mp member)
  obtain ⟨length, each⟩ := evaluatePerInput_ok inside few run
  refine ⟨cells, rfl, by simpa [Column.decode] using length, fun index small => ?_⟩
  obtain ⟨row, value, agrees, made, there⟩ := each index small
  have extends_ : Extends (predicate.scope row) (predicate.scope (typed.row index))
      predicate.expression.columnsReferenced :=
    { schema := rfl
      evaluationTimeMs := rfl
      row := fun id read => (agrees id (mem_distinctColumns.mpr read)).symm
      regexes := fun _ _ => id }
  have plain : Expressions.evaluate host (predicate.scope row) predicate.expression = .ok value := by
    unfold CompiledExpression.evaluate at made
    split at made
    · exact made
    · cases made
  rw [evaluate_row bound.schema_eq small, evaluate_extends predicate.expression extends_ plain, ← cell_bool,
    List.getD_eq_getElem?_getD, there]
  rfl

/-! ### No panic -/

section Panic
variable {α β : Type}

theorem bind_no_panic {run : Except Error α} {next : α → Except Error β} (first : run ≠ .error .panic)
    (then_ : ∀ value, run = .ok value → next value ≠ .error .panic) : run >>= next ≠ .error .panic := by
  cases run with
  | error error => exact fun panicked => first (congrArg Except.error (Except.error.inj panicked))
  | ok value => exact then_ value rfl

theorem mapM_no_panic {f : α → Except Error β} {items : List α} (each : ∀ item ∈ items, f item ≠ .error .panic) :
    items.mapM f ≠ .error .panic := by
  induction items with
  | nil => exact nofun
  | cons item rest ih =>
    rw [List.mapM_cons]
    refine bind_no_panic (each item List.mem_cons_self) fun _ _ => ?_
    exact bind_no_panic (ih fun other member => each other (List.mem_cons_of_mem _ member)) nofun

theorem bad_no_panic (run : Except String α) : bad run ≠ .error .panic := by
  cases run <;> exact nofun

theorem map_no_panic {f : α → β} {run : Except Error α} (fine : run ≠ .error .panic) :
    run.map f ≠ .error .panic := by
  cases run with
  | error error => exact fun panicked => fine (congrArg Except.error (Except.error.inj panicked))
  | ok _ => exact nofun

theorem slots_no_panic (read : Value → Option α) (values : List Value) : slots read values ≠ .error .panic := by
  refine mapM_no_panic fun value _ => ?_
  split
  · rintro ⟨⟩
  · split <;> rintro ⟨⟩

theorem encode_no_panic (dtype : DataType) (values : List Value) : encode dtype values ≠ .error .panic := by
  cases dtype with
  | null =>
    rw [encode]
    split <;> rintro ⟨⟩
  | list _ | struct _ | map _ _ _ =>
    rw [encode, encodeNested]
    split <;> rintro ⟨⟩
  | _ => exact map_no_panic (slots_no_panic _ _)

theorem evaluatePerInput_no_panic {columns : List Nat} (inside : ∀ column ∈ columns, column < typed.schema.fields.length)
    (dtype : DataType) (evaluateRow : List Value → Except String Value) :
    evaluatePerInput typed columns dtype evaluateRow ≠ .error .panic := by
  unfold evaluatePerInput
  simp only
  split
  · refine bind_no_panic (bad_no_panic _) fun _ _ => ?_
    exact bind_no_panic (encode_no_panic _ _) nofun
  · refine bind_no_panic (mapM_no_panic fun column member => ?_) fun _ _ => ?_
    · unfold decodeColumn
      have width : column < typed.batch.columns.length := typed.typed.length_eq ▸ inside column member
      rw [List.getElem?_eq_getElem width]
      split
      · exact nofun
      · exact nofun
      · rename_i missing
        cases missing
    · exact bind_no_panic (bad_no_panic _) fun _ _ => encode_no_panic _ _

end Panic

theorem evaluateBatch_gives (bound : Bound host typed.schema predicate) (few : typed.numRows ≤ u32Max + 1) :
    (∃ cells, predicate.evaluateBatch host typed = .ok (.bool cells) ∧ Column.Gives host predicate typed cells) ∨
      ∃ message, predicate.evaluateBatch host typed = .error (.invalid message) := by
  unfold CompiledExpression.evaluateBatch
  split
  · rename_i vector dtype lowered
    obtain ⟨outcome, _⟩ := lowered_means bound lowered
    cases ran : evaluateVector host typed.batch vector with
    | error error =>
      rw [ran] at outcome
      cases outcome
      exact .inr ⟨_, rfl⟩
    | ok evaluated =>
      rw [ran] at outcome
      have whole := outcome.intoArray
      cases stored : evaluated.intoArray typed.numRows with
      | error error =>
        rw [stored] at whole
        cases whole
        exact .inr ⟨_, stored⟩
      | ok array =>
        obtain ⟨cells, rfl, gives⟩ := vectorized_gives bound lowered ran stored
        exact .inl ⟨cells, stored, gives⟩
  · have inside : ∀ column ∈ distinctColumns predicate.expression.columnsReferenced,
        column < typed.schema.fields.length := fun column member =>
      columns_lt predicate.expression bound.valid column (mem_distinctColumns.mp member)
    cases run : evaluatePerInput typed (distinctColumns predicate.expression.columnsReferenced)
        predicate.output.1 (predicate.evaluate host) with
    | error error =>
      cases error with
      | invalid message => exact .inr ⟨message, rfl⟩
      | panic => exact absurd run (evaluatePerInput_no_panic inside _ _)
    | ok array =>
      obtain ⟨cells, rfl, gives⟩ := perInput_gives bound few run
      exact .inl ⟨cells, rfl, gives⟩

theorem evaluateBatch_vectorized (bound : Bound host typed.schema predicate) (vectorizes : Vectorizes host predicate) :
    ∃ cells, predicate.evaluateBatch host typed = .ok (.bool cells) ∧ Column.Gives host predicate typed cells := by
  obtain ⟨vector, dtype, lowered, constants⟩ := vectorizes
  rw [bound.schema_eq] at lowered
  obtain ⟨outcome, _⟩ := lowered_means bound lowered
  have unfolds : predicate.evaluateBatch host typed =
      evaluateVector host typed.batch vector >>= fun evaluated => evaluated.intoArray typed.numRows := by
    unfold CompiledExpression.evaluateBatch
    rw [lowered]
  rw [unfolds]
  cases ran : evaluateVector host typed.batch vector with
  | error error =>
    rw [ran] at outcome
    cases outcome
    contradiction
  | ok evaluated =>
    rw [ran] at outcome
    have whole := outcome.intoArray
    cases stored : evaluated.intoArray typed.numRows with
    | error error =>
      rw [stored] at whole
      cases whole
      contradiction
    | ok array =>
      obtain ⟨cells, rfl, gives⟩ := vectorized_gives bound lowered ran stored
      exact ⟨cells, stored, gives⟩

end Bound
end AsapPlanner.Relational
