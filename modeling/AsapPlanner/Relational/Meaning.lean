import AsapPlanner.Relational.Loop

/-!
The relational join is the row-at-a-time nested loop.
-/

namespace AsapPlanner.Relational
open Ir Rust Grouping Expressions Construction

/-! ### Declared columns -/

theorem same_variant {name name' : String} {parts parts' : List Datum}
    (equal : (Datum.variant name parts).eq (Datum.variant name' parts') = true) :
    name = name' ∧ Datum.eqParts parts parts' = true := by
  simpa [Datum.variant, Datum.eq] using equal

mutual
theorem dtype_eq {a b : DataType} (equal : a.toDatum.eq b.toDatum = true) : a = b := by
  cases a with
  | list element =>
    cases b with
    | list other =>
      simp only [DataType.toDatum, Datum.record, Datum.eq, Datum.eqParts, List.map_cons, List.map_nil,
        Bool.and_true, Bool.and_eq_true] at equal
      rw [field_eq equal.2]
    | _ => simp [DataType.toDatum, Datum.record, Datum.variant, Datum.eq] at equal
  | struct fields =>
    cases b with
    | struct others =>
      simp only [DataType.toDatum, Datum.record, Datum.eq, Datum.eqParts, List.map_cons, List.map_nil,
        Bool.and_true, Bool.and_eq_true] at equal
      rw [fields_eq equal.2.2]
    | _ => simp [DataType.toDatum, Datum.record, Datum.variant, Datum.eq] at equal
  | map key value valueNullable =>
    cases b with
    | map key' value' nullable' =>
      simp only [DataType.toDatum, Datum.record, Datum.eq, Datum.eqParts, List.map_cons, List.map_nil,
        Bool.and_true, Bool.and_eq_true] at equal
      obtain ⟨_, keys, values, nullable⟩ := equal
      rw [dtype_eq keys, dtype_eq values, same_bool.mp nullable]
    | _ => simp [DataType.toDatum, Datum.record, Datum.variant, Datum.eq] at equal
  | _ =>
    cases b <;> first
      | rfl
      | simp [DataType.toDatum, Datum.record, Datum.variant, Datum.eq] at equal

theorem field_eq {a b : Ir.Field DataType} (equal : (DataType.ofField a).eq (DataType.ofField b) = true) : a = b := by
  obtain ⟨name, dtype, nullable, table⟩ := a
  obtain ⟨name', dtype', nullable', table'⟩ := b
  simp only [DataType.ofField, Datum.record, Datum.eq, Datum.eqParts, List.map_cons, List.map_nil,
    Bool.and_true, Bool.and_eq_true] at equal
  obtain ⟨_, names, dtypes, nullables, tables⟩ := equal
  have tableEq : table = table' := by
    have alike := same_option.mp tables
    cases table <;> cases table' <;> simp_all
  rw [same_string.mp names, dtype_eq dtypes, same_bool.mp nullables, tableEq]

theorem fields_eq {a b : List (Ir.Field DataType)}
    (equal : Datum.eqParts (DataType.ofFields a) (DataType.ofFields b) = true) : a = b := by
  cases a with
  | nil =>
    cases b with
    | nil => rfl
    | cons _ _ => cases equal
  | cons field rest =>
    cases b with
    | nil => cases equal
    | cons other others =>
      obtain ⟨first, later⟩ := Bool.and_eq_true_iff.mp equal
      rw [field_eq first, fields_eq later]
end

theorem same_plain {dtype : DataType} {declared : FieldDataType} (equal : same (FieldDataType.plain dtype) declared = true) :
    declared = .plain dtype := by
  cases declared with
  | plain other =>
    obtain ⟨_, parts⟩ := same_variant equal
    simp only [Datum.eqParts, Bool.and_true] at parts
    rw [dtype_eq parts]
  | _ => exact absurd (same_variant equal).1 (by decide)

theorem holdsCell_wider {actual declared : SchemaField} {value : Value} (held : holdsCell actual value = true)
    (dtype : declared.dtype = actual.dtype) (wider : actual.nullable = true → declared.nullable = true) :
    holdsCell declared value = true := by
  unfold holdsCell Ir.Field.plainDtype at held ⊢
  rw [dtype]
  cases plain : actual.dtype with
  | plain dtype =>
    rw [plain] at held
    exact Value.hasType_nullable held wider
  | _ =>
    rw [plain] at held
    exact held

theorem ofField_declared {column : Column} {actual declared : SchemaField} (ofField : OfField column actual)
    (equal : same actual.dtype declared.dtype = true) (wider : actual.nullable = true → declared.nullable = true) :
    OfField column declared := by
  obtain ⟨layout, cells⟩ := ofField
  cases plain : actual.dtype with
  | plain dtype =>
    rw [plain] at equal layout
    have declaredPlain := same_plain equal
    exact ⟨declaredPlain ▸ layout, fun value member =>
      holdsCell_wider (cells value member) (declaredPlain.trans plain.symm) wider⟩
  | _ =>
    rw [plain] at equal layout
    have declaredStates : Ir.Field.plainDtype declared = none := by
      unfold Ir.Field.plainDtype
      cases other : declared.dtype with
      | plain dtype =>
        rw [other] at equal
        cases same_plain (same_symm equal)
      | _ => rfl
    refine ⟨?_, fun value member => ?_⟩
    · cases column with
      | states family length =>
        have family : hasLayout (.states family length) declared.dtype = same family declared.dtype := by
          unfold Ir.Field.plainDtype at declaredStates
          split at declaredStates
          · cases declaredStates
          · rename_i other
            unfold hasLayout
            split <;> simp_all
        rw [family]
        exact same_trans layout equal
      | _ => cases layout
    · have held := cells value member
      simp only [holdsCell, Ir.Field.plainDtype, plain] at held
      simp only [holdsCell, declaredStates]
      exact held

/-! ### Rows taken by number -/

theorem hasLayout_take (indices : List (Option Nat)) (column : Column) (dtype : FieldDataType) :
    hasLayout (takeColumn indices column) dtype = hasLayout column dtype := by
  cases column <;> cases dtype <;> first | rfl | (rename_i dtype; cases dtype <;> rfl)

/-- A row's cell, NULL for a missing row. -/
def cellAt (column : Column) (index : Option Nat) : Value :=
  (index.map fun index => column.decode.getD index .null).getD .null

theorem take_slots {α : Type} (mk : α → Value) (cells : List (Option α)) (indices : List (Option Nat)) :
    (indices.map fun index => index.bind fun index => (cells[index]?).join).map (Column.ofSlot mk) =
      indices.map fun index =>
        (index.map fun index => (cells.map (Column.ofSlot mk)).getD index .null).getD .null := by
  rw [List.map_map]
  refine List.map_congr_left fun index _ => ?_
  cases index with
  | none => rfl
  | some index => exact (cell_slots mk cells index).symm

section Take
variable {column : Column} {indices : List (Option Nat)}

theorem decode_take (inside : ∀ index, some index ∈ indices → index < column.decode.length)
    (stateless : isStates column = true → none ∉ indices) :
    (takeColumn indices column).decode = indices.map (cellAt column) := by
  cases column with
  | null length =>
    rw [takeColumn, Column.decode, eq_comm, List.map_eq_replicate_iff]
    intro index _
    cases index with
    | none => rfl
    | some index =>
      show (List.replicate length Value.null).getD index .null = .null
      rw [List.getD_eq_getElem?_getD, List.getElem?_replicate]
      split <;> rfl
  | dictionary dictionary =>
    exact take_slots (fun entry => .utf8 dictionary.texts[entry]) dictionary.keys indices
  | nested dtype values =>
    refine List.map_congr_left fun index _ => ?_
    cases index with
    | none => rfl
    | some index =>
      show (values[index]?).getD .null = values.getD index .null
      rw [List.getD_eq_getElem?_getD]
  | states family length =>
    rw [takeColumn, Column.decode, eq_comm, List.map_eq_replicate_iff]
    intro index member
    cases index with
    | none => exact absurd member (stateless rfl)
    | some index =>
      have small := inside index member
      rw [Column.decode, List.length_replicate] at small
      show (List.replicate length (Value.summary family)).getD index .null = _
      simp [small]
  | _ => exact take_slots _ _ indices

theorem ofField_take {actual declared : SchemaField} (ofField : OfField column actual)
    (inside : ∀ index, some index ∈ indices → index < column.decode.length)
    (stateless : isStates column = true → none ∉ indices) (dtype : declared.dtype = actual.dtype)
    (wider : actual.nullable = true → declared.nullable = true)
    (missing : none ∈ indices → declared.nullable = true) : OfField (takeColumn indices column) declared where
  layout := by rw [hasLayout_take, dtype, ofField.layout]
  cells value member := by
    rw [decode_take inside stateless] at member
    obtain ⟨index, here, rfl⟩ := List.mem_map.mp member
    cases index with
    | some index =>
      refine holdsCell_wider (ofField.cells _ ?_) dtype wider
      show column.decode.getD index .null ∈ _
      rw [List.getD_eq_getElem?_getD, List.getElem?_eq_getElem (inside index here)]
      exact List.getElem_mem _
    | none =>
      show holdsCell declared .null = true
      unfold holdsCell
      split
      · unfold Value.hasType
        rw [missing here]
        rfl
      · rfl

end Take

/-! ### The joined rows -/

section Rows
variable {kind : JoinKind} {typed left right : TypedBatch}

def sideOf (width : Nat) (row : Option (List Value)) : List Value := row.getD (List.replicate width .null)

/-- An output row: a settled kind's is the left row alone. -/
def cellsOf (kind : JoinKind) (left right : Schema) (pair : Option (List Value) × Option (List Value)) :
    List Value :=
  if settles kind then sideOf left.fields.length pair.1
  else sideOf left.fields.length pair.1 ++ sideOf right.fields.length pair.2

def hasSummary (schema : Schema) : Bool := schema.fields.any fun field => !field.isPlain

theorem isStates_field {column : Column} {field : SchemaField} (ofField : OfField column field) :
    isStates column = !field.isPlain := by
  have layout := ofField.layout
  unfold Ir.Field.isPlain FieldDataType.isPlain
  cases plain : field.dtype with
  | plain dtype =>
    rw [plain] at layout
    cases column <;> first | rfl | cases layout
  | _ =>
    rw [plain] at layout
    cases column <;> first | rfl | cases layout

theorem any_isStates (typed : TypedBatch) : typed.batch.columns.any isStates = hasSummary typed.schema := by
  suffices ∀ {columns : List Column} {fields : List SchemaField}, List.Forall₂ OfField columns fields →
      columns.any isStates = fields.any fun field => !field.isPlain from this typed.typed
  intro columns fields typed
  induction typed with
  | nil => rfl
  | cons first _ ih => rw [List.any_cons, List.any_cons, ih, isStates_field first]

theorem sideOf_row (typed : TypedBatch) (index : Option Nat) :
    typed.batch.columns.map (cellAt · index) = sideOf typed.schema.fields.length (index.map typed.row) := by
  cases index with
  | none =>
    show typed.batch.columns.map (fun _ => Value.null) = List.replicate _ Value.null
    rw [List.map_const', typed.typed.length_eq]
  | some index => rfl

theorem takeRows_ok {fields : List SchemaField} {indices : List (Option Nat)}
    (declared : List.Forall₂ (fun (field declared : SchemaField) => declared.dtype = field.dtype ∧
      (field.nullable = true → declared.nullable = true) ∧ (none ∈ indices → declared.nullable = true))
        typed.schema.fields fields)
    (inside : ∀ index, some index ∈ indices → index < typed.numRows)
    (stateless : hasSummary typed.schema = false) : ∃ columns,
      takeRows typed indices = .ok columns ∧ List.Forall₂ OfField columns fields ∧
        (∀ column ∈ columns, column.decode.length = indices.length) ∧
          ∀ row index, indices[row]? = some index →
            columns.map (fun column => column.decode.getD row .null) =
              sideOf typed.schema.fields.length (index.map typed.row) := by
  have lengths : ∀ column ∈ typed.batch.columns, ∀ index, some index ∈ indices → index < column.decode.length :=
    fun column member index here => by
      rw [length_column typed member]
      exact inside index here
  have states : ∀ column ∈ typed.batch.columns, isStates column = true → none ∉ indices :=
    fun column member stored => by
      rw [← any_isStates, List.any_eq_false] at stateless
      exact absurd stored (stateless column member)
  have decoded : ∀ column ∈ typed.batch.columns, (takeColumn indices column).decode = indices.map (cellAt column) :=
    fun column member => decode_take (lengths column member) (states column member)
  refine ⟨typed.batch.columns.map (takeColumn indices), ?_, ?_, fun column member => ?_, fun row index here => ?_⟩
  · unfold takeRows
    rw [any_isStates, stateless, Bool.and_false, if_neg Bool.false_ne_true]
  · rw [List.forall₂_map_left_iff]
    refine List.forall₂_iff_get.mpr ⟨by rw [typed.typed.length_eq, declared.length_eq], fun index first second => ?_⟩
    have ofField := List.Forall₂.get typed.typed first (typed.typed.length_eq ▸ first)
    obtain ⟨dtype, wider, missing⟩ := List.Forall₂.get declared (typed.typed.length_eq ▸ first) second
    exact ofField_take ofField (lengths _ (List.get_mem _ _)) (states _ (List.get_mem _ _)) dtype wider missing
  · obtain ⟨own, here, rfl⟩ := List.mem_map.mp member
    rw [decoded own here, List.length_map]
  · rw [List.map_map, ← sideOf_row]
    refine List.map_congr_left fun column member => ?_
    rw [Function.comp_apply, decoded column member, List.getD_eq_getElem?_getD, List.getElem?_map, here]
    rfl

/-! ### The join's result -/

def Declares (actual declared : SchemaField) : Prop :=
  same actual.dtype declared.dtype = true ∧ (actual.nullable = true → declared.nullable = true)

theorem declares_forall₂ {fields : List SchemaField} {output : Schema} (declared : declares fields output = true) :
    List.Forall₂ Declares fields output.fields := by
  obtain ⟨length, each⟩ := Bool.and_eq_true_iff.mp declared
  refine List.forall₂_iff_zip.mpr ⟨beq_iff_eq.mp length, fun {actual declared} member => ?_⟩
  have alike := List.all_eq_true.mp each _ member
  obtain ⟨equal, wider⟩ := Bool.and_eq_true_iff.mp alike
  refine ⟨equal, fun nullable => ?_⟩
  simpa [nullable] using wider

theorem declared_columns {columns : List Column} {fields declared : List SchemaField}
    (typed : List.Forall₂ OfField columns fields) (wider : List.Forall₂ Declares fields declared) :
    List.Forall₂ OfField columns declared := by
  induction typed generalizing declared with
  | nil =>
    cases wider
    exact .nil
  | cons first _ ih =>
    cases wider with
    | cons alike others => exact .cons (ofField_declared first alike.1 alike.2) (ih others)

/-- A side's fields, nullable where the other side's rows are all kept. -/
def sideFields (preserved : Bool) (fields : List SchemaField) : List SchemaField :=
  if preserved then fields.map nullableField else fields

theorem sideFields_take {preserved : Bool} {indices : List (Option Nat)} (fields : List SchemaField)
    (missing : none ∈ indices → preserved = true) :
    List.Forall₂ (fun (field declared : SchemaField) => declared.dtype = field.dtype ∧
      (field.nullable = true → declared.nullable = true) ∧ (none ∈ indices → declared.nullable = true))
        fields (sideFields preserved fields) := by
  unfold sideFields
  split
  · rw [List.forall₂_map_right_iff, List.forall₂_same]
    exact fun field _ => ⟨rfl, fun _ => rfl, fun _ => rfl⟩
  · rename_i unpreserved
    rw [List.forall₂_same]
    exact fun field _ => ⟨rfl, id, fun absent => absurd (missing absent) unpreserved⟩

theorem toRows_eq {result : TypedBatch} {P : Type} {pairs : List P} {cells : P → List Value}
    (rows : result.numRows = pairs.length)
    (each : ∀ row pair, pairs[row]? = some pair → result.row row = cells pair) :
    result.toRows = pairs.map cells := by
  rw [TypedBatch.toRows, rows]
  refine List.ext_getElem (by simp) fun row _ inside => ?_
  rw [List.length_map] at inside
  rw [List.getElem_map, List.getElem_map, List.getElem_range]
  exact each row _ (List.getElem?_eq_getElem inside)

variable (kind left right) in
def outputBatch (output : Schema) (outLeft outRight : List (Option Nat)) : Except Error TypedBatch := do
  let leftColumns ← takeRows left outLeft
  if settles kind then fromParts output leftColumns outLeft.length
  else do
    let rightColumns ← takeRows right outRight
    fromParts output (leftColumns ++ rightColumns) outLeft.length

theorem outputBatch_rows {output : Schema} {pairs : List (Option Nat × Option Nat)} {outRight : List (Option Nat)}
    (plain : hasSummary left.schema = false) (otherPlain : hasSummary right.schema = false)
    (declared : declares (outputFields kind left.schema right.schema) output = true)
    (leftInside : ∀ pair ∈ pairs, ∀ row, pair.1 = some row → row < left.numRows)
    (rightInside : ∀ pair ∈ pairs, ∀ row, pair.2 = some row → row < right.numRows)
    (leftMissing : ∀ pair ∈ pairs, pair.1 = none → keepsRight kind = true)
    (rightMissing : ∀ pair ∈ pairs, pair.2 = none → settles kind = true ∨ keepsLeft kind = true)
    (rights : settles kind = false → outRight = pairs.map Prod.snd) :
    (outputBatch kind left right output (pairs.map Prod.fst) outRight).map TypedBatch.toRows =
      .ok (pairs.map fun pair =>
        cellsOf kind left.schema right.schema (pair.1.map left.row, pair.2.map right.row)) := by
  have wider := declares_forall₂ declared
  have leftNone : none ∈ pairs.map Prod.fst → keepsRight kind = true := fun member => by
    obtain ⟨pair, here, absent⟩ := List.mem_map.mp member
    exact leftMissing pair here absent
  have leftRows : ∀ row, some row ∈ pairs.map Prod.fst → row < left.numRows := fun row member => by
    obtain ⟨pair, here, found⟩ := List.mem_map.mp member
    exact leftInside pair here row found
  obtain ⟨leftColumns, leftTaken, leftTyped, leftLengths, leftCells⟩ :=
    takeRows_ok (sideFields_take left.schema.fields leftNone) leftRows plain
  unfold outputBatch
  rw [leftTaken]
  simp only [bind, Except.bind]
  cases settled : settles kind with
  | true =>
    have fields : outputFields kind left.schema right.schema =
        sideFields (keepsRight kind) left.schema.fields := by
      cases kind <;> first | rfl | exact Bool.noConfusion settled
    rw [fields] at wider
    obtain ⟨result, made, _, rows, columns⟩ := fromParts_ok (declared_columns leftTyped wider) leftLengths
    rw [if_pos rfl, made]
    refine congrArg Except.ok (toRows_eq (by rw [rows, List.length_map]) fun row pair here => ?_)
    rw [TypedBatch.row, columns, leftCells row pair.1 (by rw [List.getElem?_map, here]; rfl), cellsOf, settled]
    rfl
  | false =>
    obtain rfl := rights settled
    have rightNone : none ∈ pairs.map Prod.snd → keepsLeft kind = true := fun member => by
      obtain ⟨pair, here, absent⟩ := List.mem_map.mp member
      exact (rightMissing pair here absent).resolve_left (by rw [settled]; exact nofun)
    have rightRows : ∀ row, some row ∈ pairs.map Prod.snd → row < right.numRows := fun row member => by
      obtain ⟨pair, here, found⟩ := List.mem_map.mp member
      exact rightInside pair here row found
    obtain ⟨rightColumns, rightTaken, rightTyped, rightLengths, rightCells⟩ :=
      takeRows_ok (sideFields_take right.schema.fields rightNone) rightRows otherPlain
    have fields : outputFields kind left.schema right.schema =
        sideFields (keepsRight kind) left.schema.fields ++ sideFields (keepsLeft kind) right.schema.fields := by
      rw [outputFields, settled]
      rfl
    rw [fields] at wider
    have lengths : ∀ column ∈ leftColumns ++ rightColumns, column.decode.length = pairs.length :=
      fun column member => by
        rcases List.mem_append.mp member with first | second
        · rw [leftLengths column first, List.length_map]
        · rw [rightLengths column second, List.length_map]
    have typed : List.Forall₂ OfField (leftColumns ++ rightColumns) output.fields :=
      declared_columns (List.rel_append leftTyped rightTyped) wider
    obtain ⟨result, made, _, rows, columns⟩ := fromParts_ok typed lengths
    simp only [Bool.false_eq_true, if_false, rightTaken, List.length_map, made]
    refine congrArg Except.ok (toRows_eq rows fun row pair here => ?_)
    rw [TypedBatch.row, columns, List.map_append, leftCells row pair.1 (by rw [List.getElem?_map, here]; rfl),
      rightCells row pair.2 (by rw [List.getElem?_map, here]; rfl), cellsOf, settled]
    rfl

end Rows

section Join
variable {host : Host} {kind : JoinKind} {left right : TypedBatch} {predicate : LocalExpr} {output : Schema}
  {operator : JoinOperator} {evaluationTimeMs : Option Int64}

variable (host kind left right) in
def rowJoin (predicate : CompiledExpression) : Except String (List (List Value)) :=
  (nestedLoop kind (holdsPair host predicate) left.toRows right.toRows).map
    (List.map (cellsOf kind left.schema right.schema))

theorem joinLoop_pairs {compiled : CompiledExpression} {holds : Nat → Nat → Except String Bool}
    (few : right.numRows ≤ u32Max) (each : ∀ row < left.numRows, Follows (Agree kind right.numRows)
      (scan kind (holds row) (List.range right.numRows)) (matchesOf host kind compiled left right row)) :
    Follows (fun pairs out => out.outLeft = pairs.map Prod.fst ∧
        (settles kind = false → out.outRight = pairs.map Prod.snd))
      (nestedLoop kind holds (List.range left.numRows) (List.range right.numRows))
      ((joinLoop host kind compiled left right (List.range left.numRows)
        ⟨[], [], List.replicate right.numRows false⟩).map
          fun out => if keepsRight kind then emitUnmatched out else out) := by
  have loop := joinLoop_writes few (List.range left.numRows) (fun row member => each row (List.mem_range.mp member))
    ⟨[], [], List.replicate right.numRows false⟩
  unfold nestedLoop
  rw [map_eq_bind]
  refine loop.bind fun table out wrote => .ok ?_
  cases preserved : keepsRight kind with
  | true =>
    have unsettled : settles kind = false := by cases kind <;> first | rfl | exact Bool.noConfusion preserved
    obtain ⟨lefts, rights⟩ := emitUnmatched_writes unsettled few wrote
    exact ⟨lefts, fun _ => rights⟩
  | false =>
    simp only [Bool.false_eq_true, if_false, List.append_nil]
    exact ⟨wrote.left, wrote.right⟩

theorem relationalJoin_eq : relationalJoin host operator evaluationTimeMs left right =
    (joinLoop host operator.kind { operator.predicate with evaluationTimeMs } left right
      (List.range (asU32 left.numRows)) ⟨[], [], List.replicate right.numRows false⟩).map
        (fun out => if keepsRight operator.kind then emitUnmatched out else out) >>=
          fun out => outputBatch operator.kind left right operator.output out.outLeft out.outRight := by
  rw [map_eq_bind]
  show joinLoop host operator.kind { operator.predicate with evaluationTimeMs } left right
    (List.range (asU32 left.numRows)) ⟨[], [], List.replicate right.numRows false⟩ >>= _ = _
  generalize joinLoop host operator.kind { operator.predicate with evaluationTimeMs } left right
    (List.range (asU32 left.numRows)) ⟨[], [], List.replicate right.numRows false⟩ = run
  cases run <;> rfl

theorem plain_sides {left right : Schema}
    (plain : (schemaOf (left.fields ++ right.fields)).isAllPlain = true) :
    hasSummary left = false ∧ hasSummary right = false := by
  have each := List.all_eq_true.mp plain
  refine ⟨List.any_eq_false.mpr fun field member => ?_, List.any_eq_false.mpr fun field member => ?_⟩
  · simp [each field (List.mem_append_left _ member)]
  · simp [each field (List.mem_append_right _ member)]

theorem relationalJoin_loop
    (made : JoinOperator.new host left.schema right.schema kind predicate output = .ok operator)
    (leftFew : left.numRows ≤ u32Max) (rightFew : right.numRows ≤ u32Max) {holds : Nat → Nat → Except String Bool}
    (each : ∀ row < left.numRows, Follows (Agree kind right.numRows)
      (scan kind (holds row) (List.range right.numRows))
      (matchesOf host kind { operator.predicate with evaluationTimeMs } left right row)) :
    (relationalJoin host operator evaluationTimeMs left right).map TypedBatch.toRows =
      bad ((nestedLoop kind holds (List.range left.numRows) (List.range right.numRows)).map
        (List.map fun pair => cellsOf kind left.schema right.schema (pair.1.map left.row, pair.2.map right.row))) := by
  obtain ⟨bound, _, _, kindEq, declared, _⟩ := new_ok made evaluationTimeMs
  obtain ⟨leftPlain, rightPlain⟩ := plain_sides bound.plain
  rw [relationalJoin_eq, kindEq, asU32_small leftFew]
  have loop := joinLoop_pairs rightFew each
  cases ran : nestedLoop kind holds (List.range left.numRows) (List.range right.numRows) with
  | error message =>
    rw [ran] at loop
    rw [loop.error_eq]
    rfl
  | ok pairs =>
    rw [ran] at loop
    obtain ⟨out, finished, lefts, rights⟩ := loop.ok_eq
    have rows := outputBatch_rows leftPlain rightPlain declared
      (fun pair member row found => List.mem_range.mp ((mem_nestedLoop ran member).1 row found))
      (fun pair member row found => List.mem_range.mp ((mem_nestedLoop ran member).2.1 row found))
      (fun pair member => (mem_nestedLoop ran member).2.2.1)
      (fun pair member => (mem_nestedLoop ran member).2.2.2) rights
    rw [← lefts] at rows
    rw [finished]
    exact rows

/-- The join is the nested loop, in its order, and fails as it does, where no pair the loop reaches loses the
operand of an empty `IN` list and no cross join ignores a predicate. -/
theorem relationalJoin_rows
    (made : JoinOperator.new host left.schema right.schema kind predicate output = .ok operator)
    (leftFew : left.numRows ≤ u32Max) (rightFew : right.numRows ≤ u32Max)
    (kept : ¬ Loses host kind { operator.predicate with evaluationTimeMs } left.toRows right.toRows)
    (heeded : ¬ Ignores host kind { operator.predicate with evaluationTimeMs } left.toRows right.toRows) :
    (relationalJoin host operator evaluationTimeMs left right).map TypedBatch.toRows =
      bad (rowJoin host kind left right { operator.predicate with evaluationTimeMs }) := by
  obtain ⟨bound, _⟩ := new_ok made evaluationTimeMs
  have each : ∀ row < left.numRows, Follows (Agree kind right.numRows)
      (scan kind (fun other => holdsPair host { operator.predicate with evaluationTimeMs } (left.row row)
        (right.row other)) (List.range right.numRows))
      (matchesOf host kind { operator.predicate with evaluationTimeMs } left right row) := fun row small => by
    rw [← scan_map]
    exact matchesOf_scan bound rightFew small kept heeded
  rw [relationalJoin_loop made leftFew rightFew each, rowJoin, TypedBatch.toRows, TypedBatch.toRows, nestedLoop_map]
  generalize nestedLoop kind _ (List.range left.numRows) (List.range right.numRows) = run
  cases run with
  | error _ => rfl
  | ok pairs =>
    refine congrArg Except.ok ?_
    rw [List.map_map]
    rfl

/-! ### Lost operands -/

theorem scan_found (found : List Bool) : ∃ truths,
    scan kind (fun other => (Except.ok (Value.bool (found.getD other false)) : Except String Value).map isTrue)
      (List.range found.length) = .ok truths ∧ Agree kind found.length truths found := by
  have given : List.Forall₂ (fun other cell => Gives False (Column.ofSlot Value.bool cell)
      (.ok (Value.bool (found.getD other false)))) (List.range found.length) (found.map some) := by
    refine List.forall₂_iff_get.mpr ⟨by simp, fun index inside there => ?_⟩
    rw [List.length_range] at inside
    simp [Gives, Column.ofSlot, inside]
  obtain ⟨truths, ran, agree⟩ := scan_gives kind given fun _ _ _ _ _ => id
  rw [List.length_range, List.map_map] at agree
  have same : found.map ((· == some true) ∘ some) = found := by
    rw [List.map_congr_left (g := id), List.map_id]
    rintro (_ | _) _ <;> rfl
  rw [same] at agree
  exact ⟨truths, ran, agree⟩

theorem relationalJoin_total
    (made : JoinOperator.new host left.schema right.schema kind predicate output = .ok operator)
    (leftFew : left.numRows ≤ u32Max) (rightFew : right.numRows ≤ u32Max) (uncrossed : kind ≠ .cross)
    (vectorizes : Vectorizes host { operator.predicate with evaluationTimeMs }) : ∃ rows,
      (relationalJoin host operator evaluationTimeMs left right).map TypedBatch.toRows = .ok rows := by
  obtain ⟨bound, _⟩ := new_ok made evaluationTimeMs
  let foundOf := fun row => match matchesOf host kind { operator.predicate with evaluationTimeMs } left right row with
    | .ok found => found
    | .error _ => []
  have ran : ∀ row < left.numRows, matchesOf host kind { operator.predicate with evaluationTimeMs } left right row =
      .ok (foundOf row) ∧ (foundOf row).length = right.numRows := fun row small => by
    obtain ⟨found, made, length⟩ := matchesOf_vectorized bound vectorizes uncrossed small
    simp only [foundOf, made]
    exact ⟨trivial, length⟩
  have scans : ∀ row < left.numRows, ∃ truths, scan kind (fun other =>
      (Except.ok (Value.bool ((foundOf row).getD other false)) : Except String Value).map isTrue)
        (List.range right.numRows) = .ok truths ∧ Agree kind right.numRows truths (foundOf row) := fun row small => by
    rw [← (ran row small).2]
    exact scan_found (foundOf row)
  have each : ∀ row < left.numRows, Follows (Agree kind right.numRows) (scan kind (fun other =>
      (Except.ok (Value.bool ((foundOf row).getD other false)) : Except String Value).map isTrue)
        (List.range right.numRows))
      (matchesOf host kind { operator.predicate with evaluationTimeMs } left right row) := fun row small => by
    obtain ⟨truths, scanned, agree⟩ := scans row small
    rw [scanned, (ran row small).1]
    exact .ok agree
  obtain ⟨pairs, looped⟩ := nestedLoop_total fun row (member : row ∈ List.range left.numRows) =>
    (scans row (List.mem_range.mp member)).imp fun _ => And.left
  rw [relationalJoin_loop made leftFew rightFew each, looped]
  exact ⟨_, rfl⟩

theorem evaluate_lost {compiled : CompiledExpression} {row : List Value} (lost : Lost host compiled row)
    (value : Value) : compiled.evaluate host row ≠ .ok value := by
  unfold CompiledExpression.evaluate
  split
  · exact lost.fails value
  · exact nofun

theorem rowJoin_lost {compiled : CompiledExpression} (loses : Loses host kind compiled left.toRows right.toRows)
    (rows : List (List Value)) : rowJoin host kind left right compiled ≠ .ok rows := by
  obtain ⟨-, _, row, member, before, other, after, split, open_, lost⟩ := loses
  intro joined
  obtain ⟨pairs, looped, _⟩ := map_eq_ok joined
  rw [split] at looped
  obtain ⟨truth, held⟩ := nestedLoop_reaches looped member fun settled earlier here matched => by
    rw [holdsPair] at matched
    obtain ⟨value, ran, true_⟩ := map_eq_ok matched
    refine open_ settled earlier here ?_
    rw [ran]
    cases value with
    | bool truth =>
      cases truth with
      | true => rfl
      | false => cases true_
    | _ => cases true_
  rw [holdsPair] at held
  obtain ⟨value, ran, _⟩ := map_eq_ok held
  exact evaluate_lost lost value ran

/-! ### Cross joins -/

theorem scan_cross_ok {β ε : Type} {holds : β → Except ε Bool} {rows : List β} {truths : List Bool}
    (ran : scan .cross holds rows = .ok truths) :
    List.Forall₂ (fun row truth => holds row = .ok truth) rows truths := by
  induction rows generalizing truths with
  | nil =>
    cases ran
    exact .nil
  | cons row rest ih =>
    rw [scan] at ran
    obtain ⟨truth, held, ran⟩ := bind_eq_ok ran
    rw [show settles .cross = false from rfl, Bool.and_false, if_neg Bool.false_ne_true] at ran
    obtain ⟨others, later, ran⟩ := bind_eq_ok ran
    cases ran
    exact .cons held (ih later)

theorem length_filter_iff {β ε : Type} {holds : β → Except ε Bool} {rows : List β} {truths : List Bool}
    (each : List.Forall₂ (fun row truth => holds row = .ok truth) rows truths) :
    ((rows.zip truths).filter (·.2)).length = rows.length ↔ ∀ row ∈ rows, holds row = .ok true := by
  induction each with
  | nil => exact ⟨fun _ row member => absurd member List.not_mem_nil, fun _ => rfl⟩
  | @cons row truth rest truths held each ih =>
    have few := List.length_filter_le (fun pair : β × Bool => pair.2) (rest.zip truths)
    rw [List.length_zip, ← each.length_eq, Nat.min_self] at few
    rw [List.zip_cons_cons, List.filter_cons, List.length_cons, List.forall_mem_cons, held, ← ih]
    cases truth with
    | false =>
      simp only [Bool.false_eq_true, if_false]
      refine ⟨fun full => absurd full (by omega), fun both => absurd (Except.ok.inj both.1) Bool.false_ne_true⟩
    | true =>
      simp only [if_true, List.length_cons, Nat.add_right_cancel_iff, true_and]

theorem nestedLoop_cross {α β ε : Type} {holds : α → β → Except ε Bool} {left : List α} {right : List β}
    {pairs : List (Option α × Option β)} (ran : nestedLoop .cross holds left right = .ok pairs) :
    pairs.length ≤ left.length * right.length ∧ (pairs.length = left.length * right.length ↔
      ∀ row ∈ left, ∀ other ∈ right, holds row other = .ok true) := by
  induction left generalizing pairs with
  | nil =>
    cases ran
    exact ⟨Nat.zero_le _, fun _ row member => absurd member List.not_mem_nil, fun _ => (Nat.zero_mul _).symm⟩
  | cons first rest ih =>
    obtain ⟨table, scans, ran⟩ := bind_eq_ok ran
    rw [mapM_eq_ok] at scans
    cases scans with
    | @cons _ truths _ table here scans =>
      have later : nestedLoop .cross holds rest right = .ok
          (List.zipWith (fun row truths => outputOf .cross row right truths) rest table).flatten := by
        rw [nestedLoop, mapM_eq_ok.mpr scans]
        exact congrArg Except.ok (List.append_nil _)
      obtain ⟨most, all⟩ := ih later
      have each := scan_cross_ok here
      have own : (outputOf .cross first right truths).length = ((right.zip truths).filter (·.2)).length := by
        simp [outputOf, keepsLeft]
      have few := List.length_filter_le (fun pair : β × Bool => pair.2) (right.zip truths)
      rw [List.length_zip, ← each.length_eq, Nat.min_self] at few
      have length := congrArg List.length (Except.ok.inj ran)
      rw [List.zipWith_cons_cons, List.flatten_cons] at length
      simp only [keepsRight, Bool.false_eq_true, if_false, List.append_nil, List.length_append, own] at length
      rw [List.length_cons, Nat.succ_mul, List.forall_mem_cons, ← all, ← length_filter_iff each]
      omega

theorem relationalJoin_cross
    (made : JoinOperator.new host left.schema right.schema .cross predicate output = .ok operator)
    (leftFew : left.numRows ≤ u32Max) (rightFew : right.numRows ≤ u32Max) : ∃ rows,
      (relationalJoin host operator evaluationTimeMs left right).map TypedBatch.toRows = .ok rows ∧
        rows.length = left.numRows * right.numRows := by
  have each : ∀ row < left.numRows, Follows (Agree .cross right.numRows)
      (scan .cross ((fun _ _ => .ok true : Nat → Nat → Except String Bool) row) (List.range right.numRows))
      (matchesOf host .cross { operator.predicate with evaluationTimeMs } left right row) := fun row _ => by
    rw [matchesOf, if_pos rfl, scan_cross fun _ _ => rfl, List.length_range]
    exact .ok ⟨List.length_replicate, rfl, fun _ => rfl⟩
  have scans : ∀ row ∈ List.range left.numRows, ∃ truths, scan .cross
      ((fun _ _ => .ok true : Nat → Nat → Except String Bool) row) (List.range right.numRows) = .ok truths :=
    fun row _ => ⟨_, scan_cross fun _ _ => rfl⟩
  obtain ⟨pairs, looped⟩ := nestedLoop_total scans
  rw [relationalJoin_loop made leftFew rightFew each, looped]
  refine ⟨_, rfl, ?_⟩
  rw [List.length_map]
  simpa using (nestedLoop_cross looped).2.mpr fun _ _ _ _ => rfl

/-- The join is the nested loop, in its order, and fails as it does, exactly where no pair the loop reaches loses
the operand of an empty `IN` list and no cross join ignores a predicate. -/
theorem relationalJoin_iff
    (made : JoinOperator.new host left.schema right.schema kind predicate output = .ok operator)
    (leftFew : left.numRows ≤ u32Max) (rightFew : right.numRows ≤ u32Max) :
    (relationalJoin host operator evaluationTimeMs left right).map TypedBatch.toRows =
        bad (rowJoin host kind left right { operator.predicate with evaluationTimeMs }) ↔
      ¬ Loses host kind { operator.predicate with evaluationTimeMs } left.toRows right.toRows ∧
        ¬ Ignores host kind { operator.predicate with evaluationTimeMs } left.toRows right.toRows := by
  refine ⟨fun equal => ⟨fun loses => ?_, fun ignores => ?_⟩, fun ⟨kept, heeded⟩ =>
    relationalJoin_rows made leftFew rightFew kept heeded⟩
  · obtain ⟨rows, total⟩ : ∃ rows,
        (relationalJoin host operator evaluationTimeMs left right).map TypedBatch.toRows = .ok rows :=
      relationalJoin_total made leftFew rightFew loses.1 loses.2.1
    rw [total] at equal
    exact rowJoin_lost loses rows (bad_eq_ok equal.symm)
  · obtain ⟨rfl, row, member, other, inside, differs⟩ := ignores
    obtain ⟨rows, total, all⟩ : ∃ rows,
        (relationalJoin host operator evaluationTimeMs left right).map TypedBatch.toRows = .ok rows ∧
          rows.length = left.numRows * right.numRows := relationalJoin_cross made leftFew rightFew
    rw [total] at equal
    obtain ⟨pairs, looped, same⟩ := map_eq_ok (bad_eq_ok equal.symm)
    rw [← same, List.length_map, ← length_toRows left, ← length_toRows right] at all
    have held := (nestedLoop_cross looped).2.mp all row member other inside
    obtain ⟨value, ran, true_⟩ := map_eq_ok held
    refine differs (ran.trans (congrArg Except.ok ?_))
    cases value with
    | bool truth =>
      cases truth with
      | true => rfl
      | false => cases true_
    | _ => cases true_

end Join

/-! ### A join of integers -/

/-- Integers alone: no doubles, regular expressions or scalar functions. -/
def plainHost : Host where
  text := default
  ofInt64 _ := ⟨false, 0⟩
  toInt64 _ := 0
  fract v := v
  evaluateFloat64Arithmetic _ left _ := left
  addMonths at_ _ := some at_
  regex _ := none
  functionType _ _ _ := .error (signature "unknown function")
  isEvaluated _ := false
  function _ _ _ _ := .error "unknown function"

theorem integers_lengths (values : List Int64) :
    ∀ column ∈ [Column.int64 (values.map some)], column.decode.length = values.length := by
  simp [Column.decode]

def integers (name : String) (values : List Int64) : TypedBatch where
  schema := schemaOf [Ir.Field.ofPlain name .int64 false]
  batch := { numRows := values.length, columns := [.int64 (values.map some)], lengths := integers_lengths values }
  typed := .cons ⟨rfl, by
    intro value member
    simp only [Column.decode, List.map_map, List.mem_map] at member
    obtain ⟨_, _, rfl⟩ := member
    rfl⟩ .nil

/-- `a = b`, left rows preserved. -/
theorem relationalJoin_iff_equal : ∃ operator,
    JoinOperator.new plainHost (integers "a" [1, 2]).schema (integers "b" [2, 3]).schema .left
        (.compare (.column 0) .eq (.column 1) .sql)
        (schemaOf [Ir.Field.ofPlain "a" .int64 false, Ir.Field.ofPlain "b" .int64 true]) = .ok operator ∧
      (relationalJoin plainHost operator none (integers "a" [1, 2]) (integers "b" [2, 3])).map TypedBatch.toRows =
        bad (rowJoin plainHost .left (integers "a" [1, 2]) (integers "b" [2, 3])
          { operator.predicate with evaluationTimeMs := none }) := by
  obtain ⟨operator, made⟩ : ∃ operator, JoinOperator.new plainHost (integers "a" [1, 2]).schema
      (integers "b" [2, 3]).schema .left (.compare (.column 0) .eq (.column 1) .sql)
      (schemaOf [Ir.Field.ofPlain "a" .int64 false, Ir.Field.ofPlain "b" .int64 true]) = .ok operator := ⟨_, rfl⟩
  refine ⟨operator, made, (relationalJoin_iff made (by decide) (by decide)).mpr ⟨?_, fun ignores => by cases ignores.1⟩⟩
  rintro ⟨_, _, _, _, _, _, _, _, _, lost⟩
  unfold Lost at lost
  rw [(new_ok made none).2.2.2.2.2] at lost
  cases lost with
  | compared _ lost => cases lost
  | comparand _ lost => cases lost

/-- `10 / a IN ()` fails on a row where `a` is zero, and its join does not. -/
theorem relationalJoin_emptyList : ∃ operator,
    JoinOperator.new plainHost (integers "a" [0]).schema (integers "b" [1]).schema .inner
        (.inList (.arithmetic .div (.literal (.int64 10)) (.column 0) .sql) [] false)
        (schemaOf [Ir.Field.ofPlain "a" .int64 false, Ir.Field.ofPlain "b" .int64 false]) = .ok operator ∧
      (relationalJoin plainHost operator none (integers "a" [0]) (integers "b" [1])).map TypedBatch.toRows =
        .ok [] ∧
      rowJoin plainHost .inner (integers "a" [0]) (integers "b" [1])
        { operator.predicate with evaluationTimeMs := none } = .error "invalid integer arithmetic or overflow" :=
  ⟨_, rfl, rfl, rfl⟩

end AsapPlanner.Relational
