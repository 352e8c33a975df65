import AsapPlanner.Expressions.PerInput

/-!
Operations over whole columns, cell by cell those of rows.
-/

namespace AsapPlanner.Expressions
open Ir Rust Grouping Construction

/-! ### Constants as columns -/

def isScalar : DataType → Bool
  | .list _ | .struct _ | .map _ _ _ => false
  | _ => true

theorem map_slots_total {α : Type} {read : Value → Option α} {mk : List (Option α) → Column}
    {dtype : FieldDataType} {values : List Value}
    (readable : ∀ value ∈ values, value.isNull = true ∨ (read value).isSome = true)
    (layout : ∀ cells, hasLayout (mk cells) dtype = true) :
    ∃ array, (slots read values).map mk = .ok array ∧ hasLayout array dtype = true := by
  obtain ⟨cells, made⟩ : ∃ cells, slots read values = .ok cells := by
    refine mapM_total fun value member => ?_
    by_cases null : value.isNull = true
    · exact ⟨none, if_pos null⟩
    · obtain ⟨held, found⟩ := Option.isSome_iff_exists.mp ((readable value member).resolve_left null)
      exact ⟨some held, by simp [null, found]⟩
  exact ⟨mk cells, by rw [made]; rfl, layout cells⟩

theorem encode_total {dtype : DataType} (scalar : isScalar dtype = true) {values : List Value}
    (typed : ∀ value ∈ values, value.hasType dtype true = true) :
    ∃ array, encode dtype values = .ok array ∧ hasLayout array (.plain dtype) = true := by
  cases dtype with
  | list _ | struct _ | map _ _ _ => cases scalar
  | null =>
    have nulls : values.all Value.isNull = true := by
      refine List.all_eq_true.mpr fun value member => ?_
      have held := typed value member
      cases value <;> simp_all [Value.hasType, Value.isNull]
    exact ⟨_, if_pos nulls, rfl⟩
  | _ =>
    refine map_slots_total (fun value member => ?_) fun _ => rfl
    have held := typed value member
    cases value <;> simp_all [Value.hasType, Value.isNull]

theorem repeatValue_total {dtype : DataType} (scalar : isScalar dtype = true) {value : Value}
    (typed : value.hasType dtype true = true) (length : Nat) : ∃ array,
      repeatValue dtype value length = .ok array ∧ hasLayout array (.plain dtype) = true ∧
        array.decode = List.replicate length value := by
  unfold repeatValue
  split
  · refine ⟨_, rfl, rfl, ?_⟩
    simp [Column.decode, Column.ofSlot]
  · have copies : ∀ other ∈ List.replicate length value, other.hasType dtype true = true := fun other member => by
      rwa [List.eq_of_mem_replicate member]
    obtain ⟨array, made, layout⟩ := encode_total scalar copies
    exact ⟨array, made, layout, decode_encode made⟩

theorem repeatValue_odd {value : Value} (odd : value.hasType .timestamp true = false) (length : Nat) :
    repeatValue .timestamp value length = if length = 0 then .ok (.timestamp []) else .error mismatch := by
  cases length with
  | zero => cases value <;> rfl
  | succ length =>
    rw [if_neg (Nat.succ_ne_zero _)]
    cases value <;> first | rfl | cases odd

/-! ### What an operation yields -/

namespace Evaluated

def cell (index : Nat) : Evaluated → Value
  | column array => array.decode.getD index .null
  | constant value _ => value

/-- A result of a type, for each of `rows` rows. -/
def Fits (rows : Nat) (dtype : DataType) : Evaluated → Prop
  | column array => hasLayout array (.plain dtype) = true ∧ array.decode.length = rows
  | constant value held => held = dtype ∧ isScalar dtype = true ∧ value.hasType dtype true = true

end Evaluated

mutual
/-- Every constant has its type. -/
def VectorExpr.Typed : VectorExpr → Prop
  | .column _ => True
  | .literal value dtype => value.hasType dtype true = true
  | .negateFloat operand | .not operand | .isNull operand | .isNotNull operand | .intToFloat operand =>
    operand.Typed
  | .floatArithmetic _ left right | .compare _ left right _ => left.Typed ∧ right.Typed
  | .and parts | .or parts => AllTyped parts

def AllTyped : List VectorExpr → Prop
  | [] => True
  | part :: rest => part.Typed ∧ AllTyped rest
end

/-- A result of its type, or else a shifted timestamp that is none: such a constant is found out where it
is stored. -/
inductive Outcome (rows : Nat) (dtype : DataType) (typed : Prop) : Except Error Evaluated → Prop
  | fits {evaluated : Evaluated} (fits : evaluated.Fits rows dtype) (fine : 0 < rows → typed) :
    Outcome rows dtype typed (.ok evaluated)
  | odd {value : Value} (timestamp : dtype = .timestamp) (odd : value.hasType .timestamp true = false)
    (untyped : ¬ typed) : Outcome rows dtype typed (.ok (.constant value .timestamp))
  | fails {message : String} (untyped : ¬ typed) : Outcome rows dtype typed (.error (.invalid message))

/-- A result stored as a column. -/
inductive Stored (rows : Nat) (dtype : DataType) (typed : Prop) (evaluated : Evaluated) :
    Except Error Column → Prop
  | held {array : Column} (layout : hasLayout array (.plain dtype) = true)
    (length : array.decode.length = rows) (fine : 0 < rows → typed)
    (cells : ∀ index < rows, array.decode.getD index .null = evaluated.cell index) :
    Stored rows dtype typed evaluated (.ok array)
  | fails {message : String} (untyped : ¬ typed) : Stored rows dtype typed evaluated (.error (.invalid message))

section Outcome
variable {rows : Nat} {dtype : DataType} {typed : Prop} {evaluated : Evaluated}

theorem Outcome.intoArray (outcome : Outcome rows dtype typed (.ok evaluated)) :
    Stored rows dtype typed evaluated (evaluated.intoArray rows) := by
  cases outcome with
  | fits fits fine =>
    cases evaluated with
    | column array => exact .held fits.1 fits.2 fine fun _ _ => rfl
    | constant value held =>
      obtain ⟨rfl, scalar, typed⟩ := fits
      obtain ⟨array, made, layout, copies⟩ := repeatValue_total scalar typed rows
      rw [Evaluated.intoArray, made]
      refine .held layout (by simp [copies]) fine fun index small => ?_
      simp [copies, List.getD_eq_getElem?_getD, small, Evaluated.cell]
  | odd timestamp odd untyped =>
    subst timestamp
    rw [Evaluated.intoArray, repeatValue_odd odd]
    split
    · rename_i none
      subst none
      exact .held rfl rfl (by omega) (by omega)
    · exact .fails untyped

theorem Outcome.operandArray (outcome : Outcome rows dtype typed (.ok evaluated)) :
    Stored rows dtype typed evaluated (operandArray rows evaluated) := by
  have whole := outcome.intoArray
  cases outcome with
  | fits fits fine =>
    cases evaluated with
    | column array => exact whole
    | constant value held =>
      obtain ⟨rfl, scalar, typed⟩ := fits
      obtain ⟨one, made, _⟩ := repeatValue_total scalar typed 1
      rw [Expressions.operandArray, made]
      exact whole
  | odd timestamp odd untyped =>
    rw [Expressions.operandArray, repeatValue_odd odd]
    exact .fails untyped

theorem Outcome.fits_of (other : dtype ≠ .timestamp) (outcome : Outcome rows dtype typed (.ok evaluated)) :
    evaluated.Fits rows dtype ∧ (0 < rows → typed) := by
  cases outcome with
  | fits fits fine => exact ⟨fits, fine⟩
  | odd timestamp _ _ => exact absurd timestamp other

end Outcome

/-- What a row's evaluation gives, beside the cell of its column; `lost` where it fails. -/
def Gives (lost : Prop) (cell : Value) : Except String Value → Prop
  | .ok value => cell = value
  | .error _ => lost

section Gives
variable {lost lost' : Prop} {cell : Value} {run : Except String Value}

theorem Gives.bind (given : Gives lost cell run) {next : Value → Except String Value} {result : Value}
    (then_ : next cell = .ok result) (weaker : lost → lost') : Gives lost' result (run >>= next) := by
  cases run with
  | error _ => exact weaker given
  | ok value =>
    cases (show cell = value from given)
    show Gives lost' result (next cell)
    rw [then_]
    rfl

theorem Gives.bind₂ {other : Value} {second : Except String Value} (given : Gives lost cell run)
    (also : Gives lost' other second) {next : Value → Value → Except String Value} {result : Value}
    (then_ : next cell other = .ok result) {either : Prop} (left : lost → either) (right : lost' → either) :
    Gives either result (run >>= fun l => second >>= fun r => next l r) := by
  cases run with
  | error _ => exact left given
  | ok value =>
    cases (show cell = value from given)
    exact also.bind then_ right

end Gives

theorem cell_slots {α : Type} (mk : α → Value) (cells : List (Option α)) (index : Nat) :
    (cells.map (Column.ofSlot mk)).getD index .null = Column.ofSlot mk (cells[index]?).join := by
  rw [List.getD_eq_getElem?_getD, List.getElem?_map]
  cases cells[index]? <;> rfl

/-! ### Operations on one column -/

theorem same_nested {dtype : DataType} (scalar : isScalar dtype = true) (nested : NestedType) :
    same nested.toDataType dtype = false := by
  cases nested <;> cases dtype <;> first | rfl | exact Bool.noConfusion scalar

theorem not_hasLayout_nested {dtype : DataType} (scalar : isScalar dtype = true) {stored : NestedType}
    {values : List Value} : hasLayout (.nested stored values) (.plain dtype) ≠ true := by
  rw [hasLayout, same_nested scalar]
  exact Bool.false_ne_true

section Layout
variable {array : Column}

theorem layout_float64 (layout : hasLayout array (.plain .float64) = true) : ∃ cells, array = .float64 cells := by
  cases array with
  | float64 cells => exact ⟨cells, rfl⟩
  | nested stored values => exact absurd layout (not_hasLayout_nested rfl)
  | _ => cases layout

theorem layout_int64 (layout : hasLayout array (.plain .int64) = true) : ∃ cells, array = .int64 cells := by
  cases array with
  | int64 cells => exact ⟨cells, rfl⟩
  | nested stored values => exact absurd layout (not_hasLayout_nested rfl)
  | _ => cases layout

theorem layout_bool (layout : hasLayout array (.plain .bool) = true) : ∃ cells, array = .bool cells := by
  cases array with
  | bool cells => exact ⟨cells, rfl⟩
  | nested stored values => exact absurd layout (not_hasLayout_nested rfl)
  | _ => cases layout

theorem layout_timestamp (layout : hasLayout array (.plain .timestamp) = true) : ∃ cells, array = .timestamp cells := by
  cases array with
  | timestamp cells => exact ⟨cells, rfl⟩
  | nested stored values => exact absurd layout (not_hasLayout_nested rfl)
  | _ => cases layout

theorem layout_utf8 (layout : hasLayout array (.plain .utf8) = true) : ∃ cells, array = .dictionary cells := by
  cases array with
  | dictionary cells => exact ⟨cells, rfl⟩
  | nested stored values => exact absurd layout (not_hasLayout_nested rfl)
  | _ => cases layout

end Layout

section Unary
variable {host : Host} {batch : Batch} {rows : Nat} {evaluated : Evaluated}

theorem negate_fits (fits : evaluated.Fits rows .float64) : ∃ negated,
    negateEvaluated evaluated = .ok negated ∧ negated.Fits rows .float64 ∧
      ∀ index, negateValue (evaluated.cell index) = .ok (negated.cell index) := by
  cases evaluated with
  | column array =>
    obtain ⟨layout, length⟩ := fits
    obtain ⟨values, rfl⟩ := layout_float64 layout
    refine ⟨_, rfl, ⟨rfl, by simpa [Column.decode] using length⟩, fun index => ?_⟩
    simp only [Evaluated.cell, Column.decode, cell_slots, List.getElem?_map]
    cases values[index]? with
    | none => rfl
    | some slot => cases slot <;> rfl
  | constant value dtype =>
    obtain ⟨rfl, _, typed⟩ := fits
    cases value <;> first | exact ⟨_, rfl, ⟨rfl, rfl, rfl⟩, fun _ => rfl⟩ | cases typed

theorem intToFloat_fits (fits : evaluated.Fits rows .int64) (source : Checked (DataType × Bool)) : ∃ widened,
    intToFloat host evaluated = .ok widened ∧ widened.Fits rows .float64 ∧
      ∀ index, castValue host .float64 source (evaluated.cell index) = .ok (widened.cell index) := by
  cases evaluated with
  | column array =>
    obtain ⟨layout, length⟩ := fits
    obtain ⟨values, rfl⟩ := layout_int64 layout
    refine ⟨_, rfl, ⟨rfl, by simpa [Column.decode] using length⟩, fun index => ?_⟩
    simp only [Evaluated.cell, Column.decode, cell_slots, List.getElem?_map]
    cases values[index]? with
    | none => rfl
    | some slot => cases slot <;> rfl
  | constant value dtype =>
    obtain ⟨rfl, _, typed⟩ := fits
    cases value <;> first | exact ⟨_, rfl, ⟨rfl, rfl, rfl⟩, fun _ => rfl⟩ | cases typed

theorem nullTest_cell (array : Column) (null : Bool) {index : Nat} (inside : index < array.decode.length) :
    (Column.bool (array.decode.map fun value => some (value.isNull == null))).decode.getD index .null =
      .bool ((array.decode.getD index .null).isNull == null) := by
  rw [Column.decode, cell_slots, List.getElem?_map, List.getD_eq_getElem?_getD,
    List.getElem?_eq_getElem inside]
  rfl

theorem floatOperand_fits (fits : evaluated.Fits rows .float64) : ∃ operand, FloatOperand.of evaluated = .ok operand ∧
    ∀ index, evaluated.cell index = Column.ofSlot .float64 (operand.get index) := by
  cases evaluated with
  | column array =>
    obtain ⟨layout, length⟩ := fits
    obtain ⟨values, rfl⟩ := layout_float64 layout
    exact ⟨_, rfl, fun index => cell_slots _ _ _⟩
  | constant value dtype =>
    obtain ⟨rfl, _, typed⟩ := fits
    cases value <;> first | exact ⟨_, rfl, fun _ => rfl⟩ | cases typed

end Unary

/-! ### Operations on two columns -/

section Binary
variable {host : Host} {batch : Batch} {left right : Evaluated}

theorem zip_cell {α : Type} (mk : α → Value) {rows index : Nat} (small : index < rows) (f : F64 → F64 → Option α)
    (l r : FloatOperand) : ((FloatOperand.zip rows f l r).map (Column.ofSlot mk)).getD index .null =
      Column.ofSlot mk ((l.get index).bind fun a => (r.get index).bind (f a)) := by
  rw [cell_slots, FloatOperand.zip, List.getElem?_map, List.getElem?_range small]
  rfl

theorem length_zip {α : Type} (mk : α → Value) (rows : Nat) (f : F64 → F64 → Option α) (l r : FloatOperand) :
    ((FloatOperand.zip rows f l r).map (Column.ofSlot mk)).length = rows := by
  simp [FloatOperand.zip]

variable (host) in
theorem floatArithmetic_fits (op : ArithmeticOpKind) (leftFits : left.Fits batch.numRows .float64)
    (rightFits : right.Fits batch.numRows .float64) : ∃ result,
      floatArithmetic host batch op left right = .ok result ∧ result.Fits batch.numRows .float64 ∧
        ∀ index < batch.numRows,
          arithmetic host op (left.cell index) (right.cell index) = .ok (result.cell index) := by
  obtain ⟨l, first, leftCell⟩ := floatOperand_fits leftFits
  obtain ⟨r, second, rightCell⟩ := floatOperand_fits rightFits
  have run : floatArithmetic host batch op left right = .ok (.column (.float64 (FloatOperand.zip batch.numRows
      (fun a b => some (host.evaluateFloat64Arithmetic op a b)) l r))) := by
    rw [floatArithmetic, first, second]
    rfl
  refine ⟨_, run, ⟨rfl, length_zip _ _ _ _ _⟩, fun index small => ?_⟩
  rw [leftCell, rightCell, Evaluated.cell, Column.decode, zip_cell _ small]
  cases l.get index <;> cases r.get index <;> cases op <;> rfl

theorem eq_partialCmp (a b : F64) : a.eq b = (a.partialCmp b == some .eq) := by
  rw [Bool.eq_iff_iff, ← F64.partialCmp_level, beq_iff_eq]
  rfl

theorem floatCompare_holds (op : CompareOpKind) {a b : F64} {ordering : Ordering}
    (ordered : a.partialCmp b = some ordering) : floatCompare op a b = holds op ordering := by
  unfold floatCompare
  rw [eq_partialCmp, ordered]
  cases op <;> cases ordering <;> rfl

theorem floatCompare_nan {op : CompareOpKind} (ordering : isOrdering op = true) {a b : F64}
    (unordered : a.partialCmp b = none) : floatCompare op a b = some (op == .ne) := by
  unfold floatCompare
  rw [eq_partialCmp, unordered]
  cases op <;> first | rfl | exact Bool.noConfusion ordering

theorem floatCompare_eq {op : CompareOpKind} (ordering : isOrdering op = true) (a b : Option F64) :
    compareValues host op (Column.ofSlot .float64 a) (Column.ofSlot .float64 b) =
      .ok (Column.ofSlot .bool (a.bind fun a => b.bind (floatCompare op a))) := by
  cases a with
  | none => rfl
  | some a =>
    cases b with
    | none => rfl
    | some b =>
      simp only [compareValues, Column.ofSlot, Option.elim_some, Value.isNull, Bool.or_self, Bool.false_eq_true,
        if_false, isNanValue, cellCmp, Option.bind_some]
      by_cases nan : a.isNan || b.isNan
      · have unordered : a.partialCmp b = none := by rw [F64.partialCmp, if_pos nan]
        rw [if_pos nan, floatCompare_nan ordering unordered]
        cases op <;> first | rfl | exact Bool.noConfusion ordering
      · have ordered : a.partialCmp b = some (compare a.key b.key) := by rw [F64.partialCmp, if_neg nan]
        rw [if_neg nan, floatCompare_holds op ordered, ordered]
        cases op <;> first | rfl | exact Bool.noConfusion ordering

variable (host) in
theorem compareFloats_fits {op : CompareOpKind} (ordering : isOrdering op = true)
    (leftFits : left.Fits batch.numRows .float64) (rightFits : right.Fits batch.numRows .float64) : ∃ result,
      compareEvaluated batch op .float64 left right = .ok result ∧ result.Fits batch.numRows .bool ∧
        ∀ index < batch.numRows,
          compareValues host op (left.cell index) (right.cell index) = .ok (result.cell index) := by
  obtain ⟨l, first, leftCell⟩ := floatOperand_fits leftFits
  obtain ⟨r, second, rightCell⟩ := floatOperand_fits rightFits
  have run : compareEvaluated batch op .float64 left right =
      .ok (.column (.bool (FloatOperand.zip batch.numRows (floatCompare op) l r))) := by
    unfold compareEvaluated
    rw [if_pos (show isFloat64 .float64 = true from rfl), first, second]
    rfl
  refine ⟨_, run, ⟨rfl, length_zip _ _ _ _ _⟩, fun index small => ?_⟩
  rw [leftCell, rightCell, Evaluated.cell, Column.decode, zip_cell _ small]
  exact floatCompare_eq ordering _ _

theorem compareSlots_cell {α : Type} [Ord α] {mk : α → Value} (filled : ∀ a, (mk a).isNull = false)
    (number : ∀ a, isNanValue (mk a) = false)
    (ordered : ∀ a b, cellCmp host (mk a) (mk b) = some (compare a b)) {op : CompareOpKind}
    (ordering : isOrdering op = true) {l r : List (Option α)} {rows index : Nat} (leftLength : l.length = rows)
    (rightLength : r.length = rows) (small : index < rows) :
    compareValues host op ((l.map (Column.ofSlot mk)).getD index .null)
      ((r.map (Column.ofSlot mk)).getD index .null) =
        .ok (((compareSlots op l r).map (Column.ofSlot .bool)).getD index .null) := by
  obtain ⟨x, first⟩ : ∃ x, l[index]? = some x := ⟨_, List.getElem?_eq_getElem (leftLength ▸ small)⟩
  obtain ⟨y, second⟩ : ∃ y, r[index]? = some y := ⟨_, List.getElem?_eq_getElem (rightLength ▸ small)⟩
  rw [cell_slots, cell_slots, cell_slots, compareSlots, List.getElem?_zipWith, first, second]
  simp only [Option.join_some]
  cases x with
  | none => rfl
  | some a =>
    cases y with
    | none => simp [compareValues, Column.ofSlot, Value.isNull]
    | some b =>
      simp only [compareValues, Column.ofSlot, Option.elim_some, filled, Bool.or_self, Bool.false_eq_true,
        if_false, number, ordered, Option.bind_some]
      cases op <;> first | rfl | exact Bool.noConfusion ordering

theorem decode_dictionary (column : Dictionary) :
    (Column.dictionary column).decode = (Dictionary.slots column).map (Column.ofSlot .utf8) := by
  rw [Column.decode, Dictionary.slots, List.map_map]
  refine List.map_congr_left fun slot _ => ?_
  cases slot <;> rfl

theorem length_compareSlots {α : Type} [Ord α] (op : CompareOpKind) {l r : List (Option α)} {rows : Nat}
    (leftLength : l.length = rows) (rightLength : r.length = rows) : (compareSlots op l r).length = rows := by
  simp [compareSlots, leftLength, rightLength]

variable (host) in
theorem compareArrays_cells {dtype : DataType} (comparable : scalarComparable dtype = true)
    (undated : isDate dtype = false) (unfloating : isFloat64 dtype = false) {op : CompareOpKind}
    (ordering : isOrdering op = true) {l r : Column} {rows : Nat}
    (leftLayout : hasLayout l (.plain dtype) = true) (rightLayout : hasLayout r (.plain dtype) = true)
    (leftLength : l.decode.length = rows) (rightLength : r.decode.length = rows) : ∃ cells : List (Option Bool),
      compareArrays op l r = .ok (.bool cells) ∧ cells.length = rows ∧ ∀ index < rows,
        compareValues host op (l.decode.getD index .null) (r.decode.getD index .null) =
          .ok ((Column.bool cells).decode.getD index .null) := by
  cases dtype with
  | int64 =>
    obtain ⟨x, rfl⟩ := layout_int64 leftLayout
    obtain ⟨y, rfl⟩ := layout_int64 rightLayout
    rw [Column.decode, List.length_map] at leftLength rightLength
    exact ⟨_, rfl, length_compareSlots op leftLength rightLength, fun index small =>
      compareSlots_cell (fun _ => rfl) (fun _ => rfl) (fun _ _ => rfl) ordering leftLength rightLength small⟩
  | bool =>
    obtain ⟨x, rfl⟩ := layout_bool leftLayout
    obtain ⟨y, rfl⟩ := layout_bool rightLayout
    rw [Column.decode, List.length_map] at leftLength rightLength
    exact ⟨_, rfl, length_compareSlots op leftLength rightLength, fun index small =>
      compareSlots_cell (fun _ => rfl) (fun _ => rfl) (fun _ _ => rfl) ordering leftLength rightLength small⟩
  | timestamp =>
    obtain ⟨x, rfl⟩ := layout_timestamp leftLayout
    obtain ⟨y, rfl⟩ := layout_timestamp rightLayout
    rw [Column.decode, List.length_map] at leftLength rightLength
    exact ⟨_, rfl, length_compareSlots op leftLength rightLength, fun index small =>
      compareSlots_cell (fun _ => rfl) (fun _ => rfl) (fun _ _ => rfl) ordering leftLength rightLength small⟩
  | utf8 =>
    obtain ⟨x, rfl⟩ := layout_utf8 leftLayout
    obtain ⟨y, rfl⟩ := layout_utf8 rightLayout
    rw [decode_dictionary, List.length_map] at leftLength rightLength
    refine ⟨_, rfl, length_compareSlots op leftLength rightLength, fun index small => ?_⟩
    rw [decode_dictionary, decode_dictionary]
    exact compareSlots_cell (fun _ => rfl) (fun _ => rfl) (fun _ _ => rfl) ordering leftLength rightLength small
  | date => cases undated
  | float64 => cases unfloating
  | _ => cases comparable

variable {typedLeft typedRight : Prop} {dtype : DataType} {op : CompareOpKind}

theorem compareKernel_outcome (comparable : scalarComparable dtype = true) (undated : isDate dtype = false)
    (unfloating : isFloat64 dtype = false) (ordering : isOrdering op = true) {rows : Nat} {l r : Evaluated}
    (leftStored : Stored rows dtype typedLeft l (operandArray rows left))
    (rightStored : Stored rows dtype typedRight r (operandArray rows right)) :
    Outcome rows .bool (typedLeft ∧ typedRight) (compareKernel rows op left right) ∧
      ∀ result, compareKernel rows op left right = .ok result → ∀ index < rows,
        compareValues host op (l.cell index) (r.cell index) = .ok (result.cell index) := by
  unfold compareKernel
  generalize operandArray rows left = leftRun at leftStored
  generalize operandArray rows right = rightRun at rightStored
  cases leftStored with
  | fails untyped => exact ⟨.fails fun typed => untyped typed.1, nofun⟩
  | held leftLayout leftLength leftFine leftCells =>
    cases rightStored with
    | fails untyped => exact ⟨.fails fun typed => untyped typed.2, nofun⟩
    | held rightLayout rightLength rightFine rightCells =>
      obtain ⟨cells, made, length, right⟩ := compareArrays_cells host comparable undated unfloating
        ordering leftLayout rightLayout leftLength rightLength
      simp only [bind, Except.bind, made]
      refine ⟨.fits ⟨rfl, by simpa [Column.decode] using length⟩ fun some => ⟨leftFine some, rightFine some⟩, ?_⟩
      rintro _ ⟨⟩ index small
      rw [← leftCells index small, ← rightCells index small]
      exact right index small

theorem compareEvaluated_outcome (comparable : scalarComparable dtype = true) (undated : isDate dtype = false)
    (ordering : isOrdering op = true) (leftOutcome : Outcome batch.numRows dtype typedLeft (.ok left))
    (rightOutcome : Outcome batch.numRows dtype typedRight (.ok right)) :
    Outcome batch.numRows .bool (typedLeft ∧ typedRight) (compareEvaluated batch op dtype left right) ∧
      ∀ result, compareEvaluated batch op dtype left right = .ok result → ∀ index < batch.numRows,
        compareValues host op (left.cell index) (right.cell index) = .ok (result.cell index) := by
  cases floating : isFloat64 dtype with
  | true =>
    cases dtype <;> cases floating
    obtain ⟨leftFits, leftFine⟩ := Outcome.fits_of (by simp) leftOutcome
    obtain ⟨rightFits, rightFine⟩ := Outcome.fits_of (by simp) rightOutcome
    obtain ⟨result, run, fits, right⟩ := compareFloats_fits host ordering leftFits rightFits
    rw [run]
    refine ⟨.fits fits fun some => ⟨leftFine some, rightFine some⟩, ?_⟩
    rintro _ ⟨⟩
    exact right
  | false =>
    have stored := rightOutcome.operandArray
    unfold compareEvaluated
    rw [if_neg (by simp [floating])]
    split
    · have whole := leftOutcome.intoArray
      generalize Evaluated.intoArray batch.numRows _ = run at whole ⊢
      cases whole with
      | fails untyped => exact ⟨.fails fun typed => untyped typed.1, nofun⟩
      | @held array layout length fine cells =>
        have kept : Stored batch.numRows dtype typedLeft _ (operandArray batch.numRows (.column array)) :=
          .held layout length fine cells
        exact compareKernel_outcome comparable undated floating ordering kept stored
    · exact compareKernel_outcome comparable undated floating ordering leftOutcome.operandArray stored

end Binary

end AsapPlanner.Expressions
