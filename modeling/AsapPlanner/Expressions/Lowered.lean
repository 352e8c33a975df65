import AsapPlanner.Expressions.Operations
import AsapPlanner.Expressions.Lost
import AsapPlanner.Expressions.Congruence

/-!
Whole-column operations give each row the value of the expression they were lowered from; only an empty
`IN` list loses its operand.
-/

namespace AsapPlanner.Expressions
open Ir Rust Grouping Construction

/-! ### Row by row -/

/-- The first outcome that decides a conjunction (`and`) or disjunction, or NULL when an outcome is. -/
def decideOutcomes (and null : Bool) : List (Except String Value) → Except String Value
  | [] => .ok (if null then .null else .bool and)
  | outcome :: rest => do
    match ← outcome with
    | .bool value => if value != and then .ok (.bool value) else decideOutcomes and null rest
    | .null => decideOutcomes and true rest
    | _ => .error "boolean predicate required"

section Decide
variable {host : Host} {scope : Scope}

theorem evaluateParts_eq (and null : Bool) (parts : List LocalExpr) :
    evaluateParts host scope and null parts = decideOutcomes and null (parts.map (evaluate host scope)) := by
  induction parts generalizing null with
  | nil => rfl
  | cons part rest ih =>
    rw [evaluateParts, List.map_cons, decideOutcomes]
    refine bind_congr fun outcome => ?_
    cases outcome <;> simp only [ih]

theorem evaluateItems_eq (operand : Value) (negated null : Bool) (items : List LocalExpr) :
    evaluateItems host scope operand negated null items =
      (decideOutcomes false null (items.map fun item =>
        evaluate host scope item >>= compareValues host .eq operand)) >>=
          (if negated then notValue else .ok) := by
  induction items generalizing null with
  | nil => cases null <;> cases negated <;> rfl
  | cons item rest ih =>
    rw [evaluateItems, List.map_cons, decideOutcomes]
    cases evaluate host scope item with
    | error _ => rfl
    | ok held =>
      simp only [bind, Except.bind]
      cases compareValues host .eq operand held with
      | error _ => rfl
      | ok equal =>
        cases equal with
        | bool truth =>
          cases truth with
          | true => cases negated <;> rfl
          | false => exact ih null
        | null => exact ih true
        | _ => rfl

end Decide

section Means
variable (host : Host) (typed : TypedBatch)

/-- Whole-column operations give each row the value `run` gives it; where `run` fails, an operand is `lost`. -/
structure Means (run : Nat → Except String Value) (lost : Nat → Prop) (vector : VectorExpr) (dtype : DataType) :
    Prop where
  outcome : Outcome typed.numRows dtype vector.Typed (evaluateVector host typed.batch vector)
  right : ∀ evaluated, evaluateVector host typed.batch vector = .ok evaluated → ∀ index < typed.numRows,
    Gives (lost index) (evaluated.cell index) (run index)

variable {host typed} {run run' : Nat → Except String Value} {lost lost' : Nat → Prop}
  {vector left right : VectorExpr} {dtype : DataType}

theorem Gives.change {lost lost' : Prop} {cell : Value} {run : Except String Value} (given : Gives lost cell run)
    (weaker : lost → lost') : Gives lost' cell run := by
  cases run with
  | error _ => exact weaker given
  | ok _ => exact given

theorem Means.lift (means : Means host typed run lost vector dtype) {result : DataType}
    {next : Value → Except String Value} {whole : VectorExpr} (lifted : Evaluated → Except Error Evaluated)
    (typing : whole.Typed ↔ vector.Typed)
    (unfolds : evaluateVector host typed.batch whole = evaluateVector host typed.batch vector >>= lifted)
    (fine : ∀ evaluated, Outcome typed.numRows dtype vector.Typed (.ok evaluated) →
      Outcome typed.numRows result vector.Typed (lifted evaluated) ∧
        ∀ after, lifted evaluated = .ok after →
          ∀ index < typed.numRows, next (evaluated.cell index) = .ok (after.cell index)) :
    Means host typed (fun index => run index >>= next) lost whole result := by
  obtain ⟨outcome, right⟩ := means
  rw [← typing] at outcome fine
  cases ran : evaluateVector host typed.batch vector with
  | error e =>
    rw [ran] at outcome unfolds
    cases outcome with
    | fails untyped => exact ⟨unfolds ▸ .fails untyped, fun _ found => nomatch unfolds.symm.trans found⟩
  | ok evaluated =>
    rw [ran] at outcome unfolds
    obtain ⟨after, cells⟩ := fine evaluated outcome
    exact ⟨unfolds ▸ after, fun final found index small =>
      (right evaluated ran index small).bind (cells final (unfolds.symm.trans found) index small) id⟩

theorem Means.unary (means : Means host typed run lost vector dtype) (other : dtype ≠ .timestamp)
    {result : DataType} {next : Value → Except String Value} {whole : VectorExpr}
    (lifted : Evaluated → Except Error Evaluated) (typing : whole.Typed ↔ vector.Typed)
    (unfolds : evaluateVector host typed.batch whole = evaluateVector host typed.batch vector >>= lifted)
    (fine : ∀ evaluated, evaluated.Fits typed.numRows dtype → ∃ after, lifted evaluated = .ok after ∧
      after.Fits typed.numRows result ∧
        ∀ index < typed.numRows, next (evaluated.cell index) = .ok (after.cell index)) :
    Means host typed (fun index => run index >>= next) lost whole result := by
  refine means.lift lifted typing unfolds fun evaluated outcome => ?_
  obtain ⟨fits, small⟩ := Outcome.fits_of other outcome
  obtain ⟨after, lifts, afterFits, cells⟩ := fine evaluated fits
  rw [lifts]
  refine ⟨.fits afterFits small, ?_⟩
  rintro _ ⟨⟩
  exact cells

theorem means_negate (means : Means host typed run lost vector .float64) :
    Means host typed (fun index => run index >>= negateValue) lost (.negateFloat vector) .float64 :=
  means.unary nofun negateEvaluated Iff.rfl rfl fun _ fits => by
    obtain ⟨after, lifts, afterFits, cells⟩ := negate_fits fits
    exact ⟨after, lifts, afterFits, fun index _ => cells index⟩

theorem means_intToFloat (means : Means host typed run lost vector .int64) (source : Checked (DataType × Bool)) :
    Means host typed (fun index => run index >>= castValue host .float64 source) lost (.intToFloat vector)
      .float64 :=
  means.unary nofun (intToFloat host) Iff.rfl rfl fun _ fits => by
    obtain ⟨after, lifts, afterFits, cells⟩ := intToFloat_fits fits source
    exact ⟨after, lifts, afterFits, fun index _ => cells index⟩

theorem boolean_fits {rows : Nat} {evaluated : Evaluated} (fits : evaluated.Fits rows .bool) :
    ∃ cells, evaluated.boolean rows = .ok cells ∧ cells.length = rows ∧
      ∀ index < rows, evaluated.cell index = Column.ofSlot .bool (cells[index]?).join := by
  have stored := (Outcome.fits fits fun _ => trivial : Outcome rows .bool True (.ok evaluated)).intoArray
  unfold Evaluated.boolean
  generalize evaluated.intoArray rows = run at stored ⊢
  cases stored with
  | fails untyped => exact absurd trivial untyped
  | held layout length _ cells =>
    obtain ⟨values, rfl⟩ := layout_bool layout
    rw [Column.decode, List.length_map] at length
    refine ⟨values, rfl, length, fun index small => ?_⟩
    rw [← cells index small, Column.decode, cell_slots]

theorem means_not (means : Means host typed run lost vector .bool) :
    Means host typed (fun index => run index >>= notValue) lost (.not vector) .bool :=
  means.unary nofun (fun evaluated => do
    let values ← evaluated.boolean typed.batch.numRows
    .ok (.column (.bool (values.map (Option.map (!·)))))) Iff.rfl rfl fun evaluated fits => by
    obtain ⟨values, made, length, cells⟩ := boolean_fits fits
    replace made : evaluated.boolean typed.batch.numRows = .ok values := made
    rw [made]
    refine ⟨_, rfl, ⟨rfl, by simpa [Column.decode] using length⟩, fun index small => ?_⟩
    rw [cells index small, Evaluated.cell, Column.decode, cell_slots, List.getElem?_map]
    cases values[index]? with
    | none => rfl
    | some slot => cases slot <;> rfl

theorem means_nullTest (means : Means host typed run lost vector dtype) (null : Bool) (whole : VectorExpr)
    (typing : whole.Typed ↔ vector.Typed) (unfolds : evaluateVector host typed.batch whole =
      evaluateVector host typed.batch vector >>= nullTest typed.batch null) :
    Means host typed (fun index => run index >>= fun value => .ok (.bool (value.isNull == null))) lost whole
      .bool := by
  refine means.lift (nullTest typed.batch null) typing unfolds fun evaluated outcome => ?_
  have stored := outcome.intoArray
  unfold nullTest
  show Outcome _ _ _ (evaluated.intoArray typed.numRows >>= _) ∧
    ∀ after, (evaluated.intoArray typed.numRows >>= _) = _ → _
  generalize evaluated.intoArray typed.numRows = made at stored ⊢
  cases stored with
  | fails untyped => exact ⟨.fails untyped, nofun⟩
  | @held array layout length fine cells =>
    refine ⟨.fits ⟨rfl, by simpa [Column.decode] using length⟩ fine, ?_⟩
    rintro _ ⟨⟩ index small
    rw [Evaluated.cell, nullTest_cell array null (length ▸ small), cells index small]

theorem Means.lift₂ (leftMeans : Means host typed run lost left dtype)
    (rightMeans : Means host typed run' lost' right dtype) {result : DataType}
    {next : Value → Value → Except String Value} {whole : VectorExpr}
    (lifted : Evaluated → Evaluated → Except Error Evaluated) (typing : whole.Typed ↔ left.Typed ∧ right.Typed)
    (unfolds : evaluateVector host typed.batch whole = (do
      let l ← evaluateVector host typed.batch left
      let r ← evaluateVector host typed.batch right
      lifted l r))
    (fine : ∀ l r, Outcome typed.numRows dtype left.Typed (.ok l) →
      Outcome typed.numRows dtype right.Typed (.ok r) →
        Outcome typed.numRows result (left.Typed ∧ right.Typed) (lifted l r) ∧
          ∀ after, lifted l r = .ok after →
            ∀ index < typed.numRows, next (l.cell index) (r.cell index) = .ok (after.cell index)) :
    Means host typed (fun index => run index >>= fun l => run' index >>= fun r => next l r)
      (fun index => lost index ∨ lost' index) whole result := by
  obtain ⟨leftOutcome, leftRight⟩ := leftMeans
  obtain ⟨rightOutcome, rightRight⟩ := rightMeans
  cases ranLeft : evaluateVector host typed.batch left with
  | error e =>
    rw [ranLeft] at leftOutcome unfolds
    cases leftOutcome with
    | fails untyped =>
      exact ⟨unfolds ▸ .fails fun typed => untyped (typing.mp typed).1,
        fun _ found => nomatch unfolds.symm.trans found⟩
  | ok l =>
    rw [ranLeft] at leftOutcome unfolds
    cases ranRight : evaluateVector host typed.batch right with
    | error e =>
      rw [ranRight] at rightOutcome unfolds
      cases rightOutcome with
      | fails untyped =>
        exact ⟨unfolds ▸ .fails fun typed => untyped (typing.mp typed).2,
          fun _ found => nomatch unfolds.symm.trans found⟩
    | ok r =>
      rw [ranRight] at rightOutcome unfolds
      obtain ⟨after, cells⟩ := fine l r leftOutcome rightOutcome
      rw [← typing] at after
      exact ⟨unfolds ▸ after, fun final found index small =>
        (leftRight l ranLeft index small).bind₂ (rightRight r ranRight index small)
          (cells final (unfolds.symm.trans found) index small) .inl .inr⟩

theorem means_arithmetic (op : ArithmeticOpKind) (leftMeans : Means host typed run lost left .float64)
    (rightMeans : Means host typed run' lost' right .float64) :
    Means host typed (fun index => run index >>= fun l => run' index >>= fun r => arithmetic host op l r)
      (fun index => lost index ∨ lost' index) (.floatArithmetic op left right) .float64 := by
  refine leftMeans.lift₂ rightMeans (floatArithmetic host typed.batch op) Iff.rfl rfl
    fun l r leftOutcome rightOutcome => ?_
  obtain ⟨leftFits, leftFine⟩ := Outcome.fits_of (by simp) leftOutcome
  obtain ⟨rightFits, rightFine⟩ := Outcome.fits_of (by simp) rightOutcome
  obtain ⟨result, made, fits, cells⟩ := floatArithmetic_fits host op leftFits rightFits
  rw [made]
  refine ⟨.fits fits fun some => ⟨leftFine some, rightFine some⟩, ?_⟩
  rintro _ ⟨⟩
  exact cells

theorem means_compare (comparable : scalarComparable dtype = true) (undated : isDate dtype = false)
    {op : CompareOpKind} (ordering : isOrdering op = true) (leftMeans : Means host typed run lost left dtype)
    (rightMeans : Means host typed run' lost' right dtype) :
    Means host typed (fun index => run index >>= fun l => run' index >>= fun r => compareValues host op l r)
      (fun index => lost index ∨ lost' index) (.compare op left right dtype) .bool :=
  leftMeans.lift₂ rightMeans (compareEvaluated typed.batch op dtype) Iff.rfl rfl
    fun _ _ leftOutcome rightOutcome =>
      compareEvaluated_outcome comparable undated ordering leftOutcome rightOutcome

/-- A row's evaluation beside where it loses an operand. -/
abbrev Part := (Nat → Except String Value) × (Nat → Prop)

/-- Some part loses an operand before a part decides. -/
def PartLost (and : Bool) (index : Nat) (parts : List Part) : Prop :=
  ∃ before part after, parts = before ++ part :: after ∧
    (∀ other ∈ before, other.1 index ≠ .ok (.bool !and)) ∧ part.2 index

theorem PartLost.cons {and : Bool} {index : Nat} {part : Part} {rest : List Part}
    (undecided : part.1 index ≠ .ok (.bool !and)) (lost : PartLost and index rest) :
    PartLost and index (part :: rest) := by
  obtain ⟨before, other, after, rfl, earlier, here⟩ := lost
  exact ⟨part :: before, other, after, rfl, List.forall_mem_cons.mpr ⟨undecided, earlier⟩, here⟩

/-- A row's truth so far. -/
def startOf (and : Bool) (result : Option (List (Option Bool))) (index : Nat) : Option Bool :=
  match result with
  | none => some and
  | some values => (values[index]?).join

theorem startOf_joinPart {and : Bool} {result : Option (List (Option Bool))} {values : List (Option Bool)}
    {rows index : Nat} (length : ∀ held ∈ result, held.length = rows) (also : values.length = rows)
    (small : index < rows) : startOf and (some (joinPart and result values)) index =
      (if and then andKleene else orKleene) (startOf and result index) (values[index]?).join := by
  obtain ⟨x, first⟩ : ∃ x, values[index]? = some x := ⟨_, List.getElem?_eq_getElem (also ▸ small)⟩
  cases result with
  | none =>
    simp only [startOf, joinPart, first]
    cases and <;> cases x with
      | none => rfl
      | some truth => cases truth <;> rfl
  | some held =>
    obtain ⟨y, second⟩ : ∃ y, held[index]? = some y :=
      ⟨_, List.getElem?_eq_getElem (length held rfl ▸ small)⟩
    simp only [startOf, joinPart, List.getElem?_zipWith, first, second]
    rfl

theorem length_joinPart {and : Bool} {result : Option (List (Option Bool))} {values : List (Option Bool)}
    {rows : Nat} (length : ∀ held ∈ result, held.length = rows) (also : values.length = rows) :
    (joinPart and result values).length = rows := by
  cases result with
  | none => exact also
  | some held => simp [joinPart, length held rfl, also]

/-- A conjunction or disjunction of columns is row by row that of the parts, taken to its first deciding
part. -/
theorem joinParts_means {parts : List Part} {vectors : List VectorExpr}
    (means : List.Forall₂ (fun part vector => Means host typed part.1 part.2 vector .bool) parts vectors)
    (and : Bool) (result : Option (List (Option Bool))) (length : ∀ held ∈ result, held.length = typed.numRows) :
    Outcome typed.numRows .bool (AllTyped vectors) (joinParts host typed.batch and result vectors) ∧
      ∀ evaluated, joinParts host typed.batch and result vectors = .ok evaluated → ∀ index < typed.numRows,
        (startOf and result index = some (!and) → evaluated.cell index = .bool !and) ∧
          ∀ null, startOf and result index = (if null then none else some and) →
            Gives (PartLost and index parts) (evaluated.cell index)
              (decideOutcomes and null (parts.map (·.1 index))) := by
  induction means generalizing result with
  | nil =>
    cases result with
    | none =>
      refine ⟨.fits ⟨rfl, rfl, rfl⟩ fun _ => trivial, ?_⟩
      rintro _ ⟨⟩ index _
      refine ⟨fun start => ?_, fun null start => ?_⟩
      · cases and <;> cases start
      · cases null
        · rfl
        · cases start
    | some values =>
      refine ⟨.fits ⟨rfl, by simpa [Column.decode] using length values rfl⟩ fun _ => trivial, ?_⟩
      rintro _ ⟨⟩ index _
      rw [Evaluated.cell, Column.decode, cell_slots]
      refine ⟨fun start => ?_, fun null start => ?_⟩
      · rw [show (values[index]?).join = some (!and) from start]
        rfl
      · rw [show (values[index]?).join = _ from start]
        cases null <;> rfl
  | @cons part vector parts vectors first _ ih =>
    obtain ⟨outcome, right⟩ := first
    rw [joinParts]
    cases ran : evaluateVector host typed.batch vector with
    | error e =>
      rw [ran] at outcome
      cases outcome with
      | fails untyped => exact ⟨.fails fun all => untyped all.1, fun _ failed => by cases failed⟩
    | ok evaluated =>
      rw [ran] at outcome
      obtain ⟨fits, fine⟩ := Outcome.fits_of (by simp) outcome
      obtain ⟨values, made, also, cells⟩ := boolean_fits fits
      replace made : evaluated.boolean typed.batch.numRows = .ok values := made
      obtain ⟨later, rowwise⟩ := ih (some (joinPart and result values)) fun held found => by
        cases found
        exact length_joinPart length also
      simp only [bind, Except.bind, made]
      refine ⟨?_, fun final found index small => ?_⟩
      · generalize joinParts host typed.batch and _ vectors = run at later
        cases later with
        | fits fits rest => exact .fits fits fun some => ⟨fine some, rest some⟩
        | odd timestamp _ _ => cases timestamp
        | fails untyped => exact .fails fun all => untyped all.2
      · obtain ⟨decided, undecided⟩ := rowwise final found index small
        rw [startOf_joinPart length also small] at decided undecided
        refine ⟨fun start => decided ?_, fun null start => ?_⟩
        · rw [start]
          cases and <;> cases (values[index]?).join with
            | none => rfl
            | some truth => cases truth <;> rfl
        · have given := right evaluated ran index small
          rw [cells index small] at given
          rw [start] at decided undecided
          rw [List.map_cons, decideOutcomes]
          cases outcome : part.1 index with
          | error _ =>
            rw [outcome] at given
            exact ⟨[], part, parts, rfl, fun _ member => absurd member List.not_mem_nil, given⟩
          | ok value =>
            rw [outcome] at given
            cases (show Column.ofSlot .bool (values[index]?).join = value from given)
            cases held : (values[index]?).join with
            | none =>
              rw [held] at undecided
              refine Gives.change (undecided true ?_) (PartLost.cons ?_)
              · cases and <;> cases null <;> rfl
              · rw [outcome, held]
                rintro ⟨⟩
            | some truth =>
              rw [held] at decided undecided
              by_cases same : truth = and
              · subst same
                show Gives _ _ (if truth != truth then _ else _)
                rw [if_neg (by simp)]
                refine Gives.change (undecided null ?_) (PartLost.cons ?_)
                · cases truth <;> cases null <;> rfl
                · rw [outcome, held]
                  cases truth <;> rintro ⟨⟩
              · have decides : truth = !and := by cases truth <;> cases and <;> simp_all
                subst decides
                show Gives _ _ (if (!and) != and then _ else _)
                rw [if_pos (by cases and <;> rfl)]
                refine decided ?_
                cases and <;> cases null <;> rfl

end Means

/-! ### The lowering -/

section Lowering
variable {host : Host} {typed : TypedBatch} {evaluationTimeMs : Option Int64}
  {regexes : String → Option (String → Bool)}

variable (typed evaluationTimeMs regexes) in
/-- What an expression is evaluated in over a row of the batch. -/
def scopeAt (index : Nat) : Scope := { schema := typed.schema, row := typed.row index, evaluationTimeMs, regexes }

variable (host typed evaluationTimeMs regexes) in
/-- An expression's evaluation as a part of a conjunction or disjunction. -/
def partAt (expr : LocalExpr) : Part :=
  (fun index => evaluate host (scopeAt typed evaluationTimeMs regexes index) expr,
    fun index => OperandLost host (scopeAt typed evaluationTimeMs regexes index) expr)

variable (host typed evaluationTimeMs regexes) in
/-- The comparison of an `IN` list's operand with an item. -/
def comparedAt (expr item : LocalExpr) : Part :=
  (fun index => evaluate host (scopeAt typed evaluationTimeMs regexes index) expr >>= fun l =>
      evaluate host (scopeAt typed evaluationTimeMs regexes index) item >>= fun r => compareValues host .eq l r,
    fun index => OperandLost host (scopeAt typed evaluationTimeMs regexes index) expr ∨
      OperandLost host (scopeAt typed evaluationTimeMs regexes index) item)

theorem Means.weaken {run : Nat → Except String Value} {lost lost' : Nat → Prop} {vector : VectorExpr}
    {dtype : DataType} (means : Means host typed run lost vector dtype) (weaker : ∀ index, lost index → lost' index) :
    Means host typed run lost' vector dtype :=
  ⟨means.outcome, fun evaluated ran index small => (means.right evaluated ran index small).change (weaker index)⟩

theorem Means.congr {run run' : Nat → Except String Value} {lost : Nat → Prop} {vector : VectorExpr}
    {dtype : DataType} (means : Means host typed run lost vector dtype) (same : ∀ index, run index = run' index) :
    Means host typed run' lost vector dtype :=
  ⟨means.outcome, fun evaluated ran index small => same index ▸ means.right evaluated ran index small⟩

theorem means_literal {run : Nat → Except String Value} {lost : Nat → Prop} {value : Value} {dtype : DataType}
    (scalar : isScalar dtype = true) (typedValue : value.hasType dtype true = true)
    (same : ∀ index < typed.numRows, run index = .ok value) :
    Means host typed run lost (.literal value dtype) dtype := by
  refine ⟨.fits ⟨rfl, scalar, typedValue⟩ fun _ => typedValue, ?_⟩
  rintro _ ⟨⟩ index small
  rw [same index small]
  rfl

theorem means_shifted {run : Nat → Except String Value} {lost : Nat → Prop} {value : Value}
    (same : ∀ index < typed.numRows, run index = .ok value) :
    Means host typed run lost (.literal value .timestamp) .timestamp := by
  cases fine : value.hasType .timestamp true with
  | true => exact means_literal rfl fine same
  | false =>
    refine ⟨.odd rfl fine fun typedValue => ?_, ?_⟩
    · exact Bool.false_ne_true (fine.symm.trans typedValue)
    · rintro _ ⟨⟩ index small
      rw [same index small]
      rfl

theorem means_column {column : Nat} {dtype : DataType} {lost : Nat → Prop}
    (found : plainType typed.schema column = some dtype) :
    Means host typed (fun index => evaluate host (scopeAt typed evaluationTimeMs regexes index) (.column column))
      lost (.column column) dtype := by
  obtain ⟨field, here, plain⟩ := Option.bind_eq_some_iff.mp found
  obtain ⟨array, there, ofField⟩ := Traversal.exists_getElem?_of_forall₂ typed.typed here
  have layout : hasLayout array (.plain dtype) = true := by
    have stored := ofField.layout
    unfold Ir.Field.plainDtype at plain
    split at plain
    · rename_i held
      cases plain
      rwa [held] at stored
    · cases plain
  have length := typed.batch.lengths array (List.mem_of_getElem? there)
  have run : evaluateVector host typed.batch (.column column) = .ok (.column array) := by
    rw [evaluateVector, there]
  refine ⟨run ▸ .fits ⟨layout, length⟩ fun _ => trivial, fun evaluated ran index small => ?_⟩
  cases run.symm.trans ran
  have cell : (typed.row index)[column]? = some (array.decode.getD index .null) := by
    rw [TypedBatch.row, List.getElem?_map, there]
    rfl
  rw [evaluate, scopeAt]
  simp only [cell]
  rfl

theorem isFloat64_eq {dtype : DataType} (floating : isFloat64 dtype = true) : dtype = .float64 := by
  cases dtype <;> first | rfl | exact Bool.noConfusion floating

theorem isBool_eq {dtype : DataType} (boolean : isBool dtype = true) : dtype = .bool := by
  cases dtype <;> first | rfl | exact Bool.noConfusion boolean

theorem same_scalar {a b : DataType} (scalar : isScalar b = true) (equal : same a b = true) : a = b := by
  cases b <;> cases a <;> first | rfl | exact Bool.noConfusion equal | exact Bool.noConfusion scalar

/-- The lowered type is the expression's. -/
def Alike (lowered dtype : DataType) : Prop := lowered = dtype ∨ same lowered dtype = true

theorem Alike.scalar {lowered dtype : DataType} (alike : Alike lowered dtype) (scalar : isScalar lowered = true) :
    lowered = dtype := by
  obtain rfl | equal := alike
  · rfl
  · exact (same_scalar scalar (same_symm equal)).symm

theorem lowerNegate_some {operand lowered : Lowered} (found : lowerNegate operand = some lowered) :
    operand.2 = .float64 ∧ lowered = (.negateFloat operand.1, .float64) := by
  unfold lowerNegate at found
  split at found
  · rename_i floating
    have float := isFloat64_eq floating
    rw [float] at found
    exact ⟨float, (Option.some.inj found).symm⟩
  · cases found

theorem lowerArithmetic_some {op : ArithmeticOpKind} {left right lowered : Lowered}
    (found : lowerArithmetic op left right = some lowered) : left.2 = .float64 ∧ right.2 = .float64 ∧
      lowered = (.floatArithmetic op left.1 right.1, .float64) := by
  unfold lowerArithmetic at found
  split at found
  · rename_i floating
    obtain ⟨first, second⟩ := Bool.and_eq_true_iff.mp floating
    exact ⟨isFloat64_eq first, isFloat64_eq second, (Option.some.inj found).symm⟩
  · cases found

theorem scalarComparable_scalar {dtype : DataType} (comparable : scalarComparable dtype = true) :
    isScalar dtype = true := by
  cases dtype <;> first | rfl | exact Bool.noConfusion comparable

theorem lowerCompare_some {op : CompareOpKind} {left right lowered : Lowered}
    (found : lowerCompare op left right = some lowered) : right.2 = left.2 ∧ scalarComparable left.2 = true ∧
      isDate left.2 = false ∧ lowered = (.compare op left.1 right.1 left.2, .bool) := by
  unfold lowerCompare at found
  split at found
  · rename_i fine
    simp only [Bool.and_eq_true, Bool.not_eq_true'] at fine
    obtain ⟨⟨equal, comparable⟩, undated⟩ := fine
    exact ⟨same_scalar (scalarComparable_scalar comparable) (same_symm equal), comparable, undated,
      (Option.some.inj found).symm⟩
  · cases found

theorem lowerNot_some {operand lowered : Lowered} (found : lowerNot operand = some lowered) :
    operand.2 = .bool ∧ lowered = (.not operand.1, .bool) := by
  unfold lowerNot at found
  split at found
  · rename_i boolean
    exact ⟨isBool_eq boolean, (Option.some.inj found).symm⟩
  · cases found

theorem lowerCast_some {target : DataType} {operand lowered : Lowered}
    (found : lowerCast target operand = some lowered) : (same operand.2 target = true ∧ lowered = operand) ∨
      (operand.2 = .int64 ∧ target = .float64 ∧ lowered = (.intToFloat operand.1, .float64)) := by
  unfold lowerCast at found
  split at found
  · rename_i equal
    exact .inl ⟨equal, (Option.some.inj found).symm⟩
  · split at found
    · exact .inr ⟨by assumption, rfl, (Option.some.inj found).symm⟩
    · cases found

theorem isTimestamp_ok {found : Checked (DataType × Bool)} (timestamp : isTimestamp found = true) {dtype : DataType}
    {nullable : Bool} (ok : found = .ok (dtype, nullable)) : dtype = .timestamp := by
  subst ok
  cases dtype <;> first | rfl | exact Bool.noConfusion timestamp

theorem arithmeticType_float64 {op : ArithmeticOpKind} {a b nullable : Bool} {dtype : DataType}
    (typedAs : arithmeticType op (.float64, a) (.float64, b) = .ok (dtype, nullable)) : dtype = .float64 := by
  cases op <;> exact (Prod.mk.inj (Except.ok.inj typedAs)).1.symm

theorem itemTypes_bool {schema : Schema} {dtype : DataType} {nullable : Bool} {items : List LocalExpr}
    {found : DataType × Bool} (run : itemTypes host schema dtype nullable items = .ok found) :
    found.1 = .bool := by
  induction items generalizing nullable with
  | nil =>
    cases run
    rfl
  | cons item rest ih =>
    rw [itemTypes] at run
    obtain ⟨_, _, run⟩ := bind_eq_ok run
    obtain ⟨_, _, run⟩ := bind_eq_ok run
    exact ih run

theorem lowerScalar_type (expr : LocalExpr) {vector : VectorExpr} {dtype typedAs : DataType} {nullable : Bool}
    (lowered : lowerScalar host typed.schema evaluationTimeMs expr = some (vector, dtype))
    (found : scalarType host typed.schema expr = .ok (typedAs, nullable)) : Alike dtype typedAs := by
  cases expr with
  | currentTimestamp =>
    rw [lowerScalar, Option.map_eq_some_iff] at lowered
    obtain ⟨_, _, made⟩ := lowered
    cases made
    cases found
    exact .inl rfl
  | column column =>
    rw [lowerScalar, Option.map_eq_some_iff] at lowered
    obtain ⟨_, plain, made⟩ := lowered
    cases made
    obtain ⟨field, here, plain⟩ := Option.bind_eq_some_iff.mp plain
    rw [scalarType, columnType, here] at found
    simp only [plain] at found
    cases found
    exact .inl rfl
  | literal value =>
    cases lowered
    cases found
    exact .inl rfl
  | negative expr semantics =>
    rw [lowerScalar] at lowered
    obtain ⟨⟨operand, operandType⟩, first, made⟩ := Option.bind_eq_some_iff.mp lowered
    obtain ⟨rfl, made⟩ := lowerNegate_some made
    cases made
    rw [scalarType] at found
    obtain ⟨⟨_, _⟩, typedOperand, found⟩ := bind_eq_ok found
    have alike := (lowerScalar_type expr first typedOperand).scalar rfl
    replace found : (if _ then _ else _) = Except.ok (typedAs, nullable) := found
    split at found
    · cases found
      exact .inl alike
    · cases found
  | arithmetic op left right semantics =>
    rw [lowerScalar] at lowered
    split at lowered
    · rename_i shifts
      have timestamp := isTimestamp_ok (Bool.and_eq_true_iff.mp shifts).2 found
      split at lowered
      · cases lowered
        exact .inl timestamp.symm
      · cases lowered
    · obtain ⟨⟨l, leftType⟩, first, lowered⟩ := Option.bind_eq_some_iff.mp lowered
      obtain ⟨⟨r, rightType⟩, second, made⟩ := Option.bind_eq_some_iff.mp lowered
      obtain ⟨rfl, rfl, made⟩ := lowerArithmetic_some made
      cases made
      rw [scalarType] at found
      obtain ⟨⟨_, _⟩, leftTyped, found⟩ := bind_eq_ok found
      obtain ⟨⟨_, _⟩, rightTyped, found⟩ := bind_eq_ok found
      have leftAlike := (lowerScalar_type left first leftTyped).scalar rfl
      have rightAlike := (lowerScalar_type right second rightTyped).scalar rfl
      rw [← leftAlike, ← rightAlike] at found
      exact .inl (arithmeticType_float64 found).symm
  | compare left op right semantics =>
    rw [lowerScalar] at lowered
    split at lowered
    · obtain ⟨l, _, lowered⟩ := Option.bind_eq_some_iff.mp lowered
      obtain ⟨r, _, made⟩ := Option.bind_eq_some_iff.mp lowered
      obtain ⟨_, _, _, made⟩ := lowerCompare_some made
      cases made
      rw [scalarType] at found
      obtain ⟨_, _, found⟩ := bind_eq_ok found
      obtain ⟨_, _, found⟩ := bind_eq_ok found
      unfold compareType at found
      obtain ⟨_, _, found⟩ := bind_eq_ok found
      split at found
      · cases found
      · cases found
        exact .inl rfl
    · cases lowered
  | boolAnd parts =>
    rw [lowerScalar, Option.map_eq_some_iff] at lowered
    obtain ⟨_, _, made⟩ := lowered
    cases made
    rw [scalarType] at found
    obtain ⟨_, _, found⟩ := bind_eq_ok found
    cases found
    exact .inl rfl
  | boolOr parts =>
    rw [lowerScalar, Option.map_eq_some_iff] at lowered
    obtain ⟨_, _, made⟩ := lowered
    cases made
    rw [scalarType] at found
    obtain ⟨_, _, found⟩ := bind_eq_ok found
    cases found
    exact .inl rfl
  | inList expr list negated =>
    rw [lowerScalar, Option.map_eq_some_iff] at lowered
    obtain ⟨_, _, made⟩ := lowered
    cases made
    rw [scalarType] at found
    obtain ⟨⟨_, _⟩, _, found⟩ := bind_eq_ok found
    exact .inl (itemTypes_bool found).symm
  | not expr =>
    rw [lowerScalar] at lowered
    obtain ⟨operand, first, made⟩ := Option.bind_eq_some_iff.mp lowered
    obtain ⟨_, made⟩ := lowerNot_some made
    cases made
    rw [scalarType] at found
    obtain ⟨_, _, found⟩ := bind_eq_ok found
    obtain ⟨_, _, found⟩ := bind_eq_ok found
    cases found
    exact .inl rfl
  | isNull expr =>
    rw [lowerScalar, Option.map_eq_some_iff] at lowered
    obtain ⟨_, _, made⟩ := lowered
    cases made
    rw [scalarType] at found
    obtain ⟨_, _, found⟩ := bind_eq_ok found
    cases found
    exact .inl rfl
  | isNotNull expr =>
    rw [lowerScalar, Option.map_eq_some_iff] at lowered
    obtain ⟨_, _, made⟩ := lowered
    cases made
    rw [scalarType] at found
    obtain ⟨_, _, found⟩ := bind_eq_ok found
    cases found
    exact .inl rfl
  | cast expr target tryCast =>
    rw [lowerScalar] at lowered
    obtain ⟨operand, first, made⟩ := Option.bind_eq_some_iff.mp lowered
    rw [scalarType] at found
    obtain ⟨_, _, found⟩ := bind_eq_ok found
    cases found
    obtain ⟨equal, whole⟩ | ⟨_, rfl, whole⟩ := lowerCast_some made
    · subst whole
      exact .inr equal
    · cases whole
      exact .inl rfl
  | _ => cases lowered

theorem means_cast {run : Nat → Except String Value} {lost : Nat → Prop} {vector : VectorExpr}
    {dtype target typedAs : DataType} {nullable : Bool} (means : Means host typed run lost vector dtype)
    (equal : same dtype target = true) (alike : Alike dtype typedAs) :
    Means host typed (fun index => run index >>= castValue host target (.ok (typedAs, nullable))) lost vector
      dtype := by
  have reaches : same typedAs target = true := by
    obtain rfl | alike := alike
    · exact equal
    · exact same_trans (same_symm alike) equal
  refine means.lift .ok Iff.rfl ?_ fun evaluated outcome => ⟨outcome, ?_⟩
  · cases evaluateVector host typed.batch vector <;> rfl
  · rintro _ ⟨⟩ index small
    have unwidened : ∀ v, evaluated.cell index = .int64 v → target ≠ .float64 := by
      rintro v cell rfl
      have float := same_scalar rfl equal
      subst float
      obtain ⟨operand, _, cells⟩ := floatOperand_fits (Outcome.fits_of (by simp) outcome).1
      rw [cells] at cell
      cases held : operand.get index <;> simp [held, Column.ofSlot] at cell
    unfold castValue
    split
    · rename_i null
      rw [null]
    · rename_i v cell
      exact absurd rfl (unwidened v cell)
    · show (if same typedAs _ = true then _ else _) = _
      rw [if_pos reaches]

theorem PartLost.of_map {and : Bool} {index : Nat} {items : List LocalExpr} {part : LocalExpr → Part}
    (lost : PartLost and index (items.map part)) : ∃ before item after, items = before ++ item :: after ∧
      (∀ other ∈ before, (part other).1 index ≠ .ok (.bool !and)) ∧ (part item).2 index := by
  obtain ⟨before, _, after, split, undecided, here⟩ := lost
  obtain ⟨before, later, rfl, rfl, tail⟩ := List.map_eq_append_iff.mp split
  obtain ⟨item, after, rfl, rfl, rfl⟩ := List.map_eq_cons_iff.mp tail
  exact ⟨before, item, after, rfl, fun other member => undecided _ (List.mem_map_of_mem member), here⟩

theorem means_parts {parts : List LocalExpr} (part : LocalExpr → Part) {vectors : List VectorExpr} (and : Bool)
    (means : List.Forall₂ (fun expr vector => Means host typed (part expr).1 (part expr).2 vector .bool)
      parts vectors) {whole : VectorExpr} (typing : whole.Typed ↔ AllTyped vectors)
    (unfolds : evaluateVector host typed.batch whole = joinParts host typed.batch and none vectors) :
    Means host typed (fun index => decideOutcomes and false (parts.map fun expr => (part expr).1 index))
      (fun index => PartLost and index (parts.map part)) whole .bool := by
  obtain ⟨outcome, right⟩ := joinParts_means
    ((List.forall₂_map_left_iff (f := part) (R := fun part vector => Means host typed part.1 part.2 vector .bool)).mpr
      means) and none nofun
  refine ⟨by rwa [unfolds, typing], fun evaluated ran index small => ?_⟩
  have given := (right evaluated (unfolds.symm.trans ran) index small).2 false rfl
  rwa [List.map_map] at given

theorem operand_evaluated {op : CompareOpKind} {operand other : VectorExpr} {dtype : DataType}
    {rest : List VectorExpr} {negated : Bool} {evaluated : Evaluated}
    (ran : evaluateVector host typed.batch (if negated then .not (.or (.compare op operand other dtype :: rest))
      else .or (.compare op operand other dtype :: rest)) = .ok evaluated) :
    ∃ held, evaluateVector host typed.batch operand = .ok held := by
  obtain ⟨whole, ran⟩ : ∃ whole, evaluateVector host typed.batch
      (.or (.compare op operand other dtype :: rest)) = .ok whole := by
    cases negated with
    | false => exact ⟨_, ran⟩
    | true =>
      rw [if_pos rfl, evaluateVector] at ran
      obtain ⟨whole, first, _⟩ := bind_eq_ok ran
      exact ⟨whole, first⟩
  rw [evaluateVector, joinParts] at ran
  obtain ⟨_, ran, _⟩ := bind_eq_ok ran
  rw [evaluateVector] at ran
  obtain ⟨held, first, _⟩ := bind_eq_ok ran
  exact ⟨held, first⟩

mutual
theorem lowerScalar_means (expr : LocalExpr) (valid : Valid host typed.schema expr) {vector : VectorExpr}
    {dtype : DataType}
    (lowered : lowerScalar host typed.schema evaluationTimeMs expr = some (vector, dtype)) :
    Means host typed (fun index => evaluate host (scopeAt typed evaluationTimeMs regexes index) expr)
      (fun index => OperandLost host (scopeAt typed evaluationTimeMs regexes index) expr) vector dtype := by
  cases expr with
  | currentTimestamp =>
    rw [lowerScalar, Option.map_eq_some_iff] at lowered
    obtain ⟨at_, now, made⟩ := lowered
    cases made
    refine means_literal rfl rfl fun index _ => ?_
    rw [evaluate, scopeAt, now]
  | column column =>
    rw [lowerScalar, Option.map_eq_some_iff] at lowered
    obtain ⟨_, plain, made⟩ := lowered
    cases made
    exact means_column plain
  | literal value =>
    cases lowered
    exact means_literal (by cases value <;> rfl) (by cases value <;> rfl) fun index _ => by rw [evaluate]
  | negative expr semantics =>
    rw [lowerScalar] at lowered
    obtain ⟨⟨operand, operandType⟩, first, made⟩ := Option.bind_eq_some_iff.mp lowered
    obtain ⟨rfl, made⟩ := lowerNegate_some made
    cases made
    exact ((means_negate (lowerScalar_means expr (valid_negative valid) first)).weaken
      fun _ => OperandLost.negative).congr fun _ => by rw [evaluate]
  | arithmetic op left right semantics =>
    rw [lowerScalar] at lowered
    split at lowered
    · rename_i shifts
      have unread := List.isEmpty_iff.mp (Bool.and_eq_true_iff.mp shifts).1
      split at lowered
      · rename_i value ran
        cases lowered
        have grows (index : Nat) : Extends
            { schema := typed.schema, row := [], evaluationTimeMs, regexes := fun _ => none }
            (scopeAt typed evaluationTimeMs regexes index)
            (ScalarExpr.arithmetic op left right semantics).columnsReferenced :=
          ⟨rfl, rfl, by rw [unread]; exact nofun, fun _ _ found => nomatch found⟩
        exact means_shifted fun index _ => evaluate_extends _ (grows index) ran
      · cases lowered
    · obtain ⟨⟨l, leftType⟩, first, lowered⟩ := Option.bind_eq_some_iff.mp lowered
      obtain ⟨⟨r, rightType⟩, second, made⟩ := Option.bind_eq_some_iff.mp lowered
      obtain ⟨rfl, rfl, made⟩ := lowerArithmetic_some made
      cases made
      obtain ⟨leftValid, rightValid⟩ := valid_arithmetic valid
      exact ((means_arithmetic op (lowerScalar_means left leftValid first)
        (lowerScalar_means right rightValid second)).weaken
          fun _ lost => lost.elim .addend .augend).congr fun _ => by rw [evaluate]
  | compare left op right semantics =>
    rw [lowerScalar] at lowered
    split at lowered
    · rename_i ordering
      obtain ⟨⟨l, leftType⟩, first, lowered⟩ := Option.bind_eq_some_iff.mp lowered
      obtain ⟨⟨r, rightType⟩, second, made⟩ := Option.bind_eq_some_iff.mp lowered
      obtain ⟨rfl, comparable, undated, made⟩ := lowerCompare_some made
      cases made
      obtain ⟨leftValid, rightValid⟩ := valid_compare valid
      have rightMeans : Means host typed
          (fun index => evaluate host (scopeAt typed evaluationTimeMs regexes index) right)
          (fun index => OperandLost host (scopeAt typed evaluationTimeMs regexes index) right) r rightType := by
        obtain rightValid | ⟨pattern, rfl⟩ := rightValid
        · exact lowerScalar_means right rightValid second
        · cases second
          exact means_literal rfl rfl fun index _ => by rw [evaluate]
      exact ((means_compare comparable undated ordering (lowerScalar_means left leftValid first)
        rightMeans).weaken fun _ lost => lost.elim (.compared ordering) (.comparand ordering)).congr
          fun _ => (evaluate_compare ordering left right semantics).symm
    · cases lowered
  | boolAnd parts =>
    rw [lowerScalar, Option.map_eq_some_iff] at lowered
    obtain ⟨vectors, first, made⟩ := lowered
    cases made
    refine ((means_parts (partAt host typed evaluationTimeMs regexes) true
      (lowerParts_means parts (valid_boolAnd valid) first) Iff.rfl rfl).weaken
      fun _ lost => ?_).congr fun _ => by
        rw [evaluate, evaluateParts_eq]
        rfl
    obtain ⟨before, part, after, rfl, undecided, lost⟩ := lost.of_map
    exact .conjunct undecided lost
  | boolOr parts =>
    rw [lowerScalar, Option.map_eq_some_iff] at lowered
    obtain ⟨vectors, first, made⟩ := lowered
    cases made
    refine ((means_parts (partAt host typed evaluationTimeMs regexes) false
      (lowerParts_means parts (valid_boolOr valid) first) Iff.rfl rfl).weaken
      fun _ lost => ?_).congr fun _ => by
        rw [evaluate, evaluateParts_eq]
        rfl
    obtain ⟨before, part, after, rfl, undecided, lost⟩ := lost.of_map
    exact .disjunct undecided lost
  | inList expr list negated =>
    rw [lowerScalar, Option.map_eq_some_iff] at lowered
    obtain ⟨vectors, first, made⟩ := lowered
    cases made
    obtain ⟨operandValid, itemsValid⟩ := valid_inList valid
    have parts := lowerItems_means expr (fun found => lowerScalar_means expr operandValid found) list itemsValid first
    have disjunction : Means host typed _ _ (.or vectors) .bool :=
      means_parts (comparedAt host typed evaluationTimeMs regexes expr) false parts Iff.rfl rfl
    have negation : Means host typed (fun index => decideOutcomes false false
        (list.map fun item => (comparedAt host typed evaluationTimeMs regexes expr item).1 index) >>=
          (if negated then notValue else .ok))
        (fun index => PartLost false index (list.map (comparedAt host typed evaluationTimeMs regexes expr)))
        (if negated then .not (.or vectors) else .or vectors) .bool := by
      cases negated with
      | true => exact means_not disjunction
      | false =>
        refine disjunction.congr fun index => ?_
        generalize decideOutcomes _ _ _ = run
        cases run <;> rfl
    refine ⟨negation.outcome, fun evaluated ran index small => ?_⟩
    have given := negation.right evaluated ran index small
    rw [evaluate]
    cases outcome : evaluate host (scopeAt typed evaluationTimeMs regexes index) expr with
    | error message =>
      show OperandLost host _ _
      cases list with
      | nil => exact .emptyList fun value found => nomatch outcome.symm.trans found
      | cons item rest =>
        rw [lowerItems] at first
        obtain ⟨⟨l, leftType⟩, held, first⟩ := Option.bind_eq_some_iff.mp first
        obtain ⟨r, _, first⟩ := Option.bind_eq_some_iff.mp first
        obtain ⟨part, compared, first⟩ := Option.bind_eq_some_iff.mp first
        obtain ⟨later, _, all⟩ := Option.bind_eq_some_iff.mp first
        obtain ⟨_, _, _, rfl⟩ := lowerCompare_some compared
        cases all
        obtain ⟨cell, there⟩ := operand_evaluated ran
        have lost := (lowerScalar_means expr operandValid held).right cell there index small
        rw [outcome] at lost
        exact .operand lost
    | ok value =>
      show Gives _ _ (evaluateItems _ _ _ _ _ _)
      rw [evaluateItems_eq]
      simp only [comparedAt, outcome] at given
      refine given.change fun lost => ?_
      obtain ⟨before, item, after, rfl, unmatched, lost⟩ := lost.of_map
      obtain lost | lost := lost
      · exact .operand lost
      · refine .item (fun other member held compared ran found equal => unmatched other member ?_) lost
        simp only [comparedAt, ran, found, bind, Except.bind]
        exact equal
  | not expr =>
    rw [lowerScalar] at lowered
    obtain ⟨⟨operand, operandType⟩, first, made⟩ := Option.bind_eq_some_iff.mp lowered
    obtain ⟨rfl, made⟩ := lowerNot_some made
    cases made
    exact ((means_not (lowerScalar_means expr (valid_not valid) first)).weaken
      fun _ => OperandLost.not).congr fun _ => by rw [evaluate]
  | isNull expr =>
    rw [lowerScalar, Option.map_eq_some_iff] at lowered
    obtain ⟨⟨operand, operandType⟩, first, made⟩ := lowered
    cases made
    exact ((means_nullTest (lowerScalar_means expr (valid_isNull valid) first) true (.isNull operand)
      Iff.rfl rfl).weaken fun _ => OperandLost.isNull).congr fun _ => by simp [evaluate]
  | isNotNull expr =>
    rw [lowerScalar, Option.map_eq_some_iff] at lowered
    obtain ⟨⟨operand, operandType⟩, first, made⟩ := lowered
    cases made
    exact ((means_nullTest (lowerScalar_means expr (valid_isNotNull valid) first) false (.isNotNull operand)
      Iff.rfl rfl).weaken fun _ => OperandLost.isNotNull).congr fun _ => by simp [evaluate]
  | cast expr target tryCast =>
    rw [lowerScalar] at lowered
    obtain ⟨⟨operand, operandType⟩, first, made⟩ := Option.bind_eq_some_iff.mp lowered
    have operandValid := valid_cast valid
    have means := lowerScalar_means expr operandValid first
    obtain ⟨_, typedOperand⟩ := operandValid.typed
    obtain ⟨nullable, typedOperand⟩ := typeOf_ok typedOperand
    obtain ⟨equal, whole⟩ | ⟨rfl, rfl, whole⟩ := lowerCast_some made
    · cases whole
      exact ((means_cast means equal (lowerScalar_type expr first typedOperand)).weaken
        fun _ => OperandLost.cast).congr fun _ => by rw [evaluate, scopeAt, typedOperand]
    · cases whole
      exact ((means_intToFloat means (scalarType host typed.schema expr)).weaken
        fun _ => OperandLost.cast).congr fun _ => by rw [evaluate, scopeAt]
  | _ => cases lowered

theorem lowerParts_means (parts : List LocalExpr) (valid : ∀ part ∈ parts, Valid host typed.schema part)
    {vectors : List VectorExpr}
    (lowered : lowerParts host typed.schema evaluationTimeMs parts = some vectors) :
    List.Forall₂ (fun part vector => Means host typed
      (fun index => evaluate host (scopeAt typed evaluationTimeMs regexes index) part)
      (fun index => OperandLost host (scopeAt typed evaluationTimeMs regexes index) part) vector .bool)
        parts vectors := by
  cases parts with
  | nil =>
    cases lowered
    exact .nil
  | cons part rest =>
    obtain ⟨first, others⟩ := List.forall_mem_cons.mp valid
    rw [lowerParts] at lowered
    obtain ⟨⟨vector, dtype⟩, here, lowered⟩ := Option.bind_eq_some_iff.mp lowered
    obtain ⟨later, there, lowered⟩ := Option.bind_eq_some_iff.mp lowered
    split at lowered
    · rename_i boolean
      cases lowered
      cases isBool_eq boolean
      exact .cons (lowerScalar_means part first here) (lowerParts_means rest others there)
    · cases lowered

theorem lowerItems_means (expr : LocalExpr) {operand : Option Lowered}
    (means : ∀ {vector dtype}, operand = some (vector, dtype) → Means host typed
      (fun index => evaluate host (scopeAt typed evaluationTimeMs regexes index) expr)
      (fun index => OperandLost host (scopeAt typed evaluationTimeMs regexes index) expr) vector dtype)
    (items : List LocalExpr) (valid : ∀ item ∈ items, Valid host typed.schema item) {vectors : List VectorExpr}
    (lowered : lowerItems host typed.schema evaluationTimeMs operand items = some vectors) :
    List.Forall₂ (fun item vector => Means host typed
      (comparedAt host typed evaluationTimeMs regexes expr item).1
      (comparedAt host typed evaluationTimeMs regexes expr item).2 vector .bool) items vectors := by
  cases items with
  | nil =>
    cases lowered
    exact .nil
  | cons item rest =>
    obtain ⟨first, others⟩ := List.forall_mem_cons.mp valid
    rw [lowerItems] at lowered
    obtain ⟨⟨l, leftType⟩, held, lowered⟩ := Option.bind_eq_some_iff.mp lowered
    obtain ⟨⟨r, rightType⟩, here, lowered⟩ := Option.bind_eq_some_iff.mp lowered
    obtain ⟨part, compared, lowered⟩ := Option.bind_eq_some_iff.mp lowered
    obtain ⟨later, there, all⟩ := Option.bind_eq_some_iff.mp lowered
    obtain ⟨rfl, comparable, undated, whole⟩ := lowerCompare_some compared
    cases all
    rw [whole]
    exact .cons (means_compare comparable undated rfl (means held) (lowerScalar_means item first here))
      (lowerItems_means expr means rest others there)
end

end Lowering
end AsapPlanner.Expressions
