import AsapPlanner.Expressions.Evaluate
import AsapPlanner.Rust.Result

/-!
Expressions compiled over an input schema: what is accepted, and the columns an accepted expression reads.
-/

namespace AsapPlanner.Expressions
open Ir Rust Grouping Construction

def isOrdering : CompareOpKind → Bool
  | .eq | .ne | .lt | .le | .gt | .ge => true
  | _ => false

def comparable : DataType → Bool
  | .null | .int64 | .float64 | .utf8 | .bool | .timestamp => true
  | .map key value _ => comparable key && comparable value
  | _ => false

def comparableWith (a b : DataType) : Bool :=
  let isNull : DataType → Bool := fun
    | .null => true
    | _ => false
  let isNumber : DataType → Bool := fun
    | .int64 | .float64 => true
    | _ => false
  comparable a && comparable b && (same a b || isNull a || isNull b || (isNumber a && isNumber b))

def shiftsTimestamp : ArithmeticOpKind → DataType → DataType → Bool
  | .add, .timestamp, .interval | .sub, .timestamp, .interval | .add, .interval, .timestamp => true
  | _, _, _ => false

def isLogical : DataType → Bool
  | .bool | .null => true
  | _ => false

section Validate
variable (host : Host) (schema : Schema)

def unsupported (expr : LocalExpr) : String :=
  "unsupported scalar expression: " ++ (datum expr).debug host.text

/-- An expression's type, its error as bad input. -/
def typeOf (expr : LocalExpr) : Except String DataType :=
  match scalarType host schema expr with
  | .ok (dtype, _) => .ok dtype
  | .error e => .error e.message

def require (condition : Bool) (expr : LocalExpr) : Except String Unit :=
  if condition then .ok () else .error (unsupported host expr)

/-- A comparison's operands, once each is valid. -/
def validateCompare (op : CompareOpKind) (left right expr : LocalExpr) (operands : Except String Unit) :
    Except String Unit := do
  let _ ← require host (isOrdering op) expr
  let _ ← operands
  let a ← typeOf host schema left
  let b ← typeOf host schema right
  require host (comparableWith a b) expr

mutual
/-- Whether the executor evaluates an expression. -/
def validate (expr : LocalExpr) : Except String Unit := do
  let _ ← typeOf host schema expr
  match expr with
  | .column _ | .literal _ | .currentTimestamp => .ok ()
  | .cast operand target _ => do
    let source ← typeOf host schema operand
    let widens := match source, target with
      | .null, _ | .int64, .float64 => true
      | _, _ => false
    let _ ← require host (same source target || widens) expr
    validate operand
  | .negative operand _ => validate operand
  | .arithmetic op left right _ => do
    let a ← typeOf host schema left
    let b ← typeOf host schema right
    let _ ← validate left
    let _ ← require host (shiftsTimestamp op a b || numericType a) expr
    let _ ← validate right
    require host (shiftsTimestamp op a b || numericType b) expr
  | .compare left op right _ =>
    if op = .regex ∨ op = .notRegex then do
      let _ ← validate left
      let text ← typeOf host schema left
      match right with
      | .literal (.utf8 pattern) => do
        let _ ← require host (same text .utf8) expr
        if (host.regex pattern).isSome then .ok ()
        else .error ("invalid label regex " ++ host.text.str pattern)
      | _ => .error (unsupported host expr)
    else
      validateCompare host schema op left right expr do
        let _ ← validate left
        validate right
  | .functionCall name args => do
    let _ ← require host (host.isEvaluated name) expr
    validateAll args
  | .case none branches elseExpr => do
    let _ ← validateBranches branches
    validateElse elseExpr
  | .boolAnd parts | .boolOr parts => validateParts expr parts
  | .not operand => do
    let _ ← validate operand
    let dtype ← typeOf host schema operand
    require host (isLogical dtype) expr
  | .isNull operand | .isNotNull operand => validate operand
  -- Valid when its operand is and each comparison it evaluates is.
  | .inList operand list _ => do
    let _ ← validate operand
    validateItems operand (validate operand) list
  | _ => .error (unsupported host expr)

def validateAll : List LocalExpr → Except String Unit
  | [] => .ok ()
  | arg :: rest => do
    let _ ← validate arg
    validateAll rest

def validateParts (whole : LocalExpr) : List LocalExpr → Except String Unit
  | [] => .ok ()
  | part :: rest => do
    let _ ← validate part
    let dtype ← typeOf host schema part
    let _ ← require host (isLogical dtype) whole
    validateParts whole rest

def validateItems (operand : LocalExpr) (valid : Except String Unit) :
    List LocalExpr → Except String Unit
  | [] => .ok ()
  | item :: rest => do
    let expr := .compare operand .eq item .sql
    let _ ← typeOf host schema expr
    let _ ← validateCompare host schema .eq operand item expr do
      let _ ← valid
      validate item
    validateItems operand valid rest

def validateBranches : List (LocalExpr × LocalExpr) → Except String Unit
  | [] => .ok ()
  | (condition, value) :: rest => do
    let _ ← validate condition
    let dtype ← typeOf host schema condition
    let _ ← require host (match dtype with | .bool => true | _ => false) condition
    let _ ← validate value
    validateBranches rest

def validateElse : Option LocalExpr → Except String Unit
  | none => .ok ()
  | some value => validate value
end

end Validate

mutual
/-- The patterns of an expression's `=~` and `!~`. -/
def patterns : LocalExpr → List String
  | .compare left op right _ =>
    let rest := patterns left ++ patterns right
    match op, right with
    | .regex, .literal (.utf8 pattern) | .notRegex, .literal (.utf8 pattern) => pattern :: rest
    | _, _ => rest
  | .negative expr _ | .not expr | .isNull expr | .isNotNull expr | .cast expr _ _ => patterns expr
  | .arithmetic _ left right _ => patterns left ++ patterns right
  | .boolAnd parts | .boolOr parts | .functionCall _ parts => patternsOfList parts
  | .inList expr list _ => patterns expr ++ patternsOfList list
  | .case operand branches elseExpr =>
    patternsOfOption operand ++ patternsOfBranches branches ++ patternsOfOption elseExpr
  | _ => []

def patternsOfList : List LocalExpr → List String
  | [] => []
  | expr :: rest => patterns expr ++ patternsOfList rest

def patternsOfOption : Option LocalExpr → List String
  | none => []
  | some expr => patterns expr

def patternsOfBranches : List (LocalExpr × LocalExpr) → List String
  | [] => []
  | (condition, value) :: rest => patterns condition ++ patterns value ++ patternsOfBranches rest
end

section Compile
variable (host : Host)

/-- The compiled pattern of each `=~` and `!~`. -/
def labelRegexesOf (expr : LocalExpr) : Except String (String → Option (String → Bool)) := do
  let _ ← (patterns expr).mapM fun pattern =>
    match host.regex pattern with
    | some _ => .ok ()
    | none => .error ("invalid label regex " ++ host.text.str pattern)
  .ok fun pattern => if pattern ∈ patterns expr then host.regex pattern else none

structure CompiledExpression where
  expression : LocalExpr
  schema : Schema
  output : DataType × Bool
  -- SQL `now()` in this run; none in a compiled plan and outside a query run.
  evaluationTimeMs : Option Int64
  labelRegexes : String → Option (String → Bool)

def bindExpression (expression : LocalExpr) (input : Schema) : Except String CompiledExpression := do
  let _ ← validate host input expression
  match scalarType host input expression with
  | .error e => .error e.message
  | .ok output => do
    let labelRegexes ← labelRegexesOf host expression
    .ok { expression, schema := input, output, evaluationTimeMs := none, labelRegexes }

def compile (expression : LocalExpr) (input : Schema) : Except String CompiledExpression :=
  if input.isAllPlain then bindExpression host expression input
  else .error "scalar expression cannot consume summary state"

/-- Whether a cell is one of its column's. -/
def holdsCell (field : SchemaField) (value : Value) : Bool :=
  match field.plainDtype with
  | some dtype => value.hasType dtype field.nullable
  | none =>
    match value with
    | .summary _ | .null => true
    | _ => false

namespace CompiledExpression
variable (compiled : CompiledExpression)

/-- What an expression is evaluated in over a row. -/
def scope (row : List Value) : Scope :=
  { schema := compiled.schema, row, evaluationTimeMs := compiled.evaluationTimeMs
    regexes := compiled.labelRegexes }

def evaluate (row : List Value) : Except String Value :=
  if row.length = compiled.schema.fields.length ∧
      (row.zip compiled.schema.fields).all fun (value, field) => holdsCell field value then
    Expressions.evaluate host (compiled.scope row) compiled.expression
  else .error "expression input differs from its bound schema"

end CompiledExpression
end Compile

/-! ### The parts of a valid expression -/

section Valid
variable {host : Host} {schema : Schema} {expr : LocalExpr}

theorem typeOf_ok {dtype : DataType} (typed : typeOf host schema expr = .ok dtype) :
    ∃ nullable, scalarType host schema expr = .ok (dtype, nullable) := by
  unfold typeOf at typed
  split at typed
  · rename_i found
    cases typed
    exact ⟨_, found⟩
  · cases typed

theorem typeOf_column {id : Nat} {dtype : DataType} (typed : typeOf host schema (.column id) = .ok dtype) :
    ∃ field, schema.fields[id]? = some field ∧ field.dtype = .plain dtype := by
  simp only [typeOf, scalarType, columnType] at typed
  cases found : schema.fields[id]? with
  | none => simp [found] at typed
  | some field =>
    simp only [found, Ir.Field.plainDtype] at typed
    refine ⟨field, rfl, ?_⟩
    cases held : field.dtype <;> simp_all

variable (host schema) in
/-- What the executor evaluates. -/
def Valid (expr : LocalExpr) : Prop := validate host schema expr = .ok ()

theorem Valid.typed (valid : Valid host schema expr) : ∃ dtype, typeOf host schema expr = .ok dtype := by
  unfold Valid validate at valid
  obtain ⟨dtype, typed, _⟩ := bind_eq_ok valid
  exact ⟨dtype, typed⟩

theorem validateCompare_ok {op : CompareOpKind} {left right : LocalExpr} {operands : Except String Unit}
    (valid : validateCompare host schema op left right expr operands = .ok ()) : operands = .ok () := by
  unfold validateCompare at valid
  obtain ⟨_, _, valid⟩ := bind_eq_ok valid
  obtain ⟨_, valid, _⟩ := bind_eq_ok valid
  exact valid

theorem validateParts_ok {whole : LocalExpr} {parts : List LocalExpr}
    (valid : validateParts host schema whole parts = .ok ()) : ∀ part ∈ parts, Valid host schema part := by
  induction parts with
  | nil => exact nofun
  | cons part rest ih =>
    rw [validateParts] at valid
    obtain ⟨_, first, valid⟩ := bind_eq_ok valid
    obtain ⟨_, _, valid⟩ := bind_eq_ok valid
    obtain ⟨_, _, valid⟩ := bind_eq_ok valid
    exact List.forall_mem_cons.mpr ⟨first, ih valid⟩

theorem validateItems_ok {operandValid : Except String Unit} {items : List LocalExpr}
    (valid : validateItems host schema expr operandValid items = .ok ()) :
    ∀ item ∈ items, Valid host schema item := by
  induction items with
  | nil => exact nofun
  | cons item rest ih =>
    rw [validateItems] at valid
    obtain ⟨_, _, valid⟩ := bind_eq_ok valid
    obtain ⟨_, compared, valid⟩ := bind_eq_ok valid
    obtain ⟨_, _, first⟩ := bind_eq_ok (validateCompare_ok compared)
    exact List.forall_mem_cons.mpr ⟨first, ih valid⟩

theorem validateAll_ok {args : List LocalExpr} (valid : validateAll host schema args = .ok ()) :
    ∀ arg ∈ args, Valid host schema arg := by
  induction args with
  | nil => exact nofun
  | cons arg rest ih =>
    rw [validateAll] at valid
    obtain ⟨_, first, valid⟩ := bind_eq_ok valid
    exact List.forall_mem_cons.mpr ⟨first, ih valid⟩

theorem validateBranches_ok {branches : List (LocalExpr × LocalExpr)}
    (valid : validateBranches host schema branches = .ok ()) :
    ∀ branch ∈ branches, Valid host schema branch.1 ∧ Valid host schema branch.2 := by
  induction branches with
  | nil => exact nofun
  | cons branch rest ih =>
    obtain ⟨condition, value⟩ := branch
    rw [validateBranches] at valid
    obtain ⟨_, first, valid⟩ := bind_eq_ok valid
    obtain ⟨_, _, valid⟩ := bind_eq_ok valid
    obtain ⟨_, _, valid⟩ := bind_eq_ok valid
    obtain ⟨_, second, valid⟩ := bind_eq_ok valid
    exact List.forall_mem_cons.mpr ⟨⟨first, second⟩, ih valid⟩

variable (host schema) in
/-- What holds of a valid expression's parts. -/
def Parts : LocalExpr → Prop
  | .cast operand _ _ | .negative operand _ | .not operand | .isNull operand | .isNotNull operand =>
    Valid host schema operand
  | .arithmetic _ left right _ => Valid host schema left ∧ Valid host schema right
  | .compare left _ right _ => Valid host schema left ∧
      (Valid host schema right ∨ ∃ pattern, right = .literal (.utf8 pattern))
  | .boolAnd parts | .boolOr parts | .functionCall _ parts => ∀ part ∈ parts, Valid host schema part
  | .inList operand list _ => Valid host schema operand ∧ ∀ item ∈ list, Valid host schema item
  | .case operand branches elseExpr => operand = none ∧
      (∀ branch ∈ branches, Valid host schema branch.1 ∧ Valid host schema branch.2) ∧
        ∀ value ∈ elseExpr, Valid host schema value
  | .inSubquery _ _ _ => False
  | _ => True

theorem Valid.parts (valid : Valid host schema expr) : Parts host schema expr := by
  unfold Valid validate at valid
  obtain ⟨_, _, valid⟩ := bind_eq_ok valid
  cases expr with
  | column _ | literal _ | currentTimestamp | evalTimestamp | promqlScalarFromVector _
  | scalarSubquery _ | «exists» _ _ => trivial
  | negative _ _ | isNull _ | isNotNull _ => exact valid
  | cast _ _ _ =>
    obtain ⟨_, _, valid⟩ := bind_eq_ok valid
    obtain ⟨_, _, valid⟩ := bind_eq_ok valid
    exact valid
  | not _ =>
    obtain ⟨_, valid, _⟩ := bind_eq_ok valid
    exact valid
  | arithmetic _ _ _ _ =>
    obtain ⟨_, _, valid⟩ := bind_eq_ok valid
    obtain ⟨_, _, valid⟩ := bind_eq_ok valid
    obtain ⟨_, first, valid⟩ := bind_eq_ok valid
    obtain ⟨_, _, valid⟩ := bind_eq_ok valid
    obtain ⟨_, second, valid⟩ := bind_eq_ok valid
    exact ⟨first, second⟩
  | compare _ _ _ _ =>
    dsimp only at valid
    split at valid
    · obtain ⟨_, first, valid⟩ := bind_eq_ok valid
      obtain ⟨_, _, valid⟩ := bind_eq_ok valid
      split at valid
      · exact ⟨first, .inr ⟨_, rfl⟩⟩
      · cases valid
    · obtain ⟨_, first, second⟩ := bind_eq_ok (validateCompare_ok valid)
      exact ⟨first, .inl second⟩
  | boolAnd _ | boolOr _ => exact validateParts_ok valid
  | functionCall _ _ =>
    obtain ⟨_, _, valid⟩ := bind_eq_ok valid
    exact validateAll_ok valid
  | inList _ _ _ =>
    obtain ⟨_, operand, valid⟩ := bind_eq_ok valid
    exact ⟨operand, validateItems_ok valid⟩
  | case operand _ _ =>
    cases operand with
    | some expr => cases valid
    | none =>
      obtain ⟨_, branchesValid, valid⟩ := bind_eq_ok valid
      refine ⟨rfl, validateBranches_ok branchesValid, ?_⟩
      rintro value ⟨⟩
      exact valid
  | inSubquery _ _ _ => cases valid

theorem valid_cast {target : DataType} {tryCast : Bool}
    (valid : Valid host schema (.cast expr target tryCast)) : Valid host schema expr := valid.parts

theorem valid_negative {semantics : ExprSemantics} (valid : Valid host schema (.negative expr semantics)) :
    Valid host schema expr := valid.parts

theorem valid_not (valid : Valid host schema (.not expr)) : Valid host schema expr := valid.parts

theorem valid_isNull (valid : Valid host schema (.isNull expr)) : Valid host schema expr := valid.parts

theorem valid_isNotNull (valid : Valid host schema (.isNotNull expr)) : Valid host schema expr :=
  valid.parts

theorem valid_arithmetic {op : ArithmeticOpKind} {left right : LocalExpr} {semantics : ExprSemantics}
    (valid : Valid host schema (.arithmetic op left right semantics)) :
    Valid host schema left ∧ Valid host schema right := valid.parts

theorem valid_compare {op : CompareOpKind} {left right : LocalExpr} {semantics : ExprSemantics}
    (valid : Valid host schema (.compare left op right semantics)) : Valid host schema left ∧
      (Valid host schema right ∨ ∃ pattern, right = .literal (.utf8 pattern)) := valid.parts

theorem valid_boolAnd {parts : List LocalExpr} (valid : Valid host schema (.boolAnd parts)) :
    ∀ part ∈ parts, Valid host schema part := valid.parts

theorem valid_boolOr {parts : List LocalExpr} (valid : Valid host schema (.boolOr parts)) :
    ∀ part ∈ parts, Valid host schema part := valid.parts

theorem valid_inList {list : List LocalExpr} {negated : Bool}
    (valid : Valid host schema (.inList expr list negated)) :
    Valid host schema expr ∧ ∀ item ∈ list, Valid host schema item := valid.parts

mutual
theorem columns_lt (expr : LocalExpr) (valid : Valid host schema expr) :
    ∀ id ∈ expr.columnsReferenced, id < schema.fields.length := by
  cases expr with
  | column id =>
    obtain ⟨dtype, typed⟩ := valid.typed
    obtain ⟨field, found, _⟩ := typeOf_column typed
    simp only [ScalarExpr.columnsReferenced, List.mem_singleton]
    rintro _ rfl
    exact (List.getElem?_eq_some_iff.mp found).1
  | literal _ | currentTimestamp | evalTimestamp | promqlScalarFromVector _ | scalarSubquery _
  | «exists» _ _ => exact nofun
  | negative expr _ => exact columns_lt expr (valid_negative valid)
  | not expr => exact columns_lt expr (valid_not valid)
  | isNull expr => exact columns_lt expr (valid_isNull valid)
  | isNotNull expr => exact columns_lt expr (valid_isNotNull valid)
  | cast expr _ _ => exact columns_lt expr (valid_cast valid)
  | inSubquery expr _ _ => exact valid.parts.elim
  | compare left _ right _ =>
    obtain ⟨first, second⟩ := valid_compare valid
    refine List.forall_mem_append.mpr ⟨columns_lt left first, ?_⟩
    obtain second | ⟨_, rfl⟩ := second
    · exact columns_lt right second
    · exact nofun
  | arithmetic _ left right _ =>
    obtain ⟨first, second⟩ := valid_arithmetic valid
    exact List.forall_mem_append.mpr ⟨columns_lt left first, columns_lt right second⟩
  | boolAnd parts => exact columnsOfList_lt parts (valid_boolAnd valid)
  | boolOr parts => exact columnsOfList_lt parts (valid_boolOr valid)
  | functionCall _ args => exact columnsOfList_lt args valid.parts
  | inList expr list _ =>
    obtain ⟨operand, items⟩ := valid_inList valid
    exact List.forall_mem_append.mpr ⟨columns_lt expr operand, columnsOfList_lt list items⟩
  | case operand branches elseExpr =>
    obtain ⟨rfl, first, second⟩ := valid.parts
    exact List.forall_mem_append.mpr ⟨List.forall_mem_append.mpr ⟨nofun,
      columnsOfBranches_lt branches first⟩, columnsOfOption_lt elseExpr second⟩

theorem columnsOfList_lt (exprs : List LocalExpr) (valid : ∀ expr ∈ exprs, Valid host schema expr) :
    ∀ id ∈ ScalarExpr.columnsOfList exprs, id < schema.fields.length := by
  cases exprs with
  | nil => exact nofun
  | cons expr rest =>
    obtain ⟨first, others⟩ := List.forall_mem_cons.mp valid
    exact List.forall_mem_append.mpr ⟨columns_lt expr first, columnsOfList_lt rest others⟩

theorem columnsOfOption_lt (expr : Option LocalExpr) (valid : ∀ held ∈ expr, Valid host schema held) :
    ∀ id ∈ ScalarExpr.columnsOfOption expr, id < schema.fields.length := by
  cases expr with
  | none => exact nofun
  | some expr => exact columns_lt expr (valid expr rfl)

theorem columnsOfBranches_lt (branches : List (LocalExpr × LocalExpr))
    (valid : ∀ branch ∈ branches, Valid host schema branch.1 ∧ Valid host schema branch.2) :
    ∀ id ∈ ScalarExpr.columnsOfBranches branches, id < schema.fields.length := by
  cases branches with
  | nil => exact nofun
  | cons branch rest =>
    obtain ⟨condition, value⟩ := branch
    obtain ⟨⟨first, second⟩, others⟩ := List.forall_mem_cons.mp valid
    exact List.forall_mem_append.mpr ⟨List.forall_mem_append.mpr ⟨columns_lt condition first,
      columns_lt value second⟩, columnsOfBranches_lt rest others⟩
end

end Valid
end AsapPlanner.Expressions
