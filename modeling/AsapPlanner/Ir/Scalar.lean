import AsapPlanner.Traversal.Walk
import AsapPlanner.Ir.Schema

/-!
Scalar expressions: computed inside the operator that owns them, over that operator's input
columns. The plan-reading variants are the only ones that refer to other operators.
-/

namespace AsapPlanner.Ir
open Rust Ordered Traversal

/-! ### Literals -/

/-- A typed scalar constant. -/
inductive ScalarValue
  | int64 (value : Int)
  | float64 (value : F64)
  | utf8 (value : String)
  | boolean (value : Bool)
  | null
  | interval (months days nanos : Int)
deriving DecidableEq, Repr

instance : Derived ScalarValue := ⟨fun value => match value with
  | .int64 value => .variant "Int64" [datum value]
  | .float64 value => .variant "Float64" [datum value]
  | .utf8 value => .variant "Utf8" [datum value]
  | .boolean value => .variant "Boolean" [datum value]
  | .null => .variant "Null" []
  | .interval months days nanos =>
    .record "Interval" [("months", datum months), ("days", datum days), ("nanos", datum nanos)]⟩

/-- A name-based column reference. -/
inductive ColumnRef
  | named (name : String)
  | qualified (table name : String)
  | sampleValue
  | wildcard
deriving DecidableEq, Repr

instance : Derived ColumnRef := ⟨fun ref => match ref with
  | .named name => .variant "Named" [datum name]
  | .qualified table name => .record "Qualified" [("table", datum table), ("name", datum name)]
  | .sampleValue => .variant "SampleValue" []
  | .wildcard => .variant "Wildcard" []⟩

inductive CompareOpKind
  | eq | ne | lt | le | gt | ge | like | notLike | iLike | notILike | regex | notRegex
deriving DecidableEq, Repr

def CompareOpKind.name : CompareOpKind → String
  | eq => "Eq" | ne => "Ne" | lt => "Lt" | le => "Le" | gt => "Gt" | ge => "Ge"
  | like => "Like" | notLike => "NotLike" | iLike => "ILike" | notILike => "NotILike"
  | regex => "Regex" | notRegex => "NotRegex"

instance : Derived CompareOpKind := ⟨fun op => .variant op.name []⟩

inductive ArithmeticOpKind
  | add | sub | mul | div | mod | pow | atan2
deriving DecidableEq, Repr

def ArithmeticOpKind.name : ArithmeticOpKind → String
  | add => "Add" | sub => "Sub" | mul => "Mul" | div => "Div" | mod => "Mod" | pow => "Pow"
  | atan2 => "Atan2"

instance : Derived ArithmeticOpKind := ⟨fun op => .variant op.name []⟩

inductive ExprSemantics
  | sql | promql
deriving DecidableEq, Repr

def ExprSemantics.name : ExprSemantics → String
  | sql => "Sql" | promql => "Promql"

instance : Derived ExprSemantics := ⟨fun semantics => .variant semantics.name []⟩

/-! ### Expressions -/

/-- A scalar expression over its owner's input; `C` is how it refers to operators. -/
inductive ScalarExpr (C : Type)
  | column (id : ColumnId)
  | literal (value : ScalarValue)
  | negative (expr : ScalarExpr C) (semantics : ExprSemantics)
  | compare (left : ScalarExpr C) (op : CompareOpKind) (right : ScalarExpr C)
      (semantics : ExprSemantics)
  | boolAnd (parts : List (ScalarExpr C))
  | boolOr (parts : List (ScalarExpr C))
  | not (expr : ScalarExpr C)
  | isNull (expr : ScalarExpr C)
  | isNotNull (expr : ScalarExpr C)
  | cast (expr : ScalarExpr C) (target : DataType) (tryCast : Bool)
  | inList (expr : ScalarExpr C) (list : List (ScalarExpr C)) (negated : Bool)
  | functionCall (name : String) (args : List (ScalarExpr C))
  | arithmetic (op : ArithmeticOpKind) (left right : ScalarExpr C) (semantics : ExprSemantics)
  | case (operand : Option (ScalarExpr C)) (branches : List (ScalarExpr C × ScalarExpr C))
      (elseExpr : Option (ScalarExpr C))
  | currentTimestamp
  | evalTimestamp
  | promqlScalarFromVector (node : C)
  | scalarSubquery (node : C)
  | exists (subquery : C) (negated : Bool)
  | inSubquery (expr : ScalarExpr C) (subquery : C) (negated : Bool)

namespace ScalarExpr
variable {C D E : Type}

/-- The elements of a conjunction; any other expression alone. -/
def conjuncts : ScalarExpr C → List (ScalarExpr C)
  | boolAnd parts => parts
  | expr => [expr]

mutual
/-- The operator references of an expression in the order a rebuild visits them. -/
def walk : ScalarExpr C → Walk C ScalarExpr
  | column id => .const (column id)
  | literal value => .const (literal value)
  | currentTimestamp => .const currentTimestamp
  | evalTimestamp => .const evalTimestamp
  | promqlScalarFromVector node => .map promqlScalarFromVector (.one node)
  | scalarSubquery node => .map scalarSubquery (.one node)
  | .exists subquery negated => .map (.exists · negated) (.one subquery)
  | inSubquery expr subquery negated =>
    .map2 (inSubquery · · negated) expr.walk (.one subquery)
  | negative expr semantics => .map (negative · semantics) expr.walk
  | compare left op right semantics =>
    .map2 (compare · op · semantics) left.walk right.walk
  | boolAnd parts => .map boolAnd (walkList parts)
  | boolOr parts => .map boolOr (walkList parts)
  | not expr => .map not expr.walk
  | isNull expr => .map isNull expr.walk
  | isNotNull expr => .map isNotNull expr.walk
  | cast expr target tryCast => .map (cast · target tryCast) expr.walk
  | inList expr list negated => .map2 (inList · · negated) expr.walk (walkList list)
  | functionCall name args => .map (functionCall name) (walkList args)
  | arithmetic op left right semantics =>
    .map2 (arithmetic op · · semantics) left.walk right.walk
  | case operand branches elseExpr =>
    .map3 case (walkOption operand) (walkBranches branches) (walkOption elseExpr)

def walkList : List (ScalarExpr C) → Walk C (fun D => List (ScalarExpr D))
  | [] => .const []
  | expr :: rest => .map2 List.cons expr.walk (walkList rest)

def walkOption : Option (ScalarExpr C) → Walk C (fun D => Option (ScalarExpr D))
  | none => .const none
  | some expr => .map some expr.walk

def walkBranches : List (ScalarExpr C × ScalarExpr C) →
    Walk C (fun D => List (ScalarExpr D × ScalarExpr D))
  | [] => .const []
  | (when, value) :: rest =>
    .map3 (fun when value rest => (when, value) :: rest) when.walk value.walk (walkBranches rest)
end

mutual
/-- The operators an expression reads: its own, then those of its parts. -/
def operatorRefs : ScalarExpr C → List C
  | column _ | literal _ | currentTimestamp | evalTimestamp => []
  | promqlScalarFromVector node | scalarSubquery node => [node]
  | .exists subquery _ => [subquery]
  | inSubquery expr subquery _ => subquery :: expr.operatorRefs
  | negative expr _ | not expr | isNull expr | isNotNull expr | cast expr _ _ => expr.operatorRefs
  | compare left _ right _ | arithmetic _ left right _ => left.operatorRefs ++ right.operatorRefs
  | boolAnd parts | boolOr parts | functionCall _ parts => refsOfList parts
  | inList expr list _ => expr.operatorRefs ++ refsOfList list
  | case operand branches elseExpr =>
    refsOfOption operand ++ refsOfBranches branches ++ refsOfOption elseExpr

def refsOfList : List (ScalarExpr C) → List C
  | [] => []
  | expr :: rest => expr.operatorRefs ++ refsOfList rest

def refsOfOption : Option (ScalarExpr C) → List C
  | none => []
  | some expr => expr.operatorRefs

def refsOfBranches : List (ScalarExpr C × ScalarExpr C) → List C
  | [] => []
  | (when, value) :: rest => when.operatorRefs ++ value.operatorRefs ++ refsOfBranches rest
end

mutual
/-- The input columns an expression reads. -/
def columnsReferenced : ScalarExpr C → List ColumnId
  | column id => [id]
  | literal _ | currentTimestamp | evalTimestamp | promqlScalarFromVector _ | scalarSubquery _
  | .exists .. => []
  | negative expr _ | not expr | isNull expr | isNotNull expr | cast expr _ _
  | inSubquery expr _ _ => expr.columnsReferenced
  | compare left _ right _ | arithmetic _ left right _ =>
    left.columnsReferenced ++ right.columnsReferenced
  | boolAnd parts | boolOr parts | functionCall _ parts => columnsOfList parts
  | inList expr list _ => expr.columnsReferenced ++ columnsOfList list
  | case operand branches elseExpr =>
    columnsOfOption operand ++ columnsOfBranches branches ++ columnsOfOption elseExpr

def columnsOfList : List (ScalarExpr C) → List ColumnId
  | [] => []
  | expr :: rest => expr.columnsReferenced ++ columnsOfList rest

def columnsOfOption : Option (ScalarExpr C) → List ColumnId
  | none => []
  | some expr => expr.columnsReferenced

def columnsOfBranches : List (ScalarExpr C × ScalarExpr C) → List ColumnId
  | [] => []
  | (when, value) :: rest =>
    when.columnsReferenced ++ value.columnsReferenced ++ columnsOfBranches rest
end

mutual
/-- Every column replaced by its image. -/
def mapColumns (f : ColumnId → ColumnId) : ScalarExpr C → ScalarExpr C
  | column id => column (f id)
  | negative expr semantics => negative (expr.mapColumns f) semantics
  | compare left op right semantics =>
    compare (left.mapColumns f) op (right.mapColumns f) semantics
  | boolAnd parts => boolAnd (mapColumnsOfList f parts)
  | boolOr parts => boolOr (mapColumnsOfList f parts)
  | not expr => not (expr.mapColumns f)
  | isNull expr => isNull (expr.mapColumns f)
  | isNotNull expr => isNotNull (expr.mapColumns f)
  | cast expr target tryCast => cast (expr.mapColumns f) target tryCast
  | inList expr list negated => inList (expr.mapColumns f) (mapColumnsOfList f list) negated
  | functionCall name args => functionCall name (mapColumnsOfList f args)
  | arithmetic op left right semantics =>
    arithmetic op (left.mapColumns f) (right.mapColumns f) semantics
  | case operand branches elseExpr =>
    case (mapColumnsOfOption f operand) (mapColumnsOfBranches f branches)
      (mapColumnsOfOption f elseExpr)
  | inSubquery expr subquery negated => inSubquery (expr.mapColumns f) subquery negated
  | expr => expr

def mapColumnsOfList (f : ColumnId → ColumnId) : List (ScalarExpr C) → List (ScalarExpr C)
  | [] => []
  | expr :: rest => expr.mapColumns f :: mapColumnsOfList f rest

def mapColumnsOfOption (f : ColumnId → ColumnId) : Option (ScalarExpr C) → Option (ScalarExpr C)
  | none => none
  | some expr => some (expr.mapColumns f)

def mapColumnsOfBranches (f : ColumnId → ColumnId) :
    List (ScalarExpr C × ScalarExpr C) → List (ScalarExpr C × ScalarExpr C)
  | [] => []
  | (when, value) :: rest =>
    (when.mapColumns f, value.mapColumns f) :: mapColumnsOfBranches f rest
end

mutual
def toDatum (child : C → Datum) : ScalarExpr C → Datum
  | column id => .variant "Column" [datum id]
  | literal value => .variant "Literal" [datum value]
  | negative expr semantics =>
    .record "Negative" [("expr", expr.toDatum child), ("semantics", datum semantics)]
  | compare left op right semantics =>
    .record "Compare" [("left", left.toDatum child), ("op", datum op),
      ("right", right.toDatum child), ("semantics", datum semantics)]
  | boolAnd parts => .variant "BoolAnd" [.node (.list "") (datumList child parts)]
  | boolOr parts => .variant "BoolOr" [.node (.list "") (datumList child parts)]
  | not expr => .variant "Not" [expr.toDatum child]
  | isNull expr => .variant "IsNull" [expr.toDatum child]
  | isNotNull expr => .variant "IsNotNull" [expr.toDatum child]
  | cast expr target tryCast =>
    .record "Cast" [("expr", expr.toDatum child), ("to", datum target), ("try_cast", datum tryCast)]
  | inList expr list negated =>
    .record "InList" [("expr", expr.toDatum child),
      ("list", .node (.list "") (datumList child list)), ("negated", datum negated)]
  | functionCall name args =>
    .record "FunctionCall" [("name", datum name), ("args", .node (.list "") (datumList child args))]
  | arithmetic op left right semantics =>
    .record "Arithmetic" [("op", datum op), ("left", left.toDatum child),
      ("right", right.toDatum child), ("semantics", datum semantics)]
  | case operand branches elseExpr =>
    .record "Case" [("operand", datumOption child operand),
      ("branches", .node (.list "") (datumBranches child branches)),
      ("else_expr", datumOption child elseExpr)]
  | currentTimestamp => .variant "CurrentTimestamp" []
  | evalTimestamp => .variant "EvalTimestamp" []
  | promqlScalarFromVector node => .variant "PromqlScalarFromVector" [child node]
  | scalarSubquery node => .variant "ScalarSubquery" [child node]
  | .exists subquery negated =>
    .record "Exists" [("subquery", child subquery), ("negated", datum negated)]
  | inSubquery expr subquery negated =>
    .record "InSubquery" [("expr", expr.toDatum child), ("subquery", child subquery),
      ("negated", datum negated)]

def datumList (child : C → Datum) : List (ScalarExpr C) → List Datum
  | [] => []
  | expr :: rest => expr.toDatum child :: datumList child rest

def datumOption (child : C → Datum) : Option (ScalarExpr C) → Datum
  | none => .variant "None" []
  | some expr => .variant "Some" [expr.toDatum child]

def datumBranches (child : C → Datum) : List (ScalarExpr C × ScalarExpr C) → List Datum
  | [] => []
  | (when, value) :: rest =>
    .node .tuple [when.toDatum child, value.toDatum child] :: datumBranches child rest
end

instance [Derived C] : Derived (ScalarExpr C) := ⟨toDatum datum⟩

/-! ### Expressions over other references -/

mutual
theorem refs_walk_perm (expr : ScalarExpr C) : expr.walk.refs.Perm expr.operatorRefs := by
  cases expr with
  | column _ | literal _ | currentTimestamp | evalTimestamp | promqlScalarFromVector _
  | scalarSubquery _ | «exists» _ _ => exact .refl _
  | negative expr _ | not expr | isNull expr | isNotNull expr | cast expr _ _ =>
    exact refs_walk_perm expr
  | boolAnd parts | boolOr parts | functionCall _ parts => exact refs_walkList_perm parts
  | inSubquery expr subquery _ =>
    exact ((refs_walk_perm expr).append_right [subquery]).trans (List.perm_append_singleton _ _)
  | compare left _ right _ | arithmetic _ left right _ =>
    exact (refs_walk_perm left).append (refs_walk_perm right)
  | inList expr list _ => exact (refs_walk_perm expr).append (refs_walkList_perm list)
  | case operand branches elseExpr =>
    simp only [walk, operatorRefs, Walk.refs_map3, List.append_assoc]
    exact (refs_walkOption_perm operand).append
      ((refs_walkBranches_perm branches).append (refs_walkOption_perm elseExpr))

theorem refs_walkList_perm (exprs : List (ScalarExpr C)) :
    (walkList exprs).refs.Perm (refsOfList exprs) := by
  cases exprs with
  | nil => exact .refl _
  | cons expr rest => exact (refs_walk_perm expr).append (refs_walkList_perm rest)

theorem refs_walkOption_perm (expr : Option (ScalarExpr C)) :
    (walkOption expr).refs.Perm (refsOfOption expr) := by
  cases expr with
  | none => exact .refl _
  | some expr => exact refs_walk_perm expr

theorem refs_walkBranches_perm (branches : List (ScalarExpr C × ScalarExpr C)) :
    (walkBranches branches).refs.Perm (refsOfBranches branches) := by
  match branches with
  | [] => exact .refl _
  | (when, value) :: rest =>
    simp only [walkBranches, refsOfBranches, Walk.refs_map3, List.append_assoc]
    exact (refs_walk_perm when).append
      ((refs_walk_perm value).append (refs_walkBranches_perm rest))
end

theorem mem_refs_walk {c : C} (expr : ScalarExpr C) :
    c ∈ expr.walk.refs ↔ c ∈ expr.operatorRefs :=
  expr.refs_walk_perm.mem_iff

section Image
variable [Inhabited D] [Inhabited E] (f : C → D) (g : D → E)

mutual
theorem operatorRefs_image (expr : ScalarExpr C) :
    (expr.walk.image f).operatorRefs = expr.operatorRefs.map f := by
  cases expr <;> simp [walk, operatorRefs, operatorRefs_image, refsOfList_image,
    refsOfOption_image, refsOfBranches_image]

theorem refsOfList_image (exprs : List (ScalarExpr C)) :
    refsOfList ((walkList exprs).image f) = (refsOfList exprs).map f := by
  cases exprs <;> simp [walkList, refsOfList, operatorRefs_image, refsOfList_image]

theorem refsOfOption_image (expr : Option (ScalarExpr C)) :
    refsOfOption ((walkOption expr).image f) = (refsOfOption expr).map f := by
  cases expr <;> simp [walkOption, refsOfOption, operatorRefs_image]

theorem refsOfBranches_image (branches : List (ScalarExpr C × ScalarExpr C)) :
    refsOfBranches ((walkBranches branches).image f) = (refsOfBranches branches).map f := by
  match branches with
  | [] => simp [walkBranches, refsOfBranches]
  | (when, value) :: rest =>
    simp [walkBranches, refsOfBranches, operatorRefs_image, refsOfBranches_image]
end

mutual
theorem image_image (expr : ScalarExpr C) :
    (expr.walk.image f).walk.image g = expr.walk.image (g ∘ f) := by
  cases expr <;> simp [walk, image_image, imageList_image, imageOption_image, imageBranches_image]

theorem imageList_image (exprs : List (ScalarExpr C)) :
    (walkList ((walkList exprs).image f)).image g = (walkList exprs).image (g ∘ f) := by
  cases exprs <;> simp [walkList, image_image, imageList_image]

theorem imageOption_image (expr : Option (ScalarExpr C)) :
    (walkOption ((walkOption expr).image f)).image g = (walkOption expr).image (g ∘ f) := by
  cases expr <;> simp [walkOption, image_image]

theorem imageBranches_image (branches : List (ScalarExpr C × ScalarExpr C)) :
    (walkBranches ((walkBranches branches).image f)).image g =
      (walkBranches branches).image (g ∘ f) := by
  match branches with
  | [] => simp [walkBranches]
  | (when, value) :: rest => simp [walkBranches, image_image, imageBranches_image]
end

mutual
theorem toDatum_image (child : D → Datum) (expr : ScalarExpr C) :
    (expr.walk.image f).toDatum child = expr.toDatum (child ∘ f) := by
  cases expr <;> simp [walk, toDatum, toDatum_image, datumList_image, datumOption_image,
    datumBranches_image]

theorem datumList_image (child : D → Datum) (exprs : List (ScalarExpr C)) :
    datumList child ((walkList exprs).image f) = datumList (child ∘ f) exprs := by
  cases exprs <;> simp [walkList, datumList, toDatum_image, datumList_image]

theorem datumOption_image (child : D → Datum) (expr : Option (ScalarExpr C)) :
    datumOption child ((walkOption expr).image f) = datumOption (child ∘ f) expr := by
  cases expr <;> simp [walkOption, datumOption, toDatum_image]

theorem datumBranches_image (child : D → Datum) (branches : List (ScalarExpr C × ScalarExpr C)) :
    datumBranches child ((walkBranches branches).image f) =
      datumBranches (child ∘ f) branches := by
  match branches with
  | [] => simp [walkBranches, datumBranches]
  | (when, value) :: rest => simp [walkBranches, datumBranches, toDatum_image, datumBranches_image]
end

end Image

section Built
variable [Inhabited D]

mutual
theorem lists_refs (expr : ScalarExpr C) : expr.walk.Lists fun expr : ScalarExpr D => expr.walk.refs := by
  cases expr with
  | column _ | literal _ | currentTimestamp | evalTimestamp => exact Walk.lists_const rfl
  | promqlScalarFromVector _ | scalarSubquery _ | «exists» _ _ =>
    exact (Walk.lists_one fun _ => rfl).map fun _ => rfl
  | negative expr _ | not expr | isNull expr | isNotNull expr | cast expr _ _ =>
    exact (lists_refs expr).map fun _ => rfl
  | boolAnd parts | boolOr parts | functionCall _ parts =>
    exact (lists_refsList parts).map fun _ => rfl
  | inSubquery expr subquery _ =>
    exact (lists_refs expr).map2 (Walk.lists_one fun _ => rfl) fun _ _ => rfl
  | compare left _ right _ | arithmetic _ left right _ =>
    exact (lists_refs left).map2 (lists_refs right) fun _ _ => rfl
  | inList expr list _ => exact (lists_refs expr).map2 (lists_refsList list) fun _ _ => rfl
  | case operand branches elseExpr =>
    exact (lists_refsOption operand).map3 (lists_refsBranches branches) (lists_refsOption elseExpr)
      fun _ _ _ => rfl

theorem lists_refsList (exprs : List (ScalarExpr C)) :
    (walkList exprs).Lists fun exprs : List (ScalarExpr D) => (walkList exprs).refs := by
  cases exprs with
  | nil => exact Walk.lists_const rfl
  | cons expr rest => exact (lists_refs expr).map2 (lists_refsList rest) fun _ _ => rfl

theorem lists_refsOption (expr : Option (ScalarExpr C)) :
    (walkOption expr).Lists fun expr : Option (ScalarExpr D) => (walkOption expr).refs := by
  cases expr with
  | none => exact Walk.lists_const rfl
  | some expr => exact (lists_refs expr).map fun _ => rfl

theorem lists_refsBranches (branches : List (ScalarExpr C × ScalarExpr C)) :
    (walkBranches branches).Lists
      fun branches : List (ScalarExpr D × ScalarExpr D) => (walkBranches branches).refs := by
  match branches with
  | [] => exact Walk.lists_const rfl
  | (when, value) :: rest =>
    exact (lists_refs when).map3 (lists_refs value) (lists_refsBranches rest) fun _ _ _ => rfl
end

theorem finds_refs (expr : ScalarExpr C) : expr.walk.Finds (operatorRefs (C := D)) :=
  expr.lists_refs.finds fun expr _ => expr.mem_refs_walk

end Built

end ScalarExpr

/-- A row filter. -/
structure Predicate (C : Type) where
  expr : ScalarExpr C

/-- One item of a projection. -/
structure ProjectItem (C : Type) where
  «alias» : Option String
  expr : ScalarExpr C

structure SortKey (C : Type) where
  expr : ScalarExpr C
  ascending : Bool
  nullsFirst : Bool

section
variable {C : Type}

def Predicate.walk (pred : Predicate C) : Walk C Predicate := .map Predicate.mk pred.expr.walk

def ProjectItem.walk (item : ProjectItem C) : Walk C ProjectItem :=
  .map (ProjectItem.mk item.alias) item.expr.walk

def SortKey.walk (key : SortKey C) : Walk C SortKey :=
  .map (SortKey.mk · key.ascending key.nullsFirst) key.expr.walk

instance [Derived C] : Derived (Predicate C) := ⟨fun pred => .variant "Predicate" [datum pred.expr]⟩

instance [Derived C] : Derived (ProjectItem C) := ⟨fun item =>
  .record "ProjectItem" [("alias", datum item.alias), ("expr", datum item.expr)]⟩

instance [Derived C] : Derived (SortKey C) := ⟨fun key =>
  .record "SortKey" [("expr", datum key.expr), ("ascending", datum key.ascending),
    ("nulls_first", datum key.nullsFirst)]⟩

end
end AsapPlanner.Ir
