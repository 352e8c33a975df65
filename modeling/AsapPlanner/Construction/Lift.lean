import AsapPlanner.Construction.OutputSchema
import Mathlib.Algebra.Group.Nat.Defs

/-!
The coverage of one summary build: what can be lifted out of the nodes it reads becomes the selection,
and the definition is what is left.
-/

namespace AsapPlanner.Construction
open Rust Traversal Ir Coverage

/-- `i64` arithmetic and `as i64` casts in a release build. -/
def wrap (value : Int) : Int := value.bmod (2 ^ 64)

abbrev Lifted := Std.TreeMap ColumnId Constraint

/-! ### What is lifted -/

section Residue
variable (dag : Dag)

/-- Whether a predicate can be lifted through a node. Outside a projection, a node that renames its
columns stays: the names would be dropped with it. -/
def passes (ref : NodeRef) : Bool :=
  let keepsSchema child := same (dag.node child).schema (dag.node ref).schema
  match (dag.node ref).nonAsap with
  | some (.project ..) => true
  | some (.filter _ child) => keepsSchema child
  | some (.timeRange _ kind child) => keepsSchema child && kind == .range
  | some (.timeShift shift child) => keepsSchema child && shift.at == none
  | _ => false

def liftChain (ref : NodeRef) : List NodeRef × NodeRef :=
  if passes dag ref then
    match _reads : dag.children ref with
    | child :: _ =>
      let below := liftChain child
      (ref :: below.1, below.2)
    | [] => ([], ref)
  else ([], ref)
termination_by ref
decreasing_by exact dag.child_lt (_reads ▸ List.mem_cons_self)

def isTimeRange (ref : NodeRef) : Bool :=
  match (dag.node ref).nonAsap with
  | some (.timeRange ..) => true
  | _ => false

/-- A column below the nodes `above`, as a column above them: a projection passes it on only as an item
of its own. -/
def columnAtTop (above : List NodeRef) (column : ColumnId) : Option ColumnId :=
  above.reverse.foldlM (fun column link => match (dag.node link).nonAsap with
    | some (.project cols _ _) => cols.findIdx? fun item => match item.expr with
      | .column id => id == column
      | _ => false
    | _ => some column) column

/-- The constraint a conjunct lifts to; the outer `none` is a column outside `top`. -/
def liftConjunct (top : Schema) (above : List NodeRef) (lifted : Lifted)
    (conjunct : ScalarExpr NodeRef) : Option (Option (ColumnId × Constraint)) :=
  match constraintOf conjunct with
  | none => some none
  | some (column, constraint) =>
    match columnAtTop dag above column with
    | none => some none
    | some column => do
      let field ← top.fields[column]?
      let namesakes := top.fields.filter fun other =>
        other.name == field.name && other.table == field.table
      if namesakes.length != 1 then pure none
      else match lifted[column]? with
        | some existing => pure ((existing.intersect constraint).map (column, ·))
        | none => pure (some (column, constraint))

def residualParts (top : Schema) (above : List NodeRef) :
    List (ScalarExpr NodeRef) → Lifted → Option (List (ScalarExpr NodeRef) × Lifted)
  | [], lifted => some ([], lifted)
  | conjunct :: more, lifted => do
    match ← liftConjunct dag top above lifted conjunct with
    | some (column, constraint) => residualParts top above more (lifted.insert column constraint)
    | none =>
      let (rest, lifted) ← residualParts top above more lifted
      pure (conjunct :: rest, lifted)

def residual (top : Schema) (above : List NodeRef) (pred : Predicate NodeRef) (lifted : Lifted) :
    Option (Option (Predicate NodeRef) × Lifted) := do
  let (rest, lifted) ← residualParts dag top above pred.expr.conjuncts lifted
  pure (match rest with
    | [] => none
    | [only] => some ⟨only⟩
    | rest => some ⟨.boolAnd rest⟩, lifted)

def residualLinks (top : Schema) : List NodeRef → List NodeRef → Lifted →
    Option (List (Option (Predicate NodeRef)) × Lifted)
  | _, [], lifted => some ([], lifted)
  | above, link :: chain, lifted => do
    let (kept, lifted) ← match (dag.node link).nonAsap with
      | some (.filter pred _) => residual dag top above pred lifted
      | _ => pure (none, lifted)
    let (rest, lifted) ← residualLinks top (above ++ [link]) chain lifted
    pure (kept :: rest, lifted)

def residualPredicates (top : Schema) (above : List NodeRef) : List (Predicate NodeRef) → Lifted →
    Option (List (Predicate NodeRef) × Lifted)
  | [], lifted => some ([], lifted)
  | pred :: more, lifted => do
    let (kept, lifted) ← residual dag top above pred lifted
    let (rest, lifted) ← residualPredicates top above more lifted
    pure (kept.toList ++ rest, lifted)

structure Residue where
  filter : Option (Predicate NodeRef)
  links : List (Option (Predicate NodeRef))
  scan : Option (List (Predicate NodeRef))
  lifted : Lifted

/-- The build's own filter first, then top to bottom. -/
def residueOf (top : Schema) (filter : Option (Predicate NodeRef)) (chain : List NodeRef)
    (base : NodeRef) : Option Residue := do
  let (filter, lifted) ← match filter with
    | some pred => residual dag top [] pred ∅
    | none => pure (none, ∅)
  let (links, lifted) ← residualLinks dag top [] chain lifted
  match (dag.node base).nonAsap with
  | some (.scan _ predicates _) =>
    let (kept, lifted) ← residualPredicates dag top chain predicates lifted
    pure { filter, links, scan := some kept, lifted }
  | _ => pure { filter, links, scan := none, lifted }

def samePredicates (a b : List (Predicate NodeRef)) : Bool :=
  let _ : Derived NodeRef := ⟨dag.datumOf⟩
  same a b

end Residue

/-! ### What is left -/

structure LiftedTime where
  windowMs : Int
  shiftMs : Int

def rebuild (original : NodeRef) (op : NonASAPOp NodeRef) : StateM Dag NodeRef := fun dag =>
  dag.alloc (dag.withSchema (.nonASAP op) (dag.node original).schema)

def rebuildBase (base : NodeRef) (scan : Option (List (Predicate NodeRef))) : StateM Dag NodeRef := do
  let dag ← get
  match scan, (dag.node base).nonAsap with
  | some kept, some (.scan source predicates schema) =>
    if samePredicates dag kept predicates then pure base
    else rebuild base (.scan source kept schema)
  | _, _ => pure base

/-- One link over what is left below it. A node whose input and operator are unchanged stays. -/
def rebuildLink (liftTime : Bool) (link : NodeRef) (kept : Option (Predicate NodeRef))
    (below : NodeRef × LiftedTime) : StateM Dag (NodeRef × LiftedTime) := do
  let dag ← get
  let (child, time) := below
  let unchanged := (dag.children link).head? == some child
  let onto (op : NonASAPOp NodeRef) : StateM Dag (NodeRef × LiftedTime) := do
    if unchanged then pure (link, time)
    else
      let rebuilt ← rebuild link op
      pure (rebuilt, time)
  match (dag.node link).nonAsap with
  | some (.filter pred _) => match kept with
    | none => pure below
    | some rest =>
      if samePredicates dag [rest] [pred] then onto (.filter rest child)
      else
        let rebuilt ← rebuild link (.filter rest child)
        pure (rebuilt, time)
  | some (.timeRange range kind _) =>
    if liftTime then pure (child, { time with windowMs := wrap range.asMillis })
    else onto (.timeRange range kind child)
  | some (.timeShift shift _) =>
    if liftTime then pure (child, { time with shiftMs := wrap (time.shiftMs + shift.offsetMs) })
    else onto (.timeShift shift child)
  | some (.project cols qualifier _) => onto (.project cols qualifier child)
  -- Only liftable operators are on the chain.
  | _ => pure (link, time)

def rebuildLinks (liftTime : Bool) (base : NodeRef) :
    List (NodeRef × Option (Predicate NodeRef)) → StateM Dag (NodeRef × LiftedTime)
  | [] => pure (base, { windowMs := 0, shiftMs := 0 })
  | (link, kept) :: chain => do
    let below ← rebuildLinks liftTime base chain
    rebuildLink liftTime link kept below

def columnsOf (top : Schema) (lifted : Lifted) : Columns :=
  lifted.toList.foldl (fun columns (column, constraint) => match top.fields[column]? with
    | some field => columns.insert { table := field.table, name := field.name } constraint
    | none => columns) ∅

/-- The coverage of a build; `none` is a panic. -/
def ofSummaryAgg (node : OperatorNode) : StateT Dag Option SummaryCoverage := fun dag =>
  match node.asap with
  | some (.summaryAgg child family input reduction grouping filter) => do
    let (chain, base) := liftChain dag child
    -- Time is lifted only from exactly one range window.
    let liftTime := (chain.filter (isTimeRange dag)).length == 1
    let top := (dag.node child).schema
    let residue ← residueOf dag top filter chain base
    let (rebuiltBase, dag) := rebuildBase base residue.scan dag
    let ((rebuilt, time), dag) :=
      rebuildLinks liftTime rebuiltBase (chain.zip residue.links) dag
    let (definition, dag) := dag.alloc (dag.withSchema
      (.asap (.summaryAgg rebuilt family input reduction grouping residue.filter)) node.schema)
    let box := {
      columns := columnsOf top residue.lifted
      relativeTime := if liftTime then
          some (.excluded (wrap (-wrap (time.shiftMs + time.windowMs))), .included (wrap (-time.shiftMs)))
        else none }
    pure ({ definition, selection := [box] }, dag)
  | _ => none

end AsapPlanner.Construction
