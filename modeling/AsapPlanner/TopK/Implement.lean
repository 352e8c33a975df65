import AsapPlanner.Canonical.Meaning
import AsapPlanner.Construction.Expand

/-!
The implementation of a plan whose top-k aggregates become the limit of a sort per group, under a
projection that restores their columns.
-/

namespace AsapPlanner.TopK
open Rust Ir Construction Canonical Traversal

inductive PhysicalASAPOptimizationError
  | structural (error : SchemaDerivationError)
  | exactTopK (why : String)
deriving DecidableEq, Repr

/-- The nodes so far, and the implementation of each node that has one. -/
structure Implementing where
  dag : Dag
  cache : Cache NodeRef NodeRef

abbrev Implement := StateT Implementing (Except (Stop PhysicalASAPOptimizationError))

def panicking {α : Type} : Implement α := fun _ => .error .panic

def unsupported {α : Type} (why : String) : Implement α := fun _ => .error (.error (.exactTopK why))

def checked {α : Type} (wrap : SchemaDerivationError → PhysicalASAPOptimizationError) (result : Checked α) :
    Implement α :=
  fun state => match result with
    | .ok value => .ok (value, state)
    | .error error => .error (.error (wrap error))

/-- The text of a column that cannot be resolved, without what a scalar signature puts before it. -/
def resolveText : SchemaDerivationError → String
  | .invalidScalarSignature message => message
  | error => error.message

section
variable (d : Derivation)

def build (op : NonASAPOp NodeRef) (guarantee : Option AccuracyGuarantee) : Implement NodeRef :=
  fun state => match outputSchema d state.dag (.nonASAP op) with
    | .ok schema =>
      let (ref, dag) := state.dag.alloc { state.dag.withSchema (.nonASAP op) schema with guarantee }
      .ok (ref, { state with dag })
    | .error error => .error (.error (.structural error))

def rankedRows (node : OperatorNode) (keys : GroupKeys) (k : Nat) (child : NodeRef) : Implement NodeRef := do
  let dag := (← get).dag
  let value ← checked (fun error => .exactTopK ("no ranked column: " ++ resolveText error))
    (rankedColumn d dag child)
  let sorted ← build d (.sort [⟨.column value, false, false⟩] keys child) (dag.node child).guarantee
  let limited ← build d (.limit (some k) 0 keys sorted) node.guarantee
  match node.schema.fields[keys.keys.length]? with
  | none => panicking
  | some field =>
    let cols ← checked (fun error => .exactTopK ("ranked rows: " ++ error.message))
      (rankedRowProjection d dag child (.reduce keys) field.name)
    build d (.project cols none limited) node.guarantee

/-- `implement_topk`. -/
def implementTopk (node : OperatorNode) : Implement NodeRef :=
  match node.operator with
  | .nonASAP (.aggregate (.reduce keys) [.topK k _] _ filters having child) =>
    if filters.any Option.isSome then unsupported "filtered measure"
    else if having.isSome then unsupported "HAVING"
    else do
      match (← get).cache child with
      | some child => rankedRows d node keys k child
      | none => panicking
  | .nonASAP (.aggregate (.reduce _) ..) => unsupported "measures besides the top-k"
  | .nonASAP (.aggregate .perEntity ..) => unsupported "per-entity reduction"
  | _ => panicking

def retainNames (previous retained rebuilt : Schema) : Checked Schema :=
  let overrides := (previous.fields.zip retained.fields).any fun (derived, kept) =>
    kept.name ≠ derived.name || kept.table ≠ derived.table
  if overrides && rebuilt.fields.length ≠ previous.fields.length then
    .error (.invalidScalarSignature
      "output arity changed; reassign explicit output names and qualifiers")
  else .ok { rebuilt with fields := rebuilt.fields.zipIdx.map fun (field, i) =>
    match previous.fields[i]?, retained.fields[i]? with
    | some derived, some kept =>
      { field with
        name := if kept.name ≠ derived.name then kept.name else field.name
        table := if kept.table ≠ derived.table then kept.table else field.table }
    | _, _ => field }

def rebuilt (ref : NodeRef) : Implement NodeRef := do
  let state ← get
  let node := state.dag.node ref
  -- Every child has been implemented before.
  let image (child : NodeRef) : NodeRef := (state.cache child).getD child
  if node.children.all fun child => child = image child then pure ref
  else
    let operator := node.operator.mapChildren image
    let schema ← checked .structural do
      let previous ← outputSchema d state.dag node.operator
      let schema ← outputSchema d state.dag operator
      retainNames previous node.schema schema
    fun state =>
      let (ref, dag) := state.dag.alloc { state.dag.withSchema operator schema with guarantee := node.guarantee }
      .ok (ref, { state with dag })

def isTopK : AggIntent → Bool
  | .topK _ _ => true
  | _ => false

def hasTopK (node : OperatorNode) : Bool :=
  match node.operator with
  | .nonASAP (.aggregate _ measures _ _ _ _) => measures.any isTopK
  | _ => false

def implementNode (input : Dag) (ref : NodeRef) : Implement NodeRef :=
  if hasTopK (input.node ref) then implementTopk d (input.node ref) else rebuilt d ref

/-- `implement`: each node once, its children before it. -/
def implement (input : Dag) (ref : NodeRef) : Implement NodeRef := do
  match (← get).cache ref with
  | some done => pure done
  | none =>
    let _ ← (input.children ref).mapM fun child =>
      if _below : child < ref then implement input child else pure child
    let implemented ← implementNode d input ref
    modify fun state => { state with cache := state.cache.insert ref implemented }
    pure implemented
termination_by ref

end
end AsapPlanner.TopK
