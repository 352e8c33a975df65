import AsapPlanner.Timing.Validate
import AsapPlanner.Timing.Rebuild

/-!
Timing the roots of a workload. One cache is shared by all roots; each root is written, then every edge
below it is validated. In a timed store no consumer reads data that no longer exists. Occurrences: the
places a node has when sharing is ignored. An occurrence is named by a root and a path of child
positions below it, and each one has its own consumer.
-/

namespace AsapPlanner.Timing
open Rust Traversal Ir

/-! ### Roots -/

/-- A root of a workload: an operator, or a scalar that reads operators. -/
inductive QueryRoot
  | operator (node : NodeRef)
  | scalar (expr : ScalarExpr NodeRef)

def QueryRoot.refs : QueryRoot → List NodeRef
  | operator node => [node]
  | scalar expr => expr.operatorRefs

def isMatAtIngestion : Materialization → Bool
  | .matAtIngestion _ => true
  | _ => false

section Apply
variable (text : LeafText) (assignment : MaterializationAssignment) (input : Dag)

/-- A root of rows that runs at ingestion time is stored there; every edge below it is valid. -/
def checkRoot (dag : Dag) (timed : NodeRef) : Check :=
  let node := dag.node timed
  if node.timing = some .ingestionTime ∧ isMatAtIngestion node.materialization = false
      ∧ (dataState dag timed).map (·.primitive) = some .raw then
    .error (.unstoredIngestionRoot node.operator.kindName)
  else (validate text dag timed Cache.empty).map fun _ => ()

/-- Write the timings of the sub-DAG at `root`, then validate every edge. -/
def applyMaterializationTimings (root : NodeRef) : PassM NodeRef := do
  modify fun pass => { pass with forced := Cache.empty }
  let timed ← write assignment input root .queryTime
  let pass ← get
  StateT.lift (checkRoot text pass.dag timed)
  pure timed

def applyToRoot : QueryRoot → PassM QueryRoot
  | .operator node => do
    let timed ← applyMaterializationTimings text assignment input node
    pure (.operator timed)
  | .scalar expr => do
    let _ ← expr.operatorRefs.mapM (applyMaterializationTimings text assignment input)
    let pass ← get
    -- Every reference was just timed, so `.expect` finds it.
    pure (.scalar (expr.walk.image fun node => (pass.timedNodeOf node).getD 0))

/-- Nothing timed yet. -/
def Pass.start : Pass := { dag := input, timedNodeOf := Cache.empty, forced := Cache.empty }

def applyMaterializationTimingsToRoots (roots : List QueryRoot) :
    Except ExecutionDataStateError (List QueryRoot × Pass) :=
  roots.mapM (applyToRoot text assignment input) (Pass.start input)

end Apply

/-! ### Successful passes -/

section Run
variable {text : LeafText} {assignment : MaterializationAssignment} {input : Dag} {pass later : Pass}

theorem inv_start : Inv assignment input (Pass.start input) where
  grown := Dag.Extends.refl input
  sound := Cache.sound_empty _
  written source timed recorded := by cases recorded

/-- Every node below `timed` meets the edge rules. -/
def Valid (text : LeafText) (pass : Pass) (timed : NodeRef) : Prop :=
  ∀ ref, pass.dag.Reaches timed ref → validateNode text pass.dag ref = .ok ()

theorem checkRoot_ok {dag : Dag} {timed ref : NodeRef} (fine : checkRoot text dag timed = .ok ())
    (reached : dag.Reaches timed ref) : validateNode text dag ref = .ok () := by
  unfold checkRoot at fine
  dsimp only at fine
  split at fine
  · cases fine
  · cases checks : validate text dag timed Cache.empty with
    | error e =>
      rw [checks] at fine
      cases fine
    | ok result => exact validate_ok checks reached

theorem apply_ok {root timed : NodeRef} (kept : Inv assignment input pass)
    (run : applyMaterializationTimings text assignment input root pass = .ok (timed, later)) :
    Inv assignment input later ∧ Grown pass later ∧
      PlacedUnder assignment input later root .queryTime timed ∧ Valid text later timed := by
  unfold applyMaterializationTimings at run
  obtain ⟨_, cleared, clear, run⟩ := bind_ok run
  cases clear
  have grownCleared : Grown pass { pass with forced := Cache.empty } :=
    ⟨Dag.Extends.refl _, fun _ _ recorded => recorded⟩
  have keptCleared : Inv assignment input { pass with forced := Cache.empty } :=
    ⟨kept.grown, Cache.sound_empty _, fun source timed recorded =>
      (kept.written source timed recorded).grow grownCleared⟩
  obtain ⟨written, after, writes, run⟩ := bind_ok run
  obtain ⟨keptAfter, grown, placed⟩ := write_ok root keptCleared writes
  obtain ⟨seen, state, read, run⟩ := bind_ok run
  cases read
  obtain ⟨_, state, check, run⟩ := bind_ok run
  obtain ⟨fine, rfl⟩ := lift_ok check
  obtain ⟨rfl, rfl⟩ := pure_ok run
  exact ⟨keptAfter, grownCleared.trans grown.toGrown, placed, fun ref reached =>
    checkRoot_ok fine reached⟩

end Run

/-! ### Occurrences -/

/-- The node at a path below `ref`. -/
def nodeAt (dag : Dag) : NodeRef → List Nat → Option NodeRef
  | ref, [] => some ref
  | ref, position :: path => (dag.children ref)[position]?.bind fun child => nodeAt dag child path

/-- The node at a path below `ref`, with the timing of its consumer there. -/
def occurrence (assignment : MaterializationAssignment) (dag : Dag) :
    NodeRef → ExecutionTiming → List Nat → Option (NodeRef × ExecutionTiming)
  | ref, consumer, [] => some (ref, consumer)
  | ref, consumer, position :: path =>
    let timing := timingOf assignment dag ref consumer
    (dag.children ref)[position]?.bind fun child => occurrence assignment dag child timing path

def rootAt (dag : Dag) (roots : List NodeRef) (root : Nat) (path : List Nat) : Option NodeRef :=
  roots[root]?.bind fun ref => nodeAt dag ref path

/-- The node at a path below one of the roots, with the timing of its consumer there: a root's consumer
is the query. -/
def occurrenceAt (assignment : MaterializationAssignment) (dag : Dag) (roots : List NodeRef) (root : Nat)
    (path : List Nat) : Option (NodeRef × ExecutionTiming) :=
  roots[root]?.bind fun ref => occurrence assignment dag ref .queryTime path

/-! ### Occurrences of copies -/

section Copies
variable {assignment' assignment : MaterializationAssignment} {later dag : Dag}
  {copies : NodeRef → NodeRef → Prop} {copy ref : NodeRef} {consumer : ExecutionTiming}

theorem children_copies (rel : Copies later dag copies) (copied : copies copy ref) (position : Nat) :
    ((later.children copy)[position]? = none ∧ (dag.children ref)[position]? = none) ∨
      ∃ child' child, (later.children copy)[position]? = some child' ∧
        (dag.children ref)[position]? = some child ∧ copies child' child := by
  obtain ⟨image, operator, below⟩ := operator_copies rel copied
  have mapped : later.children copy = (dag.children ref).map image := by
    unfold Dag.children OperatorNode.children
    rw [operator, Operator.children_mapChildren]
  rw [mapped, List.getElem?_map]
  cases found : (dag.children ref)[position]? with
  | none => exact .inl ⟨rfl, rfl⟩
  | some child =>
    exact .inr ⟨image child, child, rfl, rfl, below child (List.mem_of_getElem? found)⟩

theorem timingOf_copies (rel : Copies later dag copies) (keeps : Keeps assignment' assignment copies)
    (copied : copies copy ref) :
    timingOf assignment' later copy consumer = timingOf assignment dag ref consumer := by
  unfold timingOf
  rw [placed_copies rel keeps copied]

theorem occurrence_copies (rel : Copies later dag copies) (keeps : Keeps assignment' assignment copies)
    (copied : copies copy ref) (path : List Nat) :
    (occurrence assignment' later copy consumer path = none ∧
        occurrence assignment dag ref consumer path = none) ∨
      ∃ found' found timing, occurrence assignment' later copy consumer path = some (found', timing) ∧
        occurrence assignment dag ref consumer path = some (found, timing) ∧ copies found' found := by
  induction path generalizing copy ref consumer with
  | nil => exact .inr ⟨copy, ref, consumer, rfl, rfl, copied⟩
  | cons position path ih =>
    unfold occurrence
    rcases children_copies rel copied position with ⟨none', none⟩ | ⟨child', child, at', here, below⟩
    · rw [none', none]
      exact .inl ⟨rfl, rfl⟩
    · rw [at', here, timingOf_copies rel keeps copied]
      exact ih below

theorem nodeAt_occurrence (path : List Nat) : nodeAt dag ref path =
    (occurrence assignment dag ref consumer path).map Prod.fst := by
  induction path generalizing ref consumer with
  | nil => rfl
  | cons position path ih =>
    unfold nodeAt occurrence
    cases (dag.children ref)[position]? with
    | none => rfl
    | some child => exact ih

end Copies

/-! ### Occurrences of a split -/

section Splits
variable {assignment : MaterializationAssignment} {input : Dag} {roots : List NodeRef}
  {split : SplitRoots} {copies : NodeRef → ExecutionTiming → NodeRef → Prop}
  (splits : Splits assignment input roots split copies)
include splits

theorem Splits.covers : Copies split.dag input fun out ref => ∃ timing, copies ref timing out where
  grown := splits.grown
  inside copied := by
    obtain ⟨_, here⟩ := copied
    exact splits.original here
  node copied := by
    obtain ⟨_, here⟩ := copied
    obtain ⟨image, node, below⟩ := splits.node here
    exact ⟨image, node, fun child reads => ⟨_, below child reads⟩⟩

theorem Splits.keeps : Keeps split.assignment assignment fun out ref => ∃ timing, copies ref timing out where
  get copied := by
    obtain ⟨_, here⟩ := copied
    exact splits.get here
  unassigned := splits.unassigned

theorem Splits.timingOf {ref out : NodeRef} {timing consumer : ExecutionTiming}
    (copied : copies ref timing out) :
    timingOf split.assignment split.dag out consumer = timingOf assignment input ref consumer :=
  timingOf_copies splits.covers splits.keeps ⟨timing, copied⟩

theorem Splits.children {ref out : NodeRef} {timing : ExecutionTiming} (copied : copies ref timing out) :
    ∃ image, split.dag.children out = (input.children ref).map image ∧
      ∀ child ∈ input.children ref, copies child (Timing.timingOf assignment input child timing) (image child) := by
  obtain ⟨image, node, below⟩ := splits.node copied
  refine ⟨image, ?_, below⟩
  unfold Dag.children
  rw [node]
  exact Operator.children_mapChildren image _

theorem Splits.occurrence {ref out : NodeRef} {consumer : ExecutionTiming}
    (copied : copies ref (Timing.timingOf assignment input ref consumer) out) (path : List Nat) :
    (occurrence split.assignment split.dag out consumer path = none ∧
        occurrence assignment input ref consumer path = none) ∨
      ∃ found' found timing,
        occurrence split.assignment split.dag out consumer path = some (found', timing) ∧
        occurrence assignment input ref consumer path = some (found, timing) ∧
        copies found (Timing.timingOf assignment input found timing) found' := by
  induction path generalizing ref out consumer with
  | nil => exact .inr ⟨out, ref, consumer, rfl, rfl, copied⟩
  | cons position path ih =>
    obtain ⟨image, mapped, below⟩ := splits.children copied
    unfold Timing.occurrence
    rw [mapped, List.getElem?_map, splits.timingOf copied]
    cases found : (input.children ref)[position]? with
    | none => exact .inl ⟨rfl, rfl⟩
    | some child => exact ih (below child (List.mem_of_getElem? found))

end Splits
end AsapPlanner.Timing
