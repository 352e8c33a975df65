import AsapPlanner.Construction.Lift
import AsapPlanner.Rust.Integer
import AsapPlanner.Timing.Apply

/-!
The coverage of any summary state, and the builds a tumbling-window chain and a regrouping merge stand
for. A workload with its tumbling-window chains expanded: a merge reads each tumbling window of each
chain it read, as a plain build.
-/

namespace AsapPlanner.Construction
open Rust Traversal Ir Coverage Timing

/-- A run that returns an error, or panics at an index out of bounds. -/
inductive Stop (ε : Type)
  | error (error : ε)
  | panic
deriving DecidableEq, Repr

/-! ### Building nodes -/

abbrev Building := StateT Dag Checked

def fail {α : Type} (message : String) : Building α := StateT.lift (.error (.invalidScalarSignature message))

def share (node : OperatorNode) : Building NodeRef := fun dag => .ok (dag.alloc node)

/-- An operator that keeps its input's schema. -/
def newPassing (op : NonASAPOp NodeRef) (child : NodeRef) : Building NodeRef := do
  let dag ← get
  share (dag.withSchema (.nonASAP op) (dag.node child).schema)

/-- A summary build, as `OperatorNode::new` derives it. -/
def newBuild (text : LeafText) (child : NodeRef) (family : FieldDataType) (input : SummaryUpdate)
    (reduction : Reduction) (grouping : GroupingStrategy) (filter : Option (Predicate NodeRef)) :
    Building OperatorNode := do
  let dag ← get
  let schema ← StateT.lift (summaryOutputSchema text (dag.node child).schema family reduction)
  pure (dag.withSchema (.asap (.summaryAgg child family input reduction grouping filter)) schema)

/-! ### Tumbling windows -/

/-- What a tumbling-window chain holds. -/
structure ChainFields where
  child : NodeRef
  family : FieldDataType
  input : SummaryUpdate
  reduction : Reduction
  grouping : GroupingStrategy
  filter : Option (Predicate NodeRef)
  widthMs : Nat
  count : Nat

def chainFields (node : OperatorNode) : Option ChainFields :=
  match node.asap with
  | some (.summaryTumblingWindowChain child family input reduction grouping filter widthMs count) =>
    some { child, family, input, reduction, grouping, filter, widthMs, count }
  | _ => none

def range (child : NodeRef) (widthMs : Nat) : Building NodeRef :=
  newPassing (.timeRange ⟨widthMs * 1000000⟩ .range child) child

/-- `child` evaluated `backMs` earlier: one shift, folded into a shift directly below. -/
def shifted (child : NodeRef) (backMs : Int) : Building NodeRef := do
  if backMs = 0 then pure child
  else
    let dag ← get
    match (dag.node child).nonAsap with
    | some (.timeShift shift input) =>
      let offsetMs := shift.offsetMs + backMs
      if i64Min ≤ offsetMs ∧ offsetMs ≤ i64Max then
        newPassing (.timeShift { shift with offsetMs } input) input
      else fail "tumbling window offset overflows"
    | _ => newPassing (.timeShift { offsetMs := backMs, «at» := none } child) child

/-- The chain's names over the fields of a build. -/
def withNames (fields names : List SchemaField) : List SchemaField :=
  fields.zipWith (fun field kept => { field with name := kept.name, table := kept.table }) names
    ++ fields.drop names.length

section Text
variable (text : LeafText)

/-- The chain's build over `input`. -/
def buildOver (chain : OperatorNode) (fields : ChainFields) (input : NodeRef) :
    Building OperatorNode := do
  let build ← newBuild text input fields.family fields.input fields.reduction fields.grouping
    fields.filter
  pure { build with
    schema := { build.schema with fields := withNames build.schema.fields chain.schema.fields } }

def notAChain : String := "expected a tumbling-window chain"

def newestTumblingWindowsBuild (chain : OperatorNode) (count : Nat) : Building OperatorNode := do
  match chainFields chain with
  | none => fail notAChain
  | some fields =>
    let window := fields.widthMs * count
    if window ≤ u64Max then
      let input ← range fields.child window
      buildOver text chain fields input
    else fail "tumbling-window chain window overflows"

def wholeWindowBuild (chain : OperatorNode) : Building OperatorNode := do
  match chainFields chain with
  | none => fail notAChain
  | some fields => newestTumblingWindowsBuild text chain fields.count

/-- Tumbling window `index` of a chain, the newest first. -/
def tumblingWindow (chain : OperatorNode) (index : Nat) : Building OperatorNode := do
  match chainFields chain with
  | none => fail notAChain
  | some fields =>
    -- `saturating_mul`, then `i64::try_from`.
    let back := min (fields.widthMs * index) u64Max
    if back ≤ i64Max.toNat then
      let input ← shifted fields.child back
      let input ← range input fields.widthMs
      buildOver text chain fields input
    else fail "tumbling window offset overflows"

def mergedChain (dag : Dag) (state : OperatorNode) : Option OperatorNode :=
  match state.asap with
  | some (.summaryTumblingWindowChain ..) => some state
  | some (.summaryMerge [child] _ none) =>
    if (chainFields (dag.node child)).isSome then some (dag.node child) else none
  | _ => none

def mergedTumblingWindowCount (dag : Dag) (state : OperatorNode) : Option Nat := do
  let chain ← mergedChain dag state
  let fields ← chainFields chain
  match state.asap with
  | some (.summaryMerge _ (some newest) _) => some newest
  | _ => some fields.count

def mergedWindowBuild (state : OperatorNode) : Building OperatorNode := do
  let dag ← get
  match mergedChain dag state, mergedTumblingWindowCount dag state with
  | some chain, some count => newestTumblingWindowsBuild text chain count
  | _, _ => fail "expected merged tumbling windows of one tumbling-window chain"

/-! ### Coverage -/

/-- The coverages derived so far, by node. -/
structure Deriving where
  dag : Dag
  covered : Cache NodeRef SummaryCoverage

abbrev Derivation := StateT Deriving (Except (Stop CoverageError))

def refuse {α : Type} (error : CoverageError) : Derivation α := StateT.lift (.error (.error error))

/-- A build in a derivation; `wrapped` is the error it fails with. -/
def building {α : Type} (wrapped : String → CoverageError) (run : Building α) : Derivation α :=
  fun state => match run state.dag with
    | .ok (value, dag) => .ok (value, { state with dag })
    | .error error => .error (.error (wrapped error.message))

def coverBuild (build : OperatorNode) : Derivation SummaryCoverage := fun state =>
  match ofSummaryAgg build state.dag with
  | some (coverage, dag) => .ok (coverage, { state with dag })
  | none => .error .panic

def groupedColumn (states rows : Schema) (keys : List ColumnId) (column : ColumnId) :
    Option ColumnId :=
  keys[column]?.filter fun input => match states.fields[column]?, rows.fields[input]? with
    | some atState, some atInput => atState.name == atInput.name
    | _, _ => false

/-- The build that computes exactly the states a filter by key columns keeps; `none` for any other
node. -/
def selectedBuild (node : OperatorNode) : Derivation (Option OperatorNode) := do
  match selectedFrom node, node.nonAsap with
  | some states, some (.filter pred _) =>
    let dag := (← get).dag
    match (dag.node states).asap with
    | some (.summaryAgg child family input (.reduce group) grouping filter) =>
      if group.without then refuse .notSummary
      else
        let mapped := groupedColumn (dag.node states).schema (dag.node child).schema group.keys
        match pred.expr.columnsReferenced.reverse.find? fun column => (mapped column).isNone with
        | some key => refuse (.notAGroupKey key)
        | none =>
          let build ← building .regroupedBuild do
            let rowsPred := pred.expr.mapColumns fun column => (mapped column).getD column
            let rows ← newPassing (.filter ⟨rowsPred⟩ child) child
            newBuild text rows family input (.reduce group) grouping filter
          pure (some build)
    | _ => refuse .notSummary
  | _, _ => pure none

def mergesGroups (capability : SketchAlgorithm → Option SketchMergeRule) (family : FieldDataType) :
    Bool :=
  (match mergeInputs capability family with
    | some .disjoint | some .mayOverlap => true
    | _ => false)
  && (match family with
    | .sketch _ grouping => same grouping .perSubpopulationInstance
    | _ => true)

def regroupKey (state rows : Schema) (reduction : Reduction) (key : ColumnId) : Option ColumnId :=
  (match reduction with
    | .reduce group => if group.without then none else group.keys[key]?
    -- A per-series state keeps its input's columns in place.
    | .perEntity => some key).filter fun column =>
      match state.fields[key]?, rows.fields[column]? with
      | some atState, some atInput =>
        atState.isPlain && atState.name == atInput.name && atState.table == atInput.table
      | _, _ => false

variable (capability : SketchAlgorithm → Option SketchMergeRule)

/-- The coverage of a merge of different groups of states covering `merged`. -/
def regrouped (merged : SummaryCoverage) (keys : List ColumnId) : Derivation SummaryCoverage := do
  let dag := (← get).dag
  match (dag.node merged.definition).asap with
  | some (.summaryAgg child family input reduction grouping filter) =>
    if !mergesGroups capability family || !same grouping .perSubpopulationInstance then
      refuse .familyCannotRegroup
    else
      let state := (dag.node merged.definition).schema
      let mapped ← keys.mapM fun key =>
        match regroupKey state (dag.node child).schema reduction key with
        | some column => pure column
        | none => refuse (.notAGroupKey key)
      let definition ← building .regroupedBuild do
        let build ← newBuild text child family input (.reduce (.by mapped)) grouping filter
        share build
      pure { merged with definition }
  | _ => refuse .notSummary

def remember (ref : NodeRef) (coverage : SummaryCoverage) : Derivation SummaryCoverage :=
  fun state => .ok (coverage, { state with covered := state.covered.insert ref coverage })

def mergedCoverage (inputs : List SummaryCoverage) : Derivation SummaryCoverage := fun state =>
  match ofMerge capability state.dag inputs with
  | .ok coverage => .ok (coverage, state)
  | .error error => .error (.error error)

def deriveCached (ref : NodeRef) : Derivation SummaryCoverage := do
  let state ← get
  match state.covered ref with
  | some coverage => pure coverage
  | none =>
    let node := state.dag.node ref
    match ← selectedBuild text node with
    | some build => do
      let coverage ← coverBuild build
      remember ref coverage
    | none =>
      let coverage ← match node.asap with
        | some (.summaryAgg ..) => coverBuild node
        | some (.summaryTumblingWindowChain ..) => do
          let build ← building .tumblingWindowChainExpansion (wholeWindowBuild text node)
          coverBuild build
        | some (.summaryMerge _ (some _) none) => do
          let build ← building .tumblingWindowChainExpansion (mergedWindowBuild text node)
          coverBuild build
        | some (.summaryMerge _ _ groupBy) => do
          -- The node's children are the inputs of the merge.
          let inputs ← (state.dag.children ref).attach.mapM fun child => deriveCached child.1
          let merged ← mergedCoverage capability inputs
          match groupBy with
          | none => pure merged
          | some keys => regrouped text capability merged keys
        | _ => refuse .notSummary
      remember ref coverage
termination_by ref
decreasing_by exact state.dag.child_lt child.2

/-- Coverage of the node at `ref`, and the store grown by the nodes it is over. -/
def derive (ref : NodeRef) (dag : Dag) : Except (Stop CoverageError) (SummaryCoverage × Dag) :=
  (deriveCached text capability ref { dag, covered := Cache.empty }).map fun (coverage, state) =>
    (coverage, state.dag)

end Text

/-! ### Expanding a workload -/

/-- What one expansion has built: the image of each node, and each tumbling window of each chain. -/
structure Expanding where
  dag : Dag
  expandedNodeOf : Cache NodeRef NodeRef
  tumblingWindowOf : Cache (NodeRef × Nat) NodeRef
  -- Each chain expanded, in the order first reached.
  chains : List NodeRef
  -- Each node with its image, in the order expanded.
  expanded : List (NodeRef × NodeRef)

abbrev Expansion := StateT Expanding (Except (Stop SchemaDerivationError))

/-- A node of a growing store. -/
def Expanding.alloc (node : OperatorNode) : Expansion NodeRef := fun state =>
  let made := state.dag.alloc node
  .ok (made.1, { state with dag := made.2 })

def construct {α : Type} (run : Building α) : Expansion α := fun state =>
  match run state.dag with
  | .ok (value, dag) => .ok (value, { state with dag })
  | .error error => .error (.error error)

/-- `timing` written into an untimed node and every untimed node below it. -/
def timedLike (timing : ExecutionTiming) (ref : NodeRef) : StateM Dag OperatorNode := do
  let before ← get
  let node := before.node ref
  let images ← (before.node ref).operator.walk.refs.attach.mapM fun child => do
    if ((← get).node child.1).timing.isSome then pure child.1
    else
      let copy ← timedLike timing child.1
      fun dag => dag.alloc copy
  let dag ← get
  pure { dag.withSchema (node.operator.walk.build images) node.schema with
    guarantee := node.guarantee
    timing := some timing
    materialization := node.materialization }
termination_by ref
decreasing_by exact before.child_lt ((Operator.mem_refs_walk _).mp child.2)

section Text
variable (text : LeafText) (capability : SketchAlgorithm → Option SketchMergeRule)

/-- A merge, its inputs checked: they have one definition and are disjoint. -/
def newMerge (children : List NodeRef) (groupBy : Option (List ColumnId)) : Expansion OperatorNode :=
  fun state =>
    match mergeOutputSchema state.dag children none groupBy with
    | .error error => .error (.error error)
    | .ok schema =>
      let node := state.dag.withSchema (.asap (.summaryMerge children none groupBy)) schema
      let checked := state.dag.alloc node
      match derive text capability checked.1 checked.2 with
      | .ok _ => .ok (node, state)
      | .error (.error error) => .error (.error (.coverage error))
      | .error .panic => .error .panic

def makeWindow (chain : NodeRef) (index : Nat) : Expansion NodeRef := do
  let node := (← get).dag.node chain
  let window ← construct do
    let window ← tumblingWindow text node index
    share window
  match node.timing with
  | none => pure window
  | some timing => do
    let copy : OperatorNode ← fun state =>
      let made := timedLike timing window state.dag
      .ok (made.1, { state with dag := made.2 })
    Expanding.alloc { copy with materialization := node.materialization }

/-- Tumbling window `index` of a chain, built once. -/
def windowAt (chain : NodeRef) (index : Nat) : Expansion NodeRef := do
  match (← get).tumblingWindowOf (chain, index) with
  | some done => pure done
  | none =>
    let window ← makeWindow text chain index
    modify fun state => { state with
      chains := if index = 0 then state.chains ++ [chain] else state.chains
      tumblingWindowOf := state.tumblingWindowOf.insert (chain, index) window }
    pure window

def keepImage (ref image : NodeRef) : Expansion NodeRef := fun state => .ok (image, { state with
  expandedNodeOf := state.expandedNodeOf.insert ref image
  expanded := state.expanded ++ [(ref, image)] })

def isChain (node : OperatorNode) : Bool := (chainFields node).isSome

def expand (ref : NodeRef) : Expansion NodeRef := do
  let state ← get
  match state.expandedNodeOf ref with
  | some done => pure done
  | none =>
    let node := state.dag.node ref
    match node.asap with
    | some (.summaryTumblingWindowChain ..) =>
      StateT.lift (.error (.error (.invalidScalarSignature
        "a tumbling-window chain is read only through a summary merge")))
    | some (.summaryMerge _ newest groupBy) => do
      -- The node's children are the inputs of the merge.
      let inputs ← (state.dag.children ref).attach.mapM fun child =>
        match chainFields (state.dag.node child.1) with
        | some fields => (List.range (newest.getD fields.count)).mapM (windowAt text child.1)
        | none => do
          let image ← expand child.1
          pure [image]
      let merge ← newMerge text capability inputs.flatten groupBy
      let dag := (← get).dag
      let image ← Expanding.alloc { dag.withSchema merge.operator node.schema with
        guarantee := node.guarantee
        timing := node.timing
        materialization := node.materialization }
      keepImage ref image
    | _ => do
      let images ← (state.dag.children ref).attach.mapM fun child => expand child.1
      let imageOf child := (((state.dag.children ref).zip images).find? (·.1 == child)).elim child (·.2)
      if images = state.dag.children ref then keepImage ref ref
      else
        let dag := (← get).dag
        let image ← Expanding.alloc { dag.withSchema (node.operator.mapChildren imageOf) node.schema with
          guarantee := node.guarantee
          timing := node.timing
          materialization := node.materialization }
        keepImage ref image
termination_by ref
decreasing_by all_goals exact state.dag.child_lt child.2

def expandRoot : QueryRoot → Expansion QueryRoot
  | .operator node => do
    let image ← expand text capability node
    pure (.operator image)
  | .scalar expr => do
    let image ← expr.walk.traverse (expand text capability)
    pure (.scalar image)

structure ExpandedTumblingWindowChain where
  chain : NodeRef
  tumblingWindows : List NodeRef

structure TumblingWindowChainExpansion where
  dag : Dag
  roots : List QueryRoot
  chains : List ExpandedTumblingWindowChain
  expandedNodes : List (NodeRef × NodeRef)

/-- The values up to the first missing one. -/
def mapWhile {α β : Type} (f : α → Option β) : List α → List β
  | [] => []
  | item :: rest => match f item with
    | some value => value :: mapWhile f rest
    | none => []

def chainCount (dag : Dag) (chain : NodeRef) : Nat :=
  ((chainFields (dag.node chain)).map (·.count)).getD 0

def expandTumblingWindowChainsInWorkload (dag : Dag) (roots : List QueryRoot) :
    Except (Stop SchemaDerivationError) TumblingWindowChainExpansion := do
  let (roots, state) ← roots.mapM (expandRoot text capability) {
    dag, expandedNodeOf := Cache.empty, tumblingWindowOf := Cache.empty, chains := [], expanded := [] }
  pure {
    dag := state.dag
    roots
    chains := state.chains.map fun chain => {
      chain
      tumblingWindows := mapWhile (fun index => state.tumblingWindowOf (chain, index))
        (List.range (chainCount state.dag chain)) }
    expandedNodes := state.expanded }

end Text
end AsapPlanner.Construction
