import AsapPlanner.Milp.Components
import AsapPlanner.Milp.Contexts
import AsapPlanner.Milp.Linear

/-!
The selection MILP: the choices in each context, the rows a selection has to meet, and the order ranks
that keep its reads acyclic. A solution of the selection MILP as a DAG with one node per run of a
candidate.
-/

namespace AsapPlanner.Milp

inductive Variable (n : Nat)
  | choice (context : Nat) (option : Fin n)
  | selected (shareable : Fin n)
  | slotLink (context : Nat) (reader : Fin n) (input : Nat) (slot : ResultSlot)
  | rank (context : Nat) (candidate : Fin n)
  | contextRank (run : Nat × Fin n)
  | reach (query : Nat) (shareable : Fin n)
  | through (query : Nat) (shareable reader : Fin n)
deriving DecidableEq

/-- One way an option is read in a context. -/
inductive Reader (n : Nat)
  | candidate (reader : Fin n) (input : Nat)
  | output (reference : Nat)
  | ownInput (input : Nat)
deriving DecidableEq

/-- A row between two order ranks, each at most `most`. -/
structure RankRow (n : Nat) where
  below : Variable n
  above : Variable n
  most : ℚ
  row : Constraint (Variable n)

def RankRow.Met {n : Nat} (value : Variable n → ℚ) (rankRow : RankRow n) : Prop :=
  (0 ≤ value rankRow.below ∧ value rankRow.below ≤ rankRow.most) ∧
    (0 ≤ value rankRow.above ∧ value rankRow.above ≤ rankRow.most) ∧ rankRow.row.Holds value

namespace MilpInputs
variable {n : Nat} (inputs : MilpInputs n)

def context (position : Nat) : ExecutionContext n :=
  inputs.contexts.getD position ⟨.query position, false, []⟩

def options (context : Nat) : List (Fin n) := (inputs.context context).options

def computes (context : Nat) (candidate : Fin n) : Bool :=
  (inputs.context context).computes (inputs.kind candidate)

def ingestionContextReadBy (context : Nat) : Option Nat :=
  match (inputs.context context).kind with
  | .ingestion _ => some context
  | .shared shareable => inputs.ingestionContextOfShareable shareable
  | .query _ => none

/-! ### Choices -/

def slotsRead (context : Nat) (reader : Fin n) (producers : List (Fin n)) : List ResultSlot :=
  let slots := (producers.filter (· ∈ inputs.options context)).map inputs.slot
  (slots.filter (· ≠ inputs.slot reader)).dedup.insertionSort fun a b => a.le b

def slotLinks (context : Nat) (reader : Fin n) (input : Nat) : Option (List ResultSlot) :=
  if reader ∈ inputs.options context ∧ inputs.computes context reader then
    match (inputs.producers reader)[input]? with
    | some producers =>
      let slots := inputs.slotsRead context reader producers
      if 1 < slots.length then some slots else none
    | none => none
  else none

def readsBy (option reader : Fin n) : List (Reader n) :=
  (inputs.producers reader).zipIdx.filterMap fun (producers, input) =>
    if option ∈ producers then some (.candidate reader input) else none

def readers (context : Nat) (option : Fin n) : List (Reader n) :=
  let computed := (inputs.options context).filter fun reader =>
    inputs.computes context reader && inputs.slot option ≠ inputs.slot reader
  computed.flatMap (inputs.readsBy option) ++
    match (inputs.context context).kind with
    | .query query =>
      (inputs.references.zip inputs.outputs).zipIdx.filterMap fun ((owner, outputs), reference) =>
        if owner = query ∧ option ∈ outputs then some (.output reference) else none
    | .shared own =>
      (inputs.producers own).zipIdx.filterMap fun (producers, input) =>
        if option ∈ producers then some (.ownInput input) else none
    | .ingestion _ => []

/-! ### Rows 1 to 5 -/

def chosenSum (context : Nat) (candidates : List (Fin n)) : Expression (Variable n) :=
  .sum ((candidates.filter (· ∈ inputs.options context)).map (.choice context))

def coverageRows : List (Constraint (Variable n)) :=
  (inputs.references.zip inputs.outputs).map fun (query, outputs) =>
    .eq (inputs.chosenSum query outputs) (.const 1)

/-- One candidate per slot. -/
def slotRows (context : Nat) : List (Constraint (Variable n)) :=
  let slots := ((inputs.options context).map inputs.slot).dedup.insertionSort fun a b => a.le b
  slots.filterMap fun slot =>
    let same := (inputs.options context).filter fun option => inputs.slot option = slot
    if 1 < same.length then some (.le (inputs.chosenSum context same) (.const 1)) else none

def validityRows (context : Nat) (option : Fin n) : List (Constraint (Variable n)) :=
  let used := Expression.var (Variable.choice context option)
  if inputs.computes context option then
    (inputs.producers option).map fun producers =>
      .ge (inputs.chosenSum context (producers.filter fun producer =>
        inputs.slot producer ≠ inputs.slot option)) used
  else match inputs.kind option with
    | .shareable => [.le used (.var (.selected option))]
    | .ingestion =>
      match inputs.ingestionContextReadBy context with
      | some source =>
        if option ∈ inputs.options source then [.le used (.var (.choice source option))]
        else [.le used (.const 0)]
      | none => [.le used (.const 0)]
    | .perContext => [.le used (.const 0)]

def ownRows (context : Nat) : List (Constraint (Variable n)) :=
  match (inputs.context context).kind with
  | .shared own => (inputs.producers own).map fun producers =>
    .ge (inputs.chosenSum context producers) (.var (.selected own))
  | _ => []

/-- A used reader reads one slot by each input, and only a slot the context gives. -/
def slotLinkRows (context : Nat) (reader : Fin n) : List (Constraint (Variable n)) :=
  (inputs.producers reader).zipIdx.flatMap fun (producers, input) =>
    match inputs.slotLinks context reader input with
    | none => []
    | some slots =>
      .eq (.sum (slots.map (.slotLink context reader input))) (.var (.choice context reader)) ::
        slots.map fun slot =>
          .le (.var (.slotLink context reader input slot))
            (inputs.chosenSum context (producers.filter fun producer => inputs.slot producer = slot))

/-- The contexts of the views that read a pipeline. -/
def readersOfIngestion (context : Nat) : List Nat :=
  (List.finRange n).filterMap fun shareable =>
    if inputs.ingestionContextOfShareable shareable = some context then
      inputs.contextOfShareable shareable
    else none

def readValue (context : Nat) (option : Fin n) : Reader n → Expression (Variable n)
  | .candidate reader input =>
    match inputs.slotLinks context reader input with
    | some slots =>
      .sum ((slots.filter (· = inputs.slot option)).map (.slotLink context reader input))
    | none => .var (.choice context reader)
  | .output _ => .const 1
  | .ownInput _ =>
    match (inputs.context context).kind with
    | .shared own => .var (.selected own)
    | _ => .const 0

def usedRow (context : Nat) (option : Fin n) : Constraint (Variable n) :=
  let reads := (inputs.readers context option).foldl
    (fun reads reader => reads + inputs.readValue context option reader) (.const 0)
  let across := (inputs.readersOfIngestion context).filter fun other => option ∈ inputs.options other
  .le (.var (.choice context option)) (reads + .sum (across.map fun other => .choice other option))

def sharingRows : List (Constraint (Variable n)) :=
  (List.finRange n).filterMap fun shareable =>
    if (inputs.contextOfShareable shareable).isSome then
      let reads := (List.range inputs.contexts.length).filter fun context =>
        shareable ∈ inputs.options context && inputs.kind shareable = .shareable
      some (.le (.var (.selected shareable)) (.sum (reads.map fun context => .choice context shareable)))
    else none

def structuralRows : List (Constraint (Variable n)) :=
  inputs.coverageRows ++
    ((List.range inputs.contexts.length).flatMap fun context =>
      inputs.slotRows context ++ (inputs.options context).flatMap (inputs.validityRows context) ++
        inputs.ownRows context ++ (inputs.options context).flatMap (inputs.slotLinkRows context) ++
        (inputs.options context).map (inputs.usedRow context)) ++
    inputs.sharingRows

/-! ### Order ranks -/

def computed (context : Nat) : List (Fin n) :=
  (inputs.options context).filter (inputs.computes context)

def links (context : Nat) : List (Fin n × Fin n) :=
  (inputs.computed context).flatMap fun producer =>
    (inputs.readers context producer).filterMap fun
      | .candidate reader _ => some (producer, reader)
      | _ => none

/-- `acyclic_rows` of one context: a used reader ranks above a used producer of its component. -/
def acyclicRows (context : Nat) : List (RankRow n) :=
  let components := stronglyConnectedComponents (inputs.computed context) (inputs.links context)
  (inputs.links context).filterMap fun (producer, reader) =>
    let size := components.sizeOf reader
    if components.of producer ≠ components.of reader ∨ size < 2 then none
    else
      let below := Variable.rank context producer
      let above := Variable.rank context reader
      let unused := Expression.const 2 - .var (.choice context producer) -
        .var (.choice context reader)
      some ⟨below, above, size - 1,
        .le (.var below + .const 1) (.var above + unused.scale size)⟩

/-- The shareable candidates' own runs, then the runs of each pipeline. -/
def nodes : List (Nat × Fin n) :=
  (List.finRange n).filterMap (fun shareable =>
    (inputs.contextOfShareable shareable).map fun context => (context, shareable)) ++
    (List.range inputs.contexts.length).flatMap fun context =>
      match (inputs.context context).kind with
      | .ingestion _ => (inputs.computed context).map fun candidate => (context, candidate)
      | _ => []

def nodeRead (context : Nat) (option : Fin n) : Option (Nat × Fin n) :=
  let run := match inputs.kind option with
    | .shareable => inputs.contextOfShareable option
    | .ingestion => inputs.ingestionContextReadBy context
    | .perContext => none
  match run with
  | some runContext => if (runContext, option) ∈ inputs.nodes then some (runContext, option) else none
  | none => none

/-- A read across contexts, and the choices that make it active. -/
structure ContextEdge (n : Nat) where
  reader : Nat × Fin n
  read : Nat × Fin n
  active : List (Variable n)

def edgesFrom (node : Nat × Fin n) : List (ContextEdge n) :=
  match (inputs.context node.1).kind with
  | .ingestion _ =>
    (inputs.producers node.2).flatten.filterMap fun producer =>
      match inputs.nodeRead node.1 producer with
      | some read =>
        if producer ∈ inputs.options node.1 ∧ read ≠ node then
          some ⟨node, read, [.choice node.1 node.2, .choice node.1 producer]⟩
        else none
      | none => none
  | _ =>
    (inputs.options node.1).filterMap fun option =>
      (inputs.nodeRead node.1 option).map fun read => ⟨node, read, [.choice node.1 option]⟩

def contextEdges : List (ContextEdge n) := inputs.nodes.flatMap inputs.edgesFrom

/-- `acyclic_context_rows`: an active reader ranks above what it reads of its component. -/
def acyclicContextRows : List (RankRow n) :=
  let components := stronglyConnectedComponents inputs.nodes
    (inputs.contextEdges.map fun edge => (edge.reader, edge.read))
  inputs.contextEdges.filterMap fun edge =>
    let size := components.sizeOf edge.reader
    if components.of edge.reader ≠ components.of edge.read ∨ size < 2 then none
    else
      let below := Variable.contextRank edge.read
      let above := Variable.contextRank edge.reader
      let inactive := Expression.const edge.active.length - .sum edge.active
      some ⟨below, above, size - 1,
        .le (.var below + .const 1) (.var above + inactive.scale size)⟩

def rankRows : List (RankRow n) :=
  (List.range inputs.contexts.length).flatMap inputs.acyclicRows ++ inputs.acyclicContextRows

end MilpInputs

/-! ### Decoding -/

/-- One run of a candidate: computed in a context, or a shareable candidate's own. -/
inductive Run (n : Nat)
  | computed (context : Nat) (candidate : Fin n)
  | shared (candidate : Fin n)
deriving DecidableEq, Repr

def Run.candidate {n : Nat} : Run n → Fin n
  | computed _ candidate => candidate
  | shared candidate => candidate

structure SelectedEdge where
  producer : Nat
  consumer : Nat
  input : Nat
deriving DecidableEq, Repr

structure DagOfSelectedCandidates (n : Nat) where
  candidateOfNode : List (Fin n)
  edges : List SelectedEdge
  nodeOfOutputReference : List Nat
deriving DecidableEq, Repr

structure ChosenCandidates (n : Nat) where
  chosen : Nat → List (Fin n)
  selected : List (Fin n)
  slotReads : Nat → Fin n → Nat → Option ResultSlot

namespace MilpInputs
variable {n : Nat} (inputs : MilpInputs n)

def chosenBy (value : Variable n → ℚ) : ChosenCandidates n where
  chosen context := (inputs.options context).filter fun option =>
    1 / 2 < value (.choice context option)
  selected := (List.finRange n).filter fun shareable =>
    (inputs.contextOfShareable shareable).isSome && 1 / 2 < value (.selected shareable)
  slotReads context reader input :=
    match inputs.slotLinks context reader input with
    | some slots => slots.find? fun slot => 1 / 2 < value (.slotLink context reader input slot)
    | none => none

variable (chosen : ChosenCandidates n)

def runOf (context : Nat) (producer : Fin n) : Option (Run n) :=
  if producer ∉ chosen.chosen context then none
  else if inputs.computes context producer then some (.computed context producer)
  else match inputs.kind producer with
    | .shareable => if producer ∈ chosen.selected then some (.shared producer) else none
    | .ingestion =>
      ((inputs.ingestionContextReadBy context).filter fun ingestion =>
        producer ∈ chosen.chosen ingestion).map fun ingestion => .computed ingestion producer
    | .perContext => none

def contextOf : Run n → Option Nat
  | .computed context _ => some context
  | .shared candidate => inputs.contextOfShareable candidate

/-- The producers a run may read by an input: of another slot and of the slot its link gives, for a
run computed in a context. -/
def readable (run : Run n) (input : Nat) (producers : List (Fin n)) : List (Fin n) :=
  match run with
  | .shared _ => producers
  | .computed context candidate =>
    (producers.filter fun producer => inputs.slot producer ≠ inputs.slot candidate).filter
      fun producer => (chosen.slotReads context candidate input).all (inputs.slot producer = ·)

def inputOf (context : Nat) (run : Run n) (read : List (Fin n) × Nat) :
    Except String (Nat × Run n) :=
  match (inputs.readable chosen run read.2 read.1).findSome? (inputs.runOf chosen context) with
  | some producer => .ok (read.2, producer)
  | none => .error ("input " ++ toString read.2 ++ " of candidate " ++
      toString run.candidate.val ++ " in context " ++ toString context ++
      " has no selected producer")

def inputsOf (run : Run n) : Except String (List (Nat × Run n)) :=
  match inputs.contextOf run with
  | none => .error ("shareable candidate " ++ toString run.candidate.val ++ " has no context")
  | some context =>
    (inputs.producers run.candidate).zipIdx.mapM (inputs.inputOf chosen context run)

def outputRuns : Except String (List (Run n)) :=
  (inputs.references.zip inputs.outputs).zipIdx.mapM fun ((query, outputs), reference) =>
    match outputs.findSome? (inputs.runOf chosen query) with
    | some run => .ok run
    | none => .error ("output reference " ++ toString reference ++ " has no selected candidate")

abbrev Numbered (n : Nat) := Run n × List (Nat × Run n)

def numberFrom : Nat → List (Run n) → List (Numbered n) → Except String (List (Numbered n))
  | 0, _, numbered => .ok numbered
  | rounds + 1, stack, numbered =>
    match stack.dropWhile fun run => run ∈ numbered.map Prod.fst with
    | [] => .ok numbered
    | run :: stack => do
      let reads ← inputs.inputsOf chosen run
      numberFrom rounds ((reads.map Prod.snd).reverse ++ stack) (numbered ++ [(run, reads)])

/-- There are no more runs than these, and a last round finds every one numbered. -/
def rounds : Nat := inputs.contexts.length * n + n + 1

def edgesOf (numbered : List (Numbered n)) : List SelectedEdge :=
  numbered.zipIdx.flatMap fun ((_, reads), consumer) =>
    reads.map fun (input, producer) =>
      { producer := (numbered.map Prod.fst).idxOf producer, consumer, input }

def decode : Except String (DagOfSelectedCandidates n) := do
  let outputs ← inputs.outputRuns chosen
  let numbered ← inputs.numberFrom chosen inputs.rounds outputs []
  pure {
    candidateOfNode := numbered.map fun entry => entry.1.candidate
    edges := edgesOf numbered
    nodeOfOutputReference := outputs.map (numbered.map Prod.fst).idxOf }

end MilpInputs
end AsapPlanner.Milp
