import AsapPlanner.Milp.Model
import Mathlib.Data.Finmap
import Mathlib.Data.List.Sort

/-!
The starting plan of the selection MILP: each query's output references are derived in turn, a dead end
is undone by the log of its changes, and the next candidate or attempt is tried. What a derivation
leaves behind: a read that fails leaves the plan and the log as they were, a choice that fails leaves a
log that takes the plan back, and what succeeds supports all it chose.
-/

namespace AsapPlanner.Milp

/-- A plan under construction: the candidate of each slot in each context, the selected shareable
candidates, and the slot each multi-slot input reads. -/
@[ext] structure Plan (n : Nat) where
  chosen : Nat → Finmap fun _ : ResultSlot => Fin n
  selected : Finset (Fin n)
  slotReads : Finmap fun _ : Nat × Fin n × Nat => ResultSlot

/-- One change to a plan, to undo. -/
inductive Undo (n : Nat)
  | chose (context : Nat) (slot : ResultSlot)
  | selected (shareable : Fin n)
  | slotRead (context : Nat) (reader : Fin n) (input : Nat)

namespace Plan
variable {n : Nat}

def empty : Plan n := ⟨fun _ => ∅, ∅, ∅⟩

def choose (plan : Plan n) (context : Nat) (slot : ResultSlot) (candidate : Fin n) : Plan n :=
  { plan with chosen :=
      Function.update plan.chosen context ((plan.chosen context).insert slot candidate) }

def select (plan : Plan n) (shareable : Fin n) : Plan n :=
  { plan with selected := insert shareable plan.selected }

def readSlot (plan : Plan n) (context : Nat) (reader : Fin n) (input : Nat) (slot : ResultSlot) :
    Plan n :=
  { plan with slotReads := plan.slotReads.insert (context, reader, input) slot }

def undoOne (plan : Plan n) : Undo n → Plan n
  | .chose context slot =>
    { plan with chosen :=
        Function.update plan.chosen context ((plan.chosen context).erase slot) }
  | .selected shareable => { plan with selected := plan.selected.erase shareable }
  | .slotRead context reader input =>
    { plan with slotReads := plan.slotReads.erase (context, reader, input) }

/-- The last change first. -/
def undoAll (plan : Plan n) (undo : List (Undo n)) : Plan n :=
  undo.foldr (fun change plan => plan.undoOne change) plan

end Plan

inductive Objective
  | cost | latency
deriving DecidableEq, Repr

/-- The approximate candidates a query's derivation may use. -/
inductive Approximate
  | usable
  | sizedFor (shares : Nat)
  | none
deriving DecidableEq, Repr

def attempts : List (Objective × Approximate) :=
  [(.cost, .usable), (.cost, .sizedFor 2), (.cost, .sizedFor 4), (.cost, .none),
    (.latency, .usable), (.latency, .sizedFor 2), (.latency, .sizedFor 4), (.latency, .none)]

/-- What a derivation estimates a candidate's subtree at, with the memo of its estimates; numbers
are compared in their total order. -/
structure Estimates (n : Nat) (Memo Number : Type) where
  start : Memo
  estimate : Plan n → Memo → Nat → Fin n → Number × Memo
  isFinite : Number → Bool

/-- One query's derivation into a plan. -/
structure Derivation (n : Nat) (Memo : Type) where
  plan : Plan n
  undo : List (Undo n)
  memo : Memo
  steps : Nat

def Derivation.record {n : Nat} {Memo : Type} (state : Derivation n Memo) (plan : Plan n)
    (change : Undo n) : Derivation n Memo :=
  { state with plan := plan, undo := state.undo ++ [change] }

def Derivation.select {n : Nat} {Memo : Type} (state : Derivation n Memo) (shareable : Fin n) :
    Derivation n Memo :=
  state.record (state.plan.select shareable) (.selected shareable)

def mostStepsPerQuery : Nat := 200000

/-- A read in a context of one of some candidates: the state after it, and which was chosen. -/
abbrev Reading (n : Nat) (Memo : Type) :=
  Nat → List (Fin n) → Derivation n Memo → Derivation n Memo × Option (Fin n)

namespace MilpInputs
variable {n : Nat} (inputs : MilpInputs n) {Memo Number : Type}

def Chosen (plan : Plan n) (context : Nat) (candidate : Fin n) : Prop :=
  (plan.chosen context).lookup (inputs.slot candidate) = some candidate

instance (plan : Plan n) (context : Nat) (candidate : Fin n) :
    Decidable (inputs.Chosen plan context candidate) :=
  inferInstanceAs (Decidable (_ = _))

/-! ### Choices -/

/-- The inputs of a computed candidate in their order, each with its number. -/
def readInputs (read : Reading n Memo) (context : Nat) (reader : Fin n) :
    List (List (Fin n) × Nat) → Derivation n Memo → Derivation n Memo × Bool
  | [], state => (state, true)
  | (producers, input) :: rest, state =>
    match read context (producers.filter fun producer =>
        inputs.slot producer ≠ inputs.slot reader) state with
    | (state, none) => (state, false)
    | (state, some producer) =>
      let state := if (inputs.slotLinks context reader input).isSome then
        state.record (state.plan.readSlot context reader input (inputs.slot producer))
          (.slotRead context reader input)
        else state
      readInputs read context reader rest state

def readEach (read : Reading n Memo) (context : Nat) :
    List (List (Fin n)) → Derivation n Memo → Derivation n Memo × Bool
  | [], state => (state, true)
  | allowed :: rest, state =>
    match read context allowed state with
    | (state, none) => (state, false)
    | (state, some _) => readEach read context rest state

def fillSlot (context : Nat) (candidate : Fin n) (state : Derivation n Memo) : Derivation n Memo :=
  state.record (state.plan.choose context (inputs.slot candidate) candidate)
    (.chose context (inputs.slot candidate))

def choose (read : Reading n Memo) (context : Nat) (candidate : Fin n)
    (state : Derivation n Memo) : Derivation n Memo × Bool :=
  let state := inputs.fillSlot context candidate state
  if inputs.computes context candidate then
    inputs.readInputs read context candidate (inputs.producers candidate).zipIdx state
  else match inputs.kind candidate with
    | .shareable =>
      if candidate ∈ state.plan.selected then (state, true)
      else
        let state := state.select candidate
        match inputs.contextOfShareable candidate with
        | none => (state, false)
        | some own => readEach read own (inputs.producers candidate) state
    | .ingestion =>
      match inputs.ingestionContextReadBy context with
      | none => (state, false)
      | some ingestion =>
        if context = ingestion then (state, false)
        else readEach read ingestion [[candidate]] state
    | .perContext => (state, false)

/-- The first candidate whose choice leads to no dead end; a failed choice is undone. -/
def tryEach (choose : Fin n → Derivation n Memo → Derivation n Memo × Bool) :
    List (Fin n) → Derivation n Memo → Derivation n Memo × Option (Fin n)
  | [], state => (state, none)
  | candidate :: rest, state =>
    let mark := state.undo.length
    match choose candidate state with
    | (state, true) => (state, some candidate)
    | (state, false) =>
      tryEach choose rest
        { state with
          plan := state.plan.undoAll (state.undo.drop mark)
          undo := state.undo.take mark }

/-! ### Reads -/

def estimateAll (estimates : Estimates n Memo Number) (plan : Plan n) (context : Nat) :
    List (Fin n) → Memo → List (Number × Fin n) × Memo
  | [], memo => ([], memo)
  | candidate :: rest, memo =>
    let (number, memo) := estimates.estimate plan memo context candidate
    let (priced, memo) := estimateAll estimates plan context rest memo
    ((number, candidate) :: priced, memo)

variable [LinearOrder Number] (estimates : Estimates n Memo Number)

/-- The candidates that may fill a free slot, cheapest first, and the memo after their estimates. -/
def pricedOptions (context : Nat) (allowed : List (Fin n)) (state : Derivation n Memo) :
    List (Fin n) × Memo :=
  let free := allowed.filter fun candidate => candidate ∈ inputs.options context &&
    ((state.plan.chosen context).lookup (inputs.slot candidate)).isNone
  let (priced, memo) := estimateAll estimates state.plan context free state.memo
  let finite := priced.filter fun option => estimates.isFinite option.1
  ((finite.insertionSort fun a b => a.1 < b.1 ∨ a.1 = b.1 ∧ a.2 ≤ b.2).map Prod.snd, memo)

/-- Make a context give one of some candidates. Every read counts a step, so reads nest no deeper
than the steps left. -/
def read : Nat → Reading n Memo
  | 0, _, _, state => ({ state with steps := state.steps + 1 }, none)
  | depth + 1, context, allowed, state =>
    let state := { state with steps := state.steps + 1 }
    if mostStepsPerQuery < state.steps then (state, none)
    else match allowed.find? fun candidate => inputs.Chosen state.plan context candidate with
      | some candidate => (state, some candidate)
      | none =>
        let (options, memo) := inputs.pricedOptions estimates context allowed state
        tryEach (inputs.choose (read depth) context) options { state with memo := memo }

def allowedOutputs (query : Nat) : List (List (Fin n)) :=
  (inputs.references.zip inputs.outputs).filterMap fun (owner, outputs) =>
    if owner = query then some (outputs.filter fun candidate => candidate ∈ inputs.options query)
    else none

/-- An attempt at one query, from the plan of the queries before it. -/
def deriveQuery (query : Nat) (plan : Plan n) : Derivation n Memo × Bool :=
  readEach (inputs.read estimates mostStepsPerQuery) query (inputs.allowedOutputs query)
    ⟨plan, [], estimates.start, 0⟩

/-! ### Attempts -/

/-- What the attempts at the queries are judged by. -/
structure Attempting (n : Nat) (Memo Number : Type) where
  estimates : Nat → Objective × Approximate → Estimates n Memo Number
  meetsAccuracy : Plan n → Nat → Bool
  meetsLatency : Plan n → Nat → Bool

variable (attempting : Attempting n Memo Number)

def attempt (query : Nat) (attempt : Objective × Approximate) (plan : Plan n) :
    Derivation n Memo × Bool :=
  inputs.deriveQuery (attempting.estimates query attempt) query plan

/-- The attempts in their order: the plan, whether it is one meeting accuracy and latency, and the
last attempt that met accuracy alone. -/
def tryAttempts (query : Nat) : List (Objective × Approximate) → Option (Objective × Approximate) →
    Plan n → Plan n × Bool × Option (Objective × Approximate)
  | [], fallback, plan => (plan, false, fallback)
  | tried :: rest, fallback, plan =>
    let (state, derived) := inputs.attempt attempting query tried plan
    let accurate := derived && attempting.meetsAccuracy state.plan query
    let fast := accurate && attempting.meetsLatency state.plan query
    if fast then (state.plan, true, fallback)
    else tryAttempts query rest (if accurate then some tried else fallback)
      (state.plan.undoAll state.undo)

def planQuery (plan : Plan n) (query : Nat) : Option (Plan n) :=
  match inputs.tryAttempts attempting query attempts none plan with
  | (plan, true, _) => some plan
  | (_, false, none) => none
  | (plan, false, some fallback) =>
    match inputs.attempt attempting query fallback plan with
    | (state, true) => some state.plan
    | (_, false) => none

/-- `sequential_plan`: every query planned in order into one plan. -/
def sequentialPlan (order : List Nat) : Option (Plan n) :=
  order.foldlM (inputs.planQuery attempting) Plan.empty

/-- The plan's binaries: the columns set to one. -/
def binariesOf (plan : Plan n) : Variable n → ℚ
  | .choice context option =>
    if option ∈ inputs.options context ∧ option ∈ (plan.chosen context).entries.map Sigma.snd then 1
    else 0
  | .selected shareable =>
    if (inputs.contextOfShareable shareable).isSome ∧ shareable ∈ plan.selected then 1 else 0
  | .slotLink context reader input slot =>
    match inputs.slotLinks context reader input with
    | some slots =>
      if slot ∈ slots ∧ plan.slotReads.lookup (context, reader, input) = some slot then 1 else 0
    | none => 0
  | _ => 0

end MilpInputs

/-! ### What a derivation leaves behind -/

/-! ### Undoing one change -/

theorem erase_insert_lookup {κ ν : Type} [DecidableEq κ] {map : Finmap fun _ : κ => ν} {key : κ}
    (free : map.lookup key = none) (value : ν) : (map.insert key value).erase key = map := by
  apply Finmap.ext_lookup
  intro other
  by_cases same : other = key
  · subst same
    rw [Finmap.lookup_erase, free]
  · rw [Finmap.lookup_erase_ne same, Finmap.lookup_insert_of_ne _ same]

namespace Plan
variable {n : Nat} {plan : Plan n}

theorem undo_choose {context : Nat} {slot : ResultSlot}
    (free : (plan.chosen context).lookup slot = none) (candidate : Fin n) :
    (plan.choose context slot candidate).undoOne (.chose context slot) = plan := by
  simp only [undoOne, choose, Function.update_self, Function.update_idem, erase_insert_lookup free,
    Function.update_eq_self]

theorem undo_select {shareable : Fin n} (absent : shareable ∉ plan.selected) :
    (plan.select shareable).undoOne (.selected shareable) = plan := by
  simp only [undoOne, select, Finset.erase_insert absent]

theorem undo_readSlot {context input : Nat} {reader : Fin n}
    (fresh : plan.slotReads.lookup (context, reader, input) = none) (slot : ResultSlot) :
    (plan.readSlot context reader input slot).undoOne (.slotRead context reader input) = plan := by
  simp only [undoOne, readSlot, erase_insert_lookup fresh]

theorem lookup_choose {context at' : Nat} {slot slot' : ResultSlot} {candidate : Fin n} :
    ((plan.choose context slot candidate).chosen at').lookup slot' =
      if at' = context ∧ slot' = slot then some candidate else (plan.chosen at').lookup slot' := by
  by_cases here : at' = context
  · subst here
    by_cases same : slot' = slot
    · subst same
      simp [choose]
    · simp [choose, same, Finmap.lookup_insert_of_ne _ same]
  · simp [choose, here]

theorem lookup_readSlot {key : Nat × Fin n × Nat} {context input : Nat} {reader : Fin n}
    {slot : ResultSlot} :
    (plan.readSlot context reader input slot).slotReads.lookup key =
      if key = (context, reader, input) then some slot else plan.slotReads.lookup key := by
  by_cases same : key = (context, reader, input)
  · subst same
    simp [readSlot]
  · simp [readSlot, same, Finmap.lookup_insert_of_ne _ same]

@[simp] theorem choose_selected {context : Nat} {slot : ResultSlot} {candidate : Fin n} :
    (plan.choose context slot candidate).selected = plan.selected := rfl

@[simp] theorem choose_slotReads {context : Nat} {slot : ResultSlot} {candidate : Fin n} :
    (plan.choose context slot candidate).slotReads = plan.slotReads := rfl

@[simp] theorem select_chosen {shareable : Fin n} : (plan.select shareable).chosen = plan.chosen := rfl

@[simp] theorem select_slotReads {shareable : Fin n} :
    (plan.select shareable).slotReads = plan.slotReads := rfl

@[simp] theorem readSlot_chosen {context input : Nat} {reader : Fin n} {slot : ResultSlot} :
    (plan.readSlot context reader input slot).chosen = plan.chosen := rfl

@[simp] theorem readSlot_selected {context input : Nat} {reader : Fin n} {slot : ResultSlot} :
    (plan.readSlot context reader input slot).selected = plan.selected := rfl

theorem undoAll_append (first second : List (Undo n)) :
    plan.undoAll (first ++ second) = (plan.undoAll second).undoAll first := by
  simp only [undoAll, List.foldr_append]

/-- A plan keeps all that an earlier one chose, selected and read. -/
structure Extends (before after : Plan n) : Prop where
  chosen : ∀ context slot candidate, (before.chosen context).lookup slot = some candidate →
    (after.chosen context).lookup slot = some candidate
  selected : before.selected ⊆ after.selected
  slotReads : ∀ key slot, before.slotReads.lookup key = some slot →
    after.slotReads.lookup key = some slot

theorem Extends.refl (plan : Plan n) : Extends plan plan :=
  ⟨fun _ _ _ found => found, fun _ member => member, fun _ _ found => found⟩

theorem Extends.trans {a b c : Plan n} (first : Extends a b) (second : Extends b c) : Extends a c where
  chosen context slot candidate found :=
    second.chosen context slot candidate (first.chosen context slot candidate found)
  selected := first.selected.trans second.selected
  slotReads key slot found := second.slotReads key slot (first.slotReads key slot found)

theorem choose_extends {context : Nat} {slot : ResultSlot}
    (free : (plan.chosen context).lookup slot = none) (candidate : Fin n) :
    Extends plan (plan.choose context slot candidate) where
  chosen at' slot' other found := by
    rw [lookup_choose, if_neg, found]
    rintro ⟨rfl, rfl⟩
    cases free.symm.trans found
  selected := fun _ member => member
  slotReads := fun _ _ found => found

theorem select_extends (shareable : Fin n) : Extends plan (plan.select shareable) :=
  ⟨fun _ _ _ found => found, Finset.subset_insert _ _, fun _ _ found => found⟩

theorem readSlot_extends {context input : Nat} {reader : Fin n}
    (fresh : plan.slotReads.lookup (context, reader, input) = none) (slot : ResultSlot) :
    Extends plan (plan.readSlot context reader input slot) where
  chosen := fun _ _ _ found => found
  selected := fun _ member => member
  slotReads key other found := by
    rw [lookup_readSlot, if_neg, found]
    rintro rfl
    cases fresh.symm.trans found

end Plan

/-! ### The log -/

namespace Derivation
variable {n : Nat} {Memo : Type}

/-- A later state's log goes on from an earlier one's, and takes its plan back to the earlier. -/
def Logged (before after : Derivation n Memo) : Prop :=
  ∃ log, after.undo = before.undo ++ log ∧ after.plan.undoAll log = before.plan

theorem Logged.of_same {before after : Derivation n Memo} (plan : after.plan = before.plan)
    (undo : after.undo = before.undo) : Logged before after :=
  ⟨[], by rw [undo, List.append_nil], plan⟩

theorem Logged.trans {a b c : Derivation n Memo} (first : Logged a b) (second : Logged b c) :
    Logged a c := by
  obtain ⟨log, undo, plan⟩ := first
  obtain ⟨log', undo', plan'⟩ := second
  refine ⟨log ++ log', ?_, ?_⟩
  · rw [undo', undo, List.append_assoc]
  · rw [Plan.undoAll_append, plan', plan]

theorem Logged.record {state : Derivation n Memo} {plan : Plan n} {change : Undo n}
    (restored : plan.undoOne change = state.plan) : Logged state (state.record plan change) :=
  ⟨[change], rfl, restored⟩

theorem Logged.undone {before after : Derivation n Memo} (logged : Logged before after) :
    after.plan.undoAll (after.undo.drop before.undo.length) = before.plan ∧
      after.undo.take before.undo.length = before.undo := by
  obtain ⟨log, undo, plan⟩ := logged
  rw [undo, List.drop_left, List.take_left]
  exact ⟨plan, rfl⟩

end Derivation
end AsapPlanner.Milp
