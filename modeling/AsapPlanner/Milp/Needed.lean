import AsapPlanner.Milp.Plans

/-!
The candidates that the outputs of a solution need, said of the lists of the catalog and the values of
the choices. Decoding runs exactly these.
-/

namespace AsapPlanner.Milp
open Relation Rust Traversal

namespace MilpInputs
variable {n : Nat}

section
variable (inputs : MilpInputs n) (value : Variable n → ℚ)

def Chooses (context : Nat) (option : Fin n) : Prop :=
  option ∈ inputs.options context ∧ value (.choice context option) = 1

instance (context : Nat) (option : Fin n) : Decidable (inputs.Chooses value context option) :=
  inferInstanceAs (Decidable (_ ∧ _))

/-- An input of a computed reader lists a chosen producer, of another slot than the reader's and of the
slot whose link is one where the input may read several. -/
structure Supplies (context : Nat) (reader producer : Fin n) : Prop where
  computes : inputs.computes context reader = true
  chooses : inputs.Chooses value context producer
  apart : inputs.slot producer ≠ inputs.slot reader
  input : ∃ (input : Nat) (producers : List (Fin n)), (inputs.producers reader)[input]? = some producers ∧
    producer ∈ producers ∧ ∀ slots, inputs.slotLinks context reader input = some slots →
      value (.slotLink context reader input (inputs.slot producer)) = 1

/-- An input of a shareable candidate lists this producer before any other that its context chooses. -/
def SuppliesOwn (context : Nat) (own producer : Fin n) : Prop :=
  ∃ producers ∈ inputs.producers own,
    producers.find? (fun candidate => inputs.Chooses value context candidate) = some producer

/-- What a shareable candidate's context supplies to its inputs, and to what it computes for them. -/
inductive OwnSupply (context : Nat) (own : Fin n) : Fin n → Prop
  | input {producer : Fin n} (first : inputs.SuppliesOwn value context own producer) :
      OwnSupply context own producer
  | link {reader producer : Fin n} (before : OwnSupply context own reader)
      (supplies : inputs.Supplies value context reader producer) : OwnSupply context own producer

/-- The candidates that a query's outputs need, each in a context that reads it. -/
inductive Needed (query : Nat) : Nat → Fin n → Prop
  | output {outputs : List (Fin n)} {option : Fin n}
      (listed : (query, outputs) ∈ inputs.references.zip inputs.outputs) (member : option ∈ outputs)
      (chooses : inputs.Chooses value query option) : Needed query query option
  | link {context : Nat} {reader producer : Fin n} (needed : Needed query context reader)
      (supplies : inputs.Supplies value context reader producer) : Needed query context producer
  | own {reading context : Nat} {own producer : Fin n} (needed : Needed query reading own)
      (shareable : inputs.kind own = .shareable)
      (place : inputs.contextOfShareable own = some context)
      (first : inputs.SuppliesOwn value context own producer) : Needed query context producer
  | pipeline {reading ingestion : Nat} {option : Fin n} (needed : Needed query reading option)
      (boundary : inputs.computes reading option = false) (kind : inputs.kind option = .ingestion)
      (source : inputs.ingestionContextReadBy reading = some ingestion) : Needed query ingestion option

/-- A needed shareable candidate is supplied to itself by its own context. -/
def SuppliesItself (own : Fin n) : Prop :=
  inputs.kind own = .shareable ∧ (∃ query reading, inputs.Needed value query reading own) ∧
    ∃ context, inputs.contextOfShareable own = some context ∧ inputs.OwnSupply value context own own

end

variable {inputs : MilpInputs n} {value : Variable n → ℚ}

theorem chooses_iff (integral : Integral value) {context : Nat} {option : Fin n} :
    inputs.Chooses value context option ↔ option ∈ (inputs.chosenBy value).chosen context :=
  (mem_chosen integral).symm

/-! ### What an input reads -/

theorem reads_first {chosen : ChosenCandidates n} {run other : Run n}
    (reads : inputs.Reads chosen run other) :
    ∃ context input producers, inputs.contextOf run = some context ∧
      (inputs.producers run.candidate)[input]? = some producers ∧
      (inputs.readable chosen run input producers).findSome? (inputs.runOf chosen context) =
        some other := by
  obtain ⟨results, result, input, listed⟩ := reads
  obtain ⟨context, here, each⟩ := inputsOf_ok result
  have flipped : List.Forall₂ (fun result read => inputs.inputOf chosen context run read = .ok result)
      results (inputs.producers run.candidate).zipIdx := List.Forall₂.flip each
  obtain ⟨⟨producers, position⟩, member, found⟩ := mem_of_forall₂ flipped _ listed
  exact ⟨context, position, producers, here, List.mem_zipIdx_iff_getElem?.mp member,
    (inputOf_ok.mp found).2⟩

theorem outputRuns_at {chosen : ChosenCandidates n} {outputs : List (Run n)}
    (result : inputs.outputRuns chosen = .ok outputs) {reference query : Nat} {run : Run n}
    (owner : inputs.references[reference]? = some query) (found : outputs[reference]? = some run) :
    ∃ candidates candidate, (query, candidates) ∈ inputs.references.zip inputs.outputs ∧
      candidate ∈ candidates ∧ inputs.runOf chosen query candidate = some run := by
  obtain ⟨⟨⟨query', candidates⟩, position⟩, item, ok⟩ :=
    exists_getElem?_of_forall₂ (mapM_eq_ok.mp result) found
  rw [List.getElem?_zipIdx, Option.map_eq_some_iff] at item
  obtain ⟨pair, zipped, same⟩ := item
  cases same
  obtain ⟨owner', _⟩ := List.getElem?_zip_eq_some.mp zipped
  cases owner.symm.trans owner'
  dsimp only at ok
  split at ok
  · next run' first =>
    cases ok
    obtain ⟨candidate, member, resolved⟩ := List.exists_of_findSome?_eq_some first
    exact ⟨candidates, candidate, List.mem_of_getElem? zipped, member, resolved⟩
  · cases ok

theorem Reached.runOfQuery {chosen : ChosenCandidates n} {run : Run n}
    (reached : inputs.Reached chosen run) : ∃ query, inputs.RunOfQuery chosen query run := by
  obtain ⟨outputs, result, output, listed, path⟩ := reached
  obtain ⟨reference, found⟩ := List.mem_iff_getElem?.mp listed
  obtain ⟨⟨⟨query, _⟩, position⟩, item, _⟩ := exists_getElem?_of_forall₂ (mapM_eq_ok.mp result) found
  rw [List.getElem?_zipIdx, Option.map_eq_some_iff] at item
  obtain ⟨pair, zipped, same⟩ := item
  cases same
  exact ⟨query, outputs, reference, output, result, (List.getElem?_zip_eq_some.mp zipped).1, found, path⟩

theorem runOf_computed {context : Nat} {option : Fin n} {run : Run n}
    (computes : inputs.computes context option = true)
    (resolved : inputs.runOf (inputs.chosenBy value) context option = some run) :
    run = .computed context option := by
  rw [runOf, if_neg (not_not.mpr (runOf_some resolved).1), if_pos computes] at resolved
  exact (Option.some.inj resolved).symm

theorem runOf_shareable {context : Nat} {option : Fin n} {run : Run n}
    (shareable : inputs.kind option = .shareable)
    (resolved : inputs.runOf (inputs.chosenBy value) context option = some run) : run = .shared option := by
  obtain ⟨_, ⟨computes, _⟩ | ⟨_, _, rfl⟩ | ⟨_, kind, _⟩⟩ := runOf_some resolved
  · rw [MilpInputs.computes, shareable] at computes
    cases computes
  · rfl
  · rw [shareable] at kind
    cases kind

namespace Solution
variable (solution : inputs.Solution value) (formed : inputs.WellFormed)
include solution formed

theorem findSome_runOf {context : Nat} {run : Run n} : ∀ {candidates : List (Fin n)},
    candidates.findSome? (inputs.runOf (inputs.chosenBy value) context) = some run ↔
      ∃ producer, candidates.find? (fun candidate => inputs.Chooses value context candidate) =
        some producer ∧ inputs.runOf (inputs.chosenBy value) context producer = some run
  | [] => by simp
  | candidate :: rest => by
    by_cases chooses : inputs.Chooses value context candidate
    · obtain ⟨other, found⟩ := solution.runOf_chosen formed ((chooses_iff solution.integral).mp chooses)
      rw [List.findSome?_cons, found, List.find?_cons_of_pos (by simpa using chooses)]
      simp [found]
    · have none : inputs.runOf (inputs.chosenBy value) context candidate = none := by
        rw [runOf, if_pos (mt (chooses_iff solution.integral).mpr chooses)]
      rw [List.findSome?_cons, none, List.find?_cons_of_neg (by simpa using chooses)]
      exact findSome_runOf

omit formed in
theorem supplies_of_readable {context input : Nat} {reader producer : Fin n} {producers : List (Fin n)}
    (readerHere : inputs.RunChosen (inputs.chosenBy value) (.computed context reader))
    (found : (inputs.producers reader)[input]? = some producers)
    (readable : producer ∈
      inputs.readable (inputs.chosenBy value) (.computed context reader) input producers)
    (chooses : inputs.Chooses value context producer) :
    inputs.Supplies value context reader producer := by
  obtain ⟨apart, linked⟩ := slot_of_readable readable
  refine ⟨readerHere.2, chooses, apart, input, producers, found, mem_of_readable readable, ?_⟩
  intro slots links
  obtain ⟨slot, inside, read, _⟩ := solution.slot_chosen readerHere.1 links found
  have one : (inputs.chosenBy value).slotReads context reader input =
      slots.find? fun slot => 1 / 2 < value (.slotLink context reader input slot) := by
    simp only [chosenBy, links]
  rw [linked slot read]
  have on := List.find?_some (one ▸ read)
  rwa [decide_eq_true_eq, half_lt_iff (solution.integral.slotLink ..)] at on

theorem reads_of_supplies {context : Nat} {reader producer : Fin n}
    (readerHere : inputs.RunChosen (inputs.chosenBy value) (.computed context reader))
    (supplies : inputs.Supplies value context reader producer) :
    ∃ run, inputs.runOf (inputs.chosenBy value) context producer = some run ∧
      inputs.Reads (inputs.chosenBy value) (.computed context reader) run := by
  obtain ⟨computes, chooses, apart, input, producers, found, member, linked⟩ := supplies
  have here := (chooses_iff solution.integral).mp chooses
  obtain ⟨run, resolved⟩ := solution.runOf_chosen formed here
  obtain ⟨reads, result⟩ := solution.inputsOf_total formed readerHere
  refine ⟨run, resolved, reads, result, input, ?_⟩
  refine solution.reads_listed readerHere.1 computes found member here apart ?_ resolved result
  unfold ReadsSlot
  cases links : inputs.slotLinks context reader input with
  | none => trivial
  | some slots =>
    obtain ⟨_, _, producers', found', rfl⟩ := slotLinks_some links
    cases found.symm.trans found'
    exact solution.slotReads_of_one links
      (mem_slotsRead.mpr ⟨apart, producer, member, chooses.1, rfl⟩) (linked _ links)

theorem reads_of_first {context : Nat} {own producer : Fin n}
    (here : own ∈ (inputs.chosenBy value).selected)
    (place : inputs.contextOfShareable own = some context)
    (first : inputs.SuppliesOwn value context own producer) :
    ∃ run, inputs.runOf (inputs.chosenBy value) context producer = some run ∧
      inputs.Reads (inputs.chosenBy value) (.shared own) run := by
  obtain ⟨producers, listed, first⟩ := first
  have chooses : inputs.Chooses value context producer := by simpa using List.find?_some first
  obtain ⟨run, resolved⟩ := solution.runOf_chosen formed ((chooses_iff solution.integral).mp chooses)
  obtain ⟨reads, result⟩ := solution.inputsOf_total formed
    (show inputs.RunChosen (inputs.chosenBy value) (.shared own) from here)
  obtain ⟨context', there, each⟩ := inputsOf_ok result
  cases place.symm.trans there
  obtain ⟨input, found⟩ := List.mem_iff_getElem?.mp listed
  have item : (producers, input) ∈ (inputs.producers own).zipIdx := List.mem_zipIdx_iff_getElem?.mpr found
  obtain ⟨⟨position, other⟩, member, ok⟩ := mem_of_forall₂ each _ item
  obtain ⟨producer', first', resolved'⟩ :=
    (solution.findSome_runOf formed).mp (inputOf_ok.mp ok).2
  cases first.symm.trans first'
  cases resolved.symm.trans resolved'
  exact ⟨_, resolved, reads, result, position, member⟩

theorem runOfQuery_output {query : Nat} {outputs : List (Fin n)} {option : Fin n}
    (listed : (query, outputs) ∈ inputs.references.zip inputs.outputs) (member : option ∈ outputs)
    (chooses : inputs.Chooses value query option) :
    ∃ run, inputs.runOf (inputs.chosenBy value) query option = some run ∧
      inputs.RunOfQuery (inputs.chosenBy value) query run := by
  obtain ⟨run, resolved⟩ := solution.runOf_chosen formed ((chooses_iff solution.integral).mp chooses)
  obtain ⟨runs, result⟩ := solution.outputRuns_total formed
  obtain ⟨reference, found⟩ := List.mem_iff_getElem?.mp listed
  have item : (inputs.references.zip inputs.outputs).zipIdx[reference]? =
      some ((query, outputs), reference) := by
    rw [List.getElem?_zipIdx, found]
    simp
  obtain ⟨other, there, ok⟩ := exists_getElem?_of_forall₂
    (show List.Forall₂ (fun run item => _) runs _ from (mapM_eq_ok.mp result).flip) item
  dsimp only at ok
  split at ok
  · next first =>
    cases ok
    obtain ⟨output, firstChosen, resolved'⟩ := (solution.findSome_runOf formed).mp first
    have outputChooses : inputs.Chooses value query output := by
      simpa using List.find?_some firstChosen
    have row := solution.rows _ (List.mem_append_left _ (List.mem_append_left _
      (List.mem_map_of_mem listed)))
    have sum : (inputs.chosenSum query outputs).eval value = 1 := by
      simpa [Constraint.Holds] using row
    rw [eval_chosenSum] at sum
    have within : ∀ {candidate}, candidate ∈ outputs → inputs.Chooses value query candidate →
        Variable.choice query candidate ∈
          (outputs.filter (· ∈ inputs.options query)).map (Variable.choice query) :=
      fun inside chooses => List.mem_map_of_mem
        (List.mem_filter.mpr ⟨inside, decide_eq_true chooses.1⟩)
    have same := one_of_sum_le (fun v inside => by
      obtain ⟨candidate, _, rfl⟩ := List.mem_map.mp inside
      exact solution.integral.choice query candidate) sum.le (within member chooses)
      (within (List.mem_of_find?_eq_some firstChosen) outputChooses) chooses.2 outputChooses.2
    cases same
    cases resolved.symm.trans resolved'
    exact ⟨_, resolved, runs, reference, _, result, (List.getElem?_zip_eq_some.mp found).1, there, .refl⟩
  · cases ok

/-! ### The runs of the needed candidates -/

theorem runOfQuery_of_needed {query context : Nat} {option : Fin n}
    (needed : inputs.Needed value query context option) :
    ∃ run, inputs.runOf (inputs.chosenBy value) context option = some run ∧
      inputs.RunOfQuery (inputs.chosenBy value) query run := by
  induction needed with
  | output listed member chooses => exact solution.runOfQuery_output formed listed member chooses
  | link _ supplies ih =>
    obtain ⟨run, resolved, below⟩ := ih
    cases runOf_computed supplies.computes resolved
    obtain ⟨other, there, reads⟩ :=
      solution.reads_of_supplies formed (below.reached.chosen formed) supplies
    exact ⟨other, there, below.tail reads⟩
  | own _ shareable place first ih =>
    obtain ⟨run, resolved, below⟩ := ih
    cases runOf_shareable shareable resolved
    obtain ⟨other, there, reads⟩ :=
      solution.reads_of_first formed (below.reached.chosen formed) place first
    exact ⟨other, there, below.tail reads⟩
  | pipeline _ boundary kind source ih =>
    obtain ⟨run, resolved, below⟩ := ih
    obtain ⟨_, ⟨computes, _⟩ | ⟨shareable, _⟩ | ⟨ingestion, _, source', there, rfl⟩⟩ := runOf_some resolved
    · rw [boundary] at computes
      cases computes
    · rw [kind] at shareable
      cases shareable
    · cases source.symm.trans source'
      refine ⟨_, ?_, below⟩
      rw [runOf, if_neg (not_not.mpr there), if_pos (below.reached.chosen formed).2]

theorem needed_of_reads {query reading : Nat} {option : Fin n} {reader other : Run n}
    (needed : inputs.Needed value query reading option)
    (resolved : inputs.runOf (inputs.chosenBy value) reading option = some reader)
    (reads : inputs.Reads (inputs.chosenBy value) reader other) :
    ∃ context producer, inputs.contextOf reader = some context ∧
      inputs.Needed value query context producer ∧
      inputs.runOf (inputs.chosenBy value) context producer = some other := by
  obtain ⟨context, input, producers, place, found, first⟩ := reads_first reads
  obtain ⟨producer, firstChosen, there⟩ := (solution.findSome_runOf formed).mp first
  refine ⟨context, producer, place, ?_, there⟩
  have chooses := (chooses_iff solution.integral).mpr (runOf_some there).1
  have chosen := runOf_runChosen formed resolved
  obtain ⟨_, ⟨computes, rfl⟩ | ⟨shareable, _, rfl⟩ | ⟨ingestion, kind, source, _, rfl⟩⟩ :=
    runOf_some resolved
  · cases place
    exact .link needed (solution.supplies_of_readable chosen found
      (List.mem_of_find?_eq_some firstChosen) chooses)
  · exact .own needed shareable place ⟨producers, List.mem_of_getElem? found, firstChosen⟩
  · cases place
    have supplies := solution.supplies_of_readable chosen found
      (List.mem_of_find?_eq_some firstChosen) chooses
    cases boundary : inputs.computes reading option with
    | false => exact .link (.pipeline needed boundary kind source) supplies
    | true =>
      cases runOf_computed boundary resolved
      exact .link needed supplies

theorem needed_of_runOfQuery {query : Nat} {run : Run n}
    (below : inputs.RunOfQuery (inputs.chosenBy value) query run) :
    ∃ context option, inputs.Needed value query context option ∧
      inputs.runOf (inputs.chosenBy value) context option = some run := by
  obtain ⟨outputs, reference, output, result, owner, found, path⟩ := below
  induction path with
  | refl =>
    obtain ⟨candidates, candidate, pair, member, resolved⟩ := outputRuns_at result owner found
    exact ⟨query, candidate,
      .output pair member ((chooses_iff solution.integral).mpr (runOf_some resolved).1), resolved⟩
  | tail _ reads ih =>
    obtain ⟨reading, option, needed, resolved⟩ := ih
    obtain ⟨context, producer, _, there, found⟩ := solution.needed_of_reads formed needed resolved reads
    exact ⟨context, producer, there, found⟩

/-! ### What a shareable candidate's context supplies -/

theorem below_of_ownSupply {context : Nat} {own option : Fin n}
    (reached : inputs.Reached (inputs.chosenBy value) (.shared own))
    (place : inputs.contextOfShareable own = some context)
    (supply : inputs.OwnSupply value context own option) :
    ∃ run, inputs.runOf (inputs.chosenBy value) context option = some run ∧
      TransGen (inputs.ReadsReached (inputs.chosenBy value)) (.shared own) run := by
  induction supply with
  | input first =>
    obtain ⟨run, resolved, reads⟩ := solution.reads_of_first formed (reached.chosen formed) place first
    exact ⟨run, resolved, .single ⟨reached, reads⟩⟩
  | @link reader producer _ supplies ih =>
    obtain ⟨run, resolved, path⟩ := ih
    cases runOf_computed supplies.computes resolved
    have there : inputs.Reached (inputs.chosenBy value) (.computed context reader) := by
      obtain ⟨_, _, last⟩ := TransGen.tail'_iff.mp path
      obtain ⟨⟨outputs, result, output, listed, before⟩, reads⟩ := last
      exact ⟨outputs, result, output, listed, before.tail reads⟩
    obtain ⟨other, found, reads⟩ := solution.reads_of_supplies formed (there.chosen formed) supplies
    exact ⟨other, found, path.tail ⟨there, reads⟩⟩

theorem cycle_of_suppliesItself {own : Fin n} (supplied : inputs.SuppliesItself value own) :
    TransGen (inputs.ReadsReached (inputs.chosenBy value)) (.shared own) (.shared own) := by
  obtain ⟨shareable, ⟨query, reading, needed⟩, context, place, supply⟩ := supplied
  obtain ⟨run, resolved, below⟩ := solution.runOfQuery_of_needed formed needed
  cases runOf_shareable shareable resolved
  obtain ⟨run, resolved, path⟩ := solution.below_of_ownSupply formed below.reached place supply
  cases runOf_shareable shareable resolved
  exact path

end Solution
end MilpInputs
end AsapPlanner.Milp
