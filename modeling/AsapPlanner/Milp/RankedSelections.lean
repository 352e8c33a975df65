import AsapPlanner.Milp.ContextRanks
import AsapPlanner.Milp.Dependence
import AsapPlanner.Milp.WellFormed

/-!
The rank rows over acyclic selections: they cut off those whose used candidates list one another in
a cycle, read or not.
-/

namespace AsapPlanner.Milp
open Relation Rust Traversal

namespace MilpInputs
variable {n : Nat} {inputs : MilpInputs n} {value : Variable n → ℚ}

/-- Every run that a selection has is reached from an output. -/
structure AllReached (inputs : MilpInputs n) (chosen : ChosenCandidates n) : Prop where
  computed : ∀ context, ∀ candidate ∈ chosen.chosen context,
    inputs.computes context candidate = true → inputs.Reached chosen (.computed context candidate)
  shared : ∀ shareable ∈ chosen.selected, inputs.Reached chosen (.shared shareable)

theorem Solution.reader_used (solution : inputs.Solution value) {context input : Nat}
    {option reader : Fin n} (reading : .candidate reader input ∈ inputs.readers context option)
    (counts : 0 < (inputs.readValue context option (.candidate reader input)).eval value) :
    reader ∈ (inputs.chosenBy value).chosen context ∧
      inputs.computes context reader = true ∧ inputs.slot option ≠ inputs.slot reader ∧
      (∃ producers, (inputs.producers reader)[input]? = some producers ∧ option ∈ producers) ∧
      inputs.ReadsSlot value context reader input (inputs.slot option) := by
  obtain ⟨computed, apart, listed⟩ := mem_readers_candidate.mp reading
  obtain ⟨readerListed, computes⟩ := mem_computed.mp computed
  dsimp only [readValue] at counts
  unfold ReadsSlot
  cases links : inputs.slotLinks context reader input with
  | none =>
    rw [links, Expression.eval_var] at counts
    have one := (solution.integral.choice context reader).resolve_left counts.ne'
    exact ⟨(mem_chosen solution.integral).mpr ⟨readerListed, one⟩, computes, apart, listed, trivial⟩
  | some slots =>
    rw [links, Expression.eval_sum] at counts
    have member : ∃ slot ∈ slots, slot = inputs.slot option ∧
        value (.slotLink context reader input slot) = 1 := by
      by_contra none
      refine counts.ne' (List.sum_eq_zero fun x link => ?_)
      obtain ⟨v, column, rfl⟩ := List.mem_map.mp link
      obtain ⟨slot, alike, rfl⟩ := List.mem_map.mp column
      obtain ⟨here, same⟩ := List.mem_filter.mp alike
      refine (solution.integral.slotLink context reader input slot).resolve_right fun one => ?_
      exact none ⟨slot, here, of_decide_eq_true same, one⟩
    obtain ⟨_, here, rfl, one⟩ := member
    have used : 1 ≤ value (.choice context reader) := by
      rw [← (solution.slotLink_rows links).1, ← one]
      exact List.single_le_sum (by
        intro x member
        obtain ⟨slot, _, rfl⟩ := List.mem_map.mp member
        exact (solution.integral.slotLink ..).nonneg) _ (List.mem_map_of_mem here)
    have one' := (solution.integral.choice context reader).eq_one used
    exact ⟨(mem_chosen solution.integral).mpr ⟨readerListed, one'⟩, computes, apart, listed,
      solution.slotReads_of_one links here one⟩

theorem mem_readers_shared {context : Nat} {own option : Fin n} {read : Reader n}
    (kind : (inputs.context context).kind = .shared own)
    (reading : read ∈ inputs.readers context option) :
    (∃ reader input, read = .candidate reader input) ∨
      ∃ producers ∈ inputs.producers own, option ∈ producers := by
  unfold readers at reading
  rw [List.mem_append, kind, List.mem_flatMap] at reading
  rcases reading with ⟨reader, _, by_reader⟩ | outside
  · obtain ⟨⟨_, input⟩, _, some⟩ := List.mem_filterMap.mp by_reader
    dsimp only at some
    split at some
    · exact .inl ⟨reader, input, (Option.some.inj some).symm⟩
    · cases some
  · obtain ⟨⟨producers, input⟩, member, some⟩ := List.mem_filterMap.mp outside
    dsimp only at some
    split at some
    · next listed =>
      exact .inr ⟨producers, (List.mem_zipIdx' member).2 ▸ List.getElem_mem _, listed⟩
    · cases some

theorem readersOfIngestion_kind (formed : inputs.WellFormed) {context other : Nat}
    (reading : other ∈ inputs.readersOfIngestion context) :
    ∃ pipeline, (inputs.context context).kind = .ingestion pipeline := by
  obtain ⟨shareable, _, some⟩ := List.mem_filterMap.mp reading
  split at some
  · next place => exact formed.pipelines shareable context place
  · cases some

/-- A chosen candidate of a shareable candidate's context is read by another used candidate there,
or listed by the shareable candidate itself. -/
theorem Solution.read_of_chosen_shared (solution : inputs.Solution value) (formed : inputs.WellFormed)
    {context : Nat} {own option : Fin n} (kind : (inputs.context context).kind = .shared own)
    (here : option ∈ (inputs.chosenBy value).chosen context) :
    (∃ reader input, .candidate reader input ∈ inputs.readers context option ∧
      0 < (inputs.readValue context option (.candidate reader input)).eval value) ∨
      ∃ producers ∈ inputs.producers own, option ∈ producers := by
  rcases solution.read_of_chosen here with ⟨read, reading, counts⟩ | ⟨other, reading, _⟩
  · rcases mem_readers_shared kind reading with ⟨reader, input, rfl⟩ | listed
    · exact .inl ⟨reader, input, reading, counts⟩
    · exact .inr listed
  · obtain ⟨pipeline, kind'⟩ := readersOfIngestion_kind formed reading
    rw [kind] at kind'
    cases kind'

theorem Solution.reads_used (solution : inputs.Solution value) {context input : Nat}
    {option reader : Fin n} {run : Run n}
    (reading : .candidate reader input ∈ inputs.readers context option)
    (counts : 0 < (inputs.readValue context option (.candidate reader input)).eval value)
    (here : option ∈ (inputs.chosenBy value).chosen context)
    (resolved : inputs.runOf (inputs.chosenBy value) context option = some run)
    {reads : List (Nat × Run n)}
    (result : inputs.inputsOf (inputs.chosenBy value) (.computed context reader) = .ok reads) :
    (input, run) ∈ reads := by
  obtain ⟨readerHere, computes, apart, ⟨producers, found, listed⟩, readsSlot⟩ :=
    solution.reader_used reading counts
  exact solution.reads_listed readerHere computes found listed here apart readsSlot resolved result

theorem Solution.not_usedRead_self (solution : inputs.Solution value) (formed : inputs.WellFormed)
    (reached : inputs.AllReached (inputs.chosenBy value))
    (fine : ∀ run, inputs.Reached (inputs.chosenBy value) run →
      ∃ reads, inputs.inputsOf (inputs.chosenBy value) run = .ok reads)
    (acyclic : Acyclic (inputs.ReadsReached (inputs.chosenBy value))) :
    ∀ run, ¬ inputs.UsedRead value run run := by
  intro run used
  cases used with
  | @own context shareable option _ place listed chosen resolved =>
    obtain ⟨rfl, _, kinds⟩ := nodeRead_some.mp resolved
    have kind := (formed.shared _ _ place).2
    have here := (mem_chosen solution.integral).mpr ⟨listed, chosen⟩
    have shareableKind : inputs.kind shareable = .shareable := by
      rcases kinds with ⟨shareable, _⟩ | ⟨_, source⟩
      · exact shareable
      · rw [ingestionContextReadBy, kind] at source
        obtain ⟨pipeline, kind'⟩ := formed.pipelines _ _ source
        rw [kind] at kind'
        cases kind'
    obtain ⟨run, resolved⟩ := solution.runOf_chosen formed here
    obtain ⟨_, ⟨computes, _⟩ | ⟨_, selected, rfl⟩ | ⟨_, kind', _⟩⟩ := runOf_some resolved
    · rw [MilpInputs.computes, shareableKind] at computes
      cases computes
    · rcases solution.read_of_chosen_shared formed kind here with
        ⟨reader, input, reading, counts⟩ | ⟨producers, listed, self⟩
      · obtain ⟨readerHere, computes, _⟩ := solution.reader_used reading counts
        have readerReached := reached.computed context reader readerHere computes
        obtain ⟨reads, result⟩ := fine _ readerReached
        have read := solution.reads_used reading counts here resolved result
        exact acyclic _ ((below_own formed kind readerReached).tail
          ⟨readerReached, reads, result, input, read⟩)
      · exact formed.noSelf _ _ listed self
    · rw [shareableKind] at kind'
      cases kind'
  | pipeline _ _ _ _ _ _ apart => exact apart rfl

theorem allReached_of_numbered {chosen : ChosenCandidates n} (bounded : inputs.Bounded chosen)
    {outputs : List (Run n)} {numbered : List (Numbered n)} (result : inputs.outputRuns chosen = .ok outputs)
    (run : inputs.numberFrom chosen inputs.rounds outputs [] = .ok numbered)
    (computed : ∀ context < inputs.contexts.length, ∀ candidate ∈ chosen.chosen context,
      inputs.computes context candidate = true → .computed context candidate ∈ numbered.map Prod.fst)
    (shared : ∀ shareable ∈ chosen.selected, .shared shareable ∈ numbered.map Prod.fst) :
    inputs.AllReached chosen := by
  have numbering := numberFrom_ok bounded (Numbering.start (outputRuns_placed bounded result))
    (Nat.le_add_right _ _) run
  have reached : ∀ run ∈ numbered.map Prod.fst, inputs.Reached chosen run := fun run member =>
    ⟨outputs, result, numbering.reached run (.inl member)⟩
  exact ⟨fun context candidate here computes =>
      reached _ (computed context (bounded context candidate here) candidate here computes),
    fun shareable here => reached _ (shared shareable here)⟩

/-- A selection that decodes to an acyclic DAG of all its runs has order ranks exactly when its used
candidates do not list one another in a cycle. -/
theorem ranks_exist_iff (physical : PhysicalASAPMemoCandidates n)
    (alive usable : Fin n → Bool) (refreshWindow : Fin n → Option RefreshWindow)
    (value : Variable n → ℚ)
    (solution : (physical.milpInputs alive usable refreshWindow).Solution value)
    {dag : DagOfSelectedCandidates n}
    (decoded : (physical.milpInputs alive usable refreshWindow).decode
      ((physical.milpInputs alive usable refreshWindow).chosenBy value) = .ok dag)
    (acyclic : dag.Acyclic)
    (reached : (physical.milpInputs alive usable refreshWindow).AllReached
      ((physical.milpInputs alive usable refreshWindow).chosenBy value)) :
    (∃ rank contextRank, ∀ row ∈ (physical.milpInputs alive usable refreshWindow).rankRows,
      row.Met (withRanks value rank contextRank)) ↔
      (physical.milpInputs alive usable refreshWindow).LinksAcyclic value := by
  obtain ⟨fine, acyclic_iff⟩ := decode_fine decoded
  have formed : (physical.milpInputs alive usable refreshWindow).WellFormed :=
    PhysicalASAPMemoCandidates.milpInputs_wellFormed
  exact rankRows_iff formed solution.integral
    (solution.not_usedRead_self formed reached fine (acyclic_iff.mp acyclic))

/-! ### Two groups that read each other -/

/-- Two memo groups, each with a scan and a root that reads the other group and its own, and a query
that reads both. -/
def crossed : PhysicalASAPMemoCandidates 5 where
  operatorNodes := [⟨0, true⟩, ⟨1, true⟩, ⟨0, true⟩, ⟨1, true⟩, ⟨2, true⟩]
  candidates candidate :=
    { operatorNode := candidate
      timing := .queryTime
      materialization := .notMaterialized
      producerCandidatesPerInput := match candidate with
        | 2 => [[1, 3], [0, 2]]
        | 3 => [[0, 2], [1, 3]]
        | 4 => [[0, 2], [1, 3]]
        | _ => []
      mayProduceQueryOutput := candidate = 4 }
  queryRoots := [.operator 2]

def crossedInputs : MilpInputs 5 :=
  crossed.milpInputs (fun _ => true) (fun _ => true) fun _ => none

/-- The query reads both roots, and each of them reads the two scans. -/
def crossedChoices : List (Variable 5) :=
  (List.finRange 5).map (.choice 0) ++
    [.slotLink 0 2 0 (.group 1 0), .slotLink 0 3 0 (.group 0 0), .slotLink 0 4 0 (.group 0 1),
      .slotLink 0 4 1 (.group 1 1)]

def crossedRuns : List (Numbered 5) :=
  [(.computed 0 4, [(0, .computed 0 2), (1, .computed 0 3)]),
    (.computed 0 3, [(0, .computed 0 0), (1, .computed 0 1)]), (.computed 0 1, []),
    (.computed 0 0, []), (.computed 0 2, [(0, .computed 0 1), (1, .computed 0 0)])]

/-- The query reads the scans itself. -/
def directChoices : List (Variable 5) :=
  [.choice 0 0, .choice 0 1, .choice 0 4, .slotLink 0 4 0 (.group 0 0), .slotLink 0 4 1 (.group 1 0)]

def directRuns : List (Numbered 5) :=
  [(.computed 0 4, [(0, .computed 0 0), (1, .computed 0 1)]), (.computed 0 1, []),
    (.computed 0 0, [])]

theorem crossed_solution {choices : List (Variable 5)}
    (rows : ∀ row ∈ crossedInputs.structuralRows, row.Holds (assignment choices)) :
    crossedInputs.Solution (assignment choices) :=
  ⟨assignment_integral choices, rows⟩

theorem crossed_reached {choices : List (Variable 5)} {numbered : List (Numbered 5)}
    (result : crossedInputs.outputRuns (crossedInputs.chosenBy (assignment choices)) =
      .ok [.computed 0 4])
    (run : crossedInputs.numberFrom (crossedInputs.chosenBy (assignment choices))
      crossedInputs.rounds [.computed 0 4] [] = .ok numbered)
    (listed : ∀ candidate ∈ (crossedInputs.chosenBy (assignment choices)).chosen 0,
      .computed 0 candidate ∈ numbered.map Prod.fst) :
    crossedInputs.AllReached (crossedInputs.chosenBy (assignment choices)) := by
  have one : crossedInputs.contexts.length = 1 := by decide +kernel
  have unshared : ∀ shareable, crossedInputs.contextOfShareable shareable = none := by
    decide +kernel
  refine allReached_of_numbered chosenBy_bounded result run ?_ ?_
  · intro context inside candidate here _
    obtain rfl : context = 0 := by omega
    exact listed candidate here
  · intro shareable here
    have placed := ((mem_selected (assignment_integral choices)).mp here).1
    rw [unshared] at placed
    cases placed

/-- The rows relate the two roots both ways, although neither reads the other. -/
theorem crossed_no_ranks : ∃ dag : DagOfSelectedCandidates 5,
    crossedInputs.Solution (assignment crossedChoices) ∧
      crossedInputs.decode (crossedInputs.chosenBy (assignment crossedChoices)) = .ok dag ∧
      dag.Acyclic ∧ crossedInputs.AllReached (crossedInputs.chosenBy (assignment crossedChoices)) ∧
      ¬ ∃ rank contextRank, ∀ row ∈ crossedInputs.rankRows,
        row.Met (withRanks (assignment crossedChoices) rank contextRank) := by
  have numbered : crossedInputs.numberFrom (crossedInputs.chosenBy (assignment crossedChoices))
      crossedInputs.rounds [.computed 0 4] [] = .ok crossedRuns := by decide +kernel
  refine ⟨dagOf [.computed 0 4] crossedRuns, crossed_solution (by decide +kernel), by decide +kernel,
    ?_, crossed_reached (by decide +kernel) numbered (by decide +kernel), ?_⟩
  · exact DagOfSelectedCandidates.acyclic_of_rank (fun node => [0, 1, 2, 2, 1].getD node 0)
      (by decide)
  · rintro ⟨rank, contextRank, met⟩
    have inside : RankedBy (crossedInputs.linkComponents 0) (crossedInputs.links 0) Prod.fst Prod.snd
        (linkSlack (assignment crossedChoices) 0) (rank 0) :=
      (acyclicRows_met _ _).mp fun row member => met row (List.mem_append_left _
        (List.mem_flatMap.mpr ⟨0, by decide +kernel, member⟩))
    have size : (crossedInputs.linkComponents 0).sizeOf (2 : Fin 5) = 2 := by decide +kernel
    have forward := (inside (2, 3) (by decide +kernel) (by decide +kernel) (by decide +kernel)).2.2
    have backward := (inside (3, 2) (by decide +kernel) (by decide +kernel) (by decide +kernel)).2.2
    have used : ∀ link : Fin 5 × Fin 5, linkSlack (assignment crossedChoices) 0 link = 0 := by
      decide +kernel
    rw [used, mul_zero] at forward backward
    linarith

theorem direct_links : crossedInputs.LinksAcyclic (assignment directChoices) := by
  have one : crossedInputs.contexts.length = 1 := by decide +kernel
  have none : crossedInputs.nodes = [] := by decide +kernel
  let rank : Fin 5 → Nat := fun candidate => if candidate = 4 then 1 else 0
  have rises : ∀ producer reader, (producer, reader) ∈ crossedInputs.links 0 →
      assignment directChoices (.choice 0 producer) = 1 →
      assignment directChoices (.choice 0 reader) = 1 → rank producer < rank reader := by
    decide +kernel
  refine ⟨fun context inside => ?_, ?_⟩
  · obtain rfl : context = 0 := by omega
    refine acyclic_of_rank (show ∀ producer reader, _ → rank producer < rank reader from ?_)
    rintro producer reader ⟨⟨computed, low⟩, ⟨reads, high⟩, apart, listed⟩
    exact rises _ _ (mem_links.mpr ⟨computed, reads, apart, listed⟩) low high
  · have nothing : ∀ reader read, ¬ crossedInputs.UsedRead (assignment directChoices) reader read := by
      intro reader read used
      have node : read ∈ crossedInputs.nodes := by
        cases used with
        | own _ _ _ resolved => exact (nodeRead_some.mp resolved).2.1
        | pipeline _ _ _ _ _ resolved => exact (nodeRead_some.mp resolved).2.1
      rw [none] at node
      cases node
    exact acyclic_of_rank (show ∀ reader read, _ → (0 : Nat) < 0 from
      fun reader read used => absurd used (nothing reader read))

/-- A query that reads the scans itself has ranks. -/
theorem direct_ranks : ∃ rank contextRank, ∀ row ∈ crossedInputs.rankRows,
    row.Met (withRanks (assignment directChoices) rank contextRank) := by
  have numbered : crossedInputs.numberFrom (crossedInputs.chosenBy (assignment directChoices))
      crossedInputs.rounds [.computed 0 4] [] = .ok directRuns := by decide +kernel
  have decoded : crossedInputs.decode (crossedInputs.chosenBy (assignment directChoices)) =
      .ok (dagOf [.computed 0 4] directRuns) := by decide +kernel
  exact (ranks_exist_iff crossed (fun _ => true) (fun _ => true) (fun _ => none)
    (assignment directChoices) (crossed_solution (by decide +kernel)) decoded
    (DagOfSelectedCandidates.acyclic_of_rank (fun node => [0, 1, 1].getD node 0) (by decide))
    (crossed_reached (by decide +kernel) numbered (by decide +kernel))).mpr direct_links

end MilpInputs
end AsapPlanner.Milp
