import AsapPlanner.Milp.Model
import AsapPlanner.Rust.Result
import AsapPlanner.Traversal.Run
import Mathlib.Data.List.TakeWhile

/-!
The decoded DAG: one node for each run that the outputs reach, over the runs it reads.
-/

namespace AsapPlanner.Milp
open Relation Rust Traversal

/-- No node is below itself. -/
def DagOfSelectedCandidates.Acyclic {n : Nat} (dag : DagOfSelectedCandidates n) : Prop :=
  Traversal.Acyclic fun consumer producer =>
    ∃ edge ∈ dag.edges, edge.consumer = consumer ∧ edge.producer = producer

theorem DagOfSelectedCandidates.acyclic_of_rank {n : Nat} {dag : DagOfSelectedCandidates n}
    (rank : Nat → Nat) (rises : ∀ edge ∈ dag.edges, rank edge.consumer < rank edge.producer) :
    dag.Acyclic := by
  refine Traversal.acyclic_of_rank (show ∀ consumer producer, _ → rank consumer < rank producer from ?_)
  rintro _ _ ⟨edge, member, rfl, rfl⟩
  exact rises edge member

namespace MilpInputs
variable {n : Nat} (inputs : MilpInputs n) (chosen : ChosenCandidates n)

def Reads (run other : Run n) : Prop :=
  ∃ reads, inputs.inputsOf chosen run = .ok reads ∧ ∃ input, (input, other) ∈ reads

/-- The runs that the output references lead to. -/
def Reached (run : Run n) : Prop :=
  ∃ outputs, inputs.outputRuns chosen = .ok outputs ∧
    ∃ output ∈ outputs, ReflTransGen (inputs.Reads chosen) output run

/-- Contexts choose among the options of contexts there are. -/
def Bounded : Prop :=
  ∀ context, ∀ option ∈ chosen.chosen context, context < inputs.contexts.length

def Placed : Run n → Prop
  | .computed context _ => context < inputs.contexts.length
  | .shared _ => True

def allRuns : List (Run n) :=
  ((List.range inputs.contexts.length).flatMap fun context =>
    (List.finRange n).map (Run.computed context)) ++ (List.finRange n).map .shared

theorem length_allRuns : inputs.allRuns.length + 1 = inputs.rounds := by
  simp [allRuns, rounds, List.length_flatMap]

theorem mem_allRuns {run : Run n} (placed : inputs.Placed run) : run ∈ inputs.allRuns := by
  cases run with
  | computed context candidate =>
    exact List.mem_append_left _ (List.mem_flatMap.mpr
      ⟨context, List.mem_range.mpr placed, List.mem_map_of_mem (List.mem_finRange _)⟩)
  | shared candidate =>
    exact List.mem_append_right _ (List.mem_map_of_mem (List.mem_finRange _))

variable {inputs chosen}

theorem runOf_some {context : Nat} {producer : Fin n} {run : Run n}
    (found : inputs.runOf chosen context producer = some run) :
    producer ∈ chosen.chosen context ∧
      ((inputs.computes context producer = true ∧ run = .computed context producer) ∨
        (inputs.kind producer = .shareable ∧ producer ∈ chosen.selected ∧ run = .shared producer) ∨
        ∃ ingestion, inputs.kind producer = .ingestion ∧
          inputs.ingestionContextReadBy context = some ingestion ∧
          producer ∈ chosen.chosen ingestion ∧ run = .computed ingestion producer) := by
  unfold runOf at found
  split at found
  · cases found
  · next here =>
    refine ⟨not_not.mp here, ?_⟩
    split at found
    · next computes => exact .inl ⟨computes, (Option.some.inj found).symm⟩
    · cases kind : inputs.kind producer with
      | perContext => simp [kind] at found
      | shareable =>
        simp only [kind] at found
        split at found
        · next selected => exact .inr (.inl ⟨rfl, selected, (Option.some.inj found).symm⟩)
        · cases found
      | ingestion =>
        simp only [kind, Option.map_eq_some_iff, Option.filter_eq_some_iff,
          decide_eq_true_eq] at found
        obtain ⟨ingestion, ⟨source, there⟩, same⟩ := found
        exact .inr (.inr ⟨ingestion, rfl, source, there, same.symm⟩)

theorem runOf_placed (bounded : inputs.Bounded chosen) {context : Nat} {producer : Fin n}
    {run : Run n} (found : inputs.runOf chosen context producer = some run) : inputs.Placed run := by
  obtain ⟨here, computed | shared | ⟨ingestion, _, _, there, same⟩⟩ := runOf_some found
  · rw [computed.2]
    exact bounded context producer here
  · rw [shared.2.2]
    trivial
  · rw [same]
    exact bounded ingestion producer there

theorem inputOf_ok {context : Nat} {run : Run n} {read : List (Fin n) × Nat} {result : Nat × Run n} :
    inputs.inputOf chosen context run read = .ok result ↔ result.1 = read.2 ∧
      (inputs.readable chosen run read.2 read.1).findSome? (inputs.runOf chosen context) =
        some result.2 := by
  obtain ⟨input, producer⟩ := result
  unfold inputOf
  split
  · next other found => simp [found, Prod.ext_iff, eq_comm]
  · next missing => simp [missing]

theorem inputsOf_ok {run : Run n} {reads : List (Nat × Run n)}
    (result : inputs.inputsOf chosen run = .ok reads) :
    ∃ context, inputs.contextOf run = some context ∧
      List.Forall₂ (fun read result => inputs.inputOf chosen context run read = .ok result)
        (inputs.producers run.candidate).zipIdx reads := by
  unfold inputsOf at result
  split at result
  · cases result
  · next context here => exact ⟨context, here, mapM_eq_ok.mp result⟩

theorem reads_placed (bounded : inputs.Bounded chosen) {run : Run n} {reads : List (Nat × Run n)}
    (result : inputs.inputsOf chosen run = .ok reads) {read : Nat × Run n} (member : read ∈ reads) :
    inputs.Placed read.2 := by
  obtain ⟨context, _, each⟩ := inputsOf_ok result
  have flipped : List.Forall₂ (fun result read => inputs.inputOf chosen context run read = .ok result)
      reads (inputs.producers run.candidate).zipIdx := List.Forall₂.flip each
  obtain ⟨item, _, found⟩ := mem_of_forall₂ flipped read member
  obtain ⟨producer, _, resolved⟩ := List.exists_of_findSome?_eq_some (inputOf_ok.mp found).2
  exact runOf_placed bounded resolved

/-! ### Runs in the order of their numbers -/

/-- What holds of the runs numbered so far, with those on the stack. -/
structure Numbering (inputs : MilpInputs n) (chosen : ChosenCandidates n) (outputs : List (Run n))
    (stack : List (Run n)) (numbered : List (Numbered n)) : Prop where
  distinct : (numbered.map Prod.fst).Nodup
  reads : ∀ entry ∈ numbered, inputs.inputsOf chosen entry.1 = .ok entry.2
  closed : ∀ entry ∈ numbered, ∀ read ∈ entry.2, read.2 ∈ numbered.map Prod.fst ∨ read.2 ∈ stack
  listed : ∀ run ∈ outputs, run ∈ numbered.map Prod.fst ∨ run ∈ stack
  placed : ∀ run, run ∈ numbered.map Prod.fst ∨ run ∈ stack → inputs.Placed run
  reached : ∀ run, run ∈ numbered.map Prod.fst ∨ run ∈ stack →
    ∃ output ∈ outputs, ReflTransGen (inputs.Reads chosen) output run

variable {outputs stack : List (Run n)} {numbered final : List (Numbered n)}

theorem Numbering.start (placed : ∀ run ∈ outputs, inputs.Placed run) :
    Numbering inputs chosen outputs outputs [] where
  distinct := List.nodup_nil
  reads := nofun
  closed := nofun
  listed _ member := .inr member
  placed run here := placed run (here.resolve_left List.not_mem_nil)
  reached run here := ⟨run, here.resolve_left List.not_mem_nil, .refl⟩

theorem Numbering.skip (numbering : Numbering inputs chosen outputs stack numbered) {rest : List (Run n)}
    (left : stack.dropWhile (fun run => run ∈ numbered.map Prod.fst) = rest) :
    Numbering inputs chosen outputs rest numbered := by
  have split : ∀ run ∈ stack, run ∈ numbered.map Prod.fst ∨ run ∈ rest := by
    intro run member
    rw [← List.takeWhile_append_dropWhile (l := stack)
      (p := fun run => decide (run ∈ numbered.map Prod.fst)), left] at member
    rcases List.mem_append.mp member with early | late
    · have known := List.mem_takeWhile_imp early
      exact .inl (by simpa only [decide_eq_true_eq] using known)
    · exact .inr late
  have kept : ∀ run, run ∈ rest → run ∈ stack := by
    intro run member
    rw [← left] at member
    exact (List.dropWhile_sublist _).subset member
  refine ⟨numbering.distinct, numbering.reads, ?_, ?_, ?_, ?_⟩
  · intro entry member read listed
    exact (numbering.closed entry member read listed).elim .inl (split _)
  · intro run member
    exact (numbering.listed run member).elim .inl (split _)
  · intro run here
    exact numbering.placed run (here.imp_right (kept run))
  · intro run here
    exact numbering.reached run (here.imp_right (kept run))

theorem Numbering.number (bounded : inputs.Bounded chosen) {run : Run n}
    (numbering : Numbering inputs chosen outputs (run :: stack) numbered)
    (new : run ∉ numbered.map Prod.fst) {reads : List (Nat × Run n)}
    (result : inputs.inputsOf chosen run = .ok reads) :
    Numbering inputs chosen outputs ((reads.map Prod.snd).reverse ++ stack)
      (numbered ++ [(run, reads)]) := by
  have moved : ∀ other, other ∈ numbered.map Prod.fst ∨ other ∈ run :: stack →
      other ∈ (numbered ++ [(run, reads)]).map Prod.fst ∨
        other ∈ (reads.map Prod.snd).reverse ++ stack := by
    intro other here
    rcases here with before | here
    · exact .inl (by simp [before])
    · rcases List.mem_cons.mp here with rfl | later
      · exact .inl (by simp)
      · exact .inr (List.mem_append_right _ later)
  have sources : ∀ other, other ∈ (numbered ++ [(run, reads)]).map Prod.fst ∨
      other ∈ (reads.map Prod.snd).reverse ++ stack →
      (other ∈ numbered.map Prod.fst ∨ other ∈ run :: stack) ∨ ∃ read ∈ reads, read.2 = other := by
    intro other here
    rcases here with before | here
    · rw [List.map_append, List.mem_append] at before
      exact .inl (before.imp_right fun last => by
        rw [List.mem_singleton.mp last]
        exact List.mem_cons_self)
    · rcases List.mem_append.mp here with below | later
      · exact .inr (List.mem_map.mp (List.mem_reverse.mp below))
      · exact .inl (.inr (List.mem_cons_of_mem _ later))
  refine ⟨?_, ?_, ?_, ?_, ?_, ?_⟩
  · rw [List.map_append, List.nodup_append]
    refine ⟨numbering.distinct, List.nodup_singleton _, fun a before b last => ?_⟩
    rw [List.mem_singleton.mp last]
    rintro rfl
    exact new before
  · intro entry member
    rcases List.mem_append.mp member with before | last
    · exact numbering.reads entry before
    · rw [List.mem_singleton.mp last]
      exact result
  · intro entry member read listed
    rcases List.mem_append.mp member with before | last
    · exact moved _ (numbering.closed entry before read listed)
    · rw [List.mem_singleton.mp last] at listed
      exact .inr (List.mem_append_left _ (List.mem_reverse.mpr (List.mem_map_of_mem listed)))
  · intro output member
    exact moved _ (numbering.listed output member)
  · intro other here
    rcases sources other here with before | ⟨read, listed, rfl⟩
    · exact numbering.placed other before
    · exact reads_placed bounded result listed
  · intro other here
    rcases sources other here with before | ⟨read, listed, rfl⟩
    · exact numbering.reached other before
    · obtain ⟨output, member, path⟩ := numbering.reached run (.inr List.mem_cons_self)
      exact ⟨output, member, path.tail ⟨reads, result, read.1, listed⟩⟩

theorem Numbering.length_lt (numbering : Numbering inputs chosen outputs stack numbered) :
    numbered.length < inputs.rounds := by
  have fewer := (List.subperm_of_subset numbering.distinct fun run member =>
    inputs.mem_allRuns (numbering.placed run (.inl member))).length_le
  rw [List.length_map] at fewer
  have total := inputs.length_allRuns
  omega

theorem head_dropWhile {α : Type} {p : α → Bool} {items rest : List α} {item : α}
    (left : items.dropWhile p = item :: rest) : p item = false := by
  have holds := List.head_dropWhile_not p (l := items) (by rw [left]; exact List.cons_ne_nil _ _)
  simpa [left] using holds

theorem numberFrom_ok (bounded : inputs.Bounded chosen) {rounds : Nat}
    (numbering : Numbering inputs chosen outputs stack numbered)
    (enough : inputs.rounds ≤ rounds + numbered.length)
    (run : inputs.numberFrom chosen rounds stack numbered = .ok final) :
    Numbering inputs chosen outputs [] final := by
  induction rounds generalizing stack numbered with
  | zero =>
    have few := numbering.length_lt
    omega
  | succ rounds ih =>
    unfold numberFrom at run
    split at run
    · next left =>
      cases run
      exact numbering.skip left
    · next next stack' left =>
      obtain ⟨reads, result, rest⟩ := bind_eq_ok run
      have new : next ∉ numbered.map Prod.fst := by
        simpa only [decide_eq_false_iff_not] using head_dropWhile left
      refine ih ((numbering.skip left).number bounded new result) ?_ rest
      rw [List.length_append, List.length_singleton]
      omega

theorem numberFrom_total (bounded : inputs.Bounded chosen) (rounds : Nat)
    (numbering : Numbering inputs chosen outputs stack numbered)
    (fine : ∀ run, (∃ output ∈ outputs, ReflTransGen (inputs.Reads chosen) output run) →
      ∃ reads, inputs.inputsOf chosen run = .ok reads) :
    ∃ final, inputs.numberFrom chosen rounds stack numbered = .ok final := by
  induction rounds generalizing stack numbered with
  | zero => exact ⟨numbered, rfl⟩
  | succ rounds ih =>
    unfold numberFrom
    split
    · exact ⟨numbered, rfl⟩
    · next next stack' left =>
      have skipped := numbering.skip left
      obtain ⟨reads, result⟩ := fine next (skipped.reached next (.inr List.mem_cons_self))
      have new : next ∉ numbered.map Prod.fst := by
        simpa only [decide_eq_false_iff_not] using head_dropWhile left
      obtain ⟨final, run⟩ := ih (skipped.number bounded new result)
      exact ⟨final, by rw [result]; exact run⟩

/-! ### The decoded DAG -/

theorem outputRuns_ok (result : inputs.outputRuns chosen = .ok outputs) {run : Run n}
    (member : run ∈ outputs) :
    ∃ query candidates candidate, (query, candidates) ∈ inputs.references.zip inputs.outputs ∧
      candidate ∈ candidates ∧ inputs.runOf chosen query candidate = some run := by
  have flipped := (List.Forall₂.flip (mapM_eq_ok.mp result) : List.Forall₂ (fun run item => _) _ _)
  obtain ⟨⟨⟨query, candidates⟩, reference⟩, listed, found⟩ := mem_of_forall₂ flipped run member
  dsimp only at found
  split at found
  · next other resolved =>
    cases found
    obtain ⟨candidate, inside, resolved⟩ := List.exists_of_findSome?_eq_some resolved
    exact ⟨query, candidates, candidate, List.mem_of_getElem? (List.mem_zipIdx_iff_getElem?.mp listed),
      inside, resolved⟩
  · cases found

theorem outputRuns_placed (bounded : inputs.Bounded chosen)
    (result : inputs.outputRuns chosen = .ok outputs) : ∀ run ∈ outputs, inputs.Placed run := by
  intro run member
  obtain ⟨_, _, _, _, _, resolved⟩ := outputRuns_ok result member
  exact runOf_placed bounded resolved

def dagOf (outputs : List (Run n)) (numbered : List (Numbered n)) : DagOfSelectedCandidates n where
  candidateOfNode := numbered.map fun entry => entry.1.candidate
  edges := edgesOf numbered
  nodeOfOutputReference := outputs.map (numbered.map Prod.fst).idxOf

theorem decode_ok (bounded : inputs.Bounded chosen) {dag : DagOfSelectedCandidates n}
    (run : inputs.decode chosen = .ok dag) :
    ∃ outputs numbered, inputs.outputRuns chosen = .ok outputs ∧
      Numbering inputs chosen outputs [] numbered ∧ dag = dagOf outputs numbered := by
  obtain ⟨outputs, result, run⟩ := bind_eq_ok run
  obtain ⟨numbered, numbering, run⟩ := bind_eq_ok run
  cases run
  exact ⟨outputs, numbered, result, numberFrom_ok bounded
    (Numbering.start (outputRuns_placed bounded result)) (Nat.le_add_right _ _) numbering, rfl⟩

theorem decode_total (bounded : inputs.Bounded chosen)
    (result : inputs.outputRuns chosen = .ok outputs)
    (fine : ∀ run, inputs.Reached chosen run → ∃ reads, inputs.inputsOf chosen run = .ok reads) :
    ∃ dag, inputs.decode chosen = .ok dag := by
  obtain ⟨numbered, numbering⟩ := numberFrom_total bounded inputs.rounds
    (Numbering.start (outputRuns_placed bounded result))
    fun run below => fine run ⟨outputs, result, below⟩
  refine ⟨dagOf outputs numbered, ?_⟩
  rw [decode, result]
  show (inputs.numberFrom chosen inputs.rounds outputs [] >>= fun numbered =>
    pure (dagOf outputs numbered)) = _
  rw [numbering]
  rfl

theorem Numbering.mem_of_reached (numbering : Numbering inputs chosen outputs [] numbered)
    (result : inputs.outputRuns chosen = .ok outputs) {run : Run n}
    (reached : inputs.Reached chosen run) : run ∈ numbered.map Prod.fst := by
  obtain ⟨outputs', result', output, member, path⟩ := reached
  cases result.symm.trans result'
  induction path with
  | refl => exact (numbering.listed output member).resolve_right List.not_mem_nil
  | tail _ reads ih =>
    obtain ⟨reads, read, input, listed⟩ := reads
    obtain ⟨entry, here, rfl⟩ := List.mem_map.mp ih
    cases (numbering.reads entry here).symm.trans read
    exact (numbering.closed entry here _ listed).resolve_right List.not_mem_nil

theorem Numbering.position (numbering : Numbering inputs chosen outputs stack numbered) {run : Run n}
    (member : run ∈ numbered.map Prod.fst) :
    ∃ reads, numbered[(numbered.map Prod.fst).idxOf run]? = some (run, reads) ∧
      inputs.inputsOf chosen run = .ok reads := by
  have here := List.getElem?_idxOf member
  rw [List.getElem?_map, Option.map_eq_some_iff] at here
  obtain ⟨⟨_, reads⟩, found, rfl⟩ := here
  exact ⟨reads, found, numbering.reads _ (List.mem_of_getElem? found)⟩

theorem mem_edgesOf {edge : SelectedEdge} :
    edge ∈ edgesOf numbered ↔ ∃ run reads, numbered[edge.consumer]? = some (run, reads) ∧
      ∃ producer, (edge.input, producer) ∈ reads ∧
        edge.producer = (numbered.map Prod.fst).idxOf producer := by
  obtain ⟨producer, consumer, input⟩ := edge
  simp only [edgesOf, List.mem_flatMap, List.mem_map, Prod.exists, List.mem_zipIdx_iff_getElem?,
    SelectedEdge.mk.injEq]
  constructor
  · rintro ⟨run, reads, position, found, read, other, listed, rfl, rfl, rfl⟩
    exact ⟨run, reads, found, other, listed, rfl⟩
  · rintro ⟨run, reads, found, other, listed, rfl⟩
    exact ⟨run, reads, consumer, found, input, other, listed, rfl, rfl, rfl⟩

/-- A run the outputs reach reads another. -/
def ReadsReached (inputs : MilpInputs n) (chosen : ChosenCandidates n) (run other : Run n) : Prop :=
  inputs.Reached chosen run ∧ inputs.Reads chosen run other

theorem Numbering.reached_of_mem (numbering : Numbering inputs chosen outputs [] numbered)
    (result : inputs.outputRuns chosen = .ok outputs) {run : Run n}
    (member : run ∈ numbered.map Prod.fst) : inputs.Reached chosen run :=
  ⟨outputs, result, numbering.reached run (.inl member)⟩

theorem Numbering.reads_of_edge (numbering : Numbering inputs chosen outputs [] numbered)
    (result : inputs.outputRuns chosen = .ok outputs) {edge : SelectedEdge}
    (member : edge ∈ (dagOf outputs numbered).edges) :
    ∃ a b, (numbered.map Prod.fst)[edge.consumer]? = some a ∧
      (numbered.map Prod.fst)[edge.producer]? = some b ∧ ReadsReached inputs chosen a b := by
  obtain ⟨run, reads, found, producer, listed, same⟩ := mem_edgesOf.mp member
  have entry := List.mem_of_getElem? found
  have known := (numbering.closed _ entry _ listed).resolve_right List.not_mem_nil
  refine ⟨run, producer, by rw [List.getElem?_map, found]; rfl, ?_, ?_⟩
  · rw [same, List.getElem?_idxOf known]
  · exact ⟨numbering.reached_of_mem result (List.mem_map_of_mem entry), reads,
      numbering.reads _ entry, edge.input, listed⟩

theorem Numbering.acyclic_iff (numbering : Numbering inputs chosen outputs [] numbered)
    (result : inputs.outputRuns chosen = .ok outputs) :
    (dagOf outputs numbered).Acyclic ↔ Acyclic (ReadsReached inputs chosen) := by
  constructor
  · intro acyclic run cycle
    refine acyclic ((numbered.map Prod.fst).idxOf run) 
      (TransGen.lift (fun run => (numbered.map Prod.fst).idxOf run) ?_ _ _ cycle)
    rintro a b ⟨here, reads, read, input, listed⟩
    obtain ⟨reads', found, read'⟩ := numbering.position (numbering.mem_of_reached result here)
    cases read.symm.trans read'
    exact ⟨⟨_, _, input⟩, mem_edgesOf.mpr ⟨a, reads, found, b, listed, rfl⟩, rfl, rfl⟩
  · intro acyclic node cycle
    have path : ∀ {k j}, TransGen (fun consumer producer => ∃ edge ∈ (dagOf outputs numbered).edges,
        edge.consumer = consumer ∧ edge.producer = producer) k j →
        ∃ a b, (numbered.map Prod.fst)[k]? = some a ∧ (numbered.map Prod.fst)[j]? = some b ∧
          TransGen (ReadsReached inputs chosen) a b := by
      intro k j path
      induction path with
      | single link =>
        obtain ⟨edge, member, rfl, rfl⟩ := link
        obtain ⟨a, b, here, there, reads⟩ := numbering.reads_of_edge result member
        exact ⟨a, b, here, there, .single reads⟩
      | tail _ link ih =>
        obtain ⟨edge, member, rfl, rfl⟩ := link
        obtain ⟨a, b, here, middle, before⟩ := ih
        obtain ⟨b', c, middle', there, reads⟩ := numbering.reads_of_edge result member
        cases middle.symm.trans middle'
        exact ⟨a, c, here, there, before.tail reads⟩
    obtain ⟨a, b, here, there, cycle⟩ := path cycle
    cases here.symm.trans there
    exact acyclic a cycle

end MilpInputs
end AsapPlanner.Milp
