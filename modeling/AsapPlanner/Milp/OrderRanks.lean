import AsapPlanner.Milp.Model
import AsapPlanner.Milp.Dependence

/-!
Which selections have order ranks: those whose used links have no cycle. Which acyclic selections the
order-rank rows admit.
-/

namespace AsapPlanner.Milp
open Relation Traversal Rust

/-! ### Ranks inside components -/

section
variable {K E : Type} [DecidableEq K] {nodes : List K} {components : Components K} {items : List E}
  {below above : E → K} {slack : E → ℚ}

/-- The rows of some items: between nodes of one component of two nodes or more. -/
def RankedBy (components : Components K) (items : List E) (below above : E → K) (slack : E → ℚ)
    (rank : K → ℚ) : Prop :=
  ∀ item ∈ items, components.of (below item) = components.of (above item) →
    2 ≤ components.sizeOf (above item) →
    (0 ≤ rank (below item) ∧ rank (below item) ≤ components.sizeOf (above item) - 1) ∧
      (0 ≤ rank (above item) ∧ rank (above item) ≤ components.sizeOf (above item) - 1) ∧
      rank (below item) + 1 ≤ rank (above item) + components.sizeOf (above item) * slack item

/-- A row without slack between its nodes. -/
def Tight (items : List E) (below above : E → K) (slack : E → ℚ) (a b : K) : Prop :=
  ∃ item ∈ items, below item = a ∧ above item = b ∧ slack item = 0

theorem rankedBy_of_acyclic
    (sized : ∀ node ∈ nodes, components.sizeOf node =
      (nodes.toFinset.filter fun other => components.of other = components.of node).card)
    (inside : ∀ item ∈ items, below item ∈ nodes ∧ above item ∈ nodes)
    (whole : ∀ item ∈ items, slack item = 0 ∨ 1 ≤ slack item)
    (acyclic : Acyclic (Tight items below above slack)) :
    ∃ rank : K → ℚ, RankedBy components items below above slack rank := by
  obtain ⟨rank, rises, bounded⟩ := acyclic.exists_ranks nodes.toFinset components.of
  refine ⟨fun node => rank node, fun item member same _ => ?_⟩
  obtain ⟨belowNode, aboveNode⟩ := inside item member
  have size := sized _ aboveNode
  have belowBound := bounded _ (List.mem_toFinset.mpr belowNode)
  have aboveBound := bounded _ (List.mem_toFinset.mpr aboveNode)
  rw [same, ← size] at belowBound
  rw [← size] at aboveBound
  have belowLe : (rank (below item) : ℚ) + 1 ≤ components.sizeOf (above item) := by
    exact_mod_cast belowBound
  have aboveLe : (rank (above item) : ℚ) + 1 ≤ components.sizeOf (above item) := by
    exact_mod_cast aboveBound
  have belowNonneg : (0 : ℚ) ≤ rank (below item) := Nat.cast_nonneg _
  have aboveNonneg : (0 : ℚ) ≤ rank (above item) := Nat.cast_nonneg _
  refine ⟨⟨belowNonneg, by linarith⟩, ⟨aboveNonneg, by linarith⟩, ?_⟩
  rcases whole item member with tight | loose
  · have step := rises _ (List.mem_toFinset.mpr belowNode) _ (List.mem_toFinset.mpr aboveNode) same
      ⟨item, member, rfl, rfl, tight⟩
    have next : (rank (below item) : ℚ) + 1 ≤ rank (above item) := by exact_mod_cast step
    rw [tight, mul_zero]
    linarith
  · have covered : (components.sizeOf (above item) : ℚ) ≤
        components.sizeOf (above item) * slack item := by
      nlinarith
    linarith

theorem acyclic_of_rankedBy
    (sized : ∀ node ∈ nodes, components.sizeOf node =
      (nodes.toFinset.filter fun other => components.of other = components.of node).card)
    (inside : ∀ item ∈ items, below item ∈ nodes ∧ above item ∈ nodes)
    (together : ∀ a b, a ∈ nodes → TransGen (Tight items below above slack) a b →
      TransGen (Tight items below above slack) b a → components.of a = components.of b)
    (apart : ∀ item ∈ items, slack item = 0 → below item ≠ above item) {rank : K → ℚ}
    (ranked : RankedBy components items below above slack rank) :
    Acyclic (Tight items below above slack) := by
  have rises : ∀ a b, Tight items below above slack a b ∧
      TransGen (Tight items below above slack) b a → rank a < rank b := by
    rintro a b ⟨step, back⟩
    obtain ⟨item, member, rfl, rfl, tight⟩ := id step
    obtain ⟨belowNode, aboveNode⟩ := inside item member
    have same := together _ _ belowNode (.single step) back
    have several : 2 ≤ components.sizeOf (above item) := by
      rw [sized _ aboveNode]
      apply Finset.one_lt_card.mpr
      exact ⟨below item, Finset.mem_filter.mpr ⟨List.mem_toFinset.mpr belowNode, same⟩, above item,
        Finset.mem_filter.mpr ⟨List.mem_toFinset.mpr aboveNode, rfl⟩, apart item member tight⟩
    have row := (ranked item member same several).2.2
    rw [tight, mul_zero] at row
    linarith
  intro key cycle
  exact acyclic_of_rank rises key (TransGen.leadingBack cycle .refl)

end

/-! ### The rank rows -/

/-- A solution with other ranks. -/
def withRanks {n : Nat} (value : Variable n → ℚ) (rank : Nat → Fin n → ℚ)
    (contextRank : Nat × Fin n → ℚ) : Variable n → ℚ
  | .rank context candidate => rank context candidate
  | .contextRank run => contextRank run
  | v => value v

namespace MilpInputs
variable {n : Nat} {inputs : MilpInputs n} {value : Variable n → ℚ}

/-- Computed and chosen in a context. -/
def Used (inputs : MilpInputs n) (value : Variable n → ℚ) (context : Nat) (candidate : Fin n) : Prop :=
  candidate ∈ inputs.computed context ∧ value (.choice context candidate) = 1

/-- A used candidate that a used reader of the context lists in another slot, whether it reads it or
not. -/
def UsedLink (inputs : MilpInputs n) (value : Variable n → ℚ) (context : Nat)
    (producer reader : Fin n) : Prop :=
  inputs.Used value context producer ∧ inputs.Used value context reader ∧
    inputs.slot producer ≠ inputs.slot reader ∧
    ∃ producers ∈ inputs.producers reader, producer ∈ producers

/-- A run that the context of a shareable candidate chooses to read, or that a used candidate of a
pipeline lists, whether it reads it or not. -/
inductive UsedRead (inputs : MilpInputs n) (value : Variable n → ℚ) :
    Nat × Fin n → Nat × Fin n → Prop
  | own {context : Nat} {shareable option : Fin n} {read : Nat × Fin n}
      (place : inputs.contextOfShareable shareable = some context)
      (listed : option ∈ inputs.options context) (chosen : value (.choice context option) = 1)
      (resolved : inputs.nodeRead context option = some read) :
      UsedRead inputs value (context, shareable) read
  | pipeline {context : Nat} {pipeline : IngestionPipeline n} {reader producer : Fin n}
      {read : Nat × Fin n} (kind : (inputs.context context).kind = .ingestion pipeline)
      (used : inputs.Used value context reader)
      (listed : producer ∈ (inputs.producers reader).flatten)
      (option : producer ∈ inputs.options context) (chosen : value (.choice context producer) = 1)
      (resolved : inputs.nodeRead context producer = some read) (apart : read ≠ (context, reader)) :
      UsedRead inputs value (context, reader) read

/-- No cycle of used links, in a context or across contexts. -/
def LinksAcyclic (inputs : MilpInputs n) (value : Variable n → ℚ) : Prop :=
  (∀ context < inputs.contexts.length, Acyclic (inputs.UsedLink value context)) ∧
    Acyclic (inputs.UsedRead value)

/-! ### Links inside a context -/

theorem mem_computed {context : Nat} {candidate : Fin n} :
    candidate ∈ inputs.computed context ↔
      candidate ∈ inputs.options context ∧ inputs.computes context candidate = true :=
  List.mem_filter

theorem mem_readers_candidate {context : Nat} {option reader : Fin n} {input : Nat} :
    .candidate reader input ∈ inputs.readers context option ↔
      reader ∈ inputs.computed context ∧ inputs.slot option ≠ inputs.slot reader ∧
        ∃ producers, (inputs.producers reader)[input]? = some producers ∧ option ∈ producers := by
  have by_inputs : ∀ other, .candidate reader input ∈ inputs.readsBy option other ↔
      other = reader ∧
        ∃ producers, (inputs.producers reader)[input]? = some producers ∧ option ∈ producers := by
    intro other
    simp only [readsBy, List.mem_filterMap, Prod.exists, List.mem_zipIdx_iff_getElem?]
    constructor
    · rintro ⟨producers, position, found, some⟩
      split at some
      · next here =>
        cases some
        exact ⟨rfl, producers, found, here⟩
      · cases some
    · rintro ⟨rfl, producers, found, here⟩
      exact ⟨producers, input, found, if_pos here⟩
  unfold readers
  rw [List.mem_append, List.mem_flatMap]
  simp only [List.mem_filter, Bool.and_eq_true, decide_eq_true_eq, by_inputs, mem_computed]
  constructor
  · rintro (⟨other, ⟨listed, computes, apart⟩, rfl, found⟩ | outside)
    · exact ⟨⟨listed, computes⟩, apart, found⟩
    · split at outside
      · simp only [List.mem_filterMap, Prod.exists] at outside
        obtain ⟨_, _, _, _, some⟩ := outside
        split at some <;> cases some
      · simp only [List.mem_filterMap, Prod.exists] at outside
        obtain ⟨_, _, _, some⟩ := outside
        split at some <;> cases some
      · cases outside
  · rintro ⟨⟨listed, computes⟩, apart, found⟩
    exact .inl ⟨reader, ⟨listed, computes, apart⟩, rfl, found⟩

theorem mem_links {context : Nat} {producer reader : Fin n} :
    (producer, reader) ∈ inputs.links context ↔
      producer ∈ inputs.computed context ∧ reader ∈ inputs.computed context ∧
        inputs.slot producer ≠ inputs.slot reader ∧
        ∃ producers ∈ inputs.producers reader, producer ∈ producers := by
  simp only [links, List.mem_flatMap, List.mem_filterMap]
  constructor
  · rintro ⟨other, computed, read, reading, some⟩
    cases read with
    | candidate reader' input =>
      cases some
      obtain ⟨reads, apart, producers, found, here⟩ := mem_readers_candidate.mp reading
      exact ⟨computed, reads, apart, producers, List.mem_of_getElem? found, here⟩
    | output reference => cases some
    | ownInput input => cases some
  · rintro ⟨computed, reads, apart, producers, listed, here⟩
    obtain ⟨input, found⟩ := List.mem_iff_getElem?.mp listed
    exact ⟨producer, computed, .candidate reader input,
      mem_readers_candidate.mpr ⟨reads, apart, producers, found, here⟩, rfl⟩

def linkSlack (value : Variable n → ℚ) (context : Nat) (link : Fin n × Fin n) : ℚ :=
  2 - value (.choice context link.1) - value (.choice context link.2)

theorem tight_link (integral : Integral value) {context : Nat} {producer reader : Fin n} :
    Tight (inputs.links context) Prod.fst Prod.snd (linkSlack value context) producer reader ↔
      inputs.UsedLink value context producer reader := by
  constructor
  · rintro ⟨link, member, rfl, rfl, tight⟩
    obtain ⟨computed, reads, apart, listed⟩ := mem_links.mp member
    have low := (integral.choice context link.1).le_one
    have high := (integral.choice context link.2).le_one
    unfold linkSlack at tight
    exact ⟨⟨computed, by linarith⟩, ⟨reads, by linarith⟩, apart, listed⟩
  · rintro ⟨⟨computed, low⟩, ⟨reads, high⟩, apart, listed⟩
    refine ⟨(producer, reader), mem_links.mpr ⟨computed, reads, apart, listed⟩, rfl, rfl, ?_⟩
    rw [linkSlack, low, high]
    norm_num

theorem linkSlack_whole (integral : Integral value) (context : Nat) (link : Fin n × Fin n) :
    linkSlack value context link = 0 ∨ 1 ≤ linkSlack value context link := by
  unfold linkSlack
  rcases integral.choice context link.1 with low | low <;>
    rcases integral.choice context link.2 with high | high <;> rw [low, high] <;> norm_num

def linkComponents (inputs : MilpInputs n) (context : Nat) : Components (Fin n) :=
  stronglyConnectedComponents (inputs.computed context) (inputs.links context)

theorem links_inside (context : Nat) : ∀ link ∈ inputs.links context,
    link.1 ∈ inputs.computed context ∧ link.2 ∈ inputs.computed context := by
  rintro ⟨producer, reader⟩ member
  obtain ⟨computed, reads, _⟩ := mem_links.mp member
  exact ⟨computed, reads⟩

theorem acyclicRows_met {context : Nat} (rank : Nat → Fin n → ℚ) (contextRank : Nat × Fin n → ℚ) :
    (∀ row ∈ inputs.acyclicRows context, row.Met (withRanks value rank contextRank)) ↔
      RankedBy (inputs.linkComponents context) (inputs.links context) Prod.fst Prod.snd
        (linkSlack value context) (rank context) := by
  unfold acyclicRows
  rw [List.forall_mem_filterMap]
  refine forall₂_congr fun link _ => ?_
  obtain ⟨producer, reader⟩ := link
  show (∀ row, (if (inputs.linkComponents context).of producer ≠
      (inputs.linkComponents context).of reader ∨
      (inputs.linkComponents context).sizeOf reader < 2 then none else _) = some row → _) ↔ _
  split
  · next outside =>
    refine ⟨fun _ same several => ?_, fun _ _ impossible => nomatch impossible⟩
    rcases outside with apart | few
    · exact absurd same apart
    · dsimp only at several
      omega
  · next inside =>
    rw [not_or, not_not, not_lt] at inside
    simp only [Option.some.injEq, forall_eq', RankRow.Met, Constraint.Holds, withRanks,
      Expression.eval_add, Expression.eval_var, Expression.eval_const, Expression.eval_scale,
      Expression.eval_sub, linkSlack, inside.1, inside.2, forall_const]
    exact Iff.rfl

end MilpInputs
end AsapPlanner.Milp
