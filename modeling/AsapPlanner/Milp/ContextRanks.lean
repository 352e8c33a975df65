import AsapPlanner.Milp.OrderRanks

/-!
The rank rows across contexts, and the selections that both families of rank rows admit.
-/

namespace AsapPlanner.Milp
open Relation Rust Traversal

theorem missing_cases {V : Type} {value : V → ℚ} {columns : List V}
    (binary : ∀ v ∈ columns, Binary (value v)) :
    (columns.length - (columns.map value).sum = 0 ∧ ∀ v ∈ columns, value v = 1) ∨
      (1 ≤ columns.length - (columns.map value).sum ∧ ∃ v ∈ columns, value v = 0) := by
  induction columns with
  | nil => exact .inl ⟨by norm_num, nofun⟩
  | cons v columns ih =>
    have tail := ih fun w here => binary w (List.mem_cons_of_mem _ here)
    simp only [List.length_cons, List.map_cons, List.sum_cons, Nat.cast_add, Nat.cast_one]
    rcases binary v List.mem_cons_self with zero | one
    · refine .inr ⟨?_, v, List.mem_cons_self, zero⟩
      rcases tail with ⟨none, _⟩ | ⟨several, _⟩ <;> rw [zero] <;> linarith
    · rcases tail with ⟨none, ones⟩ | ⟨several, w, here, zero⟩
      · refine .inl ⟨by rw [one]; linarith, fun w here => ?_⟩
        rcases List.mem_cons.mp here with rfl | here
        · exact one
        · exact ones w here
      · exact .inr ⟨by rw [one]; linarith, w, List.mem_cons_of_mem _ here, zero⟩

namespace MilpInputs
variable {n : Nat} {inputs : MilpInputs n} {value : Variable n → ℚ}

/-! ### Nodes -/

theorem mem_nodes {node : Nat × Fin n} : node ∈ inputs.nodes ↔
    inputs.contextOfShareable node.2 = some node.1 ∨
      (∃ pipeline, (inputs.context node.1).kind = .ingestion pipeline) ∧
        node.2 ∈ inputs.computed node.1 := by
  obtain ⟨context, candidate⟩ := node
  unfold nodes
  rw [List.mem_append, List.mem_filterMap, List.mem_flatMap]
  refine or_congr ?_ ?_
  · constructor
    · rintro ⟨shareable, _, found⟩
      obtain ⟨place, found, same⟩ := Option.map_eq_some_iff.mp found
      cases same
      exact found
    · intro found
      exact ⟨candidate, List.mem_finRange _, by rw [found]; rfl⟩
  · constructor
    · rintro ⟨place, _, member⟩
      split at member
      · next pipeline kind =>
        obtain ⟨_, computed, same⟩ := List.mem_map.mp member
        cases same
        exact ⟨⟨pipeline, kind⟩, computed⟩
      · cases member
    · rintro ⟨⟨pipeline, kind⟩, computed⟩
      have inside := lt_of_option (mem_computed.mp computed).1
      refine ⟨context, List.mem_range.mpr inside, ?_⟩
      rw [kind]
      exact List.mem_map_of_mem computed

theorem placed_some {option : Fin n} {read : Nat × Fin n} (run : Option Nat) : (match run with
    | some place => if (place, option) ∈ inputs.nodes then some (place, option) else none
    | none => none) = some read ↔ read.2 = option ∧ read ∈ inputs.nodes ∧ run = some read.1 := by
  obtain ⟨place, candidate⟩ := read
  cases run with
  | none => simp
  | some there =>
    dsimp only
    split
    · next node =>
      simp only [Option.some.injEq, Prod.mk.injEq]
      constructor
      · rintro ⟨rfl, rfl⟩
        exact ⟨rfl, node, rfl⟩
      · rintro ⟨rfl, _, rfl⟩
        exact ⟨rfl, rfl⟩
    · next outside =>
      simp only [reduceCtorEq, Option.some.injEq, false_iff]
      rintro ⟨rfl, node, rfl⟩
      exact outside node

theorem nodeRead_some {context : Nat} {option : Fin n} {read : Nat × Fin n} :
    inputs.nodeRead context option = some read ↔
      read.2 = option ∧ read ∈ inputs.nodes ∧
        (inputs.kind option = .shareable ∧ inputs.contextOfShareable option = some read.1 ∨
          inputs.kind option = .ingestion ∧ inputs.ingestionContextReadBy context = some read.1) := by
  unfold nodeRead
  cases kind : inputs.kind option with
  | shareable => exact (placed_some _).trans (by simp)
  | ingestion => exact (placed_some _).trans (by simp)
  | perContext => simp

/-! ### Reads across contexts -/

theorem mem_contextEdges {edge : ContextEdge n} :
    edge ∈ inputs.contextEdges ↔ ∃ node ∈ inputs.nodes, edge ∈ inputs.edgesFrom node :=
  List.mem_flatMap

theorem mem_edgesFrom {node : Nat × Fin n} {edge : ContextEdge n} :
    edge ∈ inputs.edgesFrom node ↔
      (∃ pipeline, (inputs.context node.1).kind = .ingestion pipeline) ∧
        (∃ producer ∈ (inputs.producers node.2).flatten, ∃ read,
          inputs.nodeRead node.1 producer = some read ∧ producer ∈ inputs.options node.1 ∧
          read ≠ node ∧
          edge = ⟨node, read, [.choice node.1 node.2, .choice node.1 producer]⟩) ∨
      (¬ ∃ pipeline, (inputs.context node.1).kind = .ingestion pipeline) ∧
        ∃ option ∈ inputs.options node.1, ∃ read, inputs.nodeRead node.1 option = some read ∧
          edge = ⟨node, read, [.choice node.1 option]⟩ := by
  unfold edgesFrom
  split
  · next pipeline kind =>
    simp only [kind, ContextKind.ingestion.injEq, exists_eq', not_true_eq_false, true_and,
      false_and, or_false, List.mem_filterMap]
    refine exists_congr fun producer => and_congr_right fun _ => ?_
    constructor
    · intro some
      split at some
      · next read resolved =>
        split at some
        · next here =>
          cases some
          exact ⟨read, resolved, here.1, here.2, rfl⟩
        · cases some
      · cases some
    · rintro ⟨read, resolved, listed, apart, rfl⟩
      rw [resolved]
      exact if_pos ⟨listed, apart⟩
  · next other =>
    have outside : ¬ ∃ pipeline, (inputs.context node.1).kind = .ingestion pipeline :=
      fun ⟨pipeline, kind⟩ => other pipeline kind
    rw [List.mem_filterMap]
    simp only [outside, not_false_eq_true, true_and, false_and, false_or, Option.map_eq_some_iff,
      eq_comm (b := edge)]

theorem edges_inside : ∀ edge ∈ inputs.contextEdges,
    edge.reader ∈ inputs.nodes ∧ edge.read ∈ inputs.nodes := by
  intro edge member
  obtain ⟨node, inNodes, member⟩ := mem_contextEdges.mp member
  rcases mem_edgesFrom.mp member with
    ⟨_, producer, _, read, resolved, _, _, rfl⟩ | ⟨_, option, _, read, resolved, rfl⟩
  · exact ⟨inNodes, (nodeRead_some.mp resolved).2.1⟩
  · exact ⟨inNodes, (nodeRead_some.mp resolved).2.1⟩

/-- The choices missing for a read to be active. -/
def edgeSlack (value : Variable n → ℚ) (edge : ContextEdge n) : ℚ :=
  edge.active.length - (edge.active.map value).sum

theorem active_choice {edge : ContextEdge n} (member : edge ∈ inputs.contextEdges) :
    ∀ v ∈ edge.active, ∃ context option, v = .choice context option := by
  intro v here
  obtain ⟨node, _, member⟩ := mem_contextEdges.mp member
  rcases mem_edgesFrom.mp member with
    ⟨_, producer, _, read, _, _, _, rfl⟩ | ⟨_, option, _, read, _, rfl⟩
  · rcases List.mem_pair.mp here with rfl | rfl <;> exact ⟨_, _, rfl⟩
  · exact ⟨_, _, List.mem_singleton.mp here⟩

theorem active_binary (integral : Integral value) {edge : ContextEdge n}
    (member : edge ∈ inputs.contextEdges) : ∀ v ∈ edge.active, Binary (value v) := by
  intro v here
  obtain ⟨context, option, rfl⟩ := active_choice member v here
  exact integral.choice context option

theorem edgeSlack_zero (integral : Integral value) {edge : ContextEdge n}
    (member : edge ∈ inputs.contextEdges) :
    edgeSlack value edge = 0 ↔ ∀ v ∈ edge.active, value v = 1 := by
  rcases missing_cases (active_binary integral member) with ⟨none, ones⟩ | ⟨several, v, here, zero⟩
  · exact ⟨fun _ => ones, fun _ => none⟩
  · constructor
    · intro tight
      unfold edgeSlack at tight
      linarith
    · intro ones
      have one := ones v here
      rw [zero] at one
      norm_num at one

theorem edgeSlack_whole (integral : Integral value) : ∀ edge ∈ inputs.contextEdges,
    edgeSlack value edge = 0 ∨ 1 ≤ edgeSlack value edge := by
  intro edge member
  rcases missing_cases (active_binary integral member) with ⟨none, _⟩ | ⟨several, _⟩
  · exact .inl none
  · exact .inr several

theorem tight_edge (formed : inputs.WellFormed) (integral : Integral value)
    {read reader : Nat × Fin n} :
    Tight inputs.contextEdges ContextEdge.read ContextEdge.reader (edgeSlack value) read reader ↔
      inputs.UsedRead value reader read := by
  constructor
  · rintro ⟨edge, member, rfl, rfl, tight⟩
    have ones := (edgeSlack_zero integral member).mp tight
    obtain ⟨node, inNodes, member⟩ := mem_contextEdges.mp member
    rcases mem_edgesFrom.mp member with
      ⟨⟨pipeline, kind⟩, producer, listed, read, resolved, option, apart, rfl⟩ |
      ⟨outside, option, listed, read, resolved, rfl⟩
    · obtain place | ⟨_, computed⟩ := mem_nodes.mp inNodes
      · rw [(formed.shared _ _ place).2] at kind
        cases kind
      · exact .pipeline kind ⟨computed, ones _ List.mem_cons_self⟩ listed option
          (ones _ (List.mem_cons_of_mem _ List.mem_cons_self)) resolved apart
    · obtain place | ⟨kind, _⟩ := mem_nodes.mp inNodes
      · exact .own place listed (ones _ List.mem_cons_self) resolved
      · exact absurd kind outside
  · intro used
    cases used with
    | @own context shareable option _ place listed chosen resolved =>
      have member : (⟨(context, shareable), read, [.choice context option]⟩ : ContextEdge n) ∈
          inputs.contextEdges := by
        refine mem_contextEdges.mpr ⟨(context, shareable), mem_nodes.mpr (.inl place),
          mem_edgesFrom.mpr (.inr ⟨?_, option, listed, read, resolved, rfl⟩)⟩
        rintro ⟨pipeline, kind⟩
        rw [(formed.shared _ _ place).2] at kind
        cases kind
      refine ⟨_, member, rfl, rfl, (edgeSlack_zero integral member).mpr fun v here => ?_⟩
      rw [List.mem_singleton.mp here]
      exact chosen
    | @pipeline context pipeline reader producer _ kind used listed option chosen resolved apart =>
      have member : (⟨(context, reader), read, [.choice context reader, .choice context producer]⟩ :
          ContextEdge n) ∈ inputs.contextEdges :=
        mem_contextEdges.mpr ⟨(context, reader), mem_nodes.mpr (.inr ⟨⟨pipeline, kind⟩, used.1⟩),
          mem_edgesFrom.mpr
            (.inl ⟨⟨pipeline, kind⟩, producer, listed, read, resolved, option, apart, rfl⟩)⟩
      refine ⟨_, member, rfl, rfl, (edgeSlack_zero integral member).mpr fun v here => ?_⟩
      rcases List.mem_pair.mp here with rfl | rfl
      · exact used.2
      · exact chosen

def edgeComponents (inputs : MilpInputs n) : Components (Nat × Fin n) :=
  stronglyConnectedComponents inputs.nodes
    (inputs.contextEdges.map fun edge => (edge.reader, edge.read))

theorem edgeComponents_sound : (inputs.edgeComponents).Sound inputs.nodes
    (inputs.contextEdges.map fun edge => (edge.reader, edge.read)) := by
  apply components_sound
  intro pair member
  obtain ⟨edge, here, rfl⟩ := List.mem_map.mp member
  exact edges_inside edge here

theorem acyclicContextRows_met (rank : Nat → Fin n → ℚ) (contextRank : Nat × Fin n → ℚ) :
    (∀ row ∈ inputs.acyclicContextRows, row.Met (withRanks value rank contextRank)) ↔
      RankedBy inputs.edgeComponents inputs.contextEdges ContextEdge.read ContextEdge.reader
        (edgeSlack value) contextRank := by
  unfold acyclicContextRows
  rw [List.forall_mem_filterMap]
  refine forall₂_congr fun edge member => ?_
  show (∀ row, (if inputs.edgeComponents.of edge.reader ≠ inputs.edgeComponents.of edge.read ∨
      inputs.edgeComponents.sizeOf edge.reader < 2 then none else _) = some row → _) ↔ _
  have columns : (edge.active.map (withRanks value rank contextRank)).sum =
      (edge.active.map value).sum := by
    congr 1
    refine List.map_congr_left fun v here => ?_
    obtain ⟨context, option, rfl⟩ := active_choice member v here
    rfl
  split
  · next outside =>
    refine ⟨fun _ same several => ?_, fun _ _ impossible => nomatch impossible⟩
    rcases outside with apart | few
    · exact absurd same.symm apart
    · omega
  · next inside =>
    rw [not_or, not_not, not_lt] at inside
    simp only [Option.some.injEq, forall_eq', RankRow.Met, Constraint.Holds,
      Expression.eval_add, Expression.eval_var, Expression.eval_const, Expression.eval_scale,
      Expression.eval_sub, Expression.eval_sum, columns, edgeSlack, inside.1.symm, inside.2,
      forall_const]
    exact Iff.rfl

/-! ### Both families -/

theorem transGen_links {context : Nat} {a b : Fin n}
    (path : TransGen (inputs.UsedLink value context) a b) :
    TransGen (fun x y => (x, y) ∈ inputs.links context) a b := by
  refine TransGen.mono (fun x y used => ?_) _ _ path
  obtain ⟨⟨computed, _⟩, ⟨reads, _⟩, apart, listed⟩ := used
  exact mem_links.mpr ⟨computed, reads, apart, listed⟩

theorem transGen_edges {read reader : Nat × Fin n}
    (path : TransGen (Tight inputs.contextEdges ContextEdge.read ContextEdge.reader
      (edgeSlack value)) read reader) :
    TransGen (fun x y => (x, y) ∈ inputs.contextEdges.map fun edge => (edge.reader, edge.read))
      reader read := by
  have back := transGen_swap.mpr path
  refine TransGen.mono (fun x y step => ?_) _ _ back
  obtain ⟨edge, member, rfl, rfl, _⟩ := step
  exact List.mem_map.mpr ⟨edge, member, rfl⟩

theorem links_acyclic (integral : Integral value) {context : Nat} {rank : Fin n → ℚ}
    (ranked : RankedBy (inputs.linkComponents context) (inputs.links context) Prod.fst Prod.snd
      (linkSlack value context) rank) : Acyclic (inputs.UsedLink value context) := by
  have sound := components_sound (inputs.links_inside context)
  have same : Tight (inputs.links context) Prod.fst Prod.snd (linkSlack value context) =
      inputs.UsedLink value context := by
    funext producer reader
    exact propext (tight_link integral)
  rw [← same]
  refine acyclic_of_rankedBy sound.sized (inputs.links_inside context) ?_ ?_ ranked
  · intro a b node path back
    rw [same] at path back
    exact sound.same node (transGen_links path) (transGen_links back)
  · rintro ⟨producer, reader⟩ member _ same
    cases same
    exact (mem_links.mp member).2.2.1 rfl

theorem reads_acyclic (formed : inputs.WellFormed) (integral : Integral value)
    {rank : Nat × Fin n → ℚ}
    (ranked : RankedBy inputs.edgeComponents inputs.contextEdges ContextEdge.read ContextEdge.reader
      (edgeSlack value) rank) :
    Acyclic fun reader read => inputs.UsedRead value reader read ∧ reader ≠ read := by
  let apart := inputs.contextEdges.filter fun edge => edge.read ≠ edge.reader
  have inside : ∀ edge ∈ apart, edge.read ∈ inputs.nodes ∧ edge.reader ∈ inputs.nodes :=
    fun edge member => (edges_inside edge (List.mem_of_mem_filter member)).symm
  have acyclic : Acyclic (Tight apart ContextEdge.read ContextEdge.reader (edgeSlack value)) := by
    refine acyclic_of_rankedBy edgeComponents_sound.sized inside ?_ ?_
      fun edge member => ranked edge (List.mem_of_mem_filter member)
    · intro a b node path back
      have whole : ∀ {x y}, TransGen (Tight apart ContextEdge.read ContextEdge.reader
          (edgeSlack value)) x y → TransGen (Tight inputs.contextEdges ContextEdge.read
          ContextEdge.reader (edgeSlack value)) x y := by
        intro x y
        refine TransGen.mono (fun x y step => ?_) x y
        obtain ⟨edge, member, rest⟩ := step
        exact ⟨edge, List.mem_of_mem_filter member, rest⟩
      exact edgeComponents_sound.same node (transGen_edges (whole back)) (transGen_edges (whole path))
    · exact fun edge member _ => of_decide_eq_true (List.mem_filter.mp member).2
  intro run cycle
  refine acyclic run (transGen_swap.mp (TransGen.mono (fun reader read step => ?_) _ _ cycle))
  obtain ⟨used, different⟩ := step
  obtain ⟨edge, member, rfl, rfl, tight⟩ := (tight_edge formed integral).mpr used
  exact ⟨edge, List.mem_filter.mpr ⟨member, decide_eq_true different.symm⟩, rfl, rfl, tight⟩

theorem rankRows_met (rank : Nat → Fin n → ℚ) (contextRank : Nat × Fin n → ℚ) :
    (∀ row ∈ inputs.rankRows, row.Met (withRanks value rank contextRank)) ↔
      (∀ context < inputs.contexts.length, RankedBy (inputs.linkComponents context)
        (inputs.links context) Prod.fst Prod.snd (linkSlack value context) (rank context)) ∧
      RankedBy inputs.edgeComponents inputs.contextEdges ContextEdge.read ContextEdge.reader
        (edgeSlack value) contextRank := by
  rw [← acyclicContextRows_met rank contextRank]
  simp only [← acyclicRows_met rank contextRank, rankRows, List.mem_append, List.mem_flatMap,
    List.mem_range]
  constructor
  · intro all
    exact ⟨fun context here row member => all row (.inl ⟨context, here, member⟩),
      fun row member => all row (.inr member)⟩
  · rintro ⟨inside, across⟩ row (⟨context, here, member⟩ | member)
    · exact inside context here row member
    · exact across row member

theorem rankRows_iff (formed : inputs.WellFormed) (integral : Integral value)
    (apart : ∀ run, ¬ inputs.UsedRead value run run) :
    (∃ rank contextRank, ∀ row ∈ inputs.rankRows, row.Met (withRanks value rank contextRank)) ↔
      inputs.LinksAcyclic value := by
  simp only [rankRows_met]
  constructor
  · rintro ⟨rank, contextRank, inside, across⟩
    refine ⟨fun context here => links_acyclic integral (inside context here), ?_⟩
    refine (reads_acyclic formed integral across).mono fun reader read used => ⟨used, ?_⟩
    rintro rfl
    exact apart _ used
  · rintro ⟨inside, across⟩
    choose! rank ranked using fun context (here : context < inputs.contexts.length) =>
      rankedBy_of_acyclic (components_sound (inputs.links_inside context)).sized
        (inputs.links_inside context) (fun link _ => linkSlack_whole integral context link)
        ((inside context here).mono fun _ _ => (tight_link integral).mp)
    obtain ⟨contextRank, across⟩ := rankedBy_of_acyclic edgeComponents_sound.sized
      (fun edge member => (edges_inside edge member).symm) (edgeSlack_whole integral)
      (fun run cycle => across run (transGen_swap.mp
        (TransGen.mono (fun _ _ => (tight_edge formed integral).mp) _ _ cycle)))
    exact ⟨rank, contextRank, ranked, across⟩

end MilpInputs
end AsapPlanner.Milp
