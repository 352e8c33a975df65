import AsapPlanner.Milp.Reach
import Mathlib.Logic.Relation

/-!
The readers-first order: only a read that closes a cycle goes back in it, and a query has the reach
variables of the candidates that options lead to without going back.
-/

namespace AsapPlanner.Milp
open Relation Traversal

namespace MilpInputs
variable {n : Nat}

section
variable (inputs : MilpInputs n)

/-- The context of one shareable candidate may read another. -/
def MayRead (reader shareable : Fin n) : Prop := shareable ∈ inputs.sharedReads reader

/-- A read that goes on in the readers-first order. -/
def ReadsAhead (reader shareable : Fin n) : Prop :=
  inputs.MayRead reader shareable ∧
    inputs.shareablesReadersFirst.idxOf reader < inputs.shareablesReadersFirst.idxOf shareable

/-- Options lead from a query to a shareable candidate: one of the query's own context, or one that may be
read where reads that go on in the readers-first order lead from there. -/
def OptionsLead (queries query : Nat) (shareable : Fin n) : Prop :=
  query < queries ∧ (shareable ∈ inputs.shareableOptions query ∨
    ∃ start reader, start ∈ inputs.shareableOptions query ∧
      ReflTransGen inputs.ReadsAhead start reader ∧ inputs.MayRead reader shareable)

end

variable {inputs : MilpInputs n}

/-! ### Reads that go back -/

/-- What the search keeps: the candidates not settled yet lead to what lies above them on the stack, and
each read of a settled one goes on or closes a cycle. -/
structure Searched (inputs : MilpInputs n) (stack : List (Fin n × Bool)) (found : PostOrder n) : Prop where
  met : ∀ node ∈ found.order, node ∈ found.seen
  unsettled : ∀ node, (node, true) ∈ stack → node ∈ found.seen ∧ node ∉ found.order
  settling : Settling stack found
  distinct : found.order.Nodup
  nested : stack.Pairwise fun above below => below.2 = true →
    above ≠ below ∧ TransGen inputs.MayRead below.1 above.1
  pending : ∀ node, (node, true) ∈ stack → ∀ read, inputs.MayRead node read →
    read ∈ found.seen ∨ [(read, false), (node, true)].Sublist stack
  ahead : ∀ before node after, found.order = before ++ node :: after →
    ∀ read, inputs.MayRead node read → read ∈ after ∨ ReflTransGen inputs.MayRead read node

namespace Searched
variable {stack : List (Fin n × Bool)} {found : PostOrder n} {node : Fin n}

theorem settle (searched : inputs.Searched ((node, true) :: stack) found) :
    inputs.Searched stack { found with order := node :: found.order } := by
  obtain ⟨nodeMet, new⟩ := searched.unsettled node List.mem_cons_self
  obtain ⟨top, rest⟩ := List.pairwise_cons.mp searched.nested
  have once : (node, true) ∉ stack := fun member => (top _ member rfl).1 rfl
  refine ⟨?_, ?_, ?_, ?_, rest, ?_, ?_⟩
  · intro other member
    rcases List.mem_cons.mp member with rfl | member
    · exact nodeMet
    · exact searched.met other member
  · intro other member
    obtain ⟨otherMet, outside⟩ := searched.unsettled other (List.mem_cons_of_mem _ member)
    refine ⟨otherMet, fun inside => ?_⟩
    rcases List.mem_cons.mp inside with rfl | inside
    · exact once member
    · exact outside inside
  · intro other here
    rcases searched.settling other here with settled | waiting
    · exact .inl (List.mem_cons_of_mem _ settled)
    · rcases List.mem_cons.mp waiting with same | waiting
      · cases same
        exact .inl List.mem_cons_self
      · exact .inr waiting
  · exact List.nodup_cons.mpr ⟨new, searched.distinct⟩
  · intro other member read reads
    refine (searched.pending other (List.mem_cons_of_mem _ member) read reads).imp_right fun pair => ?_
    cases pair with
    | cons _ pair => exact pair
  · intro before other after split read reads
    cases before with
    | nil =>
      cases split
      -- What is read was met, so it is settled, or it is waiting below and leads here.
      have readMet : read ∈ found.seen := by
        refine (searched.pending node List.mem_cons_self read reads).resolve_right fun pair => ?_
        cases pair with
        | cons _ pair => exact once (pair.subset (by simp))
      rcases searched.settling read readMet with settled | waiting
      · exact .inl settled
      · rcases List.mem_cons.mp waiting with same | waiting
        · cases same
          exact .inr .refl
        · exact .inr (top _ waiting rfl).2.to_reflTransGen
    | cons first before =>
      exact searched.ahead before other after (List.cons.inj split).2 read reads

theorem skip (searched : inputs.Searched ((node, false) :: stack) found) (known : node ∈ found.seen) :
    inputs.Searched stack found := by
  refine ⟨searched.met, fun other member => searched.unsettled other (List.mem_cons_of_mem _ member), ?_,
    searched.distinct, (List.pairwise_cons.mp searched.nested).2, ?_, searched.ahead⟩
  · intro other here
    refine (searched.settling other here).imp_right fun waiting => ?_
    rcases List.mem_cons.mp waiting with same | waiting
    · cases same
    · exact waiting
  · intro other member read reads
    rcases searched.pending other (List.mem_cons_of_mem _ member) read reads with here | pair
    · exact .inl here
    · cases pair with
      | cons _ pair => exact .inr pair
      | cons_cons _ _ => exact .inl known

theorem meet (searched : inputs.Searched ((node, false) :: stack) found) (new : node ∉ found.seen) :
    inputs.Searched ((((inputs.sharedReads node).filter (· ∉ node :: found.seen)).map (·, false)).reverse ++
      (node, true) :: stack) { found with seen := node :: found.seen } := by
  obtain ⟨top, rest⟩ := List.pairwise_cons.mp searched.nested
  have isRead {entry : Fin n × Bool} (member : entry ∈
      (((inputs.sharedReads node).filter (· ∉ node :: found.seen)).map (·, false)).reverse) :
      inputs.MayRead node entry.1 ∧ entry.2 = false := by
    obtain ⟨read, listed, rfl⟩ := List.mem_map.mp (List.mem_reverse.mp member)
    exact ⟨List.mem_of_mem_filter listed, rfl⟩
  have waits {other : Fin n} (member : (other, true) ∈
      (((inputs.sharedReads node).filter (· ∉ node :: found.seen)).map (·, false)).reverse ++
        (node, true) :: stack) : other = node ∨ (other, true) ∈ stack := by
    rcases List.mem_append.mp member with read | member
    · cases (isRead read).2
    · exact (List.mem_cons.mp member).imp_left fun same => (Prod.mk.inj same).1
  refine ⟨fun other member => List.mem_cons_of_mem _ (searched.met other member), ?_, ?_,
    searched.distinct, ?_, ?_, searched.ahead⟩
  · intro other member
    rcases waits member with rfl | member
    · exact ⟨List.mem_cons_self, fun inside => new (searched.met other inside)⟩
    · obtain ⟨otherMet, outside⟩ := searched.unsettled other (List.mem_cons_of_mem _ member)
      exact ⟨List.mem_cons_of_mem _ otherMet, outside⟩
  · intro other here
    rcases List.mem_cons.mp here with rfl | here
    · exact .inr (List.mem_append_right _ List.mem_cons_self)
    · refine (searched.settling other here).imp_right fun waiting => ?_
      rcases List.mem_cons.mp waiting with same | waiting
      · cases same
      · exact List.mem_append_right _ (List.mem_cons_of_mem _ waiting)
  · refine List.pairwise_append.mpr ⟨?_, List.pairwise_cons.mpr ⟨fun below member waiting => ?_, rest⟩, ?_⟩
    · refine List.pairwise_of_forall_mem_list fun above _ below member waiting => ?_
      rw [(isRead member).2] at waiting
      cases waiting
    · refine ⟨?_, (top below member waiting).2⟩
      rintro rfl
      exact new (searched.unsettled node (List.mem_cons_of_mem _ member)).1
    · intro above read below member waiting
      refine ⟨fun same => ?_, ?_⟩
      · rw [← same, (isRead read).2] at waiting
        cases waiting
      · rcases List.mem_cons.mp member with rfl | member
        · exact .single (isRead read).1
        · exact (top below member waiting).2.tail (isRead read).1
  · intro other member read reads
    rcases waits member with rfl | member
    · by_cases known : read ∈ other :: found.seen
      · exact .inl known
      · have listed : (read, false) ∈ (((inputs.sharedReads other).filter
            (· ∉ other :: found.seen)).map (·, false)).reverse := List.mem_reverse.mpr
          (List.mem_map_of_mem (List.mem_filter.mpr ⟨reads, decide_eq_true known⟩))
        exact .inr ((List.singleton_sublist.mpr listed).append ((List.nil_sublist _).cons_cons _))
    · rcases searched.pending other (List.mem_cons_of_mem _ member) read reads with here | pair
      · exact .inl (List.mem_cons_of_mem _ here)
      · cases pair with
        | cons _ pair => exact .inr (pair.trans ((List.sublist_cons_self _ _).trans
            (List.sublist_append_right _ _)))
        | cons_cons _ _ => exact .inl List.mem_cons_self

theorem postOrderFrom {rounds : Nat} (searched : inputs.Searched stack found) :
    ∃ left, inputs.Searched left (inputs.postOrderFrom rounds stack found) := by
  induction rounds generalizing stack found with
  | zero => exact ⟨stack, searched⟩
  | succ rounds ih =>
    match stack with
    | [] => exact ⟨[], searched⟩
    | (node, true) :: stack => exact ih searched.settle
    | (node, false) :: stack =>
      rw [MilpInputs.postOrderFrom]
      split
      · next known => exact ih (searched.skip known)
      · next new => exact ih (searched.meet new)

end Searched

theorem Searched.start {found : PostOrder n} (searched : inputs.Searched [] found) (node : Fin n) :
    inputs.Searched [(node, false)] found := by
  refine ⟨searched.met, fun other member => ?_, fun other here => .inl ?_, searched.distinct,
    List.pairwise_singleton _ _, fun other member => ?_, searched.ahead⟩
  · cases List.mem_singleton.mp member
  · exact (searched.settling other here).resolve_right List.not_mem_nil
  · cases List.mem_singleton.mp member

theorem Searched.settled {stack : List (Fin n × Bool)} {found : PostOrder n}
    (searched : inputs.Searched stack found) (all : ∀ node ∈ found.seen, node ∈ found.order) :
    inputs.Searched [] found :=
  ⟨searched.met, fun _ member => absurd member List.not_mem_nil, fun node here => .inl (all node here),
    searched.distinct, .nil, fun _ member => absurd member List.not_mem_nil, searched.ahead⟩

theorem searched_readersFirst (inputs : MilpInputs n) : ∃ found, inputs.shareablesReadersFirst = found.order ∧
    inputs.Searched [] found := by
  refine ⟨_, rfl, ?_⟩
  refine List.foldlRecOn _ _ (motive := fun found => inputs.Searched [] found) ?_ fun found searched start _ => ?_
  · exact ⟨nofun, nofun, nofun, List.nodup_nil, .nil, nofun, fun before => by cases before <;> exact nofun⟩
  · split
    · exact searched
    · obtain ⟨left, after⟩ := (searched.start start).postOrderFrom
      refine after.settled ?_
      have settled : ∀ node ∈ found.seen, node ∈ found.order := fun node here =>
        (searched.settling node here).resolve_right List.not_mem_nil
      have enough : inputs.postOrderLeft [(start, false)] found.seen ≤ inputs.postOrderRounds := by
        unfold postOrderLeft postOrderRounds
        rw [← Fin.sum_univ_def]
        exact Nat.add_le_add_left (Finset.sum_le_sum_of_subset (Finset.filter_subset _ _)) 1
      exact (postOrderFrom_settles (fun node here => .inl (settled node here)) enough).1

theorem readsAhead_or_back {reader shareable : Fin n} (reads : inputs.MayRead reader shareable)
    (placed : (inputs.contextOfShareable reader).isSome) :
    inputs.ReadsAhead reader shareable ∨ ReflTransGen inputs.MayRead shareable reader := by
  obtain ⟨found, same, searched⟩ := searched_readersFirst inputs
  have listed := mem_shareablesReadersFirst placed
  rw [same] at listed
  obtain ⟨before, after, split⟩ := List.append_of_mem listed
  have distinct := searched.distinct
  rw [split] at distinct
  refine (searched.ahead before reader after split shareable reads).imp_left fun later => ⟨reads, ?_⟩
  obtain ⟨_, rest, apart⟩ := List.nodup_append.mp distinct
  have readerNew : reader ∉ before := fun here => apart reader here reader List.mem_cons_self rfl
  have otherNew : shareable ∉ before := fun here =>
    apart shareable here shareable (List.mem_cons_of_mem _ later) rfl
  have other : reader ≠ shareable := by
    rintro rfl
    exact (List.nodup_cons.mp rest).1 later
  rw [same, split, List.idxOf_append_of_notMem readerNew, List.idxOf_append_of_notMem otherNew,
    List.idxOf_cons_self, List.idxOf_cons_ne _ other]
  omega

/-! ### The reach variables -/

theorem placed_of_option (formed : inputs.WellFormed) {context : Nat} {shareable : Fin n}
    (option : shareable ∈ inputs.shareableOptions context) :
    (inputs.contextOfShareable shareable).isSome := by
  obtain ⟨listed, kind⟩ := List.mem_filter.mp option
  exact formed.known context shareable listed (of_decide_eq_true kind)

theorem placed_of_mayRead (formed : inputs.WellFormed) {reader shareable : Fin n}
    (reads : inputs.MayRead reader shareable) : (inputs.contextOfShareable shareable).isSome := by
  obtain ⟨_, _, option⟩ := mem_sharedReads.mp reads
  exact placed_of_option formed option

namespace OptionsLead
variable {queries query : Nat} {shareable reader : Fin n}

theorem option (lead : inputs.OptionsLead queries query shareable) :
    ∃ context, shareable ∈ inputs.shareableOptions context := by
  obtain ⟨_, option | ⟨_, _, _, _, reads⟩⟩ := lead
  · exact ⟨query, option⟩
  · obtain ⟨context, _, option⟩ := mem_sharedReads.mp reads
    exact ⟨context, option⟩

theorem kind (lead : inputs.OptionsLead queries query shareable) :
    inputs.kind shareable = .shareable := by
  obtain ⟨_, option⟩ := lead.option
  exact of_decide_eq_true (List.mem_filter.mp option).2

/-- A query is announced to what the options lead to, before its place in the order when each reader
comes before the next. -/
theorem announced_before (formed : inputs.WellFormed) (inside : query < queries) {start : Fin n}
    (option : start ∈ inputs.shareableOptions query) (path : ReflTransGen inputs.ReadsAhead start reader) :
    inputs.Announced queries query
      (inputs.shareablesReadersFirst.take (inputs.shareablesReadersFirst.idxOf reader)) reader ∧
      reader ∈ inputs.shareablesReadersFirst := by
  induction path with
  | refl => exact ⟨.listed inside option, mem_shareablesReadersFirst (placed_of_option formed option)⟩
  | @tail before after _ step ih =>
    obtain ⟨announced, listed⟩ := ih
    obtain ⟨reads, ahead⟩ := step
    refine ⟨?_, mem_shareablesReadersFirst (placed_of_mayRead formed reads)⟩
    have split : inputs.shareablesReadersFirst.take (inputs.shareablesReadersFirst.idxOf after) =
        inputs.shareablesReadersFirst.take (inputs.shareablesReadersFirst.idxOf before) ++ before ::
          (inputs.shareablesReadersFirst.take (inputs.shareablesReadersFirst.idxOf after)).drop
            (inputs.shareablesReadersFirst.idxOf before + 1) := by
      have shorter : inputs.shareablesReadersFirst.idxOf before <
          (inputs.shareablesReadersFirst.take (inputs.shareablesReadersFirst.idxOf after)).length := by
        have listed := List.idxOf_lt_length_iff.mpr listed
        rw [List.length_take]
        omega
      conv_lhs => rw [← List.take_append_drop (inputs.shareablesReadersFirst.idxOf before)
        (inputs.shareablesReadersFirst.take (inputs.shareablesReadersFirst.idxOf after))]
      rw [List.drop_eq_getElem_cons shorter, List.take_take, Nat.min_eq_left ahead.le,
        List.getElem_take, List.getElem_idxOf]
    rw [split]
    exact .passed announced reads

end OptionsLead

theorem announced_iff (formed : inputs.WellFormed) {queries query : Nat} {shareable : Fin n} :
    inputs.Announced queries query inputs.shareablesReadersFirst shareable ↔
      inputs.OptionsLead queries query shareable := by
  constructor
  · obtain ⟨found, same, searched⟩ := searched_readersFirst inputs
    have distinct : inputs.shareablesReadersFirst.Nodup := same ▸ searched.distinct
    -- Where the query is announced by a part of the order, its last reader is in that part.
    have within : ∀ {order shareable}, inputs.Announced queries query order shareable →
        ∀ rest, inputs.shareablesReadersFirst = order ++ rest → query < queries ∧
          (shareable ∈ inputs.shareableOptions query ∨ ∃ start reader,
            start ∈ inputs.shareableOptions query ∧ ReflTransGen inputs.ReadsAhead start reader ∧
              inputs.MayRead reader shareable ∧ reader ∈ order) := by
      intro order shareable announced
      induction announced with
      | listed inside option => exact fun _ _ => ⟨inside, .inl option⟩
      | @passed before after reader shareable _ option ih =>
        intro rest split
        rw [List.append_assoc, List.cons_append] at split
        obtain ⟨inside, direct | ⟨start, earlier, direct, path, reads, here⟩⟩ := ih _ split
        · exact ⟨inside, .inr ⟨reader, reader, direct, .refl, option,
            List.mem_append_right _ List.mem_cons_self⟩⟩
        · refine ⟨inside, .inr ⟨start, reader, direct, path.tail ⟨reads, ?_⟩, option,
            List.mem_append_right _ List.mem_cons_self⟩⟩
          have apart : reader ∉ before := fun twice => by
            rw [split] at distinct
            exact (List.nodup_append.mp distinct).2.2 reader twice reader List.mem_cons_self rfl
          rw [split, List.idxOf_append_of_mem here, List.idxOf_append_of_notMem apart,
            List.idxOf_cons_self]
          have early := List.idxOf_lt_length_iff.mpr here
          omega
    intro announced
    obtain ⟨inside, direct | ⟨start, reader, option, path, reads, _⟩⟩ :=
      within announced [] (List.append_nil _).symm
    · exact ⟨inside, .inl direct⟩
    · exact ⟨inside, .inr ⟨start, reader, option, path, reads⟩⟩
  · rintro ⟨inside, direct | ⟨start, reader, option, path, reads⟩⟩
    · exact .listed inside direct
    · obtain ⟨announced, listed⟩ := OptionsLead.announced_before formed inside option path
      have split := List.take_append_drop (inputs.shareablesReadersFirst.idxOf reader)
        inputs.shareablesReadersFirst
      rw [List.drop_eq_getElem_cons (List.idxOf_lt_length_iff.mpr listed), List.getElem_idxOf] at split
      rw [← split]
      exact .passed announced reads

theorem mem_reachVariables_iff (formed : inputs.WellFormed) {queries query : Nat} {shareable : Fin n} :
    (query, shareable) ∈ inputs.reachVariables queries ↔ inputs.OptionsLead queries query shareable :=
  (mem_reachVariables formed).trans (announced_iff formed)

end MilpInputs
end AsapPlanner.Milp
