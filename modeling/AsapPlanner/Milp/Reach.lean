import AsapPlanner.Milp.Model
import AsapPlanner.Traversal.Search
import AsapPlanner.Milp.WellFormed
import Mathlib.Algebra.BigOperators.Fin

/-!
Which queries may depend on each shareable candidate, and the rows of their reach variables. Which reach
variables there are: those a query is announced to in the readers-first order.
-/

namespace AsapPlanner.Milp
open Traversal

/-- What a candidate requires of the outputs that read it. -/
inductive ReaderConstraint (n : Nat)
  | minimumQueryReaders (candidate : Fin n) (queryOutputs : List (List Nat)) (minimum : Nat)
  | highestSharedQueryMaterialization (candidate : Fin n) (queryOutputs : List (List Nat))
  | allowedOutputs (candidate : Fin n) (outputs : List Nat)
  | incompatibleOutputs (candidate : Fin n) (left right : Nat)

namespace ReaderConstraint
variable {n : Nat}

def candidate : ReaderConstraint n → Fin n
  | minimumQueryReaders candidate _ _ => candidate
  | highestSharedQueryMaterialization candidate _ => candidate
  | allowedOutputs candidate _ => candidate
  | incompatibleOutputs candidate _ _ => candidate

def counts : ReaderConstraint n → Bool
  | minimumQueryReaders .. => true
  | highestSharedQueryMaterialization .. => true
  | allowedOutputs .. => false
  | incompatibleOutputs .. => false

end ReaderConstraint

namespace MilpInputs
variable {n : Nat} (inputs : MilpInputs n)

def shareableOptions (context : Nat) : List (Fin n) :=
  (inputs.options context).filter fun option => inputs.kind option = .shareable

def sharedReads (reader : Fin n) : List (Fin n) :=
  match inputs.contextOfShareable reader with
  | some context => inputs.shareableOptions context
  | none => []

/-- The shareable candidates whose contexts may read a candidate. -/
def sharedReaders (shareable : Fin n) : List (Fin n) :=
  inputs.contexts.filterMap fun context =>
    match context.kind with
    | .shared reader =>
      if shareable ∈ context.options ∧ inputs.kind shareable = .shareable then some reader else none
    | _ => none

/-! ### Readers first -/

/-- The candidates met, and those settled, the last one first. -/
structure PostOrder (n : Nat) where
  seen : List (Fin n)
  order : List (Fin n)

/-- Settle each candidate on the stack after those below it. -/
def postOrderFrom : Nat → List (Fin n × Bool) → PostOrder n → PostOrder n
  | 0, _, found => found
  | _ + 1, [], found => found
  | rounds + 1, (node, true) :: stack, found =>
    postOrderFrom rounds stack { found with order := node :: found.order }
  | rounds + 1, (node, false) :: stack, found =>
    if node ∈ found.seen then postOrderFrom rounds stack found
    else
      let seen := node :: found.seen
      let below := (inputs.sharedReads node).filter (· ∉ seen)
      postOrderFrom rounds ((below.map (·, false)).reverse ++ (node, true) :: stack)
        { found with seen }

/-- A round takes an entry off the stack; a candidate met puts itself and what it reads there. -/
def postOrderRounds : Nat :=
  1 + ((List.finRange n).map fun node => (inputs.sharedReads node).length + 1).sum

/-- `shareables_readers_first`: a cycle is broken at the first candidate met. -/
def shareablesReadersFirst : List (Fin n) :=
  (((List.finRange n).filter fun shareable => (inputs.contextOfShareable shareable).isSome).foldl
    (fun found start => if start ∈ found.seen then found else
      inputs.postOrderFrom inputs.postOrderRounds [(start, false)] found) (⟨[], []⟩ : PostOrder n)).order

/-! ### Reach -/

/-- Each query with the shareable candidates of its own context. -/
def readByQueries (queries : Nat) : List (Nat × Fin n) :=
  (List.range queries).flatMap fun query => (inputs.shareableOptions query).map (query, ·)

/-- The queries of a candidate may depend on what its context may read. -/
def pass (reach : List (Nat × Fin n)) (reader : Fin n) : List (Nat × Fin n) :=
  reach ∪ (reach.filter (·.2 = reader)).flatMap fun (query, _) =>
    (inputs.sharedReads reader).map (query, ·)

def mayReach (queries : Nat) : List (Nat × Fin n) :=
  inputs.shareablesReadersFirst.foldl inputs.pass (inputs.readByQueries queries)

def reachVariables (queries : Nat) : List (Nat × Fin n) :=
  inputs.shareablesReadersFirst.flatMap fun shareable =>
    (inputs.mayReach queries).filter (·.2 = shareable)

/-- The contexts through which a query may reach a candidate, with their shareable candidates. -/
def reachReaders (queries : Nat) (query : Nat) (shareable : Fin n) : List (Fin n × Nat) :=
  (inputs.sharedReaders shareable).filterMap fun reader =>
    if (query, reader) ∈ inputs.reachVariables queries then
      (inputs.contextOfShareable reader).map (reader, ·)
    else none

def reachFromBelow (queries : Nat) (query : Nat) (shareable : Fin n) :
    List (Constraint (Variable n)) :=
  (if shareable ∈ inputs.options query then
    [.ge (.var (.reach query shareable)) (.var (.choice query shareable))] else []) ++
    (inputs.reachReaders queries query shareable).map fun (reader, context) =>
      .ge (.var (.reach query shareable))
        (.var (.reach query reader) + .var (.choice context shareable) - .const 1)

def reachFromAbove (queries : Nat) (query : Nat) (shareable : Fin n) :
    List (Constraint (Variable n)) :=
  let readers := inputs.reachReaders queries query shareable
  (readers.flatMap fun (reader, context) =>
    [.le (.var (.through query shareable reader)) (.var (.reach query reader)),
      .le (.var (.through query shareable reader)) (.var (.choice context shareable))]) ++
    [.le (.var (.reach query shareable))
      (.sum (if shareable ∈ inputs.options query then [.choice query shareable] else []) +
        .sum (readers.map fun (reader, _) => .through query shareable reader))]

/-- The shareable candidates that a counting constraint names, whose context may read such a
candidate, or that may read one it names. -/
def exactSeeds (constraints : List (ReaderConstraint n)) : List (Fin n) :=
  (constraints.filter (·.counts)).flatMap fun constraint =>
    let candidate := constraint.candidate
    (if inputs.kind candidate = .shareable then candidate :: inputs.sharedReaders candidate
      else []) ++
      inputs.contexts.filterMap fun context =>
        match context.kind with
        | .shared own => if candidate ∈ context.options then some own else none
        | _ => none

/-- The contexts that may read each candidate, as a graph. -/
def readersGraph : Graph (Fin n) where
  reads := inputs.sharedReaders
  inner := List.finRange n
  covers key _ _ := List.mem_finRange key

/-- `shareables_needing_exact_reach`. -/
def shareablesNeedingExactReach (constraints : List (ReaderConstraint n)) : List (Fin n) :=
  inputs.readersGraph.mark (inputs.exactSeeds constraints) []

def reachRows (queries : Nat) (constraints : List (ReaderConstraint n)) :
    List (Constraint (Variable n)) :=
  (inputs.reachVariables queries).flatMap (fun (query, shareable) =>
    inputs.reachFromBelow queries query shareable) ++
    ((inputs.reachVariables queries).filter
      (·.2 ∈ inputs.shareablesNeedingExactReach constraints)).flatMap fun (query, shareable) =>
        inputs.reachFromAbove queries query shareable

end MilpInputs

/-! ### Which reach variables there are -/

namespace MilpInputs
variable {n : Nat} {inputs : MilpInputs n}

/-! ### The order has every shareable candidate -/

/-- What is left on the stack, and what candidates not met can put there. -/
def postOrderLeft (inputs : MilpInputs n) (stack : List (Fin n × Bool)) (seen : List (Fin n)) : Nat :=
  stack.length + ∑ node with node ∉ seen, ((inputs.sharedReads node).length + 1)

theorem postOrderLeft_meet {stack : List (Fin n × Bool)} {seen : List (Fin n)} {node : Fin n}
    (new : node ∉ seen) {below : List (Fin n)} (few : below.length ≤ (inputs.sharedReads node).length) :
    inputs.postOrderLeft ((below.map (·, false)).reverse ++ (node, true) :: stack) (node :: seen) + 1 ≤
      inputs.postOrderLeft ((node, false) :: stack) seen := by
  have rest : (Finset.univ.filter (· ∉ node :: seen)) = (Finset.univ.filter (· ∉ seen)).erase node := by
    ext other
    simp
  have total := Finset.add_sum_erase (Finset.univ.filter (· ∉ seen))
    (fun other => (inputs.sharedReads other).length + 1) (by simpa using new)
  unfold postOrderLeft
  rw [rest]
  simp only [List.length_append, List.length_reverse, List.length_map, List.length_cons]
  omega

theorem postOrderLeft_pop (entry : Fin n × Bool) (stack : List (Fin n × Bool)) (seen : List (Fin n)) :
    inputs.postOrderLeft (entry :: stack) seen = inputs.postOrderLeft stack seen + 1 := by
  unfold postOrderLeft
  rw [List.length_cons]
  omega

/-- Every candidate met is settled, or is on the stack to be settled. -/
def Settling (stack : List (Fin n × Bool)) (found : PostOrder n) : Prop :=
  ∀ node ∈ found.seen, node ∈ found.order ∨ (node, true) ∈ stack

theorem postOrderFrom_settles {rounds : Nat} {stack : List (Fin n × Bool)} {found : PostOrder n}
    (settling : Settling stack found) (enough : inputs.postOrderLeft stack found.seen ≤ rounds) :
    (∀ node ∈ (inputs.postOrderFrom rounds stack found).seen,
      node ∈ (inputs.postOrderFrom rounds stack found).order) ∧
    ∀ node, node ∈ found.seen ∨ (node, false) ∈ stack →
      node ∈ (inputs.postOrderFrom rounds stack found).seen := by
  induction rounds generalizing stack found with
  | zero =>
    have empty : stack = [] := by
      unfold postOrderLeft at enough
      exact List.eq_nil_of_length_eq_zero (by omega)
    subst empty
    exact ⟨fun node met => (settling node met).resolve_right List.not_mem_nil,
      fun node met => met.resolve_right List.not_mem_nil⟩
  | succ rounds ih =>
    match stack with
    | [] =>
      exact ⟨fun node met => (settling node met).resolve_right List.not_mem_nil,
        fun node met => met.resolve_right List.not_mem_nil⟩
    | (node, true) :: stack =>
      have kept : Settling stack { found with order := node :: found.order } := by
        intro other met
        rcases settling other met with settled | waiting
        · exact .inl (List.mem_cons_of_mem _ settled)
        · rcases List.mem_cons.mp waiting with same | waiting
          · cases same
            exact .inl List.mem_cons_self
          · exact .inr waiting
      rw [postOrderLeft_pop] at enough
      obtain ⟨settled, met⟩ := ih kept (Nat.le_of_succ_le_succ enough)
      refine ⟨settled, fun other here => met other (here.imp_right fun waiting => ?_)⟩
      rcases List.mem_cons.mp waiting with same | waiting
      · cases same
      · exact waiting
    | (node, false) :: stack =>
      rw [postOrderFrom]
      split
      · next known =>
        have kept : Settling stack found := fun other here =>
          (settling other here).imp_right fun waiting => by
            rcases List.mem_cons.mp waiting with same | waiting
            · cases same
            · exact waiting
        rw [postOrderLeft_pop] at enough
        obtain ⟨settled, met⟩ := ih kept (Nat.le_of_succ_le_succ enough)
        refine ⟨settled, fun other here => met other ?_⟩
        rcases here with here | waiting
        · exact .inl here
        · rcases List.mem_cons.mp waiting with same | waiting
          · cases same
            exact .inl known
          · exact .inr waiting
      · next new =>
        have kept : Settling ((((inputs.sharedReads node).filter (· ∉ node :: found.seen)).map
            (·, false)).reverse ++ (node, true) :: stack) { found with seen := node :: found.seen } := by
          intro other here
          rcases List.mem_cons.mp here with same | here
          · rw [same]
            exact .inr (List.mem_append_right _ List.mem_cons_self)
          · refine (settling other here).imp_right fun waiting => ?_
            rcases List.mem_cons.mp waiting with same | waiting
            · cases same
            · exact List.mem_append_right _ (List.mem_cons_of_mem _ waiting)
        have fewer := (postOrderLeft_meet new
          (List.length_filter_le (· ∉ node :: found.seen) (inputs.sharedReads node))).trans enough
        obtain ⟨settled, met⟩ := ih kept (Nat.le_of_succ_le_succ fewer)
        refine ⟨settled, fun other here => met other ?_⟩
        rcases here with here | waiting
        · exact .inl (List.mem_cons_of_mem _ here)
        · rcases List.mem_cons.mp waiting with same | waiting
          · cases same
            exact .inl List.mem_cons_self
          · exact .inr (List.mem_append_right _ (List.mem_cons_of_mem _ waiting))

theorem mem_shareablesReadersFirst {shareable : Fin n}
    (placed : (inputs.contextOfShareable shareable).isSome) :
    shareable ∈ inputs.shareablesReadersFirst := by
  let scan := fun (found : PostOrder n) start => if start ∈ found.seen then found else
    inputs.postOrderFrom inputs.postOrderRounds [(start, false)] found
  have settles : ∀ (starts : List (Fin n)) (found : PostOrder n),
      (∀ node ∈ found.seen, node ∈ found.order) →
      (∀ node ∈ (starts.foldl scan found).seen, node ∈ (starts.foldl scan found).order) ∧
      ∀ node, node ∈ found.seen ∨ node ∈ starts → node ∈ (starts.foldl scan found).seen := by
    intro starts
    induction starts with
    | nil => exact fun found settled => ⟨settled, fun node met => met.resolve_right List.not_mem_nil⟩
    | cons start starts ih =>
      intro found settled
      have one : (∀ node ∈ (scan found start).seen, node ∈ (scan found start).order) ∧
          ∀ node, node ∈ found.seen ∨ node = start → node ∈ (scan found start).seen := by
        dsimp only [scan]
        split
        · next known =>
          exact ⟨settled, fun node met => met.elim id fun same => same ▸ known⟩
        · have enough : inputs.postOrderLeft [(start, false)] found.seen ≤ inputs.postOrderRounds := by
            unfold postOrderLeft postOrderRounds
            rw [← Fin.sum_univ_def]
            exact Nat.add_le_add_left (Finset.sum_le_sum_of_subset (Finset.filter_subset _ _)) 1
          obtain ⟨settled, met⟩ := postOrderFrom_settles (fun node met => .inl (settled node met)) enough
          exact ⟨settled, fun node here => met node (here.imp_right fun same => by simp [same])⟩
      obtain ⟨done, met⟩ := ih _ one.1
      refine ⟨done, fun node here => met node ?_⟩
      rcases here with here | listed
      · exact .inl (one.2 node (.inl here))
      · exact (List.mem_cons.mp listed).imp_left fun same => one.2 node (.inr same)
  obtain ⟨settled, met⟩ := settles ((List.finRange n).filter fun shareable =>
    (inputs.contextOfShareable shareable).isSome) ⟨[], []⟩ nofun
  exact settled shareable (met shareable (.inr (List.mem_filter.mpr ⟨List.mem_finRange _, placed⟩)))

/-! ### Announced queries -/

/-- A query is announced to the shareable candidates its own context may read, and by each candidate
in order to those that the candidate's context may read. -/
inductive Announced (inputs : MilpInputs n) (queries query : Nat) : List (Fin n) → Fin n → Prop
  | listed {order : List (Fin n)} {shareable : Fin n} (inside : query < queries)
      (option : shareable ∈ inputs.shareableOptions query) : Announced inputs queries query order shareable
  | passed {before after : List (Fin n)} {reader shareable : Fin n}
      (announced : Announced inputs queries query before reader)
      (option : shareable ∈ inputs.sharedReads reader) :
      Announced inputs queries query (before ++ reader :: after) shareable

theorem Announced.append {queries query : Nat} {order : List (Fin n)} {shareable : Fin n}
    (announced : inputs.Announced queries query order shareable) (after : List (Fin n)) :
    inputs.Announced queries query (order ++ after) shareable := by
  cases announced with
  | listed inside option => exact .listed inside option
  | passed announced option =>
    rw [List.append_assoc, List.cons_append]
    exact .passed announced option

theorem mem_sharedReads {reader shareable : Fin n} : shareable ∈ inputs.sharedReads reader ↔
    ∃ context, inputs.contextOfShareable reader = some context ∧
      shareable ∈ inputs.shareableOptions context := by
  unfold sharedReads
  cases inputs.contextOfShareable reader <;> simp

theorem Announced.option {queries query : Nat} {order : List (Fin n)} {shareable : Fin n}
    (announced : inputs.Announced queries query order shareable) :
    ∃ context, shareable ∈ inputs.shareableOptions context := by
  cases announced with
  | listed _ option => exact ⟨_, option⟩
  | passed _ option =>
    obtain ⟨context, _, option⟩ := mem_sharedReads.mp option
    exact ⟨context, option⟩

theorem mem_pass {reach : List (Nat × Fin n)} {reader : Fin n} {query : Nat} {shareable : Fin n} :
    (query, shareable) ∈ inputs.pass reach reader ↔ (query, shareable) ∈ reach ∨
      (query, reader) ∈ reach ∧ shareable ∈ inputs.sharedReads reader := by
  unfold pass
  rw [List.mem_union_iff]
  refine or_congr_right ?_
  simp [List.mem_flatMap]

theorem mem_foldl_pass {queries query : Nat} {order : List (Fin n)} {shareable : Fin n} :
    (query, shareable) ∈ order.foldl inputs.pass (inputs.readByQueries queries) ↔
      inputs.Announced queries query order shareable := by
  have kept : ∀ (order : List (Fin n)) (reach : List (Nat × Fin n)) pair, pair ∈ reach →
      pair ∈ order.foldl inputs.pass reach := by
    intro order
    induction order with
    | nil => exact fun _ _ here => here
    | cons reader order ih => exact fun reach pair here => ih _ _ (mem_pass.mpr (.inl here))
  constructor
  · induction order using List.reverseRecOn generalizing shareable with
    | nil =>
      intro here
      obtain ⟨_, inside, option⟩ := List.mem_flatMap.mp here
      obtain ⟨_, option, same⟩ := List.mem_map.mp option
      cases same
      exact .listed (List.mem_range.mp inside) option
    | append_singleton order reader ih =>
      rw [List.foldl_append, List.foldl_cons, List.foldl_nil]
      intro here
      rcases mem_pass.mp here with before | ⟨announced, option⟩
      · exact (ih before).append _
      · exact .passed (ih announced) option
  · intro announced
    induction announced with
    | listed inside option =>
      exact kept _ _ _ (List.mem_flatMap.mpr ⟨_, List.mem_range.mpr inside,
        List.mem_map_of_mem option⟩)
    | passed announced option ih =>
      rw [List.foldl_append, List.foldl_cons]
      exact kept _ _ _ (mem_pass.mpr (.inr ⟨ih, option⟩))

theorem mem_reachVariables (formed : inputs.WellFormed) {queries query : Nat} {shareable : Fin n} :
    (query, shareable) ∈ inputs.reachVariables queries ↔
      inputs.Announced queries query inputs.shareablesReadersFirst shareable := by
  unfold reachVariables
  simp only [List.mem_flatMap, List.mem_filter, decide_eq_true_eq, exists_eq_right_right', mayReach,
    mem_foldl_pass]
  refine ⟨fun here => here.2, fun announced => ⟨mem_shareablesReadersFirst ?_, announced⟩⟩
  obtain ⟨context, option⟩ := announced.option
  obtain ⟨listed, kind⟩ := List.mem_filter.mp option
  exact formed.known context shareable listed (of_decide_eq_true kind)

end MilpInputs
end AsapPlanner.Milp
