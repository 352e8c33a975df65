import AsapPlanner.Ir.Node
import AsapPlanner.Traversal.Kahn
import Mathlib.Data.List.Destutter
import Mathlib.Data.List.Sort

/-!
The memo: groups, the candidates that implement them, who reads whom and which queries are served.
-/

namespace AsapPlanner.Pass2
open Ir Traversal

abbrev MemoGroupId := Nat

/-- One logical sub-expression of the workload. -/
structure MemoGroup where
  logicalNode : NodeRef
  childGroups : List MemoGroupId
  parents : List MemoGroupId
  queries : List Nat
deriving DecidableEq, Inhabited

namespace MemoGroup

/-- Sorted, and each query once. -/
def inOrder (queries : List Nat) : List Nat := (queries.mergeSort (· ≤ ·)).destutter (· ≠ ·)

def addParent (parent : MemoGroupId) (group : MemoGroup) : MemoGroup :=
  { group with parents := group.parents ++ [parent] }

def serve (queries : List Nat) (group : MemoGroup) : MemoGroup :=
  { group with queries := inOrder (group.queries ++ queries) }

end MemoGroup

inductive OriginOfCandidateForMemoGroup
  | pass1 | sharedBuild | summaryResult | summaryInput | tumblingWindows | rollup | topKReuse
  | widenedScans
deriving DecidableEq, Inhabited

/-- One way to implement a group, over the groups it reads. -/
structure CandidateForMemoGroup where
  fusedGroups : List MemoGroupId
  rootNode : NodeRef
  inputGroups : List MemoGroupId
  origin : OriginOfCandidateForMemoGroup
  accuracyBudgetParts : Nat
deriving DecidableEq, Inhabited

/-- The groups, and each one's candidates. -/
structure Memo where
  groups : List MemoGroup
  candidates : List (List CandidateForMemoGroup)
  paired : candidates.length = groups.length

namespace Memo
variable (memo : Memo)

def size : Nat := memo.groups.length

def group (id : MemoGroupId) : MemoGroup := memo.groups[id]?.getD default

def candidatesOf (id : MemoGroupId) : List CandidateForMemoGroup := memo.candidates[id]?.getD []

/-- The groups `id` or one of its candidates reads. -/
def dependencies (id : MemoGroupId) : List MemoGroupId :=
  ((memo.group id).childGroups ++ (memo.candidatesOf id).flatMap (·.inputGroups)).dedup

/-- The groups, each after every group it or one of its candidates reads. -/
def topologicalOrder : Option (List MemoGroupId) :=
  Traversal.topologicalOrder memo.size memo.dependencies

/-! ### Updates -/

def push (group : MemoGroup) (candidates : List CandidateForMemoGroup) : Memo where
  groups := memo.groups ++ [group]
  candidates := memo.candidates ++ [candidates]
  paired := by simp [memo.paired]

def modifyGroup (id : MemoGroupId) (change : MemoGroup → MemoGroup) : Memo where
  groups := memo.groups.modify id change
  candidates := memo.candidates
  paired := by rw [List.length_modify, memo.paired]

def addCandidate (id : MemoGroupId) (candidate : CandidateForMemoGroup) : Memo where
  groups := memo.groups
  candidates := memo.candidates.modify id (· ++ [candidate])
  paired := by rw [List.length_modify, memo.paired]

def clearParents : Memo where
  groups := memo.groups.map fun group => { group with parents := [] }
  candidates := memo.candidates
  paired := by rw [List.length_map, memo.paired]

/-- Make `change` to each of `children`. -/
def modifyAll (children : List MemoGroupId) (change : MemoGroup → MemoGroup) : Memo :=
  children.foldl (fun memo child => memo.modifyGroup child change) memo

/-- Make `reader` a parent of every group it reads. -/
def registerReader (reader : MemoGroupId) : Memo :=
  memo.modifyAll (memo.dependencies reader) (MemoGroup.addParent reader)

/-- Parents describe every possible dependency, not a selected plan. -/
def rebuildParents : Memo := (List.range memo.size).foldl registerReader memo.clearParents

/-- Every group `reader` reads serves its queries too. -/
def propagate (reader : MemoGroupId) : Memo :=
  memo.modifyAll (memo.dependencies reader) (MemoGroup.serve (memo.group reader).queries)

end Memo

/-! ### Frames -/

section
variable {memo : Memo} {id other : MemoGroupId}

@[simp] theorem mem_inOrder {queries : List Nat} {query : Nat} :
    query ∈ MemoGroup.inOrder queries ↔ query ∈ queries := by
  have sorted : (queries.mergeSort (· ≤ ·)).Pairwise (· ≤ ·) := List.pairwise_mergeSort' (· ≤ ·) queries
  rw [MemoGroup.inOrder, sorted.destutter_eq_dedup, List.mem_dedup, List.mem_mergeSort]

theorem nodup_dependencies (memo : Memo) (id : MemoGroupId) : (memo.dependencies id).Nodup :=
  List.nodup_dedup _

theorem getD_snoc {α : Type} (items : List α) (last missing : α) (place : Nat) :
    (items ++ [last])[place]?.getD missing =
      if place < items.length then items[place]?.getD missing
      else if place = items.length then last else missing := by
  rw [List.getElem?_append]
  by_cases inside : place < items.length
  · rw [if_pos inside, if_pos inside]
  · rw [if_neg inside, if_neg inside]
    by_cases same : place = items.length
    · simp [same]
    · have beyond : [last].length ≤ place - items.length := by
        rw [List.length_singleton]
        omega
      rw [if_neg same, List.getElem?_eq_none beyond, Option.getD_none]

theorem getD_modify {α : Type} (items : List α) (missing : α) (change : α → α) (place other : Nat) :
    (items.modify place change)[other]?.getD missing =
      if other = place ∧ other < items.length then change (items[other]?.getD missing)
      else items[other]?.getD missing := by
  rw [List.getElem?_modify]
  by_cases inside : other < items.length
  · by_cases same : other = place
    · simp [same, same ▸ inside]
    · simp [same, Ne.symm same]
  · simp [inside]

theorem group_push (group : MemoGroup) (candidates : List CandidateForMemoGroup) (id : MemoGroupId) :
    (memo.push group candidates).group id =
      if id < memo.size then memo.group id else if id = memo.size then group else default :=
  getD_snoc memo.groups group default id

theorem candidatesOf_push (group : MemoGroup) (candidates : List CandidateForMemoGroup)
    (id : MemoGroupId) : (memo.push group candidates).candidatesOf id =
      if id < memo.size then memo.candidatesOf id else if id = memo.size then candidates else [] := by
  rw [Memo.size, ← memo.paired]
  exact getD_snoc memo.candidates candidates [] id

@[simp] theorem size_push (group : MemoGroup) (candidates : List CandidateForMemoGroup) :
    (memo.push group candidates).size = memo.size + 1 := by
  simp [Memo.push, Memo.size]

@[simp] theorem group_addCandidate (candidate : CandidateForMemoGroup) :
    (memo.addCandidate other candidate).group id = memo.group id := rfl

@[simp] theorem size_addCandidate (candidate : CandidateForMemoGroup) :
    (memo.addCandidate other candidate).size = memo.size := rfl

theorem candidatesOf_addCandidate (candidate : CandidateForMemoGroup) (inside : other < memo.size) :
    (memo.addCandidate other candidate).candidatesOf id =
      if id = other then memo.candidatesOf id ++ [candidate] else memo.candidatesOf id := by
  have present : other < memo.candidates.length := by rwa [memo.paired]
  refine (getD_modify memo.candidates [] (· ++ [candidate]) other id).trans ?_
  by_cases same : id = other
  · rw [if_pos ⟨same, same ▸ present⟩, if_pos same]
    rfl
  · rw [if_neg (fun both => same both.1), if_neg same]
    rfl

theorem group_modifyGroup (change : MemoGroup → MemoGroup) :
    (memo.modifyGroup other change).group id =
      if id = other ∧ id < memo.size then change (memo.group id) else memo.group id :=
  getD_modify memo.groups default change other id

/-- The groups and candidates of `memo`, with other parents and queries. -/
structure SameReads (before after : Memo) : Prop where
  size : after.size = before.size
  candidates : after.candidates = before.candidates
  logicalNode : ∀ id, (after.group id).logicalNode = (before.group id).logicalNode
  childGroups : ∀ id, (after.group id).childGroups = (before.group id).childGroups

namespace SameReads

theorem refl (memo : Memo) : SameReads memo memo := ⟨rfl, rfl, fun _ => rfl, fun _ => rfl⟩

theorem trans {a b c : Memo} (ab : SameReads a b) (bc : SameReads b c) : SameReads a c :=
  ⟨bc.size.trans ab.size, bc.candidates.trans ab.candidates,
    fun id => (bc.logicalNode id).trans (ab.logicalNode id),
    fun id => (bc.childGroups id).trans (ab.childGroups id)⟩

theorem candidatesOf {before after : Memo} (same : SameReads before after) (id : MemoGroupId) :
    after.candidatesOf id = before.candidatesOf id := by
  rw [Memo.candidatesOf, Memo.candidatesOf, same.candidates]

theorem dependencies {before after : Memo} (same : SameReads before after) (id : MemoGroupId) :
    after.dependencies id = before.dependencies id := by
  rw [Memo.dependencies, Memo.dependencies, same.childGroups, same.candidatesOf]

end SameReads

theorem modifyAll_spec {children : List MemoGroupId} (distinct : children.Nodup)
    {change : MemoGroup → MemoGroup}
    (kept : ∀ group, (change group).logicalNode = group.logicalNode ∧
      (change group).childGroups = group.childGroups) :
    SameReads memo (memo.modifyAll children change) ∧
    ∀ id, id < memo.size → (memo.modifyAll children change).group id =
      if id ∈ children then change (memo.group id) else memo.group id := by
  induction children generalizing memo with
  | nil => exact ⟨.refl memo, fun id _ => by simp [Memo.modifyAll]⟩
  | cons child rest ih =>
    obtain ⟨new, distinct⟩ := List.nodup_cons.mp distinct
    have step : SameReads memo (memo.modifyGroup child change) := by
      refine ⟨List.length_modify .., rfl, fun id => ?_, fun id => ?_⟩
      · rw [group_modifyGroup]
        split
        · exact (kept _).1
        · rfl
      · rw [group_modifyGroup]
        split
        · exact (kept _).2
        · rfl
    obtain ⟨same, changed⟩ := @ih (memo.modifyGroup child change) distinct
    refine ⟨step.trans same, fun id inside => ?_⟩
    rw [Memo.modifyAll, List.foldl_cons]
    refine (changed id (by rwa [step.size])).trans ?_
    rw [group_modifyGroup]
    by_cases here : id = child
    · subst here
      rw [if_neg new, if_pos ⟨rfl, inside⟩, if_pos List.mem_cons_self]
    · simp [here]

/-! ### Parents -/

theorem registerReader_spec (memo : Memo) (reader : MemoGroupId) :
    SameReads memo (memo.registerReader reader) ∧
    ∀ id < memo.size, (memo.registerReader reader).group id =
      if id ∈ memo.dependencies reader then (memo.group id).addParent reader else memo.group id :=
  modifyAll_spec (nodup_dependencies memo reader) fun _ => ⟨rfl, rfl⟩

theorem clearParents_group (memo : Memo) (id : MemoGroupId) :
    memo.clearParents.group id = { memo.group id with parents := [] } := by
  simp only [Memo.clearParents, Memo.group, List.getElem?_map]
  cases memo.groups[id]? <;> rfl

theorem clearParents_reads (memo : Memo) : SameReads memo memo.clearParents :=
  ⟨List.length_map _, rfl, fun id => by rw [clearParents_group], fun id => by rw [clearParents_group]⟩

theorem rebuildParents_spec (memo : Memo) : SameReads memo memo.rebuildParents ∧
    ∀ id < memo.size, memo.rebuildParents.group id = { memo.group id with
      parents := (List.range memo.size).filter fun reader => id ∈ memo.dependencies reader } := by
  have turns : ∀ n, SameReads memo ((List.range n).foldl Memo.registerReader memo.clearParents) ∧
      ∀ id < memo.size, ((List.range n).foldl Memo.registerReader memo.clearParents).group id =
        { memo.group id with
          parents := (List.range n).filter fun reader => id ∈ memo.dependencies reader } := by
    intro n
    induction n with
    | zero => exact ⟨clearParents_reads memo, fun id _ => clearParents_group memo id⟩
    | succ n ih =>
      obtain ⟨same, groups⟩ := ih
      rw [List.range_succ, List.foldl_concat]
      obtain ⟨same', groups'⟩ := registerReader_spec
        ((List.range n).foldl Memo.registerReader memo.clearParents) n
      refine ⟨same.trans same', fun id inside => ?_⟩
      rw [groups' id (by rwa [same.size]), groups id inside, same.dependencies, List.filter_append]
      by_cases reads : id ∈ memo.dependencies n
      · simp [reads, MemoGroup.addParent]
      · simp [reads]
  exact turns memo.size

/-! ### Queries -/

theorem propagate_spec (memo : Memo) (reader : MemoGroupId) : SameReads memo (memo.propagate reader) ∧
    ∀ id < memo.size, (memo.propagate reader).group id = if id ∈ memo.dependencies reader
      then (memo.group id).serve (memo.group reader).queries else memo.group id :=
  modifyAll_spec (nodup_dependencies memo reader) fun _ => ⟨rfl, rfl⟩

theorem queries_propagate {reader : MemoGroupId} (inside : id < memo.size) {query : Nat} :
    query ∈ ((memo.propagate reader).group id).queries ↔ query ∈ (memo.group id).queries ∨
      id ∈ memo.dependencies reader ∧ query ∈ (memo.group reader).queries := by
  rw [(propagate_spec memo reader).2 id inside]
  split
  · rename_i reads
    simp [MemoGroup.serve, reads]
  · rename_i other
    simp [other]

/-- Readers before what they read. -/
def TopDown (memo : Memo) (order : List MemoGroupId) : Prop :=
  ∀ before reader after, order = before ++ reader :: after →
    ∀ child ∈ memo.dependencies reader, child ∉ before ++ [reader]

theorem topDown_reverse {order : List MemoGroupId} (distinct : order.Nodup)
    (respects : Respects memo.dependencies order) : TopDown memo order.reverse := by
  intro before reader after split child reads
  have turned : order = after.reverse ++ reader :: before.reverse := by
    rw [← List.reverse_reverse order, split]
    simp
  have earlier := respects _ _ _ turned child reads
  rw [turned] at distinct
  intro later
  refine (List.nodup_append.mp distinct).2.2 child earlier child ?_ rfl
  rcases List.mem_append.mp later with old | new
  · exact List.mem_cons_of_mem _ (List.mem_reverse.mpr old)
  · rw [List.mem_singleton.mp new]
    exact List.mem_cons_self

theorem propagate_closed {order : List MemoGroupId} (topDown : TopDown memo order)
    (inside : ∀ reader ∈ order, reader < memo.size ∧ ∀ child ∈ memo.dependencies reader, child < memo.size) :
    SameReads memo (order.foldl Memo.propagate memo) ∧
    (∀ id < memo.size, ((order.foldl Memo.propagate memo).group id).parents = (memo.group id).parents ∧
      (memo.group id).queries ⊆ ((order.foldl Memo.propagate memo).group id).queries) ∧
    ∀ reader ∈ order, ∀ child ∈ memo.dependencies reader,
      ((order.foldl Memo.propagate memo).group reader).queries ⊆
        ((order.foldl Memo.propagate memo).group child).queries := by
  induction order using List.reverseRecOn with
  | nil => exact ⟨.refl memo, fun _ _ => ⟨rfl, List.Subset.refl _⟩, fun _ member => by cases member⟩
  | append_singleton order last ih =>
    have fewer : TopDown memo order := by
      intro before reader after split child reads
      refine topDown before reader (after ++ [last]) ?_ child reads
      rw [split, List.append_assoc, List.cons_append]
    have apart := topDown order last [] rfl
    obtain ⟨same, grown, closed⟩ :=
      ih fewer fun reader member => inside reader (List.mem_append_left _ member)
    rw [List.foldl_concat]
    have step : ∀ id < memo.size, ∀ query,
        query ∈ (((order.foldl Memo.propagate memo).propagate last).group id).queries ↔
          query ∈ ((order.foldl Memo.propagate memo).group id).queries ∨
            id ∈ memo.dependencies last ∧
              query ∈ ((order.foldl Memo.propagate memo).group last).queries := by
      intro id small query
      rw [queries_propagate (by rwa [same.size]), same.dependencies]
    obtain ⟨reads, groups⟩ := propagate_spec (order.foldl Memo.propagate memo) last
    refine ⟨same.trans reads, fun id small => ⟨?_, fun query served => ?_⟩, ?_⟩
    · rw [groups id (by rwa [same.size]), ← (grown id small).1]
      split <;> rfl
    · exact (step id small query).mpr (.inl ((grown id small).2 served))
    · intro reader member child reads query served
      obtain ⟨small, children⟩ := inside reader member
      have settled : reader ∉ memo.dependencies last := fun read => apart reader read member
      have before := ((step reader small query).mp served).resolve_right fun new => settled new.1
      rcases List.mem_append.mp member with old | new
      · exact (step child (children child reads) query).mpr (.inl (closed reader old child reads before))
      · rw [List.mem_singleton.mp new] at reads before
        exact (step child ((inside last (by simp)).2 child reads) query).mpr (.inr ⟨reads, before⟩)

end

end AsapPlanner.Pass2
