import AsapPlanner.Pass2.Catalogue
import AsapPlanner.Pass2.Replace
import AsapPlanner.Rust.BTreeMap
import AsapPlanner.Rust.Integer
import AsapPlanner.Rust.Result
import Mathlib.Data.Prod.Lex

/-!
Shared summary states: a group for every build made twice, and a candidate reading it beside each
candidate that makes it.
-/

namespace AsapPlanner.Pass2
open Rust Ir Traversal

inductive Pass2RuleError
  | tooManyGroups
  | cyclicDependencies
deriving DecidableEq, Repr

/-- The builds each candidate replaces, ordered by group and index. -/
abbrev Replacements := BTreeMap (MemoGroupId ×ₗ Nat) (Cache NodeRef NodeRef)

/-- The memo with the state groups so far, and what their readers replace. -/
structure Adding where
  memo : Memo
  stateGroups : List MemoGroupId
  replacements : Replacements

def stateCandidate (memo : Memo) (build : BuildReaders) : CandidateForMemoGroup where
  fusedGroups := []
  rootNode := build.build
  inputGroups := build.children
  origin := .sharedBuild
  accuracyBudgetParts := ((build.readers.map fun (group, index, _) =>
    ((memo.candidatesOf group)[index]?.getD default).accuracyBudgetParts).max?).getD 1

def stateGroup (memo : Memo) (build : BuildReaders) : MemoGroup where
  logicalNode := build.build
  childGroups := build.children
  parents := []
  queries := MemoGroup.inOrder (build.readers.flatMap fun (group, _) => (memo.group group).queries)

def Adding.add (adding : Adding) (build : BuildReaders) : Except Pass2RuleError Adding :=
  if build.readers.length < 2 then .ok adding
  else if u32Max < adding.memo.size then .error .tooManyGroups
  else .ok {
    memo := adding.memo.push (stateGroup adding.memo build) [stateCandidate adding.memo build]
    stateGroups := adding.stateGroups ++ [adding.memo.size]
    replacements := build.readers.foldl (fun replacements (group, index, own) =>
      replacements.change (toLex (group, index)) Cache.empty (·.insert own build.build))
        adding.replacements }

def addReader (stateGroups : List MemoGroupId) (state : Dag × Memo)
    (entry : (MemoGroupId ×ₗ Nat) × Cache NodeRef NodeRef) : Dag × Memo :=
  let (dag, memo) := state
  let (group, index) := ofLex entry.1
  let own := (memo.candidatesOf group)[index]?.getD default
  let boundary := memo.boundaryOf (own.inputGroups ++ stateGroups)
  let (root, dag) := replace entry.2 own.rootNode dag
  (dag, memo.addCandidate group { own with
    rootNode := root
    inputGroups := boundaryGroups dag boundary root
    origin := .sharedBuild })

def addSharedSummaryStateGroupsWithIndex (text : Datum → Option String) (indexed : Bool) (dag : Dag)
    (memo : Memo) : Except Pass2RuleError (Dag × Memo) := do
  let builds := (catalogue text dag indexed memo).builds
  let adding ← builds.foldlM Adding.add { memo, stateGroups := [], replacements := .empty }
  let (dag, memo) := adding.replacements.entries.foldl (addReader adding.stateGroups) (dag, adding.memo)
  let memo := memo.rebuildParents
  match memo.topologicalOrder with
  | none => throw .cyclicDependencies
  | some order => pure (dag, order.reverse.foldl Memo.propagate memo)

def addSharedSummaryStateGroups (text : Datum → Option String) (dag : Dag) (memo : Memo) :
    Except Pass2RuleError (Dag × Memo) :=
  addSharedSummaryStateGroupsWithIndex text true dag memo

/-! ### The groups added -/

structure StoredMemo where
  dag : Dag
  memo : Memo
  allocated : ∀ id, ∀ candidate ∈ memo.candidatesOf id, candidate.rootNode < dag.size

section
variable {text : Datum → Option String} {stored : StoredMemo}

/-- `new` is an equal build of the candidate's `old`, and a state group's. -/
structure SharedBuild (text : Datum → Option String) (stored : StoredMemo) (added : Memo)
    (candidate : CandidateForMemoGroup) (old new : NodeRef) : Prop where
  built : ∃ children, (old, children) ∈ directInputBuilds stored.dag stored.memo candidate
  equal : new = old ∨ sameConcreteBuild text stored.dag new old = true
  allocated : new < stored.dag.size
  state : ∃ id, stored.memo.size ≤ id ∧ id < added.size ∧ (added.group id).logicalNode = new

/-- What `swaps` replaces in the candidate at `key`. -/
structure Factors (text : Datum → Option String) (stored : StoredMemo) (added : Memo)
    (key : MemoGroupId ×ₗ Nat) (swaps : Cache NodeRef NodeRef) : Prop where
  inside : (ofLex key).1 < stored.memo.size
  replaces : ∃ old new, swaps old = some new
  shared : ∃ candidate, (stored.memo.candidatesOf (ofLex key).1)[(ofLex key).2]? = some candidate ∧
    ∀ old new, swaps old = some new → SharedBuild text stored added candidate old new

variable (text stored) in
/-- The memo with some state groups behind its own, and what is to be replaced. -/
structure Adding.Sound (adding : Adding) : Prop where
  size : stored.memo.size ≤ adding.memo.size
  group : ∀ id < stored.memo.size, adding.memo.group id = stored.memo.group id
  candidates : ∀ id < stored.memo.size, adding.memo.candidatesOf id = stored.memo.candidatesOf id
  states : adding.stateGroups = List.range' stored.memo.size (adding.memo.size - stored.memo.size)
  factors : ∀ key swaps, adding.replacements.get? key = some swaps →
    Factors text stored adding.memo key swaps

/-- Every build listed with two readers or more is to be replaced in each of them. -/
def Adding.Complete (adding : Adding) (done : List BuildReaders) : Prop :=
  ∀ entry ∈ done, 2 ≤ entry.readers.length → ∀ group index old, (group, index, old) ∈ entry.readers →
    ∃ swaps, adding.replacements.get? (toLex (group, index)) = some swaps ∧ (swaps old).isSome

theorem SharedBuild.grow {added later : Memo} {candidate : CandidateForMemoGroup} {old new : NodeRef}
    (shared : SharedBuild text stored added candidate old new) (size : added.size ≤ later.size)
    (group : ∀ id < added.size, later.group id = added.group id) :
    SharedBuild text stored later candidate old new := by
  obtain ⟨id, beyond, inside, node⟩ := shared.state
  exact { shared with state := ⟨id, beyond, inside.trans_le size, by rw [group id inside, node]⟩ }

theorem Factors.grow {added later : Memo} {key : MemoGroupId ×ₗ Nat} {swaps : Cache NodeRef NodeRef}
    (factors : Factors text stored added key swaps) (size : added.size ≤ later.size)
    (group : ∀ id < added.size, later.group id = added.group id) :
    Factors text stored later key swaps := by
  obtain ⟨candidate, known, shared⟩ := factors.shared
  exact ⟨factors.inside, factors.replaces, candidate, known,
    fun old new swap => (shared old new swap).grow size group⟩

theorem Factors.insert {added : Memo} {group : MemoGroupId} {index : Nat}
    {candidate : CandidateForMemoGroup} {old new : NodeRef} {swaps : Option (Cache NodeRef NodeRef)}
    (before : ∀ known ∈ swaps, Factors text stored added (toLex (group, index)) known)
    (inside : group < stored.memo.size)
    (known : (stored.memo.candidatesOf group)[index]? = some candidate)
    (shared : SharedBuild text stored added candidate old new) :
    Factors text stored added (toLex (group, index)) ((swaps.getD Cache.empty).insert old new) := by
  refine ⟨inside, ⟨old, new, if_pos rfl⟩, candidate, known, fun ref image swap => ?_⟩
  unfold Cache.insert at swap
  split at swap
  · rename_i same
    obtain rfl := Option.some.inj swap
    rwa [same]
  · cases earlier : swaps with
    | none =>
      rw [earlier] at swap
      cases swap
    | some others =>
      rw [earlier] at swap
      obtain ⟨other, known', shared'⟩ := (before others earlier).shared
      obtain rfl := Option.some.inj (known'.symm.trans known)
      exact shared' ref image swap

theorem Adding.add_sound {adding later : Adding} {build : BuildReaders} {indexed : Bool}
    (sound : adding.Sound text stored)
    (listed : build ∈ (catalogue text stored.dag indexed stored.memo).builds)
    (run : adding.add build = .ok later) : later.Sound text stored := by
  obtain ⟨⟨maker, made, equal⟩, readers⟩ := catalogue_sound indexed stored.memo build listed
  have allocated : build.build < stored.dag.size := by
    obtain ⟨-, candidate, known, built⟩ := occurrences_spec made
    rw [equal]
    exact (build_lt built).1.trans (stored.allocated _ _ (List.mem_of_getElem? known))
  unfold Adding.add at run
  split at run
  · cases run
    exact sound
  split at run
  · cases run
  cases run
  have size : adding.memo.size ≤ (adding.memo.push (stateGroup adding.memo build)
      [stateCandidate adding.memo build]).size := by
    rw [size_push]
    omega
  have group : ∀ id < adding.memo.size, (adding.memo.push (stateGroup adding.memo build)
      [stateCandidate adding.memo build]).group id = adding.memo.group id := by
    intro id small
    rw [group_push, if_pos small]
  refine ⟨sound.size.trans size, fun id small => ?_, fun id small => ?_, ?_, ?_⟩
  · exact (group id (small.trans_le sound.size)).trans (sound.group id small)
  · simp only
    rw [candidatesOf_push, if_pos (small.trans_le sound.size), sound.candidates id small]
  · have behind := sound.size
    simp only
    rw [sound.states, size_push, Nat.sub_add_comm behind, List.range'_concat]
    simp only [Nat.one_mul, Nat.add_sub_cancel' behind]
  · simp only
    -- Each reader's own build is replaced by the new group's.
    have every : ∀ some : List (MemoGroupId × Nat × NodeRef), some ⊆ build.readers →
        ∀ replacements : Replacements, (∀ key swaps, replacements.get? key = .some swaps →
          Factors text stored (adding.memo.push (stateGroup adding.memo build)
            [stateCandidate adding.memo build]) key swaps) →
        ∀ key swaps, (some.foldl (fun replacements (group, index, own) =>
          replacements.change (toLex (group, index)) Cache.empty (·.insert own build.build))
            replacements).get? key = .some swaps →
          Factors text stored (adding.memo.push (stateGroup adding.memo build)
            [stateCandidate adding.memo build]) key swaps := by
      intro some
      induction some with
      | nil => exact fun _ _ before => before
      | cons reader rest ih =>
        intro within replacements before
        obtain ⟨here, later⟩ := List.cons_subset.mp within
        refine ih later _ fun key swaps known => ?_
        obtain ⟨occurrence, member, rfl, same⟩ := readers reader here
        obtain ⟨inside, candidate, found, built⟩ := occurrences_spec member
        simp only [BTreeMap.get?_change] at known
        split at known
        · rename_i here
          obtain rfl := Option.some.inj known
          subst here
          refine Factors.insert (fun known present => before _ known present) inside found
            ⟨⟨_, built⟩, same, allocated, adding.memo.size, sound.size, ?_, ?_⟩
          · rw [size_push]
            exact Nat.lt_succ_self _
          · rw [group_push, if_neg (lt_irrefl _), if_pos rfl]
            rfl
        · exact before key swaps known
    exact every _ (List.Subset.refl _) _ fun key swaps known =>
      (sound.factors key swaps known).grow size group

theorem Adding.add_complete {adding later : Adding} {done : List BuildReaders} {build : BuildReaders}
    (complete : adding.Complete done) (run : adding.add build = .ok later) :
    later.Complete (done ++ [build]) := by
  -- Replacing in one more reader leaves nothing out that was to be replaced.
  have keeps : ∀ (readers : List (MemoGroupId × Nat × NodeRef)) (replacements : Replacements) key old,
      ((∃ swaps, replacements.get? key = some swaps ∧ (swaps old).isSome) ∨
        ((ofLex key).1, (ofLex key).2, old) ∈ readers) →
      ∃ swaps, (readers.foldl (fun replacements (group, index, own) =>
        replacements.change (toLex (group, index)) Cache.empty (·.insert own build.build))
          replacements).get? key = some swaps ∧ (swaps old).isSome := by
    intro readers
    induction readers with
    | nil => exact fun _ _ _ either => either.resolve_right List.not_mem_nil
    | cons reader rest ih =>
      intro replacements key old either
      refine ih _ key old ?_
      simp only [BTreeMap.get?_change]
      rcases either with ⟨swaps, known, swapped⟩ | listed
      · left
        split
        · rename_i here
          refine ⟨_, rfl, ?_⟩
          rw [← here, known, Option.getD_some, Cache.insert]
          split
          · rfl
          · exact swapped
        · exact ⟨swaps, known, swapped⟩
      · rcases List.mem_cons.mp listed with rfl | later
        · left
          exact ⟨_, if_pos rfl, congrArg Option.isSome (if_pos rfl)⟩
        · exact .inr later
  unfold Adding.add at run
  intro entry member two group index old listed
  split at run
  · rename_i few
    cases run
    rcases List.mem_append.mp member with before | new
    · exact complete entry before two group index old listed
    · rw [List.mem_singleton.mp new] at two
      omega
  split at run
  · cases run
  cases run
  refine keeps _ _ (toLex (group, index)) old ?_
  rcases List.mem_append.mp member with before | new
  · exact .inl (complete entry before two group index old listed)
  · exact .inr (List.mem_singleton.mp new ▸ listed)

theorem foldlM_complete {builds done : List BuildReaders} {adding later : Adding}
    (complete : adding.Complete done) (run : builds.foldlM Adding.add adding = .ok later) :
    later.Complete (done ++ builds) := by
  induction builds generalizing adding done with
  | nil =>
    cases run
    rwa [List.append_nil]
  | cons build rest ih =>
    rw [List.foldlM_cons] at run
    obtain ⟨next, first, run⟩ := bind_eq_ok run
    rw [List.append_cons]
    exact ih (Adding.add_complete complete first) run

theorem foldlM_sound {indexed : Bool} {builds : List BuildReaders}
    (within : builds ⊆ (catalogue text stored.dag indexed stored.memo).builds) {adding later : Adding}
    (sound : adding.Sound text stored) (run : builds.foldlM Adding.add adding = .ok later) :
    later.Sound text stored := by
  induction builds generalizing adding with
  | nil =>
    cases run
    exact sound
  | cons build rest ih =>
    rw [List.foldlM_cons] at run
    obtain ⟨next, first, run⟩ := bind_eq_ok run
    obtain ⟨here, later⟩ := List.cons_subset.mp within
    exact ih later (Adding.add_sound sound here first) run

/-! ### The candidates added -/

/-- The candidate at a place makes `old` as another reader makes it too. -/
def IsShared (text : Datum → Option String) (stored : StoredMemo) (id : MemoGroupId) (index : Nat)
    (old : NodeRef) : Prop :=
  ∃ entry ∈ (catalogue text stored.dag true stored.memo).builds, 2 ≤ entry.readers.length ∧
    (id, index, old) ∈ entry.readers

/-- The groups behind the memo's own. -/
def addedGroups (stored : StoredMemo) (added : Memo) : List MemoGroupId :=
  List.range' stored.memo.size (added.size - stored.memo.size)

/-- The candidate with its shared builds, all of them, each replaced by an equal build of a state group. It
reads the groups where its nodes end: of its own inputs and the state groups. -/
structure MadeFrom (text : Datum → Option String) (stored : StoredMemo) (added : Memo) (dag : Dag)
    (id : MemoGroupId) (index : Nat) (own reader : CandidateForMemoGroup) : Prop where
  origin : reader.origin = .sharedBuild
  fusedGroups : reader.fusedGroups = own.fusedGroups
  accuracyBudgetParts : reader.accuracyBudgetParts = own.accuracyBudgetParts
  inside : reader.rootNode < dag.size
  inputs : reader.inputGroups =
    boundaryGroups dag (added.boundaryOf (own.inputGroups ++ addedGroups stored added)) reader.rootNode
  root : ∃ swaps : Cache NodeRef NodeRef, (∃ old new, swaps old = some new) ∧
    (∀ old new, swaps old = some new → SharedBuild text stored added own old new) ∧
    (∀ old, IsShared text stored id index old → (swaps old).isSome) ∧
    Swapped stored.dag dag swaps own.rootNode reader.rootNode

/-- Made from one of the candidates `id` had. -/
def ReaderOf (text : Datum → Option String) (stored : StoredMemo) (added : Memo) (dag : Dag)
    (id : MemoGroupId) (reader : CandidateForMemoGroup) : Prop :=
  ∃ index own, (stored.memo.candidatesOf id)[index]? = some own ∧
    MadeFrom text stored added dag id index own reader

variable (text stored) in
/-- The memo with some readers behind the candidates of `base`. -/
structure ReadersAdded (base : Memo) (state : Dag × Memo) : Prop where
  grown : state.1.Extends stored.dag
  size : state.2.size = base.size
  group : ∀ id, state.2.group id = base.group id
  candidates : ∀ id, ∃ readers, state.2.candidatesOf id = base.candidatesOf id ++ readers ∧
    ∀ reader ∈ readers, ReaderOf text stored base state.1 id reader

theorem ReaderOf.grow {added : Memo} {dag later : Dag} {id : MemoGroupId}
    {reader : CandidateForMemoGroup} (of : ReaderOf text stored added dag id reader)
    (grown : later.Extends dag) : ReaderOf text stored added later id reader := by
  obtain ⟨index, own, known, made⟩ := of
  obtain ⟨swaps, nonempty, shared, every, swapped⟩ := made.root
  refine ⟨index, own, known, { made with
    inside := made.inside.trans_le grown.size_le
    inputs := ?_
    root := ⟨swaps, nonempty, shared, every, swapped.grow grown⟩ }⟩
  rw [boundaryGroups_grow grown _ made.inside]
  exact made.inputs

theorem addReader_sound {base : Memo} {stateGroups : List MemoGroupId} {state : Dag × Memo}
    (kept : ∀ id < stored.memo.size, base.candidatesOf id = stored.memo.candidatesOf id)
    (size : stored.memo.size ≤ base.size)
    (sound : ReadersAdded text stored base state) {key : MemoGroupId ×ₗ Nat}
    {swaps : Cache NodeRef NodeRef} (factors : Factors text stored base key swaps)
    (states : stateGroups = addedGroups stored base)
    (every : ∀ old, IsShared text stored (ofLex key).1 (ofLex key).2 old → (swaps old).isSome) :
    ReadersAdded text stored base (addReader stateGroups state (key, swaps)) := by
  obtain ⟨own, known, shared⟩ := factors.shared
  obtain ⟨earlier, listed, -⟩ := sound.candidates (ofLex key).1
  have read : ((state.2.candidatesOf (ofLex key).1)[(ofLex key).2]?.getD default) = own := by
    rw [listed, kept _ factors.inside, List.getElem?_append_left
      (List.getElem?_eq_some_iff.mp known).1, known, Option.getD_some]
  have small := stored.allocated _ own (List.mem_of_getElem? known)
  have allocated : Allocated state.1 swaps := fun old new swap =>
    (shared old new swap).allocated.trans_le sound.grown.size_le
  obtain ⟨grown, swapped⟩ := replace_spec allocated (small.trans_le sound.grown.size_le)
  have place : (ofLex key).1 < state.2.size := by
    rw [sound.size]
    exact factors.inside.trans_le size
  have made : addReader stateGroups state (key, swaps) =
      ((replace swaps own.rootNode state.1).2, state.2.addCandidate (ofLex key).1 { own with
        rootNode := (replace swaps own.rootNode state.1).1
        inputGroups := boundaryGroups (replace swaps own.rootNode state.1).2
          (state.2.boundaryOf (own.inputGroups ++ stateGroups)) (replace swaps own.rootNode state.1).1
        origin := .sharedBuild }) := by
    unfold addReader
    dsimp only
    rw [read]
    rfl
  have placed : (replace swaps own.rootNode state.1).1 < (replace swaps own.rootNode state.1).2.size := by
    exact swapped.inside allocated grown (small.trans_le sound.grown.size_le)
  rw [made, boundaryOf_congr (fun id => congrArg MemoGroup.logicalNode (sound.group id)), states]
  refine ⟨sound.grown.trans grown, sound.size, sound.group, fun id => ?_⟩
  obtain ⟨readers, before, each⟩ := sound.candidates id
  rw [candidatesOf_addCandidate _ place]
  split
  · rename_i same
    rw [before, List.append_assoc]
    refine ⟨_, rfl, fun reader member => ?_⟩
    rcases List.mem_append.mp member with old | new
    · exact (each reader old).grow grown
    · rw [List.mem_singleton.mp new]
      subst same
      exact ⟨_, own, known, rfl, rfl, rfl, placed, rfl, swaps, factors.replaces, shared, every,
        swapped.original sound.grown small⟩
  · exact ⟨readers, before, fun reader member => (each reader member).grow grown⟩

theorem foldl_readers {base : Memo} {stateGroups : List MemoGroupId}
    (kept : ∀ id < stored.memo.size, base.candidatesOf id = stored.memo.candidatesOf id)
    (size : stored.memo.size ≤ base.size)
    {entries : List ((MemoGroupId ×ₗ Nat) × Cache NodeRef NodeRef)}
    (factors : ∀ entry ∈ entries, Factors text stored base entry.1 entry.2)
    (states : stateGroups = addedGroups stored base) (every : ∀ entry ∈ entries, ∀ old,
      IsShared text stored (ofLex entry.1).1 (ofLex entry.1).2 old → (entry.2 old).isSome) :
    ReadersAdded text stored base (entries.foldl (addReader stateGroups) (stored.dag, base)) := by
  induction entries using List.reverseRecOn with
  | nil => exact ⟨Dag.Extends.refl _, rfl, fun _ => rfl, fun id => ⟨[], (List.append_nil _).symm, by simp⟩⟩
  | append_singleton entries last ih =>
    rw [List.foldl_concat]
    exact addReader_sound kept size (ih (fun entry member => factors entry (List.mem_append_left _ member))
      fun entry member => every entry (List.mem_append_left _ member))
      (factors last (by simp)) states (every last (by simp))

/-! ### The memo made -/

/-- A memo with state groups: who reads whom stays acyclic, parents are the readers, served queries are
closed downward, every candidate of `stored` is where it was, and the others of its groups are made
from one of these by replacing builds with equal builds of state groups. -/
structure Expanded (text : Datum → Option String) (stored : StoredMemo) (dag : Dag) (memo : Memo) :
    Prop where
  grown : dag.Extends stored.dag
  size : stored.memo.size ≤ memo.size
  inside : ∀ id < memo.size, ∀ read ∈ memo.dependencies id, read < memo.size
  acyclic : Acyclic (Reading memo.size memo.dependencies)
  parents : ∀ id < memo.size, (memo.group id).parents.Nodup ∧
    ∀ reader, reader ∈ (memo.group id).parents ↔ reader < memo.size ∧ id ∈ memo.dependencies reader
  closed : ∀ reader < memo.size, ∀ child ∈ memo.dependencies reader,
    (memo.group reader).queries ⊆ (memo.group child).queries
  kept : ∀ id < stored.memo.size, (memo.group id).logicalNode = (stored.memo.group id).logicalNode ∧
    (memo.group id).childGroups = (stored.memo.group id).childGroups ∧
    (stored.memo.group id).queries ⊆ (memo.group id).queries ∧
    ∃ readers, memo.candidatesOf id = stored.memo.candidatesOf id ++ readers ∧
      ∀ reader ∈ readers, ReaderOf text stored memo dag id reader

theorem ReaderOf.sameNodes {added later : Memo} {dag : Dag} {id : MemoGroupId}
    {reader : CandidateForMemoGroup} (of : ReaderOf text stored added dag id reader)
    (size : later.size = added.size)
    (nodes : ∀ id, (later.group id).logicalNode = (added.group id).logicalNode) :
    ReaderOf text stored later dag id reader := by
  obtain ⟨index, own, known, made⟩ := of
  obtain ⟨swaps, nonempty, shared, every, swapped⟩ := made.root
  have inputs := made.inputs
  rw [← boundaryOf_congr nodes, addedGroups, ← size] at inputs
  refine ⟨index, own, known, { made with
    inputs, root := ⟨swaps, nonempty, fun old new swap => ?_, every, swapped⟩ }⟩
  have here := shared old new swap
  obtain ⟨id, beyond, inside, node⟩ := here.state
  exact { here with state := ⟨id, beyond, by rwa [size], by rw [nodes, node]⟩ }

theorem MadeFrom.value_eq {added : Memo} {dag : Dag} {id : MemoGroupId} {index : Nat}
    {own reader : CandidateForMemoGroup} (made : MadeFrom text stored added dag id index own reader) (grown : dag.Extends stored.dag)
    (small : own.rootNode < stored.dag.size) {V : Type} {value : NodeRef → V}
    (compositional : Compositional text dag value) : value own.rootNode = value reader.rootNode := by
  obtain ⟨swaps, -, shared, -, swapped⟩ := made.root
  refine swapped.value_eq grown compositional small fun old new swap => ?_
  have here := shared old new swap
  obtain ⟨children, built⟩ := here.built
  rcases here.equal with same | equal
  · rw [same]
  · have inside := (build_lt built).1.trans small
    rw [← sameConcreteBuild_grow grown here.allocated inside] at equal
    exact (compositional.sameConcreteBuild equal).symm

theorem expanded_of_ok {dag : Dag} {memo : Memo}
    (run : addSharedSummaryStateGroups text stored.dag stored.memo = .ok (dag, memo)) :
    Expanded text stored dag memo := by
  obtain ⟨adding, added, run⟩ := bind_eq_ok run
  have start : Adding.Sound text stored { memo := stored.memo, stateGroups := [], replacements := .empty } :=
    ⟨le_refl _, fun _ _ => rfl, fun _ _ => rfl, by rw [Nat.sub_self]; rfl, fun key swaps known => by cases known⟩
  have sound := foldlM_sound (List.Subset.refl _) start added
  have complete : adding.Complete (catalogue text stored.dag true stored.memo).builds :=
    @foldlM_complete _ [] _ _ (fun entry none => by cases none) added
  have readers := @foldl_readers text stored adding.memo adding.stateGroups sound.candidates sound.size _
    (fun entry member => sound.factors entry.1 entry.2 (BTreeMap.mem_entries.mp member)) sound.states
    fun entry member old shared => by
      obtain ⟨listing, listed, two, reads⟩ := shared
      obtain ⟨swaps, known, swapped⟩ := complete listing listed two _ _ old reads
      cases (BTreeMap.mem_entries.mp member).symm.trans known
      exact swapped
  generalize adding.replacements.entries.foldl (addReader adding.stateGroups) (stored.dag, adding.memo) =
    state at readers run
  simp only at run
  split at run
  · cases run
  rename_i order found
  cases run
  obtain ⟨same, groups⟩ := rebuildParents_spec state.2
  obtain ⟨distinct, all, respects⟩ :=
    topologicalOrder_sound (fun id => nodup_dependencies state.2.rebuildParents id) found
  obtain ⟨inside, acyclic⟩ := (topologicalOrder_isSome
    (fun id => nodup_dependencies state.2.rebuildParents id)).mp (Option.isSome_iff_exists.mpr ⟨order, found⟩)
  obtain ⟨same', grown, closed⟩ := propagate_closed (topDown_reverse distinct respects)
    fun reader member => by
      have small := (all reader).mp (List.mem_reverse.mp member)
      exact ⟨small, inside reader small⟩
  have reads := same.trans same'
  have smaller : ∀ id, id < stored.memo.size → id < state.2.size := fun id small => by
    rw [readers.size]
    exact small.trans_le sound.size
  refine ⟨readers.grown, ?_, ?_, ?_, fun id small => ?_, fun reader small => ?_, fun id small => ?_⟩
  · rw [reads.size, readers.size]
    exact sound.size
  · rw [same'.size]
    intro id small read member
    rw [same'.dependencies] at member
    exact inside id small read member
  · rw [same'.size]
    refine acyclic.mono fun a b reading => ?_
    exact ⟨reading.1, by rw [← same'.dependencies]; exact reading.2⟩
  · rw [reads.size] at small ⊢
    rw [(grown id (by rwa [same.size])).1, groups id small]
    refine ⟨List.nodup_range.filter _, fun reader => ?_⟩
    simp only [List.mem_filter, List.mem_range, decide_eq_true_eq, reads.dependencies]
  · rw [same'.size] at small
    intro child member
    rw [same'.dependencies] at member
    exact closed reader (List.mem_reverse.mpr ((all reader).mpr small)) child member
  · obtain ⟨own, listed, each⟩ := readers.candidates id
    refine ⟨?_, ?_, ?_, own, ?_, fun reader member => ?_⟩
    · rw [reads.logicalNode, readers.group, sound.group id small]
    · rw [reads.childGroups, readers.group, sound.group id small]
    · refine List.Subset.trans ?_ (grown id (by rw [same.size]; exact smaller id small)).2
      rw [groups id (smaller id small), readers.group, sound.group id small]
      exact List.Subset.refl _
    · rw [reads.candidatesOf, listed, sound.candidates id small]
    · refine (each reader member).sameNodes (reads.size.trans readers.size) fun id => ?_
      rw [reads.logicalNode, readers.group]

/-- Adding state groups leaves a memo in order, its readers compute what they are made from, and every
build is looked up as by a search over all. -/
theorem stateGroups_expand {dag : Dag} {memo : Memo}
    (run : addSharedSummaryStateGroups text stored.dag stored.memo = .ok (dag, memo)) :
    Expanded text stored dag memo ∧
    (∀ id index own reader, own.rootNode < stored.dag.size →
      MadeFrom text stored memo dag id index own reader → ∀ (V : Type) (value : NodeRef → V), Compositional text dag value →
        value own.rootNode = value reader.rootNode) ∧
    ∀ before occurrence after, occurrences stored.dag stored.memo = before ++ occurrence :: after →
      let made := before.foldl (Catalogue.add text stored.dag true) .empty
      made.matching text stored.dag true occurrence.build =
        made.matching text stored.dag false occurrence.build := by
  have expanded : Expanded text stored dag memo := expanded_of_ok run
  exact ⟨expanded, fun _ _ own reader small made V value compositional =>
    made.value_eq expanded.grown small compositional,
    fun before occurrence _ _ => matching_indexed (foldl_indexed before) occurrence.build⟩

end

/-! ### Two builds at once -/

def plain (operator : Operator NodeRef) : OperatorNode := { (default : OperatorNode) with operator }

def sketched (points : Nat) : OperatorNode :=
  let family : Ir.FieldDataType := .sketch ⟨.kll, .kll points none, rfl⟩ .perSubpopulationInstance
  { plain (.asap (.summaryAgg 0 family ⟨none, .column .sampleValue, .unknownOrSigned⟩
      (.reduce .none) .perSubpopulationInstance none)) with
    resultKind := .state
    schema := Schema.new [⟨"state", family, false, none⟩] }

def median (build : NodeRef) : OperatorNode :=
  plain (.asap (.summaryEstimate build (.quantile ⟨false, 0x3fe0000000000000#63⟩)))

def combined (op : ArithmeticOpKind) (left right : NodeRef) : OperatorNode :=
  plain (.nonASAP (.binaryOp ⟨false, false, .arithmetic op, none⟩ false left right))

/-- Text that tells the values below apart. -/
def printed (value : Datum) : Option String :=
  some (value.debug { str := id, f64 := fun _ => "0.5", duration := toString })

/-- A ratio and a product of two medians, each over its own copy of both sketches. -/
def medianPairs : StoredMemo where
  dag := Dag.ofNodes [default, sketched 200, sketched 331, median 1, median 2, combined .div 4 3,
    sketched 200, sketched 331, median 6, median 7, combined .mul 8 9, plain (.nonASAP (.dedup [] 0))]
  memo := {
    groups := [⟨0, [], [1], [0]⟩, ⟨11, [0], [], [0]⟩]
    candidates := [[⟨[], 0, [], .pass1, 1⟩], [⟨[], 5, [0], .pass1, 1⟩, ⟨[], 10, [0], .pass1, 1⟩]]
    paired := rfl }
  allocated := by
    intro id candidate member
    obtain _ | _ | id := id
    · rw [List.mem_singleton.mp member]
      decide +kernel
    · rcases List.mem_pair.mp member with rfl | rfl <;> decide +kernel
    · cases member

theorem medianPairs_run : ∃ dag memo,
    addSharedSummaryStateGroups printed medianPairs.dag medianPairs.memo = .ok (dag, memo) ∧
      (memo.candidatesOf 1).map (·.rootNode) = [5, 10, 5, 14] ∧
      dag.children 14 = [12, 13] ∧ dag.children 12 = [1] ∧ dag.children 13 = [2] := by
  have known : (addSharedSummaryStateGroups printed medianPairs.dag medianPairs.memo).toOption.map
      (fun (dag, memo) => ((memo.candidatesOf 1).map (·.rootNode), dag.children 14, dag.children 12,
        dag.children 13)) = some ([5, 10, 5, 14], [12, 13], [1], [2]) := by
    decide +kernel
  cases run : addSharedSummaryStateGroups printed medianPairs.dag medianPairs.memo with
  | error =>
    rw [run] at known
    cases known
  | ok state =>
    rw [run] at known
    obtain ⟨dag, memo⟩ := state
    refine ⟨dag, memo, rfl, ?_⟩
    simpa [Except.toOption] using known

/-- The medians' run, expanded. -/
theorem medianPairs_expand : ∃ dag memo,
    addSharedSummaryStateGroups printed medianPairs.dag medianPairs.memo = .ok (dag, memo) ∧
      Expanded printed medianPairs dag memo := by
  obtain ⟨dag, memo, run, -⟩ := medianPairs_run
  exact ⟨dag, memo, run, (stateGroups_expand run).1⟩

/-- The product's reader reads both sketches of the ratio, so no one replacement makes it. -/
theorem reader_replaces_two : ∃ dag memo,
    addSharedSummaryStateGroups printed medianPairs.dag medianPairs.memo = .ok (dag, memo) ∧
    ∃ reader ∈ (memo.candidatesOf 1).drop 2, ∀ own ∈ medianPairs.memo.candidatesOf 1,
      ¬ ∃ old new, (∃ children, (old, children) ∈
          directInputBuilds medianPairs.dag medianPairs.memo own) ∧
        Swapped medianPairs.dag dag (Cache.empty.insert old new) own.rootNode reader.rootNode := by
  obtain ⟨dag, memo, run, roots, mul, left, right⟩ := medianPairs_run
  have grown : dag.Extends medianPairs.dag := (expanded_of_ok run).grown
  have listed : ((memo.candidatesOf 1).drop 2).map (·.rootNode) = [5, 14] := by
    rw [List.map_drop, roots]
    rfl
  obtain ⟨reader, member, root⟩ := List.mem_map.mp (listed ▸ (by decide : 14 ∈ [5, 14]))
  refine ⟨dag, memo, run, reader, member, fun own known => ?_⟩
  rintro ⟨old, new, ⟨children, built⟩, swapped⟩
  rw [root] at swapped
  have absent : ∀ ref, isSummaryBuild (medianPairs.dag.node ref) = false →
      Cache.empty.insert old new ref = none := by
    intro ref other
    refine if_neg fun same => ?_
    rw [same, (build_lt built).2] at other
    cases other
  -- A median that reads another build now reads it for the one replaced.
  have through : ∀ {ref image build build' : NodeRef}, medianPairs.dag.children ref = [build] →
      dag.children image = [build'] → isSummaryBuild (medianPairs.dag.node ref) = false ∧ ref < 12 →
      build' < 12 → build' ≠ build →
      Swapped medianPairs.dag dag (Cache.empty.insert old new) ref image → build = old := by
    intro ref image build build' reads reads' node small differs step
    have below := step.reads grown node.2 (absent ref node.1)
    rw [reads, reads'] at below
    obtain ⟨inner, -⟩ := List.forall₂_cons.mp below
    rcases inner.known small with swap | same
    · by_contra apart
      rw [Cache.insert, if_neg apart] at swap
      cases swap
    · exact absurd same differs
  have never : ∀ ref x y p q : NodeRef, (∀ inner ∈ [ref, x, y],
      isSummaryBuild (medianPairs.dag.node inner) = false ∧ inner < 12) →
      medianPairs.dag.children ref = [x, y] → medianPairs.dag.children x = [p] →
      medianPairs.dag.children y = [q] → 1 ≠ p → 2 ≠ q → p ≠ q →
      ¬ Swapped medianPairs.dag dag (Cache.empty.insert old new) ref 14 := by
    intro ref x y p q inner reads first second here there apart step
    have below := step.reads grown (inner ref (by simp)).2 (absent ref (inner ref (by simp)).1)
    rw [reads, mul] at below
    obtain ⟨step, below⟩ := List.forall₂_cons.mp below
    obtain ⟨step', -⟩ := List.forall₂_cons.mp below
    have same := through first left (inner x (by simp)) (by decide) here step
    have same' := through second right (inner y (by simp)) (by decide) there step'
    exact apart (same.trans same'.symm)
  rcases List.mem_pair.mp known with rfl | rfl
  · exact never 5 4 3 2 1 (by decide +kernel) (by decide +kernel) (by decide +kernel)
      (by decide +kernel) (by decide) (by decide) (by decide) swapped
  · exact never 10 8 9 6 7 (by decide +kernel) (by decide +kernel) (by decide +kernel)
      (by decide +kernel) (by decide) (by decide) (by decide) swapped

end AsapPlanner.Pass2
