import AsapPlanner.Milp.WellFormed

/-!
Each shareable candidate has one context, and a context of its own only a shareable candidate has.
-/

namespace AsapPlanner.Milp
open Rust

namespace ContextInputs
variable {n : Nat} {inputs : ContextInputs n}

/-! ### Pipelines' contexts -/

/-- Each pipeline's context is of its kind. -/
def Pipelined (ingestion : Ingestion n) : Prop :=
  ∀ pipeline entry, ingestion.get? pipeline = some entry → ∃ own, entry.1.kind = .ingestion own

/-! ### Shareable candidates' contexts -/

def AskedShareable (inputs : ContextInputs n) (asked : Asked n) : Prop :=
  ∀ option ∈ asked.pending, inputs.kind option = .shareable

theorem AskedShareable.ask {known : List (Fin n)} {context : ExecutionContext n} {asked : Asked n}
    (shareable : inputs.AskedShareable asked) (option : Fin n) :
    inputs.AskedShareable (inputs.ask known context asked option) := by
  unfold ContextInputs.ask
  split
  · next kind =>
    split
    · exact shareable
    · intro other pending
      rcases List.mem_append.mp pending with before | last
      · exact shareable other before
      · rw [List.mem_singleton.mp last]
        exact kind
  · split <;> exact shareable
  · exact shareable

theorem scan_shareable (known : List (Fin n)) (contexts : List (ExecutionContext n)) :
    inputs.AskedShareable (inputs.scan known contexts) := by
  apply List.foldlRecOn
  · exact nofun
  · intro asked shareable context _
    apply List.foldlRecOn
    · exact shareable
    · exact fun asked shareable option _ => shareable.ask option

/-- The contexts found are those of distinct shareable candidates. -/
structure Owned (inputs : ContextInputs n) (found : Found n) : Prop where
  shared : found.shared = found.known.map inputs.sharedContext
  distinct : found.known.Nodup
  shareable : ∀ own ∈ found.known, inputs.kind own = .shareable
  pipelined : Pipelined found.ingestion

variable {queries : List (ExecutionContext n)} {found found' : Found n}

theorem Owned.discover (owned : inputs.Owned found) (round : inputs.discover queries found = some found') :
    inputs.Owned found' := by
  have asks : inputs.Asks found.known (inputs.roundAsked queries found) := scan_asks _ _
  have shareable : inputs.AskedShareable (inputs.roundAsked queries found) := scan_shareable _ _
  rw [discover_eq] at round
  split at round
  · cases round
  · cases round
    constructor
    · rw [owned.shared, List.map_append]
    · refine List.nodup_append.mpr ⟨owned.distinct, ascending_nodup _, fun own known other new => ?_⟩
      rintro rfl
      exact asks.fresh own (mem_ascending.mp new) known
    · intro own member
      rcases List.mem_append.mp member with known | new
      · exact owned.shareable own known
      · exact shareable own (mem_ascending.mp new)
    · let P (context : ExecutionContext n) := ∃ own, context.kind = .ingestion own
      have start (pipeline : IngestionPipeline n) : P ⟨.ingestion pipeline, false, []⟩ := ⟨pipeline, rfl⟩
      exact AllPipelines.refresh start (fun pipeline _ => ⟨pipeline, rfl⟩)
        (@AllPipelines.foldl_seed n P start (found.ingestion, []) owned.pipelined _) _

theorem Owned.discoverAll {rounds : Nat} (owned : inputs.Owned found) :
    inputs.Owned (inputs.discoverAll queries rounds found) := by
  induction rounds generalizing found with
  | zero => exact owned
  | succ rounds ih =>
    unfold ContextInputs.discoverAll
    split
    · exact owned
    · next round => exact ih (owned.discover round)

theorem discovered_owned (queries : List (ExecutionContext n)) : inputs.Owned (inputs.discovered queries) :=
  Owned.discoverAll ⟨rfl, List.nodup_nil, nofun, nofun⟩

theorem discovered_pipelines {P : ExecutionContext n → Prop}
    (start : ∀ pipeline, P ⟨.ingestion pipeline, false, []⟩)
    (expanded : ∀ pipeline seeds, P (inputs.ingestionContext pipeline seeds))
    (queries : List (ExecutionContext n)) :
    AllPipelines P (inputs.discovered queries).ingestion := by
  have rounds (count : Nat) {found : Found n} (all : AllPipelines P found.ingestion) :
      AllPipelines P (inputs.discoverAll queries count found).ingestion := by
    induction count generalizing found with
    | zero => exact all
    | succ count ih =>
      unfold ContextInputs.discoverAll
      split
      · exact all
      · next round =>
        apply ih
        rw [discover_eq] at round
        split at round
        · cases round
        · cases round
          exact AllPipelines.refresh start expanded
            (@AllPipelines.foldl_seed n P start (found.ingestion, []) all _) _
  exact rounds _ nofun

/-! ### All contexts -/

theorem contexts_distinct {context : ExecutionContext n} (member : context ∈ inputs.contexts) :
    context.options.Nodup := by
  rw [mem_contexts, List.mem_append, List.mem_append] at member
  rcases member with (query | pipeline) | own
  · obtain ⟨query, _, rfl⟩ := List.mem_map.mp query
    exact ascending_nodup _
  · obtain ⟨⟨key, entry⟩, here, rfl⟩ := List.mem_map.mp pipeline
    exact discovered_pipelines (P := fun context => context.options.Nodup)
      (fun _ => List.nodup_nil) (fun _ _ => ascending_nodup _) _ key entry
      (BTreeMap.mem_entries.mp here)
  · rw [(@discovered_owned n inputs inputs.queryContexts).shared] at own
    obtain ⟨shareable, _, rfl⟩ := List.mem_map.mp own
    exact ascending_nodup _

theorem contexts_owned : (∀ context ∈ inputs.contexts, ∀ own, context.kind = .shared own →
      inputs.kind own = .shareable) ∧
    inputs.contexts.Pairwise fun a b => ∀ own, a.kind = .shared own → b.kind ≠ .shared own := by
  have owned : inputs.Owned (inputs.discovered inputs.queryContexts) := discovered_owned _
  have others : ∀ context ∈ inputs.queryContexts ++
      (inputs.discovered inputs.queryContexts).ingestion.entries.map (fun entry => entry.2.1),
      ∀ own, context.kind ≠ .shared own := by
    intro context member own kind
    rcases List.mem_append.mp member with query | pipeline
    · obtain ⟨query, _, rfl⟩ := List.mem_map.mp query
      cases kind
    · obtain ⟨⟨key, entry⟩, here, rfl⟩ := List.mem_map.mp pipeline
      obtain ⟨pipeline, ingestion⟩ := owned.pipelined key entry (BTreeMap.mem_entries.mp here)
      cases kind.symm.trans ingestion
  have shared : (inputs.discovered inputs.queryContexts).shared.Pairwise
      fun a b => ∀ own, a.kind = .shared own → b.kind ≠ .shared own := by
    rw [owned.shared, List.pairwise_map]
    refine owned.distinct.imp fun {a b} differ own first second => differ ?_
    cases first
    cases second
    rfl
  refine ⟨fun context member own kind => ?_, ?_⟩
  · rw [mem_contexts] at member
    rcases List.mem_append.mp member with other | here
    · exact absurd kind (others context other own)
    · rw [owned.shared] at here
      obtain ⟨shareable, known, rfl⟩ := List.mem_map.mp here
      cases kind
      exact owned.shareable own known
  · unfold contexts
    refine List.pairwise_append.mpr ⟨?_, ?_, fun a first b _ own kind => absurd kind (others a first own)⟩
    · exact List.Pairwise.imp_of_mem (fun {a b} first _ _ own kind => absurd kind (others a first own))
        (List.pairwise_of_forall fun _ _ => trivial)
    · refine (List.Perm.pairwise_iff ?_ (List.perm_insertionSort _ _)).mpr shared
      exact fun apart own second first => apart own first second

end ContextInputs

namespace PhysicalASAPMemoCandidates
variable {n : Nat} {physical : PhysicalASAPMemoCandidates n} {alive usable : Fin n → Bool}
  {refreshWindow : Fin n → Option RefreshWindow}

theorem context_owned {context : Nat} {own : Fin n}
    (kind : ((physical.milpInputs alive usable refreshWindow).context context).kind = .shared own) :
    (physical.milpInputs alive usable refreshWindow).kind own = .shareable ∧
      (physical.milpInputs alive usable refreshWindow).contextOfShareable own = some context := by
  obtain ⟨shareable, distinct⟩ :=
    @ContextInputs.contexts_owned n (physical.contextInputs alive usable refreshWindow)
  cases found : (physical.milpInputs alive usable refreshWindow).contexts[context]? with
  | none =>
    rw [MilpInputs.context, List.getD_eq_getElem?_getD, found] at kind
    cases kind
  | some data =>
    rw [MilpInputs.context_of found] at kind
    refine ⟨shareable data (List.mem_of_getElem? found) own kind, ?_⟩
    obtain ⟨inside, rfl⟩ := List.getElem?_eq_some_iff.mp found
    refine List.findIdx?_eq_some_iff_getElem.mpr ⟨inside, decide_eq_true kind, fun earlier before => ?_⟩
    have apart := List.pairwise_iff_getElem.mp distinct earlier context (before.trans inside) inside before own
    exact fun same => apart (of_decide_eq_true same) kind

theorem options_distinct (context : Nat) :
    ((physical.milpInputs alive usable refreshWindow).options context).Nodup := by
  cases found : (physical.milpInputs alive usable refreshWindow).contexts[context]? with
  | none =>
    rw [MilpInputs.options, MilpInputs.context, List.getD_eq_getElem?_getD, found]
    exact List.nodup_nil
  | some data =>
    rw [MilpInputs.options, MilpInputs.context_of found]
    exact ContextInputs.contexts_distinct (List.mem_of_getElem? found)

end PhysicalASAPMemoCandidates

end AsapPlanner.Milp
