import AsapPlanner.Milp.Model
import Mathlib.Data.Fintype.Prod

/-!
What holds of the inputs of every selection MILP: each context is where its index says, no candidate
reads itself, and every shareable candidate that some context may read has a context.
-/

namespace AsapPlanner.Milp
open Rust

structure MilpInputs.WellFormed {n : Nat} (inputs : MilpInputs n) : Prop where
  queries : ∀ query ∈ inputs.references, (inputs.context query).kind = .query query
  shared : ∀ shareable context, inputs.contextOfShareable shareable = some context →
    context < inputs.contexts.length ∧ (inputs.context context).kind = .shared shareable
  pipelines : ∀ shareable context, inputs.ingestionContextOfShareable shareable = some context →
    ∃ pipeline, (inputs.context context).kind = .ingestion pipeline
  ingestionTime : ∀ context pipeline, (inputs.context context).kind = .ingestion pipeline →
    (inputs.context context).atQueryTime = false
  noSelf : ∀ reader, ∀ producers ∈ inputs.producers reader, reader ∉ producers
  known : ∀ context, ∀ option ∈ inputs.options context, inputs.kind option = .shareable →
    (inputs.contextOfShareable option).isSome

namespace ContextInputs
variable {n : Nat} {inputs : ContextInputs n}

@[simp] theorem expand_kind (context : ExecutionContext n) (seeds : List (Fin n)) :
    (inputs.expand context seeds).kind = context.kind := rfl

/-! ### Scans -/

/-- A scan asks for what is new, and for pipelines of shareable candidates. -/
structure Asks (inputs : ContextInputs n) (known : List (Fin n)) (asked : Asked n) : Prop where
  fresh : ∀ option ∈ asked.pending, option ∉ known
  owned : ∀ seed ∈ asked.seeds, ∃ shareable, seed.1 = inputs.ingestionPipeline shareable

theorem Asks.ask {known : List (Fin n)} {context : ExecutionContext n} {asked : Asked n}
    (asks : inputs.Asks known asked) (option : Fin n) :
    inputs.Asks known (inputs.ask known context asked option) := by
  unfold ContextInputs.ask
  split
  · split
    · exact asks
    · next new =>
      refine ⟨fun other member => ?_, asks.owned⟩
      rcases List.mem_append.mp member with before | last
      · exact asks.fresh other before
      · rw [List.mem_singleton.mp last]
        exact fun known => new (.inl known)
  · split
    · next pipeline owner =>
      refine ⟨asks.fresh, fun seed member => ?_⟩
      rcases List.mem_append.mp member with before | last
      · exact asks.owned seed before
      · rw [List.mem_singleton.mp last]
        unfold pipelineOf at owner
        split at owner
        · next shareable _ =>
          split at owner
          · cases owner
          · exact ⟨shareable, (Option.some.inj owner).symm⟩
        · cases owner
    · exact asks
  · exact asks

theorem scan_asks (known : List (Fin n)) (contexts : List (ExecutionContext n)) :
    inputs.Asks known (inputs.scan known contexts) := by
  apply List.foldlRecOn
  · exact ⟨nofun, nofun⟩
  · intro asked asks context _
    apply List.foldlRecOn
    · exact asks
    · exact fun asked asks option _ => asks.ask option

def Passed (inputs : ContextInputs n) (known pending : List (Fin n)) (option : Fin n) : Prop :=
  inputs.kind option = .shareable → option ∈ known ∨ option ∈ pending

theorem ask_keeps {known : List (Fin n)} {context : ExecutionContext n} {asked : Asked n}
    {option other : Fin n} (member : other ∈ asked.pending) :
    other ∈ (inputs.ask known context asked option).pending := by
  unfold ask
  split
  · split
    · exact member
    · exact List.mem_append_left _ member
  · split <;> exact member
  · exact member

theorem ask_passed {known : List (Fin n)} {context : ExecutionContext n} {asked : Asked n}
    {option : Fin n} : inputs.Passed known (inputs.ask known context asked option).pending option := by
  intro kind
  unfold ask
  rw [kind]
  dsimp only
  split
  · next here => exact here
  · exact .inr (List.mem_append_right _ List.mem_cons_self)

theorem foldl_ask_passed (known : List (Fin n)) (context : ExecutionContext n) (asked : Asked n)
    (options : List (Fin n)) :
    (∀ other ∈ asked.pending, other ∈ (options.foldl (inputs.ask known context) asked).pending) ∧
      ∀ option ∈ options,
        inputs.Passed known (options.foldl (inputs.ask known context) asked).pending option := by
  induction options generalizing asked with
  | nil => exact ⟨fun _ member => member, nofun⟩
  | cons option options ih =>
    obtain ⟨kept, passed⟩ := ih (inputs.ask known context asked option)
    refine ⟨fun other member => kept other (ask_keeps member), fun other member => ?_⟩
    rcases List.mem_cons.mp member with rfl | later
    · intro kind
      exact (ask_passed kind).imp_right (kept _)
    · exact passed other later

theorem scan_passed {known : List (Fin n)} {contexts : List (ExecutionContext n)} :
    ∀ context ∈ contexts, ∀ option ∈ context.options,
      inputs.Passed known (inputs.scan known contexts).pending option := by
  have all : ∀ asked : Asked n,
      (∀ other ∈ asked.pending, other ∈ (contexts.foldl (fun asked context =>
        context.options.foldl (inputs.ask known context) asked) asked).pending) ∧
      ∀ context ∈ contexts, ∀ option ∈ context.options, inputs.Passed known
        (contexts.foldl (fun asked context =>
          context.options.foldl (inputs.ask known context) asked) asked).pending option := by
    induction contexts with
    | nil => exact fun asked => ⟨fun _ member => member, nofun⟩
    | cons context contexts ih =>
      intro asked
      obtain ⟨keptHere, passedHere⟩ :=
        foldl_ask_passed known context asked context.options
      obtain ⟨kept, passed⟩ := ih (context.options.foldl (inputs.ask known context) asked)
      refine ⟨fun other member => kept other (keptHere other member), fun other member => ?_⟩
      rcases List.mem_cons.mp member with rfl | later
      · exact fun option listed kind => (passedHere option listed kind).imp_right (kept _)
      · exact passed other later
  exact (all ⟨[], []⟩).2

/-! ### Pipelines' candidates -/

abbrev Ingestion (n : Nat) := BTreeMap (IngestionPipeline n) (ExecutionContext n × List (Fin n))

def seedsOf (ingestion : Ingestion n) (pipeline : IngestionPipeline n) : List (Fin n) :=
  ((ingestion.get? pipeline).map Prod.snd).getD []

/-- Every candidate noted stays noted. -/
def Grows (before after : Ingestion n) : Prop :=
  ∀ pipeline, ∀ candidate ∈ seedsOf before pipeline, candidate ∈ seedsOf after pipeline

theorem Grows.trans {a b c : Ingestion n} (first : Grows a b) (second : Grows b c) : Grows a c :=
  fun pipeline candidate member => second pipeline candidate (first pipeline candidate member)

theorem seed_cases (state : Ingestion n × List (IngestionPipeline n))
    (asked : IngestionPipeline n × Fin n) :
    seed state asked = state ∨ Grows state.1 (seed state asked).1 ∧
      asked.2 ∉ seedsOf state.1 asked.1 ∧ asked.2 ∈ seedsOf (seed state asked).1 asked.1 := by
  have known : ((state.1.get? asked.1).getD (⟨.ingestion asked.1, false, []⟩, [])).2 =
      seedsOf state.1 asked.1 := by
    unfold seedsOf
    cases state.1.get? asked.1 <;> rfl
  unfold seed
  dsimp only
  split
  · exact .inl rfl
  · next new =>
    rw [known] at new
    refine .inr ⟨fun pipeline candidate member => ?_, new, ?_⟩
    · unfold seedsOf
      rw [BTreeMap.get?_change]
      split
      · next same =>
        rw [same, ← known] at member
        exact List.mem_append_left _ member
      · exact member
    · unfold seedsOf
      rw [BTreeMap.get?_change, if_pos rfl]
      exact List.mem_append_right _ List.mem_cons_self

theorem foldl_seed (seeds : List (IngestionPipeline n × Fin n))
    (state : Ingestion n × List (IngestionPipeline n)) :
    Grows state.1 (seeds.foldl seed state).1 ∧ (seeds.foldl seed state = state ∨
      ∃ asked ∈ seeds, asked.2 ∉ seedsOf state.1 asked.1 ∧
        asked.2 ∈ seedsOf (seeds.foldl seed state).1 asked.1) := by
  induction seeds generalizing state with
  | nil => exact ⟨fun _ _ member => member, .inl rfl⟩
  | cons asked seeds ih =>
    obtain ⟨grows, rest⟩ := ih (seed state asked)
    rcases seed_cases state asked with same | ⟨grown, new, here⟩
    · rw [same] at grows rest
      rw [List.foldl_cons, same]
      refine ⟨grows, rest.imp_right fun ⟨other, member, found⟩ => ?_⟩
      exact ⟨other, List.mem_cons_of_mem _ member, found⟩
    · exact ⟨grown.trans grows, .inr ⟨asked, List.mem_cons_self, new, grows _ _ here⟩⟩

/-- The contexts of the pipelines that grew are found anew. -/
def refresh (inputs : ContextInputs n) (grown : List (IngestionPipeline n)) (ingestion : Ingestion n) :
    Ingestion n :=
  grown.foldl (fun ingestion pipeline =>
    ingestion.change pipeline (⟨.ingestion pipeline, false, []⟩, []) fun entry =>
      (inputs.ingestionContext pipeline (ascending entry.2), entry.2)) ingestion

theorem refresh_seeds (grown : List (IngestionPipeline n)) (ingestion : Ingestion n)
    (pipeline : IngestionPipeline n) :
    seedsOf (inputs.refresh grown ingestion) pipeline = seedsOf ingestion pipeline := by
  unfold refresh
  induction grown generalizing ingestion with
  | nil => rfl
  | cons first grown ih =>
    rw [List.foldl_cons, ih]
    unfold seedsOf
    rw [BTreeMap.get?_change]
    split
    · next same =>
      rw [same]
      cases ingestion.get? first <;> rfl
    · rfl

/-! ### Pipelines' contexts -/

/-- Every pipeline's context has a property. -/
def AllPipelines (P : ExecutionContext n → Prop) (ingestion : Ingestion n) : Prop :=
  ∀ pipeline entry, ingestion.get? pipeline = some entry → P entry.1

namespace AllPipelines
variable {P : ExecutionContext n → Prop} (start : ∀ pipeline, P ⟨.ingestion pipeline, false, []⟩)
include start

theorem change {ingestion : Ingestion n} (all : AllPipelines P ingestion)
    (pipeline : IngestionPipeline n) (seeds : List (Fin n))
    {step : ExecutionContext n × List (Fin n) → ExecutionContext n × List (Fin n)}
    (keeps : ∀ entry, P entry.1 → P (step entry).1) :
    AllPipelines P (ingestion.change pipeline (⟨.ingestion pipeline, false, []⟩, seeds) step) := by
  intro other entry found
  rw [BTreeMap.get?_change] at found
  split at found
  · cases found
    apply keeps
    cases here : ingestion.get? pipeline with
    | none => exact start pipeline
    | some before => exact all pipeline before here
  · exact all other entry found

theorem foldl_seed {state : Ingestion n × List (IngestionPipeline n)} (all : AllPipelines P state.1)
    (seeds : List (IngestionPipeline n × Fin n)) : AllPipelines P (seeds.foldl seed state).1 := by
  induction seeds generalizing state with
  | nil => exact all
  | cons asked seeds ih =>
    refine ih ?_
    unfold seed
    dsimp only
    split
    · exact all
    · exact change start all _ _ fun _ kept => kept

theorem refresh (expanded : ∀ pipeline seeds, P (inputs.ingestionContext pipeline seeds))
    {ingestion : Ingestion n} (all : AllPipelines P ingestion) (grown : List (IngestionPipeline n)) :
    AllPipelines P (inputs.refresh grown ingestion) := by
  unfold ContextInputs.refresh
  apply List.foldlRecOn
  · exact all
  · exact fun ingestion all pipeline _ => change start all _ _ fun _ _ => expanded pipeline _

end AllPipelines

/-! ### Pipelines run at ingestion time -/

def Timed (context : ExecutionContext n) : Prop :=
  ∀ pipeline, context.kind = .ingestion pipeline → context.atQueryTime = false

theorem ingestionContext_timed (pipeline : IngestionPipeline n) (seeds : List (Fin n)) :
    Timed (inputs.ingestionContext pipeline seeds) := fun _ _ => rfl

theorem sharedContext_timed (shareable : Fin n) : Timed (inputs.sharedContext shareable) :=
  fun _ kind => nomatch kind

def AllTimed (ingestion : Ingestion n) : Prop :=
  ∀ pipeline entry, ingestion.get? pipeline = some entry → Timed entry.1

/-! ### Rounds of the discovery -/

/-- What the rounds can still find: shareable candidates and candidates of pipelines. -/
def unfound (inputs : ContextInputs n) (found : Found n) : Nat :=
  (Finset.univ.filter fun shareable : Fin n => shareable ∉ found.known).card +
    (Finset.univ.filter fun pair : Fin n × Fin n =>
      pair.2 ∉ seedsOf found.ingestion (inputs.ingestionPipeline pair.1)).card

/-- Every shareable candidate known has a context, and every one that a scanned context may read is
known. -/
structure FoundAll (inputs : ContextInputs n) (queries : List (ExecutionContext n))
    (found : Found n) : Prop where
  contexts : ∀ shareable ∈ found.known, ∃ context ∈ found.shared, context.kind = .shared shareable
  scanned : ∀ context ∈ (queries ++ found.shared).take found.scanned, ∀ option ∈ context.options,
    inputs.Passed found.known [] option
  timed : AllTimed found.ingestion ∧ ∀ context ∈ found.shared, Timed context

variable {queries : List (ExecutionContext n)} {found found' : Found n}

def roundAsked (inputs : ContextInputs n) (queries : List (ExecutionContext n)) (found : Found n) :
    Asked n :=
  inputs.scan found.known ((queries ++ found.shared).drop found.scanned ++
    found.ingestion.entries.map fun entry => entry.2.1)

theorem discover_eq : inputs.discover queries found =
    if (inputs.roundAsked queries found).pending = [] ∧
        ((inputs.roundAsked queries found).seeds.foldl seed (found.ingestion, [])).2 = [] then none
    else some {
      shared := found.shared ++
        (ascending (inputs.roundAsked queries found).pending).map inputs.sharedContext
      known := found.known ++ ascending (inputs.roundAsked queries found).pending
      ingestion := inputs.refresh
        ((inputs.roundAsked queries found).seeds.foldl seed (found.ingestion, [])).2
        ((inputs.roundAsked queries found).seeds.foldl seed (found.ingestion, [])).1
      scanned := queries.length + found.shared.length } := rfl

theorem round_passed (all : inputs.FoundAll queries found) :
    ∀ context ∈ queries ++ found.shared, ∀ option ∈ context.options,
      inputs.Passed found.known (inputs.roundAsked queries found).pending option := by
  intro context member option listed kind
  rw [← List.take_append_drop found.scanned (queries ++ found.shared)] at member
  rcases List.mem_append.mp member with early | late
  · exact .inl ((all.scanned context early option listed kind).resolve_right List.not_mem_nil)
  · exact scan_passed context (List.mem_append_left _ late) option listed kind

theorem discover_some (all : inputs.FoundAll queries found)
    (round : inputs.discover queries found = some found') :
    inputs.FoundAll queries found' ∧ inputs.unfound found' < inputs.unfound found := by
  have asks : inputs.Asks found.known (inputs.roundAsked queries found) := scan_asks _ _
  have passed := round_passed all
  obtain ⟨grows, grown⟩ := foldl_seed (inputs.roundAsked queries found).seeds (found.ingestion, [])
  rw [discover_eq] at round
  generalize inputs.roundAsked queries found = asked at *
  split at round
  · cases round
  · next progress =>
    cases round
    refine ⟨⟨fun shareable member => ?_, fun context member option listed kind => ?_, ?_, ?_⟩, ?_⟩
    · rcases List.mem_append.mp member with before | new
      · obtain ⟨context, here, kind⟩ := all.contexts shareable before
        exact ⟨context, List.mem_append_left _ here, kind⟩
      · exact ⟨inputs.sharedContext shareable,
          List.mem_append_right _ (List.mem_map_of_mem new), rfl⟩
    · left
      dsimp only at member
      rw [← List.append_assoc, ← List.length_append, List.take_left] at member
      rw [List.mem_append, mem_ascending]
      exact passed context member option listed kind
    · have start (pipeline : IngestionPipeline n) : Timed ⟨.ingestion pipeline, false, []⟩ :=
        fun _ _ => rfl
      exact AllPipelines.refresh start ingestionContext_timed
        (@AllPipelines.foldl_seed n Timed start (found.ingestion, []) all.timed.1 asked.seeds) _
    · intro context member
      rcases List.mem_append.mp member with before | new
      · exact all.timed.2 context before
      · obtain ⟨shareable, _, rfl⟩ := List.mem_map.mp new
        exact sharedContext_timed shareable
    · have fewerKnown : (Finset.univ.filter fun shareable : Fin n =>
          shareable ∉ found.known ++ ascending asked.pending) ⊆
          Finset.univ.filter fun shareable : Fin n => shareable ∉ found.known := by
        intro shareable member
        rw [Finset.mem_filter] at member ⊢
        exact ⟨member.1, fun known => member.2 (List.mem_append_left _ known)⟩
      have fewerSeeds : (Finset.univ.filter fun pair : Fin n × Fin n =>
          pair.2 ∉ seedsOf (inputs.refresh (asked.seeds.foldl seed (found.ingestion, [])).2
            (asked.seeds.foldl seed (found.ingestion, [])).1)
            (inputs.ingestionPipeline pair.1)) ⊆
          Finset.univ.filter fun pair : Fin n × Fin n =>
            pair.2 ∉ seedsOf found.ingestion (inputs.ingestionPipeline pair.1) := by
        intro pair member
        rw [Finset.mem_filter, refresh_seeds] at member
        rw [Finset.mem_filter]
        exact ⟨member.1, fun known => member.2 (grows _ _ known)⟩
      unfold unfound
      dsimp only
      by_cases quiet : asked.pending = []
      · have grew : asked.seeds.foldl seed (found.ingestion, []) ≠ (found.ingestion, []) :=
          fun same => progress ⟨quiet, by rw [same]⟩
        obtain ⟨new, member, absent, present⟩ := grown.resolve_left grew
        obtain ⟨shareable, owner⟩ := asks.owned new member
        refine Nat.add_lt_add_of_le_of_lt (Finset.card_le_card fewerKnown) (Finset.card_lt_card ?_)
        refine (Finset.ssubset_iff_of_subset fewerSeeds).mpr ⟨(shareable, new.2), ?_, ?_⟩
        · exact Finset.mem_filter.mpr ⟨Finset.mem_univ _, owner ▸ absent⟩
        · rw [Finset.mem_filter, refresh_seeds]
          exact fun both => both.2 (owner ▸ present)
      · obtain ⟨first, rest, some⟩ := List.exists_cons_of_ne_nil quiet
        have member : first ∈ asked.pending := some ▸ List.mem_cons_self
        refine Nat.add_lt_add_of_lt_of_le (Finset.card_lt_card ?_) (Finset.card_le_card fewerSeeds)
        refine (Finset.ssubset_iff_of_subset fewerKnown).mpr ⟨first, ?_, ?_⟩
        · exact Finset.mem_filter.mpr ⟨Finset.mem_univ _, asks.fresh first member⟩
        · rw [Finset.mem_filter]
          exact fun both => both.2 (List.mem_append_right _ (mem_ascending.mpr member))

theorem discover_none (all : inputs.FoundAll queries found)
    (round : inputs.discover queries found = none) :
    ∀ context ∈ queries ++ found.ingestion.entries.map (fun entry => entry.2.1) ++ found.shared,
      ∀ option ∈ context.options, inputs.Passed found.known [] option := by
  have passed := round_passed all
  have scanned : ∀ context ∈ found.ingestion.entries.map (fun entry => entry.2.1),
      ∀ option ∈ context.options,
        inputs.Passed found.known (inputs.roundAsked queries found).pending option :=
    fun context member => scan_passed context (List.mem_append_right _ member)
  rw [discover_eq] at round
  split at round
  · next quiet =>
    rw [quiet.1] at passed scanned
    intro context member
    rw [List.mem_append, List.mem_append] at member
    rcases member with (query | pipeline) | shared
    · exact passed context (List.mem_append_left _ query)
    · exact scanned context pipeline
    · exact passed context (List.mem_append_right _ shared)
  · cases round

theorem discoverAll_ok {rounds : Nat} (all : inputs.FoundAll queries found)
    (enough : inputs.unfound found < rounds) :
    inputs.FoundAll queries (inputs.discoverAll queries rounds found) ∧
      inputs.discover queries (inputs.discoverAll queries rounds found) = none := by
  induction rounds generalizing found with
  | zero => omega
  | succ rounds ih =>
    unfold discoverAll
    cases round : inputs.discover queries found with
    | none => exact ⟨all, round⟩
    | some found' =>
      obtain ⟨all', fewer⟩ := discover_some all round
      exact ih all' (by omega)

theorem discovered_ok (queries : List (ExecutionContext n)) :
    inputs.FoundAll queries (inputs.discovered queries) ∧
    inputs.discover queries (inputs.discovered queries) = none := by
  apply discoverAll_ok
  · exact ⟨nofun, fun context member => by simp at member, nofun, nofun⟩
  · unfold unfound
    have known := (Finset.univ.filter fun shareable : Fin n => shareable ∉ []).card_le_univ
    have seeds := (Finset.univ.filter fun pair : Fin n × Fin n => pair.2 ∉ seedsOf BTreeMap.empty
      (inputs.ingestionPipeline pair.1)).card_le_univ
    rw [Fintype.card_fin] at known
    rw [Fintype.card_prod, Fintype.card_fin] at seeds
    exact Nat.lt_succ_of_le (Nat.add_le_add known seeds)

theorem mem_contexts {context : ExecutionContext n} : context ∈ inputs.contexts ↔
    context ∈ inputs.queryContexts ++
      (inputs.discovered inputs.queryContexts).ingestion.entries.map (fun entry => entry.2.1) ++
      (inputs.discovered inputs.queryContexts).shared := by
  unfold contexts
  simp only [List.mem_append]
  rw [(List.perm_insertionSort _ _).mem_iff]

theorem contexts_known {context : ExecutionContext n} (member : context ∈ inputs.contexts)
    {option : Fin n} (listed : option ∈ context.options) (kind : inputs.kind option = .shareable) :
    ∃ own ∈ inputs.contexts, own.kind = .shared option := by
  obtain ⟨all, done⟩ := discovered_ok inputs.queryContexts
  have passed := discover_none all done context (mem_contexts.mp member) option listed kind
  obtain ⟨own, here, same⟩ := all.contexts option (passed.resolve_right List.not_mem_nil)
  exact ⟨own, mem_contexts.mpr (List.mem_append_right _ here), same⟩

theorem contexts_timed {context : ExecutionContext n} (member : context ∈ inputs.contexts) :
    Timed context := by
  obtain ⟨pipelines, shared⟩ := (discovered_ok inputs.queryContexts).1.timed
  rw [mem_contexts, List.mem_append, List.mem_append] at member
  rcases member with (query | pipeline) | own
  · obtain ⟨query, _, rfl⟩ := List.mem_map.mp query
    exact fun _ kind => nomatch kind
  · obtain ⟨⟨key, entry⟩, here, rfl⟩ := List.mem_map.mp pipeline
    exact pipelines key entry (BTreeMap.mem_entries.mp here)
  · exact shared context own

theorem contexts_query {query : Nat} (inside : query < inputs.queries) :
    inputs.contexts[query]? = some (inputs.queryContext query) := by
  have length : inputs.queryContexts.length = inputs.queries := by
    rw [queryContexts, List.length_map, List.length_range]
  rw [contexts, List.append_assoc, List.getElem?_append_left (length ▸ inside), queryContexts,
    List.getElem?_map, List.getElem?_range inside]
  rfl

end ContextInputs

namespace MilpInputs
variable {n : Nat} {inputs : MilpInputs n}

theorem context_of {position : Nat} {context : ExecutionContext n}
    (found : inputs.contexts[position]? = some context) : inputs.context position = context := by
  rw [MilpInputs.context, List.getD_eq_getElem?_getD, found]
  rfl

theorem context_of_option {position : Nat} {option : Fin n}
    (listed : option ∈ inputs.options position) :
    inputs.contexts[position]? = some (inputs.context position) := by
  cases found : inputs.contexts[position]? with
  | some context => rw [context_of found]
  | none =>
    unfold options MilpInputs.context at listed
    rw [List.getD_eq_getElem?_getD, found] at listed
    cases listed

end MilpInputs

theorem MilpInputs.pipeline_of_source {inputs : MilpInputs n} (formed : inputs.WellFormed)
    {context ingestion : Nat}
    (source : inputs.ingestionContextReadBy context = some ingestion) :
    ∃ pipeline, (inputs.context ingestion).kind = .ingestion pipeline := by
  unfold MilpInputs.ingestionContextReadBy at source
  split at source
  · next pipeline kind =>
    cases source
    exact ⟨pipeline, kind⟩
  · exact formed.pipelines _ _ source
  · cases source

theorem lt_of_mem_outputReferences {queryRoots : List (Physical.QueryRoot MemoGroupId)}
    {reference : Nat × MemoGroupId} (member : reference ∈ outputReferences queryRoots) :
    reference.1 < queryRoots.length := by
  obtain ⟨⟨root, query⟩, listed, here⟩ := List.mem_flatMap.mp member
  obtain ⟨group, _, rfl⟩ := List.mem_map.mp here
  exact List.snd_lt_of_mem_zipIdx listed

namespace PhysicalASAPMemoCandidates
variable {n : Nat} {physical : PhysicalASAPMemoCandidates n} {alive usable : Fin n → Bool}
  {refreshWindow : Fin n → Option RefreshWindow}

theorem milpInputs_wellFormed : (physical.milpInputs alive usable refreshWindow).WellFormed where
  queries := by
    intro query member
    obtain ⟨reference, listed, rfl⟩ := List.mem_map.mp member
    rw [MilpInputs.context_of (ContextInputs.contexts_query (lt_of_mem_outputReferences listed))]
    rfl
  shared := by
    intro shareable context found
    obtain ⟨inside, kind, _⟩ := List.findIdx?_eq_some_iff_getElem.mp found
    rw [MilpInputs.context_of (List.getElem?_eq_getElem inside)]
    exact ⟨inside, of_decide_eq_true kind⟩
  pipelines := by
    intro shareable context found
    simp only [milpInputs] at found
    split at found
    · obtain ⟨inside, kind, _⟩ := List.findIdx?_eq_some_iff_getElem.mp found
      refine ⟨(physical.contextInputs alive usable refreshWindow).ingestionPipeline shareable, ?_⟩
      rw [MilpInputs.context_of (List.getElem?_eq_getElem inside)]
      exact of_decide_eq_true kind
    · cases found
  ingestionTime := by
    intro context pipeline kind
    cases found : (physical.milpInputs alive usable refreshWindow).contexts[context]? with
    | none =>
      rw [MilpInputs.context, List.getD_eq_getElem?_getD, found] at kind
      cases kind
    | some data =>
      rw [MilpInputs.context_of found] at kind ⊢
      exact ContextInputs.contexts_timed (List.mem_of_getElem? found) pipeline kind
  noSelf := by
    intro reader producers listed member
    simp only [milpInputs, contextInputs, producerCandidatesLeft, candidateLinks] at listed
    split at listed
    · obtain ⟨links, linked, rfl⟩ := List.mem_map.mp listed
      obtain ⟨all, _, rfl⟩ := List.mem_map.mp linked
      simp at member
    · cases listed
  known := by
    intro context option listed kind
    have found := MilpInputs.context_of_option listed
    obtain ⟨own, here, same⟩ :=
      ContextInputs.contexts_known (List.mem_of_getElem? found) listed kind
    refine (List.findIdx?_isSome ..).trans (List.any_eq_true.mpr ⟨own, here, ?_⟩)
    exact decide_eq_true same

end PhysicalASAPMemoCandidates
end AsapPlanner.Milp
