import AsapPlanner.Pass2.Groups
import AsapPlanner.Traversal.Search

/-!
Summary builds: which ones a candidate makes over its inputs, and when two of them are one. Each
distinct build once, with everyone who makes it. Looking builds up by fingerprint gives what a search
over all of them would.
-/

namespace AsapPlanner.Pass2
open Rust Ir Traversal

/-! ### Equal builds -/

section Fields
variable (text : Datum → Option String) (dag : Dag)

/-- The JSON texts of a tuple's parts, which the tuple's text determines. -/
def serialized (parts : List Datum) : Option (List String) := parts.mapM text

/-- What a node says of itself, its children left out. -/
def signature (ref : NodeRef) : List Datum :=
  let node := dag.node ref
  [dag.ownFields ref, datum node.resultKind, datum node.schema, datum node.guarantee,
    datum node.timing, datum node.materialization]

def sameLocalFields (left right : NodeRef) : Bool :=
  Datum.eqParts (signature dag left) (signature dag right) &&
    match serialized text (signature dag left), serialized text (signature dag right) with
    | some left, some right => left == right
    | _, _ => false

def sameRangeInput (left right : NodeRef) : Bool :=
  match (dag.node left).nonAsap, (dag.node right).nonAsap with
  | some (.timeRange _ _ leftChild), some (.timeRange _ _ rightChild) =>
    leftChild == rightChild && sameLocalFields text dag left right
  | _, _ => false

def sameInput (left right : NodeRef) : Bool := left == right || sameRangeInput text dag left right

def sameConcreteBuild (left right : NodeRef) : Bool :=
  (dag.children left).length == (dag.children right).length &&
    ((dag.children left).zip (dag.children right)).all (fun pair => sameInput text dag pair.1 pair.2) &&
    sameLocalFields text dag left right

/-! ### Fingerprints -/

/-- What builds are indexed by; equality still decides. -/
structure BuildFingerprint where
  localFields : List String
  inputs : List (NodeRef × Option (List String))
deriving DecidableEq

def localFingerprint (ref : NodeRef) : Option (List String) :=
  let node := dag.node ref
  serialized text [dag.ownFields ref, datum node.schema, datum node.resultKind, datum node.guarantee,
    datum node.timing, datum node.materialization]

def inputFingerprint (input : NodeRef) : Option (NodeRef × Option (List String)) :=
  match (dag.node input).nonAsap with
  | some (.timeRange _ _ child) => (localFingerprint text dag input).map fun own => (child, some own)
  | _ => some (input, none)

def buildFingerprint (ref : NodeRef) : Option BuildFingerprint := do
  let inputs ← (dag.children ref).mapM (inputFingerprint text dag)
  let localFields ← localFingerprint text dag ref
  pure { localFields, inputs }

end Fields

/-! ### Builds over declared inputs -/

section Builds
variable (dag : Dag)

/-- Nodes down to a boundary, the children of each in the order `visits` gives them. -/
def within (boundary : NodeRef → Option MemoGroupId) (visits : List NodeRef → List NodeRef)
    (same : ∀ refs ref, ref ∈ visits refs ↔ ref ∈ refs) : Graph NodeRef where
  reads ref := if (boundary ref).isSome then [] else visits (dag.children ref)
  inner := List.range dag.size
  covers := by
    intro ref child reads
    split at reads
    · cases reads
    · have below := (same _ child).mp reads
      by_contra outside
      have absent : dag.nodes[ref]? = none :=
        List.getElem?_eq_none (Nat.le_of_not_lt fun small => outside (List.mem_range.mpr small))
      rw [Dag.children, Dag.node, absent] at below
      cases below

/-- `root` and what is beneath it down to the boundaries, in depth-first order, last child first. -/
def nodesWithin (boundary : NodeRef → Option MemoGroupId) (root : NodeRef) : List NodeRef :=
  ((within dag boundary List.reverse fun _ _ => List.mem_reverse).mark [root] []).reverse.filter
    fun ref => (boundary ref).isNone

/-- The groups where `root`'s own nodes end, first child first. -/
def boundaryGroups (boundary : NodeRef → Option MemoGroupId) (root : NodeRef) : List MemoGroupId :=
  (((within dag boundary id fun _ _ => Iff.rfl).mark [root] []).reverse.filterMap boundary).eraseDups

def isSummaryBuild (node : OperatorNode) : Bool :=
  match node.asap with
  | some (.summaryAgg ..) => true
  | some (.summaryTumblingWindowChain ..) => true
  | _ => false

def Memo.boundaryOf (memo : Memo) (groups : List MemoGroupId) (ref : NodeRef) : Option MemoGroupId :=
  groups.reverse.find? fun id => (memo.group id).logicalNode == ref

def OriginOfCandidateForMemoGroup.buildsDirectly : OriginOfCandidateForMemoGroup → Bool
  | pass1 | tumblingWindows | widenedScans | rollup | summaryResult => true
  | sharedBuild | summaryInput | topKReuse => false

def directInputBuilds (memo : Memo) (candidate : CandidateForMemoGroup) :
    List (NodeRef × List MemoGroupId) :=
  if !candidate.origin.buildsDirectly || candidate.accuracyBudgetParts == 0 then []
  else
    let boundary := memo.boundaryOf candidate.inputGroups
    (nodesWithin dag boundary candidate.rootNode).filterMap fun node =>
      if node != candidate.rootNode && isSummaryBuild (dag.node node) then
        ((dag.children node).mapM boundary).map fun children => (node, children.destutter (· ≠ ·))
      else none

end Builds

/-! ### Equal builds have equal fingerprints -/

section
variable {text : Datum → Option String} {dag : Dag} {left right : NodeRef}

theorem serialized_eq_some {parts : List Datum} {texts : List String}
    (known : serialized text parts = some texts) : parts.map text = texts.map some := by
  induction parts generalizing texts with
  | nil =>
    obtain rfl := Option.some.inj known
    rfl
  | cons part rest ih =>
    rw [serialized, List.mapM_cons, Option.bind_eq_bind, Option.bind_eq_some_iff] at known
    obtain ⟨first, own, known⟩ := known
    obtain ⟨others, later, known⟩ := Option.bind_eq_some_iff.mp known
    obtain rfl := Option.some.inj known
    rw [List.map_cons, List.map_cons, own, ih later]

theorem mapM_congr {α β : Type} {f : α → Option β} {items others : List α}
    (each : List.Forall₂ (fun item other => f item = f other) items others) :
    items.mapM f = others.mapM f := by
  induction each with
  | nil => rfl
  | cons first _ ih => rw [List.mapM_cons, List.mapM_cons, first, ih]

theorem signature_texts (same : sameLocalFields text dag left right = true) :
    (signature dag left).map text = (signature dag right).map text ∧
      ∃ texts, serialized text (signature dag left) = some texts := by
  obtain ⟨-, texts⟩ := Bool.and_eq_true_iff.mp same
  split at texts
  · rename_i own other known known'
    rw [beq_iff_eq] at texts
    subst texts
    exact ⟨(serialized_eq_some known).trans (serialized_eq_some known').symm, own, known⟩
  · cases texts

theorem localFingerprint_eq (same : sameLocalFields text dag left right = true) :
    localFingerprint text dag left = localFingerprint text dag right := by
  obtain ⟨texts, -⟩ := signature_texts same
  simp only [signature, List.map_cons, List.map_nil, List.cons.injEq] at texts
  obtain ⟨own, kind, schema, guarantee, timing, materialization, -⟩ := texts
  simp only [localFingerprint, serialized, List.mapM_cons, own, kind, schema, guarantee, timing,
    materialization]

theorem inputFingerprint_eq (same : sameInput text dag left right = true) :
    inputFingerprint text dag left = inputFingerprint text dag right := by
  rcases Bool.or_eq_true_iff.mp same with equal | ranges
  · rw [beq_iff_eq.mp equal]
  · unfold sameRangeInput at ranges
    split at ranges
    · rename_i leftRange rightRange
      obtain ⟨child, fields⟩ := Bool.and_eq_true_iff.mp ranges
      simp only [inputFingerprint, leftRange, rightRange, localFingerprint_eq fields,
        beq_iff_eq.mp child]
    · cases ranges

theorem buildFingerprint_eq (same : sameConcreteBuild text dag left right = true) :
    buildFingerprint text dag left = buildFingerprint text dag right := by
  obtain ⟨inputs, fields⟩ := Bool.and_eq_true_iff.mp same
  obtain ⟨length, each⟩ := Bool.and_eq_true_iff.mp inputs
  have pairs : List.Forall₂ (fun left right => sameInput text dag left right = true)
      (dag.children left) (dag.children right) := by
    refine List.forall₂_iff_zip.mpr ⟨beq_iff_eq.mp length, fun {a b} member => ?_⟩
    exact List.all_eq_true.mp each (a, b) member
  rw [buildFingerprint, buildFingerprint, mapM_congr (pairs.imp fun _ _ => inputFingerprint_eq),
    localFingerprint_eq fields]

theorem boundaryOf_congr {memo other : Memo}
    (nodes : ∀ id, (memo.group id).logicalNode = (other.group id).logicalNode) (groups : List MemoGroupId) :
    memo.boundaryOf groups = other.boundaryOf groups := by
  funext ref
  simp only [Memo.boundaryOf, nodes]

/-! ### As the store grows -/

section
variable {later : Dag} (grown : later.Extends dag)
include grown

theorem signature_grow {ref : NodeRef} (inside : ref < dag.size) :
    signature later ref = signature dag ref := by
  unfold signature
  rw [grown.node inside, grown.ownFields inside]

theorem sameLocalFields_grow (inside : left < dag.size) (inside' : right < dag.size) :
    sameLocalFields text later left right = sameLocalFields text dag left right := by
  unfold sameLocalFields
  rw [signature_grow grown inside, signature_grow grown inside']

theorem sameInput_grow (inside : left < dag.size) (inside' : right < dag.size) :
    sameInput text later left right = sameInput text dag left right := by
  unfold sameInput sameRangeInput
  rw [grown.node inside, grown.node inside', sameLocalFields_grow grown inside inside']

theorem sameConcreteBuild_grow (inside : left < dag.size) (inside' : right < dag.size) :
    sameConcreteBuild text later left right = sameConcreteBuild text dag left right := by
  have children : ∀ ref < dag.size, later.children ref = dag.children ref := by
    intro ref small
    unfold Dag.children
    rw [grown.node small]
  have inputs : ((dag.children left).zip (dag.children right)).all
        (fun pair => sameInput text later pair.1 pair.2) =
      ((dag.children left).zip (dag.children right)).all
        fun pair => sameInput text dag pair.1 pair.2 := by
    rw [Bool.eq_iff_iff, List.all_eq_true, List.all_eq_true]
    refine forall₂_congr fun pair member => ?_
    obtain ⟨first, second⟩ := List.of_mem_zip member
    rw [sameInput_grow grown (dag.refs_size (List.mem_append_left _ first))
      (dag.refs_size (List.mem_append_left _ second))]
  unfold sameConcreteBuild
  rw [children left inside, children right inside', inputs, sameLocalFields_grow grown inside inside']

theorem boundaryGroups_grow (boundary : NodeRef → Option MemoGroupId) {root : NodeRef}
    (inside : root < dag.size) : boundaryGroups later boundary root = boundaryGroups dag boundary root := by
  unfold boundaryGroups
  rw [Graph.mark_congr]
  intro start only key reached
  rw [List.mem_singleton.mp only] at reached
  have down : dag.Reaches root key := by
    refine Relation.ReflTransGen.mono (fun ref child reads => ?_) _ _ reached
    simp only [within] at reads
    split at reads
    · cases reads
    · exact reads
  simp only [within, Dag.children, grown.node (Nat.lt_of_le_of_lt down.le inside)]

end

end

/-! ### The catalogue -/

/-- A build one candidate makes, and the groups it reads. -/
structure Occurrence where
  group : MemoGroupId
  index : Nat
  build : NodeRef
  children : List MemoGroupId

structure BuildReaders where
  build : NodeRef
  children : List MemoGroupId
  readers : List (MemoGroupId × Nat × NodeRef)

/-- The distinct builds, and their places by fingerprint. -/
structure Catalogue where
  builds : List BuildReaders
  index : Option BuildFingerprint → List Nat

def Catalogue.empty : Catalogue := ⟨[], fun _ => []⟩

section Catalogue
variable (text : Datum → Option String) (dag : Dag)

/-- Where an equal build is listed: through the index, or by a search over all. -/
def Catalogue.matching (indexed : Bool) (catalogue : Catalogue) (build : NodeRef) : Option Nat :=
  if indexed then
    (catalogue.index (buildFingerprint text dag build)).find? fun place =>
      catalogue.builds[place]?.any fun entry => sameConcreteBuild text dag entry.build build
  else catalogue.builds.findIdx? fun entry => sameConcreteBuild text dag entry.build build

def Catalogue.add (indexed : Bool) (catalogue : Catalogue) (occurrence : Occurrence) : Catalogue :=
  let fingerprint := buildFingerprint text dag occurrence.build
  let reader := (occurrence.group, occurrence.index, occurrence.build)
  match catalogue.matching text dag indexed occurrence.build with
  | some place => { catalogue with
    builds := catalogue.builds.modify place fun entry =>
      { entry with readers := entry.readers ++ [reader] } }
  | none => {
    builds := catalogue.builds ++
      [{ build := occurrence.build, children := occurrence.children, readers := [reader] }]
    index := Function.update catalogue.index fingerprint
      (catalogue.index fingerprint ++ [catalogue.builds.length]) }

def occurrences (memo : Memo) : List Occurrence :=
  memo.candidates.zipIdx.flatMap fun (candidates, group) =>
    candidates.zipIdx.flatMap fun (candidate, index) =>
      (directInputBuilds dag memo candidate).map fun (build, children) =>
        { group, index, build, children }

def catalogue (indexed : Bool) (memo : Memo) : Catalogue :=
  (occurrences dag memo).foldl (Catalogue.add text dag indexed) .empty

/-! ### The index -/

def Catalogue.Indexed (catalogue : Catalogue) : Prop :=
  ∀ fingerprint, catalogue.index fingerprint = (List.range catalogue.builds.length).filter fun place =>
    catalogue.builds[place]?.any fun entry => decide (buildFingerprint text dag entry.build = fingerprint)

end Catalogue

section
variable {text : Datum → Option String} {dag : Dag} {catalogue : Catalogue}

theorem findIdx?_eq_find? {α : Type} (items : List α) (p : α → Bool) :
    items.findIdx? p = (List.range items.length).find? fun place => items[place]?.any p := by
  induction items with
  | nil => rfl
  | cons item rest ih =>
    rw [List.findIdx?_cons, List.length_cons, List.range_succ_eq_map, List.find?_cons]
    by_cases first : p item
    · simp [first]
    · simp only [first, List.getElem?_cons_zero, Option.any_some, Bool.false_eq_true, if_false,
        List.find?_map, ih]
      rfl

theorem matching_indexed (indexed : catalogue.Indexed text dag) (build : NodeRef) :
    catalogue.matching text dag true build = catalogue.matching text dag false build := by
  rw [Catalogue.matching, Catalogue.matching, if_pos rfl, if_neg Bool.false_ne_true, indexed,
    List.find?_filter, findIdx?_eq_find?]
  refine congrArg (List.find? · _) (funext fun place => ?_)
  cases catalogue.builds[place]? with
  | none => rfl
  | some entry =>
    simp only [Option.any_some]
    by_cases same : sameConcreteBuild text dag entry.build build = true
    · simp [same, buildFingerprint_eq same]
    · simp [same]

theorem add_indexed (indexed : catalogue.Indexed text dag) (occurrence : Occurrence) :
    (catalogue.add text dag true occurrence).Indexed text dag := by
  unfold Catalogue.add
  simp only
  split
  · intro fingerprint
    refine (indexed fingerprint).trans ?_
    rw [List.length_modify]
    refine List.filter_congr fun place _ => ?_
    rw [List.getElem?_modify]
    cases catalogue.builds[place]? with
    | none => rfl
    | some entry => split <;> rfl
  · intro fingerprint
    have first : ∀ new : BuildReaders, (List.range catalogue.builds.length).filter (fun place =>
        (catalogue.builds ++ [new])[place]?.any fun entry =>
          decide (buildFingerprint text dag entry.build = fingerprint)) =
        catalogue.index fingerprint := by
      intro new
      rw [indexed]
      refine List.filter_congr fun place member => ?_
      rw [List.getElem?_append_left (List.mem_range.mp member)]
    rw [List.length_append, List.length_singleton, List.range_succ, List.filter_append, first]
    by_cases same : fingerprint = buildFingerprint text dag occurrence.build
    · subst same
      simp
    · simp [Function.update_of_ne same, Ne.symm same]

theorem foldl_indexed (occurrences : List Occurrence) :
    (occurrences.foldl (Catalogue.add text dag true) .empty).Indexed text dag := by
  induction occurrences using List.reverseRecOn with
  | nil => exact fun _ => rfl
  | append_singleton occurrences last ih =>
    rw [List.foldl_concat]
    exact add_indexed ih last

/-! ### What is listed -/

/-- An entry's build is made by one of `all`, and its readers make it or an equal one. -/
def Catalogue.Sound (text : Datum → Option String) (dag : Dag) (all : List Occurrence)
    (catalogue : Catalogue) : Prop :=
  ∀ entry ∈ catalogue.builds, (∃ occurrence ∈ all, entry.build = occurrence.build) ∧
    ∀ reader ∈ entry.readers, ∃ occurrence ∈ all,
      reader = (occurrence.group, occurrence.index, occurrence.build) ∧
        (entry.build = occurrence.build ∨
          sameConcreteBuild text dag entry.build occurrence.build = true)

theorem matching_same {indexed : Bool} {build : NodeRef} {place : Nat}
    (found : catalogue.matching text dag indexed build = some place) :
    ∃ entry, catalogue.builds[place]? = some entry ∧
      sameConcreteBuild text dag entry.build build = true := by
  have read : (catalogue.builds[place]?.any fun entry =>
      sameConcreteBuild text dag entry.build build) = true := by
    cases indexed with
    | true => exact (List.find?_eq_some_iff_append.mp found).1
    | false =>
      simp only [Catalogue.matching, Bool.false_eq_true, if_false, findIdx?_eq_find?] at found
      exact (List.find?_eq_some_iff_append.mp found).1
  exact (Option.any_eq_true _ _).mp read

theorem mem_modify {α : Type} {items : List α} {place : Nat} {change : α → α} {item : α}
    (member : item ∈ items.modify place change) :
    item ∈ items ∨ ∃ old, items[place]? = some old ∧ item = change old := by
  obtain ⟨other, found⟩ := List.mem_iff_getElem?.mp member
  rw [List.getElem?_modify] at found
  obtain ⟨old, present, changed⟩ := Option.map_eq_some_iff.mp found
  split at changed
  · rename_i same
    subst same
    exact .inr ⟨old, present, changed.symm⟩
  · exact .inl (changed ▸ List.mem_of_getElem? present)

theorem add_sound {indexed : Bool} {all : List Occurrence} {occurrence : Occurrence}
    (sound : catalogue.Sound text dag all) (member : occurrence ∈ all) :
    (catalogue.add text dag indexed occurrence).Sound text dag all := by
  unfold Catalogue.add
  simp only
  split
  · rename_i place found
    intro entry listed
    rcases mem_modify listed with before | ⟨old, present, rfl⟩
    · exact sound entry before
    · obtain ⟨made, readers⟩ := sound old (List.mem_of_getElem? present)
      refine ⟨made, fun reader reads => ?_⟩
      rcases List.mem_append.mp reads with earlier | new
      · exact readers reader earlier
      · obtain ⟨entry, here, same⟩ := matching_same found
        obtain rfl := Option.some.inj (here.symm.trans present)
        exact ⟨occurrence, member, List.mem_singleton.mp new, .inr same⟩
  · intro entry listed
    rcases List.mem_append.mp listed with before | new
    · exact sound entry before
    · obtain rfl := List.mem_singleton.mp new
      exact ⟨⟨occurrence, member, rfl⟩, fun reader reads =>
        ⟨occurrence, member, List.mem_singleton.mp reads, .inl rfl⟩⟩

theorem catalogue_sound (indexed : Bool) (memo : Memo) :
    (AsapPlanner.Pass2.catalogue text dag indexed memo).Sound text dag (occurrences dag memo) := by
  have every : ∀ items : List Occurrence, items ⊆ occurrences dag memo → ∀ start : Catalogue,
      start.Sound text dag (occurrences dag memo) →
      (items.foldl (Catalogue.add text dag indexed) start).Sound text dag (occurrences dag memo) := by
    intro items
    induction items with
    | nil => exact fun _ _ sound => sound
    | cons first rest ih =>
      intro within start sound
      obtain ⟨here, later⟩ := List.cons_subset.mp within
      exact ih later _ (add_sound sound here)
  exact every _ (List.Subset.refl _) _ fun entry member => by cases member

theorem occurrences_spec {memo : Memo} {occurrence : Occurrence}
    (member : occurrence ∈ occurrences dag memo) : occurrence.group < memo.size ∧
      ∃ candidate, (memo.candidatesOf occurrence.group)[occurrence.index]? = some candidate ∧
        (occurrence.build, occurrence.children) ∈ directInputBuilds dag memo candidate := by
  obtain ⟨⟨candidates, group⟩, listed, member⟩ := List.mem_flatMap.mp member
  obtain ⟨⟨candidate, index⟩, inside, member⟩ := List.mem_flatMap.mp member
  obtain ⟨⟨build, children⟩, built, rfl⟩ := List.mem_map.mp member
  have here := List.mem_zipIdx_iff_getElem?.mp listed
  have there := List.mem_zipIdx_iff_getElem?.mp inside
  have known : memo.candidatesOf group = candidates := by
    rw [Memo.candidatesOf, here, Option.getD_some]
  refine ⟨?_, candidate, by rw [known]; exact there, built⟩
  rw [Memo.size, ← memo.paired]
  exact (List.getElem?_eq_some_iff.mp here).1

theorem build_lt {memo : Memo} {candidate : CandidateForMemoGroup} {build : NodeRef}
    {children : List MemoGroupId} (member : (build, children) ∈ directInputBuilds dag memo candidate) :
    build < candidate.rootNode ∧ isSummaryBuild (dag.node build) = true := by
  unfold directInputBuilds at member
  split at member
  · cases member
  · obtain ⟨node, visited, found⟩ := List.mem_filterMap.mp member
    split at found
    · rename_i conditions
      obtain ⟨other, summary⟩ := Bool.and_eq_true_iff.mp conditions
      obtain ⟨groups, -, same⟩ := Option.map_eq_some_iff.mp found
      obtain ⟨rfl, -⟩ := Prod.mk.inj same
      refine ⟨lt_of_le_of_ne ?_ (bne_iff_ne.mp other), summary⟩
      have marked := List.mem_reverse.mp (List.mem_filter.mp visited).1
      rcases Graph.mark_reached _ marked with none | ⟨start, only, reached⟩
      · cases none
      · rw [List.mem_singleton.mp only] at reached
        have down : dag.Reaches candidate.rootNode node := by
          refine Relation.ReflTransGen.mono (fun ref child reads => ?_) _ _ reached
          simp only [within] at reads
          split at reads
          · cases reads
          · exact List.mem_reverse.mp reads
        exact down.le
    · cases found

end

end AsapPlanner.Pass2
