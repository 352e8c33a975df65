import AsapPlanner.Construction.Chains

/-!
When an expanded workload holds no chain and lists every chain its merges read. The expansion visits the
merges above a chain and builds the chain's windows over the input as it stands.
-/

namespace AsapPlanner.Construction
open Rust Traversal Ir Coverage Timing Relation

/-! ### What a workload reads -/

def rootRefs : QueryRoot → List NodeRef
  | .operator node => [node]
  | .scalar expr => expr.operatorRefs

/-- Roots over the nodes of a store. -/
structure Workload where
  dag : Dag
  roots : List QueryRoot
  inside : ∀ root ∈ roots, ∀ ref ∈ rootRefs root, ref < dag.size

def ReachedFrom (dag : Dag) (roots : List QueryRoot) (ref : NodeRef) : Prop :=
  ∃ root ∈ roots, ∃ first ∈ rootRefs root, dag.Reaches first ref

def isMerge (node : OperatorNode) : Bool :=
  match node.asap with
  | some (.summaryMerge ..) => true
  | _ => false

/-- A child a merge reads as its windows. -/
def ReadsChain (dag : Dag) (merge chain : NodeRef) : Prop :=
  isMerge (dag.node merge) = true ∧ chain ∈ dag.children merge ∧ isChain (dag.node chain) = true

def windowsRead (dag : Dag) (merge chain : NodeRef) : Nat :=
  match (dag.node merge).asap with
  | some (.summaryMerge _ newest _) => newest.getD (chainCount dag chain)
  | _ => 0

def Reads (work : Workload) (merge chain : NodeRef) : Prop :=
  ReachedFrom work.dag work.roots merge ∧ ReadsChain work.dag merge chain

/-- What an expansion promises: no chain is left, and every chain a merge reads is listed with its
tumbling windows. -/
structure Unchained (work : Workload) (out : TumblingWindowChainExpansion) : Prop where
  removed : ∀ ref, ReachedFrom out.dag out.roots ref → isChain (out.dag.node ref) = false
  listed : ∀ merge chain, Reads work merge chain → ∃ entry ∈ out.chains, entry.chain = chain ∧
    windowsRead work.dag merge chain ≤ entry.tumblingWindows.length ∧
    (∀ window ∈ entry.tumblingWindows, ∃ fields,
      chainFields (work.dag.node chain) = some fields ∧ BuildOf fields (out.dag.node window)) ∧
    ∃ image, (merge, image) ∈ out.expandedNodes ∧
      ∀ window ∈ entry.tumblingWindows.take (windowsRead work.dag merge chain),
        window ∈ out.dag.children image

/-- No chain below a chain some merge reads, and no merge reads windows a chain does not have, or
none of a chain that no other merge reads. -/
def ChainsApart (work : Workload) : Prop :=
  ∀ merge chain, Reads work merge chain → ¬HoldsChain work.dag chain ∧
    windowsRead work.dag merge chain ≤ chainCount work.dag chain ∧
    ∃ other, Reads work other chain ∧ 0 < windowsRead work.dag other chain

/-! ### The nodes an expansion visits -/

/-- Below the roots, but not through a chain that a merge reads. -/
inductive Visited (work : Workload) : NodeRef → Prop
  | root {root : QueryRoot} {ref : NodeRef} (member : root ∈ work.roots) (reads : ref ∈ rootRefs root) :
      Visited work ref
  | child {parent ref : NodeRef} (visited : Visited work parent) (reads : ref ∈ work.dag.children parent)
      (apart : ¬ReadsChain work.dag parent ref) : Visited work ref

theorem not_chain_of_merge {node : OperatorNode} (merge : isMerge node = true) :
    isChain node = false := by
  unfold isMerge at merge
  unfold isChain chainFields
  split at merge
  · rename_i shape
    rw [shape]
    rfl
  · cases merge

section Visited
variable {work : Workload} {ref merge chain : NodeRef}

theorem Visited.reached (visited : Visited work ref) : ReachedFrom work.dag work.roots ref := by
  induction visited with
  | root member reads => exact ⟨_, member, _, reads, .refl⟩
  | child _ reads _ ih =>
    obtain ⟨root, member, first, held, path⟩ := ih
    exact ⟨root, member, first, held, path.tail reads⟩

theorem Visited.inside (visited : Visited work ref) : ref < work.dag.size := by
  obtain ⟨root, member, first, held, path⟩ := visited.reached
  exact Nat.lt_of_le_of_lt path.le (work.inside root member first held)

theorem visited_or_below (reached : ReachedFrom work.dag work.roots ref) :
    Visited work ref ∨ ∃ merge chain, Visited work merge ∧ ReadsChain work.dag merge chain ∧
      work.dag.Reaches chain ref := by
  obtain ⟨root, member, first, held, path⟩ := reached
  induction path with
  | refl => exact .inl (.root member held)
  | tail _ reads ih =>
    rcases ih with visited | ⟨merge, chain, visited, readsChain, below⟩
    · rename_i parent child _
      by_cases apart : ReadsChain work.dag parent child
      · exact .inr ⟨parent, child, visited, apart, .refl⟩
      · exact .inl (visited.child reads apart)
    · exact .inr ⟨merge, chain, visited, readsChain, below.tail reads⟩

theorem ChainsApart.visited (apart : ChainsApart work) (reads : Reads work merge chain) :
    Visited work merge := by
  obtain ⟨reached, isMerge', member, isChain'⟩ := reads
  rcases visited_or_below reached with visited | ⟨above, outer, visited, readsOver, below⟩
  · exact visited
  · obtain ⟨holds, _⟩ := apart above outer ⟨visited.reached, readsOver⟩
    apply (holds ?_).elim
    rcases ReflTransGen.cases_head below with same | ⟨next, read, path⟩
    · have plain := not_chain_of_merge (same.symm ▸ isMerge')
      rw [readsOver.2.2] at plain
      cases plain
    · exact ⟨next, read, chain, path.tail member, isChain'⟩

end Visited

/-! ### What an expansion has built -/

/-- An expansion that built more. -/
structure Later (state later : Expanding) : Prop where
  dag : later.dag.Extends state.dag
  images : ∀ ref image, state.expandedNodeOf ref = some image → later.expandedNodeOf ref = some image
  windows : ∀ key window, state.tumblingWindowOf key = some window →
    later.tumblingWindowOf key = some window

theorem Later.refl (state : Expanding) : Later state state :=
  ⟨Dag.Extends.refl _, fun _ _ found => found, fun _ _ found => found⟩

theorem Later.trans {a b c : Expanding} (first : Later a b) (second : Later b c) : Later a c where
  dag := first.dag.trans second.dag
  images ref image found := second.images ref image (first.images ref image found)
  windows key window found := second.windows key window (first.windows key window found)

structure ReadsImages (work : Workload) (state : Expanding) (ref : NodeRef) (reads : List NodeRef) :
    Prop where
  origin : ∀ read ∈ reads,
    (∃ child ∈ work.dag.children ref, ¬ReadsChain work.dag ref child ∧
      state.expandedNodeOf child = some read) ∨
    ∃ chain index, ReadsChain work.dag ref chain ∧ index < windowsRead work.dag ref chain ∧
      state.tumblingWindowOf (chain, index) = some read
  covers : ∀ child ∈ work.dag.children ref, ¬ReadsChain work.dag ref child →
    ∃ read ∈ reads, state.expandedNodeOf child = some read
  windows : ∀ chain, ReadsChain work.dag ref chain → ∀ index < windowsRead work.dag ref chain,
    ∃ read ∈ reads, state.tumblingWindowOf (chain, index) = some read

structure ImageOk (work : Workload) (state : Expanding) (ref image : NodeRef) : Prop where
  visited : Visited work ref
  inside : image < state.dag.size
  plain : isChain (state.dag.node image) = false
  reads : ReadsImages work state ref (state.dag.children image)

structure WindowOk (work : Workload) (state : Expanding) (chain : NodeRef) (index : Nat)
    (window : NodeRef) : Prop where
  read : ∃ merge, Visited work merge ∧ ReadsChain work.dag merge chain ∧
    index < windowsRead work.dag merge chain
  inside : window < state.dag.size
  chains : HasChain state.dag window ↔ HoldsChain work.dag chain
  build : ∃ fields, chainFields (work.dag.node chain) = some fields ∧
    BuildOf fields (state.dag.node window)

structure ExpandingOk (work : Workload) (state : Expanding) : Prop where
  grown : state.dag.Extends work.dag
  image : ∀ ref image, state.expandedNodeOf ref = some image → ImageOk work state ref image
  window : ∀ chain index window, state.tumblingWindowOf (chain, index) = some window →
    WindowOk work state chain index window
  chains : ∀ chain, chain ∈ state.chains ↔ ∃ window, state.tumblingWindowOf (chain, 0) = some window
  recorded : ∀ ref image, state.expandedNodeOf ref = some image → (ref, image) ∈ state.expanded

section Kept
variable {work : Workload} {state state' : Expanding} {ref image chain window : NodeRef} {index : Nat}

theorem ReadsImages.grow {reads : List NodeRef} (here : ReadsImages work state ref reads)
    (grown : Later state state') : ReadsImages work state' ref reads where
  origin read member := by
    rcases here.origin read member with ⟨child, below, apart, found⟩ | ⟨chain, index, own, small, found⟩
    · exact .inl ⟨child, below, apart, grown.images child read found⟩
    · exact .inr ⟨chain, index, own, small, grown.windows _ read found⟩
  covers child below apart := by
    obtain ⟨read, member, found⟩ := here.covers child below apart
    exact ⟨read, member, grown.images child read found⟩
  windows chain own index small := by
    obtain ⟨read, member, found⟩ := here.windows chain own index small
    exact ⟨read, member, grown.windows _ read found⟩

theorem ImageOk.grow (here : ImageOk work state ref image) (grown : Later state state') :
    ImageOk work state' ref image := by
  have same := grown.dag.node here.inside
  have children : state'.dag.children image = state.dag.children image := by
    unfold Dag.children
    rw [same]
  exact {
    visited := here.visited
    inside := Nat.lt_of_lt_of_le here.inside grown.dag.size_le
    plain := same ▸ here.plain
    reads := children ▸ here.reads.grow grown }

theorem WindowOk.grow (here : WindowOk work state chain index window) (grown : Later state state') :
    WindowOk work state' chain index window where
  read := here.read
  inside := Nat.lt_of_lt_of_le here.inside grown.dag.size_le
  chains := (hasChain_grown grown.dag here.inside).trans here.chains
  build := (grown.dag.node here.inside).symm ▸ here.build

theorem ReadsChain.inside {merge : NodeRef} (visited : Visited work merge)
    (reads : ReadsChain work.dag merge chain) : chain < work.dag.size :=
  Nat.lt_trans (work.dag.child_lt reads.2.1) visited.inside

theorem start_ok : ExpandingOk work {
    dag := work.dag, expandedNodeOf := Cache.empty, tumblingWindowOf := Cache.empty, chains := []
    expanded := [] } where
  grown := Dag.Extends.refl _
  image ref image found := by cases found
  window chain index window found := by cases found
  chains chain := ⟨fun listed => (List.not_mem_nil listed).elim, fun ⟨_, found⟩ => by cases found⟩
  recorded ref image found := by cases found

theorem windowAt_ok {text : LeafText} (kept : ExpandingOk work state)
    (read : ∃ merge, Visited work merge ∧ ReadsChain work.dag merge chain ∧
      index < windowsRead work.dag merge chain)
    (run : windowAt text chain index state = .ok (window, state')) :
    ExpandingOk work state' ∧ Later state state' ∧
      state'.expandedNodeOf = state.expandedNodeOf ∧
      state'.tumblingWindowOf (chain, index) = some window := by
  unfold windowAt at run
  obtain ⟨_, _, get, run⟩ := bind_ok run
  cases get
  cases cached : state.tumblingWindowOf (chain, index) with
  | some done =>
    rw [cached] at run
    obtain ⟨same, same'⟩ := pure_ok run
    rw [← same, ← same']
    exact ⟨kept, Later.refl state, rfl, cached⟩
  | none =>
    rw [cached] at run
    obtain ⟨made, built, makes, run⟩ := bind_ok run
    obtain ⟨_, stored, stores, run⟩ := bind_ok run
    cases stores
    obtain ⟨same, same'⟩ := pure_ok run
    obtain ⟨merge, visited, reads, small⟩ := read
    have inside : chain < work.dag.size := reads.inside visited
    have node := kept.grown.node inside
    obtain ⟨fields, isChain'⟩ := Option.isSome_iff_exists.mp reads.2.2
    obtain ⟨grown, only, here, chains, build⟩ := makeWindow_ok (node ▸ isChain')
      (Nat.lt_of_lt_of_le inside kept.grown.size_le) makes
    rw [holdsChain_grown kept.grown inside] at chains
    rw [← same, ← same'] at *
    rw [only] at *
    have later : Later state { state with
        dag := built.dag
        chains := if index = 0 then state.chains ++ [chain] else state.chains
        tumblingWindowOf := state.tumblingWindowOf.insert (chain, index) made } := by
      refine ⟨grown, fun _ _ found => found, fun key other found => ?_⟩
      have different : key ≠ (chain, index) := fun equal => by
        rw [equal, cached] at found
        cases found
      exact (if_neg different).trans found
    refine ⟨?_, later, rfl, if_pos rfl⟩
    refine {
      grown := kept.grown.trans grown
      image := fun ref image found => (kept.image ref image found).grow later
      window := ?_
      chains := ?_
      recorded := kept.recorded }
    · intro other position window' found
      by_cases new : (other, position) = (chain, index)
      · obtain ⟨rfl, rfl⟩ := Prod.mk.inj new
        cases (if_pos rfl).symm.trans found
        exact ⟨⟨merge, visited, reads, small⟩, here, chains, fields, isChain', build⟩
      · exact (kept.window other position window' ((if_neg new).symm.trans found)).grow later
    · intro other
      change other ∈ (if index = 0 then state.chains ++ [chain] else state.chains) ↔
        ∃ window, (state.tumblingWindowOf.insert (chain, index) made) (other, 0) = some window
      unfold Cache.insert
      by_cases first : index = 0
      · rw [if_pos first, List.mem_append, List.mem_singleton, kept.chains, first]
        by_cases new : other = chain
        · simp [new]
        · simp [new]
      · have apart : (other, 0) ≠ (chain, index) := fun equal => first (Prod.mk.inj equal).2.symm
        rw [if_neg first, if_neg apart]
        exact kept.chains other

theorem keepImage_ok (kept : ExpandingOk work state) (fresh : state.expandedNodeOf ref = none)
    (here : ImageOk work state ref image) {kept' : NodeRef}
    (run : keepImage ref image state = .ok (kept', state')) :
    ExpandingOk work state' ∧ Later state state' ∧
      (∀ other, ref < other → state'.expandedNodeOf other = state.expandedNodeOf other) ∧
      state'.expandedNodeOf ref = some kept' := by
  cases run
  have later : Later state { state with
      expandedNodeOf := state.expandedNodeOf.insert ref image
      expanded := state.expanded ++ [(ref, image)] } := by
    refine ⟨Dag.Extends.refl _, fun other found' found => ?_, fun _ _ found => found⟩
    have different : other ≠ ref := fun equal => by
      rw [equal, fresh] at found
      cases found
    exact (if_neg different).trans found
  refine ⟨?_, later, fun other above => if_neg (Nat.ne_of_gt above), if_pos rfl⟩
  refine {
    grown := kept.grown
    image := ?_
    window := fun chain index window found => (kept.window chain index window found).grow later
    chains := kept.chains
    recorded := ?_ }
  · intro other found' found
    by_cases new : other = ref
    · subst new
      cases (if_pos rfl).symm.trans found
      exact here.grow later
    · exact (kept.image other found' ((if_neg new).symm.trans found)).grow later
  · intro other found' found
    by_cases new : other = ref
    · subst new
      cases (if_pos rfl).symm.trans found
      exact List.mem_append_right _ List.mem_cons_self
    · exact List.mem_append_left _ (kept.recorded other found' ((if_neg new).symm.trans found))

theorem alloc_ok {node : OperatorNode} (kept : ExpandingOk work state)
    (fresh : state.expandedNodeOf ref = none) (visited : Visited work ref)
    (plain : isChain node = false) (held : ∀ held ∈ node.operator.held.toList, held < state.dag.size)
    (reads : ReadsImages work state ref node.children)
    (run : (do
      let image ← Expanding.alloc node
      keepImage ref image) state = .ok (image, state')) :
    ExpandingOk work state' ∧ Later state state' ∧
      (∀ other, ref < other → state'.expandedNodeOf other = state.expandedNodeOf other) ∧
      state'.expandedNodeOf ref = some image := by
  obtain ⟨made, stored, allocs, keeps⟩ := bind_ok run
  cases allocs
  have earlier : ∀ held ∈ node.refs, held < state.dag.size := by
    intro other holds
    rcases List.mem_append.mp holds with read | kept'
    · rcases reads.origin other read with ⟨child, _, _, found⟩ | ⟨chain, index, _, _, found⟩
      · exact (kept.image child other found).inside
      · exact (kept.window chain index other found).inside
    · exact held other kept'
  have later : Later state { state with dag := (state.dag.alloc node).2 } :=
    ⟨Dag.alloc_extends state.dag node, fun _ _ found => found, fun _ _ found => found⟩
  have made := Dag.alloc_node earlier
  have size := Dag.alloc_size earlier
  have first := Dag.alloc_ref state.dag node
  have kept' : ExpandingOk work { state with dag := (state.dag.alloc node).2 } := {
    grown := kept.grown.trans later.dag
    image := fun ref image found => (kept.image ref image found).grow later
    window := fun chain index window found => (kept.window chain index window found).grow later
    chains := kept.chains
    recorded := kept.recorded }
  have here : ImageOk work { state with dag := (state.dag.alloc node).2 } ref
      (state.dag.alloc node).1 := by
    rw [first]
    have children : (state.dag.alloc node).2.children state.dag.size = node.children :=
      congrArg OperatorNode.children made
    exact {
      visited
      inside := size ▸ Nat.lt_succ_self _
      plain := (congrArg isChain made).trans plain
      reads := children ▸ reads.grow later }
  obtain ⟨done, later', frame, found⟩ := keepImage_ok kept' fresh here keeps
  exact ⟨done, later.trans later', frame, found⟩

end Kept

/-! ### Expanding a node -/

section Expand
variable {work : Workload} {text : LeafText} {capability : SketchAlgorithm → Option SketchMergeRule}
  {state state' : Expanding} {ref image : NodeRef}

/-- From every state, expanding a visited node caches its image and leaves later nodes alone. -/
def ExpandsOk (work : Workload) (text : LeafText)
    (capability : SketchAlgorithm → Option SketchMergeRule) (ref : NodeRef) : Prop :=
  ∀ state state' image, ExpandingOk work state → Visited work ref →
    expand text capability ref state = .ok (image, state') →
    ExpandingOk work state' ∧ Later state state' ∧
      (∀ other, ref < other → state'.expandedNodeOf other = state.expandedNodeOf other) ∧
      state'.expandedNodeOf ref = some image

/-- What a run over the children keeps: the invariant, and what is cached from `ref` on. -/
def Below (work : Workload) (state : Expanding) (ref : NodeRef) (later : Expanding) : Prop :=
  ExpandingOk work later ∧ ∀ other, ref ≤ other → later.expandedNodeOf other = state.expandedNodeOf other

theorem imageOf_found {cache : Cache NodeRef NodeRef} {children images : List NodeRef}
    (cached : List.Forall₂ (fun child image => cache child = some image) children images) :
    ∀ child ∈ children,
      cache child = some (((children.zip images).find? (·.1 == child)).elim child (·.2)) := by
  induction cached with
  | nil =>
    intro child member
    cases member
  | @cons first image rest images here _ ih =>
    intro child member
    rw [List.zip_cons_cons, List.find?_cons]
    by_cases same : first = child
    · simp [← same, here]
    · have later : child ∈ rest := (List.mem_cons.mp member).resolve_left (Ne.symm same)
      have different : (first == child) = false := by simp [same]
      rw [different]
      exact ih child later

theorem children_ok (below : ∀ child ∈ work.dag.children ref, ExpandsOk work text capability child)
    (visits : ∀ child ∈ work.dag.children ref, Visited work child) (kept : ExpandingOk work state)
    {images : List NodeRef}
    (run : (work.dag.children ref).attach.mapM (fun child => expand text capability child.1) state =
      .ok (images, state')) :
    Below work state ref state' ∧ Later state state' ∧
      List.Forall₂ (fun child image => state'.expandedNodeOf child = some image)
        (work.dag.children ref) images := by
  have each : ∀ child ∈ (work.dag.children ref).attach, ∀ image t t', Below work state ref t →
      expand text capability child.1 t = .ok (image, t') →
      Below work state ref t' ∧ Later t t' ∧ t'.expandedNodeOf child.1 = some image := by
    intro child _ image t t' ⟨kept, frame⟩ run
    obtain ⟨kept', later, frame', found⟩ := below child.1 child.2 t t' image kept
      (visits child.1 child.2) run
    refine ⟨⟨kept', fun other above => ?_⟩, later, found⟩
    rw [frame' other (Nat.lt_of_lt_of_le (work.dag.child_lt child.2) above), frame other above]
  have trans : ∀ a b c : Expanding, Later a b → Later b c → Later a c :=
    fun _ _ _ first second => first.trans second
  have stable : ∀ (child : { child // child ∈ work.dag.children ref }) (image : NodeRef)
      (t t' : Expanding), t.expandedNodeOf child.1 = some image → Later t t' →
      t'.expandedNodeOf child.1 = some image := fun _ _ _ _ found later => later.images _ _ found
  obtain ⟨kept', later, cached⟩ := @mapM_ok _ _ _ _ (Below work state ref) Later _ _ Later.refl trans
    stable _ _ _ _ each ⟨kept, fun _ _ => rfl⟩ run
  refine ⟨kept', later, ?_⟩
  rw [← List.attach_map_subtype_val (work.dag.children ref), List.forall₂_map_left_iff]
  exact cached

theorem reads_of_cached (plain : ∀ child, ¬ReadsChain work.dag ref child) {reads : List NodeRef}
    (cached : List.Forall₂ (fun child image => state.expandedNodeOf child = some image)
      (work.dag.children ref) reads) : ReadsImages work state ref reads where
  origin read member := by
    obtain ⟨child, below, found⟩ := mem_of_forall₂ cached.flip read member
    exact .inl ⟨child, below, plain child, found⟩
  covers child below _ := mem_of_forall₂ cached child below
  windows chain own := (plain chain own).elim

theorem expandPlain_ok (fresh : state.expandedNodeOf ref = none) (kept : ExpandingOk work state)
    (visited : Visited work ref) (notChain : isChain (work.dag.node ref) = false)
    (notMerge : isMerge (work.dag.node ref) = false)
    (below : ∀ child ∈ work.dag.children ref, ExpandsOk work text capability child)
    (run : (do
      let images ← (work.dag.children ref).attach.mapM fun child => expand text capability child.1
      let imageOf child := (((work.dag.children ref).zip images).find? (·.1 == child)).elim child (·.2)
      if images = work.dag.children ref then keepImage ref ref
      else
        let dag := (← get).dag
        let image ← Expanding.alloc { dag.withSchema ((work.dag.node ref).operator.mapChildren imageOf)
          (work.dag.node ref).schema with
          guarantee := (work.dag.node ref).guarantee
          timing := (work.dag.node ref).timing
          materialization := (work.dag.node ref).materialization }
        keepImage ref image : Expansion NodeRef) state = .ok (image, state')) :
    ExpandingOk work state' ∧ Later state state' ∧
      (∀ other, ref < other → state'.expandedNodeOf other = state.expandedNodeOf other) ∧
      state'.expandedNodeOf ref = some image := by
  have plain : ∀ child, ¬ReadsChain work.dag ref child := by
    rintro child ⟨merge, _⟩
    rw [notMerge] at merge
    cases merge
  obtain ⟨images, mid, first, run⟩ := bind_ok run
  obtain ⟨⟨keptMid, frame⟩, later, cached⟩ :=
    children_ok below (fun child reads => visited.child reads (plain child)) kept first
  have freshMid : mid.expandedNodeOf ref = none := (frame ref (Nat.le_refl ref)).trans fresh
  dsimp only at run
  split at run
  · rename_i unchanged
    subst unchanged
    have node := keptMid.grown.node visited.inside
    have here : ImageOk work mid ref ref := {
      visited
      inside := Nat.lt_of_lt_of_le visited.inside keptMid.grown.size_le
      plain := node ▸ notChain
      reads := by
        unfold Dag.children
        rw [node]
        exact reads_of_cached plain cached }
    obtain ⟨done, later', frame', found⟩ := keepImage_ok keptMid freshMid here run
    exact ⟨done, later.trans later', fun other above =>
      (frame' other above).trans (frame other (Nat.le_of_lt above)), found⟩
  · obtain ⟨_, _, get, run⟩ := bind_ok run
    cases get
    obtain ⟨done, later', frame', found⟩ := alloc_ok keptMid freshMid visited
      ((isChain_build _ _ rfl rfl).trans notChain) (by
        intro held holds
        change held ∈ ((work.dag.node ref).operator.mapChildren _).held.toList at holds
        rw [Operator.held_mapChildren] at holds
        have before := work.dag.held_lt (Option.mem_toList.mp holds)
        exact Nat.lt_of_lt_of_le (Nat.lt_trans before visited.inside) keptMid.grown.size_le) (by
        change ReadsImages work mid ref ((work.dag.node ref).operator.mapChildren _).children
        rw [Operator.children_mapChildren]
        exact reads_of_cached plain (List.forall₂_map_right_iff.mpr
          (List.forall₂_same.mpr (imageOf_found cached)))) run
    exact ⟨done, later.trans later', fun other above =>
      (frame' other above).trans (frame other (Nat.le_of_lt above)), found⟩

theorem newMerge_ok {children : List NodeRef} {groupBy : Option (List ColumnId)} {node : OperatorNode}
    (run : newMerge text capability children groupBy state = .ok (node, state')) :
    state = state' ∧ node.operator = .asap (.summaryMerge children none groupBy) := by
  unfold newMerge at run
  split at run
  · cases run
  · dsimp only at run
    split at run
    · cases run
      exact ⟨rfl, rfl⟩
    · cases run
    · cases run

/-- What a merge reads in place of a child: the child's windows, or its image. -/
def Replaces (work : Workload) (ref child : NodeRef) (inputs : List NodeRef) (state : Expanding) :
    Prop :=
  (ReadsChain work.dag ref child →
    List.Forall₂ (fun index window => state.tumblingWindowOf (child, index) = some window)
      (List.range (windowsRead work.dag ref child)) inputs) ∧
  (¬ReadsChain work.dag ref child → ∃ image, inputs = [image] ∧ state.expandedNodeOf child = some image)

theorem Replaces.grow {child : NodeRef} {inputs : List NodeRef}
    (here : Replaces work ref child inputs state) (later : Later state state') :
    Replaces work ref child inputs state' := by
  constructor
  · intro own
    exact (here.1 own).imp fun _ _ found => later.windows _ _ found
  · intro apart
    obtain ⟨image, single, found⟩ := here.2 apart
    exact ⟨image, single, later.images _ _ found⟩

theorem mergeInput_ok {newest : Option Nat} {child : NodeRef} {inputs : List NodeRef}
    {start : Expanding} (merge : isMerge (work.dag.node ref) = true)
    (count : ∀ fields, chainFields (work.dag.node child) = some fields →
      newest.getD fields.count = windowsRead work.dag ref child)
    (visited : Visited work ref) (reads : child ∈ work.dag.children ref)
    (below : ExpandsOk work text capability child) (kept : Below work start ref state)
    (run : (match chainFields (work.dag.node child) with
      | some fields => (List.range (newest.getD fields.count)).mapM (windowAt text child)
      | none => do
        let image ← expand text capability child
        pure [image] : Expansion (List NodeRef)) state = .ok (inputs, state')) :
    Below work start ref state' ∧ Later state state' ∧ Replaces work ref child inputs state' := by
  cases fields : chainFields (work.dag.node child) with
  | some fields' =>
    have readsChain : ReadsChain work.dag ref child := ⟨merge, reads, Option.isSome_iff_exists.mpr ⟨_, fields⟩⟩
    rw [fields] at run
    dsimp only at run
    rw [count fields' fields] at run
    have each : ∀ index ∈ List.range (windowsRead work.dag ref child), ∀ window t t',
        Below work start ref t → windowAt text child index t = .ok (window, t') →
        Below work start ref t' ∧ Later t t' ∧ t'.tumblingWindowOf (child, index) = some window := by
      intro index member window t t' ⟨kept, frame⟩ run
      obtain ⟨kept', later, same, found⟩ :=
        windowAt_ok kept ⟨ref, visited, readsChain, List.mem_range.mp member⟩ run
      exact ⟨⟨kept', fun other above => same ▸ frame other above⟩, later, found⟩
    have trans : ∀ a b c : Expanding, Later a b → Later b c → Later a c :=
      fun _ _ _ first second => first.trans second
    have stable : ∀ (index : Nat) (window : NodeRef) (t t' : Expanding),
        t.tumblingWindowOf (child, index) = some window → Later t t' →
        t'.tumblingWindowOf (child, index) = some window :=
      fun _ _ _ _ found later => later.windows _ _ found
    obtain ⟨kept', later, cached⟩ := @mapM_ok _ _ _ _ (Below work start ref) Later _ _ Later.refl
      trans stable _ _ _ _ each kept run
    exact ⟨kept', later, fun _ => cached, fun apart => (apart readsChain).elim⟩
  | none =>
    have apart : ¬ReadsChain work.dag ref child := by
      rintro ⟨_, _, chain⟩
      unfold isChain at chain
      rw [fields] at chain
      cases chain
    rw [fields] at run
    obtain ⟨image, mid, expands, run⟩ := bind_ok run
    obtain ⟨same, same'⟩ := pure_ok run
    obtain ⟨kept', later, frame, found⟩ :=
      below state mid image kept.1 (visited.child reads apart) expands
    rw [← same, ← same']
    refine ⟨⟨kept', fun other above => ?_⟩, later, fun own => (apart own).elim, fun _ => ⟨image, rfl, found⟩⟩
    rw [frame other (Nat.lt_of_lt_of_le (work.dag.child_lt reads) above), kept.2 other above]

theorem reads_of_replaced {inputs : List (List NodeRef)}
    (replaced : List.Forall₂ (fun child inputs => Replaces work ref child inputs state)
      (work.dag.children ref) inputs) : ReadsImages work state ref inputs.flatten where
  origin read member := by
    obtain ⟨group, present, inside⟩ := List.mem_flatten.mp member
    obtain ⟨child, below, windows, image⟩ := mem_of_forall₂ replaced.flip group present
    by_cases own : ReadsChain work.dag ref child
    · obtain ⟨index, small, found⟩ := mem_of_forall₂ (windows own).flip read inside
      exact .inr ⟨child, index, own, List.mem_range.mp small, found⟩
    · obtain ⟨only, single, found⟩ := image own
      rw [single, List.mem_singleton] at inside
      exact .inl ⟨child, below, own, inside ▸ found⟩
  covers child below apart := by
    obtain ⟨group, present, _, image⟩ := mem_of_forall₂ replaced child below
    obtain ⟨only, single, found⟩ := image apart
    exact ⟨only, List.mem_flatten.mpr ⟨group, present, single ▸ List.mem_cons_self⟩, found⟩
  windows chain own index small := by
    obtain ⟨group, present, windows, _⟩ := mem_of_forall₂ replaced chain own.2.1
    obtain ⟨window, inside, found⟩ := mem_of_forall₂ (windows own) index (List.mem_range.mpr small)
    exact ⟨window, List.mem_flatten.mpr ⟨group, present, inside⟩, found⟩

theorem expandMerge_ok {children : List NodeRef} {newest : Option Nat} {groupBy : Option (List ColumnId)}
    (fresh : state.expandedNodeOf ref = none) (kept : ExpandingOk work state) (visited : Visited work ref)
    (shape : (work.dag.node ref).asap = some (.summaryMerge children newest groupBy))
    (below : ∀ child ∈ work.dag.children ref, ExpandsOk work text capability child)
    (run : (do
      let inputs ← (work.dag.children ref).attach.mapM fun child =>
        match chainFields (state.dag.node child.1) with
        | some fields => (List.range (newest.getD fields.count)).mapM (windowAt text child.1)
        | none => do
          let image ← expand text capability child.1
          pure [image]
      let merge ← newMerge text capability inputs.flatten groupBy
      let dag := (← get).dag
      let image ← Expanding.alloc { dag.withSchema merge.operator (work.dag.node ref).schema with
        guarantee := (work.dag.node ref).guarantee
        timing := (work.dag.node ref).timing
        materialization := (work.dag.node ref).materialization }
      keepImage ref image : Expansion NodeRef) state = .ok (image, state')) :
    ExpandingOk work state' ∧ Later state state' ∧
      (∀ other, ref < other → state'.expandedNodeOf other = state.expandedNodeOf other) ∧
      state'.expandedNodeOf ref = some image := by
  have merge : isMerge (work.dag.node ref) = true := by
    unfold isMerge
    rw [shape]
  obtain ⟨inputs, mid, first, run⟩ := bind_ok run
  have each : ∀ child ∈ (work.dag.children ref).attach, ∀ inputs t t', Below work state ref t →
      (match chainFields (state.dag.node child.1) with
        | some fields => (List.range (newest.getD fields.count)).mapM (windowAt text child.1)
        | none => do
          let image ← expand text capability child.1
          pure [image] : Expansion (List NodeRef)) t = .ok (inputs, t') →
      Below work state ref t' ∧ Later t t' ∧ Replaces work ref child.1 inputs t' := by
    intro child _ inputs t t' kept' run
    rw [kept.grown.node (Nat.lt_trans (work.dag.child_lt child.2) visited.inside)] at run
    refine mergeInput_ok merge ?_ visited child.2 (below child.1 child.2) kept' run
    intro fields found
    unfold windowsRead chainCount
    rw [shape, found]
    rfl
  have trans : ∀ a b c : Expanding, Later a b → Later b c → Later a c :=
    fun _ _ _ first second => first.trans second
  have stable : ∀ (child : { child // child ∈ work.dag.children ref }) (inputs : List NodeRef)
      (t t' : Expanding), Replaces work ref child.1 inputs t → Later t t' →
      Replaces work ref child.1 inputs t' := fun _ _ _ _ here later => here.grow later
  obtain ⟨⟨keptMid, frame⟩, later, replaced⟩ := @mapM_ok _ _ _ _ (Below work state ref) Later _ _
    Later.refl trans stable _ _ _ _ each ⟨kept, fun _ _ => rfl⟩ first
  have reads : ReadsImages work mid ref inputs.flatten := by
    apply reads_of_replaced
    rw [← List.attach_map_subtype_val (work.dag.children ref), List.forall₂_map_left_iff]
    exact replaced
  obtain ⟨made, mid', makes, run⟩ := bind_ok run
  obtain ⟨unchanged, operator⟩ := newMerge_ok makes
  subst unchanged
  obtain ⟨_, _, get, run⟩ := bind_ok run
  cases get
  have plain : isChain (mid.dag.withSchema made.operator (work.dag.node ref).schema) = false := by
    rw [operator]
    rfl
  have held : ∀ held ∈ made.operator.held.toList, held < mid.dag.size := by
    rw [operator]
    intro held holds
    cases holds
  have reads' : ReadsImages work mid ref made.operator.children := by
    rw [operator]
    exact reads
  have stored := fun plain held reads => alloc_ok keptMid
    ((frame ref (Nat.le_refl ref)).trans fresh) visited plain held reads run
  obtain ⟨done, later', frame', found⟩ := stored plain held reads'
  exact ⟨done, later.trans later', fun other above =>
    (frame' other above).trans (frame other (Nat.le_of_lt above)), found⟩

theorem expand_ok (ref : NodeRef) : ExpandsOk work text capability ref := by
  induction ref using Nat.strongRecOn with
  | ind ref ih =>
    intro state state' image kept visited run
    have node := kept.grown.node visited.inside
    have below : ∀ child ∈ work.dag.children ref, ExpandsOk work text capability child :=
      fun child reads => ih child (work.dag.child_lt reads)
    rw [expand] at run
    obtain ⟨_, _, get, run⟩ := bind_ok run
    cases get
    cases cached : state.expandedNodeOf ref with
    | some done =>
      rw [cached] at run
      obtain ⟨same, same'⟩ := pure_ok run
      rw [← same, ← same']
      exact ⟨kept, Later.refl state, fun _ _ => rfl, cached⟩
    | none =>
      rw [cached] at run
      dsimp only at run
      have children : state.dag.children ref = work.dag.children ref := congrArg OperatorNode.children node
      rw [node, children] at run
      cases shape : (work.dag.node ref).asap with
      | none =>
        rw [shape] at run
        exact expandPlain_ok cached kept visited (by unfold isChain chainFields; rw [shape]; rfl)
          (by unfold isMerge; rw [shape]) below run
      | some op =>
        rw [shape] at run
        cases op with
        | summaryTumblingWindowChain =>
          cases (lift_ok run).1
        | summaryMerge _ newest groupBy => exact expandMerge_ok cached kept visited shape below run
        | _ =>
          exact expandPlain_ok cached kept visited (by unfold isChain chainFields; rw [shape]; rfl)
            (by unfold isMerge; rw [shape]) below run

/-- The images of a root's references are its image's references. -/
structure RootOk (state : Expanding) (root image : QueryRoot) : Prop where
  covers : ∀ ref ∈ rootRefs root, ∃ read ∈ rootRefs image, state.expandedNodeOf ref = some read
  origin : ∀ read ∈ rootRefs image, ∃ ref ∈ rootRefs root, state.expandedNodeOf ref = some read

theorem RootOk.grow {root image : QueryRoot} (here : RootOk state root image)
    (later : Later state state') : RootOk state' root image where
  covers ref reads := by
    obtain ⟨read, member, found⟩ := here.covers ref reads
    exact ⟨read, member, later.images _ _ found⟩
  origin read reads := by
    obtain ⟨ref, member, found⟩ := here.origin read reads
    exact ⟨ref, member, later.images _ _ found⟩

theorem expandRoot_ok {root image : QueryRoot} (member : root ∈ work.roots)
    (kept : ExpandingOk work state) (run : expandRoot text capability root state = .ok (image, state')) :
    ExpandingOk work state' ∧ Later state state' ∧ RootOk state' root image := by
  cases root with
  | operator node =>
    obtain ⟨made, mid, expands, run⟩ := bind_ok run
    obtain ⟨same, same'⟩ := pure_ok run
    rw [← same, ← same']
    obtain ⟨kept', later, _, found⟩ :=
      expand_ok node state mid made kept (.root member List.mem_cons_self) expands
    refine ⟨kept', later, fun ref reads => ?_, fun read reads => ?_⟩
    · cases List.mem_singleton.mp reads
      exact ⟨made, List.mem_cons_self, found⟩
    · cases List.mem_singleton.mp reads
      exact ⟨node, List.mem_cons_self, found⟩
  | scalar expr =>
    obtain ⟨made, mid, expands, run⟩ := bind_ok run
    obtain ⟨same, same'⟩ := pure_ok run
    obtain ⟨images, mid', expands, built⟩ := bind_ok expands
    obtain ⟨same'', unchanged⟩ := pure_ok built
    rw [← same, ← same', ← same'', ← unchanged]
    have each : ∀ ref ∈ expr.walk.refs, ∀ image t t', ExpandingOk work t →
        expand text capability ref t = .ok (image, t') →
        ExpandingOk work t' ∧ Later t t' ∧ t'.expandedNodeOf ref = some image := by
      intro ref reads image t t' kept run
      have visited : Visited work ref := .root member ((ScalarExpr.mem_refs_walk expr).mp reads)
      obtain ⟨kept', later, _, found⟩ := expand_ok ref t t' image kept visited run
      exact ⟨kept', later, found⟩
    have trans : ∀ a b c : Expanding, Later a b → Later b c → Later a c :=
      fun _ _ _ first second => first.trans second
    have stable : ∀ (ref image : NodeRef) (t t' : Expanding), t.expandedNodeOf ref = some image →
        Later t t' → t'.expandedNodeOf ref = some image := fun _ _ _ _ found later => later.images _ _ found
    obtain ⟨kept', later, cached⟩ := @mapM_ok _ _ _ _ (ExpandingOk work) Later _ _ Later.refl trans
      stable _ _ _ _ each kept expands
    have finds := expr.finds_refs images cached.length_eq.symm
    refine ⟨kept', later, fun ref reads => ?_, fun read reads => ?_⟩
    · obtain ⟨read, present, found⟩ := mem_of_forall₂ cached ref ((ScalarExpr.mem_refs_walk expr).mpr reads)
      exact ⟨read, (finds read).mpr present, found⟩
    · obtain ⟨ref, present, found⟩ := mem_of_forall₂ cached.flip read ((finds read).mp reads)
      exact ⟨ref, (ScalarExpr.mem_refs_walk expr).mp present, found⟩

theorem expansion_ok {out : TumblingWindowChainExpansion}
    (run : expandTumblingWindowChainsInWorkload text capability work.dag work.roots = .ok out) :
    ∃ state, ExpandingOk work state ∧ List.Forall₂ (RootOk state) work.roots out.roots ∧
      out.dag = state.dag ∧ out.expandedNodes = state.expanded ∧
      out.chains = state.chains.map fun chain => {
        chain
        tumblingWindows := mapWhile (fun index => state.tumblingWindowOf (chain, index))
          (List.range (chainCount state.dag chain)) } := by
  obtain ⟨⟨roots, state⟩, expands, done⟩ := bind_eq_ok run
  cases done
  have trans : ∀ a b c : Expanding, Later a b → Later b c → Later a c :=
    fun _ _ _ first second => first.trans second
  have stable : ∀ (root image : QueryRoot) (t t' : Expanding), RootOk t root image → Later t t' →
      RootOk t' root image := fun _ _ _ _ here later => here.grow later
  obtain ⟨kept, _, images⟩ := @mapM_ok _ _ _ _ (ExpandingOk work) Later
    (fun root image t => RootOk t root image) _ Later.refl trans stable _ _ _ _
    (fun root member image t t' kept run => expandRoot_ok member kept run) start_ok expands
  exact ⟨state, kept, images, rfl, rfl, rfl⟩

end Expand

/-! ### Listed windows -/

section MapWhile
variable {α β : Type} {f : α → Option β}

theorem mem_mapWhile {items : List α} {value : β} (member : value ∈ mapWhile f items) :
    ∃ item ∈ items, f item = some value := by
  induction items with
  | nil => cases member
  | cons item rest ih =>
    unfold mapWhile at member
    cases found : f item with
    | none =>
      rw [found] at member
      cases member
    | some first =>
      rw [found] at member
      rcases List.mem_cons.mp member with same | later
      · exact ⟨item, List.mem_cons_self, same ▸ found⟩
      · obtain ⟨other, present, holds⟩ := ih later
        exact ⟨other, List.mem_cons_of_mem _ present, holds⟩

theorem length_mapWhile_le (items : List α) : (mapWhile f items).length ≤ items.length := by
  induction items with
  | nil => exact Nat.le_refl 0
  | cons item rest ih =>
    unfold mapWhile
    split
    · exact Nat.succ_le_succ ih
    · exact Nat.zero_le _

theorem mapWhile_append {front : List α} (each : ∀ item ∈ front, ∃ value, f item = some value) :
    ∃ values, List.Forall₂ (fun item value => f item = some value) front values ∧
      ∀ rest, mapWhile f (front ++ rest) = values ++ mapWhile f rest := by
  induction front with
  | nil => exact ⟨[], .nil, fun _ => rfl⟩
  | cons item front ih =>
    obtain ⟨value, found⟩ := each item List.mem_cons_self
    obtain ⟨values, cached, all⟩ := ih fun other member => each other (List.mem_cons_of_mem _ member)
    refine ⟨value :: values, .cons found cached, fun rest => ?_⟩
    rw [List.cons_append, mapWhile, found, all]
    rfl

end MapWhile

/-! ### What an expansion leaves and lists -/

section Result
variable {work : Workload} {text : LeafText} {capability : SketchAlgorithm → Option SketchMergeRule}
  {state : Expanding} {out : TumblingWindowChainExpansion} {ref image : NodeRef}

theorem noChain (kept : ExpandingOk work state)
    (apart : ∀ merge chain, Visited work merge → ReadsChain work.dag merge chain →
      0 < windowsRead work.dag merge chain → ¬HoldsChain work.dag chain)
    (found : state.expandedNodeOf ref = some image) : ¬HasChain state.dag image := by
  induction ref using Nat.strongRecOn generalizing image with
  | ind ref ih =>
    have here := kept.image ref image found
    rw [hasChain_of_not_chain here.plain]
    rintro ⟨read, member, holds⟩
    rcases here.reads.origin read member with ⟨child, below, _, cached⟩ | ⟨chain, index, own, small, cached⟩
    · exact ih child (work.dag.child_lt below) cached holds
    · have window := kept.window chain index read cached
      exact apart ref chain here.visited own (Nat.zero_lt_of_lt small) (window.chains.mp holds)

theorem visited_read (kept : ExpandingOk work state)
    (roots : List.Forall₂ (RootOk state) work.roots out.roots) (visited : Visited work ref) :
    ∃ image, state.expandedNodeOf ref = some image ∧ ReachedFrom state.dag out.roots image := by
  induction visited with
  | root member reads =>
    obtain ⟨image, present, here⟩ := mem_of_forall₂ roots _ member
    obtain ⟨read, inside, found⟩ := here.covers _ reads
    exact ⟨read, found, image, present, read, inside, .refl⟩
  | child _ reads apart ih =>
    obtain ⟨above, found, root, present, first, inside, path⟩ := ih
    obtain ⟨read, member, found'⟩ := (kept.image _ above found).reads.covers _ reads apart
    exact ⟨read, found', root, present, first, inside, path.tail member⟩

theorem chainCount_grown {dag later : Dag} (grown : later.Extends dag) {chain : NodeRef}
    (inside : chain < dag.size) : chainCount later chain = chainCount dag chain := by
  unfold chainCount
  rw [grown.node inside]

def listedWindows (work : Workload) (state : Expanding) (chain : NodeRef) : List NodeRef :=
  mapWhile (fun index => state.tumblingWindowOf (chain, index)) (List.range (chainCount work.dag chain))

theorem mem_listedWindows (kept : ExpandingOk work state) {chain window : NodeRef}
    (member : window ∈ listedWindows work state chain) : ∃ fields,
      chainFields (work.dag.node chain) = some fields ∧ BuildOf fields (state.dag.node window) := by
  obtain ⟨index, _, found⟩ := mem_mapWhile member
  exact (kept.window chain index window found).build

theorem listedWindows_take {merge chain : NodeRef} (here : ImageOk work state merge image)
    (reads : ReadsChain work.dag merge chain)
    (small : windowsRead work.dag merge chain ≤ chainCount work.dag chain) :
    windowsRead work.dag merge chain ≤ (listedWindows work state chain).length ∧
      ∀ window ∈ (listedWindows work state chain).take (windowsRead work.dag merge chain),
        window ∈ state.dag.children image := by
  obtain ⟨more, total⟩ := Nat.exists_eq_add_of_le small
  have each : ∀ index ∈ List.range (windowsRead work.dag merge chain),
      ∃ window, state.tumblingWindowOf (chain, index) = some window := by
    intro index member
    obtain ⟨window, _, found⟩ := here.reads.windows chain reads index (List.mem_range.mp member)
    exact ⟨window, found⟩
  obtain ⟨windows, cached, all⟩ := mapWhile_append each
  have length : windows.length = windowsRead work.dag merge chain :=
    cached.length_eq.symm.trans List.length_range
  have listed : ∃ rest, listedWindows work state chain = windows ++ rest := by
    unfold listedWindows
    rw [total, List.range_add]
    exact ⟨_, all _⟩
  obtain ⟨rest, listed⟩ := listed
  rw [listed, ← length, List.take_left' rfl]
  refine ⟨?_, fun window member => ?_⟩
  · rw [List.length_append]
    omega
  · obtain ⟨index, inside, found⟩ := mem_of_forall₂ cached.flip window member
    obtain ⟨read, member', found'⟩ := here.reads.windows chain reads index (List.mem_range.mp inside)
    cases found.symm.trans found'
    exact member'

theorem apart_of_unchained (run : expandTumblingWindowChainsInWorkload text capability work.dag
    work.roots = .ok out) (promise : Unchained work out) : ChainsApart work := by
  obtain ⟨state, kept, roots, dag, expanded, chains⟩ := expansion_ok run
  intro merge chain reads
  obtain ⟨entry, member, same, small, _⟩ := promise.listed merge chain reads
  rw [chains] at member
  obtain ⟨chain', listed, rfl⟩ := List.mem_map.mp member
  cases same
  obtain ⟨window, found⟩ := (kept.chains chain').mp listed
  have here := kept.window chain' 0 window found
  obtain ⟨other, visited, readsChain, some'⟩ := here.read
  have inside := readsChain.inside visited
  refine ⟨fun holds => ?_, ?_, other, ⟨visited.reached, readsChain⟩, some'⟩
  · obtain ⟨image, cached, root, present, first, held, path⟩ := visited_read kept roots visited
    obtain ⟨read, reads', found'⟩ := (kept.image other image cached).reads.windows chain' readsChain 0 some'
    cases found.symm.trans found'
    obtain ⟨last, below, isChain'⟩ := here.chains.mpr holds
    have reached : ReachedFrom out.dag out.roots last :=
      ⟨root, present, first, held, dag ▸ (path.tail reads').trans below⟩
    have none := promise.removed last reached
    rw [dag, isChain'] at none
    cases none
  · have bound := length_mapWhile_le (f := fun index => state.tumblingWindowOf (chain', index))
      (List.range (chainCount state.dag chain'))
    rw [List.length_range, chainCount_grown kept.grown inside] at bound
    rw [chainCount_grown kept.grown inside] at small
    exact Nat.le_trans small bound

theorem unchained_of_apart (run : expandTumblingWindowChainsInWorkload text capability work.dag
    work.roots = .ok out) (apart : ChainsApart work) : Unchained work out := by
  obtain ⟨state, kept, roots, dag, expanded, chains⟩ := expansion_ok run
  have entry : ∀ chain ∈ state.chains, ∃ entry ∈ out.chains, entry.chain = chain ∧
      entry.tumblingWindows = mapWhile (fun index => state.tumblingWindowOf (chain, index))
        (List.range (chainCount state.dag chain)) := by
    intro chain member
    rw [chains]
    exact ⟨_, List.mem_map_of_mem member, rfl, rfl⟩
  refine ⟨?_, ?_⟩
  · rintro ref ⟨root, present, first, held, path⟩
    obtain ⟨source, _, here⟩ := mem_of_forall₂ roots.flip root present
    obtain ⟨ref', _, found⟩ := here.origin first held
    by_contra chain
    rw [dag] at path chain
    apply noChain kept ?_ found ⟨ref, path, eq_true_of_ne_false chain⟩
    intro merge chain visited reads _
    exact (apart merge chain ⟨visited.reached, reads⟩).1
  · intro merge chain reads
    obtain ⟨_, small, other, readsOther, some'⟩ := apart merge chain reads
    have visited := apart.visited reads
    have visitedOther := apart.visited readsOther
    obtain ⟨image, cached, _⟩ := visited_read kept roots visited
    obtain ⟨imageOther, cachedOther, _⟩ := visited_read kept roots visitedOther
    obtain ⟨window, _, found⟩ := (kept.image other imageOther cachedOther).reads.windows chain
      readsOther.2 0 some'
    obtain ⟨listed, member, same, windows⟩ := entry chain ((kept.chains chain).mpr ⟨window, found⟩)
    rw [chainCount_grown kept.grown (reads.2.inside visited)] at windows
    obtain ⟨length, front⟩ := listedWindows_take (kept.image merge image cached) reads.2 small
    refine ⟨listed, member, same, windows ▸ length, ?_, image, expanded ▸ kept.recorded merge image cached, ?_⟩
    · intro window member
      rw [windows] at member
      rw [dag]
      exact mem_listedWindows kept member
    · intro window member
      rw [windows] at member
      rw [dag]
      exact front window member

/-- An expansion keeps its promise exactly when chains lie apart. -/
theorem expansion_unchained_iff (run : expandTumblingWindowChainsInWorkload text capability work.dag
    work.roots = .ok out) : Unchained work out ↔ ChainsApart work :=
  ⟨apart_of_unchained run, unchained_of_apart run⟩

end Result

/-! ### One chain, and a chain over another -/

section Examples

def columnText : LeafText := ⟨fun column => column, fun _ => "", fun _ => ""⟩

def sumFamily : FieldDataType := .exactAggregate .sum .sum

def sampleRows : Schema := {
  fields := [⟨"time", .plain .timestamp, false, none⟩, ⟨"value", .plain .float64, false, none⟩]
  timeIndex := some 0
  uniqueKeys := []
  closed := true }

def sumState : Schema := {
  fields := [⟨"state", sumFamily, false, none⟩], timeIndex := none, uniqueKeys := [], closed := true }

def sumValue : Schema := {
  fields := [⟨"value", .plain .float64, false, none⟩], timeIndex := none, uniqueKeys := [], closed := true }

def secondOf (child : NodeRef) : Operator NodeRef :=
  .asap (.summaryTumblingWindowChain child sumFamily ⟨none, .column .sampleValue, .unknownOrSigned⟩
    (.reduce .none) .perSubpopulationInstance none 1000 1)

def storeOf (operators : List (Operator NodeRef × Schema)) : Dag :=
  operators.foldl (fun dag made => (dag.alloc (dag.withSchema made.1 made.2)).2) (Dag.ofNodes [])

def oneChain : Workload where
  dag := storeOf [
    (.nonASAP (.scan (.timeSeries "requests") [] sampleRows), sampleRows),
    (secondOf 0, sumState),
    (.asap (.summaryMerge [1] none none), sumState)]
  roots := [.operator 2]
  inside := by decide +kernel

def nestedChains : Workload where
  dag := storeOf [
    (.nonASAP (.scan (.timeSeries "requests") [] sampleRows), sampleRows),
    (secondOf 0, sumState),
    (.asap (.summaryMerge [1] none none), sumState),
    (.asap (.finalizeExactAccumulator 2), sumValue),
    (secondOf 3, sumState),
    (.asap (.summaryMerge [4] none none), sumState)]
  roots := [.operator 5]
  inside := by decide +kernel

theorem nestedChains_left : ∃ out, expandTumblingWindowChainsInWorkload columnText (fun _ => none)
    nestedChains.dag nestedChains.roots = .ok out ∧ ¬Unchained nestedChains out := by
  obtain ⟨out, run⟩ := exists_ok (show (expandTumblingWindowChainsInWorkload columnText (fun _ => none)
    nestedChains.dag nestedChains.roots).isOk = true by decide +kernel)
  have outer : 4 ∈ nestedChains.dag.children 5 := by decide +kernel
  have chains : isChain (nestedChains.dag.node 4) = true ∧ isChain (nestedChains.dag.node 1) = true := by
    decide +kernel
  have reads : Reads nestedChains 5 4 :=
    ⟨⟨_, List.mem_cons_self, 5, List.mem_cons_self, .refl⟩, by decide +kernel, outer, chains.1⟩
  have second : 3 ∈ nestedChains.dag.children 4 := by decide +kernel
  have third : 2 ∈ nestedChains.dag.children 3 := by decide +kernel
  have fourth : 1 ∈ nestedChains.dag.children 2 := by decide +kernel
  have holds : HoldsChain nestedChains.dag 4 :=
    ⟨3, second, 1, ReflTransGen.head third (.single fourth), chains.2⟩
  exact ⟨out, run, fun promise => (apart_of_unchained run promise 5 4 reads).1 holds⟩

theorem oneChain_apart : ChainsApart oneChain := by
  rintro merge chain ⟨reached, isMerge', member, isChain'⟩
  have top : merge ≤ 2 := by
    obtain ⟨root, present, first, held, path⟩ := reached
    cases List.mem_singleton.mp present
    cases List.mem_singleton.mp held
    exact path.le
  have plain : ∀ ref, ref < 2 → isMerge (oneChain.dag.node ref) = false := by decide +kernel
  have same : merge = 2 := by
    by_contra different
    rw [plain merge (Nat.lt_of_le_of_ne top different)] at isMerge'
    cases isMerge'
  subst same
  have below : oneChain.dag.children 2 = [1] ∧ oneChain.dag.children 1 = [0] := by decide +kernel
  have reads : ReadsChain oneChain.dag 2 chain := ⟨isMerge', member, isChain'⟩
  rw [below.1] at member
  cases List.mem_singleton.mp member
  refine ⟨?_, by decide +kernel, 2, ⟨reached, reads⟩, by decide +kernel⟩
  rintro ⟨child, under, last, path, chain⟩
  rw [below.2] at under
  cases List.mem_singleton.mp under
  cases Nat.le_zero.mp path.le
  have scan : isChain (oneChain.dag.node 0) = false := by decide +kernel
  rw [scan] at chain
  cases chain

theorem oneChain_unchained : ∃ out, expandTumblingWindowChainsInWorkload columnText (fun _ => none)
    oneChain.dag oneChain.roots = .ok out ∧ Unchained oneChain out := by
  obtain ⟨out, run⟩ := exists_ok (show (expandTumblingWindowChainsInWorkload columnText (fun _ => none)
    oneChain.dag oneChain.roots).isOk = true by decide +kernel)
  exact ⟨out, run, (expansion_unchained_iff run).mpr oneChain_apart⟩

end Examples

end AsapPlanner.Construction
