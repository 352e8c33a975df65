import AsapPlanner.Sharing.Alike

/-!
What sharing keeps: every root's value, and one node for each class of equal nodes that may be one.
-/

namespace AsapPlanner.Sharing
open Rust Ir Traversal

variable {H : Type} {hasher : Hasher H}

/-! ### The table -/

section Table
variable {input : Dag} {table later : InternTable H} {ref interned bound : NodeRef}

def Listed (hasher : Hasher H) (table : InternTable H)
    (ref : NodeRef) : Prop := ref ∈ table.buckets (structuralHash hasher table.dag ref)

/-- Every output category is the one its operator derives. -/
def KindsDerived (input : Dag) : Prop :=
  ∀ ref, (input.node ref).resultKind = input.outputKind (input.node ref).operator

structure Image (hasher : Hasher H) (input : Dag)
    (table : InternTable H) (ref interned : NodeRef) : Prop where
  listed : Listed hasher table interned
  data : SameData hasher table.dag (table.dag.node interned) (input.node ref)
  children : List.Forall₂ (fun child original => ∃ image, table.visited original = some image ∧
    Near hasher table.dag child image) (table.dag.children interned) (input.children ref)
  kind : KindsDerived input → (table.dag.node interned).resultKind = (input.node ref).resultKind
  hashed : KindsDerived input → structuralHash hasher table.dag interned = structuralHash hasher input ref

/-- A node found for an original that was not the first to be it. -/
def Found (hasher : Hasher H) (input : Dag) (table : InternTable H) (ref interned : NodeRef) : Prop :=
  reusable table.dag (table.dag.node interned) = true ∧
    sameData hasher table.dag (table.dag.node interned) (input.node ref) = true

structure Table (hasher : Hasher H) (input : Dag)
    (table : InternTable H) : Prop where
  grown : table.dag.Extends input
  placed : ∀ {key ref}, ref ∈ table.buckets key →
    ref < table.dag.size ∧ structuralHash hasher table.dag ref = key
  closed : ∀ {key ref}, ref ∈ table.buckets key → ∀ child ∈ table.dag.children ref, Listed hasher table child
  single : ∀ {key left right}, left ∈ table.buckets key → right ∈ table.buckets key →
    reusable table.dag (table.dag.node left) = true → reusable table.dag (table.dag.node right) = true →
    sameNode hasher table.dag left right = true → left = right
  images : ∀ {ref interned}, table.visited ref = some interned → Image hasher input table ref interned
  found : ∀ {left right interned}, table.visited left = some interned → table.visited right = some interned →
    left ≠ right → Found hasher input table left interned ∨ Found hasher input table right interned

structure Grown (table later : InternTable H) : Prop where
  dag : later.dag.Extends table.dag
  buckets : ∀ key, table.buckets key ⊆ later.buckets key
  visited : ∀ {ref interned}, table.visited ref = some interned → later.visited ref = some interned

/-- Only nodes below `bound` are newly visited. -/
def GrownBelow (bound : NodeRef) (table later : InternTable H) : Prop :=
  Grown table later ∧ ∀ ref, bound ≤ ref → later.visited ref = table.visited ref

theorem Grown.refl (table : InternTable H) : Grown table table := ⟨.refl _, fun _ _ member => member, id⟩

theorem Grown.trans (a b c : InternTable H) (first : Grown a b) (second : Grown b c) : Grown a c where
  dag := first.dag.trans second.dag
  buckets key _ member := second.buckets key (first.buckets key member)
  visited known := second.visited (first.visited known)

theorem GrownBelow.trans (bound : NodeRef) (a b c : InternTable H) (first : GrownBelow bound a b)
    (second : GrownBelow bound b c) : GrownBelow bound a c :=
  ⟨first.1.trans _ _ _ second.1, fun ref above => (second.2 ref above).trans (first.2 ref above)⟩

theorem Table.inside (holds : Table hasher input table) (listed : Listed hasher table ref) :
    ref < table.dag.size :=
  (holds.placed listed).1

theorem Listed.grow (listed : Listed hasher table ref) (inside : ref < table.dag.size)
    (grown : Grown table later) : Listed hasher later ref := by
  unfold Listed
  rw [structuralHash_grow grown.dag inside]
  exact grown.buckets _ listed

theorem Image.grow (holds : Table hasher input table) (image : Image hasher input table ref interned)
    (grown : Grown table later) : Image hasher input later ref interned := by
  have inside := holds.inside image.listed
  have original : ∀ held ∈ (input.node ref).refs, held < table.dag.size :=
    fun held holds' => Nat.lt_of_lt_of_le (input.refs_size holds') holds.grown.size_le
  refine ⟨image.listed.grow inside grown, ?_, ?_, fun derived => ?_, fun derived => ?_⟩
  · rw [grown.dag.node inside]
    exact image.data.grow grown.dag (fun _ => table.dag.refs_size) original
  · rw [children_grow grown.dag inside]
    refine forall₂_imp_mem (fun child reads other _ found => ?_) image.children
    obtain ⟨image', known, near⟩ := found
    have below := holds.inside (holds.images known).listed
    exact ⟨image', grown.visited known,
      near.grow grown.dag (table.dag.refs_size (List.mem_append_left _ reads)) below⟩
  · rw [grown.dag.node inside]
    exact image.kind derived
  · rw [structuralHash_grow grown.dag inside]
    exact image.hashed derived

theorem Found.grow (holds : Table hasher input table) (known : table.visited ref = some interned)
    (grown : Grown table later) (found : Found hasher input table ref interned) :
    Found hasher input later ref interned := by
  have inside := holds.inside (holds.images known).listed
  have original : ∀ held ∈ (input.node ref).refs, held < table.dag.size :=
    fun held holds' => Nat.lt_of_lt_of_le (input.refs_size holds') holds.grown.size_le
  rw [Found, grown.dag.node inside, reusable_grow grown.dag fun _ => table.dag.refs_size,
    sameData_grow grown.dag (fun _ => table.dag.refs_size) original]
  exact found

theorem Table.found_grow (holds : Table hasher input table) (grown : Grown table later) {left right : NodeRef}
    (known : table.visited left = some interned) (known' : table.visited right = some interned) (apart : left ≠ right) :
    Found hasher input later left interned ∨ Found hasher input later right interned :=
  (holds.found known known' apart).imp (Found.grow holds known grown) (Found.grow holds known' grown)

/-! ### Interning -/

theorem hashOver_grow {later dag : Dag} {node : OperatorNode} (grown : later.Extends dag)
    (inside : ∀ held ∈ node.refs, held < dag.size) :
    hashOver hasher (structuralHash hasher later) later node =
      hashOver hasher (structuralHash hasher dag) dag node := by
  rw [hashOver, hashOver, contents_grow grown inside]
  congr 1
  apply List.map_congr_left
  intro child reads
  exact structuralHash_grow grown (inside child (List.mem_append_left _ reads))

theorem apart_of_missing {dag later : Dag} {candidates : List NodeRef} {node : OperatorNode} {new : NodeRef}
    (grown : later.Extends dag) (below : ∀ held ∈ node.refs, held < dag.size) (here : later.node new = node)
    (missing : (if reusable dag node then candidates.find? fun candidate =>
      sameOver hasher (sameNode hasher dag) dag (dag.node candidate) node else none) = none)
    {candidate : NodeRef} (member : candidate ∈ candidates) (inside : candidate < dag.size)
    (free : reusable later (later.node new) = true) : ¬ sameNode hasher later candidate new = true := by
  rw [here, reusable_grow grown below] at free
  rw [if_pos free, List.find?_eq_none] at missing
  intro equal
  rw [sameNode_iff, Dag.children, Dag.children, here, grown.node inside,
    sameFields_grow grown (fun _ => dag.refs_size) below] at equal
  refine missing candidate member (sameOver_iff.mpr ⟨?_, equal.2⟩)
  refine forall₂_imp_mem (fun child reads other reads' near => ?_) equal.1
  exact near.imp_right (sameNode_grow grown (dag.refs_size (List.mem_append_left _ reads))
    (below other (List.mem_append_left _ reads'))).mp

theorem Table.alike (holds : Table hasher input table) : Alike hasher table.dag input fun shared ref =>
    ∃ interned, table.visited ref = some interned ∧ Near hasher table.dag shared interned where
  data := by
    rintro shared ref ⟨interned, known, rfl | equal⟩
    · exact (holds.images known).data
    · exact SameData.before (Bool.and_eq_true_iff.mp (sameNode_iff.mp equal).2).2 (holds.images known).data
  children := by
    rintro shared ref ⟨interned, known, rfl | equal⟩
    · exact (holds.images known).children
    · refine forall₂_trans_mem (fun _ _ _ _ near found => ?_) (sameNode_iff.mp equal).1 (holds.images known).children
      obtain ⟨image, known', near'⟩ := found
      exact ⟨image, known', near.trans near'⟩

theorem same_resultKind {kind kind' : OperatorResultKind} (equal : same kind kind' = true) : kind = kind' := by
  revert equal
  cases kind <;> cases kind' <;> decide

theorem Near.kind {dag : Dag} {left right : NodeRef} (near : Near hasher dag left right) :
    (dag.node left).resultKind = (dag.node right).resultKind := by
  rcases near with rfl | equal
  · rfl
  · exact same_resultKind (Bool.and_eq_true_iff.mp (sameNode_iff.mp equal).2).1

theorem Near.data {dag : Dag} {left right : NodeRef} (near : Near hasher dag left right) :
    SameData hasher dag (dag.node left) (dag.node right) := by
  rcases near with rfl | equal
  · exact .inl (.refl _)
  · exact .inr (Bool.and_eq_true_iff.mp (sameNode_iff.mp equal).2).2

/-- What interning a node gives: the node itself, or one equal to it that may be shared. -/
structure Interned (hasher : Hasher H) (table : InternTable H)
    (node : OperatorNode) (interned : NodeRef) : Prop where
  listed : Listed hasher table interned
  fields : (table.dag.node interned = node ∧ ∀ ref, table.visited ref ≠ some interned) ∨
    (sameFields hasher table.dag (table.dag.node interned) node = true ∧
      reusable table.dag (table.dag.node interned) = true)
  children : List.Forall₂ (Near hasher table.dag) (table.dag.children interned) node.children
  hashed : structuralHash hasher table.dag interned =
    hashOver hasher (structuralHash hasher table.dag) table.dag node

theorem Interned.image {node : OperatorNode} {image : NodeRef → NodeRef} (result : Interned hasher table node interned)
    (kept : Kept node (input.node ref)) (images : node.children = (input.children ref).map image)
    (visited : ∀ child ∈ input.children ref, table.visited child = some (image child))
    (kind : KindsDerived input → node.resultKind = (input.node ref).resultKind)
    (hashed : KindsDerived input →
      hashOver hasher (structuralHash hasher table.dag) table.dag node = structuralHash hasher input ref) :
    Image hasher input table ref interned := by
  refine ⟨result.listed, ?_, ?_, fun derived => ?_, fun derived => result.hashed.trans (hashed derived)⟩
  · rcases result.fields with ⟨equal, _⟩ | ⟨equal, _⟩
    · exact .inl (equal ▸ kept)
    · exact SameData.before (Bool.and_eq_true_iff.mp equal).2 (.inl kept)
  · have near := result.children
    rw [images, List.forall₂_map_right_iff] at near
    exact forall₂_imp_mem (fun _ _ original reads near => ⟨image original, visited original reads, near⟩) near
  · refine Eq.trans ?_ (kind derived)
    rcases result.fields with ⟨equal, _⟩ | ⟨equal, _⟩
    · rw [equal]
    · exact same_resultKind (Bool.and_eq_true_iff.mp equal).1

theorem Interned.found {node : OperatorNode} (result : Interned hasher table node interned)
    (kept : Kept node (input.node ref)) :
    (∀ other, table.visited other ≠ some interned) ∨ Found hasher input table ref interned := by
  rcases result.fields with ⟨_, new⟩ | ⟨equal, free⟩
  · exact .inl new
  · exact .inr ⟨free, (SameData.swap (.inl kept)).mp (Bool.and_eq_true_iff.mp equal).2⟩

theorem visited_kept (holds : Table hasher input table) (fresh : table.visited ref = none)
    (image : Image hasher input table ref interned)
    (found : (∀ other, table.visited other ≠ some interned) ∨ Found hasher input table ref interned) :
    Table hasher input { table with visited := table.visited.insert ref interned } ∧
      Grown table { table with visited := table.visited.insert ref interned } := by
  have step : Grown table { table with visited := table.visited.insert ref interned } := by
    refine ⟨.refl _, fun _ _ member => member, fun {other image} known => ?_⟩
    have apart : other ≠ ref := by
      intro equal
      rw [equal, fresh] at known
      cases known
    exact (if_neg apart).trans known
  have visited {other image' : NodeRef} (known : (table.visited.insert ref interned) other = some image') :
      other = ref ∧ image' = interned ∨ table.visited other = some image' := by
    by_cases this : other = ref
    · subst this
      exact .inl ⟨rfl, (Option.some.inj ((if_pos rfl).symm.trans known)).symm⟩
    · exact .inr ((if_neg this).symm.trans known)
  refine ⟨⟨holds.grown, holds.placed, holds.closed, holds.single, fun known => ?_, fun known known' apart => ?_⟩,
    step⟩
  · rcases visited known with ⟨rfl, rfl⟩ | before
    · exact image.grow holds step
    · exact (holds.images before).grow holds step
  · rcases visited known with ⟨rfl, rfl⟩ | before
    · rcases visited known' with ⟨rfl, _⟩ | before'
      · exact absurd rfl apart
      · exact .inl (found.resolve_left fun none => none _ before')
    · rcases visited known' with ⟨rfl, rfl⟩ | before'
      · exact .inr (found.resolve_left fun none => none _ before)
      · exact holds.found before before' apart

theorem Table.rebuilt_kind (holds : Table hasher input table) {image : NodeRef → NodeRef}
    (children : ∀ child ∈ input.children ref, table.visited child = some (image child))
    (derived : KindsDerived input) :
    table.dag.outputKind ((input.node ref).operator.mapChildren image) = (input.node ref).resultKind := by
  rw [derived ref]
  refine Dag.outputKind_image (fun child reads => (holds.images (children child reads)).kind derived)
    (fun child reads => (holds.images (children child reads)).data.plainColumns) fun child reads => ?_
  refine holds.alike.sourceKind ?_ ⟨_, children child reads, .inl rfl⟩
  rintro shared original ⟨interned, known, near⟩
  exact near.kind.trans ((holds.images known).kind derived)

theorem Table.rebuilt_hash (holds : Table hasher input table) {image : NodeRef → NodeRef} {node : OperatorNode}
    (children : ∀ child ∈ input.children ref, table.visited child = some (image child))
    (derived : KindsDerived input) (kept : Kept node (input.node ref))
    (images : node.children = (input.children ref).map image)
    (kind : node.resultKind = (input.node ref).resultKind) :
    hashOver hasher (structuralHash hasher table.dag) table.dag node = structuralHash hasher input ref := by
  have own : ownFields table.dag node = ownFields input (input.node ref) :=
    kept.ownFields.trans (ownFields_grow holds.grown fun _ => input.refs_size)
  obtain ⟨_, _, schema, guarantee, timing, materialization⟩ := kept
  rw [structuralHash_eq, hashOver, hashOver, contents, contents, own, kind, schema, guarantee, timing,
    materialization, images, List.map_map]
  congr 1
  apply List.map_congr_left
  intro child reads
  exact (holds.images (children child reads)).hashed derived

variable [DecidableEq H]

theorem mem_pushed {buckets : H → List NodeRef} {key other : H} {new : NodeRef} :
    ref ∈ Function.update buckets key (buckets key ++ [new]) other ↔
      ref ∈ buckets other ∨ other = key ∧ ref = new := by
  by_cases same : other = key
  · subst same
    simp
  · simp [same]

theorem push_kept (holds : Table hasher input table) {node : OperatorNode} {key : H}
    (below : ∀ held ∈ node.refs, held < table.dag.size)
    (children : ∀ child ∈ node.children, Listed hasher table child)
    (hashed : hashOver hasher (structuralHash hasher table.dag) table.dag node = key)
    (apart : ∀ candidate ∈ table.buckets key,
      reusable (table.push key node).2.dag ((table.push key node).2.dag.node table.dag.size) = true →
      ¬ sameNode hasher (table.push key node).2.dag candidate table.dag.size = true) :
    Table hasher input (table.push key node).2 ∧ Grown table (table.push key node).2 ∧
      Interned hasher (table.push key node).2 node (table.push key node).1 := by
  have ref : (table.push key node).1 = table.dag.size := table.dag.alloc_ref node
  have grown : (table.push key node).2.dag.Extends table.dag := table.dag.alloc_extends node
  have here : (table.push key node).2.dag.node table.dag.size = node := Dag.alloc_node below
  have size : (table.push key node).2.dag.size = table.dag.size + 1 := Dag.alloc_size below
  have visited : (table.push key node).2.visited = table.visited := rfl
  have pushed : (table.push key node).2.buckets =
      Function.update table.buckets key (table.buckets key ++ [table.dag.size]) := by rw [← ref]; rfl
  rw [ref]
  generalize (table.push key node).2 = next at grown here size visited pushed apart ⊢
  have own : structuralHash hasher next.dag table.dag.size = key := by
    rw [structuralHash_eq, here, hashOver_grow grown below, hashed]
  have buckets : ∀ {other ref}, ref ∈ next.buckets other ↔
      ref ∈ table.buckets other ∨ other = key ∧ ref = table.dag.size := pushed ▸ mem_pushed
  have step : Grown table next :=
    ⟨grown, fun _ _ member => buckets.mpr (.inl member), fun known => visited ▸ known⟩
  refine ⟨⟨holds.grown.trans grown, fun member => ?_, fun member child reads => ?_, ?_,
    fun known => (holds.images (visited ▸ known)).grow holds step,
    fun known known' => holds.found_grow step (visited ▸ known) (visited ▸ known')⟩, step, ?_,
    .inl ⟨here, fun other known => ?_⟩, ?_, ?_⟩
  · rcases buckets.mp member with old | ⟨rfl, rfl⟩
    · obtain ⟨inside, same⟩ := holds.placed old
      exact ⟨Nat.lt_of_lt_of_le inside grown.size_le, (structuralHash_grow grown inside).trans same⟩
    · exact ⟨size ▸ Nat.lt_succ_self _, own⟩
  · rcases buckets.mp member with old | ⟨rfl, rfl⟩
    · rw [children_grow grown (holds.placed old).1] at reads
      have before := holds.closed old child reads
      exact before.grow (holds.inside before) step
    · rw [Dag.children, here] at reads
      exact (children child reads).grow (holds.inside (children child reads)) step
  · intro other left right member member' free free' equal
    rcases buckets.mp member with old | ⟨rfl, rfl⟩
    · rcases buckets.mp member' with old' | ⟨rfl, rfl⟩
      · have inside := (holds.placed old).1
        have inside' := (holds.placed old').1
        rw [grown.node inside, reusable_grow grown fun _ => table.dag.refs_size] at free
        rw [grown.node inside', reusable_grow grown fun _ => table.dag.refs_size] at free'
        exact holds.single old old' free free' ((sameNode_grow grown inside inside').mp equal)
      · exact absurd equal (apart left old free')
    · rcases buckets.mp member' with old' | ⟨_, rfl⟩
      · exact absurd (sameNode_symm equal) (apart right old' free)
      · rfl
  · exact buckets.mpr (.inr ⟨own, rfl⟩)
  · exact Nat.lt_irrefl _ (holds.inside (holds.images (visited ▸ known)).listed)
  · rw [Dag.children, here]
    exact List.forall₂_same.mpr fun _ _ => .inl rfl
  · rw [structuralHash_eq, here]

theorem intern_kept (holds : Table hasher input table) {node : OperatorNode}
    (below : ∀ held ∈ node.refs, held < table.dag.size)
    (children : ∀ child ∈ node.children, Listed hasher table child) :
    Table hasher input (intern hasher node table).2 ∧ Grown table (intern hasher node table).2 ∧
      (intern hasher node table).2.visited = table.visited ∧
      Interned hasher (intern hasher node table).2 node (intern hasher node table).1 := by
  unfold intern
  dsimp only
  split
  next existing found =>
    split at found
    next free =>
      have equal := List.find?_some found
      have listed := List.mem_of_find?_eq_some found
      rw [sameOver_iff] at equal
      have hashed := (holds.placed listed).2
      have data : SameData hasher table.dag (table.dag.node existing) node :=
        .inr (Bool.and_eq_true_iff.mp equal.2).2
      have reused := data.reusable (equal.1.imp fun _ _ near => Near.data near)
      refine ⟨holds, .refl _, rfl, ?_, .inr ⟨equal.2, reused.trans free⟩, equal.1, hashed⟩
      unfold Listed
      rw [hashed]
      exact listed
    next => cases found
  next missing =>
    obtain ⟨kept, grown, result⟩ := push_kept holds below children rfl fun candidate member =>
      apart_of_missing (table.dag.alloc_extends node) below (Dag.alloc_node below) missing member
        (holds.placed member).1
    exact ⟨kept, grown, rfl, result⟩

theorem internRebuilt_kept (holds : Table hasher input table) {image : NodeRef → NodeRef}
    (fresh : table.visited ref = none)
    (children : ∀ child ∈ input.children ref, table.visited child = some (image child)) :
    let next := internRebuilt hasher input ref ((input.node ref).operator.mapChildren image) table
    Table hasher input next.2 ∧ GrownBelow (ref + 1) table next.2 ∧ next.2.visited ref = some next.1 := by
  unfold internRebuilt
  dsimp only
  have kept : Kept (rebuilt table.dag (input.node ref) ((input.node ref).operator.mapChildren image))
      (input.node ref) := ⟨image, rfl, rfl, rfl, rfl, rfl⟩
  have images : (rebuilt table.dag (input.node ref) ((input.node ref).operator.mapChildren image)).children =
      (input.children ref).map image := Operator.children_mapChildren _ _
  have held : (rebuilt table.dag (input.node ref) ((input.node ref).operator.mapChildren image)).operator.held =
      (input.node ref).operator.held := Operator.held_mapChildren _ _
  have kind : KindsDerived input → (rebuilt table.dag (input.node ref)
      ((input.node ref).operator.mapChildren image)).resultKind = (input.node ref).resultKind :=
    holds.rebuilt_kind children
  generalize rebuilt table.dag (input.node ref) ((input.node ref).operator.mapChildren image) = node
    at kept images held kind ⊢
  have listed : ∀ child ∈ node.children, Listed hasher table child := by
    intro child member
    rw [images] at member
    obtain ⟨original, reads, rfl⟩ := List.mem_map.mp member
    exact (holds.images (children original reads)).listed
  have below : ∀ held ∈ node.refs, held < table.dag.size := by
    intro other member
    rcases List.mem_append.mp member with reads | holds'
    · exact holds.inside (listed other reads)
    · have owned : other ∈ (input.node ref).operator.held.toList := held ▸ holds'
      exact Nat.lt_of_lt_of_le (input.refs_size (List.mem_append_right _ owned)) holds.grown.size_le
  obtain ⟨holds', grown, same, result⟩ := intern_kept holds below listed
  have image' := result.image kept images (fun child reads => (congrFun same child).trans (children child reads))
    kind fun derived => (hashOver_grow grown.dag below).trans
      (holds.rebuilt_hash children derived kept images (kind derived))
  obtain ⟨holds'', step⟩ := visited_kept holds' ((congrFun same ref).trans fresh) image' (result.found kept)
  exact ⟨holds'', ⟨grown.trans _ _ _ step, fun other above =>
    (if_neg (Nat.ne_of_gt (Nat.lt_of_succ_le above))).trans (congrFun same other)⟩, if_pos rfl⟩

theorem internBottomUp_kept (holds : Table hasher input table) :
    Table hasher input (internBottomUp hasher input ref table).2 ∧
      GrownBelow (ref + 1) table (internBottomUp hasher input ref table).2 ∧
      (internBottomUp hasher input ref table).2.visited ref =
        some (internBottomUp hasher input ref table).1 := by
  induction ref using Nat.strongRecOn generalizing table with
  | ind ref ih =>
    rw [internBottomUp_eq]
    cases known : table.visited ref with
    | some interned => exact ⟨holds, ⟨.refl _, fun _ _ => rfl⟩, known⟩
    | none =>
      have each : ∀ child ∈ (input.node ref).operator.walk.refs.attach, ∀ t : InternTable H,
          Table hasher input t → Table hasher input (internBottomUp hasher input child.1 t).2 ∧
            GrownBelow ref t (internBottomUp hasher input child.1 t).2 ∧
            (internBottomUp hasher input child.1 t).2.visited child.1 =
              some (internBottomUp hasher input child.1 t).1 := by
        intro child _ t kept
        have below := input.child_lt ((Operator.mem_refs_walk _).mp child.2)
        obtain ⟨kept', grown, here⟩ := ih child.1 below kept
        exact ⟨kept', ⟨grown.1, fun other above =>
          grown.2 other (Nat.le_trans (Nat.succ_le_of_lt below) above)⟩, here⟩
      obtain ⟨kept, grown, visited⟩ := mapM_kept (fun t => ⟨Grown.refl t, fun _ _ => rfl⟩) (GrownBelow.trans ref)
        (fun (child : { child // child ∈ _ }) (image : NodeRef) (s _ : InternTable H)
          (held : s.visited child.1 = some image) (grown : GrownBelow ref s _) => grown.1.visited held) each holds
      dsimp only
      generalize (input.node ref).operator.walk.refs.attach.mapM
        (fun child => internBottomUp hasher input child.1) table = below at kept grown visited
      have images : below.1 =
          (input.node ref).operator.walk.refs.map fun child => (below.2.visited child).getD 0 := by
        have equal : List.Forall₂ (· = ·) ((input.node ref).operator.walk.refs.attach.map
            fun child => (below.2.visited child.1).getD 0) below.1 := by
          rw [List.forall₂_map_left_iff]
          refine visited.imp fun child image held => ?_
          rw [held]
          rfl
        rw [List.forall₂_eq_eq_eq] at equal
        rw [← equal]
        simp
      have children : ∀ child ∈ input.children ref,
          below.2.visited child = some ((below.2.visited child).getD 0) := by
        intro child reads
        obtain ⟨image, held⟩ := exists_of_forall₂ visited ⟨child, (Operator.mem_refs_walk _).mpr reads⟩
          (List.mem_attach _ _)
        simp [held]
      have fresh : below.2.visited ref = none := (grown.2 ref (Nat.le_refl ref)).trans known
      obtain ⟨kept', grown', here⟩ := internRebuilt_kept kept fresh children
      rw [images]
      refine ⟨kept', GrownBelow.trans _ _ _ _ ⟨grown.1, fun other above => ?_⟩ grown', here⟩
      exact grown.2 other (Nat.le_of_succ_le above)

/-! ### Roots -/

variable (hasher)

theorem shareCommonSubDags_kept {Id : Type} (input : Dag) (roots : List (Id × NodeRef)) :
    Table hasher input (shareCommonSubDags hasher input roots).2 ∧
      List.Forall₂ (fun root shared => shared.1 = root.1 ∧
          (shareCommonSubDags hasher input roots).2.visited root.2 = some shared.2)
        roots (shareCommonSubDags hasher input roots).1 := by
  have start : Table hasher input
      { dag := input, buckets := fun _ : H => [], visited := Cache.empty } := by
    refine ⟨.refl _, ?_, ?_, ?_, ?_, ?_⟩
    · intro _ _ member
      cases member
    · intro _ _ member
      cases member
    · intro _ _ _ member
      cases member
    · intro _ _ known
      cases known
    · intro _ _ _ known
      cases known
  obtain ⟨kept, _, visited⟩ := mapM_kept (f := internRoot hasher input) Grown.refl Grown.trans
    (fun (root shared : Id × NodeRef) (s _ : InternTable H)
      (held : shared.1 = root.1 ∧ s.visited root.2 = some shared.2) (grown : Grown s _) =>
        ⟨held.1, grown.visited held.2⟩)
    (fun root _ t kept => by
      obtain ⟨kept', grown, here⟩ := internBottomUp_kept kept
      exact ⟨kept', grown.1, rfl, here⟩) start
  exact ⟨kept, visited⟩

/-- Every root is what it was: the same data in derived equality, node by node, over children in the same order. -/
theorem share_keeps {Id : Type} (input : Dag) (roots : List (Id × NodeRef)) : ∃ alike,
    Alike hasher (shareCommonSubDags hasher input roots).2.dag input alike ∧
      List.Forall₂ (fun root shared => shared.1 = root.1 ∧ alike shared.2 root.2) roots
        (shareCommonSubDags hasher input roots).1 := by
  obtain ⟨holds, visited⟩ := shareCommonSubDags_kept hasher input roots
  exact ⟨_, holds.alike, visited.imp fun _ _ found => ⟨found.1, _, found.2, .inl rfl⟩⟩

/-- Nodes that may be one and are equal, with the same text, over the same children, are one. -/
def Merged (hasher : Hasher H) (dag : Dag) (reached : NodeRef → Prop) : Prop :=
  ∀ left right, reached left → reached right → reusable dag (dag.node left) = true →
    reusable dag (dag.node right) = true → dag.children left = dag.children right →
    sameFields hasher dag (dag.node left) (dag.node right) = true →
    hasher.text (contents dag (dag.node left)) = hasher.text (contents dag (dag.node right)) → left = right

theorem shareCommonSubDags_merged {Id : Type} (input : Dag) (roots : List (Id × NodeRef)) :
    Merged hasher (shareCommonSubDags hasher input roots).2.dag fun ref =>
      ∃ root ∈ (shareCommonSubDags hasher input roots).1,
        (shareCommonSubDags hasher input roots).2.dag.Reaches root.2 ref := by
  obtain ⟨holds, visited⟩ := shareCommonSubDags_kept hasher input roots
  generalize shareCommonSubDags hasher input roots = shared at holds visited ⊢
  have listed : ∀ root ∈ shared.1, ∀ ref, shared.2.dag.Reaches root.2 ref → Listed hasher shared.2 ref := by
    intro root member ref reached
    induction reached with
    | refl =>
      obtain ⟨original, _, _, known⟩ := mem_of_forall₂ visited.flip root member
      exact (holds.images known).listed
    | tail _ reads ih => exact holds.closed ih _ reads
  rintro left right ⟨first, member, reached⟩ ⟨second, member', reached'⟩ free free' children equal texts
  have here := listed first member left reached
  have there := listed second member' right reached'
  have hashes : structuralHash hasher shared.2.dag left = structuralHash hasher shared.2.dag right := by
    rw [structuralHash_eq, structuralHash_eq, hashOver, hashOver, texts]
    exact congrArg (hasher.hash _ <| List.map _ ·) children
  unfold Listed at here
  rw [hashes] at here
  refine holds.single here there free free' (sameNode_iff.mpr ⟨?_, equal⟩)
  rw [children]
  exact List.forall₂_same.mpr fun _ _ => .inl rfl

/-- Beneath the roots every class of equal nodes that may be one is one node. -/
theorem share_merges {Id : Type} (input : Dag) (roots : List (Id × NodeRef)) :
    Merged hasher (shareCommonSubDags hasher input roots).2.dag fun ref =>
      ∃ root ∈ (shareCommonSubDags hasher input roots).1,
        (shareCommonSubDags hasher input roots).2.dag.Reaches root.2 ref :=
  shareCommonSubDags_merged hasher input roots

end Table
end AsapPlanner.Sharing
