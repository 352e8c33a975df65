import AsapPlanner.Pass2.Catalogue
import AsapPlanner.Traversal.Memo
import AsapPlanner.Traversal.Run

/-!
Replacing nodes beneath a root. A node is rebuilt only over changed children, once for each pointer.
-/

namespace AsapPlanner.Pass2
open Rust Ir Traversal

/-- The store with what was rebuilt, and the image of each node visited. -/
structure Rewriting where
  dag : Dag
  done : Cache NodeRef NodeRef

section Replace
variable (input : Dag) (swaps : Cache NodeRef NodeRef)

def Rewriting.imageOf (state : Rewriting) (ref : NodeRef) : Option NodeRef :=
  (swaps ref).or (state.done ref)

/-- The node over its children's images: itself when they are its children. -/
def rebuild (ref : NodeRef) (images : List NodeRef) : StateM Rewriting NodeRef := fun state =>
  let operator := (input.node ref).operator
  let rebuilt := if images = operator.walk.refs then (ref, state.dag)
    else state.dag.alloc { input.node ref with operator := operator.walk.build images }
  (rebuilt.1, { dag := rebuilt.2, done := state.done.insert ref rebuilt.1 })

def visit (ref : NodeRef) : StateM Rewriting NodeRef := do
  match (← get).imageOf swaps ref with
  | some found => pure found
  | none =>
    let images ← (input.node ref).operator.walk.refs.attach.mapM fun child => visit child.1
    rebuild input ref images
termination_by ref
decreasing_by exact input.child_lt ((Operator.mem_refs_walk _).mp child.2)

def replace (root : NodeRef) : StateM Dag NodeRef := fun dag =>
  let visited := visit dag swaps root { dag, done := Cache.empty }
  (visited.1, visited.2.dag)

end Replace

/-- `new` is `ref` with the nodes `swaps` replaces swapped; where nothing beneath is swapped it is
`ref` itself. -/
inductive Swapped (input dag : Dag) (swaps : Cache NodeRef NodeRef) : NodeRef → NodeRef → Prop
  | swapped {ref new : NodeRef} (swap : swaps ref = some new) : Swapped input dag swaps ref new
  | kept {ref : NodeRef} (absent : swaps ref = none)
      (below : ∀ child ∈ input.children ref, Swapped input dag swaps child child) :
      Swapped input dag swaps ref ref
  | rebuilt {ref new : NodeRef} (absent : swaps ref = none) (image : NodeRef → NodeRef)
      (below : ∀ child ∈ input.children ref, Swapped input dag swaps child (image child))
      (changed : ∃ child ∈ input.children ref, image child ≠ child)
      (fresh : input.size ≤ new) (inside : new < dag.size)
      (node : dag.node new = { input.node ref with
        operator := (input.node ref).operator.mapChildren image }) :
      Swapped input dag swaps ref new

section
variable {input dag later : Dag} {swaps : Cache NodeRef NodeRef} {ref new : NodeRef}

theorem Swapped.grow (swapped : Swapped input dag swaps ref new) (grown : later.Extends dag) :
    Swapped input later swaps ref new := by
  induction swapped with
  | swapped swap => exact .swapped swap
  | kept absent _ ih => exact .kept absent ih
  | rebuilt absent image _ changed fresh inside node ih =>
    exact .rebuilt absent image ih changed fresh (inside.trans_le grown.size_le)
      ((grown.node inside).trans node)

theorem Swapped.original {first : Dag} (swapped : Swapped input dag swaps ref new)
    (grown : input.Extends first) (small : ref < first.size) : Swapped first dag swaps ref new := by
  induction swapped with
  | swapped swap => exact .swapped swap
  | @kept ref absent _ ih =>
    refine .kept absent fun child reads => ?_
    have same : child ∈ input.children ref := by rwa [Dag.children, grown.node small]
    exact ih child same ((first.child_lt reads).trans small)
  | @rebuilt ref new absent image _ changed fresh inside node ih =>
    have children : input.children ref = first.children ref := by
      rw [Dag.children, Dag.children, grown.node small]
    rw [children] at changed ih
    refine .rebuilt absent image (fun child reads => ih child reads ((first.child_lt reads).trans small))
      changed (grown.size_le.trans fresh) inside ?_
    rw [node, grown.node small]

theorem Swapped.reads (swapped : Swapped input dag swaps ref new) (grown : dag.Extends input)
    (small : ref < input.size) (absent : swaps ref = none) :
    List.Forall₂ (Swapped input dag swaps) (input.children ref) (dag.children new) := by
  cases swapped with
  | swapped swap =>
    rw [absent] at swap
    cases swap
  | kept _ below =>
    rw [Dag.children, Dag.children, grown.node small]
    exact List.forall₂_same.mpr below
  | rebuilt _ image below _ _ _ node =>
    rw [Dag.children, Dag.children, node]
    change List.Forall₂ _ _ ((input.node ref).operator.mapChildren image).children
    rw [Operator.children_mapChildren]
    exact List.forall₂_map_right_iff.mpr (List.forall₂_same.mpr below)

theorem Swapped.known (swapped : Swapped input dag swaps ref new) (small : new < input.size) :
    swaps ref = some new ∨ new = ref := by
  cases swapped with
  | swapped swap => exact .inl swap
  | kept => exact .inr rfl
  | rebuilt _ _ _ _ fresh => exact absurd fresh (Nat.not_le_of_lt small)

/-- Every replacement is a node of the store. -/
def Allocated (input : Dag) (swaps : Cache NodeRef NodeRef) : Prop :=
  ∀ ref new, swaps ref = some new → new < input.size

theorem Swapped.inside (swapped : Swapped input dag swaps ref new) (allocated : Allocated input swaps)
    (grown : dag.Extends input) (small : ref < input.size) : new < dag.size := by
  cases swapped with
  | swapped swap => exact (allocated _ _ swap).trans_le grown.size_le
  | kept => exact small.trans_le grown.size_le
  | rebuilt _ _ _ _ _ inside => exact inside

/-! ### A run -/

variable {state state' : Rewriting}

variable (input swaps) in
structure Rewriting.Sound (state : Rewriting) : Prop where
  grown : state.dag.Extends input
  images : ∀ ref new, state.done ref = some new → Swapped input state.dag swaps ref new

/-- Nothing is lost, and only images below `bound` are new. -/
structure Rewriting.Grown (bound : NodeRef) (before after : Rewriting) : Prop where
  dag : after.dag.Extends before.dag
  kept : ∀ ref new, before.done ref = some new → after.done ref = some new
  frame : ∀ ref, bound ≤ ref → after.done ref = before.done ref

namespace Rewriting.Grown
variable {bound bound' : NodeRef} {a b c : Rewriting}

theorem refl (state : Rewriting) : Grown bound state state :=
  ⟨Dag.Extends.refl _, fun _ _ known => known, fun _ _ => rfl⟩

theorem trans (ab : Grown bound a b) (bc : Grown bound b c) : Grown bound a c :=
  ⟨ab.dag.trans bc.dag, fun ref new known => bc.kept ref new (ab.kept ref new known),
    fun ref above => (bc.frame ref above).trans (ab.frame ref above)⟩

theorem mono (ab : Grown bound a b) (le : bound ≤ bound') : Grown bound' a b :=
  ⟨ab.dag, ab.kept, fun ref above => ab.frame ref (le.trans above)⟩

theorem imageOf (ab : Grown bound a b) {ref new : NodeRef} (known : a.imageOf swaps ref = some new) :
    b.imageOf swaps ref = some new := by
  unfold Rewriting.imageOf at known ⊢
  cases swap : swaps ref with
  | none =>
    rw [swap, Option.none_or] at known
    rw [Option.none_or, ab.kept ref new known]
  | some other =>
    rw [swap, Option.some_or] at known
    rw [Option.some_or, known]

end Rewriting.Grown

theorem images_of {refs images : List NodeRef}
    (each : List.Forall₂ (fun (child : {child // child ∈ refs}) image =>
      state.imageOf swaps child.1 = some image ∧ Swapped input state.dag swaps child.1 image)
      refs.attach images) :
    let image := fun child => (state.imageOf swaps child).getD 0
    images = refs.map image ∧ ∀ child ∈ refs, Swapped input state.dag swaps child (image child) := by
  intro image
  have both : List.Forall₂ (fun (child : {child // child ∈ refs}) found =>
      Swapped input state.dag swaps child.1 (image child.1) ∧ image child.1 = found)
      refs.attach images := by
    refine each.imp fun child found here => ?_
    have same : image child.1 = found := congrArg (Option.getD · 0) here.1
    exact ⟨same ▸ here.2, same⟩
  obtain ⟨all, mapped⟩ := (List.forall₂_and_left _ _).mp both
  have equal : List.Forall₂ Eq (refs.attach.map fun child => image child.1) images :=
    List.forall₂_map_left_iff.mpr mapped
  rw [List.forall₂_eq_eq_eq] at equal
  exact ⟨equal.symm.trans List.attach_map_val, fun child member => all ⟨child, member⟩ (List.mem_attach _ _)⟩

theorem record_spec (sound : state.Sound input swaps) (absent : state.imageOf swaps ref = none)
    (grown : dag.Extends state.dag) (swapped : Swapped input dag swaps ref new) :
    let built : Rewriting := { dag, done := state.done.insert ref new }
    built.Sound input swaps ∧ state.Grown (ref + 1) built ∧ built.imageOf swaps ref = some new := by
  obtain ⟨swap, missing⟩ := Option.or_eq_none_iff.mp absent
  refine ⟨⟨sound.grown.trans grown, fun other image known => ?_⟩,
    ⟨grown, fun other image known => ?_, fun other above => if_neg (Nat.ne_of_gt above)⟩, ?_⟩
  · by_cases same : other = ref
    · subst same
      obtain rfl := Option.some.inj ((if_pos rfl).symm.trans known)
      exact swapped
    · exact (sound.images other image ((if_neg same).symm.trans known)).grow grown
  · refine (if_neg ?_).trans known
    rintro rfl
    rw [missing] at known
    cases known
  · rw [Rewriting.imageOf, swap, Option.none_or]
    exact if_pos rfl

theorem rebuild_spec (allocated : Allocated input swaps) (sound : state.Sound input swaps)
    (small : ref < input.size) (absent : state.imageOf swaps ref = none) {image : NodeRef → NodeRef}
    (below : ∀ child ∈ input.children ref, Swapped input state.dag swaps child (image child)) :
    let built := rebuild input ref ((input.node ref).operator.walk.refs.map image) state
    built.2.Sound input swaps ∧ state.Grown (ref + 1) built.2 ∧
      built.2.imageOf swaps ref = some built.1 ∧ Swapped input built.2.dag swaps ref built.1 := by
  intro built
  have swap := (Option.or_eq_none_iff.mp absent).1
  have visited : ∀ child, child ∈ (input.node ref).operator.walk.refs ↔ child ∈ input.children ref :=
    fun child => Operator.mem_refs_walk _
  have images : ∀ child ∈ input.children ref, image child < state.dag.size :=
    fun child reads => (below child reads).inside allocated sound.grown ((input.child_lt reads).trans small)
  by_cases same : (input.node ref).operator.walk.refs.map image = (input.node ref).operator.walk.refs
  · have made : built = (ref, { dag := state.dag, done := state.done.insert ref ref }) := by
      simp only [built, rebuild, if_pos same]
    have fixed : ∀ child ∈ input.children ref, image child = child := by
      intro child reads
      exact List.map_inj_left.mp (same.trans (List.map_id _).symm) child ((visited child).mpr reads)
    have swapped : Swapped input state.dag swaps ref ref :=
      .kept swap fun child reads => by simpa [fixed child reads] using below child reads
    rw [made]
    obtain ⟨kept, grown, known⟩ := record_spec sound absent (Dag.Extends.refl _) swapped
    exact ⟨kept, grown, known, swapped⟩
  · let new := { input.node ref with operator := (input.node ref).operator.mapChildren image }
    have made : built = ((state.dag.alloc new).1,
        { dag := (state.dag.alloc new).2, done := state.done.insert ref (state.dag.alloc new).1 }) := by
      simp only [built, rebuild, if_neg same]
      rfl
    have earlier : ∀ held ∈ new.refs, held < state.dag.size := by
      intro held holds
      rcases List.mem_append.mp holds with child | own
      · rw [OperatorNode.children, Operator.children_mapChildren, List.mem_map] at child
        obtain ⟨child, reads, rfl⟩ := child
        exact images child reads
      · rw [Operator.held_mapChildren] at own
        exact (input.refs_size (List.mem_append_right _ own)).trans_le sound.grown.size_le
    have changed : ∃ child ∈ input.children ref, image child ≠ child := by
      by_contra none
      push Not at none
      have fixed := List.map_inj_left.mpr fun child reads => none child ((visited child).mp reads)
      exact same (fixed.trans (List.map_id' _))
    have grown := Dag.alloc_extends state.dag new
    have swapped : Swapped input (state.dag.alloc new).2 swaps ref (state.dag.alloc new).1 := by
      rw [Dag.alloc_ref]
      refine .rebuilt swap image (fun child reads => (below child reads).grow grown) changed
        sound.grown.size_le ?_ (Dag.alloc_node earlier)
      rw [Dag.alloc_size earlier]
      exact Nat.lt_succ_self _
    rw [made]
    obtain ⟨kept, grown, known⟩ := record_spec sound absent grown swapped
    exact ⟨kept, grown, known, swapped⟩

theorem visit_spec (allocated : Allocated input swaps) (sound : state.Sound input swaps)
    (small : ref < input.size) :
    (visit input swaps ref state).2.Sound input swaps ∧
      state.Grown (ref + 1) (visit input swaps ref state).2 ∧
      (visit input swaps ref state).2.imageOf swaps ref = some (visit input swaps ref state).1 ∧
      Swapped input (visit input swaps ref state).2.dag swaps ref (visit input swaps ref state).1 := by
  induction ref using Nat.strongRecOn generalizing state with
  | ind ref ih =>
    cases known : state.imageOf swaps ref with
    | some found =>
      have hit : visit input swaps ref state = (found, state) := by
        rw [visit]
        show (match state.imageOf swaps ref with
          | some found => (pure found : StateM Rewriting NodeRef)
          | none => _) state = _
        rw [known]
        rfl
      rw [hit]
      refine ⟨sound, .refl state, known, ?_⟩
      rcases Option.or_eq_some_iff.mp known with swap | ⟨-, done⟩
      · exact .swapped swap
      · exact sound.images ref found done
    | none =>
      obtain ⟨run, defined⟩ : ∃ run, (input.node ref).operator.walk.refs.attach.mapM
        (fun child => visit input swaps child.1) state = run := ⟨_, rfl⟩
      have miss : visit input swaps ref state = rebuild input ref run.1 run.2 := by
        rw [visit]
        show (match state.imageOf swaps ref with
          | some found => (pure found : StateM Rewriting NodeRef)
          | none => _) state = _
        rw [known, ← defined]
        rfl
      have each : ∀ child ∈ (input.node ref).operator.walk.refs.attach, ∀ t,
          Rewriting.Sound input swaps t → Rewriting.Sound input swaps (visit input swaps child.1 t).2 ∧
          t.Grown ref (visit input swaps child.1 t).2 ∧
          ((visit input swaps child.1 t).2.imageOf swaps child.1 = some (visit input swaps child.1 t).1 ∧
            Swapped input (visit input swaps child.1 t).2.dag swaps child.1 (visit input swaps child.1 t).1) := by
        intro child _ t keptHere
        have below := input.child_lt ((Operator.mem_refs_walk _).mp child.2)
        obtain ⟨kept, grown, image, swapped⟩ := ih child.1 below keptHere (below.trans small)
        exact ⟨kept, grown.mono below, image, swapped⟩
      have stable : ∀ (child : {child // child ∈ (input.node ref).operator.walk.refs}) image t t',
          (t.imageOf swaps child.1 = some image ∧ Swapped input t.dag swaps child.1 image) →
          Rewriting.Grown ref t t' →
          (t'.imageOf swaps child.1 = some image ∧ Swapped input t'.dag swaps child.1 image) :=
        fun _ _ _ _ here grown => ⟨grown.imageOf here.1, here.2.grow grown.dag⟩
      have refl : ∀ t, Rewriting.Grown ref t t := Rewriting.Grown.refl
      obtain ⟨kept, grown, images⟩ :=
        mapM_kept refl (fun _ _ _ => Rewriting.Grown.trans) stable each sound
      rw [defined] at kept grown images
      obtain ⟨mapped, swapped⟩ := images_of images
      have absent : run.2.imageOf swaps ref = none := by
        obtain ⟨swap, missing⟩ := Option.or_eq_none_iff.mp known
        rw [Rewriting.imageOf, swap, Option.none_or, grown.frame ref (le_refl ref), missing]
      rw [miss, mapped]
      obtain ⟨keptBuilt, grownBuilt, image, here⟩ := rebuild_spec allocated kept small absent
        fun child reads => swapped child ((Operator.mem_refs_walk _).mpr reads)
      exact ⟨keptBuilt, (grown.mono (Nat.le_succ ref)).trans grownBuilt, image, here⟩

theorem replace_spec (allocated : Allocated dag swaps) (small : ref < dag.size) :
    (replace swaps ref dag).2.Extends dag ∧
      Swapped dag (replace swaps ref dag).2 swaps ref (replace swaps ref dag).1 := by
  have start : Rewriting.Sound dag swaps { dag, done := Cache.empty } :=
    ⟨Dag.Extends.refl dag, fun _ _ known => by cases known⟩
  obtain ⟨sound, -, -, swapped⟩ := visit_spec allocated start small
  exact ⟨sound.grown, swapped⟩

/-! ### Meaning -/

/-- Nodes with equal fields of their own over children of equal meaning mean the same. -/
def Compositional {V : Type} (text : Datum → Option String) (dag : Dag) (value : NodeRef → V) : Prop :=
  ∀ left right, (signature dag left = signature dag right ∨ sameLocalFields text dag left right = true) →
    List.Forall₂ (fun a b => value a = value b) (dag.children left) (dag.children right) →
      value left = value right

section
variable {V : Type} {value : NodeRef → V} {text : Datum → Option String}

theorem children_of_timeRange {range : Duration} {kind : TimeRangeKind} {child : NodeRef}
    (node : (dag.node ref).nonAsap = some (.timeRange range kind child)) : dag.children ref = [child] := by
  unfold OperatorNode.nonAsap at node
  split at node
  · rename_i op same
    obtain rfl := Option.some.inj node
    rw [Dag.children, OperatorNode.children, same]
    rfl
  · cases node

theorem Compositional.sameInput (compositional : Compositional text dag value) {left right : NodeRef}
    (same : sameInput text dag left right = true) : value left = value right := by
  rcases Bool.or_eq_true_iff.mp same with equal | ranges
  · rw [beq_iff_eq.mp equal]
  · unfold sameRangeInput at ranges
    split at ranges
    · rename_i leftRange rightRange
      obtain ⟨child, fields⟩ := Bool.and_eq_true_iff.mp ranges
      refine compositional left right (.inr fields) ?_
      rw [children_of_timeRange leftRange, children_of_timeRange rightRange, beq_iff_eq.mp child]
      exact .cons rfl .nil
    · cases ranges

theorem Compositional.sameConcreteBuild (compositional : Compositional text dag value)
    {left right : NodeRef} (same : sameConcreteBuild text dag left right = true) :
    value left = value right := by
  obtain ⟨inputs, fields⟩ := Bool.and_eq_true_iff.mp same
  obtain ⟨length, each⟩ := Bool.and_eq_true_iff.mp inputs
  refine compositional left right (.inr fields) (List.forall₂_iff_zip.mpr ⟨beq_iff_eq.mp length, ?_⟩)
  intro a b member
  exact compositional.sameInput (List.all_eq_true.mp each (a, b) member)

theorem Swapped.value_eq (swapped : Swapped input dag swaps ref new) (grown : dag.Extends input)
    (compositional : Compositional text dag value) (small : ref < input.size)
    (equal : ∀ old swap, swaps old = some swap → value old = value swap) : value ref = value new := by
  induction swapped with
  | swapped swap => exact equal _ _ swap
  | kept => rfl
  | @rebuilt ref new _ image _ _ _ _ node ih =>
    have original := grown.node small
    refine compositional ref new (.inl ?_) ?_
    · have own : ((input.node ref).operator.mapChildren image).mapChildren (fun _ => ()) =
          (input.node ref).operator.mapChildren fun _ => () := Operator.mapChildren_mapChildren _ _ _
      simp only [signature, Dag.ownFields, original, node, own]
    · have children : dag.children new = (dag.children ref).map image := by
        simp only [Dag.children, OperatorNode.children, original, node, Operator.children_mapChildren]
      rw [children, List.forall₂_map_right_iff, List.forall₂_same]
      intro child reads
      rw [Dag.children, original] at reads
      exact ih child reads ((input.child_lt reads).trans small)

end

end

end AsapPlanner.Pass2
