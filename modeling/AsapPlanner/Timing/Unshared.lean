import AsapPlanner.Timing.Conflicts
import AsapPlanner.Timing.Live

/-!
A timed store by its occurrences. Every occurrence of a node is placed for its own consumer, as if nothing
were shared.
-/

namespace AsapPlanner.Timing
open Rust Traversal Ir

section Timed
variable {text : LeafText} {assignment : MaterializationAssignment} {input : Dag} {pass : Pass}

theorem placed_materialization {ref : NodeRef} {consumer consumer' timing timing' : ExecutionTiming}
    {m m' : Materialization} (left : placed assignment input ref consumer = .ok (timing, m))
    (right : placed assignment input ref consumer' = .ok (timing', m')) : m = m' := by
  have same : (placed assignment input ref consumer).map Prod.snd =
      (placed assignment input ref consumer').map Prod.snd := by
    unfold placed placedBy placeOption
    dsimp only
    repeat' split
    all_goals rfl
  rw [left, right] at same
  cases same
  rfl

/-- The node placed for a consumer has the placement it gets under that consumer. -/
structure PlacedAt (assignment : MaterializationAssignment) (input dag : Dag) (ref : NodeRef)
    (consumer : ExecutionTiming) (timed : NodeRef) : Prop where
  placed : ∃ timing materialization,
    Timing.placed assignment input ref consumer = .ok (timing, materialization) ∧
      (dag.node timed).timing = some timing ∧ (dag.node timed).materialization = materialization

theorem PlacedUnder.at {ref timed : NodeRef} {consumer : ExecutionTiming}
    (kept : Inv assignment input pass) (here : PlacedUnder assignment input pass ref consumer timed) :
    PlacedAt assignment input pass.dag ref consumer timed := by
  obtain ⟨timing, materialization, found, at_⟩ := here.timing
  obtain ⟨first, _, placed, _⟩ := (kept.written ref timed here.recorded).placed
  exact ⟨timing, materialization, found, at_, placed_materialization placed found⟩

theorem timed_occurrence {ref timed found : NodeRef} {consumer timing : ExecutionTiming}
    (kept : Inv assignment input pass) (here : PlacedUnder assignment input pass ref consumer timed)
    {path : List Nat} (occurs : occurrence assignment input ref consumer path = some (found, timing)) :
    ∃ node, nodeAt pass.dag timed path = some node ∧
      PlacedUnder assignment input pass found timing node := by
  induction path generalizing ref consumer timed with
  | nil =>
    cases occurs
    exact ⟨timed, rfl, here⟩
  | cons position path ih =>
    obtain ⟨runs, _, placed, at_⟩ := here.timing
    obtain ⟨_, runs', _, at', image, operator, below⟩ :=
      (kept.written ref timed here.recorded).placed
    cases at_.symm.trans at'
    have mapped : pass.dag.children timed = (input.children ref).map image := by
      unfold Dag.children OperatorNode.children
      rw [operator, Operator.children_mapChildren]
    unfold occurrence at occurs
    unfold nodeAt
    dsimp only at occurs
    rw [timingOf_placed placed] at occurs
    rw [mapped, List.getElem?_map]
    cases read : (input.children ref)[position]? with
    | none =>
      rw [read] at occurs
      cases occurs
    | some child =>
      rw [read] at occurs
      exact ih (below child (List.mem_of_getElem? read)) occurs

theorem applyToRoots_ok {roots : List NodeRef} {timed : List QueryRoot}
    (run : applyMaterializationTimingsToRoots text assignment input (roots.map .operator) =
      .ok (timed, pass)) :
    Inv assignment input pass ∧ ∃ nodes : List NodeRef, timed = nodes.map .operator ∧
      List.Forall₂ (PlacedUnder assignment input pass · .queryTime) roots nodes := by
  let placed : QueryRoot → QueryRoot → Pass → Prop := fun root timed pass =>
    ∃ ref node, root = .operator ref ∧ timed = .operator node ∧
      PlacedUnder assignment input pass ref .queryTime node
  have stable : ∀ root timed before after, placed root timed before → Grown before after →
      placed root timed after := by
    intro root timed before after here grown
    obtain ⟨ref, node, same, same', under⟩ := here
    exact ⟨ref, node, same, same', under.grow grown⟩
  have each : ∀ root ∈ roots.map QueryRoot.operator, ∀ timed t t', Inv assignment input t →
      applyToRoot text assignment input root t = .ok (timed, t') →
      Inv assignment input t' ∧ Grown t t' ∧ placed root timed t' := by
    intro root member timed t t' kept here
    obtain ⟨ref, _, rfl⟩ := List.mem_map.mp member
    unfold applyToRoot at here
    obtain ⟨node, after, applied, here⟩ := bind_ok here
    obtain ⟨rfl, rfl⟩ := pure_ok here
    obtain ⟨kept', grown, under, _⟩ := apply_ok kept applied
    exact ⟨kept', grown, ref, node, rfl, rfl, under⟩
  obtain ⟨kept, _, all⟩ := mapM_ok Grown.refl (fun _ _ _ => Grown.trans) stable each inv_start run
  refine ⟨kept, ?_⟩
  rw [List.forall₂_map_left_iff] at all
  clear run each
  induction all with
  | nil => exact ⟨[], rfl, .nil⟩
  | cons here _ ih =>
    obtain ⟨nodes, rfl, others⟩ := ih
    obtain ⟨_, node, same, rfl, under⟩ := here
    cases same
    exact ⟨node :: nodes, rfl, .cons under others⟩

end Timed

/-! ### Roots -/

theorem getElem?_of_forall₂ {α β : Type} {R : α → β → Prop} {items : List α} {images : List β}
    (related : List.Forall₂ R items images) (position : Nat) :
    (items[position]? = none ∧ images[position]? = none) ∨
      ∃ item image, items[position]? = some item ∧ images[position]? = some image ∧ R item image := by
  induction related generalizing position with
  | nil => exact .inl ⟨rfl, rfl⟩
  | cons here _ ih =>
    cases position with
    | zero => exact .inr ⟨_, _, rfl, rfl, here⟩
    | succ position => exact ih position

/-- A store of copies with its roots: occurrences that share a node may have nodes of their own, down to
the tree in which each of them does. -/
structure Covering (assignment : MaterializationAssignment) (input : Dag) (roots : List NodeRef) where
  dag : Dag
  tops : List NodeRef
  assigned : MaterializationAssignment
  copies : NodeRef → NodeRef → Prop
  covers : Copies dag input copies
  keeps : Keeps assigned assignment copies
  rooted : List.Forall₂ (fun root top => copies top root) roots tops

section Roots
variable {assignment : MaterializationAssignment} {input : Dag} {roots : List NodeRef}

theorem Covering.occurs (covering : Covering assignment input roots) {root : Nat} {path : List Nat}
    {found : NodeRef} {consumer : ExecutionTiming}
    (here : occurrenceAt assignment input roots root path = some (found, consumer)) :
    ∃ copy, occurrenceAt covering.assigned covering.dag covering.tops root path = some (copy, consumer) ∧
      placed covering.assigned covering.dag copy consumer = placed assignment input found consumer := by
  unfold occurrenceAt at here ⊢
  rcases getElem?_of_forall₂ covering.rooted root with ⟨none, _⟩ | ⟨ref, top, some, some', copied⟩
  · rw [none] at here
    cases here
  · rw [some] at here
    rw [some']
    rcases @occurrence_copies _ _ _ _ _ _ _ .queryTime covering.covers covering.keeps copied path with
      ⟨_, none⟩ | ⟨copy, original, consumer', at', at_, below⟩
    · cases none.symm.trans here
    · cases at_.symm.trans here
      exact ⟨copy, at', placed_copies covering.covers covering.keeps below⟩

variable {split : SplitRoots} {copies : NodeRef → ExecutionTiming → NodeRef → Prop}
  (splits : Splits assignment input roots split copies)
include splits

/-- The split roots are such copies: a node has one for each of its timings. -/
def Splits.covering : Covering assignment input roots where
  dag := split.dag
  tops := split.roots
  assigned := split.assignment
  copies out ref := ∃ timing, copies ref timing out
  covers := splits.covers
  keeps := splits.keeps
  rooted := splits.roots.imp fun _ _ copied => ⟨_, copied⟩

theorem Splits.occurs (root : Nat) (path : List Nat) :
    (rootAt split.dag split.roots root path = none ∧
        occurrenceAt assignment input roots root path = none) ∨
      ∃ found' found consumer, rootAt split.dag split.roots root path = some found' ∧
        occurrenceAt split.assignment split.dag split.roots root path = some (found', consumer) ∧
        occurrenceAt assignment input roots root path = some (found, consumer) ∧
        copies found (Timing.timingOf assignment input found consumer) found' := by
  unfold rootAt occurrenceAt
  rcases getElem?_of_forall₂ splits.roots root with ⟨none, none'⟩ | ⟨ref, out, some, some', copied⟩
  · rw [none, none']
    exact .inl ⟨rfl, rfl⟩
  · rw [some, some']
    have walked := @nodeAt_occurrence split.assignment split.dag out .queryTime path
    rcases splits.occurrence copied path with ⟨none', none⟩ | ⟨found', found, consumer, at', at_, here⟩
    · rw [none'] at walked
      exact .inl ⟨walked, none⟩
    · rw [at'] at walked
      exact .inr ⟨found', found, consumer, walked, at', at_, here⟩

theorem Splits.labels : Labels split.assignment split.dag fun out timing => ∃ ref, copies ref timing out where
  single left right := by
    obtain ⟨_, here⟩ := left
    obtain ⟨_, there⟩ := right
    exact ((splits.same here there).mp rfl).2
  below label child reads := by
    obtain ⟨ref, here⟩ := label
    obtain ⟨image, mapped, below⟩ := splits.children here
    rw [mapped] at reads
    obtain ⟨original, read, rfl⟩ := List.mem_map.mp reads
    have there := below original read
    exact ⟨original, splits.timingOf there ▸ there⟩

theorem Splits.same_iff {root root' : Nat} {path path' : List Nat}
    {out out' found found' : NodeRef} {consumer consumer' : ExecutionTiming}
    (here : rootAt split.dag split.roots root path = some out)
    (at_ : occurrenceAt assignment input roots root path = some (found, consumer))
    (there : rootAt split.dag split.roots root' path' = some out')
    (at' : occurrenceAt assignment input roots root' path' = some (found', consumer')) :
    out = out' ↔ found = found' ∧ Timing.timingOf assignment input found consumer =
      Timing.timingOf assignment input found' consumer' := by
  rcases splits.occurs root path with ⟨none, _⟩ | ⟨_, _, _, is, _, was, copied⟩
  · cases none.symm.trans here
  rcases splits.occurs root' path' with ⟨none, _⟩ | ⟨_, _, _, is', _, was', copied'⟩
  · cases none.symm.trans there
  cases is.symm.trans here
  cases was.symm.trans at_
  cases is'.symm.trans there
  cases was'.symm.trans at'
  exact splits.same copied copied'

theorem Splits.timed {text : LeafText} {pass : Pass} {timed : List QueryRoot}
    (run : applyMaterializationTimingsToRoots text split.assignment split.dag
      (split.roots.map .operator) = .ok (timed, pass)) :
    ∃ nodes : List NodeRef, timed = nodes.map .operator ∧ ∀ root path found consumer,
      occurrenceAt assignment input roots root path = some (found, consumer) →
      ∃ node, rootAt pass.dag nodes root path = some node ∧
        PlacedAt assignment input pass.dag found consumer node := by
  obtain ⟨kept, nodes, same, written⟩ := applyToRoots_ok run
  refine ⟨nodes, same, fun root path found consumer here => ?_⟩
  rcases splits.occurs root path with ⟨_, none⟩ | ⟨found', _, _, _, at', at_, copied⟩
  · cases none.symm.trans here
  cases at_.symm.trans here
  unfold occurrenceAt at at'
  unfold rootAt
  rcases getElem?_of_forall₂ written root with ⟨none, _⟩ | ⟨ref, node, some, some', under⟩
  · rw [none] at at'
    cases at'
  · rw [some] at at'
    rw [some']
    obtain ⟨timedNode, found, placedUnder⟩ := timed_occurrence kept under at'
    obtain ⟨timing, materialization, placed, isAt, isStored⟩ := (placedUnder.at kept).placed
    refine ⟨timedNode, found, timing, materialization, ?_, isAt, isStored⟩
    rw [← placed]
    exact (placed_copies splits.covers splits.keeps ⟨_, copied⟩).symm

end Roots

/-- After splitting, timing never meets a conflict, and times every occurrence as if nothing were shared. -/
theorem splitSharedByTiming_unshares (text : LeafText) {assignment : MaterializationAssignment}
    {input : Dag} {roots : List NodeRef} (constructed : Constructed input)
    (inside : ∀ root ∈ roots, root < input.size)
    (assigned : ∀ ref materialization, assignment.get ref = some materialization → ref < input.size) :
    let split := splitSharedByTiming assignment input roots
    let timedRoots := applyMaterializationTimingsToRoots text split.assignment split.dag
      (split.roots.map .operator)
    (∀ first second, timedRoots ≠ .error (.conflictingTiming first second)) ∧
    List.Forall₂ (fun root out => split.dag.datumOf out = input.datumOf root) roots split.roots ∧
    (∀ root path, (rootAt split.dag split.roots root path).isSome =
      (occurrenceAt assignment input roots root path).isSome) ∧
    (∀ root path out found consumer, rootAt split.dag split.roots root path = some out →
      occurrenceAt assignment input roots root path = some (found, consumer) →
      (∃ image, split.dag.node out = (input.node found).mapChildren image) ∧
      split.assignment.get out = assignment.get found ∧
      ∀ root' path' out' found' consumer', rootAt split.dag split.roots root' path' = some out' →
        occurrenceAt assignment input roots root' path' = some (found', consumer') →
        (out = out' ↔ found = found' ∧
          timingOf assignment input found consumer = timingOf assignment input found' consumer')) ∧
    ∀ timed pass, timedRoots = .ok (timed, pass) →
      ∃ nodes : List NodeRef, timed = nodes.map .operator ∧ ∀ root path found consumer,
        occurrenceAt assignment input roots root path = some (found, consumer) →
        ∃ node, rootAt pass.dag nodes root path = some node ∧
          PlacedAt assignment input pass.dag found consumer node ∧
          ∀ covering : Covering assignment input roots, ∃ copy,
            occurrenceAt covering.assigned covering.dag covering.tops root path = some (copy, consumer) ∧
            PlacedAt covering.assigned covering.dag pass.dag copy consumer node := by
  obtain ⟨copies, splits⟩ := splitSharedByTiming_splits constructed inside assigned
  refine ⟨?_, ?_, ?_, ?_, ?_⟩
  · intro first second conflict
    refine applyToRoots_unconflicted splits.labels (fun root member => ?_) conflict first second rfl
    obtain ⟨ref, _, copied⟩ := mem_of_forall₂ splits.roots.flip root member
    exact ⟨ref, splits.timingOf copied ▸ copied⟩
  · exact splits.roots.imp fun root out copied => splits.covers.datumOf ⟨_, copied⟩
  · intro root path
    rcases splits.occurs root path with ⟨none, none'⟩ | ⟨_, _, _, some, _, some', _⟩
    · rw [none, none']
      rfl
    · rw [some, some']
      rfl
  · intro root path out found consumer here at_
    rcases splits.occurs root path with ⟨none, _⟩ | ⟨_, _, _, is, _, was, copied⟩
    · cases none.symm.trans here
    cases is.symm.trans here
    cases was.symm.trans at_
    obtain ⟨image, node, _⟩ := splits.node copied
    exact ⟨⟨image, node⟩, splits.get copied, fun _ _ _ _ _ there at' =>
      splits.same_iff here at_ there at'⟩
  · intro timed pass run
    obtain ⟨nodes, same, each⟩ := splits.timed run
    refine ⟨nodes, same, fun root path found consumer here => ?_⟩
    obtain ⟨node, there, placed⟩ := each root path found consumer here
    refine ⟨node, there, placed, fun covering => ?_⟩
    obtain ⟨copy, occurs, alike⟩ := covering.occurs here
    obtain ⟨timing, materialization, found, isAt, isStored⟩ := placed.placed
    exact ⟨copy, occurs, timing, materialization, alike.trans found, isAt, isStored⟩

/-! Samples summed at ingestion time and read as they are. -/

def sumBesideSamples : Dag :=
  Dag.ofNodes [samples "m", sumState 0 none, finalized 1, { (default : OperatorNode) with
    operator := .nonASAP (.concat [2, 0])
    resultKind := .instantVector
    schema := (finalized 1).schema }]

def conflicts (outcome : Except ExecutionDataStateError (List QueryRoot × Pass)) : Bool :=
  match outcome with
  | .error (.conflictingTiming ..) => true
  | _ => false

theorem sumBesideSamples_unshared :
    let stored := MaterializationAssignment.withDefault (.matAtIngestion .memory)
    let split := splitSharedByTiming stored sumBesideSamples [3]
    conflicts (applyMaterializationTimingsToRoots default stored sumBesideSamples [.operator 3]) = true ∧
      (applyMaterializationTimingsToRoots default split.assignment split.dag
        (split.roots.map .operator)).isOk = true ∧
      (∀ first second, applyMaterializationTimingsToRoots default split.assignment split.dag
        (split.roots.map .operator) ≠ .error (.conflictingTiming first second)) ∧
      rootAt split.dag split.roots 0 [0, 0, 0] = some 4 ∧ rootAt split.dag split.roots 0 [1] = some 7 := by
  intro stored split
  have constructed : Constructed sumBesideSamples := by
    unfold Constructed
    decide +kernel
  have unshared := @splitSharedByTiming_unshares default stored sumBesideSamples [3] constructed
    (by decide +kernel) (fun _ _ found => by cases found)
  exact ⟨by decide +kernel, by decide +kernel, unshared.1, by decide +kernel, by decide +kernel⟩

end AsapPlanner.Timing
