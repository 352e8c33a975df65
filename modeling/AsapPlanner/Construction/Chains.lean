import AsapPlanner.Construction.Expand

/-!
Which tumbling-window chains an expanded workload still holds, and which it lists. A window is built
over its chain's own input, so whatever chain lies below that input stays.
-/

namespace AsapPlanner.Construction
open Rust Traversal Ir Coverage Timing Relation

/-! ### Chains below a node -/

/-- A chain is reached from `ref`. -/
def HasChain (dag : Dag) (ref : NodeRef) : Prop :=
  ∃ other, dag.Reaches ref other ∧ isChain (dag.node other) = true

/-- A chain lies strictly below `ref`. -/
def HoldsChain (dag : Dag) (ref : NodeRef) : Prop := ∃ child ∈ dag.children ref, HasChain dag child

section Below
variable {dag later : Dag} {ref : NodeRef}

theorem hasChain_iff : HasChain dag ref ↔ isChain (dag.node ref) = true ∨ HoldsChain dag ref := by
  constructor
  · rintro ⟨other, reached, chain⟩
    rcases ReflTransGen.cases_head reached with same | ⟨child, reads, below⟩
    · exact .inl (same ▸ chain)
    · exact .inr ⟨child, reads, other, below, chain⟩
  · rintro (chain | ⟨child, reads, other, below, chain⟩)
    · exact ⟨ref, .refl, chain⟩
    · exact ⟨other, .head reads below, chain⟩

theorem hasChain_of_not_chain (plain : isChain (dag.node ref) = false) :
    HasChain dag ref ↔ HoldsChain dag ref := by
  rw [hasChain_iff, plain]
  simp

theorem hasChain_grown (grown : later.Extends dag) (inside : ref < dag.size) :
    HasChain later ref ↔ HasChain dag ref := by
  constructor
  · rintro ⟨other, reached, chain⟩
    obtain ⟨before, here⟩ := grown.reaches inside reached
    exact ⟨other, before, grown.node here ▸ chain⟩
  · rintro ⟨other, reached, chain⟩
    have here : other < dag.size := Nat.lt_of_le_of_lt reached.le inside
    refine ⟨other, ?_, (grown.node here).symm ▸ chain⟩
    clear chain
    induction reached with
    | refl => exact .refl
    | @tail mid last path reads ih =>
      have midInside : mid < dag.size := Nat.lt_of_le_of_lt (Dag.Reaches.le path) inside
      refine (ih midInside).tail ?_
      unfold Dag.children
      rw [grown.node midInside]
      exact reads

theorem holdsChain_grown (grown : later.Extends dag) (inside : ref < dag.size) :
    HoldsChain later ref ↔ HoldsChain dag ref := by
  unfold HoldsChain Dag.children
  rw [grown.node inside]
  apply exists_congr
  intro child
  apply and_congr_right
  intro reads
  exact hasChain_grown grown (Nat.lt_trans (dag.child_lt reads) inside)

end Below

/-! ### Timed copies -/

theorem isChain_build (op : Operator NodeRef) (images : List NodeRef) {node copy : OperatorNode}
    (original : node.operator = op) (built : copy.operator = op.walk.build images) :
    isChain copy = isChain node := by
  unfold isChain chainFields OperatorNode.asap
  rw [original, built]
  cases op with
  | nonASAP op => rfl
  | asap op => cases op <;> rfl

def shareTimed (timing : ExecutionTiming) (child : NodeRef) : StateM Dag NodeRef := fun dag =>
  if (dag.node child).timing.isSome then (child, dag)
  else
    let copy := timedLike timing child dag
    copy.2.alloc copy.1

theorem timedLike_eq (timing : ExecutionTiming) (ref : NodeRef) (dag : Dag) :
    timedLike timing ref dag =
      (let images := (dag.node ref).operator.walk.refs.attach.mapM
        (fun child => shareTimed timing child.1) dag
      ({ images.2.withSchema ((dag.node ref).operator.walk.build images.1) (dag.node ref).schema with
          guarantee := (dag.node ref).guarantee
          timing := some timing
          materialization := (dag.node ref).materialization }, images.2)) := by
  have child : (fun child : { child // child ∈ (dag.node ref).operator.walk.refs } => do
      if ((← get).node child.1).timing.isSome then pure child.1
      else
        let copy ← timedLike timing child.1
        fun dag => dag.alloc copy) = fun child => shareTimed timing child.1 := by
    funext child dag
    change (if (dag.node child.1).timing.isSome then pure child.1 else _ : StateM Dag NodeRef) dag = _
    unfold shareTimed
    split <;> rfl
  rw [timedLike]
  change (((dag.node ref).operator.walk.refs.attach.mapM _ >>= fun _ => _ : StateM Dag _) dag) = _
  rw [child]
  rfl

theorem timedLike_ok {timing : ExecutionTiming} {dag : Dag} {ref : NodeRef}
    (inside : ref < dag.size) :
    (timedLike timing ref dag).2.Extends dag ∧
      (∀ held ∈ (timedLike timing ref dag).1.refs, held < (timedLike timing ref dag).2.size) ∧
      (∃ images, (timedLike timing ref dag).1.operator = (dag.node ref).operator.walk.build images) ∧
      ((∃ child ∈ (timedLike timing ref dag).1.children, HasChain (timedLike timing ref dag).2 child) ↔
        HoldsChain dag ref) := by
  induction ref using Nat.strongRecOn generalizing dag with
  | ind ref ih =>
    have each : ∀ child ∈ (dag.node ref).operator.walk.refs.attach, ∀ t : Dag, t.Extends dag →
        (shareTimed timing child.1 t).2.Extends dag ∧ (shareTimed timing child.1 t).2.Extends t ∧
          (shareTimed timing child.1 t).1 < (shareTimed timing child.1 t).2.size ∧
          (HasChain (shareTimed timing child.1 t).2 (shareTimed timing child.1 t).1 ↔
            HasChain dag child.1) := by
      intro child _ t grown
      have below := dag.child_lt ((Operator.mem_refs_walk _).mp child.2)
      have childInside : child.1 < dag.size := Nat.lt_trans below inside
      have later : child.1 < t.size := Nat.lt_of_lt_of_le childInside grown.size_le
      unfold shareTimed
      split
      · exact ⟨grown, Dag.Extends.refl t, later, hasChain_grown grown childInside⟩
      · obtain ⟨extends', earlier, ⟨images, operator⟩, chains⟩ := ih child.1 below later
        have made := Dag.alloc_node earlier
        have size := Dag.alloc_size earlier
        have grown' := Dag.alloc_extends (timedLike timing child.1 t).2 (timedLike timing child.1 t).1
        refine ⟨grown.trans (extends'.trans grown'), extends'.trans grown', ?_, ?_⟩
        · rw [Dag.alloc_ref, size]
          exact Nat.lt_succ_self _
        · rw [Dag.alloc_ref, ← hasChain_grown grown childInside, hasChain_iff, hasChain_iff, made,
            isChain_build _ images rfl operator, ← chains]
          apply or_congr Iff.rfl
          unfold HoldsChain Dag.children
          rw [made]
          apply exists_congr
          intro copied
          apply and_congr_right
          intro reads
          exact hasChain_grown grown' (earlier copied (List.mem_append_left _ reads))
    have trans : ∀ a b c : Dag, b.Extends a → c.Extends b → c.Extends a :=
      fun a b c first second => first.trans second
    have stable : ∀ (child : { child // child ∈ (dag.node ref).operator.walk.refs }) (image : NodeRef)
        (t t' : Dag), (image < t.size ∧ (HasChain t image ↔ HasChain dag child.1)) → t'.Extends t →
        image < t'.size ∧ (HasChain t' image ↔ HasChain dag child.1) :=
      fun child image t t' ⟨here, chains⟩ grown =>
        ⟨Nat.lt_of_lt_of_le here grown.size_le, (hasChain_grown grown here).trans chains⟩
    obtain ⟨grown, _, images⟩ := @mapM_kept _ _ _ (fun t : Dag => t.Extends dag)
      (fun t t' : Dag => t'.Extends t) _ _ Dag.Extends.refl trans stable _ each _ (Dag.Extends.refl dag)
    rw [timedLike_eq]
    dsimp only
    generalize (dag.node ref).operator.walk.refs.attach.mapM
      (fun child => shareTimed timing child.1) dag = run at grown images
    have length : run.1.length = (dag.node ref).operator.walk.refs.length :=
      images.length_eq.symm.trans List.length_attach
    have finds := fun d => (dag.node ref).operator.finds_children run.1 length d
    have inBoth : ∀ image ∈ run.1, ∃ child ∈ dag.children ref,
        image < run.2.size ∧ (HasChain run.2 image ↔ HasChain dag child) := by
      intro image member
      obtain ⟨child, here⟩ := exists_of_forall₂ images.flip image member
      exact ⟨child.1, (Operator.mem_refs_walk _).mp child.2, here⟩
    refine ⟨grown, ?_, ⟨run.1, rfl⟩, ?_⟩
    · intro held holds
      rcases List.mem_append.mp holds with reads | kept
      · obtain ⟨_, _, here, _⟩ := inBoth held ((finds held).mp reads)
        exact here
      · change held ∈ ((dag.node ref).operator.walk.build run.1).held.toList at kept
        rw [Operator.held_build] at kept
        have before := dag.held_lt (Option.mem_toList.mp kept)
        exact Nat.lt_of_lt_of_le (Nat.lt_trans before inside) grown.size_le
    · constructor
      · rintro ⟨image, reads, chain⟩
        obtain ⟨child, original, _, chains⟩ := inBoth image ((finds image).mp reads)
        exact ⟨child, original, chains.mp chain⟩
      · rintro ⟨child, original, chain⟩
        obtain ⟨image, member, _, chains⟩ := mem_of_forall₂ images
          ⟨child, (Operator.mem_refs_walk _).mpr original⟩ (List.mem_attach _ _)
        exact ⟨image, (finds image).mpr member, chains.mpr chain⟩

/-! ### Tumbling windows -/

section Window
variable {dag dag' : Dag} {ref child chain : NodeRef} {text : LeafText}

theorem fail_ok {α : Type} {message : String} {a : α}
    (run : fail message dag = .ok (a, dag')) : False := by
  cases (lift_ok run).1

theorem share_ok {node : OperatorNode} (earlier : ∀ held ∈ node.refs, held < dag.size)
    (run : share node dag = .ok (ref, dag')) :
    dag'.Extends dag ∧ ref < dag'.size ∧ dag'.node ref = node := by
  have made : dag.alloc node = (ref, dag') := Except.ok.inj run
  have first : dag.size = ref := (Dag.alloc_ref dag node).symm.trans (congrArg Prod.fst made)
  have second : (dag.alloc node).2 = dag' := congrArg Prod.snd made
  rw [← first, ← second, Dag.alloc_size earlier, Dag.alloc_node earlier]
  exact ⟨Dag.alloc_extends dag node, Nat.lt_succ_self _, rfl⟩

theorem newPassing_ok {op : NonASAPOp NodeRef} (reads : op.children = [child])
    (inside : child < dag.size) (run : newPassing op child dag = .ok (ref, dag')) :
    dag'.Extends dag ∧ ref < dag'.size ∧ (HasChain dag' ref ↔ HasChain dag child) := by
  unfold newPassing at run
  obtain ⟨_, _, read, run⟩ := bind_ok run
  cases read
  have earlier : ∀ held ∈ OperatorNode.refs (dag.withSchema (.nonASAP op) (dag.node child).schema),
      held < dag.size := by
    intro held holds
    change held ∈ op.children ++ [] at holds
    rw [reads, List.append_nil, List.mem_singleton] at holds
    exact holds ▸ inside
  obtain ⟨grown, made, node⟩ := share_ok earlier run
  refine ⟨grown, made, ?_⟩
  have plain : isChain (dag'.node ref) = false := by
    rw [node]
    rfl
  have children : dag'.children ref = [child] := by
    unfold Dag.children
    rw [node]
    exact reads
  rw [hasChain_of_not_chain plain, ← hasChain_grown grown inside]
  unfold HoldsChain
  rw [children]
  simp

theorem hasChain_timeShift {shift : TimeShift} {input : NodeRef}
    (node : (dag.node child).nonAsap = some (.timeShift shift input)) :
    HasChain dag child ↔ HasChain dag input := by
  unfold OperatorNode.nonAsap at node
  cases shape : (dag.node child).operator with
  | asap op => simp [shape] at node
  | nonASAP op =>
    rw [shape] at node
    cases node
    have plain : isChain (dag.node child) = false := by
      unfold isChain chainFields OperatorNode.asap
      rw [shape]
      rfl
    rw [hasChain_of_not_chain plain]
    unfold HoldsChain Dag.children OperatorNode.children
    rw [shape]
    simp [Operator.children, NonASAPOp.children, NonASAPOp.inputs, NonASAPOp.scalarExprs]

theorem input_lt {op : NonASAPOp NodeRef} {input : NodeRef} (inside : child < dag.size)
    (node : (dag.node child).nonAsap = some op) (reads : input ∈ op.children) : input < dag.size := by
  have below : input ∈ dag.children child := by
    unfold OperatorNode.nonAsap at node
    unfold Dag.children OperatorNode.children
    cases shape : (dag.node child).operator with
    | asap op => simp [shape] at node
    | nonASAP op =>
      rw [shape] at node
      cases node
      exact reads
  exact Nat.lt_trans (dag.child_lt below) inside

theorem shifted_ok {back : Int} (inside : child < dag.size)
    (run : shifted child back dag = .ok (ref, dag')) :
    dag'.Extends dag ∧ ref < dag'.size ∧ (HasChain dag' ref ↔ HasChain dag child) := by
  unfold shifted at run
  split at run
  · cases run
    exact ⟨Dag.Extends.refl dag, inside, Iff.rfl⟩
  · obtain ⟨_, _, read, run⟩ := bind_ok run
    cases read
    generalize folded : (dag.node child).nonAsap = op at run
    cases op with
    | none => exact newPassing_ok rfl inside run
    | some op =>
      cases op with
      | timeShift shift input =>
        dsimp only at run
        split at run
        · have inputInside : input < dag.size := input_lt inside folded List.mem_cons_self
          obtain ⟨grown, made, chains⟩ := newPassing_ok rfl inputInside run
          exact ⟨grown, made, chains.trans (hasChain_timeShift folded).symm⟩
        · exact (fail_ok run).elim
      | _ => exact newPassing_ok rfl inside run

theorem chain_children {fields : ChainFields} (isChain' : chainFields (dag.node chain) = some fields)
    (inside : chain < dag.size) :
    dag.children chain = fields.child :: fields.filter.toList.flatMap (·.expr.operatorRefs) ∧
      fields.child < dag.size := by
  have children : dag.children chain =
      fields.child :: fields.filter.toList.flatMap (·.expr.operatorRefs) := by
    unfold chainFields OperatorNode.asap at isChain'
    unfold Dag.children OperatorNode.children
    cases shape : (dag.node chain).operator with
    | nonASAP op => simp [shape] at isChain'
    | asap op =>
      rw [shape] at isChain'
      cases op with
      | summaryTumblingWindowChain =>
        cases isChain'
        rfl
      | _ => cases isChain'
  refine ⟨children, Nat.lt_trans (dag.child_lt ?_) inside⟩
  rw [children]
  exact List.mem_cons_self

theorem buildOver_ok {node build : OperatorNode} {fields : ChainFields} {input : NodeRef}
    (run : buildOver text node fields input dag = .ok (build, dag')) :
    dag = dag' ∧ build.operator = .asap (.summaryAgg input fields.family fields.input
      fields.reduction fields.grouping fields.filter) := by
  unfold buildOver newBuild at run
  obtain ⟨_, _, derived, run⟩ := bind_ok run
  obtain ⟨_, _, read, derived⟩ := bind_ok derived
  cases read
  obtain ⟨_, _, schema, derived⟩ := bind_ok derived
  obtain ⟨_, same⟩ := lift_ok schema
  obtain ⟨made, same'⟩ := pure_ok derived
  obtain ⟨named, same''⟩ := pure_ok run
  rw [← named, ← made]
  exact ⟨same.trans (same'.trans same''), rfl⟩

theorem tumblingWindow_ok {fields : ChainFields} {index : Nat}
    (isChain' : chainFields (dag.node chain) = some fields) (inside : chain < dag.size)
    (run : (do
      let window ← tumblingWindow text (dag.node chain) index
      share window) dag = .ok (ref, dag')) :
    dag'.Extends dag ∧ ref < dag'.size ∧ (HasChain dag' ref ↔ HoldsChain dag chain) ∧
      ∃ input, (dag'.node ref).asap = some (.summaryAgg input fields.family fields.input
        fields.reduction fields.grouping fields.filter) := by
  obtain ⟨window, one, run, shares⟩ := bind_ok run
  unfold tumblingWindow at run
  rw [isChain'] at run
  dsimp only at run
  split at run
  · obtain ⟨shifted', two, shifts, run⟩ := bind_ok run
    obtain ⟨ranged, three, ranges, run⟩ := bind_ok run
    obtain ⟨children, childInside⟩ := chain_children isChain' inside
    obtain ⟨grown, made, chains⟩ := shifted_ok childInside shifts
    obtain ⟨grown', made', chains'⟩ := newPassing_ok rfl made ranges
    obtain ⟨same, operator⟩ := buildOver_ok run
    rw [← same] at shares
    have whole := grown.trans grown'
    have filters : ∀ held ∈ fields.filter.toList.flatMap (·.expr.operatorRefs), held < dag.size :=
      fun held holds => Nat.lt_trans
        (dag.child_lt (children ▸ List.mem_cons_of_mem _ holds)) inside
    have earlier : ∀ held ∈ window.refs, held < three.size := by
      intro held holds
      unfold OperatorNode.refs OperatorNode.children at holds
      rw [operator] at holds
      simp only [Operator.children, ASAPOp.children, Operator.held, ASAPOp.held, Option.toList_none,
        List.append_nil] at holds
      rcases List.mem_cons.mp holds with first | rest
      · exact first ▸ made'
      · exact Nat.lt_of_lt_of_le (filters held rest) whole.size_le
    obtain ⟨grown'', here, node⟩ := share_ok earlier shares
    refine ⟨whole.trans grown'', here, ?_, ranged, ?_⟩
    · have plain : isChain (dag'.node ref) = false := by
        unfold isChain chainFields OperatorNode.asap
        rw [node, operator]
        rfl
      have below : dag'.children ref =
          ranged :: fields.filter.toList.flatMap (·.expr.operatorRefs) := by
        unfold Dag.children OperatorNode.children
        rw [node, operator]
        rfl
      rw [hasChain_of_not_chain plain]
      unfold HoldsChain
      rw [below, children, List.exists_mem_cons_iff, List.exists_mem_cons_iff,
        hasChain_grown grown'' made', chains', chains]
      apply or_congr Iff.rfl
      apply exists_congr
      intro held
      apply and_congr_right
      intro holds
      exact hasChain_grown (whole.trans grown'') (filters held holds)
    · unfold OperatorNode.asap
      rw [node, operator]
  · exact (fail_ok run).elim

theorem construct_ok {α : Type} {m : Building α} {state state' : Expanding} {a : α}
    (run : construct m state = .ok (a, state')) :
    m state.dag = .ok (a, state'.dag) ∧ state' = { state with dag := state'.dag } := by
  unfold construct at run
  split at run
  · rename_i made
    cases run
    exact ⟨made, rfl⟩
  · cases run

/-- A build of the chain's family, update and grouping. -/
def BuildOf (fields : ChainFields) (node : OperatorNode) : Prop :=
  ∃ input filter, node.asap = some (.summaryAgg input fields.family fields.input fields.reduction
    fields.grouping filter)

theorem makeWindow_ok {fields : ChainFields} {index : Nat} {state state' : Expanding}
    (isChain' : chainFields (state.dag.node chain) = some fields) (inside : chain < state.dag.size)
    (run : makeWindow text chain index state = .ok (ref, state')) :
    state'.dag.Extends state.dag ∧ state' = { state with dag := state'.dag } ∧
      ref < state'.dag.size ∧ (HasChain state'.dag ref ↔ HoldsChain state.dag chain) ∧
      BuildOf fields (state'.dag.node ref) := by
  unfold makeWindow at run
  obtain ⟨_, _, read, run⟩ := bind_ok run
  cases read
  obtain ⟨window, untimed, builds, run⟩ := bind_ok run
  obtain ⟨builds, kept⟩ := construct_ok builds
  obtain ⟨grown, made, chains, input, asap⟩ := tumblingWindow_ok isChain' inside builds
  generalize (state.dag.node chain).timing = timing at run
  cases timing with
  | none =>
    obtain ⟨same, same'⟩ := pure_ok run
    rw [← same, ← same']
    exact ⟨grown, kept, made, chains, input, fields.filter, asap⟩
  | some timing =>
    obtain ⟨grown', earlier, ⟨images, operator⟩, chains'⟩ := @timedLike_ok timing _ _ made
    have alloc : Expanding.alloc { (timedLike timing window untimed.dag).1 with
        materialization := (state.dag.node chain).materialization }
        { untimed with dag := (timedLike timing window untimed.dag).2 } = .ok (ref, state') := run
    generalize timedLike timing window untimed.dag = copied at *
    cases alloc
    dsimp only
    generalize stored : { copied.1 with materialization := (state.dag.node chain).materialization } =
      node
    have earlier' : ∀ held ∈ node.refs, held < copied.2.size := stored ▸ earlier
    have grown'' := Dag.alloc_extends copied.2 node
    have here := Dag.alloc_node earlier'
    have operator' : node.operator = (untimed.dag.node window).operator.walk.build images :=
      stored ▸ operator
    rw [Dag.alloc_ref, Dag.alloc_size earlier', here]
    refine ⟨grown.trans (grown'.trans grown''), ?_, Nat.lt_succ_self _, ?_, ?_⟩
    · rw [kept]
    · rw [← chains, hasChain_iff, here, isChain_build _ images rfl operator', hasChain_iff, ← chains']
      apply or_congr Iff.rfl
      have children : node.children = copied.1.children := stored ▸ rfl
      unfold HoldsChain Dag.children
      rw [here, children]
      apply exists_congr
      intro child
      apply and_congr_right
      intro reads
      exact hasChain_grown grown'' (earlier' child (List.mem_append_left _ (children ▸ reads)))
    · unfold BuildOf OperatorNode.asap
      unfold OperatorNode.asap at asap
      cases shape : (untimed.dag.node window).operator with
      | nonASAP op => simp [shape] at asap
      | asap op =>
        rw [shape] at asap operator'
        cases asap
        rw [operator']
        exact ⟨_, _, rfl⟩

end Window
end AsapPlanner.Construction
