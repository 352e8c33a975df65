import AsapPlanner.TopK.Chain

/-!
The top-ks of a whole plan, implemented.
-/

namespace AsapPlanner.TopK
open Rust Ir Construction Canonical Traversal

variable {d : Derivation} {input : Dag}

/-! ### One node -/

theorem implementTopk_chain {node : OperatorNode} {state done : Implementing} {result : NodeRef}
    (inside : ∀ child implemented, state.cache child = some implemented → implemented < state.dag.size)
    (run : implementTopk d node state = .ok (result, done)) :
    done.dag.Extends state.dag ∧ done.cache = state.cache ∧
      ∃ keys k accuracy names filters child implemented sorted limited value field cols,
        node.operator = .nonASAP (.aggregate (.reduce keys) [.topK k accuracy] names filters none child) ∧
          ¬ filters.any Option.isSome = true ∧ state.cache child = some implemented ∧
          Chain d done.dag node keys k implemented result sorted limited value field cols := by
  have failed {error : Stop PhysicalASAPOptimizationError} : (Except.error error : Except _ _) ≠ .ok (result, done) :=
    nofun
  unfold implementTopk at run
  cases operator : node.operator with
  | asap op => exact absurd (operator ▸ run) failed
  | nonASAP op =>
    rw [operator] at run
    cases op with
    | aggregate reduction measures names filters having child =>
      cases reduction with
      | perEntity => exact absurd run failed
      | reduce keys =>
        match measures with
        | [] => exact absurd run failed
        | measure :: _ :: _ => cases measure <;> exact absurd run failed
        | [measure] =>
          cases measure with
          | topK k accuracy =>
            dsimp only at run
            by_cases filtered : filters.any Option.isSome = true
            · rw [if_pos filtered] at run
              exact absurd run failed
            · rw [if_neg filtered] at run
              cases having with
              | some pred => exact absurd run failed
              | none =>
                obtain ⟨_, _, got, run⟩ := bind_ok run
                cases got
                cases found : state.cache child with
                | none =>
                  rw [found] at run
                  exact absurd run failed
                | some implemented =>
                  rw [found] at run
                  obtain ⟨grown, cache, sorted, limited, value, field, cols, chain⟩ :=
                    rankedRows_chain (inside child implemented found) run
                  exact ⟨grown, cache, keys, k, accuracy, names, filters, child, implemented, sorted, limited,
                    value, field, cols, rfl, filtered, found, chain⟩
          | _ => exact absurd run failed
    | _ => exact absurd run failed

/-- A node without a top-k is implemented over its children's implementations: it is the node itself, or
its schema is derived anew. -/
structure Remade (d : Derivation) (input : Dag) (state : Implementing) (ref done : NodeRef)
    (image : NodeRef → NodeRef) : Prop where
  operator : (state.dag.node done).operator = (input.node ref).operator.mapChildren image
  schema : (state.dag.node done).schema = (input.node ref).schema ∨
    ∃ middle previous derived, middle.Extends input ∧ state.dag.Extends middle ∧
      (∀ child ∈ input.children ref, image child < middle.size) ∧
      outputSchema d middle (input.node ref).operator = .ok previous ∧
      outputSchema d middle ((input.node ref).operator.mapChildren image) = .ok derived ∧
      retainNames previous (input.node ref).schema derived = .ok (state.dag.node done).schema

theorem rebuilt_remade {state done : Implementing} {ref result : NodeRef}
    (inside : ∀ child implemented, state.cache child = some implemented → implemented < state.dag.size)
    (grown : state.dag.Extends input) (here : ref < input.size)
    (run : rebuilt d ref state = .ok (result, done)) :
    done.dag.Extends state.dag ∧ done.cache = state.cache ∧ result < done.dag.size ∧
      Remade d input done ref result fun child => (state.cache child).getD child := by
  have same := grown.node here
  have hereState := Nat.lt_of_lt_of_le here grown.size_le
  unfold rebuilt at run
  obtain ⟨_, _, got, run⟩ := bind_ok run
  cases got
  dsimp only at run
  rw [same] at run
  split at run
  · next unchanged =>
    cases run
    refine ⟨.refl _, rfl, hereState, ?_, .inl (by rw [same])⟩
    have node := @mapChildren_same input ref (fun child => (state.cache child).getD child) fun child member =>
        (of_decide_eq_true (List.all_eq_true.mp unchanged child member)).symm
    rw [same]
    exact (congrArg OperatorNode.operator node).symm
  · obtain ⟨schema, _, checks, run⟩ := bind_ok run
    obtain ⟨derives, rfl⟩ := checked_ok checks
    obtain ⟨previous, first, derives⟩ := bind_eq_ok derives
    obtain ⟨derived, second, retained⟩ := bind_eq_ok derives
    let operator := (input.node ref).operator.mapChildren fun child => (state.cache child).getD child
    let node : OperatorNode :=
      { state.dag.withSchema operator schema with guarantee := (input.node ref).guarantee }
    have imageInside : ∀ child ∈ input.children ref, (state.cache child).getD child < state.dag.size := by
      intro child listed
      cases found : state.cache child with
      | none =>
        rw [Option.getD_none]
        exact Nat.lt_trans (input.child_lt listed) hereState
      | some implemented => exact inside child implemented found
    have new : ∀ held ∈ node.refs, held < state.dag.size := by
      intro held member
      rcases List.mem_append.mp member with reads | holds
      · change held ∈ operator.children at reads
        rw [Operator.children_mapChildren] at reads
        obtain ⟨child, listed, rfl⟩ := List.mem_map.mp reads
        exact imageInside child listed
      · change held ∈ operator.held.toList at holds
        rw [Operator.held_mapChildren] at holds
        exact Nat.lt_trans (input.refs_lt (List.mem_append_right _ holds)) hereState
    have same : ((state.dag.alloc node).1, Implementing.mk (state.dag.alloc node).2 state.cache) =
        (result, done) := Except.ok.inj run
    obtain ⟨rfl, rfl⟩ := Prod.mk.inj same
    have stored : (state.dag.alloc node).2.node (state.dag.alloc node).1 = node := by
      rw [state.dag.alloc_ref node]
      exact Dag.alloc_node new
    refine ⟨state.dag.alloc_extends node, rfl, ?_, ?_, .inr ⟨state.dag, previous, derived, grown,
      state.dag.alloc_extends node, imageInside, first, second, ?_⟩⟩
    · dsimp only
      rw [state.dag.alloc_ref node, Dag.alloc_size new]
      exact Nat.lt_succ_self _
    · dsimp only
      rw [stored]
      rfl
    · dsimp only
      rw [stored]
      exact retained

/-! ### A whole plan -/

/-- A top-k of the plan has been implemented as a chain over its child's implementation. -/
def Settled (d : Derivation) (input : Dag) (state : Implementing) (ref done : NodeRef) : Prop :=
  ∃ keys k accuracy names filters child implemented sorted limited value field cols,
    (input.node ref).operator = .nonASAP (.aggregate (.reduce keys) [.topK k accuracy] names filters none child) ∧
      ¬ filters.any Option.isSome = true ∧ state.cache child = some implemented ∧
      Chain d state.dag (input.node ref) keys k implemented done sorted limited value field cols

/-- The nodes that implementing a plan reaches from its roots, short of those implemented before. -/
inductive Planned (input : Dag) (start : Cache NodeRef NodeRef) (roots : List NodeRef) : NodeRef → Prop
  | root {ref : NodeRef} (asked : ref ∈ roots) (fresh : start ref = none) : Planned input start roots ref
  | child {ref child : NodeRef} (planned : Planned input start roots ref) (reads : child ∈ input.children ref)
      (fresh : start child = none) : Planned input start roots child

theorem Planned.fresh {start : Cache NodeRef NodeRef} {roots : List NodeRef} {ref : NodeRef}
    (planned : Planned input start roots ref) : start ref = none := by
  cases planned <;> assumption

/-- The store starts with the plan, the run has put nodes of the plan in the cache after their children,
and each that it has put there is implemented. -/
structure Sound (d : Derivation) (input : Dag) (start : Cache NodeRef NodeRef) (roots : List NodeRef)
    (state : Implementing) : Prop where
  grown : state.dag.Extends input
  inside : ∀ ref done, state.cache ref = some done → done < state.dag.size
  begun : ∀ ref done, start ref = some done → state.cache ref = some done
  planned : ∀ ref done, start ref = none → state.cache ref = some done → Planned input start roots ref
  children : ∀ ref done, start ref = none → state.cache ref = some done →
    ∀ child ∈ input.children ref, ∃ implemented, state.cache child = some implemented
  settled : ∀ ref done, start ref = none → state.cache ref = some done → hasTopK (input.node ref) = true →
    Settled d input state ref done
  remade : ∀ ref done, start ref = none → state.cache ref = some done → hasTopK (input.node ref) = false →
    ∃ image, Remade d input state ref done image ∧
      ∀ child ∈ input.children ref, state.cache child = some (image child)

/-- The store and the cache have grown, the cache below a node only. -/
structure Grown (bound : NodeRef) (state later : Implementing) : Prop where
  dag : later.dag.Extends state.dag
  cache : ∀ ref done, state.cache ref = some done → later.cache ref = some done
  above : ∀ ref, bound ≤ ref → later.cache ref = state.cache ref

theorem Settled.grown {start later : Implementing} {ref done : NodeRef} (settled : Settled d input start ref done)
    (dag : later.dag.Extends start.dag)
    (cache : ∀ ref done, start.cache ref = some done → later.cache ref = some done) :
    Settled d input later ref done := by
  obtain ⟨keys, k, accuracy, names, filters, child, implemented, sorted, limited, value, field, cols, operator,
    plain, found, chain⟩ := settled
  exact ⟨keys, k, accuracy, names, filters, child, implemented, sorted, limited, value, field, cols, operator,
    plain, cache child implemented found, chain.extends dag⟩

theorem Remade.grown {state later : Implementing} {ref done : NodeRef} {image : NodeRef → NodeRef}
    (remade : Remade d input state ref done image) (inside : done < state.dag.size)
    (dag : later.dag.Extends state.dag) : Remade d input later ref done image := by
  refine ⟨by rw [dag.node inside, remade.operator], ?_⟩
  rw [dag.node inside]
  refine remade.schema.imp_right ?_
  rintro ⟨middle, previous, derived, first, second, rest⟩
  exact ⟨middle, previous, derived, first, second.trans dag, rest⟩

theorem implementNode_settled {start : Cache NodeRef NodeRef} {roots : List NodeRef} {state done : Implementing}
    {ref result : NodeRef} (sound : Sound d input start roots state) (here : ref < input.size)
    (run : implementNode d input ref state = .ok (result, done)) :
    done.dag.Extends state.dag ∧ done.cache = state.cache ∧ result < done.dag.size ∧
      (hasTopK (input.node ref) = true → Settled d input done ref result) ∧
      (hasTopK (input.node ref) = false →
        Remade d input done ref result fun child => (state.cache child).getD child) := by
  unfold implementNode at run
  split at run
  · next topK =>
    obtain ⟨grown, cache, keys, k, accuracy, names, filters, child, implemented, sorted, limited, value, field,
      cols, operator, unfiltered, found, chain⟩ := implementTopk_chain sound.inside run
    refine ⟨grown, cache, chain.order.2.2.2, fun _ => ⟨keys, k, accuracy, names, filters, child, implemented,
      sorted, limited, value, field, cols, operator, unfiltered, ?_, chain⟩, fun plain => ?_⟩
    · rw [cache]
      exact found
    · rw [topK] at plain
      cases plain
  · next plain =>
    obtain ⟨grown, cache, inside, remade⟩ := rebuilt_remade sound.inside sound.grown here run
    exact ⟨grown, cache, inside, fun topK => absurd topK plain, fun _ => remade⟩

theorem implement_sound {start : Cache NodeRef NodeRef} {roots : List NodeRef} {ref result : NodeRef}
    {state done : Implementing}
    (sound : Sound d input start roots state) (here : ref < input.size)
    (planned : start ref = none → Planned input start roots ref)
    (run : implement d input ref state = .ok (result, done)) :
    Sound d input start roots done ∧ Grown (ref + 1) state done ∧ done.cache ref = some result := by
  induction ref using Nat.strongRecOn generalizing result state done with
  | ind ref ih =>
    rw [implement] at run
    obtain ⟨_, _, got, run⟩ := bind_ok run
    cases got
    cases found : state.cache ref with
    | some before =>
      rw [found] at run
      cases run
      exact ⟨sound, ⟨.refl _, fun _ _ same => same, fun _ _ => rfl⟩, found⟩
    | none =>
      rw [found] at run
      have fresh : start ref = none := by
        cases begun : start ref with
        | none => rfl
        | some before => cases found.symm.trans (sound.begun ref before begun)
      obtain ⟨images, middle, children, run⟩ := bind_ok run
      obtain ⟨soundMiddle, grownMiddle, each⟩ := @mapM_ok _ _ _ _ (Sound d input start roots) (Grown ref)
        (fun child image state => state.cache child = some image) _
        (fun state => ⟨.refl _, fun _ _ same => same, fun _ _ => rfl⟩)
        (fun a b c first second => ⟨first.dag.trans second.dag,
          fun other done same => second.cache other done (first.cache other done same),
          fun other above => (second.above other above).trans (first.above other above)⟩)
        (fun child image t t' same grown => grown.cache child image same)
        _ _ _ _ (fun child member image t t' holds ran => by
          have below := input.child_lt member
          rw [dif_pos below] at ran
          obtain ⟨holds', grown, cached⟩ := ih child below holds (Nat.lt_trans below here)
            (fun new => .child (planned fresh) member new) ran
          exact ⟨holds', ⟨grown.dag, grown.cache,
            fun other above => grown.above other (Nat.lt_of_lt_of_le below above)⟩, cached⟩) sound children
      have cached : ∀ child ∈ input.children ref, ∃ implemented, middle.cache child = some implemented :=
        fun child member => by
          obtain ⟨image, _, same⟩ := mem_of_forall₂ each child member
          exact ⟨image, same⟩
      have missing : middle.cache ref = none := (grownMiddle.above ref (Nat.le_refl ref)).trans found
      obtain ⟨implemented, last, own, run⟩ := bind_ok run
      obtain ⟨_, _, put, run⟩ := bind_ok run
      cases put
      cases run
      obtain ⟨grown, cache, inside, settled, remade⟩ := implementNode_settled soundMiddle here own
      have inserted : (last.cache.insert ref result) ref = some result := if_pos rfl
      have others {other : NodeRef} (apart : other ≠ ref) :
          (last.cache.insert ref result) other = middle.cache other := by
        rw [← cache]
        exact if_neg apart
      have kept {other implemented : NodeRef} (same : middle.cache other = some implemented) :
          (last.cache.insert ref result) other = some implemented := by
        rw [others, same]
        rintro rfl
        cases missing.symm.trans same
      refine ⟨⟨soundMiddle.grown.trans grown, fun other done same => ?_,
          fun other done begun => kept (soundMiddle.begun other done begun), fun other done fresh same => ?_,
          fun other done fresh same child member => ?_, fun other done fresh same topK => ?_,
          fun other done fresh same plain => ?_⟩,
        ⟨grownMiddle.dag.trans grown, fun other done same => kept (grownMiddle.cache other done same),
          fun other above => ?_⟩, inserted⟩
      · change (last.cache.insert ref result) other = some done at same
        by_cases apart : other = ref
        · subst apart
          cases inserted.symm.trans same
          exact inside
        · rw [others apart] at same
          exact Nat.lt_of_lt_of_le (soundMiddle.inside other done same) grown.size_le
      · change (last.cache.insert ref result) other = some done at same
        by_cases apart : other = ref
        · subst apart
          exact planned fresh
        · rw [others apart] at same
          exact soundMiddle.planned other done fresh same
      · change (last.cache.insert ref result) other = some done at same
        by_cases apart : other = ref
        · subst apart
          obtain ⟨implemented, known⟩ := cached child member
          exact ⟨implemented, kept known⟩
        · rw [others apart] at same
          obtain ⟨implemented, known⟩ := soundMiddle.children other done fresh same child member
          exact ⟨implemented, kept known⟩
      · change (last.cache.insert ref result) other = some done at same
        by_cases apart : other = ref
        · subst apart
          cases inserted.symm.trans same
          exact (settled topK).grown (.refl _) fun other done same => kept (cache ▸ same)
        · rw [others apart] at same
          exact (soundMiddle.settled other done fresh same topK).grown grown fun other done same => kept same
      · change (last.cache.insert ref result) other = some done at same
        by_cases apart : other = ref
        · subst apart
          cases inserted.symm.trans same
          refine ⟨_, (remade plain).grown inside (.refl _), fun child member => ?_⟩
          obtain ⟨implemented, known⟩ := cached child member
          rw [known]
          exact kept known
        · rw [others apart] at same
          obtain ⟨image, made, known⟩ := soundMiddle.remade other done fresh same plain
          exact ⟨image, made.grown (soundMiddle.inside other done same) grown,
            fun child member => kept (known child member)⟩
      · show (last.cache.insert ref result) other = state.cache other
        rw [others (Nat.ne_of_gt above), grownMiddle.above other (Nat.le_of_lt above)]

theorem implement_planned {start : Cache NodeRef NodeRef} {roots results : List NodeRef} {done : Implementing}
    (begun : ∀ ref done, start ref = some done → done < input.size) (inside : ∀ root ∈ roots, root < input.size)
    (run : roots.mapM (implement d input) ⟨input, start⟩ = .ok (results, done)) :
    Sound d input start roots done ∧
      ∀ ref, Planned input start roots ref → ∃ implemented, done.cache ref = some implemented := by
  have first : Sound d input start roots ⟨input, start⟩ :=
    ⟨.refl _, begun, fun _ _ same => same, fun ref done fresh here => by (cases fresh.symm.trans here),
      fun ref done fresh here => by (cases fresh.symm.trans here),
      fun ref done fresh here => by (cases fresh.symm.trans here),
      fun ref done fresh here => by (cases fresh.symm.trans here)⟩
  obtain ⟨sound, _, each⟩ := @mapM_ok _ _ _ _ (Sound d input start roots)
    (fun state later => ∀ ref done, state.cache ref = some done → later.cache ref = some done)
    (fun root image state => state.cache root = some image) _
    (fun state ref done same => same)
    (fun a b c first second ref done same => second ref done (first ref done same))
    (fun root image t t' same grown => grown root image same)
    _ _ _ _ (fun root member image t t' holds ran => by
      obtain ⟨holds', grown, cached⟩ := implement_sound holds (inside root member) (fun fresh => .root member fresh) ran
      exact ⟨holds', grown.cache, cached⟩) first run
  refine ⟨sound, fun ref planned => ?_⟩
  induction planned with
  | @root ref asked _ =>
    obtain ⟨image, _, same⟩ := mem_of_forall₂ each ref asked
    exact ⟨image, same⟩
  | @child ref child planned reads _ ih =>
    obtain ⟨implemented, known⟩ := ih
    exact sound.children ref implemented planned.fresh known child reads

end AsapPlanner.TopK
