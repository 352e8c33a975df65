import AsapPlanner.Estimators.SharedSize
import AsapPlanner.Joins.Closure

/-!
The shared size of two readers at a time, and when it comes to that of all of them.
-/

namespace AsapPlanner.Estimators
open Joins
open Ir (SketchAlgorithm)

variable {library : Library} {a b c d : SketchParams}

noncomputable def pairSize (library : Library) (a b : SketchParams) : Option SketchParams :=
  sizeForAllReaders library [a, b]

theorem pairSize_eq_some : pairSize library a b = some c ↔
    shareTwo a b = some c ∧ builds library c.family c.shape = true := by
  rw [pairSize, sizeForAllReaders_cons, Option.filter_eq_some_iff, List.foldlM_cons, Option.bind_eq_bind]
  cases shareTwo a b <;> rfl

theorem shareTwo_comm (wf : WellFormed a) (wf' : WellFormed b) : shareTwo a b = shareTwo b a := by
  cases share : shareTwo a b with
  | none =>
    cases share' : shareTwo b a with
    | none => rfl
    | some c =>
      obtain ⟨_, _, family, _⟩ := shareTwo_eq_some wf' wf share'
      exact absurd family.symm (shareTwo_eq_none_iff.mp share)
  | some c =>
    cases share' : shareTwo b a with
    | none =>
      obtain ⟨_, _, family, _⟩ := shareTwo_eq_some wf wf' share
      exact absurd family.symm (shareTwo_eq_none_iff.mp share')
    | some c' =>
      obtain ⟨_, family, same, size, shape⟩ := shareTwo_eq_some wf wf' share
      obtain ⟨_, family', _, size', shape'⟩ := shareTwo_eq_some wf' wf share'
      refine congrArg some (parts_injective ?_ ?_ ?_)
      · rw [family, family', same]
      · rw [size, size', same, Growth.join_comm]
      · rw [shape, shape', sup_comm]

theorem pairSize_eq_left_iff (wf : WellFormed a) (wf' : WellFormed d) : pairSize library a d = some a ↔
    d.family = a.family ∧ (growthOf a.family).join a.size d.size = a.size ∧ d.shape ≤ a.shape ∧
      builds library a.family a.shape = true := by
  rw [pairSize_eq_some]
  constructor
  · rintro ⟨share, built⟩
    obtain ⟨_, _, same, size, shape⟩ := shareTwo_eq_some wf wf' share
    exact ⟨same, size.symm, sup_eq_left.mp shape.symm, built⟩
  · rintro ⟨same, size, shape, built⟩
    obtain ⟨c, share⟩ : ∃ c, shareTwo a d = some c := by
      rw [← Option.ne_none_iff_exists', ne_eq, shareTwo_eq_none_iff, not_not]
      exact same
    obtain ⟨_, family, _, size', shape'⟩ := shareTwo_eq_some wf wf' share
    have whole : c = a := parts_injective family (size'.trans size) (shape'.trans (sup_eq_left.mpr shape))
    exact ⟨whole ▸ share, built⟩

theorem pairSize_laws (library : Library) : JoinLaws (pairSize library) WellFormed where
  closed wf wf' joined := (shareTwo_eq_some wf wf' (pairSize_eq_some.mp joined).1).1
  comm {a b} wf wf' := by
    refine Option.ext fun c => ?_
    rw [pairSize_eq_some, pairSize_eq_some, shareTwo_comm wf wf']
  idem {a c} wf joined := by
    obtain ⟨_, family, _, size, shape⟩ := shareTwo_eq_some wf wf (pairSize_eq_some.mp joined).1
    exact parts_injective family (size.trans (Growth.join_self _)) (shape.trans (sup_idem _))
  absorbs {a b c} wf wf' joined := by
    obtain ⟨share, built⟩ := pairSize_eq_some.mp joined
    obtain ⟨wfc, family, _, size, shape⟩ := shareTwo_eq_some wf wf' share
    refine (pairSize_eq_left_iff wfc wf).mpr ⟨family.symm, ?_, ?_, built⟩
    · rw [family, size]
      exact Growth.join_join_eq_left (Growth.join_self _)
    · rw [shape]
      exact le_sup_left
  absorbs_of {a b c d} wf wf' wfd absorbs joined := by
    obtain ⟨share, built⟩ := pairSize_eq_some.mp joined
    obtain ⟨wfc, family, _, size, shape⟩ := shareTwo_eq_some wf wf' share
    obtain ⟨alike, whole, least, _⟩ := (pairSize_eq_left_iff wf wfd).mp absorbs
    refine (pairSize_eq_left_iff wfc wfd).mpr ⟨alike.trans family.symm, ?_, ?_, built⟩
    · rw [family, size]
      exact Growth.join_join_eq_left whole
    · rw [shape]
      exact least.trans le_sup_left

/-! ### The sizes joins stay within -/

/-- The largest size growing ends with. -/
def sizeCap : Nat := max kllMaxK cardCap

theorem grow_le (family : SketchAlgorithm) (p q : WithTop ℝ) (size : Nat) :
    (growthOf family).grow p q size ≤ max sizeCap size := by
  have own : size ≤ max sizeCap size := le_max_right _ _
  cases family with
  | kll =>
    simp only [growthOf, kllGrowth]
    split
    · exact Nat.zero_le _
    · unfold kllGrow
      split
      · exact own
      · refine max_le (le_max_of_le_left ?_) own
        exact (saturatingCeil_le_high (by decide)).trans (le_max_left kllMaxK cardCap)
  | univMon =>
    simp only [growthOf, univmonGrowth]
    unfold univmonGrow
    split
    · split
      · exact Nat.zero_le _
      · unfold distinctGrow
        split
        · exact own
        · refine max_le (le_max_of_le_left ?_) own
          exact (distinctHeap_le_cap _ _).trans (le_max_right kllMaxK cardCap)
    · exact own
  | _ => exact own

/-- What joins of `params` stay within. -/
structure Within (params : List SketchParams) (c : SketchParams) : Prop where
  wellFormed : WellFormed c
  family : ∃ x ∈ params, x.family = c.family
  size : c.size.1 ≤ (params.map (·.size.1)).foldl (· ⊔ ·) sizeCap
  level : ∃ x ∈ params, x.size.2 = c.size.2
  shape : c.shape ≤ shapeOf params

theorem within_self {params : List SketchParams} (wf : WellFormed a) (inside : a ∈ params) : Within params a :=
  ⟨wf, ⟨a, inside, rfl⟩, (foldl_sup_le.mp (le_refl _)).2 _ (List.mem_map_of_mem inside), ⟨a, inside, rfl⟩,
    shapeOf_le.mp (le_refl _) a inside⟩

theorem Within.pair {params : List SketchParams} (one : Within params a) (other : Within params b)
    (sized : pairSize library a b = some c) : Within params c := by
  obtain ⟨wf, family, _, size, shape⟩ :=
    shareTwo_eq_some one.wellFormed other.wellFormed (pairSize_eq_some.mp sized).1
  have cap : sizeCap ≤ (params.map (·.size.1)).foldl (· ⊔ ·) sizeCap := (foldl_sup_le.mp (le_refl _)).1
  refine ⟨wf, family ▸ one.family, ?_, ?_, ?_⟩
  · rw [size]
    exact max_le ((grow_le _ _ _ _).trans (max_le cap one.size))
      ((grow_le _ _ _ _).trans (max_le cap other.size))
  · rw [size]
    rcases min_choice a.size.2 b.size.2 with first | second
    · exact one.level.imp fun x there => ⟨there.1, there.2.trans first.symm⟩
    · exact other.level.imp fun x there => ⟨there.1, there.2.trans second.symm⟩
  · rw [shape]
    exact sup_le one.shape other.shape

theorem within_finite (params : List SketchParams) : {c | Within params c}.Finite := by
  have parts : ((((params.map SketchParams.family).toFinset : Set SketchAlgorithm) ×ˢ
      ((Set.Iic ((params.map (·.size.1)).foldl (· ⊔ ·) sizeCap)) ×ˢ
        {level | ∃ x ∈ params, x.size.2 = level})) ×ˢ Set.Iic (shapeOf params)).Finite := by
    refine ((Finset.finite_toSet _).prod ((Set.finite_Iic _).prod ?_)).prod (Set.finite_Iic _)
    exact (params.finite_toSet.image fun x => x.size.2)
  refine Set.Finite.of_finite_image (f := fun c : SketchParams => ((c.family, c.size), c.shape))
    (parts.subset ?_) ?_
  · rintro _ ⟨c, within, rfl⟩
    obtain ⟨x, inside, family⟩ := within.family
    exact ⟨⟨by simpa using ⟨x, inside, family⟩, within.size, within.level⟩, within.shape⟩
  · intro c _ d _ same
    rw [Prod.mk.injEq, Prod.mk.injEq] at same
    exact parts_injective same.1.1 same.1.2 same.2

/-! ### Pairs and lists -/

/-- A smaller shape is built where a larger one is. -/
def Library.Downward (library : Library) : Prop :=
  ∀ rows cols layers rows' cols' layers', rows ≤ rows' → cols ≤ cols' → layers ≤ layers' →
    library.hashIndependent rows' cols' layers' = true → library.hashIndependent rows cols layers = true

theorem Library.Downward.builds (downward : library.Downward) {family : SketchAlgorithm}
    {shape shape' : Nat × Nat × Nat} (le : shape ≤ shape') (built : builds library family shape' = true) :
    Estimators.builds library family shape = true := by
  obtain ⟨rows, cols, layers⟩ := shape
  cases family with
  | univMon => exact downward _ _ _ _ _ _ le.1 le.2.1 le.2.2 built
  | _ => rfl

theorem foldlM_pairSize_of {first : SketchParams} {rest : List SketchParams} (downward : library.Downward)
    (wf : ∀ x ∈ first :: rest, WellFormed x) (fold : rest.foldlM shareTwo first = some c)
    (built : builds library c.family c.shape = true) :
    first.shape ≤ c.shape ∧ first.family = c.family ∧ rest.foldlM (pairSize library) first = some c := by
  induction rest generalizing first with
  | nil =>
    obtain rfl := Option.some.inj fold
    exact ⟨le_refl _, rfl, rfl⟩
  | cons x rest ih =>
    rw [List.foldlM_cons, Option.bind_eq_bind, Option.bind_eq_some_iff] at fold
    obtain ⟨both, share, fold⟩ := fold
    rw [List.forall_mem_cons, List.forall_mem_cons] at wf
    obtain ⟨wfBoth, family, _, _, shape⟩ := shareTwo_eq_some wf.1 wf.2.1 share
    obtain ⟨below, same, folded⟩ := ih (List.forall_mem_cons.mpr ⟨wfBoth, wf.2.2⟩) fold
    refine ⟨le_trans (shape ▸ le_sup_left) below, family.symm.trans same, ?_⟩
    rw [List.foldlM_cons, pairSize_eq_some.mpr ⟨share, downward.builds below (same ▸ built)⟩]
    exact folded

theorem foldlM_shareTwo_of {first : SketchParams} {rest : List SketchParams}
    (fold : rest.foldlM (pairSize library) first = some c) : rest.foldlM shareTwo first = some c := by
  induction rest generalizing first with
  | nil => exact fold
  | cons x rest ih =>
    rw [List.foldlM_cons, Option.bind_eq_bind, Option.bind_eq_some_iff] at fold
    obtain ⟨both, pair, fold⟩ := fold
    rw [List.foldlM_cons, (pairSize_eq_some.mp pair).1]
    exact ih fold

theorem sizeForAllReaders_eq_some_iff_joinAll (downward : library.Downward) {params : List SketchParams}
    (wf : ∀ x ∈ params, WellFormed x) : sizeForAllReaders library params = some c ↔
      joinAll (pairSize library) params = some c ∧ ∀ x ∈ params, pairSize library c x = some c := by
  constructor
  · intro sized
    cases params with
    | nil => cases sized
    | cons first rest =>
      rw [sizeForAllReaders_cons, Option.filter_eq_some_iff] at sized
      have folded := (foldlM_pairSize_of downward wf sized.1 sized.2).2.2
      refine ⟨folded, ((pairSize_laws library).joinAll_absorbs wf folded ?_).2⟩
      rintro a ⟨⟩
      obtain rfl := Option.some.inj sized.1
      have wfa := wf first List.mem_cons_self
      exact (pairSize_eq_left_iff wfa wfa).mpr ⟨rfl, Growth.join_self _, le_refl _, sized.2⟩
  · rintro ⟨joined, serves⟩
    cases params with
    | nil => cases joined
    | cons first rest =>
      rw [sizeForAllReaders_cons, Option.filter_eq_some_iff]
      have share := (pairSize_eq_some.mp (serves first List.mem_cons_self)).2
      exact ⟨foldlM_shareTwo_of joined, share⟩

end AsapPlanner.Estimators
