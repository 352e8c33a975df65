import AsapPlanner.Estimators.Growth
import AsapPlanner.Estimators.Shared

/-!
The shared size as a join: when the order the readers are added in does not show.
-/

namespace AsapPlanner.Estimators
open Joins
open Ir (SketchAlgorithm)

/-! ### What parameters are joined by -/

/-- The algorithm parameters belong to. -/
def SketchParams.family : SketchParams → SketchAlgorithm
  | .univMon .. => .univMon
  | .kll .. => .kll
  | .cms .. => .cms
  | .hll .. => .hll
  | .ddSketch _ => .ddSketch
  | .cmsWithHeap .. => .cmsWithHeap
  | .kmv .. => .kmv
  | .countSketch .. => .countSketch
  | .countSketchWithHeap .. => .countSketchWithHeap

/-- The size that grows, and the value that takes the smallest. -/
def SketchParams.size : SketchParams → Nat × WithTop ℝ
  | .univMon heapSize _ _ _ distinct => (heapSize, level distinct)
  | .kll k failure => (k, level failure)
  | .cms width _ => (width, ⊤)
  | .hll precision error => (precision, level error)
  | .ddSketch alpha => (0, alpha)
  | .cmsWithHeap width _ _ => (width, ⊤)
  | .kmv k error => (k, level error)
  | .countSketch width _ => (width, ⊤)
  | .countSketchWithHeap width _ _ => (width, ⊤)

/-- The parameters that take the largest value. -/
def SketchParams.shape : SketchParams → Nat × Nat × Nat
  | .univMon _ rows cols layers _ => (rows, cols, layers)
  | .cms _ depth => (depth, 0, 0)
  | .cmsWithHeap _ depth heap => (depth, heap, 0)
  | .countSketch _ depth => (depth, 0, 0)
  | .countSketchWithHeap _ depth heap => (depth, heap, 0)
  | _ => (0, 0, 0)

/-- How a family's size grows to a smaller failure probability. -/
noncomputable def growthOf : SketchAlgorithm → Growth Nat (WithTop ℝ)
  | .kll => kllGrowth
  | .univMon => univmonGrowth
  | _ => .still

/-- A KLL holds a value, and records a probability only below its calibration's; a UnivMon's recorded
probability is one. -/
def WellFormed : SketchParams → Prop
  | .kll k failure => 0 < k ∧ ∀ δ, failure = some δ → δ < kllCalibratedFailureProbability
  | .univMon _ _ _ _ distinct => ∀ δ, distinct = some δ → δ ≤ 1
  | _ => True

theorem parts_injective {x y : SketchParams} (family : x.family = y.family) (size : x.size = y.size)
    (shape : x.shape = y.shape) : x = y := by
  cases x <;> cases y <;> cases family <;>
    simp only [SketchParams.size, SketchParams.shape, Prod.mk.injEq, level_injective.eq_iff,
      WithTop.coe_inj, and_true, true_and] at size shape <;> simp [size, shape]

theorem distinctGrow_zero {current : ℝ} (one : current ≤ 1) (delta : ℝ) : distinctGrow current delta 0 = 0 := by
  have full : incompleteTopLayerBound 0 = 1 := by simp [incompleteTopLayerBound]
  rw [distinctGrow, if_pos (.inr (by rw [full]; linarith))]

theorem sharedK_eq {k k' : Nat} {f f' : Option ℝ} (wf : WellFormed (.kll k f)) (wf' : WellFormed (.kll k' f')) :
    (sharedK k f k' f', level (minRecorded f f')) = kllGrowth.join (k, level f) (k', level f') := by
  obtain ⟨_, one⟩ := kllWithFailureProbability_eq (k := k) wf.2
    (min (f.getD kllCalibratedFailureProbability) (f'.getD kllCalibratedFailureProbability))
  obtain ⟨_, other⟩ := kllWithFailureProbability_eq (k := k') wf'.2
    (min (f.getD kllCalibratedFailureProbability) (f'.getD kllCalibratedFailureProbability))
  have both : kllProbability (min (level f) (level f')) = min (f.getD kllCalibratedFailureProbability)
      (f'.getD kllCalibratedFailureProbability) := by
    rw [kllProbability_mono.map_min, kllProbability_level wf.2, kllProbability_level wf'.2]
  simp only [sharedK, one, other, Growth.join, kllGrowth, if_neg wf.1.ne', if_neg wf'.1.ne',
    level_minRecorded, both, kllProbability_level wf.2, kllProbability_level wf'.2]

theorem univmonGrow_coe {current : ℝ} (one : current ≤ 1) (delta : ℝ) (heapSize : Nat) :
    univmonGrow current delta heapSize = distinctGrow current delta heapSize := by
  show (if heapSize = 0 then 0 else distinctGrow current delta heapSize) = _
  split
  · rename_i none
    rw [none, distinctGrow_zero one]
  · rfl

theorem sharedHeap_eq {k k' : Nat} {f f' : Option ℝ} (small : ∀ δ, f = some δ → δ ≤ 1)
    (small' : ∀ δ, f' = some δ → δ ≤ 1) :
    (sharedHeap k f k' f', level (minRecorded f f')) = univmonGrowth.join (k, level f) (k', level f') := by
  cases f with
  | none => cases f' with
    | none => rfl
    | some δ' =>
      have keeps : univmonWithFailureProbability (.univMon k' 1 1 1 (some δ')) δ' =
          .univMon k' 1 1 1 (some δ') := if_pos (.inl (le_refl δ'))
      have lower : min (level none) (level (some δ')) = level (some δ') := min_eq_right le_top
      simp only [Growth.join, lower, univmonGrowth.grow_self]
      simp only [sharedHeap, minRecorded, Option.none_or, keeps]
      rfl
  | some δ => cases f' with
    | none =>
      have keeps : univmonWithFailureProbability (.univMon k 1 1 1 (some δ)) δ =
          .univMon k 1 1 1 (some δ) := if_pos (.inl (le_refl δ))
      have lower : min (level (some δ)) (level none) = level (some δ) := min_eq_left le_top
      simp only [Growth.join, lower, univmonGrowth.grow_self]
      simp only [sharedHeap, minRecorded, Option.some_or, keeps]
      rfl
    | some δ' =>
      obtain ⟨_, one⟩ := univmonWithFailureProbability_eq k 1 1 1 δ (min δ δ')
      obtain ⟨_, other⟩ := univmonWithFailureProbability_eq k' 1 1 1 δ' (min δ δ')
      simp only [sharedHeap, minRecorded, one, other, Growth.join, univmonGrowth, level,
        ← WithTop.coe_min, univmonGrow_coe (small δ rfl), univmonGrow_coe (small' δ' rfl)]

theorem shareTwo_eq_some {x y z : SketchParams} (wf : WellFormed x) (wf' : WellFormed y)
    (share : shareTwo x y = some z) : WellFormed z ∧ z.family = x.family ∧ y.family = x.family ∧
      z.size = (growthOf x.family).join x.size y.size ∧ z.shape = x.shape ⊔ y.shape := by
  cases x <;> cases y <;> cases share
  case kll.kll.refl k f k' f' =>
    refine ⟨⟨?_, ?_⟩, rfl, rfl, sharedK_eq wf wf', rfl⟩
    · exact wf.1.trans_le (le_sharedK k k' f f').1
    · exact fun δ known => (minRecorded_mem known).elim (wf.2 δ) (wf'.2 δ)
  case univMon.univMon.refl =>
    exact ⟨fun δ known => (minRecorded_mem known).elim (wf δ) (wf' δ), rfl, rfl, sharedHeap_eq wf wf', rfl⟩
  all_goals exact ⟨trivial, rfl, rfl, by simp [SketchParams.size, growthOf, Growth.join, Growth.still, SketchParams.family, level_minRecorded], rfl⟩

theorem shareTwo_eq_none_iff {x y : SketchParams} : shareTwo x y = none ↔ y.family ≠ x.family := by
  cases x <;> cases y <;> simp [shareTwo, SketchParams.family]

/-! ### Lists of parameters -/

/-- The largest of each parameter of the shape. -/
def shapeOf (params : List SketchParams) : Nat × Nat × Nat :=
  (params.map SketchParams.shape).foldl (· ⊔ ·) ⊥

def builds (library : Library) (family : SketchAlgorithm) (shape : Nat × Nat × Nat) : Bool :=
  match family with
  | .univMon => library.hashIndependent shape.1 shape.2.1 shape.2.2
  | _ => true

theorem foldl_sup_le {β : Type} [SemilatticeSup β] {items : List β} {start bound : β} :
    items.foldl (· ⊔ ·) start ≤ bound ↔ start ≤ bound ∧ ∀ item ∈ items, item ≤ bound := by
  induction items generalizing start with
  | nil => simp
  | cons item items ih => rw [List.foldl_cons, ih, sup_le_iff, List.forall_mem_cons, and_assoc]

theorem shapeOf_le {params : List SketchParams} {bound : Nat × Nat × Nat} :
    shapeOf params ≤ bound ↔ ∀ x ∈ params, x.shape ≤ bound := by
  rw [shapeOf, foldl_sup_le, List.forall_mem_map]
  exact and_iff_right bot_le

theorem shapeOf_eq {a b : List SketchParams} (same : ∀ x, x ∈ a ↔ x ∈ b) : shapeOf a = shapeOf b := by
  refine le_antisymm (shapeOf_le.mpr fun x inside => ?_) (shapeOf_le.mpr fun x inside => ?_)
  · exact shapeOf_le.mp (le_refl _) x ((same x).mp inside)
  · exact shapeOf_le.mp (le_refl _) x ((same x).mpr inside)

theorem shapeOf_append (a b : List SketchParams) : shapeOf (a ++ b) = shapeOf a ⊔ shapeOf b := by
  refine eq_of_forall_ge_iff fun bound => ?_
  rw [sup_le_iff, shapeOf_le, shapeOf_le, shapeOf_le, List.forall_mem_append]

theorem foldlM_shareTwo {first : SketchParams} {rest : List SketchParams}
    (wf : ∀ x ∈ first :: rest, WellFormed x) (alike : ∀ x ∈ rest, x.family = first.family) :
    ∃ z, rest.foldlM shareTwo first = some z ∧ WellFormed z ∧ z.family = first.family ∧
      z.size = (rest.map SketchParams.size).foldl (growthOf first.family).join first.size ∧
      z.shape = (rest.map SketchParams.shape).foldl (· ⊔ ·) first.shape := by
  induction rest generalizing first with
  | nil => exact ⟨first, rfl, wf first List.mem_cons_self, rfl, rfl, rfl⟩
  | cons x rest ih =>
    obtain ⟨here, later⟩ := List.forall_mem_cons.mp alike
    obtain ⟨both, share⟩ : ∃ both, shareTwo first x = some both := by
      rw [← Option.ne_none_iff_exists', ne_eq, shareTwo_eq_none_iff, not_not]
      exact here
    rw [List.forall_mem_cons, List.forall_mem_cons] at wf
    obtain ⟨wf₀, wf₁, wf₂⟩ := wf
    obtain ⟨wf', family, _, size, shape⟩ := shareTwo_eq_some wf₀ wf₁ share
    obtain ⟨z, fold, wf'', family', size', shape'⟩ := @ih both
      (List.forall_mem_cons.mpr ⟨wf', wf₂⟩) (fun y inside => (later y inside).trans family.symm)
    refine ⟨z, ?_, wf'', family'.trans family, ?_, ?_⟩
    · rw [List.foldlM_cons, share]
      exact fold
    · rw [size', size, family, List.map_cons, List.foldl_cons]
    · rw [shape', shape, List.map_cons, List.foldl_cons]

theorem foldlM_shareTwo_eq_none {first : SketchParams} {rest : List SketchParams} {x : SketchParams}
    (inside : x ∈ rest) (other : x.family ≠ first.family) : rest.foldlM shareTwo first = none := by
  induction rest generalizing first with
  | nil => exact absurd inside List.not_mem_nil
  | cons y rest ih =>
    rw [List.foldlM_cons]
    cases share : shareTwo first y with
    | none => rfl
    | some both =>
      have alike : both.family = first.family ∧ y.family = first.family := by
        cases first <;> cases y <;> cases share <;> exact ⟨rfl, rfl⟩
      rcases List.mem_cons.mp inside with rfl | inside
      · exact absurd alike.2 other
      · exact ih inside (alike.1 ▸ other)

structure Sizes (library : Library) (params : List SketchParams) (shared : SketchParams) : Prop where
  wellFormed : WellFormed shared
  family : ∀ x ∈ params, x.family = shared.family
  size : (growthOf shared.family).Made (params.map SketchParams.size) shared.size
  shape : shared.shape = shapeOf params
  built : builds library shared.family shared.shape = true

theorem sizeForAllReaders_cons {library : Library} {first : SketchParams} {rest : List SketchParams} :
    sizeForAllReaders library (first :: rest) = (rest.foldlM shareTwo first).filter
      fun shared => builds library shared.family shared.shape := by
  rw [sizeForAllReaders]
  cases rest.foldlM shareTwo first with
  | none => rfl
  | some shared =>
    cases shared with
    | univMon heap rows cols layers distinct =>
      simp only [Option.bind_some, Option.filter, builds, SketchParams.family, SketchParams.shape]
      rfl
    | _ => rfl

theorem sizeForAllReaders_eq_some {library : Library} {params : List SketchParams} {shared : SketchParams}
    (wf : ∀ x ∈ params, WellFormed x) (sized : sizeForAllReaders library params = some shared) :
    Sizes library params shared := by
  cases params with
  | nil => cases sized
  | cons first rest =>
    rw [sizeForAllReaders_cons, Option.filter_eq_some_iff] at sized
    obtain ⟨fold, built⟩ := sized
    have alike : ∀ x ∈ rest, x.family = first.family := by
      intro x inside
      by_contra other
      rw [foldlM_shareTwo_eq_none inside other] at fold
      cases fold
    obtain ⟨z, fold', wf', family, size, shape⟩ := foldlM_shareTwo wf alike
    obtain rfl := Option.some.inj (fold.symm.trans fold')
    refine ⟨wf', List.forall_mem_cons.mpr ⟨family.symm, fun x inside => (alike x inside).trans family.symm⟩,
      ?_, ?_, built⟩
    · rw [size, family]
      exact Growth.made_foldl (.single first.size) _
    · rw [shape, shapeOf, List.map_cons, List.foldl_cons, bot_sup_eq]

theorem sizeForAllReaders_built (library : Library) {first : SketchParams} {rest : List SketchParams}
    (wf : ∀ x ∈ first :: rest, WellFormed x) (alike : ∀ x ∈ rest, x.family = first.family)
    (built : builds library first.family (shapeOf (first :: rest)) = true) :
    ∃ z, sizeForAllReaders library (first :: rest) = some z ∧
      z.size = (rest.map SketchParams.size).foldl (growthOf first.family).join first.size := by
  obtain ⟨z, fold, _, family, size, shape⟩ := foldlM_shareTwo wf alike
  have whole : z.shape = shapeOf (first :: rest) := by
    rw [shape, shapeOf, List.map_cons, List.foldl_cons, bot_sup_eq]
  refine ⟨z, ?_, size⟩
  rw [sizeForAllReaders_cons, fold, Option.filter_some, family, whole, if_pos built]

theorem sizeForAllReaders_eq_none_iff {library : Library} {params : List SketchParams}
    (wf : ∀ x ∈ params, WellFormed x) : sizeForAllReaders library params = none ↔
      ∀ family, (∀ x ∈ params, x.family = family) → params = [] ∨
        builds library family (shapeOf params) = false := by
  constructor
  · intro unsized family alike
    cases params with
    | nil => exact .inl rfl
    | cons first rest =>
      obtain ⟨here, later⟩ := List.forall_mem_cons.mp alike
      by_contra built
      rw [not_or, Bool.not_eq_false, ← here] at built
      obtain ⟨z, sized, _⟩ := sizeForAllReaders_built library wf
        (fun x inside => (later x inside).trans here.symm) built.2
      rw [unsized] at sized
      cases sized
  · intro unbuilt
    cases sized : sizeForAllReaders library params with
    | none => rfl
    | some shared =>
      have sizes := sizeForAllReaders_eq_some wf sized
      rcases unbuilt shared.family sizes.family with rfl | unbuilt
      · cases sized
      · rw [← sizes.shape, sizes.built] at unbuilt
        cases unbuilt

/-! ### The order readers are added in -/

/-- Two lists with the same members, in whatever order and however often. -/
def SameMembers (a b : List SketchParams) : Prop := ∀ x, x ∈ a ↔ x ∈ b

/-- The shared size of `members` does not depend on the order they are joined in, nor on which of them
were joined before. -/
def SharedSizeJoins (library : Library) (members : List SketchParams) : Prop :=
  (∀ a b, SameMembers a members → SameMembers b members →
    sizeForAllReaders library a = sizeForAllReaders library b) ∧
  ∀ a b sizeA sizeB, SameMembers (a ++ b) members → sizeForAllReaders library a = some sizeA →
    sizeForAllReaders library b = some sizeB →
      sizeForAllReaders library (a ++ b) = sizeForAllReaders library [sizeA, sizeB]

/-- Where the members have a shared size, none of them is rounded past it on its way there. -/
def SteadySizes (library : Library) (members : List SketchParams) : Prop :=
  ∀ family, (∀ x ∈ members, x.family = family) → builds library family (shapeOf members) = true →
    (growthOf family).Steady (members.map SketchParams.size)

theorem Sizes.eq {library : Library} {members a b : List SketchParams} {x y : SketchParams}
    (steady : SteadySizes library members) (sameA : SameMembers a members) (sameB : SameMembers b members)
    (some : a ≠ []) (sizes : Sizes library a x) (sizes' : Sizes library b y) : x = y := by
  obtain ⟨first, rest, rfl⟩ := List.exists_cons_of_ne_nil some
  have family : x.family = y.family :=
    (sizes.family first List.mem_cons_self).symm.trans
      (sizes'.family first ((sameB first).mpr ((sameA first).mp List.mem_cons_self)))
  have shapes : shapeOf (first :: rest) = shapeOf members := shapeOf_eq sameA
  have same : ∀ l, SameMembers l members → ∀ z,
      z ∈ l.map SketchParams.size ↔ z ∈ members.map SketchParams.size := by
    intro l same z
    simp only [List.mem_map, same _]
  have points := (steady x.family (fun z inside => sizes.family z ((sameA z).mpr inside))
    (by rw [← shapes, ← sizes.shape]; exact sizes.built)).made_eq sizes.size (family ▸ sizes'.size)
      (same _ sameA) (same _ sameB)
  refine parts_injective family points ?_
  rw [sizes.shape, sizes'.shape, shapes, shapeOf_eq sameB]

theorem Sizes.family_iff {library : Library} {params : List SketchParams} {shared : SketchParams}
    (sizes : Sizes library params shared) (some : params ≠ []) {family : SketchAlgorithm} :
    (∀ x ∈ params, x.family = family) ↔ shared.family = family := by
  constructor
  · intro alike
    obtain ⟨first, rest, rfl⟩ := List.exists_cons_of_ne_nil some
    exact (sizes.family first List.mem_cons_self).symm.trans (alike first List.mem_cons_self)
  · exact fun same x inside => (sizes.family x inside).trans same

theorem Sizes.join {library : Library} {a b : List SketchParams} {x y z : SketchParams}
    (sizes : Sizes library a x) (sizes' : Sizes library b y)
    (sized : sizeForAllReaders library [x, y] = some z) : Sizes library (a ++ b) z := by
  rw [sizeForAllReaders_cons, Option.filter_eq_some_iff, List.foldlM_cons, Option.bind_eq_bind,
    Option.bind_eq_some_iff] at sized
  obtain ⟨⟨_, share, ⟨⟩⟩, built⟩ := sized
  obtain ⟨wf, family, alike, size, shape⟩ := shareTwo_eq_some sizes.wellFormed sizes'.wellFormed share
  refine ⟨wf, List.forall_mem_append.mpr ⟨fun w inside => ?_, fun w inside => ?_⟩, ?_, ?_, built⟩
  · exact (sizes.family w inside).trans family.symm
  · exact (sizes'.family w inside).trans (alike.trans family.symm)
  · rw [size, family, List.map_append]
    exact sizes.size.join (alike ▸ sizes'.size)
  · rw [shape, sizes.shape, sizes'.shape, shapeOf_append]

theorem sizeForAllReaders_none_iff_of_same (library : Library) {a b : List SketchParams}
    (wf : ∀ x ∈ b, WellFormed x) (same : SameMembers a b) :
    sizeForAllReaders library a = none ↔ sizeForAllReaders library b = none := by
  have empty : a = [] ↔ b = [] := by
    rw [List.eq_nil_iff_forall_not_mem, List.eq_nil_iff_forall_not_mem]
    exact forall_congr' fun x => not_congr (same x)
  have members : ∀ family, (∀ x ∈ a, x.family = family) ↔ ∀ x ∈ b, x.family = family :=
    fun family => forall_congr' fun x => by rw [same x]
  rw [sizeForAllReaders_eq_none_iff (fun x inside => wf x ((same x).mp inside)),
    sizeForAllReaders_eq_none_iff wf]
  simp only [members, empty, shapeOf_eq same]

/-- The shared size is a join of its members exactly where they are steady. -/
theorem shared_size_joins_iff (library : Library) (members : List SketchParams)
    (wf : ∀ x ∈ members, WellFormed x) :
    SharedSizeJoins library members ↔ SteadySizes library members := by
  constructor
  · rintro ⟨agree, _⟩ family alike built
    refine Growth.steady_iff.mpr fun first rest first' rest' same same' => ?_
    have folded : ∀ first rest, SameMembers (first :: rest) members →
        ∃ z, sizeForAllReaders library (first :: rest) = some z ∧
          z.size = (rest.map SketchParams.size).foldl (growthOf family).join first.size := by
      intro first rest same
      have head : first.family = family := alike first ((same first).mp List.mem_cons_self)
      obtain ⟨z, sized, size⟩ := sizeForAllReaders_built library
        (fun x inside => wf x ((same x).mp inside))
        (fun x inside => (alike x ((same x).mp (List.mem_cons_of_mem first inside))).trans head.symm)
        (by rw [head, shapeOf_eq same]; exact built)
      exact ⟨z, sized, head ▸ size⟩
    obtain ⟨z, sized, size⟩ := folded first rest same
    obtain ⟨z', sized', size'⟩ := folded first' rest' same'
    rw [agree _ _ same same', sized'] at sized
    obtain rfl := Option.some.inj sized
    exact size.symm.trans size'
  · intro steady
    refine ⟨fun a b sameA sameB => ?_, fun a b x y same sizedA sizedB => ?_⟩
    · have both := sizeForAllReaders_none_iff_of_same library
        (fun x inside => wf x ((sameB x).mp inside)) fun x => (sameA x).trans (sameB x).symm
      cases sized : sizeForAllReaders library a with
      | none => exact (both.mp sized).symm
      | some x =>
        cases sized' : sizeForAllReaders library b with
        | none => rw [both.mpr sized'] at sized; cases sized
        | some y =>
          have some : a ≠ [] := by rintro rfl; cases sized
          rw [Sizes.eq steady sameA sameB some
            (sizeForAllReaders_eq_some (fun x inside => wf x ((sameA x).mp inside)) sized)
            (sizeForAllReaders_eq_some (fun x inside => wf x ((sameB x).mp inside)) sized')]
    · have wf' : ∀ z ∈ a ++ b, WellFormed z := fun z inside => wf z ((same z).mp inside)
      rw [List.forall_mem_append] at wf'
      have sizesA := sizeForAllReaders_eq_some wf'.1 sizedA
      have sizesB := sizeForAllReaders_eq_some wf'.2 sizedB
      have someA : a ≠ [] := by rintro rfl; cases sizedA
      have someB : b ≠ [] := by rintro rfl; cases sizedB
      have both : sizeForAllReaders library (a ++ b) = none ↔ sizeForAllReaders library [x, y] = none := by
        rw [sizeForAllReaders_eq_none_iff (List.forall_mem_append.mpr wf'), sizeForAllReaders_eq_none_iff
          (List.forall_mem_cons.mpr ⟨sizesA.wellFormed, List.forall_mem_singleton.mpr sizesB.wellFormed⟩)]
        refine forall_congr' fun family => ?_
        have alike : (∀ z ∈ a ++ b, z.family = family) ↔ ∀ z ∈ [x, y], z.family = family := by
          rw [List.forall_mem_append, List.forall_mem_cons, List.forall_mem_singleton,
            sizesA.family_iff someA, sizesB.family_iff someB]
        have shapes : shapeOf [x, y] = shapeOf (a ++ b) := by
          show (⊥ ⊔ x.shape) ⊔ y.shape = _
          rw [bot_sup_eq, shapeOf_append, ← sizesA.shape, ← sizesB.shape]
        simp only [alike, shapes, List.append_eq_nil_iff, someA, List.cons_ne_nil, false_and]
      cases sized : sizeForAllReaders library (a ++ b) with
      | none => exact (both.mp sized).symm
      | some z =>
        cases sized' : sizeForAllReaders library [x, y] with
        | none => rw [both.mpr sized'] at sized; cases sized
        | some z' =>
          rw [Sizes.eq steady same same (List.append_ne_nil_of_left_ne_nil someA b)
            (sizeForAllReaders_eq_some (List.forall_mem_append.mpr wf') sized)
            (sizesA.join sizesB sized')]

/-- An entropy readout, and two distinct counts within a half that fail at most once in two and once in
four. -/
noncomputable def mixedReaders : List SketchParams :=
  [.univMon 256 5 1024 16 none, .univMon 13 1 1 19 (some (1 / 2)), .univMon 23 1 1 19 (some (1 / 4))]

theorem mixedReaders_wellFormed : ∀ x ∈ mixedReaders, WellFormed x := by
  simp only [mixedReaders, List.forall_mem_cons, WellFormed]
  refine ⟨?_, ?_, ?_, List.forall_mem_nil _⟩
  · rintro δ ⟨⟩
  · rintro δ ⟨⟩
    norm_num
  · rintro δ ⟨⟩
    norm_num

theorem incompleteTopLayerBound_large : incompleteTopLayerBound 256 ≤ 1 / 50 := by
  have exponent : (256 : Nat) / 2 * (1 - 2 * Real.log 2) ≤ -49 := by
    have log := Real.log_two_gt_d9
    push_cast
    linarith
  have growth := Real.add_one_le_exp (49 : ℝ)
  calc incompleteTopLayerBound 256 ≤ Real.exp (-49) := Real.exp_le_exp.mpr exponent
    _ = (Real.exp 49)⁻¹ := Real.exp_neg 49
    _ ≤ 1 / 50 := by
        rw [inv_le_comm₀ (Real.exp_pos _) (by norm_num)]
        linarith

theorem distinctGrow_half : 256 < distinctGrow (1 / 2) (1 / 4) 256 := by
  have left : 0 < 1 / 2 - incompleteTopLayerBound 256 := by linarith [incompleteTopLayerBound_large]
  have error := distinctRelativeError_pos (by norm_num) left
  rw [distinctGrow, if_neg (not_or.mpr ⟨by norm_num, not_le.mpr left⟩)]
  refine lt_max_of_lt_left ?_
  by_contra small
  rw [not_lt] at small
  have meets := (distinctHeap_meets (small.trans_lt (by decide))).larger
    ((by decide : 0 < distinctMinHeap).trans_le (le_distinctHeap _ _)) error small
  rw [DistinctMeets, distinctChebyshev_error (by norm_num) left] at meets
  linarith

theorem distinctGrow_few : distinctGrow (1 / 2) (1 / 4) 13 ≤ 256 := by
  unfold distinctGrow
  split
  · norm_num
  · rename_i grows
    have left : 0 < 1 / 2 - incompleteTopLayerBound 13 := not_le.mp (not_or.mp grows).2
    have error := distinctRelativeError_pos (by norm_num) left
    have share := distinctChebyshev_error (by norm_num) left
    have above := incompleteTopLayerBound_pos 13
    have squared : distinctVariance / (distinctRelativeError 13 (1 / 2) * distinctRelativeError 13 (1 / 2)) =
        13 * (1 / 2 - incompleteTopLayerBound 13) := by
      rw [← share, distinctChebyshev]
      push_cast
      field_simp
    refine max_le ?_ (by norm_num)
    rw [distinctHeap, if_neg (not_not.mpr ⟨error, by norm_num⟩)]
    refine growHeap_le (saturatingCeil_le ?_ ?_ (by decide)) (.inl ?_)
    · exact div_pos (by norm_num [distinctVariance]) (mul_pos (mul_pos (by norm_num) error) error)
    · rw [mul_assoc, div_mul_eq_div_div_swap, squared]
      push_cast
      linarith
    · have large := incompleteTopLayerBound_large
      rw [DistinctMeets, distinctChebyshev, mul_assoc, div_mul_eq_div_div_swap, squared]
      push_cast
      linarith

theorem mixedReaders_grown : ∃ shared, sizeForAllReaders anyShape mixedReaders = some shared ∧
    256 < shared.size.1 := by
  obtain ⟨z, sized, size⟩ := sizeForAllReaders_built anyShape mixedReaders_wellFormed
    (by simp [SketchParams.family]) rfl
  refine ⟨z, sized, ?_⟩
  have quarter : level (some (1 / 4)) ≤ level (some (1 / 2)) := WithTop.coe_le_coe.mpr (by norm_num)
  have first : univmonGrowth.join (256, level none) (13, level (some (1 / 2))) =
      (256, level (some (1 / 2))) := Growth.join_of_le le_top
  have whole : z.size = univmonGrowth.join (univmonGrowth.join (256, level none)
      (13, level (some (1 / 2)))) (23, level (some (1 / 4))) := size
  have grown : z.size.1 = max (distinctGrow (1 / 2) (1 / 4) 256) 23 := by
    rw [whole, first, Growth.join_of_le quarter]
    rfl
  rw [grown]
  exact distinctGrow_half.trans_le (le_max_left _ _)

/-- The entropy readout's heap is grown when it comes first, and kept when it comes last. -/
theorem shared_size_order : ¬SharedSizeJoins anyShape mixedReaders := by
  rintro ⟨agree, _⟩
  have same : SameMembers (mixedReaders.rotate 1) mixedReaders := fun x => List.mem_rotate
  have orders := agree mixedReaders (mixedReaders.rotate 1) (fun _ => Iff.rfl) same
  obtain ⟨z, sized, grown⟩ := mixedReaders_grown
  obtain ⟨z', sized', size'⟩ := sizeForAllReaders_built anyShape
    (fun x inside => mixedReaders_wellFormed x ((same x).mp inside)) (by simp [SketchParams.family]) rfl
  have quarter : level (some (1 / 4)) ≤ level (some (1 / 2)) := WithTop.coe_le_coe.mpr (by norm_num)
  have kept : z'.size.1 = max (max (distinctGrow (1 / 2) (1 / 4) 13) 23) 256 := by
    have whole : z'.size = univmonGrowth.join (univmonGrowth.join (13, level (some (1 / 2)))
        (23, level (some (1 / 4)))) (256, level none) := size'
    have second : univmonGrowth.join (13, level (some (1 / 2))) (23, level (some (1 / 4))) =
        (max (distinctGrow (1 / 2) (1 / 4) 13) 23, level (some (1 / 4))) := Growth.join_of_le quarter
    rw [whole, second, Growth.join_of_ge (quarter.trans le_top)]
    rfl
  have few := distinctGrow_few
  have one : z = z' := by
    have sizes := sized.symm.trans (orders.trans sized')
    exact Option.some.inj sizes
  rw [one, kept] at grown
  omega

/-- An entropy readout, and two distinct counts that both fail at most once in four. -/
noncomputable def pairedReaders : List SketchParams :=
  [.univMon 256 5 1024 16 none, .univMon 23 1 1 19 (some (1 / 4)), .univMon 40 1 1 19 (some (1 / 4))]

theorem pairedReaders_wellFormed : ∀ x ∈ pairedReaders, WellFormed x := by
  simp only [pairedReaders, List.forall_mem_cons, WellFormed]
  refine ⟨?_, ?_, ?_, List.forall_mem_nil _⟩
  · rintro δ ⟨⟩
  · rintro δ ⟨⟩
    norm_num
  · rintro δ ⟨⟩
    norm_num

theorem pairedReaders_levels : ∀ x ∈ pairedReaders, x.size.2 = ⊤ ∨ x.size.2 = level (some (1 / 4)) := by
  simp only [pairedReaders, List.forall_mem_cons]
  exact ⟨.inl rfl, .inr rfl, .inr rfl, List.forall_mem_nil _⟩

theorem shared_size_joins_paired : SharedSizeJoins anyShape pairedReaders :=
  (shared_size_joins_iff anyShape pairedReaders pairedReaders_wellFormed).mpr fun _ _ _ =>
    (Growth.twoLevels_of (List.forall_mem_map.mpr pairedReaders_levels)).steady

end AsapPlanner.Estimators
