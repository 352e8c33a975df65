import AsapPlanner.Estimators.Kll
import AsapPlanner.Estimators.Univmon
import AsapPlanner.Joins.Stepped
import Mathlib.Order.WithBot

/-!
Resizing to a smaller failure probability, as a size that grows from level to level: a KLL's `k` and a
distinct count's heap.
-/

namespace AsapPlanner.Estimators
open Joins

theorem saturatingCeil_mono {x y : ℝ} {low high : Nat} (positive : 0 < x) (le : x ≤ y) :
    saturatingCeil x low high ≤ saturatingCeil y low high := by
  have ceil : ⌈x⌉₊ ≤ ⌈y⌉₊ := Nat.ceil_le_ceil le
  rw [saturatingCeil, saturatingCeil, if_neg (not_le.mpr positive), if_neg (not_le.mpr (positive.trans_le le))]
  omega

theorem saturatingCeil_le_high {x : ℝ} {low high : Nat} (ordered : low ≤ high) :
    saturatingCeil x low high ≤ high := by
  unfold saturatingCeil
  split
  · exact le_refl high
  · omega

/-! ### KLL -/

theorem kllK_antitone {eps eps' : ℝ} (positive : 0 < eps) (le : eps ≤ eps') : kllK eps' ≤ kllK eps := by
  have coefficient : 0 < kllRankErrorCoefficient99 := by norm_num [kllRankErrorCoefficient99]
  have exponent : 0 < kllRankErrorExponent99 := by norm_num [kllRankErrorExponent99]
  have larger := positive.trans_le le
  refine saturatingCeil_mono (Real.rpow_pos_of_pos (div_pos coefficient larger) _) ?_
  refine Real.rpow_le_rpow (div_pos coefficient larger).le ?_ (one_div_pos.mpr exponent).le
  exact div_le_div_of_nonneg_left coefficient.le positive le

/-- The scale sizing divides the rank error by: one where it records no probability. -/
noncomputable def kllScale (delta : ℝ) : ℝ :=
  if delta ≤ 0 ∨ kllCalibratedFailureProbability ≤ delta then 1 else (deltaScale delta).getD 1

/-- A KLL's `k` at no larger rank error, for a probability at most the calibration's. -/
noncomputable def kllGrow (current delta : ℝ) (k : Nat) : Nat :=
  if current ≤ 0 ∨ current ≤ delta then k
  else max (kllK (kllRankError99 k * kllScale current / kllScale delta)) k

theorem kllScale_pos (delta : ℝ) : 0 < kllScale delta := by
  unfold kllScale
  split
  · exact one_pos
  · rename_i rare
    rw [not_or, not_le, not_le] at rare
    obtain ⟨scale, known, positive⟩ := deltaScale_pos rare.1 (rare.2.trans calibrated_mem.2)
    rwa [known, Option.getD_some]

theorem kllSizeParams_eq (eps delta : ℝ) :
    ∃ recorded, kllSizeParams eps delta = .kll (kllK (eps / kllScale delta)) recorded := by
  unfold kllSizeParams kllScale
  split
  · exact ⟨none, by rw [div_one]⟩
  · exact ⟨some delta, rfl⟩

theorem kllWithFailureProbability_eq {k : Nat} {recorded : Option ℝ}
    (small : ∀ δ, recorded = some δ → δ < kllCalibratedFailureProbability) (delta : ℝ) :
    ∃ current, kllWithFailureProbability (.kll k recorded) delta =
      .kll (kllGrow (recorded.getD kllCalibratedFailureProbability) delta k) current := by
  have calibrated : recorded.getD kllCalibratedFailureProbability ≤ kllCalibratedFailureProbability := by
    cases known : recorded with
    | none => exact le_refl _
    | some δ => exact (small δ known).le
  obtain ⟨resized, sized⟩ : ∃ resized, kllSizeParams (kllRankError99 k *
      kllScale (recorded.getD kllCalibratedFailureProbability)) delta = .kll
        (kllK (kllRankError99 k * kllScale (recorded.getD kllCalibratedFailureProbability) /
          kllScale delta)) resized := kllSizeParams_eq _ delta
  rcases le_or_gt (recorded.getD kllCalibratedFailureProbability) 0 with negative | positive
  · have unscaled : deltaScale (recorded.getD kllCalibratedFailureProbability) = none :=
      if_pos (fun inside => not_lt.mpr negative inside.1)
    refine ⟨recorded, ?_⟩
    simp only [kllWithFailureProbability, unscaled]
    rw [kllGrow, if_pos (.inl negative)]
  · have scaled : deltaScale (recorded.getD kllCalibratedFailureProbability) =
        some (kllScale (recorded.getD kllCalibratedFailureProbability)) := by
      obtain ⟨scale, known, _⟩ := deltaScale_pos positive (calibrated.trans_lt calibrated_mem.2)
      rw [kllScale, known]
      split
      · rename_i rare
        have top := le_antisymm calibrated (rare.resolve_left (not_le.mpr positive))
        rw [← known, top, deltaScale, if_neg (not_not.mpr calibrated_mem), if_pos (le_refl _)]
      · rfl
    rcases le_or_gt (recorded.getD kllCalibratedFailureProbability) delta with rare | frequent
    · refine ⟨recorded, ?_⟩
      simp only [kllWithFailureProbability, scaled, if_pos rare]
      rw [kllGrow, if_pos (.inr rare)]
    · refine ⟨resized, ?_⟩
      simp only [kllWithFailureProbability, scaled, if_neg (not_le.mpr frequent), sized]
      rw [kllGrow, if_neg (not_or.mpr ⟨not_le.mpr positive, not_le.mpr frequent⟩)]

theorem kllRankError99_pos {k : Nat} (some : 0 < k) : 0 < kllRankError99 k :=
  div_pos (by norm_num [kllRankErrorCoefficient99]) (Real.rpow_pos_of_pos (Nat.cast_pos.mpr some) _)

theorem le_kllGrow (current delta : ℝ) (k : Nat) : k ≤ kllGrow current delta k := by
  unfold kllGrow
  split
  · exact le_refl k
  · exact le_max_right _ _

theorem kllGrow_mono {k k' : Nat} (some : 0 < k) (le : k ≤ k') (current delta : ℝ) :
    kllGrow current delta k ≤ kllGrow current delta k' := by
  unfold kllGrow
  split
  · exact le
  · refine max_le_max (kllK_antitone ?_ ?_) le
    · exact div_pos (mul_pos (kllRankError99_pos (some.trans_le le)) (kllScale_pos _)) (kllScale_pos _)
    · exact div_le_div_of_nonneg_right
        (mul_le_mul_of_nonneg_right (kllRankError99_antitone some le) (kllScale_pos _).le) (kllScale_pos _).le

theorem kllGrow_stepped {p q r : ℝ} {k : Nat} (some : 0 < k) (lower : r ≤ q) (low : q ≤ p) :
    kllGrow p r k ≤ kllGrow q r (kllGrow p q k) := by
  have error : 0 < kllRankError99 k := kllRankError99_pos some
  by_cases still : p ≤ 0 ∨ p ≤ r
  · have same : kllGrow p r k = k := if_pos still
    exact same.le.trans ((le_kllGrow p q k).trans (le_kllGrow q r _))
  rw [not_or, not_le, not_le] at still
  rcases low.eq_or_lt with rfl | below
  · rw [kllGrow.eq_def q q, if_pos (.inr (le_refl q))]
  have direct : kllGrow p r k = max (kllK (kllRankError99 k * kllScale p / kllScale r)) k :=
    if_neg (not_or.mpr ⟨not_le.mpr still.1, not_le.mpr still.2⟩)
  have middle : kllGrow p q k = max (kllK (kllRankError99 k * kllScale p / kllScale q)) k :=
    if_neg (not_or.mpr ⟨not_le.mpr still.1, not_le.mpr below⟩)
  rw [direct]
  refine max_le ?_ ((le_kllGrow p q k).trans (le_kllGrow q r _))
  by_cases last : q ≤ 0 ∨ q ≤ r
  · -- The last step is none: both scales are the same.
    have scale : kllScale r = kllScale q := by
      rcases last with negative | same
      · rw [kllScale, kllScale, if_pos (.inl (lower.trans negative)), if_pos (.inl negative)]
      · rw [le_antisymm lower same]
    have stays : kllGrow q r (kllGrow p q k) = kllGrow p q k := if_pos last
    rw [stays, middle, scale]
    exact le_max_left _ _
  · have grows : kllGrow q r (kllGrow p q k) =
        max (kllK (kllRankError99 (kllGrow p q k) * kllScale q / kllScale r)) (kllGrow p q k) := if_neg last
    rw [grows]
    rcases lt_or_ge (kllK (kllRankError99 k * kllScale p / kllScale q)) kllMaxK with fits | capped
    · refine le_max_of_le_left (kllK_antitone ?_ ?_)
      · exact div_pos (mul_pos (kllRankError99_pos (some.trans_le (le_kllGrow p q k))) (kllScale_pos _))
          (kllScale_pos _)
      · refine div_le_div_of_nonneg_right ?_ (kllScale_pos _).le
        rw [← le_div_iff₀ (kllScale_pos q)]
        refine kllRankError99_le (div_pos (mul_pos error (kllScale_pos _)) (kllScale_pos _)) fits ?_
        exact middle ▸ le_max_left _ _
    · refine le_max_of_le_right ?_
      calc _ ≤ kllMaxK := saturatingCeil_le_high (by decide)
        _ ≤ kllGrow p q k := middle ▸ le_max_of_le_left capped

/-- The level of a recorded probability: an unrecorded one is above any other. -/
def level : Option ℝ → WithTop ℝ
  | none => ⊤
  | some delta => delta

theorem level_injective : Function.Injective level := by
  intro a b same
  cases a with
  | none => cases b with
    | none => rfl
    | some δ => exact absurd same.symm (WithTop.coe_ne_top)
  | some δ => cases b with
    | none => exact absurd same WithTop.coe_ne_top
    | some δ' => exact congrArg some (WithTop.coe_injective same)

theorem level_minRecorded (a b : Option ℝ) : level (minRecorded a b) = min (level a) (level b) := by
  cases a with
  | none => cases b <;> simp [minRecorded, level]
  | some δ => cases b <;> simp [minRecorded, level]

/-- The probability a KLL at a level fails with: the calibration's at most. -/
noncomputable def kllProbability (level : WithTop ℝ) : ℝ :=
  level.recTopCoe kllCalibratedFailureProbability (min kllCalibratedFailureProbability)

theorem kllProbability_mono : Monotone kllProbability := by
  intro p q le
  cases q with
  | top =>
    cases p with
    | top => exact le_refl _
    | coe δ => exact min_le_left _ _
  | coe δ' =>
    cases p with
    | top => exact absurd le (by simp)
    | coe δ => exact min_le_min_left _ (WithTop.coe_le_coe.mp le)

theorem kllProbability_level {recorded : Option ℝ}
    (small : ∀ δ, recorded = some δ → δ < kllCalibratedFailureProbability) :
    kllProbability (level recorded) = recorded.getD kllCalibratedFailureProbability := by
  cases recorded with
  | none => rfl
  | some δ => exact min_eq_right (small δ rfl).le

/-- How a KLL's `k` grows from level to level. -/
noncomputable def kllGrowth : Growth Nat (WithTop ℝ) where
  grow p q k := if k = 0 then 0 else kllGrow (kllProbability p) (kllProbability q) k
  grow_self p k := by
    split
    · rename_i none
      exact none.symm
    · exact if_pos (.inr (le_refl _))
  grow_mono p q := by
    intro k k' le
    simp only
    split
    · exact Nat.zero_le _
    · rename_i some
      rw [if_neg (Nat.pos_iff_ne_zero.mp ((Nat.pos_of_ne_zero some).trans_le le))]
      exact kllGrow_mono (Nat.pos_of_ne_zero some) le _ _
  grow_stepped {p q r} k lower low := by
    by_cases none : k = 0
    · simp only [if_pos none, Nat.zero_le]
    · have some := Nat.pos_of_ne_zero none
      have more : kllGrow (kllProbability p) (kllProbability q) k ≠ 0 :=
        (some.trans_le (le_kllGrow _ _ k)).ne'
      simp only [if_neg none, if_neg more]
      exact kllGrow_stepped some (kllProbability_mono lower) (kllProbability_mono low)

/-! ### Distinct counts -/

theorem growHeap_le {eps delta : ℝ} {k n : Nat} (start : k ≤ n)
    (enough : DistinctMeets n eps delta ∨ cardCap ≤ n) : growHeap eps delta k ≤ n := by
  induction k using growHeap.induct eps delta with
  | case1 k more ih =>
    rw [growHeap, if_pos more]
    refine ih (lt_of_le_of_ne start ?_)
    rintro rfl
    rcases enough with meets | capped
    · exact more.1 meets
    · exact absurd more.2 (not_lt.mpr capped)
  | case2 k done =>
    rwa [growHeap, if_neg done]

theorem distinctHeap_le_cap (eps delta : ℝ) : distinctHeap eps delta ≤ cardCap := by
  unfold distinctHeap
  split
  · exact le_refl _
  · exact growHeap_le (saturatingCeil_le_high (by decide)) (.inr (le_refl _))

theorem distinctHeap_antitone {eps eps' : ℝ} (positive : 0 < eps) (le : eps ≤ eps') (delta : ℝ) :
    distinctHeap eps' delta ≤ distinctHeap eps delta := by
  by_cases some : 0 < delta
  · have larger := positive.trans_le le
    have variance : 0 < distinctVariance := by norm_num [distinctVariance]
    have size : distinctHeap eps delta = growHeap eps delta
        (saturatingCeil (distinctVariance / (delta * eps * eps)) distinctMinHeap cardCap) :=
      if_neg (not_not.mpr ⟨positive, some⟩)
    rw [distinctHeap, if_neg (not_not.mpr ⟨larger, some⟩)]
    refine growHeap_le ((saturatingCeil_mono (by positivity) ?_).trans (size ▸ growHeap_spec.1)) ?_
    · gcongr
    · by_cases below : distinctHeap eps delta < cardCap
      · have heap : (0 : ℝ) < distinctHeap eps delta :=
          Nat.cast_pos.mpr ((by decide : 0 < distinctMinHeap).trans_le (le_distinctHeap eps delta))
        have share : distinctChebyshev (distinctHeap eps delta) eps' ≤
            distinctChebyshev (distinctHeap eps delta) eps := by
          unfold distinctChebyshev
          gcongr
        exact .inl ((add_le_add share (le_refl _)).trans (distinctHeap_meets below))
      · exact .inr (not_lt.mp below)
  · rw [distinctHeap, distinctHeap, if_pos (fun valid => some valid.2), if_pos (fun valid => some valid.2)]

noncomputable def distinctGrow (current delta : ℝ) (heapSize : Nat) : Nat :=
  if current ≤ delta ∨ current - incompleteTopLayerBound heapSize ≤ 0 then heapSize
  else max (distinctHeap (distinctRelativeError heapSize current) delta) heapSize

theorem univmonWithFailureProbability_eq (heapSize rows cols layers : Nat) (current delta : ℝ) :
    ∃ recorded, univmonWithFailureProbability (.univMon heapSize rows cols layers (some current)) delta =
      .univMon (distinctGrow current delta heapSize) rows cols layers recorded := by
  unfold univmonWithFailureProbability distinctGrow
  simp only
  split
  · exact ⟨_, rfl⟩
  · exact ⟨_, rfl⟩

theorem le_distinctGrow (current delta : ℝ) (heapSize : Nat) :
    heapSize ≤ distinctGrow current delta heapSize := by
  unfold distinctGrow
  split
  · exact le_refl _
  · exact le_max_right _ _

theorem distinctRelativeError_pos {heapSize : Nat} {current : ℝ} (some : 0 < heapSize)
    (left : 0 < current - incompleteTopLayerBound heapSize) : 0 < distinctRelativeError heapSize current :=
  Real.sqrt_pos.mpr (div_pos (by norm_num [distinctVariance])
    (mul_pos (Nat.cast_pos.mpr some) left))

theorem distinctChebyshev_error {heapSize : Nat} {current : ℝ} (some : 0 < heapSize)
    (left : 0 < current - incompleteTopLayerBound heapSize) :
    distinctChebyshev heapSize (distinctRelativeError heapSize current) =
      current - incompleteTopLayerBound heapSize := by
  have heap : (0 : ℝ) < heapSize := Nat.cast_pos.mpr some
  have spread : 0 ≤ distinctVariance / (heapSize * (current - incompleteTopLayerBound heapSize)) :=
    (div_pos (by norm_num [distinctVariance]) (mul_pos heap left)).le
  have variance : distinctVariance ≠ 0 := by norm_num [distinctVariance]
  rw [distinctChebyshev, mul_assoc, distinctRelativeError, Real.mul_self_sqrt spread]
  field_simp

theorem distinctRelativeError_antitone {k k' : Nat} {current : ℝ} (some : 0 < k) (le : k ≤ k')
    (left : 0 < current - incompleteTopLayerBound k) :
    distinctRelativeError k' current ≤ distinctRelativeError k current := by
  have size : (0 : ℝ) < k := Nat.cast_pos.mpr some
  have rest : current - incompleteTopLayerBound k ≤ current - incompleteTopLayerBound k' :=
    sub_le_sub_left (incompleteTopLayerBound_antitone le) current
  refine Real.sqrt_le_sqrt (div_le_div_of_nonneg_left (by norm_num [distinctVariance])
    (mul_pos size left) ?_)
  exact mul_le_mul (Nat.cast_le.mpr le) rest left.le (Nat.cast_nonneg k')

theorem distinctGrow_mono {k k' : Nat} (some : 0 < k) (le : k ≤ k') (current delta : ℝ) :
    distinctGrow current delta k ≤ distinctGrow current delta k' := by
  by_cases still : current ≤ delta ∨ current - incompleteTopLayerBound k ≤ 0
  · rw [distinctGrow, if_pos still]
    exact le.trans (le_distinctGrow _ _ _)
  · have left : 0 < current - incompleteTopLayerBound k := not_le.mp (not_or.mp still).2
    have left' : 0 < current - incompleteTopLayerBound k' :=
      left.trans_le (sub_le_sub_left (incompleteTopLayerBound_antitone le) current)
    rw [distinctGrow, distinctGrow, if_neg still,
      if_neg (not_or.mpr ⟨(not_or.mp still).1, not_le.mpr left'⟩)]
    exact max_le_max (distinctHeap_antitone (distinctRelativeError_pos (some.trans_le le) left')
      (distinctRelativeError_antitone some le left) delta) le

theorem distinctGrow_error {p q : ℝ} {k : Nat} (some : 0 < k)
    (left : 0 < p - incompleteTopLayerBound k) (below : q < p) (fits : distinctGrow p q k < cardCap) :
    0 < q - incompleteTopLayerBound (distinctGrow p q k) ∧
      distinctRelativeError (distinctGrow p q k) q ≤ distinctRelativeError k p := by
  have error := distinctRelativeError_pos some left
  have grown : distinctGrow p q k = max (distinctHeap (distinctRelativeError k p) q) k :=
    if_neg (not_or.mpr ⟨not_le.mpr below, not_le.mpr left⟩)
  have heap : (0 : ℝ) < distinctGrow p q k :=
    Nat.cast_pos.mpr (some.trans_le (le_distinctGrow p q k))
  have sized : distinctHeap (distinctRelativeError k p) q < cardCap :=
    (le_max_left _ _).trans_lt (grown ▸ fits)
  have meets : DistinctMeets (distinctGrow p q k) (distinctRelativeError k p) q :=
    (distinctHeap_meets sized).larger ((by decide : 0 < distinctMinHeap).trans_le (le_distinctHeap _ _))
      error (grown ▸ le_max_left _ _)
  have share : distinctChebyshev (distinctGrow p q k) (distinctRelativeError k p) ≤
      q - incompleteTopLayerBound (distinctGrow p q k) := le_sub_iff_add_le.mpr meets
  have variance : 0 < distinctVariance := by norm_num [distinctVariance]
  have left' : 0 < q - incompleteTopLayerBound (distinctGrow p q k) :=
    (div_pos variance (mul_pos (mul_pos heap error) error)).trans_le share
  refine ⟨left', (Real.sqrt_le_left error.le).mpr ?_⟩
  rw [distinctChebyshev, div_le_iff₀ (mul_pos (mul_pos heap error) error)] at share
  rw [div_le_iff₀ (mul_pos heap left')]
  linarith

theorem distinctGrow_stepped {p q r : ℝ} {k : Nat} (some : 0 < k) (lower : r ≤ q) (low : q ≤ p) :
    distinctGrow p r k ≤ distinctGrow q r (distinctGrow p q k) := by
  have more := (le_distinctGrow p q k).trans (le_distinctGrow q r _)
  by_cases still : p ≤ r ∨ p - incompleteTopLayerBound k ≤ 0
  · have same : distinctGrow p r k = k := if_pos still
    exact same.le.trans more
  rw [not_or, not_le, not_le] at still
  rcases low.eq_or_lt with rfl | below
  · rw [distinctGrow.eq_def q q, if_pos (.inl (le_refl q))]
  rcases lower.eq_or_lt with rfl | last
  · exact le_distinctGrow r r _
  have direct : distinctGrow p r k = max (distinctHeap (distinctRelativeError k p) r) k :=
    if_neg (not_or.mpr ⟨not_le.mpr still.1, not_le.mpr still.2⟩)
  rw [direct]
  refine max_le ?_ more
  rcases lt_or_ge (distinctGrow p q k) cardCap with fits | capped
  · obtain ⟨left, error⟩ := distinctGrow_error some still.2 below fits
    have grows : distinctGrow q r (distinctGrow p q k) =
        max (distinctHeap (distinctRelativeError (distinctGrow p q k) q) r) (distinctGrow p q k) :=
      if_neg (not_or.mpr ⟨not_le.mpr last, not_le.mpr left⟩)
    rw [grows]
    exact le_max_of_le_left (distinctHeap_antitone
      (distinctRelativeError_pos (some.trans_le (le_distinctGrow p q k)) left) error r)
  · exact (distinctHeap_le_cap _ _).trans (capped.trans (le_distinctGrow q r _))

/-- A UnivMon's heap grown from level to level: one not sized for a distinct count keeps it. -/
noncomputable def univmonGrow (p q : WithTop ℝ) (heapSize : Nat) : Nat :=
  match p, q with
  | (current : ℝ), (delta : ℝ) => if heapSize = 0 then 0 else distinctGrow current delta heapSize
  | _, _ => heapSize

theorem le_univmonGrow (p q : WithTop ℝ) (heapSize : Nat) : heapSize ≤ univmonGrow p q heapSize := by
  unfold univmonGrow
  split
  · split
    · rename_i none
      exact none.le
    · exact le_distinctGrow _ _ _
  · exact le_refl _

noncomputable def univmonGrowth : Growth Nat (WithTop ℝ) where
  grow := univmonGrow
  grow_self p k := by
    cases p with
    | top => rfl
    | coe current =>
      simp only [univmonGrow]
      split
      · rename_i none
        exact none.symm
      · exact if_pos (.inl (le_refl _))
  grow_mono p q := by
    intro k k' le
    cases p with
    | top => exact le
    | coe current => cases q with
      | top => exact le
      | coe delta =>
        simp only [univmonGrow]
        split
        · exact Nat.zero_le _
        · rename_i some
          rw [if_neg (Nat.pos_iff_ne_zero.mp ((Nat.pos_of_ne_zero some).trans_le le))]
          exact distinctGrow_mono (Nat.pos_of_ne_zero some) le _ _
  grow_stepped {p q r} k lower low := by
    cases p with
    | top => exact le_univmonGrow q r k
    | coe current =>
      obtain ⟨middle, rfl⟩ := WithTop.ne_top_iff_exists.mp (low.trans_lt (WithTop.coe_lt_top current)).ne
      obtain ⟨delta, rfl⟩ := WithTop.ne_top_iff_exists.mp (lower.trans_lt (WithTop.coe_lt_top middle)).ne
      by_cases none : k = 0
      · simp only [univmonGrow, if_pos none, Nat.zero_le]
      · have some := Nat.pos_of_ne_zero none
        have more : distinctGrow current middle k ≠ 0 := (some.trans_le (le_distinctGrow _ _ k)).ne'
        simp only [univmonGrow, if_neg none, if_neg more]
        exact distinctGrow_stepped some (WithTop.coe_le_coe.mp lower) (WithTop.coe_le_coe.mp low)

end AsapPlanner.Estimators
