import AsapPlanner.Estimators.Params
import Mathlib.Analysis.Complex.ExponentialBounds
import Mathlib.Analysis.SpecialFunctions.Log.Basic

/-!
UnivMon's distinct count: Chebyshev's share of its failure probability, and the top layer's.
-/

namespace AsapPlanner.Estimators
open Accuracy Rust

/-- What the sketch library builds. -/
structure Library where
  maxLayers : Nat
  matrixMaxRows : Nat
  checkShape : Nat → Nat → Nat → Nat → Bool

def Library.hashIndependent (library : Library) (rows cols layers : Nat) : Bool :=
  decide (rows ≤ library.matrixMaxRows) && library.checkShape 1 rows cols layers

/-- `Var[estimate] ≤ 1.35 F0²/k` for `k ≥ 8`. -/
noncomputable def distinctVariance : ℝ := 1.35

def distinctMinHeap : Nat := 8
def cardCap : Nat := 2 ^ 26

/-- `(e/4)^(k/2)`: the chance the top layer misses a key, with at most `k/2` expected to reach it. -/
noncomputable def incompleteTopLayerBound (heapSize : Nat) : ℝ :=
  Real.exp (heapSize / 2 * (1 - 2 * Real.log 2))

noncomputable def distinctChebyshev (heapSize : Nat) (eps : ℝ) : ℝ :=
  distinctVariance / (heapSize * eps * eps)

/-- Whether a heap's two shares fit `delta`. -/
def DistinctMeets (heapSize : Nat) (eps delta : ℝ) : Prop :=
  distinctChebyshev heapSize eps + incompleteTopLayerBound heapSize ≤ delta

open Classical in
noncomputable def growHeap (eps delta : ℝ) (k : Nat) : Nat :=
  if ¬DistinctMeets k eps delta ∧ k < cardCap then growHeap eps delta (k + 1) else k
termination_by cardCap - k

/-- The smallest heap found that misses `eps` with probability at most `delta`, capped. -/
noncomputable def distinctHeap (eps delta : ℝ) : Nat :=
  if ¬(0 < eps ∧ 0 < delta) then cardCap
  else growHeap eps delta
    (saturatingCeil (distinctVariance / (delta * eps * eps)) distinctMinHeap cardCap)

def incompleteTopLayerStatistic (heapSize layers : Nat) (source : String) : String :=
  "univmon_incomplete_top_layer_probability[k=" ++ toString heapSize ++ ",layers=" ++
    toString layers ++ "](max_distinct[" ++ source ++ "])"

/-- The probability the statistic names, given the source's distinct bound. -/
noncomputable def incompleteTopLayerProbability (heapSize layers maxDistinct : Nat) : ℝ :=
  if maxDistinct ≤ heapSize then 0
  else if 2 ≤ layers ∧ maxDistinct ≤ heapSize * 2 ^ (layers - 2) then
    incompleteTopLayerBound heapSize
  else 1

/-- The relative error left to Chebyshev's share of `delta`. -/
noncomputable def distinctRelativeError (heapSize : Nat) (delta : ℝ) : ℝ :=
  √(distinctVariance / (heapSize * (delta - incompleteTopLayerBound heapSize)))

/-- How a distinct count's evidence serializes. -/
abbrev DistinctEvidence := Nat → Nat → String → ℝ → Json

noncomputable def distinctGuarantee (library : Library) (evidence : DistinctEvidence)
    (params : SketchParams) (source : String) : Option (AccuracyGuarantee ℝ) :=
  match params with
  | .univMon heapSize sketchRows sketchCols layers (some delta) =>
    if heapSize < distinctMinHeap ∨ library.hashIndependent sketchRows sketchCols layers = false ∨
        ¬(0 < delta ∧ delta < 1) then none
    else
      let chebyshev := delta - incompleteTopLayerBound heapSize
      if chebyshev ≤ 0 then none
      else
        let relativeError := distinctRelativeError heapSize delta
        some (.new .relative (.constant relativeError)
          (.unionBound [.constant chebyshev,
            .unknown (incompleteTopLayerStatistic heapSize layers source)])
          [.sketchEvaluation "UnivMon" "univmon_distinct_complete_top_layer_chebyshev_v1"
            (evidence heapSize layers source relativeError) "Cardinality"])
  | _ => none

/-- A distinct count resized to fail with probability at most `delta` at no larger error. -/
noncomputable def univmonWithFailureProbability (params : SketchParams) (delta : ℝ) : SketchParams :=
  match params with
  | .univMon heapSize sketchRows sketchCols layers (some current) =>
    let chebyshev := current - incompleteTopLayerBound heapSize
    if current ≤ delta ∨ chebyshev ≤ 0 then params
    else .univMon (max (distinctHeap (distinctRelativeError heapSize current) delta) heapSize)
      sketchRows sketchCols layers (some delta)
  | _ => params

/-- The most layers, and the smallest heap for the target. -/
noncomputable def univmonDistinctSizeParams (library : Library) (eps delta : ℝ) : SketchParams :=
  .univMon (distinctHeap eps delta) 1 1 library.maxLayers (some delta)

/-- The heap of one UnivMon shared by two readers: each distinct reader's grown to the smaller
failure probability. -/
noncomputable def sharedHeap (heapSize : Nat) (distinct : Option ℝ) (heapSize' : Nat)
    (distinct' : Option ℝ) : Nat :=
  let resized (delta : ℝ) (heapSize : Nat) (distinct : Option ℝ) : Nat :=
    match univmonWithFailureProbability (.univMon heapSize 1 1 1 distinct) delta with
    | .univMon heapSize .. => heapSize
    | _ => heapSize
  match minRecorded distinct distinct' with
  | some delta => max (resized delta heapSize distinct) (resized delta heapSize' distinct')
  | none => max heapSize heapSize'

/-! ### Heaps -/

theorem incompleteTopLayerBound_pos (heapSize : Nat) : 0 < incompleteTopLayerBound heapSize :=
  Real.exp_pos _

theorem incompleteTopLayerBound_antitone : Antitone incompleteTopLayerBound := by
  intro k k' le
  have falls : 1 - 2 * Real.log 2 ≤ 0 := by linarith [Real.log_two_gt_d9]
  refine Real.exp_le_exp.mpr (mul_le_mul_of_nonpos_right ?_ falls)
  exact div_le_div_of_nonneg_right (Nat.cast_le.mpr le) two_pos.le

theorem incompleteTopLayerBound_le_one (heapSize : Nat) : incompleteTopLayerBound heapSize ≤ 1 := by
  have empty : incompleteTopLayerBound 0 = 1 := by simp [incompleteTopLayerBound]
  exact empty ▸ incompleteTopLayerBound_antitone (Nat.zero_le heapSize)

theorem DistinctMeets.larger {k k' : Nat} {eps delta : ℝ} (meets : DistinctMeets k eps delta)
    (some : 0 < k) (positive : 0 < eps) (le : k ≤ k') : DistinctMeets k' eps delta := by
  have size : (0 : ℝ) < k := Nat.cast_pos.mpr some
  have share : distinctChebyshev k' eps ≤ distinctChebyshev k eps := by
    refine div_le_div_of_nonneg_left (by norm_num [distinctVariance])
      (mul_pos (mul_pos size positive) positive) ?_
    gcongr
  exact (add_le_add share (incompleteTopLayerBound_antitone le)).trans meets

theorem growHeap_spec {eps delta : ℝ} {k : Nat} : k ≤ growHeap eps delta k ∧
    (growHeap eps delta k < cardCap → DistinctMeets (growHeap eps delta k) eps delta) := by
  induction k using growHeap.induct eps delta with
  | case1 k more ih =>
    rw [growHeap, if_pos more]
    exact ⟨(Nat.le_succ k).trans ih.1, ih.2⟩
  | case2 k done =>
    rw [growHeap, if_neg done]
    refine ⟨le_refl k, fun below => ?_⟩
    by_contra missed
    exact done ⟨missed, below⟩

theorem le_distinctHeap (eps delta : ℝ) : distinctMinHeap ≤ distinctHeap eps delta := by
  unfold distinctHeap
  split
  · decide
  · exact (low_le_saturatingCeil (by decide)).trans growHeap_spec.1

theorem distinctHeap_meets {eps delta : ℝ} (below : distinctHeap eps delta < cardCap) :
    DistinctMeets (distinctHeap eps delta) eps delta := by
  unfold distinctHeap at below ⊢
  split at below
  · exact absurd below (lt_irrefl cardCap)
  · rename_i valid
    rw [if_neg valid]
    exact growHeap_spec.2 below

theorem distinctGuarantee_unknown {library : Library} {evidence : DistinctEvidence}
    {params : SketchParams} {source : String} {stated : AccuracyGuarantee ℝ}
    (known : distinctGuarantee library evidence params source = some stated) :
    stated.spec.failureProbability.evaluate = none := by
  cases params with
  | univMon heapSize rows cols layers recorded =>
    cases recorded with
    | none => cases known
    | some delta =>
      simp only [distinctGuarantee] at known
      split at known
      · cases known
      split at known
      · cases known
      obtain rfl := Option.some.inj known
      have last : ProbabilityExpr.evaluateAll
          [.unknown (incompleteTopLayerStatistic heapSize layers source)] = (none : Option (List ℝ)) := rfl
      rw [AccuracyGuarantee.new_failureProbability, ProbabilityExpr.evaluate,
        ProbabilityExpr.evaluateAll, last]
      cases (ProbabilityExpr.constant (delta - incompleteTopLayerBound heapSize)).evaluate <;> rfl
  | _ => cases known

/-! ### Readers -/

/-- A heap that misses `eps` with at most the probability `recorded`, itself at most `delta`. -/
structure DistinctServes (heapSize : Nat) (recorded eps delta : ℝ) : Prop where
  built : distinctMinHeap ≤ heapSize
  positive : 0 < recorded
  below : recorded < 1
  rare : recorded ≤ delta
  within : ∃ error, 0 < error ∧ error ≤ eps ∧ DistinctMeets heapSize error recorded

section
variable {heapSize : Nat} {recorded eps delta : ℝ}

theorem DistinctServes.size (serves : DistinctServes heapSize recorded eps delta) : 0 < heapSize :=
  (by decide : 0 < distinctMinHeap).trans_le serves.built

theorem DistinctServes.chebyshev (serves : DistinctServes heapSize recorded eps delta) :
    0 < recorded - incompleteTopLayerBound heapSize ∧
      0 < distinctRelativeError heapSize recorded ∧ distinctRelativeError heapSize recorded ≤ eps ∧
      DistinctMeets heapSize (distinctRelativeError heapSize recorded) recorded := by
  obtain ⟨error, above, small, meets⟩ := serves.within
  have heap : (0 : ℝ) < heapSize := Nat.cast_pos.mpr serves.size
  have variance : 0 < distinctVariance := by norm_num [distinctVariance]
  have share : distinctChebyshev heapSize error ≤ recorded - incompleteTopLayerBound heapSize :=
    le_sub_iff_add_le.mpr meets
  have left : 0 < recorded - incompleteTopLayerBound heapSize :=
    (div_pos variance (mul_pos (mul_pos heap above) above)).trans_le share
  have spread : 0 < distinctVariance / (heapSize * (recorded - incompleteTopLayerBound heapSize)) :=
    div_pos variance (mul_pos heap left)
  have bound : distinctVariance / (heapSize * (recorded - incompleteTopLayerBound heapSize)) ≤
      error ^ 2 := by
    rw [distinctChebyshev, div_le_iff₀ (mul_pos (mul_pos heap above) above)] at share
    rw [div_le_iff₀ (mul_pos heap left)]
    linarith
  have root := Real.sqrt_pos.mpr spread
  refine ⟨left, root, ((Real.sqrt_le_left above.le).mpr bound).trans small, ?_⟩
  have exact : distinctChebyshev heapSize (distinctRelativeError heapSize recorded) =
      recorded - incompleteTopLayerBound heapSize := by
    rw [distinctChebyshev, mul_assoc, distinctRelativeError, Real.mul_self_sqrt spread.le]
    field_simp
  exact (add_le_add_left exact.le _).trans (sub_add_cancel _ _).le

theorem DistinctServes.larger (serves : DistinctServes heapSize recorded eps delta) {heapSize' : Nat}
    (le : heapSize ≤ heapSize') : DistinctServes heapSize' recorded eps delta := by
  obtain ⟨error, above, small, meets⟩ := serves.within
  exact ⟨serves.built.trans le, serves.positive, serves.below, serves.rare,
    error, above, small, meets.larger serves.size above le⟩

theorem DistinctServes.resized (serves : DistinctServes heapSize recorded eps delta)
    (rows cols layers : Nat) {δ : ℝ} (positive : 0 < δ) (le : δ ≤ recorded) : ∃ resized current,
      univmonWithFailureProbability (.univMon heapSize rows cols layers (some recorded)) δ =
        .univMon resized rows cols layers current ∧ heapSize ≤ resized ∧
      (resized < cardCap → DistinctServes resized δ eps delta) := by
  obtain ⟨left, above, small, meets⟩ := serves.chebyshev
  rcases le.eq_or_lt with rfl | fewer
  · refine ⟨heapSize, some δ, ?_, le_refl _, fun _ => serves⟩
    rw [univmonWithFailureProbability]
    exact if_pos (.inl (le_refl δ))
  · refine ⟨max (distinctHeap (distinctRelativeError heapSize recorded) δ) heapSize, some δ, ?_,
      le_max_right _ _, fun below => ?_⟩
    · rw [univmonWithFailureProbability]
      exact if_neg (not_or.mpr ⟨not_le.mpr fewer, not_le.mpr left⟩)
    · have sized := distinctHeap_meets ((le_max_left _ _).trans_lt below)
      have some : 0 < distinctHeap (distinctRelativeError heapSize recorded) δ :=
        (by decide : 0 < distinctMinHeap).trans_le (le_distinctHeap _ _)
      exact ⟨serves.built.trans (le_max_right _ _), positive, fewer.trans serves.below,
        le.trans serves.rare, _, above, small, sized.larger some above (le_max_left _ _)⟩

theorem distinctHeap_serves (eps_pos : 0 < eps) (positive : 0 < delta) (one : delta < 1)
    (below : distinctHeap eps delta < cardCap) :
    DistinctServes (distinctHeap eps delta) delta eps delta :=
  ⟨le_distinctHeap eps delta, positive, one, le_refl delta, eps, eps_pos, le_refl eps,
    distinctHeap_meets below⟩

end

theorem univmonWithFailureProbability_le (heapSize rows cols layers : Nat) (recorded : Option ℝ)
    (delta : ℝ) : ∃ resized current,
      univmonWithFailureProbability (.univMon heapSize rows cols layers recorded) delta =
        .univMon resized rows cols layers current ∧ heapSize ≤ resized := by
  cases recorded with
  | none => exact ⟨heapSize, none, rfl, le_refl _⟩
  | some current =>
    simp only [univmonWithFailureProbability]
    split
    · exact ⟨heapSize, some current, rfl, le_refl _⟩
    · exact ⟨_, _, rfl, le_max_right _ _⟩

theorem le_sharedHeap (k k' : Nat) (f f' : ℝ) :
    k ≤ sharedHeap k (some f) k' (some f') ∧ k' ≤ sharedHeap k (some f) k' (some f') := by
  obtain ⟨r, c, resized, more⟩ := univmonWithFailureProbability_le k 1 1 1 (some f) (min f f')
  obtain ⟨r', c', resized', more'⟩ := univmonWithFailureProbability_le k' 1 1 1 (some f') (min f f')
  simp only [sharedHeap, minRecorded, resized, resized']
  exact ⟨more.trans (le_max_left _ _), more'.trans (le_max_right _ _)⟩

theorem sharedHeap_serves {k k' : Nat} {f f' eps delta eps' delta' : ℝ}
    (one : DistinctServes k f eps delta) (other : DistinctServes k' f' eps' delta')
    (below : sharedHeap k (some f) k' (some f') < cardCap) :
    DistinctServes (sharedHeap k (some f) k' (some f')) (min f f') eps delta ∧
      DistinctServes (sharedHeap k (some f) k' (some f')) (min f f') eps' delta' := by
  have positive := lt_min one.positive other.positive
  obtain ⟨r, c, resized, more, serves⟩ :=
    one.resized 1 1 1 positive (min_le_left f f')
  obtain ⟨r', c', resized', more', serves'⟩ :=
    other.resized 1 1 1 positive (min_le_right f f')
  have size : sharedHeap k (some f) k' (some f') = max r r' := by
    simp only [sharedHeap, minRecorded, resized, resized']
  rw [size] at below ⊢
  exact ⟨(serves ((le_max_left _ _).trans_lt below)).larger (le_max_left _ _),
    (serves' ((le_max_right _ _).trans_lt below)).larger (le_max_right _ _)⟩

end AsapPlanner.Estimators
