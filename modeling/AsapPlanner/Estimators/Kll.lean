import AsapPlanner.Estimators.Params
import Mathlib.Analysis.SpecialFunctions.Pow.Real
import Mathlib.Analysis.Complex.ExponentialBounds

/-!
KLL's rank error at the empirical 99% calibration, scaled to smaller failure probabilities.
-/

namespace AsapPlanner.Estimators
open Accuracy
open Ir (SketchAlgorithm SketchStatistic)

/-- The largest `k` the library builds. -/
def kllMaxK : Nat := 26602

noncomputable def kllRankErrorCoefficient99 : ℝ := 2.296
noncomputable def kllRankErrorExponent99 : ℝ := 0.9723

noncomputable def kllCalibratedFailureProbability : ℝ := 0.01

def kllEmpirical99Contract : String := "apache_datasketches_kll_empirical_99_a9b42755072b"

def kllDeltaScaledContract : String :=
  "apache_datasketches_kll_empirical_99_delta_scaled_a9b42755072b"

noncomputable def kllRankError99 (k : Nat) : ℝ :=
  kllRankErrorCoefficient99 / (k : ℝ) ^ kllRankErrorExponent99

noncomputable def kllK (eps : ℝ) : Nat :=
  saturatingCeil ((kllRankErrorCoefficient99 / eps) ^ (1 / kllRankErrorExponent99)) 8 kllMaxK

/-- The outer branch of Acklam's rational approximation. -/
noncomputable def quantileTail (q : ℝ) : ℝ :=
  (((((-7.784894002430293e-3 * q + -3.223964580411365e-1) * q + -2.400758277161838) * q +
    -2.549732539343734) * q + 4.374664141464968) * q + 2.938163982698783) /
  ((((7.784695709041462e-3 * q + 3.224671290700398e-1) * q + 2.445134137142996) * q +
    3.754408661907416) * q + 1)

/-- Its central branch. -/
noncomputable def quantileCentre (q : ℝ) : ℝ :=
  let r := q * q
  (((((-3.969683028665376e1 * r + 2.209460984245205e2) * r + -2.759285104469687e2) * r +
    1.38357751867269e2) * r + -3.066479806614716e1) * r + 2.506628277459239) * q /
  (((((-5.447609879822406e1 * r + 1.615858368580409e2) * r + -1.556989798598866e2) * r +
    6.680131188771972e1) * r + -1.328068155288572e1) * r + 1)

/-- The standard normal quantile for `0 < p < 1`. -/
noncomputable def normalQuantile (p : ℝ) : ℝ :=
  if p < 0.02425 then quantileTail √(-2 * Real.log p)
  else if 1 - 0.02425 < p then -quantileTail √(-2 * Real.log (1 - p))
  else quantileCentre (p - 0.5)

/-- How much the rank error at `delta` exceeds the calibrated one. -/
noncomputable def deltaScale (delta : ℝ) : Option ℝ :=
  if ¬(0 < delta ∧ delta < 1) then none
  else if kllCalibratedFailureProbability ≤ delta then some 1
  else some (normalQuantile (delta / 2) / normalQuantile (kllCalibratedFailureProbability / 2))

noncomputable def kllGuarantee (explain : Explain) (algorithm : SketchAlgorithm)
    (params : SketchParams) (query : SketchStatistic) : Option (AccuracyGuarantee ℝ) :=
  match params with
  | .kll k failureProbability =>
    if kllMaxK < k then none
    else
      let delta := failureProbability.getD kllCalibratedFailureProbability
      (deltaScale delta).map fun scale =>
        boundedGuarantee explain algorithm params query .rank (kllRankError99 k * scale)
          (.constant delta) (if delta < kllCalibratedFailureProbability then kllDeltaScaledContract
            else kllEmpirical99Contract)
  | _ => none

/-- `k` for rank error `eps` at failure probability `delta`, and the probability it records. -/
noncomputable def kllSizeParams (eps delta : ℝ) : SketchParams :=
  if delta ≤ 0 ∨ kllCalibratedFailureProbability ≤ delta then .kll (kllK eps) none
  else .kll (kllK (eps / (deltaScale delta).getD 1)) (some delta)

/-- `params` resized to fail with probability at most `delta` at no larger rank error. -/
noncomputable def kllWithFailureProbability (params : SketchParams) (delta : ℝ) : SketchParams :=
  match params with
  | .kll k failureProbability =>
    let current := failureProbability.getD kllCalibratedFailureProbability
    match deltaScale current with
    | none => params
    | some scale =>
      if current ≤ delta then params
      else match kllSizeParams (kllRankError99 k * scale) delta with
        | .kll resized failureProbability => .kll (max resized k) failureProbability
        | other => other
  | _ => params

/-- The `k` of one KLL shared by two readers: each resized to the smaller failure probability. -/
noncomputable def sharedK (k : Nat) (failureProbability : Option ℝ) (k' : Nat)
    (failureProbability' : Option ℝ) : Nat :=
  let delta := min (failureProbability.getD kllCalibratedFailureProbability)
    (failureProbability'.getD kllCalibratedFailureProbability)
  let resized (k : Nat) (failureProbability : Option ℝ) : Nat :=
    match kllWithFailureProbability (.kll k failureProbability) delta with
    | .kll k _ => k
    | _ => k
  max (resized k failureProbability) (resized k' failureProbability')

/-! ### The scale -/

theorem horner_le {a b q : ℝ} (c : ℝ) (below : a ≤ b) (nonpos : b ≤ 0) (large : 2 ≤ q) :
    a * q + c ≤ b * 2 + c := by
  have first := mul_le_mul_of_nonneg_right below (two_pos.le.trans large)
  have second := mul_le_mul_of_nonpos_left large nonpos
  linarith

theorem quantileTail_neg {q : ℝ} (large : 2 ≤ q) : quantileTail q < 0 := by
  have positive : 0 < q := two_pos.trans_le large
  refine div_neg_of_neg_of_pos ?_ (by positivity)
  have first := horner_le (-3.223964580411365e-1) (le_refl (-7.784894002430293e-3 : ℝ))
    (by norm_num) large
  have second := horner_le (-2.400758277161838) first (by norm_num) large
  have third := horner_le (-2.549732539343734) second (by norm_num) large
  have fourth := horner_le 4.374664141464968 third (by norm_num) large
  have fifth := horner_le 2.938163982698783 fourth (by norm_num) large
  exact fifth.trans_lt (by norm_num)

theorem two_le_sqrt_log {p : ℝ} (positive : 0 < p) (small : p ≤ 0.005) : 2 ≤ √(-2 * Real.log p) := by
  have bound : p ≤ Real.exp (-2) := by
    have square : Real.exp 2 = Real.exp 1 ^ 2 := by rw [← Real.exp_nat_mul]; norm_num
    have e := Real.exp_one_lt_d9
    have large : Real.exp 2 ≤ 200 := by
      rw [square]
      calc Real.exp 1 ^ 2 ≤ 2.7182818286 ^ 2 := pow_le_pow_left₀ (Real.exp_nonneg 1) e.le 2
        _ ≤ 200 := by norm_num
    rw [Real.exp_neg]
    calc p ≤ 200⁻¹ := small.trans (by norm_num)
      _ ≤ (Real.exp 2)⁻¹ := inv_anti₀ (Real.exp_pos 2) large
  have logs : Real.log p ≤ -2 := (Real.log_le_iff_le_exp positive).mpr bound
  rw [Real.le_sqrt' two_pos]
  linarith

theorem normalQuantile_neg {p : ℝ} (positive : 0 < p) (small : p ≤ 0.005) : normalQuantile p < 0 := by
  rw [normalQuantile, if_pos (by linarith)]
  exact quantileTail_neg (two_le_sqrt_log positive small)

theorem deltaScale_pos {delta : ℝ} (positive : 0 < delta) (below : delta < 1) :
    ∃ scale, deltaScale delta = some scale ∧ 0 < scale := by
  rw [deltaScale, if_neg (not_not.mpr ⟨positive, below⟩)]
  split
  · exact ⟨1, rfl, one_pos⟩
  · rename_i rare
    have small : delta / 2 ≤ 0.005 := by
      rw [kllCalibratedFailureProbability, not_le] at rare
      linarith
    refine ⟨_, rfl, div_pos_of_neg_of_neg (normalQuantile_neg (half_pos positive) small) ?_⟩
    exact normalQuantile_neg (by norm_num [kllCalibratedFailureProbability])
      (by norm_num [kllCalibratedFailureProbability])

/-! ### The rank error -/

theorem kllRankError99_nonneg (k : Nat) : 0 ≤ kllRankError99 k :=
  div_nonneg (by norm_num [kllRankErrorCoefficient99]) (Real.rpow_nonneg k.cast_nonneg _)

theorem kllRankError99_antitone {k k' : Nat} (some : 0 < k) (le : k ≤ k') :
    kllRankError99 k' ≤ kllRankError99 k := by
  have size : (0 : ℝ) < k := Nat.cast_pos.mpr some
  refine div_le_div_of_nonneg_left (by norm_num [kllRankErrorCoefficient99])
    (Real.rpow_pos_of_pos size _) ?_
  exact Real.rpow_le_rpow size.le (Nat.cast_le.mpr le) (by norm_num [kllRankErrorExponent99])

theorem kllK_pos (eps : ℝ) : 0 < kllK eps :=
  lt_of_lt_of_le (by decide) (low_le_saturatingCeil (by decide) : 8 ≤ kllK eps)

theorem kllRankError99_le {eps : ℝ} (positive : 0 < eps) (below : kllK eps < kllMaxK) {k : Nat}
    (more : kllK eps ≤ k) : kllRankError99 k ≤ eps := by
  have coefficient : 0 < kllRankErrorCoefficient99 := by norm_num [kllRankErrorCoefficient99]
  have exponent : 0 < kllRankErrorExponent99 := by norm_num [kllRankErrorExponent99]
  have fits := (le_saturatingCeil below (by decide)).trans (Nat.cast_le.mpr more)
  have share : 0 < kllRankErrorCoefficient99 / eps := div_pos coefficient positive
  have raised : kllRankErrorCoefficient99 / eps ≤ (k : ℝ) ^ kllRankErrorExponent99 := by
    have powers := Real.rpow_le_rpow (Real.rpow_nonneg share.le _) fits exponent.le
    rwa [← Real.rpow_mul share.le, one_div_mul_cancel exponent.ne', Real.rpow_one] at powers
  rwa [kllRankError99, div_le_comm₀ (share.trans_le raised) positive]

/-! ### Readers -/

/-- A KLL whose guarantee is within `eps` and `delta`. -/
structure KllServes (k : Nat) (failureProbability : Option ℝ) (eps delta : ℝ) : Prop where
  built : 0 < k
  recorded : ∀ δ, failureProbability = some δ → 0 < δ ∧ δ < kllCalibratedFailureProbability
  rank : ∃ scale, deltaScale (failureProbability.getD kllCalibratedFailureProbability) = some scale ∧
    kllRankError99 k * scale ≤ eps
  rare : failureProbability.getD kllCalibratedFailureProbability ≤ delta

theorem calibrated_mem : 0 < kllCalibratedFailureProbability ∧ kllCalibratedFailureProbability < 1 := by
  norm_num [kllCalibratedFailureProbability]

theorem kllSizeParams_recorded {eps delta : ℝ} (positive : 0 < delta)
    (rare : delta < kllCalibratedFailureProbability) {scale : ℝ} (known : deltaScale delta = some scale) :
    kllSizeParams eps delta = .kll (kllK (eps / scale)) (some delta) := by
  rw [kllSizeParams, if_neg (not_or.mpr ⟨not_le.mpr positive, not_le.mpr rare⟩), known,
    Option.getD_some]

theorem kllSizeParams_serves {eps delta : ℝ} (positive : 0 < eps) (some : 0 < delta) (below : delta < 1) :
    ∃ k failureProbability, kllSizeParams eps delta = .kll k failureProbability ∧
      (k < kllMaxK → KllServes k failureProbability eps delta) := by
  rcases le_or_gt kllCalibratedFailureProbability delta with calibrated | rare
  · refine ⟨kllK eps, none, if_pos (.inr calibrated), fun fits => ⟨kllK_pos eps, ?_, ?_, calibrated⟩⟩
    · rintro δ ⟨⟩
    · refine ⟨1, ?_, ?_⟩
      · rw [Option.getD_none, deltaScale, if_neg (not_not.mpr calibrated_mem), if_pos (le_refl _)]
      · rw [mul_one]
        exact kllRankError99_le positive fits (le_refl _)
  · obtain ⟨scale, known, above⟩ := deltaScale_pos some below
    refine ⟨_, _, kllSizeParams_recorded some rare known, fun fits => ⟨kllK_pos _, ?_, ?_, le_refl _⟩⟩
    · rintro δ ⟨⟩
      exact ⟨some, rare⟩
    · refine ⟨scale, known, ?_⟩
      rw [← le_div_iff₀ above]
      exact kllRankError99_le (div_pos positive above) fits (le_refl _)

section
variable {k : Nat} {failureProbability : Option ℝ} {eps delta : ℝ}

theorem KllServes.current_mem (serves : KllServes k failureProbability eps delta) :
    0 < failureProbability.getD kllCalibratedFailureProbability ∧
      failureProbability.getD kllCalibratedFailureProbability ≤ kllCalibratedFailureProbability := by
  cases recorded : failureProbability with
  | none => exact ⟨calibrated_mem.1, le_refl _⟩
  | some δ => exact (serves.recorded δ recorded).imp_right le_of_lt

theorem KllServes.resized (serves : KllServes k failureProbability eps delta) {δ : ℝ}
    (positive : 0 < δ) (le : δ ≤ failureProbability.getD kllCalibratedFailureProbability) :
    ∃ resized failureProbability', kllWithFailureProbability (.kll k failureProbability) δ =
      .kll resized failureProbability' ∧ k ≤ resized ∧ (resized < kllMaxK → ∀ k' ≥ resized,
        ∃ scale, deltaScale δ = some scale ∧ kllRankError99 k' * scale ≤ eps) := by
  obtain ⟨scale, known, within⟩ := serves.rank
  have current := serves.current_mem
  obtain ⟨scale', known', above⟩ :=
    deltaScale_pos current.1 (current.2.trans_lt calibrated_mem.2)
  obtain rfl := Option.some.inj (known'.symm.trans known)
  rcases le_or_gt (failureProbability.getD kllCalibratedFailureProbability) δ with same | fewer
  · refine ⟨k, failureProbability, ?_, le_refl k, fun _ k' more => ⟨scale', ?_, ?_⟩⟩
    · simp only [kllWithFailureProbability, known, if_pos same]
    · rw [le_antisymm le same, known]
    · exact (mul_le_mul_of_nonneg_right (kllRankError99_antitone serves.built more) above.le).trans within
  · have rare := fewer.trans_le current.2
    obtain ⟨small, smaller, least⟩ := deltaScale_pos positive (rare.trans calibrated_mem.2)
    refine ⟨max (kllK (kllRankError99 k * scale' / small)) k, some δ, ?_, le_max_right _ _,
      fun fits k' more => ⟨small, smaller, ?_⟩⟩
    · simp only [kllWithFailureProbability, known, if_neg (not_le.mpr fewer),
        kllSizeParams_recorded positive rare smaller]
    · have error : 0 < kllRankError99 k * scale' / small := by
        refine div_pos (mul_pos ?_ above) least
        exact div_pos (by norm_num [kllRankErrorCoefficient99])
          (Real.rpow_pos_of_pos (Nat.cast_pos.mpr serves.built) _)
      have bound := kllRankError99_le error ((le_max_left _ _).trans_lt fits)
        ((le_max_left _ _).trans more)
      exact ((le_div_iff₀ least).mp bound).trans within

end

theorem minRecorded_getD {a b : Option ℝ} (calibrated : ℝ) (small : ∀ δ, a = some δ → δ < calibrated)
    (small' : ∀ δ, b = some δ → δ < calibrated) :
    (minRecorded a b).getD calibrated = min (a.getD calibrated) (b.getD calibrated) := by
  cases a with
  | none =>
    cases b with
    | none => exact (min_self calibrated).symm
    | some δ => exact (min_eq_right (small' δ rfl).le).symm
  | some δ =>
    cases b with
    | none => exact (min_eq_left (small δ rfl).le).symm
    | some δ' => rfl

theorem minRecorded_mem {a b : Option ℝ} {δ : ℝ} (recorded : minRecorded a b = some δ) :
    a = some δ ∨ b = some δ := by
  cases a with
  | none => exact .inr (by cases b <;> exact recorded)
  | some x =>
    cases b with
    | none => exact .inl recorded
    | some y =>
      obtain rfl := Option.some.inj recorded
      rcases min_choice x y with left | right
      · exact .inl (by rw [left])
      · exact .inr (by rw [right])

theorem kllWithFailureProbability_le (k : Nat) (failureProbability : Option ℝ) (delta : ℝ) :
    ∃ resized current, kllWithFailureProbability (.kll k failureProbability) delta =
      .kll resized current ∧ k ≤ resized := by
  have sized : ∀ eps, ∃ size recorded, kllSizeParams eps delta = .kll size recorded := by
    intro eps
    unfold kllSizeParams
    split
    · exact ⟨_, _, rfl⟩
    · exact ⟨_, _, rfl⟩
  unfold kllWithFailureProbability
  simp only
  split
  · exact ⟨k, failureProbability, rfl, le_refl k⟩
  rename_i scale _
  split
  · exact ⟨k, failureProbability, rfl, le_refl k⟩
  obtain ⟨size, recorded, eq⟩ := sized (kllRankError99 k * scale)
  rw [eq]
  exact ⟨max size k, recorded, rfl, le_max_right _ _⟩

theorem le_sharedK (k k' : Nat) (f f' : Option ℝ) :
    k ≤ sharedK k f k' f' ∧ k' ≤ sharedK k f k' f' := by
  obtain ⟨r, g, resized, more⟩ := kllWithFailureProbability_le k f
    (min (f.getD kllCalibratedFailureProbability) (f'.getD kllCalibratedFailureProbability))
  obtain ⟨r', g', resized', more'⟩ := kllWithFailureProbability_le k' f'
    (min (f.getD kllCalibratedFailureProbability) (f'.getD kllCalibratedFailureProbability))
  simp only [sharedK, resized, resized']
  exact ⟨more.trans (le_max_left _ _), more'.trans (le_max_right _ _)⟩

theorem sharedK_serves {k k' : Nat} {f f' : Option ℝ} {eps delta eps' delta' : ℝ}
    (one : KllServes k f eps delta) (other : KllServes k' f' eps' delta')
    (below : sharedK k f k' f' < kllMaxK) :
    KllServes (sharedK k f k' f') (minRecorded f f') eps delta ∧
      KllServes (sharedK k f k' f') (minRecorded f f') eps' delta' := by
  have shared := minRecorded_getD kllCalibratedFailureProbability
    (fun δ known => (one.recorded δ known).2) (fun δ known => (other.recorded δ known).2)
  have positive := lt_min one.current_mem.1 other.current_mem.1
  obtain ⟨r, g, resized, more, ranks⟩ := one.resized positive (min_le_left _ _)
  obtain ⟨r', g', resized', more', ranks'⟩ := other.resized positive (min_le_right _ _)
  have size : sharedK k f k' f' = max r r' := by simp only [sharedK, resized, resized']
  have recorded : ∀ δ, minRecorded f f' = some δ → 0 < δ ∧ δ < kllCalibratedFailureProbability :=
    fun δ known => (minRecorded_mem known).elim (one.recorded δ) (other.recorded δ)
  rw [size] at below ⊢
  have some : 0 < max r r' := (one.built.trans_le more).trans_le (le_max_left _ _)
  refine ⟨⟨some, recorded, ?_, ?_⟩, ⟨some, recorded, ?_, ?_⟩⟩
  · rw [shared]
    exact ranks ((le_max_left _ _).trans_lt below) _ (le_max_left _ _)
  · rw [shared]
    exact (min_le_left _ _).trans one.rare
  · rw [shared]
    exact ranks' ((le_max_right _ _).trans_lt below) _ (le_max_right _ _)
  · rw [shared]
    exact (min_le_right _ _).trans other.rare

end AsapPlanner.Estimators
