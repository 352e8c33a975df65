import AsapPlanner.Estimators.CountSketch
import AsapPlanner.Estimators.Kll
import AsapPlanner.Estimators.Univmon
import AsapPlanner.Traversal.Run

/-!
One state shared by readers that were each sized alone.
-/

namespace AsapPlanner.Estimators
open Accuracy Probability
open Ir (AggIntent SketchAlgorithm SketchStatistic)

/-- A candidate budget for `k` keys. -/
noncomputable def topkCapacity (k : Nat) (eps : ℝ) : Nat :=
  max (min k maxU32) (saturatingCeil (1 / eps) 1 (2 ^ 26))

/-- The size of one readout at `(eps, delta)`. UnivMon's is its distinct count's; no rule here sizes
HLL or UnivMon's other readouts. -/
noncomputable def sizeParams (library : Library) (kind : SketchAlgorithm) (intent : AggIntent)
    (eps delta : ℝ) : Option SketchParams :=
  match kind with
  | .univMon => match intent with
    | .cardinality .. => some (univmonDistinctSizeParams library eps delta)
    | _ => none
  | .kll => some (kllSizeParams eps delta)
  | .cms => some (.cms (cmsWidth eps) (cmsDepth delta))
  | .cmsWithHeap => match intent with
    | .topK k _ => some (.cmsWithHeap (cmsWidth eps) (cmsDepth delta) (topkCapacity k eps))
    | _ => none
  | .ddSketch => some (.ddSketch eps)
  | .kmv => some (.kmv (kmvK eps delta) (some eps))
  | .countSketch => some (.countSketch (countSketchWidth eps)
      (countSketchDepth (countSketchWidth eps) delta))
  | .countSketchWithHeap => match intent with
    | .topK k _ => some (.countSketchWithHeap (countSketchWidth eps)
        (countSketchDepth (countSketchWidth eps) delta) (topkCapacity k eps))
    | _ => none
  | _ => none

/-- The guarantee parameters state of themselves. HLL's and UnivMon's other readouts' are not stated
here. -/
noncomputable def sketchGuarantee (explain : Explain) (algorithm : SketchAlgorithm)
    (params : SketchParams) (query : SketchStatistic) : Option (AccuracyGuarantee ℝ) :=
  match params with
  | .kll .. => kllGuarantee explain algorithm params query
  | .ddSketch _ => ddSketchGuarantee explain algorithm params query
  | .cms .. => cmsGuarantee explain algorithm params query
  | .cmsWithHeap .. => cmsGuarantee explain algorithm params query
  | .countSketch .. => countSketchGuarantee explain algorithm params query
  | .countSketchWithHeap .. => countSketchGuarantee explain algorithm params query
  | .kmv .. => kmvGuarantee explain algorithm params query
  | _ => none

/-- One state for two readers: each parameter's larger value, or the smaller where that is stricter. -/
noncomputable def shareTwo : SketchParams → SketchParams → Option SketchParams
  | .univMon heapSize rows cols layers distinct, .univMon heapSize' rows' cols' layers' distinct' =>
    some (.univMon (sharedHeap heapSize distinct heapSize' distinct') (max rows rows')
      (max cols cols') (max layers layers') (minRecorded distinct distinct'))
  | .kll k failure, .kll k' failure' =>
    some (.kll (sharedK k failure k' failure') (minRecorded failure failure'))
  | .cms width depth, .cms width' depth' => some (.cms (max width width') (max depth depth'))
  | .countSketch width depth, .countSketch width' depth' =>
    some (.countSketch (max width width') (max depth depth'))
  | .cmsWithHeap width depth heap, .cmsWithHeap width' depth' heap' =>
    some (.cmsWithHeap (max width width') (max depth depth') (max heap heap'))
  | .countSketchWithHeap width depth heap, .countSketchWithHeap width' depth' heap' =>
    some (.countSketchWithHeap (max width width') (max depth depth') (max heap heap'))
  | .hll precision error, .hll precision' error' =>
    some (.hll (max precision precision') (minRecorded error error'))
  | .ddSketch alpha, .ddSketch alpha' => some (.ddSketch (min alpha alpha'))
  | .kmv k error, .kmv k' error' => some (.kmv (max k k') (minRecorded error error'))
  | _, _ => none

/-- The parameters of one state shared by the consumers sized alone with `params`. -/
noncomputable def sizeForAllReaders (library : Library) : List SketchParams → Option SketchParams
  | [] => none
  | first :: rest => (rest.foldlM shareTwo first).bind fun shared => match shared with
    | .univMon _ rows cols layers _ =>
      if library.hashIndependent rows cols layers then some shared else none
    | _ => some shared

/-! ### Readers -/

/-- One reader and the target it was sized for. -/
structure Reader where
  intent : AggIntent
  epsilon : ℝ
  delta : ℝ
  epsilon_pos : 0 < epsilon
  epsilon_lt_one : epsilon < 1
  delta_pos : 0 < delta
  delta_lt_one : delta < 1

def Reader.Sized (library : Library) (kind : SketchAlgorithm) (reader : Reader)
    (params : SketchParams) : Prop :=
  sizeParams library kind reader.intent reader.epsilon reader.delta = some params

/-- The families whose readers share one state. -/
def Shares : SketchAlgorithm → Prop
  | .kll => True
  | .ddSketch => True
  | .kmv => True
  | .cms => True
  | .countSketch => True
  | .univMon => True
  | _ => False

/-- What a state shared by `readers` is made of. -/
def Joined (library : Library) (kind : SketchAlgorithm) (readers : List Reader)
    (shared : SketchParams) : Prop :=
  match kind with
  | .kll => ∃ k failure, shared = .kll k failure ∧
      (k < kllMaxK → ∀ reader ∈ readers, KllServes k failure reader.epsilon reader.delta)
  | .ddSketch => ∃ alpha, shared = .ddSketch alpha ∧ 0 < alpha ∧
      ∀ reader ∈ readers, alpha ≤ reader.epsilon
  | .kmv => ∃ k error, shared = .kmv k (some error) ∧
      (∀ reader ∈ readers, kmvK reader.epsilon reader.delta ≤ k ∧ error ≤ reader.epsilon) ∧
      (∃ reader ∈ readers, kmvK reader.epsilon reader.delta = k) ∧
      ∃ reader ∈ readers, reader.epsilon = error
  | .cms => ∃ width depth, shared = .cms width depth ∧
      ∀ reader ∈ readers, cmsWidth reader.epsilon ≤ width ∧ cmsDepth reader.delta ≤ depth
  | .countSketch => ∃ width depth, shared = .countSketch width depth ∧
      (∀ reader ∈ readers, countSketchWidth reader.epsilon ≤ width ∧
        countSketchDepth (countSketchWidth reader.epsilon) reader.delta ≤ depth) ∧
      (∃ reader ∈ readers, countSketchWidth reader.epsilon = width) ∧
      ∃ reader ∈ readers, countSketchDepth (countSketchWidth reader.epsilon) reader.delta = depth
  | .univMon => ∃ heapSize failure, shared = .univMon heapSize 1 1 library.maxLayers (some failure) ∧
      (∀ reader ∈ readers, distinctHeap reader.epsilon reader.delta ≤ heapSize) ∧
      (heapSize < cardCap →
        ∀ reader ∈ readers, DistinctServes heapSize failure reader.epsilon reader.delta)
  | _ => False

theorem joined_single {library : Library} {kind : SketchAlgorithm} (shares : Shares kind)
    {reader : Reader} {params : SketchParams} (sized : reader.Sized library kind params) :
    Joined library kind [reader] params := by
  unfold Reader.Sized sizeParams at sized
  cases kind with
  | kll =>
    obtain rfl := Option.some.inj sized
    obtain ⟨k, failure, same, serves⟩ :=
      kllSizeParams_serves reader.epsilon_pos reader.delta_pos reader.delta_lt_one
    exact ⟨k, failure, same, fun below => List.forall_mem_singleton.mpr (serves below)⟩
  | ddSketch =>
    obtain rfl := Option.some.inj sized
    exact ⟨_, rfl, reader.epsilon_pos, List.forall_mem_singleton.mpr (le_refl _)⟩
  | kmv =>
    obtain rfl := Option.some.inj sized
    exact ⟨_, _, rfl, List.forall_mem_singleton.mpr ⟨le_refl _, le_refl _⟩,
      ⟨reader, List.mem_singleton_self _, rfl⟩, reader, List.mem_singleton_self _, rfl⟩
  | cms =>
    obtain rfl := Option.some.inj sized
    exact ⟨_, _, rfl, List.forall_mem_singleton.mpr ⟨le_refl _, le_refl _⟩⟩
  | countSketch =>
    obtain rfl := Option.some.inj sized
    exact ⟨_, _, rfl, List.forall_mem_singleton.mpr ⟨le_refl _, le_refl _⟩,
      ⟨reader, List.mem_singleton_self _, rfl⟩, reader, List.mem_singleton_self _, rfl⟩
  | univMon =>
    simp only at sized
    split at sized
    · obtain rfl := Option.some.inj sized
      exact ⟨_, _, rfl, List.forall_mem_singleton.mpr (le_refl _),
        fun below => List.forall_mem_singleton.mpr (distinctHeap_serves reader.epsilon_pos
          reader.delta_pos reader.delta_lt_one below)⟩
    · cases sized
  | _ => exact shares.elim

theorem forall_mem_concat {α : Type} {P : α → Prop} {items : List α} {last : α} :
    (∀ item ∈ items ++ [last], P item) ↔ (∀ item ∈ items, P item) ∧ P last := by
  simp [or_imp, forall_and]

theorem exists_max {α β : Type} [LinearOrder β] {f : α → β} {items : List α} {last : α} {value : β}
    (attained : ∃ item ∈ items, f item = value) :
    ∃ item ∈ items ++ [last], f item = max value (f last) := by
  obtain ⟨item, inside, rfl⟩ := attained
  rcases max_choice (f item) (f last) with old | new
  · exact ⟨item, List.mem_append_left _ inside, old.symm⟩
  · exact ⟨last, List.mem_append_right _ (List.mem_singleton_self last), new.symm⟩

theorem exists_min {α β : Type} [LinearOrder β] {f : α → β} {items : List α} {last : α} {value : β}
    (attained : ∃ item ∈ items, f item = value) :
    ∃ item ∈ items ++ [last], f item = min value (f last) :=
  exists_max (β := βᵒᵈ) attained

theorem joined_step {library : Library} {kind : SketchAlgorithm} (shares : Shares kind)
    {readers : List Reader} {reader : Reader} {shared params both : SketchParams} (some : readers ≠ [])
    (joined : Joined library kind readers shared) (sized : reader.Sized library kind params)
    (share : shareTwo shared params = .some both) : Joined library kind (readers ++ [reader]) both := by
  obtain ⟨first, rest, rfl⟩ := List.exists_cons_of_ne_nil some
  have single := joined_single shares sized
  unfold Reader.Sized sizeParams at sized
  cases kind with
  | kll =>
    obtain ⟨k, failure, rfl, serves⟩ := joined
    obtain ⟨k', failure', rfl, serves'⟩ := single
    obtain rfl := Option.some.inj share
    refine ⟨_, _, rfl, fun below => ?_⟩
    obtain ⟨more, more'⟩ := le_sharedK k k' failure failure'
    have old := serves (more.trans_lt below)
    have new := serves' (more'.trans_lt below) reader (List.mem_singleton_self reader)
    exact forall_mem_concat.mpr ⟨fun one inside => (sharedK_serves (old one inside) new below).1,
      (sharedK_serves (old first List.mem_cons_self) new below).2⟩
  | ddSketch =>
    obtain ⟨alpha, rfl, positive, least⟩ := joined
    obtain ⟨alpha', rfl, positive', least'⟩ := single
    obtain rfl := Option.some.inj share
    refine ⟨_, rfl, lt_min positive positive', forall_mem_concat.mpr ⟨fun old inside => ?_, ?_⟩⟩
    · exact (min_le_left _ _).trans (least old inside)
    · exact (min_le_right _ _).trans (least' reader (List.mem_singleton_self reader))
  | kmv =>
    obtain ⟨k, error, rfl, bounds, sizes, errors⟩ := joined
    obtain rfl := Option.some.inj sized
    obtain rfl := Option.some.inj share
    refine ⟨_, _, rfl, forall_mem_concat.mpr ⟨fun old inside => ?_, ?_⟩, exists_max sizes,
      exists_min errors⟩
    · exact ⟨(bounds old inside).1.trans (le_max_left _ _),
        (min_le_left _ _).trans (bounds old inside).2⟩
    · exact ⟨le_max_right _ _, min_le_right _ _⟩
  | cms =>
    obtain ⟨width, depth, rfl, bounds⟩ := joined
    obtain rfl := Option.some.inj sized
    obtain rfl := Option.some.inj share
    refine ⟨_, _, rfl, forall_mem_concat.mpr ⟨fun old inside => ?_, ?_⟩⟩
    · exact ⟨(bounds old inside).1.trans (le_max_left _ _),
        (bounds old inside).2.trans (le_max_left _ _)⟩
    · exact ⟨le_max_right _ _, le_max_right _ _⟩
  | countSketch =>
    obtain ⟨width, depth, rfl, bounds, widths, depths⟩ := joined
    obtain rfl := Option.some.inj sized
    obtain rfl := Option.some.inj share
    refine ⟨_, _, rfl, forall_mem_concat.mpr ⟨fun old inside => ?_, ?_⟩, exists_max widths,
      exists_max depths⟩
    · exact ⟨(bounds old inside).1.trans (le_max_left _ _),
        (bounds old inside).2.trans (le_max_left _ _)⟩
    · exact ⟨le_max_right _ _, le_max_right _ _⟩
  | univMon =>
    obtain ⟨heapSize, failure, rfl, sizes, serves⟩ := joined
    obtain ⟨heapSize', failure', rfl, sizes', serves'⟩ := single
    obtain rfl := Option.some.inj share
    obtain ⟨more, more'⟩ := le_sharedHeap heapSize heapSize' failure failure'
    have shape : max library.maxLayers library.maxLayers = library.maxLayers := max_self _
    refine ⟨_, min failure failure', by rw [shape]; rfl, forall_mem_concat.mpr
      ⟨fun old inside => (sizes old inside).trans more,
        (sizes' reader (List.mem_singleton_self reader)).trans more'⟩, fun below => ?_⟩
    have old := serves (more.trans_lt below)
    have new := serves' (more'.trans_lt below) reader (List.mem_singleton_self reader)
    exact forall_mem_concat.mpr ⟨fun one inside => (sharedHeap_serves (old one inside) new below).1,
      (sharedHeap_serves (old first List.mem_cons_self) new below).2⟩
  | _ => exact shares.elim

theorem joined_foldlM {library : Library} {kind : SketchAlgorithm} (shares : Shares kind)
    {before readers : List Reader} {sizes : List SketchParams} {first shared : SketchParams}
    (some : before ≠ []) (joined : Joined library kind before first)
    (sized : List.Forall₂ (Reader.Sized library kind) readers sizes)
    (fold : sizes.foldlM shareTwo first = .some shared) :
    Joined library kind (before ++ readers) shared := by
  induction sized generalizing before first with
  | nil =>
    obtain rfl := Option.some.inj fold
    rwa [List.append_nil]
  | @cons reader params readers sizes here _ ih =>
    rw [List.foldlM_cons, Option.bind_eq_bind, Option.bind_eq_some_iff] at fold
    obtain ⟨both, share, fold⟩ := fold
    have step := ih (List.append_ne_nil_of_left_ne_nil some [reader])
      (joined_step shares some joined here share) fold
    rwa [List.append_assoc] at step

theorem joined_of_sizeForAllReaders {library : Library} {kind : SketchAlgorithm} (shares : Shares kind)
    {readers : List Reader} {sizes : List SketchParams} {shared : SketchParams}
    (sized : List.Forall₂ (Reader.Sized library kind) readers sizes)
    (joins : sizeForAllReaders library sizes = some shared) :
    Joined library kind readers shared := by
  cases sized with
  | nil => cases joins
  | @cons reader params readers sizes here rest =>
    obtain ⟨joined, fold, built⟩ := Option.bind_eq_some_iff.mp joins
    have same : joined = shared := by
      split at built
      · split at built
        · exact Option.some.inj built
        · cases built
      · exact Option.some.inj built
    exact joined_foldlM shares (List.cons_ne_nil reader []) (joined_single shares here) rest
      (same ▸ fold)

/-! ### What a shared state guarantees -/

def BelowCap : SketchParams → Prop
  | .kll k _ => k < kllMaxK
  | .kmv k _ => k < kmvMaxK
  | .cms width depth => width < cmsMaxWidth ∧ depth < cmsMaxDepth
  | .countSketch width depth => width < countSketchMaxWidth ∧ depth < countSketchMaxDepth
  | .univMon heapSize .. => heapSize < cardCap
  | _ => True

/-- Whether a UnivMon's top layer holds, or rarely misses, a source's distinct keys. -/
def Covers (params : SketchParams) (maxDistinct : Nat) : Prop :=
  match params with
  | .univMon heapSize _ _ layers _ =>
    maxDistinct ≤ heapSize ∨ 2 ≤ layers ∧ maxDistinct ≤ heapSize * 2 ^ (layers - 2)
  | _ => True

/-- What is known of a source with at most `maxDistinct` distinct keys. -/
noncomputable def distinctBound (params : SketchParams) (source : String) (maxDistinct : Nat)
    (statistic : String) : Option ℝ :=
  match params with
  | .univMon heapSize _ _ layers _ =>
    if statistic = incompleteTopLayerStatistic heapSize layers source then
      some (incompleteTopLayerProbability heapSize layers maxDistinct)
    else none
  | _ => none

/-- The guarantee of reading `query` from a shared state, a distinct count's at its source's bound. -/
noncomputable def readerGuarantee (library : Library) (explain : Explain) (evidence : DistinctEvidence)
    (kind : SketchAlgorithm) (params : SketchParams) (query : SketchStatistic) (source : String)
    (maxDistinct : Nat) : Option (AccuracyGuarantee ℝ) :=
  match kind with
  | .univMon => (distinctGuarantee library evidence params source).map
      (·.bind (distinctBound params source maxDistinct))
  | _ => sketchGuarantee explain kind params query

/-- When the shared state fails as rarely as each of its readers asked. A KMV's failure probability
grows with a smaller error and a Count Sketch's with the width: some reader's own `k`, or depth, must
do at the smallest error, or the largest width. -/
def RareWhen (kind : SketchAlgorithm) (readers : List Reader) (shared : SketchParams)
    (maxDistinct : Nat) : Prop :=
  match kind with
  | .kmv => ∃ reader ∈ readers, ∀ strictest ∈ readers,
      (∀ other ∈ readers, strictest.epsilon ≤ other.epsilon) → ∀ other ∈ readers,
        kmvFailureProbability (kmvK reader.epsilon reader.delta) strictest.epsilon ≤ other.delta
  | .countSketch => ∃ reader ∈ readers, ∀ widest ∈ readers, (∀ other ∈ readers,
      countSketchWidth other.epsilon ≤ countSketchWidth widest.epsilon) → ∀ other ∈ readers,
        ∃ tail ≤ other.delta, countSketchFailureProbability (countSketchWidth widest.epsilon)
          (countSketchDepth (countSketchWidth reader.epsilon) reader.delta) = some tail
  | .univMon => Covers shared maxDistinct
  | _ => True

/-- A guarantee within every reader's error, and within their failure probabilities when `rare`. -/
def Serves (guarantee : Option (AccuracyGuarantee ℝ)) (readers : List Reader) (rare : Prop) : Prop :=
  ∃ stated e d, guarantee = some stated ∧ stated.Bounds e d ∧
    (∀ reader ∈ readers, e ≤ reader.epsilon) ∧ ((∀ reader ∈ readers, d ≤ reader.delta) ↔ rare)

/-- A guarantee within every reader's error and failure probability. -/
def Meets (guarantee : Option (AccuracyGuarantee ℝ)) (readers : List Reader) : Prop :=
  ∃ stated e d, guarantee = some stated ∧ stated.Bounds e d ∧
    ∀ reader ∈ readers, e ≤ reader.epsilon ∧ d ≤ reader.delta

theorem Serves.meets_iff {guarantee : Option (AccuracyGuarantee ℝ)} {readers : List Reader} {rare : Prop}
    (serves : Serves guarantee readers rare) : Meets guarantee readers ↔ rare := by
  obtain ⟨stated, e, d, known, bounds, near, seldom⟩ := serves
  rw [← seldom]
  constructor
  · rintro ⟨other, e', d', known', bounds', both⟩ reader inside
    obtain rfl := Option.some.inj (known.symm.trans known')
    obtain rfl := Option.some.inj (bounds.2.symm.trans bounds'.2)
    exact (both reader inside).2
  · exact fun rare => ⟨stated, e, d, known, bounds, fun reader inside =>
      ⟨near reader inside, rare reader inside⟩⟩

section
variable {library : Library} {explain : Explain} {evidence : DistinctEvidence} {readers : List Reader}
  {shared : SketchParams} {query : SketchStatistic} {maxDistinct : Nat}

theorem kll_serves (joined : Joined library .kll readers shared) (some : readers ≠ [])
    (below : BelowCap shared) :
    Serves (sketchGuarantee explain .kll shared query) readers (RareWhen .kll readers shared maxDistinct) := by
  obtain ⟨first, rest, rfl⟩ := List.exists_cons_of_ne_nil some
  obtain ⟨k, failure, rfl, serves⟩ := joined
  have each := serves below
  obtain ⟨scale, known, -⟩ := (each first List.mem_cons_self).rank
  have current := (each first List.mem_cons_self).current_mem
  have one := current.2.trans calibrated_mem.2.le
  obtain ⟨scale', known', above⟩ := deltaScale_pos current.1 (current.2.trans_lt calibrated_mem.2)
  obtain rfl := Option.some.inj (known'.symm.trans known)
  have stated : ∃ contract, sketchGuarantee explain .kll (.kll k failure) query =
      .some (boundedGuarantee explain .kll (.kll k failure) query .rank (kllRankError99 k * scale')
        (.constant (failure.getD kllCalibratedFailureProbability)) contract) :=
    ⟨_, by simp only [sketchGuarantee, kllGuarantee, if_neg (not_lt.mpr (le_of_lt below)), known,
      Option.map_some]; rfl⟩
  obtain ⟨contract, stated⟩ := stated
  refine ⟨_, _, _, stated, boundedGuarantee_bounds (mul_nonneg (kllRankError99_nonneg k) above.le)
    current.1.le one, fun reader inside => ?_,
    iff_of_true (fun reader inside => (each reader inside).rare) trivial⟩
  · obtain ⟨scale, same, within⟩ := (each reader inside).rank
    rwa [← Option.some.inj (known.symm.trans same)] at within

theorem ddSketch_serves (joined : Joined library .ddSketch readers shared) :
    Serves (sketchGuarantee explain .ddSketch shared query) readers
      (RareWhen .ddSketch readers shared maxDistinct) := by
  obtain ⟨alpha, rfl, positive, least⟩ := joined
  refine ⟨_, alpha, 0, rfl, ⟨nonNegative_eq_some.mpr ⟨rfl, positive.le⟩, congrArg some clamp_zero⟩,
    least, iff_of_true (fun reader _ => reader.delta_pos.le) trivial⟩

theorem cms_serves (joined : Joined library .cms readers shared) (below : BelowCap shared) :
    Serves (sketchGuarantee explain .cms shared query) readers
      (RareWhen .cms readers shared maxDistinct) := by
  obtain ⟨width, depth, rfl, bounds⟩ := joined
  obtain ⟨nonneg, one⟩ := cmsFailureProbability_mem depth
  refine ⟨_, cmsError width, cmsFailureProbability depth, rfl,
    boundedGuarantee_bounds (cmsError_nonneg width) nonneg one, fun reader inside => ?_,
    iff_of_true (fun reader inside => ?_) trivial⟩
  · obtain ⟨wider, -⟩ := bounds reader inside
    exact cmsError_le reader.epsilon_pos (wider.trans_lt below.1) wider
  · obtain ⟨-, deeper⟩ := bounds reader inside
    exact cmsFailureProbability_le reader.delta_pos (deeper.trans_lt below.2) deeper

theorem kmv_serves (joined : Joined library .kmv readers shared) :
    Serves (sketchGuarantee explain .kmv shared query) readers
      (RareWhen .kmv readers shared maxDistinct) := by
  obtain ⟨k, error, rfl, bounds, ⟨largest, inside, size⟩, strict, member, rfl⟩ := joined
  refine ⟨_, strict.epsilon, kmvFailureProbability k strict.epsilon, rfl,
    boundedGuarantee_bounds strict.epsilon_pos.le (kmvFailureProbability_nonneg _ _)
      (kmvFailureProbability_le_one _ _), fun reader here => (bounds reader here).2,
    fun rare => ⟨largest, inside, fun strictest here least other there => ?_⟩, ?_⟩
  · have same : strictest.epsilon = strict.epsilon :=
      le_antisymm (least strict member) (bounds strictest here).2
    rw [size, same]
    exact rare other there
  · rintro ⟨reader, here, rare⟩ other there
    exact (kmvFailureProbability_antitone (bounds reader here).1 _).trans
      (rare strict member (fun one place => (bounds one place).2) other there)

theorem countSketch_serves (joined : Joined library .countSketch readers shared)
    (below : BelowCap shared) :
    Serves (sketchGuarantee explain .countSketch shared query) readers
      (RareWhen .countSketch readers shared maxDistinct) := by
  obtain ⟨width, depth, rfl, bounds, ⟨wide, member, rfl⟩, deep, inside, rfl⟩ := joined
  have columns : 0 < countSketchWidth wide.epsilon :=
    two_pos.trans_le (low_le_saturatingCeil (by decide))
  obtain ⟨positive, half⟩ := rowFailureProbability_mem columns below.1.le
  have one : rowFailureProbability (countSketchWidth wide.epsilon) ≤ 1 := by linarith
  obtain ⟨j, deepest⟩ := countSketchDepth_odd (countSketchWidth deep.epsilon) deep.delta
  have known := countSketchFailureProbability_odd columns below.1.le
  have nonneg : ∀ i, 0 ≤ majority (rowFailureProbability (countSketchWidth wide.epsilon)) i *
      roundedUp := fun i => mul_nonneg (upperTail_nonneg positive.le one _ _) roundedUp_pos.le
  have stated : sketchGuarantee explain .countSketch (.countSketch (countSketchWidth wide.epsilon)
      (2 * j + 1)) query = some (boundedGuarantee explain .countSketch
        (.countSketch (countSketchWidth wide.epsilon) (2 * j + 1)) query (.absolute (some .streamL2))
        (√(3 / countSketchWidth wide.epsilon)) (.constant (min (majority (rowFailureProbability
          (countSketchWidth wide.epsilon)) j * roundedUp) 1)) "count_sketch_l2_median_binomial_v1") := by
    simp only [sketchGuarantee, countSketchGuarantee, countSketchBounded, known j, Option.map_some]
  rw [deepest]
  refine ⟨_, _, _, stated, boundedGuarantee_bounds (Real.sqrt_nonneg _)
    (le_min (nonneg j) zero_le_one) (min_le_right _ _), fun reader here => ?_,
    fun rare => ⟨deep, inside, fun widest here most => ?_⟩, ?_⟩
  · obtain ⟨wider, -⟩ := bounds reader here
    exact sqrt_width_le reader.epsilon_pos (wider.trans_lt below.1) wider
  · have same : countSketchWidth widest.epsilon = countSketchWidth wide.epsilon :=
      le_antisymm (bounds widest here).1 (most wide member)
    intro other there
    rw [same, deepest]
    exact ⟨_, rare other there, known j⟩
  · rintro ⟨reader, here, rare⟩ other there
    obtain ⟨i, depth⟩ := countSketchDepth_odd (countSketchWidth reader.epsilon) reader.delta
    obtain ⟨tail, small, fails⟩ := rare wide member (fun one place => (bounds one place).1) other there
    rw [depth, known i, Option.some_inj] at fails
    subst fails
    have shallower : i ≤ j := by
      obtain ⟨-, deeper⟩ := bounds reader here
      omega
    refine (min_le_min_right 1 ?_).trans small
    exact mul_le_mul_of_nonneg_right (majority_antitone positive.le half shallower) roundedUp_pos.le

theorem incompleteTopLayerProbability_mem (heapSize layers maxDistinct : Nat) :
    0 ≤ incompleteTopLayerProbability heapSize layers maxDistinct ∧
      incompleteTopLayerProbability heapSize layers maxDistinct ≤ 1 := by
  unfold incompleteTopLayerProbability
  split
  · exact ⟨le_refl 0, zero_le_one⟩
  split
  · exact ⟨(incompleteTopLayerBound_pos heapSize).le, incompleteTopLayerBound_le_one heapSize⟩
  · exact ⟨zero_le_one, le_refl 1⟩

theorem univMon_serves (joined : Joined library .univMon readers shared) (some : readers ≠ [])
    (below : BelowCap shared) (built : library.hashIndependent 1 1 library.maxLayers = true)
    (source : String) :
    Serves (readerGuarantee library explain evidence .univMon shared query source maxDistinct) readers
      (RareWhen .univMon readers shared maxDistinct) := by
  obtain ⟨first, rest, rfl⟩ := List.exists_cons_of_ne_nil some
  obtain ⟨heapSize, failure, rfl, sizes, serves⟩ := joined
  have each := serves below
  have one := each first List.mem_cons_self
  obtain ⟨left, root, -, -⟩ := one.chebyshev
  have top := incompleteTopLayerBound_pos heapSize
  obtain ⟨missed, certain⟩ := incompleteTopLayerProbability_mem heapSize library.maxLayers maxDistinct
  have stated : ∃ sources, readerGuarantee library explain evidence .univMon
      (.univMon heapSize 1 1 library.maxLayers (.some failure)) query source maxDistinct =
        .some (.new .relative (.constant (distinctRelativeError heapSize failure))
          (.unionBound [.constant (failure - incompleteTopLayerBound heapSize),
            .constant (incompleteTopLayerProbability heapSize library.maxLayers maxDistinct)])
          sources) := by
    have sound : ¬(heapSize < distinctMinHeap ∨
        library.hashIndependent 1 1 library.maxLayers = false ∨ ¬(0 < failure ∧ failure < 1)) := by
      rw [built]
      simp [one.built, one.positive, one.below]
    simp only [readerGuarantee, distinctGuarantee, if_neg sound, if_neg (not_le.mpr left),
      Option.map_some, AccuracyGuarantee.new, AccuracyGuarantee.bind, BoundExpr.bind,
      ProbabilityExpr.bind, ProbabilityExpr.bindAll, distinctBound, if_pos]
    exact ⟨_, rfl⟩
  obtain ⟨sources, stated⟩ := stated
  refine ⟨_, distinctRelativeError heapSize failure, clamp (failure - incompleteTopLayerBound heapSize +
    incompleteTopLayerProbability heapSize library.maxLayers maxDistinct), stated, ⟨?_, ?_⟩,
    fun reader inside => (each reader inside).chebyshev.2.2.1, ?_⟩
  · exact nonNegative_eq_some.mpr ⟨rfl, root.le⟩
  · have share : failure - incompleteTopLayerBound heapSize ≤ 1 := by linarith [one.below]
    simp [ProbabilityExpr.evaluate, ProbabilityExpr.evaluateAll, left.le, share, missed, certain,
      clamp_eq_self]
  · constructor
    · intro rare
      by_contra uncovered
      obtain ⟨many, beyond⟩ := not_or.mp uncovered
      have certainly : incompleteTopLayerProbability heapSize library.maxLayers maxDistinct = 1 := by
        rw [incompleteTopLayerProbability, if_neg many, if_neg beyond]
      have fails := rare first List.mem_cons_self
      rw [certainly] at fails
      have whole : 1 ≤ clamp (failure - incompleteTopLayerBound heapSize + 1) :=
        one_le_clamp.mpr (by linarith)
      linarith [first.delta_lt_one]
    · intro covered reader inside
      have share : incompleteTopLayerProbability heapSize library.maxLayers maxDistinct ≤
          incompleteTopLayerBound heapSize := by
        unfold incompleteTopLayerProbability
        split
        · exact top.le
        · rename_i many
          rw [if_pos (covered.resolve_left many)]
      rw [clamp_eq_self (by linarith) (by linarith [one.below])]
      linarith [(each reader inside).rare]

theorem built_of_joins (joined : Joined library .univMon readers shared) {sizes : List SketchParams}
    (joins : sizeForAllReaders library sizes = some shared) :
    library.hashIndependent 1 1 library.maxLayers = true := by
  obtain ⟨heapSize, failure, rfl, -⟩ := joined
  cases sizes with
  | nil => cases joins
  | cons first rest =>
    obtain ⟨folded, -, built⟩ := Option.bind_eq_some_iff.mp joins
    split at built
    · split at built
      · rename_i independent
        obtain ⟨-, rfl, rfl, rfl, -⟩ := SketchParams.univMon.inj (Option.some.inj built)
        exact independent
      · cases built
    · rename_i other
      exact absurd (Option.some.inj built) (other _ _ _ _ _)

theorem Joined.covers (joined : Joined library .univMon readers shared) {reader : Reader}
    (inside : reader ∈ readers) {params : SketchParams} (sized : reader.Sized library .univMon params)
    (covered : Covers params maxDistinct) : Covers shared maxDistinct := by
  obtain ⟨heapSize, failure, rfl, sizes, -⟩ := joined
  have larger := sizes reader inside
  unfold Reader.Sized sizeParams at sized
  simp only at sized
  split at sized
  · obtain rfl := Option.some.inj sized
    refine covered.imp (le_trans · larger) (And.imp_right fun fits => fits.trans ?_)
    exact Nat.mul_le_mul_right _ larger
  · cases sized

/-- A shared state is within every reader's error, and within every failure probability exactly when
`RareWhen` says so. -/
theorem shared_serves {kind : SketchAlgorithm} (shares : Shares kind) {sizes : List SketchParams}
    (sized : List.Forall₂ (Reader.Sized library kind) readers sizes)
    (joins : sizeForAllReaders library sizes = some shared) (below : BelowCap shared)
    (source : String) :
    Serves (readerGuarantee library explain evidence kind shared query source maxDistinct) readers
      (RareWhen kind readers shared maxDistinct) ∧
    (kind = .univMon → ∀ params ∈ sizes, Covers params maxDistinct → Covers shared maxDistinct) := by
  have joined := joined_of_sizeForAllReaders shares sized joins
  have some : readers ≠ [] := by
    rintro rfl
    cases sized
    cases joins
  constructor
  · cases kind with
    | kll => exact kll_serves joined some below
    | ddSketch => exact ddSketch_serves joined
    | kmv => exact kmv_serves joined
    | cms => exact cms_serves joined below
    | countSketch => exact countSketch_serves joined below
    | univMon => exact univMon_serves joined some below (built_of_joins joined joins) source
    | _ => exact shares.elim
  · rintro rfl params member covered
    obtain ⟨reader, inside, here⟩ := Traversal.mem_of_forall₂ sized.flip params member
    exact joined.covers inside here covered

end

/-! ### Readers a shared state misses -/

def anyShape : Library := ⟨16, 255, fun _ _ _ _ => true⟩

def plainText : Explain := ⟨fun _ => .null, fun _ => ""⟩

noncomputable def rareFrequency : Reader where
  intent := .count .exact
  epsilon := 9 / 10
  delta := 333333334 / 10 ^ 9
  epsilon_pos := by norm_num
  epsilon_lt_one := by norm_num
  delta_pos := by norm_num
  delta_lt_one := by norm_num

noncomputable def closeFrequency : Reader where
  intent := .count .exact
  epsilon := 1 / 2
  delta := 9 / 10
  epsilon_pos := by norm_num
  epsilon_lt_one := by norm_num
  delta_pos := by norm_num
  delta_lt_one := by norm_num

noncomputable def rareCardinality : Reader where
  intent := .cardinality [] .exact
  epsilon := 1 / 2
  delta := 1 / 10
  epsilon_pos := by norm_num
  epsilon_lt_one := by norm_num
  delta_pos := by norm_num
  delta_lt_one := by norm_num

noncomputable def closeCardinality : Reader where
  intent := .cardinality [] .exact
  epsilon := 1 / 3
  delta := 9 / 10
  epsilon_pos := by norm_num
  epsilon_lt_one := by norm_num
  delta_pos := by norm_num
  delta_lt_one := by norm_num

theorem countSketchDepth_one {width : Nat} {delta : ℝ} (some : 0 < width)
    (fits : width ≤ countSketchMaxWidth) (positive : 0 < delta) (below : delta < 1)
    (row : rowFailureProbability width * roundedUp ≤ delta) : countSketchDepth width delta = 1 := by
  have first : (countSketchFailureProbability width 1).any (fun tail => decide (tail ≤ delta)) = true := by
    have known := countSketchFailureProbability_odd some fits 0
    rw [majority_zero] at known
    rw [known, Option.any_some, decide_eq_true_eq]
    exact (min_le_left _ _).trans row
  rw [countSketchDepth, if_neg (not_not.mpr ⟨positive, below⟩), List.range'_succ, List.find?_cons, first]
  rfl

theorem frequency_widths : countSketchWidth rareFrequency.epsilon = 4 ∧
    countSketchWidth closeFrequency.epsilon = 12 := by
  constructor
  · exact saturatingCeil_eq (by decide) (by norm_num [rareFrequency]) (by norm_num [rareFrequency])
      (by decide) (by decide) (by decide)
  · exact saturatingCeil_eq (by decide) (by norm_num [closeFrequency])
      (by norm_num [closeFrequency]) (by decide) (by decide) (by decide)

theorem frequency_depths :
    countSketchDepth (countSketchWidth rareFrequency.epsilon) rareFrequency.delta = 1 ∧
      countSketchDepth (countSketchWidth closeFrequency.epsilon) closeFrequency.delta = 1 := by
  obtain ⟨narrow, wide⟩ := frequency_widths
  rw [narrow, wide]
  constructor
  · refine countSketchDepth_one (by decide) (by decide) rareFrequency.delta_pos
      rareFrequency.delta_lt_one ?_
    rw [rowFailureProbability_eq (by decide)]
    norm_num [rareFrequency, roundedUp]
  · refine countSketchDepth_one (by decide) (by decide) closeFrequency.delta_pos
      closeFrequency.delta_lt_one ?_
    rw [rowFailureProbability_eq (by decide)]
    norm_num [closeFrequency, roundedUp]

theorem frequency_sized :
    List.Forall₂ (Reader.Sized anyShape .countSketch) [rareFrequency, closeFrequency]
      [.countSketch 4 1, .countSketch 12 1] := by
  obtain ⟨rare, close⟩ := frequency_depths
  obtain ⟨narrow, wide⟩ := frequency_widths
  refine .cons ?_ (.cons ?_ .nil)
  · rw [Reader.Sized, sizeParams, rare, narrow]
  · rw [Reader.Sized, sizeParams, close, wide]

theorem frequency_joins :
    sizeForAllReaders anyShape [.countSketch 4 1, .countSketch 12 1] = some (.countSketch 12 1) := rfl

theorem frequency_not_rare :
    ¬RareWhen .countSketch [rareFrequency, closeFrequency] (.countSketch 12 1) 0 := by
  obtain ⟨narrow, wide⟩ := frequency_widths
  obtain ⟨shallow, deep⟩ := frequency_depths
  rintro ⟨reader, inside, rare⟩
  have one : countSketchDepth (countSketchWidth reader.epsilon) reader.delta = 1 := by
    rcases List.mem_pair.mp inside with rfl | rfl
    · exact shallow
    · exact deep
  obtain ⟨tail, small, fails⟩ := rare closeFrequency (by simp) (by simp [narrow, wide])
    rareFrequency (by simp)
  have known := countSketchFailureProbability_odd (by decide : 0 < 12) (by decide) 0
  rw [majority_zero] at known
  rw [wide, one, known, Option.some_inj] at fails
  subst fails
  rw [rowFailureProbability_eq (by decide)] at small
  norm_num [rareFrequency, roundedUp] at small

theorem cardinality_sizes : kmvK rareCardinality.epsilon rareCardinality.delta ≤ 46 ∧
    kmvK closeCardinality.epsilon closeCardinality.delta ≤ 46 := by
  constructor
  · have log : Real.log (2 / (1 / 10)) ≤ 3 := by
      rw [Real.log_le_iff_le_exp (by norm_num)]
      have cube : Real.exp 3 = Real.exp 1 ^ 3 := by rw [← Real.exp_nat_mul]; norm_num
      rw [cube]
      calc (2 / (1 / 10) : ℝ) ≤ 2.7182818283 ^ 3 := by norm_num
        _ ≤ Real.exp 1 ^ 3 := pow_le_pow_left₀ (by norm_num) Real.exp_one_gt_d9.le 3
    refine kmvK_le rareCardinality.epsilon_pos rareCardinality.epsilon_lt_one
      rareCardinality.delta_pos ?_ ?_ ?_ (by decide) (by decide)
    · norm_num [rareCardinality]
    · norm_num [rareCardinality]
    · calc (1 + (1 + rareCardinality.epsilon) * (2 + rareCardinality.epsilon) *
            Real.log (2 / rareCardinality.delta) /
              (rareCardinality.epsilon * rareCardinality.epsilon) : ℝ)
          = 1 + 15 * Real.log (2 / (1 / 10)) := by
            simp only [rareCardinality]
            ring
        _ ≤ (46 : Nat) := by
            push_cast
            linarith
  · have log := Real.log_le_sub_one_of_pos (by norm_num : (0 : ℝ) < 2 / (9 / 10))
    refine kmvK_le closeCardinality.epsilon_pos closeCardinality.epsilon_lt_one
      closeCardinality.delta_pos ?_ ?_ ?_ (by decide) (by decide)
    · norm_num [closeCardinality]
    · norm_num [closeCardinality]
    · calc (1 + (1 + closeCardinality.epsilon) * (2 + closeCardinality.epsilon) *
            Real.log (2 / closeCardinality.delta) /
              (closeCardinality.epsilon * closeCardinality.epsilon) : ℝ)
          = 1 + 28 * Real.log (2 / (9 / 10)) := by
            simp only [closeCardinality]
            ring
        _ ≤ (46 : Nat) := by
            push_cast
            linarith

theorem rareCardinality_missed {k : Nat} (few : k ≤ 46) :
    rareCardinality.delta < kmvFailureProbability k closeCardinality.epsilon := by
  refine lt_of_lt_of_le ?_ (kmvFailureProbability_antitone few _)
  have two : (1 : ℝ) / 10 < Real.exp (-2) := by
    have square : Real.exp 2 = Real.exp 1 ^ 2 := by rw [← Real.exp_nat_mul]; norm_num
    rw [Real.exp_neg, one_div]
    refine inv_strictAnti₀ (Real.exp_pos 2) ?_
    rw [square]
    calc Real.exp 1 ^ 2 ≤ 2.7182818286 ^ 2 :=
          pow_le_pow_left₀ (Real.exp_nonneg 1) Real.exp_one_lt_d9.le 2
      _ < 10 := by norm_num
  have overshoot : Real.exp (-2) ≤
      Real.exp (-(1 / 3) * (1 / 3) * (46 - 1 : Nat) / ((1 + 1 / 3) * (2 + 1 / 3))) :=
    Real.exp_le_exp.mpr (by norm_num)
  have under := Real.exp_nonneg (-(1 / 3) * (1 / 3) * (46 - 1 : Nat) / (2 * (1 - 1 / 3)))
  have regular : ¬(46 < kmvMinK ∨ ¬0 < closeCardinality.epsilon) :=
    not_or.mpr ⟨by decide, not_not.mpr closeCardinality.epsilon_pos⟩
  rw [kmvFailureProbability, if_neg regular]
  simp only [if_pos closeCardinality.epsilon_lt_one]
  simp only [rareCardinality, closeCardinality]
  refine lt_min ?_ (by norm_num)
  refine two.trans_le (overshoot.trans ?_)
  exact (le_add_of_nonneg_right under).trans (le_mul_of_one_le_right (by positivity) one_le_roundedUp)

theorem cardinality_not_rare (shared : SketchParams) :
    ¬RareWhen .kmv [rareCardinality, closeCardinality] shared 0 := by
  rintro ⟨reader, inside, rare⟩
  have few : kmvK reader.epsilon reader.delta ≤ 46 := by
    rcases List.mem_pair.mp inside with rfl | rfl
    · exact cardinality_sizes.1
    · exact cardinality_sizes.2
  have strictest : ∀ other ∈ [rareCardinality, closeCardinality],
      closeCardinality.epsilon ≤ other.epsilon := by
    intro other member
    rcases List.mem_pair.mp member with rfl | rfl
    · norm_num [closeCardinality, rareCardinality]
    · exact le_refl _
  exact (rareCardinality_missed few).not_ge
    (rare closeCardinality (by simp) strictest rareCardinality (by simp))

theorem cardinality_sized : List.Forall₂ (Reader.Sized anyShape .kmv) [rareCardinality, closeCardinality]
    [.kmv (kmvK rareCardinality.epsilon rareCardinality.delta) (some rareCardinality.epsilon),
      .kmv (kmvK closeCardinality.epsilon closeCardinality.delta) (some closeCardinality.epsilon)] :=
  .cons rfl (.cons rfl .nil)

/-- Readers of one family sized alone whose shared state, below the cap, misses a reader's target. -/
def Misses (kind : SketchAlgorithm) (query : SketchStatistic) (readers : List Reader) : Prop :=
  ∃ sizes shared, List.Forall₂ (Reader.Sized anyShape kind) readers sizes ∧
    sizeForAllReaders anyShape sizes = some shared ∧ BelowCap shared ∧
    ¬Meets (sketchGuarantee plainText kind shared query) readers

/-- A shared Count Sketch and a shared KMV miss a reader, and an unbound UnivMon states no failure
probability. -/
theorem shared_misses_reader :
    Misses .countSketch (.topK 1) [rareFrequency, closeFrequency] ∧
    Misses .kmv .cardinality [rareCardinality, closeCardinality] ∧
    ∀ params source stated, distinctGuarantee anyShape (fun _ _ _ _ => .null) params source = some stated →
      stated.spec.failureProbability.evaluate = none := by
  refine ⟨⟨_, _, frequency_sized, frequency_joins, ?_, ?_⟩, ⟨_, _, cardinality_sized, rfl, ?_, ?_⟩,
    fun params source stated => distinctGuarantee_unknown⟩
  · exact ⟨by decide, by decide⟩
  · have joined := joined_of_sizeForAllReaders (show Shares .countSketch from trivial)
      frequency_sized frequency_joins
    rw [(countSketch_serves joined ⟨by decide, by decide⟩).meets_iff]
    exact frequency_not_rare
  · exact (max_le cardinality_sizes.1 cardinality_sizes.2).trans_lt (by decide)
  · have joined := joined_of_sizeForAllReaders (show Shares .kmv from trivial) cardinality_sized rfl
    rw [(kmv_serves joined).meets_iff]
    exact cardinality_not_rare _

/-- The shared Count Sketch of the two readers stays within both errors, and so fails the rarer. -/
theorem frequency_serves :
    Serves (readerGuarantee anyShape plainText (fun _ _ _ _ => .null) .countSketch (.countSketch 12 1)
      (.topK 1) "" 0) [rareFrequency, closeFrequency]
      (RareWhen .countSketch [rareFrequency, closeFrequency] (.countSketch 12 1) 0) ∧
    (SketchAlgorithm.countSketch = .univMon → ∀ params ∈ [.countSketch 4 1, .countSketch 12 1],
      Covers params 0 → Covers (.countSketch 12 1) 0) :=
  shared_serves (show Shares .countSketch from trivial) frequency_sized frequency_joins ⟨by decide, by decide⟩ ""

end AsapPlanner.Estimators
