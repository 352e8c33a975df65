import AsapPlanner.Grouping.Limit
import AsapPlanner.Series.Grid

/-!
A series window emits each series' value at each instant of its grid, over the samples in the left-open range
before it, whatever the order of the rows.
-/

namespace AsapPlanner.Series
open Ir Rust Grouping Interning Arithmetic

/-- The operators that the constructors return. -/
def SeriesWindow.Constructed (window : SeriesWindow) : Prop :=
  ∃ (input : Schema) (function : Option AggIntent) (rangeMs offsetMs : Int64) (atMs : Option Int64)
    (steps : Option SubquerySteps) (built : SeriesWindow),
    SeriesWindow.new input function rangeMs offsetMs atMs steps = .ok built ∧
      (window = built ∨ ∃ anchor stepsAnchor, built.withSeriesRangeBounds anchor stepsAnchor = .ok window)

/-- A batch of samples: a time and a value in each row, and labels that can be grouped by. -/
structure SeriesWindow.Takes (window : SeriesWindow) (batch : Batch) : Prop where
  times : ∃ times : List Int64, batch.columns[window.coordinate]? = some (.timestamp (times.map some))
  values : ∃ values : List F64, batch.columns[window.value]? = some (.float64 (values.map some))
  labels : Accepts window.identity batch

def SeriesWindow.keyed (window : SeriesWindow) (batch : Batch) (samples : List Sample) :
    List (List Key × Sample) :=
  ((batch.rows window.identity).map keysOf).zip samples

/-- No two samples of one series at one time. -/
def DistinctTimes (keyed : List (List Key × Sample)) : Prop :=
  keyed.Pairwise fun a b => a.1 = b.1 → a.2.1 ≠ b.2.1

def seriesSamples (keyed : List (List Key × Sample)) (series : List Key) : List Sample :=
  sorted ((keyed.filter fun row => row.1 = series).map Prod.snd)

/-- What a series gives at an instant: its function over its samples in `(e - offset - range, e - offset]`, where
these bounds are times. -/
def outcome (ops : Arithmetic) (window : SeriesWindow) (times : Times) (keyed : List (List Key × Sample))
    (series : List Key) (t : Int64) : Except Error (Option F64) :=
  let stop := (times.atMs.getD t).toInt - window.offsetMs.toInt
  let start := stop - window.rangeMs.toInt
  if FitsI64 stop ∧ FitsI64 start then
    seriesValue ops window.function
      ((seriesSamples keyed series).filter fun p => start < p.1.toInt ∧ p.1.toInt ≤ stop)
      (.ofInt start) (.ofInt stop) (times.invariantTime.getD t)
  else .error (.invalid "series window overflows")

def ResultRow.view (row : ResultRow) : List Key × Int64 × F64 := (keysOf row.labels, row.time, row.value)

def SeriesWindow.view (window : SeriesWindow) (batch : Batch) (row : OutRow) : List Key × Int64 × F64 :=
  (keysOf (batch.row window.identity row.row), row.time, row.value)

variable {window : SeriesWindow} {batch : Batch} {samples : List Sample}

/-! ### Construction -/

def SeriesWindow.Positive (window : SeriesWindow) : Prop :=
  0 < window.rangeMs.toInt ∧ ∀ steps ∈ window.steps, steps.positive = true

theorem SeriesWindow.new_positive {input : Schema} {function : Option AggIntent} {rangeMs offsetMs : Int64}
    {atMs : Option Int64} {steps : Option SubquerySteps} {built : SeriesWindow}
    (made : SeriesWindow.new input function rangeMs offsetMs atMs steps = .ok built) : built.Positive := by
  unfold SeriesWindow.new at made
  split at made
  · split at made
    · obtain ⟨_, _, made⟩ := bind_eq_ok made
      split at made
      · obtain ⟨_, _, made⟩ := bind_eq_ok made
        split at made
        · dsimp only at made
          split at made
          · cases made
          · next sound =>
            split at made
            · cases made
            · split at made
              · cases made
              · cases made
                rw [not_or, Int64.not_le, Int64.lt_iff_toInt_lt] at sound
                refine ⟨sound.1, fun steps' here => ?_⟩
                cases here
                simpa using sound.2
        · cases made
      · cases made
    · cases made
  · cases made

theorem SeriesWindow.Constructed.positive (constructed : window.Constructed) : window.Positive := by
  obtain ⟨input, function, rangeMs, offsetMs, atMs, steps, built, made, rfl | ⟨_, _, bounded⟩⟩ := constructed
  · exact new_positive made
  · unfold withSeriesRangeBounds at bounded
    split at bounded
    · cases bounded
    · have positive := new_positive made
      cases bounded
      exact positive

/-! ### Series -/

theorem SeriesWindow.Takes.samples_ok (takes : window.Takes batch) :
    ∃ samples, window.samples batch = .ok samples ∧ samples.length = batch.numRows := by
  obtain ⟨times, timesHere⟩ := takes.times
  obtain ⟨values, valuesHere⟩ := takes.values
  have timesLength := batch.lengths _ (List.mem_of_getElem? timesHere)
  have valuesLength := batch.lengths _ (List.mem_of_getElem? valuesHere)
  simp only [Column.decode, List.length_map] at timesLength valuesLength
  refine ⟨times.zip values, ?_, ?_⟩
  · simp [SeriesWindow.samples, timesHere, valuesHere, Function.comp_def]
  · rw [List.length_zip, timesLength, valuesLength, Nat.min_self]

structure Found (window : SeriesWindow) (batch : Batch) (samples : List Sample) (points : Points)
    (order : List Nat) (series : List (List Key)) (number : List Key → Nat) : Prop where
  increasing : series.Pairwise (· < ·)
  keys : ∀ s, s ∈ series ↔ s ∈ (window.keyed batch samples).map Prod.fst
  order : order = series.map number
  samples : ∀ s ∈ series, points.samples.getD (number s) [] = seriesSamples (window.keyed batch samples) s
  template : ∀ s ∈ series, points.template.getD (number s) 0 < batch.numRows ∧
    keysOf (batch.row window.identity (points.template.getD (number s) 0)) = s

theorem chunkedGroupIds_keys {columns : List Nat} (accepts : Accepts columns batch) (few : batch.numRows ≤ 2 ^ 32) :
    ∃ table, chunkedGroupIds batch (.new columns) =
        .ok ((batch.rows columns).map (groupNumber (batch.rows columns)), table) ∧
      Holds columns (ownOf batch.dtypes columns) (batch.rows columns) (batch.rows columns) table := by
  have room : ([] : List (List Value)).length + (batch.rowChunks.flatMap (·.rows columns)).length ≤ u32Max + 1 := by
    rw [rows_chunks, length_rows, u32Max]
    simpa using few
  obtain ⟨ids, table, grouped⟩ := groupAll_fine (fun _ => dtypes_chunks) (holds_new _ _)
    (fun _ => Limit.accepts_chunks accepts) room
  have chunked : chunkedGroupIds batch (.new columns) = .ok (ids.flatten, table) :=
    chunkedGroupIds_of_grouped (by rw [isizeMax]; omega) grouped
  obtain ⟨holds, numbered⟩ := Limit.chunkedGroupIds_ok rfl (holds_new _ _) chunked
  rw [List.nil_append] at holds numbered
  exact ⟨table, numbered ▸ chunked, holds⟩

theorem SeriesWindow.Takes.found (takes : window.Takes batch) (read : window.samples batch = .ok samples)
    (length : samples.length = batch.numRows) (few : batch.numRows ≤ 2 ^ 32)
    (distinct : DistinctTimes (window.keyed batch samples)) :
    ∃ points order series number, window.series batch = .ok (points, order) ∧
      Found window batch samples points order series number := by
  obtain ⟨table, grouped, holds⟩ := chunkedGroupIds_keys takes.labels few
  obtain ⟨series, increasing, keys, order⟩ := groupsInKeyOrder_eq holds
  have same : ((batch.rows window.identity).map (groupNumber (batch.rows window.identity))).zip samples =
      (window.keyed batch samples).map fun row => (number keysOf (batch.rows window.identity) row.1, row.2) := by
    unfold SeriesWindow.keyed
    rw [List.zip_map_left, List.zip_map_left, List.map_map]
    rfl
  have firsts : (window.keyed batch samples).map Prod.fst = (batch.rows window.identity).map keysOf := by
    unfold SeriesWindow.keyed
    rw [List.map_fst_zip (by rw [List.length_map, length_rows, length])]
  have groups : table.partsOfGroup.length = (Interning.firsts keysOf (batch.rows window.identity)).length := by
    rw [holds.partsOfGroup, List.length_map]
  have inside : ∀ row ∈ (window.keyed batch samples).map fun row =>
      (number keysOf (batch.rows window.identity) row.1, row.2), row.1 < table.partsOfGroup.length := by
    intro row member
    obtain ⟨keyed, here, rfl⟩ := List.mem_map.mp member
    rw [groups]
    exact number_lt (firsts ▸ List.mem_map_of_mem here)
  have ofSeries : ∀ s ∈ series, ∀ row ∈ window.keyed batch samples,
      (number keysOf (batch.rows window.identity) row.1 = number keysOf (batch.rows window.identity) s ↔
        row.1 = s) := fun s known row here =>
    number_inj (firsts ▸ List.mem_map_of_mem here) ((keys s).mp known)
  have grouping : ∀ s ∈ series, ((window.keyed batch samples).map fun row =>
      (number keysOf (batch.rows window.identity) row.1, row.2)).filter
        (fun row => row.1 = number keysOf (batch.rows window.identity) s) =
      ((window.keyed batch samples).filter fun row => row.1 = s).map fun row =>
        (number keysOf (batch.rows window.identity) row.1, row.2) := by
    intro s known
    rw [List.filter_map]
    refine congrArg _ (List.filter_congr fun row here => ?_)
    rw [Function.comp_apply, decide_eq_decide]
    exact ofSeries s known row here
  let points := Points.after table.partsOfGroup.length
    ((window.keyed batch samples).map fun row => (number keysOf (batch.rows window.identity) row.1, row.2))
  have sortedPoints : points.samples.mapM sortSamples = .ok (points.samples.map sorted) := by
    refine mapM_pure fun group member => ?_
    obtain ⟨g, _, rfl⟩ := List.mem_map.mp member
    refine sortSamples_ok ?_
    rw [List.Nodup, List.pairwise_map, List.pairwise_map, List.pairwise_filter, List.pairwise_map]
    refine distinct.imp_of_mem fun {a b} first second apart ofA ofB => apart ?_
    have numbers := (of_decide_eq_true ofA).trans (of_decide_eq_true ofB).symm
    exact (number_inj (firsts ▸ List.mem_map_of_mem first) (firsts ▸ List.mem_map_of_mem second)).mp numbers
  refine ⟨{ points with samples := points.samples.map sorted }, table.groupsInKeyOrder, series,
    number keysOf (batch.rows window.identity), ?_, increasing, fun s => firsts ▸ keys s, order, ?_, ?_⟩
  · have made : pointsOf table.partsOfGroup.length (((batch.rows window.identity).map
        (groupNumber (batch.rows window.identity))).zip samples) = points := by
      rw [same, pointsOf_eq inside]
    unfold SeriesWindow.series
    simp only [read, bind, Except.bind, grouped, made, sortedPoints]
    rfl
  · intro s known
    have group := number_lt ((keys s).mp known)
    rw [← groups] at group
    simp only [points, Points.after, List.getD_eq_getElem?_getD, List.getElem?_map, List.getElem?_range group,
      Option.map_some, Option.getD_some]
    rw [grouping s known, List.map_map]
    rfl
  · intro s known
    have seen := (keys s).mp known
    have group := number_lt seen
    rw [← groups] at group
    simp only [points, Points.after, List.getD_eq_getElem?_getD, List.getElem?_map, List.getElem?_range group,
      Option.map_some, Option.getD_some]
    cases first : ((window.keyed batch samples).map fun row =>
        (number keysOf (batch.rows window.identity) row.1, row.2)).findIdx?
          fun row => row.1 = number keysOf (batch.rows window.identity) s with
    | none =>
      rw [List.findIdx?_eq_none_iff] at first
      obtain ⟨row, here, rfl⟩ := List.mem_map.mp (firsts ▸ seen)
      simpa using first _ (List.mem_map_of_mem here)
    | some place =>
      obtain ⟨within, holds, _⟩ := List.findIdx?_eq_some_iff_getElem.mp first
      rw [List.length_map] at within
      rw [List.getElem_map, decide_eq_true_eq, ofSeries s known _ (List.getElem_mem within)] at holds
      have bound : place < batch.numRows := by
        unfold SeriesWindow.keyed at within
        rw [List.length_zip, List.length_map, length_rows] at within
        omega
      rw [Option.elim_some, Nat.mod_eq_of_lt (Nat.lt_of_lt_of_le bound few)]
      refine ⟨bound, holds ▸ ?_⟩
      simp [SeriesWindow.keyed, Batch.rows]

/-! ### One instant -/

variable {ops : Arithmetic} {times : Times} {points : Points} {order : List Nat} {series : List (List Key)}
  {number : List Key → Nat}

theorem seriesSamples_increasing {keyed : List (List Key × Sample)} (distinct : DistinctTimes keyed)
    (s : List Key) : (seriesSamples keyed s).Pairwise (·.1 < ·.1) := by
  refine sorted_pairwise ?_
  rw [List.Nodup, List.pairwise_map, List.pairwise_map, List.pairwise_filter]
  exact distinct.imp fun apart ofA ofB => apart ((of_decide_eq_true ofA).trans (of_decide_eq_true ofB).symm)

def rowsOf (points : Points) (number : List Key → Nat) (s : List Key) (t : Int64) (value : Option F64) :
    List OutRow :=
  value.toList.map fun v => ⟨points.template.getD (number s) 0, t, v⟩

theorem Found.evaluateSeries_eq (found : Found window batch samples points order series number)
    (positive : window.Positive) (distinct : DistinctTimes (window.keyed batch samples)) {s : List Key}
    (known : s ∈ series) {t start stop : Int64}
    (stopped : stop.toInt = (times.atMs.getD t).toInt - window.offsetMs.toInt)
    (started : start.toInt = stop.toInt - window.rangeMs.toInt) :
    evaluateSeries ops window times points t start stop (number s) =
      (outcome ops window times (window.keyed batch samples) s t).map (rowsOf points number s t) := by
  have ordered : start ≤ stop := by
    rw [Int64.le_iff_toInt_le]
    have := positive.1
    omega
  have within : inWindow (points.samples.getD (number s) []) start stop =
      (seriesSamples (window.keyed batch samples) s).filter fun p =>
        start.toInt < p.1.toInt ∧ p.1.toInt ≤ stop.toInt := by
    rw [found.samples s known, inWindow_eq (seriesSamples_increasing distinct s) ordered]
    refine List.filter_congr fun p _ => ?_
    rw [decide_eq_decide, Int64.lt_iff_toInt_lt, Int64.le_iff_toInt_le]
  unfold outcome
  dsimp only
  rw [← stopped, ← started, if_pos ⟨fits_toInt stop, fits_toInt start⟩, Int64.ofInt_toInt, Int64.ofInt_toInt]
  unfold evaluateSeries
  dsimp only
  rw [within]
  cases seriesValue ops window.function _ start stop (times.invariantTime.getD t) with
  | error e => rfl
  | ok value => cases value <;> rfl

theorem Found.evaluateAt_eq (found : Found window batch samples points order series number)
    (positive : window.Positive) (distinct : DistinctTimes (window.keyed batch samples)) (some : series ≠ [])
    (t : Int64) : evaluateAt ops window times points order t =
      (series.mapM fun s => (outcome ops window times (window.keyed batch samples) s t).map
        (rowsOf points number s t)).map List.flatten := by
  unfold evaluateAt
  dsimp only
  have failing : ∀ {e}, (∀ s, outcome ops window times (window.keyed batch samples) s t = .error e) →
      (series.mapM fun s => (outcome ops window times (window.keyed batch samples) s t).map
        (rowsOf points number s t)).map List.flatten = .error e := by
    intro e fails
    obtain ⟨first, rest, rfl⟩ := List.exists_cons_of_ne_nil some
    rw [mapM_flatten_cons, fails]
    rfl
  by_cases stopFits : FitsI64 ((times.atMs.getD t).toInt - window.offsetMs.toInt)
  · obtain ⟨stop, stopped⟩ : ∃ stop : Int64, stop.toInt = (times.atMs.getD t).toInt - window.offsetMs.toInt :=
      ⟨_, toInt_ofInt stopFits⟩
    by_cases startFits : FitsI64 (stop.toInt - window.rangeMs.toInt)
    · obtain ⟨start, started⟩ : ∃ start : Int64, start.toInt = stop.toInt - window.rangeMs.toInt :=
        ⟨_, toInt_ofInt startFits⟩
      simp only [bind, Except.bind, checkedOr_ok.mpr stopped, checkedOr_ok.mpr started, found.order, List.mapM_map]
      exact congrArg _ (mapM_congr fun s known =>
        found.evaluateSeries_eq positive distinct known stopped started)
    · simp only [bind, Except.bind, checkedOr_ok.mpr stopped, checkedOr_error startFits]
      exact (failing fun s => if_neg fun both => startFits (stopped ▸ both.2)).symm
  · simp only [bind, Except.bind, checkedOr_error stopFits]
    exact (failing fun s => if_neg fun both => stopFits both.1).symm

/-- What the operator gives, by label keys. -/
def expected (ops : Arithmetic) (window : SeriesWindow) (times : Times) (keyed : List (List Key × Sample))
    (series : List (List Key)) : Except Error (List (List Key × Int64 × F64)) :=
  ((instants times).mapM fun t => (series.mapM fun s =>
    (outcome ops window times keyed s t).map fun value => value.toList.map (s, t, ·)).map List.flatten).map
      List.flatten

theorem Found.view_eq (found : Found window batch samples points order series number)
    (positive : window.Positive) (distinct : DistinctTimes (window.keyed batch samples))
    (stepped : 0 < times.step.toInt) {rounds : Nat} (enough : instantCount times < rounds) :
    (evaluateFrom ops window times points order rounds times.first).map
      (Except.map (List.map (window.view batch))) =
      some (expected ops window times (window.keyed batch samples) series) := by
  rw [evaluate_instants stepped enough, Option.map_some]
  by_cases none : series = []
  · have noOrder : order = [] := by rw [found.order, none, List.map_nil]
    rw [if_pos noOrder, none]
    have each : (instants times).mapM (fun t => (([] : List (List Key)).mapM fun s =>
        (outcome ops window times (window.keyed batch samples) s t).map fun value =>
          value.toList.map (s, t, ·)).map List.flatten) = .ok ((instants times).map fun _ => []) :=
      mapM_pure fun _ _ => rfl
    rw [expected, each]
    show some (Except.ok []) = some (Except.ok ((instants times).map fun _ => []).flatten)
    rw [List.flatten_eq_nil_iff.mpr fun rows member => (List.mem_map.mp member).choose_spec.2.symm]
  · have someOrder : order ≠ [] := by
      rw [found.order]
      exact fun empty => none (List.map_eq_nil_iff.mp empty)
    rw [if_neg someOrder, map_mapM_flatten]
    refine congrArg some (congrArg _ (mapM_congr fun t _ => ?_))
    rw [found.evaluateAt_eq positive distinct none, map_mapM_flatten]
    refine congrArg _ (mapM_congr fun s known => ?_)
    cases outcome ops window times (window.keyed batch samples) s t with
    | error e => rfl
    | ok value =>
      cases value with
      | none => rfl
      | some v =>
        show Except.ok [(keysOf (batch.row window.identity (points.template.getD (number s) 0)), t, v)] =
          Except.ok [(s, t, v)]
        rw [(found.template s known).2]

/-! ### The order of the rows -/

theorem seriesSamples_perm {keyed keyed' : List (List Key × Sample)} (same : keyed'.Perm keyed)
    (distinct : DistinctTimes keyed) (distinct' : DistinctTimes keyed') (s : List Key) :
    seriesSamples keyed' s = seriesSamples keyed s := by
  have perm : (seriesSamples keyed' s).Perm (seriesSamples keyed s) :=
    (sorted_perm _).trans (((same.filter _).map _).trans (sorted_perm _).symm)
  refine perm.eq_of_pairwise (fun a b _ _ before after => ?_) (seriesSamples_increasing distinct' s)
    (seriesSamples_increasing distinct s)
  exact absurd (Int64.lt_trans before after) Int64.lt_irrefl

theorem outcome_perm {keyed keyed' : List (List Key × Sample)} (same : keyed'.Perm keyed)
    (distinct : DistinctTimes keyed) (distinct' : DistinctTimes keyed') :
    outcome ops window times keyed' = outcome ops window times keyed := by
  funext s t
  unfold outcome
  rw [seriesSamples_perm same distinct distinct']

theorem series_unique {others : List (List Key)} (increasing : series.Pairwise (· < ·))
    (increasing' : others.Pairwise (· < ·)) (same : ∀ s, s ∈ others ↔ s ∈ series) : others = series := by
  have nodup : ∀ {keys : List (List Key)}, keys.Pairwise (· < ·) → keys.Nodup := fun sorted =>
    List.Pairwise.imp (fun {a b} (before : a < b) (same : a = b) => Std.lt_irrefl (same ▸ before)) sorted
  refine ((List.perm_ext_iff_of_nodup (nodup increasing') (nodup increasing)).mpr same).eq_of_pairwise
    (fun a b _ _ before after => ?_) increasing' increasing
  exact absurd (Std.lt_trans before after) Std.lt_irrefl

/-! ### The whole operator -/

/-- What the operator emits, by the label keys of its rows. -/
structure Emits (ops : Arithmetic) (window : SeriesWindow) (times : Times) (onGrid : Int64 → Prop)
    (keyed : List (List Key × Sample)) (rows : List (List Key × Int64 × F64)) : Prop where
  /-- By time, and the series of an instant by key. -/
  increasing : rows.Pairwise fun a b => a.2.1 < b.2.1 ∨ a.2.1 = b.2.1 ∧ a.1 < b.1
  sound : ∀ s ∈ keyed.map Prod.fst, ∀ t, onGrid t → ∃ value, outcome ops window times keyed s t = .ok value
  rows : ∀ s t v, (s, t, v) ∈ rows ↔
    s ∈ keyed.map Prod.fst ∧ onGrid t ∧ outcome ops window times keyed s t = .ok (some v)

def valueOf : Except Error (Option F64) → Option F64
  | .ok value => value
  | .error _ => none

theorem expected_cases (ops : Arithmetic) (window : SeriesWindow) {keyed : List (List Key × Sample)} {onGrid : Int64 → Prop}
    (increasing : series.Pairwise (· < ·)) (keys : ∀ s, s ∈ series ↔ s ∈ keyed.map Prod.fst)
    (stepped : 0 < times.step.toInt) (grid : ∀ t, onGrid t ↔ Steps times.first times.last times.step t) :
    (∃ rows, expected ops window times keyed series = .ok rows ∧ Emits ops window times onGrid keyed rows) ∨
      ∃ s ∈ keyed.map Prod.fst, ∃ t, onGrid t ∧ ∃ e, outcome ops window times keyed s t = .error e ∧
        expected ops window times keyed series = .error e := by
  let values (s : List Key) (t : Int64) : List (List Key × Int64 × F64) :=
    (valueOf (outcome ops window times keyed s t)).toList.map (s, t, ·)
  have one : ∀ s t, (outcome ops window times keyed s t).map (fun value => value.toList.map (s, t, ·)) =
      .ok (values s t) ∨ ∃ e, (outcome ops window times keyed s t).map
        (fun value => value.toList.map (s, t, ·)) = .error e := by
    intro s t
    unfold values
    cases outcome ops window times keyed s t with
    | error e => exact .inr ⟨e, rfl⟩
    | ok value => exact .inl rfl
  have failed : ∀ {s t e}, (outcome ops window times keyed s t).map
      (fun value => value.toList.map (s, t, ·)) = .error e → outcome ops window times keyed s t = .error e := by
    intro s t e
    cases outcome ops window times keyed s t with
    | error e' => exact fun same => by cases same; rfl
    | ok value => nofun
  have atInstant := fun t => @mapM_flatten_cases Error (List Key) (List Key × Int64 × F64) _ (values · t) series
    fun s _ => one s t
  have each : ∀ t ∈ instants times, (series.mapM fun s => (outcome ops window times keyed s t).map
      fun value => value.toList.map (s, t, ·)).map List.flatten = .ok (series.flatMap (values · t)) ∨
      ∃ e, (series.mapM fun s => (outcome ops window times keyed s t).map
        fun value => value.toList.map (s, t, ·)).map List.flatten = .error e := fun t _ =>
    (atInstant t).imp And.right fun ⟨_, _, e, _, run⟩ => ⟨e, run⟩
  have onInstant : ∀ t, t ∈ instants times ↔ onGrid t := fun t => (mem_instants stepped).trans (grid t).symm
  rcases mapM_flatten_cases each with ⟨all, run⟩ | ⟨t, inside, e, failing, run⟩
  · have sound : ∀ s ∈ series, ∀ t ∈ instants times, ∃ value, outcome ops window times keyed s t = .ok value := by
      intro s known t inside
      cases found : outcome ops window times keyed s t with
      | ok value => exact ⟨value, rfl⟩
      | error e =>
        rcases atInstant t with ⟨fine, _⟩ | ⟨_, _, e', _, ran⟩
        · have wrong := fine s known
          rw [found] at wrong
          cases wrong
        · rw [all t inside] at ran
          cases ran
    have mem : ∀ {s t row}, row ∈ values s t ↔
        ∃ v, row = (s, t, v) ∧ valueOf (outcome ops window times keyed s t) = some v := by
      intro s t row
      simp only [values, List.mem_map, Option.mem_toList]
      constructor
      · rintro ⟨v, here, rfl⟩
        exact ⟨v, rfl, here⟩
      · rintro ⟨v, rfl, here⟩
        exact ⟨v, here, rfl⟩
    refine .inl ⟨_, run, ?_, ?_, ?_⟩
    · refine List.pairwise_flatMap.mpr ⟨fun t _ => List.pairwise_flatMap.mpr ⟨fun s _ => ?_, ?_⟩, ?_⟩
      · simp only [values]
        cases valueOf (outcome ops window times keyed s t) <;> simp
      · refine increasing.imp fun before a first b second => ?_
        obtain ⟨_, rfl, _⟩ := mem.mp first
        obtain ⟨_, rfl, _⟩ := mem.mp second
        exact .inr ⟨rfl, before⟩
      · refine (instants_increasing stepped).imp fun before a first b second => ?_
        obtain ⟨_, _, first⟩ := List.mem_flatMap.mp first
        obtain ⟨_, _, second⟩ := List.mem_flatMap.mp second
        obtain ⟨_, rfl, _⟩ := mem.mp first
        obtain ⟨_, rfl, _⟩ := mem.mp second
        exact .inl before
    · exact fun s seen t here => sound s ((keys s).mpr seen) t ((onInstant t).mpr here)
    · intro s t v
      simp only [List.mem_flatMap, mem]
      constructor
      · rintro ⟨t', inside, s', known, v', same, here⟩
        cases same
        obtain ⟨value, found⟩ := sound s known t inside
        rw [found] at here
        exact ⟨(keys s).mp known, (onInstant t).mp inside, found.trans (congrArg _ here)⟩
      · rintro ⟨seen, here, found⟩
        exact ⟨t, (onInstant t).mpr here, s, (keys s).mpr seen, v, rfl, by rw [found]; rfl⟩
  · rcases atInstant t with ⟨_, fine⟩ | ⟨s, known, e', wrong, ran⟩
    · rw [failing] at fine
      cases fine
    · rw [failing] at ran
      cases ran
      exact .inr ⟨s, (keys s).mp known, t, (onInstant t).mp inside, e, failed wrong, run⟩

theorem SeriesWindow.times_ok {context : RunContext} {queryTime : Int64} {steps : Option SubquerySteps}
    (evaluated : evaluationTime context = .ok queryTime) (resolved : window.resolvedSteps context = .ok steps)
    (accepted : window.times context = .ok times) :
    anchor context window.atMs window.rangeAt = .ok times.atMs ∧
      evaluationTimes queryTime steps = .ok (times.first, times.last, times.step) := by
  obtain ⟨steps', resolved', accepted⟩ := bind_eq_ok accepted
  cases resolved.symm.trans resolved'
  obtain ⟨atMs, anchored, accepted⟩ := bind_eq_ok accepted
  obtain ⟨queryTime', evaluated', accepted⟩ := bind_eq_ok accepted
  cases evaluated.symm.trans evaluated'
  obtain ⟨⟨first, last, step⟩, grid, accepted⟩ := bind_eq_ok accepted
  obtain ⟨invariantTime, _, accepted⟩ := bind_eq_ok accepted
  cases accepted
  exact ⟨anchored, grid⟩

theorem SeriesWindow.resolved_positive {context : RunContext} {steps : Option SubquerySteps}
    (positive : window.Positive) (resolved : window.resolvedSteps context = .ok steps) :
    ∀ steps' ∈ steps, steps'.positive = true := by
  unfold resolvedSteps at resolved
  split at resolved
  · cases resolved
    exact nofun
  · next steps' here =>
    obtain ⟨atMs, _, resolved⟩ := bind_eq_ok resolved
    cases resolved
    rintro _ ⟨⟩
    exact positive.2 steps' here

theorem Found.takeRows_view (found : Found window batch samples points order series number) {rounds : Nat}
    {time : Int64} {result : Except Error (List OutRow)}
    (run : evaluateFrom ops window times points order rounds time = some result) :
    (result >>= window.takeRows batch).map (List.map ResultRow.view) =
      result.map (List.map (window.view batch)) := by
  cases result with
  | error e => rfl
  | ok rows =>
    have taken : window.takeRows batch rows = .ok (rows.map fun row =>
        ⟨batch.row window.identity row.row, row.time, row.value⟩) := by
      refine mapM_pure fun row member => if_pos ?_
      obtain ⟨group, listed, same⟩ := evaluateFrom_rows run row member
      rw [found.order] at listed
      obtain ⟨s, known, rfl⟩ := List.mem_map.mp listed
      exact same ▸ (found.template s known).1
    change (window.takeRows batch rows).map (List.map ResultRow.view) = _
    rw [taken]
    exact congrArg Except.ok (List.map_map ..)

theorem SeriesWindow.execute_view (ops : Arithmetic) {context : RunContext} (positive : window.Positive)
    (accepted : window.times context = .ok times) (stepped : 0 < times.step.toInt) (takes : window.Takes batch)
    (read : window.samples batch = .ok samples) (few : batch.numRows ≤ 2 ^ 32)
    (distinct : DistinctTimes (window.keyed batch samples)) :
    ∃ series : List (List Key), series.Pairwise (· < ·) ∧
      (∀ s, s ∈ series ↔ s ∈ (window.keyed batch samples).map Prod.fst) ∧
      (∀ rounds > instantCount times, ∃ result, window.execute ops context batch rounds = some result) ∧
      (∀ rounds more result, rounds ≤ more → window.execute ops context batch rounds = some result →
        window.execute ops context batch more = some result) ∧
      ∀ rounds result, window.execute ops context batch rounds = some result →
        result.map (List.map ResultRow.view) =
          expected ops window times (window.keyed batch samples) series := by
  obtain ⟨samples', read', length⟩ := takes.samples_ok
  cases read.symm.trans read'
  obtain ⟨points, order, series, number, made, found⟩ := takes.found read length few distinct
  have run : ∀ rounds, window.execute ops context batch rounds =
      (evaluateFrom ops window times points order rounds times.first).map (· >>= window.takeRows batch) := by
    intro rounds
    rw [execute, accepted, made]
  have whole := fun rounds enough => @Found.view_eq window batch samples ops times points order series number
    found positive distinct stepped rounds enough
  refine ⟨series, found.increasing, found.keys, fun rounds enough => ?_, fun rounds more result fewer ended => ?_,
    fun rounds result ended => ?_⟩
  · obtain ⟨result, ended, _⟩ := Option.map_eq_some_iff.mp (whole rounds enough)
    rw [run, ended]
    exact ⟨_, rfl⟩
  · rw [run] at ended ⊢
    obtain ⟨evaluated, looped, rfl⟩ := Option.map_eq_some_iff.mp ended
    rw [evaluateFrom_mono fewer looped]
    rfl
  · rw [run] at ended
    obtain ⟨evaluated, looped, rfl⟩ := Option.map_eq_some_iff.mp ended
    rw [found.takeRows_view looped]
    have later := evaluateFrom_mono (Nat.le_max_left rounds (instantCount times + 1)) looped
    have same := whole _ (Nat.lt_of_lt_of_le (Nat.lt_succ_self _) (Nat.le_max_right rounds _))
    rw [later] at same
    exact Option.some.inj same

theorem sub_toInt {start stop : Int} {p q : Sample} {range : Int64} (wide : stop - start = range.toInt)
    (pIn : start < p.1.toInt ∧ p.1.toInt ≤ stop) (qIn : start < q.1.toInt ∧ q.1.toInt ≤ stop) :
    (p.1 - q.1).toInt = p.1.toInt - q.1.toInt := by
  have fits := fits_toInt range
  unfold FitsI64 i64Min i64Max at fits
  rw [Int64.toInt_sub]
  exact Int.bmod_eq_of_le_mul_two (by omega) (by omega)

/-- For the functions that compute no new value. -/
def unused : Arithmetic := ⟨fun x _ => x, fun x _ => x, fun x _ => x, fun x _ => x, fun _ => zero, fun _ => 0⟩

def labelledSchema : Schema where
  fields := [⟨"job", .plain .utf8, false, none⟩, ⟨"time", .plain .timestamp, false, none⟩,
    ⟨"value", .plain .float64, false, none⟩]
  timeIndex := some 1
  uniqueKeys := []
  closed := true

/-- The last sample over 3 ms, at each multiple of 2 in the last 4 ms. -/
def labelled : SeriesWindow :=
  ⟨some .lastOverTime, 1, 2, 3, 0, none, some ⟨4, 2, 0, none⟩, none, none, labelledSchema⟩

def labelledBatch : Batch where
  numRows := 3
  columns := [.dictionary ⟨["a", "b"], [some ⟨1, by decide⟩, some ⟨0, by decide⟩, some ⟨0, by decide⟩]⟩, .timestamp [some 5, some 7, some (-2)],
    .float64 [some one, some two, some staleMarker]]
  lengths := by decide

def unlabelledSchema : Schema where
  fields := [⟨"time", .plain .timestamp, false, none⟩, ⟨"value", .plain .float64, false, none⟩]
  timeIndex := some 0
  uniqueKeys := []
  closed := true

def unlabelled (function : Option AggIntent) (rangeMs offsetMs : Int64) : SeriesWindow :=
  ⟨function, 0, 1, rangeMs, offsetMs, none, none, none, none, unlabelledSchema⟩

def unlabelledBatch (samples : List Sample) : Batch where
  numRows := samples.length
  columns := [.timestamp (samples.map fun p => some p.1), .float64 (samples.map fun p => some p.2)]
  lengths := by simp [Column.decode]

theorem unlabelled_takes {function : Option AggIntent} {rangeMs offsetMs : Int64} (samples : List Sample) :
    (unlabelled function rangeMs offsetMs).Takes (unlabelledBatch samples) where
  times := ⟨samples.map Prod.fst, by simp [unlabelled, unlabelledBatch]⟩
  values := ⟨samples.map Prod.snd, by simp [unlabelled, unlabelledBatch]⟩
  labels := nofun

theorem unlabelled_samples {function : Option AggIntent} {rangeMs offsetMs : Int64} (samples : List Sample) :
    (unlabelled function rangeMs offsetMs).samples (unlabelledBatch samples) = .ok samples := by
  simp [SeriesWindow.samples, unlabelled, unlabelledBatch, Function.comp_def, List.zip_map']

theorem unlabelled_keyed {function : Option AggIntent} {rangeMs offsetMs : Int64} (samples : List Sample) :
    (unlabelled function rangeMs offsetMs).keyed (unlabelledBatch samples) samples = samples.map ([], ·) := by
  have none : (unlabelled function rangeMs offsetMs).identity = [] := rfl
  rw [SeriesWindow.keyed, none]
  refine List.ext_getElem (by simp [length_rows, unlabelledBatch]) fun index _ _ => ?_
  simp [Batch.rows, Batch.row, keysOf]

theorem execute_unlabelled (ops : Arithmetic) {function : Option AggIntent} {rangeMs offsetMs t : Int64}
    {samples : List Sample} (positive : 0 < rangeMs.toInt) (increasing : samples.Pairwise (·.1 < ·.1))
    (some : samples ≠ []) (few : samples.length ≤ 2 ^ 32) :
    ∃ result, (unlabelled function rangeMs offsetMs).execute ops ⟨Option.some t, none⟩ (unlabelledBatch samples) 2 =
        Option.some result ∧
      result.map (List.map ResultRow.view) =
        (outcome ops (unlabelled function rangeMs offsetMs) ⟨t, t, 1, none, none⟩ (samples.map ([], ·)) [] t).map
          fun value => value.toList.map ([], t, ·) := by
  have distinct : DistinctTimes ((unlabelled function rangeMs offsetMs).keyed (unlabelledBatch samples) samples) := by
    rw [unlabelled_keyed, DistinctTimes, List.pairwise_map]
    exact increasing.imp fun before _ same => Int64.lt_irrefl (same ▸ before)
  have accepted : (unlabelled function rangeMs offsetMs).times ⟨Option.some t, none⟩ = .ok ⟨t, t, 1, none, none⟩ := rfl
  have stepped : 0 < (1 : Int64).toInt := by decide
  obtain ⟨series, ordered, keys, ends, _, view⟩ := (unlabelled function rangeMs offsetMs).execute_view ops
    ⟨positive, nofun⟩ accepted stepped (unlabelled_takes samples) (unlabelled_samples samples) few distinct
  have single : series = [[]] := by
    refine series_unique (List.pairwise_singleton _ _) ordered fun s => ?_
    rw [keys, unlabelled_keyed, List.map_map, List.mem_map, List.mem_singleton]
    constructor
    · rintro ⟨_, _, rfl⟩
      rfl
    · rintro rfl
      exact ⟨_, List.head_mem some, rfl⟩
  have count : instantCount ⟨t, t, 1, none, none⟩ = 1 := by
    simp [instantCount]
  obtain ⟨result, ended⟩ := ends 2 (by rw [count]; decide)
  refine ⟨result, ended, ?_⟩
  have instant : instants ⟨t, t, 1, none, none⟩ = [t] := by
    rw [instants, count]
    simp [instantsFrom]
  rw [view 2 result ended, single, unlabelled_keyed, expected, instant, List.mapM_cons,
    List.mapM_nil, List.mapM_cons, List.mapM_nil]
  cases outcome ops (unlabelled function rangeMs offsetMs) ⟨t, t, 1, none, none⟩ (samples.map ([], ·)) [] t with
  | error e => rfl
  | ok value => cases value <;> rfl

end AsapPlanner.Series
