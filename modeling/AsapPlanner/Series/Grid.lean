import AsapPlanner.Rust.Result
import AsapPlanner.Series.Window
import Mathlib.Tactic.Linarith

/-!
The instants at which a series window is evaluated, and the loop over them. Each series' samples, their
order, and those in one window.
-/

namespace AsapPlanner.Series
open Ir Rust Grouping

/-! ### Checked arithmetic -/

theorem fits_toInt (v : Int64) : FitsI64 v.toInt := by
  have low := v.le_toInt
  have high := v.toInt_lt
  unfold FitsI64 i64Min i64Max
  omega

theorem toInt_ofInt {value : Int} (fits : FitsI64 value) : (Int64.ofInt value).toInt = value := by
  unfold FitsI64 i64Min i64Max at fits
  exact Int64.toInt_ofInt_of_le (by omega) (by omega)

theorem checked_eq_some {value : Int} {v : Int64} : checked value = some v ↔ v.toInt = value := by
  unfold checked
  constructor
  · intro found
    split at found
    · next fits =>
      rw [← Option.some.inj found, toInt_ofInt fits]
    · cases found
  · rintro rfl
    rw [if_pos (fits_toInt v), Int64.ofInt_toInt]

theorem checked_eq_none {value : Int} : checked value = none ↔ ¬ FitsI64 value := by
  unfold checked
  split <;> simp_all

theorem checkedOr_ok {message : String} {value : Int} {v : Int64} :
    checkedOr message value = .ok v ↔ v.toInt = value := by
  rw [← checked_eq_some, checkedOr]
  cases checked value <;> simp

theorem checkedOr_error {message : String} {value : Int} (outside : ¬ FitsI64 value) :
    checkedOr message value = .error (.invalid message) := by
  rw [checkedOr, checked_eq_none.mpr outside]

/-! ### The grid -/

/-- The instants of a query: the evaluation time, or the multiples of the step in the subquery's range. -/
def OnGrid (evaluationTimeMs : Int64) : Option SubquerySteps → Int64 → Prop
  | none, t => t = evaluationTimeMs
  | some steps, t =>
    let stop := (steps.atMs.getD evaluationTimeMs).toInt - steps.offsetMs.toInt
    steps.stepMs.toInt ∣ t.toInt ∧ stop - steps.rangeMs.toInt < t.toInt ∧ t.toInt ≤ stop

/-- The instants after the first by whole steps. -/
def Steps (first last step t : Int64) : Prop :=
  (∃ k : Nat, t.toInt = first.toInt + k * step.toInt) ∧ t.toInt ≤ last.toInt

theorem first_multiple {start step : Int64} (room : start.toInt < i64Max) (positive : 0 < step.toInt) :
    (divEuclid start step + 1).toInt = start.toInt / step.toInt + 1 := by
  have fits := fits_toInt start
  unfold FitsI64 i64Min at fits
  have low : start.toInt / step.toInt ≤ max start.toInt 0 := by
    rcases Int.lt_or_le start.toInt 0 with negative | nonneg
    · have := Int.ediv_neg_of_neg_of_pos negative positive
      omega
    · have := Int.ediv_le_self step.toInt nonneg
      omega
  have high : min start.toInt 0 ≤ start.toInt / step.toInt := by
    rw [Int.le_ediv_iff_mul_le positive]
    rcases Int.lt_or_le start.toInt 0 with negative | nonneg
    · rw [Int.min_eq_left (by omega)]
      nlinarith
    · rw [Int.min_eq_right nonneg, Int.zero_mul]
      exact nonneg
  have quotient : (divEuclid start step).toInt = start.toInt / step.toInt :=
    toInt_ofInt ⟨by unfold i64Min; omega, by unfold i64Max at room ⊢; omega⟩
  rw [Int64.toInt_add, quotient]
  have one : (1 : Int64).toInt = 1 := rfl
  unfold i64Max at room
  rw [one]
  exact Int.bmod_eq_of_le_mul_two (by omega) (by omega)

theorem evaluationTimes_ok {evaluationTimeMs first last step : Int64} {steps : Option SubquerySteps}
    (positive : ∀ steps' ∈ steps, steps'.positive = true)
    (accepted : evaluationTimes evaluationTimeMs steps = .ok (first, last, step)) :
    0 < step.toInt ∧ ∀ t, OnGrid evaluationTimeMs steps t ↔ Steps first last step t := by
  cases steps with
  | none =>
    cases accepted
    refine ⟨by decide, fun t => ⟨?_, ?_⟩⟩
    · rintro rfl
      exact ⟨⟨0, by simp⟩, Int.le_refl _⟩
    · rintro ⟨⟨k, same⟩, late⟩
      have one : (1 : Int64).toInt = 1 := rfl
      rw [one] at same
      exact Int64.toInt_inj.mp (by omega)
  | some steps =>
    obtain ⟨range, stepped⟩ : 0 < steps.rangeMs.toInt ∧ 0 < steps.stepMs.toInt := by
      have both := positive steps rfl
      rw [SubquerySteps.positive, Bool.and_eq_true, decide_eq_true_eq, decide_eq_true_eq,
        Int64.lt_iff_toInt_lt, Int64.lt_iff_toInt_lt] at both
      exact both
    obtain ⟨stop, stopped, accepted⟩ := bind_eq_ok accepted
    obtain ⟨start, started, accepted⟩ := bind_eq_ok accepted
    obtain ⟨first', multiple, accepted⟩ := bind_eq_ok accepted
    obtain ⟨rfl, rfl, rfl⟩ : first' = first ∧ stop = last ∧ steps.stepMs = step := by
      cases accepted
      exact ⟨rfl, rfl, rfl⟩
    rw [checkedOr_ok] at stopped started multiple
    have fits := fits_toInt stop
    unfold FitsI64 at fits
    rw [first_multiple (by omega) stepped] at multiple
    refine ⟨stepped, fun t => ?_⟩
    unfold OnGrid Steps
    dsimp only
    rw [← stopped, ← started, multiple, and_left_comm, ← and_assoc]
    refine and_congr_left fun _ => ?_
    constructor
    · rintro ⟨after, q, same⟩
      rw [same, Int.mul_comm, ← Int.ediv_lt_iff_lt_mul stepped] at after
      refine ⟨(q - (start.toInt / steps.stepMs.toInt + 1)).toNat, ?_⟩
      rw [Int.toNat_of_nonneg (by omega), same]
      linarith [Int.sub_mul q (start.toInt / steps.stepMs.toInt + 1) steps.stepMs.toInt,
        Int.mul_comm q steps.stepMs.toInt]
    · rintro ⟨k, same⟩
      rw [← Int.add_mul] at same
      refine ⟨?_, _, same.trans (Int.mul_comm _ _)⟩
      rw [same, ← Int.ediv_lt_iff_lt_mul stepped]
      omega

/-! ### The loop -/

/-- How many instants a grid has. -/
def instantCount (times : Times) : Nat :=
  if times.first ≤ times.last then ((times.last.toInt - times.first.toInt) / times.step.toInt).toNat + 1 else 0

def instantsFrom (step time : Int64) (count : Nat) : List Int64 :=
  (List.range count).map fun k : Nat => .ofInt (time.toInt + k * step.toInt)

/-- The instants in the order of the loop. -/
def instants (times : Times) : List Int64 := instantsFrom times.step times.first (instantCount times)

theorem instantsFrom_succ {step time next : Int64} (moved : next.toInt = time.toInt + step.toInt) (count : Nat) :
    instantsFrom step time (count + 1) = time :: instantsFrom step next count := by
  unfold instantsFrom
  rw [List.range_succ_eq_map, List.map_cons, List.map_map]
  congr 1
  · simp
  · refine List.map_congr_left fun k _ => ?_
    rw [Function.comp_apply, moved, Nat.cast_succ, Int.add_mul, Int.one_mul, Int.add_assoc,
      Int.add_comm (_ * _) step.toInt]

section
variable {times : Times} (positive : 0 < times.step.toInt)
include positive

theorem lt_instantCount {k : Nat} :
    k < instantCount times ↔ times.first.toInt + k * times.step.toInt ≤ times.last.toInt := by
  unfold instantCount
  split
  · next nonempty =>
    rw [Int64.le_iff_toInt_le] at nonempty
    have nonneg := Int.ediv_nonneg (show 0 ≤ times.last.toInt - times.first.toInt by omega) positive.le
    have before : k < ((times.last.toInt - times.first.toInt) / times.step.toInt).toNat + 1 ↔
        (k : Int) ≤ (times.last.toInt - times.first.toInt) / times.step.toInt := by omega
    rw [before, Int.le_ediv_iff_mul_le positive]
    omega
  · next empty =>
    rw [Int64.le_iff_toInt_le] at empty
    have := Int.mul_nonneg (Int.natCast_nonneg k) positive.le
    omega

theorem toInt_instant {k : Nat} (inside : k < instantCount times) :
    (Int64.ofInt (times.first.toInt + k * times.step.toInt)).toInt = times.first.toInt + k * times.step.toInt := by
  have below := (lt_instantCount positive).mp inside
  have first := fits_toInt times.first
  have last := fits_toInt times.last
  have := Int.mul_nonneg (Int.natCast_nonneg k) positive.le
  refine toInt_ofInt ⟨?_, ?_⟩
  · exact first.1.trans (by omega)
  · exact below.trans last.2

theorem mem_instants {t : Int64} : t ∈ instants times ↔ Steps times.first times.last times.step t := by
  unfold instants instantsFrom Steps
  rw [List.mem_map]
  constructor
  · rintro ⟨k, inside, rfl⟩
    have inside := List.mem_range.mp inside
    rw [toInt_instant positive inside]
    exact ⟨⟨k, rfl⟩, (lt_instantCount positive).mp inside⟩
  · rintro ⟨⟨k, same⟩, late⟩
    rw [same] at late
    have inside := (lt_instantCount positive).mpr late
    refine ⟨k, List.mem_range.mpr inside, Int64.toInt_inj.mp ?_⟩
    rw [toInt_instant positive inside, same]

theorem instants_increasing : (instants times).Pairwise (· < ·) := by
  refine List.pairwise_map.mpr (List.Pairwise.imp_of_mem (fun {j k} first second before => ?_) List.pairwise_lt_range)
  rw [Int64.lt_iff_toInt_lt, toInt_instant positive (List.mem_range.mp first),
    toInt_instant positive (List.mem_range.mp second)]
  have := Int.mul_lt_mul_of_pos_right (Int.ofNat_lt.mpr before) positive
  omega

end

variable {ops : Arithmetic} {window : SeriesWindow} {times : Times} {points : Points} {order : List Nat}

theorem evaluateFrom_eq (positive : 0 < times.step.toInt) (series : order ≠ []) {left rounds : Nat} {time : Int64}
    (enough : left < rounds) (before : ∀ k < left, time.toInt + k * times.step.toInt ≤ times.last.toInt)
    (after : times.last.toInt < time.toInt + left * times.step.toInt) :
    evaluateFrom ops window times points order rounds time =
      some (((instantsFrom times.step time left).mapM (evaluateAt ops window times points order)).map
        List.flatten) := by
  induction left generalizing rounds time with
  | zero =>
    obtain ⟨rounds, rfl⟩ := Nat.exists_eq_succ_of_ne_zero (Nat.ne_of_gt enough)
    have beyond : ¬ (time ≤ times.last ∧ order ≠ []) := by
      rw [Int64.le_iff_toInt_le]
      simp only [Nat.cast_zero, Int.zero_mul, Int.add_zero] at after
      omega
    rw [evaluateFrom, if_neg beyond]
    rfl
  | succ left ih =>
    obtain ⟨rounds, rfl⟩ := Nat.exists_eq_succ_of_ne_zero (Nat.ne_of_gt (Nat.zero_lt_of_lt enough))
    have here : time ≤ times.last ∧ order ≠ [] := by
      refine ⟨Int64.le_iff_toInt_le.mpr ?_, series⟩
      simpa using before 0 (Nat.succ_pos left)
    rw [evaluateFrom, if_pos here]
    cases next : checked (time.toInt + times.step.toInt) with
    | none =>
      have none : left = 0 := by
        by_contra some
        have second := before 1 (by omega)
        have last := fits_toInt times.last
        have low := fits_toInt time
        refine checked_eq_none.mp next ⟨?_, ?_⟩
        · exact low.1.trans (by omega)
        · exact le_trans (by omega) last.2
      subst none
      have single : instantsFrom times.step time 1 = [time] := by simp [instantsFrom]
      rw [single, List.mapM_cons]
      cases evaluateAt ops window times points order time with
      | error e => rfl
      | ok rows =>
        show some (Except.ok rows) = some (Except.ok ([rows].flatten))
        rw [List.flatten_singleton]
    | some next' =>
      have moved := checked_eq_some.mp next
      have later := @ih rounds next' (by omega) (fun k inside => by
        have := before (k + 1) (by omega)
        rw [Nat.cast_succ, Int.add_mul] at this
        omega) (by
        rw [Nat.cast_succ, Int.add_mul] at after
        omega)
      rw [instantsFrom_succ moved, List.mapM_cons]
      cases evaluateAt ops window times points order time with
      | error e => rfl
      | ok rows =>
        dsimp only
        rw [later]
        cases (instantsFrom times.step next' left).mapM (evaluateAt ops window times points order) <;> rfl

theorem evaluate_instants (positive : 0 < times.step.toInt) {rounds : Nat} (enough : instantCount times < rounds) :
    evaluateFrom ops window times points order rounds times.first =
      some (if order = [] then .ok []
        else ((instants times).mapM (evaluateAt ops window times points order)).map List.flatten) := by
  by_cases none : order = []
  · obtain ⟨rounds, rfl⟩ := Nat.exists_eq_succ_of_ne_zero (Nat.ne_of_gt (Nat.zero_lt_of_lt enough))
    rw [evaluateFrom, if_neg fun both => both.2 none, if_pos none]
  · rw [if_neg none]
    refine evaluateFrom_eq positive none enough (fun k inside => (lt_instantCount positive).mp inside) ?_
    by_contra early
    exact Nat.lt_irrefl _ ((lt_instantCount positive).mpr (Int.not_lt.mp early))

theorem evaluateFrom_mono {rounds more : Nat} {time : Int64} {result : Except Error (List OutRow)}
    (fewer : rounds ≤ more) (ended : evaluateFrom ops window times points order rounds time = some result) :
    evaluateFrom ops window times points order more time = some result := by
  induction rounds generalizing more time result with
  | zero => cases ended
  | succ rounds ih =>
    obtain ⟨more, rfl⟩ := Nat.exists_eq_succ_of_ne_zero (Nat.ne_of_gt (Nat.lt_of_lt_of_le (Nat.succ_pos _) fewer))
    rw [evaluateFrom] at ended ⊢
    split
    · next here =>
      rw [if_pos here] at ended
      cases rows : evaluateAt ops window times points order time with
      | error e =>
        rw [rows] at ended
        exact ended
      | ok rows' =>
        rw [rows] at ended
        dsimp only at ended ⊢
        cases next : checked (time.toInt + times.step.toInt) with
        | none =>
          rw [next] at ended
          exact ended
        | some next' =>
          rw [next] at ended
          dsimp only at ended ⊢
          obtain ⟨later, found, rfl⟩ := Option.map_eq_some_iff.mp ended
          rw [ih (Nat.le_of_succ_le_succ fewer) found]
          rfl
    · next beyond =>
      rw [if_neg beyond] at ended
      exact ended

theorem evaluateAt_rows {time : Int64} {rows : List OutRow}
    (run : evaluateAt ops window times points order time = .ok rows) :
    ∀ row ∈ rows, ∃ series ∈ order, row.row = points.template.getD series 0 := by
  obtain ⟨stop, _, run⟩ := bind_eq_ok run
  obtain ⟨start, _, run⟩ := bind_eq_ok run
  intro row member
  cases found : order.mapM (evaluateSeries ops window times points time start stop) with
  | error e =>
    rw [found] at run
    cases run
  | ok lists =>
    rw [found] at run
    cases run
    obtain ⟨list, listed, here⟩ := List.mem_flatten.mp member
    obtain ⟨series, known, single⟩ := mem_mapM found list listed
    refine ⟨series, known, ?_⟩
    obtain ⟨value, _, single⟩ := bind_eq_ok single
    cases value with
    | none =>
      cases single
      cases here
    | some v =>
      cases single
      rw [List.mem_singleton.mp here]

theorem evaluateFrom_rows {rounds : Nat} {time : Int64} {rows : List OutRow}
    (run : evaluateFrom ops window times points order rounds time = some (.ok rows)) :
    ∀ row ∈ rows, ∃ series ∈ order, row.row = points.template.getD series 0 := by
  induction rounds generalizing time rows with
  | zero => cases run
  | succ rounds ih =>
    rw [evaluateFrom] at run
    split at run
    · cases first : evaluateAt ops window times points order time with
      | error e =>
        rw [first] at run
        cases run
      | ok early =>
        rw [first] at run
        dsimp only at run
        split at run
        · cases run
          exact evaluateAt_rows first
        · obtain ⟨later, ended, both⟩ := Option.map_eq_some_iff.mp run
          cases later with
          | error e => cases both
          | ok late =>
            cases both
            intro row member
            rcases List.mem_append.mp member with here | here
            · exact evaluateAt_rows first row here
            · exact ih ended row here
    · cases run
      exact nofun

/-! ### Samples -/

/-! ### Points -/

def Points.after (series : Nat) (rows : List (Nat × Sample)) : Points where
  template := (List.range series).map fun s => (rows.findIdx? fun row => row.1 = s).elim 0 (· % 2 ^ 32)
  samples := (List.range series).map fun s => (rows.filter fun row => row.1 = s).map Prod.snd

theorem Points.push_after {series s : Nat} {rows : List (Nat × Sample)} {sample : Sample} (inside : s < series) :
    (Points.after series rows).push ((s, sample), rows.length) = .after series (rows ++ [(s, sample)]) := by
  have held : (Points.after series rows).samples.getD s [] = (rows.filter fun row => row.1 = s).map Prod.snd := by
    simp [Points.after, List.getD_eq_getElem?_getD, inside]
  unfold Points.push
  dsimp only
  rw [held]
  simp only [Points.after, Points.mk.injEq]
  constructor
  · refine List.ext_getElem ?_ fun other within _ => ?_
    · split <;> simp
    · by_cases same : other = s
      · subst same
        split
        · next fresh =>
          have none : rows.findIdx? (fun row => decide (row.1 = other)) = none := by
            rw [List.findIdx?_eq_none_iff]
            intro row member
            rw [List.isEmpty_iff, List.map_eq_nil_iff, List.filter_eq_nil_iff] at fresh
            simpa using fresh row member
          simp [List.findIdx?_append, none]
        · next known =>
          obtain ⟨row, member, at'⟩ : ∃ row ∈ rows, row.1 = other := by
            by_contra absent
            refine known ?_
            rw [List.isEmpty_iff, List.map_eq_nil_iff, List.filter_eq_nil_iff]
            exact fun row member same => absent ⟨row, member, of_decide_eq_true same⟩
          cases found : rows.findIdx? fun row => decide (row.1 = other) with
          | none =>
            rw [List.findIdx?_eq_none_iff] at found
            exact absurd at' (by simpa using found row member)
          | some index => simp [List.findIdx?_append, found]
      · have apart : s ≠ other := Ne.symm same
        split <;> simp [apart, List.findIdx?_append]
  · refine List.ext_getElem (by simp) fun other within _ => ?_
    by_cases same : other = s
    · subst same
      simp
    · have apart : s ≠ other := Ne.symm same
      simp [apart, List.filter_append]

theorem pointsOf_eq {series : Nat} {rows : List (Nat × Sample)} (inside : ∀ row ∈ rows, row.1 < series) :
    pointsOf series rows = .after series rows := by
  induction rows using List.reverseRecOn with
  | nil => simp [pointsOf, Points.after, Points.empty, List.map_const']
  | append_singleton rows row ih =>
    have before := ih fun other member => inside other (List.mem_append_left _ member)
    unfold pointsOf at before ⊢
    rw [List.zipIdx_append, List.foldl_append, before, Nat.zero_add]
    exact Points.push_after (inside row (List.mem_append_right _ (List.mem_singleton_self _)))

/-! ### Order and windows -/

theorem pairwise_zip_tail {α : Type} {R : α → α → Prop} {items : List α} (all : items.Pairwise R) :
    ∀ pair ∈ items.zip items.tail, R pair.1 pair.2 := by
  induction all with
  | nil => exact nofun
  | @cons first rest before _ ih =>
    cases rest with
    | nil => exact nofun
    | cons second rest =>
      intro pair member
      rcases List.mem_cons.mp member with rfl | later
      · exact before second List.mem_cons_self
      · exact ih pair later

def sorted (samples : List Sample) : List Sample := samples.mergeSort fun a b => a.1 ≤ b.1

theorem sorted_perm (samples : List Sample) : (sorted samples).Perm samples := List.mergeSort_perm _ _

theorem sorted_pairwise {samples : List Sample} (distinct : (samples.map Prod.fst).Nodup) :
    (sorted samples).Pairwise (·.1 < ·.1) := by
  have ascending : (sorted samples).Pairwise (·.1 ≤ ·.1) := by
    have pairs := @List.pairwise_mergeSort _ (fun a b : Sample => decide (a.1 ≤ b.1))
      (fun a b c first second => by
        rw [decide_eq_true_eq] at first second ⊢
        exact Int64.le_trans first second)
      (fun a b => by simpa using Int64.le_total a.1 b.1) samples
    exact pairs.imp of_decide_eq_true
  have apart : ((sorted samples).map Prod.fst).Nodup := ((sorted_perm samples).map Prod.fst).nodup_iff.mpr distinct
  rw [List.Nodup, List.pairwise_map] at apart
  exact ascending.imp₂ (fun _ _ le ne => Int64.lt_of_le_of_ne le ne) apart

theorem sortSamples_ok {samples : List Sample} (distinct : (samples.map Prod.fst).Nodup) :
    sortSamples samples = .ok (sorted samples) := by
  refine if_neg fun twice => ?_
  obtain ⟨pair, member, same⟩ := List.any_eq_true.mp twice
  have before := pairwise_zip_tail (sorted_pairwise distinct) pair member
  rw [of_decide_eq_true same] at before
  exact Int64.lt_irrefl before

theorem inWindow_eq {samples : List Sample} {start stop : Int64} (increasing : samples.Pairwise (·.1 < ·.1))
    (ordered : start ≤ stop) :
    inWindow samples start stop = samples.filter fun p => start < p.1 ∧ p.1 ≤ stop := by
  induction increasing with
  | nil => rfl
  | @cons first rest before _ ih =>
    unfold inWindow partitionPoint at ih ⊢
    have late : ∀ {bound : Int64}, bound < first.1 → ∀ p ∈ rest, ¬ p.1 ≤ bound := fun after p member below =>
      Int64.lt_irrefl (Int64.lt_trans (Int64.lt_of_lt_of_le (before p member) below) after)
    have none : ∀ {bound : Int64}, bound < first.1 → (rest.takeWhile fun p => decide (p.1 ≤ bound)) = [] := by
      intro bound after
      cases rest with
      | nil => rfl
      | cons second rest =>
        exact List.takeWhile_cons_of_neg (by simpa using late after second List.mem_cons_self)
    rcases Int64.le_or_lt first.1 start with early | after
    · have within := Int64.le_trans early ordered
      have outside : ¬ start < first.1 := Int64.not_lt.mpr early
      simpa [List.takeWhile_cons, early, within, outside] using ih
    · rw [none after] at ih
      rcases Int64.le_or_lt first.1 stop with within | beyond
      · have notEarly : ¬ first.1 ≤ start := Int64.not_le.mpr after
        simpa [List.takeWhile_cons, after, within, notEarly] using ih
      · have notEarly : ¬ first.1 ≤ start := Int64.not_le.mpr after
        have notWithin : ¬ first.1 ≤ stop := Int64.not_le.mpr beyond
        have empty : (first :: rest).filter (fun p => decide (start < p.1 ∧ p.1 ≤ stop)) = [] := by
          refine List.filter_eq_nil_iff.mpr fun p member => ?_
          rw [decide_eq_true_eq]
          rintro ⟨_, here⟩
          rcases List.mem_cons.mp member with rfl | later
          · exact notWithin here
          · exact late beyond p later here
        rw [empty]
        simp [notEarly, notWithin]

end AsapPlanner.Series
