import AsapPlanner.Ordered.Cut
import AsapPlanner.Ir.Scalar

/-!
Constraints on one column, as selections hold them: what a conjunct says about its column, how two
constraints combine, and which values satisfy them.
-/

namespace AsapPlanner.Coverage
open Rust Ordered Ir

/-! ### Comparing literals -/

/-- Order of two literals of the same type; none across types or for NaN. -/
def compareValues : ScalarValue → ScalarValue → Option Ordering
  | .int64 a, .int64 b => some (compare a b)
  | .float64 a, .float64 b => a.partialCmp b
  | .utf8 a, .utf8 b => some (compare a b)
  | .boolean a, .boolean b => some (compare a b)
  | _, _ => none

private theorem not_ordered {o : Option Ordering} (incomparable : o = none) :
    ¬ (o = some .lt ∨ o = some .eq) := by
  rw [incomparable]
  simp

instance : LawfulCompare compareValues where
  swap a b := by
    cases a <;> cases b <;> try rfl
    · exact compare_swap (fun x y : Int => some (compare x y)) _ _
    · exact compare_swap F64.partialCmp _ _
    · exact compare_swap (fun x y : String => some (compare x y)) _ _
    · exact compare_swap (fun x y : Bool => some (compare x y)) _ _
  trans {a b c} ab bc := by
    cases a <;> cases b <;> try exact absurd ab (not_ordered rfl)
    all_goals cases c <;> try exact absurd bc (not_ordered rfl)
    · exact compare_trans (fun x y : Int => some (compare x y)) ab bc
    · exact compare_trans F64.partialCmp ab bc
    · exact compare_trans (fun x y : String => some (compare x y)) ab bc
    · exact compare_trans (fun x y : Bool => some (compare x y)) ab bc

theorem compareValues_same {v w : ScalarValue} (equal : same v w = true) (x : ScalarValue) :
    compareValues v x = compareValues w x := by
  cases v <;> cases w <;> try (exact absurd equal Bool.false_ne_true)
  case int64.int64 a b => simp_all [same, datum, Datum.eq, Datum.eqParts, Datum.variant, Leaf.eq]
  case utf8.utf8 a b => simp_all [same, datum, Datum.eq, Datum.eqParts, Datum.variant, Leaf.eq]
  case boolean.boolean a b =>
    simp_all [same, datum, Datum.eq, Datum.eqParts, Datum.variant, Leaf.eq]
  case float64.float64 a b =>
    have level : Level F64.partialCmp a b := by
      rw [F64.partialCmp_level]
      simpa [same, datum, Datum.eq, Datum.eqParts, Datum.variant, Leaf.eq] using equal
    cases x <;> try rfl
    exact compare_congr level
  all_goals rfl

/-! ### Bounds -/

def atLeast {α : Type} (cmp : α → α → Option Ordering) (v : α) : Bound α → Option Bool
  | .unbounded => some true
  | .included l => (cmp v l).map (· != .lt)
  | .excluded l => (cmp v l).map (· == .gt)

def atMost {α : Type} (cmp : α → α → Option Ordering) (v : α) : Bound α → Option Bool
  | .unbounded => some true
  | .included u => (cmp v u).map (· != .gt)
  | .excluded u => (cmp v u).map (· == .lt)

/-- Whether `v` lies inside the interval; none when it cannot be compared. -/
def inside {α : Type} (cmp : α → α → Option Ordering) (v : α) (lower upper : Bound α) :
    Option Bool := do
  let above ← atLeast cmp v lower
  let below ← atMost cmp v upper
  some (above && below)

/-- Whether no value is both at most `upper` and at least `lower`. -/
def endsBefore {α : Type} (cmp : α → α → Option Ordering) (upper lower : Bound α) : Bool :=
  match upper, lower with
  | .included u, .included l => cmp u l == some .lt
  | .included u, .excluded l | .excluded u, .included l | .excluded u, .excluded l =>
    cmp u l == some .lt || cmp u l == some .eq
  | _, _ => false

def intervalsDisjoint {α : Type} (cmp : α → α → Option Ordering) (al au bl bu : Bound α) : Bool :=
  endsBefore cmp au bl || endsBefore cmp bu al

/-- The tighter of two lower (`want` is `gt`) or upper (`lt`) bounds. -/
def tighter (a b : Bound ScalarValue) (want : Ordering) : Option (Bound ScalarValue) :=
  let value : Bound ScalarValue → Option ScalarValue
    | .included v | .excluded v => some v
    | .unbounded => none
  match value a, value b with
  | none, _ => some b
  | _, none => some a
  | some x, some y =>
    match compareValues x y with
    | none => none
    | some .eq => match a with
      | .excluded _ => some a
      | _ => some b
    | some order => if order == want then some a else some b

section Bounds
variable {α : Type} {cmp : α → α → Option Ordering} {upper lower : Bound α} {v : α}

theorem endsBefore_iff : endsBefore cmp upper lower = true ↔ Bound.Precedes cmp upper lower := by
  cases upper <;> cases lower <;>
    simp [endsBefore, Bound.Precedes, Bound.upperCut, Bound.lowerCut, Cut.Le, Before, Level]

theorem atMost_iff {b : Bool} (found : atMost cmp v upper = some b) :
    b = true ↔ upper.AtMost cmp v := by
  cases upper with
  | unbounded => simp_all [atMost]
  | included u =>
    obtain ⟨order, compared, rfl⟩ := Option.map_eq_some_iff.mp found
    rw [Bound.atMost_included, NotAfter, Before, Level, compared]
    cases order <;> simp
  | excluded u =>
    obtain ⟨order, compared, rfl⟩ := Option.map_eq_some_iff.mp found
    rw [Bound.atMost_excluded, Before, compared]
    cases order <;> simp

variable [LawfulCompare cmp]

theorem atLeast_iff {b : Bool} (found : atLeast cmp v lower = some b) :
    b = true ↔ lower.AtLeast cmp v := by
  cases lower with
  | unbounded => simp_all [atLeast]
  | included l =>
    obtain ⟨order, compared, rfl⟩ := Option.map_eq_some_iff.mp found
    rw [Bound.atLeast_included, NotAfter, Before, Level, compare_swap cmp v l, compared]
    cases order <;> simp
  | excluded l =>
    obtain ⟨order, compared, rfl⟩ := Option.map_eq_some_iff.mp found
    rw [Bound.atLeast_excluded, Before, compare_swap cmp v l, compared]
    cases order <;> simp

theorem inside_iff {b : Bool} (found : inside cmp v lower upper = some b) :
    b = true ↔ lower.AtLeast cmp v ∧ upper.AtMost cmp v := by
  unfold inside at found
  obtain ⟨above, aboveFound, rest⟩ := Option.bind_eq_some_iff.mp found
  obtain ⟨below, belowFound, result⟩ := Option.bind_eq_some_iff.mp rest
  cases result
  rw [Bool.and_eq_true, atLeast_iff aboveFound, atMost_iff belowFound]

theorem intervalsDisjoint_sound {al au bl bu : Bound α}
    (apart : intervalsDisjoint cmp al au bl bu = true) :
    ¬ ((al.AtLeast cmp v ∧ au.AtMost cmp v) ∧ (bl.AtLeast cmp v ∧ bu.AtMost cmp v)) := by
  rintro ⟨⟨aboveA, belowA⟩, aboveB, belowB⟩
  rcases Bool.or_eq_true_iff.mp apart with before | after
  · exact Bound.not_both_of_precedes (endsBefore_iff.mp before) ⟨belowA, aboveB⟩
  · exact Bound.not_both_of_precedes (endsBefore_iff.mp after) ⟨belowB, aboveA⟩

end Bounds

/-! ### Constraints -/

/-- What a selection says about one column. -/
inductive Constraint
  | isIn (values : List ScalarValue)
  | notIn (values : List ScalarValue)
  | interval (lower upper : Bound ScalarValue)
deriving DecidableEq, Repr

instance {α : Type} [Derived α] : Derived (Bound α) := ⟨fun bound => match bound with
  | .included v => .variant "Included" [datum v]
  | .excluded v => .variant "Excluded" [datum v]
  | .unbounded => .variant "Unbounded" []⟩

instance : Derived Constraint := ⟨fun constraint => match constraint with
  | .isIn values => .variant "In" [datum values]
  | .notIn values => .variant "NotIn" [datum values]
  | .interval lower upper =>
    .record "Interval" [("lower", datum lower), ("upper", datum upper)]⟩

def pushNew (out : List ScalarValue) (v : ScalarValue) : List ScalarValue :=
  if out.any (same · v) then out else out ++ [v]

def dedup (values : List ScalarValue) : List ScalarValue := values.foldl pushNew []

/-- Whether `v` equals one of `values`; none when some pair cannot be compared. -/
def among (v : ScalarValue) : List ScalarValue → Option Bool
  | [] => some false
  | w :: rest => do
    if (← compareValues v w) == .eq then some true else among v rest

/-- The values of `a` that are (`keep`) or are not in `b`. -/
def filterValues (a b : List ScalarValue) (keep : Bool) : Option (List ScalarValue) :=
  match a with
  | [] => some []
  | v :: rest => do
    let found ← among v b
    let out ← filterValues rest b keep
    some (if found == keep then v :: out else out)

def valuesInside (lower upper : Bound ScalarValue) : List ScalarValue → Option (List ScalarValue)
  | [] => some []
  | v :: rest => do
    let found ← inside compareValues v lower upper
    let kept ← valuesInside lower upper rest
    some (if found then v :: kept else kept)

namespace Constraint

/-- The conjunction of two constraints, when it is again a single constraint. -/
def intersect : Constraint → Constraint → Option Constraint
  | isIn a, isIn b => (filterValues a b true).map isIn
  | isIn a, notIn b | notIn b, isIn a => (filterValues a b false).map isIn
  | notIn a, notIn b => some (notIn (dedup (a ++ b)))
  | isIn a, interval lower upper | interval lower upper, isIn a =>
    (valuesInside lower upper a).map isIn
  | interval al au, interval bl bu => do
    let lower ← tighter al bl .gt
    let upper ← tighter au bu .lt
    some (interval lower upper)
  | notIn _, interval .. | interval .., notIn _ => none

/-- Whether no value satisfies both; false when unsure. -/
def disjoint : Constraint → Constraint → Bool
  | isIn a, isIn b => a.all fun v => among v b == some false
  | isIn a, notIn b | notIn b, isIn a => a.all fun v => among v b == some true
  | isIn a, interval lower upper | interval lower upper, isIn a =>
    a.all fun v => inside compareValues v lower upper == some false
  | interval al au, interval bl bu => intervalsDisjoint compareValues al au bl bu
  | notIn _, _ | _, notIn _ => false

def Holds : Constraint → ScalarValue → Prop
  | isIn values, v => ∃ w ∈ values, Level compareValues v w
  | notIn values, v =>
    ∀ w ∈ values, (compareValues v w).isSome ∧ ¬ Level compareValues v w
  | interval lower upper, v => lower.AtLeast compareValues v ∧ upper.AtMost compareValues v

instance (c : Constraint) (v : ScalarValue) : Decidable (c.Holds v) := by
  unfold Holds Level
  split <;> infer_instance

end Constraint

/-! ### The constraint a conjunct states -/

section
variable {C : Type}

def flip : CompareOpKind → Option CompareOpKind
  | .eq => some .eq
  | .ne => some .ne
  | .lt => some .gt
  | .le => some .ge
  | .gt => some .lt
  | .ge => some .le
  | _ => none

def literal : ScalarExpr C → Option ScalarValue
  | .literal .null => none
  | .literal v => some v
  | _ => none

def comparison (op : CompareOpKind) (value : ScalarValue) : Option Constraint :=
  match op with
  | .eq => some (.isIn [value])
  | .ne => some (.notIn [value])
  | .lt => some (.interval .unbounded (.excluded value))
  | .le => some (.interval .unbounded (.included value))
  | .gt => some (.interval (.excluded value) .unbounded)
  | .ge => some (.interval (.included value) .unbounded)
  | _ => none

mutual
/-- A comparison with a literal, `[NOT] IN`, and `OR` of equalities on one column. -/
def constraintOf : ScalarExpr C → Option (ColumnId × Constraint)
  | .compare left op right _ => do
    let (column, value, op) ← match left, right with
      | .column c, r => (literal r).map fun value => (c, value, op)
      | l, .column c => do
        let value ← literal l
        let op ← flip op
        some (c, value, op)
      | _, _ => none
    let constraint ← comparison op value
    some (column, constraint)
  | .inList (.column column) list negated => do
    let values ← list.mapM literal
    some (column, if negated then .notIn (dedup values) else .isIn (dedup values))
  | .boolOr disjuncts => do
    let (column, values) ← disjunctValues none [] disjuncts
    let column ← column
    some (column, .isIn (dedup values))
  | _ => none

def disjunctValues (column : Option ColumnId) (values : List ScalarValue) :
    List (ScalarExpr C) → Option (Option ColumnId × List ScalarValue)
  | [] => some (column, values)
  | disjunct :: rest =>
    match constraintOf disjunct with
    | some (c, .isIn v) =>
      if column.any (· != c) then none else disjunctValues (some c) (values ++ v) rest
    | _ => none
end

end

/-! ### What combining constraints selects -/

theorem among_true {v : ScalarValue} {values : List ScalarValue}
    (found : among v values = some true) : ∃ w ∈ values, Level compareValues v w := by
  induction values with
  | nil => simp [among] at found
  | cons w rest ih =>
    obtain ⟨order, compared, next⟩ := Option.bind_eq_some_iff.mp found
    by_cases equal : order = .eq
    · subst order
      exact ⟨w, List.mem_cons_self, compared⟩
    · obtain ⟨u, member, level⟩ := ih (by simpa [equal] using next)
      exact ⟨u, List.mem_cons_of_mem w member, level⟩

theorem among_false {v : ScalarValue} {values : List ScalarValue}
    (absent : among v values = some false) :
    ∀ w ∈ values, (compareValues v w).isSome ∧ ¬ Level compareValues v w := by
  induction values with
  | nil => simp
  | cons u rest ih =>
    obtain ⟨order, compared, next⟩ := Option.bind_eq_some_iff.mp absent
    have differ : order ≠ .eq := by
      rintro rfl
      simp at next
    intro w member
    rcases List.mem_cons.mp member with rfl | later
    · exact ⟨by simp [compared], by simp [Level, compared, differ]⟩
    · exact ih (by simpa [differ] using next) w later

theorem mem_dedup {values : List ScalarValue} {w : ScalarValue} (member : w ∈ values) :
    ∃ u ∈ dedup values, ∀ x, compareValues x u = compareValues x w := by
  have kept : ∀ (rest out : List ScalarValue),
      (∃ u ∈ out, ∀ x, compareValues x u = compareValues x w) ∨ w ∈ rest →
      ∃ u ∈ rest.foldl pushNew out, ∀ x, compareValues x u = compareValues x w := by
    intro rest
    induction rest with
    | nil =>
      intro out present
      simpa using present
    | cons v rest ih =>
      intro out present
      apply ih
      rcases present with ⟨u, member, alike⟩ | member
      · left
        unfold pushNew
        split
        · exact ⟨u, member, alike⟩
        · exact ⟨u, List.mem_append_left _ member, alike⟩
      · rcases List.mem_cons.mp member with rfl | later
        · left
          unfold pushNew
          split
          · rename_i repeated
            obtain ⟨u, held, equal⟩ := List.any_eq_true.mp repeated
            refine ⟨u, held, fun x => ?_⟩
            rw [compare_swap compareValues u x, compare_swap compareValues w x,
              compareValues_same equal]
          · exact ⟨w, by simp, fun _ => rfl⟩
        · exact .inr later
  exact kept values [] (.inr member)

theorem dedup_subset {values : List ScalarValue} {w : ScalarValue} (member : w ∈ dedup values) :
    w ∈ values := by
  have kept : ∀ (rest out : List ScalarValue),
      w ∈ rest.foldl pushNew out → w ∈ out ∨ w ∈ rest := by
    intro rest
    induction rest with
    | nil =>
      intro out present
      simpa using present
    | cons v rest ih =>
      intro out present
      rcases ih _ present with held | later
      · unfold pushNew at held
        split at held
        · exact .inl held
        · rcases List.mem_append.mp held with old | new
          · exact .inl old
          · exact .inr (by simp_all)
      · exact .inr (List.mem_cons_of_mem v later)
  simpa using kept values [] member

namespace Constraint

theorem isIn_dedup (values : List ScalarValue) (v : ScalarValue) :
    (isIn (dedup values)).Holds v ↔ (isIn values).Holds v := by
  constructor
  · rintro ⟨w, member, level⟩
    exact ⟨w, dedup_subset member, level⟩
  · rintro ⟨w, member, level⟩
    obtain ⟨u, present, alike⟩ := mem_dedup member
    exact ⟨u, present, (alike v).trans level⟩

theorem bound_same {a b : Bound ScalarValue} (equal : same a b = true) (v : ScalarValue) :
    (a.AtLeast compareValues v ↔ b.AtLeast compareValues v) ∧
      (a.AtMost compareValues v ↔ b.AtMost compareValues v) := by
  cases a <;> cases b <;> try exact absurd equal Bool.false_ne_true
  case included.included x y | excluded.excluded x y =>
    have alike : same x y = true := by
      simpa [same, datum, Datum.variant, Datum.eq, Datum.eqParts] using equal
    have below : compareValues v x = compareValues v y := by
      rw [compare_swap compareValues x v, compare_swap compareValues y v, compareValues_same alike]
    simp [NotAfter, Before, Level, compareValues_same alike, below]
  case unbounded.unbounded => simp

theorem holds_same {a b : Constraint} (equal : same a b = true) (v : ScalarValue) :
    a.Holds v ↔ b.Holds v := by
  have alike : ∀ {x y : ScalarValue}, same x y = true → compareValues v x = compareValues v y := by
    intro x y same
    rw [compare_swap compareValues x v, compare_swap compareValues y v, compareValues_same same]
  cases a <;> cases b <;> try exact absurd equal Bool.false_ne_true
  case isIn.isIn xs ys =>
    have pointwise : same xs ys = true := by
      simpa [same, datum, Datum.variant, Datum.eq, Datum.eqParts] using equal
    replace pointwise := same_list.mp pointwise
    clear equal
    induction pointwise with
    | nil => rfl
    | cons first _ ih =>
      simp only [Holds, List.mem_cons, exists_eq_or_imp, Level, alike first] at ih ⊢
      exact or_congr_right ih
  case notIn.notIn xs ys =>
    have pointwise : same xs ys = true := by
      simpa [same, datum, Datum.variant, Datum.eq, Datum.eqParts] using equal
    replace pointwise := same_list.mp pointwise
    clear equal
    induction pointwise with
    | nil => rfl
    | cons first _ ih =>
      simp only [Holds, List.mem_cons, forall_eq_or_imp, Level, alike first] at ih ⊢
      exact and_congr_right' ih
  case interval.interval al au bl bu =>
    have ends : same al bl = true ∧ same au bu = true := by
      simpa [same, datum, Datum.record, Datum.eq, Datum.eqParts] using equal
    exact and_congr (bound_same ends.1 v).1 (bound_same ends.2 v).2

theorem holds_congr {v w : ScalarValue} (level : Level compareValues v w) (c : Constraint) :
    c.Holds v ↔ c.Holds w := by
  cases c with
  | isIn values => simp only [Holds, Level, compare_congr level]
  | notIn values => simp only [Holds, Level, compare_congr level]
  | interval lower upper =>
    exact and_congr (Bound.atLeast_congr level) (Bound.atMost_congr level)

theorem isIn_among {v : ScalarValue} {b : List ScalarValue} {present : Bool}
    (decided : among v b = some present) : present = true ↔ (isIn b).Holds v := by
  cases present with
  | true => simpa [Holds] using among_true decided
  | false =>
    simp only [Bool.false_eq_true, false_iff]
    rintro ⟨w, member, level⟩
    exact (among_false decided w member).2 level

theorem notIn_among {v : ScalarValue} {b : List ScalarValue} {present : Bool}
    (decided : among v b = some present) : present = false ↔ (notIn b).Holds v := by
  cases present with
  | true =>
    obtain ⟨w, member, level⟩ := among_true decided
    simp only [Bool.true_eq_false, false_iff]
    exact fun held => (held w member).2 level
  | false => exact iff_of_true rfl (among_false decided)

theorem disjoint_sound {a b : Constraint} (apart : a.disjoint b = true) (v : ScalarValue) :
    ¬ (a.Holds v ∧ b.Holds v) := by
  -- a value at one of `a`'s literals satisfies whatever that literal satisfies
  have literal : ∀ {values : List ScalarValue} {c : Constraint},
      (∀ w ∈ values, ¬ c.Holds w) → ¬ ((isIn values).Holds v ∧ c.Holds v) := by
    rintro values c none ⟨⟨w, member, level⟩, held⟩
    exact none w member ((holds_congr level c).mp held)
  have outside : ∀ {values : List ScalarValue} {lower upper : Bound ScalarValue},
      (values.all fun w => inside compareValues w lower upper == some false) = true →
      ∀ w ∈ values, ¬ (interval lower upper).Holds w := by
    intro values lower upper all w member held
    have decided := beq_iff_eq.mp (List.all_eq_true.mp all w member)
    exact Bool.false_ne_true ((inside_iff decided).mpr held)
  have excluded : ∀ {values others : List ScalarValue},
      (values.all fun w => among w others == some true) = true →
      ∀ w ∈ values, ¬ (notIn others).Holds w := by
    intro values others all w member held
    have decided := beq_iff_eq.mp (List.all_eq_true.mp all w member)
    exact absurd ((notIn_among decided).mpr held) Bool.true_eq_false.mp
  cases a <;> cases b
  case isIn.isIn a b =>
    refine literal fun w member held => ?_
    have decided := beq_iff_eq.mp (List.all_eq_true.mp apart w member)
    exact Bool.false_ne_true ((isIn_among decided).mpr held)
  case isIn.notIn a b => exact literal (excluded apart)
  case isIn.interval a lower upper => exact literal (outside apart)
  case notIn.isIn b a => exact fun ⟨held, inA⟩ => literal (excluded apart) ⟨inA, held⟩
  case notIn.notIn => exact absurd apart Bool.false_ne_true
  case notIn.interval => exact absurd apart Bool.false_ne_true
  case interval.isIn lower upper a => exact fun ⟨held, inA⟩ => literal (outside apart) ⟨inA, held⟩
  case interval.notIn => exact absurd apart Bool.false_ne_true
  case interval.interval al au bl bu => exact intervalsDisjoint_sound apart

end Constraint
end AsapPlanner.Coverage
