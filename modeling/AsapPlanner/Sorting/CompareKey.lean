import AsapPlanner.Expressions.Evaluate
import AsapPlanner.Ordered.StableSort

/-!
The order of the values of one sort key.
-/

namespace AsapPlanner.Grouping.Value
open Ir Rust

/-- `f64::total_cmp` compares these numbers. -/
def totalKey (v : F64) : Int := if v.negative then -(v.magnitude.toNat : Int) - 1 else v.magnitude.toNat

def unordered : Except String Ordering := .error "values do not have a supported common ordering"

mutual
def compare : Value → Value → Except String Ordering
  | null, null => .ok .eq
  | int64 a, int64 b | timestamp a, timestamp b => .ok (Ord.compare a.toInt b.toInt)
  | float64 a, float64 b => .ok (if a.eq b then .eq else Ord.compare (totalKey a) (totalKey b))
  | utf8 a, utf8 b => .ok (Ord.compare (Rust.utf8 a) (Rust.utf8 b))
  | bool a, bool b => .ok (Ord.compare a b)
  | date a, date b => .ok (Ord.compare a.toInt b.toInt)
  | map left, map right => compareEntries left right
  | _, _ => unordered

/-- Entry by entry, key before value and NULL after every other value, then the lengths. -/
def compareEntries : List (Value × Value) → List (Value × Value) → Except String Ordering
  | (leftKey, leftValue) :: left, (rightKey, rightValue) :: right => do
    let result ← leftKey.compare rightKey
    if result ≠ .eq then return result
    let result ←
      if leftValue.isNull && rightValue.isNull then pure .eq
      else if leftValue.isNull then pure .gt
      else if rightValue.isNull then pure .lt
      else leftValue.compare rightValue
    if result ≠ .eq then return result
    compareEntries left right
  | left, right => .ok (Ord.compare left.length right.length)
end

mutual
def nestedNan : Value → Bool
  | float64 v => v.isNan
  | map entries => entriesNan entries
  | list items | struct items => itemsNan items
  | _ => false

def itemsNan : List Value → Bool
  | [] => false
  | item :: rest => item.nestedNan || itemsNan rest

def entriesNan : List (Value × Value) → Bool
  | [] => false
  | (key, value) :: rest => key.nestedNan || value.nestedNan || entriesNan rest
end

def isMap : Value → Bool
  | map _ => true
  | _ => false

end AsapPlanner.Grouping.Value

namespace AsapPlanner.Sorting
open Ir Rust Grouping Ordered Std

/-- The types a sort key may have. -/
def ordered : DataType → Bool
  | .map key value _ => ordered key && ordered value
  | .null | .int64 | .float64 | .utf8 | .bool | .timestamp | .date => true
  | _ => false

structure SortKey where
  column : Nat
  descending : Bool
  nullsFirst : Bool
deriving DecidableEq, Repr

/-- `Value::compare` where it is expected to succeed; elsewhere the source panics. -/
def compared (a b : Value) : Ordering :=
  match a.compare b with
  | .ok order => order
  | .error _ => .eq

/-- NULLs first or last, NaN after every number, then the key's direction. -/
def compareKey (a b : Value) (key : SortKey) : Ordering :=
  match a, b with
  | .null, .null => .eq
  | .null, _ => if key.nullsFirst then .lt else .gt
  | _, .null => if key.nullsFirst then .gt else .lt
  | .float64 x, .float64 y =>
    if x.isNan || y.isNan then
      match x.isNan, y.isNan with
      | true, true => .eq
      | true, false => .gt
      | _, _ => .lt
    else if key.descending then (compared a b).swap else compared a b
  | _, _ => if key.descending then (compared a b).swap else compared a b

/-! ### Values of one type -/

/-- A value of a type with no NaN in it; it is NULL only where the type is. -/
def Comparable (dtype : DataType) (v : Value) : Prop :=
  v.hasType dtype false = true ∧ v.nestedNan = false

/-- Two such values compare, and all of them are totally preordered. -/
structure Orders (dtype : DataType) : Prop where
  fine : ∀ a b, Comparable dtype a → Comparable dtype b → a.compare b = .ok (compared a b)
  preorder : PreorderOn (Comparable dtype) compared

theorem compared_of {a b : Value} {order : Ordering} (fine : a.compare b = .ok order) :
    compared a b = order := by
  rw [compared, fine]

theorem Orders.image {β : Type} {dtype : DataType} (f : β → Value) (cmp : β → β → Ordering)
    [TransCmp cmp] (from_f : ∀ v, Comparable dtype v → ∃ x, v = f x)
    (fine : ∀ x y, (f x).compare (f y) = .ok (cmp x y)) : Orders dtype where
  fine a b isA isB := by
    obtain ⟨x, rfl⟩ := from_f a isA
    obtain ⟨y, rfl⟩ := from_f b isB
    rw [fine, compared_of (fine x y)]
  preorder := .image f cmp from_f fun x y => compared_of (fine x y)

abbrev Number := {x : F64 // x.isNan = false}

theorem compare_numbers (x y : Number) :
    (Value.float64 x).compare (.float64 y) = .ok (Ord.compare x.1.key y.1.key) := by
  obtain ⟨x, isX⟩ := x
  obtain ⟨y, isY⟩ := y
  rw [Value.compare]
  simp only [F64.eq, isX, isY, Bool.not_false, Bool.true_and, Bool.and_true]
  congr 1
  split
  · next same =>
    rw [beq_iff_eq.mp same]
    exact (ReflCmp.compare_self : Ord.compare y.key y.key = .eq).symm
  · next differ =>
    rw [beq_iff_eq] at differ
    have down : ∀ a b : F64, a.key ≠ b.key → (Value.totalKey a < Value.totalKey b ↔ a.key < b.key) := by
      intro a b apart
      unfold Value.totalKey
      unfold F64.key at apart ⊢
      split <;> split <;> simp_all <;> omega
    rcases Int.lt_trichotomy x.key y.key with less | same | more
    · rw [Int.compare_eq_lt.mpr less, Int.compare_eq_lt.mpr ((down x y differ).mpr less)]
    · exact absurd same differ
    · rw [Int.compare_eq_gt.mpr more, Int.compare_eq_gt.mpr ((down y x (Ne.symm differ)).mpr more)]

/-! ### Maps -/

def nullsAfter : Value → Value → Ordering := apart Value.isNull .gt compared

def entryOrder (a b : Value × Value) : Ordering :=
  (compared a.1 b.1).then (nullsAfter a.2 b.2)

/-- An entry of a map with no NaN in it. -/
def ComparableEntry (key value : DataType) (entry : Value × Value) : Prop :=
  Comparable key entry.1 ∧ (entry.2.isNull = false → Comparable value entry.2)

theorem comparable_entries {key value : DataType} {nullable : Bool} :
    ∀ {entries : List (Value × Value)}, Value.entriesHaveType entries key value nullable = true →
      Value.entriesNan entries = false → ∀ entry ∈ entries, ComparableEntry key value entry
  | [], _, _, _, member => nomatch member
  | (k, v) :: rest, typed, clean, entry, member => by
    simp only [Value.entriesHaveType, Bool.and_eq_true] at typed
    simp only [Value.entriesNan, Bool.or_eq_false_iff] at clean
    rcases List.mem_cons.mp member with rfl | later
    · refine ⟨⟨typed.1.1, clean.1.1⟩, fun present => ⟨?_, clean.1.2⟩⟩
      cases v with
      | null => cases present
      | _ => cases value <;> exact typed.1.2
    · exact comparable_entries typed.2 clean.2 entry later

section
variable {key value : DataType}

theorem compareEntries_ok (keys : Orders key) (values : Orders value) :
    ∀ {left right : List (Value × Value)}, (∀ entry ∈ left, ComparableEntry key value entry) →
      (∀ entry ∈ right, ComparableEntry key value entry) →
      Value.compareEntries left right = .ok (List.compareLex entryOrder left right)
  | [], [], _, _ => rfl
  | [], _ :: _, _, _ => by
    rw [Value.compareEntries, List.compareLex_nil_cons]
    · rfl
    · exact fun _ _ _ _ _ _ same => nomatch same
  | _ :: _, [], _, _ => by
    rw [Value.compareEntries, List.compareLex_cons_nil]
    · rfl
    · exact fun _ _ _ _ _ _ _ same => nomatch same
  | (leftKey, leftValue) :: left, (rightKey, rightValue) :: right, isLeft, isRight => by
    have first := isLeft _ List.mem_cons_self
    have second := isRight _ List.mem_cons_self
    have rest := compareEntries_ok keys values (fun entry member => isLeft entry
      (List.mem_cons_of_mem _ member)) fun entry member => isRight entry (List.mem_cons_of_mem _ member)
    rw [Value.compareEntries, keys.fine _ _ first.1 second.1, rest, List.compareLex_cons_cons]
    unfold entryOrder nullsAfter apart
    cases compared leftKey rightKey with
    | lt | gt => rfl
    | eq =>
      cases isNull : leftValue.isNull <;> cases isNull' : rightValue.isNull
      · rw [values.fine _ _ (first.2 isNull) (second.2 isNull')]
        cases compared leftValue rightValue <;> rfl
      all_goals rfl

theorem preorder_entries (keys : Orders key) (values : Orders value) :
    PreorderOn (ComparableEntry key value) entryOrder := by
  have nulls : PreorderOn (fun v : Value => v.isNull = false → Comparable value v) nullsAfter :=
    .apart Value.isNull nofun (values.preorder.mono fun v here => here.1 here.2)
  exact .then ((keys.preorder.comap Prod.fst).mono fun entry here => here.1)
    ((nulls.comap Prod.snd).mono fun entry here => here.2)

end

theorem orders : ∀ {dtype : DataType}, ordered dtype = true → Orders dtype
  | .null, _ => by
    refine .image (fun _ : Unit => .null) (compareOn fun _ : Unit => 0) (fun v isV => ?_)
      fun _ _ => rfl
    cases v <;> first | exact ⟨(), rfl⟩ | exact Bool.noConfusion isV.1
  | .int64, _ => by
    refine .image .int64 (compareOn Int64.toInt) (fun v isV => ?_) fun _ _ => rfl
    cases v <;> first | exact ⟨_, rfl⟩ | exact Bool.noConfusion isV.1
  | .timestamp, _ => by
    refine .image .timestamp (compareOn Int64.toInt) (fun v isV => ?_) fun _ _ => rfl
    cases v <;> first | exact ⟨_, rfl⟩ | exact Bool.noConfusion isV.1
  | .date, _ => by
    refine .image .date (compareOn Int32.toInt) (fun v isV => ?_) fun _ _ => rfl
    cases v <;> first | exact ⟨_, rfl⟩ | exact Bool.noConfusion isV.1
  | .bool, _ => by
    refine .image .bool Ord.compare (fun v isV => ?_) fun _ _ => rfl
    cases v <;> first | exact ⟨_, rfl⟩ | exact Bool.noConfusion isV.1
  | .utf8, _ => by
    refine .image .utf8 (compareOn Rust.utf8) (fun v isV => ?_) fun _ _ => rfl
    cases v <;> first | exact ⟨_, rfl⟩ | exact Bool.noConfusion isV.1
  | .float64, _ => by
    refine .image (fun x : Number => .float64 x.1) (compareOn fun x : Number => x.1.key)
      (fun v isV => ?_) compare_numbers
    cases v with
    | float64 x => exact ⟨⟨x, isV.2⟩, rfl⟩
    | _ => exact Bool.noConfusion isV.1
  | .map key value nullable, types => by
    obtain ⟨keyType, valueType⟩ := Bool.and_eq_true_iff.mp types
    have keys := orders keyType
    have values := orders valueType
    have entries : ∀ v, Comparable (.map key value nullable) v → ∃ items : List (Value × Value),
        v = .map items ∧ ∀ entry ∈ items, ComparableEntry key value entry := by
      intro v isV
      cases v with
      | map items => exact ⟨items, rfl, comparable_entries isV.1 isV.2⟩
      | _ => exact Bool.noConfusion isV.1
    have fine : ∀ items items' : List (Value × Value),
        (∀ entry ∈ items, ComparableEntry key value entry) →
        (∀ entry ∈ items', ComparableEntry key value entry) →
        (Value.map items).compare (.map items') = .ok (List.compareLex entryOrder items items') :=
      fun items items' isLeft isRight => compareEntries_ok keys values isLeft isRight
    have order := (preorder_entries keys values).list
    refine ⟨fun a b isA isB => ?_, .of (fun a b isA isB => ?_) fun a b c isA isB isC => ?_⟩
    · obtain ⟨left, rfl, isLeft⟩ := entries a isA
      obtain ⟨right, rfl, isRight⟩ := entries b isB
      rw [fine left right isLeft isRight, compared_of (fine left right isLeft isRight)]
    · obtain ⟨left, rfl, isLeft⟩ := entries a isA
      obtain ⟨right, rfl, isRight⟩ := entries b isB
      rw [compared_of (fine _ _ isLeft isRight), compared_of (fine _ _ isRight isLeft)]
      exact order.eq_swap isLeft isRight
    · obtain ⟨left, rfl, isLeft⟩ := entries a isA
      obtain ⟨mid, rfl, isMid⟩ := entries b isB
      obtain ⟨right, rfl, isRight⟩ := entries c isC
      rw [compared_of (fine _ _ isLeft isMid), compared_of (fine _ _ isMid isRight),
        compared_of (fine _ _ isLeft isRight)]
      exact order.isLE_trans isLeft isMid isRight

/-! ### Sort keys -/

/-- A value of a sort key's column: NULL or of its type, and no NaN in a map. -/
def Sortable (dtype : DataType) (v : Value) : Prop :=
  v.hasType dtype true = true ∧ (v.isMap && v.nestedNan) = false

def isNanNumber : Value → Bool
  | .float64 x => x.isNan
  | _ => false

theorem float_of_float {dtype : DataType} {x : F64} {v : Value} (isFloat : Sortable dtype (.float64 x))
    (isV : Sortable dtype v) : v = .null ∨ ∃ y, v = .float64 y := by
  have type : dtype = .float64 := by
    cases dtype <;> first | rfl | exact Bool.noConfusion isFloat.1
  subst type
  cases v <;> first | exact .inl rfl | exact .inr ⟨_, rfl⟩ | exact Bool.noConfusion isV.1

theorem compareKey_eq {dtype : DataType} (key : SortKey) {a b : Value} (isA : Sortable dtype a)
    (isB : Sortable dtype b) : compareKey a b key =
      apart Value.isNull (if key.nullsFirst then .lt else .gt) (apart isNanNumber .gt fun a b =>
        if key.descending then (compared a b).swap else compared a b) a b := by
  cases a with
  | float64 x =>
    rcases float_of_float isA isB with rfl | ⟨y, rfl⟩
    · cases isFirst : key.nullsFirst <;> simp [compareKey, apart, Value.isNull, isFirst]
    · cases isX : x.isNan <;> cases isY : y.isNan <;>
        simp [compareKey, apart, Value.isNull, isNanNumber, isX, isY]
  | null =>
    cases isFirst : key.nullsFirst <;> cases b <;>
      simp [compareKey, apart, Value.isNull, isFirst]
  | _ =>
    cases b with
    | float64 y =>
      rcases float_of_float isB isA with impossible | ⟨x, impossible⟩ <;> cases impossible
    | null => cases isFirst : key.nullsFirst <;> simp [compareKey, apart, Value.isNull, isFirst]
    | _ => rfl

theorem comparable_of_sortable {dtype : DataType} (type : ordered dtype = true) {v : Value}
    (isV : Sortable dtype v) (present : v.isNull = false) (number : isNanNumber v = false) :
    Comparable dtype v := by
  cases v with
  | null => cases present
  | float64 x =>
    refine ⟨?_, number⟩
    cases dtype <;> exact isV.1
  | map entries =>
    refine ⟨?_, isV.2⟩
    cases dtype <;> exact isV.1
  | list items | struct items => cases dtype <;> first | exact Bool.noConfusion isV.1 | exact Bool.noConfusion type
  | _ =>
    refine ⟨?_, rfl⟩
    cases dtype <;> exact isV.1

theorem preorder_compareKey {dtype : DataType} (type : ordered dtype = true) (key : SortKey) :
    PreorderOn (Sortable dtype) fun a b => compareKey a b key := by
  have values := (orders type).preorder
  have directed : PreorderOn (Comparable dtype) fun a b =>
      if key.descending then (compared a b).swap else compared a b := by
    cases key.descending
    · exact values
    · exact values.swap
  have numbers : PreorderOn (fun v => Sortable dtype v ∧ v.isNull = false)
      (apart isNanNumber .gt fun a b =>
        if key.descending then (compared a b).swap else compared a b) :=
    .apart isNanNumber nofun (directed.mono fun v here =>
      comparable_of_sortable type here.1.1 here.1.2 here.2)
  refine .congr (.apart Value.isNull ?_ numbers) fun a b isA isB => compareKey_eq key isA isB
  cases key.nullsFirst <;> exact nofun

theorem compare_fine {dtype : DataType} (type : ordered dtype = true) {a b : Value}
    (isA : Sortable dtype a) (isB : Sortable dtype b) (present : a.isNull = false)
    (present' : b.isNull = false) (numbers : isNanNumber a = false) (numbers' : isNanNumber b = false) :
    ∃ order, a.compare b = .ok order :=
  ⟨_, (orders type).fine a b (comparable_of_sortable type isA present numbers)
    (comparable_of_sortable type isB present' numbers')⟩

end AsapPlanner.Sorting
