import AsapPlanner.Coverage.SelectionBox
import Mathlib.Logic.Relation
import Mathlib.Data.List.Perm.Basic

/-!
The union of selection boxes: boxes that differ in one dimension are fused when one ends where the
other starts. What the fused boxes select, and when that is exactly what the given ones select.
-/

namespace AsapPlanner.Coverage
open Rust Ordered Ir

/-! ### Fusing two boxes -/

def meets {α : Type} (cmp : α → α → Option Ordering) (upper lower : Bound α) : Bool :=
  match upper, lower with
  | .included u, .excluded l | .excluded u, .included l => cmp u l == some .eq
  | _, _ => false

/-- The union of two intervals when one ends exactly where the other starts. -/
def touching {α : Type} (cmp : α → α → Option Ordering) (al au bl bu : Bound α) :
    Option (Bound α × Bound α) :=
  if meets cmp au bl then some (al, bu)
  else if meets cmp bu al then some (bl, au)
  else none

/-- `BTreeMap`'s `==`. -/
def columnsSame (a b : Columns) : Bool := same a.toList b.toList

/-- The columns of `a` whose constraint is not `==` to the one `b` has there. -/
def differing (a b : SelectionBox) : List (ColumnIdentity × Constraint) :=
  a.columns.toList.filter fun (column, constraint) =>
    !(match b.columns[column]? with
      | some other => same other constraint
      | none => false)

def joinConstraints : Constraint → Constraint → Option Constraint
  | .isIn values, .isIn more => some (.isIn (dedup (values ++ more)))
  | .interval al au, .interval bl bu =>
    (touching compareValues al au bl bu).map fun (lower, upper) => .interval lower upper
  | _, _ => none

def join (a b : SelectionBox) : Option SelectionBox :=
  if columnsSame a.columns b.columns && a.relativeTime == b.relativeTime then some a
  else if columnsSame a.columns b.columns then
    match a.relativeTime, b.relativeTime with
    | some (al, au), some (bl, bu) =>
      (touching compareOffsets al au bl bu).map fun time => { a with relativeTime := some time }
    | _, _ => none
  else if a.relativeTime != b.relativeTime || a.columns.size != b.columns.size then none
  else match differing a b with
    | [(column, constraint)] => do
      let other ← b.columns[column]?
      let joined ← joinConstraints constraint other
      some { a with columns := a.columns.insert column joined }
    | _ => none

/-! ### The general union -/

/-- The first box of a list that fuses with `a`, the fused box, and the list without it. -/
def takeJoin (a : SelectionBox) :
    List SelectionBox → Option (SelectionBox × SelectionBox × List SelectionBox)
  | [] => none
  | b :: rest =>
    match join a b with
    | some joined => some (b, joined, rest)
    | none => (takeJoin a rest).map fun (found, joined, rest) => (found, joined, b :: rest)

/-- The union loop at position `done.length` of `done ++ rest`. -/
structure Sweep where
  done : List SelectionBox
  rest : List SelectionBox

namespace Sweep

/-- One turn: fuse the box here with a later one and start over, or move on. -/
def step (sweep : Sweep) : Option Sweep :=
  match sweep.rest with
  | [] => none
  | a :: later =>
    match takeJoin a later with
    | some (_, joined, kept) => some ⟨[], sweep.done ++ joined :: kept⟩
    | none => some ⟨sweep.done ++ [a], later⟩

def measure (sweep : Sweep) : Nat :=
  let boxes := sweep.done.length + sweep.rest.length
  boxes * boxes + sweep.rest.length

theorem takeJoin_length {a found joined : SelectionBox} {later kept : List SelectionBox}
    (fused : takeJoin a later = some (found, joined, kept)) : later.length = kept.length + 1 := by
  induction later generalizing kept with
  | nil => cases fused
  | cons b rest ih =>
    unfold takeJoin at fused
    split at fused
    · cases fused
      rfl
    · obtain ⟨⟨found', joined', kept'⟩, inRest, equal⟩ := Option.map_eq_some_iff.mp fused
      cases equal
      rw [List.length_cons, List.length_cons, ih inRest]

theorem step_decreases {sweep next : Sweep} (moved : sweep.step = some next) :
    next.measure < sweep.measure := by
  obtain ⟨done, rest⟩ := sweep
  unfold step at moved
  split at moved
  · cases moved
  · rename_i a later shape
    simp only at shape
    subst shape
    split at moved
    · rename_i found joined kept fused
      cases moved
      have shorter := takeJoin_length fused
      simp only [measure, List.length_append, List.length_cons, List.length_nil, shorter]
      have grown : done.length + (kept.length + 1 + 1) = done.length + (kept.length + 1) + 1 := by
        omega
      rw [grown, Nat.zero_add]
      generalize done.length + (kept.length + 1) = k
      have square : (k + 1) * (k + 1) = k * k + 2 * k + 1 := by
        rw [Nat.succ_mul, Nat.mul_succ]
        omega
      omega
    · cases moved
      simp only [measure, List.length_append, List.length_cons, List.length_nil]
      have boxes : done.length + (0 + 1) + later.length = done.length + (later.length + 1) := by
        omega
      rw [boxes]
      omega

def run (sweep : Sweep) : List SelectionBox :=
  match _moved : sweep.step with
  | some next => run next
  | none => sweep.done
termination_by sweep.measure
decreasing_by exact step_decreases ‹_›

end Sweep

def unionGeneral (boxes : List SelectionBox) : List SelectionBox := Sweep.run ⟨[], boxes⟩

/-! ### The union of ordered windows -/

def nonEmptyWindow : Window → Bool
  | (.unbounded, _) | (_, .unbounded) => true
  | (.included lower, .included upper) => lower ≤ upper
  | (.included lower, .excluded upper) | (.excluded lower, .included upper)
  | (.excluded lower, .excluded upper) => lower < upper

def SelectionBox.window (box : SelectionBox) : Window :=
  box.relativeTime.getD (.unbounded, .unbounded)

/-- One box of the sorted list joins the last fused box or is kept by itself. -/
def mergeNext (merged : List (Nat × SelectionBox)) (entry : SelectionBox × Nat) :
    List (Nat × SelectionBox) :=
  match merged with
  | [] => [(entry.2, entry.1)]
  | (firstIndex, previous) :: older =>
    match join previous entry.1 with
    | some joined => (min firstIndex entry.2, joined) :: older
    | none => (entry.2, entry.1) :: merged

def unionOrderedTimeBoxes (boxes : List SelectionBox) : Option (List SelectionBox) :=
  match boxes with
  | [] => none
  | first :: _ =>
    if !boxes.all fun box => columnsSame box.columns first.columns && box.relativeTime.isSome then
      none
    else if !boxes.all fun box => nonEmptyWindow box.window then none
    else
      let order := boxes.zipIdx.mergeSort fun a b => startLe a.1.window b.1.window
      if !inOrder (order.map (·.1.window)) then none
      else
        let merged := (order.foldl mergeNext []).reverse
        some ((merged.mergeSort fun a b => a.1 ≤ b.1).map (·.2))

def union (boxes : List SelectionBox) : List SelectionBox :=
  (unionOrderedTimeBoxes boxes).getD (unionGeneral boxes)

/-! ### What a fused box selects -/

/-- The lower bound does not lie beyond the upper one. -/
def Constraint.Forward : Constraint → Prop
  | .interval lower upper => Bound.Proper compareValues lower upper
  | _ => True

instance (c : Constraint) : Decidable c.Forward :=
  c.casesOn (motive := fun c => Decidable c.Forward) (fun _ => .isTrue trivial) (fun _ => .isTrue trivial)
    fun lower upper => (inferInstance : Decidable (Bound.Proper compareValues lower upper))

def Window.Forward (window : Window) : Prop := Bound.Proper compareOffsets window.1 window.2

instance (window : Window) : Decidable (Window.Forward window) := by
  unfold Window.Forward
  infer_instance

/-- Neither interval that fusing `a` and `b` would replace is reversed. -/
def FusesForward (a b : SelectionBox) : Prop :=
  if columnsSame a.columns b.columns then
    a.relativeTime ≠ b.relativeTime →
      (∀ window ∈ a.relativeTime, Window.Forward window) ∧
        (∀ window ∈ b.relativeTime, Window.Forward window)
  else
    ∀ entry ∈ differing a b, entry.2.Forward ∧ ∀ other ∈ b.columns[entry.1]?, other.Forward

def Constraint.Comparable : Constraint → ScalarValue → Prop
  | .interval lower upper, v =>
    lower.Comparable compareValues v ∧ upper.Comparable compareValues v
  | _, _ => True

instance (c : Constraint) (v : ScalarValue) : Decidable (c.Comparable v) :=
  c.casesOn (motive := fun c => Decidable (c.Comparable v)) (fun _ => .isTrue trivial) (fun _ => .isTrue trivial)
    fun lower upper =>
      (inferInstance : Decidable (lower.Comparable compareValues v ∧ upper.Comparable compareValues v))

/-- Every value of the row can be compared with the bounds the box puts on its column. -/
def SelectionBox.Comparable (box : SelectionBox) (row : Row) : Prop :=
  ∀ entry ∈ box.columns.toList, entry.2.Comparable (row.value entry.1)

instance (box : SelectionBox) (row : Row) : Decidable (box.Comparable row) := by
  unfold SelectionBox.Comparable
  infer_instance

section Touching
variable {α : Type} {cmp : α → α → Option Ordering} {al au bl bu lower upper : Bound α} {x : α}

theorem touching_cases (fused : touching cmp al au bl bu = some (lower, upper)) :
    (meets cmp au bl = true ∧ lower = al ∧ upper = bu) ∨
      (meets cmp bu al = true ∧ lower = bl ∧ upper = au) := by
  unfold touching at fused
  split at fused
  · cases fused
    exact .inl ⟨‹_›, rfl, rfl⟩
  · split at fused
    · cases fused
      exact .inr ⟨‹_›, rfl, rfl⟩
    · cases fused

variable [LawfulCompare cmp]

theorem meets_cuts {upper lower : Bound α} (meet : meets cmp upper lower = true) :
    ∃ c ∈ upper.upperCut, ∃ d ∈ lower.lowerCut, c.Le cmp d ∧ d.Le cmp c ∧
      ∀ x, upper.Comparable cmp x → (cmp x c.value).isSome := by
  cases upper <;> cases lower <;> try exact absurd meet Bool.false_ne_true
  case included.excluded u l =>
    have level : Level cmp u l := beq_iff_eq.mp meet
    exact ⟨_, rfl, _, rfl, .inr ⟨level, id⟩, .inr ⟨level_symm level, id⟩, fun _ => id⟩
  case excluded.included u l =>
    have level : Level cmp u l := beq_iff_eq.mp meet
    exact ⟨_, rfl, _, rfl, .inr ⟨level, id⟩, .inr ⟨level_symm level, id⟩, fun _ => id⟩

theorem touching_forward (fused : touching cmp al au bl bu = some (lower, upper))
    (properA : Bound.Proper cmp al au) (properB : Bound.Proper cmp bl bu) :
    Bound.Proper cmp lower upper := by
  rcases touching_cases fused with ⟨meet, rfl, rfl⟩ | ⟨meet, rfl, rfl⟩
  · obtain ⟨c, upperAt, d, lowerAt, le, _, _⟩ := meets_cuts meet
    exact Bound.proper_of_meet upperAt lowerAt le properA properB
  · obtain ⟨c, upperAt, d, lowerAt, le, _, _⟩ := meets_cuts meet
    exact Bound.proper_of_meet upperAt lowerAt le properB properA

theorem touching_exact (fused : touching cmp al au bl bu = some (lower, upper))
    (properA : Bound.Proper cmp al au) (properB : Bound.Proper cmp bl bu)
    (comparableA : au.Comparable cmp x) (comparableB : bu.Comparable cmp x) :
    (lower.AtLeast cmp x ∧ upper.AtMost cmp x) ↔
      (al.AtLeast cmp x ∧ au.AtMost cmp x) ∨ (bl.AtLeast cmp x ∧ bu.AtMost cmp x) := by
  rcases touching_cases fused with ⟨meet, rfl, rfl⟩ | ⟨meet, rfl, rfl⟩
  · obtain ⟨c, upperAt, d, lowerAt, le, ge, comparable⟩ := meets_cuts meet
    exact Bound.between_iff_of_meet upperAt lowerAt le ge properA properB (comparable x comparableA)
  · obtain ⟨c, upperAt, d, lowerAt, le, ge, comparable⟩ := meets_cuts meet
    rw [or_comm]
    exact Bound.between_iff_of_meet upperAt lowerAt le ge properB properA (comparable x comparableB)

end Touching

theorem joinConstraints_exact {a b c : Constraint} (fused : joinConstraints a b = some c)
    (forwardA : a.Forward) (forwardB : b.Forward) {v : ScalarValue} (comparableA : a.Comparable v)
    (comparableB : b.Comparable v) : c.Holds v ↔ a.Holds v ∨ b.Holds v := by
  cases a <;> cases b <;> try cases fused
  case isIn.isIn.refl values more =>
    rw [Constraint.isIn_dedup]
    simp [Constraint.Holds, or_and_right, exists_or]
  case interval.interval al au bl bu =>
    obtain ⟨⟨lower, upper⟩, touch, rfl⟩ := Option.map_eq_some_iff.mp fused
    exact touching_exact touch forwardA forwardB comparableA.2 comparableB.2

theorem columnsSame_lookup {a b : Columns} (equal : columnsSame a b = true)
    {column : ColumnIdentity} {constraint : Constraint}
    (present : (column, constraint) ∈ a.toList) :
    ∃ other, (column, other) ∈ b.toList ∧ same constraint other = true := by
  obtain ⟨⟨column', other⟩, inB, alike⟩ := same_mem equal present
  rw [same_pair, Bool.and_eq_true] at alike
  obtain rfl : column = column' := identity_same alike.1
  exact ⟨other, inB, alike.2⟩

theorem columnsSame_hold {a b : Columns} (equal : columnsSame a b = true) (row : Row) :
    Columns.Hold a row ↔ Columns.Hold b row := by
  constructor
  · rintro held ⟨column, constraint⟩ present
    obtain ⟨other, inA, alike⟩ := columnsSame_lookup (same_symm equal) present
    exact (Constraint.holds_same alike _).mpr (held _ inA)
  · rintro held ⟨column, constraint⟩ present
    obtain ⟨other, inB, alike⟩ := columnsSame_lookup equal present
    exact (Constraint.holds_same alike _).mpr (held _ inB)

/-- The row satisfies every constraint but the one on `column`. -/
def HoldElsewhere (columns : Columns) (column : ColumnIdentity) (row : Row) : Prop :=
  ∀ entry ∈ columns.toList, entry.1 ≠ column → entry.2.Holds (row.value entry.1)

theorem hold_split {columns : Columns} {column : ColumnIdentity} {constraint : Constraint}
    (present : (column, constraint) ∈ columns.toList) (row : Row) :
    Columns.Hold columns row ↔
      HoldElsewhere columns column row ∧ constraint.Holds (row.value column) := by
  refine ⟨fun held => ⟨fun entry member _ => held entry member, held _ present⟩, ?_⟩
  rintro ⟨elsewhere, here⟩ ⟨key, other⟩ member
  by_cases equal : key = column
  · subst equal
    have found := (mem_columns.mp member).symm.trans (mem_columns.mp present)
    cases found
    exact here
  · exact elsewhere _ member equal

theorem hold_insert (columns : Columns) (column : ColumnIdentity) (joined : Constraint)
    (row : Row) : Columns.Hold (columns.insert column joined) row ↔
      HoldElsewhere columns column row ∧ joined.Holds (row.value column) := by
  have inserted : (column, joined) ∈ (columns.insert column joined).toList := by
    simp
  rw [hold_split inserted]
  refine and_congr_left' ⟨fun held entry member apart => ?_, fun held entry member apart => ?_⟩
  · refine held entry ?_ apart
    rw [mem_columns, Std.TreeMap.getElem?_insert]
    have distinct : compare column entry.1 ≠ .eq := fun equal =>
      apart (Std.LawfulEqOrd.eq_of_compare equal).symm
    rw [if_neg distinct]
    exact mem_columns.mp member
  · refine held entry ?_ apart
    have found := mem_columns.mp member
    have distinct : compare column entry.1 ≠ .eq := fun equal =>
      apart (Std.LawfulEqOrd.eq_of_compare equal).symm
    rw [Std.TreeMap.getElem?_insert, if_neg distinct] at found
    exact mem_columns.mpr found

theorem keys_of_size {a b : Columns} (size : a.size = b.size)
    (subset : ∀ column ∈ a.keys, column ∈ b.keys) : ∀ column ∈ b.keys, column ∈ a.keys := by
  have sub := List.subperm_of_subset Std.TreeMap.nodup_keys (fun column => subset column)
  have perm := sub.perm_of_length_le (by simp [size])
  exact fun column member => perm.mem_iff.mpr member

theorem mem_keys_of_mem {columns : Columns} {column : ColumnIdentity} {constraint : Constraint}
    (member : (column, constraint) ∈ columns.toList) : column ∈ columns.keys := by
  rw [← Std.TreeMap.map_fst_toList_eq_keys]
  exact List.mem_map_of_mem member

theorem holdElsewhere_of_differing {a b : SelectionBox} {column : ColumnIdentity}
    {constraint other : Constraint} (only : differing a b = [(column, constraint)])
    (size : a.columns.size = b.columns.size) (present : b.columns[column]? = some other)
    (row : Row) :
    HoldElsewhere a.columns column row ↔ HoldElsewhere b.columns column row := by
  have agree : ∀ entry ∈ a.columns.toList, entry.1 ≠ column →
      ∃ c, (entry.1, c) ∈ b.columns.toList ∧ same c entry.2 = true := by
    rintro ⟨key, c⟩ member apart
    have unlisted : (key, c) ∉ differing a b := by
      rw [only]
      intro listed
      exact apart (congrArg Prod.fst (List.mem_singleton.mp listed))
    cases found : b.columns[key]? with
    | none => exact absurd (List.mem_filter.mpr ⟨member, by simp [found]⟩) unlisted
    | some c' =>
      refine ⟨c', mem_columns.mpr found, ?_⟩
      by_contra unequal
      exact unlisted (List.mem_filter.mpr ⟨member, by simp [found, unequal]⟩)
  have shared : ∀ key ∈ b.columns.keys, key ∈ a.columns.keys := by
    refine keys_of_size size fun key member => ?_
    rw [← Std.TreeMap.map_fst_toList_eq_keys] at member
    obtain ⟨entry, inA, rfl⟩ := List.mem_map.mp member
    by_cases here : entry.1 = column
    · rw [here]
      exact mem_keys_of_mem (mem_columns.mpr present)
    · obtain ⟨c, inB, _⟩ := agree entry inA here
      exact mem_keys_of_mem inB
  constructor
  · rintro held ⟨key, c⟩ member apart
    have inA := shared key (mem_keys_of_mem member)
    rw [← Std.TreeMap.map_fst_toList_eq_keys] at inA
    obtain ⟨⟨key', c'⟩, memberA, equal⟩ := List.mem_map.mp inA
    simp only at equal
    subst equal
    obtain ⟨c'', inB, alike⟩ := agree _ memberA apart
    have found := (mem_columns.mp inB).symm.trans (mem_columns.mp member)
    cases found
    exact (Constraint.holds_same alike _).mpr (held _ memberA apart)
  · rintro held ⟨key, c⟩ member apart
    obtain ⟨c', inB, alike⟩ := agree _ member apart
    exact (Constraint.holds_same alike _).mp (held _ inB apart)

theorem mem_differing {a b : SelectionBox} {entry : ColumnIdentity × Constraint}
    (member : entry ∈ differing a b) : entry ∈ a.columns.toList :=
  (List.mem_filter.mp member).1

/-- What `join` fuses: two equal boxes, two windows over the same columns, or the constraints of
the one column in which the boxes differ. -/
theorem join_cases {a b c : SelectionBox} (fused : join a b = some c) :
    (columnsSame a.columns b.columns = true ∧ a.relativeTime = b.relativeTime ∧ c = a) ∨
    (columnsSame a.columns b.columns = true ∧ a.relativeTime ≠ b.relativeTime ∧
      ∃ al au bl bu lower upper, a.relativeTime = some (al, au) ∧ b.relativeTime = some (bl, bu) ∧
        touching compareOffsets al au bl bu = some (lower, upper) ∧
        c = { a with relativeTime := some (lower, upper) }) ∨
    (columnsSame a.columns b.columns ≠ true ∧ a.relativeTime = b.relativeTime ∧
      a.columns.size = b.columns.size ∧
      ∃ column constraint other joined, differing a b = [(column, constraint)] ∧
        b.columns[column]? = some other ∧ joinConstraints constraint other = some joined ∧
        c = { a with columns := a.columns.insert column joined }) := by
  unfold join at fused
  split at fused
  · rename_i equal
    obtain ⟨columns, times⟩ := Bool.and_eq_true_iff.mp equal
    cases fused
    exact .inl ⟨columns, beq_iff_eq.mp times, rfl⟩
  · rename_i unequal
    split at fused
    · rename_i columns
      have times : a.relativeTime ≠ b.relativeTime := by
        intro equal
        simp [columns, equal] at unequal
      split at fused
      · rename_i al au bl bu windowA windowB
        obtain ⟨⟨lower, upper⟩, touch, rfl⟩ := Option.map_eq_some_iff.mp fused
        exact .inr (.inl ⟨columns, times, al, au, bl, bu, lower, upper, windowA, windowB, touch, rfl⟩)
      · cases fused
    · rename_i columns
      split at fused
      · cases fused
      · rename_i shapes
        simp only [Bool.or_eq_true, bne_iff_ne, ne_eq, not_or, not_not] at shapes
        split at fused
        · rename_i column constraint only
          obtain ⟨other, present, rest⟩ := Option.bind_eq_some_iff.mp fused
          obtain ⟨joined, fusedHere, result⟩ := Option.bind_eq_some_iff.mp rest
          cases result
          exact .inr (.inr ⟨columns, shapes.1, shapes.2, column, constraint, other, joined, only,
            present, fusedHere, rfl⟩)
        · cases fused

theorem offset_comparable (bound : Bound Int) (offset : Int) :
    bound.Comparable compareOffsets offset := by
  cases bound <;> simp [Bound.Comparable, compareOffsets]

theorem join_exact {a b c : SelectionBox} (fused : join a b = some c) (forward : FusesForward a b)
    {row : Row} (comparableA : a.Comparable row) (comparableB : b.Comparable row) :
    c.Holds row ↔ a.Holds row ∨ b.Holds row := by
  unfold FusesForward at forward
  rcases join_cases fused with ⟨columns, times, rfl⟩ |
    ⟨columns, times, al, au, bl, bu, lower, upper, windowA, windowB, touch, rfl⟩ |
    ⟨columns, times, size, column, constraint, other, joined, only, present, fusedHere, rfl⟩
  · have alike : c.Holds row ↔ b.Holds row := by
      unfold SelectionBox.Holds SelectionBox.CoversTime
      rw [columnsSame_hold columns, times]
    rw [← alike, or_self]
  · rw [if_pos columns] at forward
    obtain ⟨forwardA, forwardB⟩ := forward times
    have window := touching_exact touch (forwardA _ windowA) (forwardB _ windowB)
      (offset_comparable au row.offset) (offset_comparable bu row.offset)
    simp only [SelectionBox.Holds, SelectionBox.CoversTime, windowA, windowB,
      Option.mem_some_iff, forall_eq', Window.Holds, window, columnsSame_hold columns]
    exact and_or_left
  · rw [if_neg columns] at forward
    have listed : (column, constraint) ∈ differing a b := by simp [only]
    have inA := mem_differing listed
    have inB := mem_columns.mpr present
    obtain ⟨forwardA, forwardB⟩ := forward _ listed
    have here := joinConstraints_exact fusedHere forwardA (forwardB _ present)
      (comparableA _ inA) (comparableB _ inB)
    simp only [SelectionBox.Holds, SelectionBox.CoversTime, times, hold_insert,
      hold_split inA, hold_split inB, here, holdElsewhere_of_differing only size present]
    rw [and_or_left, or_and_right]

theorem touching_comparable {al au bl bu lower upper : Bound ScalarValue} {v : ScalarValue}
    (fused : touching compareValues al au bl bu = some (lower, upper))
    (inA : (Constraint.interval al au).Comparable v)
    (inB : (Constraint.interval bl bu).Comparable v) :
    (Constraint.interval lower upper).Comparable v := by
  rcases touching_cases fused with ⟨_, rfl, rfl⟩ | ⟨_, rfl, rfl⟩
  · exact ⟨inA.1, inB.2⟩
  · exact ⟨inB.1, inA.2⟩

theorem joinConstraints_comparable {a b c : Constraint} (fused : joinConstraints a b = some c)
    {v : ScalarValue} (inA : a.Comparable v) (inB : b.Comparable v) : c.Comparable v := by
  cases a <;> cases b <;> try cases fused
  case isIn.isIn.refl => trivial
  case interval.interval al au bl bu =>
    obtain ⟨⟨lower, upper⟩, touch, rfl⟩ := Option.map_eq_some_iff.mp fused
    exact touching_comparable touch inA inB

theorem mem_insert_columns {columns : Columns} {column : ColumnIdentity} {joined : Constraint}
    {entry : ColumnIdentity × Constraint} (member : entry ∈ (columns.insert column joined).toList) :
    entry = (column, joined) ∨ entry ∈ columns.toList := by
  have found := mem_columns.mp member
  rw [Std.TreeMap.getElem?_insert] at found
  split at found
  · rename_i equal
    cases found
    exact .inl (Prod.ext (Std.LawfulEqOrd.eq_of_compare equal).symm rfl)
  · exact .inr (mem_columns.mpr found)

theorem join_comparable {a b c : SelectionBox} (fused : join a b = some c) {row : Row}
    (comparableA : a.Comparable row) (comparableB : b.Comparable row) : c.Comparable row := by
  rcases join_cases fused with ⟨_, _, rfl⟩ |
    ⟨_, _, al, au, bl, bu, lower, upper, _, _, _, rfl⟩ |
    ⟨_, _, _, column, constraint, other, joined, only, present, fusedHere, rfl⟩
  · exact comparableA
  · exact comparableA
  · intro entry member
    have listed : (column, constraint) ∈ differing a b := by simp [only]
    rcases mem_insert_columns member with rfl | old
    · exact joinConstraints_comparable fusedHere (comparableA _ (mem_differing listed))
        (comparableB _ (mem_columns.mpr present))
    · exact comparableA entry old

/-! ### What the general union selects -/

/-- The row lies in one of the boxes. -/
def Covers (boxes : List SelectionBox) (row : Row) : Prop := ∃ box ∈ boxes, box.Holds row

instance (boxes : List SelectionBox) (row : Row) : Decidable (Covers boxes row) := by
  unfold Covers
  infer_instance

theorem covers_cons {box : SelectionBox} {others : List SelectionBox} {row : Row} :
    Covers (box :: others) row ↔ box.Holds row ∨ Covers others row := by
  simp [Covers]

theorem takeJoin_spec {a found joined : SelectionBox} {later kept : List SelectionBox}
    (fused : takeJoin a later = some (found, joined, kept)) :
    join a found = some joined ∧ List.Perm later (found :: kept) := by
  induction later generalizing kept with
  | nil => cases fused
  | cons b rest ih =>
    unfold takeJoin at fused
    split at fused
    · rename_i joinedHere
      cases fused
      exact ⟨joinedHere, .refl _⟩
    · obtain ⟨⟨found', joined', kept'⟩, inRest, equal⟩ := Option.map_eq_some_iff.mp fused
      cases equal
      obtain ⟨joinedLater, perm⟩ := ih inRest
      exact ⟨joinedLater, (perm.cons b).trans (.swap found b kept')⟩

namespace Sweep

def boxes (sweep : Sweep) : List SelectionBox := sweep.done ++ sweep.rest

/-- If this turn fuses two boxes, the intervals it fuses run forward. -/
def FusesForward (sweep : Sweep) : Prop :=
  match sweep.rest with
  | [] => True
  | a :: later => ∀ fused ∈ takeJoin a later, Coverage.FusesForward a fused.1

theorem step_cases {sweep next : Sweep} (moved : sweep.step = some next) :
    next.boxes = sweep.boxes ∨
      ∃ a b joined others, join a b = some joined ∧ List.Perm sweep.boxes (a :: b :: others) ∧
        List.Perm next.boxes (joined :: others) ∧ (sweep.FusesForward → Coverage.FusesForward a b) := by
  obtain ⟨done, rest⟩ := sweep
  unfold step at moved
  split at moved
  · cases moved
  · rename_i a later shape
    simp only at shape
    subst shape
    split at moved
    · rename_i found joined kept fused
      cases moved
      obtain ⟨joinedTo, perm⟩ := takeJoin_spec fused
      refine .inr ⟨a, found, joined, done ++ kept, joinedTo, ?_, ?_, fun forward => ?_⟩
      · have here : List.Perm (done ++ a :: later) (a :: (done ++ later)) := List.perm_middle
        refine here.trans (List.Perm.cons a ?_)
        exact (List.Perm.append_left done perm).trans List.perm_middle
      · exact List.perm_middle
      · exact forward (found, joined, kept) fused
    · cases moved
      exact .inl (by simp [boxes])

/-- No reversed interval is fused on the way to the end of the sweep. -/
def RunsForward (sweep : Sweep) : Prop :=
  ∀ reached, Relation.ReflTransGen (fun now next => step now = some next) sweep reached →
    reached.FusesForward

theorem runsForward_step {sweep next : Sweep} (moved : sweep.step = some next)
    (forward : sweep.RunsForward) : next.RunsForward :=
  fun reached path => forward reached (.head moved path)

theorem step_covers {sweep next : Sweep} (moved : sweep.step = some next)
    (forward : sweep.FusesForward) {row : Row}
    (comparable : ∀ box ∈ sweep.boxes, box.Comparable row) :
    (Covers next.boxes row ↔ Covers sweep.boxes row) ∧
      ∀ box ∈ next.boxes, box.Comparable row := by
  rcases step_cases moved with same | ⟨a, b, joined, others, fused, before, after, forwards⟩
  · rw [same]
    exact ⟨.rfl, comparable⟩
  · have comparableA := comparable a (before.mem_iff.mpr (by simp))
    have comparableB := comparable b (before.mem_iff.mpr (by simp))
    have perm : ∀ {xs ys : List SelectionBox}, List.Perm xs ys → (Covers xs row ↔ Covers ys row) := by
      intro xs ys same
      simp only [Covers, same.mem_iff]
    refine ⟨?_, fun box member => ?_⟩
    · rw [perm before, perm after, covers_cons, covers_cons, covers_cons,
        join_exact fused (forwards forward) comparableA comparableB, or_assoc]
    · rcases List.mem_cons.mp (after.mem_iff.mp member) with rfl | other
      · exact join_comparable fused comparableA comparableB
      · exact comparable box (before.mem_iff.mpr (by simp [other]))

theorem run_covers {sweep : Sweep} (forward : sweep.RunsForward) {row : Row}
    (comparable : ∀ box ∈ sweep.boxes, box.Comparable row) :
    Covers sweep.run row ↔ Covers sweep.boxes row := by
  induction sweep using run.induct with
  | case1 sweep next moved ih =>
    rw [run, moved]
    obtain ⟨kept, comparableNext⟩ := step_covers moved (forward sweep .refl) comparable
    exact (ih (runsForward_step moved forward) comparableNext).trans kept
  | case2 sweep finished =>
    rw [run, finished]
    obtain ⟨done, rest⟩ := sweep
    cases rest with
    | nil => simp [boxes]
    | cons a later =>
      simp only [step] at finished
      cases fused : takeJoin a later <;> simp [fused] at finished

end Sweep

/-! ### Boxes without a reversed interval -/

/-- No interval of the box is reversed. -/
def SelectionBox.Forward (box : SelectionBox) : Prop :=
  (∀ entry ∈ box.columns.toList, entry.2.Forward) ∧
    ∀ window ∈ box.relativeTime, Window.Forward window

instance (box : SelectionBox) : Decidable box.Forward := by
  unfold SelectionBox.Forward
  infer_instance

theorem fusesForward_of_forward {a b : SelectionBox} (forwardA : a.Forward) (forwardB : b.Forward) :
    FusesForward a b := by
  unfold FusesForward
  split
  · exact fun _ => ⟨forwardA.2, forwardB.2⟩
  · intro entry member
    exact ⟨forwardA.1 entry (mem_differing member),
      fun other present => forwardB.1 _ (mem_columns.mpr present)⟩

theorem joinConstraints_forward {a b c : Constraint} (fused : joinConstraints a b = some c)
    (forwardA : a.Forward) (forwardB : b.Forward) : c.Forward := by
  cases a <;> cases b <;> try cases fused
  case isIn.isIn.refl => trivial
  case interval.interval al au bl bu =>
    obtain ⟨⟨lower, upper⟩, touch, rfl⟩ := Option.map_eq_some_iff.mp fused
    exact touching_forward touch forwardA forwardB

theorem join_forward {a b c : SelectionBox} (fused : join a b = some c) (forwardA : a.Forward)
    (forwardB : b.Forward) : c.Forward := by
  rcases join_cases fused with ⟨_, _, rfl⟩ |
    ⟨_, _, al, au, bl, bu, lower, upper, windowA, windowB, touch, rfl⟩ |
    ⟨_, _, _, column, constraint, other, joined, only, present, fusedHere, rfl⟩
  · exact forwardA
  · refine ⟨forwardA.1, fun window found => ?_⟩
    obtain rfl := Option.mem_some_iff.mp found
    exact touching_forward touch (forwardA.2 _ windowA) (forwardB.2 _ windowB)
  · refine ⟨fun entry member => ?_, forwardA.2⟩
    have listed : (column, constraint) ∈ differing a b := by simp [only]
    rcases mem_insert_columns member with rfl | old
    · exact joinConstraints_forward fusedHere (forwardA.1 _ (mem_differing listed))
        (forwardB.1 _ (mem_columns.mpr present))
    · exact forwardA.1 entry old

namespace Sweep

theorem step_forward {sweep next : Sweep} (moved : sweep.step = some next)
    (forward : ∀ box ∈ sweep.boxes, box.Forward) : ∀ box ∈ next.boxes, box.Forward := by
  rcases step_cases moved with same | ⟨a, b, joined, others, fused, before, after, _⟩
  · rw [same]
    exact forward
  · intro box member
    rcases List.mem_cons.mp (after.mem_iff.mp member) with rfl | other
    · exact join_forward fused (forward a (before.mem_iff.mpr (by simp)))
        (forward b (before.mem_iff.mpr (by simp)))
    · exact forward box (before.mem_iff.mpr (by simp [other]))

theorem runsForward_of_forward {sweep : Sweep} (forward : ∀ box ∈ sweep.boxes, box.Forward) :
    sweep.RunsForward := by
  intro reached path
  have kept : ∀ box ∈ reached.boxes, box.Forward := by
    induction path with
    | refl => exact forward
    | tail _ moved ih => exact step_forward moved ih
  obtain ⟨done, rest⟩ := reached
  cases rest with
  | nil => trivial
  | cons a later =>
    rintro ⟨found, joined, others⟩ fused
    obtain ⟨_, perm⟩ := takeJoin_spec fused
    exact fusesForward_of_forward (kept a (by simp [boxes]))
      (kept found (by simp [boxes, perm.mem_iff]))

end Sweep

/-! ### What the union of ordered windows selects -/

theorem nonEmptyWindow_forward {window : Window} (nonEmpty : nonEmptyWindow window = true) :
    Window.Forward window := by
  obtain ⟨lower, upper⟩ := window
  intro c first d last
  have order : ∀ {l u : Int}, l < u → Before compareOffsets l u := by
    intro l u less
    simp [Before, compareOffsets, Int.compare_eq_lt.mpr less]
  cases lower <;> cases first <;> cases upper <;> cases last
  case included.refl.included.refl l u =>
    rcases Int.lt_or_eq_of_le (of_decide_eq_true nonEmpty) with less | equal
    · exact .inl (order less)
    · exact .inr ⟨by simp [Level, compareOffsets, equal], fun side => by cases side⟩
  all_goals exact .inl (order (of_decide_eq_true nonEmpty))

/-- A box over the same columns as `first`, with a window that is not reversed. -/
def Aligned (first box : SelectionBox) : Prop :=
  columnsSame box.columns first.columns = true ∧
    ∃ window, box.relativeTime = some window ∧ Window.Forward window

theorem aligned_join {first a b c : SelectionBox} (fused : join a b = some c)
    (alignedA : Aligned first a) (alignedB : Aligned first b) :
    Aligned first c ∧ FusesForward a b := by
  obtain ⟨columnsA, windowA, foundA, forwardA⟩ := alignedA
  obtain ⟨columnsB, windowB, foundB, forwardB⟩ := alignedB
  have columns : columnsSame a.columns b.columns = true := same_trans columnsA (same_symm columnsB)
  have forward : FusesForward a b := by
    unfold FusesForward
    rw [if_pos columns, foundA, foundB]
    simp [forwardA, forwardB]
  refine ⟨?_, forward⟩
  rcases join_cases fused with ⟨_, _, rfl⟩ |
    ⟨_, _, al, au, bl, bu, lower, upper, foundA', foundB', touch, rfl⟩ | ⟨apart, _⟩
  · exact ⟨columnsA, windowA, foundA, forwardA⟩
  · cases foundA.symm.trans foundA'
    cases foundB.symm.trans foundB'
    exact ⟨columnsA, _, rfl, touching_forward touch forwardA forwardB⟩
  · exact absurd columns apart

theorem mergeNext_covers {first : SelectionBox} {merged : List (Nat × SelectionBox)}
    {entry : SelectionBox × Nat} {row : Row}
    (aligned : ∀ kept ∈ merged, Aligned first kept.2 ∧ kept.2.Comparable row)
    (alignedEntry : Aligned first entry.1) (comparable : entry.1.Comparable row) :
    (∀ kept ∈ mergeNext merged entry, Aligned first kept.2 ∧ kept.2.Comparable row) ∧
      (Covers ((mergeNext merged entry).map (·.2)) row ↔
        Covers (merged.map (·.2)) row ∨ entry.1.Holds row) := by
  unfold mergeNext
  split
  · simp [Covers, alignedEntry, comparable]
  · rename_i firstIndex previous older
    obtain ⟨alignedPrevious, comparablePrevious⟩ := aligned _ List.mem_cons_self
    split
    · rename_i joined fused
      obtain ⟨alignedJoined, forward⟩ := aligned_join fused alignedPrevious alignedEntry
      have exactly := join_exact fused forward comparablePrevious comparable
      refine ⟨fun kept member => ?_, ?_⟩
      · rcases List.mem_cons.mp member with rfl | old
        · exact ⟨alignedJoined, join_comparable fused comparablePrevious comparable⟩
        · exact aligned kept (List.mem_cons_of_mem _ old)
      · simp only [List.map_cons, covers_cons, exactly]
        exact or_right_comm
    · refine ⟨fun kept member => ?_, ?_⟩
      · rcases List.mem_cons.mp member with rfl | old
        · exact ⟨alignedEntry, comparable⟩
        · exact aligned kept old
      · simp only [List.map_cons, covers_cons]
        exact or_comm

theorem foldl_mergeNext_covers {first : SelectionBox} {row : Row}
    (entries : List (SelectionBox × Nat)) {merged : List (Nat × SelectionBox)}
    (aligned : ∀ kept ∈ merged, Aligned first kept.2 ∧ kept.2.Comparable row)
    (alignedEntries : ∀ entry ∈ entries, Aligned first entry.1 ∧ entry.1.Comparable row) :
    Covers ((entries.foldl mergeNext merged).map (·.2)) row ↔
      Covers (merged.map (·.2)) row ∨ Covers (entries.map (·.1)) row := by
  induction entries generalizing merged with
  | nil => simp [Covers]
  | cons entry rest ih =>
    obtain ⟨alignedEntry, comparable⟩ := alignedEntries entry List.mem_cons_self
    obtain ⟨alignedNext, covers⟩ := mergeNext_covers aligned alignedEntry comparable
    rw [List.foldl_cons, ih alignedNext fun other member =>
      alignedEntries other (List.mem_cons_of_mem _ member), covers, List.map_cons, covers_cons,
      or_assoc]

theorem covers_perm {boxes others : List SelectionBox} (perm : List.Perm boxes others) (row : Row) :
    Covers boxes row ↔ Covers others row := by
  simp only [Covers, perm.mem_iff]

theorem restored_perm (merged : List (Nat × SelectionBox)) :
    List.Perm ((merged.reverse.mergeSort (fun a b => a.1 ≤ b.1)).map (·.2)) (merged.map (·.2)) :=
  ((List.mergeSort_perm _ _).trans (List.reverse_perm _)).map _

theorem unionOrderedTimeBoxes_covers {boxes out : List SelectionBox}
    (found : unionOrderedTimeBoxes boxes = some out) {row : Row}
    (comparable : ∀ box ∈ boxes, box.Comparable row) : Covers out row ↔ Covers boxes row := by
  unfold unionOrderedTimeBoxes at found
  split at found
  · cases found
  · rename_i first rest
    split at found
    · cases found
    · rename_i columns
      split at found
      · cases found
      · rename_i windows
        simp only at found
        split at found
        · cases found
        · cases found
          simp only [Bool.not_eq_true', Bool.not_eq_false, List.all_eq_true, Bool.and_eq_true]
            at columns windows
          have order := List.mergeSort_perm (List.zipIdx (first :: rest))
            fun a b => startLe a.1.window b.1.window
          have listed := order.map (·.1)
          rw [List.zipIdx_map_fst] at listed
          have aligned : ∀ entry ∈ (List.zipIdx (first :: rest)).mergeSort
              (fun a b => startLe a.1.window b.1.window),
              Aligned first entry.1 ∧ entry.1.Comparable row := by
            intro entry member
            have inBoxes := listed.mem_iff.mp (List.mem_map_of_mem member)
            obtain ⟨window, present⟩ := Option.isSome_iff_exists.mp (columns _ inBoxes).2
            refine ⟨⟨(columns _ inBoxes).1, window, present, nonEmptyWindow_forward ?_⟩,
              comparable _ inBoxes⟩
            simpa [SelectionBox.window, present] using windows _ inBoxes
          rw [covers_perm (restored_perm _) row, foldl_mergeNext_covers _ (by simp) aligned,
            covers_perm listed]
          simp [Covers]

/-! ### What the union selects -/

/-- The union selects exactly what its boxes select, unless its general loop fuses a reversed
interval on the way. -/
theorem union_covers (boxes : List SelectionBox)
    (forward : unionOrderedTimeBoxes boxes = none → Sweep.RunsForward ⟨[], boxes⟩) (row : Row)
    (comparable : ∀ box ∈ boxes, box.Comparable row) :
    Covers (union boxes) row ↔ Covers boxes row := by
  unfold union
  cases ordered : unionOrderedTimeBoxes boxes with
  | some out => exact unionOrderedTimeBoxes_covers ordered comparable
  | none =>
    have general : unionGeneral boxes = Sweep.run ⟨[], boxes⟩ := rfl
    rw [Option.getD_none, general]
    exact Sweep.run_covers (forward ordered) comparable

/-- The box that constrains column `x` alone. -/
def boxOfX (constraint : Constraint) : SelectionBox :=
  ⟨Std.TreeMap.empty.insert ⟨none, "x"⟩ constraint, none⟩

/-- The boxes of `x <= 0` and of `x > 0 AND x <= 10` fuse, and 3 stays selected. -/
theorem union_covers_adjacent :
    let boxes := [boxOfX (.interval .unbounded (.included (.int64 0))),
      boxOfX (.interval (.excluded (.int64 0)) (.included (.int64 10)))]
    let row : Row := ⟨fun _ => .int64 3, 0⟩
    (union boxes).length = 1 ∧ (Covers (union boxes) row ↔ Covers boxes row) :=
  ⟨by decide +kernel,
    union_covers _ (fun _ => Sweep.runsForward_of_forward (by decide +kernel)) _ (by decide +kernel)⟩

/-- The boxes of `x > 5 AND x <= 0` and of `x > 0 AND x <= 10` fuse into that of
`x > 5 AND x <= 10`: 3 is lost. -/
theorem union_loses_row :
    let compare op (value : Int) : ScalarExpr Unit :=
      .compare (.column 0) op (.literal (.int64 value)) .sql
    let conjunction (left right : ScalarExpr Unit) : Option SelectionBox := do
      let (_, a) ← constraintOf left
      let (_, b) ← constraintOf right
      (a.intersect b).map boxOfX
    let row : Row := ⟨fun _ => .int64 3, 0⟩
    ∃ a b, conjunction (compare .gt 5) (compare .le 0) = some a ∧
      conjunction (compare .gt 0) (compare .le 10) = some b ∧
      (∀ box ∈ [a, b], box.Comparable row) ∧
      Covers [a, b] row ∧ ¬ Covers (union [a, b]) row :=
  ⟨boxOfX (.interval (.excluded (.int64 5)) (.included (.int64 0))),
    boxOfX (.interval (.excluded (.int64 0)) (.included (.int64 10))), rfl, rfl, by decide +kernel,
    by decide +kernel, by decide +kernel⟩

end AsapPlanner.Coverage
