import AsapPlanner.Coverage.Constraint
import Std.Data.TreeMap
import Std.Data.TreeMap.Lemmas

/-!
Selection boxes: per-column constraints and a window of time offsets, the rows in them, and the
checks that keep two boxes or a list of windows apart.
-/

namespace AsapPlanner.Coverage
open Rust Ordered Ir

/-- A column of the definition child's output, by `(table, name)`. -/
structure ColumnIdentity where
  table : Option String
  name : String
deriving DecidableEq, Repr

instance : Ord ColumnIdentity :=
  ⟨compareLex (compareOn ColumnIdentity.table) (compareOn ColumnIdentity.name)⟩

instance : Std.TransOrd ColumnIdentity :=
  inferInstanceAs
    (Std.TransCmp (compareLex (compareOn ColumnIdentity.table) (compareOn ColumnIdentity.name)))

instance : Std.LawfulEqOrd ColumnIdentity where
  eq_of_compare {a b} equal := by
    obtain ⟨table, name⟩ := a
    obtain ⟨table', name'⟩ := b
    have parts := compareLex_eq_eq.mp equal
    simpa [compareOn] using parts

instance : Derived ColumnIdentity := ⟨fun identity =>
  .record "ColumnIdentity" [("table", datum identity.table), ("name", datum identity.name)]⟩

theorem identity_same {a b : ColumnIdentity} (equal : same a b = true) : a = b := by
  obtain ⟨table, name⟩ := a
  obtain ⟨table', name'⟩ := b
  obtain ⟨tables, names⟩ : same table table' = true ∧ same name name' = true := by
    simpa [same, datum, Datum.record, Datum.eq, Datum.eqParts] using equal
  cases table <;> cases table' <;> simp_all [same_option]

abbrev Columns := Std.TreeMap ColumnIdentity Constraint

/-- A window of offsets from the evaluation time, in milliseconds. -/
abbrev Window := Bound Int × Bound Int

/-- A conjunction of column constraints and an optional time window. -/
structure SelectionBox where
  columns : Columns
  relativeTime : Option Window

def compareOffsets (a b : Int) : Option Ordering := some (compare a b)

instance : LawfulCompare compareOffsets :=
  inferInstanceAs (LawfulCompare fun a b : Int => some (compare a b))

namespace SelectionBox

/-- Whether the boxes' time windows do not overlap. -/
def disjointInTime (a b : SelectionBox) : Bool :=
  match a.relativeTime, b.relativeTime with
  | some (al, au), some (bl, bu) => intervalsDisjoint compareOffsets al au bl bu
  | _, _ => false

/-- Whether no row lies in both boxes. -/
def disjoint (a b : SelectionBox) : Bool :=
  a.disjointInTime b || a.columns.toList.any fun (column, constraint) =>
    match b.columns[column]? with
    | some other => constraint.disjoint other
    | none => false

end SelectionBox

/-! ### Rows -/

/-- A row as selections see it: a value in every column, and the offset of its time. -/
structure Row where
  value : ColumnIdentity → ScalarValue
  offset : Int

def Window.Holds (window : Window) (offset : Int) : Prop :=
  window.1.AtLeast compareOffsets offset ∧ window.2.AtMost compareOffsets offset

/-- The row satisfies every column constraint. -/
def Columns.Hold (columns : Columns) (row : Row) : Prop :=
  ∀ entry ∈ columns.toList, entry.2.Holds (row.value entry.1)

theorem mem_columns {columns : Columns} {column : ColumnIdentity} {constraint : Constraint} :
    (column, constraint) ∈ columns.toList ↔ columns[column]? = some constraint :=
  Std.TreeMap.mem_toList_iff_getElem?_eq_some

namespace SelectionBox

def CoversTime (box : SelectionBox) (offset : Int) : Prop :=
  ∀ window ∈ box.relativeTime, Window.Holds window offset

def Holds (box : SelectionBox) (row : Row) : Prop :=
  Columns.Hold box.columns row ∧ box.CoversTime row.offset

instance (box : SelectionBox) (offset : Int) : Decidable (box.CoversTime offset) := by
  unfold CoversTime Window.Holds
  infer_instance

instance (box : SelectionBox) (row : Row) : Decidable (box.Holds row) := by
  unfold Holds Columns.Hold
  infer_instance

theorem holds_at {box : SelectionBox} {row : Row} (held : box.Holds row) {column : ColumnIdentity}
    {constraint : Constraint} (present : box.columns[column]? = some constraint) :
    constraint.Holds (row.value column) :=
  held.1 (column, constraint) (mem_columns.mpr present)

theorem disjointInTime_sound {a b : SelectionBox} (apart : a.disjointInTime b = true)
    (offset : Int) : ¬ (a.CoversTime offset ∧ b.CoversTime offset) := by
  rintro ⟨inA, inB⟩
  unfold disjointInTime at apart
  split at apart
  · rename_i al au bl bu windowA windowB
    exact intervalsDisjoint_sound apart ⟨inA _ windowA, inB _ windowB⟩
  · exact Bool.false_ne_true apart

theorem disjoint_sound {a b : SelectionBox} (apart : a.disjoint b = true) (row : Row) :
    ¬ (a.Holds row ∧ b.Holds row) := by
  rintro ⟨inA, inB⟩
  rcases Bool.or_eq_true_iff.mp apart with time | columns
  · exact disjointInTime_sound time row.offset ⟨inA.2, inB.2⟩
  · obtain ⟨⟨column, constraint⟩, member, separate⟩ := List.any_eq_true.mp columns
    cases other : b.columns[column]? with
    | none => simp [other] at separate
    | some constraint' =>
      simp only [other] at separate
      exact Constraint.disjoint_sound separate _ ⟨inA.1 _ member, holds_at inB other⟩

end SelectionBox

/-! ### Windows in time order -/

/-- A lower bound's position: unbounded first, then by value, an included value before the
excluded one. -/
def start (window : Window) : Bool × Int × Bool :=
  match window.1 with
  | .unbounded => (false, 0, false)
  | .included at' => (true, at', false)
  | .excluded at' => (true, at', true)

def startOrder : Bool × Int × Bool → Bool × Int × Bool → Ordering :=
  compareLex (compareOn (·.1)) (compareLex (compareOn (·.2.1)) (compareOn (·.2.2)))

def startLe (a b : Window) : Bool := (startOrder (start a) (start b)).isLE

def inOrder : List Window → Bool
  | first :: second :: rest =>
    endsBefore compareOffsets first.2 second.1 && inOrder (second :: rest)
  | _ => true

def windowsInOrder (windows : List Window) : Bool := inOrder (windows.mergeSort startLe)

theorem startLe_cut {a b : Window} {c : Cut Int} (le : startLe a b = true)
    (first : a.1.lowerCut = some c) : ∃ d ∈ b.1.lowerCut, c.Le compareOffsets d := by
  obtain ⟨al, au⟩ := a
  obtain ⟨bl, bu⟩ := b
  cases al with
  | unbounded => cases first
  | included x | excluded x =>
    cases first
    cases bl with
    | unbounded => exact absurd le Bool.false_ne_true
    | included y | excluded y =>
      refine ⟨_, rfl, ?_⟩
      have sides : (compare true false).isLE = false := rfl
      simp only [startLe, startOrder, start, compareLex, compareOn] at le
      simp only [Cut.Le, Before, Level, compareOffsets]
      cases order : compare x y <;> simp_all

instance : Std.TransCmp startOrder := by
  unfold startOrder
  infer_instance

theorem startLe_trans (a b c : Window) (ab : startLe a b = true) (bc : startLe b c = true) :
    startLe a c = true :=
  Std.TransCmp.isLE_trans ab bc

theorem startLe_total (a b : Window) : (startLe a b || startLe b a) = true := by
  have swap : startOrder (start a) (start b) = (startOrder (start b) (start a)).swap :=
    Std.OrientedCmp.eq_swap
  unfold startLe
  rw [swap]
  cases startOrder (start b) (start a) <;> rfl

/-- In a list of windows in order of start, each ending before the next starts, every window ends
before every later one starts. -/
theorem inOrder_pairwise {windows : List Window}
    (sorted : windows.Pairwise fun a b => startLe a b = true) (apart : inOrder windows = true) :
    windows.Pairwise fun a b => Bound.Precedes compareOffsets a.2 b.1 := by
  induction windows with
  | nil => exact .nil
  | cons first rest ih =>
    obtain ⟨_, sortedRest⟩ := List.pairwise_cons.mp sorted
    cases rest with
    | nil => simp
    | cons second rest =>
      obtain ⟨adjacent, apartRest⟩ := Bool.and_eq_true_iff.mp apart
      refine List.pairwise_cons.mpr ⟨fun later member => ?_, ih sortedRest apartRest⟩
      have precedes := endsBefore_iff.mp adjacent
      rcases List.mem_cons.mp member with rfl | beyond
      · exact precedes
      · -- `later` starts no earlier than `second`, which `first` ends before
        obtain ⟨c, upperAt, d, lowerAt, le⟩ := precedes
        obtain ⟨e, laterAt, le'⟩ :=
          startLe_cut ((List.pairwise_cons.mp sortedRest).1 later beyond) lowerAt
        exact ⟨c, upperAt, e, laterAt, Cut.le_trans le le'⟩

theorem windowsInOrder_pairwise {windows : List Window} (apart : windowsInOrder windows = true) :
    windows.Pairwise fun a b => intervalsDisjoint compareOffsets a.1 a.2 b.1 b.2 = true := by
  have sorted := List.pairwise_mergeSort startLe_trans startLe_total windows
  have ordered := inOrder_pairwise sorted apart
  have either : (windows.mergeSort startLe).Pairwise fun a b =>
      intervalsDisjoint compareOffsets a.1 a.2 b.1 b.2 = true := by
    refine ordered.imp fun precedes => ?_
    rw [intervalsDisjoint, endsBefore_iff.mpr precedes, Bool.true_or]
  refine (List.Perm.pairwise_iff (fun separate => ?_) (List.mergeSort_perm windows startLe)).mp either
  rw [intervalsDisjoint, Bool.or_comm]
  exact separate

end AsapPlanner.Coverage
