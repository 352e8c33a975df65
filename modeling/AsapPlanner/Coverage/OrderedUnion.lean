import AsapPlanner.Coverage.Union
import AsapPlanner.Ordered.Pairs
import Mathlib.Data.List.Nodup

/-!
The union of ordered windows is the general union: both fuse neighbours in time until none touch, and
keep each fused box where its earliest part was.
-/

namespace AsapPlanner.Coverage
open Rust Ordered Ir Relation

/-- `SelectionBox`'s `==`. -/
def SelectionBox.equal (a b : SelectionBox) : Bool :=
  columnsSame a.columns b.columns && a.relativeTime == b.relativeTime

/-! ### Places in time -/

/-- Where a window starts, counted in half milliseconds: before a time, or after it. -/
def lowerPlace : Bound Int → Option Int
  | .included time => some (2 * time)
  | .excluded time => some (2 * time + 1)
  | .unbounded => none

/-- Where a window ends. -/
def upperPlace : Bound Int → Option Int
  | .included time => some (2 * time + 1)
  | .excluded time => some (2 * time)
  | .unbounded => none

/-- `a` ends before `b` starts. -/
def Window.Ahead (a b : Window) : Prop := ∃ u ∈ upperPlace a.2, ∃ l ∈ lowerPlace b.1, u ≤ l

theorem nonEmptyWindow_iff {window : Window} : nonEmptyWindow window = true ↔
    ∀ l ∈ lowerPlace window.1, ∀ u ∈ upperPlace window.2, l < u := by
  obtain ⟨lower, upper⟩ := window
  cases lower <;> cases upper <;> simp [nonEmptyWindow, lowerPlace, upperPlace] <;> omega

theorem ahead_iff {a b : Window} : Bound.Precedes compareOffsets a.2 b.1 ↔ a.Ahead b := by
  obtain ⟨al, au⟩ := a
  obtain ⟨bl, bu⟩ := b
  have order : ∀ x y : Int, compare x y = .lt ↔ x < y := fun _ _ => Int.compare_eq_lt
  have level : ∀ x y : Int, compare x y = .eq ↔ x = y := fun _ _ => Int.compare_eq_eq
  cases au <;> cases bl <;>
    simp [Window.Ahead, Bound.Precedes, Bound.upperCut, Bound.lowerCut, Cut.Le, Before, Level,
      compareOffsets, lowerPlace, upperPlace, order, level] <;> omega

theorem meets_iff {upper lower : Bound Int} : meets compareOffsets upper lower = true ↔
    ∃ u ∈ upperPlace upper, u ∈ lowerPlace lower := by
  cases upper <;> cases lower <;>
    simp [meets, compareOffsets, lowerPlace, upperPlace] <;> omega

/-! ### Pieces -/

/-- The index of the earliest box in a fused box, and its window. -/
abbrev Piece := Nat × Window

def fusePieces (a b : Piece) : Option Piece :=
  if meets compareOffsets a.2.2 b.2.1 then some (min a.1 b.1, a.2.1, b.2.2) else none

theorem fusePieces_eq_none {a b : Piece} :
    fusePieces a b = none ↔ ¬ meets compareOffsets a.2.2 b.2.1 := by
  unfold fusePieces
  split
  · simp [*]
  · simp [*]

theorem fusePieces_alike : FusesAlike fusePieces := by
  intro a b c left right first second
  unfold fusePieces at first second
  split at first
  · rename_i meet
    split at second
    · rename_i meet'
      cases first
      cases second
      exact ⟨(min (min a.1 b.1) c.1, a.2.1, c.2.2), if_pos meet', by
        rw [fusePieces, if_pos meet, min_assoc]⟩
    · cases second
  · cases first

/-- Windows that hold some time, each ending before the next starts. -/
structure InTime (pieces : List Piece) : Prop where
  held : ∀ piece ∈ pieces, nonEmptyWindow piece.2 = true
  ahead : pieces.Pairwise fun a b => a.2.Ahead b.2

section
variable {pieces : List Piece} {a b : Piece}

theorem not_meets_self (held : nonEmptyWindow a.2 = true) : ¬ meets compareOffsets a.2.2 a.2.1 := by
  intro meet
  obtain ⟨u, upper, lower⟩ := meets_iff.mp meet
  have short := nonEmptyWindow_iff.mp held u lower u upper
  omega

theorem not_meets_back (heldA : nonEmptyWindow a.2 = true) (heldB : nonEmptyWindow b.2 = true)
    (ahead : a.2.Ahead b.2) : ¬ meets compareOffsets b.2.2 a.2.1 := by
  intro meet
  obtain ⟨p, upper, lower⟩ := meets_iff.mp meet
  obtain ⟨u, upperA, l, lowerB, le⟩ := ahead
  have first := nonEmptyWindow_iff.mp heldA p lower u upperA
  have second := nonEmptyWindow_iff.mp heldB l lowerB p upper
  omega

theorem not_ahead_self (held : nonEmptyWindow a.2 = true) : ¬ a.2.Ahead a.2 := by
  rintro ⟨u, upper, l, lower, le⟩
  have short := nonEmptyWindow_iff.mp held l lower u upper
  omega

theorem InTime.neighbours (inTime : InTime pieces) (memberA : a ∈ pieces) (memberB : b ∈ pieces)
    (meet : meets compareOffsets a.2.2 b.2.1 = true) :
    ∃ before after, pieces = before ++ a :: b :: after := by
  obtain ⟨before, rest, rfl⟩ := List.append_of_mem memberA
  obtain ⟨-, later, across⟩ := List.pairwise_append.mp inTime.ahead
  obtain ⟨aheadA, aheadRest⟩ := List.pairwise_cons.mp later
  rcases List.mem_append.mp memberB with early | late
  · -- What ends where `b` starts does not start after it.
    exact absurd meet (not_meets_back (inTime.held b memberB) (inTime.held a memberA)
      (across b early a List.mem_cons_self))
  rcases List.mem_cons.mp late with rfl | late
  · exact absurd meet (not_meets_self (inTime.held b memberB))
  obtain ⟨between, after, rfl⟩ := List.append_of_mem late
  cases between with
  | nil => exact ⟨before, after, rfl⟩
  | cons middle others =>
    -- A window between the two would hold no time.
    obtain ⟨p, upper, lower⟩ := meets_iff.mp meet
    obtain ⟨u, upperA, l, lowerM, le⟩ := aheadA middle List.mem_cons_self
    have acrossRest := (List.pairwise_cons.mp aheadRest).1 b (by simp)
    obtain ⟨u', upperM, l', lowerB, le'⟩ := acrossRest
    obtain rfl := Option.mem_unique upper upperA
    obtain rfl := Option.mem_unique lower lowerB
    have short := nonEmptyWindow_iff.mp (inTime.held middle (by simp)) l lowerM u' upperM
    omega

theorem InTime.fuse {before after : List Piece} {c : Piece}
    (inTime : InTime (before ++ a :: b :: after)) (fused : fusePieces a b = some c) :
    InTime (before ++ c :: after) := by
  unfold fusePieces at fused
  split at fused
  · rename_i meet
    cases fused
    have heldA := inTime.held a (by simp)
    have heldB := inTime.held b (by simp)
    obtain ⟨first, later, across⟩ := List.pairwise_append.mp inTime.ahead
    obtain ⟨aheadA, aheadRest⟩ := List.pairwise_cons.mp later
    obtain ⟨aheadB, aheadAfter⟩ := List.pairwise_cons.mp aheadRest
    refine ⟨fun piece member => ?_, List.pairwise_append.mpr ⟨first, List.pairwise_cons.mpr
      ⟨fun piece member => aheadB piece member, aheadAfter⟩, fun piece member other member' => ?_⟩⟩
    · rcases List.mem_append.mp member with early | late
      · exact inTime.held piece (List.mem_append_left _ early)
      rcases List.mem_cons.mp late with rfl | late
      · refine nonEmptyWindow_iff.mpr fun l lower u upper => ?_
        obtain ⟨p, upperA, lowerB⟩ := meets_iff.mp meet
        have startsA := nonEmptyWindow_iff.mp heldA l lower p upperA
        have endsB := nonEmptyWindow_iff.mp heldB p lowerB u upper
        omega
      · exact inTime.held piece (by simp [late])
    · rcases List.mem_cons.mp member' with rfl | late
      · exact across piece member a List.mem_cons_self
      · exact across piece member other (by simp [late])
  · cases fused

end

/-! ### Boxes over the same columns -/

/-- A box with a window over the columns of `first`. -/
structure Windowed (first box : SelectionBox) : Prop where
  columns : columnsSame box.columns first.columns = true
  window : box.relativeTime = some box.window

theorem Windowed.fused {first box : SelectionBox} (windowed : Windowed first box) (window : Window) :
    Windowed first { box with relativeTime := some window } := ⟨windowed.columns, rfl⟩

section
variable {first a b : SelectionBox}

theorem join_windowed (windowedA : Windowed first a) (windowedB : Windowed first b)
    (apart : a.window ≠ b.window) : join a b =
      (touching compareOffsets a.window.1 a.window.2 b.window.1 b.window.2).map fun time =>
        { a with relativeTime := some time } := by
  have columns : columnsSame a.columns b.columns = true :=
    same_trans windowedA.columns (same_symm windowedB.columns)
  have times : (a.relativeTime == b.relativeTime) = false := by
    rw [windowedA.window, windowedB.window]
    simpa using apart
  unfold join
  simp only [columns, times, Bool.and_false, Bool.false_eq_true, if_false, if_true]
  rw [windowedA.window, windowedB.window]

theorem join_ahead (windowedA : Windowed first a) (windowedB : Windowed first b)
    (heldA : nonEmptyWindow a.window = true) (heldB : nonEmptyWindow b.window = true)
    (ahead : a.window.Ahead b.window) : join a b =
      if meets compareOffsets a.window.2 b.window.1 then
        some { a with relativeTime := some (a.window.1, b.window.2) }
      else none := by
  rw [join_windowed windowedA windowedB fun same => ?_, touching,
    if_neg (not_meets_back (a := (0, a.window)) (b := (0, b.window)) heldA heldB ahead)]
  · split <;> rfl
  · rw [← same] at ahead
    exact not_ahead_self (a := (0, a.window)) heldA ahead

theorem join_behind (windowedA : Windowed first a) (windowedB : Windowed first b)
    (heldA : nonEmptyWindow a.window = true) (heldB : nonEmptyWindow b.window = true)
    (ahead : b.window.Ahead a.window) : join a b =
      if meets compareOffsets b.window.2 a.window.1 then
        some { a with relativeTime := some (b.window.1, a.window.2) }
      else none := by
  rw [join_windowed windowedA windowedB fun same => ?_, touching,
    if_neg (not_meets_back (a := (0, b.window)) (b := (0, a.window)) heldB heldA ahead)]
  · split <;> rfl
  · rw [same] at ahead
    exact not_ahead_self (a := (0, b.window)) heldB ahead

end

/-! ### The general loop -/

/-- A box with the index of its earliest part. -/
def pieceOf (entry : SelectionBox × Nat) : Piece := (entry.2, entry.1.window)

/-- Boxes in the order of their earliest parts; in order of time, their pieces come from `start` by
fusing neighbours. -/
structure Traced (first : SelectionBox) (start : List Piece) (entries : List (SelectionBox × Nat))
    (pieces : List Piece) : Prop where
  windowed : ∀ entry ∈ entries, Windowed first entry.1
  ordered : entries.Pairwise fun a b => a.2 < b.2
  same : pieces.Perm (entries.map pieceOf)
  inTime : InTime pieces
  path : ReflTransGen (Fusion fusePieces) start pieces

theorem takeJoin_split {a found joined : SelectionBox} {later kept : List SelectionBox}
    (fused : takeJoin a later = some (found, joined, kept)) :
    ∃ between after, later = between ++ found :: after ∧ kept = between ++ after := by
  induction later generalizing kept with
  | nil => cases fused
  | cons b rest ih =>
    unfold takeJoin at fused
    split at fused
    · cases fused
      exact ⟨[], rest, rfl, rfl⟩
    · obtain ⟨⟨found', joined', kept'⟩, inRest, equal⟩ := Option.map_eq_some_iff.mp fused
      cases equal
      obtain ⟨between, after, rfl, rfl⟩ := ih inRest
      exact ⟨b :: between, after, rfl, rfl⟩

theorem takeJoin_none {a : SelectionBox} {later : List SelectionBox} (none : takeJoin a later = none) :
    ∀ b ∈ later, join a b = .none := by
  induction later with
  | nil => exact fun _ member => nomatch member
  | cons b rest ih =>
    unfold takeJoin at none
    split at none
    · cases none
    · rename_i apart
      intro other member
      rcases List.mem_cons.mp member with rfl | member
      · exact apart
      · exact ih (Option.map_eq_none_iff.mp none) other member

section
variable {first : SelectionBox} {start pieces : List Piece} {entries : List (SelectionBox × Nat)}
  {a b : SelectionBox × Nat}

theorem Traced.member (traced : Traced first start entries pieces) (member : a ∈ entries) :
    pieceOf a ∈ pieces ∧ nonEmptyWindow a.1.window = true := by
  have listed := traced.same.mem_iff.mpr (List.mem_map_of_mem member)
  exact ⟨listed, traced.inTime.held _ listed⟩

theorem Traced.ahead_or_behind (traced : Traced first start entries pieces) (memberA : a ∈ entries)
    (memberB : b ∈ entries) (apart : a.2 ≠ b.2) :
    a.1.window.Ahead b.1.window ∨ b.1.window.Ahead a.1.window := by
  have either : pieces.Pairwise fun x y => x.2.Ahead y.2 ∨ y.2.Ahead x.2 :=
    traced.inTime.ahead.imp fun ahead => .inl ahead
  have symmetric : Std.Symm fun x y : Piece => x.2.Ahead y.2 ∨ y.2.Ahead x.2 := ⟨fun _ _ => Or.symm⟩
  refine either.forall (traced.member memberA).1 (traced.member memberB).1 fun same => ?_
  exact apart (congrArg Prod.fst same)

theorem Traced.fuse {done between after : List (SelectionBox × Nat)} {joined : SelectionBox}
    (traced : Traced first start (done ++ a :: (between ++ b :: after)) pieces)
    (fused : join a.1 b.1 = some joined) :
    ∃ pieces', Traced first start (done ++ (joined, a.2) :: (between ++ after)) pieces' := by
  have memberA : a ∈ done ++ a :: (between ++ b :: after) := by simp
  have memberB : b ∈ done ++ a :: (between ++ b :: after) := by simp
  obtain ⟨-, later, across⟩ := List.pairwise_append.mp traced.ordered
  obtain ⟨aboveA, rest⟩ := List.pairwise_cons.mp later
  have earlier : a.2 < b.2 := aboveA b (by simp)
  obtain ⟨inPieces, held⟩ := traced.member memberA
  obtain ⟨inPieces', held'⟩ := traced.member memberB
  have windowed := traced.windowed a memberA
  have windowed' := traced.windowed b memberB
  -- Whichever comes first in time, the two are neighbours there.
  have touch : ∃ before x y after', pieces = before ++ x :: y :: after' ∧
      [x, y].Perm [pieceOf a, pieceOf b] ∧ fusePieces x y = some (pieceOf (joined, a.2)) ∧
      Windowed first joined := by
    rcases traced.ahead_or_behind memberA memberB earlier.ne with ahead | behind
    · rw [join_ahead windowed windowed' held held' ahead] at fused
      split at fused
      · rename_i meet
        cases fused
        obtain ⟨before, after', split⟩ := traced.inTime.neighbours inPieces inPieces' meet
        refine ⟨before, _, _, after', split, .refl _, ?_, windowed.fused _⟩
        refine (if_pos meet).trans ?_
        simp [pieceOf, SelectionBox.window, earlier.le]
      · cases fused
    · rw [join_behind windowed windowed' held held' behind] at fused
      split at fused
      · rename_i meet
        cases fused
        obtain ⟨before, after', split⟩ := traced.inTime.neighbours inPieces' inPieces meet
        refine ⟨before, _, _, after', split, .swap _ _ _, ?_, windowed.fused _⟩
        refine (if_pos meet).trans ?_
        simp [pieceOf, SelectionBox.window, earlier.le]
      · cases fused
  obtain ⟨before, x, y, after', rfl, pair, step, windowedJoined⟩ := touch
  refine ⟨before ++ pieceOf (joined, a.2) :: after', fun entry member => ?_, ?_, ?_,
    traced.inTime.fuse step, traced.path.tail (.append before (.here step))⟩
  · rcases List.mem_append.mp member with early | late
    · exact traced.windowed entry (List.mem_append_left _ early)
    rcases List.mem_cons.mp late with rfl | late
    · exact windowedJoined
    · refine traced.windowed entry ?_
      rcases List.mem_append.mp late with inner | outer
      · simp [inner]
      · simp [outer]
  · have sub : ((done ++ (joined, a.2) :: (between ++ after)).map (·.2)).Sublist
        ((done ++ a :: (between ++ b :: after)).map (·.2)) := by
      simp only [List.map_append, List.map_cons]
      exact (List.Sublist.refl _).append (((List.Sublist.refl _).append
        (List.sublist_cons_self _ _)).cons_cons _)
    have ordered : ((done ++ a :: (between ++ b :: after)).map (·.2)).Pairwise (· < ·) :=
      List.pairwise_map.mpr traced.ordered
    exact List.pairwise_map.mp (ordered.sublist sub)
  · have own := traced.same
    have moved : (before ++ x :: y :: after').Perm ([x, y] ++ (before ++ after')) := by
      refine List.perm_append_comm_assoc before [x, y] after' |>.trans ?_
      exact .refl _
    have listed : ((done ++ a :: (between ++ b :: after)).map pieceOf).Perm
        ([pieceOf a, pieceOf b] ++ (done ++ (between ++ after)).map pieceOf) := by
      have here : (done ++ a :: (between ++ b :: after)).Perm
          (a :: b :: (done ++ (between ++ after))) := by
        refine List.perm_middle.trans (.cons _ ?_)
        rw [← List.append_assoc, ← List.append_assoc]
        exact List.perm_middle
      exact here.map pieceOf
    have others : (before ++ after').Perm ((done ++ (between ++ after)).map pieceOf) := by
      refine (List.perm_append_left_iff [x, y]).mp ?_
      refine (moved.symm.trans (own.trans listed)).trans ?_
      exact pair.symm.append_right _
    rw [List.map_append, List.map_cons]
    refine List.perm_middle.trans ((others.cons _).trans ?_)
    rw [List.map_append]
    exact List.perm_middle.symm

def Settled (boxes : List SelectionBox) : Prop := boxes.Pairwise fun a b => join a b = none

theorem Sweep.run_traced {sweep : Sweep} (boxes : entries.map (·.1) = sweep.boxes)
    (traced : Traced first start entries pieces) (settled : Settled sweep.done)
    (apart : ∀ a ∈ sweep.done, ∀ b ∈ sweep.rest, join a b = none) :
    ∃ entries' pieces', entries'.map (·.1) = sweep.run ∧ Traced first start entries' pieces' ∧
      Settled sweep.run := by
  induction sweep using Sweep.run.induct generalizing entries pieces with
  | case1 sweep next moved ih =>
    rw [Sweep.run, moved]
    obtain ⟨done, rest⟩ := sweep
    unfold Sweep.step at moved
    split at moved
    · cases moved
    · rename_i box later shape
      simp only at shape
      subst shape
      split at moved
      · rename_i found joined kept fused
        cases moved
        obtain ⟨between, after, rfl, rfl⟩ := takeJoin_split fused
        obtain ⟨early, others, rfl, rfl, inRest⟩ := List.map_eq_append_iff.mp boxes
        obtain ⟨here, others, rfl, rfl, inLater⟩ := List.map_eq_cons_iff.mp inRest
        obtain ⟨inner, others, rfl, rfl, fromFound⟩ := List.map_eq_append_iff.mp inLater
        obtain ⟨there, last, rfl, rfl, rfl⟩ := List.map_eq_cons_iff.mp fromFound
        obtain ⟨pieces', traced'⟩ := traced.fuse (takeJoin_spec fused).1
        refine ih ?_ traced' .nil fun a member => absurd member List.not_mem_nil
        simp [Sweep.boxes]
      · rename_i none
        cases moved
        refine ih ?_ traced ?_ fun a member b later => ?_
        · rw [boxes]
          simp [Sweep.boxes]
        · refine List.pairwise_append.mpr ⟨settled, List.pairwise_singleton _ _, fun a member b last => ?_⟩
          obtain rfl := List.mem_singleton.mp last
          exact apart a member b List.mem_cons_self
        · rcases List.mem_append.mp member with early | here
          · exact apart a early b (List.mem_cons_of_mem _ later)
          · rw [List.mem_singleton.mp here]
            exact takeJoin_none none b later
  | case2 sweep finished =>
    rw [Sweep.run, finished]
    obtain ⟨done, rest⟩ := sweep
    cases rest with
    | nil =>
      rw [Sweep.boxes, List.append_nil] at boxes
      exact ⟨entries, pieces, boxes, traced, settled⟩
    | cons box later =>
      simp only [Sweep.step] at finished
      cases fused : takeJoin box later <;> simp [fused] at finished

theorem Traced.apart (traced : Traced first start entries pieces)
    (settled : Settled (entries.map (·.1))) : Apart fusePieces pieces := by
  have either : entries.Pairwise fun a b => (a.1.window.Ahead b.1.window →
      fusePieces (pieceOf a) (pieceOf b) = none) ∧ (b.1.window.Ahead a.1.window →
      fusePieces (pieceOf b) (pieceOf a) = none) := by
    refine (List.pairwise_map.mp settled).imp_of_mem fun {a b} memberA memberB apart => ?_
    have windowed := traced.windowed a memberA
    have windowed' := traced.windowed b memberB
    have held := (traced.member memberA).2
    have held' := (traced.member memberB).2
    refine ⟨fun ahead => if_neg fun meet => ?_, fun behind => if_neg fun meet => ?_⟩
    · rw [join_ahead windowed windowed' held held' ahead] at apart
      exact nomatch (if_pos meet).symm.trans apart
    · rw [join_behind windowed windowed' held held' behind] at apart
      exact nomatch (if_pos meet).symm.trans apart
  have symmetric : Std.Symm fun x y : Piece => (x.2.Ahead y.2 → fusePieces x y = none) ∧
      (y.2.Ahead x.2 → fusePieces y x = none) := ⟨fun _ _ => And.symm⟩
  have all : pieces.Pairwise fun x y => (x.2.Ahead y.2 → fusePieces x y = none) ∧
      (y.2.Ahead x.2 → fusePieces y x = none) :=
    (List.Perm.pairwise_iff (fun both => And.symm both) traced.same).mpr (List.pairwise_map.mpr either)
  exact (all.and traced.inTime.ahead).imp (fun both => both.1.1 both.2) |>.isChain

/-! ### The fold over the sorted windows -/

/-- A kept box with the index of its earliest part. -/
def keptPiece (kept : Nat × SelectionBox) : Piece := (kept.1, kept.2.window)

/-- The fold so far, last box first, and what is still to come: all in order of time, come from `start`
by fusing neighbours, and none kept touch. -/
structure Merging (first : SelectionBox) (start : List Piece) (merged : List (Nat × SelectionBox))
    (rest : List (SelectionBox × Nat)) : Prop where
  kept : ∀ kept ∈ merged, Windowed first kept.2
  windowed : ∀ entry ∈ rest, Windowed first entry.1
  inTime : InTime (merged.reverse.map keptPiece ++ rest.map pieceOf)
  path : ReflTransGen (Fusion fusePieces) start (merged.reverse.map keptPiece ++ rest.map pieceOf)
  apart : merged.IsChain fun later earlier => fusePieces (keptPiece earlier) (keptPiece later) = none

theorem Merging.next {merged : List (Nat × SelectionBox)} {entry : SelectionBox × Nat}
    {rest : List (SelectionBox × Nat)} (merging : Merging first start merged (entry :: rest)) :
    Merging first start (mergeNext merged entry) rest := by
  obtain ⟨kept, windowed, inTime, path, apart⟩ := merging
  have here := windowed entry List.mem_cons_self
  have others : ∀ other ∈ rest, Windowed first other.1 := fun other member =>
    windowed other (List.mem_cons_of_mem _ member)
  unfold mergeNext
  split
  · exact ⟨fun _ member => List.mem_singleton.mp member ▸ here, others, inTime, path,
      List.isChain_singleton _⟩
  · rename_i firstIndex previous older
    have before := kept _ List.mem_cons_self
    simp only [List.reverse_cons, List.map_append, List.map_cons, List.map_nil, List.append_assoc,
      List.singleton_append] at inTime path
    have held := inTime.held (keptPiece (firstIndex, previous)) (by simp)
    have held' := inTime.held (pieceOf entry) (by simp)
    obtain ⟨-, later, -⟩ := List.pairwise_append.mp inTime.ahead
    have ahead := (List.pairwise_cons.mp later).1 (pieceOf entry) (by simp)
    rw [join_ahead before here held held' ahead]
    by_cases meet : meets compareOffsets previous.window.2 entry.1.window.1
    · have step : fusePieces (keptPiece (firstIndex, previous)) (pieceOf entry) = some (keptPiece
          (min firstIndex entry.2, { previous with
            relativeTime := some (previous.window.1, entry.1.window.2) })) := if_pos meet
      rw [if_pos meet]
      refine ⟨fun other member => ?_, others, ?_, ?_, ?_⟩
      · rcases List.mem_cons.mp member with rfl | old
        · exact before.fused _
        · exact kept other (List.mem_cons_of_mem _ old)
      · simpa using inTime.fuse step
      · simpa using path.tail (.append _ (.here step))
      · -- The fused box starts where the one before it started.
        cases older with
        | nil => exact List.isChain_singleton _
        | cons earlier others =>
          obtain ⟨gap, rest⟩ := List.isChain_cons_cons.mp apart
          have unmet := fusePieces_eq_none.mp gap
          exact List.isChain_cons_cons.mpr ⟨fusePieces_eq_none.mpr unmet, rest⟩
    · rw [if_neg meet]
      refine ⟨fun other member => ?_, others, ?_, ?_, List.isChain_cons_cons.mpr ⟨if_neg meet, apart⟩⟩
      · rcases List.mem_cons.mp member with rfl | old
        · exact here
        · exact kept other old
      · simpa [keptPiece, pieceOf] using inTime
      · simpa [keptPiece, pieceOf] using path

theorem Merging.all {merged : List (Nat × SelectionBox)} {rest : List (SelectionBox × Nat)}
    (merging : Merging first start merged rest) : Merging first start (rest.foldl mergeNext merged) [] := by
  induction rest generalizing merged with
  | nil => exact merging
  | cons entry rest ih => exact ih merging.next

end

/-! ### The two unions -/

section
variable {first : SelectionBox} {boxes : List SelectionBox}

theorem start_inTime (windows : ∀ box ∈ boxes, nonEmptyWindow box.window = true)
    (ordered : inOrder ((boxes.zipIdx.mergeSort fun a b => startLe a.1.window b.1.window).map
      (·.1.window)) = true) :
    InTime ((boxes.zipIdx.mergeSort fun a b => startLe a.1.window b.1.window).map pieceOf) := by
  have perm := List.mergeSort_perm boxes.zipIdx fun a b => startLe a.1.window b.1.window
  have sorted : (boxes.zipIdx.mergeSort fun a b => startLe a.1.window b.1.window).Pairwise
      fun a b => startLe a.1.window b.1.window = true :=
    List.pairwise_mergeSort (fun a b c => startLe_trans a.1.window b.1.window c.1.window)
      (fun a b => startLe_total a.1.window b.1.window) _
  refine ⟨fun piece member => ?_, ?_⟩
  · obtain ⟨entry, listed, rfl⟩ := List.mem_map.mp member
    exact windows _ (List.fst_mem_of_mem_zipIdx (perm.mem_iff.mp listed))
  · have ahead := inOrder_pairwise (List.pairwise_map.mpr sorted) ordered
    exact List.pairwise_map.mpr ((List.pairwise_map.mp ahead).imp ahead_iff.mp)

theorem zipIdx_ordered : boxes.zipIdx.Pairwise fun a b => a.2 < b.2 := by
  have ascending : (boxes.zipIdx.map Prod.snd).Pairwise (· < ·) := by
    rw [List.zipIdx_map_snd]
    exact List.pairwise_lt_range'
  exact List.pairwise_map.mp ascending

theorem equal_of_pieces {kept : List (Nat × SelectionBox)} {entries : List (SelectionBox × Nat)}
    (alike : kept.map keptPiece = entries.map pieceOf) (windowed : ∀ box ∈ kept, Windowed first box.2)
    (windowed' : ∀ entry ∈ entries, Windowed first entry.1) :
    List.Forall₂ (fun a b => a.2.equal b.1 = true) kept entries := by
  induction kept generalizing entries with
  | nil =>
    rw [List.map_eq_nil_iff.mp alike.symm]
    exact .nil
  | cons box rest ih =>
    obtain ⟨entry, others, rfl, piece, later⟩ := List.map_eq_cons_iff.mp alike.symm
    have one := windowed box List.mem_cons_self
    have other := windowed' entry List.mem_cons_self
    have windows : box.2.window = entry.1.window := (congrArg Prod.snd piece).symm
    refine .cons (Bool.and_eq_true_iff.mpr ⟨same_trans one.columns (same_symm other.columns), ?_⟩)
      (ih later.symm (List.forall_mem_cons.mp windowed).2 (List.forall_mem_cons.mp windowed').2)
    rw [one.window, other.window, windows]
    exact beq_self_eq_true _

end

/-- The union of ordered windows gives the boxes of the general union, in the same order. -/
theorem unionOrderedTimeBoxes_eq_general {boxes out : List SelectionBox}
    (found : unionOrderedTimeBoxes boxes = some out) :
    List.Forall₂ (fun a b => a.equal b = true) out (unionGeneral boxes) := by
  unfold unionOrderedTimeBoxes at found
  split at found
  · cases found
  rename_i first rest
  split at found
  · cases found
  rename_i columns
  split at found
  · cases found
  rename_i windows
  simp only at found
  split at found
  · cases found
  rename_i ordered
  cases found
  simp only [Bool.not_eq_true', Bool.not_eq_false, List.all_eq_true, Bool.and_eq_true]
    at columns windows ordered
  generalize boxesAre : first :: rest = boxes at columns windows ordered ⊢
  have windowed : ∀ entry ∈ boxes.zipIdx, Windowed first entry.1 := by
    intro entry member
    have listed := List.fst_mem_of_mem_zipIdx member
    obtain ⟨window, present⟩ := Option.isSome_iff_exists.mp (columns _ listed).2
    exact ⟨(columns _ listed).1, by rw [SelectionBox.window, present, Option.getD_some]⟩
  have inTime := start_inTime windows ordered
  have perm := List.mergeSort_perm boxes.zipIdx fun a b => startLe a.1.window b.1.window
  generalize boxes.zipIdx.mergeSort (fun a b => startLe a.1.window b.1.window) = order at inTime perm ⊢
  -- The loop and the fold both end where no neighbours touch.
  obtain ⟨entries, pieces, boxesOf, traced, settled⟩ :=
    @Sweep.run_traced first (order.map pieceOf) (order.map pieceOf) boxes.zipIdx ⟨[], boxes⟩
      (List.zipIdx_map_fst 0 boxes)
      ⟨windowed, zipIdx_ordered, perm.map pieceOf, inTime, .refl⟩ .nil fun _ member => absurd member List.not_mem_nil
  have merging : Merging first (order.map pieceOf) [] order :=
    ⟨List.forall_mem_nil _, fun entry member => windowed entry (perm.mem_iff.mp member),
      inTime, .refl, List.isChain_nil⟩
  have merged := merging.all
  rw [← boxesOf] at settled
  have same : (order.foldl mergeNext []).reverse.map keptPiece = pieces := by
    refine fusions_unique fusePieces_alike (by simpa using merged.path) traced.path ?_
      (traced.apart settled)
    exact (List.isChain_map _).mpr (List.isChain_reverse.mpr merged.apart)
  -- Both lists are in the order of the earliest parts.
  have listed : (((order.foldl mergeNext []).reverse.mergeSort fun a b => a.1 ≤ b.1).map keptPiece).Perm
      (entries.map pieceOf) := by
    refine ((List.mergeSort_perm _ _).map keptPiece).trans ?_
    rw [same]
    exact traced.same
  have restored : ((order.foldl mergeNext []).reverse.mergeSort fun a b => decide (a.1 ≤ b.1)).Pairwise
      fun a b => decide (a.1 ≤ b.1) = true := by
    refine List.pairwise_mergeSort (fun a b c le le' => ?_) (fun a b => ?_) _
    · exact decide_eq_true (Nat.le_trans (of_decide_eq_true le) (of_decide_eq_true le'))
    · simpa using Nat.le_total a.1 b.1
  have distinct : (entries.map (·.2)).Nodup :=
    (List.pairwise_map.mpr traced.ordered).imp Nat.ne_of_lt
  have alike : ((order.foldl mergeNext []).reverse.mergeSort fun a b => a.1 ≤ b.1).map keptPiece =
      entries.map pieceOf := by
    refine @List.Perm.eq_of_pairwise Piece (fun a b => a.1 ≤ b.1) _ _ ?_
      (List.pairwise_map.mpr (restored.imp of_decide_eq_true))
      (List.pairwise_map.mpr (traced.ordered.imp Nat.le_of_lt)) listed
    intro a b memberA memberB le ge
    obtain ⟨entry, inEntries, rfl⟩ := List.mem_map.mp (listed.mem_iff.mp memberA)
    obtain ⟨entry', inEntries', rfl⟩ := List.mem_map.mp memberB
    rw [List.inj_on_of_nodup_map distinct inEntries inEntries' (Nat.le_antisymm le ge)]
  rw [unionGeneral, ← boxesOf]
  refine List.forall₂_map_left_iff.mpr (List.forall₂_map_right_iff.mpr ?_)
  refine equal_of_pieces alike (fun kept member => merged.kept kept ?_) traced.windowed
  exact List.mem_reverse.mp ((List.mergeSort_perm _ _).mem_iff.mp member)

def tumblingWindow (start finish : Int) : SelectionBox :=
  ⟨Std.TreeMap.empty, some (.excluded start, .included finish)⟩

theorem startLe_tumblingWindow (a b c d : Int) :
    startLe (tumblingWindow a b).window (tumblingWindow c d).window = decide (a ≤ c) := by
  rw [Bool.eq_iff_iff, decide_eq_true_iff]
  simp [startLe, startOrder, start, tumblingWindow, SelectionBox.window, compareLex, compareOn,
    Std.isLE_compare]

/-- Four tumbling windows out of order are two runs, the later one first. -/
theorem tumblingWindows_union :
    let boxes := [tumblingWindow 10 11, tumblingWindow 1 2, tumblingWindow 0 1, tumblingWindow 11 12]
    ∃ out, unionOrderedTimeBoxes boxes = some out ∧
      out.map (·.window) = [(.excluded 10, .included 12), (.excluded 0, .included 2)] ∧
      List.Forall₂ (fun a b => a.equal b = true) out (unionGeneral boxes) := by
  intro boxes
  have order : boxes.zipIdx.mergeSort (fun a b => startLe a.1.window b.1.window) =
      [(tumblingWindow 0 1, 2), (tumblingWindow 1 2, 1), (tumblingWindow 10 11, 0),
        (tumblingWindow 11 12, 3)] := by
    simp [boxes, List.mergeSort, List.MergeSort.Internal.splitInTwo, List.zipIdx,
      startLe_tumblingWindow]
  have merged : ([(tumblingWindow 0 1, 2), (tumblingWindow 1 2, 1), (tumblingWindow 10 11, 0),
      (tumblingWindow 11 12, 3)].foldl mergeNext []).reverse =
        [(1, tumblingWindow 0 2), (0, tumblingWindow 10 12)] := rfl
  have alike : boxes.all (fun box => columnsSame box.columns (tumblingWindow 10 11).columns &&
      box.relativeTime.isSome) = true := by decide +kernel
  have held : boxes.all (fun box => nonEmptyWindow box.window) = true := by decide +kernel
  have found : unionOrderedTimeBoxes boxes = some [tumblingWindow 10 12, tumblingWindow 0 2] := by
    have listed : boxes = tumblingWindow 10 11 :: boxes.tail := rfl
    unfold unionOrderedTimeBoxes
    rw [listed]
    simp only
    rw [← listed, alike, held, order, merged]
    simp [List.mergeSort, List.MergeSort.Internal.splitInTwo]
    decide
  exact ⟨_, found, rfl, unionOrderedTimeBoxes_eq_general found⟩

end AsapPlanner.Coverage
