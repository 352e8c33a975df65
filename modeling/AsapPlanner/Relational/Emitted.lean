import AsapPlanner.Relational.Matches

/-!
A left row's matches and its output pairs are those of the row-at-a-time loop.
-/

namespace AsapPlanner.Relational
open Ir Rust Grouping Expressions Traversal

/-! ### Batches of columns -/

theorem fromParts_ok {schema : Schema} {columns : List Column} {rows : Nat}
    (typed : List.Forall₂ OfField columns schema.fields)
    (lengths : ∀ column ∈ columns, column.decode.length = rows) : ∃ batch,
      fromParts schema columns rows = .ok batch ∧ batch.schema = schema ∧ batch.numRows = rows ∧
        batch.batch.columns = columns := by
  unfold fromParts
  rw [if_neg (not_not.mpr typed.length_eq), dif_pos ⟨lengths, typed⟩]
  exact ⟨_, rfl, rfl, rfl, rfl⟩

theorem hasLayout_select (selection : Selection) (column : Column) (dtype : FieldDataType) :
    hasLayout (column.select selection) dtype = hasLayout column dtype := by
  cases column <;> cases dtype <;> first | rfl | (rename_i dtype; cases dtype <;> rfl)

theorem ofField_select {column : Column} {field : SchemaField} (ofField : OfField column field)
    (selection : Selection) : OfField (column.select selection) field where
  layout := (hasLayout_select selection column field.dtype).trans ofField.layout
  cells value member := by
    rw [Column.decode_select] at member
    exact ofField.cells value (selection.mem_pick member)

theorem pick_copies {α : Type} (items : List α) (absent : α) {index : Nat} (inside : index < items.length)
    (copies : Nat) :
    (rowsAt (List.replicate copies index)).pick items = List.replicate copies (items.getD index absent) := by
  show (List.replicate copies index).filterMap (fun index => items[index]?) = _
  rw [List.filterMap_replicate, List.getElem?_eq_getElem inside, List.getD_eq_getElem?_getD,
    List.getElem?_eq_getElem inside]
  rfl

section Row
variable {left right : TypedBatch}

theorem length_column (typed : TypedBatch) {column : Column} (member : column ∈ typed.batch.columns) :
    column.decode.length = typed.numRows := typed.batch.lengths column member

theorem joined_ok {leftRow : Nat} (small : leftRow < left.numRows) : ∃ pairs,
    joined left right leftRow = .ok pairs ∧
      pairs.schema = schemaOf (left.schema.fields ++ right.schema.fields) ∧ pairs.numRows = right.numRows ∧
        pairs.toRows = right.toRows.map (left.row leftRow ++ ·) := by
  have repeated : ∀ column ∈ left.batch.columns,
      (column.select (rowsAt (List.replicate right.numRows leftRow))).decode =
        List.replicate right.numRows (column.decode.getD leftRow .null) := fun column member => by
    rw [Column.decode_select, pick_copies _ .null (by rwa [length_column left member])]
  have typed : List.Forall₂ OfField (left.batch.columns.map (Column.select (rowsAt
      (List.replicate right.numRows leftRow))) ++ right.batch.columns)
      (schemaOf (left.schema.fields ++ right.schema.fields)).fields := by
    refine List.rel_append ?_ right.typed
    rw [List.forall₂_map_left_iff]
    exact left.typed.imp fun column field ofField => ofField_select ofField _
  have lengths : ∀ column ∈ left.batch.columns.map (Column.select (rowsAt (List.replicate right.numRows leftRow))) ++
      right.batch.columns, column.decode.length = right.numRows := fun column member => by
    rcases List.mem_append.mp member with first | second
    · obtain ⟨own, here, rfl⟩ := List.mem_map.mp first
      rw [repeated own here, List.length_replicate]
    · exact length_column right second
  obtain ⟨pairs, made, schema, rows, columns⟩ := fromParts_ok typed lengths
  refine ⟨pairs, made, schema, rows, ?_⟩
  rw [TypedBatch.toRows, TypedBatch.toRows, rows, List.map_map]
  refine List.map_congr_left fun index member => ?_
  have inside := List.mem_range.mp member
  rw [Function.comp_apply, TypedBatch.row, columns, List.map_append, List.map_map]
  refine congrArg (· ++ _) (List.map_congr_left fun column here => ?_)
  rw [Function.comp_apply, repeated column here]
  simp [List.getD_eq_getElem?_getD, inside]

end Row

/-! ### A left row's matches -/

/-- Runs that go alike: both succeed with related results, or both fail with one message. -/
inductive Follows {α β : Type} (R : α → β → Prop) : Except String α → Except Error β → Prop
  | ok {a : α} {b : β} (related : R a b) : Follows R (.ok a) (.ok b)
  | error (message : String) : Follows R (.error message) (.error (.invalid message))

theorem Follows.bind {α β α' β' : Type} {R : α → β → Prop} {S : α' → β' → Prop} {x : Except String α}
    {y : Except Error β} (runs : Follows R x y) {f : α → Except String α'} {g : β → Except Error β'}
    (then_ : ∀ a b, R a b → Follows S (f a) (g b)) : Follows S (x >>= f) (y >>= g) := by
  cases runs with
  | ok related => exact then_ _ _ related
  | error message => exact .error message

theorem Follows.error_eq {α β : Type} {R : α → β → Prop} {message : String} {y : Except Error β}
    (runs : Follows R (.error message) y) : y = .error (.invalid message) := by
  cases runs
  rfl

theorem Follows.ok_eq {α β : Type} {R : α → β → Prop} {a : α} {y : Except Error β} (runs : Follows R (.ok a) y) :
    ∃ b, y = .ok b ∧ R a b := by
  cases runs with
  | ok related => exact ⟨_, rfl, related⟩

theorem map_eq_bind {ε α β : Type} (f : α → β) (run : Except ε α) : run.map f = run >>= fun value => .ok (f value) := by
  cases run <;> rfl

/-- Matches that give a left row the output its pairs' truths give it: one match settles some kinds. -/
structure Agree (kind : JoinKind) (rows : Nat) (truths found : List Bool) : Prop where
  length : found.length = rows
  any : found.any id = truths.any id
  each : settles kind = false → found = truths

section Scan
variable {kind : JoinKind}

theorem replay_eq_scan (evaluate : List Value → Except String Value) (rows : List (List Value)) :
    replay kind evaluate rows = scan kind (fun row => (evaluate row).map isTrue) rows := by
  induction rows with
  | nil => rfl
  | cons row rest ih =>
    rw [replay, scan, ih]
    cases evaluate row with
    | error _ => rfl
    | ok value =>
      show (if (isTrue value && settles kind) = true then _ else _) =
        (if (isTrue value && settles kind) = true then _ else _)
      split
      · rename_i settled
        rw [(Bool.and_eq_true_iff.mp settled).1]
      · rfl

variable {β : Type} {rows : List β} {evaluate : β → Except String Value}

theorem length_scan {holds : β → Except String Bool} {truths : List Bool}
    (ran : scan kind holds rows = .ok truths) :
    truths.length ≤ rows.length ∧ (settles kind = false → truths.length = rows.length) := by
  induction rows generalizing truths with
  | nil =>
    cases ran
    exact ⟨le_rfl, fun _ => rfl⟩
  | cons row rest ih =>
    rw [scan] at ran
    obtain ⟨truth, _, ran⟩ := bind_eq_ok ran
    split at ran
    · rename_i settled
      cases ran
      refine ⟨by simp, fun unsettled => ?_⟩
      simp [unsettled] at settled
    · obtain ⟨others, later, ran⟩ := bind_eq_ok ran
      cases ran
      obtain ⟨most, all⟩ := ih later
      exact ⟨by simpa using most, fun unsettled => by simp [all unsettled]⟩

theorem padded_agree {holds : β → Except String Bool} {truths : List Bool}
    (ran : scan kind holds rows = .ok truths) :
    Agree kind rows.length truths (truths ++ List.replicate (rows.length - truths.length) false) := by
  obtain ⟨most, all⟩ := length_scan ran
  refine ⟨by simp; omega, ?_, fun unsettled => by simp [all unsettled]⟩
  rw [List.any_append, List.any_replicate]
  simp

variable (kind) in
theorem scan_gives {lost : β → Prop} {cells : List (Option Bool)}
    (given : List.Forall₂ (fun row cell => Gives (lost row) (Column.ofSlot .bool cell) (evaluate row)) rows cells)
    (kept : ∀ before row after, rows = before ++ row :: after →
      (settles kind = true → ∀ other ∈ before, evaluate other ≠ .ok (.bool true)) → ¬ lost row) :
    ∃ truths, scan kind (fun row => (evaluate row).map isTrue) rows = .ok truths ∧
      Agree kind rows.length truths (cells.map (· == some true)) := by
  induction given with
  | nil => exact ⟨[], rfl, rfl, rfl, fun _ => rfl⟩
  | @cons row cell rest others first tail ih =>
    have present := kept [] row rest rfl fun _ => nofun
    obtain ⟨value, ran⟩ : ∃ value, evaluate row = .ok value := by
      cases ran : evaluate row with
      | ok value => exact ⟨value, rfl⟩
      | error message =>
        rw [ran] at first
        exact absurd first present
    rw [ran] at first
    have truth : isTrue value = (cell == some true) := by
      rw [← (show Column.ofSlot Value.bool cell = value from first)]
      cases cell with
      | none => rfl
      | some truth => cases truth <;> rfl
    rw [scan, ran]
    show ∃ truths, (if (isTrue value && settles kind) = true then _ else _) = Except.ok truths ∧ _
    split
    · rename_i settled
      obtain ⟨matched, settles⟩ := Bool.and_eq_true_iff.mp settled
      refine ⟨_, rfl, by simp [tail.length_eq], ?_, fun unsettled => ?_⟩
      · simp [← truth, matched]
      · rw [settles] at unsettled
        cases unsettled
    · rename_i open_
      obtain ⟨truths, later, agree⟩ := ih fun before other after split earlier =>
        kept (row :: before) other after (by rw [split]; rfl) fun settles =>
          List.forall_mem_cons.mpr ⟨fun matched => open_ (by
            rw [ran] at matched
            cases matched
            simp [isTrue, settles]), earlier settles⟩
      rw [later]
      refine ⟨_, rfl, by simp [tail.length_eq], ?_, fun unsettled => ?_⟩
      · rw [List.map_cons, List.any_cons, List.any_cons, agree.any, truth]
      · rw [List.map_cons, agree.each unsettled, truth]

end Scan

section Matches
variable {host : Host} {kind : JoinKind} {predicate : CompiledExpression} {left right : TypedBatch}

variable (host predicate) in
def holdsPair (row other : List Value) : Except String Bool :=
  (predicate.evaluate host (row ++ other)).map isTrue

variable (host kind predicate) in
/-- The loop comes to a pair, of a left row and one of its right rows, on which the predicate's column has
lost the operand of an empty `IN` list. -/
def Loses (left right : List (List Value)) : Prop :=
  kind ≠ .cross ∧ Vectorizes host predicate ∧ ∃ row ∈ left, ∃ before other after,
    right = before ++ other :: after ∧
      (settles kind = true → ∀ earlier ∈ before, predicate.evaluate host (row ++ earlier) ≠ .ok (.bool true)) ∧
        Lost host predicate (row ++ other)

variable (host kind predicate) in
/-- A cross join has a pair on which its predicate, never evaluated, is not true. -/
def Ignores (left right : List (List Value)) : Prop :=
  kind = .cross ∧ ∃ row ∈ left, ∃ other ∈ right, predicate.evaluate host (row ++ other) ≠ .ok (.bool true)

theorem scan_cross {β ε : Type} {holds : β → Except ε Bool} {rows : List β}
    (each : ∀ row ∈ rows, holds row = .ok true) : scan .cross holds rows = .ok (List.replicate rows.length true) := by
  induction rows with
  | nil => rfl
  | cons row rest ih =>
    rw [scan, each row List.mem_cons_self, ih fun other member => each other (List.mem_cons_of_mem _ member)]
    rfl

theorem length_toRows (typed : TypedBatch) : typed.toRows.length = typed.numRows := by
  rw [TypedBatch.toRows, List.length_map, List.length_range]

theorem matchesOf_scan (bound : Bound host (schemaOf (left.schema.fields ++ right.schema.fields)) predicate)
    (few : right.numRows ≤ u32Max) {leftRow : Nat} (small : leftRow < left.numRows)
    (kept : ¬ Loses host kind predicate left.toRows right.toRows)
    (heeded : ¬ Ignores host kind predicate left.toRows right.toRows) :
    Follows (Agree kind right.numRows)
      (scan kind (holdsPair host predicate (left.row leftRow)) right.toRows)
      (matchesOf host kind predicate left right leftRow) := by
  unfold matchesOf
  by_cases cross : kind = .cross
  · subst cross
    have true_ : ∀ other ∈ right.toRows, holdsPair host predicate (left.row leftRow) other = .ok true := by
      intro other member
      by_contra differs
      refine heeded ⟨rfl, left.row leftRow, List.mem_map_of_mem (List.mem_range.mpr small), other, member, ?_⟩
      intro holds
      rw [holdsPair, holds] at differs
      exact differs rfl
    rw [if_pos rfl, scan_cross true_, length_toRows]
    exact .ok ⟨List.length_replicate, rfl, fun _ => rfl⟩
  obtain ⟨pairs, made, schema, rows, cells⟩ := @joined_ok left right leftRow small
  have same : scan kind (holdsPair host predicate (left.row leftRow)) right.toRows =
      scan kind (fun row => (predicate.evaluate host row).map isTrue) pairs.toRows := by
    rw [cells, scan_map]
    rfl
  rw [if_neg cross, made, same]
  simp only [bind, Except.bind]
  rcases evaluateBatch_gives (schema ▸ bound) (by omega) with
    ⟨values, ran, gives⟩ | ⟨message, failed⟩
  · rw [ran]
    have given : List.Forall₂ (fun row cell => Gives (Vectorizes host predicate ∧ Lost host predicate row)
        (Column.ofSlot .bool cell) (predicate.evaluate host row)) pairs.toRows values := by
      refine List.forall₂_iff_get.mpr ⟨by rw [length_toRows, gives.length], fun index inside there => ?_⟩
      rw [length_toRows] at inside
      have cell := gives.cell index inside
      rw [List.getElem?_eq_getElem there] at cell
      simpa [TypedBatch.toRows] using cell
    obtain ⟨truths, scanned, agree⟩ := scan_gives kind given fun before row after split earlier lost => by
      rw [cells] at split
      obtain ⟨before', rest, splitRight, rfl, tail⟩ := List.map_eq_append_iff.mp split
      obtain ⟨other, after', rfl, rfl, rfl⟩ := List.map_eq_cons_iff.mp tail
      refine kept ⟨cross, lost.1, left.row leftRow, List.mem_map_of_mem (List.mem_range.mpr small), before', other,
        after', splitRight, fun settles other member => ?_, lost.2⟩
      exact earlier settles _ (List.mem_map_of_mem member)
    rw [scanned]
    rw [length_toRows, rows] at agree
    exact .ok agree
  · rw [failed]
    simp only [replay_eq_scan]
    cases scanned : scan kind (fun row => (predicate.evaluate host row).map isTrue) pairs.toRows with
    | error message => exact .error message
    | ok truths =>
      have agree := padded_agree scanned
      rw [length_toRows, rows] at agree
      exact .ok agree

theorem matchesOf_vectorized (bound : Bound host (schemaOf (left.schema.fields ++ right.schema.fields)) predicate)
    (vectorizes : Vectorizes host predicate) (uncrossed : kind ≠ .cross) {leftRow : Nat}
    (small : leftRow < left.numRows) : ∃ found : List Bool,
      matchesOf host kind predicate left right leftRow = .ok found ∧ found.length = right.numRows := by
  obtain ⟨pairs, made, schema, rows, _⟩ := @joined_ok left right leftRow small
  obtain ⟨values, ran, gives⟩ := evaluateBatch_vectorized (schema ▸ bound) vectorizes
  refine ⟨values.map (· == some true), ?_, by rw [List.length_map, gives.length, rows]⟩
  unfold matchesOf
  rw [if_neg uncrossed, made]
  simp only [bind, Except.bind, ran]

end Matches
end AsapPlanner.Relational
