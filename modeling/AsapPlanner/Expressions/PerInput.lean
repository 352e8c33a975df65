import AsapPlanner.Expressions.Columnar

/-!
Evaluation once for each distinct input gives every row its own value.
-/

namespace AsapPlanner.Expressions
open Ir Rust Grouping Traversal

/-! ### Encoded columns -/

theorem slots_ok {α : Type} {read : Value → Option α} {mk : α → Value}
    (reads : ∀ value held, read value = some held → value = mk held) {values : List Value}
    {cells : List (Option α)} (run : slots read values = .ok cells) :
    cells.map (Column.ofSlot mk) = values := by
  induction mapM_eq_ok.mp run with
  | nil => rfl
  | @cons value cell _ _ first _ ih =>
    rw [List.map_cons, ih (mapM_eq_ok.mpr ‹_›)]
    congr 1
    split at first
    · cases first
      cases value <;> simp_all [Value.isNull, Column.ofSlot]
    · split at first
      · rename_i held found
        cases first
        exact (reads _ _ found).symm
      · cases first

theorem map_eq_ok {ε α β : Type} {f : α → β} {run : Except ε α} {result : β}
    (mapped : run.map f = .ok result) : ∃ value, run = .ok value ∧ f value = result := by
  cases run with
  | error _ => cases mapped
  | ok value => exact ⟨value, rfl, Except.ok.inj mapped⟩

theorem decode_dictionaryOf (texts : List (Option String)) :
    (Column.dictionary (dictionaryOf texts)).decode = texts.map (Column.ofSlot .utf8) := by
  rw [Column.decode, dictionaryOf, List.map_map]
  conv_rhs => rw [← List.attach_map_subtype_val texts, List.map_map]
  refine List.map_congr_left fun entry _ => ?_
  obtain ⟨text, member⟩ := entry
  cases text with
  | none => rfl
  | some text =>
    show Value.utf8 _ = Value.utf8 _
    simp

theorem decode_encode {dtype : DataType} {values : List Value} {array : Column}
    (run : encode dtype values = .ok array) : array.decode = values := by
  cases dtype with
  | null =>
    simp only [encode] at run
    split at run
    · rename_i nulls
      cases run
      refine (List.eq_replicate_of_mem fun value member => ?_).symm
      have null := List.all_eq_true.mp nulls value member
      cases value <;> simp_all [Value.isNull]
    · cases run
  | list _ | struct _ | map _ _ _ =>
    simp only [encode, encodeNested] at run
    split at run
    · cases run
      rfl
    · cases run
  | utf8 =>
    obtain ⟨texts, read, rfl⟩ := map_eq_ok run
    rw [Function.comp_apply, decode_dictionaryOf]
    exact slots_ok (fun value held found => by cases value <;> simp_all) read
  | interval =>
    obtain ⟨cells, read, rfl⟩ := map_eq_ok run
    refine slots_ok (fun value held found => ?_) read
    split at found
    · cases found
      rfl
    · cases found
  | _ =>
    obtain ⟨cells, read, rfl⟩ := map_eq_ok run
    exact slots_ok (fun value held found => by cases value <;> simp_all) read

/-! ### Filled rows -/

theorem fill_get (row : List Value) (columns : List Nat) (cell : Nat → Value) (column : Nat) :
    (fill row (columns.map fun column => (column, cell column)))[column]? =
      if column ∈ columns ∧ column < row.length then some (cell column) else row[column]? := by
  induction columns generalizing row with
  | nil => simp [fill]
  | cons first rest ih =>
    have step : fill row ((first :: rest).map fun column => (column, cell column)) =
        fill (row.set first (cell first)) (rest.map fun column => (column, cell column)) := rfl
    rw [step, ih, List.length_set, List.getElem?_set]
    by_cases here : first = column
    · subst here
      by_cases inside : first < row.length
      · simp [inside]
      · simp [inside]
    · have there : column ∈ first :: rest ↔ column ∈ rest := by simp [Ne.symm here]
      simp [here, there]

/-! ### Positions of distinct results -/

section Memo
variable {K : Type} [DecidableEq K] {evaluateKey : K → Except String Value}

/-- Every position held is that of its key's result. -/
def Memo.Right (evaluateKey : K → Except String Value) (memo : Memo K) : Prop :=
  ∀ key position, memo.positions key = some position →
    ∃ value, evaluateKey key = .ok value ∧ memo.results[position]? = some value

theorem Memo.position_ok {memo later : Memo K} {key : K} {position : Nat} (right : memo.Right evaluateKey)
    (few : memo.results.length ≤ u32Max) (run : memo.position evaluateKey key = .ok (later, position)) :
    later.Right evaluateKey ∧ memo.results <+: later.results ∧
      later.results.length ≤ memo.results.length + 1 ∧
        ∃ value, evaluateKey key = .ok value ∧ later.results[position]? = some value := by
  unfold Memo.position at run
  split at run
  · rename_i found
    cases run
    exact ⟨right, List.prefix_rfl, Nat.le_succ _, right key position found⟩
  · obtain ⟨value, made, run⟩ := bind_eq_ok run
    cases run
    have place : memo.results.length % (u32Max + 1) = memo.results.length := Nat.mod_eq_of_lt (by omega)
    have last : (memo.results ++ [value])[memo.results.length]? = some value := by simp
    refine ⟨fun other position found => ?_, List.prefix_append _ _, by simp, value, made, ?_⟩
    · dsimp only at found ⊢
      by_cases same : other = key
      · subst same
        rw [Function.update_self, place] at found
        cases found
        exact ⟨value, made, last⟩
      · rw [Function.update_of_ne same] at found
        obtain ⟨held, ran, there⟩ := right other position found
        have inside := (List.getElem?_eq_some_iff.mp there).1
        exact ⟨held, ran, by simp only [List.getElem?_append_left inside, there]⟩
    · simp only [place, last]

theorem Memo.run_ok {memo later : Memo K} {keys : List K} {positions : List Nat}
    (right : memo.Right evaluateKey) (few : memo.results.length + keys.length ≤ u32Max + 1)
    (run : memo.run evaluateKey keys = .ok (later, positions)) :
    memo.results <+: later.results ∧ List.Forall₂ (fun key position =>
      ∃ value, evaluateKey key = .ok value ∧ later.results[position]? = some value) keys positions := by
  induction keys generalizing memo positions with
  | nil =>
    cases run
    exact ⟨List.prefix_rfl, .nil⟩
  | cons key rest ih =>
    rw [List.length_cons] at few
    rw [Memo.run] at run
    obtain ⟨⟨next, position⟩, first, run⟩ := bind_eq_ok run
    obtain ⟨⟨last, others⟩, second, run⟩ := bind_eq_ok run
    cases run
    obtain ⟨nextRight, grows, small, value, made, there⟩ := Memo.position_ok right (by omega) first
    obtain ⟨growsMore, restRight⟩ := ih nextRight (by omega) second
    refine ⟨grows.trans growsMore, .cons ⟨value, made, ?_⟩ restRight⟩
    have inside := (List.getElem?_eq_some_iff.mp there).1
    obtain ⟨suffix, whole⟩ := growsMore
    rw [← whole, List.getElem?_append_left inside, there]

end Memo

/-! ### Each row's value -/

theorem pick_rowsAt {α β : Type} {R : α → β → Prop} {items : List α} {positions : List Nat} {results : List β}
    (all : List.Forall₂ (fun item position => ∃ result, R item result ∧ results[position]? = some result)
      items positions) : List.Forall₂ R items ((rowsAt positions).pick results) := by
  show List.Forall₂ R items (positions.filterMap fun position => results[position]?)
  induction all with
  | nil => exact .nil
  | cons first _ ih =>
    obtain ⟨result, related, there⟩ := first
    rw [List.filterMap_cons, there]
    exact .cons related ih

theorem textOf_codeAt (dictionary : Dictionary) (row : Nat) :
    textOf dictionary (codeAt row dictionary) = (Column.dictionary dictionary).decode.getD row .null := by
  rw [Column.decode, List.getD_eq_getElem?_getD, List.getElem?_map, textOf, codeAt]
  cases dictionary.keys[row]? with
  | none => rfl
  | some slot =>
    cases slot with
    | none => rfl
    | some entry => simp [Column.ofSlot]

section PerInput
variable {typed : TypedBatch} {columns : List Nat} {dtype : DataType}
  {evaluateRow : List Value → Except String Value}

theorem row_getD (index : Nat) {column : Nat} {array : Column} (found : typed.batch.columns[column]? = some array) :
    (typed.row index).getD column .null = array.decode.getD index .null := by
  rw [TypedBatch.row, List.getD_eq_getElem?_getD, List.getElem?_map, found]
  rfl

theorem zip_cells {cells : List Value} {index : Nat}
    (held : List.Forall₂ (fun column cell => (typed.row index).getD column .null = cell) columns cells) :
    columns.zip cells = columns.map fun column => (column, (typed.row index).getD column .null) := by
  induction held with
  | nil => rfl
  | cons first _ ih => rw [List.zip_cons_cons, List.map_cons, ih, first]

theorem filled_row {cells : List Value} {index : Nat} {column : Nat} (reads : column ∈ columns)
    (inside : column < typed.schema.fields.length)
    (held : List.Forall₂ (fun column cell => (typed.row index).getD column .null = cell) columns cells) :
    (fill (typed.schema.fields.map placeholderCell) (columns.zip cells))[column]? = (typed.row index)[column]? := by
  have width : column < (typed.row index).length := by
    rwa [TypedBatch.row, List.length_map, typed.typed.length_eq]
  rw [zip_cells held, fill_get, if_pos ⟨reads, by rwa [List.length_map]⟩,
    List.getD_eq_getElem?_getD, List.getElem?_eq_getElem width, Option.getD_some]

theorem bad_eq_ok {α : Type} {run : Except String α} {result : α} (ok : bad run = .ok result) :
    run = .ok result := by
  cases run with
  | error _ => cases ok
  | ok _ => exact congrArg Except.ok (Except.ok.inj ok)

theorem evaluatePerInput_ok {array : Column} (inside : ∀ column ∈ columns, column < typed.schema.fields.length)
    (few : typed.numRows ≤ u32Max + 1)
    (run : evaluatePerInput typed columns dtype evaluateRow = .ok array) : array.decode.length = typed.numRows ∧
      ∀ index < typed.numRows, ∃ row value, (∀ column ∈ columns, row[column]? = (typed.row index)[column]?) ∧
        evaluateRow row = .ok value ∧ array.decode[index]? = some value := by
  unfold evaluatePerInput at run
  simp only at run
  split at run
  · rename_i dictionaries found
    obtain ⟨⟨memo, indices⟩, looked, run⟩ := bind_eq_ok run
    obtain ⟨distinct, encoded, run⟩ := bind_eq_ok run
    cases run
    obtain ⟨_, right⟩ := Memo.run_ok (by simp [Memo.Right]) (by simpa using few) (bad_eq_ok looked)
    rw [List.forall₂_map_left_iff] at right
    have decoded := decode_encode encoded
    rw [Column.decode_select, decoded]
    have picked := pick_rowsAt right
    refine ⟨by rw [← picked.length_eq, List.length_range], fun index small => ?_⟩
    obtain ⟨value, there, made⟩ := exists_getElem?_of_forall₂ picked.flip (List.getElem?_range small)
    refine ⟨_, value, fun column reads => filled_row reads (inside column reads) ?_, made, there⟩
    rw [List.zipWith_map_right, List.zipWith_self, List.forall₂_map_right_iff]
    refine (option_mapM_eq_some.mp found).imp fun column dictionary held => ?_
    obtain ⟨stored, here, asked⟩ := Option.bind_eq_some_iff.mp held
    rw [textOf_codeAt, row_getD index here]
    cases stored <;> cases asked
    rfl
  · obtain ⟨decoded, found, run⟩ := bind_eq_ok run
    obtain ⟨results, ran, encoded⟩ := bind_eq_ok run
    have each := mapM_eq_ok.mp (bad_eq_ok ran)
    rw [decode_encode encoded]
    refine ⟨by rw [← each.length_eq, List.length_range], fun index small => ?_⟩
    obtain ⟨value, there, made⟩ := exists_getElem?_of_forall₂ each.flip (List.getElem?_range small)
    refine ⟨_, value, fun column reads => filled_row reads (inside column reads) ?_, made, there⟩
    rw [List.forall₂_map_right_iff]
    refine (mapM_eq_ok.mp found).imp fun column values held => ?_
    unfold decodeColumn at held
    split at held
    · rename_i here
      cases held
      exact row_getD index here
    · cases held
    · cases held

end PerInput
end AsapPlanner.Expressions
