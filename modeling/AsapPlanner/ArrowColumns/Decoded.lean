import AsapPlanner.ArrowColumns.Codec
import AsapPlanner.Rust.Result

/-!
A whole column decodes to the value of each of its rows.
-/

namespace AsapPlanner.ArrowColumns
open Ir Rust Grouping ArrowArray

/-! ### Dictionaries -/

/-- Every text held is its entry's. -/
def DictionaryTexts.Right (texts : DictionaryTexts) : Prop :=
  match texts.decoded with
  | .dense slots => slots.length = texts.values.length ∧
      ∀ (entry : Nat) (text : String), slots[entry]? = some (some text) → texts.values[entry]? = some text
  | .sparse held => ∀ (entry : Nat) (text : String), held entry = some text → texts.values[entry]? = some text

theorem DictionaryTexts.new_right (values : List String) (rows : Nat) : (DictionaryTexts.new values rows).Right := by
  unfold DictionaryTexts.new DictionaryTexts.Right
  by_cases dense : denseDictionary values.length rows = true
  · simp only [dense, if_true, List.length_replicate, true_and]
    intro entry text held
    obtain ⟨_, copied⟩ := List.getElem?_eq_some_iff.mp held
    rw [List.getElem_replicate] at copied
    cases copied
  · simp [dense]

theorem DictionaryTexts.get_right {texts : DictionaryTexts} (right : texts.Right) {entry : Nat} {text : String}
    (found : texts.values[entry]? = some text) : ∃ later, texts.get entry = .ok (text, later) ∧ later.Right ∧
      later.values = texts.values := by
  obtain ⟨values, decoded⟩ := texts
  unfold DictionaryTexts.get
  cases decoded with
  | dense slots =>
    obtain ⟨length, held⟩ := right
    dsimp only at found length held ⊢
    have inside := (List.getElem?_eq_some_iff.mp found).1
    obtain ⟨slot, known⟩ : ∃ slot, slots[entry]? = some slot := ⟨_, List.getElem?_eq_getElem (length ▸ inside)⟩
    cases slot with
    | some other =>
      have same := held entry other known
      rw [found] at same
      cases same
      simp only [known]
      exact ⟨_, rfl, ⟨length, held⟩, rfl⟩
    | none =>
      simp only [known, found]
      refine ⟨_, rfl, ⟨by simpa using length, fun other word there => ?_⟩, rfl⟩
      dsimp only at there ⊢
      rw [List.getElem?_set] at there
      split at there
      · rename_i same
        subst same
        split at there
        · cases there
          exact found
        · cases there
      · exact held other word there
  | sparse held =>
    replace right : ∀ (entry : Nat) (text : String), held entry = some text → values[entry]? = some text := right
    dsimp only at found ⊢
    cases known : held entry with
    | some other =>
      have same := right entry other known
      rw [found] at same
      cases same
      exact ⟨_, rfl, right, rfl⟩
    | none =>
      simp only [found]
      refine ⟨_, rfl, fun other word there => ?_, rfl⟩
      dsimp only at there ⊢
      by_cases same : other = entry
      · subst same
        rw [Function.update_self] at there
        cases there
        exact found
      · rw [Function.update_of_ne same] at there
        exact right other word there

theorem decodeKeys_ok {texts : DictionaryTexts} (right : texts.Right) {keys : List (Option Nat)}
    (inside : ∀ key, some key ∈ keys → key < texts.values.length) :
    decodeKeys texts keys = .ok (keys.map (Column.ofSlot fun key => .utf8 (texts.values.getD key ""))) := by
  induction keys generalizing texts with
  | nil => rfl
  | cons slot rest ih =>
    cases slot with
    | none =>
      rw [decodeKeys, ih right fun key member => inside key (List.mem_cons_of_mem _ member)]
      rfl
    | some key =>
      have small := inside key List.mem_cons_self
      obtain ⟨later, got, laterRight, same⟩ := DictionaryTexts.get_right right (List.getElem?_eq_getElem small)
      have rests := ih laterRight fun key member => by
        rw [same]
        exact inside key (List.mem_cons_of_mem _ member)
      rw [same] at rests
      rw [decodeKeys, got]
      simp only [bind, Except.bind, rests, List.map_cons, Column.ofSlot, Option.elim_some]
      rw [List.getD_eq_getElem?_getD, List.getElem?_eq_getElem small]
      rfl

/-! ### Rows of columns -/

theorem map_slotAt {α : Type} (value : α → Value) (slots : List (Option α)) :
    slots.map (Column.ofSlot value) = (List.range slots.length).map (slotAt value slots) := by
  refine List.ext_getElem (by simp) fun row inside _ => ?_
  rw [List.length_map] at inside
  simp [slotAt, inside]

theorem itemAt_map {length : Nat} (f : Nat → Value) {row : Nat} (small : row < length) :
    itemAt ((List.range length).map f) row = .ok (f row) := by
  rw [itemAt, List.getElem?_map, List.getElem?_range small]
  rfl

section Offsets
variable {offsets : List Nat} {length row : Nat}

theorem offsets_get (valid : Offsets offsets length) (small : row < offsets.length - 1) :
    offsets[row]? = some (offsets.getD row 0) ∧ offsets[row + 1]? = some (offsets.getD (row + 1) 0) ∧
      offsets.getD row 0 ≤ offsets.getD (row + 1) 0 ∧ offsets.getD (row + 1) 0 ≤ length := by
  have first : row < offsets.length := by omega
  have second : row + 1 < offsets.length := by omega
  rw [List.getD_eq_getElem?_getD, List.getD_eq_getElem?_getD, List.getElem?_eq_getElem first,
    List.getElem?_eq_getElem second]
  exact ⟨rfl, rfl, List.pairwise_iff_getElem.mp valid.ordered row (row + 1) first second (by omega),
    valid.inside _ (List.getElem_mem second)⟩

theorem sliceOf_map (valid : Offsets offsets length) (f : Nat → Value) (small : row < offsets.length - 1) :
    sliceOf ((List.range length).map f) offsets row = .ok ((rowsAt offsets row).map f) := by
  obtain ⟨start, stop, ordered, inside⟩ := offsets_get valid small
  unfold sliceOf rowsAt
  rw [start, stop]
  simp only [List.length_map, List.length_range]
  rw [if_pos ⟨ordered, inside⟩, ← List.map_drop, ← List.map_take]
  refine congrArg (fun rows : List Nat => Except.ok (rows.map f)) ?_
  refine List.ext_getElem ?_ fun item _ _ => by simp
  simp only [List.length_take, List.length_drop, List.length_range, List.length_range']
  omega

theorem entriesOf_map (valid : Offsets offsets length) (f g : Nat → Value) (small : row < offsets.length - 1) :
    entriesOf ((List.range length).map f) ((List.range length).map g) offsets row =
      .ok ((rowsAt offsets row).map fun entry => (f entry, g entry)) := by
  obtain ⟨start, stop, ordered, inside⟩ := offsets_get valid small
  unfold entriesOf
  rw [start, stop]
  refine mapM_pure fun entry member => ?_
  rw [List.mem_range'_1] at member
  rw [itemAt_map f (by omega), itemAt_map g (by omega)]
  rfl

end Offsets

theorem mapM_rows {length : Nat} {run : Nat → Except Error Value} {f : Nat → Value}
    (each : ∀ row < length, run row = .ok (f row)) : (List.range length).mapM run = .ok ((List.range length).map f) :=
  mapM_pure fun row member => each row (List.mem_range.mp member)

theorem valuesAt_eq (columns : List ArrowArray) (row : Nat) :
    valuesAt columns row = columns.map fun column => column.valueAt row := by
  induction columns with
  | nil => rfl
  | cons column rest ih => rw [valuesAt, List.map_cons, ih]

theorem mapM_columns (columns : List ArrowArray) {length row : Nat} (small : row < length) :
    (columns.map fun column => (List.range length).map column.valueAt).mapM (itemAt · row) =
      .ok (valuesAt columns row) := by
  rw [List.mapM_map, valuesAt_eq]
  exact mapM_pure fun column _ => itemAt_map _ small

/-! ### Columns -/

mutual
theorem decode_valueAt (dtype : DataType) (depth : ColumnDepth) {array : ArrowArray} (valid : array.Valid)
    (typed : array.dataType = arrowType dtype depth) :
    decode dtype depth array = .ok ((List.range array.len).map array.valueAt) := by
  cases dtype with
  | null =>
    cases array with
    | null length =>
      rw [decode, len]
      have nulls : (List.range length).map (ArrowArray.null length).valueAt =
          (List.range length).map fun _ => Value.null := List.map_congr_left fun _ _ => rfl
      rw [nulls, List.map_const', List.length_range]
    | _ => cases depth <;> cases typed
  | utf8 =>
    cases depth with
    | batchColumn =>
      cases array with
      | dictionary keys texts =>
        rw [decode, decodeKeys_ok (DictionaryTexts.new_right texts _) valid]
        exact congrArg Except.ok (map_slotAt _ _)
      | _ => cases typed
    | nested =>
      cases array with
      | utf8 slots =>
        rw [decode]
        exact congrArg Except.ok (map_slotAt _ _)
      | _ => cases typed
  | list element =>
    cases array with
    | list field offsets values nulls =>
      obtain ⟨inside, childType, childValid⟩ := valid
      have fieldEq : field = listField element := by cases depth <;> exact ArrowType.list.inj typed
      rw [decode, decodeField_valueAt element childValid (by rw [childType, fieldEq])]
      refine mapM_rows fun row small => ?_
      rw [valueAt]
      split
      · rfl
      · rw [sliceOf_map inside _ small]
        rfl
    | _ => cases depth <;> cases typed
  | struct fields =>
    cases array with
    | struct own columns nulls length =>
      have fieldsEq : own = structFields fields := by cases depth <;> exact ArrowType.struct.inj typed
      subst fieldsEq
      rw [decode, decodeFields_valueAt fields valid]
      refine mapM_rows fun row small => ?_
      rw [valueAt]
      split
      · rfl
      · rw [mapM_columns columns small]
        rfl
    | _ => cases depth <;> cases typed
  | map key value valueNullable =>
    cases array with
    | map field offsets entries nulls sorted =>
      obtain ⟨inside, entriesType, entriesValid⟩ := valid
      have fieldEq : field = mapEntriesField key value := by cases depth <;> exact (ArrowType.map.inj typed).1
      subst fieldEq
      cases entries with
      | struct own columns entryNulls length =>
        have ownEq : own = mapEntryFields key value := ArrowType.struct.inj entriesType
        subst ownEq
        match columns, entriesValid with
        | [keyColumn, itemColumn], entriesValid =>
          obtain ⟨keyLength, keyType, keyValid, itemLength, itemType, itemValid, _⟩ := entriesValid
          rw [decode, decode_valueAt key .nested keyValid keyType, decode_valueAt value .nested itemValid itemType,
            keyLength, itemLength]
          refine mapM_rows fun row small => ?_
          rw [valueAt]
          split
          · rfl
          · rw [len] at inside
            rw [entriesOf_map inside _ _ small]
            rfl
      | _ => cases entriesType
    | _ => cases depth <;> cases typed
  | _ =>
    cases array with
    | _ => first
      | (rw [decode]; exact congrArg Except.ok (map_slotAt _ _))
      | (cases depth <;> cases typed)

theorem decodeField_valueAt (field : Ir.Field DataType) {array : ArrowArray} (valid : array.Valid)
    (typed : array.dataType = (listField field).dataType) :
    decodeField field array = .ok ((List.range array.len).map array.valueAt) := by
  obtain ⟨name, dtype, nullable, table⟩ := field
  exact decode_valueAt dtype .nested valid typed

theorem decodeFields_valueAt (fields : List (Ir.Field DataType)) {columns : List ArrowArray} {length : Nat}
    (valid : AllValid (structFields fields) columns length) :
    decodeFields fields columns = .ok (columns.map fun column => (List.range length).map column.valueAt) := by
  cases fields with
  | nil =>
    cases columns with
    | nil => rfl
    | cons _ _ => cases valid
  | cons field rest =>
    cases columns with
    | nil => cases valid
    | cons column others =>
      obtain ⟨columnLength, typed, first, later⟩ := valid
      rw [decodeFields, decodeField_valueAt field first typed, decodeFields_valueAt rest later, columnLength]
      rfl
end

end AsapPlanner.ArrowColumns
