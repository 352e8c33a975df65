import AsapPlanner.ArrowColumns.Encoded

/-!
A column of a type decodes to the values it was encoded from.
-/

namespace AsapPlanner.ArrowColumns
open Ir Rust Grouping ArrowArray Expressions

/-! ### What an array holds -/

structure Holds (dtype : DataType) (depth : ColumnDepth) (array : ArrowArray) (values : List Value) : Prop where
  dataType : array.dataType = arrowType dtype depth
  valid : array.Valid
  len_eq : array.len = values.length
  value row value : values[row]? = some value → array.valueAt row = value

mutual
/-- What the library accepts: children, entries and text bytes within 32-bit offsets, and no NULL key. -/
def Fits : DataType → ColumnDepth → List Value → Prop
  | .utf8, .batchColumn, values => textBytes (textsOf values).dedup ≤ i32Max
  | .utf8, .nested, values => textBytes (textsOf values) ≤ i32Max
  | .list element, _, values =>
    (values.map itemsOf).flatten.length ≤ i32Max ∧ FitsField element (values.map itemsOf).flatten
  | .struct fields, _, values => FitsFields fields 0 values
  | .map key value _, _, values =>
    (values.map entriesIn).flatten.length ≤ i32Max ∧
      (∀ entry ∈ (values.map entriesIn).flatten, entry.1 ≠ .null) ∧
        Fits key .nested ((values.map entriesIn).flatten.map Prod.fst) ∧
          Fits value .nested ((values.map entriesIn).flatten.map Prod.snd)
  | _, _, _ => True

def FitsField : Ir.Field DataType → List Value → Prop
  | ⟨_, dtype, _, _⟩, values => Fits dtype .nested values

def FitsFields : List (Ir.Field DataType) → Nat → List Value → Prop
  | [], _, _ => True
  | field :: rest, index, values =>
    FitsField field (values.map (fieldOf index)) ∧ FitsFields rest (index + 1) values
end

section
variable {arrow : Arrow}

theorem arrowError_ok {α : Type} {run : Except String α} {result : α} (ran : arrowError run = .ok result) :
    run = .ok result := by
  cases run with
  | error _ => cases ran
  | ok _ => exact congrArg Except.ok (Except.ok.inj ran)

theorem listField_dataType (field : Ir.Field DataType) :
    (listField field).dataType = arrowType field.dtype .nested := by
  cases field
  rfl

theorem listField_nullable (field : Ir.Field DataType) : (listField field).nullable = true := by
  cases field
  rfl

theorem holds_slots {α : Type} {mk : α → Value} {cells : List (Option α)} {values : List Value} {dtype : DataType}
    {depth : ColumnDepth} {array : ArrowArray} (same : cells.map (Column.ofSlot mk) = values)
    (dataType : array.dataType = arrowType dtype depth) (valid : array.Valid) (len_eq : array.len = cells.length)
    (value : ∀ row, array.valueAt row = slotAt mk cells row) : Holds dtype depth array values where
  dataType := dataType
  valid := valid
  len_eq := by rw [len_eq, ← same, List.length_map]
  value row held here := by
    rw [value, slotAt]
    rw [← same, List.getElem?_map] at here
    cases slot : cells[row]? with
    | none =>
      rw [slot] at here
      cases here
    | some cell =>
      rw [slot] at here
      exact Option.some.inj here

theorem textsOf_slots (cells : List (Option String)) :
    textsOf (cells.map (Column.ofSlot .utf8)) = cells.reduceOption := by
  induction cells with
  | nil => rfl
  | cons cell rest ih =>
    cases cell with
    | none => exact ih
    | some text => exact congrArg (text :: ·) ih

/-! ### Text -/

theorem dictionary_bytes {values : List Value} {dictionary : List String} (nodup : dictionary.Nodup)
    (members : ∀ text, text ∈ dictionary ↔ text ∈ textsOf values) :
    textBytes dictionary = textBytes (textsOf values).dedup := by
  have perm : dictionary.Perm (textsOf values).dedup := by
    refine (List.perm_ext_iff_of_nodup nodup (List.nodup_dedup _)).mpr fun text => ?_
    rw [members, List.mem_dedup]
  exact (perm.map String.utf8ByteSize).sum_nat

theorem keyOf_inside {dictionary : List String} {values : List Value} {keys : List (Option Nat)}
    (each : List.Forall₂ (KeyOf dictionary) values keys) : ∀ key, some key ∈ keys → key < dictionary.length := by
  intro key member
  induction each with
  | nil => cases member
  | cons first _ ih =>
    rcases List.mem_cons.mp member with same | later
    · obtain ⟨_, none⟩ | ⟨text, code, _, found, there⟩ := first
      · rw [none] at same
        cases same
      · rw [found] at same
        cases same
        exact (List.getElem?_eq_some_iff.mp there).1
    · exact ih later

theorem holds_dictionary {dictionary : List String} {values : List Value} {keys : List (Option Nat)}
    (each : List.Forall₂ (KeyOf dictionary) values keys) :
    Holds .utf8 .batchColumn (.dictionary keys dictionary) values where
  dataType := rfl
  valid := keyOf_inside each
  len_eq := each.length_eq.symm
  value row value here := by
    have inside := (List.getElem?_eq_some_iff.mp here).1
    have key := List.Forall₂.get each inside (each.length_eq ▸ inside)
    rw [valueAt, slotAt, List.getElem?_eq_getElem (each.length_eq ▸ inside)]
    rw [List.getElem?_eq_getElem inside] at here
    obtain ⟨null, absent⟩ | ⟨text, code, held, found, there⟩ := key
    · simp only [List.get_eq_getElem] at null absent
      rw [absent]
      exact null.symm.trans (Option.some.inj here)
    · simp only [List.get_eq_getElem] at held found
      rw [found, ← Option.some.inj here, held]
      simp [Column.ofSlot, there]

theorem encode_texts (laws : arrow.Lawful) {values : List Value}
    (typed : ∀ value ∈ values, value.hasType .utf8 true = true) :
    (∀ array, encode arrow .utf8 .batchColumn values = .ok array → Holds .utf8 .batchColumn array values) ∧
      (Fits .utf8 .batchColumn values → ∃ array, encode arrow .utf8 .batchColumn values = .ok array) := by
  obtain ⟨state, keys, ran, right, _, members, each⟩ := encodeTexts_ok TextCodes.start_right typed
  have bytes : textBytes state.dictionary = textBytes (textsOf values).dedup :=
    dictionary_bytes right.nodup fun text => by simp [members]
  have unfolds : encode arrow .utf8 .batchColumn values =
      arrow.texts state.dictionary >>= fun texts => arrowError (arrow.dictionary keys texts) := by
    rw [encode, ran]
    rfl
  rw [unfolds]
  constructor
  · intro array run
    obtain ⟨texts, kept, run⟩ := bind_eq_ok run
    obtain ⟨small, rfl⟩ := (laws.texts _).1 texts kept
    obtain ⟨_, rfl⟩ := (laws.dictionary _ _).1 array (arrowError_ok run)
    exact holds_dictionary (each (length_texts right.nodup small))
  · intro fits
    have small : textBytes state.dictionary ≤ i32Max := bytes ▸ fits
    have held := each (length_texts right.nodup small)
    rw [(laws.texts _).2 small]
    refine ⟨.dictionary keys state.dictionary, ?_⟩
    show arrowError (arrow.dictionary keys state.dictionary) = _
    rw [(laws.dictionary _ _).2 (keyOf_inside held)]
    rfl

/-! ### Nested columns -/

theorem columnFits_fields {fields : List (Ir.Field DataType)} {columns : List ArrowArray} {length : Nat}
    (valid : AllValid (structFields fields) columns length) (nulls : Option (List Bool)) :
    List.Forall₂ (ColumnFits nulls length) (structFields fields) columns := by
  induction fields generalizing columns with
  | nil =>
    cases columns with
    | nil => exact .nil
    | cons _ _ => cases valid
  | cons field rest ih =>
    cases columns with
    | nil => cases valid
    | cons column others =>
      obtain ⟨len_eq, dataType, _, later⟩ := valid
      refine .cons ⟨dataType, len_eq, fun nonnull => ?_⟩ (ih later)
      rw [listField_nullable] at nonnull
      cases nonnull

theorem null_or_filled {value filled : Value} (either : value = .null ∨ value = filled)
    (nonnull : filled.isNull = false) : (if value.isNull then .null else filled) = value := by
  obtain rfl | rfl := either
  · rfl
  · rw [nonnull]
    rfl

theorem holds_list {element : Ir.Field DataType} {depth : ColumnDepth} {values : List Value} {child : ArrowArray}
    (typed : ∀ value ∈ values, value = .null ∨ value = .list (itemsOf value))
    (children : Holds element.dtype .nested child (values.map itemsOf).flatten) :
    Holds (.list element) depth (.list (listField element) (offsetsOf ((values.map itemsOf).map List.length)) child
      (nullsOf values)) values where
  dataType := by cases depth <;> rfl
  valid := by
    refine ⟨?_, by rw [listField_dataType]; exact children.dataType, children.valid⟩
    rw [children.len_eq, List.length_flatten]
    exact offsets_offsetsOf _
  len_eq := by rw [len, length_offsetsOf, List.length_map, List.length_map, Nat.add_sub_cancel]
  value row value here := by
    have items : (rowsAt (offsetsOf ((values.map itemsOf).map List.length)) row).map child.valueAt = itemsOf value := by
      rw [rowsAt_flatten child.valueAt id (by rw [List.getElem?_map, here]; rfl) children.value, List.map_id]
    rw [valueAt, isNullAt_nullsOf here, items]
    exact null_or_filled (typed value (List.mem_of_getElem? here)) rfl

theorem holds_struct {fields : List (Ir.Field DataType)} {depth : ColumnDepth} {values : List Value}
    {columns : List ArrowArray} (typed : ∀ value ∈ values, FieldsFrom fields 0 value)
    (valid : AllValid (structFields fields) columns values.length)
    (items : ∀ row items, values[row]? = some (.struct items) → valuesAt columns row = items) :
    Holds (.struct fields) depth (.struct (structFields fields) columns (nullsOf values) values.length) values where
  dataType := by cases depth <;> rfl
  valid := valid
  len_eq := rfl
  value row value here := by
    rw [valueAt, isNullAt_nullsOf here]
    refine null_or_filled ?_ rfl
    obtain null | ⟨held, same, _⟩ := typed value (List.mem_of_getElem? here)
    · exact .inl null
    · rw [items row held (same ▸ here)]
      exact .inr same

theorem holds_map {key item : DataType} {valueNullable : Bool} {depth : ColumnDepth} {values : List Value}
    {keyColumn itemColumn : ArrowArray} (typed : ∀ value ∈ values, value = .null ∨ value = .map (entriesIn value))
    (keys : Holds key .nested keyColumn ((values.map entriesIn).flatten.map Prod.fst))
    (items : Holds item .nested itemColumn ((values.map entriesIn).flatten.map Prod.snd)) :
    Holds (.map key item valueNullable) depth (.map (mapEntriesField key item)
      (offsetsOf ((values.map entriesIn).map List.length)) (.struct (mapEntryFields key item) [keyColumn, itemColumn]
        none ((values.map entriesIn).flatten.map Prod.fst).length) (nullsOf values) false) values where
  dataType := by cases depth <;> rfl
  valid := by
    refine ⟨?_, rfl, ?_⟩
    · rw [len, List.length_map, List.length_flatten]
      exact offsets_offsetsOf _
    · refine ⟨keys.len_eq, keys.dataType, keys.valid, ?_, items.dataType, items.valid, trivial⟩
      rw [items.len_eq, List.length_map, List.length_map]
  len_eq := by rw [len, length_offsetsOf, List.length_map, List.length_map, Nat.add_sub_cancel]
  value row value here := by
    have entries : (rowsAt (offsetsOf ((values.map entriesIn).map List.length)) row).map (ArrowArray.entryAt (.struct
        (mapEntryFields key item) [keyColumn, itemColumn] none
          ((values.map entriesIn).flatten.map Prod.fst).length)) = entriesIn value := by
      rw [rowsAt_flatten _ id (by rw [List.getElem?_map, here]; rfl), List.map_id]
      intro place entry there
      rw [ArrowArray.entryAt, valuesAt, valuesAt, keys.value place entry.1 (by rw [List.getElem?_map, there]; rfl),
        items.value place entry.2 (by rw [List.getElem?_map, there]; rfl)]
      rfl
    rw [valueAt, isNullAt_nullsOf here, entries]
    exact null_or_filled (typed value (List.mem_of_getElem? here)) rfl

/-! ### Columns -/

variable (arrow) in
/-- Whatever is stored holds the values, and what the library accepts is stored. -/
def Stores (dtype : DataType) (depth : ColumnDepth) (values : List Value) : Prop :=
  (∀ array, encode arrow dtype depth values = .ok array → Holds dtype depth array values) ∧
    (Fits dtype depth values → ∃ array, encode arrow dtype depth values = .ok array)

theorem stores_slots {α : Type} {read : Value → Option α} (mk : α → Value)
    (store : List (Option α) → ArrowArray) {values : List Value} {dtype : DataType} {depth : ColumnDepth}
    (unfolds : encode arrow dtype depth values = (slots read values).map store)
    (readable : ∀ value ∈ values, value.isNull = true ∨ (read value).isSome = true)
    (reads : ∀ value held, read value = some held → value = mk held)
    (holds : ∀ cells, cells.map (Column.ofSlot mk) = values → Holds dtype depth (store cells) values) :
    Stores arrow dtype depth values := by
  obtain ⟨cells, made, same⟩ := slots_typed readable reads
  have stored : encode arrow dtype depth values = .ok (store cells) := by
    rw [unfolds, made]
    rfl
  refine ⟨fun array run => ?_, fun _ => ⟨_, stored⟩⟩
  rw [stored] at run
  cases run
  exact holds cells same

theorem stores_strings (laws : arrow.Lawful) {values : List Value}
    (typed : ∀ value ∈ values, value.hasType .utf8 true = true) : Stores arrow .utf8 .nested values := by
  obtain ⟨cells, made, same⟩ : ∃ cells, slots asText values = .ok cells ∧
      cells.map (Column.ofSlot .utf8) = values :=
    slots_typed (fun value member => by
      have held := typed value member
      cases value <;> simp_all [Value.hasType, Value.isNull, asText]) fun value held found => by
        cases value <;> simp_all [asText]
  have unfolds : encode arrow .utf8 .nested values =
      arrow.strings cells >>= fun slots => .ok (.utf8 slots) := by
    rw [encode, made]
    rfl
  unfold Stores
  rw [unfolds]
  constructor
  · intro array run
    obtain ⟨kept, ran, finished⟩ := bind_eq_ok run
    obtain ⟨_, rfl⟩ := (laws.strings _).1 kept ran
    cases finished
    exact holds_slots same rfl trivial rfl fun _ => rfl
  · intro fits
    rw [Fits, ← same, textsOf_slots] at fits
    rw [(laws.strings _).2 fits]
    exact ⟨_, rfl⟩

mutual
theorem encode_stores (laws : arrow.Lawful) (dtype : DataType) (depth : ColumnDepth) {values : List Value}
    (typed : ∀ value ∈ values, value.hasType dtype true = true) : Stores arrow dtype depth values := by
  cases dtype with
  | null =>
    have nulls : values.all Value.isNull = true := List.all_eq_true.mpr fun value member => by
      have held := typed value member
      cases value <;> simp_all [Value.hasType, Value.isNull]
    have stored : encode arrow .null depth values = .ok (.null values.length) := if_pos nulls
    refine ⟨fun array run => ?_, fun _ => ⟨_, stored⟩⟩
    rw [stored] at run
    cases run
    refine ⟨by cases depth <;> rfl, trivial, rfl, fun row value here => ?_⟩
    have null := List.all_eq_true.mp nulls value (List.mem_of_getElem? here)
    cases value <;> first | rfl | cases null
  | utf8 =>
    cases depth with
    | batchColumn => exact encode_texts laws typed
    | nested => exact stores_strings laws typed
  | list element =>
    have lists : ∀ value ∈ values, value = .null ∨ value = .list (itemsOf value) := fun value member =>
      (list_typed (typed value member)).1
    have children : ∀ item ∈ (values.map itemsOf).flatten, item.hasType element.dtype true = true :=
      fun item member => by
        obtain ⟨items, here, inside⟩ := List.mem_flatten.mp member
        obtain ⟨value, member, rfl⟩ := List.mem_map.mp here
        exact (list_typed (typed value member)).2 item inside
    obtain ⟨held, stored⟩ := encodeField_stores laws element children
    have unfolds : encode arrow (.list element) depth values =
        encodeField arrow element (values.map itemsOf).flatten >>= fun child =>
          arrow.fromLengths ((values.map itemsOf).map List.length) >>= fun offsets =>
            arrowError (arrow.list (listField element) offsets child (nullsOf values)) := by
      rw [encode, listParts_eq lists]
      rfl
    have offsets : ∀ child, Holds element.dtype .nested child (values.map itemsOf).flatten →
        Offsets (offsetsOf ((values.map itemsOf).map List.length)) child.len := fun child holds => by
      rw [holds.len_eq, List.length_flatten]
      exact offsets_offsetsOf _
    unfold Stores
    rw [unfolds]
    constructor
    · intro array run
      obtain ⟨child, ran, run⟩ := bind_eq_ok run
      obtain ⟨found, summed, finished⟩ := bind_eq_ok run
      obtain ⟨_, rfl⟩ := (laws.fromLengths _).1 found summed
      obtain ⟨_, rfl⟩ := (laws.list _ _ _ _ (offsets child (held child ran))).1 array (arrowError_ok finished)
      exact holds_list lists (held child ran)
    · intro fits
      obtain ⟨small, childFits⟩ := fits
      obtain ⟨child, ran⟩ := stored childFits
      have holds := held child ran
      refine ⟨.list (listField element) (offsetsOf ((values.map itemsOf).map List.length)) child (nullsOf values), ?_⟩
      rw [ran, (laws.fromLengths _).2 (by rwa [← List.length_flatten])]
      show arrowError (arrow.list (listField element) _ child (nullsOf values)) = _
      rw [(laws.list _ _ _ _ (offsets child holds)).2]
      · rfl
      · refine ⟨by rw [listField_dataType]; exact holds.dataType, ?_, fun nonnull => ?_⟩
        · rw [length_offsetsOf, List.length_map, List.length_map, Nat.add_sub_cancel]
          exact validityFits_nullsOf values
        · rw [listField_nullable] at nonnull
          cases nonnull
  | struct fields =>
    have structs : ∀ value ∈ values, FieldsFrom fields 0 value := fun value member =>
      struct_typed (typed value member)
    obtain ⟨held, stored⟩ := encodeFields_stores laws fields 0 structs
    have unfolds : encode arrow (.struct fields) depth values = encodeFields arrow fields 0 values >>= fun columns =>
        arrowError (arrow.struct (structFields fields) columns (nullsOf values) values.length) := by
      rw [encode]
    unfold Stores
    rw [unfolds]
    constructor
    · intro array run
      obtain ⟨columns, ran, finished⟩ := bind_eq_ok run
      obtain ⟨_, rfl⟩ := (laws.struct _ _ _ _).1 array (arrowError_ok finished)
      obtain ⟨valid, items⟩ := held columns ran
      exact holds_struct structs valid items
    · intro fits
      obtain ⟨columns, ran⟩ := stored fits
      obtain ⟨valid, _⟩ := held columns ran
      refine ⟨.struct (structFields fields) columns (nullsOf values) values.length, ?_⟩
      rw [ran]
      show arrowError (arrow.struct (structFields fields) columns (nullsOf values) values.length) = _
      rw [(laws.struct _ _ _ _).2 ⟨validityFits_nullsOf values, columnFits_fields valid _⟩]
      rfl
  | map key item valueNullable =>
    have maps : ∀ value ∈ values, value = .null ∨ value = .map (entriesIn value) := fun value member =>
      (map_typed (typed value member)).1
    have entries : ∀ entry ∈ (values.map entriesIn).flatten,
        entry.1.hasType key true = true ∧ entry.2.hasType item true = true := fun entry member => by
      obtain ⟨group, here, inside⟩ := List.mem_flatten.mp member
      obtain ⟨value, member, rfl⟩ := List.mem_map.mp here
      exact (map_typed (typed value member)).2 entry inside
    have keysTyped : ∀ held ∈ (values.map entriesIn).flatten.map Prod.fst, held.hasType key true = true :=
      fun held member => by
        obtain ⟨entry, here, rfl⟩ := List.mem_map.mp member
        exact (entries entry here).1
    have itemsTyped : ∀ held ∈ (values.map entriesIn).flatten.map Prod.snd, held.hasType item true = true :=
      fun held member => by
        obtain ⟨entry, here, rfl⟩ := List.mem_map.mp member
        exact (entries entry here).2
    obtain ⟨keysHeld, keysStored⟩ := encode_stores laws key .nested keysTyped
    obtain ⟨itemsHeld, itemsStored⟩ := encode_stores laws item .nested itemsTyped
    have unfolds : encode arrow (.map key item valueNullable) depth values =
        encode arrow key .nested ((values.map entriesIn).flatten.map Prod.fst) >>= fun keyColumn =>
          encode arrow item .nested ((values.map entriesIn).flatten.map Prod.snd) >>= fun itemColumn =>
            arrowError (arrow.struct (mapEntryFields key item) [keyColumn, itemColumn] none
              ((values.map entriesIn).flatten.map Prod.fst).length) >>= fun entries =>
                arrow.fromLengths ((values.map entriesIn).map List.length) >>= fun offsets =>
                  arrowError (arrow.map (mapEntriesField key item) offsets entries (nullsOf values) false) := by
      rw [encode, mapParts_eq maps]
      rfl
    have offsets : Offsets (offsetsOf ((values.map entriesIn).map List.length))
        ((values.map entriesIn).flatten.map Prod.fst).length := by
      rw [List.length_map, List.length_flatten]
      exact offsets_offsetsOf _
    unfold Stores
    rw [unfolds]
    constructor
    · intro array run
      obtain ⟨keyColumn, ranKeys, run⟩ := bind_eq_ok run
      obtain ⟨itemColumn, ranItems, run⟩ := bind_eq_ok run
      obtain ⟨built, joined, run⟩ := bind_eq_ok run
      obtain ⟨_, rfl⟩ := (laws.struct _ _ _ _).1 built (arrowError_ok joined)
      obtain ⟨found, summed, finished⟩ := bind_eq_ok run
      obtain ⟨_, rfl⟩ := (laws.fromLengths _).1 found summed
      obtain ⟨_, rfl⟩ := (laws.map _ _ _ _ _ _ _ rfl offsets).1 array (arrowError_ok finished)
      exact holds_map maps (keysHeld keyColumn ranKeys) (itemsHeld itemColumn ranItems)
    · intro fits
      obtain ⟨small, nonnull, keysFit, itemsFit⟩ := fits
      obtain ⟨keyColumn, ranKeys⟩ := keysStored keysFit
      obtain ⟨itemColumn, ranItems⟩ := itemsStored itemsFit
      have keysHold := keysHeld keyColumn ranKeys
      have itemsHold := itemsHeld itemColumn ranItems
      have joined := (laws.struct (mapEntryFields key item) [keyColumn, itemColumn] none
        ((values.map entriesIn).flatten.map Prod.fst).length).2 ⟨nofun, .cons ⟨keysHold.dataType, keysHold.len_eq,
          fun _ row inside _ null => ?_⟩ (.cons ⟨itemsHold.dataType, ?_, nofun⟩ .nil)⟩
      · refine ⟨.map (mapEntriesField key item) (offsetsOf ((values.map entriesIn).map List.length))
          (.struct (mapEntryFields key item) [keyColumn, itemColumn] none
            ((values.map entriesIn).flatten.map Prod.fst).length) (nullsOf values) false, ?_⟩
        rw [ranKeys, ranItems]
        show arrowError (arrow.struct (mapEntryFields key item) [keyColumn, itemColumn] none _) >>= _ = _
        rw [joined]
        show arrow.fromLengths _ >>= _ = _
        rw [(laws.fromLengths _).2 (by rwa [← List.length_flatten])]
        show arrowError (arrow.map (mapEntriesField key item) _ _ (nullsOf values) false) = _
        rw [(laws.map _ _ _ _ _ _ _ rfl offsets).2]
        · rfl
        · refine ⟨rfl, ?_, rfl⟩
          rw [length_offsetsOf, List.length_map, List.length_map, Nat.add_sub_cancel]
          exact validityFits_nullsOf values
      · rw [List.length_map] at inside
        rw [keysHold.value row _ (by rw [List.getElem?_map, List.getElem?_eq_getElem inside]; rfl)] at null
        exact nonnull _ (List.getElem_mem inside) null
      · rw [itemsHold.len_eq, List.length_map, List.length_map]
  | bool =>
    refine stores_slots .bool .boolean (by cases depth <;> rfl) (fun value member => ?_) (fun value held found => ?_)
      fun cells same => holds_slots same (by cases depth <;> rfl) trivial rfl fun _ => rfl
    · have held := typed value member
      cases value <;> simp_all [Value.hasType, Value.isNull, asBool]
    · cases value <;> simp_all [asBool]
  | int64 =>
    refine stores_slots .int64 .int64 (by cases depth <;> rfl) (fun value member => ?_) (fun value held found => ?_)
      fun cells same => holds_slots same (by cases depth <;> rfl) trivial rfl fun _ => rfl
    · have held := typed value member
      cases value <;> simp_all [Value.hasType, Value.isNull, asInt64]
    · cases value <;> simp_all [asInt64]
  | float64 =>
    refine stores_slots .float64 .float64 (by cases depth <;> rfl) (fun value member => ?_) (fun value held found => ?_)
      fun cells same => holds_slots same (by cases depth <;> rfl) trivial rfl fun _ => rfl
    · have held := typed value member
      cases value <;> simp_all [Value.hasType, Value.isNull, asFloat64]
    · cases value <;> simp_all [asFloat64]
  | timestamp =>
    refine stores_slots .timestamp .timestampMs (by cases depth <;> rfl) (fun value member => ?_) (fun value held found => ?_)
      fun cells same => holds_slots same (by cases depth <;> rfl) trivial rfl fun _ => rfl
    · have held := typed value member
      cases value <;> simp_all [Value.hasType, Value.isNull, asTimestamp]
    · cases value <;> simp_all [asTimestamp]
  | date =>
    refine stores_slots .date .date32 (by cases depth <;> rfl) (fun value member => ?_) (fun value held found => ?_)
      fun cells same => holds_slots same (by cases depth <;> rfl) trivial rfl fun _ => rfl
    · have held := typed value member
      cases value <;> simp_all [Value.hasType, Value.isNull, asDate]
    · cases value <;> simp_all [asDate]
  | interval =>
    refine stores_slots (fun v => .interval v.1 v.2.1 v.2.2) .interval (by cases depth <;> rfl) (fun value member => ?_) (fun value held found => ?_)
      fun cells same => holds_slots same (by cases depth <;> rfl) trivial rfl fun _ => rfl
    · have held := typed value member
      cases value <;> simp_all [Value.hasType, Value.isNull, asInterval]
    · cases value <;> cases found
      rfl

theorem encodeField_stores (laws : arrow.Lawful) (field : Ir.Field DataType) {values : List Value}
    (typed : ∀ value ∈ values, value.hasType field.dtype true = true) :
    (∀ array, encodeField arrow field values = .ok array → Holds field.dtype .nested array values) ∧
      (FitsField field values → ∃ array, encodeField arrow field values = .ok array) := by
  obtain ⟨name, dtype, nullable, table⟩ := field
  exact encode_stores laws dtype .nested typed

theorem encodeFields_stores (laws : arrow.Lawful) (fields : List (Ir.Field DataType)) (index : Nat)
    {values : List Value} (typed : ∀ value ∈ values, FieldsFrom fields index value) :
    (∀ columns, encodeFields arrow fields index values = .ok columns →
        AllValid (structFields fields) columns values.length ∧
          ∀ row items, values[row]? = some (.struct items) → valuesAt columns row = items.drop index) ∧
      (FitsFields fields index values → ∃ columns, encodeFields arrow fields index values = .ok columns) := by
  cases fields with
  | nil =>
    refine ⟨fun columns run => ?_, fun _ => ⟨[], rfl⟩⟩
    cases run
    refine ⟨trivial, fun row items here => ?_⟩
    obtain null | ⟨held, same, none⟩ := typed _ (List.mem_of_getElem? here)
    · cases null
    · cases same
      cases rest : items.drop index with
      | nil => rfl
      | cons _ _ =>
        rw [rest] at none
        cases none
  | cons field rest =>
    have parts := fun value member => (typed value member).cons
    have column : values.mapM (structItem index) = .ok (values.map (fieldOf index)) :=
      mapM_pure fun value member => (parts value member).1
    have columnTyped : ∀ held ∈ values.map (fieldOf index), held.hasType field.dtype true = true :=
      fun held member => by
        obtain ⟨value, here, rfl⟩ := List.mem_map.mp member
        exact (parts value here).2.1
    obtain ⟨held, stored⟩ := encodeField_stores laws field columnTyped
    obtain ⟨othersHeld, othersStored⟩ := encodeFields_stores laws rest (index + 1) fun value member =>
      (parts value member).2.2
    have unfolds : encodeFields arrow (field :: rest) index values =
        encodeField arrow field (values.map (fieldOf index)) >>= fun child =>
          encodeFields arrow rest (index + 1) values >>= fun others => .ok (child :: others) := by
      rw [encodeFields, column]
      rfl
    rw [unfolds]
    constructor
    · intro columns run
      obtain ⟨child, ran, run⟩ := bind_eq_ok run
      obtain ⟨others, ranRest, finished⟩ := bind_eq_ok run
      cases finished
      have holds := held child ran
      obtain ⟨valid, items⟩ := othersHeld others ranRest
      refine ⟨⟨by rw [holds.len_eq, List.length_map], by rw [listField_dataType]; exact holds.dataType, holds.valid,
        valid⟩, fun row found here => ?_⟩
      have inside : index < found.length := by
        by_contra past
        obtain null | ⟨held, same, short⟩ := typed _ (List.mem_of_getElem? here)
        · cases null
        · cases same
          rw [List.drop_eq_nil_of_le (by omega)] at short
          cases short
      rw [valuesAt, holds.value row _ (by rw [List.getElem?_map, here]; rfl), items row found here,
        List.drop_eq_getElem_cons inside]
      congr 1
      rw [fieldOf, List.getD_eq_getElem?_getD, List.getElem?_eq_getElem inside, Option.getD_some]
    · intro fits
      obtain ⟨child, ran⟩ := stored fits.1
      obtain ⟨others, ranRest⟩ := othersStored fits.2
      refine ⟨child :: others, ?_⟩
      rw [ran, ranRest]
      rfl
end

/-! ### Decoding -/

theorem Holds.decode {dtype : DataType} {depth : ColumnDepth} {array : ArrowArray} {values : List Value}
    (holds : Holds dtype depth array values) : ArrowColumns.decode dtype depth array = .ok values := by
  rw [decode_valueAt dtype depth holds.valid holds.dataType, holds.len_eq]
  refine congrArg Except.ok (List.ext_getElem (by simp) fun row _ inside => ?_)
  rw [List.getElem_map, List.getElem_range]
  exact holds.value row _ (List.getElem?_eq_getElem inside)

/-- Rows taken from an array: one of its layout, each row the one its index names. -/
structure IsTake (array : ArrowArray) (indices : List Nat) (taken : ArrowArray) : Prop where
  dataType : taken.dataType = array.dataType
  valid : taken.Valid
  len_eq : taken.len = indices.length
  value row index : indices[row]? = some index → taken.valueAt row = array.valueAt index

theorem Holds.take {dtype : DataType} {depth : ColumnDepth} {array taken : ArrowArray} {values : List Value}
    {indices : List Nat} (holds : Holds dtype depth array values) (takes : IsTake array indices taken)
    (inside : ∀ index ∈ indices, index < values.length) :
    Holds dtype depth taken (indices.map (values.getD · .null)) where
  dataType := takes.dataType.trans holds.dataType
  valid := takes.valid
  len_eq := by rw [takes.len_eq, List.length_map]
  value row value here := by
    obtain ⟨index, there, rfl⟩ := Option.map_eq_some_iff.mp (List.getElem?_map ▸ here)
    have small := inside index (List.mem_of_getElem? there)
    rw [takes.value row index there, List.getD_eq_getElem?_getD, List.getElem?_eq_getElem small, Option.getD_some]
    exact holds.value index _ (List.getElem?_eq_getElem small)

theorem repeat_stores (laws : arrow.Lawful) (dtype : DataType) (depth : ColumnDepth) {value : Value}
    (typed : value.hasType dtype true = true) (length : Nat) :
    (∀ array, «repeat» arrow dtype depth value length = .ok array →
        Holds dtype depth array (List.replicate length value)) ∧
      (Fits dtype depth [value] → Fits dtype depth (List.replicate length value) →
        ∃ array, «repeat» arrow dtype depth value length = .ok array) := by
  unfold «repeat»
  split
  · rename_i text
    have copies : List.Forall₂ (KeyOf [text]) (List.replicate length (.utf8 text))
        (List.replicate length (some 0)) := by
      refine List.forall₂_iff_get.mpr ⟨by simp, fun row first second => .inr ⟨text, 0, ?_, ?_, rfl⟩⟩ <;>
        simp only [List.get_eq_getElem, List.getElem_replicate]
    constructor
    · intro array run
      obtain ⟨texts, kept, finished⟩ := bind_eq_ok run
      obtain ⟨_, rfl⟩ := (laws.texts _).1 texts kept
      obtain ⟨_, rfl⟩ := (laws.dictionary _ _).1 array (arrowError_ok finished)
      exact holds_dictionary copies
    · intro single _
      have small : textBytes [text] ≤ i32Max := by
        rw [Fits, show textsOf [.utf8 text] = [text] from rfl] at single
        simpa using single
      refine ⟨.dictionary (List.replicate length (some 0)) [text], ?_⟩
      rw [(laws.texts _).2 small]
      show arrowError (arrow.dictionary (List.replicate length (some 0)) [text]) = _
      rw [(laws.dictionary _ _).2 (keyOf_inside copies)]
      rfl
  · have copies : ∀ other ∈ List.replicate length value, other.hasType dtype true = true := fun other member => by
      rwa [List.eq_of_mem_replicate member]
    obtain ⟨held, stored⟩ := encode_stores laws dtype depth copies
    exact ⟨held, fun _ fits => stored fits⟩

/-- A column's array decodes to its values and a take of it to the values taken, a repeated value to its copies;
a column is stored wherever the library accepts its parts. -/
theorem round_trip (laws : arrow.Lawful) (dtype : DataType) (depth : ColumnDepth) :
    (∀ values : List Value, (∀ value ∈ values, value.hasType dtype true = true) →
      (Fits dtype depth values → ∃ array, encode arrow dtype depth values = .ok array) ∧
        ∀ array, encode arrow dtype depth values = .ok array → decode dtype depth array = .ok values ∧
          ∀ indices taken, (∀ index ∈ indices, index < values.length) → IsTake array indices taken →
            decode dtype depth taken = .ok (indices.map (values.getD · .null))) ∧
      ∀ (value : Value) (length : Nat), value.hasType dtype true = true →
        (Fits dtype depth [value] → Fits dtype depth (List.replicate length value) →
          ∃ array, «repeat» arrow dtype depth value length = .ok array) ∧
            ∀ array, «repeat» arrow dtype depth value length = .ok array →
              decode dtype depth array = .ok (List.replicate length value) := by
  refine ⟨fun values typed => ?_, fun value length typed => ?_⟩
  · obtain ⟨held, stored⟩ := encode_stores laws dtype depth typed
    refine ⟨stored, fun array run => ⟨(held array run).decode, fun indices taken inside takes => ?_⟩⟩
    exact ((held array run).take takes inside).decode
  · obtain ⟨held, stored⟩ := repeat_stores laws dtype depth typed length
    exact ⟨stored, fun array run => (held array run).decode⟩

end

/-! ### Arrays that keep their parts -/

open Classical in
/-- A constructor of one array, that refuses what is not accepted. -/
noncomputable def keeping {ε α : Type} (refused : ε) (given : α) (accepted : Prop) : Except ε α :=
  if accepted then .ok given else .error refused

theorem keeps_keeping {ε α : Type} (refused : ε) (given : α) (accepted : Prop) :
    Keeps (keeping refused given accepted) given accepted := by
  unfold Keeps keeping
  by_cases fine : accepted
  · simp only [fine, if_true]
    exact ⟨fun kept run => ⟨trivial, (Except.ok.inj run).symm⟩, fun _ => trivial⟩
  · simp [fine]

theorem Keeps.congr {ε α : Type} {run : Except ε α} {given : α} {accepted accepted' : Prop}
    (kept : Keeps run given accepted) (same : accepted ↔ accepted') : Keeps run given accepted' :=
  propext same ▸ kept

/-- The library by its documented checks. -/
noncomputable def checkedArrow : Arrow where
  fromLengths lengths := keeping .panic (offsetsOf lengths) (lengths.sum ≤ i32Max)
  strings slots := keeping .panic slots (textBytes slots.reduceOption ≤ i32Max)
  texts texts := keeping .panic texts (textBytes texts ≤ i32Max)
  dictionary keys texts := keeping "key out of bounds" (.dictionary keys texts)
    (∀ key, some key ∈ keys → key < texts.length)
  list field offsets values nulls := keeping "invalid list" (.list field offsets values nulls)
    (values.dataType = field.dataType ∧ validityFits nulls (offsets.length - 1) ∧
      (field.nullable = false → ∀ row < values.len, values.valueAt row ≠ .null))
  struct fields columns nulls length := keeping "invalid struct" (.struct fields columns nulls length)
    (validityFits nulls length ∧ List.Forall₂ (ColumnFits nulls length) fields columns)
  map field offsets entries nulls sorted := keeping "invalid map" (.map field offsets entries nulls sorted)
    (entries.dataType = field.dataType ∧ validityFits nulls (offsets.length - 1) ∧ field.nullable = false ∧
      (∀ row < entries.len, entries.valueAt row ≠ .null) ∧
        ∃ fields columns valid length, entries = .struct fields columns valid length ∧ columns.length = 2)

theorem checkedArrow_lawful : checkedArrow.Lawful where
  fromLengths _ := keeps_keeping _ _ _
  strings _ := keeps_keeping _ _ _
  texts _ := keeps_keeping _ _ _
  dictionary _ _ := keeps_keeping _ _ _
  list _ _ _ _ _ := keeps_keeping _ _ _
  struct _ _ _ _ := keeps_keeping _ _ _
  map field offsets fields columns length nulls sorted plain _ := by
    refine (keeps_keeping _ _ _).congr ⟨?_, fun accepted => ?_⟩
    · rintro ⟨type, valid, -, -, _, _, _, _, same, two⟩
      cases same
      exact ⟨type, valid, two⟩
    · obtain ⟨type, valid, two⟩ := accepted
      refine ⟨type, valid, plain, fun row _ null => ?_, _, _, _, _, rfl, two⟩
      rw [ArrowArray.valueAt] at null
      cases null

/-- Lists of texts, one of them NULL. -/
theorem round_trip_lists : ∃ array, encode checkedArrow (.list ⟨"item", .utf8, true, none⟩) .batchColumn
      [.list [.utf8 "a", .null], .null, .list []] = .ok array ∧
    decode (.list ⟨"item", .utf8, true, none⟩) .batchColumn array =
      .ok [.list [.utf8 "a", .null], .null, .list []] := by
  have typed : ∀ value ∈ [Value.list [.utf8 "a", .null], .null, .list []],
      value.hasType (.list ⟨"item", .utf8, true, none⟩) true = true := by decide
  obtain ⟨stored, held⟩ := (round_trip checkedArrow_lawful (.list ⟨"item", .utf8, true, none⟩) .batchColumn).1 _ typed
  have bytes : textBytes (textsOf [.utf8 "a", .null]) ≤ i32Max := by decide
  obtain ⟨array, run⟩ := stored ⟨by decide, bytes⟩
  exact ⟨array, run, (held array run).1⟩

end AsapPlanner.ArrowColumns
