import AsapPlanner.ArrowColumns.Decoded
import AsapPlanner.Expressions.Operations
import Mathlib.Algebra.GroupWithZero.Nat
import Mathlib.Data.List.Dedup

/-!
The parts a column's values are stored by. A text column's codes: each row's text is the entry of its
code.
-/

namespace AsapPlanner.ArrowColumns
open Ir Rust Grouping ArrowArray

/-! ### Values of nested types -/

/-- A value's items, none of NULL. -/
def itemsOf : Value → List Value
  | .list items => items
  | _ => []

def entriesIn : Value → List (Value × Value)
  | .map entries => entries
  | _ => []

def fieldOf (index : Nat) : Value → Value
  | .struct items => items.getD index .null
  | _ => .null

def textsOf (values : List Value) : List String := values.filterMap asText

section Types
variable {value : Value}

theorem allHaveType_iff {items : List Value} {dtype : DataType} {nullable : Bool} :
    Value.allHaveType items dtype nullable = true ↔ ∀ item ∈ items, item.hasType dtype nullable = true := by
  induction items with
  | nil => simp [Value.allHaveType]
  | cons item rest ih => rw [Value.allHaveType, Bool.and_eq_true, ih, List.forall_mem_cons]

theorem entriesHaveType_iff {entries : List (Value × Value)} {key value : DataType} {nullable : Bool} :
    Value.entriesHaveType entries key value nullable = true ↔
      ∀ entry ∈ entries, entry.1.hasType key false = true ∧ entry.2.hasType value nullable = true := by
  induction entries with
  | nil => simp [Value.entriesHaveType]
  | cons entry rest ih =>
    obtain ⟨k, v⟩ := entry
    rw [Value.entriesHaveType, Bool.and_eq_true, Bool.and_eq_true, ih, List.forall_mem_cons]

theorem list_typed {element : Ir.Field DataType} (typed : value.hasType (.list element) true = true) :
    (value = .null ∨ value = .list (itemsOf value)) ∧
      ∀ item ∈ itemsOf value, item.hasType element.dtype true = true := by
  cases value with
  | null => exact ⟨.inl rfl, nofun⟩
  | list items =>
    refine ⟨.inr rfl, fun item member => ?_⟩
    exact Value.hasType_nullable (allHaveType_iff.mp typed item member) fun _ => rfl
  | _ => cases typed

theorem map_typed {key item : DataType} {valueNullable : Bool}
    (typed : value.hasType (.map key item valueNullable) true = true) :
    (value = .null ∨ value = .map (entriesIn value)) ∧
      ∀ entry ∈ entriesIn value, entry.1.hasType key true = true ∧ entry.2.hasType item true = true := by
  cases value with
  | null => exact ⟨.inl rfl, nofun⟩
  | map entries =>
    refine ⟨.inr rfl, fun entry member => ?_⟩
    obtain ⟨keyTyped, itemTyped⟩ := entriesHaveType_iff.mp typed entry member
    exact ⟨Value.hasType_nullable keyTyped fun _ => rfl, Value.hasType_nullable itemTyped fun _ => rfl⟩
  | _ => cases typed

def FieldsFrom (fields : List (Ir.Field DataType)) (index : Nat) (value : Value) : Prop :=
  value = .null ∨ ∃ items, value = .struct items ∧ Value.fieldsHaveType (items.drop index) fields = true

theorem struct_typed {fields : List (Ir.Field DataType)} (typed : value.hasType (.struct fields) true = true) :
    FieldsFrom fields 0 value := by
  cases value with
  | null => exact .inl rfl
  | struct items => exact .inr ⟨items, rfl, typed⟩
  | _ => cases typed

theorem FieldsFrom.cons {field : Ir.Field DataType} {rest : List (Ir.Field DataType)} {index : Nat}
    (typed : FieldsFrom (field :: rest) index value) : structItem index value = .ok (fieldOf index value) ∧
      (fieldOf index value).hasType field.dtype true = true ∧ FieldsFrom rest (index + 1) value := by
  obtain rfl | ⟨items, rfl, typed⟩ := typed
  · refine ⟨rfl, ?_, .inl rfl⟩
    show Value.null.hasType field.dtype true = true
    unfold Value.hasType
    rfl
  · cases found : items.drop index with
    | nil =>
      rw [found] at typed
      cases typed
    | cons item others =>
      rw [found, Value.fieldsHaveType, Bool.and_eq_true] at typed
      have here : items[index]? = some item := by
        rw [← List.head?_drop, found]
        rfl
      have same : fieldOf index (.struct items) = item := by
        rw [fieldOf, List.getD_eq_getElem?_getD, here]
        rfl
      refine ⟨?_, ?_, .inr ⟨items, rfl, ?_⟩⟩
      · rw [same, structItem, here]
      · rw [same]
        exact Value.hasType_nullable typed.1 fun _ => rfl
      · rw [← List.drop_drop, found]
        exact typed.2

end Types

/-! ### Parts -/

theorem listParts_eq {values : List Value} (lists : ∀ value ∈ values, value = .null ∨ value = .list (itemsOf value)) :
    listParts values = .ok ((values.map itemsOf).flatten, (values.map itemsOf).map List.length) := by
  induction values with
  | nil => rfl
  | cons value rest ih =>
    obtain ⟨first, others⟩ := List.forall_mem_cons.mp lists
    obtain rfl | same := first
    · rw [listParts, ih others]
      rfl
    · rw [same, listParts, ih others]
      rfl

theorem mapParts_eq {values : List Value} (maps : ∀ value ∈ values, value = .null ∨ value = .map (entriesIn value)) :
    mapParts values = .ok ((values.map entriesIn).flatten.map Prod.fst, (values.map entriesIn).flatten.map Prod.snd,
      (values.map entriesIn).map List.length) := by
  induction values with
  | nil => rfl
  | cons value rest ih =>
    obtain ⟨first, others⟩ := List.forall_mem_cons.mp maps
    obtain rfl | same := first
    · rw [mapParts, ih others]
      rfl
    · rw [same, mapParts, ih others]
      simp only [bind, Except.bind, entriesIn, List.map_cons, List.flatten_cons, List.map_append]

theorem slots_typed {α : Type} {read : Value → Option α} {mk : α → Value} {values : List Value}
    (readable : ∀ value ∈ values, value.isNull = true ∨ (read value).isSome = true)
    (reads : ∀ value held, read value = some held → value = mk held) :
    ∃ cells, Expressions.slots read values = .ok cells ∧ cells.map (Column.ofSlot mk) = values := by
  obtain ⟨cells, made⟩ : ∃ cells, Expressions.slots read values = .ok cells := by
    refine mapM_total fun value member => ?_
    by_cases null : value.isNull = true
    · exact ⟨none, if_pos null⟩
    · obtain ⟨held, found⟩ := Option.isSome_iff_exists.mp ((readable value member).resolve_left null)
      exact ⟨some held, by simp [null, found]⟩
  exact ⟨cells, made, Expressions.slots_ok reads made⟩

/-! ### Validity -/

theorem isNullAt_nullsOf {values : List Value} {row : Nat} {value : Value} (here : values[row]? = some value) :
    isNullAt (nullsOf values) row = value.isNull := by
  unfold nullsOf isNullAt
  by_cases some_ : values.any Value.isNull = true
  · simp [some_, here]
  · have filled := List.any_eq_false.mp (Bool.eq_false_iff.mpr some_) value (List.mem_of_getElem? here)
    simp [some_, filled]

theorem validityFits_nullsOf (values : List Value) : validityFits (nullsOf values) values.length := by
  intro valid member
  unfold nullsOf at member
  split at member
  · cases member
    rw [List.length_map]
  · cases member

/-! ### Offsets -/

theorem length_offsetsOf (lengths : List Nat) : (offsetsOf lengths).length = lengths.length + 1 := by
  rw [offsetsOf, List.length_map, List.length_range]

theorem offsetsOf_get {lengths : List Nat} {row : Nat} (small : row ≤ lengths.length) :
    (offsetsOf lengths).getD row 0 = (lengths.take row).sum := by
  rw [offsetsOf, List.getD_eq_getElem?_getD, List.getElem?_map, List.getElem?_range (by omega)]
  rfl

theorem sum_take_le_sum (lengths : List Nat) (count : Nat) : (lengths.take count).sum ≤ lengths.sum := by
  calc (lengths.take count).sum ≤ (lengths.take count).sum + (lengths.drop count).sum := Nat.le_add_right _ _
    _ = lengths.sum := by rw [← List.sum_append, List.take_append_drop]

theorem sum_take_le (lengths : List Nat) {first second : Nat} (ordered : first ≤ second) :
    (lengths.take first).sum ≤ (lengths.take second).sum := by
  rw [show lengths.take first = (lengths.take second).take first by rw [List.take_take, Nat.min_eq_left ordered]]
  exact sum_take_le_sum _ _

theorem offsets_offsetsOf (lengths : List Nat) : Offsets (offsetsOf lengths) lengths.sum where
  nonempty empty := by
    have length := length_offsetsOf lengths
    rw [empty] at length
    cases length
  ordered := by
    rw [offsetsOf, List.pairwise_map]
    exact List.pairwise_le_range.imp fun ordered => sum_take_le lengths ordered
  inside offset member := by
    obtain ⟨count, _, rfl⟩ := List.mem_map.mp member
    exact sum_take_le_sum _ _

theorem rowsAt_flatten {α β : Type} (f : Nat → β) (g : α → β) {groups : List (List α)} {row : Nat} {group : List α}
    (here : groups[row]? = some group) (each : ∀ item value, groups.flatten[item]? = some value → f item = g value) :
    (rowsAt (offsetsOf (groups.map List.length)) row).map f = group.map g := by
  have small : row < groups.length := (List.getElem?_eq_some_iff.mp here).1
  unfold rowsAt
  rw [offsetsOf_get (by rw [List.length_map]; omega), offsetsOf_get (by rw [List.length_map]; omega)]
  induction groups generalizing row f with
  | nil => cases here
  | cons first rest ih =>
    cases row with
    | zero =>
      obtain rfl : first = group := Option.some.inj here
      refine List.ext_getElem (by simp) fun item inside _ => ?_
      simp only [List.length_map, List.length_range', List.map_cons, List.take_zero, List.sum_nil] at inside
      have small : item < first.length := by simpa using inside
      simp only [List.map_cons, List.take_zero, List.sum_nil, List.getElem_map, List.getElem_range', Nat.zero_add,
        Nat.one_mul]
      exact each item _ (by rw [List.flatten_cons, List.getElem?_append_left small, List.getElem?_eq_getElem small])
    | succ row =>
      rw [List.length_cons] at small
      have later : rest[row]? = some group := here
      have shifted := ih (fun item => f (first.length + item)) later (fun item value found =>
        each (first.length + item) value (by
          rw [List.flatten_cons, List.getElem?_append_right (by omega), Nat.add_sub_cancel_left]
          exact found)) (by omega)
      rw [← shifted]
      simp only [List.map_cons, List.take_succ_cons, List.sum_cons]
      rw [show (first.length + ((rest.map List.length).take (row + 1)).sum -
          (first.length + ((rest.map List.length).take row).sum)) =
            ((rest.map List.length).take (row + 1)).sum - ((rest.map List.length).take row).sum by omega]
      refine List.ext_getElem (by simp) fun item _ _ => ?_
      simp only [List.getElem_map, List.getElem_range', Nat.one_mul]
      congr 1
      omega

/-! ### Text codes -/

/-- Distinct texts, each with the code of its place. -/
structure TextCodes.Right (state : TextCodes) : Prop where
  nodup : state.dictionary.Nodup
  known text : state.codes text = none ↔ text ∉ state.dictionary
  -- A code wraps where the dictionary has more texts than there are codes.
  entry text code : state.codes text = some code → state.dictionary.length ≤ u32Max + 1 →
    state.dictionary[code]? = some text

theorem TextCodes.start_right : (TextCodes.mk (fun _ => none) []).Right :=
  ⟨List.nodup_nil, fun _ => by simp, nofun⟩

section Codes
variable {state : TextCodes}

theorem TextCodes.code_right (right : state.Right) (text : String) : (state.code text).1.Right ∧
    state.dictionary <+: (state.code text).1.dictionary ∧
      (∀ other, other ∈ (state.code text).1.dictionary ↔ other = text ∨ other ∈ state.dictionary) ∧
        ((state.code text).1.dictionary.length ≤ u32Max + 1 →
          (state.code text).1.dictionary[(state.code text).2]? = some text) := by
  unfold TextCodes.code
  cases known : state.codes text with
  | some code =>
    have present : text ∈ state.dictionary := by
      by_contra absent
      rw [(right.known text).mpr absent] at known
      cases known
    refine ⟨right, List.prefix_rfl, fun other => ?_, right.entry text code known⟩
    exact ⟨.inr, fun member => member.elim (fun same => same ▸ present) id⟩
  | none =>
    have absent := (right.known text).mp known
    have last : (state.dictionary ++ [text]).length ≤ u32Max + 1 →
        (state.dictionary ++ [text])[state.dictionary.length % (u32Max + 1)]? = some text := fun few => by
      rw [List.length_append, List.length_singleton] at few
      rw [Nat.mod_eq_of_lt (by omega)]
      simp
    refine ⟨⟨?_, fun other => ?_, fun other code held few => ?_⟩, List.prefix_append _ _, fun other => ?_, last⟩
    · rw [List.nodup_append]
      exact ⟨right.nodup, List.nodup_singleton _, fun _ member _ new same =>
        absent (List.mem_singleton.mp new ▸ same ▸ member)⟩
    · dsimp only
      by_cases same : other = text
      · subst same
        simp
      · rw [Function.update_of_ne same, right.known]
        simp [same]
    · dsimp only at held few ⊢
      by_cases same : other = text
      · subst same
        rw [Function.update_self] at held
        cases held
        exact last few
      · rw [Function.update_of_ne same] at held
        rw [List.length_append] at few
        have there := right.entry other code held (by omega)
        rw [List.getElem?_append_left (List.getElem?_eq_some_iff.mp there).1, there]
    · simp [or_comm]

/-- A row's key: none for NULL, else its text's entry. -/
def KeyOf (dictionary : List String) (value : Value) (key : Option Nat) : Prop :=
  value = .null ∧ key = none ∨ ∃ text code, value = .utf8 text ∧ key = some code ∧ dictionary[code]? = some text

theorem encodeTexts_ok (right : state.Right) {values : List Value}
    (texts : ∀ value ∈ values, value.hasType .utf8 true = true) : ∃ later keys,
      encodeTexts state values = .ok (later, keys) ∧ later.Right ∧ state.dictionary <+: later.dictionary ∧
        (∀ text, text ∈ later.dictionary ↔ text ∈ state.dictionary ∨ text ∈ textsOf values) ∧
          (later.dictionary.length ≤ u32Max + 1 → List.Forall₂ (KeyOf later.dictionary) values keys) := by
  induction values generalizing state with
  | nil => exact ⟨state, [], rfl, right, List.prefix_rfl, fun text => by simp [textsOf], fun _ => .nil⟩
  | cons value rest ih =>
    obtain ⟨first, others⟩ := List.forall_mem_cons.mp texts
    cases value with
    | null =>
      obtain ⟨later, keys, ran, laterRight, grows, members, each⟩ := ih right others
      refine ⟨later, none :: keys, ?_, laterRight, grows, members, fun few => .cons (.inl ⟨rfl, rfl⟩) (each few)⟩
      rw [encodeTexts, ran]
      rfl
    | utf8 text =>
      obtain ⟨nextRight, grows, members, here⟩ := TextCodes.code_right right text
      obtain ⟨later, keys, ran, laterRight, growsMore, membersMore, each⟩ := ih nextRight others
      refine ⟨later, some (state.code text).2 :: keys, ?_, laterRight, grows.trans growsMore, fun other => ?_,
        fun few => .cons (.inr ⟨text, _, rfl, rfl, ?_⟩) (each few)⟩
      · rw [encodeTexts]
        simp only [ran, bind, Except.bind]
      · rw [membersMore, members]
        have tail : textsOf (.utf8 text :: rest) = text :: textsOf rest := rfl
        rw [tail, List.mem_cons]
        tauto
      · have shorter := growsMore.length_le
        have there := here (by omega)
        obtain ⟨suffix, whole⟩ := growsMore
        rw [← whole, List.getElem?_append_left (List.getElem?_eq_some_iff.mp there).1, there]
    | _ => cases first

end Codes

theorem length_texts {texts : List String} (nodup : texts.Nodup) (small : textBytes texts ≤ i32Max) :
    texts.length ≤ u32Max + 1 := by
  have most : ∀ texts : List String, "" ∉ texts → texts.length ≤ textBytes texts := fun texts filled => by
    induction texts with
    | nil => exact Nat.zero_le _
    | cons text rest ih =>
      rw [List.mem_cons, not_or] at filled
      have positive : 0 < text.utf8ByteSize := by
        rw [Nat.pos_iff_ne_zero, Ne, String.utf8ByteSize_eq_zero_iff]
        exact fun empty => filled.1 empty.symm
      have shorter := ih filled.2
      simp only [textBytes, List.map_cons, List.sum_cons, List.length_cons] at shorter ⊢
      omega
  have erased := most (texts.erase "") (nodup.not_mem_erase)
  have fewer : textBytes (texts.erase "") ≤ textBytes texts := by
    by_cases member : "" ∈ texts
    · have whole := (List.perm_cons_erase member).map String.utf8ByteSize
      unfold textBytes
      rw [whole.sum_nat, List.map_cons, List.sum_cons]
      omega
    · rw [List.erase_of_not_mem member]
  have shrinks : texts.length - 1 ≤ (texts.erase "").length := List.le_length_erase
  have limits : i32Max < u32Max := by decide
  omega

end AsapPlanner.ArrowColumns
