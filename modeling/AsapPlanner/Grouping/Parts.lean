import AsapPlanner.Grouping.GroupTable

/-!
A column's part ids number its values' keys by first appearance, whichever way a batch's column is
read.
-/

namespace AsapPlanner.Grouping
open Ir Rust Interning Traversal GroupTable

def keyOf (value : Value) : Key :=
  match value.key with
  | .ok key => key
  | .error _ => []

theorem keyOf_eq {value : Value} {key : Key} (fine : value.key = .ok key) : keyOf value = key := by
  unfold keyOf
  rw [fine]

theorem lookup_decEq {α β : Type} [equal : BEq α] [LawfulBEq α] [DecidableEq α] (item : α)
    (entries : List (α × β)) :
    @List.lookup α β equal item entries = @List.lookup α β instBEqOfDecidableEq item entries := by
  rw [lawful_beq_subsingleton equal instBEqOfDecidableEq]

theorem lookup_zipIdx {α : Type} [DecidableEq α] (items : List α) (start : Nat) (item : α) :
    (items.zipIdx start).lookup item =
      if item ∈ items then some (start + items.idxOf item) else none := by
  induction items generalizing start with
  | nil => rfl
  | cons first rest ih =>
    rw [List.zipIdx_cons, List.lookup_cons]
    by_cases same : item = first
    · rw [same]
      simp
    · have different : (item == first) = false := beq_eq_false_iff_ne.mpr same
      rw [different, ih, List.idxOf_cons_ne _ (Ne.symm same)]
      simp only [List.mem_cons, same, false_or]
      split
      · congr 1
        omega
      · rfl

namespace ColumnParts

/-- What the parts hold after these values. -/
def of (seen : List Value) : ColumnParts where
  partOfKey := ((firsts keyOf seen).map keyOf).zipIdx
  firstValues := firsts keyOf seen

theorem of_nil : of [] = empty := rfl

theorem part_ok {seen : List Value} {value : Value} {id : Nat} {next : ColumnParts}
    (run : part (keyOf value) value (of seen) = .ok (id, next)) :
    next = of (seen ++ [value]) ∧ id = number keyOf (seen ++ [value]) (keyOf value) := by
  unfold part of at run
  dsimp only at run
  rw [lookup_decEq, lookup_zipIdx] at run
  by_cases known : keyOf value ∈ (firsts keyOf seen).map keyOf
  · rw [if_pos known] at run
    have seenKey := mem_keys_firsts.mp known
    obtain ⟨same, kept⟩ := Prod.mk.inj (Except.ok.inj run)
    constructor
    · rw [← kept]
      unfold of
      rw [firsts_known seenKey]
    · rw [← same, number_append seenKey]
      exact Nat.zero_add _
  · rw [if_neg known] at run
    have fresh : keyOf value ∉ seen.map keyOf := fun seenKey => known (mem_keys_firsts.mpr seenKey)
    dsimp only at run
    split at run
    · obtain ⟨same, grown⟩ := Prod.mk.inj (Except.ok.inj run)
      constructor
      · rw [← grown]
        unfold of
        rw [firsts_new fresh, List.map_append, List.zipIdx_append, List.length_map, Nat.zero_add]
        rfl
      · rw [← same, number_new fresh]
    · cases run

theorem part_fine {seen : List Value} (value : Value) (room : seen.length < u32Max + 1) :
    ∃ id, part (keyOf value) value (of seen) = .ok (id, of (seen ++ [value])) := by
  have done : ∃ id next, part (keyOf value) value (of seen) = .ok (id, next) := by
    have few : (firsts keyOf seen).length ≤ seen.length := length_firsts_le
    have fits : (firsts keyOf seen).length ≤ u32Max := by omega
    unfold part
    cases (of seen).partOfKey.lookup (keyOf value) with
    | some id => exact ⟨id, _, rfl⟩
    | none => exact ⟨_, _, if_pos fits⟩
  obtain ⟨id, next, run⟩ := done
  rw [(part_ok run).1] at run
  exact ⟨id, run⟩

end ColumnParts

/-! ### A batch's column -/

open ColumnParts

def partOf (seen : List Value) (value : Value) : Nat := number keyOf seen (keyOf value)

theorem partOf_stable (seen more : List Value) (value : Value) (member : value ∈ seen) :
    partOf (seen ++ more) value = partOf seen value :=
  number_append (List.mem_map_of_mem member)

section Column
variable {seen : List Value} {ids : List Nat} {next : ColumnParts} {α : Type}

theorem keyOf_null : keyOf .null = [0] := by
  apply keyOf_eq
  rw [Value.key]

theorem keyOf_utf8 (text : String) : keyOf (.utf8 text) = 4 :: utf8 text := by
  apply keyOf_eq
  rw [Value.key]

theorem primitive_ok {write : α → Key} {value : α → Value}
    (same : ∀ v, (value v).key = .ok (write v)) {values : List (Option α)}
    (run : primitive write value values (of seen) = .ok (ids, next)) :
    next = of (seen ++ values.map (Column.ofSlot value)) ∧
      ids = (values.map (Column.ofSlot value)).map
        (partOf (seen ++ values.map (Column.ofSlot value))) := by
  have step : ∀ slot ∈ values, ∀ seen parts id next, parts = of seen →
      slotPart write value slot parts = .ok (id, next) →
      next = of (seen ++ [Column.ofSlot value slot]) ∧
        id = partOf (seen ++ [Column.ofSlot value slot]) (Column.ofSlot value slot) := by
    intro slot member seen parts id next held step
    rw [held] at step
    cases slot with
    | none =>
      rw [slotPart, ← keyOf_null] at step
      exact part_ok step
    | some v =>
      rw [slotPart, ← keyOf_eq (same v)] at step
      exact part_ok step
  obtain ⟨grown, numbered⟩ := mapM_seen partOf_stable step rfl run
  refine ⟨grown, ?_⟩
  rw [numbered, List.map_map]
  rfl

theorem decoded_ok {values : List Value}
    (run : values.mapM valuePart (of seen) = .ok (ids, next)) :
    next = of (seen ++ values) ∧ ids = values.map (partOf (seen ++ values)) := by
  have step : ∀ value ∈ values, ∀ seen parts id next, parts = of seen →
      valuePart value parts = .ok (id, next) →
      next = of (seen ++ [value]) ∧ id = partOf (seen ++ [value]) value := by
    intro value member seen parts id next held step
    rw [held] at step
    obtain ⟨key, _, fine, step⟩ := bind_ok step
    obtain ⟨fine, same⟩ := lift_ok fine
    rw [← same, ← keyOf_eq fine] at step
    exact part_ok step
  obtain ⟨grown, numbered⟩ := mapM_seen partOf_stable step rfl run
  rw [List.map_id'] at grown numbered
  exact ⟨grown, numbered⟩

/-! ### Dictionaries -/

theorem cached_hold {entries : Entries} {dense : Bool} {entry part other held : Nat}
    (found : (entries.hold dense entry part).cached dense other = some held) :
    other = entry ∧ held = part ∨ entries.cached dense other = some held := by
  unfold Entries.hold Entries.cached at *
  cases dense with
  | true =>
    simp only [if_true] at found ⊢
    by_cases same : entry = other
    · rw [same, List.getElem?_set] at found
      rw [if_pos rfl] at found
      split at found
      · exact .inl ⟨same.symm, (Option.some.inj found).symm⟩
      · cases found
    · rw [List.getElem?_set_ne same] at found
      exact .inr found
  | false =>
    simp only [Bool.false_eq_true, if_false, List.lookup_cons] at found ⊢
    by_cases same : other = entry
    · rw [same, beq_self_eq_true] at found
      exact .inl ⟨same, (Option.some.inj found).symm⟩
    · rw [beq_eq_false_iff_ne.mpr same] at found
      exact .inr found

theorem nullPart_hold (entries : Entries) (dense : Bool) (entry part : Nat) :
    (entries.hold dense entry part).nullPart = entries.nullPart := by
  unfold Entries.hold
  split <;> rfl

structure Entries.Right (dense : Bool) (column : Dictionary) (seen : List Value)
    (entries : Entries) : Prop where
  cached : ∀ (entry : Fin column.texts.length) (part : Nat),
    entries.cached dense entry.val = some part →
      keyOf (.utf8 (column.texts.get entry)) ∈ seen.map keyOf ∧
        part = partOf seen (.utf8 (column.texts.get entry))
  null : ∀ part, entries.nullPart = some part →
    keyOf .null ∈ seen.map keyOf ∧ part = partOf seen .null

theorem of_known {value : Value} (known : keyOf value ∈ seen.map keyOf) :
    of seen = of (seen ++ [value]) ∧ partOf seen value = partOf (seen ++ [value]) value := by
  refine ⟨?_, (number_append known).symm⟩
  unfold of
  rw [firsts_known known]

theorem Entries.Right.append {dense : Bool} {column : Dictionary} {entries : Entries}
    (right : entries.Right dense column seen) (value : Value) :
    entries.Right dense column (seen ++ [value]) := by
  have kept : ∀ old, keyOf old ∈ seen.map keyOf →
      keyOf old ∈ (seen ++ [value]).map keyOf ∧ partOf seen old = partOf (seen ++ [value]) old := by
    intro old known
    refine ⟨?_, (number_append known).symm⟩
    rw [List.map_append]
    exact List.mem_append_left _ known
  constructor
  · intro entry part held
    obtain ⟨known, same⟩ := right.cached entry part held
    exact ⟨(kept _ known).1, same.trans (kept _ known).2⟩
  · intro part held
    obtain ⟨known, same⟩ := right.null part held
    exact ⟨(kept _ known).1, same.trans (kept _ known).2⟩

theorem lookupEntry_ok {dense : Bool} {column : Dictionary} {entries entries' : Entries} {id : Nat}
    (right : entries.Right dense column seen) {entry : Fin column.texts.length}
    (run : lookupEntry dense column entry (of seen, entries) = .ok (id, next, entries')) :
    next = of (seen ++ [.utf8 (column.texts.get entry)]) ∧
      entries'.Right dense column (seen ++ [.utf8 (column.texts.get entry)]) ∧
      id = partOf (seen ++ [.utf8 (column.texts.get entry)]) (.utf8 (column.texts.get entry)) := by
  unfold lookupEntry at run
  dsimp only at run
  cases held : entries.cached dense entry.val with
  | some part =>
    rw [held] at run
    obtain ⟨known, same⟩ := right.cached entry part held
    obtain ⟨grown, stays⟩ := of_known known
    obtain ⟨here, rest⟩ := Prod.mk.inj (Except.ok.inj run)
    obtain ⟨parts, unchanged⟩ := Prod.mk.inj rest
    rw [← unchanged, ← parts, ← here]
    exact ⟨grown, right.append _, same.trans stays⟩
  | none =>
    rw [held] at run
    obtain ⟨⟨part, parts⟩, made, run⟩ := bind_eq_ok run
    rw [← keyOf_utf8] at made
    obtain ⟨grown, numbered⟩ := part_ok made
    obtain ⟨here, rest⟩ := Prod.mk.inj (Except.ok.inj run)
    obtain ⟨same, changed⟩ := Prod.mk.inj rest
    have later := right.append (Value.utf8 (column.texts.get entry))
    have known : keyOf (.utf8 (column.texts.get entry)) ∈
        (seen ++ [Value.utf8 (column.texts.get entry)]).map keyOf :=
      List.mem_map_of_mem (List.mem_append_right _ List.mem_cons_self)
    refine ⟨same.symm.trans grown, ?_, here.symm.trans numbered⟩
    rw [← changed]
    constructor
    · intro other found cached
      rcases cached_hold cached with ⟨this, found⟩ | before
      · rw [Fin.ext this, found]
        exact ⟨known, numbered⟩
      · exact later.cached other found before
    · intro found cached
      rw [nullPart_hold] at cached
      exact later.null found cached

theorem dictionaryPart_ok {dense : Bool} {column : Dictionary} {entries entries' : Entries}
    {id : Nat} (right : entries.Right dense column seen)
    {slot : Option (Fin column.texts.length)}
    (run : dictionaryPart dense column slot (of seen, entries) = .ok (id, next, entries')) :
    let value := Column.ofSlot (fun entry => .utf8 (column.texts.get entry)) slot
    next = of (seen ++ [value]) ∧ entries'.Right dense column (seen ++ [value]) ∧
      id = partOf (seen ++ [value]) value := by
  intro value
  cases slot with
  | some entry => exact lookupEntry_ok right run
  | none =>
    have null : value = .null := rfl
    rw [null]
    unfold dictionaryPart at run
    dsimp only at run
    cases held : entries.nullPart with
    | some part =>
      rw [held] at run
      obtain ⟨known, same⟩ := right.null part held
      obtain ⟨grown, stays⟩ := of_known known
      obtain ⟨here, rest⟩ := Prod.mk.inj (Except.ok.inj run)
      obtain ⟨parts, unchanged⟩ := Prod.mk.inj rest
      rw [← unchanged, ← parts, ← here]
      exact ⟨grown, right.append _, same.trans stays⟩
    | none =>
      rw [held] at run
      obtain ⟨⟨part, parts⟩, made, run⟩ := bind_eq_ok run
      rw [← keyOf_null] at made
      obtain ⟨grown, numbered⟩ := part_ok made
      obtain ⟨here, rest⟩ := Prod.mk.inj (Except.ok.inj run)
      obtain ⟨same, changed⟩ := Prod.mk.inj rest
      have later := right.append .null
      refine ⟨same.symm.trans grown, ?_, here.symm.trans numbered⟩
      rw [← changed]
      constructor
      · exact later.cached
      · intro found cached
        rw [← Option.some.inj cached]
        exact ⟨List.mem_map_of_mem (List.mem_append_right _ List.mem_cons_self), numbered⟩

/-- The parts and entries after these values. -/
def DictionaryState (dense : Bool) (column : Dictionary) (seen : List Value)
    (state : ColumnParts × Entries) : Prop :=
  state.1 = of seen ∧ state.2.Right dense column seen

theorem dictionaryPart_step (dense : Bool) (column : Dictionary) : ∀ slot ∈ column.keys,
    ∀ seen state part state', DictionaryState dense column seen state →
      dictionaryPart dense column slot state = .ok (part, state') →
      DictionaryState dense column
          (seen ++ [Column.ofSlot (fun entry => .utf8 (column.texts.get entry)) slot]) state' ∧
        part = partOf (seen ++ [Column.ofSlot (fun entry => .utf8 (column.texts.get entry)) slot])
          (Column.ofSlot (fun entry => .utf8 (column.texts.get entry)) slot) := by
  intro slot member seen state part state' holds run
  obtain ⟨parts, entries⟩ := state
  obtain ⟨same, right⟩ := holds
  change parts = of seen at same
  rw [same] at run
  obtain ⟨grown, later, numbered⟩ := dictionaryPart_ok right run
  exact ⟨⟨grown, later⟩, numbered⟩

theorem right_new (dense : Bool) (column : Dictionary) (length : Nat) :
    (Entries.new dense length).Right dense column seen := by
  constructor
  · intro entry part held
    unfold Entries.cached Entries.new at held
    cases dense with
    | true =>
      have present := List.mem_of_getElem? (Option.join_eq_some_iff.mp held)
      exact nomatch List.eq_of_mem_replicate present
    | false => simp at held
  · intro part held
    cases held

/-! ### Every column -/

theorem columnParts_ok {column : Column} (run : columnParts column (of seen) = .ok (ids, next)) :
    next = of (seen ++ column.decode) ∧
      ids = column.decode.map (partOf (seen ++ column.decode)) := by
  cases column with
  | dictionary column =>
    obtain ⟨⟨ids', parts, entries⟩, made, run⟩ := bind_eq_ok run
    obtain ⟨⟨grown, _⟩, numbered⟩ := mapM_seen partOf_stable (dictionaryPart_step _ column)
      ⟨rfl, right_new _ column _⟩ made
    obtain ⟨same, rest⟩ := Prod.mk.inj (Except.ok.inj run)
    refine ⟨rest.symm.trans grown, ?_⟩
    rw [← same, numbered, Column.decode, List.map_map]
    rfl
  | int64 values => exact primitive_ok (fun v => by rw [Value.key]) run
  | timestamp values => exact primitive_ok (fun v => by rw [Value.key]) run
  | float64 values => exact primitive_ok (fun v => by rw [Value.key]) run
  | bool values => exact primitive_ok (fun v => by rw [Value.key]) run
  | states family length => cases run
  | null length => exact decoded_ok run
  | date values => exact decoded_ok run
  | interval values => exact decoded_ok run
  | nested dtype values => exact decoded_ok run

def Column.Groupable : Column → Prop
  | .states _ _ => False
  | column => ∀ value ∈ column.decode, ∃ key, value.key = .ok key

theorem slots_keys {value : α → Value} (fine : ∀ v, ∃ key, (value v).key = .ok key)
    (values : List (Option α)) :
    ∀ v ∈ values.map (Column.ofSlot value), ∃ key, v.key = .ok key := by
  intro v member
  obtain ⟨slot, _, same⟩ := List.mem_map.mp member
  rw [← same]
  cases slot with
  | none => exact ⟨[0], by rw [Column.ofSlot, Option.elim, Value.key]⟩
  | some v => exact fine v

theorem columnParts_keys {column : Column} (run : columnParts column (of seen) = .ok (ids, next)) :
    column.Groupable := by
  cases column with
  | nested dtype values =>
    have step : ∀ value ∈ values, ∀ id parts parts', True →
        valuePart value parts = .ok (id, parts') →
        True ∧ True ∧ ∃ key, value.key = .ok key := by
      intro value member id parts parts' _ step
      obtain ⟨key, _, fine, _⟩ := bind_ok step
      exact ⟨trivial, trivial, key, (lift_ok fine).1⟩
    have each := (mapM_ok (fun _ => trivial) (fun _ _ _ _ _ => trivial)
      (fun _ _ _ _ held _ => held) step trivial run).2.2
    intro value member
    obtain ⟨_, held⟩ := exists_of_forall₂ each value member
    exact held
  | states family length => cases run
  | null length =>
    intro value member
    rw [List.eq_of_mem_replicate member]
    exact ⟨[0], by rw [Value.key]⟩
  | dictionary column => exact slots_keys (fun v => ⟨_, by rw [Value.key]⟩) _
  | int64 values => exact slots_keys (fun v => ⟨_, by rw [Value.key]⟩) values
  | timestamp values => exact slots_keys (fun v => ⟨_, by rw [Value.key]⟩) values
  | float64 values => exact slots_keys (fun v => ⟨_, by rw [Value.key]⟩) values
  | bool values => exact slots_keys (fun v => ⟨_, by rw [Value.key]⟩) values
  | date values => exact slots_keys (fun v => ⟨_, by rw [Value.key]⟩) values
  | interval values => exact slots_keys (fun v => ⟨_, by rw [Value.key]⟩) values

/-! ### Labels -/

def Fits (dtype : FieldDataType) : Value → Prop
  | .null => True
  | .bool _ => dtype = .plain .bool
  | .int64 _ => dtype = .plain .int64
  | .utf8 _ => dtype = .plain .utf8
  | .timestamp _ => dtype = .plain .timestamp
  | .date _ => dtype = .plain .date
  | .interval _ _ _ => dtype = .plain .interval
  | _ => False

theorem slots_fit {dtype : FieldDataType} {value : α → Value} (fits : ∀ v, Fits dtype (value v))
    (values : List (Option α)) : ∀ v ∈ values.map (Column.ofSlot value), Fits dtype v := by
  intro v member
  obtain ⟨slot, _, same⟩ := List.mem_map.mp member
  rw [← same]
  cases slot with
  | none => trivial
  | some v => exact fits v

theorem decode_fits {column : Column} (groupable : column.Groupable)
    (shared : ownLabel column.dtype = false) : ∀ value ∈ column.decode, Fits column.dtype value := by
  cases column with
  | states family length => exact groupable.elim
  | nested dtype values => cases dtype <;> cases shared
  | float64 values => cases shared
  | null length =>
    intro value member
    rw [List.eq_of_mem_replicate member]
    trivial
  | dictionary column => exact slots_fit (fun v => show Fits (.plain .utf8) (.utf8 _) from rfl) _
  | int64 values => exact slots_fit (fun v => show Fits (.plain .int64) (.int64 v) from rfl) values
  | timestamp values => exact slots_fit (fun v => show Fits (.plain .timestamp) (.timestamp v) from rfl) values
  | bool values => exact slots_fit (fun v => show Fits (.plain .bool) (.bool v) from rfl) values
  | date values => exact slots_fit (fun v => show Fits (.plain .date) (.date v) from rfl) values
  | interval values =>
    exact slots_fit (fun v => show Fits (.plain .interval) (.interval v.1 v.2.1 v.2.2) from rfl) values

theorem int64Bytes_inj {v w : Int64} (same : Value.int64Bytes v = Value.int64Bytes w) : v = w := by
  have bits := bitsLe_inj same
  exact Int64.toBitVec_inj.mp bits

theorem int32Bytes_inj {v w : Int32} (same : Value.int32Bytes v = Value.int32Bytes w) : v = w := by
  have bits := bitsLe_inj same
  exact Int32.toBitVec_inj.mp bits

theorem interval_inj {months days months' days' : Int32} {nanos nanos' : Int64}
    (same : keyOf (.interval months days nanos) = keyOf (.interval months' days' nanos')) :
    months = months' ∧ days = days' ∧ nanos = nanos' := by
  have lengths : ∀ v, (Value.int32Bytes v).length = 4 := fun v => leBytes_length 4 _
  simp only [keyOf, Value.key] at same
  obtain ⟨first, rest⟩ := List.append_inj same (by simp [lengths])
  obtain ⟨start, middle⟩ := List.append_inj first (by simp [lengths])
  exact ⟨int32Bytes_inj (List.cons.inj start).2, int32Bytes_inj (List.cons.inj middle).2,
    int64Bytes_inj (List.cons.inj rest).2⟩

theorem keyOf_inj {dtype : FieldDataType} {v w : Value} (fits : Fits dtype v)
    (fits' : Fits dtype w) (same : keyOf v = keyOf w) : v = w := by
  -- Values of two types do not fit one column.
  cases v <;> cases w <;> simp only [Fits] at fits fits' <;> try { subst fits; cases fits' }
  case null.null => rfl
  case interval.interval =>
    obtain ⟨months, days, nanos⟩ := interval_inj same
    rw [months, days, nanos]
  all_goals simp only [keyOf, Value.key] at same
  case bool.bool v w => cases v <;> cases w <;> simp at same ⊢
  case int64.int64 => rw [int64Bytes_inj (List.cons.inj same).2]
  case utf8.utf8 => rw [utf8_inj (List.cons.inj same).2]
  case timestamp.timestamp => rw [int64Bytes_inj (List.cons.inj same).2]
  case date.date => rw [int32Bytes_inj (List.cons.inj same).2]
  -- NULL's tag is its own.
  all_goals simp at same

/-! ### Room -/

theorem lookupEntry_fine {dense : Bool} {column : Dictionary} {entries : Entries}
    (entry : Fin column.texts.length) (room : seen.length < u32Max + 1) :
    ∃ id next, lookupEntry dense column entry (of seen, entries) = .ok (id, next) := by
  unfold lookupEntry
  dsimp only
  cases entries.cached dense entry.val with
  | some part => exact ⟨part, _, rfl⟩
  | none =>
    obtain ⟨id, made⟩ := part_fine (.utf8 (column.texts.get entry)) room
    rw [keyOf_utf8] at made
    dsimp only
    rw [made]
    exact ⟨id, _, rfl⟩

theorem dictionaryPart_fine {dense : Bool} {column : Dictionary} {entries : Entries}
    (slot : Option (Fin column.texts.length)) (room : seen.length < u32Max + 1) :
    ∃ id next, dictionaryPart dense column slot (of seen, entries) = .ok (id, next) := by
  cases slot with
  | some entry => exact lookupEntry_fine entry room
  | none =>
    unfold dictionaryPart
    dsimp only
    cases entries.nullPart with
    | some part => exact ⟨part, _, rfl⟩
    | none =>
      obtain ⟨id, made⟩ := part_fine .null room
      rw [keyOf_null] at made
      dsimp only
      rw [made]
      exact ⟨id, _, rfl⟩

theorem primitive_fine {write : α → Key} {value : α → Value}
    (same : ∀ v, (value v).key = .ok (write v)) {values : List (Option α)}
    (room : seen.length + values.length ≤ u32Max + 1) :
    ∃ ids next, primitive write value values (of seen) = .ok (ids, next) := by
  have step : ∀ slot ∈ values, ∀ seen parts, parts = of seen → seen.length < u32Max + 1 →
      ∃ id next, slotPart write value slot parts = .ok (id, next) ∧
        next = of (seen ++ [Column.ofSlot value slot]) := by
    intro slot member seen parts held room
    rw [held]
    cases slot with
    | none =>
      obtain ⟨id, made⟩ := part_fine .null room
      rw [keyOf_null] at made
      exact ⟨id, _, made, rfl⟩
    | some v =>
      obtain ⟨id, made⟩ := part_fine (value v) room
      rw [keyOf_eq (same v)] at made
      exact ⟨id, _, made, rfl⟩
  exact mapM_fine step rfl room

theorem decoded_fine {values : List Value} (keys : ∀ value ∈ values, ∃ key, value.key = .ok key)
    (room : seen.length + values.length ≤ u32Max + 1) :
    ∃ ids next, values.mapM valuePart (of seen) = .ok (ids, next) := by
  have step : ∀ value ∈ values, ∀ seen parts, parts = of seen → seen.length < u32Max + 1 →
      ∃ id next, valuePart value parts = .ok (id, next) ∧ next = of (seen ++ [value]) := by
    intro value member seen parts held room
    obtain ⟨key, fine⟩ := keys value member
    obtain ⟨id, made⟩ := part_fine value room
    rw [keyOf_eq fine] at made
    unfold valuePart
    rw [held, fine]
    exact ⟨id, _, made, rfl⟩
  exact mapM_fine step rfl room

theorem columnParts_fine {column : Column} (groupable : column.Groupable)
    (room : seen.length + column.decode.length ≤ u32Max + 1) :
    ∃ ids next, columnParts column (of seen) = .ok (ids, next) := by
  cases column with
  | dictionary column =>
    have step : ∀ dense, ∀ slot ∈ column.keys, ∀ seen state,
        DictionaryState dense column seen state → seen.length < u32Max + 1 →
        ∃ id state', dictionaryPart dense column slot state = .ok (id, state') ∧
          DictionaryState dense column
            (seen ++ [Column.ofSlot (fun entry => .utf8 (column.texts.get entry)) slot]) state' := by
      intro dense slot member seen state holds room
      obtain ⟨parts, entries⟩ := state
      obtain ⟨same, right⟩ := holds
      change parts = of seen at same
      rw [same]
      obtain ⟨id, state', run⟩ := dictionaryPart_fine slot room
      have kept := dictionaryPart_step dense column slot member seen (of seen, entries) id state'
        ⟨rfl, right⟩ run
      exact ⟨id, state', run, kept.1⟩
    have length : column.keys.length = (Column.dictionary column).decode.length := by
      simp [Column.decode]
    rw [← length] at room
    have start : DictionaryState (denseDictionary column.texts.length column.keys.length) column
        seen (of seen, .new _ column.texts.length) := ⟨rfl, right_new _ column _⟩
    obtain ⟨ids, state, made⟩ := mapM_fine (step _) start room
    refine ⟨ids, state.1, ?_⟩
    unfold columnParts
    dsimp only
    rw [made]
    rfl
  | int64 values =>
    rw [Column.decode, List.length_map] at room
    exact primitive_fine (fun v => by rw [Value.key]) room
  | timestamp values =>
    rw [Column.decode, List.length_map] at room
    exact primitive_fine (fun v => by rw [Value.key]) room
  | float64 values =>
    rw [Column.decode, List.length_map] at room
    exact primitive_fine (fun v => by rw [Value.key]) room
  | bool values =>
    rw [Column.decode, List.length_map] at room
    exact primitive_fine (fun v => by rw [Value.key]) room
  | states family length => exact groupable.elim
  | null length => exact decoded_fine groupable room
  | date values => exact decoded_fine groupable room
  | interval values => exact decoded_fine groupable room
  | nested dtype values => exact decoded_fine groupable room

end Column
end AsapPlanner.Grouping
