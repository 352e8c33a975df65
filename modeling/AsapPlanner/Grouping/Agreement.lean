import AsapPlanner.Grouping.Order
import Mathlib.Data.List.Find

/-!
Columnar grouping agrees with row-at-a-time grouping by key tuples.
-/

namespace AsapPlanner.Grouping
open Ir Rust Interning Traversal GroupTable

section Labels
variable {columns : List Nat} {dtypes : List FieldDataType} {all : List (List Value)}
  {table : GroupTable} {first : List Value} {index : Nat} {value : Value}

theorem shared_label {own : List Bool} (holds : Holds columns own all all table)
    (keyed : Keyed columns dtypes all) (member : first ∈ all) (here : first[index]? = some value)
    (shared : (ownOf dtypes columns)[index]? = some false) {found : Value}
    (kept : (columnOf index all).find? (fun other => keyOf other = keyOf value) = some found) :
    found = value := by
  have inside : index < columns.length := by
    rw [← holds.shape first member]
    exact (List.getElem?_eq_some_iff.mp here).1
  obtain ⟨other, member', same⟩ := List.mem_map.mp (List.mem_of_find?_eq_some kept)
  have there : other[index]? = some found := by
    have bound : index < other.length := by
      rw [holds.shape other member']
      exact inside
    rw [← same, List.getD_eq_getElem?_getD, List.getElem?_eq_getElem bound, Option.getD_some]
  have column := List.getElem?_eq_getElem inside
  obtain ⟨_, dtype, typed, fits⟩ := keyed first member index _ value column here
  obtain ⟨_, dtype', typed', fits'⟩ := keyed other member' index _ found column there
  have oneType : dtype' = dtype := Option.some.inj (typed'.symm.trans typed)
  have plain : ownLabel dtype = false := by
    unfold ownOf at shared
    rw [List.getElem?_map, column, Option.map_some, typed] at shared
    exact Option.some.inj shared
  rw [oneType] at fits'
  have equal := List.find?_some kept
  exact keyOf_inj (fits' plain) (fits plain) (of_decide_eq_true equal)

theorem single_label (width : columns.length = 1) {own : List Bool}
    (holds : Holds columns own all all table) (member : first ∈ all)
    (firstRow : all.find? (fun row => keysOf row = keysOf first) = some first)
    (here : first[0]? = some value) :
    (columnOf 0 all).find? (fun other => keyOf other = keyOf value) = some value := by
  have one : ∀ row ∈ all, row = [row.getD 0 .null] := by
    intro row member
    obtain ⟨only, same⟩ := List.length_eq_one_iff.mp ((holds.shape row member).trans width)
    rw [same]
    rfl
  have mine : first = [value] := by
    have held := one first member
    rw [List.getD_eq_getElem?_getD, here] at held
    exact held
  have tests : ∀ row ∈ all, decide (keyOf (row.getD 0 .null) = keyOf value) =
      decide (keysOf row = keysOf first) := by
    intro row member
    rw [mine, one row member]
    simp [keysOf]
  unfold columnOf
  rw [List.find?_map]
  have found : all.find? ((fun other => decide (keyOf other = keyOf value)) ∘
      (·.getD 0 .null)) = some first := (List.find?_congr tests).trans firstRow
  rw [found, Option.map_some, mine]
  rfl

theorem label_eq (holds : Holds columns (ownOf dtypes columns) all all table)
    (keyed : Keyed columns dtypes all) (member : first ∈ all)
    (firstRow : all.find? (fun row => keysOf row = keysOf first) = some first)
    (inside : index < columns.length) :
    label table (groupNumber all first) index = first[index]? := by
  have seen : keysOf first ∈ all.map keysOf := List.mem_map_of_mem member
  have kept : (firsts keysOf all)[groupNumber all first]? = some first :=
    (find?_eq_getElem? seen).symm.trans firstRow
  obtain ⟨value, here⟩ : ∃ value, first[index]? = some value :=
    ⟨_, List.getElem?_eq_getElem (by rw [holds.shape first member]; exact inside)⟩
  -- The label of the column's part.
  have through : ∀ found, (columnOf index all).find? (fun other => keyOf other = keyOf value) =
        some found →
      (do let part ← (table.partsOfGroup[groupNumber all first]?).bind (·[index]?)
          let parts ← table.parts[index]?
          parts.firstValues[part]?) = some found := by
    intro found isFirst
    have parts : table.parts[index]? = some (.of (columnOf index all)) := by
      rw [holds.parts, List.getElem?_map, List.getElem?_range inside]
      rfl
    have part : (table.partsOfGroup[groupNumber all first]?).bind (·[index]?) =
        some (partOf (columnOf index all) value) := by
      rw [holds.partsOfGroup, List.getElem?_map, kept, Option.map_some, Option.bind_some,
        getElem?_partsOf, here, Option.map_some]
    rw [part, parts]
    have known : keyOf value ∈ (columnOf index all).map keyOf :=
      List.mem_map_of_mem (mem_columnOf member here)
    exact (find?_eq_getElem? known).symm.trans isFirst
  obtain ⟨found, isFirst⟩ : ∃ found, (columnOf index all).find?
      (fun other => keyOf other = keyOf value) = some found := by
    have known : keyOf value ∈ (columnOf index all).map keyOf :=
      List.mem_map_of_mem (mem_columnOf member here)
    rw [find?_eq_getElem? known]
    obtain ⟨found, held, _⟩ := getElem?_number known
    exact ⟨found, held⟩
  have owns : ∃ own, (ownOf dtypes columns)[index]? = some own := by
    refine ⟨_, List.getElem?_eq_getElem ?_⟩
    rw [ownOf, List.length_map]
    exact inside
  obtain ⟨own, owned⟩ := owns
  unfold label
  rw [holds.labels, here]
  by_cases several : 2 ≤ columns.length ∧ (ownOf dtypes columns).any id
  · have labels : (ownLabels (ownOf dtypes columns) first)[index]? =
        some (if own then some value else none) := by
      have zipped : (first.zip (ownOf dtypes columns))[index]? = some (value, own) :=
        List.getElem?_zip_eq_some.mpr ⟨here, owned⟩
      rw [ownLabels, List.getElem?_map, zipped]
      rfl
    rw [if_pos several, List.getElem?_map, kept, Option.map_some, Option.bind_some, labels]
    cases own with
    | true => rfl
    | false =>
      rw [← shared_label holds keyed member here owned isFirst]
      exact through found isFirst
  · rw [if_neg several, List.getElem?_nil, Option.bind_none]
    by_cases width : columns.length = 1
    · have zero : index = 0 := by omega
      rw [zero] at here through ⊢
      exact through value (single_label width holds member firstRow here)
    · have none : own = false := by
        cases own with
        | false => rfl
        | true =>
          have any : (ownOf dtypes columns).any id = true :=
            List.any_eq_true.mpr ⟨true, List.mem_of_getElem? owned, rfl⟩
          exact absurd ⟨by omega, any⟩ several
      rw [none] at owned
      rw [← shared_label holds keyed member here owned isFirst]
      exact through found isFirst

end Labels

/-! ### Every batch -/

section Run
variable {columns : List Nat} {dtypes : List FieldDataType} {batches : List Batch}

theorem groupAll_ok {old : List (List Value)} {table next : GroupTable} {ids : List (List Nat)}
    (schema : ∀ batch ∈ batches, batch.dtypes = dtypes)
    (holds : Holds columns (ownOf dtypes columns) old old table)
    (run : batches.mapM groupIds table = .ok (ids, next)) :
    Holds columns (ownOf dtypes columns) (old ++ batches.flatMap (·.rows columns))
        (old ++ batches.flatMap (·.rows columns)) next ∧
      ids = batches.map (fun batch => (batch.rows columns).map
        (groupNumber (old ++ batches.flatMap (·.rows columns)))) ∧
      Keyed columns dtypes (batches.flatMap (·.rows columns)) := by
  induction batches generalizing old table ids with
  | nil =>
    obtain ⟨none, same⟩ := pure_ok run
    rw [← same, ← none, List.flatMap_nil, List.append_nil]
    exact ⟨holds, rfl, fun row member => nomatch member⟩
  | cons batch batches ih =>
    rw [List.mapM_cons] at run
    obtain ⟨here, mid, first, run⟩ := bind_ok run
    obtain ⟨there, last, later, run⟩ := bind_ok run
    obtain ⟨all, same⟩ := pure_ok run
    rw [same] at later
    have typed := schema batch List.mem_cons_self
    obtain ⟨held, numbered, keyed⟩ := groupIds_ok holds (by rw [typed]) first
    obtain ⟨final, others, keyed'⟩ :=
      ih (fun other member => schema other (List.mem_cons_of_mem _ member)) held later
    rw [List.append_assoc] at final others
    rw [List.flatMap_cons]
    refine ⟨final, ?_, ?_⟩
    · rw [← all, others, numbered, List.map_cons]
      congr 1
      apply List.map_congr_left
      intro row member
      rw [← List.append_assoc]
      exact (groupNumber_stable _ _ row (List.mem_append_right _ member)).symm
    · rw [typed] at keyed
      intro row member
      rcases List.mem_append.mp member with mine | theirs
      · exact keyed row mine
      · exact keyed' row theirs

theorem groupAll_fine {old : List (List Value)} {table : GroupTable}
    (schema : ∀ batch ∈ batches, batch.dtypes = dtypes)
    (holds : Holds columns (ownOf dtypes columns) old old table)
    (accepts : ∀ batch ∈ batches, Accepts columns batch)
    (room : old.length + (batches.flatMap (·.rows columns)).length ≤ u32Max + 1) :
    ∃ ids next, batches.mapM groupIds table = .ok (ids, next) := by
  induction batches generalizing old table with
  | nil => exact ⟨[], table, rfl⟩
  | cons batch batches ih =>
    have typed := schema batch List.mem_cons_self
    rw [List.flatMap_cons, List.length_append, length_rows] at room
    obtain ⟨here, mid, first⟩ :=
      groupIds_fine holds (by rw [typed]) (accepts batch List.mem_cons_self) (by omega)
    obtain ⟨held, _⟩ := groupIds_ok holds (by rw [typed]) first
    have rest : (old ++ batch.rows columns).length + (batches.flatMap (·.rows columns)).length ≤
        u32Max + 1 := by
      rw [List.length_append, length_rows]
      omega
    obtain ⟨there, last, later⟩ :=
      ih (fun other member => schema other (List.mem_cons_of_mem _ member)) held
        (fun other member => accepts other (List.mem_cons_of_mem _ member)) rest
    refine ⟨here :: there, last, ?_⟩
    rw [List.mapM_cons]
    change (groupIds batch table >>= fun result => _) = _
    rw [first]
    change (batches.mapM groupIds mid >>= fun result => _) = _
    rw [later]
    rfl

theorem groupsInKeyOrder_eq {own : List Bool} {all : List (List Value)} {table : GroupTable}
    (holds : Holds columns own all all table) : ∃ ordered : List (List Key),
      ordered.Pairwise (· < ·) ∧ (∀ keys, keys ∈ ordered ↔ keys ∈ all.map keysOf) ∧
      table.groupsInKeyOrder = ordered.map (number keysOf all) := by
  have perm := List.mergeSort_perm (groupKeys all) fun a b => a ≤ b
  have sorted : ((groupKeys all).mergeSort fun a b => a ≤ b).Pairwise (· ≤ ·) := by
    have pairs := @List.pairwise_mergeSort _ (fun a b : List Key => decide (a ≤ b))
      (fun a b c first second => by
        rw [decide_eq_true_iff] at first second ⊢
        exact Std.le_trans first second)
      (fun a b => by simpa using (Std.le_total : a ≤ b ∨ b ≤ a)) (groupKeys all)
    exact pairs.imp of_decide_eq_true
  refine ⟨(groupKeys all).mergeSort fun a b => a ≤ b, ?_, ?_, ?_⟩
  · have distinct := perm.nodup_iff.mpr (nodup_keys_firsts : (groupKeys all).Nodup)
    exact sorted.imp₂ (fun _ _ le ne => Std.lt_of_le_of_ne le ne) distinct
  · intro keys
    rw [perm.mem_iff]
    exact mem_keys_firsts
  · rw [← groupsInKeyOrder_keys holds, List.map_map]
    symm
    apply (List.map_congr_left _).trans (List.map_id _)
    intro group member
    have inside : group < (groupKeys all).length := by
      have within := List.mem_range.mp ((List.mergeSort_perm _ _).mem_iff.mp member)
      rw [holds.partsOfGroup, List.length_map] at within
      rw [groupKeys, List.length_map]
      exact within
    have bound : group < (firsts keysOf all).length := by
      rw [groupKeys, List.length_map] at inside
      exact inside
    have key : (groupKeys all).getD group [] = keysOf (firsts keysOf all)[group] := by
      rw [List.getD_eq_getElem?_getD, List.getElem?_eq_getElem inside, Option.getD_some]
      exact List.getElem_map _
    rw [Function.comp_apply, key]
    exact number_getElem bound

def sampleBatch (texts : List String) (slots : List (Option (Fin texts.length)))
    (numbers : List (Option F64)) (lengths : slots.length = numbers.length) : Batch where
  numRows := numbers.length
  columns := [.dictionary ⟨texts, slots⟩, .float64 numbers]
  lengths := by
    simp only [List.mem_cons, List.not_mem_nil, or_false, forall_eq_or_imp, forall_eq]
    simp [Column.decode, lengths]

/-- The second batch has its own dictionary, and a negative zero for a zero of the first. -/
def sampleBatches : List Batch :=
  [sampleBatch ["a", "b"] [some 1, some 0, none] [some ⟨false, 0⟩, some ⟨true, 5⟩, none] rfl,
    sampleBatch ["b"] [some 0, none] [some ⟨true, 0⟩, none] rfl]

theorem sampleBatches_dtypes : ∀ batch ∈ sampleBatches, batch.dtypes = [.plain .utf8, .plain .float64] := by
  intro batch member
  simp only [sampleBatches, List.mem_cons, List.not_mem_nil, or_false] at member
  rcases member with rfl | rfl <;> rfl

theorem sampleBatches_accepts : ∀ batch ∈ sampleBatches, Accepts [0, 1] batch := by
  intro batch member column named
  simp only [sampleBatches, List.mem_cons, List.not_mem_nil, or_false] at member named
  rcases member with rfl | rfl <;> rcases named with rfl | rfl <;> refine ⟨_, rfl, ?_⟩ <;>
    exact slots_keys (fun v => ⟨_, by rw [Value.key]⟩) _

end Run
end AsapPlanner.Grouping
