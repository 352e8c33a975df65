import AsapPlanner.Grouping.Agreement
import AsapPlanner.Grouping.GroupTable
import AsapPlanner.Rust.Result
import Mathlib.Algebra.Group.Nat.Defs

/-!
`LIMIT n OFFSET m`, per group when it is partitioned: rows of each group are counted across batches.
-/

namespace AsapPlanner.Grouping.Limit
open Rust Ir Interning Traversal

/-- The table, the rows seen of each group, and whether no later row can be kept. -/
structure State where
  table : GroupTable
  seen : List Nat
  done : Bool

section Execute
variable (n offset : UInt64) (groups : List Nat)

/-- Whether a group's row is kept that `count` rows come before. -/
def keeps (count : Nat) : Bool := offset.toNat ≤ count && count - offset.toNat < n.toNat

def countRow (group : Nat) : StateM (List Nat) Bool := fun seen =>
  let count := seen.getD group 0
  (keeps n offset count, seen.set group (saturatingAdd count 1))

/-- `seen.resize(length, 0)`. -/
def resizeSeen (seen : List Nat) (length : Nat) : List Nat :=
  seen.take length ++ List.replicate (length - seen.length) 0

def step (batch : Batch) (state : State) : Except Error (Batch × State) := do
  let (ids, table) ← chunkedGroupIds batch state.table
  let (keep, seen) := ids.mapM (countRow n offset) (resizeSeen state.seen table.partsOfGroup.length)
  let done := groups.isEmpty && (seen.head?.any fun count => n.toNat ≤ count - offset.toNat)
  pure (batch.filter keep, { table, seen, done })

/-- The batches emitted for an input's, and the error the stream ends with. -/
def emit : State → List Batch → List Batch × Option Error
  | _, [] => ([], none)
  | state, batch :: rest =>
    if state.done ∨ n = 0 then ([], none)
    else
      match step n offset groups batch state with
      | .error error => ([], some error)
      | .ok (kept, next) =>
        let more := emit next rest
        (kept :: more.1, more.2)

def execute (input : List Batch) : List Batch × Option Error :=
  emit n offset groups { table := .new groups, seen := [], done := false } input

end Execute

/-! ### Positions -/

/-- How many elements equal to each come before it, after `before`. -/
def positionsFrom {κ : Type} [BEq κ] (before : List κ) : List κ → List Nat
  | [] => []
  | key :: rest => before.count key :: positionsFrom (before ++ [key]) rest

def positions (groups : List Nat) (batches : List Batch) : List Nat :=
  positionsFrom [] ((batches.flatMap (·.rows groups)).map keysOf)

def values (batches : List Batch) : List (List Value) :=
  batches.flatMap fun batch => batch.rows (List.range batch.columns.length)

/-- The rows whose position in their group is `within`, in input order. -/
def rowsWithin (within : Nat → Bool) (groups : List Nat) (batches : List Batch) : List (List Value) :=
  (Selection.filter ((positions groups batches).map within)).pick (values batches)

/-- The positions `offset … offset + n - 1`; all from `offset` on where the counters end first. -/
def Kept (n offset : UInt64) (position : Nat) : Prop :=
  offset.toNat ≤ position ∧
    (position < offset.toNat + n.toNat ∨ u64Max < offset.toNat + n.toNat)

instance (n offset : UInt64) (position : Nat) : Decidable (Kept n offset position) :=
  inferInstanceAs (Decidable (_ ∧ _))

section Positions
variable {κ : Type} [BEq κ] {before keys more : List κ} {m : Nat}

theorem length_positionsFrom : (positionsFrom before keys).length = keys.length := by
  induction keys generalizing before with
  | nil => rfl
  | cons key rest ih => rw [positionsFrom, List.length_cons, List.length_cons, ih]

theorem positionsFrom_append :
    positionsFrom before (keys ++ more) = positionsFrom before keys ++ positionsFrom (before ++ keys) more := by
  induction keys generalizing before with
  | nil => rw [List.nil_append, List.append_nil]; rfl
  | cons key rest ih =>
    rw [List.cons_append, positionsFrom, positionsFrom, ih, List.cons_append, List.append_assoc,
      List.singleton_append]

theorem le_positionsFrom (many : ∀ key ∈ keys, m ≤ before.count key) :
    ∀ position ∈ positionsFrom before keys, m ≤ position := by
  induction keys generalizing before with
  | nil => exact fun position member => nomatch member
  | cons key rest ih =>
    intro position member
    rcases List.mem_cons.mp member with rfl | later
    · exact many key List.mem_cons_self
    · refine ih (fun other there => ?_) position later
      rw [List.count_append]
      exact Nat.le_add_right_of_le (many other (List.mem_cons_of_mem _ there))

end Positions

theorem positionsFrom_map {κ ν : Type} [BEq κ] [LawfulBEq κ] [BEq ν] [LawfulBEq ν] {f : κ → ν}
    {before keys : List κ}
    (inj : ∀ a ∈ before ++ keys, ∀ b ∈ before ++ keys, f a = f b → a = b) :
    positionsFrom (before.map f) (keys.map f) = positionsFrom before keys := by
  induction keys generalizing before with
  | nil => rfl
  | cons key rest ih =>
    have count : (before.map f).count (f key) = before.count key := by
      rw [List.count, List.count, List.countP_map]
      refine List.countP_congr fun other member => ?_
      simp only [Function.comp_apply, beq_iff_eq]
      exact ⟨inj other (List.mem_append_left _ member) key (by simp), congrArg f⟩
    rw [List.map_cons, positionsFrom, positionsFrom, count, ← ih]
    · rw [List.map_append, List.map_singleton]
    · simpa using inj

theorem keeps_saturated (n offset : UInt64) (position : Nat) :
    keeps n offset (min position u64Max) = decide (Kept n offset position) := by
  have bound := offset.toNat_lt
  rw [keeps, ← Bool.decide_and, decide_eq_decide]
  unfold Kept u64Max
  omega

/-! ### Counting rows -/

section Count
variable (n offset : UInt64) {done ids seen : List Nat}

/-- The counters hold the rows done of each group. -/
def Counts (seen done : List Nat) : Prop := ∀ group, seen.getD group 0 = min (done.count group) u64Max

theorem Counts.resize (counts : Counts seen done) {length : Nat} (grows : seen.length ≤ length) :
    Counts (resizeSeen seen length) done := by
  intro group
  rw [← counts group, resizeSeen, List.take_of_length_le grows, List.getD_eq_getElem?_getD,
    List.getD_eq_getElem?_getD, List.getElem?_append]
  split
  · rfl
  · rename_i beyond
    rw [List.getElem?_eq_none (Nat.le_of_not_lt beyond), List.getElem?_replicate]
    split <;> rfl

theorem Counts.countRow (counts : Counts seen done) {group : Nat} (inside : group < seen.length) :
    (Limit.countRow n offset group seen).1 = decide (Kept n offset (done.count group)) ∧
      Counts (Limit.countRow n offset group seen).2 (done ++ [group]) := by
  constructor
  · change keeps n offset (seen.getD group 0) = _
    rw [counts, keeps_saturated]
  · intro other
    change (seen.set group (saturatingAdd (seen.getD group 0) 1)).getD other 0 = _
    rw [counts group, List.getD_eq_getElem?_getD, List.getElem?_set, List.count_append]
    by_cases same : group = other
    · subst same
      rw [if_pos rfl, if_pos inside, Option.getD_some, List.count_singleton_self, saturatingAdd]
      omega
    · rw [if_neg same, ← List.getD_eq_getElem?_getD, counts other, List.count_singleton,
        if_neg (by simpa using same), Nat.add_zero]

theorem Counts.run (counts : Counts seen done) (inside : ∀ group ∈ ids, group < seen.length) :
    (ids.mapM (Limit.countRow n offset) seen).1 =
        (positionsFrom done ids).map (fun position => decide (Kept n offset position)) ∧
      Counts (ids.mapM (Limit.countRow n offset) seen).2 (done ++ ids) ∧
      (ids.mapM (Limit.countRow n offset) seen).2.length = seen.length := by
  induction ids generalizing done seen with
  | nil => exact ⟨rfl, by rwa [List.append_nil], rfl⟩
  | cons group rest ih =>
    obtain ⟨kept, counted⟩ := counts.countRow n offset (inside group List.mem_cons_self)
    have length : (Limit.countRow n offset group seen).2.length = seen.length := List.length_set
    obtain ⟨masks, final, same⟩ := ih counted (fun other member => by
      rw [length]
      exact inside other (List.mem_cons_of_mem _ member))
    rw [List.append_assoc, List.singleton_append] at final
    rw [List.mapM_cons]
    refine ⟨?_, final, same.trans length⟩
    exact congrArg₂ List.cons kept masks

end Count

/-! ### Selected rows -/

section Pick
variable {α : Type} {keep more : List Bool} {items others : List α}

theorem pick_append (length : items.length = keep.length) :
    (Selection.filter (keep ++ more)).pick (items ++ others) =
      (Selection.filter keep).pick items ++ (Selection.filter more).pick others := by
  change (((items ++ others).zip (keep ++ more)).filter (·.2)).map (·.1) = _
  rw [List.zip_append length, List.filter_append, List.map_append]
  rfl

theorem pick_none (items : List α) (dropped : ∀ kept ∈ keep, kept = false) :
    (Selection.filter keep).pick items = [] := by
  refine List.map_eq_nil_iff.mpr (List.filter_eq_nil_iff.mpr fun entry member => ?_)
  rw [dropped _ (List.of_mem_zip member).2]
  exact Bool.false_ne_true

end Pick

/-! ### Batch after batch -/

section Run
variable {n offset : UInt64} {groups : List Nat} {dtypes : List FieldDataType} {batch kept : Batch}
  {old : List (List Value)} {state next : State}

variable (n offset groups dtypes) in
/-- The state after the rows `old`. -/
structure Right (old : List (List Value)) (state : State) : Prop where
  holds : Holds groups (ownOf dtypes groups) old old state.table
  counts : Counts state.seen (old.map (groupNumber old))
  length : state.seen.length = state.table.partsOfGroup.length
  done : state.done = true → groups = [] ∧ n.toNat ≤ min old.length u64Max - offset.toNat

theorem chunkedGroupIds_ok {table table' : GroupTable} {ids : List Nat} (schema : batch.dtypes = dtypes)
    (holds : Holds groups (ownOf dtypes groups) old old table)
    (run : chunkedGroupIds batch table = .ok (ids, table')) :
    Holds groups (ownOf dtypes groups) (old ++ batch.rows groups) (old ++ batch.rows groups) table' ∧
      ids = (batch.rows groups).map (groupNumber (old ++ batch.rows groups)) := by
  unfold chunkedGroupIds at run
  split at run
  · cases run
  obtain ⟨chunks, last, grouped, run⟩ := bind_ok run
  obtain ⟨same, unchanged⟩ := pure_ok run
  obtain ⟨held, numbered, _⟩ := groupAll_ok (fun chunk member => (dtypes_chunks member).trans schema)
    holds grouped
  rw [rows_chunks] at held numbered
  rw [← same, ← unchanged, numbered, ← rows_chunks batch groups, List.map_flatMap]
  exact ⟨rows_chunks batch groups ▸ held, List.flatMap_def.symm⟩

theorem step_ok (right : Right n offset groups dtypes old state) (schema : batch.dtypes = dtypes)
    (run : step n offset groups batch state = .ok (kept, next)) :
    Right n offset groups dtypes (old ++ batch.rows groups) next ∧
      kept = batch.filter ((positionsFrom (old.map keysOf) ((batch.rows groups).map keysOf)).map
        fun position => decide (Kept n offset position)) := by
  obtain ⟨⟨ids, table⟩, grouped, run⟩ := bind_eq_ok run
  obtain ⟨held, numbered⟩ := chunkedGroupIds_ok schema right.holds grouped
  obtain ⟨⟨keep, seen⟩, ran⟩ : ∃ counted, ids.mapM (countRow n offset)
    (resizeSeen state.seen table.partsOfGroup.length) = counted := ⟨_, rfl⟩
  dsimp only at run
  rw [ran] at run
  obtain ⟨rfl, rfl⟩ := Prod.mk.inj (Except.ok.inj run)
  have groupsOf : ∀ {rows : List (List Value)} {table : GroupTable},
      Holds groups (ownOf dtypes groups) rows rows table →
      table.partsOfGroup.length = (firsts keysOf rows).length := by
    intro rows table holds
    rw [holds.partsOfGroup, List.length_map]
  have grows : state.seen.length ≤ table.partsOfGroup.length := by
    rw [right.length, groupsOf right.holds, groupsOf held]
    exact firsts_prefix.length_le
  have stable : old.map (groupNumber (old ++ batch.rows groups)) = old.map (groupNumber old) :=
    List.map_congr_left fun row member => groupNumber_stable old _ row member
  have counts := right.counts.resize grows
  rw [← stable] at counts
  have length : (resizeSeen state.seen table.partsOfGroup.length).length = table.partsOfGroup.length := by
    rw [resizeSeen, List.length_append, List.length_take, List.length_replicate]
    omega
  have inside : ∀ group ∈ ids, group < (resizeSeen state.seen table.partsOfGroup.length).length := by
    intro group member
    rw [numbered] at member
    obtain ⟨row, here, rfl⟩ := List.mem_map.mp member
    rw [length, groupsOf held]
    exact number_lt (List.mem_map_of_mem (List.mem_append_right _ here))
  have counted := counts.run n offset inside
  rw [ran, numbered, ← List.map_append] at counted
  obtain ⟨masks, counted, same⟩ := counted
  have keys : positionsFrom (old.map (groupNumber (old ++ batch.rows groups))) ids =
      positionsFrom (old.map keysOf) ((batch.rows groups).map keysOf) := by
    have known : ∀ key ∈ old.map keysOf ++ (batch.rows groups).map keysOf,
        key ∈ (old ++ batch.rows groups).map keysOf := fun key member => by rwa [List.map_append]
    rw [numbered, ← positionsFrom_map (f := number keysOf (old ++ batch.rows groups))
      fun a memberA b memberB => (number_inj (known a memberA) (known b memberB)).mp, List.map_map, List.map_map]
    rfl
  rw [numbered] at keys
  dsimp only at masks counted same
  rw [masks, keys]
  refine ⟨⟨held, counted, same.trans length, fun finished => ?_⟩, rfl⟩
  obtain ⟨single, exhausted⟩ := Bool.and_eq_true_iff.mp finished
  obtain ⟨count, first, exhausted⟩ := (Option.any_eq_true _ _).mp exhausted
  refine ⟨List.isEmpty_iff.mp single, (of_decide_eq_true exhausted).trans (Nat.sub_le_sub_right ?_ _)⟩
  have counter := counted 0
  rw [List.getD_eq_getElem?_getD, ← List.head?_eq_getElem?, first, Option.getD_some] at counter
  have most : ((old ++ batch.rows groups).map (groupNumber (old ++ batch.rows groups))).count 0 ≤
      (old ++ batch.rows groups).length := List.count_le_length.trans_eq (List.length_map _)
  omega

theorem values_cons (batches : List Batch) :
    values (batch :: batches) = batch.rows (List.range batch.columns.length) ++ values batches := rfl

theorem length_keys (columns : List Nat) : ((batch.rows groups).map keysOf).length =
    (batch.rows columns).length := by
  rw [List.length_map, length_rows, length_rows]

theorem Right.skipped (right : Right n offset groups dtypes old state) (stop : state.done = true ∨ n = 0)
    (batches : List Batch) (position : Nat)
    (later : position ∈ positionsFrom (old.map keysOf) ((batches.flatMap (·.rows groups)).map keysOf)) :
    decide (Kept n offset position) = false := by
  rw [← keeps_saturated, keeps]
  rcases stop with done | none
  · obtain ⟨single, exhausted⟩ := right.done done
    have all : ∀ key ∈ (batches.flatMap (·.rows groups)).map keysOf, old.length ≤ (old.map keysOf).count key := by
      intro key member
      obtain ⟨row, here, rfl⟩ := List.mem_map.mp member
      obtain ⟨other, _, here⟩ := List.mem_flatMap.mp here
      have empty : ∀ row : List Value, row.length = groups.length → keysOf row = [] := by
        intro row shape
        rw [single] at shape
        rw [List.eq_nil_of_length_eq_zero shape]
        rfl
      have every : ∀ key ∈ old.map keysOf, keysOf row = key := by
        intro key member
        obtain ⟨earlier, there, rfl⟩ := List.mem_map.mp member
        rw [empty row (rows_shape row here), empty earlier (right.holds.shape earlier there)]
      rw [List.count_eq_length.mpr every, List.length_map]
    have beyond := le_positionsFrom all position later
    have reached : n.toNat ≤ min position u64Max - offset.toNat := by omega
    simp [Nat.not_lt_of_le reached]
  · subst none
    simp

variable (n offset groups) in
/-- The rows of `batches` kept by their positions, after the rows `old`. -/
def keptAfter (old : List (List Value)) (batches : List Batch) : List (List Value) :=
  (Selection.filter ((positionsFrom (old.map keysOf) ((batches.flatMap (·.rows groups)).map keysOf)).map
    fun position => decide (Kept n offset position))).pick (values batches)

theorem keptAfter_cons (batches : List Batch) : keptAfter n offset groups old (batch :: batches) =
    (batch.filter ((positionsFrom (old.map keysOf) ((batch.rows groups).map keysOf)).map
      fun position => decide (Kept n offset position))).rows (List.range batch.columns.length) ++
      keptAfter n offset groups (old ++ batch.rows groups) batches := by
  rw [keptAfter, List.flatMap_cons, List.map_append, positionsFrom_append, List.map_append, values_cons,
    pick_append, Batch.filter, Batch.rows_select, ← List.map_append]
  · rfl
  · rw [List.length_map, length_positionsFrom, length_keys]

theorem keptAfter_skipped (right : Right n offset groups dtypes old state)
    (stop : state.done = true ∨ n = 0) (batches : List Batch) : keptAfter n offset groups old batches = [] := by
  refine pick_none _ fun kept member => ?_
  obtain ⟨position, later, rfl⟩ := List.mem_map.mp member
  exact right.skipped stop batches position later

theorem emit_kept {batches : List Batch} (right : Right n offset groups dtypes old state)
    (schema : ∀ batch ∈ batches, batch.dtypes = dtypes) :
    let run := emit n offset groups state batches
    values run.1 = keptAfter n offset groups old (batches.take run.1.length) ∧
      (run.2 = none → values run.1 = keptAfter n offset groups old batches) := by
  induction batches generalizing old state with
  | nil => exact ⟨rfl, fun _ => rfl⟩
  | cons batch rest ih =>
    rw [emit]
    by_cases stop : state.done = true ∨ n = 0
    · rw [if_pos stop]
      exact ⟨rfl, fun _ => (keptAfter_skipped right stop _).symm⟩
    · rw [if_neg stop]
      cases taken : step n offset groups batch state with
      | error error => exact ⟨rfl, fun finished => by cases finished⟩
      | ok result =>
        obtain ⟨kept, next⟩ := result
        obtain ⟨right, rfl⟩ := step_ok right (schema batch List.mem_cons_self) taken
        obtain ⟨part, whole⟩ := ih right fun other member => schema other (List.mem_cons_of_mem _ member)
        dsimp only
        rw [List.length_cons, List.take_succ_cons, values_cons, keptAfter_cons, keptAfter_cons]
        have columns : ∀ keep, (batch.filter keep).columns.length = batch.columns.length :=
          fun keep => List.length_map _
        rw [columns]
        exact ⟨congrArg _ part, fun finished => congrArg _ (whole finished)⟩

/-! ### Runs without errors -/

theorem groupable_select {column : Column} (selection : Selection) (groupable : column.Groupable) :
    (column.select selection).Groupable := by
  have kept : ∀ value ∈ (column.select selection).decode, value ∈ column.decode := by
    intro value member
    rw [Column.decode_select] at member
    exact selection.mem_pick member
  cases column with
  | states => exact groupable
  | _ => exact fun value member => groupable value (kept value member)

theorem accepts_chunks (accepts : Accepts groups batch) {chunk : Batch} (member : chunk ∈ batch.rowChunks) :
    Accepts groups chunk := by
  obtain ⟨_, _, rfl⟩ := List.mem_map.mp member
  intro column named
  obtain ⟨array, found, groupable⟩ := accepts column named
  dsimp only
  rw [Batch.slice, Batch.select, List.getElem?_map, found]
  exact ⟨_, rfl, groupable_select _ groupable⟩

theorem groupIds_unpartitioned (batch : Batch) {own : List Bool} {table : GroupTable}
    (holds : Holds [] own old old table) : ∃ ids next, GroupTable.groupIds batch table = .ok (ids, next) := by
  unfold GroupTable.groupIds
  rw [holds.groupColumns]
  dsimp only
  by_cases first : 0 < batch.numRows ∧ table.partsOfGroup = []
  · have added : ∃ group next, GroupTable.newGroup [] none table = .ok (group, next) := by
      refine ⟨_, _, if_pos ?_⟩
      rw [first.2]
      exact Nat.zero_le _
    obtain ⟨group, next, added⟩ := added
    rw [if_pos first, added]
    exact ⟨_, next, rfl⟩
  · rw [if_neg first]
    exact ⟨_, table, rfl⟩

theorem groupAll_unpartitioned {batches : List Batch} {table : GroupTable}
    (schema : ∀ batch ∈ batches, batch.dtypes = dtypes) (holds : Holds [] (ownOf dtypes []) old old table) :
    ∃ ids next, batches.mapM GroupTable.groupIds table = .ok (ids, next) := by
  induction batches generalizing old table with
  | nil => exact ⟨[], table, rfl⟩
  | cons batch batches ih =>
    obtain ⟨here, mid, first⟩ := groupIds_unpartitioned batch holds
    obtain ⟨held, _⟩ := groupIds_ok holds (by rw [schema batch List.mem_cons_self]) first
    obtain ⟨there, last, later⟩ := ih (fun other member => schema other (List.mem_cons_of_mem _ member)) held
    refine ⟨here :: there, last, ?_⟩
    rw [List.mapM_cons]
    change (GroupTable.groupIds batch table >>= fun result => _) = _
    rw [first]
    change (batches.mapM GroupTable.groupIds mid >>= fun result => _) = _
    rw [later]
    rfl

variable (groups) in
/-- There are groups for all the rows and room for each batch's, and the group columns can be grouped by. -/
def Fits (rows : Nat) (batches : List Batch) : Prop :=
  groups = [] ∧ (∀ batch ∈ batches, 4 * batch.numRows ≤ isizeMax) ∨
    (∀ batch ∈ batches, Accepts groups batch) ∧ rows + (batches.flatMap (·.rows groups)).length ≤ u32Max + 1

theorem step_fine (right : Right n offset groups dtypes old state) (schema : batch.dtypes = dtypes)
    {rest : List Batch} (fits : Fits groups old.length (batch :: rest)) :
    ∃ kept next, step n offset groups batch state = .ok (kept, next) := by
  have typed : ∀ chunk ∈ batch.rowChunks, chunk.dtypes = dtypes :=
    fun chunk member => (dtypes_chunks member).trans schema
  have grouped : 4 * batch.numRows ≤ isizeMax ∧
      ∃ ids table, batch.rowChunks.mapM GroupTable.groupIds state.table = .ok (ids, table) := by
    rcases fits with ⟨rfl, few⟩ | ⟨accepts, room⟩
    · exact ⟨few batch List.mem_cons_self, groupAll_unpartitioned typed right.holds⟩
    · have few : batch.numRows ≤ u32Max + 1 := by
        rw [List.flatMap_cons, List.length_append, length_rows] at room
        omega
      refine ⟨by unfold u32Max at few; rw [isizeMax]; omega, ?_⟩
      refine groupAll_fine typed right.holds
        (fun chunk member => accepts_chunks (accepts batch List.mem_cons_self) member) ?_
      rw [rows_chunks]
      rw [List.flatMap_cons, List.length_append] at room
      omega
  obtain ⟨few, ids, table, grouped⟩ := grouped
  rw [step, chunkedGroupIds_of_grouped few grouped]
  exact ⟨_, _, rfl⟩

theorem emit_fine {batches : List Batch} (right : Right n offset groups dtypes old state)
    (schema : ∀ batch ∈ batches, batch.dtypes = dtypes) (fits : Fits groups old.length batches) :
    (emit n offset groups state batches).2 = none := by
  induction batches generalizing old state with
  | nil => rfl
  | cons batch rest ih =>
    rw [emit]
    by_cases stop : state.done = true ∨ n = 0
    · rw [if_pos stop]
    · rw [if_neg stop]
      obtain ⟨kept, next, taken⟩ := step_fine right (schema batch List.mem_cons_self) fits
      obtain ⟨moved, _⟩ := step_ok right (schema batch List.mem_cons_self) taken
      rw [taken]
      refine ih moved (fun other member => schema other (List.mem_cons_of_mem _ member)) ?_
      rcases fits with ⟨single, few⟩ | ⟨accepts, room⟩
      · exact .inl ⟨single, fun other member => few other (List.mem_cons_of_mem _ member)⟩
      · refine .inr ⟨fun other member => accepts other (List.mem_cons_of_mem _ member), ?_⟩
        rw [List.flatMap_cons, List.length_append] at room
        rw [List.length_append]
        omega

variable (n offset groups dtypes) in
theorem right_start : Right n offset groups dtypes [] { table := .new groups, seen := [], done := false } where
  holds := holds_new _ _
  counts group := by simp
  length := rfl
  done finished := by cases finished

/-- The rows emitted are those whose positions in their groups are kept, whatever the batches; nothing
skipped would have been. -/
theorem limit_rows (n offset : UInt64) (groups : List Nat) {batches : List Batch}
    (schema : ∀ batch ∈ batches, batch.dtypes = dtypes) :
    let run := execute n offset groups batches
    (values run.1 = rowsWithin (fun position => Kept n offset position) groups (batches.take run.1.length)) ∧
      (run.2 = none → values run.1 = rowsWithin (fun position => Kept n offset position) groups batches) ∧
      (Fits groups 0 batches → run.2 = none) := by
  obtain ⟨part, whole⟩ := emit_kept (right_start n offset groups dtypes) schema
  exact ⟨part, whole, emit_fine (right_start n offset groups dtypes) schema⟩

/-- `LIMIT 1 OFFSET 1` by text: the text's second row is in the second batch. -/
theorem limit_rows_example :
    (execute 1 1 [0] sampleBatches).2 = none ∧ positions [0] sampleBatches = [0, 0, 0, 1, 1] ∧
      values (execute 1 1 [0] sampleBatches).1 =
        [[.utf8 "b", .float64 ⟨true, 0⟩], [.null, .null]] := by
  obtain ⟨_, whole, fine⟩ := limit_rows 1 1 [0] sampleBatches_dtypes
  have accepts : ∀ batch ∈ sampleBatches, Accepts [0] batch := fun batch member column named =>
    sampleBatches_accepts batch member column (List.mem_of_mem_head? (List.mem_singleton.mp named ▸ rfl))
  have finished := fine (.inr ⟨accepts, by decide⟩)
  have placed : positions [0] sampleBatches = [0, 0, 0, 1, 1] := by decide +kernel
  refine ⟨finished, placed, ?_⟩
  rw [whole finished, rowsWithin, placed]
  rfl

/-! ### No more groups than `u32`s -/

/-- A table of one column with no more groups than there are numbers for. -/
def Few (column : Nat) (table : GroupTable) : Prop :=
  table.groupColumns = [column] ∧ table.partsOfGroup.length ≤ u32Max + 1

theorem newGroup_few {column group : Nat} {table next : GroupTable} {parts : List Nat}
    {labels : Option (List (Option Value))} (few : Few column table)
    (run : GroupTable.newGroup parts labels table = .ok (group, next)) : Few column next := by
  obtain ⟨_, columns, _, grown, _⟩ := newGroup_ok run
  refine ⟨columns.trans few.1, ?_⟩
  unfold GroupTable.newGroup at run
  dsimp only at run
  split at run
  · rename_i room
    rw [grown, List.length_append, List.length_singleton]
    omega
  · cases run

theorem groupIds_few {column : Nat} {table next : GroupTable} {ids : List Nat} (few : Few column table)
    (run : GroupTable.groupIds batch table = .ok (ids, next)) : Few column next := by
  unfold GroupTable.groupIds at run
  rw [few.1] at run
  obtain ⟨⟨parts, mid⟩, made, run⟩ := bind_eq_ok run
  have start : Few column mid := by
    unfold GroupTable.columnPartsAt at made
    split at made
    · obtain ⟨_, _, made⟩ := bind_eq_ok made
      cases made
      exact few
    · cases made
  refine mapM_keeps (fun part _ group t t' here run => ?_) start run
  unfold GroupTable.groupOf at run
  split at run
  · cases run
    exact here
  · exact newGroup_few here run

theorem step_few {column : Nat} (few : Few column state.table)
    (run : step n offset groups batch state = .ok (kept, next)) : Few column next.table := by
  obtain ⟨⟨ids, table⟩, grouped, run⟩ := bind_eq_ok run
  have here : Few column table := by
    unfold chunkedGroupIds at grouped
    split at grouped
    · cases grouped
    · obtain ⟨chunks, last, numbered, done⟩ := bind_ok grouped
      obtain ⟨_, rfl⟩ := pure_ok done
      exact mapM_keeps (fun chunk _ ids t t' (here : Few column t)
        (run : GroupTable.groupIds chunk t = .ok (ids, t')) => groupIds_few here run) few numbered
  dsimp only at run
  cases run
  exact here

theorem emit_few {column : Nat} {batches : List Batch} (right : Right n offset [column] dtypes old state)
    (few : Few column state.table) (schema : ∀ batch ∈ batches, batch.dtypes = dtypes) (some : n ≠ 0)
    (finished : (emit n offset [column] state batches).2 = none) :
    (firsts keysOf (old ++ batches.flatMap (·.rows [column]))).length ≤ u32Max + 1 := by
  induction batches generalizing old state with
  | nil =>
    have groups := few.2
    rwa [right.holds.partsOfGroup, List.length_map, ← List.append_nil old] at groups
  | cons batch rest ih =>
    have goes : ¬(state.done = true ∨ n = 0) := by
      rintro (done | none)
      · cases (right.done done).1
      · exact some none
    rw [emit, if_neg goes] at finished
    cases taken : step n offset [column] batch state with
    | error error =>
      rw [taken] at finished
      cases finished
    | ok result =>
      rw [taken] at finished
      have next := ih (step_ok right (schema batch List.mem_cons_self) taken).1 (step_few few taken)
        (fun other member => schema other (List.mem_cons_of_mem _ member)) finished
      rwa [List.append_assoc] at next

end Run

/-! ### Counters at their end, and too many groups -/

theorem positionsFrom_single {κ : Type} [BEq κ] [LawfulBEq κ] {key : κ} {before keys : List κ}
    (single : ∀ other ∈ before ++ keys, key = other) :
    positionsFrom before keys = List.range' before.length keys.length := by
  induction keys generalizing before with
  | nil => rfl
  | cons first rest ih =>
    have same : ∀ other ∈ before, first = other := by
      intro other member
      rw [← single other (List.mem_append_left _ member), single first (by simp)]
    rw [positionsFrom, ih (by simpa using single), List.count_eq_length.mpr same, List.length_cons,
      List.range'_succ, List.length_append, List.length_singleton]

def boolBatch (slots : List (Option Bool)) : Batch where
  numRows := slots.length
  columns := [.bool slots]
  lengths := by simp [Column.decode]

theorem rows_boolBatch (slots : List (Option Bool)) :
    (boolBatch slots).rows (List.range 1) = slots.map fun slot => [Column.ofSlot .bool slot] := by
  refine List.ext_getElem (by simp [Batch.rows, boolBatch]) fun row inside inside' => ?_
  have bound : row < slots.length := by simpa using inside'
  simp [Batch.rows, Batch.row, GroupTable.valueAt, boolBatch, Column.decode, bound]

theorem values_boolBatches (slots : List (List (Option Bool))) :
    values (slots.map boolBatch) = slots.flatten.map fun slot => [Column.ofSlot .bool slot] := by
  induction slots with
  | nil => rfl
  | cons first rest ih =>
    rw [List.map_cons, values_cons, ih, List.flatten_cons, List.map_append]
    exact congrArg (· ++ _) (rows_boolBatch first)

theorem last_rowsWithin {within : Nat → Bool} {slots : List (List (Option Bool))} {first : List (Option Bool)}
    (all : slots.flatten = first ++ [some true]) (blank : ∀ slot ∈ first, slot = none) :
    [Value.bool true] ∈ rowsWithin within [] (slots.map boolBatch) ↔ within first.length = true := by
  have keys : (((slots.map boolBatch).flatMap (·.rows [])).map keysOf).length = first.length + 1 := by
    have total := congrArg List.length all
    rw [List.length_flatten, List.length_append, List.length_singleton] at total
    simp only [List.length_map, List.length_flatMap, List.map_map, Function.comp_def, length_rows, boolBatch, total]
  have single : ∀ key ∈ [] ++ ((slots.map boolBatch).flatMap (·.rows [])).map keysOf, [] = key := by
    intro key member
    obtain ⟨row, here, rfl⟩ := List.mem_map.mp member
    obtain ⟨batch, _, here⟩ := List.mem_flatMap.mp here
    rw [List.eq_nil_of_length_eq_zero (rows_shape row here)]
    rfl
  have placed : positions [] (slots.map boolBatch) = List.range first.length ++ [first.length] := by
    rw [positions, positionsFrom_single single, keys, List.length_nil, ← List.range_eq_range', List.range_succ]
  rw [rowsWithin, placed, values_boolBatches, all, List.map_append, List.map_append, pick_append (by simp),
    List.mem_append]
  constructor
  · rintro (early | last)
    · obtain ⟨slot, member, same⟩ := List.mem_map.mp (Selection.mem_pick _ early)
      rw [blank slot member] at same
      cases same
    · by_contra absent
      have out : ∀ kept ∈ [within first.length], kept = false := by simpa using absent
      rw [List.map_singleton, pick_none _ out] at last
      cases last
  · intro kept
    refine .inr ?_
    rw [List.map_singleton, kept]
    exact List.mem_singleton_self _

def int64Batch (values : List Int64) : Batch where
  numRows := values.length
  columns := [.int64 (values.map some)]
  lengths := by simp [Column.decode]

theorem rows_int64Batch (values : List Int64) :
    (int64Batch values).rows [0] = values.map fun value => [Value.int64 value] := by
  refine List.ext_getElem (by simp [Batch.rows, int64Batch]) fun row inside inside' => ?_
  have bound : row < values.length := by simpa using inside'
  simp [Batch.rows, Batch.row, GroupTable.valueAt, int64Batch, Column.decode, Column.ofSlot, bound]

theorem int64Batch_fails {values : List Int64} (distinct : values.Nodup) (many : u32Max + 1 < values.length) :
    execute 1 0 [0] [int64Batch values] = ([], (execute 1 0 [0] [int64Batch values]).2) ∧
      (execute 1 0 [0] [int64Batch values]).2 ≠ none := by
  have schema : ∀ batch ∈ [int64Batch values], batch.dtypes = [.plain .int64] := by simp [Batch.dtypes, int64Batch, Column.dtype]
  have fails : (execute 1 0 [0] [int64Batch values]).2 ≠ none := by
    intro finished
    have few := emit_few (right_start 1 0 [0] [.plain .int64]) ⟨rfl, Nat.zero_le _⟩ schema (by decide) finished
    have keys : ((values.map fun value => [Value.int64 value]).map keysOf).Nodup := by
      rw [List.map_map]
      refine distinct.map fun v w same => ?_
      exact int64Bytes_inj (List.cons.inj (List.cons.inj same).1).2
    rw [List.nil_append, List.flatMap_cons, List.flatMap_nil, List.append_nil, rows_int64Batch,
      firsts_of_nodup keys, List.length_map] at few
    omega
  refine ⟨?_, fails⟩
  unfold execute emit at fails ⊢
  rw [if_neg (by simp)] at fails ⊢
  cases taken : step 1 0 [0] (int64Batch values) { table := .new [0], seen := [], done := false } with
  | error error => rfl
  | ok result =>
    rw [taken] at fails
    exact absurd rfl fails

theorem first_rowsWithin {within : Nat → Bool} {first : Int64} {rest : List Int64} (kept : within 0 = true) :
    [Value.int64 first] ∈ rowsWithin within [0] [int64Batch (first :: rest)] := by
  have all : ([int64Batch (first :: rest)]).flatMap (·.rows [0]) =
      (first :: rest).map fun value => [Value.int64 value] := by
    rw [List.flatMap_cons, List.flatMap_nil, List.append_nil, rows_int64Batch]
  have same : values [int64Batch (first :: rest)] = ([int64Batch (first :: rest)]).flatMap (·.rows [0]) := rfl
  rw [rowsWithin, positions, same, all, List.map_cons, List.map_cons, positionsFrom, List.map_cons,
    List.count_nil, kept]
  exact List.mem_cons_self

/-- `LIMIT 18446744073709551615 OFFSET 1` of `2 ^ 64 + 2` rows in batches of 1024 keeps the last, at position
`2 ^ 64 + 1`; `LIMIT 1` of `2 ^ 32 + 1` numbers, each its own group, emits none of them. -/
theorem limit_keeps_later :
    let n : UInt64 := 18446744073709551615
    let batches := (List.replicate (2 ^ 54) (List.replicate 1024 none) ++ [[none, some true]]).map boolBatch
    let numbers := [int64Batch ((List.range (2 ^ 32 + 1)).map fun number => .ofNat number)]
    ((execute n 1 [] batches).2 = none ∧ [Value.bool true] ∈ values (execute n 1 [] batches).1 ∧
      [Value.bool true] ∉ rowsWithin (fun position => 1 ≤ position && position < 1 + n.toNat) [] batches) ∧
    values (execute 1 0 [0] numbers).1 = [] ∧
      [Value.int64 0] ∈ rowsWithin (fun position => 0 ≤ position && position < 0 + 1) [0] numbers := by
  intro n batches numbers
  have all : (List.replicate (2 ^ 54) (List.replicate 1024 none) ++ [[none, some true]]).flatten =
      ((List.replicate (2 ^ 54) (List.replicate 1024 none)).flatten ++ [none]) ++ [some true] := by
    rw [List.flatten_append, List.append_assoc]
    rfl
  have blank : ∀ slot ∈ (List.replicate (2 ^ 54) (List.replicate 1024 (none : Option Bool))).flatten ++ [none],
      slot = none := by
    intro slot member
    rcases List.mem_append.mp member with early | last
    · obtain ⟨slots, listed, here⟩ := List.mem_flatten.mp early
      rw [List.eq_of_mem_replicate listed] at here
      exact List.eq_of_mem_replicate here
    · exact List.mem_singleton.mp last
  have place : ((List.replicate (2 ^ 54) (List.replicate 1024 (none : Option Bool))).flatten ++ [none]).length =
      2 ^ 64 + 1 := by
    rw [List.length_append, List.length_flatten, List.map_replicate, List.length_replicate, List.sum_replicate_nat]
    rfl
  have schema : ∀ batch ∈ batches, batch.dtypes = [.plain .bool] := by
    intro batch member
    obtain ⟨slots, _, rfl⟩ := List.mem_map.mp member
    rfl
  have room : ∀ batch ∈ batches, 4 * batch.numRows ≤ isizeMax := by
    intro batch member
    obtain ⟨slots, listed, rfl⟩ := List.mem_map.mp member
    have few : slots.length ≤ 1024 := by
      rcases List.mem_append.mp listed with early | last
      · rw [List.eq_of_mem_replicate early, List.length_replicate]
      · rw [List.mem_singleton.mp last]
        decide
    change 4 * slots.length ≤ isizeMax
    exact (Nat.mul_le_mul_left 4 few).trans (by decide)
  obtain ⟨_, whole⟩ := emit_kept (right_start n 1 [] _) schema
  have finished := emit_fine (right_start n 1 [] _) schema (.inl ⟨rfl, room⟩)
  have distinct : ((List.range (2 ^ 32 + 1)).map fun number => Int64.ofNat number).Nodup := by
    refine List.Nodup.map_on (fun a inside b inside' same => ?_) List.nodup_range
    have small := List.mem_range.mp inside
    have small' := List.mem_range.mp inside'
    have values := congrArg Int64.toInt same
    rw [Int64.toInt_ofNat_of_lt (by omega), Int64.toInt_ofNat_of_lt (by omega)] at values
    exact Int.ofNat.inj values
  have fails := (int64Batch_fails distinct (by rw [List.length_map, List.length_range]; decide)).1
  refine ⟨⟨finished, ?_, ?_⟩, ?_, ?_⟩
  · have kept : values (execute n 1 [] batches).1 =
        rowsWithin (fun position => decide (Kept n 1 position)) [] batches := whole finished
    rw [kept, last_rowsWithin all blank, place]
    decide
  · rw [last_rowsWithin all blank, place]
    decide
  · rw [fails]
    rfl
  · have split : numbers = [int64Batch (0 :: (List.range (2 ^ 32)).map fun number => .ofNat (number + 1))] := by
      change [int64Batch ((List.range (2 ^ 32 + 1)).map _)] = _
      rw [List.range_succ_eq_map, List.map_cons, List.map_map]
      rfl
    rw [split]
    exact first_rowsWithin rfl

end AsapPlanner.Grouping.Limit
