import AsapPlanner.Ir.OperatorProperties
import AsapPlanner.Rust.Result
import AsapPlanner.Expressions.Columnar

/-!
The row-at-a-time nested loop join: what every join kind means. The relational join: each left row
against all right rows at once, its predicate one column over the pairs.
-/

namespace AsapPlanner.Relational
open Ir Rust Grouping Expressions

def settles : JoinKind → Bool
  | .semi | .anti => true
  | _ => false

def keepsLeft : JoinKind → Bool
  | .left | .full => true
  | _ => false

def keepsRight : JoinKind → Bool
  | .right | .full => true
  | _ => false

section
variable {α β ε : Type} (kind : JoinKind)

/-- The truth of a left row's pairs, each evaluated in turn; a settled row's later pairs are not. -/
def scan (holds : β → Except ε Bool) : List β → Except ε (List Bool)
  | [] => .ok []
  | row :: rest => do
    let truth ← holds row
    if truth && settles kind then .ok [true]
    else do
      let others ← scan holds rest
      .ok (truth :: others)

def outputOf (left : α) (right : List β) (truths : List Bool) : List (Option α × Option β) :=
  let matched := truths.any id
  match kind with
  | .semi => if matched then [(some left, none)] else []
  | .anti => if matched then [] else [(some left, none)]
  | kind =>
    ((right.zip truths).filter (·.2)).map (fun pair => (some left, some pair.1)) ++
      if keepsLeft kind && !matched then [(some left, none)] else []

/-- The right rows that no left row matches. -/
def unmatched (right : List β) (table : List (List Bool)) : List (Option α × Option β) :=
  ((right.zipIdx).filter fun entry => table.all fun truths => !truths.getD entry.2 false).map
    fun entry => (none, some entry.1)

/-- The pairs of a join, a missing side for each unmatched row of a preserved side. -/
def nestedLoop (holds : α → β → Except ε Bool) (left : List α) (right : List β) :
    Except ε (List (Option α × Option β)) := do
  let table ← left.mapM fun row => scan kind (holds row) right
  .ok ((List.zipWith (fun row truths => outputOf kind row right truths) left table).flatten ++
    if keepsRight kind then unmatched right table else [])

end

/-! ### Rows by their numbers -/

section
variable {α β α' β' ε : Type} {kind : JoinKind}

theorem scan_map (holds : β' → Except ε Bool) (f : β → β') (rows : List β) :
    scan kind holds (rows.map f) = scan kind (fun row => holds (f row)) rows := by
  induction rows with
  | nil => rfl
  | cons row rest ih => simp only [List.map_cons, scan, ih]

theorem outputOf_map (f : α → α') (g : β → β') (left : α) (right : List β) (truths : List Bool) :
    outputOf kind (f left) (right.map g) truths =
      (outputOf kind left right truths).map fun pair => (pair.1.map f, pair.2.map g) := by
  cases kind <;>
    simp [outputOf, List.zip_map_left, List.filter_map, Function.comp_def, apply_ite (List.map _)]

theorem unmatched_map (f : α → α') (g : β → β') (right : List β) (table : List (List Bool)) :
    unmatched (α := α') (right.map g) table =
      (unmatched (α := α) right table).map fun pair => (pair.1.map f, pair.2.map g) := by
  simp [unmatched, List.zipIdx_map, List.filter_map, Function.comp_def]

theorem nestedLoop_map (holds : α' → β' → Except ε Bool) (f : α → α') (g : β → β') (left : List α)
    (right : List β) : nestedLoop kind holds (left.map f) (right.map g) =
      (nestedLoop kind (fun row other => holds (f row) (g other)) left right).map
        (List.map fun pair => (pair.1.map f, pair.2.map g)) := by
  unfold nestedLoop
  simp only [List.mapM_map, scan_map, Function.comp_def]
  cases left.mapM fun row => scan kind (fun other => holds (f row) (g other)) right with
  | error _ => rfl
  | ok table =>
    refine congrArg Except.ok ?_
    rw [List.map_append, List.map_flatten, List.zipWith_map_left, List.map_zipWith]
    simp only [outputOf_map f g]
    congr 1
    split
    · exact unmatched_map f g right table
    · rfl

end

/-! ### The sides of a pair -/

section
variable {α β ε : Type} {kind : JoinKind}

theorem mem_outputOf {left : α} {right : List β} {truths : List Bool} {pair : Option α × Option β}
    (member : pair ∈ outputOf kind left right truths) : pair.1 = some left ∧
      (∀ row, pair.2 = some row → row ∈ right) ∧ (pair.2 = none → settles kind = true ∨ keepsLeft kind = true) := by
  have single : ∀ {condition : Bool}, pair ∈ (if condition then [(some left, none)] else []) →
      pair = (some left, none) := fun {condition} member => by
    cases condition with
    | false => cases member
    | true => exact List.mem_singleton.mp member
  have unsettled : ∀ {condition : Bool}, pair ∈ ((right.zip truths).filter (·.2)).map
      (fun pair => (some left, some pair.1)) ++ (if condition then [(some left, none)] else []) →
        (∃ row ∈ right, pair = (some left, some row)) ∨ (condition = true ∧ pair = (some left, none)) := by
    intro condition member
    rcases List.mem_append.mp member with matched | missing
    · obtain ⟨entry, chosen, rfl⟩ := List.mem_map.mp matched
      exact .inl ⟨entry.1, (List.of_mem_zip (List.mem_of_mem_filter (a := entry) chosen)).1, rfl⟩
    · cases condition
      · cases missing
      · exact .inr ⟨rfl, single missing⟩
  unfold outputOf at member
  cases kind with
  | semi =>
    obtain rfl := single member
    exact ⟨rfl, nofun, fun _ => .inl rfl⟩
  | anti =>
    replace member : pair ∈ (if truths.any id then [] else [(some left, none)]) := member
    split at member
    · cases member
    · obtain rfl := List.mem_singleton.mp member
      exact ⟨rfl, nofun, fun _ => .inl rfl⟩
  | _ =>
    rcases unsettled member with ⟨row, here, rfl⟩ | ⟨missing, rfl⟩
    · exact ⟨rfl, fun _ same => Option.some.inj same ▸ here, nofun⟩
    · exact ⟨rfl, nofun, fun _ => .inr (Bool.and_eq_true_iff.mp missing).1⟩

theorem mem_nestedLoop {holds : α → β → Except ε Bool} {left : List α} {right : List β}
    {pairs : List (Option α × Option β)} (ran : nestedLoop kind holds left right = .ok pairs)
    {pair : Option α × Option β} (member : pair ∈ pairs) : (∀ row, pair.1 = some row → row ∈ left) ∧
      (∀ row, pair.2 = some row → row ∈ right) ∧ (pair.1 = none → keepsRight kind = true) ∧
        (pair.2 = none → settles kind = true ∨ keepsLeft kind = true) := by
  unfold nestedLoop at ran
  obtain ⟨table, _, ran⟩ := bind_eq_ok ran
  cases ran
  rcases List.mem_append.mp member with output | missing
  · obtain ⟨rows, here, inside⟩ := List.mem_flatten.mp output
    rw [← List.map_uncurry_zip_eq_zipWith] at here
    obtain ⟨⟨row, truths⟩, zipped, rfl⟩ := List.mem_map.mp here
    obtain ⟨own, others, none⟩ := mem_outputOf inside
    refine ⟨fun _ same => ?_, others, fun absent => ?_, none⟩
    · rw [own] at same
      cases same
      exact (List.of_mem_zip zipped).1
    · rw [own] at absent
      cases absent
  · split at missing
    · rename_i preserved
      obtain ⟨entry, kept, rfl⟩ := List.mem_map.mp missing
      obtain ⟨_, inside, found⟩ := List.mem_zipIdx (List.mem_of_mem_filter (a := entry) kept)
      refine ⟨nofun, fun _ same => ?_, fun _ => preserved, nofun⟩
      cases same
      exact found ▸ List.getElem_mem _
    · cases missing

/-! ### Where the loop fails -/

theorem scan_reaches {holds : β → Except ε Bool} {before after : List β} {row : β} {truths : List Bool}
    (ran : scan kind holds (before ++ row :: after) = .ok truths)
    (open_ : settles kind = true → ∀ earlier ∈ before, holds earlier ≠ .ok true) : ∃ truth, holds row = .ok truth := by
  induction before generalizing truths with
  | nil =>
    rw [List.nil_append, scan] at ran
    obtain ⟨truth, held, _⟩ := bind_eq_ok ran
    exact ⟨truth, held⟩
  | cons first rest ih =>
    rw [List.cons_append, scan] at ran
    obtain ⟨truth, held, ran⟩ := bind_eq_ok ran
    split at ran
    · rename_i settled
      obtain ⟨matched, settles⟩ := Bool.and_eq_true_iff.mp settled
      exact absurd (matched ▸ held) (open_ settles first List.mem_cons_self)
    · obtain ⟨others, later, _⟩ := bind_eq_ok ran
      exact ih later fun settles earlier member => open_ settles earlier (List.mem_cons_of_mem _ member)

theorem nestedLoop_reaches {holds : α → β → Except ε Bool} {left : List α} {before after : List β} {other : β}
    {pairs : List (Option α × Option β)} (ran : nestedLoop kind holds left (before ++ other :: after) = .ok pairs)
    {row : α} (member : row ∈ left)
    (open_ : settles kind = true → ∀ earlier ∈ before, holds row earlier ≠ .ok true) :
    ∃ truth, holds row other = .ok truth := by
  obtain ⟨table, scans, _⟩ := bind_eq_ok ran
  rw [mapM_eq_ok] at scans
  obtain ⟨index, inside, rfl⟩ := List.getElem_of_mem member
  exact scan_reaches (List.Forall₂.get scans inside (scans.length_eq ▸ inside)) open_

theorem nestedLoop_total {holds : α → β → Except ε Bool} {left : List α} {right : List β}
    (each : ∀ row ∈ left, ∃ truths, scan kind (holds row) right = .ok truths) :
    ∃ pairs, nestedLoop kind holds left right = .ok pairs := by
  obtain ⟨table, scans⟩ := mapM_total each
  exact ⟨_, by rw [nestedLoop, scans]; rfl⟩

end

/-! ### The relational join -/

/-! ### Batches from their columns -/

instance (column : Column) (field : SchemaField) : Decidable (OfField column field) :=
  decidable_of_iff (hasLayout column field.dtype = true ∧ ∀ value ∈ column.decode, holdsCell field value = true)
    ⟨fun ⟨layout, cells⟩ => ⟨layout, cells⟩, fun ⟨layout, cells⟩ => ⟨layout, cells⟩⟩

instance decidableTyped : ∀ (columns : List Column) (fields : List SchemaField),
    Decidable (List.Forall₂ OfField columns fields)
  | [], [] => isTrue .nil
  | [], _ :: _ => isFalse nofun
  | _ :: _, [] => isFalse nofun
  | column :: columns, field :: fields =>
    have := decidableTyped columns fields
    decidable_of_iff (OfField column field ∧ List.Forall₂ OfField columns fields) List.forall₂_cons.symm

def fromParts (schema : Schema) (columns : List Column) (rows : Nat) : Except Error TypedBatch :=
  if columns.length ≠ schema.fields.length then
    .error (.invalid "column count differs from Planner schema")
  else if typed : (∀ column ∈ columns, column.decode.length = rows) ∧
      List.Forall₂ OfField columns schema.fields then
    .ok { schema, batch := { numRows := rows, columns, lengths := typed.1 }, typed := typed.2 }
  else .error (.invalid "value differs from its column's type")

def takeColumn (indices : List (Option Nat)) : Column → Column
  | .null _ => .null indices.length
  | .bool values => .bool (indices.map fun index => index.bind fun index => (values[index]?).join)
  | .int64 values => .int64 (indices.map fun index => index.bind fun index => (values[index]?).join)
  | .float64 values => .float64 (indices.map fun index => index.bind fun index => (values[index]?).join)
  | .timestamp values => .timestamp (indices.map fun index => index.bind fun index => (values[index]?).join)
  | .date values => .date (indices.map fun index => index.bind fun index => (values[index]?).join)
  | .interval values => .interval (indices.map fun index => index.bind fun index => (values[index]?).join)
  | .dictionary column =>
    .dictionary ⟨column.texts, indices.map fun index => index.bind fun index => (column.keys[index]?).join⟩
  | .nested dtype values =>
    .nested dtype (indices.map fun index => (index.bind fun index => values[index]?).getD .null)
  | .states family _ => .states family indices.length

def isStates : Column → Bool
  | .states _ _ => true
  | _ => false

def takeRows (typed : TypedBatch) (indices : List (Option Nat)) : Except Error (List Column) :=
  if indices.any Option.isNone && typed.batch.columns.any isStates then
    .error (.invalid "a summary column has no NULL row")
  else .ok (typed.batch.columns.map (takeColumn indices))

/-! ### The operator -/

def schemaOf (fields : List SchemaField) : Schema := Schema.new fields

structure JoinOperator where
  left : Schema
  right : Schema
  kind : JoinKind
  predicate : CompiledExpression
  output : Schema

def nullableField (field : SchemaField) : SchemaField := { field with nullable := true }

/-- The output's columns: a side's are nullable where the other side's rows are all kept. -/
def outputFields (kind : JoinKind) (left right : Schema) : List SchemaField :=
  if settles kind then left.fields
  else
    (if keepsRight kind then left.fields.map nullableField else left.fields) ++
      if keepsLeft kind then right.fields.map nullableField else right.fields

def declares (fields : List SchemaField) (output : Schema) : Bool :=
  fields.length == output.fields.length &&
    (fields.zip output.fields).all fun (actual, declared) =>
      same actual.dtype declared.dtype && (!actual.nullable || declared.nullable)

def timeColumn (output : Schema) : Bool :=
  output.timeIndex.all fun index =>
    match output.fields[index]? with
    | some field => same field.dtype (.plain .timestamp)
    | none => false

/-- `Operator::relational_join`. -/
def JoinOperator.new (host : Host) (left right : Schema) (kind : JoinKind) (predicate : LocalExpr)
    (output : Schema) : Except String JoinOperator := do
  let predicate ← compile host predicate (schemaOf (left.fields ++ right.fields))
  if !isBool predicate.output.1 then .error "join predicate must be boolean"
  else if !declares (outputFields kind left right) output then
    .error "native output type differs from Planner output"
  else if !timeColumn output then .error "invalid output time column"
  else .ok { left, right, kind, predicate, output }

/-! ### The join -/

/-- Left row `leftRow` beside every right row. -/
def joined (left right : TypedBatch) (leftRow : Nat) : Except Error TypedBatch :=
  fromParts (schemaOf (left.schema.fields ++ right.schema.fields))
    (left.batch.columns.map (Column.select (rowsAt (List.replicate right.numRows leftRow))) ++
      right.batch.columns) right.numRows

def isTrue : Value → Bool
  | .bool true => true
  | _ => false

/-- A row's pairs replayed one by one, a settled row's later pairs taken as false. -/
def replay (kind : JoinKind) (evaluate : List Value → Except String Value) : List (List Value) →
    Except String (List Bool)
  | [] => .ok []
  | row :: rest => do
    let value ← evaluate row
    let matched := isTrue value
    if matched && settles kind then .ok [matched]
    else do
      let others ← replay kind evaluate rest
      .ok (matched :: others)

def matchesOf (host : Host) (kind : JoinKind) (predicate : CompiledExpression) (left right : TypedBatch)
    (leftRow : Nat) : Except Error (List Bool) :=
  if kind = .cross then .ok (List.replicate right.numRows true)
  else do
    let pairs ← joined left right leftRow
    match predicate.evaluateBatch host pairs with
    | .ok (.bool values) => .ok (values.map (· == some true))
    | .ok _ => .error (.invalid "join predicate must be boolean")
    | .error .panic => .error .panic
    -- A failing pair fails only if the row join reaches it: the row is replayed pair by pair.
    | .error (.invalid _) => do
      let truths ← bad (replay kind (predicate.evaluate host) pairs.toRows)
      .ok (truths ++ List.replicate (right.numRows - truths.length) false)

/-- The output pairs so far, a left row or none beside a right row or none, and the right rows matched. -/
structure Pairs where
  outLeft : List (Option Nat)
  outRight : List (Option Nat)
  rightMatched : List Bool

def asU32 (row : Nat) : Nat := row % (u32Max + 1)

/-- The pairs of a left row from right row `rightRow` on, and whether one matches. -/
def emitMatches (kind : JoinKind) (leftRow : Nat) : Nat → List Bool → Pairs → Pairs × Bool
  | _, [], out => (out, false)
  | rightRow, isMatch :: rest, out =>
    if !isMatch then emitMatches kind leftRow (rightRow + 1) rest out
    else
      let out := { out with rightMatched := out.rightMatched.set rightRow true }
      match kind with
      | .semi => ({ out with outLeft := out.outLeft ++ [some leftRow] }, true)
      | .anti => (out, true)
      | _ =>
        let out := { out with outLeft := out.outLeft ++ [some leftRow]
                              outRight := out.outRight ++ [some (asU32 rightRow)] }
        ((emitMatches kind leftRow (rightRow + 1) rest out).1, true)

def emitRow (kind : JoinKind) (leftRow : Nat) (truths : List Bool) (out : Pairs) : Pairs :=
  match emitMatches kind leftRow 0 truths out with
  | (out, true) => out
  | (out, false) =>
    match kind with
    | .left | .full => { out with outLeft := out.outLeft ++ [some leftRow], outRight := out.outRight ++ [none] }
    | .anti => { out with outLeft := out.outLeft ++ [some leftRow] }
    | _ => out

def joinLoop (host : Host) (kind : JoinKind) (predicate : CompiledExpression) (left right : TypedBatch) :
    List Nat → Pairs → Except Error Pairs
  | [], out => .ok out
  | leftRow :: rest, out => do
    let truths ← matchesOf host kind predicate left right leftRow
    joinLoop host kind predicate left right rest (emitRow kind leftRow truths out)

def emitUnmatched (out : Pairs) : Pairs :=
  let rows := (out.rightMatched.zipIdx.filter fun entry => !entry.1).map fun entry => some (asU32 entry.2)
  { out with outLeft := out.outLeft ++ rows.map fun _ => none, outRight := out.outRight ++ rows }

/-- A nested-loop join over a run in which `now()` is `evaluationTimeMs`. -/
def relationalJoin (host : Host) (operator : JoinOperator) (evaluationTimeMs : Option Int64)
    (left right : TypedBatch) : Except Error TypedBatch := do
  let predicate := { operator.predicate with evaluationTimeMs }
  let out ← joinLoop host operator.kind predicate left right (List.range (asU32 left.numRows))
    { outLeft := [], outRight := [], rightMatched := List.replicate right.numRows false }
  let out := if keepsRight operator.kind then emitUnmatched out else out
  let rows := out.outLeft.length
  let leftColumns ← takeRows left out.outLeft
  if settles operator.kind then fromParts operator.output leftColumns rows
  else do
    let rightColumns ← takeRows right out.outRight
    fromParts operator.output (leftColumns ++ rightColumns) rows

end AsapPlanner.Relational
