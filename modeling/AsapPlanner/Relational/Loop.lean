import AsapPlanner.Relational.Emitted

/-!
The output pairs of the join are the nested loop's, row number by row number.
-/

namespace AsapPlanner.Relational
open Ir Rust Grouping Expressions

/-! ### One left row -/

/-- The right rows matched, from row `start` on. -/
def chosen (start : Nat) (found : List Bool) : List (Nat × Bool) :=
  ((List.range' start found.length).zip found).filter (·.2)

def mark (rightMatched : List Bool) (rows : List (Nat × Bool)) : List Bool :=
  rows.foldl (fun held row => held.set row.1 true) rightMatched

theorem chosen_cons (start : Nat) (isMatch : Bool) (rest : List Bool) : chosen start (isMatch :: rest) =
    (if isMatch then [(start, true)] else []) ++ chosen (start + 1) rest := by
  rw [chosen, List.length_cons, List.range'_succ, List.zip_cons_cons, List.filter_cons]
  cases isMatch <;> rfl

theorem mark_get (rightMatched : List Bool) (rows : List (Nat × Bool)) (row : Nat) :
    (mark rightMatched rows)[row]? = rightMatched[row]?.map (· || rows.any (·.1 == row)) := by
  induction rows generalizing rightMatched with
  | nil => simp [mark]
  | cons first rest ih =>
    show (mark (rightMatched.set first.1 true) rest)[row]? = _
    rw [ih, List.getElem?_set]
    by_cases here : first.1 = row
    · subst here
      by_cases inside : first.1 < rightMatched.length
      · simp [inside]
      · simp [inside]
    · simp [here, beq_eq_false_iff_ne.mpr here]

theorem any_chosen (found : List Bool) (row : Nat) : (chosen 0 found).any (·.1 == row) = found.getD row false := by
  suffices ∀ start, (chosen start found).any (·.1 == start + row) = found.getD row false by
    simpa using this 0
  induction found generalizing row with
  | nil => exact fun _ => rfl
  | cons isMatch rest ih =>
    intro start
    rw [chosen_cons, List.any_append]
    cases row with
    | zero =>
      have later : (chosen (start + 1) rest).any (·.1 == start + 0) = false := by
        rw [List.any_eq_false]
        rintro ⟨index, held⟩ member
        have inside := (List.of_mem_zip (List.mem_of_mem_filter member)).1
        rw [List.mem_range'_1] at inside
        simp
        omega
      rw [later]
      cases isMatch <;> simp
    | succ row =>
      have shifted := ih row (start + 1)
      rw [show start + 1 + row = start + (row + 1) by omega] at shifted
      rw [shifted]
      cases isMatch <;> simp

section EmitMatches
variable {kind : JoinKind} (leftRow : Nat)

theorem emitMatches_unsettled (unsettled : settles kind = false) (start : Nat) (found : List Bool) (out : Pairs) :
    emitMatches kind leftRow start found out =
      ({ outLeft := out.outLeft ++ (chosen start found).map fun _ => some leftRow
         outRight := out.outRight ++ (chosen start found).map fun row => some (asU32 row.1)
         rightMatched := mark out.rightMatched (chosen start found) }, found.any id) := by
  induction found generalizing start out with
  | nil => simp [emitMatches, chosen, mark]
  | cons isMatch rest ih =>
    cases isMatch with
    | false =>
      rw [emitMatches, if_pos (by rfl), ih, chosen_cons]
      rfl
    | true =>
      rw [emitMatches, if_neg (by decide), chosen_cons]
      cases kind <;> first | exact Bool.noConfusion unsettled | simp [ih, mark]

theorem emitMatches_semi (start : Nat) (found : List Bool) (out : Pairs) :
    (emitMatches .semi leftRow start found out).1.outLeft =
        out.outLeft ++ (if found.any id then [some leftRow] else []) ∧
      (emitMatches .semi leftRow start found out).2 = found.any id := by
  induction found generalizing start out with
  | nil => simp [emitMatches]
  | cons isMatch rest ih =>
    cases isMatch with
    | false => simpa [emitMatches] using ih (start + 1) out
    | true => simp [emitMatches]

theorem emitMatches_anti (start : Nat) (found : List Bool) (out : Pairs) :
    (emitMatches .anti leftRow start found out).1.outLeft = out.outLeft ∧
      (emitMatches .anti leftRow start found out).2 = found.any id := by
  induction found generalizing start out with
  | nil => simp [emitMatches]
  | cons isMatch rest ih =>
    cases isMatch with
    | false => simpa [emitMatches] using ih (start + 1) out
    | true => simp [emitMatches]

end EmitMatches

/-- Pairs written after those so far, and the right rows matched by them. A settled kind writes left rows alone. -/
structure Written (kind : JoinKind) (pairs : List (Option Nat × Option Nat)) (matched : Nat → Bool)
    (before after : Pairs) : Prop where
  left : after.outLeft = before.outLeft ++ pairs.map (·.1)
  right : settles kind = false → after.outRight = before.outRight ++ pairs.map (·.2)
  matched : settles kind = false →
    ∀ row : Nat, after.rightMatched[row]? = before.rightMatched[row]?.map (· || matched row)

theorem asU32_small {row : Nat} (small : row ≤ u32Max) : asU32 row = row := Nat.mod_eq_of_lt (by omega)

theorem chosen_asU32 {found : List Bool} (few : found.length ≤ u32Max) :
    (chosen 0 found).map (fun row => some (asU32 row.1)) =
      (((List.range found.length).zip found).filter (·.2)).map fun row => some row.1 := by
  rw [chosen, ← List.range_eq_range']
  refine List.map_congr_left fun row member => ?_
  have inside := List.mem_range.mp (List.of_mem_zip (List.mem_of_mem_filter (a := row) member)).1
  rw [asU32_small (by omega)]

theorem map_outputOf {kind : JoinKind} (unsettled : settles kind = false) (leftRow : Nat) (right : List Nat)
    (truths : List Bool) : outputOf kind leftRow right truths =
      ((right.zip truths).filter (·.2)).map (fun pair => (some leftRow, some pair.1)) ++
        if keepsLeft kind && !truths.any id then [(some leftRow, none)] else [] := by
  cases kind <;> first | rfl | exact Bool.noConfusion unsettled

theorem emitRow_writes {kind : JoinKind} {rows : Nat} {truths found : List Bool}
    (agree : Agree kind rows truths found) (few : rows ≤ u32Max) (leftRow : Nat) (out : Pairs) :
    Written kind (outputOf kind leftRow (List.range rows) truths) (truths.getD · false) out
      (emitRow kind leftRow found out) := by
  cases unsettled : settles kind with
  | true =>
    refine ⟨?_, fun other => absurd (unsettled.symm.trans other) nofun,
      fun other => absurd (unsettled.symm.trans other) nofun⟩
    unfold emitRow outputOf
    rw [← agree.any]
    cases kind with
    | semi =>
      obtain ⟨written, any⟩ := emitMatches_semi leftRow 0 found out
      generalize emitMatches .semi leftRow 0 found out = emitted at written any ⊢
      obtain ⟨after, matched⟩ := emitted
      cases any
      split <;> simp_all
    | anti =>
      obtain ⟨written, any⟩ := emitMatches_anti leftRow 0 found out
      generalize emitMatches .anti leftRow 0 found out = emitted at written any ⊢
      obtain ⟨after, matched⟩ := emitted
      cases any
      split <;> simp_all
    | _ => exact Bool.noConfusion unsettled
  | false =>
    obtain rfl := agree.each unsettled
    have length := agree.length
    subst length
    have marks : ∀ row : Nat, (mark out.rightMatched (chosen 0 found))[row]? =
        out.rightMatched[row]?.map (· || found.getD row false) := fun row => by rw [mark_get, any_chosen]
    rw [map_outputOf unsettled]
    unfold emitRow
    rw [emitMatches_unsettled leftRow unsettled, chosen_asU32 few]
    have width : (chosen 0 found).map (fun _ => some leftRow) =
        (((List.range found.length).zip found).filter (·.2)).map fun _ => some leftRow := by
      rw [chosen, List.range_eq_range']
    rw [width]
    cases any : found.any id with
    | true => exact ⟨by simp [Function.comp_def], fun _ => by simp, fun _ => marks⟩
    | false =>
      cases kind <;> first
        | exact Bool.noConfusion unsettled
        | exact ⟨by simp [keepsLeft, Function.comp_def], fun _ => by simp [keepsLeft], fun _ => marks⟩

/-! ### All left rows -/

theorem Written.nil {kind : JoinKind} (out : Pairs) : Written kind [] (fun _ => false) out out :=
  ⟨by simp, fun _ => by simp, fun _ row => by simp⟩

theorem Written.append {kind : JoinKind} {first second : List (Option Nat × Option Nat)}
    {matched matched' : Nat → Bool} {before between after : Pairs} (wrote : Written kind first matched before between)
    (wroteNext : Written kind second matched' between after) :
    Written kind (first ++ second) (fun row => matched row || matched' row) before after where
  left := by rw [wroteNext.left, wrote.left, List.map_append, List.append_assoc]
  right unsettled := by
    rw [wroteNext.right unsettled, wrote.right unsettled, List.map_append, List.append_assoc]
  matched unsettled row := by
    rw [wroteNext.matched unsettled, wrote.matched unsettled, Option.map_map]
    refine congrArg (Option.map · _) (funext fun held => ?_)
    exact Bool.or_assoc _ _ _

section JoinLoop
variable {host : Host} {kind : JoinKind} {predicate : CompiledExpression} {left right : TypedBatch}

variable (kind right) in
/-- The loop's output from the truths of some left rows. -/
def outputs (rows : List Nat) (table : List (List Bool)) : List (Option Nat × Option Nat) :=
  (List.zipWith (fun row truths => outputOf kind row (List.range right.numRows) truths) rows table).flatten

theorem joinLoop_writes {holds : Nat → Nat → Except String Bool} (few : right.numRows ≤ u32Max) (rows : List Nat)
    (each : ∀ row ∈ rows, Follows (Agree kind right.numRows) (scan kind (holds row) (List.range right.numRows))
      (matchesOf host kind predicate left right row)) (out : Pairs) :
    Follows (fun table after =>
        Written kind (outputs kind right rows table) (fun row => table.any (·.getD row false)) out after)
      (rows.mapM fun row => scan kind (holds row) (List.range right.numRows))
      (joinLoop host kind predicate left right rows out) := by
  induction rows generalizing out with
  | nil => exact .ok (.nil out)
  | cons row rest ih =>
    obtain ⟨first, others⟩ := List.forall_mem_cons.mp each
    rw [List.mapM_cons, joinLoop]
    refine first.bind fun truths found agree => ?_
    have wrote := emitRow_writes agree few row out
    generalize emitRow kind row found out = between at wrote ⊢
    rw [← bind_pure (joinLoop host kind predicate left right rest between)]
    exact (ih others between).bind fun table after wroteRest => .ok (wrote.append wroteRest)

end JoinLoop

/-! ### Unmatched right rows -/

theorem rightMatched_eq {kind : JoinKind} (unsettled : settles kind = false) {rows : Nat}
    {pairs : List (Option Nat × Option Nat)} {matched : Nat → Bool} {out : Pairs}
    (wrote : Written kind pairs matched ⟨[], [], List.replicate rows false⟩ out) :
    out.rightMatched = (List.range rows).map matched := by
  refine List.ext_getElem? fun row => ?_
  rw [wrote.matched unsettled, List.getElem?_map, List.getElem?_replicate]
  by_cases inside : row < rows
  · simp [inside]
  · simp [inside]

theorem emitUnmatched_writes {kind : JoinKind} (unsettled : settles kind = false) {rows : Nat}
    (few : rows ≤ u32Max) {pairs : List (Option Nat × Option Nat)} {table : List (List Bool)} {out : Pairs}
    (wrote : Written kind pairs (fun row => table.any (·.getD row false)) ⟨[], [], List.replicate rows false⟩ out) :
    (emitUnmatched out).outLeft = (pairs ++ unmatched (α := Nat) (List.range rows) table).map Prod.fst ∧
      (emitUnmatched out).outRight = (pairs ++ unmatched (α := Nat) (List.range rows) table).map Prod.snd := by
  have numbers : (out.rightMatched.zipIdx.filter fun entry => !entry.1).map (fun entry => some (asU32 entry.2)) =
      (unmatched (α := Nat) (List.range rows) table).map (·.2) := by
    rw [rightMatched_eq unsettled wrote, unmatched, List.zipIdx_map, List.filter_map, List.map_map, List.map_map]
    have same : ∀ entry ∈ (List.range rows).zipIdx, entry.1 = entry.2 ∧ entry.2 < rows := by
      rintro ⟨row, index⟩ member
      obtain ⟨_, inside, found⟩ := List.mem_zipIdx member
      simp_all
    have kept : ∀ entry ∈ (List.range rows).zipIdx, ((fun entry : Bool × Nat => !entry.1) ∘
        Prod.map (fun row => table.any (·.getD row false)) id) entry =
          table.all fun truths => !truths.getD entry.2 false := fun entry member => by
      rw [Function.comp_apply, Prod.map_fst, (same entry member).1, List.not_any_eq_all_not]
    rw [List.filter_congr kept]
    refine List.map_congr_left fun entry member => ?_
    obtain ⟨equal, small⟩ := same entry (List.mem_of_mem_filter member)
    show some (asU32 entry.2) = some entry.1
    rw [asU32_small (by omega), equal]
  unfold emitUnmatched
  simp only [numbers]
  refine ⟨?_, ?_⟩
  · rw [wrote.left, List.map_append]
    refine congrArg (([] : List (Option Nat)) ++ pairs.map Prod.fst ++ ·) ?_
    rw [List.map_map, unmatched, List.map_map, List.map_map]
    rfl
  · rw [wrote.right unsettled, List.map_append]
    rfl

end AsapPlanner.Relational
