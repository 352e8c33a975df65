import AsapPlanner.Expressions.Evaluate
import AsapPlanner.Rust.Result

/-!
An expression's value depends on the columns it reads alone, and further compiled patterns do not change it.
-/

namespace AsapPlanner.Expressions
open Ir Rust Grouping

/-- `next` gives the columns `ids` the values `scope` gives them, and knows every pattern `scope` knows. -/
structure Extends (scope next : Scope) (ids : List Nat) : Prop where
  schema : next.schema = scope.schema
  evaluationTimeMs : next.evaluationTimeMs = scope.evaluationTimeMs
  row : ∀ id ∈ ids, next.row[id]? = scope.row[id]?
  regexes : ∀ pattern isMatch, scope.regexes pattern = some isMatch → next.regexes pattern = some isMatch

section
variable {host : Host} {scope next : Scope} {ids more : List Nat}

theorem Extends.left (grows : Extends scope next (ids ++ more)) : Extends scope next ids :=
  { grows with row := fun id read => grows.row id (List.mem_append_left more read) }

theorem Extends.right (grows : Extends scope next (ids ++ more)) : Extends scope next more :=
  { grows with row := fun id read => grows.row id (List.mem_append_right ids read) }

mutual
theorem evaluate_extends (expr : LocalExpr) (grows : Extends scope next expr.columnsReferenced) {value : Value}
    (run : evaluate host scope expr = .ok value) : evaluate host next expr = .ok value := by
  cases expr with
  | currentTimestamp =>
    rw [evaluate] at run ⊢
    rwa [grows.evaluationTimeMs]
  | column id =>
    rw [evaluate] at run ⊢
    rw [grows.row id List.mem_cons_self]
    cases found : scope.row[id]? with
    | none => simp [found] at run
    | some held => simpa [found] using run
  | literal held => simpa only [evaluate] using run
  | cast expr target _ =>
    rw [evaluate] at run ⊢
    obtain ⟨operand, first, run⟩ := bind_eq_ok run
    rw [evaluate_extends expr grows first, grows.schema]
    exact run
  | negative expr _ =>
    rw [evaluate] at run ⊢
    obtain ⟨operand, first, run⟩ := bind_eq_ok run
    rw [evaluate_extends expr grows first]
    exact run
  | not expr =>
    rw [evaluate] at run ⊢
    obtain ⟨operand, first, run⟩ := bind_eq_ok run
    rw [evaluate_extends expr grows first]
    exact run
  | isNull expr =>
    rw [evaluate] at run ⊢
    obtain ⟨operand, first, run⟩ := bind_eq_ok run
    rw [evaluate_extends expr grows first]
    exact run
  | isNotNull expr =>
    rw [evaluate] at run ⊢
    obtain ⟨operand, first, run⟩ := bind_eq_ok run
    rw [evaluate_extends expr grows first]
    exact run
  | compare left op right _ =>
    unfold evaluate at run ⊢
    split at run
    · rename_i pattern
      rw [if_pos pattern]
      split at run
      · split at run
        · rename_i known
          obtain ⟨text, first, run⟩ := bind_eq_ok run
          simp only [grows.regexes _ _ known, evaluate_extends left grows.left first]
          exact run
        · cases run
      · cases run
    · rename_i ordering
      rw [if_neg ordering]
      obtain ⟨l, first, run⟩ := bind_eq_ok run
      obtain ⟨r, second, run⟩ := bind_eq_ok run
      rw [evaluate_extends left grows.left first, evaluate_extends right grows.right second]
      exact run
  | arithmetic _ left right _ =>
    rw [evaluate] at run ⊢
    obtain ⟨l, first, run⟩ := bind_eq_ok run
    obtain ⟨r, second, run⟩ := bind_eq_ok run
    rw [evaluate_extends left grows.left first, evaluate_extends right grows.right second]
    exact run
  | boolAnd parts =>
    rw [evaluate] at run ⊢
    exact evaluateParts_extends parts grows run
  | boolOr parts =>
    rw [evaluate] at run ⊢
    exact evaluateParts_extends parts grows run
  | inList expr list _ =>
    rw [evaluate] at run ⊢
    obtain ⟨operand, first, run⟩ := bind_eq_ok run
    rw [evaluate_extends expr grows.left first]
    exact evaluateItems_extends list grows.right run
  | functionCall name args =>
    rw [evaluate] at run ⊢
    obtain ⟨values, first, run⟩ := bind_eq_ok run
    rw [evaluateArgs_extends args grows first, grows.schema]
    exact run
  | case operand branches elseExpr =>
    cases operand with
    | some operand =>
      unfold evaluate at run
      cases run
    | none =>
      rw [evaluate] at run ⊢
      exact evaluateBranches_extends branches grows.left.right
        (fun otherwise => evaluateElse_extends elseExpr grows.right otherwise) run
  | evalTimestamp | promqlScalarFromVector _ | scalarSubquery _ | «exists» _ _ | inSubquery _ _ _ =>
    unfold evaluate at run
    cases run

theorem evaluateParts_extends (parts : List LocalExpr)
    (grows : Extends scope next (ScalarExpr.columnsOfList parts)) {and null : Bool} {value : Value}
    (run : evaluateParts host scope and null parts = .ok value) :
    evaluateParts host next and null parts = .ok value := by
  cases parts with
  | nil => simpa only [evaluateParts] using run
  | cons part rest =>
    rw [evaluateParts] at run ⊢
    obtain ⟨held, first, run⟩ := bind_eq_ok run
    rw [evaluate_extends part grows.left first]
    cases held with
    | bool truth =>
      show (if truth != and then _ else _) = _
      replace run : (if truth != and then _ else _) = Except.ok value := run
      split at run
      · rename_i decides
        rwa [if_pos decides]
      · rename_i keeps
        rw [if_neg keeps]
        exact evaluateParts_extends rest grows.right run
    | null => exact evaluateParts_extends rest grows.right run
    | _ => cases run

theorem evaluateItems_extends (items : List LocalExpr)
    (grows : Extends scope next (ScalarExpr.columnsOfList items)) {operand value : Value} {negated null : Bool}
    (run : evaluateItems host scope operand negated null items = .ok value) :
    evaluateItems host next operand negated null items = .ok value := by
  cases items with
  | nil => simpa only [evaluateItems] using run
  | cons item rest =>
    rw [evaluateItems] at run ⊢
    obtain ⟨held, first, run⟩ := bind_eq_ok run
    obtain ⟨equal, compared, run⟩ := bind_eq_ok run
    simp only [evaluate_extends item grows.left first, bind, Except.bind, compared]
    cases equal with
    | bool truth =>
      cases truth with
      | true => exact run
      | false => exact evaluateItems_extends rest grows.right run
    | null => exact evaluateItems_extends rest grows.right run
    | _ => cases run

theorem evaluateBranches_extends (branches : List (LocalExpr × LocalExpr))
    (grows : Extends scope next (ScalarExpr.columnsOfBranches branches))
    {otherwise otherwise' : Except String Value}
    (alike : ∀ {value}, otherwise = .ok value → otherwise' = .ok value) {value : Value}
    (run : evaluateBranches host scope otherwise branches = .ok value) :
    evaluateBranches host next otherwise' branches = .ok value := by
  match branches with
  | [] =>
    rw [evaluateBranches] at run ⊢
    exact alike run
  | (condition, chosen) :: rest =>
    rw [evaluateBranches] at run ⊢
    obtain ⟨held, first, run⟩ := bind_eq_ok run
    rw [evaluate_extends condition grows.left.left first]
    cases held with
    | bool truth =>
      cases truth with
      | true => exact evaluate_extends chosen grows.left.right run
      | false => exact evaluateBranches_extends rest grows.right alike run
    | _ => exact evaluateBranches_extends rest grows.right alike run

theorem evaluateElse_extends (expr : Option LocalExpr)
    (grows : Extends scope next (ScalarExpr.columnsOfOption expr)) {value : Value}
    (run : evaluateElse host scope expr = .ok value) : evaluateElse host next expr = .ok value := by
  cases expr with
  | none => simpa only [evaluateElse] using run
  | some expr =>
    rw [evaluateElse] at run ⊢
    exact evaluate_extends expr grows run

theorem evaluateArgs_extends (args : List LocalExpr)
    (grows : Extends scope next (ScalarExpr.columnsOfList args)) {values : List Value}
    (run : evaluateArgs host scope args = .ok values) : evaluateArgs host next args = .ok values := by
  cases args with
  | nil => simpa only [evaluateArgs] using run
  | cons arg rest =>
    rw [evaluateArgs] at run ⊢
    obtain ⟨held, first, run⟩ := bind_eq_ok run
    obtain ⟨others, second, run⟩ := bind_eq_ok run
    rw [evaluate_extends arg grows.left first, evaluateArgs_extends rest grows.right second]
    exact run
end

end
end AsapPlanner.Expressions
