import AsapPlanner.Expressions.Columnar
import AsapPlanner.Rust.Result

/-!
What whole-column operations lose: the operand of an empty `IN` list.
-/

namespace AsapPlanner.Expressions
open Ir Rust Grouping

/-! ### Operands lost -/

/-- Evaluation comes to an empty `IN` list whose operand fails. -/
inductive OperandLost (host : Host) (scope : Scope) : LocalExpr → Prop
  | emptyList {expr : LocalExpr} {negated : Bool} (fails : ∀ value, evaluate host scope expr ≠ .ok value) :
    OperandLost host scope (.inList expr [] negated)
  | operand {expr : LocalExpr} {list : List LocalExpr} {negated : Bool} (lost : OperandLost host scope expr) :
    OperandLost host scope (.inList expr list negated)
  | item {expr item : LocalExpr} {before after : List LocalExpr} {negated : Bool}
    (unmatched : ∀ other ∈ before, ∀ value held, evaluate host scope expr = .ok value →
      evaluate host scope other = .ok held → compareValues host .eq value held ≠ .ok (.bool true))
    (lost : OperandLost host scope item) :
    OperandLost host scope (.inList expr (before ++ item :: after) negated)
  | negative {expr : LocalExpr} {semantics : ExprSemantics} (lost : OperandLost host scope expr) :
    OperandLost host scope (.negative expr semantics)
  | not {expr : LocalExpr} (lost : OperandLost host scope expr) : OperandLost host scope (.not expr)
  | isNull {expr : LocalExpr} (lost : OperandLost host scope expr) : OperandLost host scope (.isNull expr)
  | isNotNull {expr : LocalExpr} (lost : OperandLost host scope expr) : OperandLost host scope (.isNotNull expr)
  | cast {expr : LocalExpr} {target : DataType} {tryCast : Bool} (lost : OperandLost host scope expr) :
    OperandLost host scope (.cast expr target tryCast)
  | addend {op : ArithmeticOpKind} {left right : LocalExpr} {semantics : ExprSemantics}
    (lost : OperandLost host scope left) : OperandLost host scope (.arithmetic op left right semantics)
  | augend {op : ArithmeticOpKind} {left right : LocalExpr} {semantics : ExprSemantics}
    (lost : OperandLost host scope right) : OperandLost host scope (.arithmetic op left right semantics)
  | compared {op : CompareOpKind} {left right : LocalExpr} {semantics : ExprSemantics}
    (ordering : isOrdering op = true) (lost : OperandLost host scope left) :
    OperandLost host scope (.compare left op right semantics)
  | comparand {op : CompareOpKind} {left right : LocalExpr} {semantics : ExprSemantics}
    (ordering : isOrdering op = true) (lost : OperandLost host scope right) :
    OperandLost host scope (.compare left op right semantics)
  | conjunct {part : LocalExpr} {before after : List LocalExpr}
    (undecided : ∀ other ∈ before, evaluate host scope other ≠ .ok (.bool false))
    (lost : OperandLost host scope part) : OperandLost host scope (.boolAnd (before ++ part :: after))
  | disjunct {part : LocalExpr} {before after : List LocalExpr}
    (undecided : ∀ other ∈ before, evaluate host scope other ≠ .ok (.bool true))
    (lost : OperandLost host scope part) : OperandLost host scope (.boolOr (before ++ part :: after))

section Lost
variable {host : Host} {scope : Scope}

theorem evaluate_compare {op : CompareOpKind} (ordering : isOrdering op = true) (left right : LocalExpr)
    (semantics : ExprSemantics) : evaluate host scope (.compare left op right semantics) = (do
      let l ← evaluate host scope left
      let r ← evaluate host scope right
      compareValues host op l r) := by
  have plain : ¬ (op = .regex ∨ op = .notRegex) := by cases op <;> simp_all [isOrdering]
  conv_lhs => unfold evaluate
  rw [if_neg plain]

theorem evaluateParts_lost {and : Bool} {before after : List LocalExpr} {part : LocalExpr}
    (undecided : ∀ other ∈ before, evaluate host scope other ≠ .ok (.bool !and))
    (fails : ∀ value, evaluate host scope part ≠ .ok value) (null : Bool) (value : Value) :
    evaluateParts host scope and null (before ++ part :: after) ≠ .ok value := by
  intro run
  induction before generalizing null with
  | nil =>
    rw [List.nil_append, evaluateParts] at run
    obtain ⟨held, ran, _⟩ := bind_eq_ok run
    exact fails held ran
  | cons first rest ih =>
    obtain ⟨open_, others⟩ := List.forall_mem_cons.mp undecided
    rw [List.cons_append, evaluateParts] at run
    obtain ⟨held, ran, run⟩ := bind_eq_ok run
    cases held with
    | bool truth =>
      replace run : (if truth != and then _ else _) = Except.ok value := run
      have same : truth = and := by
        by_contra different
        rw [ran] at open_
        cases truth <;> cases and <;> simp_all
      rw [same, if_neg (by simp)] at run
      exact ih others null run
    | null => exact ih others true run
    | _ => cases run

theorem evaluateItems_lost {operand : Value} {negated : Bool} {before after : List LocalExpr} {item : LocalExpr}
    (unmatched : ∀ other ∈ before, ∀ held, evaluate host scope other = .ok held →
      compareValues host .eq operand held ≠ .ok (.bool true))
    (fails : ∀ value, evaluate host scope item ≠ .ok value) (null : Bool) (value : Value) :
    evaluateItems host scope operand negated null (before ++ item :: after) ≠ .ok value := by
  intro run
  induction before generalizing null with
  | nil =>
    rw [List.nil_append, evaluateItems] at run
    obtain ⟨held, ran, _⟩ := bind_eq_ok run
    exact fails held ran
  | cons first rest ih =>
    obtain ⟨open_, others⟩ := List.forall_mem_cons.mp unmatched
    rw [List.cons_append, evaluateItems] at run
    obtain ⟨held, ran, run⟩ := bind_eq_ok run
    obtain ⟨equal, compared, run⟩ := bind_eq_ok run
    cases equal with
    | bool truth =>
      cases truth with
      | true => exact open_ held ran compared
      | false => exact ih others null run
    | null => exact ih others true run
    | _ => cases run

theorem OperandLost.fails {expr : LocalExpr} (lost : OperandLost host scope expr) (value : Value) :
    evaluate host scope expr ≠ .ok value := by
  intro run
  induction lost generalizing value with
  | emptyList fails =>
    rw [evaluate] at run
    obtain ⟨held, ran, _⟩ := bind_eq_ok run
    exact fails held ran
  | operand _ ih | negative _ ih | not _ ih | isNull _ ih | isNotNull _ ih | cast _ ih | addend _ ih =>
    rw [evaluate] at run
    obtain ⟨held, ran, _⟩ := bind_eq_ok run
    exact ih held ran
  | item unmatched _ ih =>
    rw [evaluate] at run
    obtain ⟨held, ran, run⟩ := bind_eq_ok run
    exact evaluateItems_lost (fun other member value found => unmatched other member held value ran found) ih
      false value run
  | augend _ ih =>
    rw [evaluate] at run
    obtain ⟨_, _, run⟩ := bind_eq_ok run
    obtain ⟨held, ran, _⟩ := bind_eq_ok run
    exact ih held ran
  | compared ordering _ ih =>
    rw [evaluate_compare ordering] at run
    obtain ⟨held, ran, _⟩ := bind_eq_ok run
    exact ih held ran
  | comparand ordering _ ih =>
    rw [evaluate_compare ordering] at run
    obtain ⟨_, _, run⟩ := bind_eq_ok run
    obtain ⟨held, ran, _⟩ := bind_eq_ok run
    exact ih held ran
  | conjunct undecided _ ih =>
    rw [evaluate] at run
    exact evaluateParts_lost undecided ih false value run
  | disjunct undecided _ ih =>
    rw [evaluate] at run
    exact evaluateParts_lost undecided ih false value run

end Lost

end AsapPlanner.Expressions
