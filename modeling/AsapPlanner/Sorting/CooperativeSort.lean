import AsapPlanner.Ordered.StableSort

/-!
The merge sort that yields between steps: runs of at most 256 rows, merged pairwise in rounds.
-/

namespace AsapPlanner.Sorting
open Ordered Std

variable {α : Type} (compare : α → α → Ordering)

/-- `slice::sort_by`, which is stable. -/
def sortBy (rows : List α) : List α := rows.mergeSort fun a b => (compare a b).isLE

/-- The left run's front goes first unless it compares greater. -/
def mergeRuns (left right : List α) : List α := List.merge left right fun a b => !(compare a b).isGT

def sortedRuns : List α → List (List α)
  | [] => []
  | row :: rest => sortBy compare ((row :: rest).take 256) :: sortedRuns ((row :: rest).drop 256)
termination_by rows => rows.length
decreasing_by
  rw [List.length_drop, List.length_cons]
  omega

def mergeRound : List (List α) → List (List α)
  | left :: right :: rest => mergeRuns compare left right :: mergeRound rest
  | [last] => [last]
  | [] => []

theorem length_mergeRound (runs : List (List α)) :
    (mergeRound compare runs).length = (runs.length + 1) / 2 := by
  induction runs using mergeRound.induct with
  | case1 left right rest ih =>
    rw [mergeRound, List.length_cons, ih, List.length_cons, List.length_cons]
    omega
  | case2 last => simp [mergeRound]
  | case3 => simp [mergeRound]

def mergeRounds : List (List α) → List α
  | [] => []
  | [run] => run
  | left :: right :: rest => mergeRounds (mergeRound compare (left :: right :: rest))
termination_by runs => runs.length
decreasing_by
  rw [length_mergeRound, List.length_cons, List.length_cons]
  omega

/-- Stable in-memory merge sort with bounded synchronous chunks. -/
def cooperativeSort (rows : List α) : List α := mergeRounds compare (sortedRuns compare rows)

section
variable {compare} [TransCmp compare] {rows : List α} {chunks runs : List (List α)}

omit [TransCmp compare] in
theorem mergeRuns_eq (left right : List α) :
    mergeRuns compare left right = List.merge left right fun a b => (compare a b).isLE := by
  unfold mergeRuns
  congr 1
  funext a b
  cases compare a b <;> rfl

variable (compare) in
theorem sortedRuns_sorted (rows : List α) : ∃ chunks : List (List α), chunks.flatten = rows ∧
    List.Forall₂ (StableSorted compare) chunks (sortedRuns compare rows) := by
  induction rows using sortedRuns.induct with
  | case1 =>
    rw [sortedRuns]
    exact ⟨[], rfl, .nil⟩
  | case2 row rest ih =>
    obtain ⟨chunks, whole, sorted⟩ := ih
    rw [sortedRuns]
    refine ⟨(row :: rest).take 256 :: chunks, ?_, .cons (stableSorted_mergeSort _) sorted⟩
    rw [List.flatten_cons, whole, List.take_append_drop]

theorem mergeRound_sorted (sorted : List.Forall₂ (StableSorted compare) chunks runs) :
    ∃ merged : List (List α), merged.flatten = chunks.flatten ∧
      List.Forall₂ (StableSorted compare) merged (mergeRound compare runs) := by
  induction runs using mergeRound.induct generalizing chunks with
  | case1 left right rest ih =>
    cases sorted with
    | @cons first _ _ _ isLeft sorted =>
      cases sorted with
      | @cons second _ chunks _ isRight sorted =>
        obtain ⟨merged, same, each⟩ := ih sorted
        refine ⟨(first ++ second) :: merged, ?_, .cons ?_ each⟩
        · rw [List.flatten_cons, List.flatten_cons, List.flatten_cons, same, List.append_assoc]
        · rw [mergeRuns_eq]
          exact isLeft.merge isRight
  | case2 last => exact ⟨chunks, rfl, sorted⟩
  | case3 => exact ⟨chunks, rfl, sorted⟩

theorem mergeRounds_sorted (sorted : List.Forall₂ (StableSorted compare) chunks runs) :
    StableSorted compare chunks.flatten (mergeRounds compare runs) := by
  induction runs using mergeRounds.induct compare generalizing chunks with
  | case1 =>
    cases sorted
    rw [mergeRounds]
    exact .nil
  | case2 run =>
    cases sorted with
    | cons only rest =>
      cases rest
      rw [mergeRounds, List.flatten_cons, List.flatten_nil, List.append_nil]
      exact only
  | case3 left right rest ih =>
    obtain ⟨merged, same, each⟩ := mergeRound_sorted sorted
    rw [mergeRounds, ← same]
    exact ih each

variable (compare) in
theorem cooperativeSort_sorted (rows : List α) : StableSorted compare rows (cooperativeSort compare rows) := by
  obtain ⟨chunks, rfl, sorted⟩ := sortedRuns_sorted compare rows
  exact mergeRounds_sorted sorted

theorem cooperativeSort_eq (rows : List α) : cooperativeSort compare rows = sortBy compare rows :=
  (cooperativeSort_sorted compare rows).unique (stableSorted_mergeSort rows)

end
end AsapPlanner.Sorting
