import AsapPlanner.Coverage.Definition
import AsapPlanner.Coverage.Union

/-!
Admission of a merge: its inputs must compute one thing, over rows that relate as the family's
merge requires.
-/

namespace AsapPlanner.Coverage
open Rust Ordered Traversal Ir

/-! ### What a family's merge requires -/

/-- How the inputs of a merge must relate for the result to keep the family's guarantee. -/
inductive MergeInputRule
  | disjoint
  | disjointInTime
  | mayOverlap
deriving DecidableEq, Repr

/-- The sketch library's own rule. -/
inductive SketchMergeRule
  | disjoint
  | mayOverlap
deriving DecidableEq, Repr

def MergeInputRule.ofSketchlib : SketchMergeRule → MergeInputRule
  | .disjoint => .disjoint
  | .mayOverlap => .mayOverlap

/-- The merge rule of a family; `capability` is the sketch library's row of an algorithm. -/
def mergeInputs (capability : SketchAlgorithm → Option SketchMergeRule) :
    FieldDataType → Option MergeInputRule
  | .exactAggregate kind _ => match kind with
    | .sum | .count => some .disjoint
    | .min | .max => some .mayOverlap
    | .rate | .increase => some .disjointInTime
    | .iRate => none
  | .sketch _ (.sharedMultiSubpopulation kind _) =>
    (capability (match kind with
      | .hydraCms => .hydraCms
      | .hydraCountSketch => .hydraCountSketch
      | .hydraKll => .hydraKll)).map .ofSketchlib
  | .sketch kind .perSubpopulationInstance => (capability kind.algorithm).map .ofSketchlib
  | .plain _ | .summarySample .. | .wavelet .. | .statModel .. => none

/-! ### Admission -/

/-- What a summary state covers: what it computes, and which rows of that it took. -/
structure SummaryCoverage where
  definition : NodeRef
  selection : List SelectionBox

inductive CoverageError
  | notSummary
  | tumblingWindowChainExpansion (reason : String)
  | emptyMerge
  | definitionMismatch
  | inputsOverlap (required : MergeInputRule)
  | notAGroupKey (key : ColumnId)
  | familyCannotRegroup
  | regroupedBuild (reason : String)
deriving DecidableEq, Repr

def CoverageError.message : CoverageError → String
  | notSummary =>
    "coverage is derived only for SummaryAgg, SummaryTumblingWindowChain and SummaryMerge"
  | tumblingWindowChainExpansion reason =>
    "tumbling-window chain does not expand to one build over its whole window: " ++ reason
  | emptyMerge => "summary merge requires at least one input"
  | definitionMismatch => "summary merge inputs compute different things"
  | inputsOverlap required =>
    "summary merge inputs are not proven "
      ++ (match required with
        | .disjointInTime => "disjoint in time"
        | _ => "disjoint")
      ++ ", which the family's merge requires"
  | notAGroupKey key =>
    "regrouping merge key " ++ toString key ++ " is not a group key of its input states"
  | familyCannotRegroup => "the inputs' family cannot merge different groups"
  | regroupedBuild reason => "the regrouped build does not derive: " ++ reason

/-- Whether the windows of all boxes, boxes of one input included, are pairwise apart. -/
def windowsOrderedApart (inputs : List SummaryCoverage) : Bool :=
  match (inputs.flatMap (·.selection)).mapM (·.relativeTime) with
  | some windows => windowsInOrder windows
  | none => false

/-- The rule a merge of states defined at `definition` must satisfy. -/
def requiredRule (capability : SketchAlgorithm → Option SketchMergeRule) (dag : Dag)
    (definition : NodeRef) : MergeInputRule :=
  (match (dag.node definition).asap with
    | some (.summaryAgg _ family _ _ _ _) => mergeInputs capability family
    | _ => none).getD .disjoint

def separated (required : MergeInputRule) (a b : SelectionBox) : Bool :=
  match required with
  | .mayOverlap => true
  | .disjointInTime => a.disjointInTime b
  | .disjoint => a.disjoint b

def someOverlap (required : MergeInputRule) (inputs : List SummaryCoverage) : Bool :=
  inputs.zipIdx.any fun (input, i) =>
    (inputs.take i).any fun other =>
      input.selection.any fun a => other.selection.any fun b => !separated required a b

/-- The coverage of a merge of states covering `inputs`. -/
def ofMerge (capability : SketchAlgorithm → Option SketchMergeRule) (dag : Dag)
    (inputs : List SummaryCoverage) : Except CoverageError SummaryCoverage :=
  match inputs with
  | [] => .error .emptyMerge
  | first :: _ =>
    let alike := inputs.allM fun input => sameDefinition dag first.definition input.definition
    if !(alike fun _ => false).1 then .error .definitionMismatch
    else
      let required := requiredRule capability dag first.definition
      if required != .mayOverlap && !windowsOrderedApart inputs && someOverlap required inputs then
        .error (.inputsOverlap required)
      else .ok { definition := first.definition, selection := union (inputs.flatMap (·.selection)) }

/-! ### No row is counted twice -/

theorem map_of_mapM {α β : Type} {f : α → Option β} {items : List α} {images : List β}
    (found : items.mapM f = some images) : items.map f = images.map some := by
  induction items generalizing images with
  | nil =>
    cases found
    rfl
  | cons item rest ih =>
    rw [List.mapM_cons] at found
    obtain ⟨first, here, later⟩ := Option.bind_eq_some_iff.mp found
    obtain ⟨others, there, equal⟩ := Option.bind_eq_some_iff.mp later
    cases equal
    rw [List.map_cons, List.map_cons, here, ih there]

theorem windowsOrderedApart_pairwise {inputs : List SummaryCoverage}
    (apart : windowsOrderedApart inputs = true) :
    inputs.Pairwise fun p q => ∀ a ∈ p.selection, ∀ b ∈ q.selection, a.disjointInTime b = true := by
  unfold windowsOrderedApart at apart
  split at apart
  · rename_i windows found
    have times := map_of_mapM found
    have boxes : (inputs.flatMap (·.selection)).Pairwise fun a b => a.disjointInTime b = true := by
      have pairs : ((inputs.flatMap (·.selection)).map (·.relativeTime)).Pairwise
          fun first second => ∃ a ∈ first, ∃ b ∈ second,
            intervalsDisjoint compareOffsets a.1 a.2 b.1 b.2 = true := by
        rw [times, List.pairwise_map]
        exact (windowsInOrder_pairwise apart).imp fun separate => ⟨_, rfl, _, rfl, separate⟩
      refine (List.pairwise_map.mp pairs).imp fun {first second} separate => ?_
      obtain ⟨a, windowA, b, windowB, separate⟩ := separate
      rw [SelectionBox.disjointInTime, windowA, windowB]
      exact separate
    exact (List.pairwise_flatMap.mp boxes).2
  · cases apart

theorem separated_pairwise {required : MergeInputRule} {inputs : List SummaryCoverage}
    (none : someOverlap required inputs = false) :
    inputs.Pairwise fun p q => ∀ a ∈ q.selection, ∀ b ∈ p.selection,
      separated required a b = true := by
  rw [List.pairwise_iff_getElem]
  intro i j insideI insideJ earlier a inJ b inI
  unfold someOverlap at none
  rw [List.any_eq_false] at none
  have atJ := none (inputs[j], j) (List.mk_mem_zipIdx_iff_getElem?.mpr (List.getElem?_eq_getElem insideJ))
  simp only [Bool.not_eq_true, List.any_eq_false] at atJ
  have before : inputs[i] ∈ inputs.take j := by
    rw [List.mem_take_iff_getElem]
    exact ⟨i, by omega, rfl⟩
  simpa using atJ _ before a inJ b inI

def CoversTime (boxes : List SelectionBox) (offset : Int) : Prop :=
  ∃ box ∈ boxes, box.CoversTime offset

theorem ofMerge_cases {capability : SketchAlgorithm → Option SketchMergeRule} {dag : Dag}
    {inputs : List SummaryCoverage} {merged : SummaryCoverage}
    (accepted : ofMerge capability dag inputs = .ok merged)
    (strict : requiredRule capability dag merged.definition ≠ .mayOverlap) :
    windowsOrderedApart inputs = true ∨
      someOverlap (requiredRule capability dag merged.definition) inputs = false := by
  unfold ofMerge at accepted
  split at accepted
  · cases accepted
  · simp only at accepted
    split at accepted
    · cases accepted
    · split at accepted
      · cases accepted
      · rename_i first rest _ separate
        cases accepted
        simp only [Bool.and_eq_true, bne_iff_ne, ne_eq, Bool.not_eq_true'] at separate
        by_cases ordered : windowsOrderedApart (first :: rest) = true
        · exact .inl ordered
        · refine .inr (Bool.eq_false_iff.mpr fun overlap => separate ⟨⟨strict, ?_⟩, overlap⟩)
          exact Bool.eq_false_iff.mpr ordered

theorem ofMerge_definition {capability : SketchAlgorithm → Option SketchMergeRule} {dag : Dag}
    {first : SummaryCoverage} {rest : List SummaryCoverage} {merged : SummaryCoverage}
    (accepted : ofMerge capability dag (first :: rest) = .ok merged) :
    merged.definition = first.definition := by
  unfold ofMerge at accepted
  simp only at accepted
  split at accepted
  · cases accepted
  · split at accepted
    · cases accepted
    · cases accepted
      rfl

theorem ofMerge_separated {capability : SketchAlgorithm → Option SketchMergeRule} {dag : Dag}
    {inputs : List SummaryCoverage} {merged : SummaryCoverage}
    (accepted : ofMerge capability dag inputs = .ok merged)
    (strict : requiredRule capability dag merged.definition ≠ .mayOverlap) :
    inputs.Pairwise fun p q => ∀ a ∈ p.selection, ∀ b ∈ q.selection,
      a.disjointInTime b = true ∨
        separated (requiredRule capability dag merged.definition) b a = true := by
  rcases ofMerge_cases accepted strict with ordered | none
  · exact (windowsOrderedApart_pairwise ordered).imp fun apart a inP b inQ => .inl (apart a inP b inQ)
  · exact (separated_pairwise none).imp fun apart a inP b inQ => .inr (apart b inQ a inP)

/-- An accepted merge counts no row twice: no row lies in two inputs that must be disjoint, no
offset in two that must be disjoint in time; and windows in order are separated pair by pair. -/
theorem ofMerge_counts_once (capability : SketchAlgorithm → Option SketchMergeRule) (dag : Dag)
    (inputs : List SummaryCoverage) :
    (∀ merged, ofMerge capability dag inputs = .ok merged →
      (requiredRule capability dag merged.definition = .disjoint →
        inputs.Pairwise fun p q => ∀ row, ¬ (Covers p.selection row ∧ Covers q.selection row)) ∧
      (requiredRule capability dag merged.definition = .disjointInTime →
        inputs.Pairwise fun p q => ∀ offset,
          ¬ (CoversTime p.selection offset ∧ CoversTime q.selection offset))) ∧
    (windowsOrderedApart inputs = true →
      inputs.Pairwise fun p q => ∀ a ∈ p.selection, ∀ b ∈ q.selection,
        a.disjointInTime b = true ∧ a.disjoint b = true) := by
  refine ⟨fun merged accepted => ⟨fun rule => ?_, fun rule => ?_⟩, fun ordered => ?_⟩
  · have apart := ofMerge_separated accepted (by rw [rule]; decide)
    refine apart.imp fun {p q} apart row both => ?_
    obtain ⟨⟨a, inP, inA⟩, b, inQ, inB⟩ := both
    rcases apart a inP b inQ with time | disjoint
    · exact SelectionBox.disjointInTime_sound time row.offset ⟨inA.2, inB.2⟩
    · rw [rule] at disjoint
      exact SelectionBox.disjoint_sound disjoint row ⟨inB, inA⟩
  · have apart := ofMerge_separated accepted (by rw [rule]; decide)
    refine apart.imp fun {p q} apart offset both => ?_
    obtain ⟨⟨a, inP, inA⟩, b, inQ, inB⟩ := both
    rcases apart a inP b inQ with time | disjoint
    · exact SelectionBox.disjointInTime_sound time offset ⟨inA, inB⟩
    · rw [rule] at disjoint
      exact SelectionBox.disjointInTime_sound disjoint offset ⟨inB, inA⟩
  · refine (windowsOrderedApart_pairwise ordered).imp fun {p q} apart a inP b inQ => ?_
    have time := apart a inP b inQ
    exact ⟨time, Bool.or_eq_true_iff.mpr (.inl time)⟩

def sumBuild (child : NodeRef) : OperatorNode :=
  let family : FieldDataType := .exactAggregate .sum .sum
  { operator := .asap (.summaryAgg child family ⟨none, .column .sampleValue, .unknownOrSigned⟩
      (.reduce .none) .perSubpopulationInstance none)
    resultKind := .state
    schema := Schema.new [⟨"state", family, false, none⟩]
    guarantee := none
    timing := none
    materialization := .notMaterialized }

/-- Sums over `x <= 0` and over `x > 0` merge, and no row is in both. -/
theorem ofMerge_counts_once_of_halves :
    let lower := boxOfX (.interval .unbounded (.included (.int64 0)))
    let upper := boxOfX (.interval (.excluded (.int64 0)) .unbounded)
    ∀ row, ¬ (Covers [lower] row ∧ Covers [upper] row) := by
  intro lower upper
  let dag := Dag.ofNodes [default, sumBuild 0]
  let inputs : List SummaryCoverage := [⟨1, [lower]⟩, ⟨1, [upper]⟩]
  have accepts : (ofMerge (fun _ => none) dag inputs).isOk = true := by decide +kernel
  cases accepted : ofMerge (fun _ => none) dag inputs with
  | error e =>
    rw [accepted] at accepts
    cases accepts
  | ok merged =>
    have first : merged.definition = 1 := ofMerge_definition accepted
    have rule : requiredRule (fun _ => none) dag merged.definition = .disjoint := by
      rw [first]
      decide +kernel
    have pairs := ((ofMerge_counts_once _ _ _).1 merged accepted).1 rule
    exact (List.pairwise_cons.mp pairs).1 _ List.mem_cons_self

end AsapPlanner.Coverage
