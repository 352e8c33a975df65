import AsapPlanner.Estimators.PairSize
import Mathlib.Data.Finset.Sort
import Mathlib.NumberTheory.Divisors

/-!
The configurations one shared state can be kept at: tumbling-window widths, longest windows and joined
sizes.
-/

namespace AsapPlanner.Pass2
open Estimators Joins
open Ir (GroupingStrategy)

/-- The family of a state: a sketch with its parameters, or another that is only compared. -/
inductive FieldDataType (Other : Type)
  | sketch (params : SketchParams) (grouping : GroupingStrategy)
  | other (family : Other)

structure TumblingWindowRequirement (Other : Type) where
  tumblingWindowWidthMs : Nat
  windowMs : Nat
  family : FieldDataType Other

structure TumblingWindowConfiguration (Other : Type) where
  tumblingWindowWidthMs : Nat
  longestWindowMs : Nat
  family : FieldDataType Other

/-- Whether a width divides a reader's own width and its window. -/
def TumblingWindowRequirement.Divides {Other : Type} (width : Nat)
    (reader : TumblingWindowRequirement Other) : Prop :=
  width ∣ reader.tumblingWindowWidthMs ∧ width ∣ reader.windowMs

/-! ### Widths -/

/-- The divisors of `grid` from `divisor` on, each with its cofactor. -/
def divisorsFrom (grid divisor : Nat) (widths : Finset Nat) : Finset Nat :=
  if divisor ≤ grid / divisor then
    divisorsFrom grid (divisor + 1)
      (if divisor ∣ grid then insert (grid / divisor) (insert divisor widths) else widths)
  else widths
termination_by grid + 1 - divisor
decreasing_by
  have := Nat.div_le_self grid divisor
  omega

def tumblingWindowWidthDivisors (grid : Nat) : List Nat := (divisorsFrom grid 1 ∅).sort

def tumblingWindowWidthDomain (grids : List Nat) : List Nat :=
  ((grids.filter (0 < ·)).toFinset.biUnion fun grid => (tumblingWindowWidthDivisors grid).toFinset).sort

theorem mem_divisorsFrom {grid divisor width : Nat} {widths : Finset Nat} (positive : 0 < divisor)
    (some : 0 < grid) : width ∈ divisorsFrom grid divisor widths ↔
      width ∈ widths ∨ width ∣ grid ∧ divisor ≤ width ∧ divisor ≤ grid / width := by
  induction divisor, widths using divisorsFrom.induct grid with
  | case1 divisor widths small ih =>
    simp only [dite_eq_ite] at ih
    rw [divisorsFrom, if_pos small, ih (Nat.succ_pos divisor)]
    -- The divisor and its cofactor are those not both above it.
    have cofactor : width ∣ grid → (grid / width = divisor ↔ divisor ∣ grid ∧ width = grid / divisor) := by
      intro divides
      constructor
      · rintro rfl
        exact ⟨Nat.div_dvd_of_dvd divides, (Nat.div_div_self divides some.ne').symm⟩
      · rintro ⟨divides', rfl⟩
        exact Nat.div_div_self divides' some.ne'
    split
    · rename_i divides
      rw [Finset.mem_insert, Finset.mem_insert]
      constructor
      · rintro ((rfl | rfl | old) | ⟨divides', above, above'⟩)
        · refine .inr ⟨Nat.div_dvd_of_dvd divides, small, ?_⟩
          rw [Nat.div_div_self divides some.ne']
        · exact .inr ⟨divides, le_refl _, small⟩
        · exact .inl old
        · exact .inr ⟨divides', Nat.le_of_succ_le above, Nat.le_of_succ_le above'⟩
      · rintro (old | ⟨divides', above, above'⟩)
        · exact .inl (.inr (.inr old))
        · rcases above.eq_or_lt with rfl | more
          · exact .inl (.inr (.inl rfl))
          rcases above'.eq_or_lt with same | more'
          · exact .inl (.inl ((cofactor divides').mp same.symm).2)
          · exact .inr ⟨divides', more, more'⟩
    · rename_i divides
      refine or_congr_right ⟨?_, ?_⟩
      · rintro ⟨divides', above, above'⟩
        exact ⟨divides', Nat.le_of_succ_le above, Nat.le_of_succ_le above'⟩
      · rintro ⟨divides', above, above'⟩
        refine ⟨divides', lt_of_le_of_ne above ?_, lt_of_le_of_ne above' ?_⟩
        · rintro rfl
          exact divides divides'
        · intro same
          exact divides ((cofactor divides').mp same.symm).1
  | case2 divisor widths large =>
    rw [divisorsFrom, if_neg large]
    refine ⟨.inl, ?_⟩
    rintro (old | ⟨divides, above, above'⟩)
    · exact old
    · refine absurd ((Nat.le_div_iff_mul_le positive).mpr ?_) large
      calc divisor * divisor ≤ width * (grid / width) := Nat.mul_le_mul above above'
        _ = grid := Nat.mul_div_cancel' divides

theorem mem_tumblingWindowWidthDivisors {grid width : Nat} (some : 0 < grid) :
    width ∈ tumblingWindowWidthDivisors grid ↔ width ∣ grid := by
  rw [tumblingWindowWidthDivisors, Finset.mem_sort, mem_divisorsFrom one_pos some]
  constructor
  · rintro (none | ⟨divides, _⟩)
    · exact absurd none (Finset.notMem_empty width)
    · exact divides
  · intro divides
    have positive := Nat.pos_of_dvd_of_pos divides some
    exact .inr ⟨divides, positive, Nat.div_pos (Nat.le_of_dvd some divides) positive⟩

theorem mem_tumblingWindowWidthDomain {grids : List Nat} {width : Nat} :
    width ∈ tumblingWindowWidthDomain grids ↔ ∃ grid ∈ grids, 0 < grid ∧ width ∣ grid := by
  simp only [tumblingWindowWidthDomain, Finset.mem_sort, Finset.mem_biUnion, List.mem_toFinset,
    List.mem_filter, decide_eq_true_eq]
  constructor
  · rintro ⟨grid, ⟨inside, some⟩, divides⟩
    exact ⟨grid, inside, some, (mem_tumblingWindowWidthDivisors some).mp divides⟩
  · rintro ⟨grid, inside, some, divides⟩
    exact ⟨grid, ⟨inside, some⟩, (mem_tumblingWindowWidthDivisors some).mpr divides⟩

/-! ### Sizes -/

section
variable {Other : Type} (library : Library)

open Classical in
noncomputable def sharedSize : FieldDataType Other → FieldDataType Other → Option (FieldDataType Other)
  | .sketch a grouping, .sketch b grouping' =>
    if a.family = b.family ∧ grouping = grouping' then
      (sizeForAllReaders library [a, b]).map (.sketch · grouping)
    else none
  | .other a, .other b => if a = b then some (.other a) else none
  | _, _ => none

def TumblingWindowConfiguration.Serves (configuration : TumblingWindowConfiguration Other)
    (reader : TumblingWindowRequirement Other) : Prop :=
  0 < configuration.tumblingWindowWidthMs ∧ reader.Divides configuration.tumblingWindowWidthMs ∧
    configuration.tumblingWindowWidthMs ∣ configuration.longestWindowMs ∧
    reader.windowMs ≤ configuration.longestWindowMs ∧
    sharedSize library configuration.family reader.family = some configuration.family

open Classical in
noncomputable def configurationOf (eligible : List (TumblingWindowRequirement Other)) (width longest : Nat)
    (family : FieldDataType Other) : Option (TumblingWindowConfiguration Other) :=
  let configuration := ⟨width, longest, family⟩
  let admitted := eligible.filter (configuration.Serves library)
  if (admitted.map (·.windowMs)).max? = some longest ∧
      joinAll (sharedSize library) (admitted.map (·.family)) = some family then some configuration
  else none

open Classical in
noncomputable def configurationsAt (fuel : Nat) (readers : List (TumblingWindowRequirement Other))
    (width : Nat) : Option (List (TumblingWindowConfiguration Other)) :=
  let eligible := readers.filter (·.Divides width)
  let windows := (eligible.map (·.windowMs)).toFinset.sort
  (closeFrom (sharedSize library) fuel ((eligible.map (·.family)).foldl pushNew []) 0).map fun sizes =>
    windows.flatMap fun longest => sizes.filterMap (configurationOf library eligible width longest)

/-- Every configuration that is the join of the readers it serves. -/
noncomputable def tumblingWindowConfigurations (fuel : Nat)
    (readers : List (TumblingWindowRequirement Other)) :
    Option (List (TumblingWindowConfiguration Other)) :=
  if readers.any fun reader => reader.tumblingWindowWidthMs = 0 ∨ reader.windowMs = 0 then some []
  else
    let grids := tumblingWindowWidthDomain
      (readers.map fun reader => Nat.gcd reader.tumblingWindowWidthMs reader.windowMs)
    (grids.mapM (configurationsAt library fuel readers)).map List.flatten

/-! ### Sizes alone -/

open Classical in
noncomputable def growJoins (joins : List SketchParams) (requirement : SketchParams) : List SketchParams :=
  (requirement :: joins.filterMap fun join => sizeForAllReaders library [join, requirement]).foldl pushNew joins

open Classical in
noncomputable def stateSizeConfigurations (requirements : List (Option SketchParams)) :
    List (Option SketchParams) :=
  if requirements.any Option.isNone then [none]
  else
    let requirements := requirements.filterMap id
    (requirements.foldl (growJoins library) []).filterMap fun configuration =>
      let admitted := requirements.filter fun required =>
        sizeForAllReaders library [configuration, required] = some configuration
      if sizeForAllReaders library admitted = some configuration then some (some configuration) else none

end

end AsapPlanner.Pass2
