import AsapPlanner.Pass2.SharedConfigurations
import AsapPlanner.Rust.Result
import Mathlib.Order.Filter.AtTopBot.Basic

/-!
Which groups of readers a shared configuration is offered for.
-/

namespace AsapPlanner.Pass2
open Estimators Joins
open Ir (GroupingStrategy)

variable {Other : Type} {library : Library}

/-! ### Joins of families -/

def FieldDataType.WellFormed : FieldDataType Other → Prop
  | .sketch params _ => Estimators.WellFormed params
  | .other _ => True

theorem sharedSize_eq_some {x y z : FieldDataType Other} : sharedSize library x y = some z ↔
    (∃ a b c grouping, x = .sketch a grouping ∧ y = .sketch b grouping ∧ z = .sketch c grouping ∧
      pairSize library a b = some c) ∨ ∃ family, x = .other family ∧ y = .other family ∧ z = .other family := by
  constructor
  · intro shared
    cases x with
    | sketch a grouping => cases y with
      | sketch b grouping' =>
        simp only [sharedSize] at shared
        split at shared
        · rename_i alike
          obtain ⟨c, sized, rfl⟩ := Option.map_eq_some_iff.mp shared
          obtain ⟨_, rfl⟩ := alike
          exact .inl ⟨a, b, c, grouping, rfl, rfl, rfl, sized⟩
        · cases shared
      | other family => cases shared
    | other family => cases y with
      | sketch b grouping' => cases shared
      | other family' =>
        simp only [sharedSize] at shared
        split at shared
        · rename_i same
          subst same
          exact .inr ⟨family, rfl, rfl, (Option.some.inj shared).symm⟩
        · cases shared
  · rintro (⟨a, b, c, grouping, rfl, rfl, rfl, sized⟩ | ⟨family, rfl, rfl, rfl⟩)
    · have alike : a.family = b.family := by
        by_contra other
        have none := shareTwo_eq_none_iff.mpr (fun same => other same.symm)
        rw [(pairSize_eq_some.mp sized).1] at none
        cases none
      rw [pairSize] at sized
      rw [sharedSize, if_pos ⟨alike, rfl⟩, sized, Option.map_some]
    · rw [sharedSize, if_pos rfl]

theorem sharedSize_sketch {a b : SketchParams} {grouping : GroupingStrategy} {z : FieldDataType Other} :
    sharedSize library (.sketch a grouping) (.sketch b grouping) = some z ↔
      ∃ c, z = .sketch c grouping ∧ pairSize library a b = some c := by
  rw [sharedSize_eq_some]
  constructor
  · rintro (⟨_, _, c, _, ⟨⟩, ⟨⟩, rfl, sized⟩ | ⟨_, ⟨⟩, _⟩)
    exact ⟨c, rfl, sized⟩
  · rintro ⟨c, rfl, sized⟩
    exact .inl ⟨a, b, c, grouping, rfl, rfl, rfl, sized⟩

theorem sharedSize_laws (library : Library) :
    JoinLaws (sharedSize library) fun family : FieldDataType Other => family.WellFormed where
  closed {x y z} wf wf' shared := by
    rcases sharedSize_eq_some.mp shared with ⟨a, b, c, grouping, rfl, rfl, rfl, sized⟩ | ⟨_, rfl, rfl, rfl⟩
    · exact (pairSize_laws library).closed wf wf' sized
    · trivial
  comm {x y} wf wf' := by
    refine Option.ext fun z => ?_
    rw [sharedSize_eq_some, sharedSize_eq_some]
    constructor
    · rintro (⟨a, b, c, grouping, rfl, rfl, rfl, sized⟩ | ⟨family, rfl, rfl, rfl⟩)
      · exact .inl ⟨b, a, c, grouping, rfl, rfl, rfl, ((pairSize_laws library).comm wf wf').symm.trans sized⟩
      · exact .inr ⟨family, rfl, rfl, rfl⟩
    · rintro (⟨b, a, c, grouping, rfl, rfl, rfl, sized⟩ | ⟨family, rfl, rfl, rfl⟩)
      · exact .inl ⟨a, b, c, grouping, rfl, rfl, rfl, ((pairSize_laws library).comm wf wf').trans sized⟩
      · exact .inr ⟨family, rfl, rfl, rfl⟩
  idem {x z} wf shared := by
    rcases sharedSize_eq_some.mp shared with ⟨a, b, c, grouping, rfl, ⟨⟩, rfl, sized⟩ | ⟨_, rfl, _, rfl⟩
    · rw [(pairSize_laws library).idem wf sized]
    · rfl
  absorbs {x y z} wf wf' shared := by
    rcases sharedSize_eq_some.mp shared with ⟨a, b, c, grouping, rfl, rfl, rfl, sized⟩ | ⟨family, rfl, rfl, rfl⟩
    · exact sharedSize_sketch.mpr ⟨c, rfl, (pairSize_laws library).absorbs wf wf' sized⟩
    · exact sharedSize_eq_some.mpr (.inr ⟨family, rfl, rfl, rfl⟩)
  absorbs_of {x y z w} wf wf' wfw absorbs shared := by
    rcases sharedSize_eq_some.mp shared with ⟨a, b, c, grouping, rfl, rfl, rfl, sized⟩ | ⟨family, rfl, rfl, rfl⟩
    · rcases sharedSize_eq_some.mp absorbs with ⟨_, d, _, _, ⟨⟩, rfl, ⟨⟩, within⟩ | ⟨_, ⟨⟩, _⟩
      exact sharedSize_sketch.mpr ⟨c, rfl, (pairSize_laws library).absorbs_of wf wf' wfw within sized⟩
    · exact absorbs

noncomputable def paramsOf (grouping : GroupingStrategy) : FieldDataType Other → Option SketchParams
  | .sketch params grouping' => if grouping' = grouping then some params else none
  | .other _ => none

open Classical in
noncomputable def sharedSizeOf (library : Library) : List (FieldDataType Other) → Option (FieldDataType Other)
  | [] => none
  | .sketch params grouping :: rest => ((rest.mapM (paramsOf grouping)).bind fun others =>
      sizeForAllReaders library (params :: others)).map (.sketch · grouping)
  | .other family :: rest => if ∀ x ∈ rest, x = .other family then some (.other family) else none

theorem paramsOf_eq_some {grouping : GroupingStrategy} {family : FieldDataType Other} {params : SketchParams} :
    paramsOf grouping family = some params ↔ family = .sketch params grouping := by
  cases family with
  | sketch params' grouping' => simp [paramsOf, and_comm]
  | other family => simp [paramsOf]

theorem mapM_paramsOf {grouping : GroupingStrategy} {families : List (FieldDataType Other)}
    {params : List SketchParams} : families.mapM (paramsOf grouping) = some params ↔
      families = params.map (.sketch · grouping) := by
  rw [Rust.option_mapM_eq_some]
  simp only [paramsOf_eq_some]
  rw [← List.forall₂_map_right_iff (R := Eq), List.forall₂_eq_eq_eq]

theorem foldlM_sharedSize_sketch {params : SketchParams} {grouping : GroupingStrategy}
    {rest : List (FieldDataType Other)} {z : FieldDataType Other} :
    rest.foldlM (sharedSize library) (.sketch params grouping) = some z ↔
      ∃ (others : List SketchParams) (c : SketchParams), rest = others.map (.sketch · grouping) ∧
        others.foldlM (pairSize library) params = some c ∧ z = .sketch c grouping := by
  induction rest generalizing params with
  | nil =>
    constructor
    · intro folded
      obtain rfl := Option.some.inj folded
      exact ⟨[], params, rfl, rfl, rfl⟩
    · rintro ⟨others, c, none, folded, rfl⟩
      obtain rfl := List.map_eq_nil_iff.mp none.symm
      obtain rfl := Option.some.inj folded
      rfl
  | cons x rest ih =>
    rw [List.foldlM_cons, Option.bind_eq_bind, Option.bind_eq_some_iff]
    constructor
    · rintro ⟨y, shared, folded⟩
      rcases sharedSize_eq_some.mp shared with ⟨_, b, c, _, ⟨⟩, rfl, rfl, sized⟩ | ⟨_, ⟨⟩, _⟩
      obtain ⟨others, d, rfl, later, rfl⟩ := ih.mp folded
      refine ⟨b :: others, d, rfl, ?_, rfl⟩
      rw [List.foldlM_cons, sized]
      exact later
    · rintro ⟨others, d, whole, folded, rfl⟩
      obtain ⟨b, others, rfl, rfl, rfl⟩ := List.map_eq_cons_iff.mp whole.symm
      rw [List.foldlM_cons, Option.bind_eq_bind, Option.bind_eq_some_iff] at folded
      obtain ⟨c, sized, later⟩ := folded
      exact ⟨_, sharedSize_sketch.mpr ⟨c, rfl, sized⟩, ih.mpr ⟨others, d, rfl, later, rfl⟩⟩

theorem foldlM_sharedSize_other {family : Other} {rest : List (FieldDataType Other)} {z : FieldDataType Other} :
    rest.foldlM (sharedSize library) (.other family) = some z ↔
      (∀ x ∈ rest, x = .other family) ∧ z = .other family := by
  induction rest with
  | nil => simp [eq_comm]
  | cons x rest ih =>
    rw [List.foldlM_cons, Option.bind_eq_bind, Option.bind_eq_some_iff, List.forall_mem_cons]
    constructor
    · rintro ⟨y, shared, folded⟩
      rcases sharedSize_eq_some.mp shared with ⟨_, _, _, _, ⟨⟩, _⟩ | ⟨_, ⟨⟩, rfl, rfl⟩
      exact ⟨⟨rfl, (ih.mp folded).1⟩, (ih.mp folded).2⟩
    · rintro ⟨⟨rfl, same⟩, rfl⟩
      exact ⟨_, sharedSize_eq_some.mpr (.inr ⟨family, rfl, rfl, rfl⟩), ih.mpr ⟨same, rfl⟩⟩

theorem sharedSizeOf_sketches (params : List SketchParams) (grouping : GroupingStrategy) :
    sharedSizeOf library (params.map fun params => (.sketch params grouping : FieldDataType Other)) =
      (sizeForAllReaders library params).map (.sketch · grouping) := by
  cases params with
  | nil => rfl
  | cons first rest => rw [List.map_cons, sharedSizeOf, mapM_paramsOf.mpr rfl, Option.bind_some]

theorem sharedSizeOf_others {families : List (FieldDataType Other)} {family : Other} (some : families ≠ [])
    (same : ∀ x ∈ families, x = .other family) : sharedSizeOf library families = .some (.other family) := by
  obtain ⟨first, rest, rfl⟩ := List.exists_cons_of_ne_nil some
  obtain ⟨rfl, later⟩ := List.forall_mem_cons.mp same
  rw [sharedSizeOf, if_pos later]

theorem sharedSizeOf_eq_some_iff (downward : library.Downward) {families : List (FieldDataType Other)}
    {z : FieldDataType Other} (wf : ∀ x ∈ families, x.WellFormed) :
    sharedSizeOf library families = some z ↔ joinAll (sharedSize library) families = some z ∧
      ∀ x ∈ families, sharedSize library z x = some z := by
  cases families with
  | nil => simp [sharedSizeOf, joinAll]
  | cons first rest =>
    cases first with
    | sketch params grouping =>
      rw [sharedSizeOf, joinAll, foldlM_sharedSize_sketch, Option.map_eq_some_iff]
      constructor
      · rintro ⟨c, sized, rfl⟩
        rw [Option.bind_eq_some_iff] at sized
        obtain ⟨others, whole, sized⟩ := sized
        obtain rfl := mapM_paramsOf.mp whole
        have wf' : ∀ x ∈ params :: others, Estimators.WellFormed x := by
          intro x inside
          exact wf (.sketch x grouping) (List.mem_map_of_mem (f := (FieldDataType.sketch · grouping)) inside)
        obtain ⟨joined, serves⟩ := (sizeForAllReaders_eq_some_iff_joinAll downward wf').mp sized
        refine ⟨⟨others, c, rfl, joined, rfl⟩, ?_⟩
        intro x inside
        rw [← List.map_cons (f := (FieldDataType.sketch · grouping)), List.mem_map] at inside
        obtain ⟨y, member, rfl⟩ := inside
        exact sharedSize_sketch.mpr ⟨c, rfl, serves y member⟩
      · rintro ⟨⟨others, c, rfl, joined, rfl⟩, serves⟩
        have wf' : ∀ x ∈ params :: others, Estimators.WellFormed x := by
          intro x inside
          exact wf (.sketch x grouping) (List.mem_map_of_mem (f := (FieldDataType.sketch · grouping)) inside)
        refine ⟨c, ?_, rfl⟩
        rw [mapM_paramsOf.mpr rfl, Option.bind_some]
        refine (sizeForAllReaders_eq_some_iff_joinAll downward wf').mpr ⟨joined, fun x inside => ?_⟩
        obtain ⟨_, ⟨⟩, sized⟩ := sharedSize_sketch.mp (serves (.sketch x grouping)
          (List.mem_map_of_mem (f := (FieldDataType.sketch · grouping)) inside))
        exact sized
    | other family =>
      rw [sharedSizeOf, joinAll, foldlM_sharedSize_other]
      constructor
      · intro shared
        split at shared
        · rename_i same
          obtain rfl := Option.some.inj shared
          refine ⟨⟨same, rfl⟩, List.forall_mem_cons.mpr ⟨?_, fun x inside => ?_⟩⟩
          · exact sharedSize_eq_some.mpr (.inr ⟨family, rfl, rfl, rfl⟩)
          · exact sharedSize_eq_some.mpr (.inr ⟨family, rfl, same x inside, rfl⟩)
        · cases shared
      · rintro ⟨⟨same, rfl⟩, _⟩
        rw [if_pos same]

/-! ### The sizes a closure finds -/

noncomputable def sketchesOf (families : List (FieldDataType Other)) : List SketchParams :=
  families.filterMap fun family => match family with
    | .sketch params _ => some params
    | .other _ => none

def FamiliesWithin (families : List (FieldDataType Other)) : Set (FieldDataType Other) :=
  {z | z.WellFormed ∧ (z ∈ families ∨ ∃ p c grouping, z = .sketch c grouping ∧
    .sketch p grouping ∈ families ∧ Within (sketchesOf families) c)}

theorem mem_sketchesOf {families : List (FieldDataType Other)} {params : SketchParams}
    {grouping : GroupingStrategy} (inside : .sketch params grouping ∈ families) :
    params ∈ sketchesOf families :=
  List.mem_filterMap.mpr ⟨_, inside, rfl⟩

theorem familiesWithin_sketch {families : List (FieldDataType Other)} {c : SketchParams}
    {grouping : GroupingStrategy} (inside : .sketch c grouping ∈ FamiliesWithin families) :
    (∃ p, .sketch p grouping ∈ families) ∧ Within (sketchesOf families) c := by
  obtain ⟨wf, own | ⟨p, _, _, ⟨⟩, known, within⟩⟩ := inside
  · exact ⟨⟨c, own⟩, within_self wf (mem_sketchesOf own)⟩
  · exact ⟨⟨p, known⟩, within⟩

theorem familiesWithin_closed (library : Library) (families : List (FieldDataType Other)) : ∀ x ∈ FamiliesWithin families,
    ∀ y ∈ FamiliesWithin families, ∀ z, sharedSize library x y = some z → z ∈ FamiliesWithin families := by
  intro x inside y inside' z shared
  refine ⟨(sharedSize_laws library).closed inside.1 inside'.1 shared, ?_⟩
  rcases sharedSize_eq_some.mp shared with ⟨a, b, c, grouping, rfl, rfl, rfl, sized⟩ | ⟨family, rfl, rfl, rfl⟩
  · obtain ⟨⟨p, known⟩, within⟩ := familiesWithin_sketch inside
    exact .inr ⟨p, c, grouping, rfl, known, within.pair (familiesWithin_sketch inside').2 sized⟩
  · exact inside.2

theorem familiesWithin_finite (families : List (FieldDataType Other)) : (FamiliesWithin families).Finite := by
  have groupings : {grouping | ∃ p, FieldDataType.sketch p grouping ∈ families}.Finite := by
    refine ((families.finite_toSet).image fun family => match family with
      | .sketch _ grouping => grouping
      | .other _ => .perSubpopulationInstance).subset ?_
    rintro grouping ⟨p, known⟩
    exact ⟨_, known, rfl⟩
  refine (families.finite_toSet.union ((groupings.prod (within_finite (sketchesOf families))).image
    fun both => .sketch both.2 both.1)).subset ?_
  rintro z ⟨_, own | ⟨p, c, grouping, rfl, known, within⟩⟩
  · exact .inl own
  · exact .inr ⟨(grouping, c), ⟨⟨p, known⟩, within⟩, rfl⟩

/-! ### Tumbling windows -/

open Classical in
theorem exists_sizes (library : Library) {readers : List (TumblingWindowRequirement Other)}
    (wf : ∀ reader ∈ readers, reader.family.WellFormed) : ∃ (enough : Nat)
      (sizes : Nat → List (FieldDataType Other)), ∀ width, (∀ z ∈ sizes width, z.WellFormed) ∧
        ∀ fuel ≥ enough, closeFrom (sharedSize library) fuel
          (((readers.filter (·.Divides width)).map (·.family)).foldl pushNew []) 0 = some (sizes width) := by
  have closed := familiesWithin_closed library (readers.map (·.family))
  have inside : ∀ width, ∀ z ∈ ((readers.filter (·.Divides width)).map (·.family)).foldl pushNew [],
      z ∈ FamiliesWithin (readers.map (·.family)) := by
    intro width z found
    rcases mem_foldl_pushNew.mp found with none | found
    · cases none
    · obtain ⟨reader, member, rfl⟩ := List.mem_map.mp found
      have there := List.mem_of_mem_filter member
      exact ⟨wf reader there, .inl (List.mem_map_of_mem there)⟩
  have nodup : ∀ width, (((readers.filter (·.Divides width)).map (·.family)).foldl pushNew []).Nodup :=
    fun width => nodup_foldl_pushNew List.nodup_nil
  have ends : ∀ width, ∃ ends, closeFrom (sharedSize library)
      ((FamiliesWithin (readers.map (·.family))).ncard + 1)
      (((readers.filter (·.Divides width)).map (·.family)).foldl pushNew []) 0 = some ends :=
    fun width => closeFrom_ends (familiesWithin_finite _) closed (nodup width) (inside width) (Nat.zero_le _)
      (by omega)
  choose sizes ends using ends
  refine ⟨_, sizes, fun width => ⟨fun z found => ?_, fun fuel enough => closeFrom_mono (ends width) enough⟩⟩
  exact (closeFrom_subset closed (ends width) (nodup width) (inside width) z found).1

structure Shares (library : Library) (readers group : List (TumblingWindowRequirement Other)) (width : Nat)
    (size : FieldDataType Other) : Prop where
  sublist : group.Sublist readers
  some : group ≠ []
  positive : 0 < width
  divides : ∀ reader ∈ group, reader.Divides width
  sized : sharedSizeOf library (group.map (·.family)) = .some size

def Complete (library : Library) (readers : List (TumblingWindowRequirement Other))
    (configurations : List (TumblingWindowConfiguration Other)) : Prop :=
  ∀ group width size, Shares library readers group width size → ∃ configuration ∈ configurations,
    configuration.tumblingWindowWidthMs = width ∧ configuration.family = size ∧
    (group.map (·.windowMs)).max? = some configuration.longestWindowMs ∧
    ∀ reader ∈ group, configuration.Serves library reader

open Classical in
/-- Every configuration is the join of the readers it serves. -/
def Sound (library : Library) (readers : List (TumblingWindowRequirement Other))
    (configurations : List (TumblingWindowConfiguration Other)) : Prop :=
  ∀ configuration ∈ configurations,
    ((readers.filter (configuration.Serves library)).map (·.windowMs)).max? =
      some configuration.longestWindowMs ∧
    sharedSizeOf library ((readers.filter (configuration.Serves library)).map (·.family)) =
      some configuration.family

open Classical in
/-- A group's size is also that of every reader it serves up to the group's longest window. -/
def Rejoins (library : Library) (readers : List (TumblingWindowRequirement Other)) : Prop :=
  ∀ group width size longest, Shares library readers group width size →
    (group.map (·.windowMs)).max? = some longest → sharedSizeOf library
      ((readers.filter ((⟨width, longest, size⟩ : TumblingWindowConfiguration Other).Serves library)).map
        (·.family)) = some size

open Classical in
theorem filter_serves_eligible (library : Library) (readers : List (TumblingWindowRequirement Other))
    (configuration : TumblingWindowConfiguration Other) :
    (readers.filter (·.Divides configuration.tumblingWindowWidthMs)).filter (configuration.Serves library) =
      readers.filter (configuration.Serves library) := by
  rw [List.filter_filter]
  refine List.filter_congr fun reader _ => ?_
  rw [Bool.eq_iff_iff, Bool.and_eq_true, decide_eq_true_eq, decide_eq_true_eq]
  exact and_iff_left_of_imp fun serves => serves.2.1

open Classical in
theorem configurationOf_eq_some {readers : List (TumblingWindowRequirement Other)} {width longest : Nat}
    {family : FieldDataType Other} {configuration : TumblingWindowConfiguration Other} :
    configurationOf library (readers.filter (·.Divides width)) width longest family = some configuration ↔
      configuration = ⟨width, longest, family⟩ ∧
      ((readers.filter (configuration.Serves library)).map (·.windowMs)).max? = some longest ∧
      joinAll (sharedSize library) ((readers.filter (configuration.Serves library)).map (·.family)) =
        some family := by
  rw [configurationOf]
  simp only [filter_serves_eligible library readers ⟨width, longest, family⟩]
  constructor
  · intro made
    split at made
    · obtain rfl := Option.some.inj made
      exact ⟨rfl, ‹_›⟩
    · cases made
  · rintro ⟨rfl, windows, sizes⟩
    rw [if_pos ⟨windows, sizes⟩]

open Classical in
theorem exists_configurations (library : Library) {readers : List (TumblingWindowRequirement Other)}
    (wf : ∀ reader ∈ readers, reader.family.WellFormed)
    (positive : ∀ reader ∈ readers, 0 < reader.tumblingWindowWidthMs ∧ 0 < reader.windowMs) :
    ∃ (enough : Nat) (sizes : Nat → List (FieldDataType Other))
      (configurations : List (TumblingWindowConfiguration Other)),
      (∀ fuel ≥ enough, tumblingWindowConfigurations library fuel readers = some configurations) ∧
      (∀ width, (∀ z ∈ sizes width, z.WellFormed) ∧ ∃ fuel, closeFrom (sharedSize library) fuel
        (((readers.filter (·.Divides width)).map (·.family)).foldl pushNew []) 0 = some (sizes width)) ∧
      ∀ configuration, configuration ∈ configurations ↔
        (∃ reader ∈ readers, reader.Divides configuration.tumblingWindowWidthMs ∧
          reader.windowMs = configuration.longestWindowMs) ∧
        configuration.family ∈ sizes configuration.tumblingWindowWidthMs ∧
        configurationOf library (readers.filter (·.Divides configuration.tumblingWindowWidthMs))
          configuration.tumblingWindowWidthMs configuration.longestWindowMs configuration.family =
            some configuration := by
  obtain ⟨enough, sizes, ends⟩ := exists_sizes library wf
  refine ⟨enough, sizes, ((tumblingWindowWidthDomain (readers.map fun reader =>
    Nat.gcd reader.tumblingWindowWidthMs reader.windowMs)).map fun width =>
      ((readers.filter (·.Divides width)).map (·.windowMs)).toFinset.sort.flatMap fun longest =>
        (sizes width).filterMap (configurationOf library (readers.filter (·.Divides width)) width
          longest)).flatten, fun fuel more => ?_,
    fun width => ⟨(ends width).1, enough, (ends width).2 enough (le_refl _)⟩, fun configuration => ?_⟩
  · rw [tumblingWindowConfigurations, if_neg ?_, Option.map_eq_some_iff]
    · refine ⟨_, Rust.option_mapM_eq_some.mpr ?_, rfl⟩
      rw [List.forall₂_map_right_iff, List.forall₂_same]
      intro width _
      simp only [configurationsAt, (ends width).2 fuel more, Option.map_some]
    · rw [List.any_eq_true]
      rintro ⟨reader, inside, zero⟩
      have above := positive reader inside
      rw [decide_eq_true_eq] at zero
      omega
  · simp only [List.mem_flatten, List.mem_map, exists_exists_and_eq_and, List.mem_flatMap, Finset.mem_sort,
      List.mem_toFinset, List.mem_filterMap, List.mem_filter, decide_eq_true_eq,
      mem_tumblingWindowWidthDomain]
    constructor
    · rintro ⟨width, _, reader, ⟨inside, divides⟩, family, known, made⟩
      obtain ⟨rfl, _⟩ := configurationOf_eq_some.mp made
      exact ⟨⟨reader, inside, divides, rfl⟩, known, made⟩
    · rintro ⟨⟨reader, inside, divides, same⟩, known, made⟩
      exact ⟨_, ⟨reader, inside, Nat.gcd_pos_of_pos_left _ (positive reader inside).1,
        Nat.dvd_gcd divides.1 divides.2⟩, reader, ⟨inside, divides⟩, _, known, same ▸ made⟩

theorem tumbling_windows_iff {readers : List (TumblingWindowRequirement Other)} (downward : library.Downward)
    (wf : ∀ reader ∈ readers, reader.family.WellFormed)
    (positive : ∀ reader ∈ readers, 0 < reader.tumblingWindowWidthMs ∧ 0 < reader.windowMs) :
    ∃ enough configurations, (∀ fuel ≥ enough,
        tumblingWindowConfigurations library fuel readers = some configurations) ∧
      Sound library readers configurations ∧
      (Complete library readers configurations ↔ Rejoins library readers) := by
  classical
  obtain ⟨enough, sizes, configurations, ends, found, mem⟩ := exists_configurations library wf positive
  have wfs : ∀ configuration : TumblingWindowConfiguration Other,
      ∀ x ∈ (readers.filter (configuration.Serves library)).map (·.family), x.WellFormed := by
    intro configuration x inside
    obtain ⟨reader, member, rfl⟩ := List.mem_map.mp inside
    exact wf reader (List.mem_of_mem_filter member)
  have serves : ∀ configuration : TumblingWindowConfiguration Other,
      ∀ x ∈ (readers.filter (configuration.Serves library)).map (·.family),
        sharedSize library configuration.family x = some configuration.family := by
    intro configuration x inside
    obtain ⟨reader, member, rfl⟩ := List.mem_map.mp inside
    exact (of_decide_eq_true (List.mem_filter.mp member).2).2.2.2.2
  have sound : Sound library readers configurations := by
    intro configuration inside
    obtain ⟨_, windows, joined⟩ := configurationOf_eq_some.mp ((mem configuration).mp inside).2.2
    exact ⟨windows, (sharedSizeOf_eq_some_iff downward (wfs configuration)).mpr
      ⟨joined, serves configuration⟩⟩
  refine ⟨enough, configurations, ends, sound, fun complete group width size longest shares windows => ?_,
    fun rejoins group width size shares => ?_⟩
  · obtain ⟨configuration, inside, rfl, rfl, windows', _⟩ := complete group width size shares
    obtain rfl := Option.some.inj (windows.symm.trans windows')
    exact (sound configuration inside).2
  · have windowed : group.map (·.windowMs) ≠ [] := fun none => shares.some (List.map_eq_nil_iff.mp none)
    obtain ⟨longest, windows⟩ := Option.isSome_iff_exists.mp (List.isSome_max?_of_ne_nil windowed)
    obtain ⟨attained, most⟩ := List.max?_eq_some_iff.mp windows
    obtain ⟨last, member, rfl⟩ := List.mem_map.mp attained
    have wfGroup : ∀ x ∈ group.map (·.family), x.WellFormed := by
      intro x inside
      obtain ⟨reader, member, rfl⟩ := List.mem_map.mp inside
      exact wf reader (shares.sublist.subset member)
    obtain ⟨joined, absorbed⟩ := (sharedSizeOf_eq_some_iff downward wfGroup).mp shares.sized
    have served : ∀ reader ∈ group,
        (⟨width, last.windowMs, size⟩ : TumblingWindowConfiguration Other).Serves library reader :=
      fun reader inside => ⟨shares.positive, shares.divides reader inside, (shares.divides last member).2,
        most _ (List.mem_map_of_mem inside), absorbed _ (List.mem_map_of_mem inside)⟩
    refine ⟨⟨width, last.windowMs, size⟩, (mem _).mpr ⟨?_, ?_, ?_⟩, rfl, rfl, windows, served⟩
    · exact ⟨last, shares.sublist.subset member, shares.divides last member, rfl⟩
    · obtain ⟨wfSizes, fuel, closed⟩ := found width
      refine joinAll_mem_closeFrom (sharedSize_laws library) wfSizes closed (nodup_foldl_pushNew List.nodup_nil)
        (fun x inside => ?_) joined
      obtain ⟨reader, member, rfl⟩ := List.mem_map.mp inside
      exact mem_foldl_pushNew.mpr (.inr (List.mem_map_of_mem (List.mem_filter.mpr
        ⟨shares.sublist.subset member, decide_eq_true (shares.divides reader member)⟩)))
    · have whole := rejoins group width size last.windowMs shares windows
      refine configurationOf_eq_some.mpr ⟨rfl, List.max?_eq_some_iff.mpr ⟨?_, ?_⟩,
        ((sharedSizeOf_eq_some_iff downward (wfs _)).mp whole).1⟩
      · exact List.mem_map_of_mem (List.mem_filter.mpr
          ⟨shares.sublist.subset member, decide_eq_true (served last member)⟩)
      · intro window inside
        obtain ⟨reader, member, rfl⟩ := List.mem_map.mp inside
        exact (of_decide_eq_true (List.mem_filter.mp member).2).2.2.2.1

/-! ### Sizes alone -/

/-- Every group of sizes with a shared one is served by it. -/
def CompleteSizes (library : Library) (sizes : List SketchParams)
    (configurations : List (Option SketchParams)) : Prop :=
  ∀ group size, group.Sublist sizes → sizeForAllReaders library group = some size →
    some size ∈ configurations ∧ ∀ required ∈ group, sizeForAllReaders library [size, required] = some size

open Classical in
noncomputable def servedBy (library : Library) (sizes : List SketchParams) (configuration : SketchParams) :
    List SketchParams :=
  sizes.filter fun required => sizeForAllReaders library [configuration, required] = some configuration

def SoundSizes (library : Library) (sizes : List SketchParams)
    (configurations : List (Option SketchParams)) : Prop :=
  ∀ configuration ∈ configurations, ∃ size, configuration = some size ∧
    sizeForAllReaders library (servedBy library sizes size) = some size

/-- A group's size is also that of every size it serves. -/
def RejoinsSizes (library : Library) (sizes : List SketchParams) : Prop :=
  ∀ group size, group.Sublist sizes → sizeForAllReaders library group = some size →
    sizeForAllReaders library (servedBy library sizes size) = some size

theorem joinAll_mem_growJoins {sizes group : List SketchParams} {size : SketchParams}
    (sublist : group.Sublist sizes) (joined : joinAll (pairSize library) group = some size) :
    size ∈ sizes.foldl (growJoins library) [] := by
  classical
  induction sizes using List.reverseRecOn generalizing group size with
  | nil =>
    obtain rfl := List.sublist_nil.mp sublist
    cases joined
  | append_singleton sizes last ih =>
    rw [List.foldl_concat, growJoins, mem_foldl_pushNew, List.mem_cons]
    obtain ⟨group, tail, rfl, before, after⟩ := List.sublist_append_iff.mp sublist
    rcases List.sublist_singleton.mp after with rfl | rfl
    · rw [List.append_nil] at joined
      exact .inl (ih before joined)
    · by_cases none : group = []
      · subst none
        exact .inr (.inl (Option.some.inj joined).symm)
      · rw [joinAll_concat none, Option.bind_eq_some_iff] at joined
        obtain ⟨join, earlier, sized⟩ := joined
        exact .inr (.inr (List.mem_filterMap.mpr ⟨join, ih before earlier, sized⟩))

theorem mem_stateSizeConfigurations {sizes : List SketchParams} {configuration : Option SketchParams} :
    configuration ∈ stateSizeConfigurations library (sizes.map some) ↔ ∃ size, configuration = some size ∧
      size ∈ sizes.foldl (growJoins library) [] ∧
      sizeForAllReaders library (servedBy library sizes size) = some size := by
  classical
  have known : ¬(sizes.map some).any Option.isNone = true := by simp
  have whole : (sizes.map some).filterMap id = sizes := by simp [List.filterMap_map]
  rw [stateSizeConfigurations, if_neg known]
  simp only [whole, List.mem_filterMap]
  constructor
  · rintro ⟨size, found, made⟩
    split at made
    · exact ⟨size, (Option.some.inj made).symm, found, ‹_›⟩
    · cases made
  · rintro ⟨size, rfl, found, sized⟩
    exact ⟨size, found, if_pos sized⟩

theorem state_sizes_iff {sizes : List SketchParams} (downward : library.Downward)
    (wf : ∀ x ∈ sizes, Estimators.WellFormed x) :
    SoundSizes library sizes (stateSizeConfigurations library (sizes.map some)) ∧
      (CompleteSizes library sizes (stateSizeConfigurations library (sizes.map some)) ↔
        RejoinsSizes library sizes) := by
  refine ⟨fun configuration inside => ?_, fun complete group size sublist sized => ?_,
    fun rejoins group size sublist sized => ?_⟩
  · obtain ⟨size, rfl, _, sized⟩ := mem_stateSizeConfigurations.mp inside
    exact ⟨size, rfl, sized⟩
  · obtain ⟨_, ⟨⟩, _, whole⟩ := mem_stateSizeConfigurations.mp (complete group size sublist sized).1
    exact whole
  · obtain ⟨joined, served⟩ := (sizeForAllReaders_eq_some_iff_joinAll downward
      fun x inside => wf x (sublist.subset inside)).mp sized
    exact ⟨mem_stateSizeConfigurations.mpr ⟨size, rfl, joinAll_mem_growJoins sublist joined,
      rejoins group size sublist sized⟩, served⟩

theorem servedBy_eq_self {sizes : List SketchParams} {configuration : SketchParams}
    (serves : ∀ x ∈ sizes, pairSize library configuration x = some configuration) :
    servedBy library sizes configuration = sizes := by
  classical
  exact List.filter_eq_self.mpr fun x inside => decide_eq_true (serves x inside)

end AsapPlanner.Pass2
