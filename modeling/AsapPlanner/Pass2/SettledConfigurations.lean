import AsapPlanner.Pass2.ConfigurationCoverage

/-!
The groups of readers a shared configuration is found for, by the levels they are resized through.
-/

namespace AsapPlanner.Pass2
open Estimators Joins
open Ir (GroupingStrategy SketchAlgorithm)

variable {Other : Type} {library : Library}

open Classical in
/-- The readers whose own size, resized at once to the level of `size`, is within it. -/
noncomputable def heldAt (readers : List SketchParams) (family : SketchAlgorithm) (shape : Nat × Nat × Nat)
    (size : Nat × WithTop ℝ) : List SketchParams :=
  readers.filter fun x => x.family = family ∧ x.shape ≤ shape ∧ size.2 ≤ x.size.2 ∧
    (growthOf family).grow x.size.2 size.2 x.size.1 ≤ size.1

/-- Resized step by step in their order, the readers that a group's size holds at once also come to it. -/
def Settles (library : Library) (group readers : List SketchParams) : Prop :=
  ∀ family (size : Nat × WithTop ℝ), (∀ x ∈ group, x.family = family) →
    builds library family (shapeOf group) = true → Growth.Lowest (group.map SketchParams.size) size.2 →
    IsGreatest {k | (growthOf family).Ends (group.map SketchParams.size) k} size.1 →
      IsGreatest {k | (growthOf family).Ends
        ((heldAt readers family (shapeOf group) size).map SketchParams.size) k} size.1

theorem sizeForAllReaders_eq_some_iff_ends {params : List SketchParams} {shared : SketchParams}
    (some : params ≠ []) (wf : ∀ x ∈ params, Estimators.WellFormed x) :
    sizeForAllReaders library params = .some shared ↔ (∀ x ∈ params, x.family = shared.family) ∧
      builds library shared.family (shapeOf params) = true ∧ shared.shape = shapeOf params ∧
      Growth.Lowest (params.map SketchParams.size) shared.size.2 ∧
      IsGreatest {k | (growthOf shared.family).Ends (params.map SketchParams.size) k} shared.size.1 := by
  obtain ⟨first, rest, rfl⟩ := List.exists_cons_of_ne_nil some
  have greatest : ∀ family, IsGreatest {k | (growthOf family).Ends ((first :: rest).map SketchParams.size) k}
      ((rest.map SketchParams.size).foldl (growthOf family).join first.size).1 :=
    fun family => Growth.foldl_join_isGreatest _ first.size (rest.map SketchParams.size)
  constructor
  · intro sized
    have sizes := sizeForAllReaders_eq_some wf sized
    have alike : ∀ x ∈ rest, x.family = first.family := fun x inside =>
      (sizes.family x (List.mem_cons_of_mem first inside)).trans (sizes.family first List.mem_cons_self).symm
    have head : first.family = shared.family := sizes.family first List.mem_cons_self
    have built : builds library first.family (shapeOf (first :: rest)) = true := by
      rw [head, ← sizes.shape]
      exact sizes.built
    obtain ⟨z, sized', size⟩ := sizeForAllReaders_built library wf alike built
    obtain rfl := Option.some.inj (sized.symm.trans sized')
    refine ⟨sizes.family, head ▸ built, sizes.shape, sizes.size.lowest, ?_⟩
    rw [size, head]
    exact greatest shared.family
  · rintro ⟨alike, built, shape, lowest, most⟩
    have head : first.family = shared.family := alike first List.mem_cons_self
    obtain ⟨z, sized, size⟩ := sizeForAllReaders_built library wf
      (fun x inside => (alike x (List.mem_cons_of_mem first inside)).trans head.symm) (head.symm ▸ built)
    have sizes := sizeForAllReaders_eq_some wf sized
    have family : z.family = shared.family := (sizes.family first List.mem_cons_self).symm.trans head
    rw [sized, parts_injective family (Prod.ext ?_ (sizes.size.lowest.eq lowest)) (sizes.shape.trans shape.symm)]
    rw [size, head]
    exact (greatest shared.family).unique most

theorem mem_heldAt {readers : List SketchParams} {family : SketchAlgorithm} {shape : Nat × Nat × Nat}
    {size : Nat × WithTop ℝ} {x : SketchParams} : x ∈ heldAt readers family shape size ↔ x ∈ readers ∧
      x.family = family ∧ x.shape ≤ shape ∧ size.2 ≤ x.size.2 ∧
        (growthOf family).grow x.size.2 size.2 x.size.1 ≤ size.1 := by
  classical
  rw [heldAt, List.mem_filter, decide_eq_true_eq]

theorem servedBy_eq_heldAt {readers : List SketchParams} {shared : SketchParams}
    (wf : ∀ x ∈ readers, Estimators.WellFormed x) (wf' : Estimators.WellFormed shared)
    (built : builds library shared.family shared.shape = true) :
    servedBy library readers shared = heldAt readers shared.family shared.shape shared.size := by
  classical
  refine List.filter_congr fun x inside => ?_
  rw [decide_eq_decide, ← pairSize, pairSize_eq_left_iff wf' (wf x inside), Growth.join_eq_left_iff]
  constructor
  · rintro ⟨family, ⟨below, held⟩, shape, _⟩
    exact ⟨family, shape, below, held⟩
  · rintro ⟨family, shape, below, held⟩
    exact ⟨family, ⟨below, held⟩, shape, built⟩

theorem settles_iff {group readers : List SketchParams} (downward : library.Downward) (some : group ≠ [])
    (inside : ∀ x ∈ group, x ∈ readers) (wf : ∀ x ∈ readers, Estimators.WellFormed x) :
    Settles library group readers ↔ ∀ shared, sizeForAllReaders library group = .some shared →
      sizeForAllReaders library (servedBy library readers shared) = .some shared := by
  have wfGroup : ∀ x ∈ group, Estimators.WellFormed x := fun x member => wf x (inside x member)
  have split : ∀ shared, sizeForAllReaders library group = .some shared →
      (sizeForAllReaders library (servedBy library readers shared) = .some shared ↔
        IsGreatest {k | (growthOf shared.family).Ends
          ((heldAt readers shared.family (shapeOf group) shared.size).map SketchParams.size) k}
            shared.size.1) := by
    intro shared sized
    have sizes := sizeForAllReaders_eq_some wfGroup sized
    have serves := ((sizeForAllReaders_eq_some_iff_joinAll downward wfGroup).mp sized).2
    have held : ∀ x ∈ group, x ∈ heldAt readers shared.family shared.shape shared.size := by
      intro x member
      rw [← servedBy_eq_heldAt wf sizes.wellFormed sizes.built]
      classical
      exact List.mem_filter.mpr ⟨inside x member, decide_eq_true (serves x member)⟩
    obtain ⟨first, member⟩ := List.exists_mem_of_ne_nil group some
    have shapes : shapeOf (heldAt readers shared.family shared.shape shared.size) = shared.shape := by
      refine le_antisymm (shapeOf_le.mpr fun x member => (mem_heldAt.mp member).2.2.1) ?_
      rw [sizes.shape, shapeOf_le]
      exact fun x member => shapeOf_le.mp (le_refl _) x (sizes.shape ▸ held x member)
    have lowest : Growth.Lowest ((heldAt readers shared.family shared.shape shared.size).map
        SketchParams.size) shared.size.2 := by
      constructor
      · obtain ⟨_, here, known⟩ := sizes.size.lowest.attained
        obtain ⟨x, member, rfl⟩ := List.mem_map.mp here
        exact ⟨x.size, List.mem_map_of_mem (held x member), known⟩
      · rw [List.forall_mem_map]
        exact fun x member => (mem_heldAt.mp member).2.2.2.1
    rw [servedBy_eq_heldAt wf sizes.wellFormed sizes.built, ← sizes.shape,
      sizeForAllReaders_eq_some_iff_ends (List.ne_nil_of_mem (held first member))
        (fun x member => wf x (mem_heldAt.mp member).1), shapes]
    constructor
    · rintro ⟨_, _, _, _, most⟩
      exact most
    · exact fun most => ⟨fun x member => (mem_heldAt.mp member).2.1, sizes.built, rfl, lowest, most⟩
  constructor
  · intro settles shared sized
    obtain ⟨alike, built, _, lowest, most⟩ := (sizeForAllReaders_eq_some_iff_ends some wfGroup).mp sized
    exact (split shared sized).mpr (settles shared.family shared.size alike built lowest most)
  · intro rejoins family size alike built lowest most
    obtain ⟨first, rest, rfl⟩ := List.exists_cons_of_ne_nil some
    obtain rfl := alike first List.mem_cons_self
    obtain ⟨shared, sized, _⟩ := sizeForAllReaders_built library wfGroup
      (fun x member => alike x (List.mem_cons_of_mem first member)) built
    obtain ⟨alike', _, _, lowest', most'⟩ := (sizeForAllReaders_eq_some_iff_ends some wfGroup).mp sized
    have family := alike' first List.mem_cons_self
    have parts : shared.size = size := Prod.ext (most'.unique (family ▸ most)) (lowest'.eq lowest)
    rw [family, ← parts]
    exact (split shared sized).mp (rejoins shared sized)

theorem settles_of_twoLevels {group readers : List SketchParams}
    (inside : ∀ x ∈ group, x ∈ readers)
    (two : ∀ family, Growth.TwoLevels ((readers.filter (·.family = family)).map SketchParams.size)) :
    Settles library group readers := by
  intro family size alike built lowest most
  have own : ∀ x ∈ group, x ∈ readers.filter (·.family = family) :=
    fun x member => List.mem_filter.mpr ⟨inside x member, decide_eq_true (alike x member)⟩
  have once : Growth.TwoLevels (group.map SketchParams.size) :=
    (two family).subset (List.map_subset _ own)
  have held : ∀ x ∈ group, x ∈ heldAt readers family (shapeOf group) size := by
    intro x member
    refine mem_heldAt.mpr ⟨inside x member, alike x member, shapeOf_le.mp (le_refl _) x member,
      lowest.least _ (List.mem_map_of_mem member), most.2 ?_⟩
    exact (once.ends lowest).mpr ⟨x.size, List.mem_map_of_mem member, rfl⟩
  have once' : Growth.TwoLevels ((heldAt readers family (shapeOf group) size).map SketchParams.size) := by
    refine (two family).subset (List.map_subset _ fun x member => ?_)
    obtain ⟨here, same, _⟩ := mem_heldAt.mp member
    exact List.mem_filter.mpr ⟨here, decide_eq_true same⟩
  have lowest' : Growth.Lowest ((heldAt readers family (shapeOf group) size).map SketchParams.size)
      size.2 := by
    obtain ⟨_, here, known⟩ := lowest.attained
    refine ⟨⟨_, List.map_subset _ held here, known⟩, ?_⟩
    rw [List.forall_mem_map]
    exact fun x member => (mem_heldAt.mp member).2.2.2.1
  constructor
  · obtain ⟨_, here, known⟩ := (once.ends lowest).mp most.1
    exact (once'.ends lowest').mpr ⟨_, List.map_subset _ held here, known⟩
  · rintro k ends
    obtain ⟨_, here, rfl⟩ := (once'.ends lowest').mp ends
    obtain ⟨x, member, rfl⟩ := List.mem_map.mp here
    exact (mem_heldAt.mp member).2.2.2.2

open Classical in
noncomputable def eligibleSizes (readers : List (TumblingWindowRequirement Other)) (width longest : Nat)
    (grouping : GroupingStrategy) : List SketchParams :=
  readers.filterMap fun reader =>
    if reader.Divides width ∧ reader.windowMs ≤ longest then paramsOf grouping reader.family else none

/-- Every group of sketches of one grouping settles among those of its width, up to its longest window. -/
def Settled (library : Library) (readers : List (TumblingWindowRequirement Other)) : Prop :=
  ∀ (group : List (TumblingWindowRequirement Other)) (width longest : Nat) (grouping : GroupingStrategy)
    (params : List SketchParams), group.Sublist readers → (∀ reader ∈ group, reader.Divides width) →
    (group.map (·.windowMs)).max? = some longest →
    group.map (·.family) = params.map (.sketch · grouping) →
      Settles library params (eligibleSizes readers width longest grouping)

def SettledSizes (library : Library) (sizes : List SketchParams) : Prop :=
  ∀ group, group ≠ [] → group.Sublist sizes → Settles library group sizes

theorem rejoinsSizes_iff {sizes : List SketchParams} (downward : library.Downward)
    (wf : ∀ x ∈ sizes, Estimators.WellFormed x) : RejoinsSizes library sizes ↔ SettledSizes library sizes := by
  constructor
  · intro rejoins group some sublist
    exact (settles_iff downward some (fun x member => sublist.subset member) wf).mpr fun shared =>
      rejoins group shared sublist
  · intro settled group shared sublist sized
    have some : group ≠ [] := by
      rintro rfl
      cases sized
    exact (settles_iff downward some (fun x member => sublist.subset member) wf).mp
      (settled group some sublist) shared sized

theorem mem_eligibleSizes {readers : List (TumblingWindowRequirement Other)} {width longest : Nat}
    {grouping : GroupingStrategy} {params : SketchParams} :
    params ∈ eligibleSizes readers width longest grouping ↔ ∃ reader ∈ readers, reader.Divides width ∧
      reader.windowMs ≤ longest ∧ reader.family = .sketch params grouping := by
  classical
  rw [eligibleSizes, List.mem_filterMap]
  refine exists_congr fun reader => and_congr_right fun _ => ?_
  rw [Option.ite_none_right_eq_some, and_assoc, paramsOf_eq_some]

open Classical in
theorem served_sketches (readers : List (TumblingWindowRequirement Other)) {width longest : Nat}
    (positive : 0 < width) (divides : width ∣ longest) (shared : SketchParams) (grouping : GroupingStrategy) :
    (readers.filter ((⟨width, longest, .sketch shared grouping⟩ :
      TumblingWindowConfiguration Other).Serves library)).map (·.family) =
        (servedBy library (eligibleSizes readers width longest grouping) shared).map (.sketch · grouping) := by
  induction readers with
  | nil => rfl
  | cons reader readers ih =>
    have serves : (⟨width, longest, .sketch shared grouping⟩ : TumblingWindowConfiguration Other).Serves
        library reader ↔ (reader.Divides width ∧ reader.windowMs ≤ longest) ∧
          ∃ b, reader.family = .sketch b grouping ∧
            sizeForAllReaders library [shared, b] = some shared := by
      rw [TumblingWindowConfiguration.Serves, sharedSize_eq_some]
      constructor
      · rintro ⟨_, divides', _, window, ⟨_, b, _, _, ⟨⟩, family, ⟨⟩, sized⟩ | ⟨_, ⟨⟩, _⟩⟩
        exact ⟨⟨divides', window⟩, b, family, sized⟩
      · rintro ⟨⟨divides', window⟩, b, family, sized⟩
        exact ⟨positive, divides', divides, window, .inl ⟨_, b, _, _, rfl, family, rfl, sized⟩⟩
    have allowed : ∀ b, (reader.Divides width ∧ reader.windowMs ≤ longest) →
        reader.family = .sketch b grouping → eligibleSizes (reader :: readers) width longest grouping =
          b :: eligibleSizes readers width longest grouping := by
      intro b within family
      exact List.filterMap_cons_some ((if_pos within).trans (paramsOf_eq_some.mpr family))
    by_cases within : (reader.Divides width ∧ reader.windowMs ≤ longest) ∧
      ∃ b, reader.family = .sketch b grouping
    · obtain ⟨within, b, family⟩ := within
      rw [allowed b within family, servedBy, List.filter_cons, List.filter_cons]
      by_cases sized : sizeForAllReaders library [shared, b] = some shared
      · rw [if_pos (decide_eq_true (serves.mpr ⟨within, b, family, sized⟩)), if_pos (decide_eq_true sized),
          List.map_cons, List.map_cons, family, ih, servedBy]
      · have unserved : ¬(⟨width, longest, .sketch shared grouping⟩ :
            TumblingWindowConfiguration Other).Serves library reader := by
          intro served
          obtain ⟨_, b', family', sized'⟩ := serves.mp served
          obtain ⟨rfl, _⟩ := FieldDataType.sketch.inj (family.symm.trans family')
          exact sized sized'
        rw [if_neg (fun served => unserved (of_decide_eq_true served)),
          if_neg (fun same => sized (of_decide_eq_true same)), ih, servedBy]
    · have none : eligibleSizes (reader :: readers) width longest grouping =
          eligibleSizes readers width longest grouping := by
        refine List.filterMap_cons_none ?_
        by_contra known
        obtain ⟨b, known⟩ := Option.ne_none_iff_exists'.mp known
        rw [Option.ite_none_right_eq_some] at known
        exact within ⟨known.1, b, paramsOf_eq_some.mp known.2⟩
      have unserved : ¬(⟨width, longest, .sketch shared grouping⟩ :
          TumblingWindowConfiguration Other).Serves library reader := by
        intro served
        obtain ⟨allowed, b, family, _⟩ := serves.mp served
        exact within ⟨allowed, b, family⟩
      rw [none, List.filter_cons, if_neg (fun served => unserved (of_decide_eq_true served)), ih]

theorem mem_eligibleSizes_of_group {readers group : List (TumblingWindowRequirement Other)}
    {width longest : Nat} {grouping : GroupingStrategy} {params : List SketchParams}
    (sublist : group.Sublist readers) (divides : ∀ reader ∈ group, reader.Divides width)
    (windows : (group.map (·.windowMs)).max? = some longest)
    (families : group.map (·.family) = params.map (.sketch · grouping)) :
    ∀ x ∈ params, x ∈ eligibleSizes readers width longest grouping := by
  intro x member
  let family (size : SketchParams) : FieldDataType Other := .sketch size grouping
  have inside : family x ∈ params.map family := List.mem_map_of_mem member
  obtain ⟨reader, here, family⟩ := List.mem_map.mp (families ▸ inside)
  exact mem_eligibleSizes.mpr ⟨reader, sublist.subset here, divides reader here,
    (List.max?_eq_some_iff.mp windows).2 _ (List.mem_map_of_mem here), family⟩

theorem rejoins_iff {readers : List (TumblingWindowRequirement Other)} (downward : library.Downward)
    (wf : ∀ reader ∈ readers, reader.family.WellFormed)
    (positive : ∀ reader ∈ readers, 0 < reader.tumblingWindowWidthMs ∧ 0 < reader.windowMs) :
    Rejoins library readers ↔ Settled library readers := by
  classical
  have wfs : ∀ width longest grouping, ∀ x ∈ eligibleSizes readers width longest grouping,
      Estimators.WellFormed x := by
    intro width longest grouping x member
    obtain ⟨reader, here, _, _, family⟩ := mem_eligibleSizes.mp member
    exact (family ▸ wf reader here : FieldDataType.WellFormed (.sketch x grouping : FieldDataType Other))
  -- A group's widest reader gives the width a multiple.
  have widths : ∀ {group : List (TumblingWindowRequirement Other)} {width longest : Nat},
      group.Sublist readers → (∀ reader ∈ group, reader.Divides width) →
        (group.map (·.windowMs)).max? = some longest → 0 < width ∧ width ∣ longest := by
    intro group width longest sublist divides windows
    obtain ⟨reader, here, rfl⟩ := List.mem_map.mp (List.max?_eq_some_iff.mp windows).1
    exact ⟨Nat.pos_of_dvd_of_pos (divides reader here).1 (positive reader (sublist.subset here)).1,
      (divides reader here).2⟩
  constructor
  · intro rejoins group width longest grouping params sublist divides windows families
    obtain ⟨above, multiple⟩ := widths sublist divides windows
    have some : params ≠ [] := by
      rintro rfl
      rw [List.map_eq_nil_iff.mp families] at windows
      cases windows
    refine (settles_iff downward some (mem_eligibleSizes_of_group sublist divides windows families)
      (wfs _ _ _)).mpr fun shared sized => ?_
    have whole := rejoins group width (.sketch shared grouping) longest ⟨sublist, ?_, above, divides, ?_⟩ windows
    · rw [served_sketches readers above multiple, sharedSizeOf_sketches, Option.map_eq_some_iff] at whole
      obtain ⟨_, sized', ⟨⟩⟩ := whole
      exact sized'
    · rintro rfl
      cases windows
    · rw [families, sharedSizeOf_sketches, sized, Option.map_some]
  · intro settled group width size longest shares windows
    obtain ⟨above, multiple⟩ := widths shares.sublist shares.divides windows
    cases size with
    | sketch shared grouping =>
      have sized := shares.sized
      obtain ⟨params, families⟩ : ∃ params : List SketchParams,
          group.map (·.family) = params.map (.sketch · grouping) := by
        cases families : group.map (·.family) with
        | nil => exact ⟨[], rfl⟩
        | cons first rest =>
          rw [families] at sized
          cases first with
          | sketch a grouping' =>
            rw [sharedSizeOf, Option.map_eq_some_iff] at sized
            obtain ⟨_, sized, ⟨⟩⟩ := sized
            obtain ⟨others, known, _⟩ := Option.bind_eq_some_iff.mp sized
            exact ⟨a :: others, congrArg (_ :: ·) (mapM_paramsOf.mp known)⟩
          | other family =>
            rw [sharedSizeOf, Option.ite_none_right_eq_some] at sized
            cases sized.2
      rw [families, sharedSizeOf_sketches, Option.map_eq_some_iff] at sized
      obtain ⟨_, sized, ⟨⟩⟩ := sized
      have some : params ≠ [] := by
        rintro rfl
        cases sized
      rw [served_sketches readers above multiple, sharedSizeOf_sketches, (settles_iff downward some
        (mem_eligibleSizes_of_group shares.sublist shares.divides windows families) (wfs _ _ _)).mp
          (settled group width longest grouping params shares.sublist shares.divides windows families)
            shared sized, Option.map_some]
    | other family =>
      have others : ∀ x ∈ (readers.filter ((⟨width, longest, .other family⟩ :
          TumblingWindowConfiguration Other).Serves library)).map (·.family), x = .other family := by
        intro x inside
        obtain ⟨reader, here, rfl⟩ := List.mem_map.mp inside
        obtain ⟨_, _, _, _, shared⟩ := of_decide_eq_true (List.mem_filter.mp here).2
        rcases sharedSize_eq_some.mp shared with ⟨_, _, _, _, ⟨⟩, _⟩ | ⟨_, ⟨⟩, same, _⟩
        exact same
      refine sharedSizeOf_others ?_ others
      obtain ⟨reader, here, family'⟩ : ∃ reader ∈ group, reader.family = .other family := by
        have sized := shares.sized
        cases group with
        | nil => cases windows
        | cons reader rest =>
          refine ⟨reader, List.mem_cons_self, ?_⟩
          rw [List.map_cons] at sized
          cases known : reader.family with
          | sketch params grouping =>
            rw [known, sharedSizeOf, Option.map_eq_some_iff] at sized
            obtain ⟨_, _, ⟨⟩⟩ := sized
          | other family' =>
            rw [known, sharedSizeOf, Option.ite_none_right_eq_some] at sized
            exact Option.some.inj sized.2
      refine List.ne_nil_of_mem (List.mem_map_of_mem (List.mem_filter.mpr
        ⟨shares.sublist.subset here, decide_eq_true ⟨above, shares.divides reader here, multiple,
          (List.max?_eq_some_iff.mp windows).2 _ (List.mem_map_of_mem here), ?_⟩⟩))
      exact sharedSize_eq_some.mpr (.inr ⟨family, rfl, family', rfl⟩)

/-- Configurations are sound, and complete exactly where the readers a group's size holds at once also come
to it step by step. -/
theorem shared_configurations_iff {readers : List (TumblingWindowRequirement Other)}
    {sizes : List SketchParams} (downward : library.Downward)
    (wf : ∀ reader ∈ readers, reader.family.WellFormed)
    (positive : ∀ reader ∈ readers, 0 < reader.tumblingWindowWidthMs ∧ 0 < reader.windowMs)
    (wfSizes : ∀ x ∈ sizes, Estimators.WellFormed x) :
    (∃ enough configurations, (∀ fuel ≥ enough,
        tumblingWindowConfigurations library fuel readers = some configurations) ∧
      Sound library readers configurations ∧
      (Complete library readers configurations ↔ Settled library readers)) ∧
    SoundSizes library sizes (stateSizeConfigurations library (sizes.map some)) ∧
      (CompleteSizes library sizes (stateSizeConfigurations library (sizes.map some)) ↔
        SettledSizes library sizes) := by
  obtain ⟨enough, configurations, ends, sound, complete⟩ := tumbling_windows_iff downward wf positive
  obtain ⟨sound', complete'⟩ := state_sizes_iff downward wfSizes
  exact ⟨⟨enough, configurations, ends, sound, complete.trans (rejoins_iff downward wf positive)⟩,
    sound', complete'.trans (rejoinsSizes_iff downward wfSizes)⟩

/-- The state of the entropy readout and the rarer distinct count, at the readout's own heap. -/
noncomputable def readoutHeap : SketchParams := .univMon 256 5 1024 19 (some (1 / 4))

theorem readoutHeap_wellFormed : Estimators.WellFormed readoutHeap := by
  rintro δ ⟨⟩
  norm_num

theorem readoutHeap_shared : sizeForAllReaders anyShape
    [.univMon 256 5 1024 16 none, .univMon 23 1 1 19 (some (1 / 4))] = some readoutHeap := by
  have joined : univmonGrowth.join (256, level none) (23, level (some (1 / 4))) =
      (256, level (some (1 / 4))) := Growth.join_of_le le_top
  have heap : sharedHeap 256 none 23 (some (1 / 4)) = 256 := by
    have sized : (sharedHeap 256 none 23 (some (1 / 4)), level (minRecorded none (some (1 / 4)))) = _ :=
      sharedHeap_eq (by rintro δ ⟨⟩) (by rintro δ ⟨⟩; norm_num)
    exact congrArg Prod.fst (sized.trans joined)
  exact pairSize_eq_some.mpr ⟨by rw [shareTwo, heap]; rfl, rfl⟩

theorem readoutHeap_serves : ∀ x ∈ mixedReaders, pairSize anyShape readoutHeap x = some readoutHeap := by
  have quarter : level (some (1 / 4)) ≤ level (some (1 / 2)) := WithTop.coe_le_coe.mpr (by norm_num)
  have serves : ∀ x ∈ mixedReaders, x.family = .univMon →
      univmonGrowth.join readoutHeap.size x.size = readoutHeap.size → x.shape ≤ (5, 1024, 19) →
        pairSize anyShape readoutHeap x = some readoutHeap := fun x inside family joined shape =>
    (pairSize_eq_left_iff readoutHeap_wellFormed (mixedReaders_wellFormed x inside)).mpr
      ⟨family, joined, shape, rfl⟩
  rw [mixedReaders] at serves ⊢
  simp only [List.forall_mem_cons] at serves ⊢
  refine ⟨serves.1 rfl ?_ (by decide), serves.2.1 rfl ?_ (by decide), serves.2.2.1 rfl ?_ (by decide),
    List.forall_mem_nil _⟩
  · exact Growth.join_eq_left_iff.mpr ⟨le_top, le_refl 256⟩
  · exact Growth.join_eq_left_iff.mpr ⟨quarter, distinctGrow_few⟩
  · refine Growth.join_eq_left_iff.mpr ⟨le_refl _, ?_⟩
    exact (univmonGrowth.grow_self _ _).le.trans (by decide : 23 ≤ 256)

theorem readoutHeap_ne : sizeForAllReaders anyShape mixedReaders ≠ some readoutHeap := by
  intro sized
  obtain ⟨shared, known, grown⟩ := mixedReaders_grown
  obtain rfl := Option.some.inj (known.symm.trans sized)
  exact absurd grown (lt_irrefl 256)

noncomputable def windowReaders : List (TumblingWindowRequirement Unit) :=
  mixedReaders.map fun params => ⟨1000, 5000, .sketch params .perSubpopulationInstance⟩

theorem windowReaders_valid : (∀ reader ∈ windowReaders, reader.family.WellFormed) ∧
    ∀ reader ∈ windowReaders, 0 < reader.tumblingWindowWidthMs ∧ 0 < reader.windowMs := by
  constructor
  · intro reader inside
    obtain ⟨params, member, rfl⟩ := List.mem_map.mp inside
    exact mixedReaders_wellFormed params member
  · intro reader inside
    obtain ⟨params, member, rfl⟩ := List.mem_map.mp inside
    exact ⟨by norm_num, by norm_num⟩

theorem anyShape_downward : anyShape.Downward := by
  intro rows cols layers rows' cols' layers' few _ _ built
  simp only [Library.hashIndependent, anyShape, Bool.and_true] at built ⊢
  exact decide_eq_true (few.trans (of_decide_eq_true built))

/-- Together with the other distinct count the readout's heap grows, so the two have no configuration. -/
theorem shared_heap_missed :
    (∃ enough configurations, (∀ fuel ≥ enough,
        tumblingWindowConfigurations anyShape fuel windowReaders = some configurations) ∧
      ¬Complete anyShape windowReaders configurations) ∧
    ¬CompleteSizes anyShape mixedReaders (stateSizeConfigurations anyShape (mixedReaders.map some)) := by
  classical
  let group : List SketchParams := [.univMon 256 5 1024 16 none, .univMon 23 1 1 19 (some (1 / 4))]
  have pair : group.Sublist mixedReaders := ((List.Sublist.refl _).cons _).cons_cons _
  let reader (params : SketchParams) : TumblingWindowRequirement Unit :=
    ⟨1000, 5000, .sketch params .perSubpopulationInstance⟩
  have divides : ∀ params, (reader params).Divides 1000 := fun _ => ⟨dvd_refl 1000, ⟨5, rfl⟩⟩
  constructor
  · obtain ⟨enough, configurations, ends, _, iff⟩ := tumbling_windows_iff
      anyShape_downward windowReaders_valid.1 windowReaders_valid.2
    refine ⟨enough, configurations, ends, fun complete => ?_⟩
    have settled := iff.mp complete (group.map reader) 1000 (.sketch readoutHeap .perSubpopulationInstance)
      5000 ⟨pair.map _, by simp, by norm_num, ?_, ?_⟩ rfl
    · have all : windowReaders.filter ((⟨1000, 5000, .sketch readoutHeap .perSubpopulationInstance⟩ :
          TumblingWindowConfiguration Unit).Serves anyShape) = windowReaders := by
        refine List.filter_eq_self.mpr fun reader inside => decide_eq_true ?_
        obtain ⟨params, member, rfl⟩ := List.mem_map.mp inside
        exact ⟨by norm_num, divides params, by decide, le_refl 5000,
          sharedSize_sketch.mpr ⟨readoutHeap, rfl, readoutHeap_serves params member⟩⟩
      have families : windowReaders.map (·.family) =
          mixedReaders.map (.sketch · .perSubpopulationInstance) := rfl
      rw [all, families, sharedSizeOf_sketches, Option.map_eq_some_iff] at settled
      obtain ⟨_, sized, ⟨⟩⟩ := settled
      exact readoutHeap_ne sized
    · exact List.forall_mem_map.mpr fun params _ => divides params
    · have families : (group.map reader).map (·.family) =
          group.map (.sketch · .perSubpopulationInstance) := rfl
      rw [families, sharedSizeOf_sketches, readoutHeap_shared, Option.map_some]
  · intro complete
    obtain ⟨_, ⟨⟩, _, whole⟩ := mem_stateSizeConfigurations.mp
      (complete _ readoutHeap pair readoutHeap_shared).1
    rw [servedBy_eq_self readoutHeap_serves] at whole
    exact readoutHeap_ne whole

/-- The readers over windows of four and of five seconds, and one of another family. -/
noncomputable def pairedWindows : List (TumblingWindowRequirement Unit) :=
  ⟨1000, 5000, .other ()⟩ ::
    (pairedReaders.map fun params => ⟨1000, 5000, .sketch params .perSubpopulationInstance⟩) ++
      pairedReaders.map fun params => ⟨2000, 4000, .sketch params .perSubpopulationInstance⟩

theorem mem_pairedWindows {reader : TumblingWindowRequirement Unit} (inside : reader ∈ pairedWindows) :
    (0 < reader.tumblingWindowWidthMs ∧ 0 < reader.windowMs) ∧ (reader.family = .other () ∨
      ∃ params ∈ pairedReaders, reader.family = .sketch params .perSubpopulationInstance) := by
  simp only [pairedWindows, List.mem_append, List.mem_cons, List.mem_map] at inside
  rcases inside with (rfl | ⟨params, member, rfl⟩) | ⟨params, member, rfl⟩
  · exact ⟨by decide, .inl rfl⟩
  · exact ⟨by simp, .inr ⟨params, member, rfl⟩⟩
  · exact ⟨by simp, .inr ⟨params, member, rfl⟩⟩

theorem pairedReaders_settle {group readers : List SketchParams} (inside : ∀ x ∈ group, x ∈ readers)
    (paired : ∀ x ∈ readers, x ∈ pairedReaders) : Settles anyShape group readers := by
  refine settles_of_twoLevels inside fun family => Growth.twoLevels_of (List.forall_mem_map.mpr ?_)
    (p := ⊤) (q := level (some (1 / 4)))
  exact fun x member => pairedReaders_levels x (paired x (List.mem_of_mem_filter member))

theorem shared_configurations_paired :
    (∃ enough configurations, (∀ fuel ≥ enough,
        tumblingWindowConfigurations anyShape fuel pairedWindows = some configurations) ∧
      Sound anyShape pairedWindows configurations ∧ Complete anyShape pairedWindows configurations) ∧
    SoundSizes anyShape pairedReaders (stateSizeConfigurations anyShape (pairedReaders.map some)) ∧
      CompleteSizes anyShape pairedReaders (stateSizeConfigurations anyShape (pairedReaders.map some)) := by
  have wf : ∀ reader ∈ pairedWindows, reader.family.WellFormed := by
    intro reader inside
    rcases (mem_pairedWindows inside).2 with family | ⟨params, member, family⟩
    · rw [family]
      trivial
    · rw [family]
      exact pairedReaders_wellFormed params member
  obtain ⟨⟨enough, configurations, ends, sound, complete⟩, sound', complete'⟩ :=
    shared_configurations_iff anyShape_downward wf (fun reader inside => (mem_pairedWindows inside).1)
      pairedReaders_wellFormed
  refine ⟨⟨enough, configurations, ends, sound, complete.mpr ?_⟩, sound', complete'.mpr ?_⟩
  · intro group width longest grouping params sublist divides windows families
    refine pairedReaders_settle (mem_eligibleSizes_of_group sublist divides windows families) ?_
    intro x member
    obtain ⟨reader, here, _, _, family⟩ := mem_eligibleSizes.mp member
    rcases (mem_pairedWindows here).2 with other | ⟨params, member, same⟩
    · cases family.symm.trans other
    · obtain ⟨rfl, _⟩ := FieldDataType.sketch.inj (family.symm.trans same)
      exact member
  · exact fun group _ sublist => pairedReaders_settle (fun x here => sublist.subset here) fun x here => here

end AsapPlanner.Pass2
