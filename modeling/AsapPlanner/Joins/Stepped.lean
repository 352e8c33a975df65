import Mathlib.Data.Finset.Max
import Mathlib.Data.List.Induction
import Mathlib.Order.MinMax

/-!
Joins of sizes that each hold at a level of their own: before two are joined, the one at the higher
level grows to the lower. Growing in steps rounds up at each of them, so the order of the joins can
show. This file says exactly when it does not.
-/

namespace AsapPlanner.Joins

section
variable {α P : Type} [LinearOrder α] [LinearOrder P]

/-- Growing a size from one level to a lower one. -/
structure Growth (α P : Type) [LinearOrder α] [LinearOrder P] where
  grow : P → P → α → α
  grow_self : ∀ p a, grow p p a = a
  grow_mono : ∀ p q, Monotone (grow p q)
  /-- Stopping on the way never ends smaller. -/
  grow_stepped : ∀ {p q r} a, r ≤ q → q ≤ p → grow p r a ≤ grow q r (grow p q a)

/-- A growth that leaves every size as it is. -/
def Growth.still : Growth α P where
  grow _ _ a := a
  grow_self _ _ := rfl
  grow_mono _ _ := monotone_id
  grow_stepped a _ _ := le_refl a

namespace Growth

structure Lowest (members : List (α × P)) (level : P) : Prop where
  attained : ∃ x ∈ members, x.2 = level
  least : ∀ x ∈ members, level ≤ x.2

variable (growth : Growth α P)

/-- The larger of two sizes, each grown to the lower level. -/
def join (x y : α × P) : α × P :=
  (max (growth.grow x.2 (min x.2 y.2) x.1) (growth.grow y.2 (min x.2 y.2) y.1), min x.2 y.2)

/-- A size grown through each level lower than its own. -/
def carry (x : α × P) (levels : List P) : α × P :=
  levels.foldl (fun y level => (growth.grow y.2 (min y.2 level) y.1, min y.2 level)) x

/-- No member, carried to the lowest level through others', ends larger than every member grown there
at once. -/
def Steady (members : List (α × P)) : Prop :=
  ∀ bottom, Lowest members bottom → ∀ x ∈ members, ∀ levels : List P,
    (∀ level ∈ levels, ∃ y ∈ members, y.2 = level) →
      ∃ y ∈ members, (growth.carry x (levels ++ [bottom])).1 ≤ growth.grow y.2 bottom y.1

/-- The size one of `members` ends with where they are joined in their order: it grows at once to the lowest
level of those before it, then through the levels of those after it. -/
def Ends (members : List (α × P)) (size : α) : Prop :=
  ∃ before x after, members = before ++ x :: after ∧
    size = (growth.carry x ((before.map Prod.snd).min?.toList ++ after.map Prod.snd)).1

/-- Of any three members two are at one level. -/
def TwoLevels (members : List (α × P)) : Prop :=
  ∀ x ∈ members, ∀ y ∈ members, ∀ z ∈ members, x.2 = y.2 ∨ y.2 = z.2 ∨ x.2 = z.2

/-- What joins of `members`, each used at least once and in any bracketing, come to. -/
inductive Made : List (α × P) → α × P → Prop
  | single (x) : Made [x] x
  | join {members members' x y} : Made members x → Made members' y →
      Made (members ++ members') (growth.join x y)

variable {growth} {members members' : List (α × P)} {x y : α × P} {level bottom : P}

omit [LinearOrder α] in
theorem Lowest.eq {level' : P} (lowest : Lowest members level) (lowest' : Lowest members level') :
    level = level' := by
  obtain ⟨x, inside, rfl⟩ := lowest.attained
  obtain ⟨y, inside', rfl⟩ := lowest'.attained
  exact le_antisymm (lowest.least y inside') (lowest'.least x inside)

omit [LinearOrder α] in
theorem Lowest.append {level' : P} (lowest : Lowest members level) (lowest' : Lowest members' level') :
    Lowest (members ++ members') (min level level') := by
  constructor
  · rcases min_choice level level' with first | second
    · obtain ⟨x, inside, known⟩ := lowest.attained
      exact ⟨x, List.mem_append_left _ inside, known.trans first.symm⟩
    · obtain ⟨x, inside, known⟩ := lowest'.attained
      exact ⟨x, List.mem_append_right _ inside, known.trans second.symm⟩
  · intro x inside
    rcases List.mem_append.mp inside with inside | inside
    · exact (min_le_left _ _).trans (lowest.least x inside)
    · exact (min_le_right _ _).trans (lowest'.least x inside)

omit [LinearOrder α] in
theorem Lowest.of_same (lowest : Lowest members level) (same : ∀ x, x ∈ members ↔ x ∈ members') :
    Lowest members' level := by
  obtain ⟨x, inside, known⟩ := lowest.attained
  exact ⟨⟨x, (same x).mp inside, known⟩, fun y inside => lowest.least y ((same y).mpr inside)⟩

/-! ### Carrying -/

theorem carry_cons (x : α × P) (level : P) (levels : List P) : growth.carry x (level :: levels) =
    growth.carry (growth.grow x.2 (min x.2 level) x.1, min x.2 level) levels := rfl

theorem carry_concat (x : α × P) (levels : List P) (level : P) : growth.carry x (levels ++ [level]) =
    (growth.grow (growth.carry x levels).2 (min (growth.carry x levels).2 level) (growth.carry x levels).1,
      min (growth.carry x levels).2 level) := by
  rw [carry, carry, List.foldl_concat]

theorem carry_snd (x : α × P) (levels : List P) : (growth.carry x levels).2 = levels.foldl min x.2 := by
  induction levels generalizing x with
  | nil => rfl
  | cons level levels ih => rw [carry_cons, ih, List.foldl_cons]

theorem carry_snd_le (x : α × P) (levels : List P) :
    (growth.carry x levels).2 ≤ x.2 ∧ ∀ level ∈ levels, (growth.carry x levels).2 ≤ level := by
  induction levels generalizing x with
  | nil => exact ⟨le_refl _, List.forall_mem_nil _⟩
  | cons level levels ih =>
    obtain ⟨start, later⟩ := ih (growth.grow x.2 (min x.2 level) x.1, min x.2 level)
    exact ⟨start.trans (min_le_left _ _), List.forall_mem_cons.mpr ⟨start.trans (min_le_right _ _), later⟩⟩

theorem carry_append (x : α × P) (levels more : List P) :
    growth.carry x (levels ++ more) = growth.carry (growth.carry x levels) more :=
  List.foldl_append

theorem carry_max (a b : α) (p : P) (levels : List P) : (growth.carry (max a b, p) levels).1 =
    max (growth.carry (a, p) levels).1 (growth.carry (b, p) levels).1 := by
  induction levels generalizing a b p with
  | nil => rfl
  | cons level levels ih => rw [carry_cons, carry_cons, carry_cons, (growth.grow_mono _ _).map_max, ih]

theorem carry_join (x y : α × P) (levels : List P) : (growth.carry (growth.join x y) levels).1 =
    max (growth.carry x (y.2 :: levels)).1 (growth.carry y (x.2 :: levels)).1 := by
  rw [join, carry_max, carry_cons, carry_cons, min_comm y.2 x.2]

variable (growth) in
theorem carry_reaches {levels : List P} (below : bottom ≤ x.2) (least : ∀ level ∈ levels, bottom ≤ level) :
    bottom ≤ (growth.carry x levels).2 ∧ growth.grow x.2 bottom x.1 ≤
      growth.grow (growth.carry x levels).2 bottom (growth.carry x levels).1 := by
  induction levels generalizing x with
  | nil => exact ⟨below, le_refl _⟩
  | cons level levels ih =>
    have next : bottom ≤ min x.2 level := le_min below (least level List.mem_cons_self)
    obtain ⟨above, reaches⟩ := ih (x := (growth.grow x.2 (min x.2 level) x.1, min x.2 level)) next
      (fun later inside => least later (List.mem_cons_of_mem _ inside))
    exact ⟨above, (growth.grow_stepped x.1 next (min_le_left _ _)).trans reaches⟩

theorem carry_lowest_le {levels more : List P} (below : bottom ≤ x.2)
    (least : ∀ level ∈ levels, bottom ≤ level) (least' : ∀ level ∈ more, bottom ≤ level)
    (inside : bottom ∈ more) :
    (growth.carry x (levels ++ [bottom])).1 ≤ (growth.carry x (levels ++ more)).1 := by
  have first := carry_reaches growth below least
  have second := carry_reaches growth first.1 least'
  have lowest : (growth.carry (growth.carry x levels) more).2 = bottom := by
    exact le_antisymm ((carry_snd_le _ more).2 bottom inside) second.1
  rw [carry_concat, min_eq_right first.1, carry_append]
  rw [lowest, growth.grow_self] at second
  exact second.2

/-! ### Joins -/

theorem join_of_le (below : y.2 ≤ x.2) :
    growth.join x y = (max (growth.grow x.2 y.2 x.1) y.1, y.2) := by
  rw [join, min_eq_right below, growth.grow_self]

theorem join_of_ge (below : x.2 ≤ y.2) :
    growth.join x y = (max x.1 (growth.grow y.2 x.2 y.1), x.2) := by
  rw [join, min_eq_left below, growth.grow_self]

theorem join_comm (x y : α × P) : growth.join x y = growth.join y x := by
  rw [join, join, min_comm, max_comm]

theorem join_self (x : α × P) : growth.join x x = x := by
  rw [join_of_le (le_refl x.2), growth.grow_self, max_self]

theorem join_eq_left_iff : growth.join x y = x ↔ x.2 ≤ y.2 ∧ growth.grow y.2 x.2 y.1 ≤ x.1 := by
  constructor
  · intro same
    have level : min x.2 y.2 = x.2 := congrArg Prod.snd same
    have below : x.2 ≤ y.2 := min_eq_left_iff.mp level
    rw [join_of_ge below] at same
    exact ⟨below, max_eq_left_iff.mp (congrArg Prod.fst same)⟩
  · rintro ⟨below, small⟩
    rw [join_of_ge below, max_eq_left small]

theorem join_join_eq_left {z : α × P} (absorbs : growth.join x z = x) :
    growth.join (growth.join x y) z = growth.join x y := by
  obtain ⟨below, small⟩ := join_eq_left_iff.mp absorbs
  have level : (growth.join x y).2 ≤ x.2 := min_le_left _ _
  refine join_eq_left_iff.mpr ⟨level.trans below, ?_⟩
  calc growth.grow z.2 (growth.join x y).2 z.1
      ≤ growth.grow x.2 (growth.join x y).2 (growth.grow z.2 x.2 z.1) :=
        growth.grow_stepped z.1 level below
    _ ≤ growth.grow x.2 (growth.join x y).2 x.1 := growth.grow_mono _ _ small
    _ ≤ (growth.join x y).1 := le_max_left _ _

theorem Made.lowest (made : growth.Made members x) : Lowest members x.2 := by
  induction made with
  | single x => exact ⟨⟨x, List.mem_singleton_self x, rfl⟩, fun y inside =>
      (congrArg Prod.snd (List.mem_singleton.mp inside)).ge⟩
  | join _ _ ih ih' => exact ih.append ih'

theorem Made.reaches (made : growth.Made members x) (below : bottom ≤ x.2) (inside : y ∈ members) :
    growth.grow y.2 bottom y.1 ≤ growth.grow x.2 bottom x.1 := by
  induction made with
  | single x =>
    obtain rfl := List.mem_singleton.mp inside
    exact le_refl _
  | @join members members' x x' _ _ ih ih' =>
    have first := ih (below.trans (min_le_left _ _))
    have second := ih' (below.trans (min_le_right _ _))
    have step : ∀ z : α × P, min x.2 x'.2 ≤ z.2 → growth.grow z.2 (min x.2 x'.2) z.1 ≤
        (growth.join x x').1 → growth.grow z.2 bottom z.1 ≤
          growth.grow (min x.2 x'.2) bottom (growth.join x x').1 := by
      intro z above part
      exact (growth.grow_stepped z.1 below above).trans (growth.grow_mono _ _ part)
    rcases List.mem_append.mp inside with inside | inside
    · exact (first inside).trans (step x (min_le_left _ _) (le_max_left _ _))
    · exact (second inside).trans (step x' (min_le_right _ _) (le_max_right _ _))

theorem Made.bounded (allowed : P → Prop) (bound : α) (last : List P) (made : growth.Made members x)
    (inside : ∀ y ∈ members, allowed y.2)
    (bounded : ∀ y ∈ members, ∀ levels : List P, (∀ level ∈ levels, allowed level) →
      (growth.carry y (levels ++ last)).1 ≤ bound) : ∀ levels : List P,
    (∀ level ∈ levels, allowed level) → (growth.carry x (levels ++ last)).1 ≤ bound := by
  induction made with
  | single x => exact bounded x (List.mem_singleton_self x)
  | @join members members' x x' made made' ih ih' =>
    have left : allowed x.2 := by
      obtain ⟨y, member, known⟩ := made.lowest.attained
      exact known ▸ inside y (List.mem_append_left _ member)
    have right : allowed x'.2 := by
      obtain ⟨y, member, known⟩ := made'.lowest.attained
      exact known ▸ inside y (List.mem_append_right _ member)
    intro levels through
    rw [carry_join]
    refine max_le ?_ ?_
    · exact ih (fun y member => inside y (List.mem_append_left _ member))
        (fun y member => bounded y (List.mem_append_left _ member)) (x'.2 :: levels)
        (List.forall_mem_cons.mpr ⟨right, through⟩)
    · exact ih' (fun y member => inside y (List.mem_append_right _ member))
        (fun y member => bounded y (List.mem_append_right _ member)) (x.2 :: levels)
        (List.forall_mem_cons.mpr ⟨left, through⟩)

theorem made_foldl (made : growth.Made members x) (rest : List (α × P)) :
    growth.Made (members ++ rest) (rest.foldl growth.join x) := by
  induction rest generalizing members x with
  | nil => rwa [List.append_nil]
  | cons y rest ih =>
    have step := ih (made.join (.single y))
    rwa [List.append_assoc] at step

theorem foldl_join_snd (x : α × P) (rest : List (α × P)) :
    (rest.foldl growth.join x).2 = (rest.map Prod.snd).foldl min x.2 := by
  induction rest generalizing x with
  | nil => rfl
  | cons y rest ih => rw [List.foldl_cons, ih, List.map_cons, List.foldl_cons, join]

theorem carry_lowest (growth : Growth α P) (before : List (α × P)) (y : α × P) (after : List (α × P)) :
    Lowest (before ++ y :: after)
      (growth.carry y ((before.map Prod.snd).min?.toList ++ after.map Prod.snd)).2 := by
  rw [carry_snd]
  have lowest : (y.2 :: ((before.map Prod.snd).min?.toList ++ after.map Prod.snd)).min? =
      some (((before.map Prod.snd).min?.toList ++ after.map Prod.snd).foldl min y.2) := List.min?_cons'
  obtain ⟨attained, least⟩ := List.min?_eq_some_iff.mp lowest
  rw [List.forall_mem_cons, List.forall_mem_append] at least
  constructor
  · rw [List.mem_cons, List.mem_append, Option.mem_toList] at attained
    rcases attained with own | earlier | later
    · exact ⟨y, List.mem_append_right _ List.mem_cons_self, own.symm⟩
    · obtain ⟨z, inside, known⟩ := List.mem_map.mp (List.min?_mem earlier)
      exact ⟨z, List.mem_append_left _ inside, known⟩
    · obtain ⟨z, inside, known⟩ := List.mem_map.mp later
      exact ⟨z, List.mem_append_right _ (List.mem_cons_of_mem y inside), known⟩
  · refine List.forall_mem_append.mpr ⟨fun z inside => ?_, List.forall_mem_cons.mpr ⟨least.1, fun z inside => ?_⟩⟩
    · have earlier : (before.map Prod.snd).min?.isSome := List.isSome_min?_of_mem (List.mem_map_of_mem inside)
      obtain ⟨lowest, first⟩ := Option.isSome_iff_exists.mp earlier
      have below := (List.min?_eq_some_iff.mp first).2 z.2 (List.mem_map_of_mem inside)
      exact (least.2.1 lowest (Option.mem_toList.mpr first)).trans below
    · exact least.2.2 z.2 (List.mem_map_of_mem inside)

theorem foldl_join_isGreatest (growth : Growth α P) (x : α × P) (rest : List (α × P)) :
    IsGreatest {size | growth.Ends (x :: rest) size} (rest.foldl growth.join x).1 := by
  induction rest using List.reverseRecOn with
  | nil =>
    constructor
    · exact ⟨[], x, [], rfl, rfl⟩
    · rintro size ⟨before, y, after, whole, rfl⟩
      rw [eq_comm, List.append_eq_singleton_iff] at whole
      rcases whole with ⟨rfl, same⟩ | ⟨_, none⟩
      · obtain ⟨rfl, rfl⟩ := List.cons_eq_cons.mp same
        exact le_refl _
      · cases none
  | append_singleton rest last ih =>
    obtain ⟨⟨front, first, back, split, attained⟩, above⟩ := ih
    have joined : Lowest (x :: rest) (rest.foldl growth.join x).2 := (made_foldl (.single x) rest).lowest
    -- What a member ends with before the last one joins, it grows from then.
    have grown : ∀ before y after, x :: rest = before ++ y :: after →
        (growth.carry y ((before.map Prod.snd).min?.toList ++ (after ++ [last]).map Prod.snd)).1 =
          growth.grow (rest.foldl growth.join x).2 (min (rest.foldl growth.join x).2 last.2)
            (growth.carry y ((before.map Prod.snd).min?.toList ++ after.map Prod.snd)).1 := by
      intro before y after whole
      have level := (whole ▸ carry_lowest growth before y after).eq joined
      rw [List.map_append, List.map_singleton, ← List.append_assoc, carry_concat, level]
    have new : (growth.carry last (((x :: rest).map Prod.snd).min?.toList ++ [])).1 =
        growth.grow last.2 (min (rest.foldl growth.join x).2 last.2) last.1 := by
      have lowest : ((x :: rest).map Prod.snd).min? = some (rest.foldl growth.join x).2 := by
        rw [foldl_join_snd, List.map_cons, List.min?_cons']
      rw [lowest, List.append_nil, min_comm]
      rfl
    rw [List.foldl_concat, join]
    constructor
    · rcases max_choice (growth.grow (rest.foldl growth.join x).2 (min (rest.foldl growth.join x).2 last.2)
        (rest.foldl growth.join x).1) (growth.grow last.2 (min (rest.foldl growth.join x).2 last.2) last.1)
        with old | latest
      · refine ⟨front, first, back ++ [last], ?_, ?_⟩
        · rw [← List.cons_append, split, List.append_assoc, List.cons_append]
        · rw [old, attained, grown front first back split]
      · exact ⟨x :: rest, last, [], rfl, latest.trans new.symm⟩
    · rintro size ⟨before, y, after, whole, rfl⟩
      rw [← List.cons_append] at whole
      rcases List.eq_nil_or_concat' after with rfl | ⟨after, other, rfl⟩
      · obtain ⟨rfl, same⟩ := List.append_inj' whole rfl
        obtain rfl := List.singleton_inj.mp same
        exact new.le.trans (le_max_right _ _)
      · rw [← List.cons_append, ← List.append_assoc] at whole
        obtain ⟨earlier, same⟩ := List.append_inj' whole rfl
        obtain rfl := List.singleton_inj.mp same
        rw [grown before y after earlier]
        exact le_max_of_le_left (growth.grow_mono _ _ (above ⟨before, y, after, earlier, rfl⟩))

theorem carry_at_once {levels : List P} (below : bottom ≤ x.2)
    (few : ∀ level ∈ levels, x.2 ≤ level ∨ level = bottom) :
    (growth.carry x levels).1 = growth.grow x.2 (growth.carry x levels).2 x.1 := by
  induction levels generalizing x with
  | nil => exact (growth.grow_self _ _).symm
  | cons level levels ih =>
    obtain ⟨here, later⟩ := List.forall_mem_cons.mp few
    rw [carry_cons]
    rcases here with above | rfl
    · rw [min_eq_left above, growth.grow_self]
      exact ih below later
    · rw [min_eq_right below]
      have stays : (growth.carry (growth.grow x.2 level x.1, level) levels).2 = level := by
        refine le_antisymm (carry_snd_le _ levels).1 (carry_reaches growth (le_refl level) ?_).1
        exact fun other inside => (later other inside).elim below.trans Eq.ge
      rw [ih (le_refl level) (fun other inside => (later other inside).imp_left below.trans), stays,
        growth.grow_self]

omit [LinearOrder α] [LinearOrder P] in
theorem twoLevels_of {p q : P} (either : ∀ x ∈ members, x.2 = p ∨ x.2 = q) : TwoLevels members := by
  intro x here y here' z here''
  have first := either x here
  have second := either y here'
  have third := either z here''
  grind

omit [LinearOrder α] [LinearOrder P] in
theorem TwoLevels.subset (two : TwoLevels members) (inside : ∀ x ∈ members', x ∈ members) :
    TwoLevels members' :=
  fun x here y here' z here'' => two x (inside x here) y (inside y here') z (inside z here'')

theorem TwoLevels.at_once (two : TwoLevels members) (lowest : Lowest members bottom) (inside : x ∈ members)
    {levels : List P} (through : ∀ level ∈ levels, ∃ y ∈ members, y.2 = level) :
    (growth.carry x levels).1 = growth.grow x.2 (growth.carry x levels).2 x.1 := by
  refine carry_at_once (lowest.least x inside) fun level here => ?_
  obtain ⟨y, member, rfl⟩ := through level here
  obtain ⟨z, member', rfl⟩ := lowest.attained
  rcases two x inside y member z member' with same | same | same
  · exact .inl same.le
  · exact .inr same
  · exact .inl (same.trans_le (lowest.least y member))

theorem TwoLevels.steady (two : TwoLevels members) : growth.Steady members := by
  intro bottom lowest x inside levels through
  refine ⟨x, inside, ?_⟩
  have least : bottom ≤ (growth.carry x levels).2 :=
    (carry_reaches growth (lowest.least x inside) fun level here => by
      obtain ⟨y, member, rfl⟩ := through level here
      exact lowest.least y member).1
  have reached : (growth.carry x (levels ++ [bottom])).2 = bottom := by
    rw [carry_concat, min_eq_right least]
  have once : (growth.carry x (levels ++ [bottom])).1 =
      growth.grow x.2 (growth.carry x (levels ++ [bottom])).2 x.1 := two.at_once lowest inside
    (List.forall_mem_append.mpr ⟨through, List.forall_mem_singleton.mpr lowest.attained⟩)
  rw [once, reached]

theorem TwoLevels.ends (two : TwoLevels members) (lowest : Lowest members bottom) {size : α} :
    growth.Ends members size ↔ ∃ x ∈ members, size = growth.grow x.2 bottom x.1 := by
  have ends : ∀ before x after, members = before ++ x :: after →
      (growth.carry x ((before.map Prod.snd).min?.toList ++ after.map Prod.snd)).1 =
        growth.grow x.2 bottom x.1 := by
    intro before x after whole
    have inside : x ∈ members := whole ▸ List.mem_append_right _ List.mem_cons_self
    have level := (whole ▸ carry_lowest growth before x after).eq lowest
    rw [two.at_once lowest inside, level]
    rintro other here
    rcases List.mem_append.mp here with earlier | later
    · obtain ⟨y, member, known⟩ := List.mem_map.mp (List.min?_mem (Option.mem_toList.mp earlier))
      exact ⟨y, whole ▸ List.mem_append_left _ member, known⟩
    · obtain ⟨y, member, known⟩ := List.mem_map.mp later
      exact ⟨y, whole ▸ List.mem_append_right _ (List.mem_cons_of_mem x member), known⟩
  constructor
  · rintro ⟨before, x, after, whole, rfl⟩
    exact ⟨x, whole ▸ List.mem_append_right _ List.mem_cons_self, ends before x after whole⟩
  · rintro ⟨x, inside, rfl⟩
    obtain ⟨before, after, whole⟩ := List.append_of_mem inside
    exact ⟨before, x, after, whole, (ends before x after whole).symm⟩

theorem carry_le_foldl (growth : Growth α P) (x : α × P) (rest : List (α × P)) :
    (growth.carry x (rest.map Prod.snd)).1 ≤ (rest.foldl growth.join x).1 := by
  induction rest using List.reverseRecOn with
  | nil => exact le_refl _
  | append_singleton rest y ih =>
    have level : (growth.carry x (rest.map Prod.snd)).2 = (rest.foldl growth.join x).2 := by
      rw [carry_snd, foldl_join_snd]
    rw [List.map_append, List.map_singleton, carry_concat, List.foldl_concat, join, level]
    exact le_max_of_le_left (growth.grow_mono _ _ ih)

variable (growth) in
theorem foldl_join_bottom {rest : List (α × P)} (level : x.2 = bottom) (least : ∀ y ∈ rest, bottom ≤ y.2) :
    (rest.foldl growth.join x).1 = x.1 ∨
      ∃ y ∈ rest, (rest.foldl growth.join x).1 = growth.grow y.2 bottom y.1 := by
  induction rest generalizing x with
  | nil => exact .inl rfl
  | cons y rest ih =>
    obtain ⟨here, later⟩ := List.forall_mem_cons.mp least
    have next : growth.join x y = (max x.1 (growth.grow y.2 bottom y.1), bottom) := by
      rw [join_of_ge (level.trans_le here), level]
    rw [List.foldl_cons, next]
    rcases ih (x := (max x.1 (growth.grow y.2 bottom y.1), bottom)) rfl later with same | ⟨z, inside, grown⟩
    · rw [same]
      rcases max_choice x.1 (growth.grow y.2 bottom y.1) with old | new
      · exact .inl old
      · exact .inr ⟨y, List.mem_cons_self, new⟩
    · exact .inr ⟨z, List.mem_cons_of_mem y inside, grown⟩

theorem Steady.isGreatest (steady : growth.Steady members) (made : growth.Made members' x)
    (same : ∀ y, y ∈ members' ↔ y ∈ members) :
    (∀ y ∈ members, growth.grow y.2 x.2 y.1 ≤ x.1) ∧ ∃ y ∈ members, x.1 ≤ growth.grow y.2 x.2 y.1 := by
  have lowest : Lowest members x.2 := made.lowest.of_same same
  refine ⟨fun y inside => ?_, ?_⟩
  · have reaches := made.reaches (le_refl x.2) ((same y).mpr inside)
    rwa [growth.grow_self] at reaches
  · obtain ⟨first, inside, _⟩ := lowest.attained
    obtain ⟨top, member, largest⟩ := members.toFinset.exists_max_image
      (fun y => growth.grow y.2 x.2 y.1) ⟨first, List.mem_toFinset.mpr inside⟩
    refine ⟨top, List.mem_toFinset.mp member, ?_⟩
    have bounded := made.bounded (fun level => ∃ y ∈ members, y.2 = level)
      (growth.grow top.2 x.2 top.1) [x.2]
      (fun y inside => ⟨y, (same y).mp inside, rfl⟩)
      (fun y inside levels through => by
        obtain ⟨z, member, le⟩ := steady x.2 lowest y ((same y).mp inside) levels through
        exact le.trans (largest z (List.mem_toFinset.mpr member)))
      [] (List.forall_mem_nil _)
    rwa [List.nil_append, carry_cons, min_self, growth.grow_self] at bounded

theorem Steady.made_eq {left right : List (α × P)} (steady : growth.Steady members)
    (made : growth.Made left x) (made' : growth.Made right y) (same : ∀ z, z ∈ left ↔ z ∈ members)
    (same' : ∀ z, z ∈ right ↔ z ∈ members) : x = y := by
  have level : x.2 = y.2 := (made.lowest.of_same same).eq (made'.lowest.of_same same')
  obtain ⟨above, z, inside, le⟩ := steady.isGreatest made same
  obtain ⟨above', z', inside', le'⟩ := steady.isGreatest made' same'
  rw [level] at above le
  exact Prod.ext (le_antisymm (le.trans (above' z inside)) (le'.trans (above z' inside'))) level

/-- The members are steady exactly when folding them in any order, with any repetitions, comes to one
size. -/
theorem steady_iff {ι : Type} {items : List ι} {size : ι → α × P} :
    growth.Steady (items.map size) ↔ ∀ first rest first' rest',
      (∀ z, z ∈ first :: rest ↔ z ∈ items) → (∀ z, z ∈ first' :: rest' ↔ z ∈ items) →
        (rest.map size).foldl growth.join (size first) =
          (rest'.map size).foldl growth.join (size first') := by
  have sizes : ∀ some : List ι, (∀ z, z ∈ some ↔ z ∈ items) → ∀ x,
      x ∈ some.map size ↔ x ∈ items.map size := by
    intro some same x
    simp only [List.mem_map, same]
  constructor
  · intro steady first rest first' rest' same same'
    exact steady.made_eq (made_foldl (.single (size first)) _) (made_foldl (.single (size first')) _)
      (sizes (first :: rest) same) (sizes (first' :: rest') same')
  · intro agree bottom lowest x inside levels through
    obtain ⟨item, member, rfl⟩ := List.mem_map.mp inside
    obtain ⟨via, known, members⟩ : ∃ via : List ι, (via.map size).map Prod.snd = levels ∧
        ∀ y ∈ via, y ∈ items := by
      clear agree
      induction levels with
      | nil => exact ⟨[], rfl, List.forall_mem_nil _⟩
      | cons level levels ih =>
        obtain ⟨⟨y, inside, level⟩, later⟩ := List.forall_mem_cons.mp through
        obtain ⟨item, member, rfl⟩ := List.mem_map.mp inside
        obtain ⟨via, known, members⟩ := ih later
        exact ⟨item :: via, by rw [List.map_cons, List.map_cons, level, known],
          List.forall_mem_cons.mpr ⟨member, members⟩⟩
    obtain ⟨y, inside', level⟩ := lowest.attained
    obtain ⟨low, member', rfl⟩ := List.mem_map.mp inside'
    have covers : ∀ head ∈ items, ∀ front : List ι, (∀ y ∈ front, y ∈ items) →
        ∀ z, z ∈ head :: (front ++ items) ↔ z ∈ items := by
      intro head inside front fronts z
      rw [List.mem_cons, List.mem_append]
      constructor
      · rintro (rfl | here | here)
        · exact inside
        · exact fronts z here
        · exact here
      · exact fun here => .inr (.inr here)
    -- One order carries `item` through the levels first; the other starts at the lowest.
    have same := agree item (via ++ items) low items (covers item member via members)
      (covers low member' [] (List.forall_mem_nil _))
    have carried := carry_le_foldl growth (size item) ((via ++ items).map size)
    have reached : (growth.carry (size item) (levels ++ [bottom])).1 ≤
        (growth.carry (size item) (levels ++ (items.map size).map Prod.snd)).1 := by
      refine carry_lowest_le (lowest.least _ inside) (fun level here => ?_) ?_ ?_
      · obtain ⟨y, inside, same⟩ := through level here
        exact same ▸ lowest.least y inside
      · exact List.forall_mem_map.mpr lowest.least
      · exact level ▸ List.mem_map_of_mem inside'
    rw [same, List.map_append, List.map_append, known] at carried
    rcases foldl_join_bottom growth level lowest.least with first | ⟨y, inside, grown⟩
    · refine ⟨size low, inside', ?_⟩
      rw [level, growth.grow_self]
      exact reached.trans (carried.trans first.le)
    · exact ⟨y, inside, reached.trans (carried.trans grown.le)⟩

end Growth
end

end AsapPlanner.Joins
