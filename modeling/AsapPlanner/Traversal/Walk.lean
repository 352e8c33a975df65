import Mathlib.Data.List.Basic

/-!
Rebuilding a structure over new references. A walk lists the references a structure holds, in the
order a rebuild visits them, and says how to put others in their places.
-/

namespace AsapPlanner.Traversal

/-- The references of an `X` over `C` in visiting order, and the same `X` over others. -/
structure Walk (C : Type) (X : Type → Type) where
  refs : List C
  build : {D : Type} → [Inhabited D] → List D → X D

namespace Walk
variable {C D E : Type} {X Y Z V : Type → Type}

/-- Replace every reference by its image. -/
def image [Inhabited D] (walk : Walk C X) (f : C → D) : X D := walk.build (walk.refs.map f)

/-- Replace every reference by what a computation returns for it, run in visiting order. -/
def traverse [Inhabited D] {m : Type → Type} [Monad m] (walk : Walk C X) (f : C → m D) :
    m (X D) := do
  let images ← walk.refs.mapM f
  pure (walk.build images)

/-! ### Building walks -/

def const (value : {D : Type} → X D) : Walk C X where
  refs := []
  build _ := value

def one (ref : C) : Walk C (fun D => D) where
  refs := [ref]
  build images := images.headD default

def map (f : {D : Type} → X D → Y D) (walk : Walk C X) : Walk C Y where
  refs := walk.refs
  build images := f (walk.build images)

def map2 (f : {D : Type} → X D → Y D → Z D) (first : Walk C X) (second : Walk C Y) : Walk C Z where
  refs := first.refs ++ second.refs
  build images :=
    f (first.build (images.take first.refs.length)) (second.build (images.drop first.refs.length))

def map3 (f : {D : Type} → X D → Y D → Z D → V D) (first : Walk C X) (second : Walk C Y)
    (third : Walk C Z) : Walk C V where
  refs := first.refs ++ (second.refs ++ third.refs)
  build images :=
    let rest := images.drop first.refs.length
    f (first.build (images.take first.refs.length)) (second.build (rest.take second.refs.length))
      (third.build (rest.drop second.refs.length))

def list : List (Walk C X) → Walk C (fun D => List (X D))
  | [] => const []
  | walk :: rest => map2 List.cons walk (list rest)

def option : Option (Walk C X) → Walk C (fun D => Option (X D))
  | none => const none
  | some walk => map some walk

/-! ### References -/

section Refs

@[simp] theorem refs_const (value : {D : Type} → X D) : (const value : Walk C X).refs = [] := rfl

@[simp] theorem refs_one (ref : C) : (one ref).refs = [ref] := rfl

@[simp] theorem refs_map (g : {D : Type} → X D → Y D) (walk : Walk C X) :
    (map g walk).refs = walk.refs := rfl

@[simp] theorem refs_map2 (g : {D : Type} → X D → Y D → Z D) (first : Walk C X)
    (second : Walk C Y) : (map2 g first second).refs = first.refs ++ second.refs := rfl

@[simp] theorem refs_map3 (g : {D : Type} → X D → Y D → Z D → V D) (first : Walk C X)
    (second : Walk C Y) (third : Walk C Z) :
    (map3 g first second third).refs = first.refs ++ (second.refs ++ third.refs) := rfl

@[simp] theorem refs_list (walks : List (Walk C X)) :
    (list walks).refs = walks.flatMap (·.refs) := by
  induction walks with
  | nil => rfl
  | cons walk rest ih => rw [list, refs_map2, ih, List.flatMap_cons]

@[simp] theorem refs_option (walk : Option (Walk C X)) :
    (option walk).refs = walk.elim [] (·.refs) := by
  cases walk <;> rfl

end Refs

/-! ### Images -/

section Image
variable [Inhabited D] (f : C → D)

@[simp] theorem image_const (value : {D : Type} → X D) :
    (const value : Walk C X).image f = value := rfl

@[simp] theorem image_one (ref : C) : (one ref).image f = f ref := rfl

@[simp] theorem image_map (g : {D : Type} → X D → Y D) (walk : Walk C X) :
    (map g walk).image f = g (walk.image f) := rfl

@[simp] theorem image_map2 (g : {D : Type} → X D → Y D → Z D) (first : Walk C X)
    (second : Walk C Y) :
    (map2 g first second).image f = g (first.image f) (second.image f) := by
  simp [image, map2]

@[simp] theorem image_map3 (g : {D : Type} → X D → Y D → Z D → V D) (first : Walk C X)
    (second : Walk C Y) (third : Walk C Z) :
    (map3 g first second third).image f = g (first.image f) (second.image f) (third.image f) := by
  simp only [image, map3, List.map_append]
  rw [List.take_left' (List.length_map f), List.drop_left' (List.length_map f),
    List.take_left' (List.length_map f), List.drop_left' (List.length_map f)]

@[simp] theorem image_list (walks : List (Walk C X)) :
    (list walks).image f = walks.map (·.image f) := by
  induction walks with
  | nil => rfl
  | cons walk rest ih =>
    rw [list, image_map2, ih]
    rfl

@[simp] theorem image_option (walk : Option (Walk C X)) :
    (option walk).image f = walk.map (·.image f) := by
  cases walk <;> rfl

theorem image_congr {walk : Walk C X} {f g : C → D} (agree : ∀ ref ∈ walk.refs, f ref = g ref) :
    walk.image f = walk.image g := congrArg walk.build (List.map_congr_left agree)

theorem traverse_ok {ε : Type} {walk : Walk C X} {f : C → Except ε D} {g : C → D}
    (agree : ∀ ref ∈ walk.refs, f ref = .ok (g ref)) : walk.traverse f = .ok (walk.image g) := by
  have images : ∀ refs : List C, (∀ ref ∈ refs, f ref = .ok (g ref)) →
      refs.mapM f = .ok (refs.map g) := by
    intro refs agree
    induction refs with
    | nil => rfl
    | cons ref refs ih =>
      rw [List.mapM_cons, agree ref List.mem_cons_self,
        ih fun other member => agree other (List.mem_cons_of_mem _ member)]
      rfl
  unfold traverse
  rw [images _ agree]
  rfl

end Image

/-! ### What a walk builds holds -/

section Built
variable [Inhabited D]

/-- `refsOf` finds in what the walk builds exactly the references it was built from. -/
def Finds (walk : Walk C X) (refsOf : X D → List D) : Prop :=
  ∀ images : List D, images.length = walk.refs.length → ∀ d, d ∈ refsOf (walk.build images) ↔ d ∈ images

/-- `refsOf` lists in what the walk builds the references it was built from, in their order. -/
def Lists (walk : Walk C X) (refsOf : X D → List D) : Prop :=
  ∀ images : List D, images.length = walk.refs.length → refsOf (walk.build images) = images

theorem lists_const {value : {D : Type} → X D} {refsOf : X D → List D} (none : refsOf value = []) :
    (const value : Walk C X).Lists refsOf := by
  intro images same
  rw [List.eq_nil_of_length_eq_zero same]
  exact none

theorem lists_one {ref : C} {refsOf : D → List D} (single : ∀ d, refsOf d = [d]) :
    (one ref).Lists refsOf := by
  intro images same
  match images, same with
  | [only], _ => exact single only

variable {first : Walk C X} {second : Walk C Y} {third : Walk C Z}
  {refsOfX : X D → List D} {refsOfY : Y D → List D} {refsOfZ : Z D → List D} {refsOfV : V D → List D}

theorem Lists.map {g : {D : Type} → X D → Y D} (listed : first.Lists refsOfX)
    (agree : ∀ x, refsOfY (g x) = refsOfX x) : (Walk.map g first).Lists refsOfY :=
  fun images same => (agree _).trans (listed images same)

theorem length_take_drop {α : Type} {items : List α} {n m : Nat} (same : items.length = n + m) :
    (items.take n).length = n ∧ (items.drop n).length = m := by
  rw [List.length_take, List.length_drop, same]
  omega

theorem Lists.map2 {g : {D : Type} → X D → Y D → Z D} (listedX : first.Lists refsOfX)
    (listedY : second.Lists refsOfY) (agree : ∀ x y, refsOfZ (g x y) = refsOfX x ++ refsOfY y) :
    (Walk.map2 g first second).Lists refsOfZ := by
  intro images same
  obtain ⟨left, right⟩ := length_take_drop (same.trans List.length_append)
  refine (agree _ _).trans ?_
  rw [listedX _ left, listedY _ right, List.take_append_drop]

theorem Lists.map3 {g : {D : Type} → X D → Y D → Z D → V D} (listedX : first.Lists refsOfX)
    (listedY : second.Lists refsOfY) (listedZ : third.Lists refsOfZ)
    (agree : ∀ x y z, refsOfV (g x y z) = refsOfX x ++ (refsOfY y ++ refsOfZ z)) :
    (Walk.map3 g first second third).Lists refsOfV := by
  intro images same
  obtain ⟨left, rest⟩ := length_take_drop (same.trans List.length_append)
  obtain ⟨mid, right⟩ := length_take_drop (rest.trans List.length_append)
  refine (agree _ _ _).trans ?_
  rw [listedX _ left, listedY _ mid, listedZ _ right, List.take_append_drop, List.take_append_drop]

theorem Lists.list {walks : List (Walk C X)} (each : ∀ walk ∈ walks, walk.Lists refsOfX) :
    (Walk.list walks).Lists fun items => items.flatMap refsOfX := by
  induction walks with
  | nil => exact lists_const rfl
  | cons walk rest ih =>
    apply (each walk List.mem_cons_self).map2 (ih fun other member =>
      each other (List.mem_cons_of_mem _ member))
    intro x xs
    exact List.flatMap_cons

theorem Lists.option {walk : Option (Walk C X)} (each : ∀ walk' ∈ walk, walk'.Lists refsOfX) :
    (Walk.option walk).Lists fun item => item.elim [] refsOfX := by
  cases walk with
  | none => exact lists_const rfl
  | some walk => exact (each walk rfl).map fun _ => rfl

theorem Lists.finds (listed : first.Lists refsOfX) {read : X D → List D}
    (agree : ∀ x d, d ∈ refsOfX x ↔ d ∈ read x) : first.Finds read := by
  intro images same d
  rw [← agree, listed images same]

theorem Lists.refs_image (listed : first.Lists refsOfX) (f : C → D) :
    refsOfX (first.image f) = first.refs.map f :=
  listed _ (List.length_map f)

end Built

end Walk
end AsapPlanner.Traversal
