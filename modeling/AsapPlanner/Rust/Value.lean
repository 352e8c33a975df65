import AsapPlanner.Ordered.Cut
import Mathlib.Data.List.Forall2

/-!
Values of the host language: IEEE doubles with their partial order, and the data on which a
derived `PartialEq` and a derived `Debug` are computed.
-/

namespace AsapPlanner.Rust
open Ordered

/-- A double: its sign bit, and its other 63 bits read as a number. -/
structure F64 where
  negative : Bool
  magnitude : BitVec 63
deriving DecidableEq, Repr

namespace F64

def infinity : BitVec 63 := 0x7ff0000000000000#63

def isNan (x : F64) : Bool := infinity.toNat < x.magnitude.toNat

def isFinite (x : F64) : Bool := x.magnitude.toNat < infinity.toNat

/-- Doubles that are not NaN are ordered as these numbers are; both zeros get 0. -/
def key (x : F64) : Int := if x.negative then -(x.magnitude.toNat : Int) else x.magnitude.toNat

/-- `f64::partial_cmp`. -/
def partialCmp (x y : F64) : Option Ordering :=
  if x.isNan || y.isNan then none else some (compare x.key y.key)

/-- `==` on `f64`: NaN is unequal to itself, and the two zeros are equal. -/
def eq (x y : F64) : Bool := !x.isNan && !y.isNan && x.key == y.key

theorem partialCmp_level {x y : F64} : Level partialCmp x y ↔ x.eq y = true := by
  unfold Level partialCmp eq
  cases x.isNan <;> cases y.isNan <;> simp

theorem partialCmp_notAfter {x y : F64} :
    NotAfter partialCmp x y ↔ x.isNan = false ∧ y.isNan = false ∧ x.key ≤ y.key := by
  unfold NotAfter Before Level partialCmp
  cases x.isNan <;> cases y.isNan <;> simp [Int.le_iff_lt_or_eq, Int.compare_eq_lt]

instance : LawfulCompare partialCmp where
  swap x y := by
    unfold partialCmp
    rw [Bool.or_comm]
    split
    · rfl
    · simp only [Option.map_some, Option.some.injEq]
      exact Std.OrientedOrd.eq_swap
  trans {x y z} xy yz := by
    rw [partialCmp_notAfter] at *
    exact ⟨xy.1, yz.2.1, Int.le_trans xy.2.2 yz.2.2⟩

theorem eq_symm {x y : F64} (equal : x.eq y = true) : y.eq x = true := by
  simp_all [eq]

theorem eq_trans {x y z : F64} (xy : x.eq y = true) (yz : y.eq z = true) : x.eq z = true := by
  simp_all [eq]

end F64

/-! ### Derived equality and text -/

/-- A primitive value. -/
inductive Leaf
  | int (value : Int)
  | bool (value : Bool)
  | str (value : String)
  | f64 (value : F64)
  | duration (nanos : Nat)
deriving DecidableEq, Repr

def Leaf.eq : Leaf → Leaf → Bool
  | .int x, .int y => x == y
  | .bool x, .bool y => x == y
  | .str x, .str y => x == y
  | .f64 x, .f64 y => x.eq y
  | .duration x, .duration y => x == y
  | _, _ => false

/-- What stands around a value's parts. -/
inductive Head
  | variant (name : String)
  | record (name : String) (labels : List String)
  | list (title : String)
  | map (title : String)
  | entry
  | tuple
deriving DecidableEq, Repr

/-- A value as its derived traits see it. An `unseen` part is printed but skipped by `==`. -/
inductive Datum
  | leaf (value : Leaf)
  | node (head : Head) (parts : List Datum)
  | unseen (part : Datum)

namespace Datum

mutual
/-- The derived `==`: the same variant, equal part by part. -/
def eq : Datum → Datum → Bool
  | leaf x, leaf y => x.eq y
  | node head parts, node head' parts' => head == head' && eqParts parts parts'
  | unseen _, unseen _ => true
  | _, _ => false

def eqParts : List Datum → List Datum → Bool
  | [], [] => true
  | x :: xs, y :: ys => eq x y && eqParts xs ys
  | _, _ => false
end

theorem eq_leaf (x y : Leaf) : eq (leaf x) (leaf y) = x.eq y := rfl

theorem eq_node (head head' : Head) (parts parts' : List Datum) :
    eq (node head parts) (node head' parts') = (head == head' && eqParts parts parts') := rfl

theorem eqParts_cons (x y : Datum) (xs ys : List Datum) :
    eqParts (x :: xs) (y :: ys) = (eq x y && eqParts xs ys) := rfl

def variant (name : String) (parts : List Datum) : Datum := node (.variant name) parts

def record (name : String) (fields : List (String × Datum)) : Datum :=
  node (.record name (fields.map (·.1))) (fields.map (·.2))

end Datum

/-- A type with derived `PartialEq` and `Debug`. -/
class Derived (α : Type) where
  datum : α → Datum

export Derived (datum)

instance : Derived Nat := ⟨fun value => .leaf (.int value)⟩
instance : Derived Int := ⟨fun value => .leaf (.int value)⟩
instance : Derived Bool := ⟨fun value => .leaf (.bool value)⟩
instance : Derived String := ⟨fun value => .leaf (.str value)⟩
instance : Derived F64 := ⟨fun value => .leaf (.f64 value)⟩
instance : Derived Unit := ⟨fun _ => .node .tuple []⟩

instance {α : Type} [Derived α] : Derived (Option α) :=
  ⟨fun value => match value with
    | none => .variant "None" []
    | some held => .variant "Some" [datum held]⟩

instance {α : Type} [Derived α] : Derived (List α) := ⟨fun items => .node (.list "") (items.map datum)⟩

instance {α β : Type} [Derived α] [Derived β] : Derived (α × β) :=
  ⟨fun pair => .node .tuple [datum pair.1, datum pair.2]⟩

/-- A `serde_json::Value`. -/
inductive Json
  | null
  | bool (value : Bool)
  | int (value : Int)
  | float (value : F64)
  | str (value : String)
  | array (items : List Json)
  | object (keys : List String) (values : List Json)

mutual
def Json.toDatum : Json → Datum
  | .null => .variant "Null" []
  | .bool value => .variant "Bool" [datum value]
  | .int value => .variant "Number" [datum value]
  | .float value => .variant "Number" [datum value]
  | .str value => .variant "String" [datum value]
  | .array items => .node (.list "Array ") (Json.partsOf items)
  | .object keys values => .node (.map "Object ")
      (List.zipWith (fun key value => .node .entry [datum key, value]) keys (Json.partsOf values))

def Json.partsOf : List Json → List Datum
  | [] => []
  | item :: rest => item.toDatum :: Json.partsOf rest
end

instance : Derived Json := ⟨Json.toDatum⟩

/-- `==` of a type that derives it. -/
def same {α : Type} [Derived α] (x y : α) : Bool := (datum x).eq (datum y)

theorem Leaf.eq_symm {x y : Leaf} (equal : x.eq y = true) : y.eq x = true := by
  cases x <;> cases y <;> try exact absurd equal Bool.false_ne_true
  case f64.f64 x y => exact F64.eq_symm equal
  all_goals simp_all [Leaf.eq]

theorem Leaf.eq_trans {x y z : Leaf} (xy : x.eq y = true) (yz : y.eq z = true) : x.eq z = true := by
  cases x <;> cases y <;> try exact absurd xy Bool.false_ne_true
  all_goals cases z <;> try exact absurd yz Bool.false_ne_true
  case f64.f64.f64 x y z => exact F64.eq_trans xy yz
  all_goals simp_all [Leaf.eq]

mutual
theorem Datum.eq_symm : ∀ {x y : Datum}, x.eq y = true → y.eq x = true
  | .leaf _, .leaf _, equal => Leaf.eq_symm equal
  | .node _ _, .node _ _, equal => by
    obtain ⟨heads, parts⟩ := Bool.and_eq_true_iff.mp equal
    exact Bool.and_eq_true_iff.mpr ⟨BEq.symm heads, Datum.eqParts_symm parts⟩
  | .unseen _, .unseen _, _ => rfl
  | .leaf _, .node _ _, equal | .leaf _, .unseen _, equal | .node _ _, .leaf _, equal
  | .node _ _, .unseen _, equal | .unseen _, .leaf _, equal | .unseen _, .node _ _, equal =>
    Bool.noConfusion equal

theorem Datum.eqParts_symm : ∀ {xs ys : List Datum},
    Datum.eqParts xs ys = true → Datum.eqParts ys xs = true
  | [], [], _ => rfl
  | _ :: _, _ :: _, equal => by
    obtain ⟨first, rest⟩ := Bool.and_eq_true_iff.mp equal
    exact Bool.and_eq_true_iff.mpr ⟨Datum.eq_symm first, Datum.eqParts_symm rest⟩
  | [], _ :: _, equal | _ :: _, [], equal => Bool.noConfusion equal
end

mutual
theorem Datum.eq_trans : ∀ {x y z : Datum}, x.eq y = true → y.eq z = true → x.eq z = true
  | .leaf _, .leaf _, .leaf _, xy, yz => Leaf.eq_trans xy yz
  | .node _ _, .node _ _, .node _ _, xy, yz => by
    obtain ⟨heads, parts⟩ := Bool.and_eq_true_iff.mp xy
    obtain ⟨heads', parts'⟩ := Bool.and_eq_true_iff.mp yz
    have head := (beq_iff_eq.mp heads).trans (beq_iff_eq.mp heads')
    exact Bool.and_eq_true_iff.mpr ⟨beq_iff_eq.mpr head, Datum.eqParts_trans parts parts'⟩
  | .unseen _, .unseen _, .unseen _, _, _ => rfl
  | .leaf _, .node _ _, _, xy, _ | .leaf _, .unseen _, _, xy, _ | .node _ _, .leaf _, _, xy, _
  | .node _ _, .unseen _, _, xy, _ | .unseen _, .leaf _, _, xy, _
  | .unseen _, .node _ _, _, xy, _ => Bool.noConfusion xy
  | _, .leaf _, .node _ _, _, yz | _, .leaf _, .unseen _, _, yz | _, .node _ _, .leaf _, _, yz
  | _, .node _ _, .unseen _, _, yz | _, .unseen _, .leaf _, _, yz
  | _, .unseen _, .node _ _, _, yz => Bool.noConfusion yz

theorem Datum.eqParts_trans : ∀ {xs ys zs : List Datum},
    Datum.eqParts xs ys = true → Datum.eqParts ys zs = true → Datum.eqParts xs zs = true
  | [], [], [], _, _ => rfl
  | _ :: _, _ :: _, _ :: _, xy, yz => by
    obtain ⟨first, rest⟩ := Bool.and_eq_true_iff.mp xy
    obtain ⟨first', rest'⟩ := Bool.and_eq_true_iff.mp yz
    exact Bool.and_eq_true_iff.mpr ⟨Datum.eq_trans first first', Datum.eqParts_trans rest rest'⟩
  | [], _ :: _, _, xy, _ | _ :: _, [], _, xy, _ => Bool.noConfusion xy
  | _, [], _ :: _, _, yz | _, _ :: _, [], _, yz => Bool.noConfusion yz
end

section Same
variable {α β : Type} [Derived α] [Derived β]

theorem same_symm {x y : α} (equal : same x y = true) : same y x = true := Datum.eq_symm equal

theorem same_trans {x y z : α} (xy : same x y = true) (yz : same y z = true) : same x z = true :=
  Datum.eq_trans xy yz

@[simp] theorem same_nat {x y : Nat} : same x y = true ↔ x = y := by
  simp only [same, datum, Datum.eq_leaf, Leaf.eq, beq_iff_eq, Int.natCast_inj]

@[simp] theorem same_bool {x y : Bool} : same x y = true ↔ x = y := by
  simp [same, datum, Datum.eq_leaf, Leaf.eq]

@[simp] theorem same_string {x y : String} : same x y = true ↔ x = y := by
  simp [same, datum, Datum.eq_leaf, Leaf.eq]

@[simp] theorem same_pair {x x' : α} {y y' : β} : same (x, y) (x', y') = (same x x' && same y y') := by
  simp [same, datum, Datum.eq_node, Datum.eqParts]

theorem same_list {xs ys : List α} :
    same xs ys = true ↔ List.Forall₂ (fun x y => same x y = true) xs ys := by
  have parts : Datum.eqParts (xs.map datum) (ys.map datum) = true ↔
      List.Forall₂ (fun x y => same x y = true) xs ys := by
    induction xs generalizing ys with
    | nil => cases ys <;> simp [Datum.eqParts]
    | cons x xs ih =>
      cases ys with
      | nil => simp [Datum.eqParts]
      | cons y ys => simp [Datum.eqParts_cons, ih, same]
  simpa [same, datum, Datum.eq_node] using parts

theorem same_mem {xs ys : List α} (equal : same xs ys = true) {x : α} (member : x ∈ xs) :
    ∃ y ∈ ys, same x y = true := by
  induction same_list.mp equal with
  | nil => cases member
  | @cons first first' rest rest' alike tail ih =>
    rcases List.mem_cons.mp member with rfl | later
    · exact ⟨first', List.mem_cons_self, alike⟩
    · obtain ⟨y, present, alike⟩ := ih (same_list.mpr tail) later
      exact ⟨y, List.mem_cons_of_mem _ present, alike⟩

theorem same_option {x y : Option α} :
    same x y = true ↔ match x, y with
      | none, none => True
      | some x, some y => same x y = true
      | _, _ => False := by
  cases x <;> cases y <;>
    simp [same, datum, Datum.eq_node, Datum.eqParts, Datum.variant]

end Same

/-! ### Debug text -/

/-- How the standard library prints primitive values. -/
structure LeafText where
  str : String → String
  f64 : F64 → String
  duration : Nat → String
deriving Inhabited

def LeafText.leaf (text : LeafText) : Leaf → String
  | .int value => toString value
  | .bool value => if value then "true" else "false"
  | .str value => text.str value
  | .f64 value => text.f64 value
  | .duration nanos => text.duration nanos

def Head.write (parts : List String) : Head → String
  | .variant name => if parts.isEmpty then name else name ++ "(" ++ ", ".intercalate parts ++ ")"
  | .record name labels =>
    name ++ " \x7b " ++ ", ".intercalate (List.zipWith (· ++ ": " ++ ·) labels parts) ++ " \x7d"
  | .list title => title ++ "[" ++ ", ".intercalate parts ++ "]"
  | .map title => title ++ "\x7b" ++ ", ".intercalate parts ++ "\x7d"
  | .entry => ": ".intercalate parts
  | .tuple => "(" ++ ", ".intercalate parts ++ ")"

mutual
/-- The derived `Debug` text. -/
def Datum.debug (text : LeafText) : Datum → String
  | .leaf value => text.leaf value
  | .node head parts => head.write (Datum.debugParts text parts)
  | .unseen part => Datum.debug text part

def Datum.debugParts (text : LeafText) : List Datum → List String
  | [] => []
  | part :: rest => Datum.debug text part :: Datum.debugParts text rest
end

/-! ### What equality leaves open -/

mutual
/-- The parts `==` does not determine: doubles, whose two zeros are equal, and unseen parts. -/
def Datum.residue : Datum → List Datum
  | .leaf (.f64 value) => [.leaf (.f64 value)]
  | .leaf _ => []
  | .node _ parts => Datum.residueParts parts
  | .unseen part => [part]

def Datum.residueParts : List Datum → List Datum
  | [] => []
  | part :: rest => part.residue ++ Datum.residueParts rest
end

theorem Leaf.eq_iff {x y : Leaf} (equal : x.eq y = true) :
    x = y ∨ ∃ v w, x = .f64 v ∧ y = .f64 w := by
  cases x <;> cases y <;> try exact absurd equal Bool.false_ne_true
  case f64.f64 v w => exact .inr ⟨v, w, rfl, rfl⟩
  all_goals
    rw [beq_iff_eq.mp equal]
    exact .inl rfl

mutual
theorem Datum.residue_length : ∀ {x y : Datum}, x.eq y = true → x.residue.length = y.residue.length
  | .leaf _, .leaf _, equal => by
    rcases Leaf.eq_iff equal with rfl | ⟨v, w, rfl, rfl⟩ <;> rfl
  | .node _ _, .node _ _, equal => Datum.residueParts_length (Bool.and_eq_true_iff.mp equal).2
  | .unseen _, .unseen _, _ => rfl
  | .leaf _, .node _ _, equal | .leaf _, .unseen _, equal | .node _ _, .leaf _, equal
  | .node _ _, .unseen _, equal | .unseen _, .leaf _, equal | .unseen _, .node _ _, equal =>
    Bool.noConfusion equal

theorem Datum.residueParts_length : ∀ {xs ys : List Datum}, Datum.eqParts xs ys = true →
    (Datum.residueParts xs).length = (Datum.residueParts ys).length
  | [], [], _ => rfl
  | _ :: _, _ :: _, equal => by
    obtain ⟨first, rest⟩ := Bool.and_eq_true_iff.mp equal
    rw [residueParts, residueParts, List.length_append, List.length_append,
      Datum.residue_length first, Datum.residueParts_length rest]
  | [], _ :: _, equal | _ :: _, [], equal => Bool.noConfusion equal
end

mutual
theorem Datum.debug_eq (text : LeafText) : ∀ {x y : Datum}, x.eq y = true →
    x.residue.map (Datum.debug text) = y.residue.map (Datum.debug text) →
    x.debug text = y.debug text
  | .leaf _, .leaf _, equal, alike => by
    rcases Leaf.eq_iff equal with rfl | ⟨v, w, rfl, rfl⟩
    · rfl
    · exact List.head_eq_of_cons_eq alike
  | .node head parts, .node head' parts', equal, alike => by
    obtain ⟨heads, partsEqual⟩ := Bool.and_eq_true_iff.mp equal
    rw [debug, debug, beq_iff_eq.mp heads, Datum.debugParts_eq text partsEqual alike]
  | .unseen _, .unseen _, _, alike => List.head_eq_of_cons_eq alike
  | .leaf _, .node _ _, equal, _ | .leaf _, .unseen _, equal, _ | .node _ _, .leaf _, equal, _
  | .node _ _, .unseen _, equal, _ | .unseen _, .leaf _, equal, _
  | .unseen _, .node _ _, equal, _ => Bool.noConfusion equal

theorem Datum.debugParts_eq (text : LeafText) : ∀ {xs ys : List Datum},
    Datum.eqParts xs ys = true →
    (Datum.residueParts xs).map (Datum.debug text) = (Datum.residueParts ys).map (Datum.debug text) →
    Datum.debugParts text xs = Datum.debugParts text ys
  | [], [], _, _ => rfl
  | _ :: _, _ :: _, equal, alike => by
    obtain ⟨first, rest⟩ := Bool.and_eq_true_iff.mp equal
    rw [residueParts, residueParts, List.map_append, List.map_append] at alike
    obtain ⟨alikeFirst, alikeRest⟩ := List.append_inj alike (by
      rw [List.length_map, List.length_map, Datum.residue_length first])
    rw [debugParts, debugParts, Datum.debug_eq text first alikeFirst,
      Datum.debugParts_eq text rest alikeRest]
  | [], _ :: _, equal, _ | _ :: _, [], equal, _ => Bool.noConfusion equal
end

end AsapPlanner.Rust
