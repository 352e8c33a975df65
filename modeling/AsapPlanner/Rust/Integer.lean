import Mathlib.Algebra.Group.Int.Defs
import Mathlib.Algebra.GroupWithZero.Nat
import Mathlib.Data.List.Basic
import Mathlib.Order.Defs.LinearOrder
import Mathlib.Tactic.Common

/-!
Machine integers: bounds, saturating arithmetic, and their little-endian bytes.
-/

namespace AsapPlanner.Rust

def u32Max : Nat := 2 ^ 32 - 1
def u64Max : Nat := 2 ^ 64 - 1
def i64Min : Int := -2 ^ 63
def i64Max : Int := 2 ^ 63 - 1

/-- No allocation is larger, in bytes. -/
def isizeMax : Nat := 2 ^ 63 - 1

/-- `u64::saturating_add`. -/
def saturatingAdd (a b : Nat) : Nat := min (a + b) u64Max

/-- `i64::saturating_sub`. -/
def saturatingSub (a b : Int) : Int := max i64Min (min (a - b) i64Max)

theorem saturatingSub_eq {a b : Int} (up : 0 ≤ a - b) (fits : a - b ≤ i64Max) :
    saturatingSub a b = a - b := by
  unfold saturatingSub i64Min
  unfold i64Max at fits ⊢
  omega

/-- What an `i64` holds. -/
abbrev FitsI64 (value : Int) : Prop := i64Min ≤ value ∧ value ≤ i64Max

/-- `i64::saturating_add`. -/
def i64SaturatingAdd (a b : Int) : Int := max i64Min (min (a + b) i64Max)

/-- `i64::checked_add`. -/
def i64CheckedAdd (a b : Int) : Option Int := if FitsI64 (a + b) then some (a + b) else none

/-- `i64::try_from(value).unwrap_or(i64::MAX)`. -/
def i64OrMax (value : Nat) : Int := if value ≤ i64Max then value else i64Max

theorem i64SaturatingAdd_eq {a b : Int} (fits : FitsI64 (a + b)) : i64SaturatingAdd a b = a + b := by
  obtain ⟨low, high⟩ := fits
  unfold i64SaturatingAdd
  omega

theorem i64CheckedAdd_some {a b sum : Int} (fine : i64CheckedAdd a b = some sum) :
    sum = a + b ∧ FitsI64 (a + b) := by
  unfold i64CheckedAdd at fine
  split at fine
  · rename_i fits
    exact ⟨(Option.some.inj fine).symm, fits⟩
  · cases fine

/-! ### Bytes -/

abbrev Byte := Fin 256

/-- The `width` low bytes of a number, the lowest first. -/
def leBytes : Nat → Nat → List Byte
  | 0, _ => []
  | width + 1, value => Fin.ofNat 256 value :: leBytes width (value / 256)

theorem leBytes_inj {width a b : Nat} (smallA : a < 256 ^ width) (smallB : b < 256 ^ width)
    (same : leBytes width a = leBytes width b) : a = b := by
  induction width generalizing a b with
  | zero => omega
  | succ width ih =>
    obtain ⟨low, high⟩ := List.cons.inj same
    have lowest : a % 256 = b % 256 := congrArg Fin.val low
    rw [Nat.pow_succ, Nat.mul_comm] at smallA smallB
    have upper := ih (Nat.div_lt_of_lt_mul smallA) (Nat.div_lt_of_lt_mul smallB) high
    omega

theorem leBytes_length (width value : Nat) : (leBytes width value).length = width := by
  induction width generalizing value with
  | zero => rfl
  | succ width ih => rw [leBytes, List.length_cons, ih]

/-- `to_le_bytes` of a bit pattern. -/
def bitsLe {width : Nat} (bits : BitVec (8 * width)) : List Byte := leBytes width bits.toNat

theorem bitsLe_inj {width : Nat} {a b : BitVec (8 * width)} (same : bitsLe a = bitsLe b) :
    a = b := by
  have small : ∀ bits : BitVec (8 * width), bits.toNat < 256 ^ width := by
    intro bits
    have bound := bits.isLt
    rw [Nat.pow_mul] at bound
    exact bound
  exact BitVec.toNat_inj.mp (leBytes_inj (small a) (small b) same)

def utf8 (text : String) : List Byte :=
  text.toByteArray.data.toList.map fun byte => Fin.ofNat 256 byte.toNat

theorem utf8_inj {a b : String} (same : utf8 a = utf8 b) : a = b := by
  unfold utf8 at same
  have bytes : a.toByteArray.data.toList = b.toByteArray.data.toList := by
    apply List.map_injective_iff.mpr ?_ same
    intro x y equal
    have values : x.toNat % 256 = y.toNat % 256 := congrArg Fin.val equal
    have smallX := x.toNat_lt
    have smallY := y.toNat_lt
    apply UInt8.toNat_inj.mp
    omega
  apply String.toByteArray_inj.mp
  exact ByteArray.ext (Array.toList_inj.mp bytes)

end AsapPlanner.Rust
