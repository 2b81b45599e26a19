import Mathlib.Data.BitVec
import Forte.Lib.NativeInt

/-!
# Bit strings and their native types

The types under `CIEC_ANY_BIT` and their `TValueType`s, all of them unsigned. What has less than 32
bits is promoted to `int` by the operators, where it is not negative; a shift by the width of the
promoted type, or by more, is undefined.
-/

namespace Forte

/-- The types under `CIEC_ANY_BIT`. -/
inductive AnyBit
  | bool | byte | word | dword | lword
  deriving DecidableEq, Repr

namespace AnyBit

/-- `numeric_limits::digits` of the `TValueType`. -/
def digits : AnyBit → ℕ
  | bool => 1
  | byte => 8
  | word => 16
  | dword => 32
  | lword => 64

/-- The values of the `TValueType`. -/
abbrev Value (t : AnyBit) : Type := BitVec t.digits

/-- `TValueType`. -/
def native (t : AnyBit) : NativeType where
  signed := false
  width := t.digits
  pos := by cases t <;> decide

/-- The number that the bits are. -/
def toNative {t : AnyBit} (x : t.Value) : t.native.Value :=
  ⟨x.toNat, by
    have hlt := x.isLt
    refine ⟨(NativeType.min_of_unsigned rfl).trans_le (Int.natCast_nonneg _), ?_⟩
    exact_mod_cast Int.le_sub_one_of_lt (by exact_mod_cast hlt : (x.toNat : ℤ) < 2 ^ t.digits)⟩

/-- The bits of a number. -/
def ofNative {t : AnyBit} (x : t.native.Value) : t.Value := BitVec.ofInt t.digits x

/-- The number of bits of an operand. -/
def promoted (t : AnyBit) : ℕ := max 32 t.digits

variable {t : AnyBit} {w : ℕ}

/-- An integral promotion. -/
def promote (x : t.Value) : BitVec t.promoted := x.setWidth t.promoted

/-- A conversion to the `TValueType`; that to `bool` asks for zero. -/
def convert (t : AnyBit) (x : BitVec w) : t.Value :=
  if t = bool then if x = 0 then 0 else 1 else x.setWidth t.digits

/-- `operator<<`; `none` is undefined behaviour. -/
def shiftLeft (x : BitVec w) (n : ℕ) : Option (BitVec w) := if n < w then some (x <<< n) else none

/-- `operator>>` of an operand that is not negative; `none` is undefined behaviour. -/
def shiftRight (x : BitVec w) (n : ℕ) : Option (BitVec w) := if n < w then some (x >>> n) else none

theorem native_nonneg (x : t.native.Value) : 0 ≤ x.val := x.2.1

theorem native_lt (x : t.native.Value) : x.val < 2 ^ t.digits := Int.lt_of_le_sub_one x.2.2

theorem native_fits {z : ℤ} (h : 0 ≤ z) (hlt : z < 2 ^ t.digits) : t.native.Fits z :=
  ⟨h, Int.le_sub_one_of_lt hlt⟩

/-- What is written is read. -/
theorem toNative_ofNative (x : t.native.Value) : toNative (ofNative x) = x := by
  refine Subtype.ext ?_
  have hlt : x.val < ((2 ^ t.digits : ℕ) : ℤ) := by exact_mod_cast native_lt x
  have hmod := Int.emod_eq_of_lt (native_nonneg x) hlt
  change ((BitVec.ofInt t.digits x.val).toNat : ℤ) = x.val
  rw [BitVec.toNat_ofInt, hmod, Int.toNat_of_nonneg (native_nonneg x)]

theorem digits_le_promoted (t : AnyBit) : t.digits ≤ t.promoted := Nat.le_max_right _ _

theorem shiftLeft_of_lt {n : ℕ} (h : n < w) (x : BitVec w) : shiftLeft x n = some (x <<< n) :=
  if_pos h

theorem shiftRight_of_lt {n : ℕ} (h : n < w) (x : BitVec w) : shiftRight x n = some (x >>> n) :=
  if_pos h

/-- A conversion keeps the bits that there is room for; for `bool` those are all if the others are
zero. -/
theorem convert_eq {x : BitVec w} (h : t ≠ bool ∨ x.toNat < 2) :
    t.convert x = x.setWidth t.digits := by
  rw [convert]
  split_ifs with hbool hzero
  · subst hzero
    simp
  · subst hbool
    have hlt : x.toNat < 2 := h.resolve_left (not_not_intro rfl)
    have hne : x.toNat ≠ 0 := fun h => hzero (BitVec.eq_of_toNat_eq h)
    refine BitVec.eq_of_toNat_eq ?_
    rw [BitVec.toNat_setWidth, (by omega : x.toNat = 1)]
    rfl
  · rfl

/-- The lowest bit of an operand is a number below two. -/
theorem toNat_and_one_lt (x : BitVec w) : (x &&& 1).toNat < 2 := by
  have hone : (1 : BitVec w).toNat ≤ 1 := Nat.mod_le _ _
  have hand : (x &&& 1).toNat ≤ (1 : BitVec w).toNat := Nat.and_le_right
  omega

/-- A shift to the left in the promoted type, and back. -/
theorem setWidth_promote_shiftLeft (x : t.Value) (n : ℕ) :
    (promote x <<< n).setWidth t.digits = x <<< n := by
  refine BitVec.eq_of_getLsbD_eq fun k hk => ?_
  have hwide : k < t.promoted := lt_of_lt_of_le hk t.digits_le_promoted
  have hback : k - n < t.promoted := by omega
  simp only [promote, BitVec.getLsbD_setWidth, BitVec.getLsbD_shiftLeft, hk, hwide, hback,
    decide_true, Bool.true_and]

/-- A shift to the right in the promoted type. -/
theorem getLsbD_promote_shiftRight (x : t.Value) (n k : ℕ) :
    (promote x >>> n).getLsbD k = x.getLsbD (n + k) := by
  rw [BitVec.getLsbD_ushiftRight, promote, BitVec.getLsbD_setWidth]
  by_cases h : n + k < t.promoted
  · rw [decide_eq_true h, Bool.true_and]
  · have hge : t.digits ≤ n + k := t.digits_le_promoted.trans (Nat.not_lt.mp h)
    rw [BitVec.getLsbD_of_ge x _ hge, Bool.and_false]

end AnyBit

end Forte
