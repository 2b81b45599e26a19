import Forte.Datatypes.AnyInt
import Forte.Datatypes.Storage

/-!
# Values of `CIEC_ANY_INT`

What is passed as a `CIEC_ANY_INT` is read as a signed or as an unsigned number of 64 bits, whatever
type it has. The values of the signed types are kept with their sign, so that a negative number is
read as a huge one by the unsigned accessor.
-/

namespace Forte

/-- A `CIEC_ANY_INT`. -/
structure CIEC_ANY_INT where
  type : AnyInt
  mAnyData : BitVec 64
  deriving DecidableEq

namespace CIEC_ANY_INT

/-- `isSigned`. -/
def isSigned (x : CIEC_ANY_INT) : Bool := x.type.type.isSigned

/-- `getSignedValue`. -/
def getSignedValue (x : CIEC_ANY_INT) : ℤ := x.mAnyData.toInt

/-- `getUnsignedValue`. -/
def getUnsignedValue (x : CIEC_ANY_INT) : ℕ := x.mAnyData.toNat

/-- `setUnsignedValue`, whose parameter is a signed number of 64 bits. -/
def setUnsignedValue (x : CIEC_ANY_INT) (mVal : ℤ) : CIEC_ANY_INT :=
  { x with mAnyData := BitVec.ofInt 64 mVal }

/-- The value of a type in its storage. -/
def ofValue {t : AnyInt} (v : t.native.Value) : CIEC_ANY_INT := ⟨t, t.type.setTyped v⟩

variable {t : AnyInt} (v : t.native.Value)

/-- All of the types are kept in the same way. -/
theorem mAnyData_ofValue : (ofValue v).mAnyData = BitVec.ofInt 64 v := by
  have hbool : t.type ≠ .bool := by cases t <;> decide
  have hpos : 0 < t.type.bitLength := t.native.pos
  obtain ⟨hmin, hmax⟩ := v.2
  have hsame : t.native.signed = t.type.isSigned := rfl
  rw [NativeType.min, hsame] at hmin
  rw [NativeType.max, hsame] at hmax
  rw [ofValue, IntegralType.setTyped, if_neg hbool]
  split_ifs with hsigned
  · rw [if_pos hsigned] at hmin hmax
    have hback := BitVec.toInt_ofInt_eq_self hpos hmin (Int.lt_of_le_sub_one hmax)
    exact congrArg (BitVec.ofInt 64) hback
  · rw [if_neg hsigned] at hmin hmax
    have hlt : v.val < ((2 ^ t.type.bitLength : ℕ) : ℤ) := by
      push_cast
      exact Int.lt_of_le_sub_one hmax
    have hback : (BitVec.ofInt t.type.bitLength v).toNat = v.val.toNat := by
      rw [BitVec.toNat_ofInt, Int.emod_eq_of_lt hmin hlt]
    change BitVec.ofNat 64 _ = _
    rw [hback, ← BitVec.ofInt_natCast, Int.toNat_of_nonneg hmin]

/-- The values that are not negative are numbers of 64 bits. -/
theorem val_lt : v.val < 2 ^ 64 := by
  have hmax : t.native.max < 2 ^ 64 := by cases t <;> decide
  exact v.2.2.trans_lt hmax

theorem neg_two_pow_le_val : -2 ^ 63 ≤ v.val := by
  have hmin : -2 ^ 63 ≤ t.native.min := by cases t <;> decide
  exact hmin.trans v.2.1

theorem getUnsignedValue_ofValue (h : 0 ≤ v.val) : ((ofValue v).getUnsignedValue : ℤ) = v := by
  have hlt := val_lt v
  rw [getUnsignedValue, mAnyData_ofValue, BitVec.toNat_ofInt, Int.emod_eq_of_lt h (by omega),
    Int.toNat_of_nonneg h]

/-- A negative number is read as one that no signed type has. -/
theorem getUnsignedValue_ofValue_of_neg (h : v.val < 0) :
    ((ofValue v).getUnsignedValue : ℤ) = v + 2 ^ 64 := by
  have hle := neg_two_pow_le_val v
  have hmod : v.val % (2 ^ 64 : ℕ) = v + 2 ^ 64 := by
    rw [← Int.add_emod_right]
    exact Int.emod_eq_of_lt (by omega) (by omega)
  rw [getUnsignedValue, mAnyData_ofValue, BitVec.toNat_ofInt, hmod, Int.toNat_of_nonneg (by omega)]

/-- A bound for the unsigned accessor keeps negative numbers out. -/
theorem getUnsignedValue_le_iff {n : ℕ} (hn : n < 2 ^ 63) :
    (ofValue v).getUnsignedValue ≤ n ↔ 0 ≤ v.val ∧ v.val ≤ n := by
  have hle := neg_two_pow_le_val v
  rcases Int.lt_or_le v.val 0 with hneg | hnonneg
  · have h := getUnsignedValue_ofValue_of_neg v hneg
    omega
  · have h := getUnsignedValue_ofValue v hnonneg
    omega

theorem getSignedValue_ofValue (h : v.val < 2 ^ 63) : (ofValue v).getSignedValue = v := by
  rw [getSignedValue, mAnyData_ofValue, BitVec.toInt_ofInt_eq_self (by decide)
    (neg_two_pow_le_val v) h]

theorem val_lt_of_isSigned (h : (ofValue v).isSigned = true) : v.val < 2 ^ 63 := by
  have hmax : t.type.isSigned = true → t.native.max < 2 ^ 63 := by cases t <;> decide
  exact v.2.2.trans_lt (hmax h)

/-- **The test for a negative number**, which asks for the sign only if the type has one. -/
theorem not_negative_iff : (((ofValue v).isSigned = true ∧ 0 ≤ (ofValue v).getSignedValue) ∨
    (ofValue v).isSigned = false) ↔ 0 ≤ v.val := by
  cases hsigned : (ofValue v).isSigned with
  | true =>
    rw [getSignedValue_ofValue v (val_lt_of_isSigned v hsigned)]
    simp
  | false =>
    have hmin := NativeType.min_of_unsigned (t := t.native) hsigned
    exact iff_of_true (.inr rfl) (hmin.symm.le.trans v.2.1)

/-- A number is read by all accessors, by that of the type if it has the number. -/
def Holds (x : CIEC_ANY_INT) (n : ℤ) : Prop :=
  x.getUnsignedValue = n ∧ x.getSignedValue = n ∧
    (x.type.native.Fits n → x.type.type.typedValue x.mAnyData = n)

/-- What was set is read. -/
theorem holds_setUnsignedValue (x : CIEC_ANY_INT) {n : ℤ} (h : 0 ≤ n) (hlt : n < 2 ^ 63) :
    (x.setUnsignedValue n).Holds n := by
  refine ⟨?_, ?_, fun hfits => IntegralType.typedValue_ofInt hfits.1 hfits.2⟩
  · rw [getUnsignedValue, setUnsignedValue, BitVec.toNat_ofInt,
      Int.emod_eq_of_lt h (by omega), Int.toNat_of_nonneg h]
  · exact BitVec.toInt_ofInt_eq_self (by decide) (by omega) hlt

end CIEC_ANY_INT

end Forte
