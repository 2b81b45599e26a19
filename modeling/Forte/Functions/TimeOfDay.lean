import Forte.Datatypes.IntValues

/-!
# Times of day and their parts

`func_CONCAT_LTOD` and `func_SPLIT_LTOD`. A time of day is a number of nanoseconds in 64 bits. The
parts come and go as integers of any type; that they are in their range is asked of the unsigned
accessor, by which negative numbers are out of range as well.
-/

namespace Forte.TimeOfDay

/-- The parts of a time of day. -/
structure Parts where
  HOUR : CIEC_ANY_INT
  MINUTE : CIEC_ANY_INT
  SECOND : CIEC_ANY_INT
  MILLISECOND : CIEC_ANY_INT

/-- `CIEC_ANY_DURATION::csmForteTimeBaseUnitsPerSecond`. -/
def csmForteTimeBaseUnitsPerSecond : BitVec 64 := 1000000000

/-- `func_CONCAT_LTOD`. -/
def func_CONCAT_LTOD (parts : Parts) : BitVec 64 :=
  if parts.HOUR.getUnsignedValue > 23 then 0
  else if parts.MINUTE.getUnsignedValue > 59 then 0
  else if parts.SECOND.getUnsignedValue > 59 then 0
  else if parts.MILLISECOND.getUnsignedValue > 999 then 0
  else
    let hour := BitVec.ofInt 64 parts.HOUR.getSignedValue * 60 * 60 * 1000 * 1000000
    let minute := BitVec.ofInt 64 parts.MINUTE.getSignedValue * 60 * 1000 * 1000000
    let second := BitVec.ofInt 64 parts.SECOND.getSignedValue * 1000 * 1000000
    let millisecond := BitVec.ofInt 64 parts.MILLISECOND.getSignedValue * 1000000
    hour + minute + second + millisecond

/-- `func_SPLIT_LTOD`, with the variables that it writes to. -/
def func_SPLIT_LTOD (paValue : BitVec 64) (parts : Parts) : Parts :=
  let nanoSeconds := paValue
  let hours := nanoSeconds / (3600 * csmForteTimeBaseUnitsPerSecond)
  let nanoSeconds := nanoSeconds - hours * (3600 * csmForteTimeBaseUnitsPerSecond)
  let minutes := nanoSeconds / (60 * csmForteTimeBaseUnitsPerSecond)
  let nanoSeconds := nanoSeconds - minutes * (60 * csmForteTimeBaseUnitsPerSecond)
  let seconds := nanoSeconds / csmForteTimeBaseUnitsPerSecond
  let nanoSeconds := nanoSeconds - seconds * csmForteTimeBaseUnitsPerSecond
  let milliSeconds := nanoSeconds / (csmForteTimeBaseUnitsPerSecond / 1000)
  { HOUR := parts.HOUR.setUnsignedValue hours.toInt
    MINUTE := parts.MINUTE.setUnsignedValue minutes.toInt
    SECOND := parts.SECOND.setUnsignedValue seconds.toInt
    MILLISECOND := parts.MILLISECOND.setUnsignedValue milliSeconds.toInt }

/-! ### Splitting -/

/-- A quotient that is taken away leaves the remainder. -/
theorem sub_udiv_mul (x k : BitVec 64) : x - x / k * k = x % k := by
  have hsum : x / k * k + x % k = x := by
    refine BitVec.eq_of_toNat_eq ?_
    rw [BitVec.toNat_add, BitVec.toNat_mul, BitVec.toNat_udiv, BitVec.toNat_umod, Nat.mod_add_mod,
      Nat.div_add_mod', Nat.mod_eq_of_lt x.isLt]
  exact BitVec.sub_eq_iff_eq_add.mpr (by rw [BitVec.add_comm, hsum])

/-- The parts of a number of nanoseconds, and what is left below them. -/
structure Splits (n H M S L rest : ℕ) : Prop where
  eq : n = H * 3600000000000 + M * 60000000000 + S * 1000000000 + L * 1000000 + rest
  minute : M < 60
  second : S < 60
  millisecond : L < 1000
  rest : rest < 1000000

/-- Every variable holds its part. -/
def Parts.Hold (parts : Parts) (H M S L : ℕ) : Prop :=
  parts.HOUR.Holds H ∧ parts.MINUTE.Holds M ∧ parts.SECOND.Holds S ∧ parts.MILLISECOND.Holds L

theorem holds_setUnsignedValue_toInt (x : CIEC_ANY_INT) {v : BitVec 64} {n : ℕ}
    (h : v.toNat = n) (hlt : n < 2 ^ 63) : (x.setUnsignedValue v.toInt).Holds n := by
  have htwo : 2 * v.toNat < 2 ^ 64 := by
    rw [h, Nat.pow_succ']
    exact Nat.mul_lt_mul_of_pos_left hlt (by decide)
  have hn : (n : ℤ) < 2 ^ 63 := by exact_mod_cast hlt
  rw [BitVec.toInt_eq_toNat_of_lt htwo, h]
  exact x.holds_setUnsignedValue (Int.natCast_nonneg n) hn

/-- **`func_SPLIT_LTOD`** finds the parts. -/
theorem split_hold {paValue : BitVec 64} {H M S L rest : ℕ}
    (h : Splits paValue.toNat H M S L rest) (parts : Parts) :
    (func_SPLIT_LTOD paValue parts).Hold H M S L := by
  obtain ⟨heq, hminute, hsecond, hmillisecond, hrest⟩ := h
  have hlt : paValue.toNat < 18446744073709551616 := paValue.isLt
  have hpow : (2 : ℕ) ^ 63 = 9223372036854775808 := by decide
  generalize hn : paValue.toNat = n at heq hlt
  rw [func_SPLIT_LTOD]
  simp only [sub_udiv_mul]
  refine ⟨holds_setUnsignedValue_toInt _ ?_ ?_, holds_setUnsignedValue_toInt _ ?_ ?_,
    holds_setUnsignedValue_toInt _ ?_ ?_, holds_setUnsignedValue_toInt _ ?_ ?_⟩
  · rw [BitVec.toNat_udiv, hn]
    change n / 3600000000000 = H
    omega
  · omega
  · rw [BitVec.toNat_udiv, BitVec.toNat_umod, hn]
    change n % 3600000000000 / 60000000000 = M
    omega
  · omega
  · rw [BitVec.toNat_udiv, BitVec.toNat_umod, BitVec.toNat_umod, hn]
    change n % 3600000000000 % 60000000000 / 1000000000 = S
    omega
  · omega
  · rw [BitVec.toNat_udiv, BitVec.toNat_umod, BitVec.toNat_umod, BitVec.toNat_umod, hn]
    change n % 3600000000000 % 60000000000 % 1000000000 / 1000000 = L
    omega
  · omega

/-! ### Joining -/

/-- Every part is in its range. -/
def Parts.InRange (parts : Parts) : Prop :=
  parts.HOUR.getUnsignedValue ≤ 23 ∧ parts.MINUTE.getUnsignedValue ≤ 59 ∧
    parts.SECOND.getUnsignedValue ≤ 59 ∧ parts.MILLISECOND.getUnsignedValue ≤ 999

/-- Both accessors read the same bits. -/
theorem ofInt_getSignedValue (x : CIEC_ANY_INT) :
    BitVec.ofInt 64 x.getSignedValue = BitVec.ofNat 64 x.getUnsignedValue := by
  rw [CIEC_ANY_INT.getSignedValue, BitVec.ofInt_toInt, CIEC_ANY_INT.getUnsignedValue,
    BitVec.ofNat_toNat, BitVec.setWidth_eq]

/-- **`func_CONCAT_LTOD`** of parts that are in their ranges. -/
theorem splits_concat {parts : Parts} (h : parts.InRange) :
    Splits (func_CONCAT_LTOD parts).toNat parts.HOUR.getUnsignedValue
      parts.MINUTE.getUnsignedValue parts.SECOND.getUnsignedValue
      parts.MILLISECOND.getUnsignedValue 0 := by
  obtain ⟨hhour, hminute, hsecond, hmillisecond⟩ := h
  rw [func_CONCAT_LTOD, if_neg (Nat.not_lt.mpr hhour), if_neg (Nat.not_lt.mpr hminute),
    if_neg (Nat.not_lt.mpr hsecond), if_neg (Nat.not_lt.mpr hmillisecond)]
  simp only [ofInt_getSignedValue]
  generalize parts.HOUR.getUnsignedValue = H at hhour
  generalize parts.MINUTE.getUnsignedValue = M at hminute
  generalize parts.SECOND.getUnsignedValue = S at hsecond
  generalize parts.MILLISECOND.getUnsignedValue = L at hmillisecond
  have hsum : BitVec.ofNat 64 H * 60 * 60 * 1000 * 1000000 +
      BitVec.ofNat 64 M * 60 * 1000 * 1000000 + BitVec.ofNat 64 S * 1000 * 1000000 +
      BitVec.ofNat 64 L * 1000000 = BitVec.ofNat 64 (H * 60 * 60 * 1000 * 1000000 +
        M * 60 * 1000 * 1000000 + S * 1000 * 1000000 + L * 1000000) := by
    simp only [BitVec.ofNat_add, BitVec.ofNat_mul]
    rfl
  have hlt : H * 60 * 60 * 1000 * 1000000 + M * 60 * 1000 * 1000000 + S * 1000 * 1000000 +
      L * 1000000 < 18446744073709551616 := by omega
  rw [hsum, BitVec.toNat_ofNat, Nat.mod_eq_of_lt hlt]
  exact ⟨by omega, by omega, by omega, by omega, by omega⟩

/-- Parts of which one is out of its range make the first instant of the day. -/
theorem concat_of_not_inRange {parts : Parts} (h : ¬parts.InRange) :
    func_CONCAT_LTOD parts = 0 := by
  rw [func_CONCAT_LTOD]
  split_ifs with hhour hminute hsecond hmillisecond
  · rfl
  · rfl
  · rfl
  · rfl
  · exact absurd ⟨Nat.not_lt.mp hhour, Nat.not_lt.mp hminute, Nat.not_lt.mp hsecond,
      Nat.not_lt.mp hmillisecond⟩ h

end Forte.TimeOfDay
