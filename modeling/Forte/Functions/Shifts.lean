import Forte.Datatypes.BitStrings
import Forte.Datatypes.IntValues

/-!
# Shifts and rotations

`func_SHL`, `func_SHR`, `func_ROL` and `func_ROR`, for the bit strings of more than one bit; the
specializations for `CIEC_BOOL` are only declared. A negative number of positions gives zero, any
other one goes into the shifts of the language as it is, and so does what it leaves of the width,
which is computed in 64 bits.

A rotation therefore works up to the width and not beyond, and without the two ends where the type
is not promoted (`Forte.Shifts.rotates_iff_lt`). A shift works up to the width of what the type is
promoted to (`Forte.Shifts.shifts_iff`).
-/

namespace Forte.Shifts

open AnyBit

variable {T : AnyBit}

/-- The test of the number of positions. -/
def notNegative (paN : CIEC_ANY_INT) : Bool :=
  (true == paN.isSigned && decide (0 ≤ paN.getSignedValue)) || false == paN.isSigned

/-- `sizeof (TValueType) * 8 - paN.getUnsignedValue()`, in 64 bits. -/
def counterShift (T : AnyBit) (paN : CIEC_ANY_INT) : ℕ :=
  (BitVec.ofNat 64 T.digits - BitVec.ofNat 64 paN.getUnsignedValue).toNat

/-- `func_SHL`; `none` is undefined behaviour. -/
def func_SHL (paIn : T.Value) (paN : CIEC_ANY_INT) : Option T.Value :=
  if notNegative paN then do
    let shifted ← shiftLeft (promote paIn) paN.getUnsignedValue
    pure (T.convert shifted)
  else pure 0

/-- `func_SHR`. -/
def func_SHR (paIn : T.Value) (paN : CIEC_ANY_INT) : Option T.Value :=
  if notNegative paN then do
    let shifted ← shiftRight (promote paIn) paN.getUnsignedValue
    pure (T.convert shifted)
  else pure 0

/-- `func_ROL`. -/
def func_ROL (paIn : T.Value) (paN : CIEC_ANY_INT) : Option T.Value :=
  if notNegative paN then do
    let left ← shiftLeft (promote paIn) paN.getUnsignedValue
    let right ← shiftRight (promote paIn) (counterShift T paN)
    pure (T.convert (left ||| right))
  else pure 0

/-- `func_ROR`. -/
def func_ROR (paIn : T.Value) (paN : CIEC_ANY_INT) : Option T.Value :=
  if notNegative paN then do
    let right ← shiftRight (promote paIn) paN.getUnsignedValue
    let left ← shiftLeft (promote paIn) (counterShift T paN)
    pure (T.convert (right ||| left))
  else pure 0

/-! ### Numbers of positions -/

section Positions

variable {t : AnyInt} (N : t.native.Value)

theorem notNegative_eq (hN : 0 ≤ N.val) : notNegative (.ofValue N) = true := by
  have h := (CIEC_ANY_INT.not_negative_iff N).mpr hN
  rw [notNegative, Bool.or_eq_true, Bool.and_eq_true, beq_iff_eq, beq_iff_eq, decide_eq_true_eq]
  exact h.imp (fun h => ⟨h.1.symm, h.2⟩) Eq.symm

theorem getUnsignedValue_eq (hN : 0 ≤ N.val) :
    (CIEC_ANY_INT.ofValue N).getUnsignedValue = N.val.toNat := by
  have h := CIEC_ANY_INT.getUnsignedValue_ofValue N hN
  omega

/-- What is left of the width; beyond the width it is a huge number. -/
theorem counterShift_eq (hN : 0 ≤ N.val) (hn : N.val.toNat < T.promoted) :
    counterShift T (.ofValue N) = if N.val.toNat ≤ T.digits then T.digits - N.val.toNat
      else 2 ^ 64 - (N.val.toNat - T.digits) := by
  have hdigits : T.digits ≤ 64 := by cases T <;> decide
  have hpromoted : T.promoted ≤ 64 := by cases T <;> decide
  rw [counterShift, getUnsignedValue_eq N hN, BitVec.toNat_sub, BitVec.toNat_ofNat,
    BitVec.toNat_ofNat]
  split_ifs <;> omega

end Positions

/-- The numbers of positions that a rotation can deal with. -/
def Rotates (T : AnyBit) (n : ℕ) : Prop :=
  n ≤ T.digits ∧ n < T.promoted ∧ T.digits - n < T.promoted

instance (T : AnyBit) (n : ℕ) : Decidable (Rotates T n) :=
  inferInstanceAs (Decidable (_ ∧ _ ∧ _))

/-- In the promoted type no bit gets into the way. -/
theorem setWidth_promote_shiftRight (x : T.Value) (n : ℕ) :
    (promote x >>> n).setWidth T.digits = x >>> n := by
  refine BitVec.eq_of_getLsbD_eq fun k hk => ?_
  rw [BitVec.getLsbD_setWidth, getLsbD_promote_shiftRight, decide_eq_true hk, Bool.true_and,
    BitVec.getLsbD_ushiftRight]

/-- Two shifts the other way round make a rotation, at both ends as well. -/
theorem shiftLeft_or_shiftRight {w n : ℕ} (hn : n ≤ w) (x : BitVec w) :
    x <<< n ||| x >>> (w - n) = x.rotateLeft n := by
  rw [BitVec.rotateLeft_def]
  rcases Nat.lt_or_eq_of_le hn with hlt | rfl
  · rw [Nat.mod_eq_of_lt hlt]
  · simp [BitVec.ushiftRight_eq_zero]

theorem shiftRight_or_shiftLeft {w n : ℕ} (hn : n ≤ w) (x : BitVec w) :
    x >>> n ||| x <<< (w - n) = x.rotateRight n := by
  rw [BitVec.rotateRight_def]
  rcases Nat.lt_or_eq_of_le hn with hlt | rfl
  · rw [Nat.mod_eq_of_lt hlt]
  · simp [BitVec.ushiftRight_eq_zero]

/-! ### What the functions do -/

section Functions

variable {t : AnyInt} {N : t.native.Value}

theorem func_SHL_eq (hT : T ≠ .bool) (x : T.Value) (hN : 0 ≤ N.val) :
    func_SHL x (.ofValue N) =
      if N.val.toNat < T.promoted then some (x <<< N.val.toNat) else none := by
  rw [func_SHL, if_pos (notNegative_eq N hN), getUnsignedValue_eq N hN, shiftLeft]
  split_ifs
  · exact congrArg some ((convert_eq (.inl hT)).trans (setWidth_promote_shiftLeft x _))
  · rfl

theorem func_SHR_eq (hT : T ≠ .bool) (x : T.Value) (hN : 0 ≤ N.val) :
    func_SHR x (.ofValue N) =
      if N.val.toNat < T.promoted then some (x >>> N.val.toNat) else none := by
  rw [func_SHR, if_pos (notNegative_eq N hN), getUnsignedValue_eq N hN, shiftRight]
  split_ifs
  · exact congrArg some ((convert_eq (.inl hT)).trans (setWidth_promote_shiftRight x _))
  · rfl

/-- Both shifts of a rotation are defined. -/
theorem rotates_iff_lt (hN : 0 ≤ N.val) : Rotates T N.val.toNat ↔
    N.val.toNat < T.promoted ∧ counterShift T (.ofValue N) < T.promoted := by
  have hpromoted : T.promoted ≤ 64 := by cases T <;> decide
  constructor
  · rintro ⟨hle, hlt, hcounter⟩
    rw [counterShift_eq N hN hlt, if_pos hle]
    exact ⟨hlt, hcounter⟩
  · rintro ⟨hlt, hcounter⟩
    rw [counterShift_eq N hN hlt] at hcounter
    split_ifs at hcounter with hle
    · exact ⟨hle, hlt, hcounter⟩
    · omega

/-- The two shifts of a rotation, of which the second one has the counter shift. -/
theorem both_shifts {α β γ : Type} (hN : 0 ≤ N.val) (a : α) (b : β) (combine : α → β → γ) :
    ((if N.val.toNat < T.promoted then some a else none) >>= fun first =>
      (if counterShift T (.ofValue N) < T.promoted then some b else none) >>= fun second =>
        pure (combine first second)) =
      if Rotates T N.val.toNat then some (combine a b) else none := by
  by_cases h : Rotates T N.val.toNat
  · obtain ⟨hlt, hcounter⟩ := (rotates_iff_lt hN).mp h
    rw [if_pos hlt, if_pos hcounter, if_pos h]
    rfl
  · have hnot := mt (rotates_iff_lt hN).mpr h
    rw [if_neg h]
    by_cases hlt : N.val.toNat < T.promoted
    · rw [if_pos hlt, if_neg fun hcounter => hnot ⟨hlt, hcounter⟩]
      rfl
    · rw [if_neg hlt]
      rfl

theorem func_ROL_eq (hT : T ≠ .bool) (x : T.Value) (hN : 0 ≤ N.val) :
    func_ROL x (.ofValue N) =
      if Rotates T N.val.toNat then some (x.rotateLeft N.val.toNat) else none := by
  rw [func_ROL, if_pos (notNegative_eq N hN), getUnsignedValue_eq N hN, shiftLeft, shiftRight,
    both_shifts hN]
  refine ite_congr rfl (fun h => ?_) fun _ => rfl
  rw [counterShift_eq N hN h.2.1, if_pos h.1, convert_eq (.inl hT), BitVec.setWidth_or,
    setWidth_promote_shiftLeft, setWidth_promote_shiftRight, shiftLeft_or_shiftRight h.1]

theorem func_ROR_eq (hT : T ≠ .bool) (x : T.Value) (hN : 0 ≤ N.val) :
    func_ROR x (.ofValue N) =
      if Rotates T N.val.toNat then some (x.rotateRight N.val.toNat) else none := by
  rw [func_ROR, if_pos (notNegative_eq N hN), getUnsignedValue_eq N hN, shiftLeft, shiftRight,
    both_shifts hN]
  refine ite_congr rfl (fun h => ?_) fun _ => rfl
  rw [counterShift_eq N hN h.2.1, if_pos h.1, convert_eq (.inl hT), BitVec.setWidth_or,
    setWidth_promote_shiftLeft, setWidth_promote_shiftRight, shiftRight_or_shiftLeft h.1]

/-- What was rotated to the left is rotated back, as long as the number of positions allows it. -/
theorem rotateRight_rotateLeft (x : T.Value) (n : ℕ) : (x.rotateLeft n).rotateRight n = x := by
  have hmod : n % T.digits < T.digits := Nat.mod_lt _ (by cases T <;> decide)
  refine BitVec.eq_of_getLsbD_eq fun k hk => ?_
  rw [BitVec.getLsbD_rotateRight, BitVec.getLsbD_rotateLeft, BitVec.getLsbD_rotateLeft]
  by_cases h : k < T.digits - n % T.digits
  · have hlt : n % T.digits + k < T.digits := by omega
    simp [h, hlt]
  · have hlt : k - (T.digits - n % T.digits) < n % T.digits := by omega
    have hback : T.digits - n % T.digits + (k - (T.digits - n % T.digits)) = k := by omega
    simp [h, hk, hlt, hback]

/-- **Shifts and rotations** of bit strings of more than one bit by a number of positions of any
integer type that is not negative: the shifts are those of the numbers, and the rotations those by
the number modulo the width, exactly where the shifts of the language are defined. -/
theorem shifts_iff (hT : T ≠ .bool) (x : T.Value) (hN : 0 ≤ N.val) :
    (func_SHL x (.ofValue N) = some (BitVec.ofNat _ (x.toNat * 2 ^ N.val.toNat)) ↔
      N.val.toNat < T.promoted) ∧
    (func_SHR x (.ofValue N) = some (BitVec.ofNat _ (x.toNat / 2 ^ N.val.toNat)) ↔
      N.val.toNat < T.promoted) ∧
    (func_ROL x (.ofValue N) = some (x.rotateLeft (N.val.toNat % T.digits)) ↔
      Rotates T N.val.toNat) ∧
    (func_ROR x (.ofValue N) = some (x.rotateRight (N.val.toNat % T.digits)) ↔
      Rotates T N.val.toNat) ∧
    ((∃ y, func_ROL x (.ofValue N) = some y ∧ func_ROR y (.ofValue N) = some x) ↔
      Rotates T N.val.toNat) := by
  have hleft : x <<< N.val.toNat = BitVec.ofNat _ (x.toNat * 2 ^ N.val.toNat) := by
    refine BitVec.eq_of_toNat_eq ?_
    rw [BitVec.toNat_shiftLeft, BitVec.toNat_ofNat, Nat.shiftLeft_eq]
  have hright : x >>> N.val.toNat = BitVec.ofNat _ (x.toNat / 2 ^ N.val.toNat) := by
    refine BitVec.eq_of_toNat_eq ?_
    rw [BitVec.toNat_ushiftRight, BitVec.toNat_ofNat, Nat.shiftRight_eq_div_pow,
      Nat.mod_eq_of_lt ((Nat.div_le_self _ _).trans_lt x.isLt)]
  rw [func_SHL_eq hT x hN, func_SHR_eq hT x hN, func_ROL_eq hT x hN, func_ROR_eq hT x hN, ← hleft,
    ← hright, BitVec.rotateLeft_mod_eq_rotateLeft, BitVec.rotateRight_mod_eq_rotateRight]
  refine ⟨by simp, by simp, by simp, by simp, ?_⟩
  by_cases h : Rotates T N.val.toNat
  · simp [func_ROR_eq hT _ hN, h, rotateRight_rotateLeft]
  · simp [h]

/-- A byte rotated by all of its positions. -/
theorem shifts_iff_byte :
    func_ROL (T := .byte) 0x81#8 (.ofValue ((AnyInt.native .sint).convert 8)) = some 0x81#8 :=
  (shifts_iff (T := .byte) (t := .sint) (by decide) 0x81#8 (by decide)).2.2.1.mpr (by decide)

/-- Rotations by no position and by more than the width, and a shift by the width. -/
theorem shifts_undefined :
    func_ROL (T := .lword) 1#64 (.ofValue ((AnyInt.native .usint).convert 0)) = none ∧
    func_ROR (T := .byte) 1#8 (.ofValue ((AnyInt.native .usint).convert 9)) = none ∧
    func_SHL (T := .dword) 1#32 (.ofValue ((AnyInt.native .usint).convert 32)) = none := by
  decide

end Functions

end Forte.Shifts
