import Forte.Datatypes.AnyInt
import Forte.Datatypes.BitStrings
import Forte.Lib.NativeBits
import Forte.Lib.PlaceValues
import Forte.Lib.Rounds

/-!
# Binary coded decimals

`func_TO_BCD`, `func_BCD_TO` and `func_IS_VALID_BCD`. Each of them goes through the bytes of a bit
string, two digits of four bits to a byte. A round is the same two statements twice, for the lower
and for the upper four bits.

With the digits of `Forte.Places`, one direction takes the decimal digits of a number and leaves
what has them as hexadecimal ones (`Forte.Bcd.toBCD_eq`), the other one takes the hexadecimal digits
and leaves the number that has them as decimal ones, modulo what the type has room for
(`Forte.Bcd.bcdTo_eq`).
-/

namespace Forte.Bcd

open NativeType Places

/-- `sizeof` of the `TValueType` of a bit string. -/
def width (t : AnyBit) : ℕ := t.digits / 8

/-! ### `func_TO_BCD` -/

/-- `bcdValue` and `sourceValue`. -/
structure Encoding (U : AnyBit) (T : AnyInt) where
  bcdValue : U.native.Value
  sourceValue : T.native.Value

/-- One digit of `func_TO_BCD`, which is put at a bit. -/
def putDigit {U : AnyBit} {T : AnyInt} (bit : ℕ) (s : Encoding U T) : Option (Encoding U T) := do
  let divisor := T.native.convert 10
  let digit ← mod s.sourceValue divisor
  let shifted ← shiftLeft (U.native.convert digit) bit
  let bcdValue ← add s.bcdValue shifted
  let sourceValue ← div s.sourceValue divisor
  pure { bcdValue := U.native.convert bcdValue, sourceValue := T.native.convert sourceValue }

/-- `func_TO_BCD`; `none` is undefined behaviour. -/
def func_TO_BCD (U : AnyBit) {T : AnyInt} (paVal : T.native.Value) : Option U.Value := do
  let s ← (List.range (width U)).foldlM
    (fun s i => do
      let s ← putDigit (i * 8) s
      putDigit (i * 8 + 4) s)
    { bcdValue := U.native.convert 0, sourceValue := paVal }
  pure (AnyBit.ofNative s.bcdValue)

/-! ### `func_BCD_TO` -/

/-- `targetValue` and `multiplicator`. -/
structure Decoding (U : AnyInt) where
  targetValue : U.native.Value
  multiplicator : U.native.Value

/-- One digit of `func_BCD_TO`, which is taken from a bit on. -/
def takeDigit {U : AnyInt} {T : AnyBit} (sourceValue : T.native.Value) (bit : ℕ) (s : Decoding U) :
    Option (Decoding U) := do
  let shifted ← shiftRight sourceValue bit
  let digit := NativeType.and shifted (NativeType.int.convert 0x0F)
  let product ← mul digit s.multiplicator
  let targetValue ← add s.targetValue (U.native.convert product)
  let multiplicator ← mul s.multiplicator (NativeType.int.convert 10)
  pure { targetValue := U.native.convert targetValue
         multiplicator := U.native.convert multiplicator }

/-- `func_BCD_TO`; `none` is undefined behaviour. -/
def func_BCD_TO (U : AnyInt) {T : AnyBit} (paVal : T.Value) : Option U.native.Value := do
  let sourceValue := AnyBit.toNative paVal
  let s ← (List.range (width T)).foldlM
    (fun s i => do
      let s ← takeDigit sourceValue (i * 8) s
      takeDigit sourceValue (i * 8 + 4) s)
    { targetValue := U.native.convert 0, multiplicator := U.native.convert 1 }
  pure s.targetValue

/-! ### `func_IS_VALID_BCD` -/

/-- `unsigned int`. -/
def unsignedInt : NativeType := ⟨false, 32, Nat.succ_pos 31⟩

/-- The comparison for four bits. -/
def exceeds {T : AnyBit} (value : T.native.Value) (bit : ℕ) : Option Bool := do
  let shifted ← shiftRight value bit
  pure (gt (NativeType.and shifted (T.native.convert 0x0F)) (unsignedInt.convert 9))

/-- `func_IS_VALID_BCD`. -/
def func_IS_VALID_BCD {T : AnyBit} (paValue : T.Value) : Option Bool :=
  let value := AnyBit.toNative paValue
  (List.range (width T)).allM fun i => do
    if ← exceeds value (i * 8) then pure false
    else if ← exceeds value (i * 8 + 4) then pure false
    else pure true

/-! ### Digits of four bits -/

/-- The digit of four bits at a place. -/
def nibble {t : AnyBit} (x : t.Value) (k : ℕ) : ℕ := digit 16 x.toNat k

/-- The number that binary coded digits stand for. -/
def number {t : AnyBit} (x : t.Value) : ℕ := value 10 (nibble x) (2 * width t)

section Places

variable {B : AnyBit} {k : ℕ}

theorem digits_eq (hB : B ≠ .bool) : B.digits = 4 * (2 * width B) := by
  cases B with
  | bool => exact absurd rfl hB
  | _ => rfl

theorem two_pow_digits (hB : B ≠ .bool) : 2 ^ B.digits = 16 ^ (2 * width B) := by
  rw [digits_eq hB, pow_mul]
  rfl

/-- All of the shifts are defined. -/
theorem bit_lt (hB : B ≠ .bool) (hk : k < 2 * width B) : 4 * k < B.native.promote.width := by
  have hwidth : B.digits ≤ B.native.promote.width := B.native.width_le_promote
  have := digits_eq hB
  omega

/-- Four bits, as they are taken out. -/
theorem nibble_eq (x : B.Value) (k : ℕ) :
    ((AnyBit.toNative x).val / 2 ^ (4 * k)) % 2 ^ 4 = (nibble x k : ℤ) := by
  rw [nibble, digit, pow_mul]
  push_cast
  rfl

/-- A bit string has the value of its digits. -/
theorem value_nibble (hB : B ≠ .bool) (x : B.Value) :
    value 16 (nibble x) (2 * width B) = x.toNat := by
  have hlt : x.toNat < 16 ^ (2 * width B) := two_pow_digits hB ▸ x.isLt
  exact (value_digit 16 x.toNat _).trans (Nat.mod_eq_of_lt hlt)

end Places

/-! ### The rounds -/

section Encoding

variable {U : AnyBit} {T : AnyInt} {x k : ℕ}

/-- What the first digits of a number leave. -/
def Encoded (x k : ℕ) (s : Encoding U T) : Prop :=
  s.bcdValue.val = value 16 (digit 10 x) k ∧ s.sourceValue.val = (x / 10 ^ k : ℕ)

theorem value_lt_two_pow (hU : U ≠ .bool) (hk : k ≤ 2 * width U) (x : ℕ) :
    value 16 (digit 10 x) k < 2 ^ U.digits := by
  have hdigits : ∀ j < k, digit 10 x j < 16 := fun j _ =>
    (digit_lt (by decide) x j).trans (by decide)
  rw [two_pow_digits hU]
  exact (value_lt hdigits).trans_le (Nat.pow_le_pow_right (by decide) hk)

theorem putDigit_spec (hU : U ≠ .bool) (hk : k < 2 * width U) {s : Encoding U T}
    (h : Encoded x k s) : ∃ s', putDigit (4 * k) s = some s' ∧ Encoded x (k + 1) s' := by
  obtain ⟨hbcd, hsource⟩ := h
  have hten : (T.native.convert 10).val = 10 := Fits.convert_val (by cases T <;> decide)
  have hsource0 : 0 ≤ s.sourceValue.val := hsource ▸ Int.natCast_nonneg _
  have hten0 : 0 < (T.native.convert 10).val := by rw [hten]; decide
  -- the digit
  obtain ⟨d, hmod, hd⟩ := exists_mod s.sourceValue (T.native.convert 10) hsource0 hten0
  have hd : d.val = (digit 10 x k : ℕ) := by
    rw [hd, hten, hsource, digit]
    push_cast
    rfl
  have hlt : value 16 (digit 10 x) k + digit 10 x k * 2 ^ (4 * k) < 2 ^ U.digits := by
    rw [pow_mul]
    exact value_lt_two_pow hU hk x
  have hone : 1 ≤ 2 ^ (4 * k) := Nat.one_le_two_pow
  have hdlt : digit 10 x k ≤ digit 10 x k * 2 ^ (4 * k) := Nat.le_mul_of_pos_right _ hone
  have hconvert : (U.native.convert d).val = (digit 10 x k : ℕ) := by
    rw [hd]
    exact Fits.convert_val
      (AnyBit.native_fits (Int.natCast_nonneg _) (by exact_mod_cast (by omega)))
  -- at its place
  obtain ⟨shifted, hshift, hshifted⟩ := exists_shiftLeft (U.native.convert d) (bit_lt hU hk)
    (by
      rw [hconvert]
      exact AnyBit.native_fits (by exact_mod_cast Nat.zero_le _) (by exact_mod_cast (by omega)))
  have hshifted : shifted.val = (digit 10 x k * 2 ^ (4 * k) : ℕ) := by
    rw [hshifted, hconvert]
    push_cast
    rfl
  have hsum : U.native.Fits (s.bcdValue.val + shifted.val) := by
    rw [hbcd, hshifted]
    exact AnyBit.native_fits (by exact_mod_cast Nat.zero_le _) (by exact_mod_cast hlt)
  obtain ⟨bcdValue, hadd, hbcdValue⟩ := exists_add s.bcdValue shifted hsum hsum.1
  -- and the digits that are left
  obtain ⟨rest, hdiv, hrest⟩ := exists_div s.sourceValue (T.native.convert 10) hsource0 hten0
  have hle : rest.val ≤ s.sourceValue.val := hrest ▸ Int.ediv_le_self _ hsource0
  have hrest0 : 0 ≤ rest.val := hrest ▸ Int.ediv_nonneg hsource0 hten0.le
  have hfits : T.native.Fits rest.val :=
    ⟨T.native.range.2.1.trans hrest0, hle.trans s.sourceValue.2.2⟩
  refine ⟨{ bcdValue := U.native.convert bcdValue, sourceValue := T.native.convert rest },
    ?_, ?_, ?_⟩
  · rw [putDigit, hmod, Option.bind_eq_bind, Option.bind_some, hshift, Option.bind_eq_bind,
      Option.bind_some, hadd, Option.bind_eq_bind, Option.bind_some, hdiv]
    rfl
  · rw [hbcdValue]
    refine hsum.convert_val.trans ?_
    rw [hbcd, hshifted, value, pow_mul]
    push_cast
    rfl
  · refine hfits.convert_val.trans ?_
    rw [hrest, hten, hsource, Nat.pow_succ, ← Nat.div_div_eq_div_mul]
    rfl

/-- **`func_TO_BCD`** leaves the decimal digits of a number as hexadecimal ones. -/
theorem toBCD_eq (hU : U ≠ .bool) (paVal : T.native.Value) (h : 0 ≤ paVal.val) :
    ∃ b, func_TO_BCD U paVal = some b ∧
      b.toNat = value 16 (digit 10 paVal.val.toNat) (2 * width U) := by
  have hround : ∀ i < width U, ∀ s : Encoding U T, Encoded paVal.val.toNat (2 * i) s →
      ∃ s', (do
        let s ← putDigit (i * 8) s
        putDigit (i * 8 + 4) s) = some s' ∧ Encoded paVal.val.toNat (2 * (i + 1)) s' := by
    intro i hi s hs
    obtain ⟨s', hlower, hs'⟩ := putDigit_spec hU (by omega) hs
    obtain ⟨s'', hupper, hs''⟩ := putDigit_spec hU (by omega) hs'
    refine ⟨s'', ?_, hs''⟩
    rw [(by omega : i * 8 = 4 * (2 * i)), hlower, Option.bind_eq_bind, Option.bind_some,
      (by omega : 4 * (2 * i) + 4 = 4 * (2 * i + 1)), hupper]
  have hinit : Encoded paVal.val.toNat (2 * 0)
      ({ bcdValue := U.native.convert 0, sourceValue := paVal } : Encoding U T) := by
    refine ⟨Fits.convert_val (by cases U <;> decide), ?_⟩
    simp [h]
  obtain ⟨s, hrun, hbcd, -⟩ := exists_foldlM_range hround hinit
  refine ⟨AnyBit.ofNative s.bcdValue, by rw [func_TO_BCD, hrun]; rfl, ?_⟩
  have hback := congrArg Subtype.val (AnyBit.toNative_ofNative s.bcdValue)
  rw [hbcd] at hback
  exact Int.natCast_inj.mp hback

end Encoding

section Decoding

variable {U : AnyInt} {T : AnyBit}

/-- Unsigned operands have a signed result only if both of them are promoted. -/
theorem product_signed (hU : U.native.signed = false) :
    ((T.native.promote.common .int).common U.native).signed = true →
      (T.native.promote.common .int).common U.native = .int ∧ U.native.max ≤ 65535 := by
  revert hU
  cases U <;> cases T <;> decide

theorem sum_signed (hU : U.native.signed = false) :
    (U.native.common U.native).signed = true →
      U.native.common U.native = .int ∧ U.native.max ≤ 65535 := by
  revert hU
  cases U <;> decide

theorem multiplicator_signed (hU : U.native.signed = false) :
    (U.native.common .int).signed = true →
      U.native.common .int = .int ∧ U.native.max ≤ 65535 := by
  revert hU
  cases U <;> decide

/-- No `int` overflows. -/
theorem fits_of_signed {c : NativeType} {z : ℤ} (hz : 0 ≤ z) (hle : z ≤ 15 * U.native.max)
    (hc : c.signed = true → c = .int ∧ U.native.max ≤ 65535) (h : c.signed = true) : c.Fits z := by
  obtain ⟨rfl, hmax⟩ := hc h
  have hint : (15 * 65535 : ℤ) ≤ NativeType.int.max := by decide
  exact ⟨(by decide : NativeType.int.min ≤ 0).trans hz, by omega⟩

/-- What the first digits of a bit string come to. -/
def Decoded (b : T.Value) (k : ℕ) (s : Decoding U) : Prop :=
  s.targetValue.val = U.native.wrap (value 10 (nibble b) k) ∧
    s.multiplicator.val = U.native.wrap (10 ^ k : ℕ)

theorem takeDigit_spec (hU : U.native.signed = false) (hT : T ≠ .bool) {b : T.Value} {k : ℕ}
    (hk : k < 2 * width T) {s : Decoding U} (h : Decoded b k s) :
    ∃ s', takeDigit (AnyBit.toNative b) (4 * k) s = some s' ∧ Decoded b (k + 1) s' := by
  obtain ⟨htarget, hmultiplicator⟩ := h
  have hmin := min_of_unsigned hU
  have hmax : (15 : ℤ) ≤ U.native.max := by cases U <;> decide
  -- the digit
  obtain ⟨shifted, hshift, hshifted⟩ :=
    exists_shiftRight (AnyBit.toNative b) (bit_lt hT hk) (AnyBit.native_nonneg _)
  have hshifted0 : 0 ≤ shifted.val := by
    rw [hshifted]
    exact Int.ediv_nonneg (AnyBit.native_nonneg _) (Int.pow_pos (by decide)).le
  have hdigit : (NativeType.and shifted (NativeType.int.convert 0x0F)).val = (nibble b k : ℤ) := by
    rw [and_val shifted (n := 4) _ hshifted0 (by decide), hshifted, nibble_eq]
  have hlt : nibble b k < 16 := digit_lt (by decide) _ _
  -- times its weight
  obtain ⟨hm0, hm⟩ := s.multiplicator.2
  rw [hmin] at hm0
  have hle : (nibble b k : ℤ) * s.multiplicator.val ≤ 15 * U.native.max :=
    Int.mul_le_mul (by exact_mod_cast Nat.le_of_lt_succ hlt) hm hm0 (by decide)
  obtain ⟨product, hmul, hproduct⟩ := exists_product
    (NativeType.and shifted (NativeType.int.convert 0x0F))
    s.multiplicator (by
      rw [hdigit]
      exact fits_of_signed (Int.mul_nonneg (Int.natCast_nonneg _) hm0) hle (product_signed hU))
  have hproduct : (U.native.convert product).val = U.native.wrap (nibble b k * 10 ^ k) := by
    refine (hproduct U.native (width_le_common_right _ _)).trans ?_
    rw [hdigit, hmultiplicator]
    exact wrap_eq_wrap_iff.mpr (by exact_mod_cast (wrap_modEq _ _).mul_left _)
  -- and added
  obtain ⟨ht0, ht⟩ := s.targetValue.2
  obtain ⟨hp0, hp⟩ := (U.native.convert product).2
  obtain ⟨targetValue, hadd, hsum⟩ := exists_sum s.targetValue (U.native.convert product)
    (fits_of_signed (by omega) (by omega) (sum_signed hU))
  have hten : (NativeType.int.convert 10).val = 10 := by decide
  obtain ⟨multiplicator, hnext, hmulten⟩ := exists_product s.multiplicator
    (NativeType.int.convert 10)
    (by
      rw [hten]
      exact fits_of_signed (by omega) (by omega) (multiplicator_signed hU))
  refine ⟨{ targetValue := U.native.convert targetValue
            multiplicator := U.native.convert multiplicator }, ?_, ?_, ?_⟩
  · rw [takeDigit]
    simp only [hshift, hmul, hadd, hnext, Option.bind_eq_bind, Option.bind_some]
    rfl
  · refine (hsum U.native (width_le_common_left _ _)).trans ?_
    rw [htarget, hproduct, value]
    exact wrap_eq_wrap_iff.mpr (by exact_mod_cast (wrap_modEq _ _).add (wrap_modEq _ _))
  · refine (hmulten U.native (width_le_common_left _ _)).trans ?_
    rw [hten, hmultiplicator, Nat.pow_succ]
    exact wrap_eq_wrap_iff.mpr (by exact_mod_cast (wrap_modEq _ _).mul_right _)

/-- **`func_BCD_TO`** leaves the number of the digits, modulo what there is room for. -/
theorem bcdTo_eq (hU : U.native.signed = false) (hT : T ≠ .bool) (b : T.Value) :
    func_BCD_TO U b = some (U.native.convert (number b)) := by
  have hround : ∀ i < width T, ∀ s : Decoding U, Decoded b (2 * i) s →
      ∃ s', (do
        let s ← takeDigit (AnyBit.toNative b) (i * 8) s
        takeDigit (AnyBit.toNative b) (i * 8 + 4) s) = some s' ∧ Decoded b (2 * (i + 1)) s' := by
    intro i hi s hs
    obtain ⟨s', hlower, hs'⟩ := takeDigit_spec hU hT (by omega) hs
    obtain ⟨s'', hupper, hs''⟩ := takeDigit_spec hU hT (by omega) hs'
    refine ⟨s'', ?_, hs''⟩
    rw [(by omega : i * 8 = 4 * (2 * i)), hlower, Option.bind_eq_bind, Option.bind_some,
      (by omega : 4 * (2 * i) + 4 = 4 * (2 * i + 1)), hupper]
  have hinit : Decoded b (2 * 0)
      ({ targetValue := U.native.convert 0, multiplicator := U.native.convert 1 } : Decoding U) :=
    ⟨rfl, rfl⟩
  obtain ⟨s, hrun, htarget, -⟩ := exists_foldlM_range hround hinit
  have hresult : s.targetValue = U.native.convert (number b) := Subtype.ext htarget
  have hfound : func_BCD_TO U b = some s.targetValue :=
    congrArg (Option.bind · fun s : Decoding U => some s.targetValue) hrun
  rw [hfound, hresult]

end Decoding

/-! ### Valid values -/

section Valid

variable {T : AnyBit}

theorem exceeds_eq (hT : T ≠ .bool) (b : T.Value) {k : ℕ} (hk : k < 2 * width T) :
    exceeds (AnyBit.toNative b) (4 * k) = some (decide (9 < nibble b k)) := by
  obtain ⟨shifted, hshift, hshifted⟩ :=
    exists_shiftRight (AnyBit.toNative b) (bit_lt hT hk) (AnyBit.native_nonneg _)
  have hshifted0 : 0 ≤ shifted.val := by
    rw [hshifted]
    exact Int.ediv_nonneg (AnyBit.native_nonneg _) (Int.pow_pos (by decide)).le
  have hmask : (T.native.convert 0x0F).val = 2 ^ 4 - 1 := by
    refine Fits.convert_val ?_
    cases T with
    | bool => exact absurd rfl hT
    | _ => decide
  have hdigit : (NativeType.and shifted (T.native.convert 0x0F)).val = (nibble b k : ℤ) := by
    rw [and_val shifted _ hshifted0 hmask, hshifted, nibble_eq]
  have hnine : (unsignedInt.convert 9).val = 9 := by decide
  rw [exceeds, hshift, Option.bind_eq_bind, Option.bind_some,
    gt_eq _ _ (hdigit ▸ Int.natCast_nonneg _) (hnine ▸ by decide), hdigit, hnine]
  exact congrArg some (decide_eq_decide.mpr (by exact_mod_cast Iff.rfl))

/-- **`func_IS_VALID_BCD`** accepts decimal digits. -/
theorem isValidBCD_eq (hT : T ≠ .bool) (b : T.Value) :
    func_IS_VALID_BCD b = some (decide (∀ k < 2 * width T, nibble b k ≤ 9)) := by
  have hround : ∀ i ∈ List.range (width T), (do
      if ← exceeds (AnyBit.toNative b) (i * 8) then pure false
      else if ← exceeds (AnyBit.toNative b) (i * 8 + 4) then pure false
      else pure true) = some (decide (nibble b (2 * i) ≤ 9 ∧ nibble b (2 * i + 1) ≤ 9)) := by
    intro i hi
    have hi := List.mem_range.mp hi
    rw [(by omega : i * 8 = 4 * (2 * i)), exceeds_eq hT b (by omega), Option.bind_eq_bind,
      Option.bind_some, (by omega : 4 * (2 * i) + 4 = 4 * (2 * i + 1)), exceeds_eq hT b (by omega)]
    by_cases hlower : 9 < nibble b (2 * i) <;> by_cases hupper : 9 < nibble b (2 * i + 1)
    all_goals simp [hlower, hupper, Nat.not_le.mpr, Nat.not_lt.mp]
  rw [func_IS_VALID_BCD, allM_eq_all hround]
  refine congrArg some (Bool.eq_iff_iff.mpr ?_)
  rw [List.all_eq_true, decide_eq_true_eq]
  constructor
  · intro h k hk
    have hpair := h (k / 2) (List.mem_range.mpr (by omega))
    rw [decide_eq_true_eq] at hpair
    rcases Nat.mod_two_eq_zero_or_one k with hk | hk
    · rw [(by omega : k = 2 * (k / 2))]
      exact hpair.1
    · rw [(by omega : k = 2 * (k / 2) + 1)]
      exact hpair.2
  · intro h i hi
    have hi := List.mem_range.mp hi
    rw [decide_eq_true_eq]
    exact ⟨h _ (by omega), h _ (by omega)⟩

end Valid

/-! ### There and back -/

/-- The digits of what `func_TO_BCD` leaves. -/
theorem nibble_of_toBCD {B : AnyBit} {b : B.Value} {x : ℕ}
    (h : b.toNat = value 16 (digit 10 x) (2 * width B)) {k : ℕ} (hk : k < 2 * width B) :
    nibble b k = digit 10 x k := by
  have hdigits : ∀ j < 2 * width B, digit 10 x j < 16 := fun j _ =>
    (digit_lt (by decide) x j).trans (by decide)
  rw [nibble, h, digit_value hdigits hk]

/-- **Binary coded decimals and numbers** of unsigned types `T` and `U`, in a bit string of `B`.

`func_TO_BCD` leaves a valid value whose digits are those of the number, each of them in its own
four bits, and `func_BCD_TO` restores the number modulo the power of ten that the digits reach to
if its type has it. Out of a valid value `func_BCD_TO` leaves the number of its digits if its type
has it, and `func_TO_BCD` restores the value. -/
theorem bcd (T U : AnyInt) (B : AnyBit) (hT : T.native.signed = false)
    (hU : U.native.signed = false) (hB : B ≠ .bool) :
    (∀ x : T.native.Value, ∃ b, func_TO_BCD B x = some b ∧ func_IS_VALID_BCD b = some true ∧
      (∀ k < 2 * width B, (nibble b k : ℤ) = x / 10 ^ k % 10) ∧
      ∀ y : U.native.Value, y.val = x % 100 ^ width B → func_BCD_TO U b = some y) ∧
    (∀ b : B.Value, func_IS_VALID_BCD b = some true → ∀ x : U.native.Value,
      x.val = number b → func_BCD_TO U b = some x ∧ func_TO_BCD B x = some b) := by
  constructor
  · intro x
    have hx : 0 ≤ x.val := (min_of_unsigned hT).symm.le.trans x.2.1
    obtain ⟨n, hn⟩ := Int.eq_ofNat_of_zero_le hx
    obtain ⟨b, hto, hb⟩ := toBCD_eq hB x hx
    rw [hn, Int.toNat_natCast] at hb
    refine ⟨b, hto, ?_, fun k hk => ?_, fun y hy => ?_⟩
    · rw [isValidBCD_eq hB]
      refine congrArg some (decide_eq_true fun k hk => ?_)
      rw [nibble_of_toBCD hb hk]
      exact Nat.le_of_lt_succ (digit_lt (by decide) n k)
    · rw [nibble_of_toBCD hb hk, hn, digit]
      push_cast
      rfl
    · have hnumber : (number b : ℤ) = y.val := by
        rw [number, value_congr fun k hk => nibble_of_toBCD hb hk, value_digit, pow_mul, hy, hn]
        push_cast
        rfl
      rw [bcdTo_eq hU hB, hnumber]
      exact congrArg some (Subtype.ext y.2.convert_val)
  · intro b hvalid x hx
    have hdigits : ∀ k < 2 * width B, nibble b k < 10 := by
      rw [isValidBCD_eq hB, Option.some_inj, decide_eq_true_eq] at hvalid
      exact fun k hk => Nat.lt_succ_of_le (hvalid k hk)
    have hx0 : 0 ≤ x.val := hx ▸ Int.natCast_nonneg _
    obtain ⟨b', hto, hb'⟩ := toBCD_eq hB x hx0
    refine ⟨?_, ?_⟩
    · rw [bcdTo_eq hU hB, ← hx]
      exact congrArg some (Subtype.ext x.2.convert_val)
    · have hback : b'.toNat = b.toNat := by
        rw [hb', hx, Int.toNat_natCast, ← value_nibble hB b]
        exact value_congr fun k hk => digit_value hdigits hk
      rw [hto, BitVec.eq_of_toNat_eq hback]

/-- The number 1234 in a `CIEC_BYTE` keeps its last two digits, and 99 is read from 0x99. -/
theorem bcd_byte :
    (∃ b, func_TO_BCD .byte ((AnyInt.native .uint).convert 1234) = some b ∧
      func_BCD_TO .usint b = some ((AnyInt.native .usint).convert 34)) ∧
    func_BCD_TO .usint (T := .byte) 0x99#8 = some ((AnyInt.native .usint).convert 99) := by
  obtain ⟨hto, hback⟩ := bcd .uint .usint .byte rfl rfl (by decide)
  constructor
  · obtain ⟨b, hb, -, -, hy⟩ := hto ((AnyInt.native .uint).convert 1234)
    exact ⟨b, hb, hy _ (by decide)⟩
  · exact (hback 0x99#8 (by decide) _ (by decide)).1

end Forte.Bcd
