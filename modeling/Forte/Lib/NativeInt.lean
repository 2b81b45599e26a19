import Mathlib.Data.Int.ModEq

/-!
# Integers of a machine

The integer types of C++ and what its operators do with them. Operands of less than 32 bits are
promoted to `int`; of two types the wider one is used, and of two of the same width the unsigned
one. Unsigned results are reduced, signed results that do not fit are undefined, and so is a
division by zero or one whose quotient does not fit. Conversions reduce.

Reducing is `Forte.NativeType.wrap`. It only depends on the number modulo `2 ^ width`
(`Forte.NativeType.wrap_eq_wrap_iff`) and leaves the values of the type as they are.
-/

namespace Forte

/-- An integer type. -/
structure NativeType where
  signed : Bool
  width : ℕ
  pos : 0 < width
  deriving DecidableEq

namespace NativeType

variable {s t : NativeType} {x y : ℤ}

/-- The number of values. -/
def modulus (t : NativeType) : ℤ := 2 ^ t.width

/-- The least value. -/
def min (t : NativeType) : ℤ := if t.signed then -2 ^ (t.width - 1) else 0

/-- The greatest value. -/
def max (t : NativeType) : ℤ := if t.signed then 2 ^ (t.width - 1) - 1 else 2 ^ t.width - 1

/-- The type has this value. -/
def Fits (t : NativeType) (x : ℤ) : Prop := t.min ≤ x ∧ x ≤ t.max

instance (t : NativeType) (x : ℤ) : Decidable (t.Fits x) :=
  inferInstanceAs (Decidable (t.min ≤ x ∧ x ≤ t.max))

/-- The values of the type. -/
abbrev Value (t : NativeType) : Type := {x : ℤ // t.Fits x}

/-- A conversion to the type. -/
def wrap (t : NativeType) (x : ℤ) : ℤ := (x - t.min) % t.modulus + t.min

/-! ### Conversions -/

theorem modulus_pos (t : NativeType) : 0 < t.modulus := Int.pow_pos (by decide)

/-- The values of a type are as many as the modulus says, and zero is one of them. -/
theorem range (t : NativeType) : t.max = t.min + t.modulus - 1 ∧ t.min ≤ 0 ∧ 0 ≤ t.max := by
  obtain ⟨w, hw⟩ := Nat.exists_eq_succ_of_ne_zero t.pos.ne'
  have hpow : (2 : ℤ) ^ t.width = 2 * 2 ^ (t.width - 1) := by
    rw [hw, Nat.succ_sub_one, Int.pow_succ, Int.mul_comm]
  have hpos : (0 : ℤ) < 2 ^ (t.width - 1) := Int.pow_pos (by decide)
  rw [max, min, modulus]
  split_ifs <;> omega

theorem fits_wrap (t : NativeType) (x : ℤ) : t.Fits (t.wrap x) := by
  have hnonneg := Int.emod_nonneg (x - t.min) t.modulus_pos.ne'
  have hlt := Int.emod_lt_of_pos (x - t.min) t.modulus_pos
  obtain ⟨hmax, -, -⟩ := t.range
  rw [Fits, wrap]
  omega

/-- **Conversions reduce.** -/
theorem wrap_modEq (t : NativeType) (x : ℤ) : t.wrap x ≡ x [ZMOD t.modulus] := by
  have h := (Int.mod_modEq (x - t.min) t.modulus).add_right t.min
  rwa [Int.sub_add_cancel] at h

theorem wrap_eq_wrap_iff : t.wrap x = t.wrap y ↔ x ≡ y [ZMOD t.modulus] := by
  constructor
  · intro h
    exact (t.wrap_modEq x).symm.trans (h ▸ t.wrap_modEq y)
  · intro h
    rw [wrap, wrap, (h.sub_right t.min : (x - t.min) % t.modulus = _)]

/-- Values are left as they are. -/
theorem Fits.wrap_eq (h : t.Fits x) : t.wrap x = x := by
  obtain ⟨hmin, hle⟩ := h
  obtain ⟨hmax, -, -⟩ := t.range
  rw [wrap, Int.emod_eq_of_lt (by omega) (by omega), Int.sub_add_cancel]

/-- What was reduced to more bits before is reduced in the same way. -/
theorem wrap_wrap (h : s.width ≤ t.width) (x : ℤ) : s.wrap (t.wrap x) = s.wrap x :=
  wrap_eq_wrap_iff.mpr ((t.wrap_modEq x).of_dvd (pow_dvd_pow 2 h))

/-- What a number is that lies one modulus above the values, or below them. -/
theorem wrap_of_lt (h : x < t.min) (hlt : t.min - t.modulus ≤ x) : t.wrap x = x + t.modulus := by
  obtain ⟨hmax, -, -⟩ := t.range
  have hfits : t.Fits (x + t.modulus) := ⟨by omega, by omega⟩
  rw [← hfits.wrap_eq]
  exact wrap_eq_wrap_iff.mpr (by simp [Int.ModEq])

theorem wrap_of_gt (h : t.max < x) (hlt : x ≤ t.max + t.modulus) : t.wrap x = x - t.modulus := by
  obtain ⟨hmax, -, -⟩ := t.range
  have hfits : t.Fits (x - t.modulus) := ⟨by omega, by omega⟩
  rw [← hfits.wrap_eq]
  exact wrap_eq_wrap_iff.mpr (by simp [Int.ModEq])

/-! ### Operators -/

/-- A conversion to the type. -/
def convert (t : NativeType) (x : ℤ) : t.Value := ⟨t.wrap x, t.fits_wrap x⟩

/-- `int`. -/
def int : NativeType := ⟨true, 32, by decide⟩

/-- An integral promotion. -/
def promote (t : NativeType) : NativeType := if t.width < 32 then int else t

/-- The usual arithmetic conversions. -/
def common (s t : NativeType) : NativeType :=
  let s := s.promote
  let t := t.promote
  if s.width < t.width ∨ s.width = t.width ∧ s.signed then t else s

/-- The result of an operator in the type of its operands; `none` is undefined behaviour. -/
def result (t : NativeType) (x : ℤ) : Option t.Value :=
  if t.signed ∧ ¬t.Fits x then none else some (t.convert x)

/-- `operator+`. -/
def add (x : s.Value) (y : t.Value) : Option (s.common t).Value :=
  (s.common t).result ((s.common t).wrap x + (s.common t).wrap y)

/-- `operator-`. -/
def sub (x : s.Value) (y : t.Value) : Option (s.common t).Value :=
  (s.common t).result ((s.common t).wrap x - (s.common t).wrap y)

/-- `operator*`. -/
def mul (x : s.Value) (y : t.Value) : Option (s.common t).Value :=
  (s.common t).result ((s.common t).wrap x * (s.common t).wrap y)

/-- `operator/`. -/
def div (x : s.Value) (y : t.Value) : Option (s.common t).Value :=
  if (s.common t).wrap y = 0 then none
  else (s.common t).result (((s.common t).wrap x).tdiv ((s.common t).wrap y))

/-- `operator%`, which is undefined where the quotient is. -/
def mod (x : s.Value) (y : t.Value) : Option (s.common t).Value :=
  if (s.common t).wrap y = 0 then none
  else
    ((s.common t).result (((s.common t).wrap x).tdiv ((s.common t).wrap y))).map fun _ =>
      (s.common t).convert (((s.common t).wrap x).tmod ((s.common t).wrap y))

/-- All values of the type are values of the other one. -/
def Within (s t : NativeType) : Prop := t.min ≤ s.min ∧ s.max ≤ t.max

instance (s t : NativeType) : Decidable (s.Within t) :=
  inferInstanceAs (Decidable (t.min ≤ s.min ∧ s.max ≤ t.max))

theorem Fits.of_within (hx : s.Fits x) (h : s.Within t) : t.Fits x :=
  ⟨h.1.trans hx.1, hx.2.trans h.2⟩

theorem result_of_unsigned (h : t.signed = false) : t.result x = some (t.convert x) :=
  if_neg (by simp [h])

theorem Fits.result_eq (h : t.Fits x) : t.result x = some (t.convert x) :=
  if_neg fun hnot => hnot.2 h

/-- A conversion behind the operator, to a type that is not wider. -/
theorem map_convert_val_result (h : s.width ≤ t.width) (x : ℤ) :
    ((t.result x).map fun r => s.convert r.val) =
      if t.signed ∧ ¬t.Fits x then none else some (s.convert x) := by
  rw [result]
  split_ifs
  · rfl
  · exact congrArg some (Subtype.ext (wrap_wrap h x))

/-- The same of the result as a number. -/
theorem map_convert_result (h : s.width ≤ t.width) (x : ℤ) :
    ((t.result x).map fun r => s.convert r) =
      if t.signed ∧ ¬t.Fits x then none else some (s.convert x) := by
  rw [← map_convert_val_result h]
  cases t.result x <;> rfl

/-- Results only depend on the number modulo `2 ^ width` where all of them are defined. -/
theorem result_congr (h : t.signed = false) (hxy : x ≡ y [ZMOD t.modulus]) :
    t.result x = t.result y := by
  rw [result_of_unsigned h, result_of_unsigned h]
  exact congrArg some (Subtype.ext (wrap_eq_wrap_iff.mpr hxy))

/-! ### Promotions lose nothing -/

theorem two_pow_le {m n : ℕ} (h : m ≤ n) : (2 : ℤ) ^ m ≤ 2 ^ n := by
  exact_mod_cast Nat.pow_le_pow_right (by decide) h

theorem min_le_of_width_le (h : s.width ≤ t.width) (ht : t.signed = true) : t.min ≤ s.min := by
  have hpow : (2 : ℤ) ^ (s.width - 1) ≤ 2 ^ (t.width - 1) := two_pow_le (by omega)
  have hpos : (0 : ℤ) < 2 ^ (t.width - 1) := Int.pow_pos (by decide)
  rw [min, min, if_pos ht]
  split_ifs <;> omega

theorem max_le_of_width_lt (h : s.width < t.width) : s.max ≤ t.max := by
  have hpow : (2 : ℤ) ^ s.width ≤ 2 ^ (t.width - 1) := two_pow_le (by omega)
  have hpow' : (2 : ℤ) ^ (s.width - 1) ≤ 2 ^ (t.width - 1) :=
    two_pow_le (by omega)
  have hpow'' : (2 : ℤ) ^ (t.width - 1) ≤ 2 ^ t.width := two_pow_le (by omega)
  rw [max, max]
  split_ifs <;> omega

theorem Fits.of_width_lt (h : s.Fits x) (hlt : s.width < t.width) (ht : t.signed = true) :
    t.Fits x :=
  ⟨(min_le_of_width_le hlt.le ht).trans h.1, h.2.trans (max_le_of_width_lt hlt)⟩

theorem Fits.of_signed (h : s.Fits x) (hle : s.width ≤ t.width) (hs : s.signed = true)
    (ht : t.signed = true) : t.Fits x := by
  refine ⟨(min_le_of_width_le hle ht).trans h.1, h.2.trans ?_⟩
  have hpow : (2 : ℤ) ^ (s.width - 1) ≤ 2 ^ (t.width - 1) :=
    two_pow_le (by omega)
  rw [max, max, if_pos hs, if_pos ht]
  omega

theorem Fits.promote (h : s.Fits x) : s.promote.Fits x := by
  rw [NativeType.promote]
  split_ifs with hlt
  · exact h.of_width_lt hlt rfl
  · exact h

theorem Fits.common (hs : s.Fits x) (hsigned : (s.common t).signed = true) :
    (s.common t).Fits x := by
  have h := hs.promote
  rw [NativeType.common] at hsigned ⊢
  split_ifs at hsigned ⊢ with hlt
  · rcases hlt with hlt | ⟨heq, hsame⟩
    · exact h.of_width_lt hlt hsigned
    · exact h.of_signed heq.le hsame hsigned
  · exact h

theorem Fits.common_right (ht : t.Fits x) (hsigned : (s.common t).signed = true) :
    (s.common t).Fits x := by
  have h := ht.promote
  rw [NativeType.common] at hsigned ⊢
  split_ifs at hsigned ⊢ with hlt
  · exact h
  · -- of two types of one width the other one is signed as well
    rcases Nat.lt_or_ge t.promote.width s.promote.width with hless | hge
    · exact h.of_width_lt hless hsigned
    · exact absurd (.inr ⟨by omega, hsigned⟩) hlt

/-- **Sums, differences and products** are those of the numbers. -/
theorem add_eq (x : s.Value) (y : t.Value) : add x y = (s.common t).result (x + y) := by
  rw [add]
  cases hsigned : (s.common t).signed with
  | true => rw [(x.2.common hsigned).wrap_eq, (y.2.common_right hsigned).wrap_eq]
  | false => exact result_congr hsigned ((wrap_modEq _ _).add (wrap_modEq _ _))

theorem sub_eq (x : s.Value) (y : t.Value) : sub x y = (s.common t).result (x - y) := by
  rw [sub]
  cases hsigned : (s.common t).signed with
  | true => rw [(x.2.common hsigned).wrap_eq, (y.2.common_right hsigned).wrap_eq]
  | false => exact result_congr hsigned ((wrap_modEq _ _).sub (wrap_modEq _ _))

theorem mul_eq (x : s.Value) (y : t.Value) : mul x y = (s.common t).result (x * y) := by
  rw [mul]
  cases hsigned : (s.common t).signed with
  | true => rw [(x.2.common hsigned).wrap_eq, (y.2.common_right hsigned).wrap_eq]
  | false => exact result_congr hsigned ((wrap_modEq _ _).mul (wrap_modEq _ _))

/-! ### Quotients -/

/-- A signed type has one more negative value than positive ones. -/
theorem max_of_signed (h : t.signed = true) : t.max = -t.min - 1 := by
  rw [max, min, if_pos h, if_pos h]
  omega

theorem min_of_unsigned (h : t.signed = false) : t.min = 0 := if_neg (by simp [h])

/-- **A quotient fits**, but for that of the least value of a signed type by -1. -/
theorem Fits.tdiv (hx : t.Fits x) (hy : t.Fits y) (h : ¬(x = t.min ∧ y = -1)) :
    t.Fits (x.tdiv y) := by
  obtain ⟨hmin, hmax⟩ := hx
  obtain ⟨-, hzero, hzero'⟩ := t.range
  have habs := Int.natAbs_tdiv_le_natAbs x y
  rcases hsigned : t.signed with - | -
  · have hnonneg := min_of_unsigned hsigned
    have := Int.tdiv_nonneg (hnonneg.symm.le.trans hmin) (hnonneg.symm.le.trans hy.1)
    exact ⟨by omega, by omega⟩
  · have hsize := max_of_signed hsigned
    by_cases hsmall : ((x.tdiv y).natAbs : ℤ) ≤ t.max
    · exact ⟨by omega, by omega⟩
    · -- only the least value is as large as that, and only 1 and -1 leave it so
      have hx : x = t.min := by omega
      have hlt : ¬2 ≤ y.natAbs := by
        intro htwo
        have hless : (x.tdiv y).natAbs < x.natAbs := by
          rw [Int.natAbs_tdiv]
          exact Nat.div_lt_self (by omega) htwo
        omega
      rcases (by omega : y = 0 ∨ y = 1 ∨ y = -1) with rfl | rfl | rfl
      · rw [Int.tdiv_zero]
        exact ⟨hzero, hzero'⟩
      · rw [Int.tdiv_one]
        exact ⟨hmin, hmax⟩
      · exact absurd ⟨hx, rfl⟩ h

/-- That one does not. -/
theorem not_fits_tdiv_min (h : t.signed = true) : ¬t.Fits (t.min.tdiv (-1)) := by
  rw [Int.tdiv_neg, Int.tdiv_one]
  rintro ⟨-, hle⟩
  have := max_of_signed h
  omega

/-- A remainder fits. -/
theorem Fits.tmod (hx : t.Fits x) (y : ℤ) : t.Fits (x.tmod y) := by
  obtain ⟨hmin, hmax⟩ := hx
  obtain ⟨-, hzero, hzero'⟩ := t.range
  have habs : (x.tmod y).natAbs ≤ x.natAbs := by
    rw [Int.natAbs_tmod]
    exact Nat.mod_le _ _
  rcases Int.le_total 0 x with hx | hx
  · have := Int.tmod_nonneg y hx
    exact ⟨by omega, by omega⟩
  · have := Int.tmod_nonneg y (Int.neg_nonneg_of_nonpos hx)
    rw [Int.neg_tmod] at this
    exact ⟨by omega, by omega⟩

/-- A quotient multiplied by the divisor lies between zero and the dividend. -/
theorem Fits.tdiv_mul (hx : t.Fits x) (y : ℤ) : t.Fits (x.tdiv y * y) := by
  obtain ⟨hmin, hmax⟩ := hx
  obtain ⟨-, hzero, hzero'⟩ := t.range
  have hsum := Int.tmod_add_tdiv_mul x y
  have habs : (x.tmod y).natAbs ≤ x.natAbs := by
    rw [Int.natAbs_tmod]
    exact Nat.mod_le _ _
  rcases Int.le_total 0 x with hx | hx
  · have := Int.tmod_nonneg y hx
    exact ⟨by omega, by omega⟩
  · have := Int.tmod_nonneg y (Int.neg_nonneg_of_nonpos hx)
    rw [Int.neg_tmod] at this
    exact ⟨by omega, by omega⟩

/-- The quotient of values of both types. -/
theorem div_eq (x : s.Value) (y : t.Value) (hx : (s.common t).Fits x) (hy : (s.common t).Fits y)
    (hne : y.val ≠ 0) : div x y = (s.common t).result (x.val.tdiv y) := by
  rw [div, hx.wrap_eq, hy.wrap_eq, if_neg hne]

/-- The remainder of values of both types. -/
theorem mod_eq (x : s.Value) (y : t.Value) (hx : (s.common t).Fits x) (hy : (s.common t).Fits y)
    (hne : y.val ≠ 0) : mod x y = ((s.common t).result (x.val.tdiv y)).map fun _ =>
      (s.common t).convert (x.val.tmod y) := by
  rw [mod, hx.wrap_eq, hy.wrap_eq, if_neg hne]

end NativeType

end Forte
