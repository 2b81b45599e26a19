import Mathlib.Data.Int.Bitwise
import Forte.Lib.NativeInt

/-!
# Bits of the integers of a machine

Shifts and masks of the types of `Forte.NativeType`, and what the operators give where nothing is
negative and every result is a value of the type: the numbers themselves. A shift by the width of
the promoted type, or by more, is undefined.
-/

namespace Forte

namespace NativeType

variable {s t : NativeType} {x y : ℤ}

/-- `operator<<`. -/
def shiftLeft (x : t.Value) (n : ℕ) : Option t.promote.Value :=
  if n < t.promote.width then some (t.promote.convert (x * 2 ^ n)) else none

/-- `operator>>`. -/
def shiftRight (x : t.Value) (n : ℕ) : Option t.promote.Value :=
  if n < t.promote.width then some (t.promote.convert (x.val / 2 ^ n)) else none

/-- `operator&`. -/
def and (x : s.Value) (y : t.Value) : (s.common t).Value :=
  (s.common t).convert (Int.land ((s.common t).wrap x) ((s.common t).wrap y))

/-- `operator>`. -/
def gt (x : s.Value) (y : t.Value) : Bool :=
  decide ((s.common t).wrap x > (s.common t).wrap y)

/-! ### Values that are not negative -/

theorem max_le_of_unsigned (h : s.width ≤ t.width) (ht : t.signed = false) : s.max ≤ t.max := by
  have hpow : (2 : ℤ) ^ s.width ≤ 2 ^ t.width := two_pow_le h
  have hpow' : (2 : ℤ) ^ (s.width - 1) ≤ 2 ^ t.width := two_pow_le (by omega)
  rw [max, max, if_neg (by simp [ht] : ¬t.signed = true)]
  split_ifs <;> omega

theorem promote_width_le_common (s t : NativeType) :
    s.promote.width ≤ (s.common t).width ∧ t.promote.width ≤ (s.common t).width := by
  rw [common]
  split_ifs with h
  · exact ⟨by omega, le_rfl⟩
  · exact ⟨le_rfl, by omega⟩

theorem width_le_promote (t : NativeType) : t.width ≤ t.promote.width := by
  rw [promote]
  split_ifs with h
  · exact h.le
  · exact le_rfl

theorem width_le_common_left (s t : NativeType) : s.width ≤ (s.common t).width :=
  s.width_le_promote.trans (s.promote_width_le_common t).1

theorem width_le_common_right (s t : NativeType) : t.width ≤ (s.common t).width :=
  t.width_le_promote.trans (s.promote_width_le_common t).2

theorem Fits.common_of_nonneg (h : s.Fits x) (hx : 0 ≤ x) : (s.common t).Fits x := by
  cases hsigned : (s.common t).signed with
  | true => exact h.common hsigned
  | false =>
    exact ⟨(min_of_unsigned hsigned).le.trans hx,
      h.2.trans (max_le_of_unsigned (s.width_le_common_left t) hsigned)⟩

theorem Fits.common_right_of_nonneg (h : t.Fits x) (hx : 0 ≤ x) : (s.common t).Fits x := by
  cases hsigned : (s.common t).signed with
  | true => exact h.common_right hsigned
  | false =>
    exact ⟨(min_of_unsigned hsigned).le.trans hx,
      h.2.trans (max_le_of_unsigned (s.width_le_common_right t) hsigned)⟩

theorem Fits.convert_val (h : t.Fits x) : (t.convert x).val = x := h.wrap_eq

/-- A result that does not overflow, as it is converted to a type that is not wider. -/
theorem exists_result (h : t.signed = true → t.Fits x) :
    ∃ r, t.result x = some r ∧ ∀ s : NativeType, s.width ≤ t.width → s.wrap r = s.wrap x := by
  refine ⟨t.convert x, ?_, fun s hs => wrap_wrap hs x⟩
  rw [result, if_neg fun hnot => hnot.2 (h hnot.1)]

theorem exists_sum (x : s.Value) (y : t.Value)
    (h : (s.common t).signed = true → (s.common t).Fits (x + y)) :
    ∃ r, add x y = some r ∧
      ∀ u : NativeType, u.width ≤ (s.common t).width → u.wrap r = u.wrap (x + y) := by
  rw [add_eq]
  exact exists_result h

theorem exists_product (x : s.Value) (y : t.Value)
    (h : (s.common t).signed = true → (s.common t).Fits (x * y)) :
    ∃ r, mul x y = some r ∧
      ∀ u : NativeType, u.width ≤ (s.common t).width → u.wrap r = u.wrap (x * y) := by
  rw [mul_eq]
  exact exists_result h

/-- A sum that the type of the first operand has. -/
theorem exists_add (x : s.Value) (y : t.Value) (h : s.Fits (x + y)) (hnonneg : (0 : ℤ) ≤ x + y) :
    ∃ r, add x y = some r ∧ r.val = x + y := by
  have hfits := h.common_of_nonneg (t := t) hnonneg
  exact ⟨_, by rw [add_eq, hfits.result_eq], hfits.convert_val⟩

theorem exists_div (x : s.Value) (y : t.Value) (hx : 0 ≤ x.val) (hy : 0 < y.val) :
    ∃ r, div x y = some r ∧ r.val = x.val / y.val := by
  have hx' := x.2.common_of_nonneg (t := t) hx
  have hy' := y.2.common_right_of_nonneg (s := s) hy.le
  have hquotient := hx'.tdiv hy' (by omega)
  refine ⟨_, by rw [div_eq x y hx' hy' hy.ne', hquotient.result_eq], ?_⟩
  rw [hquotient.convert_val, Int.tdiv_eq_ediv_of_nonneg hx]

theorem exists_mod (x : s.Value) (y : t.Value) (hx : 0 ≤ x.val) (hy : 0 < y.val) :
    ∃ r, mod x y = some r ∧ r.val = x.val % y.val := by
  have hx' := x.2.common_of_nonneg (t := t) hx
  have hy' := y.2.common_right_of_nonneg (s := s) hy.le
  have hquotient := hx'.tdiv hy' (by omega)
  refine ⟨_, by rw [mod_eq x y hx' hy' hy.ne', hquotient.result_eq, Option.map_some], ?_⟩
  rw [(hx'.tmod y).convert_val, Int.tmod_eq_emod_of_nonneg hx]

theorem exists_shiftLeft (x : t.Value) {n : ℕ} (hn : n < t.promote.width)
    (h : t.Fits (x * 2 ^ n)) : ∃ r, shiftLeft x n = some r ∧ r.val = x * 2 ^ n :=
  ⟨_, if_pos hn, h.promote.convert_val⟩

theorem exists_shiftRight (x : t.Value) {n : ℕ} (hn : n < t.promote.width) (hx : 0 ≤ x.val) :
    ∃ r, shiftRight x n = some r ∧ r.val = x.val / 2 ^ n := by
  have hle : x.val / 2 ^ n ≤ x.val := Int.ediv_le_self _ hx
  have hpos : (0 : ℤ) < 2 ^ n := Int.pow_pos (by decide)
  have hnonneg : 0 ≤ x.val / 2 ^ n := Int.ediv_nonneg hx hpos.le
  obtain ⟨-, hmin, -⟩ := t.range
  have hfits : t.Fits (x.val / 2 ^ n) := ⟨hmin.trans hnonneg, hle.trans x.2.2⟩
  exact ⟨_, if_pos hn, hfits.promote.convert_val⟩

/-- The low bits. -/
theorem and_val (x : s.Value) (y : t.Value) (hx : 0 ≤ x.val) {n : ℕ} (hy : y.val = 2 ^ n - 1) :
    (and x y).val = x.val % 2 ^ n := by
  obtain ⟨m, hm⟩ := Int.eq_ofNat_of_zero_le hx
  have hpos : (0 : ℤ) < 2 ^ n := Int.pow_pos (by decide)
  have hmask : y.val = ((2 ^ n - 1 : ℕ) : ℤ) := by
    have := Nat.one_le_two_pow (n := n)
    rw [hy]
    push_cast [this]
    rfl
  have hland : Int.land x.val y.val = x.val % 2 ^ n := by
    rw [hm, hmask]
    change ((m &&& (2 ^ n - 1) : ℕ) : ℤ) = _
    rw [Nat.and_two_pow_sub_one_eq_mod]
    push_cast
    rfl
  have hx' := x.2.common_of_nonneg (t := t) hx
  have hy' := y.2.common_right_of_nonneg (s := s) (by omega)
  rw [and, hx'.wrap_eq, hy'.wrap_eq, hland]
  refine Fits.convert_val ⟨?_, ?_⟩
  · exact (s.common t).range.2.1.trans (Int.emod_nonneg _ hpos.ne')
  · have hle : x.val % 2 ^ n ≤ x.val := by
      rw [hm]
      exact_mod_cast Nat.mod_le m (2 ^ n)
    exact hle.trans hx'.2

theorem gt_eq (x : s.Value) (y : t.Value) (hx : 0 ≤ x.val) (hy : 0 ≤ y.val) :
    gt x y = decide (y.val < x.val) := by
  rw [gt, (x.2.common_of_nonneg hx).wrap_eq, (y.2.common_right_of_nonneg hy).wrap_eq]

end NativeType

end Forte
