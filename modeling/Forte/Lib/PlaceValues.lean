import Mathlib.Data.Nat.Digits.Lemmas

/-!
# Digits at places

A number has a digit at every place (`Forte.Places.digit`), and digits at the first places have a
value (`Forte.Places.value`). What has the value of digits has these digits
(`Forte.Places.digit_value`), and the digits of a number have its value, modulo the power of the
base that they stop at (`Forte.Places.value_digit`).
-/

namespace Forte.Places

/-- The digit of a number at a place. -/
def digit (b x k : ℕ) : ℕ := x / b ^ k % b

/-- The value of the digits at the first places. -/
def value (b : ℕ) (d : ℕ → ℕ) : ℕ → ℕ
  | 0 => 0
  | n + 1 => value b d n + d n * b ^ n

variable {b n k : ℕ} {d d' : ℕ → ℕ}

theorem digit_lt (hb : 0 < b) (x k : ℕ) : digit b x k < b := Nat.mod_lt _ hb

theorem value_congr (h : ∀ k < n, d k = d' k) : value b d n = value b d' n := by
  induction n with
  | zero => rfl
  | succ n ih =>
    rw [value, value, ih fun k hk => h k (hk.trans n.lt_succ_self), h n n.lt_succ_self]

theorem value_lt (hd : ∀ k < n, d k < b) : value b d n < b ^ n := by
  induction n with
  | zero => exact Nat.one_pos
  | succ n ih =>
    have hrest := ih fun k hk => hd k (hk.trans n.lt_succ_self)
    have hlast : (d n + 1) * b ^ n ≤ b * b ^ n :=
      Nat.mul_le_mul_right _ (hd n n.lt_succ_self)
    rw [Nat.succ_mul] at hlast
    rw [value, Nat.pow_succ']
    omega

/-- What is added at a higher place changes no digit. -/
theorem digit_add_mul_pow (hk : k < n) (hb : 0 < b) (x c : ℕ) :
    digit b (x + c * b ^ n) k = digit b x k := by
  obtain ⟨m, rfl⟩ := Nat.exists_eq_add_of_lt hk
  have hsplit : c * b ^ (k + m + 1) = b ^ k * (b * (c * b ^ m)) := by
    rw [Nat.pow_succ, Nat.pow_add]
    ring
  rw [digit, digit, hsplit, Nat.add_mul_div_left _ _ (Nat.pow_pos hb), Nat.add_mul_mod_self_left]

/-- **Digits are read back** from their value. -/
theorem digit_value (hd : ∀ k < n, d k < b) (hk : k < n) : digit b (value b d n) k = d k := by
  induction n with
  | zero => exact absurd hk (Nat.not_lt_zero k)
  | succ n ih =>
    have hb : 0 < b := (Nat.zero_le _).trans_lt (hd k hk)
    have hrest : ∀ k < n, d k < b := fun k hk => hd k (hk.trans n.lt_succ_self)
    rw [value]
    rcases Nat.lt_succ_iff_lt_or_eq.mp hk with hlt | rfl
    · rw [digit_add_mul_pow hlt hb, ih hrest hlt]
    · rw [digit, Nat.add_mul_div_right _ _ (Nat.pow_pos hb), Nat.div_eq_of_lt (value_lt hrest),
        Nat.zero_add, Nat.mod_eq_of_lt (hd k hk)]

/-- **The value of the digits** of a number. -/
theorem value_digit (b x n : ℕ) : value b (digit b x) n = x % b ^ n := by
  induction n with
  | zero => rw [Nat.pow_zero, Nat.mod_one, value]
  | succ n ih => rw [value, ih, digit, Nat.mod_pow_succ, Nat.mul_comm]

end Forte.Places
