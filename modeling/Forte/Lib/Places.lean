import Mathlib.Data.Nat.Digits.Lemmas

/-!
# Numbers written from the highest place down

A number is written by dividing it by the value of the highest place, writing the quotient
and going on with the rest; zeros are left out until the first other digit. Written with
enough places this gives the digits of the number, the highest first, and a single zero for
zero (`Forte.Places.write_eq`).
-/

namespace Forte

namespace Places

/-- The digits of `v` from the place of `b ^ n` down; `leading` means that zeros are to be
left out. The lowest place is always written. -/
def write (b : ℕ) : ℕ → ℕ → Bool → List ℕ
  | 0, v, _ => [v]
  | n + 1, v, leading =>
    if v / b ^ (n + 1) = 0 ∧ leading then write b n v leading
    else v / b ^ (n + 1) :: write b n (v - v / b ^ (n + 1) * b ^ (n + 1)) false

/-- The digits of a number, the highest first. -/
def digits (b v : ℕ) : List ℕ := if v = 0 then [0] else (Nat.digits b v).reverse

variable {b : ℕ}

theorem sub_div_mul (v k : ℕ) : v - v / k * k = v % k := by
  rw [Nat.mul_comm, ← Nat.mod_def]

/-- What is written are digits, with the value of the number. -/
theorem write_spec (hb : 1 < b) {n v : ℕ} (leading : Bool) (hv : v < b ^ (n + 1)) :
    (∀ d ∈ write b n v leading, d < b) ∧ Nat.ofDigits b (write b n v leading).reverse = v ∧
      (leading = false → (write b n v leading).length = n + 1) := by
  induction n generalizing v leading with
  | zero =>
    rw [Nat.zero_add, Nat.pow_one] at hv
    refine ⟨fun d hd => ?_, ?_, fun _ => rfl⟩
    · rw [write, List.mem_singleton] at hd
      rwa [hd]
    · simp [write]
  | succ n ih =>
    have hpos : 0 < b ^ (n + 1) := Nat.pow_pos (by omega)
    rw [write]
    split
    · rename_i hskip
      have hlt : v < b ^ (n + 1) := by
        by_contra hle
        exact absurd hskip.1 (Nat.div_pos (Nat.le_of_not_lt hle) hpos).ne'
      obtain ⟨hdigits, hvalue, -⟩ := ih leading hlt
      exact ⟨hdigits, hvalue, fun hfalse => absurd hskip.2 (by simp [hfalse])⟩
    · have hrest : v - v / b ^ (n + 1) * b ^ (n + 1) = v % b ^ (n + 1) := sub_div_mul v _
      rw [hrest]
      obtain ⟨hdigits, hvalue, hlen⟩ := ih false (Nat.mod_lt v hpos)
      have hhead : v / b ^ (n + 1) < b := by
        rw [Nat.div_lt_iff_lt_mul hpos, ← Nat.pow_succ']
        exact hv
      refine ⟨?_, ?_, fun _ => ?_⟩
      · rintro d (_ | ⟨_, hd⟩)
        · exact hhead
        · exact hdigits d hd
      · rw [List.reverse_cons, Nat.ofDigits_append, hvalue, List.length_reverse, hlen rfl,
          Nat.ofDigits_singleton, Nat.mod_add_div]
      · rw [List.length_cons, hlen rfl]

/-- A number other than zero is not written with zeros in front. -/
theorem write_head (hb : 1 < b) {n v : ℕ} (hpos : 0 < v) (hv : v < b ^ (n + 1)) :
    ∃ d rest, write b n v true = d :: rest ∧ d ≠ 0 := by
  induction n generalizing v with
  | zero => exact ⟨v, [], rfl, hpos.ne'⟩
  | succ n ih =>
    rw [write]
    split
    · rename_i hskip
      refine ih hpos ?_
      by_contra hle
      exact absurd hskip.1 (Nat.div_pos (Nat.le_of_not_lt hle) (Nat.pow_pos (by omega))).ne'
    · rename_i hwrite
      exact ⟨_, _, rfl, fun hzero => hwrite ⟨hzero, rfl⟩⟩

theorem write_zero (n : ℕ) : write b n 0 true = [0] := by
  induction n with
  | zero => rfl
  | succ n ih => rw [write, if_pos ⟨Nat.zero_div _, rfl⟩, ih]

/-- **Enough places write the number.** -/
theorem write_eq (hb : 1 < b) {n v : ℕ} (hv : v < b ^ (n + 1)) :
    write b n v true = digits b v := by
  rw [digits]
  split
  · rename_i hzero
    rw [hzero, write_zero]
  · rename_i hne
    obtain ⟨hdigits, hvalue, -⟩ := write_spec hb true hv
    obtain ⟨d, rest, heq, hd⟩ := write_head hb (Nat.pos_of_ne_zero hne) hv
    have hlast : ∀ h : (write b n v true).reverse ≠ [],
        (write b n v true).reverse.getLast h ≠ 0 := by
      intro h
      simpa [heq] using hd
    have := Nat.digits_ofDigits b hb (write b n v true).reverse
      (fun d hd => hdigits d (List.mem_reverse.mp hd)) hlast
    rw [hvalue] at this
    rw [this, List.reverse_reverse]

theorem lt_of_mem_digits (hb : 1 < b) {v d : ℕ} (hd : d ∈ digits b v) : d < b := by
  rw [digits] at hd
  split at hd
  · rw [List.mem_singleton.mp hd]
    omega
  · exact Nat.digits_lt_base hb (List.mem_reverse.mp hd)

theorem digits_ne_nil (v : ℕ) : digits b v ≠ [] := by
  rw [digits]
  split
  · exact List.cons_ne_nil _ _
  · rename_i hne
    rw [ne_eq, List.reverse_eq_nil_iff]
    exact Nat.digits_ne_nil_iff_ne_zero.mpr hne

/-- The value of digits, the highest first. -/
theorem foldl_digits (v : ℕ) : (digits b v).foldl (fun value d => b * value + d) 0 = v := by
  have hfoldl : ∀ (l : List ℕ) (a : ℕ), l.foldl (fun value d => b * value + d) a =
      Nat.ofDigits b l.reverse + b ^ l.length * a := by
    intro l
    induction l with
    | nil => simp
    | cons d l ih =>
      intro a
      rw [List.foldl_cons, ih, List.reverse_cons, Nat.ofDigits_append, List.length_reverse,
        Nat.ofDigits_singleton, List.length_cons, Nat.pow_succ]
      ring
  rw [hfoldl, Nat.mul_zero, Nat.add_zero, digits]
  split
  · rename_i hzero
    simp [hzero]
  · rw [List.reverse_reverse, Nat.ofDigits_digits]

end Places

end Forte
