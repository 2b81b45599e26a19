import Mathlib.Algebra.Order.Ring.Nat
import Mathlib.Tactic.Ring

/-!
# Big-endian bytes

A number sent over a wire is cut into bytes, the most significant byte first, and
put together again on the other side. This file has the two directions and the
facts that relate them: `Forte.beBytes` cuts a number into a given count of bytes,
`Forte.ofBeBytes` reads a list of bytes as a number.

Everything is stated on natural numbers, so that one pair of lemmas serves every
width: reading back `n` bytes gives the number modulo `256 ^ n`
(`Forte.ofBeBytes_beBytes`), and every list of bytes is the writing of the number it
denotes (`Forte.beBytes_ofBeBytes`).
-/

namespace Forte

/-- The `n` low-order bytes of `x`, the most significant one first. -/
def beBytes : ℕ → ℕ → List UInt8
  | 0, _ => []
  | n + 1, x => UInt8.ofNat (x / 256 ^ n) :: beBytes n x

/-- The number a list of bytes denotes, the most significant byte first. -/
def ofBeBytes : List UInt8 → ℕ
  | [] => 0
  | b :: bs => b.toNat * 256 ^ bs.length + ofBeBytes bs

@[simp]
theorem length_beBytes (n x : ℕ) : (beBytes n x).length = n := by
  induction n with
  | zero => rfl
  | succ n ih => simp [beBytes, ih]

@[simp]
theorem ofBeBytes_nil : ofBeBytes [] = 0 := rfl

theorem ofBeBytes_lt (bs : List UInt8) : ofBeBytes bs < 256 ^ bs.length := by
  induction bs with
  | nil => simp
  | cons b bs ih =>
    have hb : b.toNat ≤ 255 := by have := b.toNat_lt; omega
    have hm : b.toNat * 256 ^ bs.length ≤ 255 * 256 ^ bs.length :=
      Nat.mul_le_mul_right _ hb
    simp only [ofBeBytes, List.length_cons, pow_succ]
    omega

/-- **Reading back a written number** gives the number modulo the range the bytes span. -/
theorem ofBeBytes_beBytes (n x : ℕ) : ofBeBytes (beBytes n x) = x % 256 ^ n := by
  induction n with
  | zero => simp [beBytes, Nat.mod_one]
  | succ n ih =>
    have hsplit : x % 256 ^ (n + 1) = x % 256 ^ n + 256 ^ n * (x / 256 ^ n % 256) := by
      rw [pow_succ, Nat.mod_mul]
    have hbyte : (UInt8.ofNat (x / 256 ^ n)).toNat = x / 256 ^ n % 256 := by
      simp
    simp only [beBytes, ofBeBytes, length_beBytes, ih, hbyte, hsplit]
    ring

theorem ofBeBytes_beBytes_of_lt {n x : ℕ} (h : x < 256 ^ n) : ofBeBytes (beBytes n x) = x := by
  rw [ofBeBytes_beBytes, Nat.mod_eq_of_lt h]

/-- Only the part of a number below `256 ^ n` reaches its `n` low-order bytes. -/
theorem beBytes_mod (n x : ℕ) : beBytes n (x % 256 ^ n) = beBytes n x := by
  have key : ∀ m, m ≤ n → beBytes m (x % 256 ^ n) = beBytes m x := by
    intro m
    induction m with
    | zero => intro _; rfl
    | succ m ih =>
      intro hm
      have hdvd : x % 256 ^ n / 256 ^ m % 256 = x / 256 ^ m % 256 := by
        obtain ⟨k, rfl⟩ := Nat.exists_eq_add_of_le hm
        have hpow : (256 : ℕ) ^ (m + 1 + k) = 256 ^ m * (256 * 256 ^ k) := by ring
        rw [hpow, Nat.mod_mul_right_div_self, Nat.mod_mul_right_mod]
      have hbyte : UInt8.ofNat (x % 256 ^ n / 256 ^ m) = UInt8.ofNat (x / 256 ^ m) := by
        apply UInt8.toNat_inj.mp
        simpa using hdvd
      simp only [beBytes, hbyte, ih (by omega)]
  exact key n le_rfl

/-- **Writing what was read** gives the bytes back. -/
theorem beBytes_ofBeBytes (bs : List UInt8) : beBytes bs.length (ofBeBytes bs) = bs := by
  induction bs with
  | nil => rfl
  | cons b bs ih =>
    have hlt := ofBeBytes_lt bs
    have hpos : 0 < 256 ^ bs.length := Nat.pow_pos (by omega)
    have hdiv : (b.toNat * 256 ^ bs.length + ofBeBytes bs) / 256 ^ bs.length = b.toNat := by
      rw [Nat.add_comm, Nat.add_mul_div_right _ _ hpos, Nat.div_eq_of_lt hlt, Nat.zero_add]
    have htail : beBytes bs.length (b.toNat * 256 ^ bs.length + ofBeBytes bs) = bs := by
      rw [← beBytes_mod, Nat.mul_add_mod_self_right, Nat.mod_eq_of_lt hlt, ih]
    simp only [List.length_cons, beBytes, ofBeBytes, hdiv, htail, UInt8.ofNat_toNat]

end Forte
