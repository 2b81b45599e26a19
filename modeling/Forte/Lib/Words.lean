import Mathlib.Algebra.Ring.Nat

/-!
# Counters in machine words

A counter of `w` bits starts again at zero; what it has after a number of steps is this number
modulo `2 ^ w`.
-/

namespace Forte

instance neZero_word32 : NeZero (2 ^ 32) := ⟨by decide⟩

instance neZero_word64 : NeZero (2 ^ 64) := ⟨by decide⟩

/-- Counting on from where a counter is. -/
theorem ofNat_val_add {n : ℕ} [NeZero n] (i j : ℕ) :
    Fin.ofNat n ((Fin.ofNat n i).val + j) = Fin.ofNat n (i + j) :=
  Fin.ext (Nat.mod_add_mod i n j)

end Forte
