import Mathlib.Data.BitVec
import Mathlib.Logic.Function.Iterate

/-!
# Machine counters

A counter of `w` bits wraps around at both ends. `Forte.Counter` remembers beside the value
whether it was ever counted down from zero, which the value alone does not show.

A program that counts up when it takes something and counts down when it gives it back
leaves the counter alone (`Forte.Counter.down_up`), as long as there is room to count up.
What it counts down beyond that adds up (`Forte.Counter.iterate_down`), and the counter has
wrapped around once this was more than it held.
-/

namespace Forte

/-- A counter of `w` bits. -/
@[ext]
structure Counter (w : ℕ) where
  /-- The value. -/
  value : BitVec w
  /-- Whether it was ever counted down from zero. -/
  underflow : Bool
  deriving DecidableEq, Repr

namespace Counter

variable {w : ℕ}

/-- A counter at zero. -/
def zero : Counter w := ⟨0#w, false⟩

/-- Counting up. -/
def up (c : Counter w) : Counter w := ⟨c.value + 1#w, c.underflow⟩

/-- Counting down. -/
def down (c : Counter w) : Counter w := ⟨c.value - 1#w, c.underflow || c.value == 0#w⟩

/-- Counting up from here does not wrap around, or an underflow is on record already. -/
def HasRoom (c : Counter w) : Prop := c.underflow = true ∨ c.value + 1#w ≠ 0#w

/-- **What was taken and given back leaves no trace.** -/
theorem down_up {c : Counter w} (h : c.HasRoom) : c.up.down = c := by
  refine Counter.ext (by simp [up, down]) ?_
  rcases h with h | h
  · simp [up, down, h]
  · simp [up, down, h]

/-- Counting down keeps the room to count up: it either starts above zero, or is recorded. -/
theorem HasRoom.down {c : Counter w} (h : c.HasRoom) : c.down.HasRoom := by
  by_cases hzero : c.value = 0#w
  · exact Or.inl (by simp [Counter.down, hzero])
  · rcases h with h | _
    · exact Or.inl (by simp [Counter.down, h])
    · exact Or.inr (by simpa [Counter.down] using hzero)

/-- Counting up `n` times. -/
theorem iterate_up (n : ℕ) (c : Counter w) :
    up^[n] c = ⟨c.value + BitVec.ofNat w n, c.underflow⟩ := by
  induction n generalizing c with
  | zero => simp
  | succ n ih =>
    rw [Function.iterate_succ_apply, ih]
    refine Counter.ext ?_ rfl
    simp only [up, BitVec.ofNat_add, BitVec.add_assoc, BitVec.add_comm (1#w)]

/-- **Counting down `n` times wraps around when the counter held less than `n`.** -/
theorem iterate_down (n : ℕ) (c : Counter w) :
    down^[n] c =
      ⟨c.value - BitVec.ofNat w n, c.underflow || decide (c.value.toNat < n)⟩ := by
  induction n generalizing c with
  | zero => simp
  | succ n ih =>
    rw [Function.iterate_succ_apply, ih]
    refine Counter.ext ?_ ?_
    · simp only [down, BitVec.ofNat_add]
      grind
    · by_cases hzero : c.value = 0#w
      · simp [down, hzero]
      · have hpos : c.value.toNat ≠ 0 := fun h => hzero (BitVec.eq_of_toNat_eq (by simpa using h))
        have hlt : c.value.toNat < 2 ^ w := c.value.isLt
        have hone : 1 < 2 ^ w := by omega
        have hstep : (c.value - 1#w).toNat = c.value.toNat - 1 := by
          rw [BitVec.toNat_sub, BitVec.toNat_ofNat, Nat.mod_eq_of_lt hone]
          have : 2 ^ w - 1 + c.value.toNat = c.value.toNat - 1 + 2 ^ w := by omega
          rw [this, Nat.add_mod_right, Nat.mod_eq_of_lt (by omega)]
        simp only [down, hstep, Bool.or_false, beq_eq_false_iff_ne.mpr hzero]
        congr 1
        exact decide_eq_decide.mpr (by omega)

end Counter

end Forte
