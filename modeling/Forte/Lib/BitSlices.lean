import Mathlib.Data.BitVec

/-!
# Slices of bit vectors

A bit vector is cut into slices of one width, the first one at its lowest bits. A slice is read
(`Forte.Slice.get`) and written (`Forte.Slice.put`) as a part of a record is: what was written is
read, what was read can be written back, and slices that share no bit can be written in any order,
whatever their widths are.
-/

namespace Forte.Slice

variable {w p q : ℕ}

/-- A bit belongs to a slice. -/
def Has (p i k : ℕ) : Prop := i * p ≤ k ∧ k < i * p + p

instance (p i k : ℕ) : Decidable (Has p i k) :=
  inferInstanceAs (Decidable (i * p ≤ k ∧ k < i * p + p))

/-- Two slices share no bit. -/
def Disjoint (p i q j : ℕ) : Prop := ∀ k, ¬(Has p i k ∧ Has q j k)

/-- The slice at an index. -/
def get (p : ℕ) (x : BitVec w) (i : ℕ) : BitVec p := x.extractLsb' (i * p) p

/-- The bits of a slice of a vector of `w` bits. -/
def mask (w p i : ℕ) : BitVec w := (BitVec.allOnes p).setWidth w <<< (i * p)

/-- The vector with another slice at an index. -/
def put (x : BitVec w) (i : ℕ) (v : BitVec p) : BitVec w :=
  (x &&& ~~~mask w p i) ||| v.setWidth w <<< (i * p)

theorem getLsbD_get {i k : ℕ} (x : BitVec w) (hk : k < p) :
    (get p x i).getLsbD k = x.getLsbD (i * p + k) := by
  rw [get, BitVec.getLsbD_extractLsb', decide_eq_true hk, Bool.true_and]

theorem getLsbD_mask {i k : ℕ} (hk : k < w) :
    (mask w p i).getLsbD k = decide (Has p i k) := by
  rw [mask, BitVec.getLsbD_shiftLeft, BitVec.getLsbD_setWidth, BitVec.getLsbD_allOnes]
  by_cases h : Has p i k
  · obtain ⟨hle, hlt⟩ := h
    have hwidth : k - i * p < w := by omega
    have hslice : k - i * p < p := by omega
    simp [Has, hk, hle, hlt, hwidth, hslice, Nat.not_lt.mpr hle]
  · rw [decide_eq_false h]
    by_cases hle : i * p ≤ k
    · have hslice : ¬k - i * p < p := fun hlt => h ⟨hle, by omega⟩
      simp [hslice]
    · simp [Nat.lt_of_not_le hle]

/-- **The bits behind a write** are those of the value in the slice, and as they were elsewhere. -/
theorem getLsbD_put {i k : ℕ} (x : BitVec w) (v : BitVec p) (hk : k < w) :
    (put x i v).getLsbD k = if Has p i k then v.getLsbD (k - i * p) else x.getLsbD k := by
  rw [put, BitVec.getLsbD_or, BitVec.getLsbD_and, BitVec.getLsbD_not, getLsbD_mask hk,
    BitVec.getLsbD_shiftLeft, BitVec.getLsbD_setWidth]
  split_ifs with h
  · have hlt : k - i * p < w := by omega
    simp [h, hk, hlt, Nat.not_lt.mpr h.1]
  · have hbit : (decide (k < w) && !decide (k < i * p) &&
        (decide (k - i * p < w) && v.getLsbD (k - i * p))) = false := by
      by_cases hle : i * p ≤ k
      · have hp : p ≤ k - i * p := by
          rw [Has, not_and] at h
          have := h hle
          omega
        rw [BitVec.getLsbD_of_ge v _ hp, Bool.and_false, Bool.and_false]
      · simp [Nat.lt_of_not_le hle]
    rw [hbit, Bool.or_false]
    simp [h, hk]

/-- What was written is read. -/
theorem get_put {i : ℕ} (h : i * p + p ≤ w) (x : BitVec w) (v : BitVec p) :
    get p (put x i v) i = v := by
  refine BitVec.eq_of_getLsbD_eq fun k hk => ?_
  rw [getLsbD_get _ hk, getLsbD_put _ _ (by omega), if_pos ⟨by omega, by omega⟩,
    Nat.add_sub_cancel_left]

/-- What was read can be written back. -/
theorem put_get {i : ℕ} (x : BitVec w) : put x i (get p x i) = x := by
  refine BitVec.eq_of_getLsbD_eq fun k hk => ?_
  rw [getLsbD_put _ _ hk]
  split_ifs with h
  · obtain ⟨hle, hlt⟩ := h
    rw [getLsbD_get _ (by omega), Nat.add_sub_cancel' hle]
  · rfl

/-- A slice is read as it was before another one was written. -/
theorem get_put_of_disjoint {i j : ℕ} (hi : i * p + p ≤ w) (h : Disjoint p i q j) (x : BitVec w)
    (v : BitVec q) : get p (put x j v) i = get p x i := by
  refine BitVec.eq_of_getLsbD_eq fun k hk => ?_
  have hhas : Has p i (i * p + k) := ⟨by omega, by omega⟩
  rw [getLsbD_get _ hk, getLsbD_get _ hk, getLsbD_put _ _ (by omega),
    if_neg fun hj => h _ ⟨hhas, hj⟩]

/-- Slices that share no bit can be written in either order. -/
theorem put_comm {i j : ℕ} (h : Disjoint p i q j) (x : BitVec w) (v : BitVec p) (u : BitVec q) :
    put (put x i v) j u = put (put x j u) i v := by
  refine BitVec.eq_of_getLsbD_eq fun k hk => ?_
  rw [getLsbD_put _ _ hk, getLsbD_put _ _ hk, getLsbD_put _ _ hk, getLsbD_put _ _ hk]
  by_cases hi : Has p i k
  · have hj : ¬Has q j k := fun hj => h k ⟨hi, hj⟩
    rw [if_neg hj, if_pos hi, if_pos hi]
  · rw [if_neg hi, if_neg hi]

end Forte.Slice
