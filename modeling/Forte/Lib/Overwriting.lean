import Mathlib.Data.List.Basic

/-!
# Writing over a part of a block

`memcpy` into a block of memory, away from any program: what is written is in the block from a
position on, and the rest of the block is as it was. There is no result where the block is too
short (`Forte.overwrite`).
-/

namespace Forte

variable {β : Type}

/-- The block with `bs` from a position on. -/
def overwrite (m : List β) (pos : ℕ) (bs : List β) : Option (List β) :=
  if pos + bs.length ≤ m.length then some (m.take pos ++ bs ++ m.drop (pos + bs.length)) else none

variable {m m' bs : List β} {pos : ℕ}

theorem overwrite_of_le (h : pos + bs.length ≤ m.length) :
    overwrite m pos bs = some (m.take pos ++ bs ++ m.drop (pos + bs.length)) :=
  if_pos h

theorem overwrite_eq_none_iff : overwrite m pos bs = none ↔ m.length < pos + bs.length := by
  rw [overwrite]
  split
  · exact iff_of_false (by simp) (by omega)
  · exact iff_of_true rfl (by omega)

/-- A write within the block. -/
theorem overwrite_eq_some_iff :
    overwrite m pos bs = some m' ↔
      pos + bs.length ≤ m.length ∧ m' = m.take pos ++ bs ++ m.drop (pos + bs.length) := by
  rw [overwrite]
  split
  · rename_i hle
    rw [Option.some.injEq, eq_comm, and_iff_right hle]
  · rename_i hgt
    exact iff_of_false nofun fun h => hgt h.1

/-- At the beginning of the block. -/
theorem overwrite_zero (h : bs.length ≤ m.length) :
    overwrite m 0 bs = some (bs ++ m.drop bs.length) := by
  rw [overwrite_of_le (by omega), List.take_zero, List.nil_append, Nat.zero_add]

theorem length_of_overwrite (h : overwrite m pos bs = some m') : m'.length = m.length := by
  obtain ⟨hle, rfl⟩ := overwrite_eq_some_iff.mp h
  simp only [List.length_append, List.length_take, List.length_drop]
  omega

/-- What is in front of the position and what has been written there. -/
theorem take_of_overwrite (h : overwrite m pos bs = some m') :
    m'.take (pos + bs.length) = m.take pos ++ bs := by
  obtain ⟨hle, rfl⟩ := overwrite_eq_some_iff.mp h
  refine List.take_left' ?_
  rw [List.length_append, List.length_take, Nat.min_eq_left (by omega)]

/-- What is behind is left as it was. -/
theorem drop_of_overwrite (h : overwrite m pos bs = some m') {k : ℕ} (hk : pos + bs.length ≤ k) :
    m'.drop k = m.drop k := by
  obtain ⟨hle, rfl⟩ := overwrite_eq_some_iff.mp h
  obtain ⟨j, rfl⟩ := Nat.exists_eq_add_of_le hk
  have hlength : (m.take pos ++ bs).length = pos + bs.length := by
    rw [List.length_append, List.length_take, Nat.min_eq_left (by omega)]
  rw [List.drop_append, List.drop_eq_nil_of_le (by omega), List.nil_append, hlength,
    List.drop_drop, Nat.add_sub_cancel_left]

end Forte
