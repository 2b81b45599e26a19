import Mathlib.Data.List.Basic

/-!
# Texts with separators

A loop that searches for the next separator and goes on behind it takes the pieces of a text one
by one. The pieces are those of `List.splitOn`.
-/

namespace Forte.Separated

variable {α : Type} [DecidableEq α] {separator : α} {s : List α}

/-- A text up to the first separator, and behind it. -/
theorem cut_of_idxOf? {i : ℕ} (h : s.idxOf? separator = some i) :
    s = s.take i ++ separator :: s.drop (i + 1) ∧ separator ∉ s.take i := by
  obtain ⟨hlt, hat, hbefore⟩ := List.idxOf?_eq_some_iff.mp h
  refine ⟨?_, fun hmem => ?_⟩
  · rw [← hat, List.getElem_cons_drop, List.take_append_drop]
  · obtain ⟨j, hj, hget⟩ := List.mem_iff_getElem.mp hmem
    rw [List.getElem_take] at hget
    exact hbefore j (by rw [List.length_take] at hj; omega) hget

theorem lt_length {i : ℕ} (h : s.idxOf? separator = some i) : i < s.length :=
  (List.idxOf?_eq_some_iff.mp h).1

/-- **The first piece** ends at the first separator. -/
theorem splitOn_of_some {i : ℕ} (h : s.idxOf? separator = some i) :
    s.splitOn separator = s.take i :: (s.drop (i + 1)).splitOn separator := by
  obtain ⟨hs, hnot⟩ := cut_of_idxOf? h
  conv_lhs => rw [hs]
  exact List.splitOn_append_cons_self_of_not_mem hnot _

/-- A text without a separator is one piece. -/
theorem splitOn_of_none (h : s.idxOf? separator = none) : s.splitOn separator = [s] :=
  List.splitOn_eq_singleton (List.idxOf?_eq_none_iff.mp h)

end Forte.Separated
