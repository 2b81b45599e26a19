import Mathlib.Data.List.Range

/-!
# Counted loops

A loop that counts from zero and whose rounds may be undefined. What its first state has and each
round keeps, with the number of rounds counted, the state behind it has
(`Forte.exists_foldlM_range`).
-/

namespace Forte

variable {σ : Type}

/-- **A counted loop** is defined where all of its rounds are, and keeps what they keep. -/
theorem exists_foldlM_range {round : σ → ℕ → Option σ} {P : ℕ → σ → Prop} {n : ℕ}
    (hround : ∀ i < n, ∀ s, P i s → ∃ s', round s i = some s' ∧ P (i + 1) s') {s : σ}
    (hs : P 0 s) : ∃ s', (List.range n).foldlM round s = some s' ∧ P n s' := by
  induction n with
  | zero => exact ⟨s, rfl, hs⟩
  | succ n ih =>
    obtain ⟨s', hrun, hs'⟩ := ih fun i hi => hround i (hi.trans n.lt_succ_self)
    obtain ⟨s'', hlast, hs''⟩ := hround n n.lt_succ_self s' hs'
    refine ⟨s'', ?_, hs''⟩
    rw [List.range_succ, List.foldlM_append, hrun]
    simp [hlast]

/-- A loop that stops at what it looks for. -/
theorem allM_eq_all {α : Type} {f : α → Option Bool} {p : α → Bool} {l : List α}
    (h : ∀ a ∈ l, f a = some (p a)) : l.allM f = some (l.all p) := by
  induction l with
  | nil => rfl
  | cons a l ih =>
    obtain ⟨ha, hl⟩ := List.forall_mem_cons.mp h
    rw [List.allM, ha, List.all_cons]
    cases p a with
    | false => rfl
    | true => exact ih hl

end Forte
