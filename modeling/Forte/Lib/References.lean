import Mathlib.Algebra.BigOperators.Group.Finset.Basic
import Mathlib.Algebra.Order.BigOperators.Group.Finset
import Mathlib.Data.List.Count

/-!
# Counted references

Reference counting, away from any program. A table has an entry for each owner and each of
the owner's slots, and the entry is the list of the objects the slot refers to;
`Forte.refTotal` is how often an object is referred to in a part of the table. Counters
stand beside it, one for each object, which a program moves on its own whenever it writes
the table, by `Forte.countUp` and `Forte.countDown`.

The rules are equations without subtraction: what a changed entry loses and gains
(`Forte.refTotal_setAt`), and what a counter loses and gains (`Forte.countUp_apply`, and
`Forte.countDown_apply` for one above zero), so that an operation on both is settled by
adding them up.
-/

namespace Forte

variable {α β κ : Type} [DecidableEq α] [DecidableEq β] [DecidableEq κ]

/-! ### Tables -/

/-- A table with one entry changed. -/
def setAt {γ : Type} (f : α → β → γ) (a : α) (b : β) (v : γ) : α → β → γ :=
  fun a' b' => if a' = a ∧ b' = b then v else f a' b'

section SetAt

variable {γ : Type} (f : α → β → γ) (a : α) (b : β) (v : γ)

theorem setAt_apply (a' : α) (b' : β) :
    setAt f a b v a' b' = if a' = a ∧ b' = b then v else f a' b' := rfl

@[simp]
theorem setAt_self : setAt f a b v a b = v := if_pos ⟨rfl, rfl⟩

theorem setAt_of_ne {a' : α} {b' : β} (h : ¬(a' = a ∧ b' = b)) :
    setAt f a b v a' b' = f a' b' := if_neg h

@[simp]
theorem setAt_eq_self : setAt f a b (f a b) = f := by
  funext a' b'
  rw [setAt_apply]
  split
  · rename_i h
    rw [h.1, h.2]
  · rfl

@[simp]
theorem setAt_setAt (w : γ) : setAt (setAt f a b w) a b v = setAt f a b v := by
  funext a' b'
  simp only [setAt_apply]
  split <;> rfl

end SetAt

/-! ### Totals -/

/-- **How often an object is referred to** in the slots `P a` of the owners `a` in `S`. -/
def refTotal (S : Finset α) (P : α → Finset β) (held : α → β → List κ) (k : κ) : ℕ :=
  ∑ a ∈ S, ∑ b ∈ P a, (held a b).count k

section Totals

variable {S : Finset α} {P : α → Finset β} {held held' : α → β → List κ}

/-- One entry changed: what it had is lost, what it has now is gained. -/
theorem refTotal_setAt {a : α} {b : β} (ha : a ∈ S) (hb : b ∈ P a) (ks : List κ) (k : κ) :
    refTotal S P (setAt held a b ks) k + (held a b).count k =
      refTotal S P held k + ks.count k := by
  have hinner : ∑ b' ∈ P a, (setAt held a b ks a b').count k + (held a b).count k =
      ∑ b' ∈ P a, (held a b').count k + ks.count k := by
    rw [← Finset.sum_erase_add (P a) _ hb, ← Finset.sum_erase_add (P a) _ hb, setAt_self]
    have hrest : ∑ b' ∈ (P a).erase b, (setAt held a b ks a b').count k =
        ∑ b' ∈ (P a).erase b, (held a b').count k :=
      Finset.sum_congr rfl fun b' hb' => by
        rw [setAt_of_ne _ _ _ _ fun h => (Finset.mem_erase.mp hb').1 h.2]
    omega
  have houter : ∑ a' ∈ S.erase a, ∑ b' ∈ P a', (setAt held a b ks a' b').count k =
      ∑ a' ∈ S.erase a, ∑ b' ∈ P a', (held a' b').count k :=
    Finset.sum_congr rfl fun a' ha' => Finset.sum_congr rfl fun b' _ => by
      rw [setAt_of_ne _ _ _ _ fun h => (Finset.mem_erase.mp ha').1 h.1]
  unfold refTotal
  rw [← Finset.sum_erase_add S _ ha, ← Finset.sum_erase_add S _ ha, houter]
  omega

omit [DecidableEq α] [DecidableEq β] in
/-- An object is not referred to when its total is zero, and only then. -/
theorem refTotal_eq_zero_iff {k : κ} :
    refTotal S P held k = 0 ↔ ∀ a ∈ S, ∀ b ∈ P a, k ∉ held a b := by
  simp only [refTotal, Finset.sum_eq_zero_iff, List.count_eq_zero]

omit [DecidableEq α] [DecidableEq β] in
/-- Two tables with the same references to an object, owner by owner. -/
theorem refTotal_congr {P' : α → Finset β} {k : κ}
    (h : ∀ a ∈ S, ∑ b ∈ P a, (held a b).count k = ∑ b ∈ P' a, (held' a b).count k) :
    refTotal S P held k = refTotal S P' held' k :=
  Finset.sum_congr rfl h

omit [DecidableEq α] [DecidableEq β] in
/-- Owners that refer to nothing add nothing. -/
theorem refTotal_mono_owners {S' : Finset α} {k : κ} (hS : S ⊆ S')
    (h : ∀ a ∈ S', a ∉ S → ∀ b ∈ P a, k ∉ held a b) :
    refTotal S' P held k = refTotal S P held k :=
  (Finset.sum_subset hS fun a ha hna =>
    Finset.sum_eq_zero fun b hb => List.count_eq_zero.mpr (h a ha hna b hb)).symm

end Totals

/-! ### Counters -/

/-- A counter counted up. -/
def countUp (c : κ → ℕ) (k : κ) : κ → ℕ := fun k' => if k' = k then c k' + 1 else c k'

/-- A counter of `width` bits counted down; from zero it wraps around. -/
def countDown (width : ℕ) (c : κ → ℕ) (k : κ) : κ → ℕ :=
  fun k' => if k' = k then (if c k' = 0 then 2 ^ width - 1 else c k' - 1) else c k'

theorem countUp_apply (c : κ → ℕ) (k k' : κ) : countUp c k k' = c k' + [k].count k' := by
  unfold countUp
  by_cases h : k' = k
  · rw [if_pos h, h, List.count_singleton_self]
  · rw [if_neg h, List.count_eq_zero.mpr fun hmem => h (List.mem_singleton.mp hmem),
      Nat.add_zero]

/-- Above zero a counter is counted down without wrapping around. -/
theorem countDown_apply {width : ℕ} {c : κ → ℕ} {k : κ} (h : 0 < c k) (k' : κ) :
    countDown width c k k' + [k].count k' = c k' := by
  unfold countDown
  by_cases hk : k' = k
  · subst hk
    rw [if_pos rfl, if_neg h.ne', List.count_singleton_self]
    exact Nat.sub_add_cancel h
  · rw [if_neg hk, List.count_eq_zero.mpr fun hmem => hk (List.mem_singleton.mp hmem),
      Nat.add_zero]

end Forte
