import Mathlib.Order.Lattice
import Mathlib.Data.List.Basic

/-!
# Sorted lists and upper bounds

A list whose elements are sorted by a key, cut at the upper bound of a key: the elements up
to it, and the ones beyond. On a sorted list the cut takes the elements by their key alone,
whatever else is in the list, so that leaving some elements out commutes with cutting and
with inserting.
-/

namespace Forte

namespace UpperBound

variable {α κ : Type} [LinearOrder κ] (key : α → κ)

/-- Sorted by the key; elements with the same key are in any order. -/
def Sorted (l : List α) : Prop := l.Pairwise fun a b => key a ≤ key b

/-- The elements before the upper bound of `k`. -/
def upTo (k : κ) (l : List α) : List α := l.takeWhile fun a => key a ≤ k

/-- The elements from the upper bound of `k` on. -/
def beyond (k : κ) (l : List α) : List α := l.dropWhile fun a => key a ≤ k

/-- The list with an element inserted at its upper bound. -/
def insert (a : α) (l : List α) : List α := upTo key (key a) l ++ a :: beyond key (key a) l

theorem mem_insert {a b : α} {l : List α} : b ∈ insert key a l ↔ b = a ∨ b ∈ l := by
  conv_rhs => rw [← List.takeWhile_append_dropWhile (p := fun b => decide (key b ≤ key a)) (l := l)]
  simp only [insert, upTo, beyond, List.mem_append, List.mem_cons]
  tauto

variable {key}

theorem Sorted.filter {l : List α} (h : Sorted key l) (p : α → Bool) :
    Sorted key (l.filter p) :=
  List.Pairwise.filter p h

section

variable {l : List α} (h : Sorted key l) (k : κ)

include h

theorem upTo_eq : upTo key k l = l.filter fun a => key a ≤ k := by
  induction l with
  | nil => rfl
  | cons a l ih =>
    obtain ⟨hhead, htail⟩ := List.pairwise_cons.mp h
    rw [upTo, List.takeWhile_cons, List.filter_cons]
    split
    · exact congrArg (a :: ·) (ih htail)
    · rename_i hbeyond
      -- all that follows is at least as large
      refine (List.filter_eq_nil_iff.mpr fun b hb hle => hbeyond ?_).symm
      exact decide_eq_true ((hhead b hb).trans (of_decide_eq_true hle))

theorem beyond_eq : beyond key k l = l.filter fun a => k < key a := by
  induction l with
  | nil => rfl
  | cons a l ih =>
    obtain ⟨hhead, htail⟩ := List.pairwise_cons.mp h
    rw [beyond, List.dropWhile_cons, List.filter_cons]
    by_cases hle : key a ≤ k
    · rw [if_pos (decide_eq_true hle), if_neg (by simpa using hle)]
      exact ih htail
    · have hlt : k < key a := lt_of_not_ge hle
      rw [if_neg (by simpa using hle), if_pos (decide_eq_true hlt)]
      refine congrArg (a :: ·) (List.filter_eq_self.mpr fun b hb => ?_).symm
      exact decide_eq_true (hlt.trans_le (hhead b hb))

theorem Sorted.beyond : Sorted key (beyond key k l) := by
  rw [beyond_eq h]
  exact h.filter _

theorem Sorted.insert (a : α) : Sorted key (insert key a l) := by
  rw [UpperBound.insert, upTo_eq h, beyond_eq h]
  refine List.pairwise_append.mpr ⟨h.filter _, List.pairwise_cons.mpr ⟨?_, h.filter _⟩, ?_⟩
  · intro b hb
    exact (of_decide_eq_true (List.mem_filter.mp hb).2).le
  · intro b hb c hc
    have hba : key b ≤ key a := of_decide_eq_true (List.mem_filter.mp hb).2
    rcases List.mem_cons.mp hc with rfl | hc
    · exact hba
    · exact hba.trans (of_decide_eq_true (List.mem_filter.mp hc).2 : key a < key c).le

theorem upTo_filter (p : α → Bool) : upTo key k (l.filter p) = (upTo key k l).filter p := by
  rw [upTo_eq h, upTo_eq (h.filter p), List.filter_comm]

theorem beyond_filter (p : α → Bool) :
    UpperBound.beyond key k (l.filter p) = (UpperBound.beyond key k l).filter p := by
  rw [beyond_eq h, beyond_eq (h.filter p), List.filter_comm]

/-- **Elements that are left out have no influence on where another one is inserted.** -/
theorem filter_insert (a : α) (p : α → Bool) :
    (UpperBound.insert key a l).filter p =
      if p a then UpperBound.insert key a (l.filter p) else l.filter p := by
  rw [UpperBound.insert, List.filter_append, List.filter_cons, ← upTo_filter h,
    ← beyond_filter h]
  split
  · rfl
  · exact List.takeWhile_append_dropWhile

end

end UpperBound

end Forte
