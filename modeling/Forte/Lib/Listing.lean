import Mathlib.Data.Int.Init
import Mathlib.Data.List.Infix

/-!
# Listings

Texts that list items between punctuation, away from any program: items are separated by one
character and closed by another one, and blanks around an item are passed over.

`Forte.Listing.items` reads the items of a listing one after another, with a reader that says
how long an item is, or with a negative number that there is none. Of two readers that agree
about the lengths of the items, each keeps what the other one does (`Forte.Listing.items_rel`).
-/

namespace Forte

/-- The punctuation of a listing. -/
structure Listing (α : Type) where
  blank : α
  separator : α
  close : α
  separator_ne_blank : separator ≠ blank
  separator_ne_close : separator ≠ close

namespace Listing

variable {α σ : Type} [DecidableEq α] (L : Listing α)

/-- Blanks in front of a text are passed over. -/
def skipBlanks (t : List α) : List α := t.dropWhile (· = L.blank)

/-- The items of a listing, and the text where the reading ended. As every round but the last
takes a separator, there are no more rounds than characters. -/
def items (item : List α → σ → ℤ × σ) : ℕ → List α → σ → List α × σ
  | 0, t, s => (t, s)
  | rounds + 1, t, s =>
    if t = [] ∨ t.head? = some L.close then (t, s)
    else
      let start := L.skipBlanks t
      let read := item start s
      if read.1 < 0 then (start, read.2)
      else
        let rest := L.skipBlanks (start.drop read.1.toNat)
        if rest.head? = some L.separator then items item rounds (rest.drop 1) read.2
        else (rest, read.2)

variable {L} {item : List α → σ → ℤ × σ}

/-- **Two readers that agree about the lengths** of the items stop at the same place, whatever
else they keep. -/
theorem items_rel {τ : Type} {item' : List α → τ → ℤ × τ} (Rel : σ → τ → Prop)
    (hitem : ∀ t s s', Rel s s' → (item t s).1 = (item' t s').1 ∧ Rel (item t s).2 (item' t s').2)
    (rounds : ℕ) (t : List α) {s : σ} {s' : τ} (h : Rel s s') :
    (L.items item rounds t s).1 = (L.items item' rounds t s').1 ∧
      Rel (L.items item rounds t s).2 (L.items item' rounds t s').2 := by
  induction rounds generalizing t s s' with
  | zero => exact ⟨rfl, h⟩
  | succ rounds ih =>
    obtain ⟨hlen, hrel⟩ := hitem (L.skipBlanks t) s s' h
    rw [items, items]
    by_cases hend : t = [] ∨ t.head? = some L.close
    · rw [if_pos hend, if_pos hend]
      exact ⟨rfl, h⟩
    · rw [if_neg hend, if_neg hend]
      simp only [hlen]
      by_cases hneg : (item' (L.skipBlanks t) s').1 < 0
      · rw [if_pos hneg, if_pos hneg]
        exact ⟨rfl, hrel⟩
      · rw [if_neg hneg, if_neg hneg]
        split
        · exact ih _ hrel
        · exact ⟨rfl, hrel⟩

/-- Where the reading ends depends on the lengths of the items only. -/
theorem items_fst_eq {τ : Type} {item' : List α → τ → ℤ × τ}
    (hitem : ∀ t s s', (item t s).1 = (item' t s').1) (rounds : ℕ) (t : List α) (s : σ) (s' : τ) :
    (L.items item rounds t s).1 = (L.items item' rounds t s').1 := by
  have hrel : ∀ t s s', True → (item t s).1 = (item' t s').1 ∧ True :=
    fun t s s' _ => ⟨hitem t s s', trivial⟩
  exact (items_rel (fun _ _ => True) hrel rounds t trivial).1

theorem length_skipBlanks_le (t : List α) : (L.skipBlanks t).length ≤ t.length :=
  (List.dropWhile_suffix _).length_le

/-- The text where the reading ends is no longer than the listing. -/
theorem length_items_le (rounds : ℕ) (t : List α) (s : σ) :
    (L.items item rounds t s).1.length ≤ t.length := by
  induction rounds generalizing t s with
  | zero => exact Nat.le_refl _
  | succ rounds ih =>
    rw [items]
    split
    · exact Nat.le_refl _
    · have hstart := L.length_skipBlanks_le t
      have hrest := L.length_skipBlanks_le
        ((L.skipBlanks t).drop (item (L.skipBlanks t) s).1.toNat)
      rw [List.length_drop] at hrest
      dsimp only
      split
      · exact hstart
      · split
        · have hnext := ih ((L.skipBlanks
            ((L.skipBlanks t).drop (item (L.skipBlanks t) s).1.toNat)).drop 1)
            (item (L.skipBlanks t) s).2
          rw [List.length_drop] at hnext
          omega
        · dsimp only
          omega

end Listing

end Forte
