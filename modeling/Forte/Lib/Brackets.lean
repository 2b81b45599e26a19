import Mathlib.Data.List.Basic

/-!
# Brackets

Words over an alphabet with an opening and a closing bracket. `Forte.Brackets.depth` counts
the brackets that are open, and fails where one is closed that is not open; a word is balanced
if none is left (`Forte.Brackets.Balanced`). `Forte.Brackets.close` looks for the closing
bracket of one that has been opened in front of the word: what it finds is the only way to
split the word into a balanced one, this bracket and the rest
(`Forte.Brackets.close_eq_some_iff`).
-/

namespace Forte

/-- An opening and a closing bracket. -/
structure Brackets (α : Type) where
  opening : α
  closing : α
  ne : opening ≠ closing

namespace Brackets

variable {α : Type} [DecidableEq α] (B : Brackets α)

/-- The number of open brackets behind a word, of which there were `d` in front of it. -/
def depth : ℕ → List α → Option ℕ
  | d, [] => some d
  | d, a :: l =>
    if a = B.opening then depth (d + 1) l
    else if a = B.closing then
      if d = 0 then none else depth (d - 1) l
    else depth d l

/-- **A balanced word.** -/
def Balanced (l : List α) : Prop := B.depth 0 l = some 0

instance (l : List α) : Decidable (B.Balanced l) := inferInstanceAs (Decidable (_ = _))

/-- What is in front of the closing bracket that has no opening one, and what is behind it;
`d` brackets have to be closed before. -/
def close : ℕ → List α → Option (List α × List α)
  | _, [] => none
  | d, a :: l =>
    if a = B.opening then (close (d + 1) l).map fun r => (a :: r.1, r.2)
    else if a = B.closing then
      if d = 0 then some ([], l) else (close (d - 1) l).map fun r => (a :: r.1, r.2)
    else (close d l).map fun r => (a :: r.1, r.2)

/-! ### How the depth composes -/

@[simp]
theorem depth_nil (d : ℕ) : B.depth d [] = some d := rfl

@[simp]
theorem depth_opening (d : ℕ) (l : List α) :
    B.depth d (B.opening :: l) = B.depth (d + 1) l := if_pos rfl

@[simp]
theorem depth_closing_zero (l : List α) : B.depth 0 (B.closing :: l) = none := by
  rw [depth, if_neg (Ne.symm B.ne), if_pos rfl, if_pos rfl]

@[simp]
theorem depth_closing_succ (d : ℕ) (l : List α) :
    B.depth (d + 1) (B.closing :: l) = B.depth d l := by
  rw [depth, if_neg (Ne.symm B.ne), if_pos rfl, if_neg (Nat.succ_ne_zero d), Nat.add_sub_cancel]

theorem depth_other {a : α} (ho : a ≠ B.opening) (hc : a ≠ B.closing) (d : ℕ) (l : List α) :
    B.depth d (a :: l) = B.depth d l := by
  rw [depth, if_neg ho, if_neg hc]

theorem depth_append (d : ℕ) (l m : List α) :
    B.depth d (l ++ m) = (B.depth d l).bind fun e => B.depth e m := by
  induction l generalizing d with
  | nil => rfl
  | cons a l ih =>
    rw [List.cons_append, depth, depth]
    split_ifs with ho hc hd
    · exact ih (d + 1)
    · rfl
    · exact ih (d - 1)
    · exact ih d

/-- What is balanced from one depth on is so from a greater one. -/
theorem depth_add {d e : ℕ} {l : List α} (h : B.depth d l = some e) (k : ℕ) :
    B.depth (d + k) l = some (e + k) := by
  induction l generalizing d with
  | nil =>
    obtain rfl : d = e := Option.some.inj h
    rfl
  | cons a l ih =>
    rw [depth] at h ⊢
    split_ifs at h with ho hc hd
    · rw [if_pos ho, Nat.add_right_comm]
      exact ih h
    · have hsub : d + k - 1 = d - 1 + k := by omega
      rw [if_neg ho, if_pos hc, if_neg (by omega), hsub]
      exact ih h
    · rw [if_neg ho, if_neg hc]
      exact ih h

theorem Balanced.depth_eq {B : Brackets α} {l : List α} (h : B.Balanced l) (d : ℕ) :
    B.depth d l = some d := by
  have hadd := B.depth_add h d
  rwa [Nat.zero_add] at hadd

/-- **A balanced word in brackets does not count.** -/
theorem Balanced.depth_block {B : Brackets α} {l : List α} (h : B.Balanced l) (d : ℕ)
    (rest : List α) :
    B.depth d (B.opening :: (l ++ B.closing :: rest)) = B.depth d rest := by
  rw [depth_opening, depth_append, h.depth_eq]
  exact B.depth_closing_succ d rest

/-! ### Looking for the closing bracket -/

/-- **The closing bracket that is found** is the one behind a balanced word. -/
theorem close_eq_some_iff {d : ℕ} {l p rest : List α} :
    B.close d l = some (p, rest) ↔ l = p ++ B.closing :: rest ∧ B.depth d p = some 0 := by
  induction l generalizing d p with
  | nil => simp [close]
  | cons a l ih =>
    -- the same question for the words without their first letter
    have hcons : ∀ e, (∀ q, B.depth d (a :: q) = B.depth e q) → (d = 0 → a ≠ B.closing) →
        (((B.close e l).map fun r => (a :: r.1, r.2)) = some (p, rest) ↔
          a :: l = p ++ B.closing :: rest ∧ B.depth d p = some 0) := by
      intro e hdepth hne
      cases p with
      | nil =>
        refine iff_of_false (by simp) ?_
        rintro ⟨hl, hd⟩
        exact hne (Option.some.inj hd) (List.cons.inj hl).1
      | cons b q =>
        rw [Option.map_eq_some_iff, List.cons_append, List.cons.injEq]
        constructor
        · rintro ⟨r, hr, heq⟩
          obtain ⟨hbq, rfl⟩ := Prod.mk.inj heq
          obtain ⟨rfl, rfl⟩ := List.cons.inj hbq
          rw [hdepth]
          obtain ⟨hl, hd⟩ := ih.mp hr
          exact ⟨⟨rfl, hl⟩, hd⟩
        · rintro ⟨⟨rfl, hl⟩, hd⟩
          rw [hdepth] at hd
          exact ⟨(q, rest), ih.mpr ⟨hl, hd⟩, rfl⟩
    rw [close]
    split_ifs with ho hc hd
    · exact hcons (d + 1) (fun q => by rw [ho, depth_opening]) (fun _ => ho ▸ B.ne)
    · subst hc hd
      constructor
      · intro h
        obtain ⟨rfl, rfl⟩ := Prod.mk.inj (Option.some.inj h)
        exact ⟨rfl, rfl⟩
      · rintro ⟨hl, hd⟩
        cases p with
        | nil => rw [(List.cons.inj hl).2]
        | cons b q =>
          rw [← (List.cons.inj hl).1, depth_closing_zero] at hd
          exact absurd hd (by simp)
    · refine hcons (d - 1) (fun q => ?_) (fun h => absurd h hd)
      rw [depth, if_neg ho, if_pos hc, if_neg hd]
    · exact hcons d (fun q => B.depth_other ho hc d q) (fun _ => hc)

end Brackets

end Forte
