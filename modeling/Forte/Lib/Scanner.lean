import Mathlib.Data.List.TakeWhile

/-!
# Scanning from the front

The steps of a hand-written scanner, away from any program: a fixed word is consumed,
characters of a kind are skipped, a token is taken up to a delimiter. Each has one lemma that
says how the text was put together when the step succeeds, so that a scanner written with
them accepts the texts that these pieces make up, and the pieces are the only ones
(`Forte.eq_of_delimited`, `Forte.eq_of_skipped`).

Steps that may fail are put together in `Except`, with `Forte.required` and
`Forte.demand`.
-/

namespace Forte

/-! ### Steps that may fail -/

section Fallible

variable {ε α β : Type}

/-- A step that needs a result. -/
def required (e : ε) : Option α → Except ε α
  | none => .error e
  | some a => .ok a

/-- A step that needs a condition. -/
def demand (e : ε) (p : Prop) [Decidable p] : Except ε Unit := if p then .ok () else .error e

@[simp]
theorem required_eq_ok {e : ε} {o : Option α} {a : α} : required e o = .ok a ↔ o = some a := by
  cases o <;> simp [required]

@[simp]
theorem demand_eq_ok {e : ε} {p : Prop} [Decidable p] {u : Unit} :
    demand e p = .ok u ↔ p := by
  unfold demand
  split <;> simp [*]

/-- Two steps succeed when the first does, and the second from what it returns. -/
@[simp]
theorem bind_eq_ok {x : Except ε α} {f : α → Except ε β} {b : β} :
    x >>= f = .ok b ↔ ∃ a, x = .ok a ∧ f a = .ok b := by
  cases x with
  | error e => exact iff_of_false nofun (by rintro ⟨a, h, -⟩; exact nomatch h)
  | ok a => exact ⟨fun h => ⟨a, rfl, h⟩, by rintro ⟨_, ⟨⟩, h⟩; exact h⟩

end Fallible

/-! ### Steps over a text -/

variable {α : Type} [DecidableEq α]

/-- A word at the front is consumed. -/
def consume (word t : List α) : Option (List α) :=
  if word.isPrefixOf t then some (t.drop word.length) else none

/-- The token in front of a delimiter, and what is behind the delimiter. Without one, nothing
is taken. -/
def takeUntil (d : α) (t : List α) : List α × List α :=
  if d ∈ t then (t.takeWhile (· ≠ d), (t.dropWhile (· ≠ d)).drop 1) else ([], t)

theorem consume_eq_some {word t rest : List α} :
    consume word t = some rest ↔ t = word ++ rest := by
  unfold consume
  split
  · rename_i h
    obtain ⟨u, rfl⟩ := List.isPrefixOf_iff_prefix.mp h
    rw [List.drop_left, Option.some.injEq, List.append_cancel_left_eq]
  · rename_i h
    refine iff_of_false nofun ?_
    rintro rfl
    exact h (List.isPrefixOf_iff_prefix.mpr (List.prefix_append _ _))

theorem takeUntil_append {d : α} {t : List α} (hd : d ∉ t) (rest : List α) :
    takeUntil d (t ++ d :: rest) = (t, rest) := by
  have hall : ∀ c ∈ t, decide (c ≠ d) = true := fun c hc =>
    decide_eq_true fun h => hd (h ▸ hc)
  rw [takeUntil, if_pos (List.mem_append_right t List.mem_cons_self),
    List.takeWhile_append_of_pos hall, List.dropWhile_append_of_pos hall,
    List.takeWhile_cons_of_neg (by simp), List.dropWhile_cons_of_neg (by simp), List.append_nil]
  rfl

theorem takeUntil_of_notMem {d : α} {t : List α} (hd : d ∉ t) : takeUntil d t = ([], t) :=
  if_neg hd

/-- **A token that was taken** ends at its delimiter, or it is empty for want of one. -/
theorem exists_takeUntil (d : α) (t : List α) :
    ∃ token rest, takeUntil d t = (token, rest) ∧
      ((d ∉ token ∧ t = token ++ d :: rest) ∨ (d ∉ t ∧ token = [] ∧ rest = t)) := by
  by_cases hd : d ∈ t
  · obtain ⟨a, r, rfl, ha⟩ := List.eq_append_cons_of_mem hd
    exact ⟨a, r, takeUntil_append ha r, .inl ⟨ha, rfl⟩⟩
  · exact ⟨[], t, takeUntil_of_notMem hd, .inr ⟨hd, rfl, rfl⟩⟩

/-- A token that is not empty ends at its delimiter. -/
theorem exists_takeUntil_of_ne_nil {d : α} {t : List α} (h : (takeUntil d t).1 ≠ []) :
    ∃ token rest, takeUntil d t = (token, rest) ∧ d ∉ token ∧ t = token ++ d :: rest := by
  obtain ⟨token, rest, htake, ⟨hd, heq⟩ | ⟨-, hnil, -⟩⟩ := exists_takeUntil d t
  · exact ⟨token, rest, htake, hd, heq⟩
  · rw [htake] at h
    exact absurd hnil h

/-- There is one way to put a text together from a token, its delimiter and the rest. -/
theorem eq_of_delimited {d : α} {t t' rest rest' : List α} (hd : d ∉ t) (hd' : d ∉ t')
    (h : t ++ d :: rest = t' ++ d :: rest') : t = t' ∧ rest = rest' := by
  have htake := takeUntil_append hd rest
  rw [h, takeUntil_append hd' rest'] at htake
  exact ⟨(Prod.mk.inj htake).1.symm, (Prod.mk.inj htake).2.symm⟩

section Skip

omit [DecidableEq α]

variable {p : α → Bool}

/-- A text that begins with no character of a kind. -/
def Stops (p : α → Bool) (t : List α) : Prop := ∀ c ∈ t.head?, p c = false

theorem dropWhile_append_of_stops {w rest : List α} (hw : ∀ c ∈ w, p c = true)
    (hrest : Stops p rest) : (w ++ rest).dropWhile p = rest := by
  rw [List.dropWhile_append_of_pos hw]
  cases rest with
  | nil => rfl
  | cons c rest => exact List.dropWhile_cons_of_neg (by rw [hrest c rfl]; exact nofun)

theorem stops_dropWhile (p : α → Bool) (t : List α) : Stops p (t.dropWhile p) := by
  induction t with
  | nil => exact nofun
  | cons c t ih =>
    rw [List.dropWhile_cons]
    split
    · exact ih
    · rename_i hc
      rintro _ ⟨rfl⟩
      exact eq_false_of_ne_true hc

/-- What was skipped. -/
theorem exists_skipped (p : α → Bool) (t : List α) :
    ∃ w, (∀ c ∈ w, p c = true) ∧ t = w ++ t.dropWhile p :=
  ⟨t.takeWhile p, fun _ hc => List.mem_takeWhile_imp hc, List.takeWhile_append_dropWhile.symm⟩

/-- There is one way to put a text together from characters to skip and a rest that begins
with none. -/
theorem eq_of_skipped {w w' rest rest' : List α} (hw : ∀ c ∈ w, p c = true)
    (hw' : ∀ c ∈ w', p c = true) (hrest : Stops p rest) (hrest' : Stops p rest')
    (h : w ++ rest = w' ++ rest') : w = w' ∧ rest = rest' := by
  have hdrop := dropWhile_append_of_stops hw hrest
  rw [h, dropWhile_append_of_stops hw' hrest'] at hdrop
  subst hdrop
  exact ⟨List.append_cancel_right h, rfl⟩

end Skip

/-- A word behind characters that are skipped. -/
theorem consume_dropWhile_eq_some {p : α → Bool} {word t rest : List α}
    (hword : Stops p (word ++ rest)) :
    consume word (t.dropWhile p) = some rest ↔
      ∃ w, (∀ c ∈ w, p c = true) ∧ t = w ++ (word ++ rest) := by
  rw [consume_eq_some]
  constructor
  · intro h
    obtain ⟨w, hw, ht⟩ := exists_skipped p t
    exact ⟨w, hw, by rw [← h]; exact ht⟩
  · rintro ⟨w, hw, rfl⟩
    exact dropWhile_append_of_stops hw hword

end Forte
