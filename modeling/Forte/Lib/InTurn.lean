import Forte.Lib.Reader

/-!
# Reading variables in turn, round after round

A stream that carries the values of a fixed list of variables over and over: after the
last variable it is the turn of the first one again. `Forte.InTurn lang as k m` is the
language of `m` words of such a stream, of which the first belongs to the variable at
position `k`; positions are counted on beyond the end of the list, so that the variable
meant is the one at `k % as.length`, and a round ends where the position is a multiple of
the length.

The one result about it says what a prefix of such a stream looks like
(`Forte.InTurn.cut`): a number of whole words, and unless it ends there, a proper prefix
of the next one.
-/

namespace Forte

variable {β α : Type}

/-- The language of `m` words for variables taken in turn, from position `k` on. -/
def InTurn (lang : α → Language β α) : List α → ℕ → ℕ → Language β (List α)
  | as, _, 0 => fun bs as' => bs = [] ∧ as' = as
  | as, k, m + 1 => fun bs as' => ∃ a bs₁ bs₂ a', as[k % as.length]? = some a ∧
      bs = bs₁ ++ bs₂ ∧ lang a bs₁ a' ∧ InTurn lang (as.set (k % as.length) a') (k + 1) m bs₂ as'

variable {lang : α → Language β α}

theorem InTurn.length_eq {as as' : List α} {k m : ℕ} {bs : List β}
    (h : InTurn lang as k m bs as') : as'.length = as.length := by
  induction m generalizing as k bs with
  | zero => rw [h.2]
  | succ m ih =>
    obtain ⟨a, bs₁, bs₂, a', -, -, -, hrest⟩ := h
    rw [ih hrest, List.length_set]

/-- Words that take room do so in turn. -/
theorem InTurn.eq_zero (hne : ∀ a bs a', lang a bs a' → bs ≠ []) {as as' : List α} {k m : ℕ}
    (h : InTurn lang as k m [] as') : m = 0 := by
  cases m with
  | zero => rfl
  | succ m =>
    obtain ⟨a, bs₁, bs₂, a', -, hbs, hword, -⟩ := h
    exact absurd (List.append_eq_nil_iff.mp hbs.symm).1 (hne a bs₁ a' hword)

/-- One round, from the start of the list to its end. -/
theorem inTurn_of_spells {as as' : List α} {bs : List β} (h : Spells (as.map lang) bs as') :
    InTurn lang as 0 as.length bs as' := by
  have tail : ∀ (done todo : List α) {bs after}, Spells (todo.map lang) bs after →
      InTurn lang (done ++ todo) done.length todo.length bs (done ++ after) := by
    intro done todo
    induction todo generalizing done with
    | nil =>
      rintro bs after ⟨rfl, rfl⟩
      exact ⟨rfl, rfl⟩
    | cons a todo ih =>
      rintro bs after ⟨bs₁, bs₂, a', after', rfl, rfl, ha, hrest⟩
      have hpos : done.length % (done ++ a :: todo).length = done.length :=
        Nat.mod_eq_of_lt (by simp)
      refine ⟨a, bs₁, bs₂, a', ?_, rfl, ha, ?_⟩
      · rw [hpos, List.getElem?_append_right le_rfl, Nat.sub_self, List.getElem?_cons_zero]
      · rw [hpos, List.set_append_right _ _ le_rfl, Nat.sub_self, List.set_cons_zero]
        simpa using ih (done ++ [a']) hrest
  exact tail [] as h

/-- **A prefix of the stream**: whole words, and a proper prefix of the word after them. -/
theorem InTurn.cut {as as' : List α} {k m : ℕ} {pre post : List β}
    (h : InTurn lang as k m (pre ++ post) as') :
    ∃ j used mid, InTurn lang as k j used mid ∧
      ((pre = used ∧ ∃ m', m = j + m' ∧ InTurn lang mid (k + j) m' post as') ∨
        ∃ m' a part missing rest a', m = j + (m' + 1) ∧ pre = used ++ part ∧
          post = missing ++ rest ∧ part ≠ [] ∧ missing ≠ [] ∧
          mid[(k + j) % mid.length]? = some a ∧ lang a (part ++ missing) a' ∧
          InTurn lang (mid.set ((k + j) % mid.length) a') (k + j + 1) m' rest as') := by
  induction m generalizing as k pre with
  | zero =>
    obtain ⟨hnil, rfl⟩ := h
    obtain ⟨rfl, rfl⟩ := List.append_eq_nil_iff.mp hnil
    exact ⟨0, [], as', ⟨rfl, rfl⟩, .inl ⟨rfl, 0, rfl, rfl, rfl⟩⟩
  | succ m ih =>
    rcases eq_or_ne pre [] with rfl | hpre
    · exact ⟨0, [], as, ⟨rfl, rfl⟩, .inl ⟨rfl, m + 1, by omega, h⟩⟩
    obtain ⟨a, bs₁, bs₂, a', ha, hbs, hword, hrest⟩ := h
    by_cases hle : bs₁.length ≤ pre.length
    · -- the whole word is in the prefix
      obtain ⟨more, rfl⟩ : bs₁ <+: pre := by
        refine List.prefix_of_prefix_length_le (List.prefix_append bs₁ bs₂) ?_ hle
        exact hbs ▸ List.prefix_append pre post
      rw [List.append_assoc] at hbs
      obtain rfl := List.append_cancel_left hbs
      obtain ⟨j, used, mid, hused, hcut⟩ := ih hrest
      have hturn : InTurn lang as k (j + 1) (bs₁ ++ used) mid :=
        ⟨a, bs₁, used, a', ha, rfl, hword, hused⟩
      refine ⟨j + 1, bs₁ ++ used, mid, hturn, ?_⟩
      have hk : k + (j + 1) = k + 1 + j := by omega
      rw [hk]
      rcases hcut with ⟨rfl, m', rfl, hpost⟩ |
        ⟨m', b, part, missing, rest, b', rfl, rfl, rfl, hpart, hmissing, hb, hnext, hlast⟩
      · exact .inl ⟨rfl, m', by omega, hpost⟩
      · exact .inr ⟨m', b, part, missing, rest, b', by omega, by rw [List.append_assoc], rfl,
          hpart, hmissing, hb, hnext, hlast⟩
    · -- the prefix ends inside the word
      obtain ⟨missing, rfl⟩ : pre <+: bs₁ := by
        refine List.prefix_of_prefix_length_le (List.prefix_append pre post) ?_ (by omega)
        exact hbs ▸ List.prefix_append bs₁ bs₂
      rw [List.append_assoc] at hbs
      have hmissing : missing ≠ [] := by
        rintro rfl
        simp at hle
      exact ⟨0, [], as, ⟨rfl, rfl⟩, .inr ⟨m, a, pre, missing, bs₂, a', by omega, rfl,
        List.append_cancel_left hbs, hpre, hmissing, ha, hword, hrest⟩⟩

end Forte
