import Mathlib.Data.List.Forall2
import Mathlib.Tactic.Linarith

/-!
# Readers of a byte stream that may end too early

A reader is handed what has arrived of a stream and a variable to store into. It returns
a number and the variable's new contents: the count of what it has used when it has read
a value, and a number that is not positive when it has not. A stream that ends in the
middle of a value is the case this file is about: the reader has then stored a part of
the value already, and it will be run again from the start when more has arrived.

A *language* says which words spell which contents. Three properties relate a reader to
it:

* `Forte.Complete`: a word of the language is read, whatever follows it;
* `Forte.Pending`: on a proper prefix of a word the reader returns `-1`, and what it has
  stored meanwhile does no harm – the word still spells the same contents for the
  variable as it is now;
* `Forte.Sound`: what is read is a word of the language.

Languages of this kind are prefix-free as far as a complete reader goes
(`Forte.Complete.eq_of_append_eq`). The combinator `Forte.readEach` reads one variable
after the other and stops at the first that could not be read; it inherits all three
properties, for the words `Forte.Spells` puts together.
-/

namespace Forte

/-- A reader: from what has arrived, the number to return and the contents stored. `none`
stands for a run without a result. -/
abbrev Reader (β α : Type) := List β → Option (ℤ × α)

/-- A language: which word spells which contents. -/
abbrev Language (β α : Type) := List β → α → Prop

variable {β α : Type}

/-- A word of the language is read, whatever follows it. -/
def Complete (r : Reader β α) (L : Language β α) : Prop :=
  ∀ {bs a} rest, L bs a → r (bs ++ rest) = some ((bs.length : ℤ), a)

/-- On a proper prefix of a word, the reader returns `-1` and leaves contents `w` for
which the word still spells the same. -/
def Pending (r : Reader β α) (L : Language β α) (R : α → Prop) (next : α → Language β α) :
    Prop :=
  ∀ {pre post a}, L (pre ++ post) a → post ≠ [] →
    ∃ w, r pre = some (-1, w) ∧ next w (pre ++ post) a ∧ R w

/-- What is read is a word of the language. -/
def Sound (r : Reader β α) (L : Language β α) : Prop :=
  ∀ {bs n a}, r bs = some (n, a) → 0 ≤ n →
    ∃ used rest, bs = used ++ rest ∧ n = used.length ∧ L used a

/-- The words a complete reader reads are prefix-free. -/
theorem Complete.eq_of_append_eq {r : Reader β α} {L : Language β α} (h : Complete r L)
    {bs bs' rest rest' : List β} {a a' : α} (ha : L bs a) (ha' : L bs' a')
    (heq : bs ++ rest = bs' ++ rest') : bs = bs' ∧ a = a' ∧ rest = rest' := by
  have hr := h rest ha
  rw [heq, h rest' ha'] at hr
  simp only [Option.some.injEq, Prod.mk.injEq, Nat.cast_inj] at hr
  obtain ⟨hbs, hrest⟩ := List.append_inj heq hr.1.symm
  exact ⟨hbs, hr.2.symm, hrest⟩

/-- Read one variable after the other, and stop at the first whose reader does not return
a positive number. Each variable comes with its reader; the result is the total of what
has been used, or the number of the reader that stopped. -/
def readEach : List (α × Reader β α) → ℤ → List β → Option (ℤ × List α)
  | [], total, _ => some (total, [])
  | (_, r) :: items, total, bs => do
    let (n, a) ← r bs
    if n ≤ 0 then some (n, a :: items.map Prod.fst)
    else
      let (total, as) ← readEach items (total + n) (bs.drop n.toNat)
      some (total, a :: as)

/-- The words of a list of languages: a word of each, one behind the other. -/
def Spells : List (Language β α) → Language β (List α)
  | [], bs, as => bs = [] ∧ as = []
  | L :: Ls, bs, as =>
    ∃ bs₁ bs₂ a as', bs = bs₁ ++ bs₂ ∧ as = a :: as' ∧ L bs₁ a ∧ Spells Ls bs₂ as'

theorem Spells.length_eq {Ls : List (Language β α)} {bs : List β} {as : List α}
    (h : Spells Ls bs as) : as.length = Ls.length := by
  induction Ls generalizing bs as with
  | nil => rw [h.2, List.length_nil, List.length_nil]
  | cons L Ls ih =>
    obtain ⟨_, _, a, as', -, rfl, -, hrest⟩ := h
    rw [List.length_cons, List.length_cons, ih hrest]

/-- A word of some languages is not empty, if no word of the first of them is. -/
theorem Spells.ne_nil {Ls : List (Language β α)} {bs : List β} {as : List α} (h : Spells Ls bs as)
    (hLs : Ls ≠ []) (hne : ∀ L ∈ Ls, ∀ bs a, L bs a → bs ≠ []) : bs ≠ [] := by
  obtain ⟨L, Ls, rfl⟩ := List.exists_cons_of_ne_nil hLs
  obtain ⟨bs₁, bs₂, a, as', rfl, -, hL, -⟩ := h
  exact fun hnil => hne L List.mem_cons_self bs₁ a hL (List.append_eq_nil_iff.mp hnil).1

/-- A word of the languages of two lists is a word of each, one behind the other. -/
theorem spells_append {Ls Ms : List (Language β α)} {bs : List β} {as : List α} :
    Spells (Ls ++ Ms) bs as ↔ ∃ bs₁ bs₂ as₁ as₂, bs = bs₁ ++ bs₂ ∧ as = as₁ ++ as₂ ∧
      Spells Ls bs₁ as₁ ∧ Spells Ms bs₂ as₂ := by
  induction Ls generalizing bs as with
  | nil =>
    constructor
    · exact fun h => ⟨[], bs, [], as, rfl, rfl, ⟨rfl, rfl⟩, h⟩
    · rintro ⟨_, bs₂, _, as₂, rfl, rfl, ⟨rfl, rfl⟩, h⟩
      exact h
  | cons L Ls ih =>
    constructor
    · rintro ⟨bs₁, bs₂, a, as', rfl, rfl, hL, hrest⟩
      obtain ⟨bs₃, bs₄, as₃, as₄, rfl, rfl, h₃, h₄⟩ := ih.mp hrest
      exact ⟨bs₁ ++ bs₃, bs₄, a :: as₃, as₄, by rw [List.append_assoc], rfl,
        ⟨bs₁, bs₃, a, as₃, rfl, rfl, hL, h₃⟩, h₄⟩
    · rintro ⟨_, bs₂, _, as₂, rfl, rfl, ⟨bs₃, bs₄, a, as', rfl, rfl, hL, h₄⟩, h⟩
      exact ⟨bs₃, bs₄ ++ bs₂, a, as' ++ as₂, by rw [List.append_assoc], rfl, hL,
        ih.mpr ⟨bs₄, bs₂, as', as₂, rfl, rfl, h₄, h⟩⟩

/-- Languages that have the same words can replace one another, whatever the words
spell. -/
theorem Spells.exists_of_forall₂ {Ls Ms : List (Language β α)} {bs : List β} {as : List α}
    (hsame : List.Forall₂ (fun L M => ∀ bs a, L bs a → ∃ a', M bs a') Ls Ms)
    (h : Spells Ls bs as) : ∃ as', Spells Ms bs as' := by
  induction hsame generalizing bs as with
  | nil => exact ⟨as, h⟩
  | cons hLM _ ih =>
    obtain ⟨bs₁, bs₂, a, as', rfl, rfl, hL, hrest⟩ := h
    obtain ⟨a', ha'⟩ := hLM bs₁ a hL
    obtain ⟨as'', has⟩ := ih hrest
    exact ⟨a' :: as'', bs₁, bs₂, a', as'', rfl, rfl, ha', has⟩

/-- Where every variable may be read again into what it holds, so may a list of them. -/
theorem Spells.again {lang : α → Language β α} {R : α → α → Prop} {as as' : List α} {bs : List β}
    (hagain : ∀ a ∈ as, ∀ bs a', lang a bs a' → lang a' bs a' ∧ R a a')
    (h : Spells (as.map lang) bs as') :
    Spells (as'.map lang) bs as' ∧ List.Forall₂ R as as' := by
  induction as generalizing bs as' with
  | nil =>
    obtain ⟨rfl, rfl⟩ := h
    exact ⟨⟨rfl, rfl⟩, List.Forall₂.nil⟩
  | cons a as ih =>
    obtain ⟨bs₁, bs₂, a', as'', rfl, rfl, hL, hrest⟩ := h
    obtain ⟨hsame, hR⟩ := hagain a List.mem_cons_self bs₁ a' hL
    obtain ⟨hsames, hRs⟩ := ih (fun x hx => hagain x (List.mem_cons_of_mem _ hx)) hrest
    exact ⟨⟨bs₁, bs₂, a', as'', rfl, rfl, hsame, hsames⟩, List.Forall₂.cons hR hRs⟩

section Each

variable {read : α → Reader β α} {lang : α → Language β α}

theorem readEach_cons (a : α) (as : List α) (total : ℤ) (bs : List β) {n : ℤ} {a' : α}
    (h : read a bs = some (n, a')) :
    readEach ((a :: as).map fun a => (a, read a)) total bs =
      if n ≤ 0 then some (n, a' :: as)
      else (readEach (as.map fun a => (a, read a)) (total + n) (bs.drop n.toNat)).map
        fun r => (r.1, a' :: r.2) := by
  simp only [List.map_cons, readEach, h, Option.bind_eq_bind, Option.bind_some, List.map_map]
  split_ifs
  · simp [Function.comp_def]
  · cases readEach (as.map fun a => (a, read a)) (total + n) (bs.drop n.toNat) <;> rfl

/-- A list of variables is read completely, if every word takes some room. -/
theorem readEach_complete {as : List α} (hread : ∀ a ∈ as, Complete (read a) (lang a))
    (hne : ∀ a ∈ as, ∀ bs a', lang a bs a' → bs ≠ []) (total : ℤ) {bs : List β} (rest : List β)
    {as' : List α} (h : Spells (as.map lang) bs as') :
    readEach (as.map fun a => (a, read a)) total (bs ++ rest) = some (total + bs.length, as') := by
  induction as generalizing total bs as' with
  | nil =>
    obtain ⟨rfl, rfl⟩ := h
    simp [readEach]
  | cons a as ih =>
    obtain ⟨bs₁, bs₂, a', as'', rfl, rfl, h₁, h₂⟩ := h
    have hpos : 0 < bs₁.length :=
      List.length_pos_iff.mpr (hne a List.mem_cons_self bs₁ a' h₁)
    have hhead := hread a List.mem_cons_self (bs₂ ++ rest) h₁
    have htail := ih (fun x hx => hread x (List.mem_cons_of_mem _ hx))
      (fun x hx => hne x (List.mem_cons_of_mem _ hx)) (total + bs₁.length) h₂
    rw [List.append_assoc, readEach_cons a as total _ hhead, if_neg (by omega), Int.toNat_natCast,
      List.drop_left, htail]
    simp [Int.add_assoc]

/-- A list of variables whose words end too early is left with contents for which the
word still spells the same. -/
theorem readEach_pending {R : α → α → Prop} [Std.Refl R] {as : List α}
    (hread : ∀ a ∈ as, Complete (read a) (lang a))
    (hpend : ∀ a ∈ as, Pending (read a) (lang a) (R a) lang)
    (hagain : ∀ a ∈ as, ∀ bs a', lang a bs a' → lang a' bs a' ∧ R a a')
    (hne : ∀ a ∈ as, ∀ bs a', lang a bs a' → bs ≠ []) (total : ℤ) {pre post : List β}
    {as' : List α} (h : Spells (as.map lang) (pre ++ post) as') (hpost : post ≠ []) :
    ∃ ws, readEach (as.map fun a => (a, read a)) total pre = some (-1, ws) ∧
      Spells (ws.map lang) (pre ++ post) as' ∧ List.Forall₂ R as ws := by
  induction as generalizing total pre as' with
  | nil => exact absurd (List.append_eq_nil_iff.mp h.1).2 hpost
  | cons a as ih =>
    obtain ⟨bs₁, bs₂, a', as'', hbs, rfl, h₁, h₂⟩ := h
    by_cases hle : bs₁.length ≤ pre.length
    · -- the first word has arrived: the reader stops behind it
      obtain ⟨mid, rfl⟩ : bs₁ <+: pre := by
        refine List.prefix_of_prefix_length_le (List.prefix_append bs₁ bs₂) ?_ hle
        exact hbs ▸ List.prefix_append pre post
      rw [List.append_assoc] at hbs
      obtain rfl := List.append_cancel_left hbs
      have hpos : 0 < bs₁.length :=
        List.length_pos_iff.mpr (hne a List.mem_cons_self bs₁ a' h₁)
      have hhead := hread a List.mem_cons_self mid h₁
      obtain ⟨hsame, hR⟩ := hagain a List.mem_cons_self bs₁ a' h₁
      obtain ⟨ws, hws, hspells, hRs⟩ := ih (fun x hx => hread x (List.mem_cons_of_mem _ hx))
        (fun x hx => hpend x (List.mem_cons_of_mem _ hx))
        (fun x hx => hagain x (List.mem_cons_of_mem _ hx))
        (fun x hx => hne x (List.mem_cons_of_mem _ hx)) (total + bs₁.length) h₂
      refine ⟨a' :: ws, ?_, ?_, List.Forall₂.cons hR hRs⟩
      · rw [readEach_cons a as total _ hhead, if_neg (by omega), Int.toNat_natCast,
          List.drop_left, hws]
        rfl
      · exact ⟨bs₁, mid ++ post, a', as'', by rw [List.append_assoc], rfl, hsame, hspells⟩
    · -- the first word is cut off
      obtain ⟨mid, rfl⟩ : pre <+: bs₁ := by
        refine List.prefix_of_prefix_length_le (List.prefix_append pre post) ?_ (by omega)
        exact hbs ▸ List.prefix_append bs₁ bs₂
      have hmid : mid ≠ [] := by
        rintro rfl
        simp at hle
      obtain ⟨w, hw, hnext, hR⟩ := hpend a List.mem_cons_self h₁ hmid
      refine ⟨w :: as, ?_, ?_, List.Forall₂.cons hR (List.forall₂_refl as)⟩
      · rw [readEach_cons a as total _ hw, if_pos (by omega)]
      · exact ⟨pre ++ mid, bs₂, a', as'', hbs, rfl, hnext, h₂⟩

/-- A list of variables that has been read spells a word. Since a reader that returns
zero would have read an empty word, every reader that stops returns a negative number. -/
theorem readEach_sound {as : List α} (hread : ∀ a ∈ as, Sound (read a) (lang a))
    (hne : ∀ a ∈ as, ∀ bs a', lang a bs a' → bs ≠ []) {total n : ℤ} {bs : List β}
    {as' : List α} (h : readEach (as.map fun a => (a, read a)) total bs = some (n, as'))
    (hn : 0 ≤ n) :
    ∃ used rest, bs = used ++ rest ∧ n = total + used.length ∧ Spells (as.map lang) used as' := by
  induction as generalizing total bs as' with
  | nil =>
    obtain ⟨rfl, rfl⟩ : total = n ∧ [] = as' := by simpa [readEach] using h
    exact ⟨[], bs, rfl, by simp, rfl, rfl⟩
  | cons a as ih =>
    cases hr : read a bs with
    | none => simp [readEach, hr] at h
    | some r =>
      obtain ⟨m, a'⟩ := r
      rw [readEach_cons a as total bs hr] at h
      split_ifs at h with hm
      · obtain ⟨rfl, -⟩ := Prod.mk.inj (Option.some.inj h)
        obtain ⟨used, rest, -, hused, hlang⟩ := hread a List.mem_cons_self hr hn
        have hlen : used.length = 0 := by omega
        exact absurd (List.eq_nil_of_length_eq_zero hlen) (hne a List.mem_cons_self used a' hlang)
      · obtain ⟨⟨k, as''⟩, hrest, heq⟩ := Option.map_eq_some_iff.mp h
        simp only [Prod.mk.injEq] at heq
        obtain ⟨rfl, rfl⟩ := heq
        obtain ⟨used, rest, rfl, hused, hlang⟩ := hread a List.mem_cons_self hr (by omega)
        rw [hused, Int.toNat_natCast, List.drop_left] at hrest
        obtain ⟨used', rest', rfl, hk, hspells⟩ :=
          ih (fun x hx => hread x (List.mem_cons_of_mem _ hx))
            (fun x hx => hne x (List.mem_cons_of_mem _ hx)) hrest
        refine ⟨used ++ used', rest', by rw [List.append_assoc], ?_, used, used', a', as'', rfl,
          rfl, hlang, hspells⟩
        rw [hk, List.length_append]
        push_cast
        omega

/-- What a loop returns is no less than the least number its readers return. -/
theorem le_readEach {as : List α} {least : ℤ}
    (hread : ∀ a ∈ as, ∀ bs n a', read a bs = some (n, a') → least ≤ n) {total n : ℤ}
    (htotal : least ≤ total) {bs : List β} {as' : List α}
    (h : readEach (as.map fun a => (a, read a)) total bs = some (n, as')) : least ≤ n := by
  induction as generalizing total bs as' with
  | nil =>
    obtain ⟨rfl, -⟩ : total = n ∧ [] = as' := by simpa [readEach] using h
    exact htotal
  | cons a as ih =>
    cases hr : read a bs with
    | none => simp [readEach, hr] at h
    | some r =>
      obtain ⟨m, a'⟩ := r
      have hm := hread a List.mem_cons_self bs m a' hr
      rw [readEach_cons a as total bs hr] at h
      split_ifs at h with hle
      · obtain ⟨rfl, -⟩ := Prod.mk.inj (Option.some.inj h)
        exact hm
      · obtain ⟨⟨k, as''⟩, hrest, heq⟩ := Option.map_eq_some_iff.mp h
        simp only [Prod.mk.injEq] at heq
        obtain ⟨rfl, rfl⟩ := heq
        exact ih (fun x hx => hread x (List.mem_cons_of_mem _ hx)) (by omega) hrest

end Each

end Forte
