import Mathlib.Data.List.Basic

/-!
# Escape sequences

Texts in which some characters are spelled as sequences, away from any program. A
`Forte.EscapeTable` gives each of these characters a sequence that begins with a lead
character, which is one of them itself; no sequence begins another one. Then a text can be
spelled and read back (`Forte.EscapeTable.unescape_escape`), and a text that shows some
characters only in sequences is its own reading exactly if it has none of these characters
(`Forte.EscapeTable.shown_iff`).
-/

namespace Forte

/-- The characters that are spelled as sequences. -/
structure EscapeTable (α : Type) where
  /-- The character that begins every sequence. -/
  lead : α
  /-- The characters, each with its sequence. -/
  entries : List (α × List α)
  lead_mem : lead ∈ entries.map Prod.fst
  starts : ∀ e ∈ entries, ∃ c rest, e.2 = lead :: c :: rest
  prefixFree : ∀ e ∈ entries, ∀ f ∈ entries, e.2 <+: f.2 → e = f

namespace EscapeTable

variable {α : Type} [DecidableEq α] (T : EscapeTable α)

/-- How a character is spelled. -/
def spell (c : α) : List α :=
  match T.entries.find? (·.1 = c) with
  | some e => e.2
  | none => [c]

/-- A text, character by character. -/
def escape (s : List α) : List α := s.flatMap T.spell

/-- The text that was spelled: at a lead character the first sequence that is there stands for
its character. -/
def unescape : List α → List α
  | [] => []
  | c :: rest =>
    if c = T.lead then
      match _h : T.entries.find? (fun e => e.2.isPrefixOf (c :: rest)) with
      | some e => e.1 :: unescape ((c :: rest).drop e.2.length)
      | none => c :: unescape rest
    else c :: unescape rest
termination_by s => s.length
decreasing_by
  · obtain ⟨d, tail, he⟩ := T.starts e (List.mem_of_find?_eq_some _h)
    rw [he, List.length_drop, List.length_cons, List.length_cons, List.length_cons]
    omega
  · exact Nat.lt_succ_self _
  · exact Nat.lt_succ_self _

/-- **A text that shows certain characters only in sequences.** -/
inductive Shows (special : α → Prop) : List α → Prop
  | nil : Shows special []
  | plain {c : α} {s : List α} (hc : ¬special c) (h : Shows special s) : Shows special (c :: s)
  | sequence {e : α × List α} {s : List α} (he : e ∈ T.entries) (h : Shows special s) :
      Shows special (e.2 ++ s)

omit [DecidableEq α] in
theorem Shows.append {special : α → Prop} {s t : List α} (hs : T.Shows special s)
    (ht : T.Shows special t) : T.Shows special (s ++ t) := by
  induction hs with
  | nil => exact ht
  | plain hc _ ih => exact .plain hc ih
  | sequence he _ ih =>
    rw [List.append_assoc]
    exact .sequence he ih

/-- A spelled text shows none of the characters of the table. -/
theorem shows_escape (s : List α) : T.Shows (· ∈ T.entries.map Prod.fst) (T.escape s) := by
  induction s with
  | nil => exact .nil
  | cons c s ih =>
    have hspell : T.Shows (· ∈ T.entries.map Prod.fst) (T.spell c) := by
      unfold spell
      split
      · rename_i e he
        have hseq : T.Shows (· ∈ T.entries.map Prod.fst) (e.2 ++ []) :=
          .sequence (List.mem_of_find?_eq_some he) .nil
        rwa [List.append_nil] at hseq
      · rename_i hnone
        refine .plain (fun hc => ?_) .nil
        obtain ⟨e, he, heq⟩ := List.mem_map.mp hc
        exact absurd heq (by simpa using List.find?_eq_none.mp hnone e he)
    exact hspell.append T ih

omit [DecidableEq α] in
theorem Shows.mono {special special' : α → Prop} {s : List α} (h : T.Shows special s)
    (himp : ∀ c, special' c → special c) : T.Shows special' s := by
  induction h with
  | nil => exact .nil
  | plain hc _ ih => exact .plain (fun hc' => hc (himp _ hc')) ih
  | sequence he _ ih => exact .sequence he ih

omit [DecidableEq α] in
/-- A text without the characters shows none of them. -/
theorem shows_of_forall {special : α → Prop} {s : List α} (h : ∀ c ∈ s, ¬special c) :
    T.Shows special s := by
  induction s with
  | nil => exact .nil
  | cons c s ih =>
    exact .plain (h c List.mem_cons_self) (ih fun d hd => h d (List.mem_cons_of_mem c hd))

/-! ### Reading -/

/-- A sequence is read as its character, whatever follows. -/
theorem unescape_sequence {e : α × List α} (he : e ∈ T.entries) (s : List α) :
    T.unescape (e.2 ++ s) = e.1 :: T.unescape s := by
  obtain ⟨d, rest, heq⟩ := T.starts e he
  have hfind : T.entries.find? (fun f => f.2.isPrefixOf (e.2 ++ s)) = some e := by
    cases hf : T.entries.find? (fun f => f.2.isPrefixOf (e.2 ++ s)) with
    | none =>
      have hnot := List.find?_eq_none.mp hf e he
      rw [List.isPrefixOf_iff_prefix] at hnot
      exact absurd (List.prefix_append _ _) hnot
    | some f =>
      -- of two sequences at the same place, one begins the other
      have hmem := List.mem_of_find?_eq_some hf
      have hpre : f.2 <+: e.2 ++ s := by simpa using List.find?_some hf
      rcases List.prefix_or_prefix_of_prefix hpre (List.prefix_append e.2 s) with h | h
      · rw [T.prefixFree f hmem e he h]
      · rw [T.prefixFree e he f hmem h]
  have hcons : e.2 ++ s = T.lead :: (d :: rest ++ s) := by rw [heq]; rfl
  rw [hcons] at hfind ⊢
  rw [unescape, if_pos rfl]
  split
  · rename_i f hf
    obtain rfl : e = f := Option.some.inj (hfind.symm.trans hf)
    rw [← hcons, List.drop_left]
  · rename_i hnone
    exact absurd (hfind.symm.trans hnone) nofun

/-- Another character than the lead is read as itself. -/
theorem unescape_plain {c : α} (hc : c ≠ T.lead) (s : List α) :
    T.unescape (c :: s) = c :: T.unescape s := by
  rw [unescape, if_neg hc]

/-- **What was spelled is read back.** -/
theorem unescape_escape (s : List α) : T.unescape (T.escape s) = s := by
  induction s with
  | nil => exact unescape.eq_1 T
  | cons c s ih =>
    have hcons : T.escape (c :: s) = T.spell c ++ T.escape s := rfl
    rw [hcons]
    unfold spell
    split
    · rename_i e he
      have hkey : e.1 = c := by simpa using List.find?_some he
      rw [T.unescape_sequence (List.mem_of_find?_eq_some he), hkey, ih]
    · rename_i hnone
      have hlead : c ≠ T.lead := by
        rintro rfl
        obtain ⟨e, he, heq⟩ := List.mem_map.mp T.lead_mem
        exact absurd heq (by simpa using List.find?_eq_none.mp hnone e he)
      rw [List.singleton_append, T.unescape_plain hlead, ih]

/-- Reading makes a text no longer. -/
theorem length_unescape_le (s : List α) : (T.unescape s).length ≤ s.length := by
  fun_induction T.unescape s with
  | case1 => exact Nat.le_refl _
  | case2 rest e he ih =>
    obtain ⟨d, tail, heq⟩ := T.starts e (List.mem_of_find?_eq_some he)
    rw [heq, List.length_drop] at ih
    rw [heq]
    simp only [List.length_cons] at ih ⊢
    omega
  | case3 rest hnone ih => exact Nat.succ_le_succ ih
  | case4 c rest hc ih => exact Nat.succ_le_succ ih

/-- **A text that shows no special character is its own reading exactly if it has none.** -/
theorem shown_iff {special : α → Prop} (hlead : special T.lead) (s : List α) :
    T.Shows special s ∧ T.unescape s = s ↔ ∀ c ∈ s, ¬special c := by
  constructor
  · rintro ⟨h, heq⟩
    induction h with
    | nil => exact fun c hc => absurd hc List.not_mem_nil
    | @plain c s hc _ ih =>
      have hne : c ≠ T.lead := fun hcl => hc (hcl ▸ hlead)
      rw [T.unescape_plain hne] at heq
      exact List.forall_mem_cons.mpr ⟨hc, ih (List.cons.inj heq).2⟩
    | @sequence e s he _ ih =>
      -- a sequence is longer than what it stands for
      obtain ⟨d, rest, hseq⟩ := T.starts e he
      have hlen := congrArg List.length heq
      have hle := T.length_unescape_le s
      rw [T.unescape_sequence he, hseq] at hlen
      simp only [List.length_cons, List.length_append] at hlen
      omega
  · intro h
    refine ⟨T.shows_of_forall h, ?_⟩
    induction s with
    | nil => exact unescape.eq_1 T
    | cons c s ih =>
      have hne : c ≠ T.lead := fun hcl => h c List.mem_cons_self (hcl ▸ hlead)
      rw [T.unescape_plain hne, ih fun d hd => h d (List.mem_cons_of_mem c hd)]

end EscapeTable

end Forte
