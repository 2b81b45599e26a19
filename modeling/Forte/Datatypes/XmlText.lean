import Forte.Datatypes.Numbers
import Forte.Lib.Escaping

/-!
# Texts in XML attributes

The escaping of `forte::util`: the characters that mean something in XML are spelled as
entities. The source escapes a text in place and from the back
(`Forte.transformNonEscapedToEscapedXMLText`), so that what is still to come keeps its
place; it comes to the spelling of every character.
-/

namespace Forte

/-- `scEscapeMap`, in the order of its keys. -/
def scEscapeMap : EscapeTable UInt8 where
  lead := '&'.toUInt8
  entries :=
    [('"'.toUInt8, text "&quot;"), ('&'.toUInt8, text "&amp;"), ('\''.toUInt8, text "&apos;"),
      ('<'.toUInt8, text "&lt;"), ('>'.toUInt8, text "&gt;")]
  lead_mem := by decide
  starts := by
    intro e he
    simp only [List.mem_cons, List.not_mem_nil, or_false] at he
    rcases he with rfl | rfl | rfl | rfl | rfl <;> exact ⟨_, _, rfl⟩
  prefixFree := by decide

/-- The loop of `transformNonEscapedToEscapedXMLText`, over the `n` characters from `paStart`
on, the last one first. -/
def escapeBackwards (paStart : ℕ) : ℕ → Text → Text
  | 0, s => s
  | n + 1, s =>
    let runner := paStart + n
    match scEscapeMap.entries.find? (·.1 = s.at runner) with
    | some e => escapeBackwards paStart n (s.take runner ++ e.2 ++ s.drop (runner + 1))
    | none => escapeBackwards paStart n s

/-- `transformNonEscapedToEscapedXMLText`. -/
def transformNonEscapedToEscapedXMLText (paString : Text) (paStart : ℕ) : Text :=
  escapeBackwards paStart (paString.length - paStart) paString

/-- `transformEscapedXMLToNonEscapedText`, behind what is in the target already. -/
def transformEscapedXMLToNonEscapedText (paSrc paTarget : Text) : Text :=
  paTarget ++ scEscapeMap.unescape paSrc

theorem escapeBackwards_append (t s done : Text) :
    escapeBackwards t.length s.length (t ++ s ++ done) = t ++ scEscapeMap.escape s ++ done := by
  induction s using List.reverseRecOn generalizing done with
  | nil => rfl
  | append_singleton s c ih =>
    have hsplit : t ++ (s ++ [c]) ++ done = t ++ s ++ c :: done := by
      simp only [List.append_assoc, List.singleton_append]
    have hat : (t ++ s ++ c :: done).at (t.length + s.length) = c := by
      rw [Text.at, ← List.length_append, List.getD_eq_getElem?_getD,
        List.getElem?_append_right le_rfl, Nat.sub_self]
      rfl
    have hescape : t ++ scEscapeMap.escape (s ++ [c]) ++ done =
        t ++ scEscapeMap.escape s ++ (scEscapeMap.spell c ++ done) := by
      simp only [EscapeTable.escape, List.flatMap_append, List.flatMap_singleton,
        List.append_assoc]
    rw [hsplit, hescape, List.length_append, List.length_singleton, escapeBackwards, hat,
      EscapeTable.spell]
    cases scEscapeMap.entries.find? (·.1 = c) with
    | none => exact ih (c :: done)
    | some e =>
      have htake : (t ++ s ++ c :: done).take (t.length + s.length) = t ++ s := by
        rw [← List.length_append, List.take_left]
      have hdrop : (t ++ s ++ c :: done).drop (t.length + s.length + 1) = done := by
        rw [← List.length_append, List.drop_append, List.drop_of_length_le (Nat.le_succ _)]
        simp
      simp only [htake, hdrop]
      rw [List.append_assoc (t ++ s), ih]

/-- **Escaping spells every character from the start on** and leaves the rest alone. -/
theorem transformNonEscapedToEscapedXMLText_eq (t s : Text) :
    transformNonEscapedToEscapedXMLText (t ++ s) t.length = t ++ scEscapeMap.escape s := by
  have hloop := escapeBackwards_append t s []
  rw [List.append_nil, List.append_nil] at hloop
  rw [transformNonEscapedToEscapedXMLText, List.length_append, Nat.add_sub_cancel_left, hloop]

/-- The characters that must not be seen in an attribute. -/
def IsMarkup (c : UInt8) : Prop := c ∈ text "\"<>&"

instance (c : UInt8) : Decidable (IsMarkup c) := inferInstanceAs (Decidable (_ ∈ _))

/-- **A text that can be put into an attribute**: it shows no markup. -/
def AttributeText (t : Text) : Prop := scEscapeMap.Shows IsMarkup t

theorem attributeText_escape (s : Text) : AttributeText (scEscapeMap.escape s) := by
  refine (scEscapeMap.shows_escape s).mono _ fun c hc => ?_
  have hall : (text "\"<>&").all fun c => decide (c ∈ scEscapeMap.entries.map Prod.fst) := by
    decide
  exact of_decide_eq_true (List.all_eq_true.mp hall c hc)

/-- A text that is not escaped is its own reading in an attribute exactly if it has no
markup. -/
theorem attributeText_iff (s : Text) :
    AttributeText s ∧ scEscapeMap.unescape s = s ↔ ∀ c ∈ s, ¬IsMarkup c :=
  scEscapeMap.shown_iff (by decide) s

/-! ### The law of escaping -/

/-- `getExtraSizeForXMLEscapedChars`, of a C string: it ends at the first terminator. -/
def getExtraSizeForXMLEscapedChars : Text → ℕ
  | [] => 0
  | c :: paString =>
    if c = 0 then 0
    else
      match scEscapeMap.entries.find? (·.1 = c) with
      | some e => e.2.length - 1 + getExtraSizeForXMLEscapedChars paString
      | none => getExtraSizeForXMLEscapedChars paString

/-- **The first pass measures what the second one adds.** -/
theorem length_escape {s : Text} (hs : 0 ∉ s) :
    (scEscapeMap.escape s).length = s.length + getExtraSizeForXMLEscapedChars s := by
  induction s with
  | nil => rfl
  | cons c s ih =>
    have hc : c ≠ 0 := fun hzero => hs (hzero ▸ List.mem_cons_self)
    have hrest := ih fun hmem => hs (List.mem_cons_of_mem c hmem)
    have hescape : scEscapeMap.escape (c :: s) = scEscapeMap.spell c ++ scEscapeMap.escape s := rfl
    rw [hescape, List.length_append, hrest, getExtraSizeForXMLEscapedChars, if_neg hc,
      EscapeTable.spell, List.length_cons]
    cases hfind : scEscapeMap.entries.find? (·.1 = c) with
    | none =>
      simp only [List.length_singleton]
      omega
    | some e =>
      -- no sequence is empty
      obtain ⟨d, tail, heq⟩ := scEscapeMap.starts e (List.mem_of_find?_eq_some hfind)
      simp only [heq, List.length_cons]
      omega

/-- Behind the end of a text there is nothing to escape. -/
theorem transformNonEscapedToEscapedXMLText_of_le {paString : Text} {paStart : ℕ}
    (h : paString.length ≤ paStart) :
    transformNonEscapedToEscapedXMLText paString paStart = paString := by
  rw [transformNonEscapedToEscapedXMLText, Nat.sub_eq_zero_of_le h]
  rfl

/-- **Escaping from a start on**, be it in the text or behind its end. -/
theorem transformNonEscapedToEscapedXMLText_eq_take (paString : Text) (paStart : ℕ) :
    transformNonEscapedToEscapedXMLText paString paStart =
      paString.take paStart ++ scEscapeMap.escape (paString.drop paStart) := by
  by_cases h : paStart ≤ paString.length
  · have heq := transformNonEscapedToEscapedXMLText_eq (paString.take paStart)
      (paString.drop paStart)
    rw [List.take_append_drop, List.length_take_of_le h] at heq
    exact heq
  · have hle : paString.length ≤ paStart := by omega
    rw [transformNonEscapedToEscapedXMLText_of_le hle, List.take_of_length_le hle,
      List.drop_of_length_le hle]
    exact (List.append_nil paString).symm

/-- The loop down to a position and then on from there. -/
theorem escapeBackwards_add (paStart m n : ℕ) (s : Text) :
    escapeBackwards paStart (m + n) s =
      escapeBackwards paStart m (escapeBackwards (paStart + m) n s) := by
  induction n generalizing s with
  | zero => rfl
  | succ n ih =>
    rw [← Nat.add_assoc, escapeBackwards, escapeBackwards, Nat.add_assoc paStart m n]
    cases scEscapeMap.entries.find? (·.1 = s.at (paStart + (m + n))) with
    | none => exact ih s
    | some e => exact ih _

theorem drop_transform (paString : Text) (paStart : ℕ) :
    (transformNonEscapedToEscapedXMLText paString paStart).drop paStart =
      scEscapeMap.escape (paString.drop paStart) := by
  by_cases h : paStart ≤ paString.length
  · rw [transformNonEscapedToEscapedXMLText_eq_take]
    exact List.drop_left' (List.length_take_of_le h)
  · have hle : paString.length ≤ paStart := by omega
    rw [transformNonEscapedToEscapedXMLText_of_le hle, List.drop_of_length_le hle]
    rfl

theorem take_transform (paString : Text) (paStart : ℕ) :
    (transformNonEscapedToEscapedXMLText paString paStart).take paStart =
      paString.take paStart := by
  by_cases h : paStart ≤ paString.length
  · rw [transformNonEscapedToEscapedXMLText_eq_take]
    exact List.take_left' (List.length_take_of_le h)
  · have hle : paString.length ≤ paStart := by omega
    rw [transformNonEscapedToEscapedXMLText_of_le hle]

end Forte
