import Forte.Datatypes.NumberLiteral
import Forte.Datatypes.StringFixed
import Forte.Datatypes.Transcoding

/-!
# Escapes of wide strings

A literal of a `WSTRING` is scanned twice. `determineEscapedStringLength` looks for the closing
quote in the text that is read, and `unescapeFromString` makes characters of what has been found.
Both leave an escape to `handleDollarEscapedChar`, and differ where it refuses one: the search
goes on behind the character after the dollar.

What the search finds is a quoted text (`Forte.AnyString.WideQuoted`), which ends at the first quote
that is not escaped, whatever comes behind it (`Forte.AnyString.closingDelimiter_quoted`).
-/

namespace Forte.AnyString

open StringFixed (cString)

/-! ### The scanners -/

/-- `CIEC_ANY_STRING::parseEscapedHexNum`: how many characters the digits take, and the number. -/
def parseEscapedHexNum (paWide : Bool) (paSymbol : Text) : Option (ℕ × ℕ) :=
  let digit (i : ℕ) := charHexDigitToInt (paSymbol.at i)
  if isHexDigit (paSymbol.at 0) && isHexDigit (paSymbol.at 1) then
    if paWide then
      if isHexDigit (paSymbol.at 2) && isHexDigit (paSymbol.at 3) then
        some (4, (16 * digit 0 + digit 1) * 256 + (16 * digit 2 + digit 3))
      else none
    else some (2, 16 * digit 0 + digit 1)
  else none

/-- `CIEC_ANY_STRING::handleDollarEscapedChar`: how many characters behind a dollar belong to the
escape, and what it stands for. -/
def handleDollarEscapedChar (paWide : Bool) (paSymbol : Text) : Option (ℕ × ℕ) :=
  let c := paSymbol.at 0
  if c = '\''.toUInt8 ∨ c = '"'.toUInt8 then some (1, c.toNat)
  else if c ∈ text "NnLl" then some (1, 10)
  else if c ∈ text "Pp" then some (1, 12)
  else if c ∈ text "Rr" then some (1, 13)
  else if c ∈ text "Tt" then some (1, 9)
  else if c = '$'.toUInt8 then some (1, '$'.toUInt8.toNat)
  else parseEscapedHexNum paWide paSymbol

/-- How far the search goes on behind a dollar: behind the escape, or if it is refused behind its
first character. -/
def escapeLength (paWide : Bool) (paSymbol : Text) : ℕ :=
  match handleDollarEscapedChar paWide paSymbol with
  | some (used, _) => used
  | none => 1

/-- The loop of `determineEscapedStringLength`: what is in front of the closing delimiter. -/
def closingDelimiter (paDelimiter : UInt8) : Text → Option ℕ
  | [] => none
  | c :: s =>
    if c = paDelimiter then some 0
    else if c = 0 then none
    else if c = '$'.toUInt8 then
      if Text.at s 0 = 0 then none
      else
        let used := escapeLength (paDelimiter = '"'.toUInt8) s
        (closingDelimiter paDelimiter (s.drop used)).map (· + (1 + used))
    else (closingDelimiter paDelimiter s).map (· + 1)
  termination_by s => s.length
  decreasing_by
    · rw [List.length_drop, List.length_cons]
      omega
    · exact Nat.lt_succ_self s.length

/-- `CIEC_ANY_STRING::determineEscapedStringLength`. -/
def determineEscapedStringLength (paValue : Text) (paDelimiter : UInt8) : ℤ :=
  if paValue.at 0 ≠ paDelimiter then asInt (cString paValue).length
  else
    match closingDelimiter paDelimiter (paValue.drop 1) with
    | some n => asInt (n + 2)
    | none => -1

/-- What `unescapeFromString` makes of a text behind the opening quote of a `WSTRING`, up to the
closing one or the end. There is no result where an escape is refused. -/
def unescape : Text → Option Text
  | [] => some []
  | c :: s =>
    if c = 0 ∨ c = '"'.toUInt8 then some []
    else if c = '$'.toUInt8 then
      if Text.at s 0 = 0 then some []
      else
        match handleDollarEscapedChar true s with
        | some (used, value) => (unescape (s.drop used)).map (utf8Of value ++ ·)
        | none => none
    else (unescape s).map (c :: ·)
  termination_by s => s.length
  decreasing_by
    · rw [List.length_drop, List.length_cons]
      omega
    · exact Nat.lt_succ_self s.length

/-! ### What an escape is -/

theorem at_cons_zero (c : UInt8) (s : Text) : Text.at (c :: s) 0 = c := rfl

/-- A digit is in front of the end of a text. -/
theorem lt_length_of_isHexDigit {s : Text} {i : ℕ} (h : isHexDigit (s.at i) = true) :
    i < s.length := by
  by_contra hge
  have hnul : s.at i = 0 := by
    rw [Text.at, List.getD_eq_getElem?_getD, List.getElem?_eq_none (by omega)]
    rfl
  rw [hnul] at h
  exact absurd h (by decide)

theorem exists_cons_of_lt {s : Text} (h : 3 < s.length) :
    ∃ a b c d u, s = a :: b :: c :: d :: u := by
  rcases s with _ | ⟨a, _ | ⟨b, _ | ⟨c, _ | ⟨d, u⟩⟩⟩⟩
  · exact absurd h (by simp)
  · exact absurd h (by simp)
  · exact absurd h (by simp)
  · exact absurd h (by simp)
  · exact ⟨a, b, c, d, u, rfl⟩

/-- **What is handled as an escape**: one character that stands for one below 128, or four
digits. -/
theorem handleDollarEscapedChar_cases {s : Text} {used value : ℕ}
    (h : handleDollarEscapedChar true s = some (used, value)) :
    (∃ c u, s = c :: u ∧ c ≠ 0 ∧ used = 1 ∧ value < 128) ∨
      (∃ a b c d u, s = a :: b :: c :: d :: u ∧ used = 4 ∧ value < 65536 ∧
        ∀ x ∈ [a, b, c, d], isHexDigit x = true) := by
  have hspecial : ∀ c : UInt8, s.at 0 = c → c ≠ 0 → ∃ u, s = c :: u := by
    rintro c rfl hne
    cases s with
    | nil => exact absurd rfl hne
    | cons d u => exact ⟨u, rfl⟩
  have hone : ∀ n < 128, s.at 0 ≠ 0 → (some (1, n) : Option (ℕ × ℕ)) = some (used, value) →
      ∃ c u, s = c :: u ∧ c ≠ 0 ∧ used = 1 ∧ value < 128 := by
    rintro n hn hne heq
    obtain ⟨u, hu⟩ := hspecial _ rfl hne
    obtain ⟨rfl, rfl⟩ := Prod.mk.inj (Option.some.inj heq)
    exact ⟨_, u, hu, hne, rfl, hn⟩
  have hmem : ∀ t : Text, 0 ∉ t → s.at 0 ∈ t → s.at 0 ≠ 0 :=
    fun t hzero hin heq => hzero (heq ▸ hin)
  rw [handleDollarEscapedChar] at h
  split_ifs at h with hquote hl hp hr ht hdollar
  · refine .inl (hone _ ?_ ?_ h)
    · rcases hquote with heq | heq <;> rw [heq] <;> decide
    · rcases hquote with heq | heq <;> rw [heq] <;> decide
  · exact .inl (hone _ (by decide) (hmem _ (by decide) hl) h)
  · exact .inl (hone _ (by decide) (hmem _ (by decide) hp) h)
  · exact .inl (hone _ (by decide) (hmem _ (by decide) hr) h)
  · exact .inl (hone _ (by decide) (hmem _ (by decide) ht) h)
  · exact .inl (hone _ (by decide) (by rw [hdollar]; decide) h)
  · -- four digits, none of which is the end of the text
    right
    rw [parseEscapedHexNum] at h
    simp only [if_true] at h
    split_ifs at h with hfirst hsecond
    obtain ⟨rfl, rfl⟩ := Prod.mk.inj (Option.some.inj h)
    obtain ⟨h0, h1⟩ := Bool.and_eq_true_iff.mp hfirst
    obtain ⟨h2, h3⟩ := Bool.and_eq_true_iff.mp hsecond
    obtain ⟨a, b, c, d, u, rfl⟩ := exists_cons_of_lt (lt_length_of_isHexDigit h3)
    have ha := lt_of_isHexDigit a h0
    have hb := lt_of_isHexDigit b h1
    have hc := lt_of_isHexDigit c h2
    have hd := lt_of_isHexDigit d h3
    refine ⟨a, b, c, d, u, rfl, rfl, ?_, ?_⟩
    · change (16 * charHexDigitToInt a + charHexDigitToInt b) * 256 +
        (16 * charHexDigitToInt c + charHexDigitToInt d) < 65536
      omega
    · intro x hx
      simp only [List.mem_cons, List.not_mem_nil, or_false] at hx
      rcases hx with rfl | rfl | rfl | rfl
      · exact h0
      · exact h1
      · exact h2
      · exact h3

/-- An escape is in the text, and takes no less than what it stands for. -/
theorem escape_shrinks {s : Text} {used value : ℕ}
    (h : handleDollarEscapedChar true s = some (used, value)) :
    1 ≤ used ∧ used ≤ s.length ∧ value < 65536 ∧ (utf8Of value).length ≤ used := by
  rcases handleDollarEscapedChar_cases h with
    ⟨c, u, rfl, -, rfl, hvalue⟩ | ⟨a, b, c, d, u, rfl, rfl, hvalue, -⟩
  · refine ⟨le_rfl, Nat.succ_pos u.length, by omega, ?_⟩
    rw [utf8Of, encodeUTF8Codepoint, if_pos hvalue]
    exact le_rfl
  · refine ⟨by decide, Nat.le_add_left 4 u.length, hvalue, ?_⟩
    rw [utf8Of, encodeUTF8Codepoint]
    split_ifs
    all_goals exact Nat.le_of_ble_eq_true rfl

/-- A digit is a character like any other. -/
theorem ne_of_isHexDigit {c : UInt8} (h : isHexDigit c = true) :
    c ≠ 0 ∧ c ≠ '$'.toUInt8 ∧ c ≠ '"'.toUInt8 := by
  refine ⟨?_, ?_, ?_⟩ <;> rintro rfl <;> exact absurd h (by decide)

section Local

variable (paWide : Bool) (s rest rest' : Text)

/-- Behind the end of a text there is a terminator. -/
theorem at_append_zero (i : ℕ) : i ≤ s.length → Text.at (s ++ 0 :: rest) i = s.at i := by
  intro hi
  rw [Text.at, Text.at, List.getD_eq_getElem?_getD, List.getD_eq_getElem?_getD]
  rcases Nat.lt_or_eq_of_le hi with hlt | rfl
  · rw [List.getElem?_append_left hlt]
  · rw [List.getElem?_append_right le_rfl, Nat.sub_self, List.getElem?_eq_none le_rfl]
    rfl

theorem parseEscapedHexNum_append_zero :
    parseEscapedHexNum paWide (s ++ 0 :: rest) = parseEscapedHexNum paWide s := by
  have hnul : isHexDigit 0 = false := by decide
  rcases s with _ | ⟨a, _ | ⟨b, _ | ⟨d, _ | ⟨e, u⟩⟩⟩⟩
  all_goals simp [parseEscapedHexNum, Text.at, hnul]

theorem handleDollarEscapedChar_append_zero :
    handleDollarEscapedChar paWide (s ++ 0 :: rest) = handleDollarEscapedChar paWide s := by
  rw [handleDollarEscapedChar, handleDollarEscapedChar, at_append_zero s rest 0 (Nat.zero_le _),
    parseEscapedHexNum_append_zero]

end Local

/-! ### The closing quote -/

/-- **A quoted text from behind its opening quote**: characters, and dollars each with the
character behind it, up to the first quote that is neither. -/
inductive WideQuoted : Text → Prop
  | close : WideQuoted ['"'.toUInt8]
  | plain {c : UInt8} {s : Text} (hnul : c ≠ 0) (hdollar : c ≠ '$'.toUInt8)
      (hquote : c ≠ '"'.toUInt8) (h : WideQuoted s) : WideQuoted (c :: s)
  | escaped {c : UInt8} {s : Text} (hnul : c ≠ 0) (h : WideQuoted s) :
      WideQuoted ('$'.toUInt8 :: c :: s)

theorem closingDelimiter_plain {c : UInt8} (hnul : c ≠ 0) (hdollar : c ≠ '$'.toUInt8)
    (hquote : c ≠ '"'.toUInt8) (s : Text) :
    closingDelimiter '"'.toUInt8 (c :: s) =
      (closingDelimiter '"'.toUInt8 s).map (· + 1) := by
  rw [closingDelimiter, if_neg hquote, if_neg hnul, if_neg hdollar]

theorem closingDelimiter_digit {c : UInt8} (h : isHexDigit c = true) (s : Text) :
    closingDelimiter '"'.toUInt8 (c :: s) =
      (closingDelimiter '"'.toUInt8 s).map (· + 1) := by
  obtain ⟨hnul, hdollar, hquote⟩ := ne_of_isHexDigit h
  exact closingDelimiter_plain hnul hdollar hquote s

/-- **The digits of an escape make no difference to the search**: it could as well go on behind
the first character of every escape. -/
theorem closingDelimiter_dollar {c : UInt8} (hnul : c ≠ 0) (s : Text) :
    closingDelimiter '"'.toUInt8 ('$'.toUInt8 :: c :: s) =
      (closingDelimiter '"'.toUInt8 s).map (· + 2) := by
  have hfirst : ¬Text.at (c :: s) 0 = 0 := hnul
  rw [closingDelimiter, if_neg (by decide), if_neg (by decide), if_pos rfl, if_neg hfirst,
    decide_eq_true (rfl : '"'.toUInt8 = '"'.toUInt8), escapeLength]
  dsimp only
  cases hescape : handleDollarEscapedChar true (c :: s) with
  | none => rfl
  | some escape =>
    obtain ⟨used, value⟩ := escape
    rcases handleDollarEscapedChar_cases hescape with
      ⟨_, _, heq, -, rfl, -⟩ | ⟨a, b, d, e, u, heq, rfl, -, hdigits⟩
    · rfl
    · obtain ⟨rfl, rfl⟩ := List.cons.inj heq
      simp only [List.mem_cons, List.not_mem_nil, or_false, forall_eq_or_imp, forall_eq] at hdigits
      obtain ⟨-, hb, hd, he⟩ := hdigits
      rw [closingDelimiter_digit hb, closingDelimiter_digit hd, closingDelimiter_digit he,
        Option.map_map, Option.map_map, Option.map_map]
      rfl

/-- A dollar at the end of the text. -/
theorem closingDelimiter_dollar_end {s : Text} (h : Text.at s 0 = 0) :
    closingDelimiter '"'.toUInt8 ('$'.toUInt8 :: s) = none := by
  rw [closingDelimiter, if_neg (by decide), if_neg (by decide), if_pos rfl, if_pos h]

/-- The text in front of the closing quote was quoted. -/
theorem quoted_of_closingDelimiter {t : Text} {n : ℕ}
    (h : closingDelimiter '"'.toUInt8 t = some n) :
    ∃ literal rest, t = literal ++ rest ∧ WideQuoted literal ∧ literal.length = n + 1 := by
  induction hlen : t.length using Nat.strong_induction_on generalizing t n with
  | _ k ih =>
    cases t with
    | nil => rw [closingDelimiter] at h; cases h
    | cons c s =>
      by_cases hquote : c = '"'.toUInt8
      · rw [closingDelimiter, if_pos hquote] at h
        cases h
        exact ⟨['"'.toUInt8], s, by rw [hquote]; rfl, .close, rfl⟩
      by_cases hnul : c = 0
      · rw [closingDelimiter, if_neg hquote, if_pos hnul] at h
        cases h
      by_cases hdollar : c = '$'.toUInt8
      · cases s with
        | nil =>
          rw [hdollar, closingDelimiter_dollar_end rfl] at h
          cases h
        | cons d s =>
          by_cases hd : d = 0
          · rw [hdollar, closingDelimiter_dollar_end (s := d :: s) hd] at h
            cases h
          rw [hdollar, closingDelimiter_dollar hd] at h
          obtain ⟨m, hm, rfl⟩ := Option.map_eq_some_iff.mp h
          obtain ⟨literal, rest, rfl, hliteral, hlength⟩ :=
            ih _ (by simp only [List.length_cons] at hlen; omega) hm rfl
          exact ⟨_, rest, by rw [hdollar]; rfl, .escaped hd hliteral, by
            simp only [List.length_cons]; omega⟩
      · rw [closingDelimiter_plain hnul hdollar hquote] at h
        obtain ⟨m, hm, rfl⟩ := Option.map_eq_some_iff.mp h
        obtain ⟨literal, rest, rfl, hliteral, hlength⟩ :=
          ih _ (by simp only [List.length_cons] at hlen; omega) hm rfl
        exact ⟨_, rest, rfl, .plain hnul hdollar hquote hliteral, by
          simp only [List.length_cons]; omega⟩

/-- **A quoted text is found**, whatever comes behind it. -/
theorem closingDelimiter_quoted {literal : Text} (h : WideQuoted literal) (rest : Text) :
    closingDelimiter '"'.toUInt8 (literal ++ rest) = some (literal.length - 1) ∧
      literal ≠ [] := by
  induction h with
  | close =>
    rw [List.singleton_append, closingDelimiter, if_pos rfl]
    exact ⟨rfl, List.cons_ne_nil _ _⟩
  | plain hnul hdollar hquote _ ih =>
    have hpos := List.length_pos_iff.mpr ih.2
    rw [List.cons_append, closingDelimiter_plain hnul hdollar hquote, ih.1, List.length_cons]
    refine ⟨congrArg some ?_, List.cons_ne_nil _ _⟩
    dsimp only
    omega
  | escaped hnul _ ih =>
    have hpos := List.length_pos_iff.mpr ih.2
    rw [List.cons_append, List.cons_append, closingDelimiter_dollar hnul, ih.1, List.length_cons,
      List.length_cons]
    refine ⟨congrArg some ?_, List.cons_ne_nil _ _⟩
    dsimp only
    omega

/-! ### What is unescaped -/

theorem unescape_nil : unescape [] = some [] := by rw [unescape]

theorem unescape_stop {c : UInt8} (h : c = 0 ∨ c = '"'.toUInt8) (s : Text) :
    unescape (c :: s) = some [] := by
  rw [unescape, if_pos h]

theorem unescape_plain {c : UInt8} (hstop : ¬(c = 0 ∨ c = '"'.toUInt8)) (hdollar : c ≠ '$'.toUInt8)
    (s : Text) : unescape (c :: s) = (unescape s).map (c :: ·) := by
  rw [unescape, if_neg hstop, if_neg hdollar]

theorem unescape_dollar_end {s : Text} (h : Text.at s 0 = 0) :
    unescape ('$'.toUInt8 :: s) = some [] := by
  rw [unescape, if_neg (by decide), if_pos rfl, if_pos h]

theorem unescape_escape {s : Text} {used value : ℕ}
    (h : handleDollarEscapedChar true s = some (used, value)) :
    unescape ('$'.toUInt8 :: s) = (unescape (s.drop used)).map (utf8Of value ++ ·) := by
  have hfirst : ¬Text.at s 0 = 0 := by
    rcases handleDollarEscapedChar_cases h with
      ⟨c, u, rfl, hne, -, -⟩ | ⟨a, b, c, d, u, rfl, -, -, hdigits⟩
    · exact hne
    · exact (ne_of_isHexDigit (hdigits a List.mem_cons_self)).1
  rw [unescape, if_neg (by decide), if_pos rfl, if_neg hfirst, h]

theorem unescape_refused {s : Text} (hfirst : ¬Text.at s 0 = 0)
    (h : handleDollarEscapedChar true s = none) : unescape ('$'.toUInt8 :: s) = none := by
  rw [unescape, if_neg (by decide), if_pos rfl, if_neg hfirst, h]

/-- **The cases of unescaping**, as an induction over what is left of the text. -/
@[elab_as_elim]
theorem unescape_induction {P : Text → Prop} (nil : P [])
    (stop : ∀ (c : UInt8) (s : Text), c = 0 ∨ c = '"'.toUInt8 → P (c :: s))
    (dollarEnd : ∀ s : Text, Text.at s 0 = 0 → P ('$'.toUInt8 :: s))
    (refused : ∀ s : Text, ¬Text.at s 0 = 0 → handleDollarEscapedChar true s = none →
      P ('$'.toUInt8 :: s))
    (escape : ∀ (s : Text) (used value : ℕ), ¬Text.at s 0 = 0 →
      handleDollarEscapedChar true s = some (used, value) → P (s.drop used) →
        P ('$'.toUInt8 :: s))
    (plain : ∀ (c : UInt8) (s : Text), ¬(c = 0 ∨ c = '"'.toUInt8) → c ≠ '$'.toUInt8 → P s →
      P (c :: s)) (t : Text) : P t := by
  induction hlen : t.length using Nat.strong_induction_on generalizing t with
  | _ k ih =>
    cases t with
    | nil => exact nil
    | cons c s =>
      rw [List.length_cons] at hlen
      by_cases hstop : c = 0 ∨ c = '"'.toUInt8
      · exact stop c s hstop
      by_cases hdollar : c = '$'.toUInt8
      · subst hdollar
        by_cases hfirst : Text.at s 0 = 0
        · exact dollarEnd s hfirst
        cases hescape : handleDollarEscapedChar true s with
        | none => exact refused s hfirst hescape
        | some escaped =>
          refine escape s escaped.1 escaped.2 hfirst hescape (ih _ ?_ _ rfl)
          rw [List.length_drop]
          omega
      · exact plain c s hstop hdollar (ih s.length (by omega) s rfl)

/-- What is unescaped is no longer than the text. -/
theorem length_unescape_le {t u : Text} (h : unescape t = some u) : u.length ≤ t.length := by
  induction t using unescape_induction generalizing u with
  | nil =>
    rw [unescape_nil] at h
    cases h
    exact Nat.zero_le _
  | stop c s hstop =>
    rw [unescape_stop hstop] at h
    cases h
    exact Nat.zero_le _
  | dollarEnd s hfirst =>
    rw [unescape_dollar_end hfirst] at h
    cases h
    exact Nat.zero_le _
  | refused s hfirst hescape =>
    rw [unescape_refused hfirst hescape] at h
    cases h
  | escape s used value _ hescape ih =>
    obtain ⟨hpos, hused, -, hlength⟩ := escape_shrinks hescape
    rw [unescape_escape hescape] at h
    obtain ⟨v, hv, rfl⟩ := Option.map_eq_some_iff.mp h
    have hle := ih hv
    rw [List.length_drop] at hle
    rw [List.length_append, List.length_cons]
    omega
  | plain c s hstop hdollar ih =>
    rw [unescape_plain hstop hdollar] at h
    obtain ⟨v, hv, rfl⟩ := Option.map_eq_some_iff.mp h
    rw [List.length_cons, List.length_cons]
    exact Nat.succ_le_succ (ih hv)

end Forte.AnyString
