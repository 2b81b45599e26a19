import Forte.Datatypes.DurationText

/-!
# Strings, read as they are printed

A printed string is read back whatever comes behind it: what it escapes is what `fromString`
unescapes, character by character, and the first quote that is not escaped closes it.
-/

namespace Forte

/-- A character behind a dollar that is no digit stands for itself or for a control character. -/
theorem unescapeString_special {c : UInt8} (hc : isHexDigit c = false) (rest : Text) :
    unescapeString ('$'.toUInt8 :: c :: rest) =
      (unescapeString rest).map fun read => (specialSymbol c :: read.1, read.2) := by
  rw [unescapeString.eq_def]
  cases rest with
  | nil => rfl
  | cons d rest =>
    simp only [if_true, hc, Bool.false_and, Bool.false_eq_true, if_false]

/-- Two digits behind a dollar are the character with this number. -/
theorem unescapeString_hex {c d : UInt8} (hc : isHexDigit c = true) (hd : isHexDigit d = true)
    (rest : Text) :
    unescapeString ('$'.toUInt8 :: c :: d :: rest) =
      (unescapeString rest).map fun read =>
        (UInt8.ofNat (16 * charHexDigitToInt c + charHexDigitToInt d) :: read.1, read.2) := by
  rw [unescapeString.eq_def]
  simp only [if_true, hc, hd, Bool.and_true]

theorem unescapeString_plain {c : UInt8} (hdollar : c ≠ '$'.toUInt8) (hquote : c ≠ '\''.toUInt8)
    (rest : Text) :
    unescapeString (c :: rest) =
      (unescapeString rest).map fun read => (c :: read.1, read.2) := by
  rw [unescapeString.eq_def]
  simp only [if_neg hdollar, if_neg hquote]

/-- The two digits of a byte. -/
theorem hexChar_digits (c : UInt8) :
    isHexDigit (hexChar (c >>> 4)) = true ∧ isHexDigit (hexChar c) = true ∧
      UInt8.ofNat (16 * charHexDigitToInt (hexChar (c >>> 4)) + charHexDigitToInt (hexChar c)) =
        c := by
  have hall : ∀ n < 256, isHexDigit (hexChar (UInt8.ofNat n >>> 4)) = true ∧
      isHexDigit (hexChar (UInt8.ofNat n)) = true ∧
      UInt8.ofNat (16 * charHexDigitToInt (hexChar (UInt8.ofNat n >>> 4)) +
        charHexDigitToInt (hexChar (UInt8.ofNat n))) = UInt8.ofNat n := by
    decide +kernel
  have hc := hall c.toNat c.toNat_lt
  rwa [UInt8.ofNat_toNat] at hc

/-- **An escaped character is read as itself.** -/
theorem unescapeString_dollarEscapeChar (c : UInt8) (rest : Text) :
    unescapeString (dollarEscapeChar .string c ++ rest) =
      (unescapeString rest).map fun read => (c :: read.1, read.2) := by
  rw [dollarEscapeChar]
  split_ifs with hdollar hquote hstring hlf hff hcr htab hdouble hwide hprint
  · subst hdollar
    exact unescapeString_special rfl rest
  · subst hquote
    exact unescapeString_special rfl rest
  · exact absurd rfl hstring
  · subst hlf
    exact unescapeString_special rfl rest
  · subst hff
    exact unescapeString_special rfl rest
  · subst hcr
    exact unescapeString_special rfl rest
  · subst htab
    exact unescapeString_special rfl rest
  · exact absurd hwide (by decide)
  · subst hdouble
    exact unescapeString_plain (by decide) (by decide) rest
  · obtain ⟨hhigh, hlow, hvalue⟩ := hexChar_digits c
    have hread := unescapeString_hex hhigh hlow rest
    rw [hvalue] at hread
    exact hread
  · exact unescapeString_plain hdollar hquote rest

theorem unescapeString_flatMap (storage rest : Text) :
    unescapeString (storage.flatMap (dollarEscapeChar .string) ++ '\''.toUInt8 :: rest) =
      some (storage, rest) := by
  induction storage with
  | nil =>
    rw [List.flatMap_nil, List.nil_append, unescapeString.eq_def]
    rfl
  | cons c storage ih =>
    rw [List.flatMap_cons, List.append_assoc, unescapeString_dollarEscapeChar, ih]
    rfl

/-- **A printed string is read back**, whatever comes behind it. -/
theorem stringFromString_stringToString (storage rest : Text)
    (hlen : (stringToString storage).length < 2 ^ 31) :
    stringFromString (stringToString storage ++ rest) =
      (((stringToString storage).length : ℤ), storage) := by
  have happ : stringToString storage ++ rest =
      '\''.toUInt8 :: (storage.flatMap (dollarEscapeChar .string) ++ '\''.toUInt8 :: rest) := by
    rw [stringToString, List.append_assoc, List.append_assoc]
    rfl
  have hleading : (text "STRING#").isPrefixOf (stringToString storage ++ rest) = false := by
    rw [happ]
    rfl
  have hquoted : ((stringToString storage ++ rest).drop 0).dropWhile (· ≠ '\''.toUInt8) =
      stringToString storage ++ rest := by
    rw [List.drop_zero, happ]
    exact List.dropWhile_cons_of_neg (by decide)
  rw [stringFromString]
  simp only [hleading, Bool.false_and, Bool.false_eq_true, if_false, hquoted]
  have hbody : (stringToString storage ++ rest).drop 1 =
      storage.flatMap (dollarEscapeChar .string) ++ '\''.toUInt8 :: rest := by
    rw [happ]
    rfl
  rw [hbody, unescapeString_flatMap]
  exact congrArg (·, storage) (asInt_length_sub rest hlen)

/-! ### What is read as a string -/

/-- **A quoted literal from behind its first quote**: characters, and dollars each with the
character behind it, up to the first quote that is neither. -/
inductive Quoted : Text → Prop
  | close : Quoted ['\''.toUInt8]
  | plain {c : UInt8} {s : Text} (hdollar : c ≠ '$'.toUInt8) (hquote : c ≠ '\''.toUInt8)
      (h : Quoted s) : Quoted (c :: s)
  | escaped (c : UInt8) {s : Text} (h : Quoted s) : Quoted ('$'.toUInt8 :: c :: s)

/-- A quoted literal. -/
def QuotedLiteral (t : Text) : Prop := ∃ s, t = '\''.toUInt8 :: s ∧ Quoted s

theorem ne_quote_of_isHexDigit {c : UInt8} (h : isHexDigit c = true) :
    c ≠ '$'.toUInt8 ∧ c ≠ '\''.toUInt8 := by
  refine ⟨?_, ?_⟩
  · rintro rfl
    exact absurd h (by decide)
  · rintro rfl
    exact absurd h (by decide)

/-- What is read up to a quote was quoted. -/
theorem quoted_of_unescapeString {t s rest : Text} (h : unescapeString t = some (s, rest)) :
    ∃ literal, Quoted literal ∧ t = literal ++ rest := by
  fun_induction unescapeString t generalizing s with
  | case1 => exact absurd h (by simp)
  | case2 c1 c2 tail hhex ih =>
    obtain ⟨⟨s', rest'⟩, hread, heq⟩ := Option.map_eq_some_iff.mp h
    obtain ⟨rfl, rfl⟩ := Prod.mk.inj heq
    obtain ⟨literal, hliteral, rfl⟩ := ih hread
    -- the second digit is a character like any other
    obtain ⟨hdollar, hquote⟩ := ne_quote_of_isHexDigit (Bool.and_eq_true_iff.mp hhex).2
    exact ⟨_, .escaped c1 (.plain hdollar hquote hliteral), rfl⟩
  | case3 c1 c2 tail hhex ih =>
    obtain ⟨⟨s', rest'⟩, hread, heq⟩ := Option.map_eq_some_iff.mp h
    obtain ⟨rfl, rfl⟩ := Prod.mk.inj heq
    obtain ⟨literal, hliteral, hsplit⟩ := ih hread
    rw [hsplit]
    exact ⟨_, .escaped c1 hliteral, rfl⟩
  | case4 => exact absurd h (by simp)
  | case5 tail hdollar =>
    obtain ⟨rfl, rfl⟩ := Prod.mk.inj (Option.some.inj h)
    exact ⟨_, .close, rfl⟩
  | case6 c tail hdollar hquote ih =>
    obtain ⟨⟨s', rest'⟩, hread, heq⟩ := Option.map_eq_some_iff.mp h
    obtain ⟨rfl, rfl⟩ := Prod.mk.inj heq
    obtain ⟨literal, hliteral, rfl⟩ := ih hread
    exact ⟨_, .plain hdollar hquote hliteral, rfl⟩

theorem Quoted.exists_cons {literal : Text} (h : Quoted literal) :
    ∃ c s, literal = c :: s := by
  cases h with
  | close => exact ⟨_, _, rfl⟩
  | plain _ _ _ => exact ⟨_, _, rfl⟩
  | escaped _ _ => exact ⟨_, _, rfl⟩

theorem unescapeString_escaped {c d : UInt8} (hhex : (isHexDigit c && isHexDigit d) = false)
    (rest : Text) :
    unescapeString ('$'.toUInt8 :: c :: d :: rest) =
      (unescapeString (d :: rest)).map fun read => (specialSymbol c :: read.1, read.2) := by
  rw [unescapeString.eq_def]
  simp only [if_true, hhex, Bool.false_eq_true, if_false]

/-- What is quoted is read, whatever comes behind it. A character behind a dollar may take the
next one with it, so that the text from there on is read as well. -/
theorem unescapeString_quoted {literal : Text} (h : Quoted literal) (rest : Text) :
    (∃ s, unescapeString (literal ++ rest) = some (s, rest)) ∧
      ∀ c s', literal = c :: s' → isHexDigit c = true →
        ∃ s, unescapeString (s' ++ rest) = some (s, rest) := by
  induction h with
  | close =>
    refine ⟨⟨[], ?_⟩, ?_⟩
    · rw [List.singleton_append, unescapeString.eq_def]
      rfl
    · intro c s' heq hhex
      obtain ⟨rfl, -⟩ := List.cons.inj heq
      exact absurd hhex (by decide)
  | @plain c literal hdollar hquote _ ih =>
    obtain ⟨⟨s, hread⟩, -⟩ := ih
    refine ⟨⟨c :: s, ?_⟩, ?_⟩
    · rw [List.cons_append, unescapeString_plain hdollar hquote, hread]
      rfl
    · intro c' s' heq _
      obtain ⟨-, rfl⟩ := List.cons.inj heq
      exact ⟨s, hread⟩
  | @escaped c literal hliteral ih =>
    obtain ⟨⟨s, hread⟩, hnext⟩ := ih
    refine ⟨?_, ?_⟩
    · obtain ⟨d, tail, rfl⟩ := hliteral.exists_cons
      rw [List.cons_append, List.cons_append, List.cons_append]
      cases hhex : isHexDigit c && isHexDigit d with
      | true =>
        obtain ⟨hc, hd⟩ := Bool.and_eq_true_iff.mp hhex
        obtain ⟨s, hread⟩ := hnext d tail rfl hd
        rw [unescapeString_hex hc hd, hread]
        exact ⟨_, rfl⟩
      | false =>
        rw [unescapeString_escaped hhex, ← List.cons_append, hread]
        exact ⟨_, rfl⟩
    · intro c' s' heq hhex
      obtain ⟨rfl, -⟩ := List.cons.inj heq
      exact absurd hhex (by decide)

/-- The type prefix has no quote, so that it makes no difference to the search. -/
theorem stringFromString_eq (value : Text) :
    stringFromString value =
      match unescapeString ((value.dropWhile (· ≠ '\''.toUInt8)).drop 1) with
      | some (mValue, rest) => (asInt (value.length - rest.length), mValue)
      | none => (-1, []) := by
  rw [stringFromString]
  cases htype : (text "STRING#").isPrefixOf value && 7 < value.length with
  | false => rfl
  | true =>
    have hleading := (Bool.and_eq_true_iff.mp htype).1
    rw [List.isPrefixOf_iff_prefix] at hleading
    obtain ⟨u, rfl⟩ := hleading
    rfl

theorem dropWhile_ne_quote {front : Text} (h : '\''.toUInt8 ∉ front) (s : Text) :
    (front ++ '\''.toUInt8 :: s).dropWhile (· ≠ '\''.toUInt8) = '\''.toUInt8 :: s := by
  have hpass : ∀ c ∈ front, decide (c ≠ '\''.toUInt8) = true := by
    rintro c hc
    exact decide_eq_true (ne_of_mem_of_not_mem hc h)
  rw [List.dropWhile_append_of_pos hpass]
  exact List.dropWhile_cons_of_neg (by simp)

/-- The first quote of a text, if there is one. -/
theorem exists_front {value : Text} (h : value.dropWhile (· ≠ '\''.toUInt8) ≠ []) :
    ∃ front s, value = front ++ '\''.toUInt8 :: s ∧ '\''.toUInt8 ∉ front := by
  induction value with
  | nil => exact absurd rfl h
  | cons c value ih =>
    by_cases hc : c = '\''.toUInt8
    · subst hc
      exact ⟨[], value, rfl, List.not_mem_nil⟩
    · rw [List.dropWhile_cons_of_pos (by simpa using hc)] at h
      obtain ⟨front, s, rfl, hfront⟩ := ih h
      refine ⟨c :: front, s, rfl, fun hmem => ?_⟩
      rcases List.mem_cons.mp hmem with rfl | hmem
      · exact hc rfl
      · exact hfront hmem

theorem length_sub_rest (front literal rest : Text) :
    (((front ++ literal ++ rest : Text).length : ℤ) - rest.length) = (front ++ literal).length := by
  simp only [List.length_append]
  omega

/-- **A text is read as a string exactly if a quoted literal is in it**, in front of which there
is no quote, and whose end is at a distance that is no negative `int`. -/
theorem stringFromString_nonneg_iff (value : Text) :
    0 ≤ (stringFromString value).1 ↔
      ∃ front literal rest, value = front ++ literal ++ rest ∧ '\''.toUInt8 ∉ front ∧
        QuotedLiteral literal ∧ 0 ≤ asInt (front ++ literal).length := by
  rw [stringFromString_eq]
  constructor
  · intro h
    by_cases hquote : value.dropWhile (· ≠ '\''.toUInt8) = []
    · rw [hquote] at h
      have hneg : (0 : ℤ) ≤ -1 := h
      exact absurd hneg (by decide)
    · obtain ⟨front, s, rfl, hfront⟩ := exists_front hquote
      rw [dropWhile_ne_quote hfront, List.drop_one, List.tail_cons] at h
      cases hread : unescapeString s with
      | none =>
        rw [hread] at h
        have hneg : (0 : ℤ) ≤ -1 := h
        exact absurd hneg (by decide)
      | some read =>
        obtain ⟨literal, hliteral, rfl⟩ := quoted_of_unescapeString hread
        have happ : front ++ '\''.toUInt8 :: (literal ++ read.2) =
            front ++ '\''.toUInt8 :: literal ++ read.2 := by
          rw [List.append_assoc, List.cons_append]
        rw [hread, happ] at h
        simp only [length_sub_rest] at h
        exact ⟨front, _, read.2, happ, hfront, ⟨literal, rfl, hliteral⟩, h⟩
  · rintro ⟨front, literal, rest, rfl, hfront, ⟨s, rfl, hs⟩, hint⟩
    obtain ⟨⟨storage, hread⟩, -⟩ := unescapeString_quoted hs rest
    have happ : front ++ '\''.toUInt8 :: s ++ rest = front ++ '\''.toUInt8 :: (s ++ rest) := by
      rw [List.append_assoc, List.cons_append]
    rw [← length_sub_rest front _ rest] at hint
    rw [happ, dropWhile_ne_quote hfront, List.drop_one, List.tail_cons, hread, ← happ]
    exact hint

/-- What is in front of the first quote. -/
theorem front_unique {front front' s s' : Text} (hfront : '\''.toUInt8 ∉ front)
    (hfront' : '\''.toUInt8 ∉ front')
    (h : front ++ '\''.toUInt8 :: s = front' ++ '\''.toUInt8 :: s') : front = front' := by
  have htail : '\''.toUInt8 :: s = '\''.toUInt8 :: s' := by
    rw [← dropWhile_ne_quote hfront s, h, dropWhile_ne_quote hfront' s']
  rw [htail] at h
  exact List.append_cancel_right h

/-- **What the literal of a string is**: a quoted literal, which may have the type in front. -/
def StartsWithLiteral (value : Text) : Prop :=
  ∃ literal rest, QuotedLiteral literal ∧
    (value = literal ++ rest ∨ value = text "STRING#" ++ literal ++ rest)

/-! ### The length of a printed string -/

theorem length_dollarEscapeChar_le (c : UInt8) : (dollarEscapeChar .string c).length ≤ 3 := by
  rw [dollarEscapeChar]
  split_ifs
  all_goals exact Nat.le_of_ble_eq_true rfl

theorem length_stringToString_lt {storage : Text} (h : storage.length ≤ scmMaxStringLen) :
    (stringToString storage).length < 2 ^ 31 := by
  have hle : (storage.flatMap (dollarEscapeChar .string)).length ≤ storage.length * 3 := by
    clear h
    induction storage with
    | nil => exact Nat.zero_le _
    | cons c storage ih =>
      have hc := length_dollarEscapeChar_le c
      rw [List.flatMap_cons, List.length_append, List.length_cons]
      omega
  have hquote : (text "'").length = 1 := rfl
  rw [scmMaxStringLen] at h
  rw [stringToString, List.length_append, List.length_append, hquote]
  omega

/-- **Strings in texts.** A string that a `STRING` holds is read back from its text, whatever
follows; and what is read begins with the literal exactly if there is nothing or the type in
front of the first quote, unless that quote is not closed. -/
theorem stringFromString_iff (value : Text) :
    (∀ storage rest : Text, storage.length ≤ scmMaxStringLen →
      stringFromString (stringToString storage ++ rest) =
        (((stringToString storage).length : ℤ), storage)) ∧
    ((0 ≤ (stringFromString value).1 → StartsWithLiteral value) ↔
      ∀ front literal rest, value = front ++ literal ++ rest → '\''.toUInt8 ∉ front →
        QuotedLiteral literal → 0 ≤ asInt (front ++ literal).length →
          front = [] ∨ front = text "STRING#") := by
  refine ⟨fun storage rest h => ?_, ?_, ?_⟩
  · exact stringFromString_stringToString storage rest (length_stringToString_lt h)
  · rintro h front literal rest rfl hfront hliteral hint
    obtain ⟨literal', rest', ⟨s', rfl, -⟩, hvalue⟩ := h
      ((stringFromString_nonneg_iff _).mpr ⟨front, literal, rest, rfl, hfront, hliteral, hint⟩)
    obtain ⟨s, rfl, -⟩ := hliteral
    rw [List.append_assoc, List.cons_append] at hvalue
    rcases hvalue with hvalue | hvalue
    · exact .inl (front_unique hfront List.not_mem_nil hvalue)
    · rw [List.append_assoc, List.cons_append] at hvalue
      exact .inr (front_unique hfront (by decide) hvalue)
  · intro h hread
    obtain ⟨front, literal, rest, rfl, hfront, hliteral, hint⟩ :=
      (stringFromString_nonneg_iff value).mp hread
    rcases h front literal rest rfl hfront hliteral hint with rfl | rfl
    · exact ⟨literal, rest, hliteral, .inl rfl⟩
    · exact ⟨literal, rest, hliteral, .inr rfl⟩

/-- A character in front of the quote is passed over. -/
theorem stringFromString_passes_over :
    stringFromString (text "x'abc'") = (6, text "abc") ∧ ¬StartsWithLiteral (text "x'abc'") := by
  refine ⟨by decide +kernel, ?_⟩
  rintro ⟨_, rest, ⟨s, rfl, -⟩, h | h⟩
  · have hfirst : some 'x'.toUInt8 = some '\''.toUInt8 := congrArg List.head? h
    exact absurd hfirst (by decide)
  · have hfirst : some 'x'.toUInt8 = some 'S'.toUInt8 := congrArg List.head? h
    exact absurd hfirst (by decide)

end Forte
