import Forte.Datatypes.WideRuns

/-!
# Literals of wide strings

A wide string is printed between quotes, with a dollar in front of the characters that need one,
and read again by `CIEC_WSTRING::fromString`. What is read ends at the first quote that is not
escaped, whatever comes behind it.

No more of a literal is stored than the maximum length, and of the whole literal, with its quotes.
So what has been printed is read back exactly if the literal is no longer than 65535 bytes; with
this length the closing quote is what is cut off (`Forte.AnyString.restores_iff`).
-/

namespace Forte.AnyString

open StringFixed (cString resize)

/-! ### Code points of bytes -/

namespace Decodes

/-- Bytes are the UTF-8 of one text only. -/
theorem unique {s : Text} {cps cps' : List ℕ} (h : Decodes s cps) (h' : Decodes s cps') :
    cps = cps' := by
  induction h generalizing cps' with
  | nil => exact (decodes_nil_iff.mp h').symm
  | @cons bs rest v cps hread _ ih =>
    generalize hs : bs ++ rest = s at h' hread
    cases h' with
    | nil =>
      obtain ⟨rfl, rfl⟩ := List.append_eq_nil_iff.mp hs
      exact absurd (parse_bounds hread).1 (by decide)
    | @cons bs' rest' v' cps' hread' h' =>
      obtain ⟨hlen, rfl⟩ := Prod.mk.inj (Option.some.inj (hread.symm.trans hread'))
      obtain ⟨rfl, rfl⟩ := List.append_inj hs hlen
      rw [ih h']

theorem append {s s' : Text} {cps cps' : List ℕ} (h : Decodes s cps) (h' : Decodes s' cps') :
    Decodes (s ++ s') (cps ++ cps') := by
  induction h with
  | nil => exact h'
  | @cons bs rest v cps hread _ ih =>
    rw [List.append_assoc, List.cons_append]
    refine .cons (parse_congr hread fun i hi => ?_) ih
    rw [byteAt, byteAt, List.getD_eq_getElem?_getD, List.getD_eq_getElem?_getD,
      List.getElem?_append_left hi, List.getElem?_append_left hi]

/-- Of bytes below 240 there is no character outside of the basic plane. -/
theorem basic {s : Text} {cps : List ℕ} (h : Decodes s cps) (hs : ∀ c ∈ s, c.toNat < 240) :
    ∀ cp ∈ cps, Basic cp := by
  induction h with
  | nil => exact fun cp hcp => absurd hcp List.not_mem_nil
  | @cons bs rest v cps hread _ ih =>
    refine List.forall_mem_cons.mpr ⟨.inr ?_, ih fun c hc => hs c (List.mem_append_right bs hc)⟩
    obtain ⟨hpos, -, -⟩ := parse_bounds hread
    have hfirst : byteAt (bs ++ rest) 0 < 240 := by
      obtain ⟨b, bs, rfl⟩ := List.exists_cons_of_length_pos hpos
      exact hs b List.mem_cons_self
    rw [parseUTF8Codepoint] at hread
    split_ifs at hread
    · obtain ⟨-, rfl⟩ := Prod.mk.inj (Option.some.inj hread)
      omega
    · obtain ⟨-, rfl⟩ := Prod.mk.inj (Option.some.inj hread)
      omega
    · obtain ⟨-, rfl⟩ := Prod.mk.inj (Option.some.inj hread)
      omega
    · omega

end Decodes

theorem decodes_utf8Of {cp : ℕ} (h : cp < 0x110000) : Decodes (utf8Of cp) [cp] := by
  have hread := parseUTF8Codepoint_of_lt h []
  have hcons := Decodes.cons hread .nil
  rwa [List.append_nil] at hcons

/-- A character of seven bits is a code point. -/
theorem decodes_ascii {c : UInt8} (h : c.toNat < 128) : Decodes [c] [c.toNat] := by
  have hchar := decodes_utf8Of (h.trans (by decide : 128 < 0x110000))
  rwa [utf8Of, encodeUTF8Codepoint, if_pos h, Option.getD_some, UInt8.ofNat_toNat] at hchar

/-! ### What is printed -/

/-- The characters between the quotes. -/
def escaped (storage : Text) : Text := storage.flatMap (dollarEscapeChar .wstring)

theorem escaped_cons (c : UInt8) (storage : Text) :
    escaped (c :: storage) = dollarEscapeChar .wstring c ++ escaped storage := rfl

theorem wstringToString_eq (storage : Text) :
    wstringToString storage = '"'.toUInt8 :: (escaped storage ++ ['"'.toUInt8]) := rfl

/-- **A character is printed** as it is, or as a letter or itself behind a dollar. -/
theorem dollarEscapeChar_cases (c : UInt8) :
    (dollarEscapeChar .wstring c = [c] ∧ c ≠ '$'.toUInt8 ∧ c ≠ '"'.toUInt8) ∨
      ∃ d : UInt8, dollarEscapeChar .wstring c = ['$'.toUInt8, d] ∧ d ≠ 0 ∧ d.toNat < 128 ∧
        c.toNat < 128 ∧ ∀ s, handleDollarEscapedChar true (d :: s) = some (1, c.toNat) := by
  rw [dollarEscapeChar]
  split_ifs with hdollar hquote hstring hlf hff hcr htab hdouble hwide hprint
  · subst hdollar
    exact .inr ⟨'$'.toUInt8, rfl, by decide, by decide, by decide, fun _ => rfl⟩
  · exact absurd hstring (by decide)
  · subst hquote
    exact .inl ⟨rfl, by decide, by decide⟩
  · subst hlf
    exact .inr ⟨'l'.toUInt8, rfl, by decide, by decide, by decide, fun _ => rfl⟩
  · subst hff
    exact .inr ⟨'p'.toUInt8, rfl, by decide, by decide, by decide, fun _ => rfl⟩
  · subst hcr
    exact .inr ⟨'r'.toUInt8, rfl, by decide, by decide, by decide, fun _ => rfl⟩
  · subst htab
    exact .inr ⟨'t'.toUInt8, rfl, by decide, by decide, by decide, fun _ => rfl⟩
  · subst hdouble
    exact .inr ⟨'"'.toUInt8, rfl, by decide, by decide, by decide, fun _ => rfl⟩
  · exact absurd rfl hwide
  · exact absurd hprint.2 (by decide)
  · exact .inl ⟨rfl, hdollar, hdouble⟩

/-- A character that is printed is unescaped to itself. -/
theorem unescape_dollarEscapeChar {c : UInt8} (hc : c ≠ 0) (rest : Text) :
    unescape (dollarEscapeChar .wstring c ++ rest) = (unescape rest).map (c :: ·) := by
  rcases dollarEscapeChar_cases c with ⟨heq, hdollar, hquote⟩ | ⟨d, heq, -, -, hlt, hhandle⟩
  · rw [heq, List.singleton_append, unescape_plain (not_or.mpr ⟨hc, hquote⟩) hdollar]
  · have hone : utf8Of c.toNat = [c] := by
      rw [utf8Of, encodeUTF8Codepoint, if_pos hlt, Option.getD_some, UInt8.ofNat_toNat]
    rw [heq, List.cons_append, List.singleton_append, unescape_escape (hhandle rest), hone]
    rfl

/-- **What has been printed is unescaped to what was printed**, up to a quote or the end. -/
theorem unescape_escaped {storage rest : Text} (hs : ∀ c ∈ storage, c ≠ 0)
    (hrest : unescape rest = some []) : unescape (escaped storage ++ rest) = some storage := by
  induction storage with
  | nil => exact hrest
  | cons c storage ih =>
    rw [List.forall_mem_cons] at hs
    rw [escaped_cons, List.append_assoc, unescape_dollarEscapeChar hs.1, ih hs.2]
    rfl

/-- **A beginning of what has been printed** is unescaped to a beginning of what was printed. -/
theorem unescape_take_escaped {storage : Text} (hs : ∀ c ∈ storage, c ≠ 0) {k : ℕ}
    (hk : k < (escaped storage).length) :
    ∃ j, j < storage.length ∧ unescape ((escaped storage).take k) = some (storage.take j) := by
  induction storage generalizing k with
  | nil => exact absurd hk (Nat.not_lt_zero k)
  | cons c storage ih =>
    rw [List.forall_mem_cons] at hs
    rw [escaped_cons, List.length_append] at hk
    rw [escaped_cons]
    rcases Nat.lt_or_ge k (dollarEscapeChar .wstring c).length with hlt | hge
    · -- the first character is cut off, or its dollar is left
      refine ⟨0, Nat.succ_pos _, ?_⟩
      rw [List.take_append_of_le_length hlt.le]
      rcases dollarEscapeChar_cases c with ⟨heq, -, -⟩ | ⟨d, heq, -, -, -, -⟩
      · rw [heq] at hlt ⊢
        obtain rfl : k = 0 := Nat.lt_one_iff.mp hlt
        exact unescape_nil
      · rw [heq] at hlt ⊢
        obtain rfl | rfl : k = 0 ∨ k = 1 := by
          have hlength : k < 2 := hlt
          omega
        · exact unescape_nil
        · exact unescape_dollar_end rfl
    · obtain ⟨m, rfl⟩ := Nat.exists_eq_add_of_le hge
      obtain ⟨j, hj, hread⟩ := ih hs.2 (by omega : m < (escaped storage).length)
      refine ⟨j + 1, Nat.succ_lt_succ hj, ?_⟩
      rw [List.take_length_add_append, unescape_dollarEscapeChar hs.1, hread]
      rfl

/-- **What has been printed is quoted.** -/
theorem wideQuoted_escaped {storage : Text} (hs : ∀ c ∈ storage, c ≠ 0) :
    WideQuoted (escaped storage ++ ['"'.toUInt8]) := by
  induction storage with
  | nil => exact .close
  | cons c storage ih =>
    rw [List.forall_mem_cons] at hs
    rw [escaped_cons, List.append_assoc]
    rcases dollarEscapeChar_cases c with ⟨heq, hdollar, hquote⟩ | ⟨d, heq, hd, -, -, -⟩
    · rw [heq]
      exact .plain hs.1 hdollar hquote (ih hs.2)
    · rw [heq]
      exact .escaped hd (ih hs.2)

/-! ### Texts of the basic plane -/

/-- **The characters the claim of a round trip is about**: those of the basic plane that are no
surrogates, but for zero and the byte order mark. -/
def IsBasicChar (cp : ℕ) : Prop := IsScalar cp ∧ cp < 0x10000 ∧ cp ≠ 0 ∧ cp ≠ scmBOMMarker

instance (cp : ℕ) : Decidable (IsBasicChar cp) := inferInstanceAs (Decidable (_ ∧ _))

/-- The bytes of a character: one below 128, or several from 128 on. -/
theorem utf8Of_bytes {cp : ℕ} (h : cp < 0x10000) :
    (cp < 128 ∧ utf8Of cp = [UInt8.ofNat cp]) ∨
      (128 ≤ cp ∧ ∀ c ∈ utf8Of cp, 128 ≤ c.toNat ∧ c.toNat < 240) := by
  rw [utf8Of, encodeUTF8Codepoint]
  split_ifs with hone htwo
  · exact .inl ⟨hone, rfl⟩
  · refine .inr ⟨by omega, fun c hc => ?_⟩
    simp only [Option.getD_some, List.mem_cons, List.not_mem_nil, or_false] at hc
    rcases hc with rfl | rfl
    · rw [UInt8.toNat_ofNat_of_lt' (by rw [UInt8.size]; omega)]
      omega
    · rw [UInt8.toNat_ofNat_of_lt' (by rw [UInt8.size]; omega)]
      omega
  · refine .inr ⟨by omega, fun c hc => ?_⟩
    simp only [Option.getD_some, List.mem_cons, List.not_mem_nil, or_false] at hc
    rcases hc with rfl | rfl | rfl
    · rw [UInt8.toNat_ofNat_of_lt' (by rw [UInt8.size]; omega)]
      omega
    · rw [UInt8.toNat_ofNat_of_lt' (by rw [UInt8.size]; omega)]
      omega
    · rw [UInt8.toNat_ofNat_of_lt' (by rw [UInt8.size]; omega)]
      omega

/-- A character from 128 on is printed as it is. -/
theorem dollarEscapeChar_of_le {c : UInt8} (h : 128 ≤ c.toNat) :
    dollarEscapeChar .wstring c = [c] := by
  rcases dollarEscapeChar_cases c with ⟨heq, -, -⟩ | ⟨d, -, -, -, hlt, -⟩
  · exact heq
  · omega

theorem escaped_of_le {s : Text} (h : ∀ c ∈ s, 128 ≤ c.toNat) : escaped s = s := by
  induction s with
  | nil => rfl
  | cons c s ih =>
    rw [List.forall_mem_cons] at h
    rw [escaped_cons, dollarEscapeChar_of_le h.1, ih h.2]
    rfl

theorem escaped_append (s s' : Text) : escaped (s ++ s') = escaped s ++ escaped s' :=
  List.flatMap_append

/-- **What is printed of a text** of the basic plane is UTF-8 of the basic plane, and has no zeros
in it. -/
theorem decodes_escaped {cps : List ℕ} (h : ∀ cp ∈ cps, IsBasicChar cp) :
    (∃ cps', Decodes (escaped (utf8Text cps)) cps') ∧
      (∀ c ∈ escaped (utf8Text cps), c.toNat < 240) ∧ ∀ c ∈ utf8Text cps, c ≠ 0 := by
  induction cps with
  | nil =>
    exact ⟨⟨[], .nil⟩, fun c hc => absurd hc List.not_mem_nil,
      fun c hc => absurd hc List.not_mem_nil⟩
  | cons cp cps ih =>
    rw [List.forall_mem_cons] at h
    obtain ⟨⟨⟨hscalar, -⟩, hlt, hnul, -⟩, htail⟩ := h
    obtain ⟨⟨cps', hcps'⟩, hbytes, hzero⟩ := ih htail
    rw [utf8Text_cons, escaped_append]
    rcases utf8Of_bytes hlt with ⟨hone, heq⟩ | ⟨-, hmany⟩
    · have hchar : (UInt8.ofNat cp).toNat = cp :=
        UInt8.toNat_ofNat_of_lt' (hone.trans (by decide))
      have hne : UInt8.ofNat cp ≠ 0 := fun heq0 => hnul (by rw [← hchar, heq0]; rfl)
      have hfirst : (∃ l, Decodes (escaped [UInt8.ofNat cp]) l) ∧
          ∀ c ∈ escaped [UInt8.ofNat cp], c.toNat < 240 := by
        rw [escaped_cons, escaped, List.flatMap_nil, List.append_nil]
        rcases dollarEscapeChar_cases (UInt8.ofNat cp) with
          ⟨hplain, -, -⟩ | ⟨d, hplain, -, hd, -, -⟩
        · rw [hplain]
          refine ⟨⟨_, decodes_ascii (by omega)⟩, fun c hc => ?_⟩
          rw [List.mem_singleton.mp hc]
          omega
        · rw [hplain]
          refine ⟨⟨_, (decodes_ascii (by decide)).append (decodes_ascii hd)⟩, fun c hc => ?_⟩
          simp only [List.mem_cons, List.not_mem_nil, or_false] at hc
          rcases hc with rfl | rfl
          · decide
          · omega
      obtain ⟨⟨l, hl⟩, hfirst⟩ := hfirst
      rw [heq]
      refine ⟨⟨_, hl.append hcps'⟩, fun c hc => ?_, fun c hc => ?_⟩
      · rcases List.mem_append.mp hc with hc | hc
        · exact hfirst c hc
        · exact hbytes c hc
      · rcases List.mem_append.mp hc with hc | hc
        · rw [List.mem_singleton.mp hc]
          exact hne
        · exact hzero c hc
    · rw [escaped_of_le fun c hc => (hmany c hc).1]
      refine ⟨⟨_, (decodes_utf8Of (by omega)).append hcps'⟩, fun c hc => ?_, fun c hc => ?_⟩
      · rcases List.mem_append.mp hc with hc | hc
        · exact (hmany c hc).2
        · exact hbytes c hc
      · rcases List.mem_append.mp hc with hc | hc
        · rintro rfl
          exact absurd (hmany 0 hc).1 (by decide)
        · exact hzero c hc

/-! ### What is read of a literal -/

theorem Stored.unique {source t t' : Text} (h : Stored source t) (h' : Stored source t') :
    t = t' := by
  cases h with
  | plain hcps hbasic =>
    cases h' with
    | plain _ _ => rfl
    | encoded hcps' hbasic' _ => exact absurd (hcps.unique hcps' ▸ hbasic) hbasic'
  | encoded hcps hbasic hchars =>
    cases h' with
    | plain hcps' hbasic' => exact absurd (hcps'.unique hcps ▸ hbasic') hbasic
    | encoded _ _ hchars' => rw [hchars.unique hchars']

/-- What is stored has been decoded. -/
theorem Stored.decodes {source t : Text} (h : Stored source t) : ∃ cps, Decodes source cps := by
  cases h with
  | plain hcps _ => exact ⟨_, hcps⟩
  | encoded hcps _ _ => exact ⟨_, hcps⟩

/-- Of a text that is not empty, and of which there is something to read, is stored what is
stored of the bytes that are looked at. -/
theorem ReadsUTF8.cases_of_begins {paValue : Text} {nSrcLen nRetVal : ℤ} {paUnescape : Bool}
    {old u : Text} (h : ReadsUTF8 paValue nSrcLen paUnescape old nRetVal u)
    (hbegins : 0 < nSrcLen ∧ paValue.at 0 ≠ 0) :
    (nRetVal = -1 ∧ ¬∃ cps, Decodes (capped paValue nSrcLen) cps) ∨
      ∃ t, Stored (capped paValue nSrcLen) t ∧
        ((paUnescape = false ∧ nRetVal = nSrcLen ∧ u = t) ∨
          (paUnescape = true ∧ nRetVal = nSrcLen ∧ unescape (behindQuote t) = some u) ∨
            (paUnescape = true ∧ nRetVal = -1 ∧ unescape (behindQuote t) = none)) := by
  obtain ⟨hpos, hfirst⟩ := hbegins
  cases h with
  | unclosed hneg => omega
  | empty _ hempty =>
    rcases hempty with hnul | hzero
    · exact absurd hnul hfirst
    · omega
  | invalid _ hcheck => exact .inl ⟨rfl, hcheck⟩
  | plain _ hescape hstored => exact .inr ⟨_, hstored, .inl ⟨hescape, rfl, rfl⟩⟩
  | unescaped _ hescape hstored hread =>
    exact .inr ⟨_, hstored, .inr (.inl ⟨hescape, rfl, hread⟩)⟩
  | refused _ hescape hstored hread =>
    exact .inr ⟨_, hstored, .inr (.inr ⟨hescape, rfl, hread⟩)⟩

/-- **What is read of two texts** that begin with the same bytes, as many as are looked at. -/
theorem ReadsUTF8.congr {paValue paValue' : Text} {nSrcLen nRetVal nRetVal' : ℤ} {paUnescape : Bool}
    {old u u' : Text} (h : ReadsUTF8 paValue nSrcLen paUnescape old nRetVal u)
    (h' : ReadsUTF8 paValue' nSrcLen paUnescape old nRetVal' u')
    (hfirst : paValue.at 0 ≠ 0) (hfirst' : paValue'.at 0 ≠ 0)
    (hcapped : capped paValue nSrcLen = capped paValue' nSrcLen) :
    nRetVal = nRetVal' ∧ (nRetVal ≠ -1 → u = u') := by
  rcases lt_trichotomy nSrcLen 0 with hneg | hzero | hpos
  · cases h with
    | unclosed _ =>
      cases h' with
      | unclosed _ => exact ⟨rfl, fun _ => rfl⟩
      | _ => omega
    | _ => omega
  · cases h with
    | empty _ _ =>
      cases h' with
      | empty _ _ => exact ⟨rfl, fun _ => rfl⟩
      | _ => omega
    | _ => omega
  · rcases h.cases_of_begins ⟨hpos, hfirst⟩ with ⟨rfl, hcheck⟩ | ⟨t, ht, hread⟩
    · rcases h'.cases_of_begins ⟨hpos, hfirst'⟩ with ⟨rfl, -⟩ | ⟨t', ht', -⟩
      · exact ⟨rfl, fun hne => absurd rfl hne⟩
      · exact absurd (hcapped ▸ ht'.decodes) hcheck
    · rcases h'.cases_of_begins ⟨hpos, hfirst'⟩ with ⟨rfl, hcheck'⟩ | ⟨t', ht', hread'⟩
      · exact absurd (hcapped ▸ ht.decodes) hcheck'
      · obtain rfl : t = t' := ht.unique (hcapped ▸ ht')
        rcases hread with ⟨hplain, rfl, rfl⟩ | ⟨hescape, rfl, hu⟩ | ⟨hescape, rfl, hu⟩
        · rcases hread' with ⟨-, rfl, rfl⟩ | ⟨hescape', -, -⟩ | ⟨hescape', -, -⟩
          · exact ⟨rfl, fun _ => rfl⟩
          · exact absurd (hplain.symm.trans hescape') nofun
          · exact absurd (hplain.symm.trans hescape') nofun
        · rcases hread' with ⟨hplain', -, -⟩ | ⟨-, rfl, hu'⟩ | ⟨-, rfl, hu'⟩
          · exact absurd (hplain'.symm.trans hescape) nofun
          · exact ⟨rfl, fun _ => Option.some.inj (hu.symm.trans hu')⟩
          · exact nomatch hu.symm.trans hu'
        · rcases hread' with ⟨hplain', -, -⟩ | ⟨-, rfl, hu'⟩ | ⟨-, rfl, hu'⟩
          · exact absurd (hplain'.symm.trans hescape) nofun
          · exact nomatch hu.symm.trans hu'
          · exact ⟨rfl, fun hne => absurd rfl hne⟩

/-! ### Where a literal ends -/

section Quoted

variable {front body : Text}

/-- The name of the type may be in front. -/
def TypeName (front : Text) : Prop := front = [] ∨ front = text "WSTRING#"

theorem behindType_append (hfront : TypeName front) (s : Text) :
    behindType (front ++ '"'.toUInt8 :: s) = '"'.toUInt8 :: s := by
  rcases hfront with rfl | rfl <;> rfl

theorem asInt_le {n : ℤ} (h : 0 ≤ n) : asInt n ≤ n := by
  rw [asInt, Int.bmod]
  split <;> omega

/-- The length of a literal, in an `int`. -/
theorem srcLen_quoted (h : WideQuoted body) (rest : Text) :
    srcLen ('"'.toUInt8 :: (body ++ rest)) (-1) true = asInt (body.length + 1) := by
  obtain ⟨hclose, hne⟩ := closingDelimiter_quoted h rest
  have hpos := List.length_pos_iff.mpr hne
  have hquote : ¬('"'.toUInt8 ≠ '"'.toUInt8) := not_not_intro rfl
  rw [srcLen, if_neg (by decide), if_pos rfl, determineEscapedStringLength, at_cons_zero,
    if_neg hquote, List.drop_one, List.tail_cons, hclose]
  refine congrArg asInt ?_
  omega

/-- What is looked at is in the literal. -/
theorem capped_quoted (rest : Text) {n : ℤ} (hn : n ≤ body.length + 1) :
    capped ('"'.toUInt8 :: (body ++ rest)) n =
      ('"'.toUInt8 :: body).take (min n.toNat scmMaxStringLen) := by
  have hle : min n.toNat scmMaxStringLen ≤ ('"'.toUInt8 :: body).length := by
    have hmin := Nat.min_le_left n.toNat scmMaxStringLen
    rw [List.length_cons]
    omega
  have happ : '"'.toUInt8 :: (body ++ rest) = ('"'.toUInt8 :: body) ++ rest := rfl
  rw [capped, happ, readable_of_le (by rw [List.length_append]; omega),
    List.take_append_of_le_length hle]

/-- **What comes behind a literal makes no difference.** -/
theorem fromString_local {fresh : ℕ → UInt8} {s : Storage} {t : Text} (h : s.Holds t)
    (ht : t.length ≤ scmMaxStringLen) (hfront : TypeName front) (hbody : WideQuoted body)
    (rest rest' : Text) {n : ℤ} {s' : Storage}
    (hread : fromString fresh (front ++ '"'.toUInt8 :: (body ++ rest)) s = some (n, s'))
    (hn : 0 ≤ n) :
    (body.length < 2 ^ 31 - 1 → n = (front ++ '"'.toUInt8 :: body).length) ∧
      ∃ s'', fromString fresh (front ++ '"'.toUInt8 :: (body ++ rest')) s = some (n, s'') ∧
        s''.content = s'.content := by
  have hlength : ∀ rest : Text,
      ((front ++ '"'.toUInt8 :: (body ++ rest)).length : ℤ) -
        ('"'.toUInt8 :: (body ++ rest)).length = front.length := by
    intro rest
    rw [List.length_append]
    omega
  have hquote : ∀ u : Text, decide (Text.at ('"'.toUInt8 :: u) 0 = '"'.toUInt8) = true :=
    fun u => decide_eq_true rfl
  have hspec : ∀ rest : Text, ∃ (nUTF8Result : ℤ) (s' : Storage) (u : Text),
      fromString fresh (front ++ '"'.toUInt8 :: (body ++ rest)) s =
        some (if nUTF8Result = -1 then -1 else front.length + nUTF8Result, s') ∧ s'.Holds u ∧
          ReadsUTF8 ('"'.toUInt8 :: (body ++ rest)) (asInt (body.length + 1)) true t
            nUTF8Result u := by
    intro rest
    obtain ⟨nUTF8Result, s', u, hs', hholds, -, hutf8⟩ := fromString_spec fresh h ht
      (front ++ '"'.toUInt8 :: (body ++ rest))
    rw [behindType_append hfront, hlength] at hs'
    rw [behindType_append hfront, hquote, srcLen_quoted hbody] at hutf8
    exact ⟨nUTF8Result, s', u, hs', hholds, hutf8⟩
  obtain ⟨r₁, s₁, u₁, hs₁, hholds₁, hutf8₁⟩ := hspec rest
  obtain ⟨r₂, s₂, u₂, hs₂, hholds₂, hutf8₂⟩ := hspec rest'
  obtain ⟨hn', rfl⟩ := Prod.mk.inj (Option.some.inj (hread.symm.trans hs₁))
  have hle : asInt (body.length + 1) ≤ body.length + 1 := asInt_le (by omega)
  have hquote' : ∀ u : Text, Text.at ('"'.toUInt8 :: u) 0 ≠ 0 := fun u => by
    rw [at_cons_zero]
    decide
  obtain ⟨hsame, hheld⟩ := hutf8₁.congr hutf8₂ (hquote' _) (hquote' _)
    ((capped_quoted rest hle).trans (capped_quoted rest' hle).symm)
  have hne : r₁ ≠ -1 := by
    rintro rfl
    rw [if_pos rfl] at hn'
    omega
  refine ⟨fun hlt => ?_, s₂, ?_, ?_⟩
  · have hint : asInt (body.length + 1) = body.length + 1 := asInt_of_lt (by omega) (by omega)
    rw [hint] at hutf8₁
    have hr : r₁ = body.length + 1 := by
      rcases hutf8₁.cases_of_begins ⟨by omega, hquote' _⟩ with
        ⟨hinvalid, -⟩ | ⟨_, -, ⟨-, hr, -⟩ | ⟨-, hr, -⟩ | ⟨-, hrefused, -⟩⟩
      · exact absurd hinvalid hne
      · exact hr
      · exact hr
      · exact absurd hrefused hne
    rw [hn', if_neg hne, hr, List.length_append, List.length_cons]
    omega
  · rw [hs₂, ← hsame, hn']
  · rw [hholds₁.content_eq, hholds₂.content_eq, hheld hne]

end Quoted

/-! ### Printed and read again -/

/-- **A string is restored** from its literal with a text behind it, into a string that has been
used before. -/
def Restores (fresh : ℕ → UInt8) (s : Storage) (storage rest : Text) : Prop :=
  ∃ s', fromString fresh (wstringToString storage ++ rest) s =
      some (((wstringToString storage).length : ℤ), s') ∧ s'.content = storage

theorem length_wstringToString (storage : Text) :
    (wstringToString storage).length = (escaped storage).length + 2 := by
  rw [wstringToString_eq, List.length_cons, List.length_append, List.length_singleton]

theorem length_escaped_le (storage : Text) : (escaped storage).length ≤ 2 * storage.length := by
  induction storage with
  | nil => exact le_rfl
  | cons c storage ih =>
    have hc : (dollarEscapeChar .wstring c).length ≤ 2 := by
      rcases dollarEscapeChar_cases c with ⟨heq, -, -⟩ | ⟨d, heq, -⟩
      · rw [heq]
        exact Nat.le_of_ble_eq_true rfl
      · rw [heq]
        exact le_rfl
    rw [escaped_cons, List.length_append, List.length_cons]
    omega

/-- **Which strings are restored**: those whose literal has no more than 65535 bytes. -/
theorem restores_iff {cps : List ℕ} (hcps : ∀ cp ∈ cps, IsBasicChar cp)
    (hlen : (utf8Text cps).length ≤ scmMaxStringLen) {fresh : ℕ → UInt8} {s : Storage} {t : Text}
    (h : s.Holds t) (ht : t.length ≤ scmMaxStringLen) (rest : Text) :
    Restores fresh s (utf8Text cps) rest ↔
      (wstringToString (utf8Text cps)).length ≤ 65535 := by
  obtain ⟨⟨cps', hdecodes⟩, hbytes, hnul⟩ := decodes_escaped hcps
  have hdouble := length_escaped_le (utf8Text cps)
  have hlength := length_wstringToString (utf8Text cps)
  have hquoted := wideQuoted_escaped hnul
  set storage := utf8Text cps with hstorage
  set body := escaped storage ++ ['"'.toUInt8] with hbody
  have hbodylen : body.length = (escaped storage).length + 1 := by
    rw [hbody, List.length_append, List.length_singleton]
  rw [scmMaxStringLen] at hlen
  have hint : asInt (body.length + 1) = body.length + 1 :=
    asInt_of_lt (by omega) (by omega)
  have hliteral : wstringToString storage ++ rest = '"'.toUInt8 :: (body ++ rest) := by
    rw [wstringToString_eq, List.cons_append]
  obtain ⟨r, s', u, hs', hholds, -, hutf8⟩ := fromString_spec fresh h ht
    (wstringToString storage ++ rest)
  have hbehind : behindType (wstringToString storage ++ rest) = '"'.toUInt8 :: (body ++ rest) := by
    rw [hliteral]
    exact behindType_append (.inl rfl) _
  have hquote : decide (Text.at ('"'.toUInt8 :: (body ++ rest)) 0 = '"'.toUInt8) = true :=
    decide_eq_true rfl
  rw [hbehind, hquote, srcLen_quoted hquoted, hint] at hutf8
  rw [hbehind, hliteral, sub_self, zero_add] at hs'
  -- the bytes that are looked at are those of the literal, or the first ones of them
  obtain ⟨k, hk, hcapped⟩ : ∃ k, ((body.length ≤ 65533 ∧ k = body.length) ∨
      (65533 ≤ body.length ∧ k = 65533)) ∧
        capped ('"'.toUInt8 :: (body ++ rest)) (body.length + 1) =
          '"'.toUInt8 :: body.take k := by
    have hnat : ((body.length : ℤ) + 1).toNat = body.length + 1 := by omega
    rw [capped_quoted rest le_rfl, scmMaxStringLen, hnat]
    rcases Nat.le_total body.length 65533 with hle | hge
    · refine ⟨body.length, .inl ⟨hle, rfl⟩, ?_⟩
      rw [min_eq_left (Nat.succ_le_succ hle), List.take_succ_cons]
    · refine ⟨65533, .inr ⟨hge, rfl⟩, ?_⟩
      rw [min_eq_right (Nat.succ_le_succ hge), List.take_succ_cons]
  have hbodybytes : ∀ c ∈ body, c.toNat < 240 := by
    intro c hc
    rcases List.mem_append.mp hc with hc | hc
    · exact hbytes c hc
    · rw [List.mem_singleton.mp hc]
      decide
  have hfirst : Text.at ('"'.toUInt8 :: (body ++ rest)) 0 ≠ 0 := by
    rw [at_cons_zero]
    decide
  have hstored : ∀ t, Stored ('"'.toUInt8 :: body.take k) t → behindQuote t = body.take k := by
    intro t ht
    cases ht with
    | plain _ _ => exact if_pos rfl
    | encoded hcps hbasic _ =>
      refine absurd (hcps.basic fun c hc => ?_) hbasic
      rcases List.mem_cons.mp hc with rfl | hc
      · decide
      · exact hbodybytes c (List.mem_of_mem_take hc)
  have hreads := hutf8.cases_of_begins ⟨by omega, hfirst⟩
  rw [hcapped] at hreads
  have hout : Restores fresh s storage rest ↔ r = body.length + 1 ∧ u = storage := by
    rw [Restores, hliteral, hs', hlength]
    constructor
    · rintro ⟨s'', heq, hcontent⟩
      obtain ⟨hr, rfl⟩ := Prod.mk.inj (Option.some.inj heq)
      refine ⟨?_, hholds.content_eq.symm.trans hcontent⟩
      split_ifs at hr
      omega
    · rintro ⟨hr, hu⟩
      refine ⟨s', ?_, hholds.content_eq.trans hu⟩
      rw [if_neg (by omega), hr, hbodylen]
      refine congrArg (fun n : ℤ => some (n, s')) ?_
      omega
  rw [hout]
  by_cases hfits : (wstringToString storage).length ≤ 65535
  · refine iff_of_true ?_ hfits
    -- at most the closing quote is cut off
    have hrest : ∃ tail, body.take k = escaped storage ++ tail ∧ unescape tail = some [] ∧
        ∃ l, Decodes tail l := by
      rcases Nat.lt_or_ge k body.length with hlt | hge
      · refine ⟨[], ?_, unescape_nil, [], .nil⟩
        obtain rfl : k = (escaped storage).length := by omega
        rw [hbody, List.take_left, List.append_nil]
      · refine ⟨['"'.toUInt8], ?_, unescape_stop (.inr rfl) [], _, decodes_ascii (by decide)⟩
        rw [List.take_of_length_le hge]
    obtain ⟨tail, htail, hend, l, hl⟩ := hrest
    have hvalid : ∃ cps, Decodes ('"'.toUInt8 :: body.take k) cps := by
      rw [htail]
      exact ⟨_, (decodes_ascii (c := '"'.toUInt8) (by decide)).append (hdecodes.append hl)⟩
    have hunescape : unescape (body.take k) = some storage := by
      rw [htail]
      exact unescape_escaped hnul hend
    rcases hreads with ⟨-, hcheck⟩ | ⟨t', ht', ⟨hplain, -, -⟩ | ⟨-, hr, hu⟩ | ⟨-, -, hu⟩⟩
    · exact absurd hvalid hcheck
    · cases hplain
    · rw [hstored t' ht', hunescape] at hu
      exact ⟨hr, (Option.some.inj hu).symm⟩
    · rw [hstored t' ht', hunescape] at hu
      cases hu
  · refine iff_of_false ?_ hfits
    rintro ⟨hr, hu⟩
    have hk' : k < (escaped storage).length := by omega
    obtain ⟨j, hj, hread⟩ := unescape_take_escaped hnul hk'
    have htake : body.take k = (escaped storage).take k :=
      List.take_append_of_le_length hk'.le
    rcases hreads with ⟨hminus, -⟩ | ⟨t', ht', ⟨hplain, -, -⟩ | ⟨-, -, hu'⟩ | ⟨-, hminus, -⟩⟩
    · omega
    · cases hplain
    · rw [hstored t' ht', htake, hread] at hu'
      have hcut := congrArg List.length ((Option.some.inj hu').trans hu)
      rw [List.length_take] at hcut
      omega
    · omega

/-- A text without its beginning up to the first quote of a literal. -/
theorem exists_typeName {paValue : Text} (h : (behindType paValue).at 0 = '"'.toUInt8) :
    ∃ front s, paValue = front ++ '"'.toUInt8 :: s ∧ TypeName front := by
  obtain ⟨s, hs⟩ : ∃ s, behindType paValue = '"'.toUInt8 :: s := by
    cases hbehind : behindType paValue with
    | nil =>
      rw [hbehind] at h
      exact absurd h (by decide)
    | cons c s =>
      rw [hbehind, at_cons_zero] at h
      exact ⟨s, by rw [h]⟩
  rw [behindType] at hs
  split_ifs at hs with hleading
  · obtain ⟨u, rfl⟩ := List.isPrefixOf_iff_prefix.mp hleading
    refine ⟨text "WSTRING#", s, ?_, .inr rfl⟩
    have hword : (text "WSTRING#").length = 8 := rfl
    rw [← hword, List.drop_left] at hs
    rw [hs]
  · exact ⟨[], s, hs, .inl rfl⟩

/-- A literal that is accepted has a closing quote. -/
theorem exists_quoted {fresh : ℕ → UInt8} {s : Storage} {t : Text} (h : s.Holds t)
    (ht : t.length ≤ scmMaxStringLen) {front u : Text} (hfront : TypeName front) {n : ℤ}
    {s' : Storage} (hread : fromString fresh (front ++ '"'.toUInt8 :: u) s = some (n, s'))
    (hn : 0 ≤ n) : ∃ body rest, u = body ++ rest ∧ WideQuoted body := by
  cases hclose : closingDelimiter '"'.toUInt8 u with
  | some k =>
    obtain ⟨body, rest, heq, hbody, -⟩ := quoted_of_closingDelimiter hclose
    exact ⟨body, rest, heq, hbody⟩
  | none =>
    obtain ⟨r, s'', v, hs', -, -, hutf8⟩ := fromString_spec fresh h ht
      (front ++ '"'.toUInt8 :: u)
    have hquote : decide (Text.at ('"'.toUInt8 :: u) 0 = '"'.toUInt8) = true := decide_eq_true rfl
    have hlen : srcLen ('"'.toUInt8 :: u) (-1) true = -1 := by
      have hfirst : ¬('"'.toUInt8 ≠ '"'.toUInt8) := not_not_intro rfl
      rw [srcLen, if_neg (by decide), if_pos rfl, determineEscapedStringLength, at_cons_zero,
        if_neg hfirst, List.drop_one, List.tail_cons, hclose]
    rw [behindType_append hfront, hquote, hlen] at hutf8
    have hr : r = -1 := by
      cases hutf8 with
      | unclosed _ => rfl
      | invalid _ _ => rfl
      | refused _ _ _ _ => rfl
      | empty hle _ => exact absurd hle (by decide)
      | plain hlt _ _ => exact absurd hlt.1 (by decide)
      | unescaped hlt _ _ _ => exact absurd hlt.1 (by decide)
    rw [hr, if_pos rfl] at hs'
    obtain ⟨rfl, -⟩ := Prod.mk.inj (Option.some.inj (hread.symm.trans hs'))
    exact absurd hn (by decide)

/-- **Literals of wide strings.** A string of characters of the basic plane is restored from its
literal, whatever comes behind it, exactly if the literal has no more than 65535 bytes. And a
literal in quotes that is accepted is read up to the first quote that is not escaped, as far as
an `int` can say, and what is read does not depend on what comes behind it. -/
theorem wideLiteral :
    (∀ cps : List ℕ, (∀ cp ∈ cps, IsBasicChar cp) → (utf8Text cps).length ≤ scmMaxStringLen →
      ∀ (fresh : ℕ → UInt8) (s : Storage) (t rest : Text), s.Holds t →
        t.length ≤ scmMaxStringLen →
          (Restores fresh s (utf8Text cps) rest ↔
            (wstringToString (utf8Text cps)).length ≤ 65535)) ∧
    (∀ (fresh : ℕ → UInt8) (s s' : Storage) (t paValue : Text) (n : ℤ), s.Holds t →
      t.length ≤ scmMaxStringLen → (behindType paValue).at 0 = '"'.toUInt8 →
        fromString fresh paValue s = some (n, s') → 0 ≤ n →
          ∃ front body rest, paValue = front ++ '"'.toUInt8 :: (body ++ rest) ∧
            TypeName front ∧ WideQuoted body ∧
            (body.length < 2 ^ 31 - 1 → n = (front ++ '"'.toUInt8 :: body).length) ∧
            ∀ rest', ∃ s'',
              fromString fresh (front ++ '"'.toUInt8 :: (body ++ rest')) s = some (n, s'') ∧
                s''.content = s'.content) := by
  refine ⟨fun cps hcps hlen fresh s t rest h ht => restores_iff hcps hlen h ht rest, ?_⟩
  intro fresh s s' t paValue n h ht hquote hread hn
  obtain ⟨front, u, rfl, hfront⟩ := exists_typeName hquote
  obtain ⟨body, rest, rfl, hbody⟩ := exists_quoted h ht hfront hread hn
  have hlocal := fun rest' => fromString_local h ht hfront hbody rest rest' hread hn
  exact ⟨front, body, rest, rfl, hfront, hbody, (hlocal []).1, fun rest' => (hlocal rest').2⟩

/-- A string with a quote and a letter of two bytes, with more quotes behind its literal. -/
theorem wideLiteral_quote :
    Restores (fun _ => 0) .null (utf8Text [34, 228]) (text "\"\"") := by
  have hnull : Storage.null.Holds [] := rfl
  exact (wideLiteral.1 [34, 228] (by decide) (by decide) _ _ [] _ hnull (by decide)).mpr
    (by decide)

theorem length_letters (n : ℕ) :
    (utf8Text (List.replicate n 97)).length = n ∧
      (escaped (utf8Text (List.replicate n 97))).length = n := by
  induction n with
  | zero => exact ⟨rfl, rfl⟩
  | succ n ih =>
    have hone : utf8Of 97 = [97] := rfl
    have hchar : dollarEscapeChar .wstring 97 = [97] := rfl
    rw [List.replicate_succ, utf8Text_cons, hone, List.singleton_append, escaped_cons, hchar,
      List.singleton_append, List.length_cons, List.length_cons, ih.1, ih.2]
    exact ⟨rfl, rfl⟩

/-- As many letters as a string can hold: two of them are cut off with the closing quote. -/
theorem not_restores_letters :
    ¬∀ cps : List ℕ, (∀ cp ∈ cps, IsBasicChar cp) → (utf8Text cps).length ≤ scmMaxStringLen →
      ∀ rest, Restores (fun _ => 0) .null (utf8Text cps) rest := by
  intro h
  obtain ⟨hbytes, hescaped⟩ := length_letters 65534
  have hcps : ∀ cp ∈ List.replicate 65534 97, IsBasicChar cp := by
    intro cp hcp
    rw [List.eq_of_mem_replicate hcp]
    decide
  have hlen : (utf8Text (List.replicate 65534 97)).length ≤ scmMaxStringLen := hbytes.le
  have hrestores := h _ hcps hlen []
  have hnull : Storage.null.Holds [] := rfl
  rw [restores_iff hcps hlen hnull (Nat.zero_le _), length_wstringToString, hescaped] at hrestores
  omega

end Forte.AnyString
