import Forte.Datatypes.WideStorage

/-!
# What is stored of a text

`CIEC_WSTRING::fromUTF8` checks the bytes it is given, as many as the maximum length allows, and
stores them as they are if they are UTF-8 of the basic plane. Of other UTF-8 it stores the
characters one by one. What it stores is said by the code points of the bytes
(`Forte.AnyString.Decodes`), and by what a literal is unescaped to
(`Forte.AnyString.fromUTF8_spec`).
-/

namespace Forte.AnyString

open StringFixed (cString resize)

/-! ### Code points of bytes -/

/-- **Bytes that are UTF-8**, and their code points. -/
inductive Decodes : Text → List ℕ → Prop
  | nil : Decodes [] []
  | cons {bs rest : Text} {v : ℕ} {cps : List ℕ}
      (hread : parseUTF8Codepoint (bs ++ rest) = some (bs.length, v)) (h : Decodes rest cps) :
      Decodes (bs ++ rest) (v :: cps)

/-- Reading a code point takes one byte to four, all of them from 128 on if there are several, and
it can be written with no more. -/
theorem parse_bounds {s : Text} {u v : ℕ} (h : parseUTF8Codepoint s = some (u, v)) :
    1 ≤ u ∧ (∀ i < u, byteAt s 0 ≠ 0 → byteAt s i ≠ 0) ∧
      (utf8Of (if 0x10000 ≤ v then '?'.toNat else v)).length ≤ u := by
  have hlength : ∀ n w, (w < 0x80 → 1 ≤ n) → (0x80 ≤ w → w < 0x800 → 2 ≤ n) →
      (0x800 ≤ w → w < 0x10000 → 3 ≤ n) → w < 0x10000 → (utf8Of w).length ≤ n := by
    intro n w h1 h2 h3 hw
    rw [utf8Of, encodeUTF8Codepoint]
    split_ifs with hone htwo
    · exact h1 hone
    · exact h2 (by omega) htwo
    · exact h3 (by omega) hw
  have hmark : '?'.toNat = 63 := rfl
  have hcont : ∀ i, IsContinuation (byteAt s i) → byteAt s i ≠ 0 := by
    intro i hi hzero
    rw [IsContinuation, hzero] at hi
    exact absurd hi (by decide)
  rw [parseUTF8Codepoint] at h
  split_ifs at h with hone htwo hc1 hthree hc2 hfour hc3
  · obtain ⟨rfl, rfl⟩ := Prod.mk.inj (Option.some.inj h)
    refine ⟨le_rfl, fun i hi hne => ?_, ?_⟩
    · obtain rfl : i = 0 := by omega
      exact hne
    · rw [if_neg (by omega)]
      exact hlength _ _ (fun _ => le_rfl) (by omega) (by omega) (by omega)
  · obtain ⟨rfl, rfl⟩ := Prod.mk.inj (Option.some.inj h)
    refine ⟨by decide, fun i hi hne => ?_, ?_⟩
    · obtain rfl | rfl : i = 0 ∨ i = 1 := by omega
      · exact hne
      · exact hcont 1 hc1
    · rw [if_neg (by omega)]
      exact hlength _ _ (by omega) (fun _ _ => le_rfl) (by omega) (by omega)
  · obtain ⟨rfl, rfl⟩ := Prod.mk.inj (Option.some.inj h)
    simp only [not_or, not_not] at hc2
    refine ⟨by decide, fun i hi hne => ?_, ?_⟩
    · obtain rfl | rfl | rfl : i = 0 ∨ i = 1 ∨ i = 2 := by omega
      · exact hne
      · exact hcont 1 hc2.1
      · exact hcont 2 hc2.2
    · rw [if_neg (by omega)]
      exact hlength _ _ (by omega) (by omega) (fun _ _ => le_rfl) (by omega)
  · obtain ⟨rfl, rfl⟩ := Prod.mk.inj (Option.some.inj h)
    simp only [not_or, not_not] at hc3
    refine ⟨by decide, fun i hi hne => ?_, ?_⟩
    · obtain rfl | rfl | rfl | rfl : i = 0 ∨ i = 1 ∨ i = 2 ∨ i = 3 := by omega
      · exact hne
      · exact hcont 1 hc3.1
      · exact hcont 2 hc3.2.1
      · exact hcont 3 hc3.2.2
    · split_ifs with hwide
      · exact hlength _ _ (by omega) (by omega) (by omega) (by omega)
      · exact hlength _ _ (by omega) (by omega) (by omega) (by omega)

/-- **Only the bytes of a code point are read**, where it is one. -/
theorem parse_congr {s s' : Text} {u v : ℕ} (h : parseUTF8Codepoint s = some (u, v))
    (hbytes : ∀ i < u, byteAt s' i = byteAt s i) : parseUTF8Codepoint s' = some (u, v) := by
  have hpos := (parse_bounds h).1
  have h0 := hbytes 0 (by omega)
  rw [parseUTF8Codepoint] at h ⊢
  rw [h0]
  split_ifs at h with hone htwo hc1 hthree hc2 hfour hc3
  · rw [if_pos hone]
    exact h
  · obtain ⟨rfl, -⟩ := Prod.mk.inj (Option.some.inj h)
    rw [if_neg hone, if_pos htwo, hbytes 1 (by decide), if_neg (not_not_intro hc1)]
    exact h
  · obtain ⟨rfl, -⟩ := Prod.mk.inj (Option.some.inj h)
    rw [if_neg hone, if_neg htwo, if_pos hthree, hbytes 1 (by decide), hbytes 2 (by decide),
      if_neg hc2]
    exact h
  · obtain ⟨rfl, -⟩ := Prod.mk.inj (Option.some.inj h)
    rw [if_neg hone, if_neg htwo, if_neg hthree, if_pos hfour, hbytes 1 (by decide),
      hbytes 2 (by decide), hbytes 3 (by decide), if_neg hc3]
    exact h

/-! ### The bytes behind a pointer -/

theorem byteAt_resize (s : Text) {i n : ℕ} (h : i < n) : byteAt (resize s n) i = byteAt s i := by
  rw [byteAt, byteAt, resize, List.getD_eq_getElem?_getD, List.getD_eq_getElem?_getD]
  rcases Nat.lt_or_ge i s.length with hlt | hge
  · rw [List.getElem?_append_left (by rw [List.length_take]; omega), List.getElem?_take_of_lt h]
  · rw [List.getElem?_append_right (by rw [List.length_take]; omega),
      List.getElem?_eq_none hge, List.length_take,
      List.getElem?_replicate_of_lt (by omega)]
    rfl

theorem drop_resize (s : Text) {n u : ℕ} (h : u ≤ n) :
    (resize s n).drop u = resize (s.drop u) (n - u) := by
  rw [resize, resize, List.drop_append, List.drop_take, List.length_take, List.drop_replicate,
    List.length_drop]
  refine congrArg (_ ++ List.replicate · 0) ?_
  omega

/-- What is read of the bytes behind a pointer is read of as many of them. -/
theorem parse_resize_iff {s : Text} {n u v : ℕ} (h : u ≤ n) :
    parseUTF8Codepoint (resize s n) = some (u, v) ↔ parseUTF8Codepoint s = some (u, v) := by
  constructor
  · intro hread
    exact parse_congr hread fun i hi => (byteAt_resize s (by omega)).symm
  · intro hread
    exact parse_congr hread fun i hi => byteAt_resize s (by omega)

/-- The bytes of a code point, and those behind it. -/
theorem resize_split {s : Text} {n u : ℕ} (h : u ≤ n) :
    ∃ bs, resize s n = bs ++ resize (s.drop u) (n - u) ∧ bs.length = u ∧
      ∀ i < u, byteAt s i = byteAt (bs ++ resize (s.drop u) (n - u)) i := by
  refine ⟨(resize s n).take u, ?_, ?_, fun i hi => ?_⟩
  · rw [← drop_resize s h, List.take_append_drop]
  · rw [List.length_take, StringFixed.length_resize, min_eq_left h]
  · rw [← drop_resize s h, List.take_append_drop]
    exact (byteAt_resize s (by omega)).symm

/-! ### The check -/

theorem decodes_nil_iff {cps : List ℕ} : Decodes [] cps ↔ cps = [] := by
  constructor
  · intro h
    generalize hs : ([] : Text) = s at h
    cases h with
    | nil => rfl
    | @cons bs rest v cps hread h =>
      obtain ⟨rfl, rfl⟩ := List.append_eq_nil_iff.mp hs.symm
      exact absurd (parse_bounds hread).1 (by decide)
  · rintro rfl
    exact .nil

/-- A code point of the bytes behind a pointer, and those of the rest. -/
theorem decodes_resize_iff {s : Text} {n : ℕ} {cps : List ℕ} :
    Decodes (resize s (n + 1)) cps ↔ ∃ u v cps', parseUTF8Codepoint s = some (u, v) ∧
      u ≤ n + 1 ∧ cps = v :: cps' ∧ Decodes (resize (s.drop u) (n + 1 - u)) cps' := by
  constructor
  · intro h
    have hlength := StringFixed.length_resize s (n + 1)
    generalize hs : resize s (n + 1) = t at h hlength
    cases h with
    | nil => cases hlength
    | @cons bs rest v cps hread h =>
      have hle : bs.length ≤ n + 1 := by
        rw [List.length_append] at hlength
        omega
      rw [← hs, parse_resize_iff hle] at hread
      refine ⟨bs.length, v, cps, hread, hle, rfl, ?_⟩
      rwa [← drop_resize s hle, hs, List.drop_left]
  · rintro ⟨u, v, cps', hread, hle, rfl, h⟩
    obtain ⟨bs, hsplit, rfl, hbytes⟩ := resize_split (s := s) hle
    rw [hsplit]
    exact .cons (parse_congr hread fun i hi => (hbytes i hi).symm) h

theorem checkUTF8Loop_iff {fuel n : ℕ} (hfuel : n ≤ fuel) {s : Text} {w w' : ℕ} :
    checkUTF8Loop fuel s n w = some w' ↔
      ∃ cps, Decodes (resize s n) cps ∧ w' = cps.foldl maxWidth w := by
  induction fuel generalizing s n w with
  | zero =>
    obtain rfl : n = 0 := by omega
    have hnil : resize s 0 = [] := readable_zero s
    simp only [checkUTF8Loop, hnil, decodes_nil_iff, exists_eq_left, List.foldl_nil,
      Option.some.injEq, eq_comm]
  | succ fuel ih =>
    cases n with
    | zero =>
      have hnil : resize s 0 = [] := readable_zero s
      simp only [checkUTF8Loop, hnil, decodes_nil_iff, exists_eq_left, List.foldl_nil,
        Option.some.injEq, eq_comm]
    | succ n =>
      simp only [decodes_resize_iff]
      rw [checkUTF8Loop]
      constructor
      · intro h
        split at h
        · cases h
        · rename_i u v hread
          split at h
          · cases h
          · rename_i hle
            have hpos := (parse_bounds hread).1
            obtain ⟨cps, hcps, rfl⟩ := (ih (by omega)).mp h
            exact ⟨_, ⟨u, v, cps, hread, by omega, rfl, hcps⟩, rfl⟩
      · rintro ⟨_, ⟨u, v, cps, hread, hle, rfl, hcps⟩, rfl⟩
        have hpos := (parse_bounds hread).1
        rw [hread]
        dsimp only
        rw [if_neg (by omega)]
        exact (ih (by omega)).mpr ⟨cps, hcps, rfl⟩

/-- **Bytes pass the check** if they are UTF-8. -/
theorem checkUTF8_iff {s : Text} {n w : ℕ} :
    checkUTF8 s n = some w ↔ ∃ cps, Decodes (readable s n) cps ∧ w = cps.foldl maxWidth 7 :=
  checkUTF8Loop_iff le_rfl

/-- What is in the basic plane, or is a byte order mark. -/
def Basic (cp : ℕ) : Prop := cp = scmBOMMarker ∨ cp < 0x10000

instance (cp : ℕ) : Decidable (Basic cp) := inferInstanceAs (Decidable (_ ∨ _))

theorem maxWidth_le_iff {w cp : ℕ} : maxWidth w cp ≤ 16 ↔ w ≤ 16 ∧ Basic cp := by
  rw [maxWidth, Basic]
  split_ifs <;> omega

theorem foldl_maxWidth_le_iff {cps : List ℕ} {w : ℕ} :
    cps.foldl maxWidth w ≤ 16 ↔ w ≤ 16 ∧ ∀ cp ∈ cps, Basic cp := by
  induction cps generalizing w with
  | nil => exact ⟨fun h => ⟨h, fun _ hcp => absurd hcp List.not_mem_nil⟩, And.left⟩
  | cons cp cps ih => rw [List.foldl_cons, ih, maxWidth_le_iff, List.forall_mem_cons, and_assoc]

/-! ### Characters that are stored one by one -/

/-- A character outside of the basic plane becomes a question mark. -/
def toBasic (cp : ℕ) : ℕ := if 0x10000 ≤ cp then '?'.toNat else cp

/-- **What is stored of code points** some of which are outside of the basic plane. -/
def basicText (cps : List ℕ) : Text := utf8Text ((dropBOM cps).map toBasic)

theorem toBasic_lt (cp : ℕ) : toBasic cp < 0x10000 := by
  rw [toBasic]
  split
  · decide
  · omega

theorem basicText_cons_mark (cps : List ℕ) :
    basicText (scmBOMMarker :: cps) = basicText cps := by
  rw [basicText, dropBOM, List.filter_cons_of_neg (by simp)]
  rfl

theorem basicText_cons {cp : ℕ} (h : cp ≠ scmBOMMarker) (cps : List ℕ) :
    basicText (cp :: cps) = utf8Of (toBasic cp) ++ basicText cps := by
  rw [basicText, dropBOM, List.filter_cons_of_pos (by simpa using h)]
  rfl

/-- **The loop stores one character after the other**, up to the first zero byte. -/
theorem encodeLoop_spec {fuel capped n written : ℕ} {s value : Text} {cps : List ℕ}
    (hfuel : n < fuel) (hcheck : Decodes (resize s n) cps) (hroom : written + n ≤ capped)
    (hvalue : capped < value.length) :
    ∃ cps' value', Decodes (cString (resize s n)) cps' ∧
      encodeLoop capped fuel s n value written =
        some (value', written + (basicText cps').length) ∧
      value'.length = value.length ∧
      value'.take (written + (basicText cps').length) = value.take written ++ basicText cps' ∧
      written + (basicText cps').length ≤ capped := by
  induction fuel generalizing n written s value cps with
  | zero => omega
  | succ fuel ih =>
    by_cases hend : s.at 0 = 0 ∨ n = 0
    · have hnil : cString (resize s n) = [] := by
        cases n with
        | zero => rw [resize, List.take_zero, Nat.zero_sub]; rfl
        | succ n =>
          have hzero := hend.resolve_right (Nat.succ_ne_zero n)
          cases s with
          | nil => rfl
          | cons c s =>
            have hc : c = 0 := hzero
            rw [hc, resize, List.take_succ_cons]
            rfl
      refine ⟨[], value, hnil ▸ .nil, ?_, rfl, ?_, ?_⟩
      · rw [encodeLoop, if_pos hend]
        rfl
      · exact (List.append_nil _).symm
      · exact Nat.le_of_add_right_le hroom
    · obtain ⟨hfirst, hpos⟩ := not_or.mp hend
      obtain ⟨n, rfl⟩ := Nat.exists_eq_succ_of_ne_zero hpos
      obtain ⟨u, v, cps, hread, hle, rfl, hrest⟩ := decodes_resize_iff.mp hcheck
      obtain ⟨hu, hnul, hlength⟩ := parse_bounds hread
      obtain ⟨bs, hsplit, hbs, hbytes⟩ := resize_split (s := s) hle
      have hfirst' : byteAt s 0 ≠ 0 := fun h => hfirst (UInt8.toNat_inj.mp h)
      -- the bytes of the character are no zeros
      have hchars : ∀ c ∈ bs, decide (c ≠ 0) = true := by
        intro c hc
        obtain ⟨i, hi, rfl⟩ := List.mem_iff_getElem.mp hc
        have hbyte := hnul i (hbs ▸ hi) hfirst'
        rw [hbytes i (hbs ▸ hi), byteAt, List.getD_eq_getElem?_getD,
          List.getElem?_append_left hi, List.getElem?_eq_getElem hi, Option.getD_some] at hbyte
        exact decide_eq_true fun h => hbyte (congrArg UInt8.toNat h)
      have hcString : cString (resize s (n + 1)) =
          bs ++ cString (resize (s.drop u) (n + 1 - u)) := by
        rw [hsplit, cString, List.takeWhile_append_of_pos hchars]
        rfl
      have hcons {cps' : List ℕ} (h : Decodes (cString (resize (s.drop u) (n + 1 - u))) cps') :
          Decodes (cString (resize s (n + 1))) (v :: cps') := by
        have hread' : parseUTF8Codepoint s = some (bs.length, v) := hbs.symm ▸ hread
        rw [hcString]
        refine .cons (parse_congr hread' fun i hi => ?_) h
        rw [hbytes i (hbs ▸ hi), byteAt, byteAt, List.getD_eq_getElem?_getD,
          List.getD_eq_getElem?_getD, List.getElem?_append_left (by omega),
          List.getElem?_append_left (by omega)]
      rw [encodeLoop, if_neg hend, hread]
      dsimp only
      by_cases hmark : v = scmBOMMarker
      · rw [if_pos hmark]
        obtain ⟨cps', value', hcps', hloop, hsame, htake, hbound⟩ :=
          ih (by omega) hrest (by omega : written + (n + 1 - u) ≤ capped) hvalue
        refine ⟨v :: cps', value', hcons hcps', ?_⟩
        rw [hmark, basicText_cons_mark]
        exact ⟨hloop, hsame, htake, hbound⟩
      · have hlt := toBasic_lt v
        have hwidth : (utf8Of (toBasic v)).length ≤ u := hlength
        have hencode : encodeUTF8Into (capped - written)
            (if 0x10000 ≤ v then '?'.toNat else v) = some (utf8Of (toBasic v)) := by
          rw [← toBasic, encodeUTF8Into_of_lt (by omega)]
          exact if_pos (by omega)
        obtain ⟨w, hw⟩ : ∃ w, overwrite value written (utf8Of (toBasic v)) = some w :=
          ⟨_, overwrite_of_le (by omega)⟩
        obtain ⟨cps', value', hcps', hloop, hsame, htake, hbound⟩ :=
          ih (by omega) hrest
            (by omega : written + (utf8Of (toBasic v)).length + (n + 1 - u) ≤ capped)
            (hvalue.trans_eq (length_of_overwrite hw).symm)
        refine ⟨v :: cps', value', hcons hcps', ?_⟩
        rw [if_neg hmark, hencode, basicText_cons hmark, List.length_append, ← Nat.add_assoc]
        dsimp only
        rw [hw, Option.bind_some]
        refine ⟨hloop, hsame.trans (length_of_overwrite hw), ?_, hbound⟩
        rw [htake, take_of_overwrite hw, List.append_assoc]

/-! ### What is stored -/

/-- **What is stored of bytes** that are UTF-8: the bytes, or if there are characters outside of
the basic plane what can be said of the characters in front of the first zero. -/
inductive Stored (source : Text) : Text → Prop
  | plain {cps : List ℕ} (h : Decodes source cps) (hbasic : ∀ cp ∈ cps, Basic cp) :
      Stored source source
  | encoded {cps cps' : List ℕ} (h : Decodes source cps) (hbasic : ¬∀ cp ∈ cps, Basic cp)
      (h' : Decodes (cString source) cps') : Stored source (basicText cps')

/-- The bytes `fromUTF8` looks at: no more than the maximum length. -/
def capped (paValue : Text) (nSrcLen : ℤ) : Text :=
  readable paValue (min nSrcLen.toNat scmMaxStringLen)

/-- **What `fromUTF8` reads** of a text of some length into an object that holds another one: what
it returns, and the text that is held then. A text that is too long is read as far as the maximum
length. -/
inductive ReadsUTF8 (paValue : Text) (nSrcLen : ℤ) (paUnescape : Bool) (old : Text) :
    ℤ → Text → Prop
  /-- There is no closing quote. -/
  | unclosed (h : nSrcLen < 0) : ReadsUTF8 paValue nSrcLen paUnescape old nSrcLen old
  | empty (h : 0 ≤ nSrcLen) (hempty : paValue.at 0 = 0 ∨ nSrcLen = 0) :
      ReadsUTF8 paValue nSrcLen paUnescape old 0 []
  | invalid (h : 0 < nSrcLen ∧ paValue.at 0 ≠ 0)
      (hcheck : ¬∃ cps, Decodes (capped paValue nSrcLen) cps) :
      ReadsUTF8 paValue nSrcLen paUnescape old (-1) (text "***INVALID UTF-8***")
  | plain {t : Text} (h : 0 < nSrcLen ∧ paValue.at 0 ≠ 0) (hescape : paUnescape = false)
      (hstored : Stored (capped paValue nSrcLen) t) :
      ReadsUTF8 paValue nSrcLen paUnescape old nSrcLen t
  | unescaped {t u : Text} (h : 0 < nSrcLen ∧ paValue.at 0 ≠ 0) (hescape : paUnescape = true)
      (hstored : Stored (capped paValue nSrcLen) t) (hread : unescape (behindQuote t) = some u) :
      ReadsUTF8 paValue nSrcLen paUnescape old nSrcLen u
  /-- An escape is refused when some of the text has been unescaped. -/
  | refused {t u : Text} (h : 0 < nSrcLen ∧ paValue.at 0 ≠ 0) (hescape : paUnescape = true)
      (hstored : Stored (capped paValue nSrcLen) t) (hread : unescape (behindQuote t) = none) :
      ReadsUTF8 paValue nSrcLen paUnescape old (-1) u

/-- The length of the text that is given to `fromUTF8`, in an `int`. -/
def srcLen (paValue : Text) (paLen : ℤ) (paUnescape : Bool) : ℤ :=
  if 0 ≤ paLen then paLen
  else if paUnescape then determineEscapedStringLength paValue '"'.toUInt8
  else asInt (cString paValue).length

section Specs

variable (fresh : ℕ → UInt8) {s : Storage} {t : Text}

theorem storeUTF8_spec {paValue : Text} {capacity n : ℕ} {value : List UInt8} {cps : List ℕ}
    (h : (Storage.block t.length capacity value).Holds t) (hroom : n ≤ capacity)
    (hn : n ≤ scmMaxStringLen) (hcheck : Decodes (readable paValue n) cps) :
    ∃ s' u, storeUTF8 fresh paValue n (cps.foldl maxWidth 7) (.block t.length capacity value) =
        some s' ∧
      s'.Holds u ∧ u.length ≤ n ∧ Stored (readable paValue n) u := by
  rw [scmMaxStringLen] at hn
  rw [storeUTF8]
  by_cases hbasic : ∀ cp ∈ cps, Basic cp
  · rw [if_pos (foldl_maxWidth_le_iff.mpr ⟨by decide, hbasic⟩)]
    obtain ⟨s', hs', hholds⟩ := assign_spec fresh h paValue (by omega : n < 65536)
    exact ⟨s', _, hs', hholds, (length_readable paValue n).le, .plain hcheck hbasic⟩
  · rw [if_neg fun hle => hbasic (foldl_maxWidth_le_iff.mp hle).2]
    obtain ⟨hvalue, hcapacity, -, -⟩ := h.sized
    obtain ⟨cps', value', hcps', hloop, hsame, htake, hbound⟩ := encodeLoop_spec
      (Nat.lt_succ_self n) hcheck (Nat.zero_add n).le (by omega : n < value.length)
    rw [Nat.zero_add, List.take_zero, List.nil_append] at htake
    rw [Nat.zero_add] at hbound hloop
    obtain ⟨s', hs', hholds, -⟩ := Storage.terminate_holds t.length
      (k := (basicText cps').length) (hsame.trans hvalue) hcapacity (by omega)
    refine ⟨s', basicText cps', ?_, htake ▸ hholds, hbound, .encoded hcheck hbasic hcps'⟩
    change (encodeLoop n (n + 1) paValue n value 0).bind _ = some s'
    rw [hloop, Option.bind_some]
    exact hs'

theorem fromCharString_spec (h : s.Holds t) (paValue : Text) :
    ∃ s', fromCharString fresh paValue s = some s' ∧
      s'.Holds (readable paValue (min (cString paValue).length scmMaxStringLen)) := by
  refine assign_spec fresh h paValue ?_
  have hmax := Nat.min_le_right (cString paValue).length scmMaxStringLen
  rw [scmMaxStringLen] at hmax ⊢
  omega

/-- **What `fromUTF8` does.** -/
theorem fromUTF8_spec (h : s.Holds t) (ht : t.length ≤ scmMaxStringLen) (paValue : Text)
    (paLen : ℤ) (paUnescape : Bool) :
    ∃ nRetVal s' u, fromUTF8 fresh paValue paLen paUnescape s = some (nRetVal, s') ∧
      s'.Holds u ∧ u.length ≤ scmMaxStringLen ∧
        ReadsUTF8 paValue (srcLen paValue paLen paUnescape) paUnescape t nRetVal u := by
  rw [fromUTF8]
  dsimp only
  rw [← srcLen]
  generalize srcLen paValue paLen paUnescape = nSrcLen
  by_cases hneg : nSrcLen < 0
  · rw [if_pos hneg]
    exact ⟨nSrcLen, s, t, rfl, h, ht, .unclosed hneg⟩
  rw [if_neg hneg]
  by_cases hempty : paValue.at 0 = 0 ∨ nSrcLen = 0
  · rw [if_pos hempty]
    obtain ⟨s', hs', hholds⟩ := assign_spec fresh h [] (by decide : 0 < 65536)
    rw [readable_zero] at hholds
    rw [hs']
    exact ⟨0, s', [], rfl, hholds, Nat.zero_le _, .empty (not_lt.mp hneg) hempty⟩
  · rw [if_neg hempty]
    have hpos : 0 < nSrcLen ∧ paValue.at 0 ≠ 0 := by
      obtain ⟨hfirst, hzero⟩ := not_or.mp hempty
      exact ⟨lt_of_le_of_ne (not_lt.mp hneg) (Ne.symm hzero), hfirst⟩
    have hmax : min nSrcLen.toNat scmMaxStringLen ≤ scmMaxStringLen := min_le_right _ _
    obtain ⟨capacity, value, hreserve, hblock, hroom⟩ := reserve_spec fresh h
      (k := min nSrcLen.toNat scmMaxStringLen) (by rw [scmMaxStringLen] at hmax ⊢; omega)
    rw [hreserve, Option.bind_some]
    cases hcheck : checkUTF8 paValue (min nSrcLen.toNat scmMaxStringLen) with
    | none =>
      obtain ⟨s', hs', hholds⟩ := fromCharString_spec fresh hblock
        (text "***INVALID UTF-8***")
      dsimp only
      rw [hs']
      refine ⟨-1, s', _, rfl, hholds, by decide, .invalid hpos ?_⟩
      rintro ⟨cps, hcps⟩
      cases hcheck.symm.trans (checkUTF8_iff.mpr ⟨cps, hcps, rfl⟩)
    | some nMaxWidth =>
      obtain ⟨cps, hcps, rfl⟩ := checkUTF8_iff.mp hcheck
      obtain ⟨s', u, hs', hholds, hlength, hstored⟩ := storeUTF8_spec fresh hblock hroom
        hmax hcps
      dsimp only
      rw [hs', Option.bind_some]
      cases paUnescape with
      | false =>
        exact ⟨nSrcLen, s', u, rfl, hholds, hlength.trans hmax, .plain hpos rfl hstored⟩
      | true =>
        obtain ⟨s'', u', hs'', hholds', hle, hresult⟩ :=
          unescapeFromString_spec hholds (hlength.trans hmax)
        rw [if_pos rfl, hs'']
        cases hread : unescape (behindQuote u) with
        | none =>
          exact ⟨-1, s'', u', rfl, hholds', hle.trans (hlength.trans hmax),
            .refused hpos rfl hstored hread⟩
        | some w =>
          obtain rfl := hresult w hread
          exact ⟨nSrcLen, s'', u', rfl, hholds', hle.trans (hlength.trans hmax),
            .unescaped hpos rfl hstored hread⟩

/-- The literal without the name of its type. -/
def behindType (paValue : Text) : Text :=
  if (text "WSTRING#").isPrefixOf paValue then paValue.drop 8 else paValue

/-- **What `fromString` does**: a text that begins with a quote, which may have the name of the
type in front, is a literal. -/
theorem fromString_spec (h : s.Holds t) (ht : t.length ≤ scmMaxStringLen) (paValue : Text) :
    ∃ nUTF8Result s' u, fromString fresh paValue s =
        some (if nUTF8Result = -1 then -1
          else (paValue.length : ℤ) - (behindType paValue).length + nUTF8Result, s') ∧
      s'.Holds u ∧ u.length ≤ scmMaxStringLen ∧
        ReadsUTF8 (behindType paValue)
          (srcLen (behindType paValue) (-1) ((behindType paValue).at 0 = '"'.toUInt8))
          ((behindType paValue).at 0 = '"'.toUInt8) t nUTF8Result u := by
  obtain ⟨nUTF8Result, s', u, hs', hholds, hu, hread⟩ := fromUTF8_spec fresh h ht
    (behindType paValue) (-1) ((behindType paValue).at 0 = '"'.toUInt8)
  have hprefix : (if (text "WSTRING#").isPrefixOf paValue then 8 else 0 : ℤ) =
      (paValue.length : ℤ) - (behindType paValue).length := by
    rw [behindType]
    split_ifs with hleading
    · have hle := (List.isPrefixOf_iff_prefix.mp hleading).length_le
      have hword : (text "WSTRING#").length = 8 := rfl
      rw [List.length_drop]
      omega
    · exact (sub_self _).symm
  refine ⟨nUTF8Result, s', u, ?_, hholds, hu, hread⟩
  rw [fromString]
  dsimp only
  rw [← behindType, hs', hprefix]
  rfl

/-- **What `func_CONCAT` does**, if 16 bits can say how long the two texts are. -/
theorem concat_spec {s₁ s₂ : Storage} {t₁ t₂ : Text} (h₁ : s₁.Holds t₁) (h₂ : s₂.Holds t₂)
    (hlen : t₁.length + t₂.length < 65536) :
    ∃ s', concat fresh s₁ s₂ = some s' ∧ s'.Holds (t₁ ++ t₂) := by
  have hnull : Storage.null.Holds [] := rfl
  obtain ⟨temp, htemp, hholds⟩ := assign_spec fresh hnull s₁.getValue
    (by omega : t₁.length < 65536)
  rw [h₁.readable_eq] at hholds
  obtain ⟨capacity, value, hreserve, hblock, -⟩ := reserve_spec fresh hholds hlen
  obtain ⟨s', hs', hholds'⟩ := append_spec fresh hblock s₂.getValue hlen
  rw [h₂.readable_eq] at hholds'
  refine ⟨s', ?_, hholds'⟩
  rw [concat, h₁.length_eq, h₂.length_eq, htemp, Option.bind_some, Nat.mod_eq_of_lt hlen, hreserve,
    Option.bind_some, hs']

end Specs

/-! ### From UTF-16 -/

/-- **What `fromUTF16` reads** of a buffer into an object that holds a text: whether it is
accepted, and the text that is held then. -/
inductive ReadsUTF16 (paBuffer : List UInt8) (old : Text) : Bool → Text → Prop
  /-- The buffer is no UTF-16, or has more text than can be held. -/
  | refused (h : ∀ cps, paBuffer.length % 2 = 0 → CodePoints (wordsOf paBuffer) cps →
      scmMaxStringLen < (utf8Text cps).length) : ReadsUTF16 paBuffer old false old
  | stored {cps : List ℕ} (heven : paBuffer.length % 2 = 0)
      (h : CodePoints (wordsOf paBuffer) cps) (hlen : (utf8Text cps).length ≤ scmMaxStringLen) :
      ReadsUTF16 paBuffer old true (utf8Text cps)

/-- The bytes in UTF-8 are counted as they are, or there are too many of them in the count as
well. -/
def Counted (paBuffer : List UInt8) : Prop :=
  ∀ cps, CodePoints (wordsOf paBuffer) cps →
    (utf8Text cps).length ≤ scmMaxStringLen ∨ scmMaxStringLen < unsignedInt (utf8Text cps).length

/-- What the passes come to for a buffer that is counted as it is. -/
theorem fromUTF16Passes_cases {paBuffer : List UInt8} (h : Counted paBuffer) :
    (∃ cps, paBuffer.length % 2 = 0 ∧ CodePoints (wordsOf paBuffer) cps ∧
      (utf8Text cps).length ≤ scmMaxStringLen ∧
        fromUTF16Passes paBuffer = .ok (utf8Text cps)) ∨
    ((∀ cps, paBuffer.length % 2 = 0 → CodePoints (wordsOf paBuffer) cps →
      scmMaxStringLen < (utf8Text cps).length) ∧
        ∃ e, e ≠ Fault.noRoom ∧ fromUTF16Passes paBuffer = .error e) := by
  by_cases hodd : paBuffer.length % 2 = 1
  · refine .inr ⟨fun cps heven => absurd heven (by omega), .refused, by simp, ?_⟩
    have hdemand : demand Fault.refused (paBuffer.length % 2 = 0) = .error .refused :=
      if_neg (by omega)
    rw [fromUTF16Passes, if_neg (by omega)]
    simp only [bind, Except.bind, hdemand]
  have heven : paBuffer.length % 2 = 0 := by omega
  have hbody := length_bodyUTF16_even heven
  have hpasses := fromUTF16Passes_eq heven
  rcases codePoints_or_broken_or_cut (wordsOf paBuffer) with ⟨cps, hcps⟩ | hbroken | hcut
  · have hdecode := decode_codePoints hcps rfl hbody le_rfl
    have hstore := hpasses.trans (storePasses_of_ok hdecode)
    by_cases hcount : scmMaxStringLen < unsignedInt (utf8Text cps).length
    · rw [if_pos hcount] at hstore
      refine .inr ⟨fun cps' _ hcps' => ?_, .refused, by simp, hstore⟩
      rw [← decode_eq_of_codePoints hbody hcps' hdecode] at hcount
      exact hcount.trans_le (Nat.mod_le _ _)
    · have hlen := (h cps hcps).resolve_right hcount
      rw [if_neg hcount, if_pos hlen] at hstore
      exact .inl ⟨cps, heven, hcps, hlen, hstore⟩
  · have hdecode := decode_broken hbroken rfl hbody le_rfl
    refine .inr ⟨fun cps _ hcps => ?_, .refused, by simp,
      hpasses.trans (storePasses_of_error hdecode)⟩
    cases hdecode.symm.trans (decode_codePoints hcps rfl hbody le_rfl)
  · have hdecode := decode_cut hcut rfl hbody le_rfl
    refine .inr ⟨fun cps _ hcps => ?_, .outside, by simp,
      hpasses.trans (storePasses_of_error hdecode)⟩
    cases hdecode.symm.trans (decode_codePoints hcps rfl hbody le_rfl)

/-- **What `fromUTF16` does** with a buffer that is counted as it is. -/
theorem fromUTF16_spec (fresh : ℕ → UInt8) {s : Storage} {t : Text} (h : s.Holds t)
    (ht : t.length ≤ scmMaxStringLen) {paBuffer : List UInt8} (hcount : Counted paBuffer) :
    ∃ done s' u, fromUTF16 fresh paBuffer s = some (done, s') ∧ s'.Holds u ∧
      u.length ≤ scmMaxStringLen ∧ ReadsUTF16 paBuffer t done u := by
  rw [fromUTF16]
  split_ifs with hempty
  · obtain rfl := List.length_eq_zero_iff.mp hempty
    obtain ⟨s', hs', hholds⟩ := assign_spec fresh h [] (by decide : 0 < 65536)
    rw [readable_zero] at hholds
    rw [hs']
    have hnil : CodePoints (wordsOf []) [] := .nil
    exact ⟨true, s', [], rfl, hholds, Nat.zero_le _, .stored rfl hnil (Nat.zero_le _)⟩
  · rcases fromUTF16Passes_cases hcount with
      ⟨cps, heven, hcps, hlen, hpasses⟩ | ⟨hrefused, e, hroom, hpasses⟩
    · rw [hpasses]
      dsimp only
      have hlen' : (utf8Text cps).length < 65536 := by
        rw [scmMaxStringLen] at hlen
        omega
      obtain ⟨capacity, value, hreserve, hblock, hle⟩ := reserve_spec fresh h hlen'
      obtain ⟨hvalue, hcapacity, -, -⟩ := hblock.sized
      obtain ⟨s', hs', hholds, -⟩ := Storage.write_holds t.length 0 (utf8Text cps)
        hvalue hcapacity (by rw [Nat.zero_add]; exact hle)
      rw [Nat.zero_add] at hs'
      refine ⟨true, s', utf8Text cps, ?_, hholds, hlen, .stored heven hcps hlen⟩
      rw [hreserve, Option.bind_some, hs']
      rfl
    · refine ⟨false, s, t, ?_, h, ht, .refused hrefused⟩
      rw [hpasses]
      cases e with
      | noRoom => exact absurd rfl hroom
      | outside => rfl
      | refused => rfl

end Forte.AnyString
