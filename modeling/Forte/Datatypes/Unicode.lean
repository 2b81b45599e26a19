import Mathlib.Data.List.Basic
import Mathlib.Tactic.Ring

/-!
# Texts of a `WSTRING`

A `WSTRING` keeps its text as UTF-8 and crosses the wire as UTF-16. This file
follows `CUnicodeUtilities` and the two conversions of `CIEC_WSTRING`, and proves
what a text goes through on the way.

Masks and shifts of the source are written here as remainders and quotients of
natural numbers: `b & 0x3f` is `b % 64`, the test `(b & 0xc0) == 0x80` is
`b / 64 = 2`, and `0x80 | (v & 0x3f)` is `0x80 + v % 64`.

Two readings of the source look behind the bytes they were given, and neither can
change a result. `parseUTF8Codepoint` meets the `'\0'` every string is closed with
and refuses it as a continuation byte. `parseUTF16Codepoint` may look behind a
trailing high surrogate; `fromUTF16` fails then, whatever it finds there. In both
cases the model reads a zero (`Forte.byteAt`).

The main result, `Forte.fromUTF16_toUTF16`, says that a text of Unicode scalar values
comes back without its byte order marks, as long as it does not start with the
noncharacter `U+FFFE`, which the receiver takes for a mark of the other byte order.
-/

namespace Forte

/-- The byte at a place, and the terminating zero behind the text. -/
def byteAt (bs : List UInt8) (i : ℕ) : ℕ := (bs.getD i 0).toNat

/-! ### `CUnicodeUtilities` -/

/-- `CUnicodeUtilities::scmBOMMarker`. -/
def scmBOMMarker : ℕ := 0xfeff

/-- `CUnicodeUtilities::scmBOMMarkerSwapped`. -/
def scmBOMMarkerSwapped : ℕ := 0xfffe

/-- The longest text a string type holds, `CIEC_ANY_STRING::scmMaxStringLen`. -/
def scmMaxStringLen : ℕ := 65534

/-- A continuation byte of UTF-8. -/
def IsContinuation (b : ℕ) : Prop := b / 64 = 2

instance (b : ℕ) : Decidable (IsContinuation b) := inferInstanceAs (Decidable (b / 64 = 2))

/-- Read one UTF-8 code point: how many bytes it takes, and its value. -/
def parseUTF8Codepoint (bs : List UInt8) : Option (ℕ × ℕ) :=
  let b := byteAt bs
  if b 0 < 0x80 then
    some (1, b 0)
  else if b 0 / 32 = 6 then
    if ¬IsContinuation (b 1) then none
    else some (2, b 0 % 32 * 64 + b 1 % 64)
  else if b 0 / 16 = 14 then
    if ¬IsContinuation (b 1) ∨ ¬IsContinuation (b 2) then none
    else some (3, b 0 % 16 * 4096 + b 1 % 64 * 64 + b 2 % 64)
  else if b 0 / 8 = 30 then
    if ¬IsContinuation (b 1) ∨ ¬IsContinuation (b 2) ∨ ¬IsContinuation (b 3) then none
    else some (4, b 0 % 8 * 262144 + b 1 % 64 * 4096 + b 2 % 64 * 64 + b 3 % 64)
  else
    none

/-- Write one code point as UTF-8. -/
def encodeUTF8Codepoint (value : ℕ) : Option (List UInt8) :=
  if value < 0x80 then
    some [UInt8.ofNat value]
  else if value < 0x800 then
    some [UInt8.ofNat (0xc0 + value / 64 % 32), UInt8.ofNat (0x80 + value % 64)]
  else if value < 0x10000 then
    some [UInt8.ofNat (0xe0 + value / 4096 % 32), UInt8.ofNat (0x80 + value / 64 % 64),
      UInt8.ofNat (0x80 + value % 64)]
  else if value < 0x110000 then
    some [UInt8.ofNat (0xf0 + value / 262144 % 8), UInt8.ofNat (0x80 + value / 4096 % 64),
      UInt8.ofNat (0x80 + value / 64 % 64), UInt8.ofNat (0x80 + value % 64)]
  else
    none

/-- The 16-bit word at a place, in the byte order asked for. -/
def wordAt (bs : List UInt8) (i : ℕ) (littleEndian : Bool) : ℕ :=
  if littleEndian then byteAt bs i + byteAt bs (i + 1) * 256
  else byteAt bs i * 256 + byteAt bs (i + 1)

/-- Read one UTF-16 code point: how many bytes it takes, and its value. -/
def parseUTF16Codepoint (bs : List UInt8) (littleEndian : Bool) : Option (ℕ × ℕ) :=
  let first := wordAt bs 0 littleEndian
  if first / 1024 = 54 then
    let second := wordAt bs 2 littleEndian
    if second / 1024 ≠ 55 then none
    else some (4, 0x10000 + (first % 1024 * 1024 + second % 1024))
  else
    some (2, first)

/-- A 16-bit word as two bytes. -/
def wordBytes (word : ℕ) (littleEndian : Bool) : List UInt8 :=
  if littleEndian then [UInt8.ofNat (word % 256), UInt8.ofNat (word / 256 % 256)]
  else [UInt8.ofNat (word / 256 % 256), UInt8.ofNat (word % 256)]

/-- Write one code point as UTF-16; the surrogates themselves are refused. -/
def encodeUTF16Codepoint (value : ℕ) (littleEndian : Bool) : Option (List UInt8) :=
  if (0xd800 ≤ value ∧ value < 0xe000) ∨ 0x110000 ≤ value then
    none
  else if value < 0x10000 then
    some (wordBytes value littleEndian)
  else
    some (wordBytes (0xd800 + (value - 0x10000) / 1024 % 1024) littleEndian ++
      wordBytes (0xdc00 + (value - 0x10000) % 1024) littleEndian)

/-! ### The conversions of `CIEC_WSTRING` -/

/-- The loop of `toUTF16`. The fuel is the number of bytes left; every code point
takes one at least. -/
def toUTF16Loop : ℕ → List UInt8 → Option (List UInt8)
  | _, [] => some []
  | 0, _ :: _ => none
  | fuel + 1, b :: bs => do
      let (used, codepoint) ← parseUTF8Codepoint (b :: bs)
      if (b :: bs).length < used then none
      else
        -- the byte order mark is skipped
        let word ← if codepoint = scmBOMMarker then some []
          else encodeUTF16Codepoint codepoint false
        let words ← toUTF16Loop fuel ((b :: bs).drop used)
        pure (word ++ words)

/-- `CIEC_WSTRING::toUTF16`: the stored UTF-8 text as big-endian UTF-16. `none` is
the error return; whether the result fits the buffer is asked by the caller. -/
def toUTF16 (storage : List UInt8) : Option (List UInt8) :=
  toUTF16Loop storage.length storage

/-- The loop of `fromUTF16`. -/
def fromUTF16Loop (littleEndian : Bool) : ℕ → List UInt8 → Option (List UInt8)
  | _, [] => some []
  | 0, _ :: _ => none
  | fuel + 1, b :: bs => do
      let (used, codepoint) ← parseUTF16Codepoint (b :: bs) littleEndian
      if (b :: bs).length < used then none
      else
        let bytes ← encodeUTF8Codepoint codepoint
        let rest ← fromUTF16Loop littleEndian fuel ((b :: bs).drop used)
        pure (bytes ++ rest)

/-- `CIEC_WSTRING::fromUTF16`: the UTF-8 text of a UTF-16 buffer, whose first word may
be a byte order mark. `none` is the return value `false`. -/
def fromUTF16 (buffer : List UInt8) : Option (List UInt8) :=
  if buffer.length = 0 then some []
  else if buffer.length % 2 = 1 then none
  else do
    let (used, codepoint) ← parseUTF16Codepoint buffer false
    let (littleEndian, rest) :=
      if used = 2 ∧ codepoint = scmBOMMarkerSwapped then (true, buffer.drop 2)
      else if used = 2 ∧ codepoint = scmBOMMarker then (false, buffer.drop 2)
      else (false, buffer)
    let storage ← fromUTF16Loop littleEndian rest.length rest
    if scmMaxStringLen < storage.length then none else some storage

/-! ### Texts -/

/-- A Unicode scalar value: a code point that is no surrogate. -/
def IsScalar (cp : ℕ) : Prop := cp < 0x110000 ∧ ¬(0xd800 ≤ cp ∧ cp < 0xe000)

instance (cp : ℕ) : Decidable (IsScalar cp) := inferInstanceAs (Decidable (_ ∧ _))

/-- The UTF-8 writing of one code point. -/
def utf8Of (cp : ℕ) : List UInt8 := (encodeUTF8Codepoint cp).getD []

/-- The UTF-8 writing of a text. -/
def utf8Text (cps : List ℕ) : List UInt8 := cps.flatMap utf8Of

/-- The big-endian UTF-16 writing of one code point. -/
def utf16Of (cp : ℕ) : List UInt8 := (encodeUTF16Codepoint cp false).getD []

/-- The big-endian UTF-16 writing of a text. -/
def utf16Text (cps : List ℕ) : List UInt8 := cps.flatMap utf16Of

/-- A text without its byte order marks. -/
def dropBOM (cps : List ℕ) : List ℕ := cps.filter (· ≠ scmBOMMarker)

@[simp]
theorem utf8Text_cons (cp : ℕ) (cps : List ℕ) :
    utf8Text (cp :: cps) = utf8Of cp ++ utf8Text cps := rfl

@[simp]
theorem utf16Text_cons (cp : ℕ) (cps : List ℕ) :
    utf16Text (cp :: cps) = utf16Of cp ++ utf16Text cps := rfl

theorem encodeUTF8Codepoint_of_lt {cp : ℕ} (hlt : cp < 0x110000) :
    encodeUTF8Codepoint cp = some (utf8Of cp) := by
  unfold utf8Of encodeUTF8Codepoint
  split_ifs <;> rfl

theorem encodeUTF8Codepoint_eq {cp : ℕ} (h : IsScalar cp) :
    encodeUTF8Codepoint cp = some (utf8Of cp) :=
  encodeUTF8Codepoint_of_lt h.1

theorem encodeUTF16Codepoint_eq {cp : ℕ} (h : IsScalar cp) :
    encodeUTF16Codepoint cp false = some (utf16Of cp) := by
  obtain ⟨hlt, hsur⟩ := h
  unfold utf16Of encodeUTF16Codepoint
  split_ifs with hbad
  · omega
  · rfl
  · rfl

/-- One code point, read back from UTF-8; a surrogate is read like any other. -/
theorem parseUTF8Codepoint_of_lt {cp : ℕ} (hlt : cp < 0x110000) (rest : List UInt8) :
    parseUTF8Codepoint (utf8Of cp ++ rest) = some ((utf8Of cp).length, cp) := by
  unfold utf8Of encodeUTF8Codepoint
  split_ifs with h1 h2 h3
  · have hb : (UInt8.ofNat cp).toNat = cp := by simp; omega
    simp [parseUTF8Codepoint, byteAt, hb, h1]
  · have h0 : (UInt8.ofNat (192 + cp / 64 % 32)).toNat = 192 + cp / 64 := by simp; omega
    have h1 : (UInt8.ofNat (128 + cp % 64)).toNat = 128 + cp % 64 := by simp; omega
    simp only [parseUTF8Codepoint, byteAt, IsContinuation, Option.getD_some, List.cons_append,
      List.nil_append, List.getD_cons_zero, List.getD_cons_succ, h0, h1, List.length_cons,
      List.length_nil]
    rw [if_neg (by omega), if_pos (by omega), if_neg (by omega)]
    simp only [Option.some.injEq, Prod.mk.injEq, true_and]
    omega
  · have h0 : (UInt8.ofNat (224 + cp / 4096 % 32)).toNat = 224 + cp / 4096 := by simp; omega
    have h1 : (UInt8.ofNat (128 + cp / 64 % 64)).toNat = 128 + cp / 64 % 64 := by simp; omega
    have h2 : (UInt8.ofNat (128 + cp % 64)).toNat = 128 + cp % 64 := by simp; omega
    simp only [parseUTF8Codepoint, byteAt, IsContinuation, Option.getD_some, List.cons_append,
      List.nil_append, List.getD_cons_zero, List.getD_cons_succ, h0, h1, h2, List.length_cons,
      List.length_nil]
    rw [if_neg (by omega), if_neg (by omega), if_pos (by omega), if_neg (by omega)]
    simp only [Option.some.injEq, Prod.mk.injEq, true_and]
    omega
  · have h0 : (UInt8.ofNat (240 + cp / 262144 % 8)).toNat = 240 + cp / 262144 := by simp; omega
    have h1 : (UInt8.ofNat (128 + cp / 4096 % 64)).toNat = 128 + cp / 4096 % 64 := by
      simp; omega
    have h2 : (UInt8.ofNat (128 + cp / 64 % 64)).toNat = 128 + cp / 64 % 64 := by simp; omega
    have h3 : (UInt8.ofNat (128 + cp % 64)).toNat = 128 + cp % 64 := by simp; omega
    simp only [parseUTF8Codepoint, byteAt, IsContinuation, Option.getD_some, List.cons_append,
      List.nil_append, List.getD_cons_zero, List.getD_cons_succ, h0, h1, h2, h3,
      List.length_cons, List.length_nil]
    rw [if_neg (by omega), if_neg (by omega), if_neg (by omega), if_pos (by omega),
      if_neg (by omega)]
    simp only [Option.some.injEq, Prod.mk.injEq, true_and]
    omega

/-- **One code point, read back from UTF-8.** -/
theorem parseUTF8Codepoint_utf8Of {cp : ℕ} (h : IsScalar cp) (rest : List UInt8) :
    parseUTF8Codepoint (utf8Of cp ++ rest) = some ((utf8Of cp).length, cp) :=
  parseUTF8Codepoint_of_lt h.1 rest

/-- **One code point, read back from UTF-16.** -/
theorem parseUTF16Codepoint_utf16Of {cp : ℕ} (h : IsScalar cp) (rest : List UInt8) :
    parseUTF16Codepoint (utf16Of cp ++ rest) false = some ((utf16Of cp).length, cp) := by
  obtain ⟨hlt, hsur⟩ := h
  have byte : ∀ w, (UInt8.ofNat (w / 256 % 256)).toNat * 256 + (UInt8.ofNat (w % 256)).toNat
      = w % 65536 := by
    intro w
    have hhi : (UInt8.ofNat (w / 256 % 256)).toNat = w / 256 % 256 := by simp
    have hlo : (UInt8.ofNat (w % 256)).toNat = w % 256 := by simp
    rw [hhi, hlo]
    omega
  unfold utf16Of encodeUTF16Codepoint
  rw [if_neg (by omega)]
  split_ifs with h1
  · simp only [parseUTF16Codepoint, wordAt, byteAt, wordBytes, Bool.false_eq_true, if_false,
      Option.getD_some, List.cons_append, List.nil_append, List.getD_cons_zero,
      List.getD_cons_succ, byte, List.length_cons, List.length_nil, Nat.zero_add]
    rw [if_neg (by omega)]
    simp only [Option.some.injEq, Prod.mk.injEq, true_and]
    omega
  · simp only [parseUTF16Codepoint, wordAt, byteAt, wordBytes, Bool.false_eq_true, if_false,
      Option.getD_some, List.cons_append, List.nil_append, List.getD_cons_zero,
      List.getD_cons_succ, byte, List.length_cons, List.length_nil, Nat.zero_add]
    rw [if_pos (by omega), if_neg (by omega)]
    simp only [Option.some.injEq, Prod.mk.injEq, true_and]
    omega

theorem utf8Of_ne_nil_of_lt {cp : ℕ} (hlt : cp < 0x110000) : utf8Of cp ≠ [] := by
  unfold utf8Of encodeUTF8Codepoint
  split_ifs <;> simp

theorem utf8Of_ne_nil {cp : ℕ} (h : IsScalar cp) : utf8Of cp ≠ [] := utf8Of_ne_nil_of_lt h.1

theorem utf16Of_ne_nil {cp : ℕ} (h : IsScalar cp) : utf16Of cp ≠ [] := by
  obtain ⟨hlt, hsur⟩ := h
  unfold utf16Of encodeUTF16Codepoint
  rw [if_neg (by omega)]
  split_ifs <;> simp [wordBytes]

/-- Every code point takes an even number of bytes of UTF-16. -/
theorem length_utf16Of_even (cp : ℕ) : (utf16Of cp).length % 2 = 0 := by
  unfold utf16Of encodeUTF16Codepoint
  split_ifs <;> simp [wordBytes]

theorem length_utf16Text_even (cps : List ℕ) : (utf16Text cps).length % 2 = 0 := by
  induction cps with
  | nil => rfl
  | cons cp cps ih =>
    have := length_utf16Of_even cp
    simp only [utf16Text_cons, List.length_append]
    omega

/-- A code point takes at most twice as many bytes of UTF-16 as of UTF-8. -/
theorem length_utf16Of_le (cp : ℕ) (h : IsScalar cp) :
    (utf16Of cp).length ≤ 2 * (utf8Of cp).length := by
  obtain ⟨hlt, hsur⟩ := h
  rw [utf16Of, utf8Of, encodeUTF16Codepoint, encodeUTF8Codepoint, if_neg (by omega)]
  split_ifs <;> first | (simp [wordBytes]; done) | omega

theorem length_utf16Text_dropBOM_le {cps : List ℕ} (h : ∀ cp ∈ cps, IsScalar cp) :
    (utf16Text (dropBOM cps)).length ≤ 2 * (utf8Text cps).length := by
  induction cps with
  | nil => exact Nat.zero_le _
  | cons cp cps ih =>
    have hhead := length_utf16Of_le cp (h cp List.mem_cons_self)
    have htail := ih fun c hc => h c (List.mem_cons_of_mem _ hc)
    rw [utf8Text_cons, List.length_append]
    by_cases hbom : cp = scmBOMMarker
    · have hdrop : dropBOM (cp :: cps) = dropBOM cps := by simp [dropBOM, hbom]
      rw [hdrop]
      omega
    · have hdrop : dropBOM (cp :: cps) = cp :: dropBOM cps := by simp [dropBOM, hbom]
      rw [hdrop, utf16Text_cons, List.length_append]
      omega

theorem length_utf8Text_dropBOM_le (cps : List ℕ) :
    (utf8Text (dropBOM cps)).length ≤ (utf8Text cps).length := by
  induction cps with
  | nil => exact le_rfl
  | cons cp cps ih =>
    by_cases hbom : cp = scmBOMMarker <;>
      simp only [dropBOM, utf8Text, List.filter_cons, hbom, ne_eq, not_true_eq_false,
        not_false_eq_true, decide_true, decide_false, if_true, Bool.false_eq_true, if_false,
        List.flatMap_cons, List.length_append] at ih ⊢ <;> omega

/-- The loop of `toUTF16` on a text, with any fuel that covers its bytes. -/
theorem toUTF16Loop_utf8Text {cps : List ℕ} (h : ∀ cp ∈ cps, IsScalar cp) :
    ∀ fuel, (utf8Text cps).length ≤ fuel →
      toUTF16Loop fuel (utf8Text cps) = some (utf16Text (dropBOM cps)) := by
  induction cps with
  | nil => intro fuel _; cases fuel <;> rfl
  | cons cp cps ih =>
    intro fuel hfuel
    have hcp : IsScalar cp := h cp List.mem_cons_self
    have ih' := ih fun c hc => h c (List.mem_cons_of_mem _ hc)
    obtain ⟨b, bs, hb⟩ := List.exists_cons_of_ne_nil (utf8Of_ne_nil hcp)
    have hlist : b :: (bs ++ utf8Text cps) = utf8Of cp ++ utf8Text cps := by rw [hb]; rfl
    have hlen : (utf8Of cp).length = bs.length + 1 := by rw [hb]; rfl
    simp only [utf8Text_cons, List.length_append] at hfuel
    obtain ⟨f, rfl⟩ : ∃ f, fuel = f + 1 := ⟨fuel - 1, by omega⟩
    have hrest := ih' f (by omega)
    rw [utf8Text_cons, ← hlist]
    unfold toUTF16Loop
    rw [hlist, parseUTF8Codepoint_utf8Of hcp]
    simp only [Option.bind_eq_bind, Option.bind_some, List.length_append]
    rw [if_neg (by omega), List.drop_left, hrest]
    -- a byte order mark contributes nothing, any other code point its UTF-16 writing
    by_cases hbom : cp = scmBOMMarker
    · simp [dropBOM, hbom]
    · simp [dropBOM, hbom, encodeUTF16Codepoint_eq hcp]

/-- The loop of `fromUTF16` on a text. -/
theorem fromUTF16Loop_utf16Text {cps : List ℕ} (h : ∀ cp ∈ cps, IsScalar cp) :
    ∀ fuel, (utf16Text cps).length ≤ fuel →
      fromUTF16Loop false fuel (utf16Text cps) = some (utf8Text cps) := by
  induction cps with
  | nil => intro fuel _; cases fuel <;> rfl
  | cons cp cps ih =>
    intro fuel hfuel
    have hcp : IsScalar cp := h cp List.mem_cons_self
    have ih' := ih fun c hc => h c (List.mem_cons_of_mem _ hc)
    obtain ⟨b, bs, hb⟩ := List.exists_cons_of_ne_nil (utf16Of_ne_nil hcp)
    have hlist : b :: (bs ++ utf16Text cps) = utf16Of cp ++ utf16Text cps := by rw [hb]; rfl
    have hlen : (utf16Of cp).length = bs.length + 1 := by rw [hb]; rfl
    simp only [utf16Text_cons, List.length_append] at hfuel
    obtain ⟨f, rfl⟩ : ∃ f, fuel = f + 1 := ⟨fuel - 1, by omega⟩
    have hrest := ih' f (by omega)
    rw [utf16Text_cons, ← hlist]
    unfold fromUTF16Loop
    rw [hlist, parseUTF16Codepoint_utf16Of hcp]
    simp only [Option.bind_eq_bind, Option.bind_some, List.length_append]
    rw [if_neg (by omega), encodeUTF8Codepoint_eq hcp, List.drop_left, hrest]
    rfl

/-- **A text on its way out**: the UTF-16 the sender writes has lost the byte order marks. -/
theorem toUTF16_utf8Text {cps : List ℕ} (h : ∀ cp ∈ cps, IsScalar cp) :
    toUTF16 (utf8Text cps) = some (utf16Text (dropBOM cps)) :=
  toUTF16Loop_utf8Text h _ le_rfl

/-- **A text on its way in**, when its first character is no byte order mark of either
order. -/
theorem fromUTF16_utf16Text {cps : List ℕ} (h : ∀ cp ∈ cps, IsScalar cp)
    (hbom : ∀ cp ∈ cps.head?, cp ≠ scmBOMMarker ∧ cp ≠ scmBOMMarkerSwapped)
    (hlen : (utf8Text cps).length ≤ scmMaxStringLen) :
    fromUTF16 (utf16Text cps) = some (utf8Text cps) := by
  cases cps with
  | nil => rfl
  | cons cp cps =>
    have hcp : IsScalar cp := h cp List.mem_cons_self
    obtain ⟨hne, hswap⟩ := hbom cp rfl
    have hpos : (utf16Of cp).length ≠ 0 := by simpa using utf16Of_ne_nil hcp
    have heven := length_utf16Text_even (cp :: cps)
    have hloop := fromUTF16Loop_utf16Text h _ le_rfl
    have hparse : parseUTF16Codepoint (utf16Text (cp :: cps)) false
        = some ((utf16Of cp).length, cp) := parseUTF16Codepoint_utf16Of hcp _
    have hnil : (utf16Text (cp :: cps)).length ≠ 0 := by
      simp only [utf16Text_cons, List.length_append]; omega
    unfold fromUTF16
    rw [if_neg hnil, if_neg (by omega), hparse]
    simp only [Option.bind_eq_bind, Option.bind_some, hne, hswap, and_false, if_false, hloop]
    rw [if_neg (by omega)]

/-- **What a text goes through**: sent and received, it has lost its byte order marks and
nothing else, unless what is left starts with the noncharacter `U+FFFE`. -/
theorem fromUTF16_toUTF16 {cps : List ℕ} (h : ∀ cp ∈ cps, IsScalar cp)
    (hswap : (dropBOM cps).head? ≠ some scmBOMMarkerSwapped)
    (hlen : (utf8Text (dropBOM cps)).length ≤ scmMaxStringLen) :
    (toUTF16 (utf8Text cps)).bind fromUTF16 = some (utf8Text (dropBOM cps)) := by
  rw [toUTF16_utf8Text h, Option.bind_some]
  refine fromUTF16_utf16Text (fun cp hcp => h cp (List.mem_of_mem_filter hcp)) ?_ hlen
  intro cp hcp
  refine ⟨?_, fun heq => hswap (heq ▸ hcp)⟩
  simpa [dropBOM] using List.of_mem_filter (List.mem_of_mem_head? hcp)

end Forte
