import Forte.Datatypes.Unicode
import Forte.Lib.TwoPass

/-!
# The passes of the conversions

Both conversions of `CIEC_WSTRING` read twice: a first pass asks the encoder, without a buffer,
for the size of each code point, and a second one writes into the memory that was got for the sum.
This file has the passes, with all that they read of a UTF-16 buffer: the word behind a high
surrogate is read whether it is in the buffer or not. The sum is an `unsigned int`, which only a
buffer of some gigabytes makes wrap (`Forte.unsignedInt`).

What is sent is what is stored, but for the byte order marks, and comes back
(`Forte.transcoding`), as long as it does not begin with `U+FFFE`, which is read as a byte order
mark of the other order (`Forte.fromUTF16_swapped_mark`).
-/

namespace Forte

/-! ### The encoders, asked for the size and with a buffer -/

/-- `encodeUTF8Codepoint` without a buffer. -/
def utf8Length (value : ℕ) : Option ℕ :=
  if value < 0x80 then some 1
  else if value < 0x800 then some 2
  else if value < 0x10000 then some 3
  else if value < 0x110000 then some 4
  else none

/-- `encodeUTF8Codepoint` with a buffer of a certain size. -/
def encodeUTF8Into (paBufferSize value : ℕ) : Option (List UInt8) :=
  match utf8Length value with
  | none => none
  | some n => if paBufferSize < n then none else encodeUTF8Codepoint value

/-- `encodeUTF16Codepoint` without a buffer. -/
def utf16Length (value : ℕ) : Option ℕ :=
  if (0xd800 ≤ value ∧ value < 0xe000) ∨ 0x110000 ≤ value then none
  else if value < 0x10000 then some 2
  else some 4

/-- `encodeUTF16Codepoint` with a buffer of a certain size, in the order `toUTF16` asks for. -/
def encodeUTF16Into (paBufferSize value : ℕ) : Option (List UInt8) :=
  match utf16Length value with
  | none => none
  | some n => if paBufferSize < n then none else encodeUTF16Codepoint value false

theorem length_of_utf8Length {value n : ℕ} (h : utf8Length value = some n) :
    ∃ bs, encodeUTF8Codepoint value = some bs ∧ bs.length = n := by
  rw [utf8Length] at h
  rw [encodeUTF8Codepoint]
  split_ifs at h ⊢
  all_goals
    cases h
    exact ⟨_, rfl, rfl⟩

theorem length_wordBytes (word : ℕ) (littleEndian : Bool) :
    (wordBytes word littleEndian).length = 2 := by
  cases littleEndian <;> rfl

theorem length_of_utf16Length {value n : ℕ} (h : utf16Length value = some n) :
    ∃ bs, encodeUTF16Codepoint value false = some bs ∧ bs.length = n := by
  rw [utf16Length] at h
  rw [encodeUTF16Codepoint]
  split_ifs at h ⊢
  all_goals
    cases h
    exact ⟨_, rfl, rfl⟩

/-- How `fromUTF16` writes. -/
def utf8Encoder : Encoder ℕ UInt8 where
  length := utf8Length
  write := encodeUTF8Into
  write_of_length := by
    intro value n h
    obtain ⟨bs, hbs, hlen⟩ := length_of_utf8Length h
    refine ⟨bs, hlen, fun room hroom => ?_⟩
    rw [encodeUTF8Into, h]
    exact (if_neg (Nat.not_lt.mpr hroom)).trans hbs
  length_le_of_write := by
    intro room value bs h
    rw [encodeUTF8Into] at h
    split at h
    · cases h
    · rename_i n hn
      obtain ⟨bs', hbs, hlen⟩ := length_of_utf8Length hn
      split at h
      · cases h
      · cases hbs.symm.trans h
        omega

/-- How `toUTF16` writes: the byte order mark is skipped. -/
def utf16Encoder : Encoder ℕ UInt8 where
  length value := if value = scmBOMMarker then some 0 else utf16Length value
  write room value := if value = scmBOMMarker then some [] else encodeUTF16Into room value
  write_of_length := by
    intro value n h
    split_ifs at h ⊢ with hmark
    · cases h
      exact ⟨[], rfl, fun _ _ => rfl⟩
    · obtain ⟨bs, hbs, hlen⟩ := length_of_utf16Length h
      refine ⟨bs, hlen, fun room hroom => ?_⟩
      rw [encodeUTF16Into, h]
      exact (if_neg (Nat.not_lt.mpr hroom)).trans hbs
  length_le_of_write := by
    intro room value bs h
    split at h
    · cases h
      exact Nat.zero_le _
    · rw [encodeUTF16Into] at h
      split at h
      · cases h
      · rename_i n hn
        obtain ⟨bs', hbs, hlen⟩ := length_of_utf16Length hn
        split at h
        · cases h
        · cases hbs.symm.trans h
          omega

/-! ### The passes -/

/-- `parseUTF8Codepoint` in the passes of `toUTF16`; the terminator is behind the text. -/
def readUTF8 (s : List UInt8) : Except Fault (ℕ × ℕ) := required .refused (parseUTF8Codepoint s)

/-- `parseUTF16Codepoint` in the passes of `fromUTF16`, with the bytes it reads: those of the word
behind a high surrogate too. -/
def readUTF16 (littleEndian : Bool) (s : List UInt8) : Except Fault (ℕ × ℕ) :=
  let reads := if wordAt s 0 littleEndian / 1024 = 54 then 4 else 2
  if s.length < reads then .error .outside
  else required .refused (parseUTF16Codepoint s littleEndian)

/-- `CIEC_WSTRING::toUTF16`, into a buffer of a certain size. -/
def toUTF16Passes (paBufferSize : ℕ) (storage : List UInt8) : Except Fault (List UInt8) := do
  let nNeededLength ← TwoPass.measure readUTF8 utf16Encoder storage.length storage
  demand .refused (nNeededLength ≤ paBufferSize)
  TwoPass.fill readUTF8 utf16Encoder storage.length nNeededLength storage

/-- The byte order of a buffer, and what is behind the byte order mark. -/
def bodyUTF16 (buffer : List UInt8) : Bool × List UInt8 :=
  if wordAt buffer 0 false = scmBOMMarkerSwapped then (true, buffer.drop 2)
  else if wordAt buffer 0 false = scmBOMMarker then (false, buffer.drop 2)
  else (false, buffer)

/-- A count in an `unsigned int`. -/
def unsignedInt (n : ℕ) : ℕ := n % 2 ^ 32

/-- The passes of `fromUTF16` over what is behind the byte order mark. -/
def storePasses (littleEndian : Bool) (rest : List UInt8) : Except Fault (List UInt8) := do
  let nNeededLength ← TwoPass.measure (readUTF16 littleEndian) utf8Encoder rest.length rest
  demand .refused (unsignedInt nNeededLength ≤ scmMaxStringLen)
  TwoPass.fill (readUTF16 littleEndian) utf8Encoder rest.length (unsignedInt nNeededLength) rest

/-- The passes of `CIEC_WSTRING::fromUTF16`: the text to be stored. -/
def fromUTF16Passes (buffer : List UInt8) : Except Fault (List UInt8) :=
  if buffer.length = 0 then .ok []
  else do
    demand .refused (buffer.length % 2 = 0)
    let (used, codepoint) ← readUTF16 false buffer
    let (littleEndian, rest) :=
      if used = 2 ∧ codepoint = scmBOMMarkerSwapped then (true, buffer.drop 2)
      else if used = 2 ∧ codepoint = scmBOMMarker then (false, buffer.drop 2)
      else (false, buffer)
    storePasses littleEndian rest

/-- `CIEC_WSTRING::fromUTF16` of an object that holds `mValue`: what it returns and holds then,
unless it reads outside of the buffer, or runs out of the memory it got for a text whose count
is too large. There the second pass goes a byte back for each code point it has no room for. -/
def runFromUTF16 (mValue buffer : List UInt8) : Option (Bool × List UInt8) :=
  match fromUTF16Passes buffer with
  | .ok storage => some (true, storage)
  | .error .refused => some (false, mValue)
  | .error .outside => none
  | .error .noRoom => none

/-! ### What the passes read -/

theorem readUTF8_eq_ok {s : List UInt8} {read : ℕ × ℕ} :
    readUTF8 s = .ok read ↔ parseUTF8Codepoint s = some read :=
  required_eq_ok

/-- A code point is read if it is there. -/
theorem readUTF16_eq_ok {littleEndian : Bool} {s : List UInt8} {used value : ℕ} :
    readUTF16 littleEndian s = .ok (used, value) ↔
      parseUTF16Codepoint s littleEndian = some (used, value) ∧ used ≤ s.length := by
  have hused : parseUTF16Codepoint s littleEndian = some (used, value) →
      used = if wordAt s 0 littleEndian / 1024 = 54 then 4 else 2 := by
    intro h
    rw [parseUTF16Codepoint] at h
    dsimp only at h
    split_ifs at h ⊢
    all_goals
      cases h
      rfl
  obtain ⟨reads, hreads⟩ : ∃ n, n = if wordAt s 0 littleEndian / 1024 = 54 then 4 else 2 :=
    ⟨_, rfl⟩
  have hread : readUTF16 littleEndian s =
      if s.length < reads then .error .outside
      else required .refused (parseUTF16Codepoint s littleEndian) := by
    rw [hreads]
    rfl
  rw [← hreads] at hused
  rw [hread]
  constructor
  · intro h
    by_cases hlen : s.length < reads
    · rw [if_pos hlen] at h
      cases h
    · rw [if_neg hlen] at h
      have hvalue := required_eq_ok.mp h
      exact ⟨hvalue, by rw [hused hvalue]; omega⟩
  · rintro ⟨hvalue, hlen⟩
    rw [hused hvalue] at hlen
    rw [if_neg (Nat.not_lt.mpr hlen)]
    exact required_eq_ok.mpr hvalue

/-- One round of reading. -/
theorem decode_append {parse : List UInt8 → Except Fault (ℕ × ℕ)} {bs rest : List UInt8}
    {fuel value : ℕ} {values : List ℕ} (hne : bs ≠ [])
    (hread : parse (bs ++ rest) = .ok (bs.length, value))
    (hrest : TwoPass.decode parse fuel rest = .ok values) :
    TwoPass.decode parse (fuel + 1) (bs ++ rest) = .ok (value :: values) := by
  obtain ⟨b, tail, rfl⟩ := List.exists_cons_of_ne_nil hne
  rw [List.cons_append] at hread ⊢
  rw [TwoPass.decode]
  simp only [bind_eq_ok, demand_eq_ok, Except.ok.injEq]
  refine ⟨_, hread, (), ?_, values, ?_, rfl⟩
  · rw [List.length_cons, List.length_cons, List.length_append]
    omega
  · rw [← List.cons_append, List.drop_left]
    exact hrest

/-- **UTF-8 is read back.** -/
theorem decode_utf8Text {cps : List ℕ} (h : ∀ cp ∈ cps, cp < 0x110000) {fuel : ℕ}
    (hfuel : (utf8Text cps).length ≤ fuel) :
    TwoPass.decode readUTF8 fuel (utf8Text cps) = .ok cps := by
  induction cps generalizing fuel with
  | nil => cases fuel <;> rfl
  | cons cp cps ih =>
    have hcp := h cp List.mem_cons_self
    have hpos := List.length_pos_iff.mpr (utf8Of_ne_nil_of_lt hcp)
    rw [utf8Text_cons, List.length_append] at hfuel
    obtain ⟨fuel, rfl⟩ := Nat.exists_eq_succ_of_ne_zero (by omega : fuel ≠ 0)
    rw [utf8Text_cons]
    exact decode_append (utf8Of_ne_nil_of_lt hcp)
      (readUTF8_eq_ok.mpr (parseUTF8Codepoint_of_lt hcp _))
      (ih (fun c hc => h c (List.mem_cons_of_mem cp hc)) (by omega))

/-- The UTF-16 writing of one code point, in a byte order. -/
def utf16Bytes (littleEndian : Bool) (cp : ℕ) : List UInt8 :=
  (encodeUTF16Codepoint cp littleEndian).getD []

/-- A word is read back in its byte order. -/
theorem wordAt_wordBytes {word : ℕ} (hword : word < 65536) (littleEndian : Bool)
    (rest : List UInt8) :
    wordAt (wordBytes word littleEndian ++ rest) 0 littleEndian = word ∧
      ∀ word' < 65536,
        wordAt (wordBytes word littleEndian ++ (wordBytes word' littleEndian ++ rest))
          2 littleEndian = word' := by
  have hbyte : ∀ w, (UInt8.ofNat (w % 256)).toNat = w % 256 := fun w => by simp
  cases littleEndian
  · simp only [wordAt, byteAt, wordBytes, Bool.false_eq_true, if_false, List.cons_append,
      List.nil_append, List.getD_cons_zero, List.getD_cons_succ, hbyte]
    exact ⟨by omega, fun word' hword' => by omega⟩
  · simp only [wordAt, byteAt, wordBytes, if_true, List.cons_append, List.nil_append,
      List.getD_cons_zero, List.getD_cons_succ, hbyte]
    exact ⟨by omega, fun word' hword' => by omega⟩

/-- **One code point, read back from UTF-16** in either byte order. -/
theorem parseUTF16Codepoint_utf16Bytes {cp : ℕ} (h : IsScalar cp) (littleEndian : Bool)
    (rest : List UInt8) :
    parseUTF16Codepoint (utf16Bytes littleEndian cp ++ rest) littleEndian =
      some ((utf16Bytes littleEndian cp).length, cp) := by
  obtain ⟨hlt, hsur⟩ := h
  rw [utf16Bytes, encodeUTF16Codepoint, if_neg (by omega)]
  split_ifs with hbmp
  · obtain ⟨hfirst, -⟩ := wordAt_wordBytes hbmp littleEndian rest
    rw [Option.getD_some, parseUTF16Codepoint, hfirst, length_wordBytes]
    exact if_neg (by omega)
  · have hhigh : 0xd800 + (cp - 0x10000) / 1024 % 1024 < 65536 := by omega
    have hlow : 0xdc00 + (cp - 0x10000) % 1024 < 65536 := by omega
    rw [Option.getD_some, List.append_assoc, parseUTF16Codepoint,
      (wordAt_wordBytes hhigh littleEndian _).1,
      (wordAt_wordBytes hhigh littleEndian rest).2 _ hlow, List.length_append, length_wordBytes,
      length_wordBytes]
    dsimp only
    rw [if_pos (by omega), if_neg (by omega)]
    simp only [Option.some.injEq, Prod.mk.injEq, true_and]
    omega

theorem utf16Bytes_ne_nil {cp : ℕ} (h : IsScalar cp) (littleEndian : Bool) :
    utf16Bytes littleEndian cp ≠ [] := by
  obtain ⟨hlt, hsur⟩ := h
  rw [utf16Bytes, encodeUTF16Codepoint, if_neg (by omega), ← List.length_pos_iff]
  split_ifs
  · rw [Option.getD_some, length_wordBytes]
    decide
  · rw [Option.getD_some, List.length_append, length_wordBytes]
    omega

/-- **UTF-16 is read back** in either byte order. -/
theorem decode_utf16Bytes {cps : List ℕ} (h : ∀ cp ∈ cps, IsScalar cp) (littleEndian : Bool)
    {fuel : ℕ} (hfuel : (cps.flatMap (utf16Bytes littleEndian)).length ≤ fuel) :
    TwoPass.decode (readUTF16 littleEndian) fuel (cps.flatMap (utf16Bytes littleEndian)) =
      .ok cps := by
  induction cps generalizing fuel with
  | nil => cases fuel <;> rfl
  | cons cp cps ih =>
    have hcp := h cp List.mem_cons_self
    have hpos := List.length_pos_iff.mpr (utf16Bytes_ne_nil hcp littleEndian)
    rw [List.flatMap_cons, List.length_append] at hfuel
    obtain ⟨fuel, rfl⟩ := Nat.exists_eq_succ_of_ne_zero (by omega : fuel ≠ 0)
    have hparse := parseUTF16Codepoint_utf16Bytes hcp littleEndian
      (cps.flatMap (utf16Bytes littleEndian))
    rw [List.flatMap_cons]
    refine decode_append (utf16Bytes_ne_nil hcp littleEndian) (readUTF16_eq_ok.mpr ⟨hparse, ?_⟩)
      (ih (fun c hc => h c (List.mem_cons_of_mem cp hc)) (by omega))
    rw [List.length_append]
    exact Nat.le_add_right _ _

/-! ### The passes and what they come to -/

theorem utf8Length_of_encode {value : ℕ} {bs : List UInt8}
    (h : encodeUTF8Codepoint value = some bs) : utf8Length value = some bs.length := by
  rw [encodeUTF8Codepoint] at h
  rw [utf8Length]
  split_ifs at h ⊢
  all_goals
    cases h
    rfl

theorem utf16Length_of_encode {value : ℕ} {bs : List UInt8}
    (h : encodeUTF16Codepoint value false = some bs) : utf16Length value = some bs.length := by
  rw [encodeUTF16Codepoint] at h
  rw [utf16Length]
  split_ifs at h ⊢
  all_goals
    cases h
    rfl

theorem encodeUTF8Codepoint_of_into {room value : ℕ} {bs : List UInt8}
    (h : encodeUTF8Into room value = some bs) : encodeUTF8Codepoint value = some bs := by
  rw [encodeUTF8Into] at h
  split at h
  · cases h
  · split at h
    · cases h
    · exact h

theorem encodeUTF16Codepoint_of_into {room value : ℕ} {bs : List UInt8}
    (h : encodeUTF16Into room value = some bs) : encodeUTF16Codepoint value false = some bs := by
  rw [encodeUTF16Into] at h
  split at h
  · cases h
  · split at h
    · cases h
    · exact h

/-- What the second pass of `fromUTF16` writes. -/
theorem fromUTF16Loop_of_fill {littleEndian : Bool} {fuel room : ℕ} {s t : List UInt8}
    (h : TwoPass.fill (readUTF16 littleEndian) utf8Encoder fuel room s = .ok t) :
    fromUTF16Loop littleEndian fuel s = some t := by
  induction fuel generalizing room s t with
  | zero =>
    cases s with
    | nil =>
      cases h
      rfl
    | cons b s => cases h
  | succ fuel ih =>
    cases s with
    | nil =>
      cases h
      rfl
    | cons b s =>
      rw [TwoPass.fill] at h
      simp only [bind_eq_ok, demand_eq_ok, required_eq_ok, Except.ok.injEq] at h
      obtain ⟨⟨used, value⟩, hread, ⟨⟩, hused, bs, hbs, rest, hrest, rfl⟩ := h
      rw [fromUTF16Loop, (readUTF16_eq_ok.mp hread).1]
      simp only [Option.bind_eq_bind, Option.bind_some, if_neg (Nat.not_lt.mpr hused),
        encodeUTF8Codepoint_of_into hbs, ih hrest]
      rfl

/-- What the first pass of `fromUTF16` measures. -/
theorem measure_of_fromUTF16Loop {littleEndian : Bool} {fuel : ℕ} {s t : List UInt8}
    (h : fromUTF16Loop littleEndian fuel s = some t) :
    TwoPass.measure (readUTF16 littleEndian) utf8Encoder fuel s = .ok t.length := by
  induction fuel generalizing s t with
  | zero =>
    cases s with
    | nil =>
      cases h
      rfl
    | cons b s => cases h
  | succ fuel ih =>
    cases s with
    | nil =>
      cases h
      rfl
    | cons b s =>
      rw [fromUTF16Loop] at h
      obtain ⟨⟨used, value⟩, hread, h⟩ := Option.bind_eq_some_iff.mp h
      dsimp only at h
      split at h
      · cases h
      · rename_i hused
        obtain ⟨bs, hbs, h⟩ := Option.bind_eq_some_iff.mp h
        obtain ⟨rest, hrest, h⟩ := Option.bind_eq_some_iff.mp h
        cases h
        rw [TwoPass.measure]
        simp only [bind_eq_ok, demand_eq_ok, required_eq_ok, Except.ok.injEq]
        exact ⟨_, readUTF16_eq_ok.mpr ⟨hread, Nat.not_lt.mp hused⟩, (), Nat.not_lt.mp hused, _,
          utf8Length_of_encode hbs, _, ih hrest, (List.length_append).symm⟩

theorem toUTF16Loop_of_fill {fuel room : ℕ} {s t : List UInt8}
    (h : TwoPass.fill readUTF8 utf16Encoder fuel room s = .ok t) :
    toUTF16Loop fuel s = some t := by
  induction fuel generalizing room s t with
  | zero =>
    cases s with
    | nil =>
      cases h
      rfl
    | cons b s => cases h
  | succ fuel ih =>
    cases s with
    | nil =>
      cases h
      rfl
    | cons b s =>
      rw [TwoPass.fill] at h
      simp only [bind_eq_ok, demand_eq_ok, required_eq_ok, Except.ok.injEq] at h
      obtain ⟨⟨used, value⟩, hread, ⟨⟩, hused, bs, hbs, rest, hrest, rfl⟩ := h
      rw [toUTF16Loop, readUTF8_eq_ok.mp hread]
      simp only [Option.bind_eq_bind, Option.bind_some, if_neg (Nat.not_lt.mpr hused), ih hrest]
      rw [utf16Encoder] at hbs
      dsimp only at hbs
      split_ifs at hbs ⊢
      · cases hbs
        rfl
      · rw [encodeUTF16Codepoint_of_into hbs]
        rfl

theorem measure_of_toUTF16Loop {fuel : ℕ} {s t : List UInt8} (h : toUTF16Loop fuel s = some t) :
    TwoPass.measure readUTF8 utf16Encoder fuel s = .ok t.length := by
  induction fuel generalizing s t with
  | zero =>
    cases s with
    | nil =>
      cases h
      rfl
    | cons b s => cases h
  | succ fuel ih =>
    cases s with
    | nil =>
      cases h
      rfl
    | cons b s =>
      rw [toUTF16Loop] at h
      obtain ⟨⟨used, value⟩, hread, h⟩ := Option.bind_eq_some_iff.mp h
      dsimp only at h
      split at h
      · cases h
      · rename_i hused
        obtain ⟨bs, rest, hsize, hrest, rfl⟩ : ∃ bs rest : List UInt8,
            utf16Encoder.length value = some bs.length ∧
              toUTF16Loop fuel ((b :: s).drop used) = some rest ∧ t = bs ++ rest := by
          split at h
          · rename_i hmark
            obtain ⟨word, hword, h⟩ := Option.bind_eq_some_iff.mp h
            cases hword
            obtain ⟨rest, hrest, h⟩ := Option.bind_eq_some_iff.mp h
            exact ⟨[], rest, if_pos hmark, hrest, (Option.some.inj h).symm⟩
          · rename_i hmark
            obtain ⟨bs, hbs, h⟩ := Option.bind_eq_some_iff.mp h
            obtain ⟨rest, hrest, h⟩ := Option.bind_eq_some_iff.mp h
            exact ⟨bs, rest, (if_neg hmark).trans (utf16Length_of_encode hbs), hrest,
              (Option.some.inj h).symm⟩
        rw [TwoPass.measure]
        simp only [bind_eq_ok, demand_eq_ok, required_eq_ok, Except.ok.injEq]
        exact ⟨_, readUTF8_eq_ok.mpr hread, (), Nat.not_lt.mp hused, _, hsize, _, ih hrest,
          (List.length_append).symm⟩

/-- **The passes of `toUTF16` write its result**, if the buffer is large enough for it. -/
theorem toUTF16Passes_eq_ok {paBufferSize : ℕ} {storage t : List UInt8} :
    toUTF16Passes paBufferSize storage = .ok t ↔
      toUTF16 storage = some t ∧ t.length ≤ paBufferSize := by
  rw [toUTF16Passes, toUTF16]
  simp only [bind_eq_ok, demand_eq_ok]
  constructor
  · rintro ⟨n, hmeasure, ⟨⟩, hn, hfill⟩
    obtain ⟨t', hfill', hlen⟩ := TwoPass.fill_of_measure hmeasure le_rfl
    rw [hfill] at hfill'
    cases hfill'
    exact ⟨toUTF16Loop_of_fill hfill, hlen ▸ hn⟩
  · rintro ⟨hloop, hlen⟩
    have hmeasure := measure_of_toUTF16Loop hloop
    obtain ⟨t', hfill, -⟩ := TwoPass.fill_of_measure hmeasure le_rfl
    have hsame := (toUTF16Loop_of_fill hfill).symm.trans hloop
    cases hsame
    exact ⟨_, hmeasure, (), hlen, hfill⟩

/-- In a buffer of words, the word behind a high surrogate is in the buffer if it is a low one. -/
theorem used_le_of_parse {buffer : List UInt8} {used value : ℕ} (hlen : buffer.length ≠ 0)
    (heven : buffer.length % 2 = 0) (h : parseUTF16Codepoint buffer false = some (used, value)) :
    used ≤ buffer.length := by
  rw [parseUTF16Codepoint] at h
  dsimp only at h
  split at h
  · split at h
    · cases h
    · rename_i hlow
      cases h
      by_contra hshort
      have hnil : ∀ i, 2 ≤ i → buffer.getD i 0 = 0 := by
        intro i hi
        rw [List.getD_eq_getElem?_getD, List.getElem?_eq_none (by omega)]
        rfl
      refine hlow ?_
      rw [wordAt, if_neg Bool.false_ne_true, byteAt, byteAt, hnil 2 le_rfl, hnil 3 (by decide)]
      decide
  · cases h
    omega

/-- Below the longest text the count does not wrap. -/
theorem unsignedInt_of_le {n : ℕ} (h : n ≤ scmMaxStringLen) : unsignedInt n = n :=
  Nat.mod_eq_of_lt (Nat.lt_of_le_of_lt h (by decide))

/-- **What the passes store behind the byte order mark**: the result of the loop, if it is not too
long. -/
theorem storePasses_eq_ok {littleEndian : Bool} {rest storage : List UInt8} :
    storePasses littleEndian rest = .ok storage ↔
      fromUTF16Loop littleEndian rest.length rest = some storage ∧
        storage.length ≤ scmMaxStringLen := by
  rw [storePasses]
  simp only [bind_eq_ok, demand_eq_ok]
  constructor
  · rintro ⟨n, hmeasure, ⟨⟩, hn, hfill⟩
    have hloop := fromUTF16Loop_of_fill hfill
    -- what the second pass writes has the size the first one counted
    have hsame := hmeasure.symm.trans (measure_of_fromUTF16Loop hloop)
    cases hsame
    by_cases hwrap : storage.length < 2 ^ 32
    · rw [unsignedInt, Nat.mod_eq_of_lt hwrap] at hn
      exact ⟨hloop, hn⟩
    · have hroom := TwoPass.length_le_of_fill hfill
      have hlt : unsignedInt storage.length < 2 ^ 32 := Nat.mod_lt _ (by decide)
      omega
  · rintro ⟨hloop, hlen⟩
    have hmeasure := measure_of_fromUTF16Loop hloop
    obtain ⟨t, hfill, -⟩ := TwoPass.fill_of_measure hmeasure le_rfl
    have hsame := (fromUTF16Loop_of_fill hfill).symm.trans hloop
    cases hsame
    refine ⟨_, hmeasure, (), ?_, ?_⟩
    · rwa [unsignedInt_of_le hlen]
    · rw [unsignedInt_of_le hlen]
      exact hfill

/-- **The passes of `fromUTF16` store its result.** -/
theorem fromUTF16Passes_eq_ok {buffer storage : List UInt8} :
    fromUTF16Passes buffer = .ok storage ↔ fromUTF16 buffer = some storage := by
  rw [fromUTF16Passes, fromUTF16]
  by_cases hlen : buffer.length = 0
  · rw [if_pos hlen, if_pos hlen, Except.ok.injEq, Option.some.injEq]
  rw [if_neg hlen, if_neg hlen]
  by_cases hodd : buffer.length % 2 = 1
  · rw [if_pos hodd]
    refine iff_of_false (fun h => ?_) (Option.some_ne_none storage).symm
    obtain ⟨⟨⟩, heven, -⟩ := bind_eq_ok.mp h
    rw [demand_eq_ok] at heven
    omega
  rw [if_neg hodd]
  have hstored : ∀ littleEndian rest, (fromUTF16Loop littleEndian rest.length rest).bind
      (fun storage => if scmMaxStringLen < storage.length then none else some storage) =
        some storage ↔ fromUTF16Loop littleEndian rest.length rest = some storage ∧
          storage.length ≤ scmMaxStringLen := by
    intro littleEndian rest
    rw [Option.bind_eq_some_iff]
    constructor
    · rintro ⟨s, hs, h⟩
      split at h
      · cases h
      · cases h
        exact ⟨hs, by omega⟩
    · rintro ⟨hs, hle⟩
      exact ⟨_, hs, if_neg (by omega)⟩
  constructor
  · intro h
    obtain ⟨⟨⟩, -, h⟩ := bind_eq_ok.mp h
    obtain ⟨⟨used, value⟩, hread, h⟩ := bind_eq_ok.mp h
    rw [(readUTF16_eq_ok.mp hread).1]
    exact (hstored _ _).mpr (storePasses_eq_ok.mp h)
  · intro h
    obtain ⟨⟨used, value⟩, hparse, h⟩ := Option.bind_eq_some_iff.mp h
    have heven : buffer.length % 2 = 0 := by omega
    have hread := readUTF16_eq_ok.mpr ⟨hparse, used_le_of_parse hlen heven hparse⟩
    refine bind_eq_ok.mpr ⟨(), demand_eq_ok.mpr heven, bind_eq_ok.mpr ⟨_, hread, ?_⟩⟩
    exact storePasses_eq_ok.mpr ((hstored _ _).mp h)

/-- **Texts and their encodings.** A text of Unicode scalar values is read back from UTF-8 and
from UTF-16 in either byte order. What `toUTF16` writes of a text without a byte order mark, and
not beginning with the mark of the other order, is stored by `fromUTF16` as the text. And in both
conversions the second pass writes as much as the first one measured, as long as the count does
not wrap. -/
theorem transcoding :
    (∀ cps : List ℕ, (∀ cp ∈ cps, IsScalar cp) →
      TwoPass.decode readUTF8 (utf8Text cps).length (utf8Text cps) = .ok cps ∧
      (∀ littleEndian, TwoPass.decode (readUTF16 littleEndian)
        (cps.flatMap (utf16Bytes littleEndian)).length (cps.flatMap (utf16Bytes littleEndian)) =
          .ok cps) ∧
      ((utf8Text cps).length ≤ scmMaxStringLen → scmBOMMarker ∉ cps →
        cps.head? ≠ some scmBOMMarkerSwapped →
          ∃ t : List UInt8, (∀ paBufferSize, t.length ≤ paBufferSize →
            toUTF16Passes paBufferSize (utf8Text cps) = .ok t) ∧
            fromUTF16Passes t = .ok (utf8Text cps))) ∧
    (∀ storage n, TwoPass.measure readUTF8 utf16Encoder storage.length storage = .ok n →
      ∃ t, TwoPass.fill readUTF8 utf16Encoder storage.length n storage = .ok t ∧
        t.length = n) ∧
    ∀ littleEndian buffer n,
      TwoPass.measure (readUTF16 littleEndian) utf8Encoder buffer.length buffer = .ok n →
        n < 2 ^ 32 →
          ∃ t, TwoPass.fill (readUTF16 littleEndian) utf8Encoder buffer.length (unsignedInt n)
            buffer = .ok t ∧ t.length = unsignedInt n := by
  refine ⟨fun cps hcps => ⟨?_, fun littleEndian => ?_, fun hlen hmark hswapped => ?_⟩,
    fun storage n h => TwoPass.fill_of_measure h le_rfl, fun littleEndian buffer n h hn => ?_⟩
  · exact decode_utf8Text (fun cp hcp => (hcps cp hcp).1) le_rfl
  · exact decode_utf16Bytes hcps littleEndian le_rfl
  · have hdrop : dropBOM cps = cps :=
      List.filter_eq_self.mpr fun cp hcp => decide_eq_true (ne_of_mem_of_not_mem hcp hmark)
    have hback := fromUTF16_toUTF16 hcps (by rwa [hdrop]) (by rwa [hdrop])
    rw [hdrop] at hback
    obtain ⟨t, ht, hstored⟩ := Option.bind_eq_some_iff.mp hback
    exact ⟨t, fun paBufferSize hle => toUTF16Passes_eq_ok.mpr ⟨ht, hle⟩,
      fromUTF16Passes_eq_ok.mpr hstored⟩
  · rw [unsignedInt, Nat.mod_eq_of_lt hn]
    exact TwoPass.fill_of_measure h le_rfl

/-- **A text that begins with `U+FFFE`** loses it on its way, although it has no byte order
mark. -/
theorem fromUTF16_swapped_mark :
    IsScalar 0xfffe ∧ (0xfffe : ℕ) ≠ scmBOMMarker ∧
      toUTF16Passes 4 (utf8Text [0xfffe, 0x41]) = .ok [0xff, 0xfe, 0x00, 0x41] ∧
      fromUTF16Passes [0xff, 0xfe, 0x00, 0x41] = .ok (utf8Text [0x4100]) := by
  decide

end Forte
