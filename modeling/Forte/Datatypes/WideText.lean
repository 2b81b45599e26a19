import Forte.Datatypes.Transcoding

/-!
# Wide texts from anywhere

What `fromUTF16` makes of any buffer is told by the words behind the byte order mark. They are code
points up to the end, or up to a high surrogate that has no low one behind it: another word is
refused, and the end of the buffer is read beyond (`Forte.codePoints_or_broken_or_cut`). A low
surrogate without a high one in front of it is read as a code point of its own and stored, though
`toUTF16` refuses to send it.

So a buffer is safe in the cases of `Forte.fromUTF16_safe_iff`, and in no others.
-/

namespace Forte

/-! ### The words of a buffer -/

/-- The words of a buffer. -/
def words (littleEndian : Bool) : List UInt8 → List ℕ
  | b :: b' :: rest => wordAt [b, b'] 0 littleEndian :: words littleEndian rest
  | _ => []

/-- A high surrogate. -/
def IsHigh (word : ℕ) : Prop := word / 1024 = 54

/-- A low surrogate. -/
def IsLow (word : ℕ) : Prop := word / 1024 = 55

/-- **Words that are read as code points**: each high surrogate has a low one behind it. A low
surrogate without a high one in front of it is read as it is. -/
inductive CodePoints : List ℕ → List ℕ → Prop
  | nil : CodePoints [] []
  | unit {word : ℕ} {ws cps : List ℕ} (hword : ¬IsHigh word) (h : CodePoints ws cps) :
      CodePoints (word :: ws) (word :: cps)
  | pair {high low : ℕ} {ws cps : List ℕ} (hhigh : IsHigh high) (hlow : IsLow low)
      (h : CodePoints ws cps) :
      CodePoints (high :: low :: ws) ((0x10000 + (high % 1024 * 1024 + low % 1024)) :: cps)

/-- **Words that are refused**: the first high surrogate without a low one behind it has another
word there. -/
inductive Broken : List ℕ → Prop
  | here {high word : ℕ} {ws : List ℕ} (hhigh : IsHigh high) (hword : ¬IsLow word) :
      Broken (high :: word :: ws)
  | unit {word : ℕ} {ws : List ℕ} (hword : ¬IsHigh word) (h : Broken ws) : Broken (word :: ws)
  | pair {high low : ℕ} {ws : List ℕ} (hhigh : IsHigh high) (hlow : IsLow low) (h : Broken ws) :
      Broken (high :: low :: ws)

/-- **Words that end in a high surrogate** with no broken pair in front of it. -/
inductive Cut : List ℕ → Prop
  | here {high : ℕ} (hhigh : IsHigh high) : Cut [high]
  | unit {word : ℕ} {ws : List ℕ} (hword : ¬IsHigh word) (h : Cut ws) : Cut (word :: ws)
  | pair {high low : ℕ} {ws : List ℕ} (hhigh : IsHigh high) (hlow : IsLow low) (h : Cut ws) :
      Cut (high :: low :: ws)

/-- Words are of one of the three kinds. -/
theorem codePoints_or_broken_or_cut : ∀ ws : List ℕ,
    (∃ cps, CodePoints ws cps) ∨ Broken ws ∨ Cut ws
  | [] => .inl ⟨[], .nil⟩
  | [word] => by
    by_cases hword : IsHigh word
    · exact .inr (.inr (.here hword))
    · exact .inl ⟨_, .unit hword .nil⟩
  | word :: word' :: ws => by
    by_cases hword : IsHigh word
    · by_cases hword' : IsLow word'
      · rcases codePoints_or_broken_or_cut ws with ⟨cps, h⟩ | h | h
        · exact .inl ⟨_, .pair hword hword' h⟩
        · exact .inr (.inl (.pair hword hword' h))
        · exact .inr (.inr (.pair hword hword' h))
      · exact .inr (.inl (.here hword hword'))
    · rcases codePoints_or_broken_or_cut (word' :: ws) with ⟨cps, h⟩ | h | h
      · exact .inl ⟨_, .unit hword h⟩
      · exact .inr (.inl (.unit hword h))
      · exact .inr (.inr (.unit hword h))

/-! ### What is read of a buffer -/

section Words

variable {littleEndian : Bool} {b b' : UInt8}

theorem readUTF16_unit (hword : ¬IsHigh (wordAt [b, b'] 0 littleEndian)) (rest : List UInt8) :
    readUTF16 littleEndian (b :: b' :: rest) = .ok (2, wordAt [b, b'] 0 littleEndian) := by
  refine readUTF16_eq_ok.mpr ⟨if_neg hword, ?_⟩
  exact Nat.le_add_left 2 rest.length

/-- At the end of a buffer the word behind a high surrogate is outside. -/
theorem readUTF16_cut (hhigh : IsHigh (wordAt [b, b'] 0 littleEndian)) :
    readUTF16 littleEndian [b, b'] = .error .outside := by
  rw [readUTF16]
  have hreads : (if wordAt [b, b'] 0 littleEndian / 1024 = 54 then 4 else 2) = 4 := if_pos hhigh
  rw [hreads]
  rfl

theorem readUTF16_pair {c c' : UInt8} (hhigh : IsHigh (wordAt [b, b'] 0 littleEndian))
    (hlow : IsLow (wordAt [c, c'] 0 littleEndian)) (rest : List UInt8) :
    readUTF16 littleEndian (b :: b' :: c :: c' :: rest) =
      .ok (4, 0x10000 + (wordAt [b, b'] 0 littleEndian % 1024 * 1024 +
        wordAt [c, c'] 0 littleEndian % 1024)) := by
  refine readUTF16_eq_ok.mpr ⟨(if_pos hhigh).trans (if_neg (not_not_intro hlow)), ?_⟩
  exact Nat.le_add_left 4 rest.length

theorem readUTF16_broken {c c' : UInt8} (hhigh : IsHigh (wordAt [b, b'] 0 littleEndian))
    (hword : ¬IsLow (wordAt [c, c'] 0 littleEndian)) (rest : List UInt8) :
    readUTF16 littleEndian (b :: b' :: c :: c' :: rest) = .error .refused := by
  have hparse : parseUTF16Codepoint (b :: b' :: c :: c' :: rest) littleEndian = none :=
    (if_pos hhigh).trans (if_pos hword)
  rw [readUTF16, hparse]
  have hreads : (if wordAt (b :: b' :: c :: c' :: rest) 0 littleEndian / 1024 = 54 then 4 else 2) =
      4 := if_pos hhigh
  rw [hreads]
  exact if_neg (Nat.not_lt.mpr (Nat.le_add_left 4 rest.length))

end Words

/-- One round of reading that does not fail. -/
theorem decode_step {parse : List UInt8 → Except Fault (ℕ × ℕ)} {bs rest : List UInt8}
    {fuel value : ℕ} (hne : bs ≠ []) (hread : parse (bs ++ rest) = .ok (bs.length, value)) :
    TwoPass.decode parse (fuel + 1) (bs ++ rest) =
      (TwoPass.decode parse fuel rest).map (value :: ·) := by
  cases hrest : TwoPass.decode parse fuel rest with
  | ok values => exact decode_append hne hread hrest
  | error e =>
    obtain ⟨c, tail, rfl⟩ := List.exists_cons_of_ne_nil hne
    have hdrop : (c :: (tail ++ rest)).drop (c :: tail).length = rest := by
      rw [← List.cons_append, List.drop_left]
    have hdemand : demand Fault.refused ((c :: tail).length ≤ (c :: (tail ++ rest)).length) =
        .ok () := by
      rw [demand_eq_ok, List.length_cons, List.length_cons, List.length_append]
      omega
    rw [List.cons_append] at hread ⊢
    rw [TwoPass.decode, hread]
    simp only [bind, Except.bind, hdemand, hdrop, hrest]
    rfl

/-- A fault in the first round. -/
theorem decode_fault {parse : List UInt8 → Except Fault (ℕ × ℕ)} {b : UInt8} {s : List UInt8}
    {fuel : ℕ} {e : Fault} (h : parse (b :: s) = .error e) :
    TwoPass.decode parse (fuel + 1) (b :: s) = .error e := by
  rw [TwoPass.decode, h]
  rfl

/-- A buffer of words, from its first word on. -/
theorem exists_of_words_cons {littleEndian : Bool} {s : List UInt8} {word : ℕ} {ws : List ℕ}
    (h : words littleEndian s = word :: ws) :
    ∃ b b' rest, s = b :: b' :: rest ∧ word = wordAt [b, b'] 0 littleEndian ∧
      words littleEndian rest = ws := by
  match s, h with
  | b :: b' :: rest, h =>
    rw [words] at h
    obtain ⟨hword, hrest⟩ := List.cons.inj h
    exact ⟨b, b', rest, rfl, hword.symm, hrest⟩

theorem eq_nil_of_words {littleEndian : Bool} {s : List UInt8} (heven : s.length % 2 = 0)
    (h : words littleEndian s = []) : s = [] := by
  match s, h with
  | [], _ => rfl
  | [b], _ => cases heven
  | b :: b' :: rest, h =>
    rw [words] at h
    cases h

section Kinds

variable {littleEndian : Bool} {ws cps : List ℕ} {s : List UInt8} {fuel : ℕ}

/-- Reading goes on behind a word that is no high surrogate. -/
theorem decode_unit {word : ℕ} (hword : ¬IsHigh word) (hs : words littleEndian s = word :: ws)
    (heven : s.length % 2 = 0) (hfuel : s.length ≤ fuel) :
    ∃ rest fuel', words littleEndian rest = ws ∧ rest.length % 2 = 0 ∧ rest.length ≤ fuel' ∧
      TwoPass.decode (readUTF16 littleEndian) fuel s =
        (TwoPass.decode (readUTF16 littleEndian) fuel' rest).map (word :: ·) := by
  obtain ⟨b, b', rest, rfl, rfl, hrest⟩ := exists_of_words_cons hs
  simp only [List.length_cons] at heven hfuel
  obtain ⟨fuel, rfl⟩ := Nat.exists_eq_succ_of_ne_zero (by omega : fuel ≠ 0)
  exact ⟨rest, fuel, hrest, by omega, by omega,
    decode_step (List.cons_ne_nil b [b']) (readUTF16_unit hword rest)⟩

/-- Reading goes on behind a pair of surrogates. -/
theorem decode_pair {high low : ℕ} (hhigh : IsHigh high) (hlow : IsLow low)
    (hs : words littleEndian s = high :: low :: ws) (heven : s.length % 2 = 0)
    (hfuel : s.length ≤ fuel) :
    ∃ rest fuel', words littleEndian rest = ws ∧ rest.length % 2 = 0 ∧ rest.length ≤ fuel' ∧
      TwoPass.decode (readUTF16 littleEndian) fuel s =
        (TwoPass.decode (readUTF16 littleEndian) fuel' rest).map
          ((0x10000 + (high % 1024 * 1024 + low % 1024)) :: ·) := by
  obtain ⟨b, b', tail, rfl, rfl, htail⟩ := exists_of_words_cons hs
  obtain ⟨c, c', rest, rfl, rfl, hrest⟩ := exists_of_words_cons htail
  simp only [List.length_cons] at heven hfuel
  obtain ⟨fuel, rfl⟩ := Nat.exists_eq_succ_of_ne_zero (by omega : fuel ≠ 0)
  exact ⟨rest, fuel, hrest, by omega, by omega,
    decode_step (List.cons_ne_nil b [b', c, c']) (readUTF16_pair hhigh hlow rest)⟩

/-- **Words that are code points are read.** -/
theorem decode_codePoints (h : CodePoints ws cps) (hs : words littleEndian s = ws)
    (heven : s.length % 2 = 0) (hfuel : s.length ≤ fuel) :
    TwoPass.decode (readUTF16 littleEndian) fuel s = .ok cps := by
  induction h generalizing s fuel with
  | nil =>
    rw [eq_nil_of_words heven hs]
    cases fuel <;> rfl
  | unit hword _ ih =>
    obtain ⟨rest, fuel', hrest, heven', hfuel', hstep⟩ := decode_unit hword hs heven hfuel
    rw [hstep, ih hrest heven' hfuel']
    rfl
  | pair hhigh hlow _ ih =>
    obtain ⟨rest, fuel', hrest, heven', hfuel', hstep⟩ := decode_pair hhigh hlow hs heven hfuel
    rw [hstep, ih hrest heven' hfuel']
    rfl

/-- **A broken pair is refused.** -/
theorem decode_broken (h : Broken ws) (hs : words littleEndian s = ws) (heven : s.length % 2 = 0)
    (hfuel : s.length ≤ fuel) :
    TwoPass.decode (readUTF16 littleEndian) fuel s = .error .refused := by
  induction h generalizing s fuel with
  | here hhigh hword =>
    obtain ⟨b, b', tail, rfl, rfl, htail⟩ := exists_of_words_cons hs
    obtain ⟨c, c', rest, rfl, rfl, -⟩ := exists_of_words_cons htail
    obtain ⟨fuel, rfl⟩ := Nat.exists_eq_succ_of_ne_zero
      (Nat.ne_of_gt (Nat.lt_of_lt_of_le (Nat.succ_pos _) hfuel))
    exact decode_fault (readUTF16_broken hhigh hword rest)
  | unit hword _ ih =>
    obtain ⟨rest, fuel', hrest, heven', hfuel', hstep⟩ := decode_unit hword hs heven hfuel
    rw [hstep, ih hrest heven' hfuel']
    rfl
  | pair hhigh hlow _ ih =>
    obtain ⟨rest, fuel', hrest, heven', hfuel', hstep⟩ := decode_pair hhigh hlow hs heven hfuel
    rw [hstep, ih hrest heven' hfuel']
    rfl

/-- **A high surrogate at the end is read beyond.** -/
theorem decode_cut (h : Cut ws) (hs : words littleEndian s = ws) (heven : s.length % 2 = 0)
    (hfuel : s.length ≤ fuel) :
    TwoPass.decode (readUTF16 littleEndian) fuel s = .error .outside := by
  induction h generalizing s fuel with
  | here hhigh =>
    obtain ⟨b, b', rest, rfl, rfl, hrest⟩ := exists_of_words_cons hs
    simp only [List.length_cons] at heven hfuel
    obtain rfl := eq_nil_of_words (by omega : rest.length % 2 = 0) hrest
    obtain ⟨fuel, rfl⟩ := Nat.exists_eq_succ_of_ne_zero (by omega : fuel ≠ 0)
    exact decode_fault (readUTF16_cut hhigh)
  | unit hword _ ih =>
    obtain ⟨rest, fuel', hrest, heven', hfuel', hstep⟩ := decode_unit hword hs heven hfuel
    rw [hstep, ih hrest heven' hfuel']
    rfl
  | pair hhigh hlow _ ih =>
    obtain ⟨rest, fuel', hrest, heven', hfuel', hstep⟩ := decode_pair hhigh hlow hs heven hfuel
    rw [hstep, ih hrest heven' hfuel']
    rfl

end Kinds

/-- Whatever is read can be written as UTF-8. -/
theorem lt_of_readUTF16 {littleEndian : Bool} {s : List UInt8} {used value : ℕ}
    (h : readUTF16 littleEndian s = .ok (used, value)) : value < 0x110000 := by
  have hparse := (readUTF16_eq_ok.mp h).1
  have hword : wordAt s 0 littleEndian < 65536 := by
    have hb : ∀ i, byteAt s i < 256 := fun i => (s.getD i 0).toNat_lt
    have h0 := hb 0
    have h1 := hb 1
    cases littleEndian
    · exact (by omega : byteAt s 0 * 256 + byteAt s 1 < 65536)
    · exact (by omega : byteAt s 0 + byteAt s 1 * 256 < 65536)
  rw [parseUTF16Codepoint] at hparse
  dsimp only at hparse
  split at hparse
  · split at hparse
    · cases hparse
    · cases hparse
      omega
  · cases hparse
    omega

theorem utf8Length_of_lt {cp : ℕ} (h : cp < 0x110000) :
    utf8Length cp = some (utf8Of cp).length :=
  utf8Length_of_encode (encodeUTF8Codepoint_of_lt h)

/-- Whatever is decoded can be written as UTF-8. -/
theorem lt_of_decode {littleEndian : Bool} {fuel : ℕ} {s : List UInt8} {cps : List ℕ}
    (h : TwoPass.decode (readUTF16 littleEndian) fuel s = .ok cps) :
    ∀ cp ∈ cps, cp < 0x110000 := by
  induction fuel generalizing s cps with
  | zero =>
    cases s with
    | nil =>
      cases h
      exact fun cp hcp => absurd hcp List.not_mem_nil
    | cons b s => cases h
  | succ fuel ih =>
    cases s with
    | nil =>
      cases h
      exact fun cp hcp => absurd hcp List.not_mem_nil
    | cons b s =>
      rw [TwoPass.decode] at h
      simp only [bind_eq_ok, demand_eq_ok, Except.ok.injEq] at h
      obtain ⟨⟨used, value⟩, hread, ⟨⟩, hused, values, hvalues, rfl⟩ := h
      exact List.forall_mem_cons.mpr ⟨lt_of_readUTF16 hread, ih hvalues⟩

theorem encodeUTF8Into_of_lt {cp : ℕ} (h : cp < 0x110000) (room : ℕ) :
    encodeUTF8Into room cp = if (utf8Of cp).length ≤ room then some (utf8Of cp) else none := by
  rw [encodeUTF8Into, utf8Length_of_lt h]
  dsimp only
  by_cases hroom : (utf8Of cp).length ≤ room
  · rw [if_pos hroom, if_neg (by omega), encodeUTF8Codepoint_of_lt h]
  · rw [if_neg hroom, if_pos (by omega)]

theorem length_utf8Text (cps : List ℕ) :
    (cps.map fun cp => (utf8Of cp).length).sum = (utf8Text cps).length := by
  rw [utf8Text, List.length_flatMap]

/-- A fault of the reading ends the passes. -/
theorem storePasses_of_error {littleEndian : Bool} {rest : List UInt8} {e : Fault}
    (h : TwoPass.decode (readUTF16 littleEndian) rest.length rest = .error e) :
    storePasses littleEndian rest = .error e := by
  have hmeasure : TwoPass.measure (readUTF16 littleEndian) utf8Encoder rest.length rest =
      .error e :=
    TwoPass.measure_of_decode_error h fun _ _ _ hread =>
      ⟨_, utf8Length_of_lt (lt_of_readUTF16 hread)⟩
  rw [storePasses, hmeasure]
  rfl

/-- **What the passes make of code points**: their number of bytes in UTF-8 is counted with 32
bits. -/
theorem storePasses_of_ok {littleEndian : Bool} {rest : List UInt8} {cps : List ℕ}
    (h : TwoPass.decode (readUTF16 littleEndian) rest.length rest = .ok cps) :
    storePasses littleEndian rest =
      if scmMaxStringLen < unsignedInt (utf8Text cps).length then .error .refused
      else if (utf8Text cps).length ≤ scmMaxStringLen then .ok (utf8Text cps)
      else .error .noRoom := by
  have hlt := lt_of_decode h
  have hmeasure : TwoPass.measure (readUTF16 littleEndian) utf8Encoder rest.length rest =
      .ok (utf8Text cps).length := by
    rw [← length_utf8Text]
    exact TwoPass.measure_of_decode h fun cp hcp => utf8Length_of_lt (hlt cp hcp)
  have hbytes : ∀ cp ∈ cps, ∀ room, utf8Encoder.write room cp =
      if (utf8Of cp).length ≤ room then some (utf8Of cp) else none :=
    fun cp hcp room => encodeUTF8Into_of_lt (hlt cp hcp) room
  rw [storePasses, hmeasure]
  by_cases hcount : scmMaxStringLen < unsignedInt (utf8Text cps).length
  · rw [if_pos hcount]
    have hdemand : demand Fault.refused (unsignedInt (utf8Text cps).length ≤ scmMaxStringLen) =
        .error .refused := if_neg (Nat.not_le.mpr hcount)
    simp only [bind, Except.bind, hdemand]
  · rw [if_neg hcount]
    have hdemand : demand Fault.refused (unsignedInt (utf8Text cps).length ≤ scmMaxStringLen) =
        .ok () := demand_eq_ok.mpr (Nat.not_lt.mp hcount)
    simp only [bind, Except.bind, hdemand]
    by_cases hlen : (utf8Text cps).length ≤ scmMaxStringLen
    · rw [if_pos hlen, unsignedInt_of_le hlen]
      exact TwoPass.fill_of_decode h
        (fun cp hcp room hroom => (hbytes cp hcp room).trans (if_pos hroom)) le_rfl
    · rw [if_neg hlen]
      exact TwoPass.fill_of_room h hbytes
        (Nat.lt_of_le_of_lt (Nat.not_lt.mp hcount) (Nat.not_le.mp hlen))

/-- A high surrogate is no byte order mark. -/
theorem bodyUTF16_of_high {buffer : List UInt8} (h : IsHigh (wordAt buffer 0 false)) :
    bodyUTF16 buffer = (false, buffer) := by
  have hswapped : wordAt buffer 0 false ≠ scmBOMMarkerSwapped := fun heq =>
    absurd (heq ▸ h) (by decide : ¬scmBOMMarkerSwapped / 1024 = 54)
  have hmark : wordAt buffer 0 false ≠ scmBOMMarker := fun heq =>
    absurd (heq ▸ h) (by decide : ¬scmBOMMarker / 1024 = 54)
  rw [bodyUTF16, if_neg hswapped, if_neg hmark]

/-- The first reading of `fromUTF16`, where it does not fail. -/
theorem fromUTF16Passes_of_read {buffer : List UInt8} {used value : ℕ}
    (hlen : buffer.length ≠ 0) (heven : buffer.length % 2 = 0)
    (hread : readUTF16 false buffer = .ok (used, value))
    (hbody : (if used = 2 ∧ value = scmBOMMarkerSwapped then (true, buffer.drop 2)
      else if used = 2 ∧ value = scmBOMMarker then (false, buffer.drop 2)
      else (false, buffer)) = bodyUTF16 buffer) :
    fromUTF16Passes buffer = storePasses (bodyUTF16 buffer).1 (bodyUTF16 buffer).2 := by
  have hdemand : demand Fault.refused (buffer.length % 2 = 0) = .ok () := demand_eq_ok.mpr heven
  rw [fromUTF16Passes, if_neg hlen]
  simp only [bind, Except.bind, hdemand, hread, hbody]

/-- The first reading of `fromUTF16`, where it fails: the passes begin with the same one. -/
theorem fromUTF16Passes_of_fault {b : UInt8} {s : List UInt8} {e : Fault}
    (heven : (b :: s).length % 2 = 0) (hhigh : IsHigh (wordAt (b :: s) 0 false))
    (hread : readUTF16 false (b :: s) = .error e) :
    fromUTF16Passes (b :: s) =
      storePasses (bodyUTF16 (b :: s)).1 (bodyUTF16 (b :: s)).2 := by
  have hdemand : demand Fault.refused ((b :: s).length % 2 = 0) = .ok () := demand_eq_ok.mpr heven
  have hlen : (b :: s).length ≠ 0 := Nat.succ_ne_zero s.length
  rw [bodyUTF16_of_high hhigh, storePasses_of_error (decode_fault hread), fromUTF16Passes,
    if_neg hlen]
  simp only [bind, Except.bind, hdemand, hread]

/-- **The first reading of `fromUTF16`** only finds the byte order. -/
theorem fromUTF16Passes_eq {buffer : List UInt8} (heven : buffer.length % 2 = 0) :
    fromUTF16Passes buffer = storePasses (bodyUTF16 buffer).1 (bodyUTF16 buffer).2 := by
  match buffer, heven with
  | [], _ => exact (storePasses_eq_ok.mpr ⟨rfl, Nat.zero_le _⟩).symm
  | [b], heven => cases heven
  | b :: b' :: rest, heven =>
    by_cases hhigh : IsHigh (wordAt [b, b'] 0 false)
    · match rest, heven with
      | [], heven => exact fromUTF16Passes_of_fault heven hhigh (readUTF16_cut hhigh)
      | [c], heven =>
        simp only [List.length_cons, List.length_nil] at heven
        omega
      | c :: c' :: rest, heven =>
        by_cases hlow : IsLow (wordAt [c, c'] 0 false)
        · refine fromUTF16Passes_of_read (Nat.succ_ne_zero _) heven
            (readUTF16_pair hhigh hlow rest) ?_
          have hbody : bodyUTF16 (b :: b' :: c :: c' :: rest) =
              (false, b :: b' :: c :: c' :: rest) := bodyUTF16_of_high hhigh
          rw [hbody, if_neg (fun h => absurd h.1 (by decide)),
            if_neg (fun h => absurd h.1 (by decide))]
        · exact fromUTF16Passes_of_fault heven hhigh (readUTF16_broken hhigh hlow rest)
    · refine fromUTF16Passes_of_read (Nat.succ_ne_zero _) heven (readUTF16_unit hhigh rest) ?_
      simp only [true_and]
      rfl

/-! ### What may come -/

/-- The words behind the byte order mark, if there is one, in their byte order. -/
def wordsOf (buffer : List UInt8) : List ℕ := words (bodyUTF16 buffer).1 (bodyUTF16 buffer).2

theorem length_bodyUTF16_even {buffer : List UInt8} (heven : buffer.length % 2 = 0) :
    (bodyUTF16 buffer).2.length % 2 = 0 := by
  rw [bodyUTF16]
  split_ifs
  · rw [List.length_drop]
    omega
  · rw [List.length_drop]
    omega
  · exact heven

/-- What `fromUTF16` should be for a buffer from anywhere: nothing outside of the buffer is read,
and the object is as it was or has a text that can be sent again. -/
def FromUTF16Safe (mValue buffer : List UInt8) : Prop :=
  runFromUTF16 mValue buffer = some (false, mValue) ∨
    ∃ storage t, runFromUTF16 mValue buffer = some (true, storage) ∧
      ∀ paBufferSize, t.length ≤ paBufferSize → toUTF16Passes paBufferSize storage = .ok t

/-- **Which texts can be sent**: those without a surrogate. -/
theorem toUTF16_utf8Text_eq_some_iff {cps : List ℕ} (hlt : ∀ cp ∈ cps, cp < 0x110000) :
    (∃ t, toUTF16 (utf8Text cps) = some t) ↔ ∀ cp ∈ cps, IsScalar cp := by
  constructor
  · rintro ⟨t, ht⟩ cp hcp
    have hmeasure := measure_of_toUTF16Loop ht
    obtain ⟨n, hn⟩ := TwoPass.length_of_measure hmeasure (decode_utf8Text hlt le_rfl) cp hcp
    rw [utf16Encoder] at hn
    dsimp only at hn
    split at hn
    · rename_i hmark
      rw [hmark]
      decide
    · rw [utf16Length] at hn
      split at hn
      · cases hn
      · rw [IsScalar]
        omega
  · exact fun h => ⟨_, toUTF16_utf8Text h⟩

/-- What is stored of code points, if they are not too many, is safe unless there is a surrogate
among them. -/
theorem fromUTF16Safe_of_ok {mValue buffer : List UInt8} {cps : List ℕ}
    (heven : buffer.length % 2 = 0)
    (h : TwoPass.decode (readUTF16 (bodyUTF16 buffer).1) (bodyUTF16 buffer).2.length
      (bodyUTF16 buffer).2 = .ok cps) :
    FromUTF16Safe mValue buffer ↔
      scmMaxStringLen < unsignedInt (utf8Text cps).length ∨
        ((utf8Text cps).length ≤ scmMaxStringLen ∧ ∀ cp ∈ cps, IsScalar cp) := by
  have hpasses := (fromUTF16Passes_eq heven).trans (storePasses_of_ok h)
  rw [FromUTF16Safe, runFromUTF16, hpasses]
  by_cases hcount : scmMaxStringLen < unsignedInt (utf8Text cps).length
  · rw [if_pos hcount]
    exact iff_of_true (.inl rfl) (.inl hcount)
  rw [if_neg hcount]
  by_cases hlen : (utf8Text cps).length ≤ scmMaxStringLen
  · rw [if_pos hlen, ← toUTF16_utf8Text_eq_some_iff (lt_of_decode h)]
    constructor
    · rintro (hrun | ⟨storage, t, hrun, ht⟩)
      · cases hrun
      · cases hrun
        exact .inr ⟨hlen, t, (toUTF16Passes_eq_ok.mp (ht _ le_rfl)).1⟩
    · rintro (hlong | ⟨-, t, ht⟩)
      · exact absurd hlong hcount
      · exact .inr ⟨_, t, rfl, fun n hn => toUTF16Passes_eq_ok.mpr ⟨ht, hn⟩⟩
  · rw [if_neg hlen]
    refine iff_of_false ?_ ?_
    · rintro (hrun | ⟨storage, t, hrun, -⟩)
      · cases hrun
      · cases hrun
    · rintro (hlong | ⟨hle, -⟩)
      · exact hcount hlong
      · exact hlen hle

/-- Words are of one kind only, and are the code points of one text only. -/
theorem decode_eq_of_codePoints {littleEndian : Bool} {s : List UInt8} {cps cps' : List ℕ}
    (heven : s.length % 2 = 0) (h : CodePoints (words littleEndian s) cps)
    (h' : TwoPass.decode (readUTF16 littleEndian) s.length s = .ok cps') : cps = cps' :=
  Except.ok.inj ((decode_codePoints h rfl heven le_rfl).symm.trans h')

/-- **When `fromUTF16` is safe**: for a buffer of an odd length, which is refused, and for one
whose words, behind the byte order mark, begin with whole code points up to a high surrogate with
another word than a low surrogate behind it, which is refused too, or are all whole code points
that are no surrogates, or too many. -/
theorem fromUTF16_safe_iff (mValue buffer : List UInt8) :
    FromUTF16Safe mValue buffer ↔
      buffer.length % 2 = 1 ∨ Broken (wordsOf buffer) ∨
        ∃ cps, CodePoints (wordsOf buffer) cps ∧
          (scmMaxStringLen < unsignedInt (utf8Text cps).length ∨
            ((utf8Text cps).length ≤ scmMaxStringLen ∧ ∀ cp ∈ cps, IsScalar cp)) := by
  by_cases hodd : buffer.length % 2 = 1
  · have hrefused : fromUTF16Passes buffer = .error .refused := by
      have hdemand : demand Fault.refused (buffer.length % 2 = 0) = .error .refused :=
        if_neg (by omega)
      rw [fromUTF16Passes, if_neg (by omega)]
      simp only [bind, Except.bind, hdemand]
    refine iff_of_true (.inl ?_) (.inl hodd)
    rw [runFromUTF16, hrefused]
  have heven : buffer.length % 2 = 0 := by omega
  have hbody := length_bodyUTF16_even heven
  rw [or_iff_right hodd]
  rcases codePoints_or_broken_or_cut (wordsOf buffer) with ⟨cps, h⟩ | h | h
  · have hdecode := decode_codePoints h rfl hbody le_rfl
    rw [fromUTF16Safe_of_ok heven hdecode]
    constructor
    · exact fun hcps => .inr ⟨cps, h, hcps⟩
    · rintro (hbroken | ⟨cps', h', hcps⟩)
      · cases hdecode.symm.trans (decode_broken hbroken rfl hbody le_rfl)
      · rwa [← decode_eq_of_codePoints hbody h' hdecode]
  · refine iff_of_true (.inl ?_) (.inl h)
    rw [runFromUTF16, (fromUTF16Passes_eq heven).trans
      (storePasses_of_error (decode_broken h rfl hbody le_rfl))]
  · have hdecode := decode_cut h rfl hbody le_rfl
    refine iff_of_false ?_ ?_
    · rw [FromUTF16Safe, runFromUTF16, (fromUTF16Passes_eq heven).trans
        (storePasses_of_error hdecode)]
      rintro (hrun | ⟨storage, t, hrun, -⟩)
      · cases hrun
      · cases hrun
    · rintro (hbroken | ⟨cps, h', -⟩)
      · cases hdecode.symm.trans (decode_broken hbroken rfl hbody le_rfl)
      · cases hdecode.symm.trans (decode_codePoints h' rfl hbody le_rfl)

/-- **Buffers that are not safe**: a single high surrogate is read with the word behind the
buffer, and a single low surrogate is stored and cannot be sent. -/
theorem fromUTF16_single_surrogate :
    runFromUTF16 [] [0xd8, 0x00] = none ∧
      runFromUTF16 [] [0xdc, 0x00] = some (true, utf8Text [0xdc00]) ∧
      (∀ paBufferSize, toUTF16Passes paBufferSize (utf8Text [0xdc00]) = .error .refused) ∧
      ¬FromUTF16Safe [] [0xd8, 0x00] ∧ ¬FromUTF16Safe [] [0xdc, 0x00] := by
  have hhigh : runFromUTF16 [] [0xd8, 0x00] = none := by decide
  have hlow : runFromUTF16 [] [0xdc, 0x00] = some (true, utf8Text [0xdc00]) := by decide
  have hmeasure : TwoPass.measure readUTF8 utf16Encoder (utf8Text [0xdc00]).length
      (utf8Text [0xdc00]) = .error .refused := by decide
  have hsend : ∀ paBufferSize,
      toUTF16Passes paBufferSize (utf8Text [0xdc00]) = .error .refused := by
    intro paBufferSize
    rw [toUTF16Passes, hmeasure]
    rfl
  refine ⟨hhigh, hlow, hsend, ?_, ?_⟩
  · rw [FromUTF16Safe, hhigh]
    rintro (hrun | ⟨storage, t, hrun, -⟩)
    · cases hrun
    · cases hrun
  · rw [FromUTF16Safe, hlow]
    rintro (hrun | ⟨storage, t, hrun, ht⟩)
    · cases hrun
    · cases hrun
      cases (ht _ le_rfl).symm.trans (hsend t.length)

end Forte
