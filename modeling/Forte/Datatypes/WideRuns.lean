import Mathlib.Logic.Function.Basic
import Forte.Datatypes.WideConversion
import Forte.Lib.Runs

/-!
# The bounds of wide strings

Any number of `CIEC_WSTRING` are assigned, appended to, read from texts and concatenated, in any
order. What is asked of every step is that it writes nothing outside of the memory of a string,
that no string is longer than its capacity, and that the text is the one that was to be stored, or
its beginning where there is more than the maximum length.

`Forte.AnyString.each_meets` has a condition under which this is so. Most operations always do what
they should; it is `append`, and the concatenation with it, that adds two lengths in 16 bits. For
a sum from 65536 on no room is got, and the bytes are written all the same
(`Forte.AnyString.append_eq_none`). A length of 65535 is not truncated, and a count of 16 or 32
bits of what a text has may be too small (`Forte.AnyString.Fits`).
-/

namespace Forte.AnyString

open StringFixed (cString)

/-- An operation on a wide string, of those of which `ι` is the type. -/
inductive Operation (ι : Type)
  | assign (paData : Source) (paLen : UInt16)
  | append (paData : Text) (paLen : UInt16)
  | appendChars (paData : Text)
  | reserve (paRequestedSize : UInt16)
  | fromUTF8 (paValue : Text) (paLen : ℤ) (paUnescape : Bool)
  | fromUTF16 (paBuffer : List UInt8)
  | fromString (paValue : Text)
  /-- The assignment of `func_CONCAT` of two strings. -/
  | concat (paIn1 paIn2 : ι)

/-- An operation on a string, with what is in the memory that it gets. -/
structure Step (ι : Type) where
  fresh : ℕ → UInt8
  string : ι
  operation : Operation ι

variable {ι : Type}

/-- The storage of a string after an operation on it. -/
def after (fresh : ℕ → UInt8) (m : ι → Storage) (x : ι) : Operation ι → Option Storage
  | .assign paData paLen => AnyString.assign fresh paData paLen.toNat (m x)
  | .append paData paLen => AnyString.append fresh paData paLen.toNat (m x)
  | .appendChars paData => AnyString.appendChars fresh paData (m x)
  | .reserve paRequestedSize => AnyString.reserve fresh paRequestedSize.toNat (m x)
  | .fromUTF8 paValue paLen paUnescape =>
    (AnyString.fromUTF8 fresh paValue paLen paUnescape (m x)).map Prod.snd
  | .fromUTF16 paBuffer => (AnyString.fromUTF16 fresh paBuffer (m x)).map Prod.snd
  | .fromString paValue => (AnyString.fromString fresh paValue (m x)).map Prod.snd
  | .concat y z =>
    (AnyString.concat fresh (m y) (m z)).bind fun temp =>
      AnyString.assign fresh (.memory temp.getValue) temp.length (m x)

/-- The storage of all strings, until something is written outside of it. -/
abbrev State (ι : Type) : Type := Option (ι → Storage)

/-- An operation on a string. -/
def step [DecidableEq ι] (s : State ι) (st : Step ι) : State ι :=
  s.bind fun m => (after st.fresh m st.string st.operation).map (Function.update m st.string)

/-- Before anything has happened no string has memory. -/
def initial : State ι := some fun _ => .null

/-! ### What the operations are for -/

/-- The length of the text that is given to `fromUTF8`: that of a literal goes up to the closing
quote, and it is negative if there is none. -/
def textLength (paValue : Text) (paLen : ℤ) (paUnescape : Bool) : ℤ :=
  if 0 ≤ paLen then paLen
  else if paUnescape = true ∧ paValue.at 0 = '"'.toUInt8 then
    match closingDelimiter '"'.toUInt8 (paValue.drop 1) with
    | some n => n + 2
    | none => -1
  else (cString paValue).length

/-- The first bytes of a text, as many as can be held. -/
def truncated (t : Text) : Text := t.take scmMaxStringLen

/-- **The text that an operation is to store.** -/
def Intended (m : ι → Storage) (x : ι) (t : Text) : Operation ι → Prop
  | .assign .nullptr _ => t = (m x).content
  | .assign .self paLen => t = truncated (readable (m x).getValue paLen.toNat)
  | .assign (.memory paData) paLen => t = truncated (readable paData paLen.toNat)
  | .append paData paLen => t = truncated ((m x).content ++ readable paData paLen.toNat)
  | .appendChars paData => t = truncated ((m x).content ++ cString paData)
  | .reserve _ => t = (m x).content
  | .fromUTF8 paValue paLen paUnescape => ∃ nRetVal, ReadsUTF8 paValue
      (textLength paValue paLen paUnescape) paUnescape (m x).content nRetVal t
  | .fromUTF16 paBuffer => ∃ done, ReadsUTF16 paBuffer (m x).content done t
  | .fromString paValue => ∃ nRetVal, ReadsUTF8 (behindType paValue)
      (textLength (behindType paValue) (-1) ((behindType paValue).at 0 = '"'.toUInt8))
      ((behindType paValue).at 0 = '"'.toUInt8) (m x).content nRetVal t
  | .concat y z => t = truncated ((m y).content ++ (m z).content)

/-- **What is asked of a step**: nothing is written outside, no string is longer than its
capacity, the text is the intended one, and the other strings are as they were. -/
def Meets [DecidableEq ι] (s : State ι) (st : Step ι) : Prop :=
  ∃ m m', s = some m ∧ step s st = some m' ∧ (∀ y, (m' y).length ≤ (m' y).getCapacity) ∧
    Intended m st.string (m' st.string).content st.operation ∧
      ∀ y, y ≠ st.string → m' y = m y

/-- **The condition**: what is assigned or appended leaves the string no longer than the maximum
length, and the count of a text is not cut off. -/
def Fits (s : State ι) (st : Step ι) : Prop :=
  ∀ m, s = some m →
    match st.operation with
    | .assign .nullptr _ => True
    | .assign .self paLen =>
      paLen.toNat ≤ (m st.string).getCapacity ∧ paLen.toNat ≤ scmMaxStringLen
    | .assign (.memory _) paLen => paLen.toNat ≤ scmMaxStringLen
    | .append _ paLen => (m st.string).length + paLen.toNat ≤ scmMaxStringLen
    | .appendChars paData =>
      (m st.string).length + (cString paData).length ≤ scmMaxStringLen ∨
        (m st.string).length + (cString paData).length % 65536 = scmMaxStringLen
    | .reserve _ => True
    | .fromUTF8 paValue paLen paUnescape => 0 ≤ paLen ∨ textLength paValue paLen paUnescape < 2 ^ 31
    | .fromUTF16 paBuffer => Counted paBuffer
    | .fromString paValue =>
      textLength (behindType paValue) (-1) ((behindType paValue).at 0 = '"'.toUInt8) < 2 ^ 31
    | .concat y z => (m y).length + (m z).length ≤ scmMaxStringLen

/-! ### Every step of every run -/

/-- Every string holds a text that is not too long. -/
def Whole (m : ι → Storage) : Prop := ∀ y, ∃ t, (m y).Holds t ∧ t.length ≤ scmMaxStringLen

theorem truncated_of_le {t : Text} (h : t.length ≤ scmMaxStringLen) : truncated t = t :=
  List.take_of_length_le h

/-- The length is counted in an `int`. -/
theorem srcLen_eq {paValue : Text} {paLen : ℤ} {paUnescape : Bool}
    (h : 0 ≤ paLen ∨ textLength paValue paLen paUnescape < 2 ^ 31) :
    srcLen paValue paLen paUnescape = textLength paValue paLen paUnescape := by
  rw [srcLen]
  rw [textLength] at h ⊢
  by_cases hlen : 0 ≤ paLen
  · rw [if_pos hlen, if_pos hlen]
  rw [if_neg hlen] at h ⊢
  rw [if_neg hlen]
  replace h := h.resolve_left hlen
  cases paUnescape with
  | false =>
    simp only [Bool.false_eq_true, false_and, if_false] at h ⊢
    exact asInt_of_lt (Int.natCast_nonneg _) h
  | true =>
    simp only [true_and, if_true] at h ⊢
    rw [determineEscapedStringLength]
    by_cases hquote : paValue.at 0 = '"'.toUInt8
    · rw [if_pos hquote] at h ⊢
      rw [if_neg (not_not_intro hquote)]
      cases hclose : closingDelimiter '"'.toUInt8 (paValue.drop 1) with
      | none => rfl
      | some n =>
        rw [hclose] at h
        exact asInt_of_lt (by omega) h
    · rw [if_neg hquote] at h ⊢
      rw [if_pos hquote]
      exact asInt_of_lt (Int.natCast_nonneg _) h

/-- **One operation** that fits stores the intended text. -/
theorem after_spec {m : ι → Storage} (hm : Whole m) (fresh : ℕ → UInt8) (x : ι)
    (op : Operation ι) (hfits : Fits (some m) ⟨fresh, x, op⟩) :
    ∃ s' t, after fresh m x op = some s' ∧ s'.Holds t ∧ t.length ≤ scmMaxStringLen ∧
      Intended m x t op := by
  obtain ⟨t, ht, hlen⟩ := hm x
  have hcontent := ht.content_eq
  have hlength := ht.length_eq
  replace hfits := hfits m rfl
  have hmax : scmMaxStringLen < 65536 := by decide
  cases op with
  | assign paData paLen =>
    cases paData with
    | nullptr => exact ⟨m x, t, rfl, ht, hlen, hcontent.symm⟩
    | self =>
      obtain ⟨hcapacity, hle⟩ := hfits
      obtain ⟨s', hs', hholds⟩ := assign_self_spec fresh ht hcapacity
      have hvalue : (m x).getCapacity ≤ (m x).getValue.length := by
        cases hx : m x with
        | null => exact Nat.zero_le _
        | block length capacity value =>
          rw [hx] at ht
          exact (Nat.le_succ _).trans_eq ht.sized.1.symm
      have hread := readable_of_le (hcapacity.trans hvalue)
      refine ⟨s', _, hs', hholds, (List.length_take_le _ _).trans hle, ?_⟩
      rw [Intended, hread, truncated_of_le ((List.length_take_le _ _).trans hle)]
    | memory paData =>
      have hle : paLen.toNat ≤ scmMaxStringLen := hfits
      obtain ⟨s', hs', hholds⟩ := assign_spec fresh ht paData (hle.trans_lt hmax)
      have hbytes := (length_readable paData paLen.toNat).trans_le hle
      exact ⟨s', _, hs', hholds, hbytes, (truncated_of_le hbytes).symm⟩
  | append paData paLen =>
    have hle : (m x).length + paLen.toNat ≤ scmMaxStringLen := hfits
    rw [hlength] at hle
    obtain ⟨s', hs', hholds⟩ := append_spec fresh ht paData (hle.trans_lt hmax)
    have hbytes : (t ++ readable paData paLen.toNat).length ≤ scmMaxStringLen := by
      rwa [List.length_append, length_readable]
    refine ⟨s', _, hs', hholds, hbytes, ?_⟩
    rw [Intended, hcontent, truncated_of_le hbytes]
  | appendChars paData =>
    have hle : (m x).length + (cString paData).length ≤ scmMaxStringLen ∨
      (m x).length + (cString paData).length % 65536 = scmMaxStringLen := hfits
    rw [hlength] at hle
    have hsum : t.length + (cString paData).length % 65536 ≤ scmMaxStringLen := by
      have hmod := Nat.mod_le (cString paData).length 65536
      omega
    obtain ⟨s', hs', hholds⟩ := append_spec fresh ht paData (hsum.trans_lt hmax)
    have hprefix : (cString paData).length ≤ paData.length :=
      (List.takeWhile_prefix _).length_le
    have hread : readable paData ((cString paData).length % 65536) =
        (cString paData).take ((cString paData).length % 65536) := by
      rw [readable_of_le ((Nat.mod_le _ _).trans hprefix)]
      have htake : cString paData = paData.take (cString paData).length :=
        List.prefix_iff_eq_take.mp (List.takeWhile_prefix _)
      have hfirst := congrArg (List.take ((cString paData).length % 65536)) htake
      rw [List.take_take, min_eq_left (Nat.mod_le _ _)] at hfirst
      exact hfirst.symm
    rw [hread] at hholds
    refine ⟨s', _, hs', hholds, ?_, ?_⟩
    · rw [List.length_append, List.length_take]
      omega
    · rw [Intended, hcontent, truncated]
      -- what is cut off is behind the maximum length
      rcases hle with hfew | hfull
      · rw [Nat.mod_eq_of_lt (by omega), List.take_length, List.take_of_length_le (by
          rw [List.length_append]; exact hfew)]
      · have hgap : scmMaxStringLen - t.length = (cString paData).length % 65536 := by omega
        rw [List.take_append, hgap, List.take_of_length_le hlen]
  | reserve paRequestedSize =>
    obtain ⟨capacity, value, hreserve, hblock, -⟩ := reserve_spec fresh ht
      paRequestedSize.toNat_lt
    exact ⟨_, t, hreserve, hblock, hlen, hcontent.symm⟩
  | fromUTF8 paValue paLen paUnescape =>
    obtain ⟨nRetVal, s', u, hs', hholds, hu, hread⟩ :=
      fromUTF8_spec fresh ht hlen paValue paLen paUnescape
    rw [srcLen_eq hfits] at hread
    refine ⟨s', u, ?_, hholds, hu, nRetVal, ?_⟩
    · rw [after, hs']
      rfl
    · rw [hcontent]
      exact hread
  | fromUTF16 paBuffer =>
    obtain ⟨done, s', u, hs', hholds, hu, hread⟩ := fromUTF16_spec fresh ht hlen hfits
    refine ⟨s', u, ?_, hholds, hu, done, ?_⟩
    · rw [after, hs']
      rfl
    · rw [hcontent]
      exact hread
  | fromString paValue =>
    obtain ⟨nUTF8Result, s', u, hs', hholds, hu, hread⟩ :=
      fromString_spec fresh ht hlen paValue
    rw [srcLen_eq (.inr hfits)] at hread
    refine ⟨s', u, ?_, hholds, hu, nUTF8Result, ?_⟩
    · rw [after, hs']
      rfl
    · rw [hcontent]
      exact hread
  | concat y z =>
    obtain ⟨ty, hty, -⟩ := hm y
    obtain ⟨tz, htz, -⟩ := hm z
    have hle : (m y).length + (m z).length ≤ scmMaxStringLen := hfits
    rw [hty.length_eq, htz.length_eq] at hle
    obtain ⟨temp, htemp, hholds⟩ := concat_spec fresh hty htz (hle.trans_lt hmax)
    have hsum : (ty ++ tz).length ≤ scmMaxStringLen := by rwa [List.length_append]
    obtain ⟨s', hs', hholds'⟩ := assign_spec fresh ht temp.getValue
      (hsum.trans_lt hmax)
    have htext : readable temp.getValue (ty ++ tz).length = ty ++ tz := hholds.readable_eq
    refine ⟨s', ty ++ tz, ?_, htext ▸ hholds', hsum, ?_⟩
    · rw [after, htemp, Option.bind_some, hholds.length_eq, hs']
    · rw [Intended, hty.content_eq, htz.content_eq, truncated_of_le hsum]

/-- A whole state. -/
def Good (s : State ι) : Prop := ∃ m, s = some m ∧ Whole m

/-- **One step** that fits meets what is asked of it. -/
theorem meets_step [DecidableEq ι] {s : State ι} {st : Step ι} (hs : Good s) (hfits : Fits s st) :
    Good (step s st) ∧ Meets s st := by
  obtain ⟨m, rfl, hm⟩ := hs
  obtain ⟨s', t, hs', hholds, hlen, hintended⟩ :=
    after_spec hm st.fresh st.string st.operation hfits
  have hstep : step (some m) st = some (Function.update m st.string s') := by
    rw [step, Option.bind_some, hs']
    rfl
  have hself : Function.update m st.string s' st.string = s' := Function.update_self _ _ _
  have hother : ∀ y, y ≠ st.string → Function.update m st.string s' y = m y :=
    fun y hy => Function.update_of_ne hy _ _
  have hwhole : Whole (Function.update m st.string s') := by
    intro y
    by_cases hy : y = st.string
    · subst hy
      rw [hself]
      exact ⟨t, hholds, hlen⟩
    · rw [hother y hy]
      exact hm y
  refine ⟨⟨_, hstep, hwhole⟩, m, _, rfl, hstep, fun y => ?_, ?_, hother⟩
  · obtain ⟨u, hu, -⟩ := hwhole y
    rw [hu.length_eq]
    exact hu.length_le
  · rw [hself, hholds.content_eq]
    exact hintended

/-- **Every run**: all steps meet what is asked of them, if all of them fit. -/
theorem each_meets [DecidableEq ι] (steps : List (Step ι))
    (h : Runs.Each step Fits initial steps) : Runs.Each step Meets (initial : State ι) steps :=
  have hinitial : Good (initial : State ι) := ⟨_, rfl, fun _ => ⟨[], rfl, Nat.zero_le _⟩⟩
  Runs.each_of_good (fun _ _ hs hfits => meets_step hs hfits) hinitial h

/-- A string that is assigned and read again. -/
theorem each_meets_assign :
    Runs.Each step Meets (initial : State Unit)
      [⟨fun _ => 0, (), .assign (.memory (text "abc")) 3⟩,
        ⟨fun _ => 0, (), .append (text "de") 2⟩] := by
  refine each_meets _ ?_
  rintro (_ | _ | n) st hst m hm
  · cases hst
    change (3 : ℕ) ≤ 65534
    decide
  · cases hst
    cases hm
    change (3 : ℕ) + 2 ≤ 65534
    decide
  · cases hst

/-! ### Sums that do not fit -/

/-- **What is appended does not fit**: where 16 bits cannot say how long the text is then, there is
room for less than it, and it is written all the same. -/
theorem append_eq_none (fresh : ℕ → UInt8) {s : Storage} {t : Text} (h : s.Holds t) (paData : Text)
    {paLen : ℕ} (hlen : paLen < 65536) (hsum : 65536 ≤ t.length + paLen) :
    append fresh paData paLen s = none := by
  have hbytes := length_readable paData paLen
  cases s with
  | null =>
    cases h
    rw [List.length_nil] at hsum
    omega
  | block length capacity value =>
    obtain ⟨hvalue, hcapacity, rfl, -⟩ := h.sized
    have hle : t.length ≤ capacity := h.length_le
    have hgap : ((Storage.block t.length capacity value).getCapacity : ℤ) -
        (Storage.block t.length capacity value).length < paLen := by
      change (capacity : ℤ) - (t.length : ℤ) < paLen
      omega
    -- the room that is asked for is less than there is
    have hreserve : reserve fresh ((t.length + paLen) % 65536)
        (.block t.length capacity value) = some (.block t.length capacity value) := by
      refine if_neg ?_
      change ¬capacity < (t.length + paLen) % 65536 + 1
      omega
    have hzero : ¬paLen = 0 := by omega
    change (if paLen = 0 then _ else _) = none
    rw [if_neg hzero]
    change Option.bind (if _ < (paLen : ℤ) then
      reserve fresh ((t.length + paLen) % 65536) (.block t.length capacity value) else _) _ = none
    rw [if_pos hgap, hreserve, Option.bind_some]
    change (((overwrite value t.length (readable paData paLen)).map
      (Storage.block t.length capacity)).bind _) = none
    cases hwrite : overwrite value t.length (readable paData paLen) with
    | none => rfl
    | some v =>
      have hroom := (overwrite_eq_some_iff.mp hwrite).1
      have hlast : overwrite v (t.length + paLen) [0] = none := by
        rw [overwrite_eq_none_iff, length_of_overwrite hwrite, hvalue, List.length_singleton]
        omega
      rw [Option.map_some, Option.bind_some, Storage.terminate, Storage.setLength, Storage.write]
      change Option.map _ (overwrite v (t.length + paLen) [0]) = none
      rw [hlast]
      rfl

/-- Two bytes behind a text of the maximum length. -/
theorem not_each_meets_append :
    ¬∀ steps : List (Step Unit), Runs.Each step Meets initial steps := by
  intro h
  obtain ⟨m, m', hm, hm', -⟩ := h [⟨fun _ => 0, (), .assign (.memory []) 65534⟩,
    ⟨fun _ => 0, (), .append [] 2⟩] 1 _ rfl
  obtain ⟨s', hs', hholds⟩ := assign_spec (fun _ => 0) (s := .null) (t := []) rfl []
    (by decide : 65534 < 65536)
  have hrun : Runs.run step (initial : State Unit)
      [⟨fun _ => 0, (), .assign (.memory []) 65534⟩] =
        some (Function.update (fun _ => .null) () s') := by
    have hlen : (65534 : UInt16).toNat = 65534 := by decide
    rw [Runs.run, List.foldl_cons, List.foldl_nil, initial, step, Option.bind_some, after, hlen,
      hs']
    rfl
  rw [hm] at hm'
  obtain rfl := Option.some.inj (hrun.symm.trans hm)
  have hbytes := length_readable [] 65534
  have happend := append_eq_none (fun _ => 0) hholds [] (by decide : 2 < 65536) (by omega)
  have hnone : step (some (Function.update (fun _ => Storage.null) () s'))
      ⟨fun _ => 0, (), .append [] 2⟩ = none := by
    have hlen : (2 : UInt16).toNat = 2 := by decide
    rw [step, Option.bind_some, after, hlen, Function.update_self, happend]
    rfl
  exact nomatch hnone.symm.trans hm'

end Forte.AnyString
