import Forte.Datatypes.NumberScanning
import Forte.Lib.NativeInt

/-!
# Literals of times of day

`CIEC_TIME_OF_DAY::fromString` and `toString`. The parts of a literal are scanned one behind the
other by `strtoul` and go through an `int` each, where what does not fit is undefined behaviour.

* **What is asked** of a text is in `Forte.TimeOfDayLiteral.Meets`: a literal with all its parts in
  their ranges is read as it is written, to the millisecond, and any other text is refused.
* **When it is met** is in `Forte.TimeOfDayLiteral.Exact`. No part is compared with its range, and
  no digits are asked for: what is refused is a text in which the hours are not in front of a colon
  or the end. The digits of the fraction go into an `int` before they are cut off to three.
* **What is printed** is read back to the millisecond
  (`Forte.TimeOfDayLiteral.meets_iff_and_restores`).
-/

namespace Forte.TimeOfDayLiteral

/-! ### `fromString` -/

/-- A number in an `int`; `none` is undefined behaviour. -/
def toInt (x : ℤ) : Option ℤ := if NativeType.int.Fits x then some x else none

/-- The text behind the name of the type and its hash, or `none` where the hash is missing. -/
def skipType (acBuffer : Text) : Option Text :=
  if tolower (acBuffer.at 0) = 't'.toUInt8 then
    let acBuffer : Text :=
      if tolower (acBuffer.at 1) = 'o'.toUInt8 ∧ tolower (acBuffer.at 2) = 'd'.toUInt8 then
        acBuffer.drop 3
      else if (text "time_of_day").isPrefixOf acBuffer || (text "TIME_OF_DAY").isPrefixOf acBuffer
        then acBuffer.drop 11
      else acBuffer
    if acBuffer.at 0 = '#'.toUInt8 then some (acBuffer.drop 1) else none
  else some acBuffer

/-- `static_cast<int>(strtoul(acBuffer, &acBuffer, 10))`. -/
def readPart (acBuffer : Text) : ℤ × Text :=
  let read := Scanner.strtoul.convert 10 acBuffer
  (NativeType.int.wrap read.value.toNat, read.rest)

/-- The loop over the digits of the fraction: `msec` and `nNums`. -/
def readDigits : ℤ → ℕ → Text → Option (ℤ × ℕ × Text)
  | msec, nNums, [] => some (msec, nNums, [])
  | msec, nNums, c :: acBuffer =>
    if isDigit c then
      (toInt (10 * msec)).bind fun msec =>
        (toInt (msec + charHexDigitToInt c)).bind fun msec =>
          readDigits msec ((nNums + 1) % 2 ^ 32) acBuffer
    else some (msec, nNums, c :: acBuffer)

/-- The loop in which a fraction of less than three digits is filled up. -/
def scaleUp : ℕ → ℤ → Option ℤ
  | 0, msec => some msec
  | n + 1, msec => (toInt (msec * 10)).bind (scaleUp n)

/-- The loop in which a longer one is cut off. -/
def scaleDown : ℕ → ℤ → ℤ
  | 0, msec => msec
  | n + 1, msec => scaleDown n (msec.tdiv 10)

/-- The milliseconds of a fraction, and the text behind it. -/
def readFraction (acBuffer : Text) : Option (ℤ × Text) :=
  (readDigits 0 0 acBuffer).bind fun (msec, nNums, rest) =>
    if nNums < 3 then (scaleUp (3 - nNums) msec).map (·, rest)
    else some (scaleDown (nNums - 3) msec, rest)

/-- What is stored: the seconds are an `int`, and the rest has 64 bits. -/
def store (tm_hour tm_min tm_sec msec : ℤ) : Option (BitVec 64) :=
  (toInt (tm_hour * 3600)).bind fun hours =>
    (toInt (tm_min * 60)).bind fun minutes =>
      (toInt (hours + minutes)).bind fun sum =>
        (toInt (sum + tm_sec)).map fun seconds =>
          (BitVec.ofInt 64 seconds * 1000 + BitVec.ofInt 64 msec) * 1000000

/-- The text is at its end. -/
def atEnd (acBuffer : Text) : Prop := acBuffer.at 0 = 0

instance (acBuffer : Text) : Decidable (atEnd acBuffer) :=
  inferInstanceAs (Decidable (acBuffer.at 0 = 0))

/-- The parts of a text behind its type: hours, minutes, seconds and milliseconds, and the text
behind them. The inner `none` is a text that is refused. -/
def readParts (acBuffer : Text) : Option (Option ((ℤ × ℤ × ℤ × ℤ) × Text)) :=
  if atEnd acBuffer then some none
  else
    let hour := readPart acBuffer
    if hour.2.at 0 = ':'.toUInt8 then
      let min := readPart (hour.2.drop 1)
      if min.2.at 0 = ':'.toUInt8 then
        let sec := readPart (min.2.drop 1)
        if sec.2.at 0 = '.'.toUInt8 then
          (readFraction (sec.2.drop 1)).map fun (msec, rest) =>
            some ((hour.1, min.1, sec.1, msec), rest)
        else some (some ((hour.1, min.1, sec.1, 0), sec.2))
      else some (some ((hour.1, min.1, 0, 0), min.2))
    else if atEnd hour.2 then some (some ((hour.1, 0, 0, 0), hour.2))
    else some none

/-- `CIEC_TIME_OF_DAY::fromString`: what it returns, and what is stored then; `none` is undefined
behaviour. -/
def fromString (data : BitVec 64) (paValue : Text) : Option (ℤ × BitVec 64) :=
  match skipType paValue with
  | none => some (-1, data)
  | some acBuffer =>
    (readParts acBuffer).bind fun parts =>
      match parts with
      | none => some (-1, data)
      | some ((tm_hour, tm_min, tm_sec, msec), rest) =>
        (store tm_hour tm_min tm_sec msec).map (asInt (paValue.length - rest.length), ·)

/-- `CIEC_TIME_OF_DAY::toString`. -/
def toString (data : BitVec 64) : Text := DateType.timeOfDayToString (text "TOD#") data

/-! ### Literals -/

/-- The name of the type in front of a literal, with its hash. -/
inductive TypePrefix : Text → Prop
  | none : TypePrefix []
  | short (t o d : UInt8) (ht : tolower t = 't'.toUInt8) (ho : tolower o = 'o'.toUInt8)
      (hd : tolower d = 'd'.toUInt8) : TypePrefix [t, o, d, '#'.toUInt8]
  | lower : TypePrefix (text "time_of_day#")
  | upper : TypePrefix (text "TIME_OF_DAY#")

/-- A literal, with the digits of its parts. -/
structure Literal where
  typePrefix : Text
  hour : Text
  minute : Text
  second : Text
  fraction : Option Text

namespace Literal

/-- The fraction with its point. -/
def fractionText : Option Text → Text
  | none => []
  | some ds => '.'.toUInt8 :: ds

/-- The text of a literal. -/
def render (l : Literal) : Text :=
  l.typePrefix ++ (l.hour ++ ':'.toUInt8 :: (l.minute ++ ':'.toUInt8 :: (l.second ++
    fractionText l.fraction)))

/-- The number of decimal digits. -/
abbrev decimalValue (ds : Text) : ℕ := numeral 10 0 ds

/-- The milliseconds of a fraction; what is behind the third digit is cut off. -/
def milliseconds : Option Text → ℕ
  | none => 0
  | some ds => decimalValue ds * 1000 / 10 ^ ds.length

/-- The nanoseconds that are written. -/
def nanoseconds (l : Literal) : ℕ :=
  ((decimalValue l.hour * 3600 + decimalValue l.minute * 60 + decimalValue l.second) * 1000 +
    milliseconds l.fraction) * 1000000

/-- Digits, at least one. -/
def Digits (ds : Text) : Prop := ds ≠ [] ∧ ∀ c ∈ ds, isDigit c = true

/-- All parts are there, and each is in its range. -/
structure Proper (l : Literal) : Prop where
  typePrefix : TypePrefix l.typePrefix
  hour : Digits l.hour ∧ decimalValue l.hour < 24
  minute : Digits l.minute ∧ decimalValue l.minute < 60
  second : Digits l.second ∧ decimalValue l.second < 60
  fraction : ∀ ds ∈ l.fraction, Digits ds

/-- The text behind a literal: nothing of it could be a part of the literal. -/
structure EndsAt (l : Literal) (rest : Text) : Prop where
  digit : isDigit (rest.at 0) = false
  point : l.fraction = none → rest.at 0 ≠ '.'.toUInt8

/-- The text begins with a literal. -/
def Begins (l : Literal) (t rest : Text) : Prop := l.Proper ∧ t = l.render ++ rest ∧ l.EndsAt rest

end Literal

/-- **What is asked of `fromString`**, whatever was stored before. -/
structure Meets (t : Text) : Prop where
  literal : ∀ data (l : Literal) rest, l.Begins t rest →
    l.nanoseconds < 24 * 3600 * 1000000000 ∧
      fromString data t = some (↑l.render.length, BitVec.ofNat 64 l.nanoseconds)
  other : (¬∃ (l : Literal) (rest : Text), l.Begins t rest) →
    ∀ data, fromString data t = some (-1, data)

/-- Behind the type there are the digits of the hours, or none, in front of a colon or of the
end. -/
def HoursInFront (t : Text) : Prop :=
  ∃ acBuffer, skipType t = some acBuffer ∧ ¬atEnd acBuffer ∧
    Literal.decimalValue (acBuffer.takeWhile isDigit) < 2 ^ 32 ∧
      (Text.at (acBuffer.dropWhile isDigit) 0 = ':'.toUInt8 ∨ atEnd (acBuffer.dropWhile isDigit))

/-- All digits of the fraction together fit into an `int`, and so does the length; and a text
without a literal does not begin like one. -/
structure Exact (t : Text) : Prop where
  literal : ∀ (l : Literal) rest, l.Begins t rest →
    (∀ ds ∈ l.fraction, Literal.decimalValue ds < 2 ^ 31) ∧ l.render.length < 2 ^ 31
  other : (¬∃ (l : Literal) (rest : Text), l.Begins t rest) → ¬HoursInFront t

/-! ### The parts -/

section Parts

variable {ds u : Text}

/-- What fits into an `int` and is not negative. -/
theorem toInt_natCast (v : ℕ) : toInt v = if v < 2 ^ 31 then some (v : ℤ) else none := by
  rw [toInt]
  refine if_congr ?_ rfl rfl
  constructor
  · intro h
    have hmax : (v : ℤ) ≤ 2 ^ 31 - 1 := h.2
    omega
  · intro h
    have hmax : (v : ℤ) ≤ 2 ^ 31 - 1 := by omega
    exact ⟨(by decide : NativeType.int.min ≤ 0).trans (Int.natCast_nonneg v), hmax⟩

/-- **A part is read**, if its digits fit into an `int`. -/
theorem readPart_of_digits (hds : ∀ c ∈ ds, isDigit c = true) (hu : isDigit (u.at 0) = false)
    (hlt : numeral 10 0 ds < 2 ^ 31) : readPart (ds ++ u) = (↑(numeral 10 0 ds), u) := by
  have hscan : Scanner.strtoul.scan 10 (ds ++ u) = _ :=
    Scanner.strtoul_of_lt hds hu (hlt.trans (by decide))
  have hfits : NativeType.int.Fits (numeral 10 0 ds) := by
    have hmax : (numeral 10 0 ds : ℤ) ≤ 2 ^ 31 - 1 := by omega
    exact ⟨(by decide : NativeType.int.min ≤ 0).trans (Int.natCast_nonneg _), hmax⟩
  rw [readPart, Scanner.convert, hscan]
  simp only [Bool.false_eq_true, if_false]
  rw [BitVec.toNat_ofNat, Nat.mod_eq_of_lt (by omega), hfits.wrap_eq]

/-- Where a part ends: behind the digits that are there, or in front of a digit. -/
theorem readPart_rest (t : Text) :
    (readPart t).2 = t.dropWhile isDigit ∧ numeral 10 0 (t.takeWhile isDigit) < 2 ^ 32 ∨
      isDigit ((readPart t).2.at 0) = true ∧ 2 ^ 32 ≤ numeral 10 0 (t.takeWhile isDigit) := by
  have hds : ∀ c ∈ t.takeWhile isDigit, isDigit c = true := fun c hc => List.mem_takeWhile_imp hc
  have hu : isDigit (Text.at (t.dropWhile isDigit) 0) = false := by
    have hhead := List.head?_dropWhile_not isDigit t
    cases hrest : t.dropWhile isDigit with
    | nil => rfl
    | cons c u =>
      rw [hrest] at hhead
      exact hhead
  have hsplit : t.takeWhile isDigit ++ t.dropWhile isDigit = t := List.takeWhile_append_dropWhile
  rcases Nat.lt_or_ge (numeral 10 0 (t.takeWhile isDigit)) (2 ^ 32) with hlt | hle
  · have hscan : Scanner.strtoul.scan 10 t = _ :=
      (congrArg _ hsplit.symm).trans (Scanner.strtoul_of_lt hds hu hlt)
    refine .inl ⟨?_, hlt⟩
    rw [readPart, Scanner.convert, hscan]
    rfl
  · obtain ⟨herange, hdigit⟩ := Scanner.strtoul_of_le (u := t.dropWhile isDigit) hds hle
    rw [hsplit] at herange hdigit
    have herange : (Scanner.strtoul.scan 10 t).erange = true := herange
    refine .inr ⟨?_, hle⟩
    rw [readPart, Scanner.convert, if_pos herange]
    exact hdigit

/-! ### The fraction -/

theorem numeral_lt_pow (hds : ∀ c ∈ ds, isDigit c = true) : numeral 10 0 ds < 10 ^ ds.length := by
  induction ds using List.reverseRecOn with
  | nil => exact Nat.one_pos
  | append_singleton ds c ih =>
    have hlast := lt_of_isDigit c (hds c (List.mem_append_right ds (List.mem_singleton_self c)))
    have hfirst := ih fun d hd => hds d (List.mem_append_left [c] hd)
    have hvalue : numeral 10 0 (ds ++ [c]) = 10 * numeral 10 0 ds + charHexDigitToInt c :=
      numeral_append 10 0 ds [c]
    rw [hvalue, List.length_append, List.length_singleton, Nat.pow_succ]
    omega

/-- The loop over the digits of the fraction. -/
theorem readDigits_of_digits (hds : ∀ c ∈ ds, isDigit c = true) (hu : isDigit (u.at 0) = false)
    (v : ℕ) {n : ℕ} (hn : n < 2 ^ 32) : readDigits v n (ds ++ u) =
      if numeral 10 v ds < 2 ^ 31 ∨ ds = [] then
        some (↑(numeral 10 v ds), (n + ds.length) % 2 ^ 32, u)
      else none := by
  induction ds generalizing v n with
  | nil =>
    rw [if_pos (.inr rfl), List.length_nil, Nat.add_zero, Nat.mod_eq_of_lt hn]
    cases u with
    | nil => rfl
    | cons c u =>
      have hc : ¬isDigit c = true := Bool.eq_false_iff.mp hu
      rw [List.nil_append, readDigits, if_neg hc]
      rfl
  | cons c ds ih =>
    have hc := hds c List.mem_cons_self
    have hge := le_numeral (by decide : 0 < 10) (10 * v + charHexDigitToInt c) ds
    have hmul : 10 * (v : ℤ) = (10 * v : ℕ) := by push_cast; rfl
    have hadd : ((10 * v : ℕ) : ℤ) + charHexDigitToInt c = (10 * v + charHexDigitToInt c : ℕ) := by
      push_cast
      rfl
    rw [List.cons_append, readDigits, if_pos hc, hmul, toInt_natCast, numeral_cons,
      List.length_cons]
    by_cases hfit : 10 * v + charHexDigitToInt c < 2 ^ 31
    · have hne : ¬c :: ds = [] := List.cons_ne_nil c ds
      have hdigits := ih (fun d hd => hds d (List.mem_cons_of_mem c hd))
        (10 * v + charHexDigitToInt c) (Nat.mod_lt (n + 1) (by decide))
      rw [if_pos (by omega), Option.bind_some, hadd, toInt_natCast, if_pos hfit, Option.bind_some,
        hdigits]
      have hcount : ((n + 1) % 2 ^ 32 + ds.length) % 2 ^ 32 = (n + (ds.length + 1)) % 2 ^ 32 := by
        omega
      rw [hcount]
      refine if_congr ?_ rfl rfl
      constructor
      · rintro (h | rfl)
        · exact .inl h
        · exact .inl hfit
      · intro h
        exact .inl (h.resolve_right hne)
    · rw [if_neg (not_or.mpr ⟨by omega, List.cons_ne_nil c ds⟩)]
      split
      · rw [Option.bind_some, hadd, toInt_natCast, if_neg hfit]
        rfl
      · rfl

theorem scaleUp_eq {n v : ℕ} (h : v * 10 ^ n < 2 ^ 31) : scaleUp n v = some (↑(v * 10 ^ n)) := by
  induction n generalizing v with
  | zero =>
    rw [Nat.pow_zero, Nat.mul_one]
    rfl
  | succ n ih =>
    have hassoc : v * 10 ^ (n + 1) = v * 10 * 10 ^ n := by
      rw [Nat.pow_succ', Nat.mul_assoc]
    have hle : v * 10 ≤ v * 10 * 10 ^ n := Nat.le_mul_of_pos_right _ (Nat.pow_pos (by decide))
    have hmul : (v : ℤ) * 10 = (v * 10 : ℕ) := by push_cast; rfl
    rw [hassoc] at h ⊢
    rw [scaleUp, hmul, toInt_natCast, if_pos (by omega), Option.bind_some, ih h]

theorem scaleDown_eq (n v : ℕ) : scaleDown n v = ↑(v / 10 ^ n) := by
  induction n generalizing v with
  | zero =>
    rw [Nat.pow_zero, Nat.div_one]
    rfl
  | succ n ih =>
    have hdiv : (v : ℤ).tdiv 10 = (v / 10 : ℕ) := by
      rw [Int.tdiv_eq_ediv_of_nonneg (Int.natCast_nonneg v)]
      norm_cast
    rw [scaleDown, hdiv, ih, Nat.div_div_eq_div_mul, Nat.pow_succ']

/-- **A fraction is read**, if all its digits together fit into an `int`. -/
theorem readFraction_of_lt (hds : ∀ c ∈ ds, isDigit c = true) (hu : isDigit (u.at 0) = false)
    (hlt : numeral 10 0 ds < 2 ^ 31) (hlen : ds.length < 2 ^ 32) :
    readFraction (ds ++ u) = some (↑(numeral 10 0 ds * 1000 / 10 ^ ds.length), u) := by
  have hread := readDigits_of_digits hds hu 0 (n := 0) (by decide)
  rw [if_pos (.inl hlt), Nat.zero_add, Nat.mod_eq_of_lt hlen] at hread
  rw [readFraction]
  have hzero : ((0 : ℕ) : ℤ) = 0 := rfl
  rw [← hzero, hread, Option.bind_some]
  have hpow := numeral_lt_pow hds
  dsimp only
  split_ifs with hshort
  · obtain ⟨k, hk⟩ : ∃ k, ds.length + k = 3 := ⟨3 - ds.length, by omega⟩
    have hthousand : 1000 = 10 ^ ds.length * 10 ^ k := by rw [← Nat.pow_add, hk]
    have hvalue : numeral 10 0 ds * 1000 / 10 ^ ds.length = numeral 10 0 ds * 10 ^ k := by
      rw [hthousand, Nat.mul_left_comm, Nat.mul_div_cancel_left _ (Nat.pow_pos (by decide))]
    have hsmall : numeral 10 0 ds * 10 ^ k < 1000 := by
      rw [hthousand]
      exact Nat.mul_lt_mul_of_pos_right hpow (Nat.pow_pos (by decide))
    have hrounds : 3 - ds.length = k := by omega
    rw [hvalue, hrounds, scaleUp_eq (by omega)]
    rfl
  · obtain ⟨k, hk⟩ : ∃ k, ds.length = 3 + k := ⟨ds.length - 3, by omega⟩
    have hrounds : ds.length - 3 = k := by omega
    have hthousand : (10 : ℕ) ^ ds.length = 10 ^ k * 1000 := by
      rw [hk, Nat.pow_add, Nat.mul_comm]
    rw [hrounds, scaleDown_eq, hthousand, Nat.mul_div_mul_right _ _ (by decide)]

theorem readFraction_of_le (hds : ∀ c ∈ ds, isDigit c = true) (hu : isDigit (u.at 0) = false)
    (hle : 2 ^ 31 ≤ numeral 10 0 ds) : readFraction (ds ++ u) = none := by
  have hne : ¬(numeral 10 0 ds < 2 ^ 31 ∨ ds = []) := by
    rintro (h | rfl)
    · omega
    · exact absurd hle (by decide)
  have hread := readDigits_of_digits hds hu 0 (n := 0) (by decide)
  rw [if_neg hne] at hread
  have hzero : ((0 : ℕ) : ℤ) = 0 := rfl
  rw [readFraction, ← hzero, hread]
  rfl

/-- Behind a fraction the text goes on, however long the fraction is. -/
theorem readFraction_rest (hds : ∀ c ∈ ds, isDigit c = true) (hu : isDigit (u.at 0) = false)
    {read : ℤ × Text} (h : readFraction (ds ++ u) = some read) : read.2 = u := by
  have hread := readDigits_of_digits hds hu 0 (n := 0) (by decide)
  have hzero : ((0 : ℕ) : ℤ) = 0 := rfl
  rw [readFraction, ← hzero, hread] at h
  split at h
  · rw [Option.bind_some] at h
    dsimp only at h
    split at h
    · obtain ⟨msec, -, rfl⟩ := Option.map_eq_some_iff.mp h
      rfl
    · rw [← Option.some.inj h]
  · cases h

end Parts

/-! ### Literals are read -/

section Literals

variable {l : Literal} {t rest : Text}

theorem tolower_ne_of_isDigit (c : UInt8) : isDigit c = true → tolower c ≠ 't'.toUInt8 := by
  revert c
  exact forall_byte (by decide +kernel)

/-- **The type is passed over.** -/
theorem skipType_append {name body : Text} (h : TypePrefix name)
    (hbody : isDigit (body.at 0) = true) : skipType (name ++ body) = some body := by
  have hhash : Text.at ('#'.toUInt8 :: body) 0 = '#'.toUInt8 := rfl
  cases h with
  | none => exact if_neg (tolower_ne_of_isDigit _ hbody)
  | short t o d ht ho hd =>
    have hfirst : tolower (Text.at ([t, o, d, '#'.toUInt8] ++ body) 0) = 't'.toUInt8 := ht
    have hrest : tolower (Text.at ([t, o, d, '#'.toUInt8] ++ body) 1) = 'o'.toUInt8 ∧
        tolower (Text.at ([t, o, d, '#'.toUInt8] ++ body) 2) = 'd'.toUInt8 := ⟨ho, hd⟩
    rw [skipType, if_pos hfirst, if_pos hrest]
    exact if_pos hhash
  | lower =>
    have hname : (text "time_of_day").isPrefixOf (text "time_of_day#" ++ body) = true :=
      List.isPrefixOf_iff_prefix.mpr ⟨'#'.toUInt8 :: body, rfl⟩
    have hfirst : tolower (Text.at (text "time_of_day#" ++ body) 0) = 't'.toUInt8 := rfl
    have hrest : ¬(tolower (Text.at (text "time_of_day#" ++ body) 1) = 'o'.toUInt8 ∧
        tolower (Text.at (text "time_of_day#" ++ body) 2) = 'd'.toUInt8) :=
      fun h => absurd h.1 (by decide : tolower 'i'.toUInt8 ≠ 'o'.toUInt8)
    rw [skipType, if_pos hfirst, if_neg hrest, hname, Bool.true_or, if_pos rfl]
    exact if_pos hhash
  | upper =>
    have hname : (text "TIME_OF_DAY").isPrefixOf (text "TIME_OF_DAY#" ++ body) = true :=
      List.isPrefixOf_iff_prefix.mpr ⟨'#'.toUInt8 :: body, rfl⟩
    have hfirst : tolower (Text.at (text "TIME_OF_DAY#" ++ body) 0) = 't'.toUInt8 := rfl
    have hrest : ¬(tolower (Text.at (text "TIME_OF_DAY#" ++ body) 1) = 'o'.toUInt8 ∧
        tolower (Text.at (text "TIME_OF_DAY#" ++ body) 2) = 'd'.toUInt8) :=
      fun h => absurd h.1 (by decide : tolower 'I'.toUInt8 ≠ 'o'.toUInt8)
    rw [skipType, if_pos hfirst, if_neg hrest, hname, Bool.or_true, if_pos rfl]
    exact if_pos hhash

/-- What is read behind the digits of the seconds. -/
def readMilliseconds (fraction : Option Text) (rest : Text) : Option (ℤ × Text) :=
  match fraction with
  | none => some (0, rest)
  | some ds => readFraction (ds ++ rest)

theorem at_digits {ds : Text} (h : Literal.Digits ds) (u : Text) :
    isDigit (Text.at (ds ++ u) 0) = true := by
  obtain ⟨c, cs, rfl⟩ := List.exists_cons_of_ne_nil h.1
  exact h.2 c List.mem_cons_self

/-- **The parts of a literal.** -/
theorem readParts_of_proper (h : l.Proper) (hend : l.EndsAt rest) :
    readParts (l.hour ++ ':'.toUInt8 :: (l.minute ++ ':'.toUInt8 :: (l.second ++
        (Literal.fractionText l.fraction ++ rest)))) =
      (readMilliseconds l.fraction rest).map fun read =>
        some ((↑(Literal.decimalValue l.hour), ↑(Literal.decimalValue l.minute),
          ↑(Literal.decimalValue l.second), read.1), read.2) := by
  obtain ⟨-, ⟨hhour, hhlt⟩, ⟨hminute, hmlt⟩, ⟨hsecond, hslt⟩, hfraction⟩ := h
  have hcolon (u : Text) : isDigit (Text.at (':'.toUInt8 :: u) 0) = false := rfl
  have hread (ds u : Text) (hds : Literal.Digits ds) (hlt : Literal.decimalValue ds < 60)
      (hu : isDigit (u.at 0) = false) : readPart (ds ++ u) = (↑(Literal.decimalValue ds), u) :=
    readPart_of_digits hds.2 hu (hlt.trans (by decide))
  have hstart (u : Text) : ¬atEnd (l.hour ++ u) := by
    intro hzero
    have hdigit := at_digits hhour u
    rw [hzero] at hdigit
    cases hdigit
  have hat (u : Text) : Text.at (':'.toUInt8 :: u) 0 = ':'.toUInt8 := rfl
  rw [readParts, if_neg (hstart _)]
  simp only [hread _ _ hhour (hhlt.trans (by decide)) (hcolon _),
    hread _ _ hminute hmlt (hcolon _), hat, if_true, List.drop_succ_cons, List.drop_zero]
  cases hf : l.fraction with
  | none =>
    have hpoint := hend.point hf
    rw [Literal.fractionText, List.nil_append, hread _ _ hsecond hslt hend.digit]
    exact if_neg hpoint
  | some ds =>
    have hdot : isDigit (Text.at ('.'.toUInt8 :: (ds ++ rest)) 0) = false := rfl
    have hpoint : Text.at ('.'.toUInt8 :: (ds ++ rest)) 0 = '.'.toUInt8 := rfl
    rw [Literal.fractionText, List.cons_append, hread _ _ hsecond hslt hdot]
    simp only [hpoint, if_true, List.drop_succ_cons, List.drop_zero]
    rfl

/-- The seconds of a day fit into an `int`. -/
theorem store_of_lt {h m s ms : ℕ} (hh : h < 24) (hm : m < 60) (hs : s < 60) :
    store h m s ms =
      some (BitVec.ofNat 64 (((h * 3600 + m * 60 + s) * 1000 + ms) * 1000000)) := by
  have hhours : (h : ℤ) * 3600 = (h * 3600 : ℕ) := by push_cast; rfl
  have hminutes : (m : ℤ) * 60 = (m * 60 : ℕ) := by push_cast; rfl
  have hsum : ((h * 3600 : ℕ) : ℤ) + (m * 60 : ℕ) = (h * 3600 + m * 60 : ℕ) := by push_cast; rfl
  have hall : ((h * 3600 + m * 60 : ℕ) : ℤ) + s = (h * 3600 + m * 60 + s : ℕ) := by
    push_cast
    rfl
  have hvalue (seconds : ℕ) : BitVec.ofNat 64 ((seconds * 1000 + ms) * 1000000) =
      (BitVec.ofNat 64 seconds * 1000 + BitVec.ofNat 64 ms) * 1000000 := by
    rw [BitVec.ofNat_mul, BitVec.ofNat_add, BitVec.ofNat_mul]
    rfl
  rw [store, hhours, toInt_natCast, if_pos (by omega), Option.bind_some, hminutes, toInt_natCast,
    if_pos (by omega), Option.bind_some, hsum, toInt_natCast, if_pos (by omega), Option.bind_some,
    hall, toInt_natCast, if_pos (by omega), Option.map_some, BitVec.ofInt_natCast,
    BitVec.ofInt_natCast, hvalue]

/-- **What is done with a literal.** -/
theorem fromString_of_begins (h : l.Begins t rest) (data : BitVec 64) :
    fromString data t = (readMilliseconds l.fraction rest).bind fun read =>
      (store ↑(Literal.decimalValue l.hour) ↑(Literal.decimalValue l.minute)
        ↑(Literal.decimalValue l.second) read.1).map (asInt (t.length - read.2.length), ·) := by
  obtain ⟨hproper, rfl, hend⟩ := h
  have hbody : l.render ++ rest = l.typePrefix ++ (l.hour ++ ':'.toUInt8 :: (l.minute ++
      ':'.toUInt8 :: (l.second ++ (Literal.fractionText l.fraction ++ rest)))) := by
    simp only [Literal.render, List.append_assoc, List.cons_append]
  rw [fromString, hbody, skipType_append hproper.typePrefix (at_digits hproper.hour.1 _)]
  dsimp only
  rw [readParts_of_proper hproper hend]
  cases readMilliseconds l.fraction rest <;> rfl

theorem length_fraction_le {ds : Text} (h : ds ∈ l.fraction) :
    ds.length ≤ l.render.length := by
  have hf : l.fraction = some ds := h
  simp only [Literal.render, hf, Literal.fractionText, List.length_append, List.length_cons]
  omega

/-- **A literal is read as it is written**, within the bounds. -/
theorem fromString_of_bounds (h : l.Begins t rest)
    (hfraction : ∀ ds ∈ l.fraction, Literal.decimalValue ds < 2 ^ 31)
    (hlen : l.render.length < 2 ^ 31) (data : BitVec 64) :
    fromString data t = some (↑l.render.length, BitVec.ofNat 64 l.nanoseconds) := by
  have hread : readMilliseconds l.fraction rest =
      some (↑(Literal.milliseconds l.fraction), rest) := by
    cases hf : l.fraction with
    | none => rfl
    | some ds =>
      have hmem : ds ∈ l.fraction := hf
      have hle := length_fraction_le hmem
      exact readFraction_of_lt (h.1.fraction ds hmem).2 h.2.2.digit (hfraction ds hmem) (by omega)
  have hlength : asInt (t.length - rest.length) = l.render.length := by
    have hdiff : (t.length : ℤ) - rest.length = l.render.length := by
      rw [h.2.1, List.length_append]
      push_cast
      omega
    rw [hdiff]
    exact asInt_of_lt (Int.natCast_nonneg _) (by exact_mod_cast hlen)
  rw [fromString_of_begins h, hread, Option.bind_some, hlength,
    store_of_lt h.1.hour.2 h.1.minute.2 h.1.second.2]
  rfl

/-- **Beyond the bounds it is not.** -/
theorem bounds_of_fromString (h : l.Begins t rest) {data : BitVec 64} {w : BitVec 64}
    (hread : fromString data t = some (↑l.render.length, w)) :
    (∀ ds ∈ l.fraction, Literal.decimalValue ds < 2 ^ 31) ∧ l.render.length < 2 ^ 31 := by
  rw [fromString_of_begins h] at hread
  obtain ⟨read, hmsec, hread⟩ := Option.bind_eq_some_iff.mp hread
  obtain ⟨value, -, hvalue⟩ := Option.map_eq_some_iff.mp hread
  constructor
  · intro ds hds
    have hf : l.fraction = some ds := hds
    by_contra hle
    rw [hf, readMilliseconds, readFraction_of_le (h.1.fraction ds hds).2 h.2.2.digit
      (Nat.not_lt.mp hle)] at hmsec
    cases hmsec
  · have hrest : read.2 = rest := by
      cases hf : l.fraction with
      | none =>
        rw [hf] at hmsec
        rw [← Option.some.inj hmsec]
      | some ds =>
        rw [hf] at hmsec
        exact readFraction_rest (h.1.fraction ds hf).2 h.2.2.digit hmsec
    have hlength := congrArg Prod.fst hvalue
    have hdiff : (t.length : ℤ) - rest.length = l.render.length := by
      rw [h.2.1, List.length_append]
      push_cast
      omega
    dsimp only at hlength
    rw [hrest, hdiff] at hlength
    have hrange : asInt l.render.length < 2 ^ 31 := by
      have := Int.bmod_lt (x := (l.render.length : ℤ)) (m := 2 ^ 32) (by decide)
      rw [asInt]
      omega
    rw [hlength] at hrange
    exact_mod_cast hrange

end Literals

/-! ### Other texts -/

section Others

variable {t acBuffer : Text}

/-- A text is refused where there are no hours in front. -/
theorem readParts_eq_none_iff (hend : ¬atEnd acBuffer) :
    readParts acBuffer = some none ↔
      ¬(Literal.decimalValue (acBuffer.takeWhile isDigit) < 2 ^ 32 ∧
        (Text.at (acBuffer.dropWhile isDigit) 0 = ':'.toUInt8 ∨
          atEnd (acBuffer.dropWhile isDigit))) := by
  rw [readParts, if_neg hend]
  dsimp only
  rcases readPart_rest acBuffer with ⟨hrest, hlt⟩ | ⟨hdigit, hle⟩
  · rw [hrest]
    split_ifs with hcolon hcolon' hpoint hdone
    · refine iff_of_false (fun h => ?_) (not_not_intro ⟨hlt, .inl hcolon⟩)
      obtain ⟨read, -, hread⟩ := Option.map_eq_some_iff.mp h
      cases hread
    · exact iff_of_false (fun h => by cases h) (not_not_intro ⟨hlt, .inl hcolon⟩)
    · exact iff_of_false (fun h => by cases h) (not_not_intro ⟨hlt, .inl hcolon⟩)
    · exact iff_of_false (fun h => by cases h) (not_not_intro ⟨hlt, .inr hdone⟩)
    · exact iff_of_true rfl fun h => h.2.elim hcolon hdone
  · -- the hours do not fit, and what is behind them begins with the digit that was too much
    have hcolon : ¬(readPart acBuffer).2.at 0 = ':'.toUInt8 :=
      ne_of_isDigit hdigit (by decide)
    have hdone : ¬atEnd (readPart acBuffer).2 := ne_of_isDigit hdigit (by decide)
    rw [if_neg hcolon, if_neg hdone]
    exact iff_of_true rfl fun h => absurd h.1 (Nat.not_lt.mpr hle)

theorem fromString_of_not_hoursInFront (h : ¬HoursInFront t) (data : BitVec 64) :
    fromString data t = some (-1, data) := by
  rw [fromString]
  cases htype : skipType t with
  | none => rfl
  | some acBuffer =>
    by_cases hend : atEnd acBuffer
    · dsimp only
      rw [readParts, if_pos hend]
      rfl
    · have hread := (readParts_eq_none_iff hend).mpr fun hhours => h ⟨acBuffer, htype, hend, hhours⟩
      dsimp only
      rw [hread]
      rfl

/-- Where there are hours in front, a value is stored, or there is undefined behaviour. -/
theorem fromString_of_hoursInFront (h : HoursInFront t) (data data' : BitVec 64) :
    fromString data t = fromString data' t := by
  obtain ⟨acBuffer, htype, hend, hhours⟩ := h
  have hread := mt (readParts_eq_none_iff hend).mp (not_not_intro hhours)
  rw [fromString, fromString, htype]
  dsimp only
  cases hparts : readParts acBuffer with
  | none => rfl
  | some parts =>
    cases parts with
    | none => exact absurd hparts hread
    | some parts => rfl

end Others

/-- **When a text is read as it is asked.** -/
theorem meets_iff_exact (t : Text) : Meets t ↔ Exact t := by
  constructor
  · rintro ⟨hliteral, hother⟩
    refine ⟨fun l rest h => bounds_of_fromString h (hliteral 0 l rest h).2, fun hno hhours => ?_⟩
    have hrefused := (hother hno 0).symm.trans
      ((fromString_of_hoursInFront hhours 0 1).trans (hother hno 1))
    exact absurd (Option.some.inj hrefused) (by decide)
  · rintro ⟨hliteral, hother⟩
    refine ⟨fun data l rest h => ?_, fun hno => fromString_of_not_hoursInFront (hother hno)⟩
    obtain ⟨hfraction, hlen⟩ := hliteral l rest h
    refine ⟨?_, fromString_of_bounds h hfraction hlen data⟩
    have hms : Literal.milliseconds l.fraction < 1000 := by
      cases hf : l.fraction with
      | none => exact Nat.zero_lt_succ 999
      | some ds =>
        have hpow := numeral_lt_pow (h.1.fraction ds hf).2
        exact Nat.div_lt_of_lt_mul (Nat.mul_lt_mul_of_pos_right hpow (by decide))
    have hhour := h.1.hour.2
    have hminute := h.1.minute.2
    have hsecond := h.1.second.2
    rw [Literal.nanoseconds]
    omega

/-! ### What is printed -/

/-- The digits of a number that is written with zeros in front. -/
theorem appendInt_natCast (n v : ℕ) :
    (∀ c ∈ appendInt n v, isDigit c = true) ∧ (appendInt n v).length = n ∧
      numeral 10 0 (appendInt n v) = v % 10 ^ n := by
  induction n generalizing v with
  | zero => exact ⟨fun c hc => absurd hc List.not_mem_nil, rfl, (Nat.mod_one v).symm⟩
  | succ n ih =>
    have hdiv : (v : ℤ).tdiv 10 = (v / 10 : ℕ) := by
      rw [Int.tdiv_eq_ediv_of_nonneg (Int.natCast_nonneg v)]
      norm_cast
    have hmod : ('0'.toNat + (v : ℤ).tmod 10).toNat = '0'.toNat + v % 10 := by
      rw [Int.tmod_eq_emod_of_nonneg (Int.natCast_nonneg v)]
      omega
    have hlast : ∀ d < 10, isDigit (UInt8.ofNat ('0'.toNat + d)) = true ∧
        charHexDigitToInt (UInt8.ofNat ('0'.toNat + d)) = d := by decide
    obtain ⟨hdigit, hvalue⟩ := hlast (v % 10) (Nat.mod_lt v (by decide))
    obtain ⟨hdigits, hlength, hnumeral⟩ := ih (v / 10)
    rw [appendInt, hdiv, hmod]
    refine ⟨fun c hc => ?_, ?_, ?_⟩
    · rcases List.mem_append.mp hc with hc | hc
      · exact hdigits c hc
      · rw [List.mem_singleton.mp hc]
        exact hdigit
    · rw [List.length_append, hlength]
      rfl
    · rw [numeral_append, hnumeral, numeral_cons, hvalue, Nat.pow_succ', Nat.mod_mul, numeral,
        List.foldl_nil, Nat.add_comm]

theorem digits_appendInt (n v : ℕ) : Literal.Digits (appendInt (n + 1) v) := by
  obtain ⟨hdigits, hlength, -⟩ := appendInt_natCast (n + 1) v
  exact ⟨List.ne_nil_of_length_eq_add_one hlength, hdigits⟩

/-- The literal that is printed. -/
def printed (data : BitVec 64) : Literal where
  typePrefix := text "TOD#"
  hour := appendInt 2 (data.toNat / 1000000000 / 3600 : ℕ)
  minute := appendInt 2 (data.toNat / 1000000000 % 3600 / 60 : ℕ)
  second := appendInt 2 (data.toNat / 1000000000 % 60 : ℕ)
  fraction := some (appendInt 3 (data.toNat / 1000000 % 1000 : ℕ))

theorem toString_eq_render (data : BitVec 64) :
    toString data = (printed data).render ++ [] := by
  have hcolon : text ":" = [':'.toUInt8] := rfl
  have hpoint : text "." = ['.'.toUInt8] := rfl
  rw [List.append_nil]
  simp only [toString, DateType.timeOfDayToString, clockToString, Literal.render, printed,
    Literal.fractionText, hcolon, hpoint, List.append_assoc, List.cons_append, List.nil_append]

/-- What is printed of a time below 24 hours is a literal. -/
theorem begins_toString {data : BitVec 64} (h : data.toNat < 24 * 3600 * 1000000000) :
    (printed data).Begins (toString data) [] := by
  have hvalue (n v : ℕ) (hv : v < 10 ^ n) : Literal.decimalValue (appendInt n v) = v :=
    (appendInt_natCast n v).2.2.trans (Nat.mod_eq_of_lt hv)
  refine ⟨⟨.short _ _ _ rfl rfl rfl, ⟨digits_appendInt _ _, ?_⟩, ⟨digits_appendInt _ _, ?_⟩,
    ⟨digits_appendInt _ _, ?_⟩, fun ds hds => ?_⟩, toString_eq_render data, rfl, fun hnone => ?_⟩
  · have hlt : data.toNat / 1000000000 / 3600 < 24 := by omega
    exact (hvalue 2 _ (by omega)).trans_lt hlt
  · exact (hvalue 2 _ (by omega)).trans_lt (by omega)
  · exact (hvalue 2 _ (by omega)).trans_lt (by omega)
  · rw [← Option.some.inj hds]
    exact digits_appendInt _ _
  · cases hnone

/-- **What is printed is read back**, to the millisecond. -/
theorem fromString_toString {data : BitVec 64}
    (h : data.toNat < 24 * 3600 * 1000000000) (data₀ : BitVec 64) :
    fromString data₀ (toString data) =
      some (↑(toString data).length,
        BitVec.ofNat 64 (data.toNat / 1000000 * 1000000)) := by
  have hlen (n v : ℕ) : (appendInt n v).length = n := (appendInt_natCast n v).2.1
  have hvalue (n v : ℕ) (hv : v < 10 ^ n) : Literal.decimalValue (appendInt n v) = v :=
    (appendInt_natCast n v).2.2.trans (Nat.mod_eq_of_lt hv)
  have hlength : (printed data).render.length = 16 := by
    simp only [Literal.render, printed, Literal.fractionText, List.length_append,
      List.length_cons, hlen]
    rfl
  have hread := fromString_of_bounds (begins_toString h)
    (fun ds hds => by
      rw [← Option.some.inj hds, hvalue 3 _ (by omega)]
      omega) (by omega) data₀
  have hns : (printed data).nanoseconds = data.toNat / 1000000 * 1000000 := by
    have hms : Literal.milliseconds (printed data).fraction = data.toNat / 1000000 % 1000 := by
      simp only [printed, Literal.milliseconds, hlen]
      rw [hvalue 3 _ (by omega)]
      omega
    rw [Literal.nanoseconds, hms]
    simp only [printed]
    rw [hvalue 2 _ (by omega), hvalue 2 _ (by omega), hvalue 2 _ (by omega)]
    omega
  rw [hread, hns, toString_eq_render, List.append_nil]

/-- **When the literals of times of day are read as it is asked**: texts under a condition, and
what is printed always. -/
theorem meets_iff_and_restores (t : Text) :
    (Meets t ↔ Exact t) ∧ ∀ data : BitVec 64, data.toNat < 24 * 3600 * 1000000000 →
      ∀ data₀, fromString data₀ (toString data) =
        some (↑(toString data).length,
          BitVec.ofNat 64 (data.toNat / 1000000 * 1000000)) :=
  ⟨meets_iff_exact t, fun _ h data₀ => fromString_toString h data₀⟩

/-- The nanoseconds in the afternoon that are left of a time. -/
theorem meets_afternoon : fromString 0 (toString 56215360123456#64) =
    some (↑(toString 56215360123456#64).length,
      BitVec.ofNat 64 ((56215360123456#64).toNat / 1000000 * 1000000)) :=
  (meets_iff_and_restores []).2 56215360123456#64 (by decide) 0

/-- Hours on their own are taken for a time. -/
theorem not_meets_hours : ¬∀ t, Meets t := by
  intro h
  have hhours : HoursInFront (text "25") := ⟨text "25", rfl, by decide, by decide, .inr rfl⟩
  have hno : ¬∃ (l : Literal) (rest : Text), l.Begins (text "25") rest := by
    rintro ⟨l, rest, -, heq, -⟩
    have hcolon : ':'.toUInt8 ∈ text "25" := by
      rw [heq]
      simp [Literal.render]
    exact absurd hcolon (by decide)
  have hrefused := ((h (text "25")).other hno 0).symm.trans
    ((fromString_of_hoursInFront hhours 0 1).trans ((h (text "25")).other hno 1))
  exact absurd (Option.some.inj hrefused) (by decide)

end Forte.TimeOfDayLiteral
