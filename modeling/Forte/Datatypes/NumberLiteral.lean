import Mathlib.Data.List.TakeWhile
import Forte.Datatypes.Readings

/-!
# The language of the number literals

What `CIEC_ANY_ELEMENTARY::fromString` reads to the end of a text. A literal
(`Forte.NumberLiteral`) has a type specifier or none, a base or none, a sign where one is allowed,
and digits of its base; a proper one is read to its end if its number is in the range, and with
this number (`Forte.numberLiteral_grammar`). The range of a literal of a signed type that is not
decimal is that of the unsigned type of the same length: it spells the bits of the value.

Some texts are read to their end without being proper literals (`Forte.NumberLiteral.Slip`): there
may be no digits, or digits that are too large for the base, or a `0x` behind the base, and a
negative number goes on behind the last one of 64 bits.
-/

namespace Forte

/-! ### Digits -/

/-- What holds of all bytes. -/
theorem forall_byte {P : UInt8 → Prop} (h : ∀ n < 256, P (UInt8.ofNat n)) (c : UInt8) : P c := by
  rw [← UInt8.ofNat_toNat (x := c)]
  exact h _ c.toNat_lt

theorem lt_of_isDigit (c : UInt8) : isDigit c = true → charHexDigitToInt c < 10 := by
  revert c
  exact forall_byte (by decide +kernel)

theorem lt_of_isHexDigit (c : UInt8) : isHexDigit c = true → charHexDigitToInt c < 16 := by
  revert c
  exact forall_byte (by decide +kernel)

theorem isDigit_of_lt (c : UInt8) :
    isHexDigit c = true → charHexDigitToInt c < 10 → isDigit c = true := by
  revert c
  exact forall_byte (by decide +kernel)

/-- A digit of a base. -/
def DigitOf (base : ℕ) (c : UInt8) : Prop := isHexDigit c = true ∧ charHexDigitToInt c < base

instance (base : ℕ) (c : UInt8) : Decidable (DigitOf base c) := inferInstanceAs (Decidable (_ ∧ _))

/-- What the conversions take for a digit. -/
def takenDigit (base : ℕ) (c : UInt8) : Bool := isDigit c || base = 16 && isAtoFChar c

theorem DigitOf.ne {base : ℕ} {c e : UInt8} (h : DigitOf base c) (he : isHexDigit e = false) :
    c ≠ e := by
  rintro rfl
  exact Bool.false_ne_true (he.symm.trans h.1)

theorem DigitOf.taken {base : ℕ} (hbase : base = 16 ∨ base ≤ 10) {c : UInt8}
    (h : DigitOf base c) : takenDigit base c = true := by
  rw [takenDigit, Bool.or_eq_true, Bool.and_eq_true]
  obtain ⟨hhex, hlt⟩ := h
  rcases hbase with rfl | hle
  · exact (Bool.or_eq_true _ _ ▸ hhex).imp_right fun haf => ⟨rfl, haf⟩
  · exact .inl (isDigit_of_lt c hhex (by omega))

/-- The number that digits of a base spell behind another number. -/
def numeral (base value : ℕ) (cs : Text) : ℕ :=
  cs.foldl (fun value c => base * value + charHexDigitToInt c) value

theorem numeral_cons (base value : ℕ) (c : UInt8) (cs : Text) :
    numeral base value (c :: cs) = numeral base (base * value + charHexDigitToInt c) cs := rfl

theorem le_numeral {base : ℕ} (hbase : 0 < base) (value : ℕ) (cs : Text) :
    value ≤ numeral base value cs := by
  induction cs generalizing value with
  | nil => exact Nat.le_refl _
  | cons c cs ih =>
    have hmul := Nat.le_mul_of_pos_left value hbase
    exact Nat.le_trans (by omega) (ih (base * value + charHexDigitToInt c))

theorem numeral_append (base value : ℕ) (cs cs' : Text) :
    numeral base value (cs ++ cs') = numeral base (numeral base value cs) cs' :=
  List.foldl_append

/-! ### The loop of the conversions -/

section Loop

variable {base limit : ℕ} {exceeds : BitVec 64 → ℕ → Bool} (safe : ℕ → Prop) {cs : Text}

/-- **Digits of the base**: the number they spell, or too large a number. A conversion may be
right on some numbers only. -/
theorem strtoLoop_of_digitOf (hbase : base = 16 ∨ base ≤ 10)
    (hexceeds : ∀ v c, v ≤ limit → safe v → DigitOf base c →
      (exceeds (BitVec.ofNat 64 v) (charHexDigitToInt c) = true ↔
        limit < base * v + charHexDigitToInt c))
    (hpos : 0 < base) (hcs : ∀ c ∈ cs, DigitOf base c) {value : ℕ} (hvalue : value ≤ limit)
    (hsafe : ∀ ds c ds', cs = ds ++ c :: ds' → safe (numeral base value ds)) :
    limit < numeral base value cs ∧
        (strtoLoop base exceeds (BitVec.ofNat 64 value) cs).erange = true ∨
      numeral base value cs ≤ limit ∧
        strtoLoop base exceeds (BitVec.ofNat 64 value) cs =
          ⟨BitVec.ofNat 64 (numeral base value cs), [], false⟩ := by
  induction cs generalizing value with
  | nil => exact .inr ⟨hvalue, rfl⟩
  | cons c cs ih =>
    have hc := hcs c List.mem_cons_self
    have htaken : (isDigit c || base = 16 && isAtoFChar c) = true := hc.taken hbase
    have hexact := hexceeds value c hvalue (hsafe [] c cs rfl) hc
    rw [strtoLoop, if_pos htaken, numeral_cons]
    by_cases hlarge : limit < base * value + charHexDigitToInt c
    · rw [if_pos (hexact.mpr hlarge)]
      exact .inl ⟨Nat.lt_of_lt_of_le hlarge (le_numeral hpos _ cs), rfl⟩
    · rw [if_neg fun h => hlarge (hexact.mp h), ← BitVec.ofNat_mul, ← BitVec.ofNat_add]
      refine ih (fun e he => hcs e (List.mem_cons_of_mem c he)) (Nat.not_lt.mp hlarge) ?_
      rintro ds e ds' rfl
      exact hsafe (c :: ds) e ds' rfl

/-- What is read to the end are digits. -/
theorem taken_of_strtoLoop {value : BitVec 64}
    (herange : (strtoLoop base exceeds value cs).erange = false)
    (hrest : (strtoLoop base exceeds value cs).rest = []) : ∀ c ∈ cs, takenDigit base c = true := by
  induction cs generalizing value with
  | nil => exact fun c hc => absurd hc List.not_mem_nil
  | cons c cs ih =>
    rw [strtoLoop] at herange hrest
    split at herange
    · rename_i htaken
      rw [if_pos htaken] at hrest
      split at herange
      · cases herange
      · rename_i hfit
        rw [if_neg hfit] at hrest
        exact List.forall_mem_cons.mpr ⟨htaken, ih herange hrest⟩
    · rename_i hother
      rw [if_neg hother] at hrest
      cases hrest

end Loop

/-! ### The conversions -/

section Conversions

variable {base limit : ℕ} {cs : Text}

/-- The limit of a conversion, as it is compared. -/
theorem exceeds_iff {v d : ℕ} (hd : d < base) :
    limit / base < v ∨ v = limit / base ∧ limit % base < d ↔ limit < base * v + d := by
  have hdiv := Nat.div_add_mod limit base
  have hmod := Nat.mod_lt limit (Nat.zero_lt_of_lt hd)
  rcases Nat.lt_trichotomy v (limit / base) with hlt | heq | hgt
  · have hmul : base * (v + 1) ≤ base * (limit / base) := Nat.mul_le_mul_left base hlt
    rw [Nat.mul_add] at hmul
    omega
  · rw [← heq] at hdiv ⊢
    omega
  · have hmul : base * (limit / base + 1) ≤ base * v := Nat.mul_le_mul_left base hgt
    rw [Nat.mul_add] at hmul
    omega

/-- Behind digits there is no `0x`. -/
theorem skipHexPrefix_of_digitOf (hcs : ∀ c ∈ cs, DigitOf base c) : skipHexPrefix base cs = cs := by
  refine if_neg fun h => ?_
  rcases Text.at_mem_or cs 1 with hmem | hzero
  · exact (hcs _ hmem).ne (by decide) h.2.2
  · exact absurd (hzero.symm.trans h.2.2) (by decide)

/-- **The unsigned conversion of digits.** -/
theorem strtoull_of_digitOf (hbase : base = 16 ∨ base ≤ 10) (hpos : 0 < base)
    (hcs : ∀ c ∈ cs, DigitOf base c) :
    2 ^ 64 - 1 < numeral base 0 cs ∧ (strtoull base cs).erange = true ∨
      numeral base 0 cs ≤ 2 ^ 64 - 1 ∧
        strtoull base cs = ⟨BitVec.ofNat 64 (numeral base 0 cs), [], false⟩ := by
  rw [strtoull, skipHexPrefix_of_digitOf hcs]
  refine strtoLoop_of_digitOf (fun _ => True) hbase ?_ hpos hcs (Nat.zero_le _)
    fun _ _ _ _ => trivial
  intro v c hv _ hc
  have htoNat : (BitVec.ofNat 64 v).toNat = v := by
    rw [BitVec.toNat_ofNat, Nat.mod_eq_of_lt (by omega)]
  rw [htoNat, Bool.or_eq_true, Bool.and_eq_true, decide_eq_true_iff, decide_eq_true_iff,
    decide_eq_true_iff]
  exact exceeds_iff hc.2

/-- A sign or none. -/
def signText (negative : Bool) : Text := if negative then ['-'.toUInt8] else []

/-- The number that a sign and digits spell. -/
def signedNumeral (base : ℕ) (negative : Bool) (cs : Text) : ℤ :=
  if negative then -(numeral base 0 cs : ℤ) else numeral base 0 cs

/-- Digits do not begin with a sign. -/
theorem at_ne_sign (hcs : ∀ c ∈ cs, DigitOf base c) : cs.at 0 ≠ '-'.toUInt8 := by
  intro h
  rcases Text.at_mem_or cs 0 with hmem | hzero
  · exact (hcs _ hmem).ne (by decide) h
  · exact absurd (hzero.symm.trans h) (by decide)

/-- The loop of the signed conversion. It goes astray behind the last number that a negative one
may be, which is negative in 64 bits. -/
theorem strtoLoop_signed (limit : ℕ) (safe : ℕ → Prop)
    (hlt : ∀ v ≤ limit, safe v → v < 2 ^ 63) (hcs : ∀ c ∈ cs, DigitOf 10 c)
    (hsafe : ∀ ds c ds', cs = ds ++ c :: ds' → safe (numeral 10 0 ds)) {last : ℤ}
    (hlast : last = limit) :
    let exceeds := fun (value : BitVec 64) (nCharVal : ℕ) =>
      decide (value.toInt > last / (10 : ℕ)) ||
        decide (value.toInt = last / (10 : ℕ)) && decide ((nCharVal : ℤ) > last % (10 : ℕ))
    limit < numeral 10 0 cs ∧ (strtoLoop 10 exceeds 0 cs).erange = true ∨
      numeral 10 0 cs ≤ limit ∧
        strtoLoop 10 exceeds 0 cs = ⟨BitVec.ofNat 64 (numeral 10 0 cs), [], false⟩ := by
  subst hlast
  refine strtoLoop_of_digitOf safe (.inr (Nat.le_refl 10)) ?_ (by decide) hcs (Nat.zero_le _) hsafe
  intro v c hv hv' hc
  have hlt := hlt v hv hv'
  have htoNat : (BitVec.ofNat 64 v).toNat = v := by
    rw [BitVec.toNat_ofNat, Nat.mod_eq_of_lt (by omega)]
  have htoInt : (BitVec.ofNat 64 v).toInt = v := by
    rw [BitVec.toInt_eq_toNat_of_lt, htoNat]
    rw [htoNat]
    omega
  rw [htoInt, Bool.or_eq_true, Bool.and_eq_true, decide_eq_true_iff, decide_eq_true_iff,
    decide_eq_true_iff, ← exceeds_iff hc.2]
  norm_cast

/-- **The signed conversion of a sign and digits.** -/
theorem strtoll_of_digitOf {negative : Bool} (hcs : ∀ c ∈ cs, DigitOf 10 c)
    (hsafe : negative = true → ∀ ds c ds', cs = ds ++ c :: ds' → numeral 10 0 ds ≠ 2 ^ 63) :
    signedLimit 64 negative < numeral 10 0 cs ∧
        (strtoll 10 (signText negative ++ cs)).erange = true ∨
      numeral 10 0 cs ≤ signedLimit 64 negative ∧ strtoll 10 (signText negative ++ cs) =
        ⟨BitVec.ofInt 64 (signedNumeral 10 negative cs), [], false⟩ := by
  have hskip : ∀ t : Text, skipHexPrefix 10 t = t := fun t => if_neg fun h => by cases h.1
  cases negative with
  | true =>
    have hat : Text.at (signText true ++ cs) 0 = '-'.toUInt8 := rfl
    have hdrop : (signText true ++ cs).drop 1 = cs := rfl
    have hvalue : BitVec.ofInt 64 (signedNumeral 10 true cs) =
        -BitVec.ofNat 64 (numeral 10 0 cs) :=
      (BitVec.ofInt_neg).trans (congrArg Neg.neg (BitVec.ofInt_natCast _ _))
    have hloop := strtoLoop_signed (2 ^ 63) (fun v => v ≠ 2 ^ 63)
      (fun v hv hne => Nat.lt_of_le_of_ne hv hne) hcs (hsafe rfl)
      (by norm_cast : (2 : ℤ) ^ (64 - 1) = (2 ^ 63 : ℕ))
    rw [strtoll, strtoSigned]
    simp only [hat, hdrop, hskip, if_true, true_and]
    rcases hloop with ⟨hlarge, herange⟩ | ⟨hle, heq⟩
    · refine .inl ⟨hlarge, ?_⟩
      rw [if_neg (not_not_intro herange)]
      exact herange
    · refine .inr ⟨hle, ?_⟩
      rw [heq, if_pos Bool.false_ne_true, hvalue]
  | false =>
    have hat : Text.at (signText false ++ cs) 0 ≠ '-'.toUInt8 := at_ne_sign hcs
    have hvalue : BitVec.ofInt 64 (signedNumeral 10 false cs) =
        BitVec.ofNat 64 (numeral 10 0 cs) := BitVec.ofInt_natCast _ _
    have hloop := strtoLoop_signed (2 ^ 63 - 1) (fun _ => True)
      (fun v hv _ => by omega) hcs (fun _ _ _ _ => trivial)
      (by norm_num : (2 : ℤ) ^ (64 - 1) - 1 = (2 ^ 63 - 1 : ℕ))
    rw [strtoll, strtoSigned]
    simp only [hat, hskip, if_false, false_and]
    rcases hloop with ⟨hlarge, herange⟩ | ⟨hle, heq⟩
    · exact .inl ⟨hlarge, herange⟩
    · refine .inr ⟨hle, ?_⟩
      rw [hvalue]
      exact heq

end Conversions

/-! ### Literals -/

/-- The base in front of the digits. -/
inductive BasePrefix
  | none | two | eight | ten | sixteen
  deriving DecidableEq, Repr

namespace BasePrefix

/-- The base of the digits. -/
def radix : BasePrefix → ℕ
  | none => 10
  | two => 2
  | eight => 8
  | ten => 10
  | sixteen => 16

/-- How it is written. -/
def spelling : BasePrefix → Text
  | none => []
  | two => text "2#"
  | eight => text "8#"
  | ten => text "10#"
  | sixteen => text "16#"

theorem radix_pos (b : BasePrefix) : 0 < b.radix := by
  cases b <;> decide

theorem radix_cases (b : BasePrefix) : b.radix = 16 ∨ b.radix ≤ 10 := by
  cases b <;> decide

end BasePrefix

/-- What a literal of a number is made of. -/
structure NumberLiteral where
  specifier : Option Text
  base : BasePrefix
  negative : Bool
  digits : Text

/-- The type specifier of a literal, with its hash. -/
def specifierText : Option Text → Text
  | none => []
  | some name => name ++ ['#'.toUInt8]

namespace NumberLiteral

/-- What is behind the base. -/
def signedDigits (l : NumberLiteral) : Text := signText l.negative ++ l.digits

/-- The text of a literal. -/
def render (l : NumberLiteral) : Text :=
  specifierText l.specifier ++ (l.base.spelling ++ l.signedDigits)

/-- The number that is spelled. -/
def number (l : NumberLiteral) : ℤ := signedNumeral l.base.radix l.negative l.digits

/-- The specifier is the name of an elementary type, and there is a sign only in a decimal
literal of a signed type. -/
structure Known (t : IntegralType) (l : NumberLiteral) : Prop where
  specifier : ∀ name, l.specifier = some name → isTypeSpecifier name = true
  sign : l.negative = true → t.isSigned = true ∧ l.base.radix = 10

/-- A literal with digits of its base, one at least. -/
structure Proper (t : IntegralType) (l : NumberLiteral) : Prop extends Known t l where
  digits_ne_nil : l.digits ≠ []
  digitOf : ∀ c ∈ l.digits, DigitOf l.base.radix c

/-- The numbers of decimal literals are those of the type; other literals spell the bits of its
values. -/
def InRange (t : IntegralType) (l : NumberLiteral) : Prop :=
  if l.base.radix = 10 then t.minVal ≤ l.number ∧ l.number ≤ t.maxVal
  else l.number < 2 ^ t.bitLength

instance (t : IntegralType) (l : NumberLiteral) : Decidable (l.InRange t) :=
  inferInstanceAs (Decidable (if l.base.radix = 10 then t.minVal ≤ l.number ∧ l.number ≤ t.maxVal
    else l.number < 2 ^ t.bitLength))

/-- The value of a literal in the range of a type: its number, or for the bits of a negative
value of a signed type the number less than it. -/
def valueOf (t : IntegralType) (l : NumberLiteral) : ℤ :=
  if l.number ≤ t.maxVal then l.number else l.number - 2 ^ t.bitLength

/-- **Literals that are not read as they should be.** -/
inductive Slip (l : NumberLiteral) : Prop
  /-- There are no digits. -/
  | noDigits (hdigits : l.digits = []) (hrender : l.render ≠ [])
  /-- A decimal digit is too large for the base. -/
  | largeDigit {c : UInt8} (hdigits : ∀ c ∈ l.digits, isDigit c = true) (hc : c ∈ l.digits)
      (hlarge : l.base.radix ≤ charHexDigitToInt c)
  /-- A `0x` follows the base. -/
  | hexPrefix {rest : Text} (hbase : l.base = .sixteen)
      (hdigits : l.digits = '0'.toUInt8 :: 'x'.toUInt8 :: rest)
  /-- A negative number goes on behind the last one of 64 bits. -/
  | goesOn {ds ds' : Text} {c : UInt8} (hnegative : l.negative = true)
      (hdigits : l.digits = ds ++ c :: ds') (hlast : numeral 10 0 ds = 2 ^ 63)

end NumberLiteral

/-- Texts that a slip may take for literals. -/
def Misread (t : IntegralType) (s : Text) : Prop :=
  ∃ l : NumberLiteral, l.render = s ∧ l.Known t ∧ l.Slip

/-! ### What is read of a literal -/

namespace NumberLiteral

variable {t : IntegralType} {l : NumberLiteral}

theorem signedDigits_of_not_negative (h : l.negative = false) : l.signedDigits = l.digits := by
  rw [signedDigits, h]
  rfl

theorem number_of_not_negative (h : l.negative = false) :
    l.number = numeral l.base.radix 0 l.digits := by
  rw [number, h]
  rfl

theorem toNat_ofNat_of_le {n : ℕ} (h : n ≤ 2 ^ 64 - 1) : (BitVec.ofNat 64 n).toNat = n := by
  rw [BitVec.toNat_ofNat, Nat.mod_eq_of_lt (by omega)]

theorem unsignedUpperBound_eq (ht : t ≠ .bool) : t.unsignedUpperBound = 2 ^ t.bitLength - 1 := by
  revert ht
  cases t <;> decide

/-- **What is read without a sign**: the number, if it has the bits of the type. -/
theorem readNumber_unsigned (ht : t ≠ .bool) (hl : l.Proper t)
    (hunsigned : ¬(t.isSigned = true ∧ l.base.radix = 10)) :
    t.readNumber l.base.radix l.signedDigits =
      if l.number < 2 ^ t.bitLength then some (BitVec.ofInt 64 l.number, []) else none := by
  have hnegative : l.negative = false := by
    cases h : l.negative with
    | false => rfl
    | true => exact absurd (hl.sign h) hunsigned
  have hbits : 2 ^ t.bitLength ≤ 2 ^ 64 := Nat.pow_le_pow_right (by decide) t.bitLength_le
  have hsign : l.digits.at 0 ≠ '-'.toUInt8 := at_ne_sign hl.digitOf
  rw [signedDigits_of_not_negative hnegative, number_of_not_negative hnegative,
    IntegralType.readNumber, if_neg hunsigned, if_pos hsign, BitVec.ofInt_natCast]
  dsimp only
  rw [unsignedUpperBound_eq ht]
  rcases strtoull_of_digitOf l.base.radix_cases l.base.radix_pos hl.digitOf with
    ⟨hlarge, herange⟩ | ⟨hle, heq⟩
  · rw [if_neg fun h => h.1 herange, if_neg]
    have hlarge : 2 ^ t.bitLength ≤ numeral l.base.radix 0 l.digits := by omega
    exact_mod_cast Nat.not_lt.mpr hlarge
  · rw [heq]
    dsimp only
    rw [toNat_ofNat_of_le hle]
    have hpos : 0 < 2 ^ t.bitLength := Nat.two_pow_pos _
    have hiff : numeral l.base.radix 0 l.digits ≤ 2 ^ t.bitLength - 1 ↔
        (numeral l.base.radix 0 l.digits : ℤ) < 2 ^ t.bitLength := by
      rw [Nat.le_sub_one_iff_lt hpos]
      norm_cast
    by_cases hrange : numeral l.base.radix 0 l.digits ≤ 2 ^ t.bitLength - 1
    · rw [if_pos ⟨Bool.false_ne_true, hrange⟩, if_pos (hiff.mp hrange)]
    · rw [if_neg fun h => hrange h.2, if_neg fun h => hrange (hiff.mpr h)]

theorem neg_two_pow_le_minVal (t : IntegralType) : -2 ^ 63 ≤ t.minVal := by
  cases t <;> decide

theorem maxVal_le (h : t.isSigned = true) : t.maxVal ≤ 2 ^ 63 - 1 := by
  revert h
  cases t <;> decide

/-- A number of 64 bits has so many digits. -/
theorem numeral_le_signedLimit_iff :
    numeral 10 0 l.digits ≤ signedLimit 64 l.negative ↔
      -2 ^ 63 ≤ signedNumeral 10 l.negative l.digits ∧
        signedNumeral 10 l.negative l.digits ≤ 2 ^ 63 - 1 := by
  cases h : l.negative with
  | true =>
    have hlimit : signedLimit 64 true = 2 ^ 63 := rfl
    have hnumber : signedNumeral 10 true l.digits = -(numeral 10 0 l.digits : ℤ) := rfl
    rw [hlimit, hnumber]
    omega
  | false =>
    have hlimit : signedLimit 64 false = 2 ^ 63 - 1 := rfl
    have hnumber : signedNumeral 10 false l.digits = (numeral 10 0 l.digits : ℤ) := rfl
    rw [hlimit, hnumber]
    omega

/-- **What is read of a decimal literal of a signed type**: the number, if it is of the type. -/
theorem readNumber_signed (hsigned : t.isSigned = true) (hbase : l.base.radix = 10)
    (hl : l.Proper t)
    (hsafe : l.negative = true →
      ∀ ds c ds', l.digits = ds ++ c :: ds' → numeral 10 0 ds ≠ 2 ^ 63) :
    t.readNumber l.base.radix l.signedDigits =
      if t.minVal ≤ l.number ∧ l.number ≤ t.maxVal then some (BitVec.ofInt 64 l.number, [])
      else none := by
  have hmin := neg_two_pow_le_minVal t
  have hmax := maxVal_le hsigned
  have hdigits : ∀ c ∈ l.digits, DigitOf 10 c := hbase ▸ hl.digitOf
  have hiff := l.numeral_le_signedLimit_iff
  rw [number, hbase, signedDigits, IntegralType.readNumber, if_pos ⟨hsigned, rfl⟩]
  dsimp only
  rcases strtoll_of_digitOf hdigits hsafe with ⟨hlarge, herange⟩ | ⟨hle, heq⟩
  · rw [if_neg fun h => h.1 herange, if_neg]
    intro hrange
    have := hiff.mpr ⟨hmin.trans hrange.1, hrange.2.trans hmax⟩
    omega
  · obtain ⟨hlower, hupper⟩ := hiff.mp hle
    have htoInt : (BitVec.ofInt 64 (signedNumeral 10 l.negative l.digits)).toInt =
        signedNumeral 10 l.negative l.digits :=
      BitVec.toInt_ofInt_eq_self (by decide) hlower (by omega)
    rw [heq]
    dsimp only
    rw [htoInt]
    by_cases hrange : t.minVal ≤ signedNumeral 10 l.negative l.digits ∧
        signedNumeral 10 l.negative l.digits ≤ t.maxVal
    · rw [if_pos ⟨Bool.false_ne_true, hrange.2, hrange.1⟩, if_pos hrange]
    · rw [if_neg fun h => hrange ⟨h.2.2, h.2.1⟩, if_neg hrange]

/-- An unsigned type has no number below zero. -/
theorem inRange_iff_of_unsigned (hl : l.Proper t)
    (hunsigned : ¬(t.isSigned = true ∧ l.base.radix = 10)) :
    l.InRange t ↔ l.number < 2 ^ t.bitLength := by
  have hnegative : l.negative = false := by
    cases h : l.negative with
    | false => rfl
    | true => exact absurd (hl.sign h) hunsigned
  rw [InRange]
  split
  · rename_i hbase
    have hsigned : t.isSigned = false := Bool.eq_false_iff.mpr fun h => hunsigned ⟨h, hbase⟩
    rw [IntegralType.minVal, IntegralType.maxVal, hsigned, number_of_not_negative hnegative]
    simp only [Bool.false_eq_true, if_false]
    omega
  · exact Iff.rfl

/-- A number in the range does not go on behind the last one. -/
theorem numeral_ne_of_inRange (hl : l.Proper t) (hrange : l.InRange t)
    (hnegative : l.negative = true) {ds ds' : Text} {c : UInt8} (h : l.digits = ds ++ c :: ds') :
    numeral 10 0 ds ≠ 2 ^ 63 := by
  intro hlast
  obtain ⟨hsigned, hbase⟩ := hl.sign hnegative
  rw [InRange, if_pos hbase, number, hbase] at hrange
  have hmin := neg_two_pow_le_minVal t
  have hmax := maxVal_le hsigned
  have hle := l.numeral_le_signedLimit_iff.mpr
    ⟨hmin.trans hrange.1, hrange.2.trans hmax⟩
  have hlimit : signedLimit 64 l.negative = 2 ^ 63 := by
    rw [hnegative]
    rfl
  have hgrow := le_numeral (by decide : 0 < 10)
    (10 * numeral 10 0 ds + charHexDigitToInt c) ds'
  rw [h, numeral_append, numeral_cons, hlimit] at hle
  omega

/-- **A literal in the range is read.** -/
theorem readNumber_of_inRange (ht : t ≠ .bool) (hl : l.Proper t) (hrange : l.InRange t) :
    t.readNumber l.base.radix l.signedDigits = some (BitVec.ofInt 64 l.number, []) := by
  by_cases hsigned : t.isSigned = true ∧ l.base.radix = 10
  · rw [readNumber_signed hsigned.1 hsigned.2 hl fun hnegative ds c ds' h =>
      numeral_ne_of_inRange hl hrange hnegative h]
    rw [InRange, if_pos hsigned.2] at hrange
    exact if_pos hrange
  · rw [readNumber_unsigned ht hl hsigned]
    exact if_pos ((inRange_iff_of_unsigned hl hsigned).mp hrange)

/-- **A literal out of the range is refused**, unless it goes on behind the last number. -/
theorem readNumber_of_not_inRange (ht : t ≠ .bool) (hl : l.Proper t) (hrange : ¬l.InRange t)
    (hslip : ¬l.Slip) : t.readNumber l.base.radix l.signedDigits = none := by
  by_cases hsigned : t.isSigned = true ∧ l.base.radix = 10
  · rw [readNumber_signed hsigned.1 hsigned.2 hl fun hnegative ds c ds' h hlast =>
      hslip (.goesOn hnegative h hlast)]
    rw [InRange, if_pos hsigned.2] at hrange
    exact if_neg hrange
  · rw [readNumber_unsigned ht hl hsigned]
    exact if_neg fun h => hrange ((inRange_iff_of_unsigned hl hsigned).mpr h)

/-! ### What is in front of the digits -/

theorem hash_not_mem_signedDigits (hl : l.Proper t) : '#'.toUInt8 ∉ l.signedDigits := by
  rw [signedDigits, List.mem_append]
  rintro (h | h)
  · rw [signText] at h
    split at h
    · exact absurd (List.mem_singleton.mp h) (by decide)
    · cases h
  · exact (hl.digitOf _ h).ne (by decide) rfl

/-- The base is found. -/
theorem literalBase_render (hl : l.Proper t) :
    literalBase (l.base.spelling ++ l.signedDigits) = some (l.base.radix, l.signedDigits) := by
  cases hbase : l.base with
  | none =>
    have hno : ∀ i, Text.at l.signedDigits i ≠ '#'.toUInt8 := by
      intro i heq
      rcases Text.at_mem_or l.signedDigits i with h | h
      · exact hash_not_mem_signedDigits hl (heq ▸ h)
      · exact absurd (h.symm.trans heq) (by decide)
    have happ : BasePrefix.none.spelling ++ l.signedDigits = l.signedDigits := rfl
    rw [happ, literalBase, if_neg (hno 1), if_neg fun h => hno 2 h.2]
    rfl
  | two => rfl
  | eight => rfl
  | ten => rfl
  | sixteen => rfl

/-- No type has a name with a hash, or one that begins with a digit. -/
theorem name_of_isTypeSpecifier {name : Text} (h : isTypeSpecifier name = true) :
    (∀ c ∈ name, c ≠ '#'.toUInt8) ∧ isDigit (name.at 0) = false ∧ name ≠ [] := by
  rw [isTypeSpecifier, List.contains_eq_mem, decide_eq_true_iff] at h
  revert name
  decide +kernel

/-- The type specifier is passed over. -/
theorem skipTypeSpecifier_render (hl : l.Proper t) :
    skipTypeSpecifier l.render = some (l.base.spelling ++ l.signedDigits) := by
  cases hspecifier : l.specifier with
  | none =>
    have hrender : l.render = l.base.spelling ++ l.signedDigits := by
      rw [render, hspecifier]
      rfl
    rw [hrender, skipTypeSpecifier]
    refine if_neg fun h => ?_
    cases hbase : l.base with
    | none =>
      rw [hbase] at h
      exact hash_not_mem_signedDigits hl h.1
    | two => exact absurd (hbase ▸ h.2) (not_not_intro rfl)
    | eight => exact absurd (hbase ▸ h.2) (not_not_intro rfl)
    | ten => exact absurd (hbase ▸ h.2) (not_not_intro rfl)
    | sixteen => exact absurd (hbase ▸ h.2) (not_not_intro rfl)
  | some name =>
    have hname := hl.specifier name hspecifier
    obtain ⟨hhash, hdigit, hne⟩ := name_of_isTypeSpecifier hname
    have hrender : l.render = name ++ '#'.toUInt8 :: (l.base.spelling ++ l.signedDigits) := by
      rw [render, hspecifier, specifierText, List.append_assoc]
      rfl
    obtain ⟨htake, hdrop⟩ : (name ++ '#'.toUInt8 :: (l.base.spelling ++ l.signedDigits)).takeWhile
          (· ≠ '#'.toUInt8) = name ∧
        (name ++ '#'.toUInt8 :: (l.base.spelling ++ l.signedDigits)).dropWhile
          (· ≠ '#'.toUInt8) = '#'.toUInt8 :: (l.base.spelling ++ l.signedDigits) :=
      takeWhile_append_of_at (fun c hc => decide_eq_true (hhash c hc)) rfl
    have hat : isDigit (l.render.at 0) = false := by
      obtain ⟨c, name, rfl⟩ := List.exists_cons_of_ne_nil hne
      rw [hrender]
      exact hdigit
    have hmem : '#'.toUInt8 ∈ l.render := by
      rw [hrender]
      exact List.mem_append_right _ List.mem_cons_self
    rw [skipTypeSpecifier, if_pos ⟨hmem, by rw [hat]; exact Bool.false_ne_true⟩, hrender, htake,
      hdrop, if_pos hname]
    rfl

/-- **A literal is taken apart.** -/
theorem start_render (hl : l.Proper t) :
    (skipTypeSpecifier l.render).bind literalBase = some (l.base.radix, l.signedDigits) := by
  rw [skipTypeSpecifier_render hl, Option.bind_some, literalBase_render hl]

theorem render_ne_nil (hl : l.Proper t) : l.render ≠ [] := by
  rw [render, signedDigits]
  exact List.append_ne_nil_of_right_ne_nil _ (List.append_ne_nil_of_right_ne_nil _
    (List.append_ne_nil_of_right_ne_nil _ hl.digits_ne_nil))

/-- **What `fromString` makes of a literal in the range.** -/
theorem numberFromString_of_inRange (ht : t ≠ .bool) (hl : l.Proper t) (hrange : l.InRange t)
    (data : BitVec 64) :
    t.numberFromString data l.render = ((l.render.length : ℤ), BitVec.ofInt 64 l.number) := by
  have hlen : (l.render.length : ℤ) ≠ 0 :=
    Int.natCast_ne_zero.mpr (List.length_pos_iff.mpr (render_ne_nil hl)).ne'
  rw [IntegralType.numberFromString, if_neg (render_ne_nil hl), start_render hl]
  dsimp only
  rw [readNumber_of_inRange ht hl hrange]
  simp only [List.length_nil, Nat.cast_zero, Int.sub_zero, if_neg hlen]

/-- **What it makes of one out of the range.** -/
theorem numberFromString_of_not_inRange (ht : t ≠ .bool) (hl : l.Proper t)
    (hrange : ¬l.InRange t) (hslip : ¬l.Slip) (data : BitVec 64) :
    t.numberFromString data l.render = (-1, data) := by
  rw [IntegralType.numberFromString, if_neg (render_ne_nil hl), start_render hl]
  dsimp only
  rw [readNumber_of_not_inRange ht hl hrange hslip]

/-! ### What is a literal -/

/-- The type specifier that was passed over. -/
theorem exists_specifier {s u : Text} (h : skipTypeSpecifier s = some u) :
    ∃ specifier, (∀ name, specifier = some name → isTypeSpecifier name = true) ∧
      s = specifierText specifier ++ u := by
  rw [skipTypeSpecifier] at h
  split at h
  · rename_i hhash
    split at h
    · rename_i hname
      cases h
      refine ⟨some (s.takeWhile (· ≠ '#'.toUInt8)), fun name hsome => ?_, ?_⟩
      · cases hsome
        exact hname
      · have hne : s.dropWhile (· ≠ '#'.toUInt8) ≠ [] := by
          intro hnil
          rw [List.dropWhile_eq_nil_iff] at hnil
          exact of_decide_eq_true (hnil _ hhash.1) rfl
        obtain ⟨c, rest, hdrop⟩ := List.exists_cons_of_ne_nil hne
        have hc : c = '#'.toUInt8 := by
          have hhead := List.head_dropWhile_not (· ≠ '#'.toUInt8) hne
          simp only [hdrop, List.head_cons, decide_eq_false_iff_not, not_not] at hhead
          exact hhead
        rw [specifierText, List.append_assoc, hdrop, hc]
        exact (List.takeWhile_append_dropWhile (p := (· ≠ '#'.toUInt8))).symm.trans
          (by rw [hdrop, hc]; rfl)
    · cases h
  · cases h
    exact ⟨none, fun name hsome => absurd hsome.symm (Option.some_ne_none name), rfl⟩

/-- A text with a byte in the second place. -/
theorem exists_cons_of_at_one {u : Text} {b : UInt8} (h : u.at 1 = b) (hb : (0 : UInt8) ≠ b) :
    ∃ c rest, u = c :: b :: rest := by
  rcases u with _ | ⟨c, _ | ⟨c', rest⟩⟩
  · exact absurd h hb
  · exact absurd h hb
  · obtain rfl : c' = b := h
    exact ⟨c, rest, rfl⟩

/-- A text with a byte in the third place. -/
theorem exists_cons_of_at_two {u : Text} {b : UInt8} (h : u.at 2 = b) (hb : (0 : UInt8) ≠ b) :
    ∃ c c' rest, u = c :: c' :: b :: rest := by
  rcases u with _ | ⟨c, u⟩
  · exact absurd h hb
  · obtain ⟨c', rest, rfl⟩ := exists_cons_of_at_one (u := u) h hb
    exact ⟨c, c', rest, rfl⟩

/-- The base that was found. -/
theorem exists_base {u digits : Text} {base : ℕ} (h : literalBase u = some (base, digits)) :
    ∃ b : BasePrefix, b.radix = base ∧ u = b.spelling ++ digits := by
  rw [literalBase] at h
  split at h
  · rename_i hhash
    obtain ⟨c, u, rfl⟩ := exists_cons_of_at_one hhash (by decide)
    split at h
    · rename_i htwo
      obtain rfl : c = '2'.toUInt8 := htwo
      cases h
      exact ⟨.two, rfl, rfl⟩
    · split at h
      · rename_i height
        obtain rfl : c = '8'.toUInt8 := height
        cases h
        exact ⟨.eight, rfl, rfl⟩
      · cases h
  · split at h
    · rename_i hhash
      obtain ⟨c, c', u, rfl⟩ := exists_cons_of_at_two hhash.2 (by decide)
      split at h
      · rename_i hone
        obtain rfl : c = '1'.toUInt8 := hone
        split at h
        · rename_i hsix
          obtain rfl : c' = '6'.toUInt8 := hsix
          cases h
          exact ⟨.sixteen, rfl, rfl⟩
        · split at h
          · cases h
          · rename_i hzero
            obtain rfl : c' = '0'.toUInt8 := not_not.mp hzero
            cases h
            exact ⟨.ten, rfl, rfl⟩
      · cases h
    · cases h
      exact ⟨.none, rfl, rfl⟩

/-- What is read to the end is a sign, where it is allowed, and characters that are taken for
digits, behind a `0x` perhaps. -/
theorem exists_digits {b : BasePrefix} {digits : Text} {number : BitVec 64}
    (h : t.readNumber b.radix digits = some (number, [])) :
    ∃ negative cs, digits = signText negative ++ cs ∧
      (negative = true → t.isSigned = true ∧ b.radix = 10) ∧
      ((∀ c ∈ cs, takenDigit b.radix c = true) ∨
        b = .sixteen ∧ ∃ rest, cs = '0'.toUInt8 :: 'x'.toUInt8 :: rest) := by
  rw [IntegralType.readNumber] at h
  split at h
  · rename_i hsigned
    dsimp only at h
    split at h
    · rename_i hrange
      have hskip : ∀ t : Text, skipHexPrefix b.radix t = t :=
        fun t => if_neg fun hhex => by
          have := hsigned.2.symm.trans hhex.1
          omega
      have herange := eq_false_of_ne_true hrange.1
      have hrest : (strtoll b.radix digits).rest = [] := (Prod.mk.inj (Option.some.inj h)).2
      rw [strtoll, strtoSigned] at herange hrest
      simp only [hskip] at herange hrest
      by_cases hminus : digits.at 0 = '-'.toUInt8
      · have hdigits : digits = signText true ++ digits.drop 1 := by
          cases digits with
          | nil => exact absurd hminus (by decide)
          | cons c digits =>
            obtain rfl : c = '-'.toUInt8 := hminus
            rfl
        refine ⟨true, digits.drop 1, hdigits, fun _ => hsigned, .inl ?_⟩
        simp only [hminus, if_true, true_and] at herange hrest
        split at herange
        · rename_i hok
          rw [if_pos hok] at hrest
          exact taken_of_strtoLoop herange hrest
        · rename_i hok
          exact absurd herange (by rw [not_not.mp hok]; exact Bool.true_eq_false_eq_False)
      · refine ⟨false, digits, rfl, fun hfalse => absurd hfalse Bool.false_ne_true, .inl ?_⟩
        simp only [hminus, if_false, false_and] at herange hrest
        exact taken_of_strtoLoop herange hrest
    · cases h
  · split at h
    · dsimp only at h
      split at h
      · rename_i hrange
        have herange := eq_false_of_ne_true hrange.1
        have hrest : (strtoull b.radix digits).rest = [] := (Prod.mk.inj (Option.some.inj h)).2
        refine ⟨false, digits, rfl, fun hfalse => absurd hfalse Bool.false_ne_true, ?_⟩
        rw [strtoull] at herange hrest
        by_cases hhex : b.radix = 16 ∧ digits.at 0 = '0'.toUInt8 ∧ digits.at 1 = 'x'.toUInt8
        · refine .inr ⟨?_, ?_⟩
          · have hsixteen := hhex.1
            revert hsixteen
            cases b <;> decide
          · obtain ⟨c, rest, rfl⟩ := exists_cons_of_at_one hhex.2.2 (by decide)
            obtain rfl : c = '0'.toUInt8 := hhex.2.1
            exact ⟨rest, rfl⟩
        · have hskip : skipHexPrefix b.radix digits = digits := if_neg hhex
          rw [hskip] at herange hrest
          exact .inl (taken_of_strtoLoop herange hrest)
      · cases h
    · cases h

/-- Characters that are taken for digits are digits of the base, unless one is too large. -/
theorem digitOf_of_taken (hslip : ¬l.Slip) (h : ∀ c ∈ l.digits, takenDigit l.base.radix c = true) :
    ∀ c ∈ l.digits, DigitOf l.base.radix c := by
  by_cases hsixteen : l.base.radix = 16
  · intro c hc
    have htaken := h c hc
    rw [takenDigit, hsixteen] at htaken
    rw [hsixteen]
    exact ⟨htaken, lt_of_isHexDigit c htaken⟩
  · have hdigit : ∀ c ∈ l.digits, isDigit c = true := by
      intro c hc
      have htaken := h c hc
      rwa [takenDigit, decide_eq_false hsixteen, Bool.false_and, Bool.or_false] at htaken
    intro c hc
    refine ⟨?_, ?_⟩
    · rw [isHexDigit, hdigit c hc, Bool.true_or]
    · by_contra hlarge
      exact hslip (.largeDigit hdigit hc (Nat.not_lt.mp hlarge))

/-- **What is read to the end is a literal**, or a slip. -/
theorem exists_proper {s : Text} (ht : t ≠ .bool) (data : BitVec 64)
    (h : (t.numberFromString data s).1 = s.length) (hmisread : ¬Misread t s) :
    ∃ l : NumberLiteral, l.render = s ∧ l.Proper t ∧ l.InRange t := by
  have hfail : (-1 : ℤ) ≠ s.length := by omega
  have hread := h
  rw [IntegralType.numberFromString] at hread
  split at hread
  · exact absurd hread hfail
  rename_i hne
  cases hstart : (skipTypeSpecifier s).bind literalBase with
  | none =>
    rw [hstart] at hread
    exact absurd hread hfail
  | some start =>
    obtain ⟨base, digits⟩ := start
    rw [hstart] at hread
    dsimp only at hread
    cases hnumber : t.readNumber base digits with
    | none =>
      rw [hnumber] at hread
      exact absurd hread hfail
    | some read =>
      obtain ⟨number, rest⟩ := read
      rw [hnumber] at hread
      dsimp only at hread
      obtain rfl : rest = [] := by
        refine List.eq_nil_of_length_eq_zero ?_
        split at hread <;> omega
      obtain ⟨u, hskip, hbase⟩ := Option.bind_eq_some_iff.mp hstart
      obtain ⟨specifier, hspecifier, rfl⟩ := exists_specifier hskip
      obtain ⟨b, rfl, rfl⟩ := exists_base hbase
      obtain ⟨negative, cs, rfl, hsign, hcs⟩ := exists_digits hnumber
      let l : NumberLiteral := ⟨specifier, b, negative, cs⟩
      have hknown : l.Known t := ⟨hspecifier, hsign⟩
      have hslip : ¬l.Slip := fun hslip => hmisread ⟨l, rfl, hknown, hslip⟩
      have hproper : l.Proper t := by
        refine ⟨hknown, fun hnil => hslip (.noDigits hnil hne), ?_⟩
        rcases hcs with htaken | ⟨hsixteen, rest, hhex⟩
        · exact digitOf_of_taken hslip htaken
        · exact absurd (Slip.hexPrefix hsixteen hhex) hslip
      refine ⟨l, rfl, hproper, ?_⟩
      by_contra hrange
      have hrefused := numberFromString_of_not_inRange ht hproper hrange hslip data
      exact hfail ((congrArg Prod.fst hrefused).symm.trans h)

/-- The bits of a negative number. -/
theorem toInt_setWidth_of_le {w : ℕ} (hpos : 0 < w) (hw : w ≤ 64) {x : ℤ} (hlower : 2 ^ (w - 1) ≤ x)
    (hupper : x < 2 ^ w) : ((BitVec.ofInt 64 x).setWidth w).toInt = x - 2 ^ w := by
  obtain ⟨k, rfl⟩ := Nat.exists_eq_succ_of_ne_zero hpos.ne'
  rw [IntegralType.setWidth_ofInt hw, BitVec.toInt_ofInt, Int.bmod_def]
  have hcast : ((2 ^ (k + 1) : ℕ) : ℤ) = 2 ^ (k + 1) := by norm_cast
  have hpow : (2 : ℤ) ^ (k + 1) = 2 * 2 ^ k := by ring
  have hlower : (2 : ℤ) ^ k ≤ x := hlower
  rw [hcast, Int.emod_eq_of_lt (by omega) hupper]
  exact if_neg (by omega)

/-- **The value that is stored** for a literal in the range. -/
theorem typedValue_number (ht : t ≠ .bool) (hl : l.Proper t) (hrange : l.InRange t) :
    t.typedValue (BitVec.ofInt 64 l.number) = l.valueOf t := by
  rw [InRange] at hrange
  rw [valueOf]
  split at hrange
  · rw [if_pos hrange.2]
    exact IntegralType.typedValue_ofInt hrange.1 hrange.2
  · rename_i hbase
    have hnegative : l.negative = false := by
      cases h : l.negative with
      | false => rfl
      | true => exact absurd (hl.sign h).2 hbase
    have hnonneg : 0 ≤ l.number := by
      rw [number_of_not_negative hnegative]
      exact Int.natCast_nonneg _
    split
    · rename_i hmax
      have hmin : t.minVal ≤ 0 := by cases t <;> decide
      exact IntegralType.typedValue_ofInt (hmin.trans hnonneg) hmax
    · rename_i hmax
      have hpos : 0 < t.bitLength := by cases t <;> decide
      cases hsigned : t.isSigned with
      | true =>
        rw [IntegralType.maxVal, if_pos hsigned] at hmax
        rw [IntegralType.typedValue, if_neg ht, if_pos hsigned]
        exact toInt_setWidth_of_le hpos t.bitLength_le (by omega) hrange
      | false =>
        rw [IntegralType.maxVal, hsigned] at hmax
        exact absurd hrange (by simp only [Bool.false_eq_true, if_false] at hmax; omega)

end NumberLiteral

/-- What `fromString` of a number returns and stores, as an `int`. -/
theorem fromString_number {t : IntegralType} (ht : t ≠ .bool) (data : BitVec 64) (s : Text) :
    (LiteralType.number t).fromString (.number t data) s =
      (if asInt (t.numberFromString data s).1 = 0 then -1 else asInt (t.numberFromString data s).1,
        .number t (t.numberFromString data s).2) := by
  rw [LiteralType.fromString, IntegralType.fromString, if_neg ht]

/-- What is returned is -1, or a number of characters up to the length of the text. -/
theorem numberFromString_fst (t : IntegralType) (data : BitVec 64) (s : Text) :
    (t.numberFromString data s).1 = -1 ∨
      0 < (t.numberFromString data s).1 ∧ (t.numberFromString data s).1 ≤ s.length := by
  rw [IntegralType.numberFromString]
  split
  · exact .inl rfl
  · cases hstart : (skipTypeSpecifier s).bind literalBase with
    | none => exact .inl rfl
    | some start =>
      obtain ⟨base, digits⟩ := start
      dsimp only
      cases hread : t.readNumber base digits with
      | none => exact .inl rfl
      | some read =>
        obtain ⟨number, rest⟩ := read
        obtain ⟨u, hu, hdigits⟩ := Option.bind_eq_some_iff.mp hstart
        have hle : rest.length ≤ s.length :=
          ((IntegralType.readNumber_suffix hread).trans ((literalBase_suffix hdigits).trans
            (skipTypeSpecifier_suffix hu))).length_le
        dsimp only
        split
        · exact .inl rfl
        · exact .inr ⟨by omega, by omega⟩

/-- **The language of the number literals.** A text that no slip takes for a literal is read to its
end if and only if it is a proper literal with a number in the range. Whatever the text, such a
literal is read to its end and its value is stored, and one with a number out of the range, unless
it is a slip, is refused and nothing is stored. -/
theorem numberLiteral_grammar {t : IntegralType} (ht : t ≠ .bool) (data : BitVec 64) {s : Text}
    (hlen : s.length < 2 ^ 31) :
    (¬Misread t s →
      (((LiteralType.number t).fromString (.number t data) s).1 = s.length ↔
        ∃ l : NumberLiteral, l.render = s ∧ l.Proper t ∧ l.InRange t)) ∧
    ∀ l : NumberLiteral, l.render = s → l.Proper t →
      (l.InRange t → ∃ stored, t.typedValue stored = l.valueOf t ∧
        (LiteralType.number t).fromString (.number t data) s =
          ((s.length : ℤ), .number t stored)) ∧
      (¬l.InRange t → ¬l.Slip →
        (LiteralType.number t).fromString (.number t data) s = (-1, .number t data)) := by
  have hread : ∀ l : NumberLiteral, l.render = s → l.Proper t → l.InRange t →
      (LiteralType.number t).fromString (.number t data) s =
        ((s.length : ℤ), .number t (BitVec.ofInt 64 l.number)) := by
    rintro l rfl hl hrange
    have hpos := List.length_pos_iff.mpr (NumberLiteral.render_ne_nil hl)
    have hint : asInt (l.render.length : ℤ) = l.render.length :=
      asInt_of_lt (Int.natCast_nonneg _) (by omega)
    rw [fromString_number ht, NumberLiteral.numberFromString_of_inRange ht hl hrange]
    simp only [hint, if_neg (Int.natCast_ne_zero.mpr hpos.ne')]
  refine ⟨fun hmisread => ⟨fun h => ?_, ?_⟩, fun l hrender hl => ⟨fun hrange => ?_, ?_⟩⟩
  · refine NumberLiteral.exists_proper ht data ?_ hmisread
    rw [fromString_number ht] at h
    dsimp only at h
    rcases numberFromString_fst t data s with hfail | ⟨hpos, hle⟩
    · rw [hfail] at h
      have hminus : asInt (-1) = -1 := by decide
      rw [hminus, if_neg (by decide)] at h
      omega
    · have hint := asInt_of_lt hpos.le (by omega : (t.numberFromString data s).1 < 2 ^ 31)
      rwa [hint, if_neg hpos.ne'] at h
  · rintro ⟨l, hrender, hl, hrange⟩
    rw [hread l hrender hl hrange]
  · exact ⟨_, NumberLiteral.typedValue_number ht hl hrange, hread l hrender hl hrange⟩
  · intro hrange hslip
    rw [fromString_number ht, ← hrender,
      NumberLiteral.numberFromString_of_not_inRange ht hl hrange hslip]
    rfl

/-- The bits of a negative number of 16 bits. -/
theorem numberLiteral_grammar_int :
    (text "INT#16#ffff").length < 2 ^ 31 ∧
      ∃ stored, IntegralType.int.typedValue stored = -1 ∧
        (LiteralType.number .int).fromString (.number .int 0) (text "INT#16#ffff") =
          (11, .number .int stored) := by
  have hlen : (text "INT#16#ffff").length < 2 ^ 31 := by decide
  obtain ⟨stored, hstored, hread⟩ := ((numberLiteral_grammar (t := .int) (by decide) 0 hlen).2
    ⟨some (text "INT"), .sixteen, false, text "ffff"⟩ (by decide)
    ⟨⟨by rintro name ⟨⟩; decide, by decide⟩, by decide, by decide +kernel⟩).1 (by decide)
  exact ⟨hlen, stored, hstored.trans (by decide), hread⟩

/-- **Literals that are not as they might be expected**: `16#FF` is a number of a `SINT`, although
255 is none, and stores -1; and a `BOOL` has literals of its own. -/
theorem fromString_based_literal :
    (LiteralType.number .sint).fromString (.number .sint 0) (text "16#FF") =
        (5, .number .sint 255) ∧
      ¬(255 : ℤ) ≤ IntegralType.sint.maxVal ∧ IntegralType.sint.typedValue 255 = -1 ∧
      (LiteralType.number .bool).fromString (.number .bool 0) (text "2#1") =
        (-1, .number .bool 0) := by
  refine ⟨rfl, by decide, by decide, rfl⟩

end Forte
