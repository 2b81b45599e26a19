import Forte.Datatypes.NumberLiteral

/-!
# Scanning numbers

The four conversions of `forte::util` on any text (`Forte.Scanner`). A conversion reads a sign, if
it is one of the two signed ones, and the `0x` of a hexadecimal number, and then the loop goes
over the digits. A `long` has 64 bits.

* **What is asked** of a conversion is in `Forte.Scanner.Meets`: the number of the digits of the
  base with the text behind them, or the limit with `ERANGE`, and that nothing overflows while it
  is computed (`Forte.Scanner.overflows`).
* **When it is met** is in `Forte.Scanner.Exact`. The loop takes any decimal digit, so that in the
  bases two and eight it goes on behind the digits of the base; and the last negative number of 64
  bits has no positive one beside it (`Forte.Scanner.meets_iff_scannable`).
-/

namespace Forte

/-- `strtoul`, with the limit of 32 bits in the 64 bits of an `unsigned long`. -/
def strtoul (base : ℕ) (t : Text) : Conversion :=
  let limit1 := (2 ^ 32 - 1) / base
  let limit2 := (2 ^ 32 - 1) % base
  strtoLoop base (fun value nCharVal =>
    value.toNat > limit1 || value.toNat = limit1 && nCharVal > limit2) 0 (skipHexPrefix base t)

/-- The conversions. -/
inductive Scanner
  | strtol | strtoul | strtoll | strtoull
  deriving DecidableEq, Repr

namespace Scanner

/-- Whether the numbers have a sign. -/
def signed : Scanner → Bool
  | strtol => true
  | strtoul => false
  | strtoll => true
  | strtoull => false

/-- How many bits the numbers have. -/
def bits : Scanner → ℕ
  | strtol => 32
  | strtoul => 32
  | strtoll => 64
  | strtoull => 64

/-- The conversion; at `ERANGE` it is the number in front of the digit that was too much. -/
def scan : Scanner → ℕ → Text → Conversion
  | strtol => Forte.strtol
  | strtoul => Forte.strtoul
  | strtoll => Forte.strtoll
  | strtoull => Forte.strtoull

variable (f : Scanner) (base : ℕ) (t : Text)

/-- `bNegativeNumber`. -/
def negative : Bool := f.signed && t.at 0 = '-'.toUInt8

/-- `numeric_limits::min` of the type that the conversion is for. -/
def minVal : ℤ := if f.signed then -2 ^ (f.bits - 1) else 0

/-- `numeric_limits::max`. -/
def maxVal : ℤ := if f.signed then 2 ^ (f.bits - 1) - 1 else 2 ^ f.bits - 1

/-- The conversion as it returns: at `ERANGE` with the limit. -/
def convert : Conversion :=
  let read := f.scan base t
  if read.erange then
    { read with value := BitVec.ofInt 64 (if f.negative t then f.minVal else f.maxVal) }
  else read

/-- A returned value as a number. -/
def toNumber (value : BitVec 64) : ℤ := if f.signed then value.toInt else value.toNat

/-! ### Overflows -/

/-- The text of the digits. -/
def body : Text := skipHexPrefix base (if f.negative t then t.drop 1 else t)

/-- The largest digits that are taken. -/
def limit (negative : Bool) : ℕ :=
  if f.signed then signedLimit f.bits negative else 2 ^ f.bits - 1

/-- The comparison with the limits. -/
def exceeds (negative : Bool) (value : BitVec 64) (nCharVal : ℕ) : Bool :=
  if f.signed then
    value.toInt > (f.limit negative : ℤ) / base ||
      value.toInt = (f.limit negative : ℤ) / base && (nCharVal : ℤ) > (f.limit negative : ℤ) % base
  else
    value.toNat > f.limit negative / base ||
      value.toNat = f.limit negative / base && nCharVal > f.limit negative % base

/-- Whether `base * value + nCharVal` overflows. -/
def stepOverflows (value : BitVec 64) (nCharVal : ℕ) : Bool :=
  let product := BitVec.ofNat 64 base * value
  if f.signed then
    (BitVec.ofNat 64 base).smulOverflow value || product.saddOverflow (BitVec.ofNat 64 nCharVal)
  else (BitVec.ofNat 64 base).umulOverflow value || product.uaddOverflow (BitVec.ofNat 64 nCharVal)

/-- Whether a round of the loop overflows. -/
def loopOverflows (negative : Bool) : BitVec 64 → Text → Bool
  | _, [] => false
  | value, c :: rest =>
    if isDigit c || base = 16 && isAtoFChar c then
      if f.exceeds base negative value (charHexDigitToInt c) then false
      else
        f.stepOverflows base value (charHexDigitToInt c) ||
          loopOverflows negative (BitVec.ofNat 64 base * value +
            BitVec.ofNat 64 (charHexDigitToInt c)) rest
    else false

/-- Whether anything overflows: a round, or the negation behind the last one. -/
def overflows : Bool :=
  let negative := f.negative t
  let read := strtoLoop base (f.exceeds base negative) 0 (f.body base t)
  f.loopOverflows base negative 0 (f.body base t) ||
    negative && !read.erange && read.value.negOverflow

/-! ### What is asked -/

/-- The digits of the base. -/
def digits : Text := (f.body base t).takeWhile fun c => DigitOf base c

/-- The text from the first character that is no digit of the base. -/
def behind : Text := (f.body base t).dropWhile fun c => DigitOf base c

/-- The number that is spelled. -/
def number : ℤ := signedNumeral base (f.negative t) (f.digits base t)

/-- The number is one of the type. -/
def InRange : Prop := f.minVal ≤ f.number base t ∧ f.number base t ≤ f.maxVal

/-- **What is asked of a conversion.** -/
structure Meets : Prop where
  value : f.InRange base t → f.toNumber (f.convert base t).value = f.number base t ∧
    (f.convert base t).rest = f.behind base t ∧ (f.convert base t).erange = false
  limit : ¬f.InRange base t → (f.convert base t).erange = true ∧
    f.toNumber (f.convert base t).value = if f.negative t then f.minVal else f.maxVal
  overflow : f.overflows base t = false

/-- No decimal digit stands behind the digits of a number in the range, and the digits of a
negative one of 64 bits do not begin with those of the last one. -/
structure Exact : Prop where
  behind : f.InRange base t → isDigit ((f.behind base t).at 0) = false
  last : f = strtoll → f.negative t = true → ∀ ds, ds <+: f.digits base t →
    numeral base 0 ds ≠ 2 ^ 63

/-! ### The limits -/

variable {f base t}

/-- The first number that a round cannot compute. -/
def bound (f : Scanner) : ℕ := if f.signed then 2 ^ 63 else 2 ^ 64

theorem limit_le_bound (f : Scanner) (negative : Bool) : f.limit negative ≤ f.bound := by
  cases f <;> cases negative <;> decide

/-- Only the last negative number of 64 bits is beyond what a round can compute. -/
theorem limit_eq_bound_iff (f : Scanner) (negative : Bool) :
    f.limit negative = f.bound ↔ f = strtoll ∧ negative = true := by
  cases f <;> cases negative <;> decide

/-- A number in front of the bound, as a word. -/
theorem toInt_ofNat {v : ℕ} (hsigned : f.signed = true) (hv : v < f.bound) :
    (BitVec.ofNat 64 v).toInt = v := by
  rw [bound, if_pos hsigned] at hv
  have htoNat : (BitVec.ofNat 64 v).toNat = v := by
    rw [BitVec.toNat_ofNat, Nat.mod_eq_of_lt (by omega)]
  rw [BitVec.toInt_eq_toNat_of_lt, htoNat]
  rw [htoNat]
  omega

theorem toNat_ofNat {v : ℕ} (hv : v < f.bound) : (BitVec.ofNat 64 v).toNat = v := by
  have hle : f.bound ≤ 2 ^ 64 := by cases f <;> decide
  rw [BitVec.toNat_ofNat, Nat.mod_eq_of_lt (by omega)]

/-- **The comparison is exact**, for the digits of the base. -/
theorem exceeds_iff_lt (negative : Bool) {v d : ℕ} (hv : v < f.bound) (hd : d < base) :
    f.exceeds base negative (BitVec.ofNat 64 v) d = true ↔
      f.limit negative < base * v + d := by
  rw [exceeds, ← exceeds_iff hd]
  split
  · rename_i hsigned
    rw [toInt_ofNat hsigned hv, Bool.or_eq_true, Bool.and_eq_true, decide_eq_true_iff,
      decide_eq_true_iff, decide_eq_true_iff]
    norm_cast
  · rw [toNat_ofNat hv, Bool.or_eq_true, Bool.and_eq_true, decide_eq_true_iff,
      decide_eq_true_iff, decide_eq_true_iff]

/-- **A round overflows** at the bound. -/
theorem stepOverflows_eq_false_iff {v d : ℕ} (hv : v < f.bound) (hbase : base ≤ 16) (hd : d < 16) :
    f.stepOverflows base (BitVec.ofNat 64 v) d = false ↔ base * v + d < f.bound := by
  have hbase' : base < f.bound := lt_of_le_of_lt hbase (by cases f <;> decide)
  have hd' : d < f.bound := hd.trans (by cases f <;> decide)
  rw [stepOverflows]
  split
  · rename_i hsigned
    have hbound : f.bound = 2 ^ 63 := if_pos hsigned
    rw [Bool.or_eq_false_iff, BitVec.smulOverflow, BitVec.saddOverflow,
      toInt_ofNat hsigned hbase', toInt_ofNat hsigned hv, toInt_ofNat hsigned hd',
      ← BitVec.ofNat_mul]
    by_cases hmul : base * v < f.bound
    · rw [toInt_ofNat hsigned hmul, hbound] at *
      simp only [Bool.or_eq_false_iff, decide_eq_false_iff_not]
      push_cast
      omega
    · have hmul' : ((2 : ℤ) ^ 63 ≤ base * v) := by
        rw [hbound] at hmul
        exact_mod_cast Nat.not_lt.mp hmul
      simp only [Bool.or_eq_false_iff, decide_eq_false_iff_not]
      refine iff_of_false (fun h => h.1.1 hmul') ?_
      omega
  · rename_i hsigned
    have hbound : f.bound = 2 ^ 64 := if_neg hsigned
    rw [Bool.or_eq_false_iff, BitVec.umulOverflow, BitVec.uaddOverflow, toNat_ofNat hbase',
      toNat_ofNat hv, toNat_ofNat hd', ← BitVec.ofNat_mul]
    by_cases hmul : base * v < f.bound
    · rw [toNat_ofNat hmul, hbound] at *
      simp only [decide_eq_false_iff_not]
      omega
    · rw [hbound] at *
      simp only [decide_eq_false_iff_not]
      omega

/-! ### The loop -/

section Loop

variable {negative : Bool} {u : Text}

theorem loop_cons {c : UInt8} (hc : takenDigit base c = true) (v : ℕ) (u : Text) :
    strtoLoop base (f.exceeds base negative) (BitVec.ofNat 64 v) (c :: u) =
      if f.exceeds base negative (BitVec.ofNat 64 v) (charHexDigitToInt c) then
        ⟨BitVec.ofNat 64 v, c :: u, true⟩
      else strtoLoop base (f.exceeds base negative)
        (BitVec.ofNat 64 (base * v + charHexDigitToInt c)) u := by
  have hc : (isDigit c || base = 16 && isAtoFChar c) = true := hc
  rw [strtoLoop, if_pos hc, ← BitVec.ofNat_mul, ← BitVec.ofNat_add]

theorem loopOverflows_cons {c : UInt8} (hc : takenDigit base c = true) (v : ℕ) (u : Text) :
    f.loopOverflows base negative (BitVec.ofNat 64 v) (c :: u) =
      if f.exceeds base negative (BitVec.ofNat 64 v) (charHexDigitToInt c) then false
      else f.stepOverflows base (BitVec.ofNat 64 v) (charHexDigitToInt c) ||
        f.loopOverflows base negative (BitVec.ofNat 64 (base * v + charHexDigitToInt c)) u := by
  have hc : (isDigit c || base = 16 && isAtoFChar c) = true := hc
  rw [loopOverflows, if_pos hc, ← BitVec.ofNat_mul, ← BitVec.ofNat_add]

/-- What the digits of the base come to, behind a number in front of the bound. -/
inductive Outcome (f : Scanner) (base : ℕ) (negative : Bool) (v : ℕ) (ds u : Text) : Prop
  /-- The last negative number of 64 bits is met on the way. -/
  | bound (ds' : Text) (hfront : ds' <+: ds) (hlimit : f.limit negative = f.bound)
      (hvalue : numeral base v ds' = f.bound)
      (hoverflow : f.loopOverflows base negative (BitVec.ofNat 64 v) (ds ++ u) = true)
  /-- The number is too large, and this is seen at the first digit that is too much. -/
  | beyond (hlimit : f.limit negative < numeral base v ds)
      (hskipped : ∀ ds', ds' <+: ds → numeral base v ds' ≠ f.limit negative ∨
        f.limit negative < f.bound)
      (herange : (strtoLoop base (f.exceeds base negative) (BitVec.ofNat 64 v)
        (ds ++ u)).erange = true)
      (hoverflow : f.loopOverflows base negative (BitVec.ofNat 64 v) (ds ++ u) = false)
  /-- The loop goes on behind the digits. -/
  | within (hlimit : numeral base v ds ≤ f.limit negative) (hbound : numeral base v ds < f.bound)
      (hloop : strtoLoop base (f.exceeds base negative) (BitVec.ofNat 64 v) (ds ++ u) =
        strtoLoop base (f.exceeds base negative) (BitVec.ofNat 64 (numeral base v ds)) u)
      (hoverflow : f.loopOverflows base negative (BitVec.ofNat 64 v) (ds ++ u) =
        f.loopOverflows base negative (BitVec.ofNat 64 (numeral base v ds)) u)

/-- **What the loop does on the digits of the base.** -/
theorem outcome (hbase : base = 16 ∨ base ≤ 10) (hpos : 0 < base) {ds : Text}
    (hds : ∀ c ∈ ds, DigitOf base c) {v : ℕ} (hlimit : v ≤ f.limit negative) (hv : v < f.bound) :
    Outcome f base negative v ds u := by
  induction ds generalizing v with
  | nil => exact .within hlimit hv rfl rfl
  | cons c ds ih =>
    have hc := hds c List.mem_cons_self
    have htaken := hc.taken hbase
    have hexceeds := exceeds_iff_lt negative hv hc.2
    have hstep := @stepOverflows_eq_false_iff f base v _ hv (by omega)
      (lt_of_isHexDigit c hc.1)
    by_cases hlarge : f.limit negative < base * v + charHexDigitToInt c
    · have hge (ds' : Text) : f.limit negative < numeral base v (c :: ds') :=
        hlarge.trans_le (le_numeral hpos _ ds')
      refine .beyond (hge ds) (fun ds' hfront => ?_) ?_ ?_
      · rcases List.prefix_cons_iff.mp hfront with rfl | ⟨ds', rfl, -⟩
        · have hvalue : numeral base v [] = v := rfl
          omega
        · exact .inl (hge ds').ne'
      · rw [List.cons_append, loop_cons htaken, if_pos (hexceeds.mpr hlarge)]
      · rw [List.cons_append, loopOverflows_cons htaken, if_pos (hexceeds.mpr hlarge)]
    · have hfit : ¬f.exceeds base negative (BitVec.ofNat 64 v) (charHexDigitToInt c) = true :=
        fun h => hlarge (hexceeds.mp h)
      have hloop (u : Text) := (loop_cons htaken v u).trans (if_neg hfit)
      have hoverflows (u : Text) := (loopOverflows_cons htaken v u).trans (if_neg hfit)
      have hle := Nat.not_lt.mp hlarge
      by_cases hbound : base * v + charHexDigitToInt c < f.bound
      · have hno := hstep.mpr hbound
        simp only [hno, Bool.false_or] at hoverflows
        rcases ih (fun e he => hds e (List.mem_cons_of_mem c he)) hle hbound with
          ⟨ds', hfront, hlast, hvalue, hoverflow⟩ | ⟨hbeyond, hskipped, herange, hoverflow⟩ |
            ⟨hwithin, hlt, hrest, hoverflow⟩
        · exact .bound (c :: ds') (List.cons_prefix_cons.mpr ⟨rfl, hfront⟩) hlast hvalue
            ((hoverflows _).trans hoverflow)
        · refine .beyond hbeyond (fun ds' hfront => ?_)
            ((congrArg Conversion.erange (hloop _)).trans herange)
            ((hoverflows _).trans hoverflow)
          rcases List.prefix_cons_iff.mp hfront with rfl | ⟨ds', rfl, htail⟩
          · have hnil : numeral base v [] = v := rfl
            have := f.limit_le_bound negative
            omega
          · exact hskipped ds' htail
        · exact .within hwithin hlt ((hloop _).trans hrest) ((hoverflows _).trans hoverflow)
      · -- the number in front of the sign is one that a word with a sign does not have
        have hle' := f.limit_le_bound negative
        have hyes : f.stepOverflows base (BitVec.ofNat 64 v) (charHexDigitToInt c) = true :=
          Bool.eq_true_of_not_eq_false fun h => hbound (hstep.mp h)
        refine .bound [c] (List.cons_prefix_cons.mpr ⟨rfl, List.nil_prefix⟩) (by omega) ?_ ?_
        · have hvalue : numeral base v [c] = base * v + charHexDigitToInt c := rfl
          omega
        · rw [List.cons_append, hoverflows, hyes, Bool.true_or]

/-- The loop stops at what is not taken for a digit. -/
theorem loop_of_not_taken (h : takenDigit base (u.at 0) = false) (value : BitVec 64) :
    strtoLoop base (f.exceeds base negative) value u = ⟨value, u, false⟩ ∧
      f.loopOverflows base negative value u = false := by
  cases u with
  | nil => exact ⟨rfl, rfl⟩
  | cons c u =>
    have hc : ¬(isDigit c || base = 16 && isAtoFChar c) = true := Bool.eq_false_iff.mp h
    exact ⟨by rw [strtoLoop, if_neg hc], by rw [loopOverflows, if_neg hc]⟩

/-- What the loop leaves is no longer than the text. -/
theorem length_rest_le (value : BitVec 64) (u : Text) :
    (strtoLoop base (f.exceeds base negative) value u).rest.length ≤ u.length := by
  induction u generalizing value with
  | nil => exact Nat.le_refl _
  | cons c u ih =>
    rw [strtoLoop]
    split_ifs
    · exact Nat.le_refl _
    · exact (ih _).trans (Nat.le_succ _)
    · exact Nat.le_refl _

/-- The loop goes on at what is taken for a digit. -/
theorem loop_of_taken (h : takenDigit base (u.at 0) = true) (value : BitVec 64) :
    (strtoLoop base (f.exceeds base negative) value u).erange = true ∨
      (strtoLoop base (f.exceeds base negative) value u).rest ≠ u := by
  cases u with
  | nil =>
    have hletter : isAtoFChar 0 = false := rfl
    have hzero : takenDigit base 0 = false := by
      rw [takenDigit, hletter, Bool.and_false]
      rfl
    cases hzero.symm.trans h
  | cons c u =>
    have hc : (isDigit c || base = 16 && isAtoFChar c) = true := h
    rw [strtoLoop, if_pos hc]
    split
    · exact .inl rfl
    · refine .inr fun heq => ?_
      have hle := @length_rest_le f base negative
        (BitVec.ofNat 64 base * value + BitVec.ofNat 64 (charHexDigitToInt c)) u
      rw [heq, List.length_cons] at hle
      omega

end Loop

/-! ### The conversions -/

/-- A signed conversion is the loop, and the sign. -/
theorem strtoSigned_eq (hsigned : f.signed = true) :
    strtoSigned f.bits base t =
      let read := strtoLoop base (f.exceeds base (f.negative t)) 0 (f.body base t)
      if f.negative t = true ∧ ¬read.erange then { read with value := -read.value } else read := by
  have hexceeds (negative : Bool) {last : ℤ} (hlast : last = f.limit negative) :
      (fun (value : BitVec 64) (nCharVal : ℕ) => decide (value.toInt > last / base) ||
        decide (value.toInt = last / base) && decide ((nCharVal : ℤ) > last % base)) =
          f.exceeds base negative := by
    funext value nCharVal
    rw [exceeds, if_pos hsigned, hlast]
  have hone : 1 ≤ 2 ^ (f.bits - 1) := Nat.one_le_two_pow
  have hlimit (negative : Bool) : f.limit negative =
      if negative then 2 ^ (f.bits - 1) else 2 ^ (f.bits - 1) - 1 := if_pos hsigned
  by_cases hsign : t.at 0 = '-'.toUInt8
  · have hnegative : f.negative t = true := by
      rw [negative, hsigned, hsign]
      rfl
    have hlast : (2 : ℤ) ^ (f.bits - 1) = f.limit true := by
      rw [hlimit, if_pos rfl]
      norm_cast
    rw [strtoSigned, body, hnegative]
    simp only [hsign, if_true, true_and, hexceeds true hlast]
  · have hnegative : f.negative t = false := by
      rw [negative, hsigned, decide_eq_false hsign]
      rfl
    have hlast : (2 : ℤ) ^ (f.bits - 1) - 1 = f.limit false := by
      rw [hlimit, if_neg Bool.false_ne_true]
      push_cast [hone]
      rfl
    rw [strtoSigned, body, hnegative]
    simp only [hsign, if_false, false_and, Bool.false_eq_true, hexceeds false hlast]

/-- A conversion is the loop, and the sign. -/
theorem scan_eq (f : Scanner) (base : ℕ) (t : Text) :
    f.scan base t =
      let read := strtoLoop base (f.exceeds base (f.negative t)) 0 (f.body base t)
      if f.negative t = true ∧ ¬read.erange then { read with value := -read.value } else read := by
  cases f with
  | strtol => exact strtoSigned_eq (f := strtol) rfl
  | strtoul => rfl
  | strtoll => exact strtoSigned_eq (f := strtoll) rfl
  | strtoull => rfl

/-- The digits are in the range if they are not larger than the limit. -/
theorem inRange_iff (f : Scanner) (base : ℕ) (t : Text) :
    f.InRange base t ↔ numeral base 0 (f.digits base t) ≤ f.limit (f.negative t) := by
  rw [InRange, number, signedNumeral, minVal, maxVal, limit, signedLimit]
  generalize numeral base 0 (f.digits base t) = n
  cases hnegative : f.negative t with
  | true =>
    have hsigned : f.signed = true := (Bool.and_eq_true_iff.mp hnegative).1
    rw [if_pos hsigned, if_pos hsigned, if_pos hsigned]
    cases f with
    | strtol => simp only [bits, if_true]; omega
    | strtoll => simp only [bits, if_true]; omega
    | strtoul => cases hsigned
    | strtoull => cases hsigned
  | false =>
    cases f <;> simp only [signed, bits, if_true, if_false, Bool.false_eq_true] <;> omega

/-- The text of the digits, as the digits of the base and what is behind them. -/
theorem digits_append_behind (f : Scanner) (base : ℕ) (t : Text) :
    f.digits base t ++ f.behind base t = f.body base t := List.takeWhile_append_dropWhile

theorem digitOf_of_mem_digits {c : UInt8} (h : c ∈ f.digits base t) : DigitOf base c := by
  have hc := @List.mem_takeWhile_imp _ (fun c => decide (DigitOf base c)) _ _ h
  exact of_decide_eq_true hc

/-- Behind the digits of the base a decimal digit is all that may be taken for one. -/
theorem taken_behind (hbase : base = 16 ∨ base ≤ 10) (t : Text) :
    takenDigit base ((f.behind base t).at 0) = isDigit ((f.behind base t).at 0) := by
  have hhead := List.head?_dropWhile_not (fun c => decide (DigitOf base c)) (f.body base t)
  rw [← behind] at hhead
  cases hbehind : f.behind base t with
  | nil =>
    have hletter : isAtoFChar 0 = false := rfl
    change takenDigit base 0 = isDigit 0
    rw [takenDigit, hletter, Bool.and_false, Bool.or_false]
  | cons c u =>
    rw [hbehind] at hhead
    have hnot : ¬DigitOf base c := of_decide_eq_false (by simpa using hhead)
    rw [Text.at_cons_zero, takenDigit]
    rcases hbase with rfl | hle
    · -- a letter that is taken in the base sixteen is a digit of the base
      have hletter : isAtoFChar c = false := by
        refine Bool.eq_false_iff.mpr fun hc => hnot ?_
        have hhex : isHexDigit c = true := by rw [isHexDigit, hc, Bool.or_true]
        exact ⟨hhex, lt_of_isHexDigit c hhex⟩
      rw [hletter, Bool.and_false, Bool.or_false]
    · have hne : base ≠ 16 := by omega
      rw [decide_eq_false hne, Bool.false_and, Bool.or_false]

/-- A number of the type, as it is returned. -/
theorem toNumber_ofInt {z : ℤ} (hmin : f.minVal ≤ z) (hmax : z ≤ f.maxVal) :
    f.toNumber (BitVec.ofInt 64 z) = z := by
  rw [minVal] at hmin
  rw [maxVal] at hmax
  rw [toNumber]
  have hpow : (2 : ℤ) ^ (f.bits - 1) ≤ 2 ^ 63 ∧ (2 : ℤ) ^ f.bits ≤ 2 ^ 64 := by
    cases f <;> exact ⟨by decide, by decide⟩
  split
  · rename_i hsigned
    rw [if_pos hsigned] at hmin hmax
    exact BitVec.toInt_ofInt_eq_self (by decide) (by omega) (by omega)
  · rename_i hsigned
    rw [if_neg hsigned] at hmin hmax
    rw [BitVec.toNat_ofInt]
    omega

theorem minVal_le_maxVal (f : Scanner) : f.minVal ≤ f.maxVal := by
  cases f <;> decide

/-- The returned number is that of the digits, if the loop has read them. -/
theorem toNumber_signed (hrange : f.InRange base t) :
    f.toNumber (if f.negative t = true then -BitVec.ofNat 64 (numeral base 0 (f.digits base t))
      else BitVec.ofNat 64 (numeral base 0 (f.digits base t))) = f.number base t := by
  refine Eq.trans (congrArg f.toNumber ?_) (toNumber_ofInt hrange.1 hrange.2)
  rw [number, signedNumeral]
  split
  · rw [BitVec.ofInt_neg, BitVec.ofInt_natCast]
  · rw [BitVec.ofInt_natCast]

/-- The loop, from the digits on. -/
def loop (f : Scanner) (base : ℕ) (t : Text) : Conversion :=
  strtoLoop base (f.exceeds base (f.negative t)) (BitVec.ofNat 64 0)
    (f.digits base t ++ f.behind base t)

/-- A conversion is the loop, and the sign. -/
theorem scan_eq_loop (f : Scanner) (base : ℕ) (t : Text) :
    f.scan base t = if f.negative t = true ∧ ¬(f.loop base t).erange then
      { f.loop base t with value := -(f.loop base t).value } else f.loop base t := by
  rw [scan_eq, loop, digits_append_behind]
  rfl

theorem overflows_eq_loop (f : Scanner) (base : ℕ) (t : Text) :
    f.overflows base t = (f.loopOverflows base (f.negative t) (BitVec.ofNat 64 0)
      (f.digits base t ++ f.behind base t) ||
        f.negative t && !(f.loop base t).erange && (f.loop base t).value.negOverflow) := by
  rw [loop, digits_append_behind]
  rfl

/-- The sign and the limit change neither `errno` nor the end pointer. -/
theorem convert_eq_loop (f : Scanner) (base : ℕ) (t : Text) :
    (f.convert base t).erange = (f.loop base t).erange ∧
      (f.convert base t).rest = (f.loop base t).rest := by
  rw [convert, scan_eq_loop]
  dsimp only
  split_ifs <;> exact ⟨rfl, rfl⟩

/-- **A number that is too large** is seen. -/
theorem meets_of_beyond (hout : ¬f.InRange base t) (herange : (f.loop base t).erange = true)
    (hquiet : f.loopOverflows base (f.negative t) (BitVec.ofNat 64 0)
      (f.digits base t ++ f.behind base t) = false) : f.Meets base t := by
  refine ⟨fun h => absurd h hout, fun _ => ?_, ?_⟩
  · have hscan : (f.scan base t).erange = true := by
      rw [scan_eq_loop, if_neg fun h => h.2 herange, herange]
    rw [convert, if_pos hscan]
    refine ⟨hscan, ?_⟩
    split
    · exact toNumber_ofInt le_rfl f.minVal_le_maxVal
    · exact toNumber_ofInt f.minVal_le_maxVal le_rfl
  · rw [overflows_eq_loop, hquiet, herange, Bool.not_true, Bool.and_false, Bool.false_and,
      Bool.or_false]

/-- **A number in the range** is returned, if the loop stops behind its digits. -/
theorem meets_of_within (hin : f.InRange base t)
    (hbound : numeral base 0 (f.digits base t) < f.bound)
    (hloop : f.loop base t =
      ⟨BitVec.ofNat 64 (numeral base 0 (f.digits base t)), f.behind base t, false⟩)
    (hquiet : f.loopOverflows base (f.negative t) (BitVec.ofNat 64 0)
      (f.digits base t ++ f.behind base t) = false) : f.Meets base t := by
  refine ⟨fun _ => ?_, fun h => absurd hin h, ?_⟩
  · have hread : f.scan base t =
        ⟨if f.negative t = true then -BitVec.ofNat 64 (numeral base 0 (f.digits base t))
          else BitVec.ofNat 64 (numeral base 0 (f.digits base t)), f.behind base t, false⟩ := by
      rw [scan_eq_loop, hloop]
      simp only [Bool.false_eq_true, not_false_eq_true, and_true]
      split <;> rfl
    rw [convert, hread]
    exact ⟨toNumber_signed hin, rfl, rfl⟩
  · rw [overflows_eq_loop, hquiet, hloop, Bool.false_or, Bool.not_false, Bool.and_true]
    cases hnegative : f.negative t with
    | false => rfl
    | true =>
      -- what is negated is no negative number
      have hsigned : f.signed = true := (Bool.and_eq_true_iff.mp hnegative).1
      have hne : (BitVec.ofNat 64 (numeral base 0 (f.digits base t))).negOverflow = false := by
        refine beq_eq_false_iff_ne.mpr ?_
        rw [toInt_ofNat hsigned hbound]
        omega
      rw [hne, Bool.and_false]

/-- **When a conversion does what is asked of it.** -/
theorem meets_iff_scannable (f : Scanner) (b : BasePrefix) (t : Text) :
    f.Meets b.radix t ↔ f.Exact b.radix t := by
  have hrange := inRange_iff f b.radix t
  have hlast := f.limit_eq_bound_iff (f.negative t)
  have hpow : f = strtoll → f.bound = 2 ^ 63 := by
    rintro rfl
    rfl
  rcases (outcome b.radix_cases b.radix_pos (fun c hc => digitOf_of_mem_digits hc)
    (Nat.zero_le _) (by cases f <;> decide) :
      Outcome f b.radix (f.negative t) 0 (f.digits b.radix t) (f.behind b.radix t)) with
    ⟨ds, hfront, hlimit, hvalue, hoverflow⟩ | ⟨hbeyond, hskipped, herange, hquiet⟩ |
      ⟨hwithin, hbound, hloop, hoverflow⟩
  · obtain ⟨rfl, hnegative⟩ := hlast.mp hlimit
    refine iff_of_false (fun h => ?_) fun h => h.last rfl hnegative ds hfront hvalue
    have hno := h.overflow
    rw [overflows_eq_loop, hoverflow, Bool.true_or] at hno
    cases hno
  · have hout : ¬f.InRange b.radix t := fun h => absurd (hrange.mp h) (Nat.not_le.mpr hbeyond)
    refine iff_of_true (meets_of_beyond hout herange hquiet) ⟨fun h => absurd h hout, ?_⟩
    intro hf hnegative ds hfront hvalue
    have hlimit := hlast.mpr ⟨hf, hnegative⟩
    have hpow := hpow hf
    rcases hskipped ds hfront with hne | hlt
    · exact hne (by omega)
    · omega
  · have hin : f.InRange b.radix t := hrange.mpr hwithin
    have htaken := taken_behind b.radix_cases (f := f) t
    cases hdigit : isDigit ((f.behind b.radix t).at 0) with
    | true =>
      refine iff_of_false (fun h => ?_) fun h => by cases (h.behind hin).symm.trans hdigit
      obtain ⟨-, hrest, herange⟩ := h.value hin
      -- the loop goes on, so that it leaves less or breaks off
      obtain ⟨herange', hrest'⟩ := f.convert_eq_loop b.radix t
      rw [herange', loop, hloop] at herange
      rw [hrest', loop, hloop] at hrest
      rcases @loop_of_taken f _ (f.negative t) _ (htaken.trans hdigit)
        (BitVec.ofNat 64 (numeral b.radix 0 (f.digits b.radix t))) with htrue | hne
      · cases herange.symm.trans htrue
      · exact hne hrest
    | false =>
      obtain ⟨hstop, hquiet⟩ := @loop_of_not_taken f _ (f.negative t) _
        (htaken.trans hdigit) (BitVec.ofNat 64 (numeral b.radix 0 (f.digits b.radix t)))
      refine iff_of_true (meets_of_within hin hbound (hloop.trans hstop) (hoverflow.trans hquiet))
        ⟨fun _ => hdigit, fun hf _ ds hfront hvalue => ?_⟩
      obtain ⟨ds', hds'⟩ := hfront
      have hle := le_numeral b.radix_pos (numeral b.radix 0 ds) ds'
      have hpow := hpow hf
      rw [← numeral_append, hds'] at hle
      omega

/-- In the base two the loop goes on at the digit nine. -/
theorem not_meets_nine :
    ¬∀ (f : Scanner) (base : ℕ) (t : Text), base ∈ [2, 8, 10, 16] → f.Meets base t := by
  intro h
  have hmeets := h strtoull 2 (text "9") (by decide)
  have hrest := (hmeets.value ⟨by decide, by decide⟩).2.1
  exact absurd hrest (by decide)

/-! ### Decimal numbers without a sign -/

section Decimal

variable {ds u : Text}

theorem digitOf_ten {c : UInt8} (h : isDigit c = true) : DigitOf 10 c :=
  ⟨by rw [isHexDigit, h, Bool.true_or], lt_of_isDigit c h⟩

theorem takenDigit_ten (c : UInt8) : takenDigit 10 c = isDigit c := by
  have hne : (10 : ℕ) ≠ 16 := by decide
  rw [takenDigit, decide_eq_false hne, Bool.false_and, Bool.or_false]

theorem strtoul_eq (t : Text) :
    Forte.strtoul 10 t = strtoLoop 10 (strtoul.exceeds 10 false) (BitVec.ofNat 64 0) t := by
  have hskip : skipHexPrefix 10 t = t := if_neg fun h => by cases h.1
  rw [Forte.strtoul, hskip]
  rfl

/-- **Digits of 32 bits are read**, whatever is behind them. -/
theorem strtoul_of_lt (hds : ∀ c ∈ ds, isDigit c = true) (hu : isDigit (u.at 0) = false)
    (hlt : numeral 10 0 ds < 2 ^ 32) :
    Forte.strtoul 10 (ds ++ u) = ⟨BitVec.ofNat 64 (numeral 10 0 ds), u, false⟩ := by
  have hlimit : strtoul.limit false = 2 ^ 32 - 1 := rfl
  have hbound : strtoul.bound = 2 ^ 64 := rfl
  rw [strtoul_eq]
  rcases (outcome (.inr le_rfl) (by decide) (fun c hc => digitOf_ten (hds c hc)) (Nat.zero_le _)
    (by decide) : Outcome strtoul 10 false 0 ds u) with
    ⟨-, -, hlast, -, -⟩ | ⟨hbeyond, -, -, -⟩ | ⟨-, -, hloop, -⟩
  · rw [hlimit, hbound] at hlast
    omega
  · rw [hlimit] at hbeyond
    omega
  · rw [hloop, (loop_of_not_taken ((takenDigit_ten _).trans hu) _).1]

/-- Where the loop breaks off there is a digit. -/
theorem taken_of_erange {exceeds : BitVec 64 → ℕ → Bool} {value : BitVec 64} {t : Text}
    (h : (strtoLoop base exceeds value t).erange = true) :
    takenDigit base ((strtoLoop base exceeds value t).rest.at 0) = true := by
  induction t generalizing value with
  | nil => cases h
  | cons c t ih =>
    rw [strtoLoop] at h ⊢
    split at h
    · rename_i htaken
      rw [if_pos htaken]
      split at h
      · rename_i hlarge
        rw [if_pos hlarge]
        exact htaken
      · rename_i hfit
        rw [if_neg hfit]
        exact ih h
    · cases h

/-- **Digits of a larger number are not**, and the end pointer stays at one of them. -/
theorem strtoul_of_le (hds : ∀ c ∈ ds, isDigit c = true) (hle : 2 ^ 32 ≤ numeral 10 0 ds) :
    (Forte.strtoul 10 (ds ++ u)).erange = true ∧
      isDigit ((Forte.strtoul 10 (ds ++ u)).rest.at 0) = true := by
  have hlimit : strtoul.limit false = 2 ^ 32 - 1 := rfl
  have hbound : strtoul.bound = 2 ^ 64 := rfl
  rw [strtoul_eq]
  have herange : (strtoLoop 10 (strtoul.exceeds 10 false) (BitVec.ofNat 64 0)
      (ds ++ u)).erange = true := by
    rcases (outcome (.inr le_rfl) (by decide) (fun c hc => digitOf_ten (hds c hc)) (Nat.zero_le _)
      (by decide) : Outcome strtoul 10 false 0 ds u) with
      ⟨-, -, hlast, -, -⟩ | ⟨-, -, herange, -⟩ | ⟨hwithin, -, -, -⟩
    · rw [hlimit, hbound] at hlast
      omega
    · exact herange
    · rw [hlimit] at hwithin
      omega
  exact ⟨herange, (takenDigit_ten _).symm.trans (taken_of_erange herange)⟩

/-! ### Decimal numbers that are written -/

theorem isDigit_of_mem_decimalDigits {c : UInt8} {n : ℕ} (h : c ∈ decimalDigits n) :
    isDigit c = true := by
  obtain ⟨d, hd, rfl⟩ := List.mem_map.mp h
  exact isDigit_digitChar (Places.lt_of_mem_digits (by decide) hd)

theorem numeral_decimalDigits (n : ℕ) : numeral 10 0 (decimalDigits n) = n := by
  have hfoldl := List.foldl_ext (fun v d => 10 * v + charHexDigitToInt (digitChar d))
    (fun v d => 10 * v + d) 0 (l := Places.digits 10 n) fun v d hd => by
      rw [charHexDigitToInt_digitChar (Places.lt_of_mem_digits (by decide) hd)]
  rw [numeral, decimalDigits, List.foldl_map]
  exact hfoldl.trans (Places.foldl_digits n)

/-- **What is written is converted**, and to the largest number if it is larger. -/
theorem convert_decimalDigits (n : ℕ) (hu : isDigit (u.at 0) = false) :
    (strtoul.convert 10 (decimalDigits n ++ u)).value = BitVec.ofNat 64 (min n (2 ^ 32 - 1)) := by
  have hds : ∀ c ∈ decimalDigits n, isDigit c = true :=
    fun c hc => isDigit_of_mem_decimalDigits hc
  rw [convert]
  by_cases hlt : n < 2 ^ 32
  · have hread : strtoul.scan 10 (decimalDigits n ++ u) = _ :=
      strtoul_of_lt hds hu ((numeral_decimalDigits n).symm ▸ hlt)
    have hmin : min n (2 ^ 32 - 1) = n := by omega
    rw [hread, numeral_decimalDigits, hmin]
    rfl
  · have hread : (strtoul.scan 10 (decimalDigits n ++ u)).erange = true :=
      (@strtoul_of_le _ u hds ((numeral_decimalDigits n).symm ▸ not_lt.mp hlt)).1
    have hmin : min n (2 ^ 32 - 1) = 2 ^ 32 - 1 := by omega
    rw [hmin, if_pos hread]
    rfl

end Decimal

end Scanner

end Forte
