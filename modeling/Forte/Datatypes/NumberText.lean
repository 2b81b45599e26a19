import Mathlib.Data.Bool.AllAny
import Forte.Datatypes.Literal
import Forte.Datatypes.Storage

/-!
# Numbers, read as they are printed

What the conversions behind `CIEC_ANY_ELEMENTARY::fromString` make of decimal digits and a sign
in front of other text.

The conversions compute in 64 bits. Digits whose number is within the limit of the type are read
as that number (`Forte.strtoSigned_of_le`), and of too many digits the limit is left
(`Forte.strtoSigned_eq`).
-/

namespace Forte

/-! ### Characters of a text -/

theorem Text.at_cons_zero (c : UInt8) (t : Text) : Text.at (c :: t) 0 = c := rfl

/-- A character of a text is one of its characters, or the zero behind its end. -/
theorem Text.at_mem_or (t : Text) (i : ℕ) : t.at i ∈ t ∨ t.at i = 0 := by
  rw [Text.at, List.getD_eq_getElem?_getD]
  cases h : t[i]? with
  | none => exact Or.inr rfl
  | some c => exact Or.inl (List.mem_of_getElem? h)

theorem Text.head?_eq_of_at {t : Text} {c : UInt8} (h : t.head? = some c) : t.at 0 = c := by
  cases t with
  | nil => exact absurd h nofun
  | cons d t => exact Option.some.inj h

theorem Text.head?_ne_of_at {t : Text} {c : UInt8} (h : t.at 0 ≠ c) : t.head? ≠ some c :=
  fun heq => h (Text.head?_eq_of_at heq)

/-- What is read of a text does not begin with what does not begin the rest. -/
theorem takeWhile_append_of_at {p : UInt8 → Bool} {t rest : Text} (ht : ∀ c ∈ t, p c = true)
    (hrest : p (rest.at 0) = false) :
    (t ++ rest).takeWhile p = t ∧ (t ++ rest).dropWhile p = rest := by
  induction t with
  | nil =>
    cases rest with
    | nil => exact ⟨rfl, rfl⟩
    | cons c rest =>
      have hc : ¬p c = true := by
        rw [Text.at_cons_zero] at hrest
        rw [hrest]
        exact Bool.false_ne_true
      exact ⟨List.takeWhile_cons_of_neg hc, List.dropWhile_cons_of_neg hc⟩
  | cons c t ih =>
    have hc := ht c List.mem_cons_self
    obtain ⟨htake, hdrop⟩ := ih fun d hd => ht d (List.mem_cons_of_mem c hd)
    exact ⟨by rw [List.cons_append, List.takeWhile_cons_of_pos hc, htake],
      by rw [List.cons_append, List.dropWhile_cons_of_pos hc, hdrop]⟩

/-! ### Digits -/

theorem isDigit_digitChar {d : ℕ} (hd : d < 10) : isDigit (digitChar d) = true := by
  revert d
  decide

theorem charHexDigitToInt_digitChar {d : ℕ} (hd : d < 10) :
    charHexDigitToInt (digitChar d) = d := by
  revert d
  decide

theorem ne_of_isDigit {c e : UInt8} (hc : isDigit c = true) (he : isDigit e = false) : c ≠ e := by
  rintro rfl
  rw [hc] at he
  exact Bool.noConfusion he

/-- The number that digits spell behind another number. -/
def digitsValue (value : ℕ) (ds : List ℕ) : ℕ := ds.foldl (fun value d => 10 * value + d) value

theorem le_digitsValue (value : ℕ) (ds : List ℕ) : value ≤ digitsValue value ds := by
  induction ds generalizing value with
  | nil => exact Nat.le_refl _
  | cons d ds ih =>
    have := ih (10 * value + d)
    rw [digitsValue, List.foldl_cons]
    exact Nat.le_trans (by omega) this

theorem digitsValue_digits (v : ℕ) : digitsValue 0 (Places.digits 10 v) = v :=
  Places.foldl_digits v

section Loop

variable {exceeds : BitVec 64 → ℕ → Bool} {ds : List ℕ} {rest : Text}

theorem strtoLoop_cons_digit {d : ℕ} (hd : d < 10) (value : BitVec 64) (t : Text) :
    strtoLoop 10 exceeds value (digitChar d :: t) =
      if exceeds value d then ⟨value, digitChar d :: t, true⟩
      else strtoLoop 10 exceeds (BitVec.ofNat 64 10 * value + BitVec.ofNat 64 d) t := by
  rw [strtoLoop, isDigit_digitChar hd, Bool.true_or, if_pos rfl, charHexDigitToInt_digitChar hd]

theorem strtoLoop_rest (hrest : isDigit (rest.at 0) = false) (value : BitVec 64) :
    strtoLoop 10 exceeds value rest = ⟨value, rest, false⟩ := by
  cases rest with
  | nil => rfl
  | cons c rest =>
    rw [Text.at_cons_zero] at hrest
    rw [strtoLoop, hrest]
    rfl

variable (exceeds) in
/-- **The loop of the conversions reads all digits**, or it overflows. It computes in 64 bits. -/
theorem strtoLoop_digits (hds : ∀ d ∈ ds, d < 10) (hrest : isDigit (rest.at 0) = false)
    (value : ℕ) :
    (strtoLoop 10 exceeds (BitVec.ofNat 64 value) (ds.map digitChar ++ rest)).erange = true ∨
      strtoLoop 10 exceeds (BitVec.ofNat 64 value) (ds.map digitChar ++ rest) =
        ⟨BitVec.ofNat 64 (digitsValue value ds), rest, false⟩ := by
  induction ds generalizing value with
  | nil => exact Or.inr (strtoLoop_rest hrest _)
  | cons d ds ih =>
    rw [List.map_cons, List.cons_append, strtoLoop_cons_digit (hds d List.mem_cons_self)]
    split
    · exact Or.inl rfl
    · have hmul : BitVec.ofNat 64 10 * BitVec.ofNat 64 value + BitVec.ofNat 64 d =
          BitVec.ofNat 64 (10 * value + d) := by
        rw [BitVec.ofNat_add, BitVec.ofNat_mul]
      rw [hmul]
      exact ih (fun e he => hds e (List.mem_cons_of_mem d he)) (10 * value + d)

/-- **Digits of a number up to the limit do not overflow.** -/
theorem strtoLoop_of_le {limit : ℕ}
    (hexceeds : ∀ v d, 10 * v + d ≤ limit → exceeds (BitVec.ofNat 64 v) d = false)
    (hds : ∀ d ∈ ds, d < 10) (hrest : isDigit (rest.at 0) = false) {value : ℕ}
    (hlimit : digitsValue value ds ≤ limit) :
    strtoLoop 10 exceeds (BitVec.ofNat 64 value) (ds.map digitChar ++ rest) =
      ⟨BitVec.ofNat 64 (digitsValue value ds), rest, false⟩ := by
  refine (strtoLoop_digits exceeds hds hrest value).resolve_left fun herange => ?_
  suffices hfalse : (strtoLoop 10 exceeds (BitVec.ofNat 64 value)
      (ds.map digitChar ++ rest)).erange = false by
    rw [hfalse] at herange
    exact Bool.noConfusion herange
  clear herange
  induction ds generalizing value with
  | nil => exact congrArg Conversion.erange (strtoLoop_rest hrest _)
  | cons d ds ih =>
    have hle : 10 * value + d ≤ limit := Nat.le_trans (le_digitsValue _ ds) hlimit
    rw [List.map_cons, List.cons_append, strtoLoop_cons_digit (hds d List.mem_cons_self),
      hexceeds value d hle, if_neg Bool.false_ne_true, ← BitVec.ofNat_mul, ← BitVec.ofNat_add]
    exact ih (fun e he => hds e (List.mem_cons_of_mem d he)) hlimit

end Loop

/-! ### Numbers with a sign -/

/-- The text of a number: a sign or none, and digits. -/
def signed (negative : Bool) (ds : List ℕ) : Text :=
  (if negative then text "-" else []) ++ ds.map digitChar

/-- The number that is spelled. -/
def signedValue (negative : Bool) (ds : List ℕ) : ℤ :=
  if negative then -(digitsValue 0 ds : ℤ) else digitsValue 0 ds

/-- What comes behind a number: neither a digit nor, at once or after one more character, the
hash of a base. -/
structure NumberEnd (rest : Text) : Prop where
  digit : isDigit (rest.at 0) = false
  hash : rest.at 0 ≠ '#'.toUInt8
  second : rest.at 1 ≠ '#'.toUInt8

section Signed

variable {negative : Bool} {ds : List ℕ} {rest : Text}

/-- A text of digits goes on with a digit or with what comes behind it. -/
theorem at_digits_append (ds : List ℕ) (hds : ∀ d ∈ ds, d < 10) (rest : Text) (i : ℕ) :
    isDigit (Text.at (ds.map digitChar ++ rest) i) = true ∨
      ds.length ≤ i ∧ Text.at (ds.map digitChar ++ rest) i = rest.at (i - ds.length) := by
  induction ds generalizing i with
  | nil => exact Or.inr ⟨Nat.zero_le _, rfl⟩
  | cons d ds ih =>
    cases i with
    | zero => exact Or.inl (isDigit_digitChar (hds d List.mem_cons_self))
    | succ i =>
      rcases ih (fun e he => hds e (List.mem_cons_of_mem d he)) i with h | ⟨hle, h⟩
      · exact Or.inl h
      · refine Or.inr ⟨Nat.succ_le_succ hle, ?_⟩
        rw [List.length_cons, Nat.add_sub_add_right]
        exact h

/-- The largest digits that a signed conversion takes. -/
def signedLimit (bits : ℕ) (negative : Bool) : ℕ :=
  if negative then 2 ^ (bits - 1) else 2 ^ (bits - 1) - 1

variable (negative rest) in
/-- A signed conversion is the loop over the digits, and the sign. -/
theorem strtoSigned_signed {bits : ℕ} (hbits : bits ≤ 64) (hds : ∀ d ∈ ds, d < 10)
    (hne : ds ≠ []) :
    ∃ exceeds : BitVec 64 → ℕ → Bool,
      (∀ v d, 10 * v + d ≤ signedLimit bits negative →
        exceeds (BitVec.ofNat 64 v) d = false) ∧
      strtoSigned bits 10 (signed negative ds ++ rest) =
        let read := strtoLoop 10 exceeds (BitVec.ofNat 64 0) (ds.map digitChar ++ rest)
        if negative = true ∧ ¬read.erange then { read with value := -read.value } else read := by
  have hlimit : ∀ limit : ℤ, ∀ v d : ℕ, limit ≤ 2 ^ 63 → (10 * v + d : ℕ) ≤ limit →
      ((BitVec.ofNat 64 v).toInt > limit / (10 : ℕ) ||
        (BitVec.ofNat 64 v).toInt = limit / (10 : ℕ) && (d : ℤ) > limit % (10 : ℕ)) = false := by
    intro limit v d hle hfit
    have hv : (BitVec.ofNat 64 v).toInt = v := by
      have hlt : v < 2 ^ 64 := by omega
      rw [BitVec.toInt_eq_toNat_of_lt, BitVec.toNat_ofNat, Nat.mod_eq_of_lt hlt]
      rw [BitVec.toNat_ofNat, Nat.mod_eq_of_lt hlt]
      omega
    rw [hv, Bool.or_eq_false_iff, Bool.and_eq_false_iff]
    simp only [decide_eq_false_iff_not]
    omega
  have hpow : (2 : ℤ) ^ (bits - 1) ≤ 2 ^ 63 :=
    pow_le_pow_right₀ (by decide) (Nat.sub_le_sub_right hbits 1)
  cases negative with
  | true =>
    refine ⟨fun value nCharVal => value.toInt > 2 ^ (bits - 1) / (10 : ℕ) ||
      value.toInt = 2 ^ (bits - 1) / (10 : ℕ) && (nCharVal : ℤ) > 2 ^ (bits - 1) % (10 : ℕ),
      fun v d hfit => hlimit (2 ^ (bits - 1)) v d hpow ?_, ?_⟩
    · have hfit : 10 * v + d ≤ 2 ^ (bits - 1) := hfit
      exact_mod_cast hfit
    · have hat : Text.at (signed true ds ++ rest) 0 = '-'.toUInt8 := rfl
      rw [strtoSigned]
      simp only [hat, if_true, true_and]
      rfl
  | false =>
    obtain ⟨d, ds, rfl⟩ := List.exists_cons_of_ne_nil hne
    have hsign : digitChar d ≠ '-'.toUInt8 :=
      ne_of_isDigit (isDigit_digitChar (hds d List.mem_cons_self)) (by decide)
    have hat : ¬Text.at (signed false (d :: ds) ++ rest) 0 = '-'.toUInt8 := hsign
    refine ⟨fun value nCharVal => value.toInt > (2 ^ (bits - 1) - 1) / (10 : ℕ) ||
      value.toInt = (2 ^ (bits - 1) - 1) / (10 : ℕ) &&
        (nCharVal : ℤ) > (2 ^ (bits - 1) - 1) % (10 : ℕ),
      fun v e hfit => hlimit (2 ^ (bits - 1) - 1) v e (by omega) ?_, ?_⟩
    · have hone : 1 ≤ 2 ^ (bits - 1) := Nat.one_le_two_pow
      have hfit : 10 * v + e ≤ 2 ^ (bits - 1) - 1 := hfit
      zify [hone] at hfit
      push_cast
      exact hfit
    · rw [strtoSigned]
      simp only [hat, Bool.false_eq_true, if_false, false_and]
      rfl

theorem ofInt_signedValue :
    BitVec.ofInt 64 (signedValue negative ds) =
      if negative then -BitVec.ofNat 64 (digitsValue 0 ds)
      else BitVec.ofNat 64 (digitsValue 0 ds) := by
  cases negative with
  | true => exact (BitVec.ofInt_neg).trans (congrArg Neg.neg (BitVec.ofInt_natCast _ _))
  | false => exact BitVec.ofInt_natCast _ _

variable (negative) in
/-- **A signed conversion reads the number**, or it overflows. -/
theorem strtoSigned_eq {bits : ℕ} (hbits : bits ≤ 64) (hds : ∀ d ∈ ds, d < 10) (hne : ds ≠ [])
    (hrest : isDigit (rest.at 0) = false) :
    (strtoSigned bits 10 (signed negative ds ++ rest)).erange = true ∨
      strtoSigned bits 10 (signed negative ds ++ rest) =
        ⟨BitVec.ofInt 64 (signedValue negative ds), rest, false⟩ := by
  obtain ⟨exceeds, -, heq⟩ := strtoSigned_signed negative rest hbits hds hne
  rw [heq, ofInt_signedValue]
  have hloop := strtoLoop_digits exceeds hds hrest 0
  generalize strtoLoop 10 exceeds (BitVec.ofNat 64 0) (ds.map digitChar ++ rest) = read at hloop ⊢
  rcases hloop with h | rfl
  · left
    simp only [h, not_true_eq_false, and_false, if_false]
  · right
    cases negative <;> rfl

/-- **It reads every number that fits.** -/
theorem strtoSigned_of_le {bits : ℕ} (hbits : bits ≤ 64) (hds : ∀ d ∈ ds, d < 10) (hne : ds ≠ [])
    (hrest : isDigit (rest.at 0) = false)
    (hlimit : digitsValue 0 ds ≤ signedLimit bits negative) :
    strtoSigned bits 10 (signed negative ds ++ rest) =
      ⟨BitVec.ofInt 64 (signedValue negative ds), rest, false⟩ := by
  obtain ⟨exceeds, hexceeds, heq⟩ :=
    strtoSigned_signed negative rest hbits hds hne
  rw [heq, ofInt_signedValue, strtoLoop_of_le hexceeds hds hrest hlimit]
  cases negative <;> rfl

end Signed

end Forte
