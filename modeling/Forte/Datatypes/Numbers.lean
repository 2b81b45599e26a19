import Mathlib.Data.BitVec
import Forte.Lib.Places

/-!
# Numbers in texts

The number conversions of `forte::util`. A text is a list of bytes; a pointer into a text is
what is left of it from there, and the byte behind its end is zero, as the terminator of a C
string.

The four conversions are one loop (`Forte.strtoLoop`) with different limits. The loop takes
every decimal digit in any base, so that `2#9` is a number.
-/

namespace Forte

/-- The bytes of a C string, without the terminator. -/
abbrev Text := List UInt8

/-- The bytes of a string of characters. -/
def text (s : String) : Text := s.toList.map Char.toUInt8

/-- The byte a pointer points to, `i` bytes further. -/
def Text.at (t : Text) (i : ℕ) : UInt8 := t.getD i 0

/-- `isDigit`. -/
def isDigit (c : UInt8) : Bool := '0'.toUInt8 ≤ c && c ≤ '9'.toUInt8

/-- `toupper`, in the locale `C`. -/
def toupper (c : UInt8) : UInt8 := if 'a'.toUInt8 ≤ c ∧ c ≤ 'z'.toUInt8 then c - 32 else c

/-- `tolower`, in the locale `C`. -/
def tolower (c : UInt8) : UInt8 := if 'A'.toUInt8 ≤ c ∧ c ≤ 'Z'.toUInt8 then c + 32 else c

/-- `isAtoFChar`. -/
def isAtoFChar (c : UInt8) : Bool := 'A'.toUInt8 ≤ toupper c && toupper c ≤ 'F'.toUInt8

/-- `isHexDigit`. -/
def isHexDigit (c : UInt8) : Bool := isDigit c || isAtoFChar c

/-- `charHexDigitToInt`. -/
def charHexDigitToInt (c : UInt8) : ℕ :=
  if isDigit c then (c - '0'.toUInt8).toNat else (toupper c - 'A'.toUInt8).toNat + 10

/-- What a conversion returns: the value, the text from the first byte that was not read, and
whether `errno` is `ERANGE`. -/
structure Conversion where
  value : BitVec 64
  rest : Text
  erange : Bool

/-- The loop of the conversions, in the 64 bits of a `long long`; `exceeds` says whether one
more digit is too much. -/
def strtoLoop (base : ℕ) (exceeds : BitVec 64 → ℕ → Bool) : BitVec 64 → Text → Conversion
  | value, [] => ⟨value, [], false⟩
  | value, c :: rest =>
    if isDigit c || base = 16 && isAtoFChar c then
      if exceeds value (charHexDigitToInt c) then ⟨value, c :: rest, true⟩
      else
        strtoLoop base exceeds (BitVec.ofNat 64 base * value +
          BitVec.ofNat 64 (charHexDigitToInt c)) rest
    else ⟨value, c :: rest, false⟩

/-- A `0x` in front of a hexadecimal number is passed over. -/
def skipHexPrefix (base : ℕ) (t : Text) : Text :=
  if base = 16 ∧ t.at 0 = '0'.toUInt8 ∧ t.at 1 = 'x'.toUInt8 then t.drop 2 else t

/-- `strtoull`. -/
def strtoull (base : ℕ) (t : Text) : Conversion :=
  let limit1 := (2 ^ 64 - 1) / base
  let limit2 := (2 ^ 64 - 1) % base
  strtoLoop base (fun value nCharVal =>
    value.toNat > limit1 || value.toNat = limit1 && nCharVal > limit2) 0 (skipHexPrefix base t)

/-- A signed conversion to a number of at most `bits` bits: `strtoll`, and `strtol` for 32
bits. -/
def strtoSigned (bits base : ℕ) (t : Text) : Conversion :=
  let negative := t.at 0 = '-'.toUInt8
  let last : ℤ := if negative then 2 ^ (bits - 1) else 2 ^ (bits - 1) - 1
  let read := strtoLoop base (fun value nCharVal =>
    value.toInt > last / base || value.toInt = last / base && (nCharVal : ℤ) > last % base) 0
    (skipHexPrefix base (if negative then t.drop 1 else t))
  if negative ∧ ¬read.erange then { read with value := -read.value } else read

/-- `strtoll`. -/
def strtoll : ℕ → Text → Conversion := strtoSigned 64

/-- `strtol`. -/
def strtol : ℕ → Text → Conversion := strtoSigned 32

/-- A decimal digit as a character. -/
def digitChar (d : ℕ) : UInt8 := UInt8.ofNat d + '0'.toUInt8

/-- The decimal digits of a number, as a text. -/
def decimalDigits (v : ℕ) : Text := (Places.digits 10 v).map digitChar

/-- A number in decimal notation. -/
def decimal (v : ℤ) : Text :=
  if v < 0 then '-'.toUInt8 :: decimalDigits v.natAbs else decimalDigits v.natAbs

end Forte
