import Forte.Datatypes.Value
import Forte.Datatypes.Numbers

/-!
# Integers, bit strings and truth values

The types whose values are numbers in the 64 bits of a `CIEC_ANY`: their accessors,
`CIEC_ANY_ELEMENTARY::fromString` and `toString`, and those of `CIEC_BOOL`.
-/

namespace Forte

/-- The integer and bit string types, and `BOOL`. -/
inductive IntegralType
  | bool | sint | int | dint | lint | usint | uint | udint | ulint | byte | word | dword | lword
  deriving DecidableEq, Repr

namespace IntegralType

/-- `getDataTypeID`. -/
def getDataTypeID : IntegralType → EDataTypeID
  | bool => .bool
  | sint => .sint
  | int => .int
  | dint => .dint
  | lint => .lint
  | usint => .usint
  | uint => .uint
  | udint => .udint
  | ulint => .ulint
  | byte => .byte
  | word => .word
  | dword => .dword
  | lword => .lword

/-- The types whose `TValueType` is signed. -/
def isSigned : IntegralType → Bool
  | sint => true
  | int => true
  | dint => true
  | lint => true
  | _ => false

/-- `bitLength`. -/
def bitLength : IntegralType → ℕ
  | bool => 1
  | sint => 8
  | usint => 8
  | byte => 8
  | int => 16
  | uint => 16
  | word => 16
  | dint => 32
  | udint => 32
  | dword => 32
  | lint => 64
  | ulint => 64
  | lword => 64

/-- `numeric_limits::min`. -/
def minVal (t : IntegralType) : ℤ := if t.isSigned then -2 ^ (t.bitLength - 1) else 0

/-- `numeric_limits::max`. -/
def maxVal (t : IntegralType) : ℤ :=
  if t.isSigned then 2 ^ (t.bitLength - 1) - 1 else 2 ^ t.bitLength - 1

/-- The value that the accessor of the type reads from the storage: `getTINT8` and its
siblings, and `operator bool`. -/
def typedValue (t : IntegralType) (data : BitVec 64) : ℤ :=
  if t = bool then if data ≠ 0 then 1 else 0
  else if t.isSigned then (data.setWidth t.bitLength).toInt
  else (data.setWidth t.bitLength).toNat

/-- The storage that the setter of the type writes: `setTINT8` and its siblings, with the
conversion to the type of their argument. -/
def setTyped (t : IntegralType) (value : ℤ) : BitVec 64 :=
  if t = bool then if value ≠ 0 then 1 else 0
  else if t.isSigned then BitVec.ofInt 64 (BitVec.ofInt t.bitLength value).toInt
  else BitVec.ofNat 64 (BitVec.ofInt t.bitLength value).toNat

end IntegralType

/-! ### Reading -/

/-- The keys of `scm_StringToTypeId`. -/
def elementaryTypeNames : List Text :=
  ["ANY", "BOOL", "SINT", "INT", "DINT", "LINT", "USINT", "UINT", "UDINT", "ULINT", "BYTE",
    "WORD", "DWORD", "LWORD", "T", "TIME", "D", "DATE", "TOD", "TIME_OF_DAY", "DT",
    "DATE_AND_TIME", "LT", "LTIME", "LD", "LDATE", "LTOD", "LTIME_OF_DAY", "LDT",
    "LDATE_AND_TIME", "CHAR", "WCHAR", "REAL", "LREAL", "STRING", "WSTRING"].map text

/-- `isTypeSpecifier`. A name that is not in the table has the type `e_ANY`, which can be cast
into nothing. -/
def isTypeSpecifier (name : Text) : Bool := elementaryTypeNames.contains name

/-- The type specifier in front of a number: the text behind it, or `none` for one that is
not known. The hash is looked for in the whole text, whatever follows the number. -/
def skipTypeSpecifier (t : Text) : Option Text :=
  if '#'.toUInt8 ∈ t ∧ ¬isDigit (t.at 0) then
    if isTypeSpecifier (t.takeWhile (· ≠ '#'.toUInt8)) then
      some ((t.dropWhile (· ≠ '#'.toUInt8)).drop 1)
    else none
  else some t

/-- The base in front of a number, and the text behind it. -/
def literalBase (t : Text) : Option (ℕ × Text) :=
  if t.at 1 = '#'.toUInt8 then
    if t.at 0 = '2'.toUInt8 then some (2, t.drop 2)
    else if t.at 0 = '8'.toUInt8 then some (8, t.drop 2)
    else none
  else if t.at 1 ≠ 0 ∧ t.at 2 = '#'.toUInt8 then
    if t.at 0 = '1'.toUInt8 then
      if t.at 1 = '6'.toUInt8 then some (16, t.drop 3)
      else if t.at 1 ≠ '0'.toUInt8 then none
      else some (10, t.drop 3)
    else none
  else some (10, t)

namespace IntegralType

/-- `nUUpperBound`; for a signed type it is the last number of the unsigned type of the same
length, computed in 64 bits. -/
def unsignedUpperBound (t : IntegralType) : ℕ :=
  if t.isSigned then (BitVec.ofInt 64 (2 * t.maxVal + 1)).toNat else t.maxVal.toNat

/-- The number of a literal, and the text behind it: a decimal literal of a signed type has a
sign, any other has none. -/
def readNumber (t : IntegralType) (base : ℕ) (digits : Text) : Option (BitVec 64 × Text) :=
  if t.isSigned ∧ base = 10 then
    let read := strtoll base digits
    if ¬read.erange ∧ read.value.toInt ≤ t.maxVal ∧ t.minVal ≤ read.value.toInt then
      some (read.value, read.rest)
    else none
  else if digits.at 0 ≠ '-'.toUInt8 then
    let read := strtoull base digits
    if ¬read.erange ∧ read.value.toNat ≤ t.unsignedUpperBound then some (read.value, read.rest)
    else none
  else none

/-- `CIEC_ANY_ELEMENTARY::fromString`: what it returns and leaves in the storage. -/
def numberFromString (t : IntegralType) (data : BitVec 64) (value : Text) : ℤ × BitVec 64 :=
  if value = [] then (-1, data)
  else
    match (skipTypeSpecifier value).bind literalBase with
    | none => (-1, data)
    | some (base, digits) =>
      match t.readNumber base digits with
      | none => (-1, data)
      | some (number, rest) =>
        let nRetVal := (value.length - rest.length : ℤ)
        (if nRetVal = 0 then -1 else nRetVal, number)

/-- `CIEC_BOOL::fromString`. -/
def boolFromString (data : BitVec 64) (value : Text) : ℤ × BitVec 64 :=
  let prefixLength := if (text "BOOL#").isPrefixOf value then 5 else 0
  let value : Text := value.drop prefixLength
  let matched (word : String) : Bool := (value.take word.length).map toupper = text word
  if value.at 0 = '1'.toUInt8 then (prefixLength + 1, 1)
  else if value.at 0 = '0'.toUInt8 then (prefixLength + 1, 0)
  else if matched "TRUE" then (prefixLength + 4, 1)
  else if matched "FALSE" then (prefixLength + 5, 0)
  else (-1, data)

/-- `fromString`. -/
def fromString (t : IntegralType) (data : BitVec 64) (value : Text) : ℤ × BitVec 64 :=
  if t = bool then boolFromString data value else t.numberFromString data value

/-! ### Printing -/

/-- The place of the first `divisor`. -/
def highestPlace (t : IntegralType) : ℕ :=
  match t.bitLength with
  | 8 => 2
  | 16 => 4
  | 32 => 9
  | _ => if t.isSigned then 18 else 19

/-- `CIEC_ANY_ELEMENTARY::toString`. The loop over the divisors writes the places of the number
from the highest down. -/
def numberToString (t : IntegralType) (data : BitVec 64) : Text :=
  if t.isSigned then
    let signedValBuf := BitVec.ofInt 64 (t.typedValue data)
    let digits (unsignedValBuf : BitVec 64) : Text :=
      (Places.write 10 t.highestPlace unsignedValBuf.toNat true).map digitChar
    if signedValBuf.toInt < 0 then '-'.toUInt8 :: digits (-signedValBuf) else digits signedValBuf
  else (Places.write 10 t.highestPlace (t.typedValue data).toNat true).map digitChar

/-- `CIEC_BOOL::toString`; `getTBOOL8` reads the first byte of the storage. -/
def boolToString (data : BitVec 64) : Text :=
  if data.setWidth 8 ≠ 0 then text "TRUE" else text "FALSE"

/-- `toString`. -/
def toString (t : IntegralType) (data : BitVec 64) : Text :=
  if t = bool then boolToString data else t.numberToString data

end IntegralType

end Forte
