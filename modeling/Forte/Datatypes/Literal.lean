import Forte.Datatypes.Datum
import Forte.Lib.Listing

/-!
# Literals

`fromString` of the values that are written as numbers, durations, strings, arrays and structs.
The object that reads a literal has a type (`Forte.LiteralType`) and a value, which is what is
left of it where a literal does not say otherwise.

The `int` that `fromString` returns is made from the distance of two pointers, so that it is
not the length of a literal that is longer than an `int` can say (`Forte.asInt`). An array and
a struct go on behind a member by this number.
-/

namespace Forte

/-- `static_cast<int>`. -/
def asInt (n : ℤ) : ℤ := n.bmod (2 ^ 32)

/-! ### Durations -/

/-- What `fromString` of a duration finds behind a number. -/
inductive DurationUnit
  /-- A unit, with its nanoseconds and the length of its name. -/
  | unit (nTimeFactor : ℕ) (length : ℕ)
  /-- The `default` of the `switch`. -/
  | noUnit
  /-- The first character of a unit, but not the second one. -/
  | broken
  deriving DecidableEq, Repr

/-- The `switch` on the character behind a number; an underscore leaves the factor as it is. -/
def durationUnit (nTimeFactor : ℕ) (pcEnd : Text) : DurationUnit :=
  let c := tolower (pcEnd.at 0)
  if c = 'd'.toUInt8 then .unit 86400000000000 1
  else if c = 'h'.toUInt8 then .unit 3600000000000 1
  else if c = 'm'.toUInt8 then
    if tolower (pcEnd.at 1) = 's'.toUInt8 then .unit 1000000 2 else .unit 60000000000 1
  else if c = 'n'.toUInt8 then
    if tolower (pcEnd.at 1) = 's'.toUInt8 then .unit 1 2 else .broken
  else if c = 's'.toUInt8 then .unit 1000000000 1
  else if c = 'u'.toUInt8 then
    if tolower (pcEnd.at 1) = 's'.toUInt8 then .unit 1000 2 else .broken
  else if c = '_'.toUInt8 then .unit nTimeFactor 1
  else .noUnit

/-- The number `strtol` returns: at an overflow the last one of 32 bits. -/
def strtolValue (t : Text) : BitVec 64 :=
  let read := strtol 10 t
  if read.erange then if t.at 0 = '-'.toUInt8 then -2147483648 else 2147483647 else read.value

/-- The loop over the numbers of a duration: the sum, and the text behind it. Every round but
the last takes the name of a unit. -/
def readDuration (stops : UInt8 → Bool) (nTimeSignFactor : BitVec 64) :
    ℕ → BitVec 64 → ℕ → Text → Option (BitVec 64 × Text)
  | 0, _, _, _ => none
  | rounds + 1, nIntVal, nTimeFactor, t =>
    let pcEnd := (strtol 10 t).rest
    match durationUnit nTimeFactor pcEnd with
    | .broken => none
    | .noUnit => if pcEnd ≠ t ∨ nIntVal = 0 then none else some (nIntVal, pcEnd)
    | .unit nTimeFactor length =>
      let nIntVal :=
        nIntVal + strtolValue t * BitVec.ofNat 64 nTimeFactor * nTimeSignFactor
      let rest : Text := pcEnd.drop length
      if stops (rest.at 0) then some (nIntVal, rest)
      else readDuration stops nTimeSignFactor rounds nIntVal nTimeFactor rest

namespace DurationType

/-- The characters in front of the hash that `TIME` may be short for. -/
def typePrefix : DurationType → String
  | time => "t"
  | ltime => "lt"

/-- Where the loop over the numbers stops. Only a `TIME` stops at the punctuation of arrays and
structs, and there not at the end of an array. -/
def stops : DurationType → UInt8 → Bool
  | time, c => c = 0 || c = ','.toUInt8 || c = ')'.toUInt8
  | ltime, c => c = 0

/-- What `fromString` reads behind the hash: a sign, and the numbers. -/
def readSigned (t : DurationType) (value : Text) : Option (BitVec 64 × Text) :=
  let negative := value.at 0 = '-'.toUInt8
  let rest : Text := if value.at 0 = '+'.toUInt8 ∨ negative then value.drop 1 else value
  readDuration t.stops (if negative then -1 else 1) (rest.length + 1) 0 1 rest

/-- `CIEC_TIME::fromString` and `CIEC_LTIME::fromString`. -/
def fromString (t : DurationType) (data : BitVec 64) (value : Text) : ℤ × BitVec 64 :=
  if (value.take t.typePrefix.length).map tolower = text t.typePrefix then
    let rest : Text := value.drop t.typePrefix.length
    let rest : Text := if (rest.take 3).map tolower = text "ime" then rest.drop 3 else rest
    if rest.at 0 = '#'.toUInt8 then
      match t.readSigned (rest.drop 1) with
      | none => (-1, data)
      | some (nIntVal, rest) => (asInt (value.length - rest.length), nIntVal)
    else (-1, data)
  else (asInt (value.length - (strtol 10 value).rest.length), strtolValue value)

end DurationType

/-! ### Strings -/

/-- The character of an escape sequence of a `STRING`; what is unknown is a zero. -/
def specialSymbol (c : UInt8) : UInt8 :=
  if c = '\''.toUInt8 then '\''.toUInt8
  else if c = 'N'.toUInt8 ∨ c = 'n'.toUInt8 ∨ c = 'L'.toUInt8 ∨ c = 'l'.toUInt8 then 10
  else if c = 'P'.toUInt8 ∨ c = 'p'.toUInt8 then 12
  else if c = 'R'.toUInt8 ∨ c = 'r'.toUInt8 then 13
  else if c = 'T'.toUInt8 ∨ c = 't'.toUInt8 then 9
  else if c = '$'.toUInt8 then '$'.toUInt8
  else 0

/-- What was quoted, and the text behind the closing quote. -/
def unescapeString : Text → Option (Text × Text)
  | [] => none
  | c :: rest =>
    if c = '$'.toUInt8 then
      match rest with
      | c1 :: c2 :: rest =>
        if isHexDigit c1 && isHexDigit c2 then
          (unescapeString rest).map fun read =>
            (UInt8.ofNat (16 * charHexDigitToInt c1 + charHexDigitToInt c2) :: read.1, read.2)
        else (unescapeString (c2 :: rest)).map fun read => (specialSymbol c1 :: read.1, read.2)
      | _ => none
    else if c = '\''.toUInt8 then some ([], rest)
    else (unescapeString rest).map fun read => (c :: read.1, read.2)

/-- `CIEC_STRING::fromString`. Whatever is in front of the opening quote is passed over. -/
def stringFromString (value : Text) : ℤ × Text :=
  let stringStart := if (text "STRING#").isPrefixOf value && 7 < value.length then 7 else 0
  let quoted := (value.drop stringStart).dropWhile (· ≠ '\''.toUInt8)
  match unescapeString (quoted.drop 1) with
  | some (mValue, rest) => (asInt (value.length - rest.length), mValue)
  | none => (-1, [])

/-! ### Arrays -/

/-- The elements of an array. -/
def arrayListing : Listing UInt8 := ⟨' '.toUInt8, ','.toUInt8, ']'.toUInt8, by decide, by decide⟩

/-- The members of a struct, and the elements of the repeat syntax. -/
def structListing : Listing UInt8 := ⟨' '.toUInt8, ','.toUInt8, ')'.toUInt8, by decide, by decide⟩

/-- An array that is being read: the elements in front of the iterator, those from it on, and
the element that takes what is too much. -/
structure Filling where
  written : List Datum
  rest : List Datum
  bufVal : Datum

namespace Filling

/-- `initializeSimpleFromString`. -/
def initializeSimpleFromString (fromString : Datum → Text → ℤ × Datum) (value : Text)
    (s : Filling) : ℤ × Filling :=
  match s.rest with
  | element :: rest =>
    let read := fromString element value
    (read.1, { s with written := s.written ++ [read.2], rest := rest })
  | [] =>
    let read := fromString s.bufVal value
    (read.1, { s with bufVal := read.2 })

/-- The elements from `initialPosition` on are written `count` times more, as long as there is
room. A value of the same type is copied by `setValue`. -/
def copies (s : Filling) (initialPosition count : ℕ) : Filling :=
  let sequence := s.written.drop initialPosition
  let copied := ((List.replicate (min count s.rest.length) sequence).flatten).take s.rest.length
  { s with written := s.written ++ copied, rest := s.rest.drop copied.length }

/-- `initializeFromString`. -/
def initializeFromString (fromString : Datum → Text → ℤ × Datum) (value : Text) (s : Filling) :
    ℤ × Filling :=
  let read := IntegralType.ulint.fromString 0 value
  let repeatLength := asInt read.1
  let start : Text := structListing.skipBlanks (value.drop repeatLength.toNat)
  if 0 < repeatLength ∧ start.at 0 = '('.toUInt8 then
    let elements := structListing.items (initializeSimpleFromString fromString) start.length
      (start.drop 1) s
    if Text.at elements.1 0 = ')'.toUInt8 then
      (asInt (value.length - elements.1.length + 1),
        elements.2.copies s.written.length (read.2.toNat - 1))
    else (-1, elements.2)
  else initializeSimpleFromString fromString value s

end Filling

/-- `CIEC_ARRAY_FIXED::fromString`, from `fromString` of the elements and the value their
constructor makes; `CIEC_ARRAY_DYNAMIC::fromString` does the same. -/
def arrayFromString (fromString : Datum → Text → ℤ × Datum) (initial : Datum)
    (elements : List Datum) (value : Text) : ℤ × List Datum :=
  if value.at 0 = '['.toUInt8 then
    let read := arrayListing.items (Filling.initializeFromString fromString) value.length
      (value.drop 1) ⟨[], elements, initial⟩
    if Text.at read.1 0 = ']'.toUInt8 then
      (asInt (value.length - read.1.length + 1),
        read.2.written ++ List.replicate read.2.rest.length initial)
    else (-1, read.2.written ++ read.2.rest)
  else (-1, elements)

/-! ### Structs -/

/-- `parseNextElementId`: the name in front of a blank, a colon or a closing parenthesis, which
must be there, and the text behind it. -/
def parseNextElementId (value : Text) : Option (Text × Text) :=
  let isDelimiter (c : UInt8) : Bool := (text " :)").contains c
  let name := value.takeWhile (!isDelimiter ·)
  let rest := value.dropWhile (!isDelimiter ·)
  if rest = [] ∨ name = [] then none else some (name, rest)

/-- `CIEC_STRUCT::initializeFromString`, from `fromString` of the members. -/
def memberFromString (elementNames : List StringId) (fromString : List (Datum → Text → ℤ × Datum))
    (value : Text) (members : List Datum) : ℤ × List Datum :=
  match parseNextElementId value with
  | none => (-1, members)
  | some (name, rest) =>
    let rest : Text := structListing.skipBlanks rest
    if rest.at 0 = ':'.toUInt8 ∧ rest.at 1 = '='.toUInt8 then
      let start := structListing.skipBlanks (rest.drop 2)
      match elementNames.findIdx? (text · = name) with
      | none => (-1, members)
      | some i =>
        match fromString[i]?, members[i]? with
        | some fromString, some member =>
          let read := fromString member start
          if 0 ≤ read.1 then
            (asInt (value.length - start.length + read.1), members.set i read.2)
          else (-1, members.set i read.2)
        | _, _ => (-1, members)
    else (-1, members)

/-- `CIEC_STRUCT::fromString`. -/
def structFromString (elementNames : List StringId) (fromString : List (Datum → Text → ℤ × Datum))
    (members : List Datum) (value : Text) : ℤ × List Datum :=
  if value.at 0 = '('.toUInt8 then
    let read := structListing.items (memberFromString elementNames fromString) value.length
      (value.drop 1) members
    if Text.at read.1 0 = ')'.toUInt8 then (asInt (value.length - read.1.length + 1), read.2)
    else (-1, read.2)
  else (-1, members)

/-! ### Types -/

/-- The types of the values whose literals are read here. -/
inductive LiteralType
  | number (t : IntegralType)
  | duration (t : DurationType)
  | string (bound : Option ℕ)
  | array (lowerBound : ℤ) (size : ℕ) (element : LiteralType)
  /-- A struct with the values that the constructor gives to its members. -/
  | struct (structTypeName : StringId) (elementNames : List StringId)
      (members : List LiteralType) (initial : List Datum)

namespace LiteralType

/-- The value that the constructor makes. -/
def initial : LiteralType → Datum
  | .number t => .number t 0
  | .duration t => .duration t 0
  | .string bound => .string bound []
  | .array lowerBound size element => .array lowerBound (List.replicate size element.initial)
  | .struct name elementNames _ initial => .struct name elementNames initial

mutual

/-- `fromString` of an object of the type: what it returns, and its value afterwards. -/
def fromString : LiteralType → Datum → Text → ℤ × Datum
  | .number t, v, value =>
    match v with
    | .number _ data =>
      let read := t.fromString data value
      (if asInt read.1 = 0 then -1 else asInt read.1, .number t read.2)
    | _ => (-1, v)
  | .duration t, v, value =>
    match v with
    | .duration _ data =>
      let read := t.fromString data value
      (read.1, .duration t read.2)
    | _ => (-1, v)
  | .string bound, _, value =>
    let read := stringFromString value
    (read.1, .string bound read.2)
  | .array lowerBound _ element, v, value =>
    match v with
    | .array _ elements =>
      let read := arrayFromString element.fromString element.initial elements value
      (read.1, .array lowerBound read.2)
    | _ => (-1, v)
  | .struct name elementNames types _, v, value =>
    match v with
    | .struct _ _ members =>
      let read := structFromString elementNames (fromStrings types) members value
      (read.1, .struct name elementNames read.2)
    | _ => (-1, v)

/-- `fromString` of the members of a struct. -/
def fromStrings : List LiteralType → List (Datum → Text → ℤ × Datum)
  | [] => []
  | t :: types => t.fromString :: fromStrings types

end

end LiteralType

end Forte
