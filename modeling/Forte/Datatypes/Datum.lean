import Forte.Datatypes.Elementary
import Forte.Datatypes.Unicode
import Forte.Management.Container

/-!
# Values and how they are printed

A `Forte.Datum` is a `CIEC_ANY` with all that its text depends on, and
`Forte.Datum.toString` is what `toString` appends for it. The text goes through the value: a
struct prints its members, an array its elements, and a variable of type `ANY` what it holds,
behind the name of its type.

An array of more than `cmCollapseMaxSize` elements is printed with runs of equal elements
collapsed (`Forte.toCollapsedString`). Equality there is `equals`, which compares the storage
of an elementary value and the floating-point numbers of a `REAL`.

Two things are left to the platform (`Forte.Platform`): how a floating-point number is printed
before it is normalised, and the calendar. Nothing is supposed of the calendar; of the numbers,
that they are printed with digits, letters, signs, points and parentheses.
-/

namespace Forte

/-! ### Characters -/

/-- `isalpha`, in the locale `C`. -/
def isalpha (c : UInt8) : Bool := 'A'.toUInt8 ≤ toupper c && toupper c ≤ 'Z'.toUInt8

/-- `isprint`, in the locale `C`. -/
def isprint (c : UInt8) : Bool := ' '.toUInt8 ≤ c && c ≤ '~'.toUInt8

/-- `hexChar`. -/
def hexChar (charCode : UInt8) : UInt8 :=
  if charCode % 16 < 10 then '0'.toUInt8 + charCode % 16 else 'A'.toUInt8 - 10 + charCode % 16

/-- `appendInt`, of width `n`. A negative number has characters in front of the digits. -/
def appendInt : ℕ → ℤ → Text
  | 0, _ => []
  | n + 1, value => appendInt n (value.tdiv 10) ++ [UInt8.ofNat ('0'.toNat + value.tmod 10).toNat]

/-! ### The platform -/

/-- The characters of a printed floating-point number. -/
def isFloatChar (c : UInt8) : Bool := isDigit c || isalpha c || (text "+-.()").contains c

/-- `struct tm`, as far as it is printed. -/
structure Tm where
  year : ℤ
  mon : ℤ
  mday : ℤ
  hour : ℤ
  min : ℤ
  sec : ℤ

/-- What is printed with the help of the platform. -/
structure Platform where
  /-- A `TForteFloat` from its bits, as `std::to_chars` or `snprintf` prints it. -/
  printFloat : BitVec 32 → Text
  /-- A `TForteDFloat`. -/
  printDFloat : BitVec 64 → Text
  /-- `forte_gmtime`, which may fail. -/
  gmtime : ℕ → Option Tm
  printFloat_chars : ∀ bits, ∀ c ∈ printFloat bits, isFloatChar c
  printDFloat_chars : ∀ bits, ∀ c ∈ printDFloat bits, isFloatChar c

/-- `normalizeToStringRepresentation`: of what is no number a remark in parentheses is cut off,
and a number gets a decimal point. -/
def normalizeToStringRepresentation (t : Text) : Text :=
  if isalpha (t.at 0) ∨ ((t.at 0 = '-'.toUInt8 ∨ t.at 0 = '+'.toUInt8) ∧ isalpha (t.at 1)) then
    t.takeWhile (· ≠ '('.toUInt8)
  else if '.'.toUInt8 ∈ t then t
  else t.takeWhile (· ≠ 'e'.toUInt8) ++ text ".0" ++ t.dropWhile (· ≠ 'e'.toUInt8)

/-! ### Durations and dates -/

/-- The classes below `CIEC_ANY_DURATION`. -/
inductive DurationType
  | time | ltime
  deriving DecidableEq, Repr

/-- `timeElementsToString`. -/
def timeElementsToString (timeElement : ℕ) (unit : String) : Text :=
  if timeElement ≠ 0 then decimalDigits timeElement ++ text unit else []

/-- The elements of a duration in nanoseconds. -/
def timeElements (nanoseconds : ℕ) : Text :=
  timeElementsToString (nanoseconds / 86400000000000) "d" ++
    timeElementsToString (nanoseconds / 3600000000000 % 24) "h" ++
    timeElementsToString (nanoseconds / 60000000000 % 60) "m" ++
    timeElementsToString (nanoseconds / 1000000000 % 60) "s" ++
    timeElementsToString (nanoseconds / 1000000 % 1000) "ms" ++
    timeElementsToString (nanoseconds / 1000 % 1000) "us" ++
    timeElementsToString (nanoseconds % 1000) "ns"

/-- `CIEC_TIME::toString` and `CIEC_LTIME::toString`, which differ in the prefix. -/
def durationToString (typePrefix : Text) (data : BitVec 64) : Text :=
  if data.toInt = -2 ^ 63 then typePrefix ++ text "-106751d23h47m16s854ms775us808ns"
  else if data.toInt = 0 then typePrefix ++ text "0ns"
  else typePrefix ++ (if data.toInt < 0 then text "-" else []) ++ timeElements data.toInt.natAbs

namespace DurationType

/-- `getDataTypeID`. -/
def getDataTypeID : DurationType → EDataTypeID
  | time => .time
  | ltime => .ltime

/-- `toString`. -/
def toString : DurationType → BitVec 64 → Text
  | time => durationToString (text "T#")
  | ltime => durationToString (text "LT#")

end DurationType

/-- The classes below `CIEC_ANY_DATE`. -/
inductive DateType
  | date | timeOfDay | dateAndTime | ldate | ltimeOfDay | ldateAndTime
  deriving DecidableEq, Repr

/-- The day of a date. -/
def dayToString (tm : Tm) : Text :=
  appendInt 4 (1900 + tm.year) ++ text "-" ++ appendInt 2 (tm.mon + 1) ++ text "-" ++
    appendInt 2 tm.mday

/-- A time of day. -/
def clockToString (hour min sec : ℤ) (milliseconds : ℕ) : Text :=
  appendInt 2 hour ++ text ":" ++ appendInt 2 min ++ text ":" ++ appendInt 2 sec ++ text "." ++
    appendInt 3 milliseconds

namespace DateType

/-- `getDataTypeID`. -/
def getDataTypeID : DateType → EDataTypeID
  | date => .date
  | timeOfDay => .timeOfDay
  | dateAndTime => .dateAndTime
  | ldate => .ldate
  | ltimeOfDay => .ltimeOfDay
  | ldateAndTime => .ldateAndTime

/-- `toString` of a date, by its prefix. A day that the calendar does not know is not printed. -/
def dateToString (P : Platform) (typePrefix : Text) (data : BitVec 64) : Text :=
  match P.gmtime (data.toNat / 1000000000) with
  | some tm => typePrefix ++ dayToString tm
  | none => []

/-- `toString` of a time of day, by its prefix. -/
def timeOfDayToString (typePrefix : Text) (data : BitVec 64) : Text :=
  let t := data.toNat / 1000000000
  typePrefix ++ clockToString (t / 3600 : ℕ) (t % 3600 / 60 : ℕ) (t % 60 : ℕ)
    (data.toNat / 1000000 % 1000)

/-- `toString` of a date and time, by its prefix. -/
def dateAndTimeToString (P : Platform) (typePrefix : Text) (data : BitVec 64) : Text :=
  match P.gmtime (data.toNat / 1000000000) with
  | some tm =>
    typePrefix ++ dayToString tm ++ text "-" ++
      clockToString tm.hour tm.min tm.sec (data.toNat / 1000000 % 1000)
  | none => []

/-- `toString`. -/
def toString (P : Platform) : DateType → BitVec 64 → Text
  | date => dateToString P (text "D#")
  | timeOfDay => timeOfDayToString (text "TOD#")
  | dateAndTime => dateAndTimeToString P (text "DT#")
  | ldate => dateToString P (text "LD#")
  | ltimeOfDay => timeOfDayToString (text "LTOD#")
  | ldateAndTime => dateAndTimeToString P (text "LDT#")

end DateType

/-! ### Characters and strings -/

/-- `CIEC_ANY_CHARS::dollarEscapeChar`. Only in a `STRING` a character that cannot be printed is
written as a number. -/
def dollarEscapeChar (typeID : EDataTypeID) (symbol : UInt8) : Text :=
  if symbol = '$'.toUInt8 then text "$$"
  else if symbol = '\''.toUInt8 then if typeID = .string then text "$'" else text "'"
  else if symbol = 10 then text "$l"
  else if symbol = 12 then text "$p"
  else if symbol = 13 then text "$r"
  else if symbol = 9 then text "$t"
  else if symbol = '"'.toUInt8 then if typeID = .wstring then text "$\"" else text "\""
  else if ¬isprint symbol ∧ typeID = .string then
    ['$'.toUInt8, hexChar (symbol >>> 4), hexChar symbol]
  else [symbol]

/-- `CIEC_CHAR::toString`. -/
def charToString (data : BitVec 64) : Text :=
  text "CHAR#'" ++ dollarEscapeChar .string (UInt8.ofNat data.toNat) ++ text "'"

/-- The symbol of a `WCHAR` in its text. -/
def wcharEscape (symbol : BitVec 16) : Text :=
  if symbol = 0 then text "$0000"
  else if symbol = 36 then text "$$"
  else if symbol = 34 then text "$\""
  else if symbol = 10 then text "$l"
  else if symbol = 12 then text "$p"
  else if symbol = 13 then text "$r"
  else if symbol = 9 then text "$t"
  else if symbol < 256 ∧ isprint (UInt8.ofNat symbol.toNat) then [UInt8.ofNat symbol.toNat]
  else
    '$'.toUInt8 :: [12, 8, 4, 0].map fun shift : ℕ => hexChar (UInt8.ofNat (symbol.toNat >>> shift))

/-- `CIEC_WCHAR::toString`. -/
def wcharToString (data : BitVec 64) : Text :=
  text "WCHAR#\"" ++ wcharEscape (data.setWidth 16) ++ text "\""

/-- `CIEC_STRING::toString`. -/
def stringToString (storage : Text) : Text :=
  text "'" ++ storage.flatMap (dollarEscapeChar .string) ++ text "'"

/-- `CIEC_WSTRING::toString`. -/
def wstringToString (storage : Text) : Text :=
  text "\"" ++ storage.flatMap (dollarEscapeChar .wstring) ++ text "\""

/-- `CIEC_STRING::toUTF8`, unescaped: every byte is a code point. -/
def stringToUTF8 (storage : Text) : Text :=
  storage.flatMap fun c => (encodeUTF8Codepoint c.toNat).getD []

/-! ### Values -/

/-- The classes below `CIEC_ANY_REAL`. -/
inductive RealType
  | real | lreal
  deriving DecidableEq, Repr

namespace RealType

/-- `getDataTypeID`. -/
def getDataTypeID : RealType → EDataTypeID
  | real => .real
  | lreal => .lreal

/-- `CIEC_REAL::toString` and `CIEC_LREAL::toString`. -/
def toString (P : Platform) : RealType → BitVec 64 → Text
  | real, data => normalizeToStringRepresentation (P.printFloat (data.setWidth 32))
  | lreal, data => normalizeToStringRepresentation (P.printDFloat data)

/-- The number of bits, and how many of them belong to the fraction. -/
def layout : RealType → ℕ × ℕ
  | real => (32, 23)
  | lreal => (64, 52)

/-- `==` of floating-point numbers: what is no number equals nothing, and the two zeros are
equal. -/
def equals (t : RealType) (data other : BitVec 64) : Bool :=
  let bits (d : BitVec 64) : ℕ := d.toNat % 2 ^ t.layout.1
  let magnitude (d : BitVec 64) : ℕ := bits d % 2 ^ (t.layout.1 - 1)
  let infinity := 2 ^ (t.layout.1 - 1) - 2 ^ t.layout.2
  magnitude data ≤ infinity && magnitude other ≤ infinity &&
    (bits data = bits other || magnitude data = 0 && magnitude other = 0)

end RealType

/-- A value, with its contents. -/
inductive Datum
  /-- An integer, a bit string or a truth value. -/
  | number (t : IntegralType) (data : BitVec 64)
  | duration (t : DurationType) (data : BitVec 64)
  | date (t : DateType) (data : BitVec 64)
  | real (t : RealType) (data : BitVec 64)
  | char (data : BitVec 64)
  | wchar (data : BitVec 64)
  /-- A `CIEC_STRING`; the bound is the `maxLength` of a `CIEC_STRING_FIXED`. -/
  | string (bound : Option ℕ) (storage : Text)
  /-- A `CIEC_WSTRING`, stored as UTF-8. -/
  | wstring (storage : Text)
  /-- A `CIEC_ARRAY`. -/
  | array (lowerBound : ℤ) (elements : List Datum)
  /-- A `CIEC_STRUCT` with its `getStructTypeNameID` and `elementNames`. -/
  | struct (structTypeName : StringId) (elementNames : List StringId) (members : List Datum)
  /-- A variable of type `ANY` and what it holds. -/
  | any (inner : Datum)

namespace Datum

/-- Induction over a value; an array and a struct have the statement for each of their elements
and members. -/
@[elab_as_elim, induction_eliminator]
theorem inductionOn {P : Datum → Prop}
    (number : ∀ t data, P (.number t data))
    (duration : ∀ t data, P (.duration t data))
    (date : ∀ t data, P (.date t data))
    (real : ∀ t data, P (.real t data))
    (char : ∀ data, P (.char data))
    (wchar : ∀ data, P (.wchar data))
    (string : ∀ bound storage, P (.string bound storage))
    (wstring : ∀ storage, P (.wstring storage))
    (array : ∀ lowerBound es, (∀ e ∈ es, P e) → P (.array lowerBound es))
    (struct : ∀ name names ms, (∀ m ∈ ms, P m) → P (.struct name names ms))
    (any : ∀ w, P w → P (.any w)) : ∀ v, P v :=
  @Datum.rec P (fun es => ∀ e ∈ es, P e) number duration date real char wchar string wstring
    array struct any (fun _ h => absurd h List.not_mem_nil)
    (fun _ _ hv hvs _ hmem => (List.mem_cons.mp hmem).elim (fun h => h ▸ hv) (hvs _))

/-- `CIEC_ANY::getDataTypeID`. -/
def getDataTypeID : Datum → EDataTypeID
  | .number t _ => t.getDataTypeID
  | .duration t _ => t.getDataTypeID
  | .date t _ => t.getDataTypeID
  | .real t _ => t.getDataTypeID
  | .char _ => .char
  | .wchar _ => .wchar
  | .string _ _ => .string
  | .wstring _ => .wstring
  | .array _ _ => .array
  | .struct _ _ _ => .struct
  | .any _ => .any

/-- `unwrap`. -/
def unwrap : Datum → Datum
  | .any w => w.unwrap
  | v => v

mutual

/-- `equals`. -/
def equals : Datum → Datum → Bool
  | .number t data, v =>
    match v with
    | .number t' data' => t = t' && data = data'
    | _ => false
  | .duration t data, v =>
    match v with
    | .duration t' data' => t = t' && data = data'
    | _ => false
  | .date t data, v =>
    match v with
    | .date t' data' => t = t' && data = data'
    | _ => false
  | .real t data, v =>
    match v with
    | .real t' data' => t = t' && t.equals data data'
    | _ => false
  | .char data, v =>
    match v with
    | .char data' => data = data'
    | _ => false
  | .wchar data, v =>
    match v with
    | .wchar data' => data = data'
    | _ => false
  | .string _ storage, v =>
    match v with
    | .string _ storage' => storage = storage'
    | _ => false
  -- `strcmp`, which ends at the first zero
  | .wstring storage, v =>
    match v with
    | .wstring storage' => storage.takeWhile (· ≠ 0) = storage'.takeWhile (· ≠ 0)
    | _ => false
  | .array lowerBound es, v =>
    match v with
    | .array lowerBound' es' =>
      lowerBound = lowerBound' && es.length = es'.length && allEqual es es'
    | _ => false
  | .struct name _ ms, v =>
    match v with
    | .struct name' _ ms' => name = name' && allEqual ms ms'
    | _ => false
  | .any w, v => w.equals v.unwrap

/-- `equals` of the elements of two arrays or the members of two structs. -/
def allEqual : List Datum → List Datum → Bool
  | [], _ => true
  | v :: vs, ws =>
    match ws with
    | [] => true
    | w :: ws => v.equals w && allEqual vs ws

end

/-! ### Printing -/

/-- The name of a type, `getTypeNameID`. -/
def getTypeNameID : Datum → StringId
  | .number t _ =>
    match t with
    | .bool => "BOOL"
    | .sint => "SINT"
    | .int => "INT"
    | .dint => "DINT"
    | .lint => "LINT"
    | .usint => "USINT"
    | .uint => "UINT"
    | .udint => "UDINT"
    | .ulint => "ULINT"
    | .byte => "BYTE"
    | .word => "WORD"
    | .dword => "DWORD"
    | .lword => "LWORD"
  | .duration t _ =>
    match t with
    | .time => "TIME"
    | .ltime => "LTIME"
  | .date t _ =>
    match t with
    | .date => "DATE"
    | .timeOfDay => "TIME_OF_DAY"
    | .dateAndTime => "DATE_AND_TIME"
    | .ldate => "LDATE"
    | .ltimeOfDay => "LTIME_OF_DAY"
    | .ldateAndTime => "LDATE_AND_TIME"
  | .real t _ =>
    match t with
    | .real => "REAL"
    | .lreal => "LREAL"
  | .char _ => "CHAR"
  | .wchar _ => "WCHAR"
  | .string _ _ => "STRING"
  | .wstring _ => "WSTRING"
  | .array _ _ => "ARRAY"
  | .struct name _ _ => name
  | .any _ => "ANY"

/-- The types whose text has the type in front already. -/
def printsPrefix (v : Datum) : Bool :=
  match v with
  | .duration _ _ => true
  | .date _ _ => true
  | .char _ => true
  | .wchar _ => true
  | _ => false

/-- `toCollapsedElementString`. -/
def toCollapsedElementString (element : Text) (count : ℕ) : Text :=
  if count > 1 then
    IntegralType.ulint.toString (BitVec.ofNat 64 count) ++ text "(" ++ element ++ text ")"
  else element

/-- The loop of `toCollapsedString` behind `lastElement`, which was met `count` times in a row.
In front of the last element of the array there is no comma. -/
def collapse (lastElement : Datum × Text) (count : ℕ) : List (Datum × Text) → Text
  | [] => toCollapsedElementString lastElement.2 count
  | element :: rest =>
    if ¬lastElement.1.equals element.1 then
      toCollapsedElementString lastElement.2 count ++ (if rest ≠ [] then text "," else []) ++
        collapse element 1 rest
    else collapse element (count + 1) rest

/-- `toCollapsedString`, from the elements and their texts. -/
def toCollapsedString : List (Datum × Text) → Text
  | [] => text "[]"
  | element :: rest => text "[" ++ collapse element 1 rest ++ text "]"

/-- `cmCollapseMaxSize`. -/
def cmCollapseMaxSize : ℕ := 100

/-- `CIEC_ARRAY::toString`, from the elements and their texts. -/
def arrayToString (elements : List (Datum × Text)) : Text :=
  if elements.length > cmCollapseMaxSize then toCollapsedString elements
  else text "[" ++ (text ",").intercalate (elements.map Prod.snd) ++ text "]"

/-- `CIEC_STRUCT::toString`, from the names of the members and their texts. -/
def structToString (members : List (StringId × Text)) : Text :=
  text "(" ++ (text ",").intercalate (members.map fun m => text m.1 ++ text ":=" ++ m.2) ++ text ")"

/-- `toString` of a variable of type `ANY`, from the text of what it holds. -/
def anyToString (inner : Datum) (value : Text) : Text :=
  if inner.printsPrefix then value else text inner.getTypeNameID ++ text "#" ++ value

section ToString

variable (P : Platform)

mutual

/-- `toString`. -/
def toString : Datum → Text
  | .number t data => t.toString data
  | .duration t data => t.toString data
  | .date t data => t.toString P data
  | .real t data => t.toString P data
  | .char data => charToString data
  | .wchar data => wcharToString data
  | .string _ storage => stringToString storage
  | .wstring storage => wstringToString storage
  | .array _ elements => arrayToString (elements.zip (toStrings elements))
  | .struct _ elementNames members => structToString (elementNames.zip (toStrings members))
  | .any inner => anyToString inner inner.toString

/-- The texts of the elements of an array, or of the members of a struct. -/
def toStrings : List Datum → List Text
  | [] => []
  | v :: vs => v.toString :: toStrings vs

end

end ToString

end Datum

end Forte
