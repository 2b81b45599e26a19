import Forte.Lib.BigEndian
import Forte.Datatypes.Value

/-!
# The serializer of the ASN.1 layer

`CFBDKASN1ComLayer` writes a data point as a tag byte followed by the value. This file
follows its serializing half: the table of tags and sizes, `serializeTag`, the
functions for the single kinds of values, and `serializeDataPointArray` on top of them,
together with `getRequiredSerializationSize`, which `sendData` asks for the size of the
buffer before.

## The shape of the model

A serializing function is handed a pointer and a room, the number of bytes it may still
write. The model hands it the bytes stored so far instead of the pointer, which stands
right behind them (`out`), and the room as an integer, since the source lets it fall
below zero. It returns the return value of the source and the bytes stored afterwards
(`Forte.Ser`). What has been stored lies inside the buffer exactly when it is no longer
than the buffer, and this is also so for a run that ends with `-1`: the writes before
the failure are part of `out`.

The value of a `BOOL` has no bytes; it is folded into the tag, the byte in front of the
pointer. This is the one place where a stored byte changes.

Two runs of the source have no result, and the model returns `none`: reading element 0
of an empty array, and the loop over an array of more than 65535 elements, whose 16-bit
counter wraps around.

The functions for arrays and structs call the general function back. They are written
here over lists of pairs of a value and its own serializer, and the recursion is closed
in `Forte.serializeValue`.
-/

namespace Forte

/-! ### Tags and sizes -/

/-- `e_APPLICATION`, the class of every tag of the layer. -/
def eApplication : UInt8 := 64

/-- `e_CONSTRUCTED`, the encoding type of the structured types. -/
def eConstructed : UInt8 := 32

/-- `csmDataTags`: the tag of a data type, and the size of its data with the tag, where
255 stands for an unknown size. -/
def csmDataTags : EDataTypeID → UInt8 × ℕ
  | .any => (eApplication + 0, 255)
  | .bool => (eApplication + 1, 1)
  | .sint => (eApplication + 2, 2)
  | .int => (eApplication + 3, 3)
  | .dint => (eApplication + 4, 5)
  | .lint => (eApplication + 5, 9)
  | .usint => (eApplication + 6, 2)
  | .uint => (eApplication + 7, 3)
  | .udint => (eApplication + 8, 5)
  | .ulint => (eApplication + 9, 9)
  | .byte => (eApplication + 17, 2)
  | .word => (eApplication + 18, 3)
  | .dword => (eApplication + 19, 5)
  | .lword => (eApplication + 20, 9)
  | .date => (eApplication + 13, 9)
  | .timeOfDay => (eApplication + 14, 9)
  | .dateAndTime => (eApplication + 15, 9)
  | .time => (eApplication + 12, 9)
  | .char => (eApplication + 23, 2)
  | .wchar => (eApplication + 24, 3)
  | .ldate => (eApplication + 25, 9)
  | .ltimeOfDay => (eApplication + 26, 9)
  | .ldateAndTime => (eApplication + 27, 9)
  | .ltime => (eApplication + 28, 9)
  | .real => (eApplication + 10, 5)
  | .lreal => (eApplication + 11, 9)
  | .string => (eApplication + 16, 255)
  | .wstring => (eApplication + 21, 255)
  | .derivedData => (eApplication + eConstructed + 26, 255)
  | .directlyDerivedData => (eApplication + eConstructed + 27, 255)
  | .enumeratedData => (eApplication + eConstructed + 28, 255)
  | .subrangeData => (eApplication + eConstructed + 29, 255)
  | .array => (eApplication + eConstructed + 22, 255)
  | .struct => (eApplication + eConstructed + 31, 255)

/-- The number of bytes of a value of a data type of known size, without the tag. -/
def valueSize (id : EDataTypeID) : ℕ := (csmDataTags id).2 - 1

/-- The tag `serializeNull` writes when there are no data points. -/
def nullTag : UInt8 := 5

/-! ### The result of a serializing function -/

/-- The return value of a serializing function, and what has been stored. -/
structure Ser where
  /-- The number of bytes written, or `-1`. -/
  ret : ℤ
  /-- The bytes stored so far. -/
  out : List UInt8
  deriving DecidableEq, Repr

/-- A serializing function: from the room left and the bytes stored so far. -/
abbrev Serializer := ℤ → List UInt8 → Option Ser

/-! ### The single kinds of values -/

/-- `serializeTag`. -/
def serializeTag : Value → UInt8
  | .any w => serializeTag w
  | .struct asn1StructType _ => asn1StructType
  | v => (csmDataTags v.getDataTypeID).1

/-- `serializeValueSimpleDataType`: the low-order bytes of the storage. -/
def serializeValueSimpleDataType (id : EDataTypeID) (data : BitVec 64) : Serializer :=
  fun room out =>
    if (valueSize id : ℤ) ≤ room then
      some ⟨valueSize id, out ++ beBytes (valueSize id) data.toNat⟩
    else
      some ⟨-1, out⟩

/-- `CIEC_TIME::getInMicroSeconds`: the storage counts nanoseconds, and the division
truncates towards zero. -/
def getInMicroSeconds (data : BitVec 64) : BitVec 64 := BitVec.ofInt 64 (data.toInt.tdiv 1000)

/-- `serializeValueTime`. -/
def serializeValueTime (data : BitVec 64) : Serializer := fun room out =>
  if 8 ≤ room then some ⟨8, out ++ beBytes 8 (getInMicroSeconds data).toNat⟩
  else some ⟨-1, out⟩

/-- The value of a `BOOL`: a false one is subtracted from the tag in front. -/
def serializeValueBool (data : BitVec 64) : Serializer := fun _ out =>
  if data = 0 then some ⟨0, out.set (out.length - 1) (out.getLastD 0 - 1)⟩ else some ⟨0, out⟩

/-- `CIEC_STRING::length`, a 16-bit number. -/
def stringLength (storage : List UInt8) : ℕ := storage.length % 65536

/-- `serializeValueString`. -/
def serializeValueString (storage : List UInt8) : Serializer := fun room out =>
  let unStringLen := stringLength storage
  if (unStringLen : ℤ) + 2 ≤ room then
    some ⟨unStringLen + 2, out ++ (beBytes 2 unStringLen ++ storage.take unStringLen)⟩
  else
    some ⟨-1, out⟩

/-- `serializeValueWString`: the number of 16-bit words, then the words. -/
def serializeValueWString (storage : List UInt8) : Serializer := fun room out =>
  if room < 2 then
    some ⟨-1, out⟩
  else
    match toUTF16 storage with
    | none => some ⟨-1, out⟩
    | some words =>
      if room - 2 < words.length then some ⟨-1, out⟩
      else if 131070 < words.length then some ⟨-1, out⟩
      else some ⟨words.length + 2, out ++ (beBytes 2 (words.length / 2) ++ words)⟩

/-- The data types `serializeValue` writes with `serializeValueSimpleDataType`. -/
def SimpleForSerializer (id : EDataTypeID) : Prop :=
  (EDataTypeID.bool.toNat < id.toNat ∧ id.toNat ≤ EDataTypeID.dateAndTime.toNat) ∨
    id = .real ∨ id = .lreal

instance (id : EDataTypeID) : Decidable (SimpleForSerializer id) :=
  inferInstanceAs (Decidable (_ ∨ _))

/-- The elementary cases of `serializeValue`. -/
def serializeElementary (id : EDataTypeID) (data : BitVec 64) : Serializer :=
  if SimpleForSerializer id then serializeValueSimpleDataType id data
  else
    match id with
    | .bool => serializeValueBool data
    | .time => serializeValueTime data
    | _ => fun _ out => some ⟨-1, out⟩

/-! ### Arrays, structs and data points -/

/-- `serializeDataPoint`, over the serializer of the value. -/
def serializeDataPointWith (v : Value) (serialize : Serializer) : Serializer := fun room out =>
  if 0 < room then do
    let r ← serialize (room - 1) (out ++ [serializeTag v])
    if 0 ≤ r.ret then some { r with ret := r.ret + 1 } else some r
  else
    some ⟨-1, out⟩

/-- The test of a loop over data points, `0 < nBuf`. -/
def goodPoint (ret : ℤ) : Bool := 0 < ret

/-- The test of a loop over values, which only stops at `-1`. -/
def goodValue (ret : ℤ) : Bool := ret ≠ -1

/-- The loops of the serializer: run one serializer after the other, add up what they
return, and give up with `-1` at the first one whose return value is not good. -/
def serializeEach (good : ℤ → Bool) : List Serializer → ℤ → Serializer
  | [], nRetVal, _, out => some ⟨nRetVal, out⟩
  | s :: ss, nRetVal, room, out => do
    let r ← s room out
    if good r.ret then serializeEach good ss (nRetVal + r.ret) (room - r.ret) r.out
    else some ⟨-1, r.out⟩

/-- What the loop over more than 65535 elements does: its counter wraps around, so that
it passes over the first 65536 of them until the room runs out. Every pass that stores
something takes one byte of room at least, and the fuel counts the passes. -/
def serializeWrapped (good : ℤ → Bool) (ss : List Serializer) : ℕ → ℤ → Serializer
  | 0, _, _, _ => none
  | passes + 1, nRetVal, room, out => do
    let r ← serializeEach good (ss.take 65536) nRetVal room out
    if r.ret = -1 then some r
    else serializeWrapped good ss passes r.ret (room - (r.ret - nRetVal)) r.out

/-- A loop over the elements of an array, with its 16-bit counter. -/
def serializeElements (good : ℤ → Bool) (ss : List Serializer) (nRetVal : ℤ) : Serializer :=
  fun room out =>
    if ss.length < 65536 then serializeEach good ss nRetVal room out
    else serializeWrapped good ss (room.toNat + 2) nRetVal room out

/-- `serializeArray`: two bytes for the number of elements, then either a data point for
every `BOOL`, or one tag for all elements and their values. The room is not asked for
before the number and the tag are written. -/
def serializeArray (elements : List (Value × Serializer)) : Serializer := fun room out =>
  match elements with
  | [] => none
  | (first, _) :: _ =>
    let size := beBytes 2 elements.length
    if first.IsBool then
      serializeElements goodPoint (elements.map fun e => serializeDataPointWith e.1 e.2) 2
        (room - 2) (out ++ size)
    else
      serializeElements goodValue (elements.map Prod.snd) 3
        (room - 3) (out ++ (size ++ [serializeTag first]))

/-- `serializeValueStruct`: a data point for every member of type `BOOL`, a value for
every other one. -/
def serializeValueStruct (members : List (Value × Serializer)) : Serializer :=
  serializeEach goodValue
    (members.map fun m => if m.1.IsBool then serializeDataPointWith m.1 m.2 else m.2) 0

mutual

/-- `serializeValue`. -/
def serializeValue : Value → Serializer
  | .elementary id data => serializeElementary id data
  | .string _ storage => serializeValueString storage
  | .wstring storage => serializeValueWString storage
  | .array _ elements => serializeArray (withSerializers elements)
  | .struct _ members => serializeValueStruct (withSerializers members)
  | .any inner => serializeValue inner

/-- Every value of a list with its serializer. -/
def withSerializers : List Value → List (Value × Serializer)
  | [] => []
  | v :: vs => (v, serializeValue v) :: withSerializers vs

end

/-- `serializeDataPoint`. -/
def serializeDataPoint (v : Value) : Serializer := serializeDataPointWith v (serializeValue v)

/-- `std::numeric_limits<int>::max()`. -/
def intMax : ℤ := 2147483647

/-- `serializeDataPointArray` on a buffer of `streamSize` bytes. -/
def serializeDataPointArray (streamSize : ℕ) (data : List Value) : Option Ser :=
  if data.length = 0 then
    if 0 < streamSize then some ⟨1, [nullTag]⟩ else some ⟨-1, []⟩
  else if intMax < streamSize then
    some ⟨-1, []⟩
  else
    serializeEach goodPoint (data.map serializeDataPoint) 0 streamSize []

/-! ### The size of the buffer -/

/-- The sum over the elements of an array, with its 16-bit counter. -/
def sumRequired (sizes : List (Option ℕ)) : Option ℕ :=
  if sizes.length < 65536 then sizes.foldr (fun s acc => do pure ((← s) + (← acc))) (some 0)
  else none

mutual

/-- `getRequiredSerializationSize`. A text that is no UTF-8 has `toUTF16` return `-1`,
which the addition of 3 makes a 2. -/
def getRequiredSerializationSize : Value → Option ℕ
  | .any inner => getRequiredSerializationSize inner
  | .string _ storage => some (stringLength storage + 3)
  | .wstring storage =>
    match toUTF16 storage with
    | some words => some (words.length + 3)
    | none => some 2
  | .array elementDataTypeID elements =>
    if elementDataTypeID = .bool then some (3 + elements.length)
    else do
      -- the first element comes with its tag, the others without
      let sum ← sumRequired (requiredSizes elements)
      pure (3 + sum + 1 - elements.length)
  | v => some (csmDataTags v.getDataTypeID).2

/-- The required sizes of a list of values. -/
def requiredSizes : List Value → List (Option ℕ)
  | [] => []
  | v :: vs => getRequiredSerializationSize v :: requiredSizes vs

end

/-- The size of the buffer `sendData` provides; one byte where only the Null tag is to be
written. -/
def sendBufferSize (data : List Value) : Option ℕ :=
  (requiredSizes data).foldr (fun s acc => do pure ((← s) + (← acc)))
    (some (if data.length = 0 then 1 else 0))

end Forte
