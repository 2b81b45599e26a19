import Forte.Lib.BigEndian
import Forte.Lib.Reader
import Forte.Asn1.Serialize

/-!
# The deserializer of the ASN.1 layer

The receiving half of `CFBDKASN1ComLayer`. A deserializing function is handed the bytes
that have arrived and the data point to store into; it returns the number of bytes it
has used, or a number that is not positive, and it may have changed the data point in
either case. The model returns both, as a `Forte.Reader`.

Four details of the source matter below.

* **One byte too many is read.** `deserializeArray` looks at the tag of the elements
  without asking for the room, so where only the number of elements has arrived it reads
  the byte behind the buffer. That byte is the parameter `behind` of the model.
* **A `BOOL` is stored by `deserializeTag`**, before the value is decoded. The value of a
  `BOOL` has no bytes and its decoding leaves the data point as it is, so the model
  stores the tag afterwards (`Forte.storeTag`), which is the same.
* **Surplus elements** of an array are decoded into a clone of its element 0. What the clone
  holds is never looked at; the model decodes into element 0 as it was and drops the result.
* **Element 0 of an empty array** is read where elements have been announced. This has no
  result, and the model returns `none`.
-/

namespace Forte

/-- A deserializing function for one data point. -/
abbrev Decoder := Reader UInt8 Value

/-! ### Elementary values and strings -/

/-- `CFBDKASN1ComLayer::scmSimpleEncodableDataTypes`. -/
def SimpleForDeserializer (id : EDataTypeID) : Prop :=
  id ∈ [EDataTypeID.sint, .int, .dint, .lint, .usint, .uint, .udint, .ulint, .byte, .word,
    .dword, .lword, .date, .timeOfDay, .dateAndTime, .char, .wchar, .ldate, .ltimeOfDay,
    .ldateAndTime, .real, .lreal]

instance (id : EDataTypeID) : Decidable (SimpleForDeserializer id) :=
  inferInstanceAs (Decidable (_ ∈ _))

/-- The storage `deserializeValueSimpleDataType` leaves: the bytes of the value, below
zeros or, for a negative `SINT`, `INT` or `DINT`, below ones. -/
def storedData (id : EDataTypeID) (bs : List UInt8) : BitVec 64 :=
  if id.toNat ≤ EDataTypeID.dint.toNat ∧ 128 ≤ byteAt bs 0 then
    BitVec.ofNat 64 (2 ^ 64 - 256 ^ bs.length + ofBeBytes bs)
  else
    BitVec.ofNat 64 (ofBeBytes bs)

/-- `CIEC_TIME::setFromMicroSeconds`. -/
def setFromMicroSeconds (value : BitVec 64) : BitVec 64 := value * 1000

/-- The storage `deserializeValueTime` leaves. -/
def storedTime (bs : List UInt8) : BitVec 64 :=
  setFromMicroSeconds (BitVec.ofNat 64 (ofBeBytes bs))

/-- Whether a data type is decoded, and then the storage its bytes leave. -/
def storedElementary (id : EDataTypeID) (data : BitVec 64) :
    Option (List UInt8 → BitVec 64) :=
  if SimpleForDeserializer id then some (storedData id)
  else
    match id with
    | .bool => some fun _ => data
    | .time => some storedTime
    | .ltime => some storedTime
    | _ => none

/-- The elementary cases of `deserializeValue`. -/
def deserializeElementary (id : EDataTypeID) (data : BitVec 64) : Decoder := fun bs =>
  match storedElementary id data with
  | none => some (-1, .elementary id data)
  | some stored =>
    if valueSize id ≤ bs.length then
      some (valueSize id, .elementary id (stored (bs.take (valueSize id))))
    else
      some (-1, .elementary id data)

/-- `CIEC_STRING::assign`; a `CIEC_STRING_FIXED` cuts the text off at its bound. -/
def assign (bound : Option ℕ) (text : List UInt8) : List UInt8 :=
  match bound with
  | none => text
  | some maxLength => text.take maxLength

/-- The 16-bit number in front of a string or an array. -/
def lengthField (bs : List UInt8) : ℕ := ofBeBytes (bs.take 2)

theorem lengthField_append {n : ℕ} (h : n < 65536) (rest : List UInt8) :
    lengthField (beBytes 2 n ++ rest) = n := by
  rw [lengthField, List.take_left' (length_beBytes 2 n)]
  exact ofBeBytes_beBytes_of_lt (by simpa using h)

theorem not_length_lt (n : ℕ) (rest : List UInt8) : ¬(beBytes 2 n ++ rest).length < 2 := by
  rw [List.length_append, length_beBytes]
  omega

theorem drop_two_append (n : ℕ) (rest : List UInt8) : (beBytes 2 n ++ rest).drop 2 = rest :=
  List.drop_left' (length_beBytes 2 n)

theorem lengthField_lt (bs : List UInt8) : lengthField bs < 65536 := by
  have hlt := ofBeBytes_lt (bs.take 2)
  have hle : 256 ^ (bs.take 2).length ≤ 256 ^ 2 :=
    Nat.pow_le_pow_right (by omega) (List.length_take_le 2 bs)
  rw [lengthField]
  omega

/-- What starts with a length field is that field and the rest. -/
theorem eq_lengthField_append {bs : List UInt8} (h : 2 ≤ bs.length) :
    bs = beBytes 2 (lengthField bs) ++ bs.drop 2 := by
  have hlen : (bs.take 2).length = 2 := List.length_take_of_le h
  have htake : beBytes 2 (lengthField bs) = bs.take 2 := by
    conv => arg 1; arg 1; rw [← hlen]
    exact beBytes_ofBeBytes (bs.take 2)
  rw [htake, List.take_append_drop]

/-- `deserializeValueString`. -/
def deserializeValueString (bound : Option ℕ) (storage : List UInt8) : Decoder := fun bs =>
  if 2 ≤ bs.length ∧ lengthField bs + 2 ≤ bs.length then
    some (2 + lengthField bs, .string bound (assign bound ((bs.drop 2).take (lengthField bs))))
  else
    some (-1, .string bound storage)

/-- `deserializeValueWString`. -/
def deserializeValueWString (storage : List UInt8) : Decoder := fun bs =>
  if 2 ≤ bs.length ∧ lengthField bs * 2 + 2 ≤ bs.length then
    match fromUTF16 ((bs.drop 2).take (lengthField bs * 2)) with
    | some text => some (lengthField bs * 2 + 2, .wstring text)
    | none => some (-1, .wstring storage)
  else
    some (-1, .wstring storage)

/-! ### Tags and data points -/

/-- The return value of `deserializeTag`. -/
def tagMatches (b : UInt8) : Value → Bool
  | .any w => tagMatches b w
  | .elementary .bool _ => b = eApplication || b = eApplication + 1
  | .struct asn1StructType _ => asn1StructType = b
  | v => (csmDataTags v.getDataTypeID).1 = b

/-- What `deserializeTag` stores when the tag matches: the value of a `BOOL`. -/
def storeTag (b : UInt8) : Value → Value
  | .any w => .any (storeTag b w)
  | .elementary .bool _ => .elementary .bool (if b = eApplication + 1 then 1 else 0)
  | v => v

/-- `deserializeDataPoint`, over the decoder of the value. -/
def deserializeDataPointWith (v : Value) (decode : Decoder) : Decoder
  | [] => some (-1, v)
  | b :: bs =>
    if b &&& eApplication = eApplication then
      if tagMatches b v then (decode bs).map fun r => (r.1 + 1, storeTag b r.2)
      else some (-2, v)
    else
      some (-1, v)

/-! ### Arrays and structs -/

/-- The data points a loop over `n` announced elements runs over: the elements of the
array, and one more and the same for every surplus element. -/
def visited {α : Type} (n : ℕ) (elements : List α) (surplus : α) : List α :=
  elements.take n ++ List.replicate (n - elements.length) surplus

/-- The elements of an array after a loop: those it ran over, and behind them those that
were not announced. -/
def overwritten {α : Type} (n : ℕ) (elements after : List α) : List α :=
  after.take elements.length ++ elements.drop n

theorem visited_map {α γ : Type} (f : α → γ) (n : ℕ) (as : List α) (a : α) :
    visited n (as.map f) (f a) = (visited n as a).map f := by
  simp [visited, List.map_take]

theorem mem_of_mem_visited {α : Type} {n : ℕ} {a b : α} {as : List α} (ha : a ∈ as)
    (hb : b ∈ visited n as a) : b ∈ as := by
  rcases List.mem_append.mp hb with h | h
  · exact List.mem_of_mem_take h
  · exact List.eq_of_mem_replicate h ▸ ha

/-- Store the tag of the elements of an array in its element 0. -/
def storeTagHead (b : UInt8) : List Value → List Value
  | [] => []
  | v :: vs => storeTag b v :: vs

/-- `deserializeArray`, with `deserializeValueBoolArray` for the arrays of `BOOL`. The loops
end with a positive total unless one of the elements could not be read. -/
def deserializeArray (behind : UInt8) (t : EDataTypeID) (elements : List (Value × Decoder)) :
    Decoder := fun bs =>
  let values := elements.map Prod.fst
  let nSize := lengthField bs
  if bs.length < 2 then some (-1, .array t values)
  else if nSize = 0 then some (2, .array t values)
  else
    match elements with
    | [] => none
    | (first, decode) :: _ =>
      if first.IsBool then do
        let points := elements.map fun e => (e.1, deserializeDataPointWith e.1 e.2)
        let surplus := (first, deserializeDataPointWith first decode)
        let (nValueLen, after) ← readEach (visited nSize points surplus) 0 (bs.drop 2)
        let array := Value.array t (overwritten nSize values after)
        if 0 ≤ nValueLen then some (2 + nValueLen, array) else some (nValueLen, array)
      else
        let tag := (bs.drop 2).headD behind
        if tagMatches tag first then do
          let (nRetVal, after) ←
            readEach (visited nSize elements (first, decode)) 3 (bs.drop 3)
          some (nRetVal, .array t (storeTagHead tag (overwritten nSize values after)))
        else
          some (-1, .array t values)

/-- `deserializeValueStruct`. -/
def deserializeValueStruct (asn1StructType : UInt8) (members : List (Value × Decoder)) :
    Decoder := fun bs => do
  let (nRetVal, after) ← readEach
    (members.map fun m => if m.1.IsBool then (m.1, deserializeDataPointWith m.1 m.2) else m) 0 bs
  some (nRetVal, .struct asn1StructType after)

mutual

/-- `deserializeValue`. -/
def deserializeValue (behind : UInt8) : Value → Decoder
  | .elementary id data => deserializeElementary id data
  | .string bound storage => deserializeValueString bound storage
  | .wstring storage => deserializeValueWString storage
  | .array t elements => deserializeArray behind t (withDecoders behind elements)
  | .struct t members => deserializeValueStruct t (withDecoders behind members)
  | .any inner => fun bs => (deserializeValue behind inner bs).map fun r => (r.1, .any r.2)

/-- Every value of a list with its decoder. -/
def withDecoders (behind : UInt8) : List Value → List (Value × Decoder)
  | [] => []
  | v :: vs => (v, deserializeValue behind v) :: withDecoders behind vs

end

/-- `deserializeDataPoint`. -/
def deserializeDataPoint (behind : UInt8) (v : Value) : Decoder :=
  deserializeDataPointWith v (deserializeValue behind v)

/-- What a deserializing function sees of a packet: its size is handed on as an `int`, and
a size that is negative as an `int` counts as no bytes at all. -/
def sizedAsInt (bs : List UInt8) : List UInt8 := if bs.length ≤ intMax then bs else []

theorem sizedAsInt_eq {bs : List UInt8} (h : bs.length ≤ intMax) : sizedAsInt bs = bs := if_pos h

/-- The loop of `deserializeDataPointArray`: the return value, the data points afterwards
and the bytes that are left. -/
def deserializeDataPoints (behind : UInt8) :
    List Value → List UInt8 → Option (Bool × List Value × List UInt8)
  | [], bs => some (true, [], bs)
  | v :: vs, bs => do
    let (nBuf, v') ← deserializeDataPoint behind v (sizedAsInt bs)
    if nBuf ≤ 0 then some (false, v' :: vs, bs)
    else
      let (ok, vs', rest) ← deserializeDataPoints behind vs (bs.drop nBuf.toNat)
      some (ok, v' :: vs', rest)

/-- `deserializeDataPointArray`: the return value and the data points afterwards. Without
data points, exactly the Null tag is accepted. -/
def deserializeDataPointArray (behind : UInt8) (bs : List UInt8) (data : List Value) :
    Option (Bool × List Value) :=
  if data.length = 0 then some (bs.length = 1 && byteAt bs 0 = nullTag.toNat, data)
  else (deserializeDataPoints behind data bs).map fun r => (r.1, r.2.1)

namespace Value

@[simp]
theorem withDecoders_eq_map (behind : UInt8) (vs : List Value) :
    withDecoders behind vs = vs.map fun v => (v, deserializeValue behind v) := by
  induction vs with
  | nil => rfl
  | cons v vs ih => rw [withDecoders, List.map_cons, ih]

/-- The decoder of an item, a member of a struct or an element of an array: a `BOOL` comes
with its tag, any other value without. -/
def deserializeItem (behind : UInt8) (v : Value) : Decoder :=
  if v.IsBool then deserializeDataPoint behind v else deserializeValue behind v

theorem deserializeValue_any (behind : UInt8) (w : Value) (bs : List UInt8) :
    deserializeValue behind (.any w) bs =
      (deserializeValue behind w bs).map fun r => (r.1, .any r.2) := rfl

/-- **A struct** is the loop over its members. -/
theorem deserializeValue_struct (behind t : UInt8) (ms : List Value) (bs : List UInt8) :
    deserializeValue behind (.struct t ms) bs =
      (readEach (ms.map fun m => (m, deserializeItem behind m)) 0 bs).map
        fun r => (r.1, .struct t r.2) := by
  have hmap : (ms.map fun v => (v, deserializeValue behind v)).map
      (fun m : Value × Decoder =>
        if m.1.IsBool then (m.1, deserializeDataPointWith m.1 m.2) else m) =
      ms.map fun m => (m, deserializeItem behind m) := by
    rw [List.map_map]
    refine List.map_congr_left fun m _ => ?_
    simp only [Function.comp_apply, deserializeItem, deserializeDataPoint]
    split_ifs <;> rfl
  simp only [deserializeValue, deserializeValueStruct, withDecoders_eq_map, hmap]
  cases readEach (ms.map fun m => (m, deserializeItem behind m)) 0 bs <;> rfl

section Arrays

variable {behind : UInt8} {t : EDataTypeID} {first : Value} {rest : List Value}

/-- **An array of `BOOL`** is the loop over its elements, each with its tag. -/
theorem deserializeValue_array_bool (hw : (array t (first :: rest)).WellTyped) (hb : first.IsBool)
    {n : ℕ} (hpos : 0 < n) (hn : n < 65536) (body : List UInt8) :
    deserializeValue behind (.array t (first :: rest)) (beBytes 2 n ++ body) =
      (readEach ((visited n (first :: rest) first).map fun e => (e, deserializeItem behind e))
        0 body).map fun r => (if 0 ≤ r.1 then 2 + r.1 else r.1,
          .array t (overwritten n (first :: rest) r.2)) := by
  have hitem : ∀ e ∈ first :: rest, deserializeItem behind e = deserializeDataPoint behind e :=
    fun e he => if_pos <| (isBool_iff_of_wellTyped hw he).mpr <|
      (isBool_iff_of_wellTyped hw List.mem_cons_self).mp hb
  have hpoints : visited n
      ((withDecoders behind (first :: rest)).map fun e => (e.1, deserializeDataPointWith e.1 e.2))
      (first, deserializeDataPointWith first (deserializeValue behind first)) =
      (visited n (first :: rest) first).map fun e => (e, deserializeItem behind e) := by
    rw [withDecoders_eq_map, List.map_map]
    have hmap := visited_map (fun e => (e, deserializeDataPoint behind e)) n (first :: rest) first
    refine hmap.trans (List.map_congr_left fun e he => ?_)
    rw [hitem e (mem_of_mem_visited List.mem_cons_self he)]
  have hfst : (withDecoders behind (first :: rest)).map Prod.fst = first :: rest := by
    rw [withDecoders_eq_map, List.map_map]
    exact List.map_id _
  simp only [withDecoders] at hpoints hfst
  simp only [deserializeValue, withDecoders, deserializeArray, lengthField_append hn,
    drop_two_append, hfst, hpoints]
  rw [if_neg (not_length_lt n body), if_neg (by omega), if_pos hb]
  cases readEach ((visited n (first :: rest) first).map fun e =>
      (e, deserializeItem behind e)) 0 body with
  | none => rfl
  | some r =>
    simp only [Option.bind_eq_bind, Option.bind_some, Option.map_some]
    split_ifs <;> rfl

/-- **An array of any other type** is the tag of the elements and the loop over them; where
the tag has not arrived, the byte behind is taken for it. -/
theorem deserializeValue_array (hw : (array t (first :: rest)).WellTyped) (hb : ¬first.IsBool)
    {n : ℕ} (hpos : 0 < n) (hn : n < 65536) (body : List UInt8) :
    deserializeValue behind (.array t (first :: rest)) (beBytes 2 n ++ body) =
      if tagMatches (body.headD behind) first then
        (readEach ((visited n (first :: rest) first).map fun e => (e, deserializeItem behind e))
          3 body.tail).map fun r => (r.1, .array t (storeTagHead (body.headD behind)
            (overwritten n (first :: rest) r.2)))
      else some (-1, .array t (first :: rest)) := by
  have hitem : ∀ e ∈ first :: rest, deserializeItem behind e = deserializeValue behind e :=
    fun e he => if_neg <| mt (isBool_iff_of_wellTyped hw he).mp <|
      mt (isBool_iff_of_wellTyped hw List.mem_cons_self).mpr hb
  have hvalues : visited n (withDecoders behind (first :: rest))
      (first, deserializeValue behind first) =
      (visited n (first :: rest) first).map fun e => (e, deserializeItem behind e) := by
    rw [withDecoders_eq_map]
    have hmap := visited_map (fun e => (e, deserializeValue behind e)) n (first :: rest) first
    refine hmap.trans (List.map_congr_left fun e he => ?_)
    rw [hitem e (mem_of_mem_visited List.mem_cons_self he)]
  have hfst : (withDecoders behind (first :: rest)).map Prod.fst = first :: rest := by
    rw [withDecoders_eq_map, List.map_map]
    exact List.map_id _
  have htail : (beBytes 2 n ++ body).drop 3 = body.tail := by
    rw [← List.drop_one, ← drop_two_append n body, List.drop_drop, drop_two_append]
  simp only [withDecoders] at hvalues hfst
  simp only [deserializeValue, withDecoders, deserializeArray, lengthField_append hn,
    drop_two_append, htail, hfst, hvalues]
  rw [if_neg (not_length_lt n body), if_neg (by omega), if_neg hb]
  split_ifs
  · cases readEach ((visited n (first :: rest) first).map fun e =>
        (e, deserializeItem behind e)) 3 body.tail <;> rfl
  · rfl

/-- An array of which no elements are announced is left as it is. -/
theorem deserializeValue_array_zero (es : List Value) (body : List UInt8) :
    deserializeValue behind (.array t es) (beBytes 2 0 ++ body) = some (2, .array t es) := by
  simp only [deserializeValue, deserializeArray, withDecoders_eq_map, List.map_map]
  rw [if_neg (not_length_lt 0 body), if_pos (lengthField_append (by omega) body)]
  simp [Function.comp_def]

/-- Elements announced for an empty array have no result. -/
theorem deserializeValue_array_nil {n : ℕ} (hpos : 0 < n) (hn : n < 65536) (body : List UInt8) :
    deserializeValue behind (.array t []) (beBytes 2 n ++ body) = none := by
  simp only [deserializeValue, deserializeArray, withDecoders, lengthField_append hn]
  rw [if_neg (not_length_lt n body), if_neg (by omega)]

theorem deserializeValue_array_short (es : List Value) (bs : List UInt8) (hlen : bs.length < 2) :
    deserializeValue behind (.array t es) bs = some (-1, .array t es) := by
  simp only [deserializeValue, deserializeArray, withDecoders_eq_map, List.map_map]
  rw [if_pos hlen]
  simp [Function.comp_def]

end Arrays

end Value

end Forte
