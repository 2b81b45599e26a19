import Forte.Datatypes.Storage
import Forte.Datatypes.Datum

/-!
# The conversion of the byte order

`swapEndianess` reverses the bytes of each elementary value and of each symbol of a wide
string. Of an array whose type is known it converts every element by the type of the elements;
a struct, and with it what is inside, goes through `swapEndianessInplace`, which looks up the
conversion in a table by the data type (`Forte.swapEntry`). There is a table for the elements
of an array and one for the members of a struct, and they differ for an `LTIME`, which in an
array is converted as an `LDATE`.

A conversion returns the value and the positions behind the end of a string that were read or
written on the way; there is no result where it does not come to an end or has none.

* **A wide string is swapped in pairs of bytes**, though it is stored as UTF-8. With an odd
  length, its last pair has the byte behind the string in it.
* **A `CIEC_STRING_FIXED` has no conversion of its own**: the function for strings ends without
  a value for it. In the tables it is treated as a `CIEC_STRING`.
* **The loop over an array** counts past its upper bound, which overflows if this is the
  greatest number.

A variable of type `ANY` inside of a struct or an array has no entry in the tables, which leave
it alone. `Forte.converts_iff` says exactly for which values the conversion does what it is
for.
-/

namespace Forte

/-! ### Elementary values -/

/-- `swapSimpleDataHelper`, of the bytes of a `TValueType`; there are no other sizes. -/
def swapSimpleDataHelper : List UInt8 → List UInt8
  | [b0] => [b0]
  | [b0, b1] => [b1, b0]
  | [b0, b1, b2, b3] => [b3, b2, b1, b0]
  | [b0, b1, b2, b3, b4, b5, b6, b7] => [b7, b6, b5, b4, b3, b2, b1, b0]
  | bytes => bytes

/-- The size of a `TValueType`. -/
def IntegralType.dataSize (t : IntegralType) : ℕ := if t = .bool then 1 else t.bitLength / 8

/-- The bytes of the value that is read from the storage. -/
def IntegralType.dataBytes (t : IntegralType) (data : BitVec 64) : List UInt8 :=
  beBytes t.dataSize (t.typedValue data % 256 ^ t.dataSize).toNat

/-- `swapEndianess` of an integer, a bit string or a truth value. -/
def swapNumber (t : IntegralType) (data : BitVec 64) : BitVec 64 :=
  t.setTyped (ofBeBytes (swapSimpleDataHelper (t.dataBytes data)))

/-- `swapEndianess` of the other elementary types, whose value is in the first bytes of the
storage. -/
def swapPlain (dataSize : ℕ) (data : BitVec 64) : BitVec 64 :=
  BitVec.ofNat 64 (ofBeBytes (swapSimpleDataHelper (beBytes dataSize data.toNat)))

/-- `swapEndianess` of a `CIEC_LDATE`. -/
def swapLDate : BitVec 64 → BitVec 64 := swapPlain 8

/-- `swapEndianess` of a `CIEC_LTIME`. -/
def swapLTime : BitVec 64 → BitVec 64 := swapPlain 8

/-- The size of a `TForteFloat` and of a `TForteDFloat`. -/
def RealType.dataSize : RealType → ℕ
  | real => 4
  | lreal => 8

/-! ### Wide strings -/

/-- The loop of `swapEndianess` over a wide string, with the bytes it has accessed. Its counter
has 16 bits. -/
def swapPairs (value : List UInt8) (length : ℕ) :
    ℕ → ℕ → List UInt8 → List ℕ → Option (List UInt8 × List ℕ)
  | 0, _, _, _ => none
  | fuel + 1, i, reversed, accessed =>
    if i < length then
      swapPairs value length fuel ((i + 2) % 65536)
        ((reversed.set i (value.getD (i + 1) 0)).set (i + 1) (value.getD i 0))
        (accessed ++ [i, i + 1])
    else some (reversed, accessed)

/-- `swapEndianess` of a `CIEC_WSTRING`, with the bytes behind the string that it has accessed.
There is a zero behind the string, which an assignment of the result writes anew. -/
def swapWString (storage : Text) : Option (Text × List ℕ) :=
  let value := storage ++ [0]
  (swapPairs value storage.length (storage.length + 1) 0 value []).map fun r =>
    (r.1.take storage.length, r.2.filter (storage.length ≤ ·))

/-! ### Trees -/

mutual

/-- An entry of the tables of `swapEndianessInplace`, for an element or a member; `ltime` is
the one for an `LTIME`. -/
def swapEntry (ltime : BitVec 64 → BitVec 64) : Datum → Option (Datum × List ℕ)
  | .number t data => some (.number t (swapNumber t data), [])
  | .duration t data =>
    match t with
    | .time => some (.duration .time (swapPlain 8 data), [])
    | .ltime => some (.duration .ltime (ltime data), [])
  | .date t data => some (.date t (swapPlain 8 data), [])
  | .real t data => some (.real t (swapPlain t.dataSize data), [])
  | .char data => some (.char (swapPlain 1 data), [])
  | .wchar data => some (.wchar (swapPlain 2 data), [])
  | .string bound storage => some (.string bound storage, [])
  | .wstring storage => (swapWString storage).map fun r => (.wstring r.1, r.2)
  -- `swapEndianessInplace` of an array
  | .array lowerBound elements =>
    if lowerBound + elements.length - 1 = 2 ^ 63 - 1 then none
    else (swapEntries swapLDate elements).map fun r => (.array lowerBound r.1, r.2)
  -- `swapEndianessInplace` of a struct
  | .struct structTypeName elementNames members =>
    (swapEntries swapLTime members).map fun r => (.struct structTypeName elementNames r.1, r.2)
  | .any inner => some (.any inner, [])

/-- The loops over the elements and the members. -/
def swapEntries (ltime : BitVec 64 → BitVec 64) : List Datum → Option (List Datum × List ℕ)
  | [] => some ([], [])
  | v :: vs =>
    (swapEntry ltime v).bind fun r =>
      (swapEntries ltime vs).map fun rs => (r.1 :: rs.1, r.2 ++ rs.2)

end

/-- `swapEndianessInplace`, of an array or a struct. -/
def swapEndianessInplace (v : Datum) : Option (Datum × List ℕ) := swapEntry swapLTime v

mutual

/-- `swapEndianess`. The elementary types are converted as in the tables, and there is no
instance for a variable of type `ANY`. -/
def swapEndianess : Datum → Option (Datum × List ℕ)
  | .string bound storage =>
    match bound with
    | none => some (.string none storage, [])
    | some _ => none
  | .array lowerBound elements =>
    (swapEach elements).map fun r => (.array lowerBound r.1, r.2)
  | .struct structTypeName elementNames members =>
    swapEndianessInplace (.struct structTypeName elementNames members)
  | v => swapEntry swapLTime v

/-- The loop over the elements of an array whose type is known. -/
def swapEach : List Datum → Option (List Datum × List ℕ)
  | [] => some ([], [])
  | v :: vs =>
    (swapEndianess v).bind fun r =>
      (swapEach vs).map fun rs => (r.1 :: rs.1, r.2 ++ rs.2)

end

/-! ### What the conversion is for -/

/-- The value of a variable: the bytes of the elementary values in a tree. -/
inductive ValueTree
  | elementary (id : EDataTypeID) (bytes : List UInt8)
  | string (bound : Option ℕ) (storage : Text)
  | wstring (storage : Text)
  | array (lowerBound : ℤ) (elements : List ValueTree)
  | struct (structTypeName : StringId) (elementNames : List StringId) (members : List ValueTree)
  | any (inner : Datum)

/-- The symbols of a wide string have two bytes each. -/
def swapSymbols : Text → Text
  | a :: b :: rest => b :: a :: swapSymbols rest
  | rest => rest

mutual

/-- **The other byte order**: the bytes of each elementary value and of each symbol of a wide
string are reversed, and everything else stays. -/
def ValueTree.reversed : ValueTree → ValueTree
  | .elementary id bytes => .elementary id bytes.reverse
  | .string bound storage => .string bound storage
  | .wstring storage => .wstring (swapSymbols storage)
  | .array lowerBound elements => .array lowerBound (reversedEach elements)
  | .struct structTypeName elementNames members =>
    .struct structTypeName elementNames (reversedEach members)
  | .any inner => .any inner

/-- Every tree of a list reversed. -/
def ValueTree.reversedEach : List ValueTree → List ValueTree
  | [] => []
  | v :: vs => v.reversed :: reversedEach vs

end

mutual

/-- The value of a variable. -/
def Datum.value : Datum → ValueTree
  | .number t data => .elementary t.getDataTypeID (t.dataBytes data)
  | .duration t data => .elementary t.getDataTypeID (beBytes 8 data.toNat)
  | .date t data => .elementary t.getDataTypeID (beBytes 8 data.toNat)
  | .real t data => .elementary t.getDataTypeID (beBytes t.dataSize data.toNat)
  | .char data => .elementary .char (beBytes 1 data.toNat)
  | .wchar data => .elementary .wchar (beBytes 2 data.toNat)
  | .string bound storage => .string bound storage
  | .wstring storage => .wstring storage
  | .array lowerBound elements => .array lowerBound (values elements)
  | .struct structTypeName elementNames members =>
    .struct structTypeName elementNames (values members)
  | .any inner => .any inner

/-- The values of a list. -/
def Datum.values : List Datum → List ValueTree
  | [] => []
  | v :: vs => v.value :: values vs

end

/-- **What is asked of a conversion**: it leaves nothing but the value in the other byte order,
twice it is the value itself, and no byte outside of the value is accessed. -/
def Converts (swap : Datum → Option (Datum × List ℕ)) (v : Datum) : Prop :=
  ∃ once twice, swap v = some (once, []) ∧ once.value = v.value.reversed ∧
    swap once = some (twice, []) ∧ twice.value = v.value

/-- A wide string of an even length that its field for the length can hold. -/
def WholeSymbols (storage : Text) : Prop := storage.length < 65536 ∧ storage.length % 2 = 0

mutual

/-- **What the tables convert**: the wide strings have an even length, and no array ends at the
greatest index. -/
def SwappableInplace : Datum → Prop
  | .wstring storage => WholeSymbols storage
  | .array lowerBound elements =>
    lowerBound + elements.length - 1 ≠ 2 ^ 63 - 1 ∧ AllSwappableInplace elements
  | .struct _ _ members => AllSwappableInplace members
  | _ => True

/-- All values of a list. -/
def AllSwappableInplace : List Datum → Prop
  | [] => True
  | v :: vs => SwappableInplace v ∧ AllSwappableInplace vs

end

mutual

/-- **What `swapEndianess` converts**: outside of structs, there is no `CIEC_STRING_FIXED`, and
an array may end anywhere. -/
def Swappable : Datum → Prop
  | .string bound _ => bound = none
  | .wstring storage => WholeSymbols storage
  | .array _ elements => AllSwappable elements
  | .struct structTypeName elementNames members =>
    SwappableInplace (.struct structTypeName elementNames members)
  | _ => True

/-- All values of a list. -/
def AllSwappable : List Datum → Prop
  | [] => True
  | v :: vs => Swappable v ∧ AllSwappable vs

end

/-! ### Bytes are reversed -/

/-- The sizes of the elementary types. -/
def IsDataSize (n : ℕ) : Prop := n = 1 ∨ n = 2 ∨ n = 4 ∨ n = 8

theorem swapSimpleDataHelper_eq {bs : List UInt8} (h : IsDataSize bs.length) :
    swapSimpleDataHelper bs = bs.reverse := by
  obtain h | h | h | h := h <;>
    rcases bs with
      _ | ⟨b0, _ | ⟨b1, _ | ⟨b2, _ | ⟨b3, _ | ⟨b4, _ | ⟨b5, _ | ⟨b6, _ | ⟨b7, bs⟩⟩⟩⟩⟩⟩⟩⟩ <;>
    simp_all [swapSimpleDataHelper]

theorem IsDataSize.le {n : ℕ} (h : IsDataSize n) : n ≤ 8 := by
  obtain rfl | rfl | rfl | rfl := h <;> decide

/-- Bytes that are put together and taken apart. -/
theorem beBytes_ofBeBytes_of_length {n : ℕ} {bs : List UInt8} (h : bs.length = n) :
    beBytes n (ofBeBytes bs) = bs := by
  rw [← h]
  exact beBytes_ofBeBytes bs

theorem beBytes_swapPlain {n : ℕ} (hn : IsDataSize n) (data : BitVec 64) :
    beBytes n (swapPlain n data).toNat = (beBytes n data.toNat).reverse := by
  have hlen : (beBytes n data.toNat).length = n := length_beBytes n data.toNat
  have hrev : (beBytes n data.toNat).reverse.length = n := by rw [List.length_reverse, hlen]
  have hlt : ofBeBytes (beBytes n data.toNat).reverse < 2 ^ 64 := by
    have hbound := ofBeBytes_lt (beBytes n data.toNat).reverse
    rw [hrev] at hbound
    calc ofBeBytes (beBytes n data.toNat).reverse < 256 ^ n := hbound
      _ ≤ 256 ^ 8 := Nat.pow_le_pow_right (by decide) hn.le
      _ = 2 ^ 64 := by decide
  rw [swapPlain, swapSimpleDataHelper_eq (by rwa [hlen]), BitVec.toNat_ofNat,
    Nat.mod_eq_of_lt hlt, beBytes_ofBeBytes_of_length hrev]

theorem IntegralType.isDataSize (t : IntegralType) : IsDataSize t.dataSize := by
  cases t <;> simp [IsDataSize, dataSize, bitLength]

theorem IntegralType.pow_dataSize {t : IntegralType} (h : t ≠ .bool) :
    (256 : ℤ) ^ t.dataSize = 2 ^ t.bitLength := by
  cases t <;> first | exact absurd rfl h | rfl

/-- What the accessor reads after the setter, up to what fits the type. -/
theorem IntegralType.typedValue_setTyped {t : IntegralType} (h : t ≠ .bool) (x : ℤ) :
    t.typedValue (t.setTyped x) % 2 ^ t.bitLength = x % 2 ^ t.bitLength := by
  rw [typedValue, setTyped, if_neg h, if_neg h]
  have hpow : (2 : ℤ) ^ t.bitLength = ((2 ^ t.bitLength : ℕ) : ℤ) := by push_cast; rfl
  split_ifs with hsigned
  · rw [setWidth_ofInt t.bitLength_le, BitVec.ofInt_toInt, BitVec.toInt_ofInt, hpow,
      Int.bmod_emod]
  · have hlt : (BitVec.ofInt t.bitLength x).toNat < 2 ^ t.bitLength := BitVec.isLt _
    have hle : 2 ^ t.bitLength ≤ 2 ^ 64 := Nat.pow_le_pow_right (by decide) t.bitLength_le
    have hpos : 0 ≤ x % ((2 ^ t.bitLength : ℕ) : ℤ) := Int.emod_nonneg _ (by positivity)
    rw [BitVec.toNat_setWidth, BitVec.toNat_ofNat, Nat.mod_eq_of_lt (lt_of_lt_of_le hlt hle),
      Nat.mod_eq_of_lt hlt, BitVec.toNat_ofInt, Int.toNat_of_nonneg hpos, hpow, Int.emod_emod]

theorem IntegralType.length_dataBytes (t : IntegralType) (data : BitVec 64) :
    (t.dataBytes data).length = t.dataSize := length_beBytes _ _

theorem dataBytes_swapNumber (t : IntegralType) (data : BitVec 64) :
    t.dataBytes (swapNumber t data) = (t.dataBytes data).reverse := by
  have hrev : (t.dataBytes data).reverse.length = t.dataSize := by
    rw [List.length_reverse, t.length_dataBytes]
  rw [swapNumber, swapSimpleDataHelper_eq (by rw [t.length_dataBytes]; exact t.isDataSize)]
  by_cases hbool : t = .bool
  · subst hbool
    by_cases hdata : data = 0
    · subst hdata
      decide
    · have hbytes : IntegralType.bool.dataBytes data = [1] := by
        rw [IntegralType.dataBytes, IntegralType.typedValue, if_pos rfl, if_pos hdata]
        decide
      rw [hbytes]
      decide
  · have hlt := ofBeBytes_lt (t.dataBytes data).reverse
    rw [hrev] at hlt
    have hcast : ((ofBeBytes (t.dataBytes data).reverse : ℕ) : ℤ) < 256 ^ t.dataSize := by
      exact_mod_cast hlt
    rw [IntegralType.dataBytes, IntegralType.pow_dataSize hbool,
      IntegralType.typedValue_setTyped hbool, ← IntegralType.pow_dataSize hbool,
      Int.emod_eq_of_lt (Int.natCast_nonneg _) hcast, Int.toNat_natCast,
      beBytes_ofBeBytes_of_length hrev]

/-! ### Pairs are swapped -/

theorem swapSymbols_swapSymbols (storage : Text) : swapSymbols (swapSymbols storage) = storage := by
  induction storage using swapSymbols.induct with
  | case1 a b rest ih =>
    rw [swapSymbols, swapSymbols, ih]
  | case2 rest hrest =>
    cases rest with
    | nil => rfl
    | cons a rest =>
      cases rest with
      | nil => rfl
      | cons b rest => exact absurd rfl (hrest a b rest)

theorem length_swapSymbols (storage : Text) : (swapSymbols storage).length = storage.length := by
  induction storage using swapSymbols.induct with
  | case1 a b rest ih => simp [swapSymbols, ih]
  | case2 rest hrest =>
    cases rest with
    | nil => rfl
    | cons a rest =>
      cases rest with
      | nil => rfl
      | cons b rest => exact absurd rfl (hrest a b rest)

/-- The loop over whole pairs, from a position on where it has swapped what is in front. The
last pair may have one byte behind the string in it. -/
theorem swapPairs_eq {before out rest tail : List UInt8} {length fuel : ℕ} {accessed : List ℕ}
    (hout : out.length = before.length) (heven : rest.length % 2 = 0)
    (hle : length ≤ before.length + rest.length) (hlast : before.length + rest.length ≤ length + 1)
    (hlen : before.length + rest.length < 65536) (hfuel : rest.length / 2 < fuel) :
    swapPairs (before ++ (rest ++ tail)) length fuel before.length (out ++ (rest ++ tail))
        accessed =
      some (out ++ (swapSymbols rest ++ tail),
        accessed ++ List.range' before.length rest.length) := by
  induction rest using swapSymbols.induct generalizing before out fuel accessed with
  | case1 a b rest ih =>
    obtain ⟨fuel, rfl⟩ : ∃ f, fuel = f + 1 := ⟨fuel - 1, by omega⟩
    simp only [List.length_cons] at heven hle hlast hlen hfuel ⊢
    rw [swapPairs, if_pos (by omega), Nat.mod_eq_of_lt (by omega)]
    have hfirst : (before ++ (a :: b :: rest ++ tail)).getD before.length 0 = a := by
      rw [List.getD_eq_getElem?_getD, List.getElem?_append_right (le_refl _), Nat.sub_self]
      rfl
    have hsecond : (before ++ (a :: b :: rest ++ tail)).getD (before.length + 1) 0 = b := by
      rw [List.getD_eq_getElem?_getD, List.getElem?_append_right (Nat.le_add_right _ 1),
        Nat.add_sub_cancel_left]
      rfl
    have hset : ((out ++ (a :: b :: rest ++ tail)).set before.length b).set (before.length + 1) a =
        (out ++ [b, a]) ++ (rest ++ tail) := by
      rw [← hout, List.set_append_right _ _ (le_refl _), Nat.sub_self,
        List.set_append_right _ _ (Nat.le_add_right _ 1), Nat.add_sub_cancel_left,
        List.append_assoc]
      rfl
    have hpos : (before ++ [a, b]).length = before.length + 2 := by simp
    have hnext : swapPairs ((before ++ [a, b]) ++ (rest ++ tail)) length fuel
        (before ++ [a, b]).length ((out ++ [b, a]) ++ (rest ++ tail))
        (accessed ++ [before.length, before.length + 1]) = _ :=
      ih (by simp [hout]) (by omega) (by omega) (by omega) (by omega) (by omega)
    rw [hpos] at hnext
    simp only [List.append_assoc, List.cons_append, List.nil_append] at hnext
    rw [hfirst, hsecond, hset]
    simp only [List.append_assoc, List.cons_append, List.nil_append]
    rw [hnext, swapSymbols]
    simp [List.range'_succ]
  | case2 rest hrest =>
    obtain rfl : rest = [] := by
      rcases rest with _ | ⟨a, _ | ⟨b, rest⟩⟩
      · rfl
      · exact absurd heven (by simp)
      · exact absurd rfl (hrest a b rest)
    obtain ⟨fuel, rfl⟩ : ∃ f, fuel = f + 1 := ⟨fuel - 1, by omega⟩
    rw [swapPairs, if_neg (by simpa using hle)]
    simp [swapSymbols]

/-- A counter of 16 bits that is even does not get past an odd length of 16 bits. -/
theorem swapPairs_endless {value reversed : List UInt8} {length fuel i : ℕ} {accessed : List ℕ}
    (hlen : 65535 ≤ length) (hi : i < 65536) (heven : i % 2 = 0) :
    swapPairs value length fuel i reversed accessed = none := by
  induction fuel generalizing i reversed accessed with
  | zero => rfl
  | succ fuel ih =>
    rw [swapPairs, if_pos (by omega)]
    exact ih (Nat.mod_lt _ (by decide)) (by omega)

/-- All places of a string lie in it. -/
theorem filter_range'_length (n : ℕ) : (List.range' 0 n).filter (n ≤ ·) = [] := by
  refine List.filter_eq_nil_iff.mpr fun j hj => ?_
  have hlt := (List.mem_range'_1.mp hj).2
  simpa using hlt

theorem swapWString_of_whole {storage : Text} (h : WholeSymbols storage) :
    swapWString storage = some (swapSymbols storage, []) := by
  have hlen := h.1
  have hpairs : swapPairs ([] ++ (storage ++ [0])) storage.length (storage.length + 1)
      ([] : Text).length ([] ++ (storage ++ [0])) [] = _ :=
    swapPairs_eq rfl h.2 (by simp) (by simp) (by simpa using hlen) (by omega)
  simp only [List.nil_append, List.length_nil] at hpairs
  have htake : (swapSymbols storage ++ [0]).take storage.length = swapSymbols storage :=
    List.take_left' (length_swapSymbols storage)
  rw [swapWString, hpairs, Option.map_some, filter_range'_length, htake]

/-- With an odd length the zero behind the string is in the last pair. -/
theorem swapWString_of_odd {storage : Text} (hodd : storage.length % 2 = 1)
    (hlen : storage.length < 65535) :
    swapWString storage =
      some ((swapSymbols (storage ++ [0])).take storage.length, [storage.length]) := by
  have hpairs : swapPairs ([] ++ ((storage ++ [0]) ++ [])) storage.length (storage.length + 1)
      ([] : Text).length ([] ++ ((storage ++ [0]) ++ [])) [] = _ :=
    swapPairs_eq rfl (by simp; omega) (by simp) (by simp) (by simp; omega) (by simp; omega)
  simp only [List.nil_append, List.append_nil, List.length_nil, List.length_append,
    List.length_cons, Nat.zero_add] at hpairs
  have hfilter : (List.range' 0 (storage.length + 1)).filter (storage.length ≤ ·) =
      [storage.length] := by
    rw [List.range'_concat, List.filter_append, filter_range'_length]
    simp
  rw [swapWString, hpairs, Option.map_some, hfilter]

theorem swapWString_of_long {storage : Text} (hlen : 65535 ≤ storage.length) :
    swapWString storage = none := by
  rw [swapWString, swapPairs_endless hlen (by decide) rfl]
  rfl

/-- **Only wide strings of whole symbols** are swapped without a byte behind them. -/
theorem whole_of_swapWString {storage storage' : Text}
    (h : swapWString storage = some (storage', [])) : WholeSymbols storage := by
  rcases Nat.lt_or_ge storage.length 65535 with hlen | hlen
  · refine ⟨by omega, ?_⟩
    by_contra hodd
    rw [swapWString_of_odd (by omega) hlen] at h
    exact absurd (Prod.mk.inj (Option.some.inj h)).2 (by simp)
  · rw [swapWString_of_long hlen] at h
    exact absurd h (by simp)

/-! ### Trees are converted -/

theorem reversedEach_eq_map (vs : List ValueTree) :
    ValueTree.reversedEach vs = vs.map ValueTree.reversed := by
  induction vs with
  | nil => rfl
  | cons v vs ih => rw [ValueTree.reversedEach, ih, List.map_cons]

theorem values_eq_map (vs : List Datum) : Datum.values vs = vs.map Datum.value := by
  induction vs with
  | nil => rfl
  | cons v vs ih => rw [Datum.values, ih, List.map_cons]

/-- The other byte order of a value, twice, is the value. -/
theorem Datum.reversed_reversed (v : Datum) : v.value.reversed.reversed = v.value := by
  induction v with
  | array lowerBound es ih =>
    simp only [Datum.value, ValueTree.reversed, values_eq_map, reversedEach_eq_map, List.map_map]
    exact congrArg _ (List.map_congr_left ih)
  | struct name names ms ih =>
    simp only [Datum.value, ValueTree.reversed, values_eq_map, reversedEach_eq_map, List.map_map]
    exact congrArg _ (List.map_congr_left ih)
  | wstring storage => simp only [Datum.value, ValueTree.reversed, swapSymbols_swapSymbols]
  | _ => simp only [Datum.value, ValueTree.reversed, List.reverse_reverse]

/-- What a conversion makes of the values of a list, one after the other. -/
structure ConvertsEach (vs ws : List Datum) : Prop where
  length : ws.length = vs.length
  values : Datum.values ws = ValueTree.reversedEach (Datum.values vs)

theorem ConvertsEach.nil : ConvertsEach [] [] := ⟨rfl, rfl⟩

theorem ConvertsEach.cons {v w : Datum} {vs ws : List Datum}
    (h : w.value = v.value.reversed) (hs : ConvertsEach vs ws) :
    ConvertsEach (v :: vs) (w :: ws) where
  length := congrArg (· + 1) hs.length
  values := by
    rw [Datum.values, Datum.values, ValueTree.reversedEach, h, hs.values]

/-- A conversion of every value of a list, with all that it accesses. -/
def convertAll (swap : Datum → Option (Datum × List ℕ)) : List Datum → Option (List Datum × List ℕ)
  | [] => some ([], [])
  | v :: vs =>
    (swap v).bind fun r => (convertAll swap vs).map fun rs => (r.1 :: rs.1, r.2 ++ rs.2)

theorem swapEntries_eq (ltime : BitVec 64 → BitVec 64) (vs : List Datum) :
    swapEntries ltime vs = convertAll (swapEntry ltime) vs := by
  induction vs with
  | nil => rfl
  | cons v vs ih => rw [swapEntries, ih, convertAll]

theorem swapEach_eq (vs : List Datum) : swapEach vs = convertAll swapEndianess vs := by
  induction vs with
  | nil => rfl
  | cons v vs ih => rw [swapEach, ih, convertAll]

theorem allSwappableInplace_iff (vs : List Datum) :
    AllSwappableInplace vs ↔ ∀ v ∈ vs, SwappableInplace v := by
  induction vs with
  | nil => exact iff_of_true trivial fun _ h => absurd h List.not_mem_nil
  | cons v vs ih => rw [AllSwappableInplace, ih, List.forall_mem_cons]

theorem allSwappable_iff (vs : List Datum) : AllSwappable vs ↔ ∀ v ∈ vs, Swappable v := by
  induction vs with
  | nil => exact iff_of_true trivial fun _ h => absurd h List.not_mem_nil
  | cons v vs ih => rw [AllSwappable, ih, List.forall_mem_cons]

section Conversions

variable {swap : Datum → Option (Datum × List ℕ)}

/-- A value is converted to its other byte order, and what comes out has a property again. -/
def ConvertsTo (swap : Datum → Option (Datum × List ℕ)) (P : Datum → Prop) (v : Datum) : Prop :=
  ∃ w, swap v = some (w, []) ∧ w.value = v.value.reversed ∧ P w

theorem convertAll_of_forall {P : Datum → Prop} {vs : List Datum}
    (h : ∀ v ∈ vs, ConvertsTo swap P v) :
    ∃ ws, convertAll swap vs = some (ws, []) ∧ ConvertsEach vs ws ∧ ∀ w ∈ ws, P w := by
  induction vs with
  | nil => exact ⟨[], rfl, .nil, fun _ h => absurd h List.not_mem_nil⟩
  | cons v vs ih =>
    obtain ⟨⟨w, hw, hvalue, hagain⟩, hvs⟩ := List.forall_mem_cons.mp h
    obtain ⟨ws, hws, heach, hagains⟩ := ih hvs
    refine ⟨w :: ws, ?_, heach.cons hvalue, List.forall_mem_cons.mpr ⟨hagain, hagains⟩⟩
    rw [convertAll, hw, hws]
    rfl

theorem forall_of_convertAll {vs ws : List Datum} (h : convertAll swap vs = some (ws, [])) :
    ∀ v ∈ vs, ∃ w, swap v = some (w, []) := by
  induction vs generalizing ws with
  | nil => exact fun _ h => absurd h List.not_mem_nil
  | cons v vs ih =>
    obtain ⟨r, hr, hrest⟩ := Option.bind_eq_some_iff.mp h
    obtain ⟨rs, hrs, heq⟩ := Option.map_eq_some_iff.mp hrest
    obtain ⟨hr2, hrs2⟩ := List.append_eq_nil_iff.mp (Prod.mk.inj heq).2
    have hvs : convertAll swap vs = some (rs.1, []) := by rw [hrs, ← hrs2]
    refine List.forall_mem_cons.mpr ⟨⟨r.1, ?_⟩, ih hvs⟩
    rw [hr, ← hr2]

/-- What is converted and can be converted again is converted as it should be. -/
theorem converts_of_convertsTo {P : Datum → Prop} {v : Datum}
    (hswap : ∀ w, P w → ConvertsTo swap P w) (hv : P v) : Converts swap v := by
  obtain ⟨once, honce, hvalue, hagain⟩ := hswap v hv
  obtain ⟨twice, htwice, hvalue', -⟩ := hswap once hagain
  refine ⟨once, twice, honce, hvalue, htwice, ?_⟩
  rw [hvalue', hvalue, v.reversed_reversed]

end Conversions

/-- **The tables convert** what they are said to, and what comes out can be converted again. -/
theorem swapEntry_of_swappable (v : Datum) (h : SwappableInplace v) :
    ConvertsTo (swapEntry (swapPlain 8)) SwappableInplace v := by
  induction v with
  | number t data =>
    refine ⟨_, rfl, ?_, trivial⟩
    rw [Datum.value, Datum.value, dataBytes_swapNumber, ValueTree.reversed]
  | duration t data =>
    refine ⟨.duration t (swapPlain 8 data), by cases t <;> rfl, ?_, trivial⟩
    rw [Datum.value, Datum.value, beBytes_swapPlain (by simp [IsDataSize]), ValueTree.reversed]
  | date t data =>
    refine ⟨_, rfl, ?_, trivial⟩
    rw [Datum.value, Datum.value, beBytes_swapPlain (by simp [IsDataSize]), ValueTree.reversed]
  | real t data =>
    have hsize : IsDataSize t.dataSize := by cases t <;> simp [IsDataSize, RealType.dataSize]
    refine ⟨_, rfl, ?_, trivial⟩
    rw [Datum.value, Datum.value, beBytes_swapPlain hsize, ValueTree.reversed]
  | char data =>
    refine ⟨_, rfl, ?_, trivial⟩
    rw [Datum.value, Datum.value, beBytes_swapPlain (by simp [IsDataSize]), ValueTree.reversed]
  | wchar data =>
    refine ⟨_, rfl, ?_, trivial⟩
    rw [Datum.value, Datum.value, beBytes_swapPlain (by simp [IsDataSize]), ValueTree.reversed]
  | string bound storage => exact ⟨_, rfl, rfl, trivial⟩
  | wstring storage =>
    have hwhole : WholeSymbols storage := h
    refine ⟨.wstring (swapSymbols storage), ?_, rfl, ?_⟩
    · rw [swapEntry, swapWString_of_whole hwhole]
      rfl
    · rw [SwappableInplace, WholeSymbols, length_swapSymbols]
      exact hwhole
  | array lowerBound es ih =>
    obtain ⟨hbound, hall⟩ := h
    rw [allSwappableInplace_iff] at hall
    obtain ⟨ws, hws, heach, hagain⟩ := convertAll_of_forall fun v hv => ih v hv (hall v hv)
    refine ⟨.array lowerBound ws, ?_, ?_, ?_, (allSwappableInplace_iff ws).mpr hagain⟩
    · rw [swapEntry, if_neg hbound, swapLDate, swapEntries_eq, hws]
      rfl
    · rw [Datum.value, Datum.value, ValueTree.reversed, heach.values]
    · rw [heach.length]
      exact hbound
  | struct name names ms ih =>
    have hall := (allSwappableInplace_iff ms).mp h
    obtain ⟨ws, hws, heach, hagain⟩ := convertAll_of_forall fun v hv => ih v hv (hall v hv)
    refine ⟨.struct name names ws, ?_, ?_, (allSwappableInplace_iff ws).mpr hagain⟩
    · rw [swapEntry, swapLTime, swapEntries_eq, hws]
      rfl
    · rw [Datum.value, Datum.value, ValueTree.reversed, heach.values]
  | any w => exact ⟨_, rfl, rfl, trivial⟩

/-- **The tables convert nothing else.** -/
theorem swappable_of_swapEntry {v w : Datum} (h : swapEntry (swapPlain 8) v = some (w, [])) :
    SwappableInplace v := by
  induction v generalizing w with
  | wstring storage =>
    obtain ⟨r, hr, heq⟩ := Option.map_eq_some_iff.mp h
    have hinside : r.2 = [] := (Prod.mk.inj heq).2
    have hwhole : swapWString storage = some (r.1, []) := by rw [hr, ← hinside]
    exact whole_of_swapWString hwhole
  | array lowerBound es ih =>
    rw [swapEntry] at h
    split_ifs at h with hbound
    obtain ⟨r, hr, heq⟩ := Option.map_eq_some_iff.mp h
    have hinside : r.2 = [] := (Prod.mk.inj heq).2
    have hall : convertAll (swapEntry (swapPlain 8)) es = some (r.1, []) := by
      rw [← swapEntries_eq, ← hinside]
      exact hr
    refine ⟨hbound, (allSwappableInplace_iff es).mpr fun v hv => ?_⟩
    obtain ⟨w, hw⟩ := forall_of_convertAll hall v hv
    exact ih v hv hw
  | struct name names ms ih =>
    obtain ⟨r, hr, heq⟩ := Option.map_eq_some_iff.mp h
    have hinside : r.2 = [] := (Prod.mk.inj heq).2
    have hall : convertAll (swapEntry (swapPlain 8)) ms = some (r.1, []) := by
      rw [← swapEntries_eq, ← hinside]
      exact hr
    refine (allSwappableInplace_iff ms).mpr fun v hv => ?_
    obtain ⟨w, hw⟩ := forall_of_convertAll hall v hv
    exact ih v hv hw
  | _ => trivial

/-- **`swapEndianessInplace`** converts exactly what it is said to. -/
theorem converts_inplace_iff (v : Datum) :
    Converts swapEndianessInplace v ↔ SwappableInplace v :=
  ⟨fun ⟨_, _, honce, _⟩ => swappable_of_swapEntry honce,
    fun h => converts_of_convertsTo swapEntry_of_swappable h⟩

/-- Where there is no array and no string, `swapEndianess` converts as the tables do. -/
theorem convertsTo_of_entry {v : Datum} (h : SwappableInplace v)
    (heq : swapEndianess v = swapEntry (swapPlain 8) v)
    (hagain : ∀ w, swapEntry (swapPlain 8) v = some (w, []) → SwappableInplace w → Swappable w) :
    ConvertsTo swapEndianess Swappable v := by
  obtain ⟨w, hw, hvalue, hinplace⟩ := swapEntry_of_swappable v h
  exact ⟨w, heq.trans hw, hvalue, hagain w hw hinplace⟩

/-- **`swapEndianess` converts** what it is said to, and what comes out can be converted again. -/
theorem swapEndianess_of_swappable (v : Datum) (h : Swappable v) :
    ConvertsTo swapEndianess Swappable v := by
  induction v with
  | string bound storage =>
    obtain rfl : bound = none := h
    exact ⟨_, rfl, rfl, rfl⟩
  | array lowerBound es ih =>
    have hall := (allSwappable_iff es).mp h
    obtain ⟨ws, hws, heach, hagain⟩ := convertAll_of_forall fun v hv => ih v hv (hall v hv)
    refine ⟨.array lowerBound ws, ?_, ?_, (allSwappable_iff ws).mpr hagain⟩
    · rw [swapEndianess, swapEach_eq, hws]
      rfl
    · rw [Datum.value, Datum.value, ValueTree.reversed, heach.values]
  | struct name names ms =>
    refine convertsTo_of_entry h rfl fun w hw hinplace => ?_
    obtain ⟨r, -, heq⟩ := Option.map_eq_some_iff.mp hw
    obtain rfl := (Prod.mk.inj heq).1
    exact hinplace
  | wstring storage =>
    refine convertsTo_of_entry h rfl fun w hw hinplace => ?_
    obtain ⟨r, -, heq⟩ := Option.map_eq_some_iff.mp hw
    obtain rfl := (Prod.mk.inj heq).1
    exact hinplace
  | duration t data =>
    refine convertsTo_of_entry trivial (by cases t <;> rfl) fun w hw _ => ?_
    cases t <;> cases hw <;> trivial
  | number t data =>
    refine convertsTo_of_entry trivial rfl fun w hw _ => ?_
    cases hw
    trivial
  | date t data =>
    refine convertsTo_of_entry trivial rfl fun w hw _ => ?_
    cases hw
    trivial
  | real t data =>
    refine convertsTo_of_entry trivial rfl fun w hw _ => ?_
    cases hw
    trivial
  | char data =>
    refine convertsTo_of_entry trivial rfl fun w hw _ => ?_
    cases hw
    trivial
  | wchar data =>
    refine convertsTo_of_entry trivial rfl fun w hw _ => ?_
    cases hw
    trivial
  | any inner =>
    refine convertsTo_of_entry trivial rfl fun w hw _ => ?_
    cases hw
    trivial

/-- **`swapEndianess` converts nothing else.** -/
theorem swappable_of_swapEndianess {v w : Datum} (h : swapEndianess v = some (w, [])) :
    Swappable v := by
  induction v generalizing w with
  | string bound storage =>
    cases bound with
    | none => rfl
    | some n => exact absurd h (by simp [swapEndianess])
  | wstring storage => exact @swappable_of_swapEntry (.wstring storage) w h
  | array lowerBound es ih =>
    rw [swapEndianess] at h
    obtain ⟨r, hr, heq⟩ := Option.map_eq_some_iff.mp h
    have hinside : r.2 = [] := (Prod.mk.inj heq).2
    have hall : convertAll swapEndianess es = some (r.1, []) := by
      rw [← swapEach_eq, ← hinside]
      exact hr
    refine (allSwappable_iff es).mpr fun v hv => ?_
    obtain ⟨w, hw⟩ := forall_of_convertAll hall v hv
    exact ih v hv hw
  | struct name names ms => exact @swappable_of_swapEntry (.struct name names ms) w h
  | _ => trivial

/-- **For every value**, `swapEndianess` and `swapEndianessInplace` do what they are for if and
only if the wide strings in it have whole symbols, no `CIEC_STRING_FIXED` is converted by its
type, and no array that is converted in place ends at the greatest index. -/
theorem converts_iff (v : Datum) :
    (Converts swapEndianess v ↔ Swappable v) ∧
      (Converts swapEndianessInplace v ↔ SwappableInplace v) :=
  ⟨⟨fun ⟨_, _, honce, _⟩ => swappable_of_swapEndianess honce,
      fun h => converts_of_convertsTo swapEndianess_of_swappable h⟩,
    converts_inplace_iff v⟩

/-- A wide string of one byte loses it. -/
theorem not_converts_wide_letter : ¬∀ v : Datum, Converts swapEndianess v := by
  intro h
  obtain ⟨once, -, honce, -⟩ := h (.wstring (text "a"))
  have hswapped : swapEndianess (.wstring (text "a")) = some (.wstring [0], [1]) := rfl
  rw [hswapped] at honce
  exact absurd (Prod.mk.inj (Option.some.inj honce)).2 (by decide)

/-! ### Values that are the same in both byte orders -/

mutual

/-- **What a conversion in place keeps**, of the values that are the same in both byte orders:
a wide string of an odd length ends with a zero, as the byte behind it, and no array ends at
the greatest index. -/
def Kept : Datum → Prop
  | .wstring storage =>
    storage.length < 65535 ∧ (storage.length % 2 = 1 → storage.getLast? = some 0)
  | .array lowerBound elements =>
    lowerBound + elements.length - 1 ≠ 2 ^ 63 - 1 ∧ AllKept elements
  | .struct _ _ members => AllKept members
  | _ => True

/-- All values of a list. -/
def AllKept : List Datum → Prop
  | [] => True
  | v :: vs => Kept v ∧ AllKept vs

end

theorem allKept_iff (vs : List Datum) : AllKept vs ↔ ∀ v ∈ vs, Kept v := by
  induction vs with
  | nil => exact iff_of_true trivial fun _ h => absurd h List.not_mem_nil
  | cons v vs ih => rw [AllKept, ih, List.forall_mem_cons]

/-- A conversion leaves the value as it is. -/
def Keeps (swap : Datum → Option (Datum × List ℕ)) (v : Datum) : Prop :=
  ∃ w accessed, swap v = some (w, accessed) ∧ w.value = v.value

/-- The values of a list are kept if and only if each of them is. -/
theorem convertAll_keeps_iff {swap : Datum → Option (Datum × List ℕ)} (vs : List Datum) :
    (∃ ws accessed, convertAll swap vs = some (ws, accessed) ∧
      Datum.values ws = Datum.values vs) ↔ ∀ v ∈ vs, Keeps swap v := by
  induction vs with
  | nil => exact iff_of_true ⟨[], [], rfl, rfl⟩ fun _ h => absurd h List.not_mem_nil
  | cons v vs ih =>
    rw [List.forall_mem_cons, ← ih]
    constructor
    · rintro ⟨ws, accessed, hws, hvalues⟩
      obtain ⟨r, hr, hrest⟩ := Option.bind_eq_some_iff.mp hws
      obtain ⟨rs, hrs, heq⟩ := Option.map_eq_some_iff.mp hrest
      obtain ⟨rfl, -⟩ := Prod.mk.inj heq
      obtain ⟨hv, hvs⟩ := List.cons.inj hvalues
      exact ⟨⟨r.1, r.2, hr, hv⟩, ⟨rs.1, rs.2, hrs, hvs⟩⟩
    · rintro ⟨⟨w, accessed, hw, hv⟩, ⟨ws, accesseds, hws, hvs⟩⟩
      refine ⟨w :: ws, accessed ++ accesseds, ?_, congrArg₂ List.cons hv hvs⟩
      rw [convertAll, hw, hws]
      rfl

theorem swapSymbols_append {ps : Text} (h : ps.length % 2 = 0) (qs : Text) :
    swapSymbols (ps ++ qs) = swapSymbols ps ++ swapSymbols qs := by
  induction ps using swapSymbols.induct with
  | case1 a b rest ih =>
    simp only [List.length_cons] at h
    simp only [List.cons_append, swapSymbols, ih (by omega)]
  | case2 rest hrest =>
    rcases rest with _ | ⟨a, _ | ⟨b, rest⟩⟩
    · rfl
    · exact absurd h (by simp)
    · exact absurd rfl (hrest a b rest)

/-- **A wide string of equal pairs is kept** if its last byte, which is in a pair with the zero
behind the string, is a zero. -/
theorem keeps_wstring_iff {storage : Text} (h : swapSymbols storage = storage) :
    Keeps (swapEntry (swapPlain 8)) (.wstring storage) ↔ Kept (.wstring storage) := by
  have hkeeps : Keeps (swapEntry (swapPlain 8)) (.wstring storage) ↔
      ∃ accessed, swapWString storage = some (storage, accessed) := by
    constructor
    · rintro ⟨w, accessed, hw, hvalue⟩
      obtain ⟨r, hr, heq⟩ := Option.map_eq_some_iff.mp hw
      obtain ⟨rfl, -⟩ := Prod.mk.inj heq
      obtain rfl : r.1 = storage := ValueTree.wstring.inj hvalue
      exact ⟨r.2, hr⟩
    · rintro ⟨accessed, haccessed⟩
      refine ⟨.wstring storage, accessed, ?_, rfl⟩
      rw [swapEntry, haccessed]
      rfl
  rw [hkeeps, Kept]
  rcases Nat.lt_or_ge storage.length 65535 with hlen | hlen
  · rcases Nat.mod_two_eq_zero_or_one storage.length with heven | hodd
    · refine iff_of_true ⟨[], ?_⟩ ⟨hlen, fun hodd => absurd heven (by omega)⟩
      rw [swapWString_of_whole ⟨by omega, heven⟩, h]
    · -- the last byte is by itself
      obtain ⟨ps, a, rfl⟩ : ∃ ps a, storage = ps ++ [a] := by
        have hne : storage ≠ [] := List.ne_nil_of_length_pos (by omega)
        exact ⟨storage.dropLast, storage.getLast hne, (List.dropLast_append_getLast hne).symm⟩
      have heven : ps.length % 2 = 0 := by simp at hodd; omega
      have hps : swapSymbols ps = ps := by
        rw [swapSymbols_append heven] at h
        exact List.append_cancel_right h
      have hswapped : swapSymbols (ps ++ [a] ++ [0]) = (ps ++ [0]) ++ [a] := by
        rw [List.append_assoc, swapSymbols_append heven, hps, List.append_assoc]
        rfl
      have htake : (swapSymbols (ps ++ [a] ++ [0])).take (ps ++ [a]).length = ps ++ [0] := by
        rw [hswapped]
        exact List.take_left' (by simp)
      rw [swapWString_of_odd hodd hlen, htake]
      simp only [List.getLast?_append, List.getLast?_singleton, Option.some_or, hlen, hodd,
        true_and, true_implies, Option.some.injEq, Prod.mk.injEq, List.append_cancel_left_eq,
        List.cons.injEq, and_true]
      exact ⟨fun ⟨_, hzero, _⟩ => hzero.symm, fun hzero => ⟨_, hzero.symm, rfl⟩⟩
  · rw [swapWString_of_long hlen]
    exact iff_of_false (fun ⟨_, hnone⟩ => absurd hnone (by simp)) fun ⟨hlt, _⟩ => by omega

/-- What is the same in both byte orders is kept where the conversion is right. -/
theorem keeps_of_swappable {v : Datum} (h : v.value.reversed = v.value)
    (hv : SwappableInplace v) : Keeps (swapEntry (swapPlain 8)) v := by
  obtain ⟨w, hw, hvalue, -⟩ := swapEntry_of_swappable v hv
  exact ⟨w, [], hw, hvalue.trans h⟩

/-- The values in a list are the same in both byte orders, if the list is. -/
theorem reversed_eq_of_reversedEach {vs : List Datum}
    (h : ValueTree.reversedEach (Datum.values vs) = Datum.values vs) :
    ∀ v ∈ vs, v.value.reversed = v.value := by
  rw [reversedEach_eq_map, values_eq_map, List.map_map] at h
  exact List.map_inj_left.mp h

/-- **A conversion in place keeps exactly the values it is said to**, of those that are the same
in both byte orders. -/
theorem keeps_iff (v : Datum) (h : v.value.reversed = v.value) :
    Keeps (swapEntry (swapPlain 8)) v ↔ Kept v := by
  induction v with
  | wstring storage => exact keeps_wstring_iff (ValueTree.wstring.inj h)
  | array lowerBound es ih =>
    have heach := reversed_eq_of_reversedEach (ValueTree.array.inj h).2
    have hall : (∀ v ∈ es, Keeps (swapEntry (swapPlain 8)) v) ↔ AllKept es := by
      rw [allKept_iff]
      exact forall₂_congr fun v hv => ih v hv (heach v hv)
    rw [Kept, ← hall, ← convertAll_keeps_iff, Keeps, swapEntry, swapLDate, swapEntries_eq]
    split_ifs with hbound
    · exact iff_of_false (fun ⟨_, _, hnone, _⟩ => absurd hnone (by simp)) fun hne => hne.1 hbound
    · constructor
      · rintro ⟨w, accessed, hw, hvalue⟩
        obtain ⟨r, hr, heq⟩ := Option.map_eq_some_iff.mp hw
        obtain ⟨rfl, -⟩ := Prod.mk.inj heq
        exact ⟨hbound, r.1, r.2, hr, (ValueTree.array.inj hvalue).2⟩
      · rintro ⟨-, ws, accessed, hws, hvalues⟩
        refine ⟨.array lowerBound ws, accessed, ?_, congrArg (ValueTree.array lowerBound) hvalues⟩
        rw [hws]
        rfl
  | struct name names ms ih =>
    have heach := reversed_eq_of_reversedEach (ValueTree.struct.inj h).2.2
    have hall : (∀ v ∈ ms, Keeps (swapEntry (swapPlain 8)) v) ↔ AllKept ms := by
      rw [allKept_iff]
      exact forall₂_congr fun v hv => ih v hv (heach v hv)
    rw [Kept, ← hall, ← convertAll_keeps_iff, Keeps, swapEntry, swapLTime, swapEntries_eq]
    constructor
    · rintro ⟨w, accessed, hw, hvalue⟩
      obtain ⟨r, hr, heq⟩ := Option.map_eq_some_iff.mp hw
      obtain ⟨rfl, -⟩ := Prod.mk.inj heq
      exact ⟨r.1, r.2, hr, (ValueTree.struct.inj hvalue).2.2⟩
    · rintro ⟨ws, accessed, hws, hvalues⟩
      refine ⟨.struct name names ws, accessed, ?_, congrArg (ValueTree.struct name names) hvalues⟩
      rw [hws]
      rfl
  | _ => exact iff_of_true (keeps_of_swappable h trivial) trivial

end Forte
