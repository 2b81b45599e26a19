import Mathlib.Data.List.Forall2
import Forte.Datatypes.Endianess

/-!
# The data of the Modbus layer

The values of a Modbus client are sent and received as the bytes of their types, one behind the
other. In values of more than 16 bits the order of the registers is reversed, by the same function
on both sides, and so what is sent is received (`Forte.Modbus.receiveFrom_convertDataInput`).

A receiver may have more variables than have been sent. `convertFBOutput` returns zero where less
bytes are left than it needs. But how many are left is computed as an unsigned difference, which
is large again as soon as a variable begins behind the last received byte, and from then on the
variables get what has been left in the buffer, or what is behind it
(`Forte.Modbus.confined_iff`).
-/

namespace Forte

namespace Modbus

/-! ### Sending -/

/-- The bytes of a value as they are in memory, from the most significant one on in the argument,
and back. -/
def inMemory (littleEndian : Bool) (bytes : List UInt8) : List UInt8 :=
  if littleEndian then bytes.reverse else bytes

/-- The 16 bit packages of an array in reverse order. -/
def swapPackages (bytes : List UInt8) : List UInt8 :=
  let nrUint16s := bytes.length / 2
  (List.range nrUint16s).flatMap fun i => (bytes.drop (2 * (nrUint16s - 1 - i))).take 2

/-- `convertFBOutput`, with the bytes in memory of the value that is returned. There is no result
if it reads from outside of the array. -/
def convertFBOutput (currentDataSize : ℕ) (paDataArray : List UInt8) (paDataSize : ℕ) :
    Option (List UInt8) :=
  if currentDataSize ≤ paDataSize then
    if currentDataSize ≤ paDataArray.length then
      if currentDataSize > 2 then some (swapPackages (paDataArray.take currentDataSize))
      else some (paDataArray.take currentDataSize)
    else none
  else some (List.replicate currentDataSize 0)

/-- The sizes of the data types that the layer knows. -/
def sizeOf? : Datum → Option ℕ
  | .number t _ => some t.dataSize
  | .real t _ => some t.dataSize
  | _ => none

/-- The bytes in memory of a value. -/
def valueBytes (littleEndian : Bool) : Datum → List UInt8
  | .number t data => inMemory littleEndian (t.dataBytes data)
  | .real t data => inMemory littleEndian (beBytes t.dataSize data.toNat)
  | _ => []

/-- One case of `convertDataInput`. -/
def convertValue (littleEndian : Bool) (anyVal : Datum) : Option (List UInt8) :=
  match sizeOf? anyVal with
  | none => some []
  | some size =>
    let out := valueBytes littleEndian anyVal
    if size ≤ 2 then some out else convertFBOutput size out size

/-- `convertDataInput`. -/
def convertDataInput (littleEndian : Bool) (apoSDs : List Datum) : Option (List UInt8) :=
  (apoSDs.mapM fun v => convertValue littleEndian v.unwrap).map List.flatten

/-! ### Receiving -/

/-- The assignment of a value with some bytes in memory to what a variable holds. -/
def assign (littleEndian : Bool) (bytes : List UInt8) : Datum → Datum
  | .number t _ => .number t (t.setTyped (ofBeBytes (inMemory littleEndian bytes)))
  | .real t _ => .real t (BitVec.ofNat 64 (ofBeBytes (inMemory littleEndian bytes)))
  | .any inner => .any (assign littleEndian bytes inner)
  | v => v

/-- The loop of `processInterrupt`. -/
def receiveFrom (littleEndian : Bool) (mRecvBuffer : List UInt8) (mBufFillSize : BitVec 32) :
    BitVec 32 → List Datum → Option (List Datum)
  | _, [] => some []
  | dataIndex, v :: vs =>
    match sizeOf? v.unwrap with
    | none => (receiveFrom littleEndian mRecvBuffer mBufFillSize dataIndex vs).map (v :: ·)
    | some size =>
      (convertFBOutput size (mRecvBuffer.drop dataIndex.toNat)
          (mBufFillSize - dataIndex).toNat).bind fun bytes =>
        (receiveFrom littleEndian mRecvBuffer mBufFillSize (dataIndex + BitVec.ofNat 32 size)
          vs).map (assign littleEndian bytes v :: ·)

/-- `processInterrupt` of a connected layer, for data that has been received. -/
def processInterrupt (littleEndian : Bool) (mRecvBuffer : List UInt8) (mBufFillSize : BitVec 32)
    (apoRDs : List Datum) : Option (List Datum) :=
  receiveFrom littleEndian mRecvBuffer mBufFillSize 0 apoRDs

/-! ### What is asked of sending and receiving -/

/-- Two variables of one of the types of the layer. -/
inductive SameType : Datum → Datum → Prop
  | number (t : IntegralType) (data data' : BitVec 64) : SameType (.number t data) (.number t data')
  | real (t : RealType) (data data' : BitVec 64) : SameType (.real t data) (.real t data')

/-- Two variables of one type and with one value. -/
inductive SameValue : Datum → Datum → Prop
  | number (t : IntegralType) {data data' : BitVec 64}
      (h : t.typedValue data = t.typedValue data') : SameValue (.number t data) (.number t data')
  | real (t : RealType) {data data' : BitVec 64}
      (h : data.setWidth t.layout.1 = data'.setWidth t.layout.1) :
      SameValue (.real t data) (.real t data')

/-- How many bytes are received into variables. -/
def bytesOf (apoRDs : List Datum) : ℕ := (apoRDs.map fun v => (sizeOf? v.unwrap).getD 0).sum

/-- What the layer writes into a variable that has not been received. -/
def IsZero : Datum → Prop
  | .number _ data => data = 0
  | .real _ data => data = 0
  | _ => True

/-- **What is asked of receiving** into variables, with a number of bytes received into a buffer:
a variable whose bytes have not all been received is zero, and what else is in the buffer does not
matter. -/
structure Confined (littleEndian : Bool) (cgIPLayerRecvBufferSize : ℕ) (mBufFillSize : BitVec 32)
    (apoRDs : List Datum) : Prop where
  zero : ∀ mRecvBuffer : List UInt8, mRecvBuffer.length = cgIPLayerRecvBufferSize →
    ∃ received, processInterrupt littleEndian mRecvBuffer mBufFillSize apoRDs = some received ∧
      ∀ i v size, received[i]? = some v → sizeOf? v.unwrap = some size →
        mBufFillSize.toNat < bytesOf (received.take i) + size → IsZero v.unwrap
  same : ∀ mRecvBuffer mRecvBuffer' : List UInt8,
    mRecvBuffer.length = cgIPLayerRecvBufferSize → mRecvBuffer'.length = cgIPLayerRecvBufferSize →
    mRecvBuffer.take mBufFillSize.toNat = mRecvBuffer'.take mBufFillSize.toNat →
    processInterrupt littleEndian mRecvBuffer mBufFillSize apoRDs =
      processInterrupt littleEndian mRecvBuffer' mBufFillSize apoRDs

/-- **No variable begins behind the last byte** that has been received. -/
def Begun (mBufFillSize : BitVec 32) (apoRDs : List Datum) : Prop :=
  ∀ i v, apoRDs[i]? = some v → (sizeOf? v.unwrap).isSome →
    bytesOf (apoRDs.take i) ≤ mBufFillSize.toNat

/-! ### One value -/

theorem inMemory_inMemory (littleEndian : Bool) (bytes : List UInt8) :
    inMemory littleEndian (inMemory littleEndian bytes) = bytes := by
  cases littleEndian with
  | false => rfl
  | true => exact List.reverse_reverse bytes

theorem length_inMemory (littleEndian : Bool) (bytes : List UInt8) :
    (inMemory littleEndian bytes).length = bytes.length := by
  cases littleEndian with
  | false => rfl
  | true => exact List.length_reverse

theorem isDataSize_of_sizeOf? {v : Datum} {size : ℕ} (h : sizeOf? v = some size) :
    IsDataSize size := by
  cases v with
  | number t data => exact Option.some.inj h ▸ t.isDataSize
  | real t data =>
    obtain rfl := Option.some.inj h
    cases t <;> simp [IsDataSize, RealType.dataSize]
  | _ => cases h

theorem length_valueBytes {littleEndian : Bool} {v : Datum} {size : ℕ} (h : sizeOf? v = some size) :
    (valueBytes littleEndian v).length = size := by
  cases v with
  | number t data =>
    rw [valueBytes, length_inMemory, t.length_dataBytes]
    exact Option.some.inj h
  | real t data =>
    rw [valueBytes, length_inMemory, length_beBytes]
    exact Option.some.inj h
  | _ => exact absurd h nofun

theorem swapPackages_four (b0 b1 b2 b3 : UInt8) :
    swapPackages [b0, b1, b2, b3] = [b2, b3, b0, b1] := by
  simp [swapPackages, List.range, List.range.loop]

theorem swapPackages_eight (b0 b1 b2 b3 b4 b5 b6 b7 : UInt8) :
    swapPackages [b0, b1, b2, b3, b4, b5, b6, b7] = [b6, b7, b4, b5, b2, b3, b0, b1] := by
  simp [swapPackages, List.range, List.range.loop]

/-- **Swapping twice** restores the order of the packages. -/
theorem swapPackages_swapPackages {bytes : List UInt8} (h : IsDataSize bytes.length)
    (hlong : 2 < bytes.length) :
    (swapPackages bytes).length = bytes.length ∧ swapPackages (swapPackages bytes) = bytes := by
  obtain h | h | h | h := h
  · omega
  · omega
  · match bytes, h with
    | [b0, b1, b2, b3], _ =>
      rw [swapPackages_four, swapPackages_four]
      exact ⟨rfl, rfl⟩
  · match bytes, h with
    | [b0, b1, b2, b3, b4, b5, b6, b7], _ =>
      rw [swapPackages_eight, swapPackages_eight]
      exact ⟨rfl, rfl⟩

/-- The value that is read from bytes in memory that have been converted. -/
theorem convertFBOutput_append {bytes : List UInt8} {size paDataSize : ℕ}
    (hlength : bytes.length = size) (h : size ≤ paDataSize) (rest : List UInt8) :
    convertFBOutput size (bytes ++ rest) paDataSize =
      some (if size > 2 then swapPackages bytes else bytes) := by
  rw [convertFBOutput, if_pos h, if_pos (by rw [List.length_append]; omega),
    List.take_left' hlength]
  split <;> rfl

/-- **One value** that has been sent is received, whatever is behind it. -/
theorem convertFBOutput_convertValue {littleEndian : Bool} {v : Datum} {size : ℕ}
    (hsize : sizeOf? v = some size) :
    ∃ bytes, convertValue littleEndian v = some bytes ∧ bytes.length = size ∧
      ∀ (rest : List UInt8) (paDataSize : ℕ), size ≤ paDataSize →
        convertFBOutput size (bytes ++ rest) paDataSize = some (valueBytes littleEndian v) := by
  have hlength := @length_valueBytes littleEndian v size hsize
  rw [convertValue, hsize]
  dsimp only
  split
  · rename_i hshort
    refine ⟨_, rfl, hlength, fun rest paDataSize h => ?_⟩
    rw [convertFBOutput_append hlength h, if_neg (by omega)]
  · rename_i hlong
    have hswap := swapPackages_swapPackages (hlength.symm ▸ isDataSize_of_sizeOf? hsize)
      (by omega : 2 < (valueBytes littleEndian v).length)
    have hconvert := convertFBOutput_append hlength le_rfl []
    rw [List.append_nil, if_pos (by omega)] at hconvert
    refine ⟨_, hconvert, hswap.1.trans hlength, fun rest paDataSize h => ?_⟩
    rw [convertFBOutput_append (hswap.1.trans hlength) h, if_pos (by omega), hswap.2]

/-- The numbers of a type are told apart by their bytes. -/
theorem typedValue_setTyped_dataBytes (t : IntegralType) (data : BitVec 64) :
    t.typedValue (t.setTyped (ofBeBytes (t.dataBytes data))) = t.typedValue data := by
  by_cases hbool : t = .bool
  · subst hbool
    by_cases hdata : data = 0
    · subst hdata
      decide
    · have hvalue : IntegralType.bool.typedValue data = 1 := by
        rw [IntegralType.typedValue, if_pos rfl, if_pos hdata]
      rw [IntegralType.dataBytes, hvalue]
      decide
  · have hpow := IntegralType.pow_dataSize hbool
    have hpos : (0 : ℤ) < 2 ^ t.bitLength := by positivity
    have hbytes : (ofBeBytes (t.dataBytes data) : ℤ) = t.typedValue data % 2 ^ t.bitLength := by
      have hnonneg := Int.emod_nonneg (t.typedValue data) hpos.ne'
      have hless := Int.emod_lt_of_pos (t.typedValue data) hpos
      rw [IntegralType.dataBytes, hpow, ofBeBytes_beBytes_of_lt, Int.toNat_of_nonneg hnonneg]
      zify
      rw [Int.toNat_of_nonneg hnonneg, hpow]
      exact hless
    have hmod := IntegralType.typedValue_setTyped hbool (ofBeBytes (t.dataBytes data))
    rw [hbytes, Int.emod_emod] at hmod
    rw [hbytes]
    have hbefore := t.typedValue_mem data
    have hafter := t.typedValue_mem (t.setTyped (t.typedValue data % 2 ^ t.bitLength))
    have hrange : t.maxVal - t.minVal < 2 ^ t.bitLength := by cases t <;> decide
    refine Int.sub_eq_zero.mp (Int.eq_zero_of_abs_lt_dvd
      (Int.dvd_of_emod_eq_zero (Int.emod_eq_emod_iff_emod_sub_eq_zero.mp hmod)) ?_)
    rw [abs_lt]
    omega

/-- The bytes of a value make that value again. -/
theorem sameValue_assign (littleEndian : Bool) {v v' : Datum} (h : SameType v v') :
    SameValue v (assign littleEndian (valueBytes littleEndian v) v') := by
  cases h with
  | number t data data' =>
    refine .number t ?_
    rw [valueBytes, inMemory_inMemory, typedValue_setTyped_dataBytes]
  | real t data data' =>
    refine .real t ?_
    have hpow : 256 ^ t.dataSize = 2 ^ t.layout.1 := by cases t <;> rfl
    have hle : t.layout.1 ≤ 64 := by cases t <;> decide
    have hdvd : 2 ^ t.layout.1 ∣ 2 ^ 64 := Nat.pow_dvd_pow 2 hle
    rw [valueBytes, inMemory_inMemory, ofBeBytes_beBytes, hpow]
    refine BitVec.eq_of_toNat_eq ?_
    rw [BitVec.toNat_setWidth, BitVec.toNat_setWidth, BitVec.toNat_ofNat, Nat.mod_mod_of_dvd _ hdvd,
      Nat.mod_mod]

theorem SameType.exists_sizeOf? {v v' : Datum} (h : SameType v v') :
    ∃ size, sizeOf? v = some size ∧ sizeOf? v' = some size := by
  cases h with
  | number t data data' => exact ⟨_, rfl, rfl⟩
  | real t data data' => exact ⟨_, rfl, rfl⟩

theorem convertDataInput_cons {littleEndian : Bool} {v : Datum} {vs : List Datum}
    {first bytes : List UInt8} (hfirst : convertValue littleEndian v.unwrap = some first)
    (hbytes : convertDataInput littleEndian vs = some bytes) :
    convertDataInput littleEndian (v :: vs) = some (first ++ bytes) := by
  obtain ⟨rest, hrest, rfl⟩ := Option.map_eq_some_iff.mp hbytes
  rw [convertDataInput, List.mapM_cons, hfirst, hrest]
  rfl

/-! ### The loop -/

section

variable {littleEndian : Bool} {mRecvBuffer mRecvBuffer' : List UInt8} {mBufFillSize : BitVec 32}

theorem unwrap_assign (bytes : List UInt8) (v : Datum) :
    (assign littleEndian bytes v).unwrap = assign littleEndian bytes v.unwrap := by
  induction v with
  | any inner ih => exact ih
  | _ => rfl

theorem sizeOf?_assign (bytes : List UInt8) (v : Datum) :
    sizeOf? (assign littleEndian bytes v) = sizeOf? v := by
  cases v <;> rfl

theorem bytesOf_cons (v : Datum) (vs : List Datum) :
    bytesOf (v :: vs) = (sizeOf? v.unwrap).getD 0 + bytesOf vs := by
  rw [bytesOf, List.map_cons, List.sum_cons, bytesOf]

/-- The bytes that are left, as they are computed. -/
theorem toNat_left {dataIndex : ℕ} (h : dataIndex ≤ mBufFillSize.toNat) :
    (mBufFillSize - BitVec.ofNat 32 dataIndex).toNat = mBufFillSize.toNat - dataIndex := by
  have hlt := mBufFillSize.isLt
  rw [BitVec.toNat_sub, BitVec.toNat_ofNat]
  omega

/-- **Behind the last byte** many bytes seem to be left. -/
theorem eight_le_left {dataIndex : ℕ} (h : mBufFillSize.toNat < dataIndex)
    (hle : dataIndex ≤ mBufFillSize.toNat + 8) :
    8 ≤ (mBufFillSize - BitVec.ofNat 32 dataIndex).toNat := by
  have hlt := mBufFillSize.isLt
  rw [BitVec.toNat_sub, BitVec.toNat_ofNat]
  omega

theorem receiveFrom_of_size {dataIndex size : ℕ} {v : Datum} {vs : List Datum}
    (h : sizeOf? v.unwrap = some size) :
    receiveFrom littleEndian mRecvBuffer mBufFillSize (BitVec.ofNat 32 dataIndex) (v :: vs) =
      (convertFBOutput size (mRecvBuffer.drop (BitVec.ofNat 32 dataIndex).toNat)
          (mBufFillSize - BitVec.ofNat 32 dataIndex).toNat).bind fun bytes =>
        (receiveFrom littleEndian mRecvBuffer mBufFillSize (BitVec.ofNat 32 (dataIndex + size))
          vs).map (assign littleEndian bytes v :: ·) := by
  rw [receiveFrom, h, BitVec.ofNat_add]

theorem receiveFrom_of_none {dataIndex : ℕ} {v : Datum} {vs : List Datum}
    (h : sizeOf? v.unwrap = none) :
    receiveFrom littleEndian mRecvBuffer mBufFillSize (BitVec.ofNat 32 dataIndex) (v :: vs) =
      (receiveFrom littleEndian mRecvBuffer mBufFillSize (BitVec.ofNat 32 dataIndex) vs).map
        (v :: ·) := by
  rw [receiveFrom, h]

/-- The variables that have been received, from a position of the buffer on. -/
def ZeroFrom (mBufFillSize dataIndex : ℕ) (received : List Datum) : Prop :=
  ∀ i v size, received[i]? = some v → sizeOf? v.unwrap = some size →
    mBufFillSize < dataIndex + bytesOf (received.take i) + size → IsZero v.unwrap

theorem zeroFrom_cons_iff {mBufFillSize dataIndex : ℕ} {v : Datum} {vs : List Datum} :
    ZeroFrom mBufFillSize dataIndex (v :: vs) ↔
      (∀ size, sizeOf? v.unwrap = some size → mBufFillSize < dataIndex + size →
        IsZero v.unwrap) ∧
      ZeroFrom mBufFillSize (dataIndex + (sizeOf? v.unwrap).getD 0) vs := by
  constructor
  · refine fun h => ⟨fun size hsize hless => h 0 v size rfl hsize hless,
      fun i w size hw hsize hless => h (i + 1) w size hw hsize ?_⟩
    rw [List.take_succ_cons, bytesOf_cons]
    omega
  · rintro ⟨hfirst, hrest⟩ i w size hw hsize hless
    cases i with
    | zero =>
      obtain rfl : v = w := Option.some.inj hw
      exact hfirst size hsize hless
    | succ i =>
      rw [List.take_succ_cons, bytesOf_cons] at hless
      exact hrest i w size hw hsize (by omega)

/-- No variable begins behind the last byte, from a position on. -/
def BegunFrom (mBufFillSize dataIndex : ℕ) (apoRDs : List Datum) : Prop :=
  ∀ i v, apoRDs[i]? = some v → (sizeOf? v.unwrap).isSome →
    dataIndex + bytesOf (apoRDs.take i) ≤ mBufFillSize

theorem begunFrom_cons_iff {mBufFillSize dataIndex : ℕ} {v : Datum} {vs : List Datum} :
    BegunFrom mBufFillSize dataIndex (v :: vs) ↔
      ((sizeOf? v.unwrap).isSome → dataIndex ≤ mBufFillSize) ∧
      BegunFrom mBufFillSize (dataIndex + (sizeOf? v.unwrap).getD 0) vs := by
  constructor
  · refine fun h => ⟨fun hsize => h 0 v rfl hsize, fun i w hw hsize => ?_⟩
    have hle := h (i + 1) w hw hsize
    rw [List.take_succ_cons, bytesOf_cons] at hle
    omega
  · rintro ⟨hfirst, hrest⟩ i w hw hsize
    cases i with
    | zero =>
      obtain rfl : v = w := Option.some.inj hw
      exact hfirst hsize
    | succ i =>
      have hle := hrest i w hw hsize
      rw [List.take_succ_cons, bytesOf_cons]
      omega

/-- A variable that begins in time. -/
theorem convertFBOutput_of_begun {dataIndex fill : ℕ} (hle : dataIndex ≤ fill)
    (hfill : fill ≤ mRecvBuffer.length) (hlength : mRecvBuffer'.length = mRecvBuffer.length)
    (hsame : mRecvBuffer.take fill = mRecvBuffer'.take fill) (size : ℕ) :
    ∃ bytes, convertFBOutput size (mRecvBuffer.drop dataIndex) (fill - dataIndex) = some bytes ∧
      convertFBOutput size (mRecvBuffer'.drop dataIndex) (fill - dataIndex) = some bytes ∧
      (fill < dataIndex + size → bytes = List.replicate size 0) := by
  by_cases hsize : size ≤ fill - dataIndex
  · have htake : (mRecvBuffer.drop dataIndex).take size =
        (mRecvBuffer'.drop dataIndex).take size := by
      have hdrop := congrArg (fun bytes => (bytes.drop dataIndex).take size) hsame
      rwa [List.drop_take, List.drop_take, List.take_take, List.take_take, min_eq_left hsize]
        at hdrop
    have hin : size ≤ (mRecvBuffer.drop dataIndex).length := by
      rw [List.length_drop]
      omega
    have hin' : size ≤ (mRecvBuffer'.drop dataIndex).length := by
      rw [List.length_drop]
      omega
    rw [convertFBOutput, if_pos hsize, if_pos hin, convertFBOutput, if_pos hsize, if_pos hin',
      htake]
    split
    · exact ⟨_, rfl, rfl, fun hless => by omega⟩
    · exact ⟨_, rfl, rfl, fun hless => by omega⟩
  · rw [convertFBOutput, if_neg hsize, convertFBOutput, if_neg hsize]
    exact ⟨_, rfl, rfl, fun _ => rfl⟩

theorem isZero_assign {v : Datum} {size : ℕ} (h : sizeOf? v = some size) :
    IsZero (assign littleEndian (List.replicate size 0) v) := by
  cases v with
  | number t data =>
    obtain rfl := Option.some.inj h
    change t.setTyped (ofBeBytes (inMemory littleEndian (List.replicate t.dataSize 0))) = 0
    cases t <;> cases littleEndian <;> rfl
  | real t data =>
    obtain rfl := Option.some.inj h
    change BitVec.ofNat 64 (ofBeBytes (inMemory littleEndian (List.replicate t.dataSize 0))) = 0
    cases t <;> cases littleEndian <;> rfl
  | _ => exact absurd h nofun

/-- **What is received into variables that all begin in time**: there is a result, the variables
without all of their bytes are zero, and the result is the same for another buffer with these
bytes. -/
theorem receiveFrom_of_begun {apoRDs : List Datum} {dataIndex : ℕ}
    (hfill : mBufFillSize.toNat ≤ mRecvBuffer.length)
    (hlength : mRecvBuffer'.length = mRecvBuffer.length)
    (hsame : mRecvBuffer.take mBufFillSize.toNat = mRecvBuffer'.take mBufFillSize.toNat)
    (h : BegunFrom mBufFillSize.toNat dataIndex apoRDs) :
    ∃ received,
      receiveFrom littleEndian mRecvBuffer mBufFillSize (BitVec.ofNat 32 dataIndex) apoRDs =
        some received ∧
      receiveFrom littleEndian mRecvBuffer' mBufFillSize (BitVec.ofNat 32 dataIndex) apoRDs =
        some received ∧
      ZeroFrom mBufFillSize.toNat dataIndex received := by
  induction apoRDs generalizing dataIndex with
  | nil => exact ⟨[], rfl, rfl, fun _ _ _ h => absurd h (by simp)⟩
  | cons v vs ih =>
    obtain ⟨hfirst, hrest⟩ := begunFrom_cons_iff.mp h
    obtain ⟨received, hreceived, hreceived', hzero⟩ := ih hrest
    cases hsize : sizeOf? v.unwrap with
    | none =>
      rw [hsize] at hreceived hreceived' hzero
      refine ⟨v :: received, ?_, ?_, zeroFrom_cons_iff.mpr ⟨?_, ?_⟩⟩
      · rw [receiveFrom_of_none hsize]
        exact congrArg (Option.map (v :: ·)) hreceived
      · rw [receiveFrom_of_none hsize]
        exact congrArg (Option.map (v :: ·)) hreceived'
      · intro size hsome
        exact absurd (hsize.symm.trans hsome) nofun
      · rw [hsize]
        exact hzero
    | some size =>
      rw [hsize] at hreceived hreceived' hzero hfirst
      have hle := hfirst rfl
      have hindex : (BitVec.ofNat 32 dataIndex).toNat = dataIndex :=
        Nat.mod_eq_of_lt (lt_of_le_of_lt hle mBufFillSize.isLt)
      obtain ⟨bytes, hbytes, hbytes', hshort⟩ :=
        convertFBOutput_of_begun hle hfill hlength hsame size
      refine ⟨assign littleEndian bytes v :: received, ?_, ?_, zeroFrom_cons_iff.mpr ⟨?_, ?_⟩⟩
      · rw [receiveFrom_of_size hsize, hindex, toNat_left hle, hbytes]
        exact congrArg (Option.map _) hreceived
      · rw [receiveFrom_of_size hsize, hindex, toNat_left hle, hbytes']
        exact congrArg (Option.map _) hreceived'
      · intro size' hsome hless
        rw [unwrap_assign, sizeOf?_assign, hsize] at hsome
        obtain rfl := Option.some.inj hsome
        rw [unwrap_assign, hshort hless]
        exact isZero_assign hsize
      · rw [unwrap_assign, sizeOf?_assign, hsize]
        exact hzero

theorem not_isZero_assign {v : Datum} {size : ℕ} (h : sizeOf? v = some size) :
    ¬IsZero (assign littleEndian (List.replicate size 255) v) := by
  cases v with
  | number t data =>
    obtain rfl := Option.some.inj h
    change ¬t.setTyped (ofBeBytes (inMemory littleEndian (List.replicate t.dataSize 255))) = 0
    cases t <;> cases littleEndian <;> decide
  | real t data =>
    obtain rfl := Option.some.inj h
    change ¬BitVec.ofNat 64 (ofBeBytes (inMemory littleEndian (List.replicate t.dataSize 255))) = 0
    cases t <;> cases littleEndian <;> decide
  | _ => exact absurd h nofun

theorem eq_replicate_of_convertFBOutput {size n k paDataSize : ℕ} {bytes : List UInt8}
    (hsize : IsDataSize size) (hle : size ≤ paDataSize)
    (h : convertFBOutput size ((List.replicate n 255).drop k) paDataSize = some bytes) :
    bytes = List.replicate size 255 := by
  rw [convertFBOutput, if_pos hle, List.drop_replicate, List.length_replicate] at h
  split at h
  · rename_i hin
    rw [List.take_replicate, min_eq_left hin] at h
    split at h
    · rw [← Option.some.inj h]
      obtain rfl | rfl | rfl | rfl := hsize
      · omega
      · omega
      · exact swapPackages_four 255 255 255 255
      · exact swapPackages_eight 255 255 255 255 255 255 255 255
    · exact (Option.some.inj h).symm
  · exact absurd h nofun

/-- **A variable that begins behind the last byte** takes what is in the buffer, or what is behind
it. The induction goes up to the first such variable, which begins less than one value behind. -/
theorem not_zeroFrom_of_not_begun {apoRDs : List Datum} {dataIndex n : ℕ}
    (hle : dataIndex ≤ mBufFillSize.toNat + 8)
    (h : ¬BegunFrom mBufFillSize.toNat dataIndex apoRDs) :
    ¬∃ received,
      receiveFrom littleEndian (List.replicate n 255) mBufFillSize (BitVec.ofNat 32 dataIndex)
        apoRDs = some received ∧ ZeroFrom mBufFillSize.toNat dataIndex received := by
  induction apoRDs generalizing dataIndex with
  | nil => exact absurd (fun _ _ h => absurd h (by simp)) h
  | cons v vs ih =>
    rintro ⟨received, hreceived, hzero⟩
    rw [begunFrom_cons_iff] at h
    cases hsize : sizeOf? v.unwrap with
    | none =>
      rw [hsize] at h
      rw [receiveFrom_of_none hsize] at hreceived
      obtain ⟨rest, hrest, rfl⟩ := Option.map_eq_some_iff.mp hreceived
      obtain ⟨-, hzero⟩ := zeroFrom_cons_iff.mp hzero
      rw [hsize] at hzero
      exact ih hle (fun hbegun => h ⟨nofun, hbegun⟩) ⟨rest, hrest, hzero⟩
    | some size =>
      rw [hsize] at h
      rw [receiveFrom_of_size hsize] at hreceived
      obtain ⟨bytes, hbytes, hreceived⟩ := Option.bind_eq_some_iff.mp hreceived
      obtain ⟨rest, hrest, rfl⟩ := Option.map_eq_some_iff.mp hreceived
      obtain ⟨hfirst, hzero⟩ := zeroFrom_cons_iff.mp hzero
      rw [unwrap_assign, sizeOf?_assign, hsize] at hfirst hzero
      have hsize' := (isDataSize_of_sizeOf? hsize).le
      by_cases hbegun : dataIndex ≤ mBufFillSize.toNat
      · exact @ih (dataIndex + size) (by omega) (fun hbegun' => h ⟨fun _ => hbegun, hbegun'⟩)
          ⟨rest, hrest, hzero⟩
      · have hleft := eight_le_left (not_le.mp hbegun) hle
        obtain rfl := eq_replicate_of_convertFBOutput (isDataSize_of_sizeOf? hsize)
          (hsize'.trans hleft) hbytes
        exact not_isZero_assign hsize (hfirst size rfl (by omega))

theorem confined_iff {cgIPLayerRecvBufferSize : ℕ}
    (hfill : mBufFillSize.toNat ≤ cgIPLayerRecvBufferSize) (apoRDs : List Datum) :
    Confined littleEndian cgIPLayerRecvBufferSize mBufFillSize apoRDs ↔
      Begun mBufFillSize apoRDs := by
  have hbegun : BegunFrom mBufFillSize.toNat 0 apoRDs ↔ Begun mBufFillSize apoRDs := by
    rw [BegunFrom, Begun]
    simp only [Nat.zero_add]
  have hzero : ∀ received, ZeroFrom mBufFillSize.toNat 0 received ↔
      ∀ i v size, received[i]? = some v → sizeOf? v.unwrap = some size →
        mBufFillSize.toNat < bytesOf (received.take i) + size → IsZero v.unwrap := by
    intro received
    rw [ZeroFrom]
    simp only [Nat.zero_add]
  rw [← hbegun]
  constructor
  · intro h
    by_contra hnot
    obtain ⟨received, hreceived, hall⟩ :=
      h.zero (List.replicate cgIPLayerRecvBufferSize 255) List.length_replicate
    exact not_zeroFrom_of_not_begun (Nat.zero_le _) hnot
      ⟨received, hreceived, (hzero received).mpr hall⟩
  · intro h
    constructor
    · intro mRecvBuffer hlength
      obtain ⟨received, hreceived, -, hall⟩ :=
        receiveFrom_of_begun (hlength.symm ▸ hfill) rfl rfl h
      exact ⟨received, hreceived, (hzero received).mp hall⟩
    · intro mRecvBuffer mRecvBuffer' hlength hlength' hsame
      obtain ⟨received, hreceived, hreceived', -⟩ :=
        receiveFrom_of_begun (hlength.symm ▸ hfill) (hlength'.trans hlength.symm) hsame h
      exact hreceived.trans hreceived'.symm

/-- **What is sent is received**, by induction on the values. -/
theorem receiveFrom_convertDataInput {apoSDs apoRDs : List Datum}
    (h : List.Forall₂ (fun v v' => SameType v.unwrap v'.unwrap) apoSDs apoRDs) :
    ∃ bytes, convertDataInput littleEndian apoSDs = some bytes ∧
      ∀ (mRecvBuffer rest : List UInt8) (mBufFillSize : BitVec 32) (dataIndex : ℕ),
        mRecvBuffer.drop dataIndex = bytes ++ rest →
        dataIndex + bytes.length ≤ mBufFillSize.toNat →
        ∃ received,
          receiveFrom littleEndian mRecvBuffer mBufFillSize (BitVec.ofNat 32 dataIndex) apoRDs =
            some received ∧
          List.Forall₂ (fun v v' => SameValue v.unwrap v'.unwrap) apoSDs received := by
  induction h with
  | nil => exact ⟨[], rfl, fun _ _ _ _ _ _ => ⟨[], rfl, .nil⟩⟩
  | @cons v v' vs vs' hsame _ ih =>
    obtain ⟨bytes, hbytes, hreceive⟩ := ih
    obtain ⟨size, hsize, hsize'⟩ := hsame.exists_sizeOf?
    obtain ⟨first, hfirst, hlength, hconvert⟩ :=
      @convertFBOutput_convertValue littleEndian _ _ hsize
    refine ⟨first ++ bytes, convertDataInput_cons hfirst hbytes, ?_⟩
    intro mRecvBuffer rest mBufFillSize dataIndex hdrop hfill
    rw [List.length_append, hlength] at hfill
    have hle : dataIndex ≤ mBufFillSize.toNat := by omega
    have hindex : (BitVec.ofNat 32 dataIndex).toNat = dataIndex :=
      Nat.mod_eq_of_lt (lt_of_le_of_lt hle mBufFillSize.isLt)
    have hrest : mRecvBuffer.drop (dataIndex + size) = bytes ++ rest := by
      rw [← List.drop_drop, hdrop, List.append_assoc, List.drop_left' hlength]
    obtain ⟨received, hreceived, hvalues⟩ :=
      hreceive mRecvBuffer rest mBufFillSize (dataIndex + size) hrest (by omega)
    refine ⟨assign littleEndian (valueBytes littleEndian v.unwrap) v' :: received, ?_,
      .cons ?_ hvalues⟩
    · rw [receiveFrom_of_size hsize', hindex, toNat_left hle, hdrop, List.append_assoc,
        hconvert _ _ (by omega)]
      exact congrArg (Option.map _) hreceived
    · rw [unwrap_assign]
      exact sameValue_assign littleEndian hsame

end

/-- **Values that are sent are received into variables of their types**, and what is received into
variables is confined to the received bytes exactly if none of them begins behind the last one. -/
theorem restores_and_confined_iff (littleEndian : Bool) :
    (∀ apoSDs apoRDs : List Datum,
      List.Forall₂ (fun v v' => SameType v.unwrap v'.unwrap) apoSDs apoRDs →
      ∃ bytes, convertDataInput littleEndian apoSDs = some bytes ∧
        ∀ (rest : List UInt8) (mBufFillSize : BitVec 32), mBufFillSize.toNat = bytes.length →
          ∃ received, processInterrupt littleEndian (bytes ++ rest) mBufFillSize apoRDs =
              some received ∧
            List.Forall₂ (fun v v' => SameValue v.unwrap v'.unwrap) apoSDs received) ∧
      ∀ (cgIPLayerRecvBufferSize : ℕ) (mBufFillSize : BitVec 32) (apoRDs : List Datum),
        mBufFillSize.toNat ≤ cgIPLayerRecvBufferSize →
        (Confined littleEndian cgIPLayerRecvBufferSize mBufFillSize apoRDs ↔
          Begun mBufFillSize apoRDs) := by
  refine ⟨fun apoSDs apoRDs h => ?_, fun _ _ apoRDs hfill => confined_iff hfill apoRDs⟩
  obtain ⟨bytes, hbytes, hreceive⟩ := @receiveFrom_convertDataInput littleEndian _ _ h
  refine ⟨bytes, hbytes, fun rest mBufFillSize hfill => ?_⟩
  exact hreceive (bytes ++ rest) rest mBufFillSize 0 rfl (by omega)

/-- A `DINT` that is sent, and a `DINT` for which one byte has been received. -/
theorem restores_dint :
    (∃ bytes, convertDataInput true [.number .dint 5] = some bytes ∧
      ∀ (rest : List UInt8) (mBufFillSize : BitVec 32), mBufFillSize.toNat = bytes.length →
        ∃ received, processInterrupt true (bytes ++ rest) mBufFillSize [.number .dint 0] =
            some received ∧
          List.Forall₂ (fun v v' : Datum => SameValue v.unwrap v'.unwrap) [.number .dint 5]
            received) ∧
      (Confined true 100 1 [.number .dint 0] ↔ Begun 1 [.number .dint 0]) :=
  ⟨(restores_and_confined_iff true).1 [.number .dint 5] [.number .dint 0]
      (.cons (SameType.number .dint 5 0) .nil),
    (restores_and_confined_iff true).2 100 1 _ (by decide)⟩

/-- With one received byte, the second `INT` is what has been in the buffer before. -/
theorem not_confined_stale : ¬Confined true 100 1 [.number .int 0, .number .int 0] := by
  rw [confined_iff (by decide)]
  intro h
  exact absurd (h 1 _ rfl rfl) (by decide)

end Modbus

end Forte
