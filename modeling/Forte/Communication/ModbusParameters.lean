import Forte.Communication.ComStack
import Forte.Communication.ParameterParser
import Forte.Datatypes.NumberScanning
import Forte.Lib.Separated

/-!
# The parameters of a Modbus client

`processClientParams` reads the parameters of a client: how the device is reached, a slave id, a
poll frequency, the addresses that are read and those that are written, and timeouts, all with
colons between them. The addresses are a list with commas, and each entry of it is one address or
the first and the last one of a range, behind a letter for the kind.

The texts are copied into buffers of a fixed size and the entries into arrays of a hundred
(`Forte.Modbus.Buffer`, `Forte.Modbus.AddrRanges`), and only the device and the address of the host
are cut off where they are too long.

* **A list that is written is read** as it has been written, as long as its numbers are below
  `2 ^ 32` (`Forte.Modbus.readsAll_iff`).
* **The buffers are large enough** for the texts that are in `Forte.Modbus.Fits`, and for no others
  (`Forte.Modbus.overflows_iff`).
-/

namespace Forte

namespace Modbus

/-! ### Buffers -/

/-- Why there are no parameters: -1 has been returned, or something has been written behind the
end of a buffer. -/
inductive Failure
  | invalid | overflow
  deriving DecidableEq, Repr

/-- A buffer of characters with the terminated text in it. -/
structure Buffer (size : ℕ) where
  text : Text
  length_lt : text.length < size

namespace Buffer

variable {size : ℕ}

/-- `strcpy`. -/
def strcpy (src : Text) : Except Failure (Buffer size) :=
  if h : src.length < size then .ok ⟨src, h⟩ else .error .overflow

/-- `strcat`. -/
def strcat (dest : Buffer size) (src : Text) : Except Failure (Buffer size) :=
  strcpy (dest.text ++ src)

/-- `strncpy` with the size of the buffer, and a zero into its last character. -/
def strncpy (src : Text) (h : 0 < size) : Buffer size :=
  ⟨src.take (size - 1), by rw [List.length_take]; omega⟩

end Buffer

/-- `EModbusFunction`. -/
inductive EModbusFunction
  | discreteInput | coil | inputRegister | holdingRegister
  deriving DecidableEq, Repr

/-- `EModbusFlowControl`. -/
inductive EModbusFlowControl
  | none | rs485 | arduino | delay | longDelay
  deriving DecidableEq, Repr

/-- `SAddrRange`. -/
structure SAddrRange where
  mFunction : EModbusFunction
  mStartAddress : BitVec 32
  mNrAddresses : BitVec 32
  deriving DecidableEq, Repr

/-- `mRead` or `mSend`, as far as it has been written. -/
structure AddrRanges where
  ranges : List SAddrRange
  length_le : ranges.length ≤ 100

/-- The next element of `mRead` or `mSend` is written. -/
def AddrRanges.store (a : AddrRanges) (range : SAddrRange) : Except Failure AddrRanges :=
  if h : a.ranges.length < 100 then
    .ok ⟨a.ranges ++ [range], by rw [List.length_append, List.length_singleton]; omega⟩
  else .error .overflow

/-! ### Addresses -/

/-- A number as it is stored in an `unsigned int`. -/
def toUnsigned (t : Text) : BitVec 32 := (Scanner.strtoul.convert 10 t).value.setWidth 32

/-- A number as it is stored in an `int`. -/
def toInt (t : Text) : BitVec 32 := (Scanner.strtol.convert 10 t).value.setWidth 32

/-- `decodeFunction`, with the index behind the letter. -/
def decodeFunction (paParam : Text) (strIndex : ℕ) (paDefaultFunction : EModbusFunction) :
    EModbusFunction × ℕ :=
  let c := paParam.at strIndex
  if c = 'd'.toUInt8 ∨ c = 'D'.toUInt8 then (.discreteInput, strIndex + 1)
  else if c = 'c'.toUInt8 ∨ c = 'C'.toUInt8 then (.coil, strIndex + 1)
  else if c = 'i'.toUInt8 ∨ c = 'I'.toUInt8 then (.inputRegister, strIndex + 1)
  else if c = 'h'.toUInt8 ∨ c = 'H'.toUInt8 then (.holdingRegister, strIndex + 1)
  else (paDefaultFunction, strIndex)

/-- The characters with which a list may begin. -/
def startsAddress (c : UInt8) : Bool := isDigit c || (text "cCdDhHiI").contains c

/-- `findNextStartAddress`. A text has fewer characters than an `int` can count. -/
def findNextStartAddress (paParam : Text) (paStartIndex : ℕ) : Option ℕ :=
  if paStartIndex = 0 ∧ startsAddress (paParam.at paStartIndex) then some paStartIndex
  else
    let strLength := (paParam.drop paStartIndex).length
    match (paParam.drop paStartIndex).idxOf? ','.toUInt8 with
    | some pch => if pch + 1 < strLength then some (paStartIndex + pch + 1) else none
    | none => none

/-- `findNextStopAddress`. -/
def findNextStopAddress (paParam : Text) (paStartIndex : ℕ) : ℕ :=
  let strLength := (paParam.drop paStartIndex).length
  match (paParam.drop paStartIndex).idxOf? ','.toUInt8,
    (paParam.drop paStartIndex).idxOf? '.'.toUInt8 with
  | some pchComma, some pchDot =>
    if pchDot < pchComma ∧ pchDot + 2 < strLength then paStartIndex + pchDot + 2
    else paStartIndex
  | none, some pchDot =>
    if pchDot + 2 < strLength then paStartIndex + pchDot + 2 else paStartIndex
  | _, none => paStartIndex

/-- The addresses that are read from the start of an entry on, and the index that is reached. -/
def addressAt (addresses : Text) (strIndex : ℕ) : SAddrRange × ℕ :=
  let decoded := decodeFunction addresses strIndex .holdingRegister
  let mStartAddress := toUnsigned (addresses.drop decoded.2)
  let strIndex := findNextStopAddress addresses decoded.2
  ({ mFunction := decoded.1
     mStartAddress := mStartAddress
     mNrAddresses := toUnsigned (addresses.drop strIndex) - mStartAddress + 1 }, strIndex)

theorem le_addressAt (addresses : Text) (strIndex : ℕ) :
    strIndex ≤ (addressAt addresses strIndex).2 := by
  have hdecode : strIndex ≤ (decodeFunction addresses strIndex .holdingRegister).2 := by
    rw [decodeFunction]
    split_ifs <;> simp
  have hstop (i : ℕ) : i ≤ findNextStopAddress addresses i := by
    rw [findNextStopAddress]
    split
    · split_ifs <;> omega
    · split_ifs <;> omega
    · exact le_rfl
  exact hdecode.trans (hstop _)

theorem le_of_findNextStartAddress {addresses : Text} {next start : ℕ}
    (h : findNextStartAddress addresses next = some start) : next ≤ start := by
  rw [findNextStartAddress] at h
  split at h
  · exact (Option.some.inj h).le
  · dsimp only at h
    split at h
    · split at h
      · have hstart := Option.some.inj h
        omega
      · exact absurd h nofun
    · exact absurd h nofun

/-- The loop over the addresses that are read, and the one over those that are written, from the
index behind `strIndex` on. -/
def addressLoop (addresses : Text) (next : ℕ) (ranges : AddrRanges) :
    Except Failure AddrRanges :=
  if next < addresses.length then
    match hstart : findNextStartAddress addresses next with
    | none => .ok ranges
    | some start =>
      (ranges.store (addressAt addresses start).1).bind fun ranges =>
        addressLoop addresses ((addressAt addresses start).2 + 1) ranges
  else .ok ranges
termination_by addresses.length - next
decreasing_by
  have hle := le_of_findNextStartAddress hstart
  have hread := le_addressAt addresses start
  omega

/-- The loop from the beginning. -/
def readAddresses (addresses : Text) : Except Failure AddrRanges :=
  addressLoop addresses 0 ⟨[], Nat.zero_le _⟩

/-! ### The parameters -/

/-- `STcpParams`. -/
structure STcpParams where
  mIp : Buffer 16
  mPort : BitVec 32

/-- `SRtuParams`. -/
structure SRtuParams where
  mDevice : Buffer 256
  mBaud : BitVec 32
  mParity : UInt8
  mDataBit : BitVec 32
  mStopBit : BitVec 32
  mFlowControl : EModbusFlowControl

/-- `SCommonParams`. -/
structure SCommonParams where
  mPollFrequency : BitVec 64
  mSlaveId : BitVec 32
  mRead : AddrRanges
  mSend : AddrRanges
  mResponseTimeout : BitVec 32
  mByteTimeout : BitVec 32

/-- What is read of the parameters. -/
structure ClientParams where
  tcpParams : STcpParams
  rtuParams : SRtuParams
  commonParams : SCommonParams
  idString : Buffer 256

/-- The text up to the next colon, and behind it. -/
def nextField (chrStorage : Text) : Except Failure (Text × Text) :=
  match chrStorage.idxOf? ':'.toUInt8 with
  | some i => .ok (chrStorage.take i, chrStorage.drop (i + 1))
  | none => .error .invalid

/-- `atol`, for a number of 64 bits. -/
def atol (t : Text) : BitVec 64 :=
  let number : Text := t.dropWhile isspace
  let negative := number.at 0 = '-'.toUInt8
  let digits : Text := if negative ∨ number.at 0 = '+'.toUInt8 then number.drop 1 else number
  let value : ℤ := numeral 10 0 (digits.takeWhile isDigit)
  BitVec.ofInt 64 (if negative then -value else value)

/-- `isIp`. -/
def isIp (paIp : Text) : Bool :=
  let parts := (paIp.splitOn '.'.toUInt8).filter (· ≠ [])
  parts.all (fun pch => pch.length ≤ 3 && pch.all isDigit) && parts.length = 4

/-- The flow control, on a system other than Windows. -/
def flowControl (flow : Text) : EModbusFlowControl :=
  if flow = text "arduino" then .arduino
  else if flow = text "delay" then .delay
  else if flow = text "longdelay" ∨ flow = text "delay5" then .longDelay
  else .none

/-- The structures as they are cleared by `openConnection`. -/
def STcpParams.cleared : STcpParams where
  mIp := ⟨[], by decide⟩
  mPort := 0

def SRtuParams.cleared : SRtuParams where
  mDevice := ⟨[], by decide⟩
  mBaud := 0
  mParity := 0
  mDataBit := 0
  mStopBit := 0
  mFlowControl := .none

/-- The parameters of a serial connection, with the identification and the text behind them. -/
def rtuParams (chrStorage : Text) : Except Failure (SRtuParams × Buffer 256 × Text) := do
  let (device, chrStorage) ← nextField chrStorage
  let paIdString ← Buffer.strcpy (text "rtu:")
  let paIdString ← paIdString.strcat device
  let mBaud := toInt chrStorage
  let (_, chrStorage) ← nextField chrStorage
  let mParity := chrStorage.at 0
  let reuseConnection := chrStorage.at 0 = ':'.toUInt8
  let (_, chrStorage) ← nextField chrStorage
  let mDataBit := toInt chrStorage
  let reuseConnection := reuseConnection ∨ chrStorage.at 0 = 0
  let (_, chrStorage) ← nextField chrStorage
  let mStopBit := toInt chrStorage
  let reuseConnection := reuseConnection ∨ chrStorage.at 0 = 0
  let (_, chrStorage) ← nextField chrStorage
  let (flow, chrStorage) ← nextField chrStorage
  let mDevice : Buffer 256 := if reuseConnection then ⟨[], by decide⟩
    else Buffer.strncpy device (by decide)
  return (⟨mDevice, mBaud, mParity, mDataBit, mStopBit, flowControl flow⟩, paIdString, chrStorage)

/-- The parameters of a connection over IP, from the address and the text behind it. -/
def tcpParams (params chrStorage : Text) : Except Failure (STcpParams × Buffer 256 × Text) := do
  if isIp params then
    let paIdString ← Buffer.strcpy (text "tcp:")
    let paIdString ← paIdString.strcat params
    let paIdString ← paIdString.strcat (text ":")
    let mPort := toUnsigned chrStorage
    let reuseConnection := chrStorage.at 0 = 0
    let (port, chrStorage) ← nextField chrStorage
    let paIdString ← paIdString.strcat port
    let mIp : Buffer 16 := if reuseConnection then ⟨[], by decide⟩
      else Buffer.strncpy params (by decide)
    return (⟨mIp, mPort⟩, paIdString, chrStorage)
  else .error .invalid

/-- The timeouts, which may be missing. -/
def timeouts : Option Text → BitVec 32 × BitVec 32
  | none => (0, 0)
  | some chrStorage =>
    match nextField chrStorage with
    | .ok (_, behind) => (toUnsigned chrStorage, toUnsigned behind)
    | .error _ => (toUnsigned chrStorage, 0)

/-- The parameters that all clients have. -/
def commonParams (defaultSlaveId : BitVec 32) (chrStorage : Text) :
    Except Failure SCommonParams := do
  let (chrSlave, chrStorage) ← nextField chrStorage
  let mSlaveId := if chrSlave = [] then defaultSlaveId else toUnsigned chrSlave
  let (pollFrequency, chrStorage) ← nextField chrStorage
  let mPollFrequency := atol pollFrequency
  let (read, chrStorage) ← nextField chrStorage
  let mRead ← readAddresses read
  let (write, chrStorage) := match nextField chrStorage with
    | .ok (write, behind) => (write, some behind)
    | .error _ => (chrStorage, none)
  let mSend ← readAddresses write
  if mRead.ranges = [] ∧ mSend.ranges = [] then .error .invalid
  else
    return ⟨mPollFrequency, mSlaveId, mRead, mSend, (timeouts chrStorage).1,
      (timeouts chrStorage).2⟩

/-- `processClientParams`. The slave id is not set by default where the kind is missing, and then
it is what is on the stack. -/
def processClientParams (onStack : BitVec 32) (paLayerParams : Text) :
    Except Failure ClientParams := do
  let (params, chrStorage) ← nextField paLayerParams
  if params = text "rtu" ∨ params = text "RTU" then
    let (rtu, idString, chrStorage) ← rtuParams chrStorage
    let common ← commonParams 1 chrStorage
    return ⟨.cleared, rtu, common, idString⟩
  else if params = text "tcp" ∨ params = text "TCP" then
    let (params, chrStorage) ← nextField chrStorage
    let (tcp, idString, chrStorage) ← tcpParams params chrStorage
    let common ← commonParams 0xFF chrStorage
    return ⟨tcp, .cleared, common, idString⟩
  else
    let (tcp, idString, chrStorage) ← tcpParams params chrStorage
    let common ← commonParams onStack chrStorage
    return ⟨tcp, .cleared, common, idString⟩

/-! ### What is asked -/

/-- An entry of a list: the letter of a function, as a capital one or not, and the first and the
last address of a range, or one address. -/
structure Entry where
  letter : Option (EModbusFunction × Bool)
  start : ℕ
  stop : Option ℕ
  start_le : ∀ address ∈ stop, start ≤ address

namespace Entry

variable (e : Entry)

/-- The letter of a function. -/
def letterOf : EModbusFunction → Bool → UInt8
  | .discreteInput, capital => if capital then 'D'.toUInt8 else 'd'.toUInt8
  | .coil, capital => if capital then 'C'.toUInt8 else 'c'.toUInt8
  | .inputRegister, capital => if capital then 'I'.toUInt8 else 'i'.toUInt8
  | .holdingRegister, capital => if capital then 'H'.toUInt8 else 'h'.toUInt8

/-- The address behind the two dots, with them. -/
def stopText : Option ℕ → Text
  | none => []
  | some address => '.'.toUInt8 :: '.'.toUInt8 :: decimalDigits address

/-- The text of an entry. -/
def text : Text :=
  (e.letter.map fun (function, capital) => letterOf function capital).toList ++
    (decimalDigits e.start ++ stopText e.stop)

/-- The function, which is that of a holding register by default. -/
def function : EModbusFunction := (e.letter.map Prod.fst).getD .holdingRegister

/-- The last address. -/
def last : ℕ := e.stop.getD e.start

/-- The numbers of the entry are numbers of 32 bits. -/
def Representable : Prop := e.last < 2 ^ 32 ∧ e.last - e.start + 1 < 2 ^ 32

end Entry

/-- The text of a list. -/
def render : List Entry → Text
  | [] => []
  | e :: es => e.text ++ es.flatMap fun e => ','.toUInt8 :: e.text

/-- **What is asked of a range** that is read for an entry. -/
structure Reads (e : Entry) (range : SAddrRange) : Prop where
  function : range.mFunction = e.function
  start : range.mStartAddress.toNat = e.start
  number : range.mNrAddresses.toNat = e.last - e.start + 1

/-- **What is asked of reading a list**: there are exactly its entries. -/
def ReadsAll (es : List Entry) : Prop :=
  ∃ a, readAddresses (render es) = .ok a ∧ List.Forall₂ Reads es a.ranges

/-! ### How many entries a text has -/

/-- The function of a letter. -/
def functionOf (c : UInt8) : Option EModbusFunction :=
  if c = 'd'.toUInt8 ∨ c = 'D'.toUInt8 then some .discreteInput
  else if c = 'c'.toUInt8 ∨ c = 'C'.toUInt8 then some .coil
  else if c = 'i'.toUInt8 ∨ c = 'I'.toUInt8 then some .inputRegister
  else if c = 'h'.toUInt8 ∨ c = 'H'.toUInt8 then some .holdingRegister
  else none

/-- The text without the letter of a function. -/
def behindLetter (t : Text) : Text := if (functionOf (t.at 0)).isSome then t.drop 1 else t

/-- The text from the first comma or dot on. -/
def fromMark (t : Text) : Text := t.dropWhile fun c => c ≠ ','.toUInt8 ∧ c ≠ '.'.toUInt8

/-- The text behind the characters that belong to an entry in any case: its first one, or if there
is a dot with two more characters in front of the next comma, all up to these. -/
def behindNumber (t : Text) : Text :=
  if (fromMark t).at 0 = '.'.toUInt8 ∧ 2 < (fromMark t).length then (fromMark t).drop 3
  else t.drop 1

/-- The text from the next comma on. -/
def fromComma (t : Text) : Text := t.dropWhile (· ≠ ','.toUInt8)

/-- The text behind the characters that belong to an entry in any case, with its letter. -/
def behindEntry (t : Text) : Text := behindNumber (behindLetter t)

theorem length_fromMark_le (t : Text) : (fromMark t).length ≤ t.length :=
  (List.dropWhile_suffix _).length_le

theorem length_fromComma_le (t : Text) : (fromComma t).length ≤ t.length :=
  (List.dropWhile_suffix _).length_le

theorem length_behindEntry_le (t : Text) : (behindEntry t).length ≤ t.length := by
  have hletter : (behindLetter t).length ≤ t.length := by
    rw [behindLetter]
    split
    · rw [List.length_drop]
      omega
    · exact le_rfl
  have hmark := length_fromMark_le (behindLetter t)
  rw [behindEntry, behindNumber]
  split
  · rw [List.length_drop]
    omega
  · rw [List.length_drop]
    omega

/-- How many more entries there are behind an entry: one begins behind the next comma, unless that
is the last character. -/
def further (t : Text) : ℕ :=
  if h : 1 < (fromComma t).length then further (behindEntry ((fromComma t).drop 1)) + 1 else 0
termination_by t.length
decreasing_by
  have hentry := length_behindEntry_le ((fromComma t).drop 1)
  have hcomma := length_fromComma_le t
  rw [List.length_drop] at hentry
  omega

/-- **How many entries a text has**: the first one begins with the text, or behind a comma. -/
def entryCount (t : Text) : ℕ :=
  if startsAddress (t.at 0) then further (behindEntry t) + 1 else further t

/-! ### Texts that fit -/

/-- From the slave id on: each of the two lists has at most a hundred entries. -/
def CommonFits : List Text → Prop
  | _ :: _ :: read :: write :: _ => entryCount read ≤ 100 ∧ entryCount write ≤ 100
  | _ => True

/-- From the parity on, with four fields in front of the slave id. -/
def SettingsFit : List Text → Prop
  | _ :: _ :: _ :: _ :: common => CommonFits common
  | _ => True

/-- From the device on: with what is in front of it and its terminator it takes 256 characters. -/
def RtuFits : List Text → Prop
  | device :: _ :: settings => device.length ≤ 251 ∧ SettingsFit settings
  | _ => True

/-- From the address of the host on: it takes no more characters, and if something is behind the
port then neither do both of them. -/
def TcpFits : List Text → Prop
  | ip :: port :: common => isIp ip → ip.length ≤ 250 ∧
    (common ≠ [] → ip.length + port.length ≤ 250 ∧ CommonFits common)
  | _ => True

/-- **The texts of parameters that fit** into the buffers. -/
def Fits (t : Text) : Prop :=
  match t.splitOn ':'.toUInt8 with
  | [] => True
  | kind :: fields =>
    if kind = text "rtu" ∨ kind = text "RTU" then RtuFits fields
    else if kind = text "tcp" ∨ kind = text "TCP" then TcpFits fields
    else TcpFits (kind :: fields)

/-! ### The steps of the loop -/

section Steps

variable {t u front rest : Text} {c c' : UInt8} {i : ℕ}

theorem idxOf?_append_cons (h : c ∉ front) :
    (front ++ c :: rest).idxOf? c = some front.length := by
  rw [List.idxOf?_eq_some_iff]
  refine ⟨by rw [List.length_append, List.length_cons]; omega, ?_, fun j hj hget => h ?_⟩
  · rw [List.getElem_append_right le_rfl]
    simp
  · rw [List.getElem_append_left hj] at hget
    exact hget ▸ List.getElem_mem hj

/-- Another character comes later. -/
theorem lt_of_idxOf?_append_cons (h : c' ∉ front) (hne : c ≠ c') {k : ℕ}
    (hk : (front ++ c :: rest).idxOf? c' = some k) : front.length < k := by
  obtain ⟨hlt, hget, -⟩ := List.idxOf?_eq_some_iff.mp hk
  by_contra hle
  rcases Nat.lt_or_eq_of_le (not_lt.mp hle) with hless | heq
  · rw [List.getElem_append_left hless] at hget
    exact h (hget ▸ List.getElem_mem hless)
  · subst heq
    rw [List.getElem_append_right le_rfl] at hget
    exact hne (by simpa using hget)

theorem decodeFunction_eq (t : Text) (i : ℕ) (paDefaultFunction : EModbusFunction) :
    decodeFunction t i paDefaultFunction =
      ((functionOf (t.at i)).getD paDefaultFunction,
        if (functionOf (t.at i)).isSome then i + 1 else i) := by
  rw [decodeFunction, functionOf]
  split_ifs <;> simp_all

theorem at_drop (t : Text) (i : ℕ) : Text.at (t.drop i) 0 = t.at i := by
  rw [Text.at, Text.at, List.getD_eq_getElem?_getD, List.getD_eq_getElem?_getD,
    List.getElem?_drop, Nat.add_zero]

/-- Behind the letter. -/
theorem drop_decodeFunction (t : Text) (i : ℕ) (paDefaultFunction : EModbusFunction) :
    t.drop (decodeFunction t i paDefaultFunction).2 = behindLetter (t.drop i) := by
  rw [decodeFunction_eq, behindLetter, at_drop]
  split
  · rw [List.drop_drop]
  · rfl

/-- A text is cut at its first mark. -/
theorem exists_eq_append_fromMark (t : Text) :
    ∃ front : Text, t = front ++ fromMark t ∧ ','.toUInt8 ∉ front ∧ '.'.toUInt8 ∉ front ∧
      (fromMark t = [] ∨ (∃ rest, fromMark t = ','.toUInt8 :: rest) ∨
        ∃ rest, fromMark t = '.'.toUInt8 :: rest) := by
  have hfront : ∀ c ∈ t.takeWhile (fun c => c ≠ ','.toUInt8 ∧ c ≠ '.'.toUInt8),
      c ≠ ','.toUInt8 ∧ c ≠ '.'.toUInt8 :=
    fun c hc => of_decide_eq_true (@List.mem_takeWhile_imp _
      (fun c => decide (c ≠ ','.toUInt8 ∧ c ≠ '.'.toUInt8)) _ _ hc)
  refine ⟨_, (List.takeWhile_append_dropWhile ..).symm, fun h => (hfront _ h).1 rfl,
    fun h => (hfront _ h).2 rfl, ?_⟩
  cases hmark : fromMark t with
  | nil => exact .inl rfl
  | cons c rest =>
    have hhead := List.head?_dropWhile_not (fun c => decide (c ≠ ','.toUInt8 ∧ c ≠ '.'.toUInt8)) t
    rw [← fromMark, hmark] at hhead
    by_cases hcomma : c = ','.toUInt8
    · exact .inr (.inl ⟨rest, hcomma ▸ rfl⟩)
    · refine .inr (.inr ⟨rest, ?_⟩)
      by_contra hdot
      simp_all

/-- **The index of the last address**, in the text from the first one on. -/
theorem findNextStopAddress_eq (hfront : u = front ++ fromMark u) (hcomma : ','.toUInt8 ∉ front)
    (hdot : '.'.toUInt8 ∉ front) (hmark : fromMark u = [] ∨
      (∃ rest, fromMark u = ','.toUInt8 :: rest) ∨ ∃ rest, fromMark u = '.'.toUInt8 :: rest)
    (hu : t.drop i = u) :
    findNextStopAddress t i =
      if (fromMark u).at 0 = '.'.toUInt8 ∧ 2 < (fromMark u).length then i + front.length + 2
      else i := by
  have hlength : u.length = front.length + (fromMark u).length := by
    conv_lhs => rw [hfront]
    exact List.length_append
  rw [findNextStopAddress, hu]
  rcases hmark with hmark | ⟨rest, hmark⟩ | ⟨rest, hmark⟩
  · rw [hmark, List.append_nil] at hfront
    subst hfront
    rw [List.idxOf?_eq_none_iff.mpr hcomma, List.idxOf?_eq_none_iff.mpr hdot, hmark]
    rfl
  · rw [hmark] at hfront
    have hne : ¬((fromMark u).at 0 = '.'.toUInt8 ∧ 2 < (fromMark u).length) := by
      rw [hmark]
      exact fun h => absurd h.1 (by rw [Text.at_cons_zero]; decide)
    rw [if_neg hne, hfront, idxOf?_append_cons hcomma]
    cases hat : (front ++ ','.toUInt8 :: rest).idxOf? '.'.toUInt8 with
    | none => rfl
    | some k =>
      have hlt := lt_of_idxOf?_append_cons hdot (by decide) hat
      exact if_neg fun h => absurd h.1 (not_lt.mpr hlt.le)
  · rw [hmark] at hfront
    have hiff : (fromMark u).at 0 = '.'.toUInt8 ∧ 2 < (fromMark u).length ↔
        front.length + 2 < u.length := by
      rw [hlength, hmark, Text.at_cons_zero, eq_self, true_and]
      omega
    have hat : u.idxOf? '.'.toUInt8 = some front.length := by
      rw [hfront, idxOf?_append_cons hdot]
    rw [hat]
    simp only [hiff]
    cases hat' : u.idxOf? ','.toUInt8 with
    | none => rfl
    | some k =>
      rw [hfront] at hat'
      have hlt := lt_of_idxOf?_append_cons hcomma (by decide) hat'
      simp only [hlt, true_and]

/-- **Behind an entry** the loop goes on behind the characters that belong to it. -/
theorem drop_addressAt (t : Text) (i : ℕ) :
    t.drop ((addressAt t i).2 + 1) = behindEntry (t.drop i) := by
  obtain ⟨front, hfront, hcomma, hdot, hmark⟩ :=
    exists_eq_append_fromMark (behindLetter (t.drop i))
  have hstop := findNextStopAddress_eq hfront hcomma hdot hmark
    (drop_decodeFunction t i .holdingRegister)
  change t.drop (findNextStopAddress t (decodeFunction t i .holdingRegister).2 + 1) = _
  rw [hstop, behindEntry, behindNumber]
  split
  · rw [Nat.add_assoc, Nat.add_assoc, ← List.drop_drop, drop_decodeFunction,
      ← List.drop_drop (i := 3)]
    congr 1
    conv_lhs => rw [hfront]
    exact List.drop_left
  · rw [← List.drop_drop, drop_decodeFunction]

theorem fromComma_eq_of_not_mem (h : ','.toUInt8 ∉ front) :
    fromComma (front ++ rest) = fromComma rest := by
  rw [fromComma, List.dropWhile_append_of_pos]
  · rfl
  · intro c hc
    exact decide_eq_true fun hne => h (hne ▸ hc)

/-- **The index of the next entry**, where the list does not begin with it. -/
theorem findNextStartAddress_spec (hnot : ¬(i = 0 ∧ startsAddress (t.at i) = true)) :
    (1 < (fromComma (t.drop i)).length → ∃ start, findNextStartAddress t i = some start ∧
      i < start ∧ t.drop start = (fromComma (t.drop i)).drop 1) ∧
    (¬1 < (fromComma (t.drop i)).length → findNextStartAddress t i = none) := by
  rw [findNextStartAddress, if_neg hnot]
  cases hcomma : (t.drop i).idxOf? ','.toUInt8 with
  | none =>
    have hnone : fromComma (t.drop i) = [] := by
      rw [fromComma, List.dropWhile_eq_nil_iff]
      intro c hc
      exact decide_eq_true fun hne => List.idxOf?_eq_none_iff.mp hcomma (hne ▸ hc)
    rw [hnone]
    exact ⟨fun h => absurd h (by decide), fun _ => rfl⟩
  | some pch =>
    obtain ⟨hcut, hbefore⟩ := Separated.cut_of_idxOf? hcomma
    have hfrom : fromComma (t.drop i) = ','.toUInt8 :: (t.drop i).drop (pch + 1) := by
      conv_lhs => rw [hcut]
      rw [fromComma_eq_of_not_mem hbefore]
      rfl
    have hlt := Separated.lt_length hcomma
    rw [hfrom, List.length_cons, List.length_drop]
    constructor
    · intro h
      refine ⟨i + pch + 1, if_pos (by omega), by omega, ?_⟩
      rw [List.drop_drop, Nat.add_assoc]
      rfl
    · intro h
      exact if_neg (by omega)

/-! ### The loop -/

theorem addressLoop_of_le {next : ℕ} (h : t.length ≤ next) (ranges : AddrRanges) :
    addressLoop t next ranges = .ok ranges := by
  rw [addressLoop, if_neg (not_lt.mpr h)]

theorem addressLoop_of_none {next : ℕ} (h : findNextStartAddress t next = none)
    (ranges : AddrRanges) : addressLoop t next ranges = .ok ranges := by
  rw [addressLoop]
  split
  · split
    · rfl
    · rename_i hstart
      exact absurd (h.symm.trans hstart) nofun
  · rfl

/-- **One round of the loop.** -/
theorem addressLoop_of_some {next start : ℕ} (hlt : next < t.length)
    (h : findNextStartAddress t next = some start) (ranges : AddrRanges) :
    addressLoop t next ranges = (ranges.store (addressAt t start).1).bind fun ranges =>
      addressLoop t ((addressAt t start).2 + 1) ranges := by
  rw [addressLoop, if_pos hlt]
  split
  · rename_i hnone
    exact absurd (hnone.symm.trans h) nofun
  · rename_i start' hstart
    obtain rfl := Option.some.inj (h.symm.trans hstart)
    rfl

/-- **How the loop ends**, from behind an entry on, by induction on what is left: it overflows
exactly if there are too many entries. -/
theorem addressLoop_spec {next : ℕ} (hnext : ¬(next = 0 ∧ startsAddress (t.at next) = true))
    (ranges : AddrRanges) :
    (ranges.ranges.length + further (t.drop next) ≤ 100 →
      ∃ a, addressLoop t next ranges = .ok a) ∧
    (100 < ranges.ranges.length + further (t.drop next) →
      addressLoop t next ranges = .error .overflow) := by
  induction hn : t.length - next using Nat.strong_induction_on generalizing next ranges with
  | _ n ih =>
    by_cases hmore : 1 < (fromComma (t.drop next)).length
    · obtain ⟨start, hstart, hless, hdrop⟩ := findNextStartAddress_spec hnext |>.1 hmore
      have hlength := length_fromComma_le (t.drop next)
      rw [List.length_drop] at hlength
      have hread := le_addressAt t start
      have hfurther : further (t.drop next) =
          further (t.drop ((addressAt t start).2 + 1)) + 1 := by
        rw [further, dif_pos hmore, drop_addressAt, hdrop]
      rw [addressLoop_of_some (by omega) hstart, AddrRanges.store, hfurther]
      split
      · obtain ⟨hok, hoverflow⟩ := ih (t.length - ((addressAt t start).2 + 1)) (by omega)
          (fun h => Nat.succ_ne_zero _ h.1) ⟨ranges.ranges ++ [(addressAt t start).1], _⟩ rfl
        rw [List.length_append, List.length_singleton, Nat.succ_eq_add_one] at hok hoverflow
        exact ⟨fun h => hok (by omega), fun h => hoverflow (by omega)⟩
      · exact ⟨fun h => by omega, fun _ => rfl⟩
    · have hfurther : further (t.drop next) = 0 := by
        rw [further, dif_neg hmore]
      have hle := ranges.length_le
      rw [addressLoop_of_none (findNextStartAddress_spec hnext |>.2 hmore), hfurther]
      exact ⟨fun _ => ⟨_, rfl⟩, fun h => by omega⟩

/-- The first round, where the text begins with an entry. -/
theorem readAddresses_of_starts (h : startsAddress (t.at 0) = true) :
    ∃ a : AddrRanges, a.ranges = [(addressAt t 0).1] ∧
      readAddresses t = addressLoop t ((addressAt t 0).2 + 1) a := by
  have hstart : findNextStartAddress t 0 = some 0 := if_pos ⟨rfl, h⟩
  have hpos : 0 < t.length := by
    cases t with
    | nil => exact absurd h (by decide)
    | cons c t => exact Nat.succ_pos _
  refine ⟨⟨[(addressAt t 0).1], ?_⟩, rfl, ?_⟩
  · rw [List.length_singleton]
    decide
  · rw [readAddresses, addressLoop_of_some hpos hstart]
    rfl

/-- **How reading a list ends**: it overflows exactly if there are more than a hundred entries. -/
theorem readAddresses_spec (t : Text) :
    (entryCount t ≤ 100 → ∃ a, readAddresses t = .ok a) ∧
    (100 < entryCount t → readAddresses t = .error .overflow) := by
  by_cases hstarts : startsAddress (t.at 0) = true
  · obtain ⟨a, ha, hread⟩ := readAddresses_of_starts hstarts
    obtain ⟨hok, hoverflow⟩ := @addressLoop_spec t ((addressAt t 0).2 + 1)
      (fun h => Nat.succ_ne_zero _ h.1) a
    rw [drop_addressAt, List.drop_zero, ha, List.length_singleton, Nat.add_comm 1]
      at hok hoverflow
    rw [hread, entryCount, if_pos hstarts]
    exact ⟨hok, hoverflow⟩
  · obtain ⟨hok, hoverflow⟩ := @addressLoop_spec t 0 (fun h => hstarts h.2) ⟨[], Nat.zero_le _⟩
    rw [List.drop_zero, List.length_nil, Nat.zero_add] at hok hoverflow
    rw [entryCount, if_neg hstarts]
    exact ⟨hok, hoverflow⟩

/-! ### The entries of a list -/

/-- A number that is stored, with the largest one for all that are larger. -/
def stored (address : ℕ) : BitVec 32 := BitVec.ofNat 32 (min address (2 ^ 32 - 1))

/-- The range that is read for an entry. -/
def Entry.range (e : Entry) : SAddrRange where
  mFunction := e.function
  mStartAddress := stored e.start
  mNrAddresses := stored e.last - stored e.start + 1

theorem Entry.start_le_last (e : Entry) : e.start ≤ e.last := by
  rw [Entry.last]
  cases hstop : e.stop with
  | none => exact le_rfl
  | some address => exact e.start_le address hstop

/-- **An entry is read** exactly if its numbers are numbers of 32 bits. -/
theorem reads_range_iff (e : Entry) : Reads e e.range ↔ e.Representable := by
  have hle := e.start_le_last
  have hstart : (stored e.start).toNat = min e.start (2 ^ 32 - 1) := by
    rw [stored, BitVec.toNat_ofNat]
    omega
  have hlast : (stored e.last).toNat = min e.last (2 ^ 32 - 1) := by
    rw [stored, BitVec.toNat_ofNat]
    omega
  have hnumber : (stored e.last - stored e.start + 1).toNat =
      (min e.last (2 ^ 32 - 1) - min e.start (2 ^ 32 - 1) + 1) % 2 ^ 32 := by
    have hone : (1 : BitVec 32).toNat = 1 := rfl
    rw [BitVec.toNat_add, BitVec.toNat_sub, hstart, hlast, hone]
    omega
  constructor
  · rintro ⟨-, hs, hn⟩
    have hs := hstart.symm.trans hs
    have hn := hnumber.symm.trans hn
    rw [Entry.Representable]
    omega
  · rintro ⟨hlt, hcount⟩
    exact ⟨rfl, hstart.trans (by omega), hnumber.trans (by omega)⟩

/-- **A number that is written is stored.** -/
theorem toUnsigned_decimalDigits (n : ℕ) (hu : isDigit (u.at 0) = false) :
    toUnsigned (decimalDigits n ++ u) = stored n := by
  rw [toUnsigned, Scanner.convert_decimalDigits n hu, stored]
  exact BitVec.setWidth_ofNat_of_le (by decide) _

/-! ### A list that is written -/

theorem at_append_of_ne_nil (h : front ≠ []) : Text.at (front ++ rest) 0 = front.at 0 := by
  cases front with
  | nil => exact absurd rfl h
  | cons c front => rfl

theorem decimalDigits_ne_nil (n : ℕ) : decimalDigits n ≠ [] := fun h =>
  Places.digits_ne_nil n (List.map_eq_nil_iff.mp h)

theorem isDigit_at_decimalDigits (n : ℕ) : isDigit ((decimalDigits n ++ u : Text).at 0) = true := by
  rw [at_append_of_ne_nil (decimalDigits_ne_nil n)]
  cases h : decimalDigits n with
  | nil => exact absurd h (decimalDigits_ne_nil n)
  | cons c ds =>
    refine @Scanner.isDigit_of_mem_decimalDigits c n ?_
    rw [h]
    exact List.mem_cons_self

/-- What is behind an entry in a list. -/
def EndsEntry (u : Text) : Prop := u = [] ∨ ∃ rest, u = ','.toUInt8 :: rest

theorem EndsEntry.isDigit_eq_false (h : EndsEntry u) : isDigit (u.at 0) = false := by
  obtain rfl | ⟨rest, rfl⟩ := h
  · rfl
  · rfl

theorem functionOf_of_isDigit (h : isDigit c = true) : functionOf c = none := by
  have hne (e : UInt8) (he : isDigit e = false) : c ≠ e := ne_of_isDigit h he
  rw [functionOf, if_neg (not_or.mpr ⟨hne _ rfl, hne _ rfl⟩),
    if_neg (not_or.mpr ⟨hne _ rfl, hne _ rfl⟩), if_neg (not_or.mpr ⟨hne _ rfl, hne _ rfl⟩),
    if_neg (not_or.mpr ⟨hne _ rfl, hne _ rfl⟩)]

theorem letterOf_spec (function : EModbusFunction) (capital : Bool) :
    functionOf (Entry.letterOf function capital) = some function ∧
      startsAddress (Entry.letterOf function capital) = true := by
  cases function <;> cases capital <;> exact ⟨rfl, rfl⟩

/-- **An entry begins** with a letter or a digit. -/
theorem at_text (e : Entry) (u : Text) :
    functionOf (Text.at (e.text ++ u) 0) = e.letter.map Prod.fst ∧
      startsAddress (Text.at (e.text ++ u) 0) = true := by
  rw [Entry.text, List.append_assoc, List.append_assoc]
  cases e.letter with
  | none =>
    have hdigit := @isDigit_at_decimalDigits (Entry.stopText e.stop ++ u) e.start
    refine ⟨functionOf_of_isDigit hdigit, ?_⟩
    rw [startsAddress, Bool.or_eq_true]
    exact .inl hdigit
  | some letter => exact letterOf_spec letter.1 letter.2

theorem behindLetter_text (e : Entry) (u : Text) :
    behindLetter (e.text ++ u) = decimalDigits e.start ++ (Entry.stopText e.stop ++ u) := by
  rw [behindLetter, (at_text e u).1, Entry.text, List.append_assoc, List.append_assoc]
  cases e.letter with
  | none => rfl
  | some letter => rfl

theorem fromMark_of_isDigit (h : ∀ c ∈ front, isDigit c = true) :
    fromMark (front ++ rest) = fromMark rest := by
  rw [fromMark, List.dropWhile_append_of_pos]
  · rfl
  · intro c hc
    exact decide_eq_true ⟨ne_of_isDigit (h c hc) rfl, ne_of_isDigit (h c hc) rfl⟩

theorem comma_not_mem (h : ∀ c ∈ front, isDigit c = true) : ','.toUInt8 ∉ front :=
  fun hmem => absurd (h _ hmem) (by decide)

theorem dot_not_mem (h : ∀ c ∈ front, isDigit c = true) : '.'.toUInt8 ∉ front :=
  fun hmem => absurd (h _ hmem) (by decide)

/-- Behind the first digit of a number. -/
theorem exists_drop_one (n : ℕ) (u : Text) :
    ∃ ds : Text, (∀ c ∈ ds, isDigit c = true) ∧ (decimalDigits n ++ u).drop 1 = ds ++ u := by
  cases h : decimalDigits n with
  | nil => exact absurd h (decimalDigits_ne_nil n)
  | cons c ds =>
    refine ⟨ds, fun d hd => @Scanner.isDigit_of_mem_decimalDigits d n ?_, rfl⟩
    rw [h]
    exact List.mem_cons_of_mem c hd

/-- **An entry of a list is read**, up to a digit of its last number. -/
theorem addressAt_text {e : Entry} (hdrop : t.drop i = e.text ++ u) (hu : EndsEntry u) :
    (addressAt t i).1 = e.range ∧ ∃ ds : Text, (∀ c ∈ ds, isDigit c = true) ∧
      t.drop ((addressAt t i).2 + 1) = ds ++ u := by
  have hletter := drop_decodeFunction t i .holdingRegister
  rw [hdrop, behindLetter_text] at hletter
  have hfunction : (decodeFunction t i .holdingRegister).1 = e.function := by
    rw [decodeFunction_eq, ← at_drop, hdrop, (at_text e u).1, Entry.function]
  have hdigits : ∀ c ∈ decimalDigits e.start, isDigit c = true :=
    fun c hc => Scanner.isDigit_of_mem_decimalDigits hc
  have hmark : fromMark (decimalDigits e.start ++ (Entry.stopText e.stop ++ u)) =
      Entry.stopText e.stop ++ u := by
    rw [fromMark_of_isDigit hdigits]
    cases e.stop with
    | none => obtain rfl | ⟨rest, rfl⟩ := hu <;> rfl
    | some address => rfl
  have hmarks : Entry.stopText e.stop ++ u = [] ∨
      (∃ rest, Entry.stopText e.stop ++ u = ','.toUInt8 :: rest) ∨
        ∃ rest, Entry.stopText e.stop ++ u = '.'.toUInt8 :: rest := by
    cases e.stop with
    | none => exact hu.imp_right .inl
    | some address => exact .inr (.inr ⟨_, rfl⟩)
  have hrest : isDigit (Text.at (Entry.stopText e.stop ++ u) 0) = false := by
    cases e.stop with
    | none => exact hu.isDigit_eq_false
    | some address => rfl
  have hstop := findNextStopAddress_eq (congrArg (decimalDigits e.start ++ ·) hmark.symm)
    (comma_not_mem hdigits) (dot_not_mem hdigits) (hmark.symm ▸ hmarks) hletter
  have hrange : (addressAt t i).1 = ⟨e.function, stored e.start,
      toUnsigned (t.drop (addressAt t i).2) - stored e.start + 1⟩ := by
    rw [← hfunction, ← toUnsigned_decimalDigits e.start hrest, ← hletter]
    rfl
  have hindex : (addressAt t i).2 = findNextStopAddress t (decodeFunction t i .holdingRegister).2 :=
    rfl
  have hlast : t.drop (addressAt t i).2 = decimalDigits e.last ++ u := by
    rw [hindex, hstop, hmark]
    cases hcase : e.stop with
    | none =>
      have hnot : ¬((Entry.stopText none ++ u : Text).at 0 = '.'.toUInt8 ∧
          2 < (Entry.stopText none ++ u).length) := by
        rintro ⟨hdot, -⟩
        obtain rfl | ⟨rest, rfl⟩ := hu
        · exact absurd hdot (by decide)
        · have hcomma : ','.toUInt8 = '.'.toUInt8 := hdot
          exact absurd hcomma (by decide)
      rw [if_neg hnot, hletter, hcase, Entry.last, hcase]
      rfl
    | some address =>
      have hlength : 2 < (Entry.stopText (some address) ++ u).length := by
        have hpos := List.length_pos_iff.mpr (decimalDigits_ne_nil address)
        rw [Entry.stopText, List.length_append, List.length_cons, List.length_cons]
        omega
      rw [if_pos ⟨rfl, hlength⟩, Nat.add_assoc, ← List.drop_drop, hletter, ← List.drop_drop,
        List.drop_left, hcase, Entry.last, hcase]
      rfl
  constructor
  · rw [hrange, hlast, toUnsigned_decimalDigits e.last hu.isDigit_eq_false]
    rfl
  · rw [← List.drop_drop, hlast]
    exact exists_drop_one e.last u

/-- The rest of a list ends an entry. -/
theorem endsEntry_flatMap (es : List Entry) :
    EndsEntry (es.flatMap fun e => ','.toUInt8 :: e.text) := by
  cases es with
  | nil => exact .inl rfl
  | cons e es => exact .inr ⟨_, rfl⟩

/-- **The rest of a list is read**, by induction on its entries. -/
theorem addressLoop_flatMap {es : List Entry} {next : ℕ} (hnext : 0 < next)
    (hfront : ∀ c ∈ front, isDigit c = true)
    (hdrop : t.drop next = front ++ es.flatMap fun e => ','.toUInt8 :: e.text) (ranges : AddrRanges)
    (hlength : ranges.ranges.length + es.length ≤ 100) :
    ∃ a : AddrRanges, addressLoop t next ranges = .ok a ∧
      a.ranges = ranges.ranges ++ es.map Entry.range := by
  induction es generalizing next front ranges with
  | nil =>
    have hnone : findNextStartAddress t next = none := by
      refine (findNextStartAddress_spec fun h => hnext.ne' h.1).2 ?_
      rw [hdrop, fromComma_eq_of_not_mem (comma_not_mem hfront)]
      decide
    rw [addressLoop_of_none hnone, List.map_nil, List.append_nil]
    exact ⟨_, rfl, rfl⟩
  | cons e es ih =>
    have hcomma : fromComma (t.drop next) =
        ','.toUInt8 :: (e.text ++ es.flatMap fun e => ','.toUInt8 :: e.text) := by
      rw [hdrop, fromComma_eq_of_not_mem (comma_not_mem hfront)]
      rfl
    have hpos : 0 < e.text.length := by
      have hdigits := List.length_pos_iff.mpr (decimalDigits_ne_nil e.start)
      rw [Entry.text, List.length_append, List.length_append]
      omega
    obtain ⟨start, hstart, -, hbehind⟩ := (findNextStartAddress_spec fun h => hnext.ne' h.1).1 (by
      rw [hcomma, List.length_cons, List.length_append]
      omega : 1 < (fromComma (t.drop next)).length)
    rw [hcomma] at hbehind
    obtain ⟨hrange, ds, hds, hrest⟩ := addressAt_text hbehind (endsEntry_flatMap es)
    have hlt : next < t.length := by
      by_contra hle
      rw [List.drop_eq_nil_of_le (not_lt.mp hle)] at hcomma
      exact absurd hcomma nofun
    rw [List.length_cons] at hlength
    rw [addressLoop_of_some hlt hstart, AddrRanges.store, dif_pos (by omega), hrange]
    obtain ⟨a, ha, hranges⟩ := ih (Nat.succ_pos (addressAt t start).2) hds hrest
      ⟨ranges.ranges ++ [e.range], by rw [List.length_append, List.length_singleton]; omega⟩ (by
        rw [List.length_append, List.length_singleton]
        omega)
    refine ⟨a, ha, hranges.trans ?_⟩
    rw [List.append_assoc, List.map_cons]
    rfl

/-- **A list is read.** -/
theorem readAddresses_render {es : List Entry} (h : es.length ≤ 100) :
    ∃ a, readAddresses (render es) = .ok a ∧ a.ranges = es.map Entry.range := by
  cases es with
  | nil => exact ⟨_, addressLoop_of_le le_rfl _, rfl⟩
  | cons e es =>
    have hstarts := (at_text e (es.flatMap fun e => ','.toUInt8 :: e.text)).2
    obtain ⟨first, hfirst, hread⟩ := readAddresses_of_starts hstarts
    obtain ⟨hrange, ds, hds, hrest⟩ := addressAt_text List.drop_zero (endsEntry_flatMap es)
    rw [hrange] at hfirst
    obtain ⟨a, ha, hranges⟩ := addressLoop_flatMap (Nat.succ_pos _) hds hrest first (by
      rw [hfirst, List.length_singleton, Nat.add_comm]
      exact h)
    refine ⟨a, hread.trans ha, hranges.trans ?_⟩
    rw [hfirst]
    rfl

end Steps

/-- **A list is read as it has been written** exactly if its numbers are numbers of 32 bits. -/
theorem readsAll_iff {es : List Entry} (h : es.length ≤ 100) :
    ReadsAll es ↔ ∀ e ∈ es, e.Representable := by
  obtain ⟨a, ha, hranges⟩ := readAddresses_render h
  have hforall : List.Forall₂ Reads es (es.map Entry.range) ↔ ∀ e ∈ es, e.Representable := by
    rw [List.forall₂_map_right_iff, List.forall₂_same]
    simp only [reads_range_iff]
  rw [← hforall, ← hranges]
  constructor
  · rintro ⟨a', ha', hreads⟩
    obtain rfl := Except.ok.inj (ha.symm.trans ha')
    exact hreads
  · exact fun hreads => ⟨a, ha, hreads⟩

/-! ### The buffers -/

section Overflows

variable {α β : Type} {x : Except Failure α} {f : α → Except Failure β} {t : Text}

/-- Something is written behind the end of a buffer. -/
def Overflows (x : Except Failure α) : Prop := x = .error .overflow

theorem overflows_error_iff {e : Failure} :
    Overflows (.error e : Except Failure α) ↔ e = .overflow :=
  ⟨Except.error.inj, fun h => h ▸ rfl⟩

theorem not_overflows_ok (a : α) : ¬Overflows (.ok a : Except Failure α) := nofun

theorem overflows_bind_iff :
    Overflows (x >>= f) ↔ Overflows x ∨ ∃ a, x = .ok a ∧ Overflows (f a) := by
  cases x with
  | error e =>
    have hbind : (.error e >>= f : Except Failure β) = .error e := rfl
    rw [hbind, overflows_error_iff, overflows_error_iff]
    constructor
    · exact .inl
    · rintro (h | ⟨a, h, -⟩)
      · exact h
      · exact absurd h nofun
  | ok a =>
    constructor
    · exact fun h => .inr ⟨a, rfl, h⟩
    · rintro (h | ⟨b, h, hoverflows⟩)
      · exact absurd h (not_overflows_ok a)
      · obtain rfl := Except.ok.inj h
        exact hoverflows

/-- What comes behind does not overflow. -/
theorem overflows_bind_iff_of_not (h : ∀ a, ¬Overflows (f a)) :
    Overflows (x >>= f) ↔ Overflows x := by
  rw [overflows_bind_iff]
  exact or_iff_left fun ⟨a, _, ha⟩ => h a ha

/-- **A field** is the first of the pieces between colons. -/
theorem nextField_cases (t : Text) :
    (∃ field behind, nextField t = .ok (field, behind) ∧
      t.splitOn ':'.toUInt8 = field :: behind.splitOn ':'.toUInt8) ∨
    nextField t = .error .invalid ∧ t.splitOn ':'.toUInt8 = [t] := by
  rw [nextField]
  cases hcolon : t.idxOf? ':'.toUInt8 with
  | none => exact .inr ⟨rfl, Separated.splitOn_of_none hcolon⟩
  | some i => exact .inl ⟨_, _, rfl, Separated.splitOn_of_some hcolon⟩

theorem overflows_readAddresses_iff (t : Text) :
    Overflows (readAddresses t) ↔ ¬entryCount t ≤ 100 := by
  obtain ⟨hok, hoverflow⟩ := readAddresses_spec t
  constructor
  · intro h hle
    obtain ⟨a, ha⟩ := hok hle
    exact absurd (ha.symm.trans h) nofun
  · exact fun h => hoverflow (not_le.mp h)

/-- **One field is read**: a statement about the rest of the fields is one about the text. -/
theorem overflows_nextField_bind_iff {g : Text × Text → Except Failure α} {P : List Text → Prop}
    (hlast : ∀ field, P [field])
    (hmore : ∀ field behind, Overflows (g (field, behind)) ↔
      ¬P (field :: behind.splitOn ':'.toUInt8)) (t : Text) :
    Overflows (nextField t >>= g) ↔ ¬P (t.splitOn ':'.toUInt8) := by
  obtain ⟨field, behind, hnext, hsplit⟩ | ⟨hnext, hsplit⟩ := nextField_cases t
  · rw [hnext, hsplit]
    exact hmore field behind
  · rw [hnext, hsplit]
    exact iff_of_false nofun (not_not.mpr (hlast t))

/-- Two lists that are read one after the other. -/
theorem overflows_lists_iff {g : AddrRanges → AddrRanges → Except Failure α}
    (h : ∀ a b, ¬Overflows (g a b)) (read write : Text) :
    Overflows (readAddresses read >>= fun a => readAddresses write >>= g a) ↔
      ¬(entryCount read ≤ 100 ∧ entryCount write ≤ 100) := by
  have hwrite (a : AddrRanges) : Overflows (readAddresses write >>= g a) ↔
      ¬entryCount write ≤ 100 := by
    rw [overflows_bind_iff_of_not (h a), overflows_readAddresses_iff]
  rw [overflows_bind_iff, overflows_readAddresses_iff, not_and_or]
  constructor
  · rintro (hread | ⟨a, -, hoverflows⟩)
    · exact .inl hread
    · exact .inr ((hwrite a).mp hoverflows)
  · intro hlong
    by_cases hread : entryCount read ≤ 100
    · obtain ⟨a, ha⟩ := (readAddresses_spec read).1 hread
      exact .inr ⟨a, ha, (hwrite a).mpr (hlong.resolve_left (not_not.mpr hread))⟩
    · exact .inl hread

/-- **The common parameters** overflow where a list has too many entries. -/
theorem overflows_commonParams_iff (defaultSlaveId : BitVec 32) (t : Text) :
    Overflows (commonParams defaultSlaveId t) ↔ ¬CommonFits (t.splitOn ':'.toUInt8) := by
  refine overflows_nextField_bind_iff (fun _ => trivial) (fun slave t => ?_) t
  refine @overflows_nextField_bind_iff _ _ (fun l => CommonFits (slave :: l)) (fun _ => trivial)
    (fun poll t => ?_) t
  refine @overflows_nextField_bind_iff _ _ (fun l => CommonFits (slave :: poll :: l))
    (fun _ => trivial) (fun read t => ?_) t
  obtain ⟨write, behind, hnext, hsplit⟩ | ⟨hnext, hsplit⟩ := nextField_cases t
  · rw [hsplit]
    dsimp only
    rw [hnext]
    refine overflows_lists_iff (fun a b => ?_) read write
    split
    · exact nofun
    · exact nofun
  · rw [hsplit]
    dsimp only
    rw [hnext]
    refine overflows_lists_iff (fun a b => ?_) read t
    split
    · exact nofun
    · exact nofun

theorem ok_bind (a : α) : (.ok a >>= f) = f a := rfl

theorem error_bind (e : Failure) : (.error e >>= f) = .error e := rfl

theorem strcat_of_lt {size : ℕ} {dest : Buffer size} {src : Text}
    (h : (dest.text ++ src).length < size) : dest.strcat src = .ok ⟨dest.text ++ src, h⟩ :=
  dif_pos h

theorem strcat_of_le {size : ℕ} {dest : Buffer size} {src : Text}
    (h : size ≤ (dest.text ++ src).length) : dest.strcat src = .error .overflow :=
  dif_neg (not_lt.mpr h)

/-- **The parameters of a serial connection** overflow where the device is too long. -/
theorem overflows_rtuParams_bind_iff {g : SRtuParams × Buffer 256 × Text → Except Failure α}
    (h : ∀ x, Overflows (g x) ↔ ¬CommonFits (x.2.2.splitOn ':'.toUInt8)) (t : Text) :
    Overflows (rtuParams t >>= g) ↔ ¬RtuFits (t.splitOn ':'.toUInt8) := by
  rw [rtuParams, bind_assoc]
  refine overflows_nextField_bind_iff (fun _ => trivial) (fun device t => ?_) t
  have hfront : Buffer.strcpy (text "rtu:") = .ok (⟨text "rtu:", by decide⟩ : Buffer 256) := rfl
  have hlength : (text "rtu:" ++ device).length = 4 + device.length := List.length_append
  dsimp only
  rw [hfront, ok_bind]
  by_cases hdevice : device.length ≤ 251
  · rw [strcat_of_lt (by dsimp only; omega), ok_bind, bind_assoc]
    refine @overflows_nextField_bind_iff _ _ (fun l => RtuFits (device :: l))
      (fun _ => ⟨hdevice, trivial⟩) (fun baud t => ?_) t
    dsimp only
    rw [bind_assoc]
    refine @overflows_nextField_bind_iff _ _ (fun l => RtuFits (device :: baud :: l))
      (fun _ => ⟨hdevice, trivial⟩) (fun parity t => ?_) t
    dsimp only
    rw [bind_assoc]
    refine @overflows_nextField_bind_iff _ _ (fun l => RtuFits (device :: baud :: parity :: l))
      (fun _ => ⟨hdevice, trivial⟩) (fun dataBit t => ?_) t
    dsimp only
    rw [bind_assoc]
    refine @overflows_nextField_bind_iff _ _
      (fun l => RtuFits (device :: baud :: parity :: dataBit :: l))
      (fun _ => ⟨hdevice, trivial⟩) (fun stopBit t => ?_) t
    dsimp only
    rw [bind_assoc]
    refine @overflows_nextField_bind_iff _ _
      (fun l => RtuFits (device :: baud :: parity :: dataBit :: stopBit :: l))
      (fun _ => ⟨hdevice, trivial⟩) (fun flow t => ?_) t
    refine (h _).trans (not_congr ?_)
    exact (and_iff_right hdevice).symm
  · obtain ⟨baud, fields, hfields⟩ := List.exists_cons_of_ne_nil (List.splitOn_ne_nil _ t)
    rw [strcat_of_le (by dsimp only; omega), error_bind, error_bind, hfields]
    exact iff_of_true rfl fun hfits => hdevice hfits.1

/-- **The parameters of a connection over IP** overflow where the address is too long, with the
port or without it. -/
theorem overflows_tcpParams_bind_iff {g : STcpParams × Buffer 256 × Text → Except Failure α}
    (h : ∀ x, Overflows (g x) ↔ ¬CommonFits (x.2.2.splitOn ':'.toUInt8)) (params t : Text) :
    Overflows (tcpParams params t >>= g) ↔ ¬TcpFits (params :: t.splitOn ':'.toUInt8) := by
  obtain ⟨port, common, hfields⟩ := List.exists_cons_of_ne_nil (List.splitOn_ne_nil _ t)
  rw [tcpParams]
  split
  · rename_i hip
    have hfront : Buffer.strcpy (text "tcp:") = .ok (⟨text "tcp:", by decide⟩ : Buffer 256) :=
      rfl
    have hparams : (text "tcp:" ++ params).length = 4 + params.length := List.length_append
    have hcolon : (text "tcp:" ++ params ++ text ":").length = 4 + params.length + 1 := by
      rw [List.length_append, hparams]
      rfl
    have hport (port : Text) : (text "tcp:" ++ params ++ text ":" ++ port).length =
        4 + params.length + 1 + port.length := by
      rw [List.length_append, hcolon]
    rw [hfront, ok_bind]
    by_cases hlength : params.length ≤ 250
    · rw [strcat_of_lt (by dsimp only; omega), ok_bind, strcat_of_lt (by dsimp only; omega),
        ok_bind, bind_assoc]
      refine @overflows_nextField_bind_iff _ _ (fun l => TcpFits (params :: l))
        (fun _ _ => ⟨hlength, fun hne => absurd rfl hne⟩) (fun port t => ?_) t
      have hport := hport port
      dsimp only
      by_cases hsum : params.length + port.length ≤ 250
      · rw [strcat_of_lt (by dsimp only; omega), ok_bind]
        refine (h _).trans (not_congr ⟨fun hfits _ => ⟨hlength, fun _ => ⟨hsum, hfits⟩⟩, ?_⟩)
        exact fun hfits => ((hfits hip).2 (List.splitOn_ne_nil _ t)).2
      · rw [strcat_of_le (by dsimp only; omega), error_bind, error_bind]
        exact iff_of_true rfl fun hfits => hsum ((hfits hip).2 (List.splitOn_ne_nil _ t)).1
    · have htoolong : ¬TcpFits (params :: t.splitOn ':'.toUInt8) := by
        rw [hfields]
        exact fun hfits => hlength (hfits hip).1
      refine iff_of_true ?_ htoolong
      by_cases hless : params.length ≤ 251
      · rw [strcat_of_lt (by dsimp only; omega), ok_bind, strcat_of_le (by dsimp only; omega)]
        rfl
      · rw [strcat_of_le (by dsimp only; omega)]
        rfl
  · rename_i hip
    rw [hfields]
    exact iff_of_false nofun (not_not.mpr fun h => absurd h hip)

/-- **Something is written behind the end of a buffer** by the texts that do not fit, and by no
others. -/
theorem overflows_iff (onStack : BitVec 32) (t : Text) :
    Overflows (processClientParams onStack t) ↔ ¬Fits t := by
  have hcommon (slaveId : BitVec 32) (t : Text) (g : SCommonParams → ClientParams) :
      Overflows (commonParams slaveId t >>= fun common => pure (g common)) ↔
        ¬CommonFits (t.splitOn ':'.toUInt8) :=
    (overflows_bind_iff_of_not fun _ => not_overflows_ok _).trans
      (overflows_commonParams_iff slaveId t)
  rw [processClientParams]
  obtain ⟨params, chrStorage, hnext, hsplit⟩ | ⟨hnext, hsplit⟩ := nextField_cases t
  · rw [Fits, hnext, hsplit, ok_bind]
    dsimp only
    split
    · exact overflows_rtuParams_bind_iff (fun x => hcommon 1 x.2.2 _) chrStorage
    · split
      · refine overflows_nextField_bind_iff (fun _ => trivial) (fun params t => ?_) chrStorage
        exact overflows_tcpParams_bind_iff (fun x => hcommon 0xFF x.2.2 _) params t
      · exact overflows_tcpParams_bind_iff (fun x => hcommon onStack x.2.2 _) params
          chrStorage
  · rw [Fits, hnext, hsplit, error_bind]
    refine iff_of_false nofun (not_not.mpr ?_)
    dsimp only
    split_ifs <;> trivial

end Overflows

/-- **Lists and buffers**: a list of at most a hundred entries is read as it has been written
exactly if its numbers are numbers of 32 bits, and no text is written behind the end of a buffer
exactly if it fits. -/
theorem lists_and_buffers_iff (onStack : BitVec 32) :
    (∀ es : List Entry, es.length ≤ 100 → (ReadsAll es ↔ ∀ e ∈ es, e.Representable)) ∧
      ∀ t : ComInfra.CString, ¬Overflows (processClientParams onStack t.text) ↔ Fits t.text :=
  ⟨fun _ h => readsAll_iff h, fun t => (not_congr (overflows_iff onStack t.text)).trans not_not⟩

/-- The holding registers 3 to 7 are read as a range. -/
theorem lists_and_buffers_registers :
    ReadsAll [⟨some (.holdingRegister, false), 3, some 7, by decide⟩] ↔
      ∀ e ∈ [(⟨some (.holdingRegister, false), 3, some 7, by decide⟩ : Entry)],
        e.Representable :=
  (lists_and_buffers_iff 0).1 _ (by decide)

/-- **A device with a long name** is written behind the end of the identification. -/
theorem overflows_long_device :
    ∃ t : ComInfra.CString, Overflows (processClientParams 0 t.text) := by
  have hkind : ':'.toUInt8 ∉ text "rtu" := by decide
  have hdevice : ':'.toUInt8 ∉ List.replicate 252 'a'.toUInt8 := fun h =>
    absurd (List.eq_of_mem_replicate h) (by decide)
  refine ⟨⟨text "rtu" ++ ':'.toUInt8 :: (List.replicate 252 'a'.toUInt8 ++ text ":19200"), ?_⟩, ?_⟩
  · intro h
    rcases List.mem_append.mp h with h | h
    · exact absurd h (by decide)
    · rcases List.mem_cons.mp h with h | h
      · exact absurd h (by decide)
      · rcases List.mem_append.mp h with h | h
        · exact absurd (List.eq_of_mem_replicate h) (by decide)
        · exact absurd h (by decide)
  · have hsplit : (List.replicate 252 'a'.toUInt8 ++ text ":19200").splitOn ':'.toUInt8 =
        List.replicate 252 'a'.toUInt8 :: (text "19200").splitOn ':'.toUInt8 :=
      List.splitOn_append_cons_self_of_not_mem hdevice (text "19200")
    obtain ⟨baud, fields, hfields⟩ := List.exists_cons_of_ne_nil (List.splitOn_ne_nil _ (text "19200"))
    rw [overflows_iff, Fits, List.splitOn_append_cons_self_of_not_mem hkind, hsplit, hfields]
    dsimp only
    rw [if_pos (.inl rfl)]
    rintro ⟨hlength, -⟩
    rw [List.length_replicate] at hlength
    exact absurd hlength (by decide)

end Modbus

end Forte
