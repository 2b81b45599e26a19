import Forte.Datatypes.Numbers
import Forte.Lib.Updates
import Forte.Management.Container

/-!
# The data ports of generic function blocks

Three classes of function blocks have a generic number of data inputs, behind two inputs of their
own: `GEN_CSV_WRITER`, `CCommFB` and `CommunicationFB`. What they read at an event and write with
an output event are lists of calls of `readData` and `writeData`, each with the number of a port and
a variable (`Forte.FBClass`). The number decides whether the call has an effect: a port can be
forced, and then the bit of its number is set (`Forte.PortState.mForces`).

A management command finds a port by its name, first among the data inputs and then among the data
outputs, and its number is the place there (`Forte.FBClass.getAbsDataPortNum`).
-/

namespace Forte

/-- A variable of a data input of a generic function block; `varID` is `var_FILE_NAME` in a
`GEN_CSV_WRITER`. -/
inductive DataInput
  | varQI
  | varID
  | mGenDIs (i : ℕ)
  deriving DecidableEq

/-- A variable of a data output of a generic function block. -/
inductive DataOutput
  | varQO
  | varSTATUS
  | mGenDOs (i : ℕ)
  deriving DecidableEq

namespace DataInput

/-- `getDI`, and `getDIConUnchecked` in the same way. -/
def getDI : ℕ → DataInput
  | 0 => .varQI
  | 1 => .varID
  | paIndex + 2 => .mGenDIs paIndex

/-- The number of the data input of a variable. -/
def port : DataInput → ℕ
  | .varQI => 0
  | .varID => 1
  | .mGenDIs i => i + 2

theorem getDI_port (x : DataInput) : getDI x.port = x := by
  cases x <;> rfl

theorem port_getDI : ∀ paIndex : ℕ, (getDI paIndex).port = paIndex
  | 0 => rfl
  | 1 => rfl
  | _ + 2 => rfl

theorem getDI_injective : Function.Injective getDI :=
  Function.LeftInverse.injective port_getDI

end DataInput

namespace DataOutput

/-- `getDO`, and `getDOConUnchecked` in the same way. -/
def getDO : ℕ → DataOutput
  | 0 => .varQO
  | 1 => .varSTATUS
  | paIndex + 2 => .mGenDOs paIndex

/-- The number of the data output of a variable, among the data outputs. -/
def port : DataOutput → ℕ
  | .varQO => 0
  | .varSTATUS => 1
  | .mGenDOs i => i + 2

theorem port_getDO : ∀ paIndex : ℕ, (getDO paIndex).port = paIndex
  | 0 => rfl
  | 1 => rfl
  | _ + 2 => rfl

theorem getDO_injective : Function.Injective getDO :=
  Function.LeftInverse.injective port_getDO

end DataOutput

open DataInput (getDI)

open DataOutput (getDO)

/-- What a class of generic function blocks adds to `CFunctionBlock`. None of them has in-outs or
function blocks inside. -/
structure FBClass where
  mDINames : List StringId
  mDONames : List StringId
  numEIs : ℕ
  numEOs : ℕ
  /-- The calls of `readData` in `readInputData`: the number that is handed over, and the variable
  that is read together with its connection. -/
  readInputData : ℕ → List (ℕ × DataInput)
  /-- The calls of `writeData` in `writeOutputData`. -/
  writeOutputData : ℕ → List (ℕ × DataOutput)
  reads_nodup : ∀ paEI, ((readInputData paEI).map Prod.snd).Nodup
  reads_port : ∀ paEI, ∀ call ∈ readInputData paEI, call.2.port < mDINames.length
  writes_port : ∀ paEO, ∀ call ∈ writeOutputData paEO, call.1 = mDINames.length + call.2.port

/-- What the values of variables can do. -/
structure ValueOps (Value : Type) where
  /-- `setValue`: what a variable holds behind it. -/
  setValue : Value → Value → Value
  /-- `getVar` of a variable, which leads to a member of it, and `fromString` of what is found:
  what the variable holds behind it, and whether the text has been read to its end. -/
  fromString : List StringId → Text → Value → Option (Value × Bool)

/-- The state of a generic function block, with `cgMaxSupportedForceIndex` bits for its ports. -/
structure PortState (cgMaxSupportedForceIndex : ℕ) (Value : Type) where
  mFBState : FBState
  mForces : Fin cgMaxSupportedForceIndex → Bool
  inputs : DataInput → Value
  outputs : DataOutput → Value
  /-- The values in the connections of the data outputs. -/
  connections : DataOutput → Value

/-- What `executeEvent` does to the ports. It gives data outputs a value and sends output events,
in the order of the class and as the world around the block has it; no class gives a data input a
value there. -/
inductive PortEffect (Value : Type)
  | assign (y : DataOutput) (v : Value)
  | sendOutputEvent (paEO : ℕ)

/-- The connections at the data inputs when an event is executed: nothing at an input that is not
connected, else what `readData` of the connection leaves in a variable. -/
abbrev InputConnections (Value : Type) := DataInput → Option (Value → Value)

/-- What happens to a generic function block. -/
inductive PortStep (Value : Type)
  /-- `writeValue` with a force. -/
  | force (paNameList : List StringId) (paValue : Text)
  /-- `clearForce`. -/
  | clearForce (paNameList : List StringId)
  /-- `receiveInputEvent`. -/
  | inputEvent (paEIID : ℕ) (connected : InputConnections Value) (effects : List (PortEffect Value))
  /-- `triggerEvent` of an event output. -/
  | outputEvent (paEOID : ℕ)
  /-- A channel or a layer gives a data output a value, without an event. -/
  | receive (y : DataOutput) (v : Value)

/-! ### The classes -/

namespace FBClass

/-- The calls for `count` generic inputs, with the numbers that the class hands over. -/
def genReads (number : ℕ → ℕ) (count : ℕ) : List (ℕ × DataInput) :=
  (List.range count).map fun i => (number i, .mGenDIs i)

/-- The calls for `count` generic outputs, with the numbers that the class hands over. -/
def genWrites (number : ℕ → ℕ) (count : ℕ) : List (ℕ × DataOutput) :=
  (List.range count).map fun i => (number i, .mGenDOs i)

variable {number : ℕ → ℕ} {count : ℕ}

theorem mem_genReads {call : ℕ × DataInput} :
    call ∈ genReads number count ↔ ∃ i < count, call = (number i, .mGenDIs i) := by
  simp only [genReads, List.mem_map, List.mem_range, eq_comm]

theorem mem_genWrites {call : ℕ × DataOutput} :
    call ∈ genWrites number count ↔ ∃ i < count, call = (number i, .mGenDOs i) := by
  simp only [genWrites, List.mem_map, List.mem_range, eq_comm]

theorem map_snd_genReads :
    (genReads number count).map Prod.snd = (List.range count).map .mGenDIs := by
  rw [genReads, List.map_map]
  rfl

theorem nodup_genReads : ((genReads number count).map Prod.snd).Nodup := by
  rw [map_snd_genReads]
  exact List.nodup_range.map fun i j h => DataInput.mGenDIs.inj h

theorem not_mem_genReads {x : DataInput} (hx : ∀ i, x ≠ .mGenDIs i) :
    x ∉ (genReads number count).map Prod.snd := by
  rw [map_snd_genReads]
  intro h
  obtain ⟨i, -, hi⟩ := List.mem_map.mp h
  exact hx i hi.symm

/-- The two inputs that each class has, and behind them the generic ones. -/
theorem nodup_reads :
    (((0, .varQI) :: (1, .varID) :: genReads number count).map Prod.snd).Nodup := by
  refine List.nodup_cons.mpr ⟨?_, List.nodup_cons.mpr ⟨?_, nodup_genReads⟩⟩
  · intro h
    rcases List.mem_cons.mp h with h | h
    · cases h
    · exact not_mem_genReads (fun i => by simp) h
  · exact not_mem_genReads fun i => by simp

theorem port_genReads {call : ℕ × DataInput} (h : call ∈ genReads number count) :
    call.2.port < count + 2 := by
  obtain ⟨i, hi, rfl⟩ := mem_genReads.mp h
  show i + 2 < count + 2
  omega

theorem port_reads {call : ℕ × DataInput}
    (h : call ∈ (0, .varQI) :: (1, .varID) :: genReads number count) :
    call.2.port < count + 2 := by
  rcases List.mem_cons.mp h with rfl | h
  · show 0 < count + 2
    omega
  rcases List.mem_cons.mp h with rfl | h
  · show 1 < count + 2
    omega
  exact port_genReads h

theorem port_writes {numDIs : ℕ} (hnumber : ∀ i, number i = numDIs + 2 + i)
    {call : ℕ × DataOutput}
    (h : call ∈ (numDIs + 0, .varQO) :: (numDIs + 1, .varSTATUS) :: genWrites number count) :
    call.1 = numDIs + call.2.port := by
  rcases List.mem_cons.mp h with rfl | h
  · rfl
  rcases List.mem_cons.mp h with rfl | h
  · rfl
  obtain ⟨i, -, rfl⟩ := mem_genWrites.mp h
  show number i = numDIs + (i + 2)
  rw [hnumber]
  omega

/-- `GEN_CSV_WRITER`, with the names of its inputs `SD_1`, `SD_2`, …. -/
def GEN_CSV_WRITER (sds : List StringId) : FBClass where
  mDINames := "QI" :: "FILE_NAME" :: sds
  mDONames := ["QO", "STATUS"]
  numEIs := 2
  numEOs := 2
  readInputData
    | 0 => [(0, .varQI), (1, .varID)]
    | 1 => (0, .varQI) :: genReads (fun i => i) sds.length
    | _ => []
  writeOutputData _ := [(sds.length + 2 + 0, .varQO), (sds.length + 2 + 1, .varSTATUS)]
  reads_nodup
    | 0 => @nodup_reads id 0
    | 1 => List.nodup_cons.mpr ⟨not_mem_genReads fun i => by simp, nodup_genReads⟩
    | _ + 2 => List.nodup_nil
  reads_port
    | 0, _, h => Nat.lt_of_lt_of_le (@port_reads id 0 _ h) (Nat.le_add_left 2 _)
    | 1, _, h => (List.mem_cons.mp h).elim
        (fun hcall => hcall ▸ Nat.succ_pos _) port_genReads
    | _ + 2, _, h => absurd h List.not_mem_nil
  writes_port _ _ h := @port_writes (fun i => sds.length + 2 + 2 + i) 0 _ (fun _ => rfl) _ h

/-- `CCommFB`, with the names of its inputs `SD_1`, `SD_2`, … and of its outputs `RD_1`, `RD_2`,
…. -/
def CCommFB (sds rds : List StringId) : FBClass where
  mDINames := "QI" :: "ID" :: sds
  mDONames := "QO" :: "STATUS" :: rds
  numEIs := 2
  numEOs := 2
  readInputData
    | 0 => [(0, .varQI), (1, .varID)]
    | 1 => (0, .varQI) :: (1, .varID) :: genReads (fun i => i + 2) sds.length
    | _ => []
  writeOutputData
    | 0 => [(sds.length + 2 + 0, .varQO), (sds.length + 2 + 1, .varSTATUS)]
    | 1 => (sds.length + 2 + 0, .varQO) :: (sds.length + 2 + 1, .varSTATUS) ::
        genWrites (fun i => sds.length + 2 + 2 + i) rds.length
    | _ => []
  reads_nodup
    | 0 => @nodup_reads id 0
    | 1 => nodup_reads
    | _ + 2 => List.nodup_nil
  reads_port
    | 0, _, h => Nat.lt_of_lt_of_le (@port_reads id 0 _ h) (Nat.le_add_left 2 _)
    | 1, _, h => port_reads h
    | _ + 2, _, h => absurd h List.not_mem_nil
  writes_port
    | 0, _, h => @port_writes (fun i => sds.length + 2 + 2 + i) 0 _ (fun _ => rfl) _ h
    | 1, _, h => port_writes (fun _ => rfl) h
    | _ + 2, _, h => absurd h List.not_mem_nil

/-- `CommunicationFB`, of which `GEN_SEND_RECV` has three event inputs and outputs. -/
def CommunicationFB (numEIs numEOs : ℕ) (sds rds : List StringId) : FBClass where
  mDINames := "QI" :: "ID" :: sds
  mDONames := "QO" :: "STATUS" :: rds
  numEIs := numEIs
  numEOs := numEOs
  readInputData
    | 0 => [(0, .varQI), (1, .varID)]
    | _ => (0, .varQI) :: (1, .varID) :: genReads (fun i => i + 2) sds.length
  writeOutputData
    | 0 => [(sds.length + 2 + 0, .varQO), (sds.length + 2 + 1, .varSTATUS)]
    | _ => (sds.length + 2 + 0, .varQO) :: (sds.length + 2 + 1, .varSTATUS) ::
        genWrites (fun i => sds.length + 2 + 2 + i) rds.length
  reads_nodup
    | 0 => @nodup_reads id 0
    | _ + 1 => nodup_reads
  reads_port
    | 0, _, h => Nat.lt_of_lt_of_le (@port_reads id 0 _ h) (Nat.le_add_left 2 _)
    | _ + 1, _, h => port_reads h
  writes_port
    | 0, _, h => @port_writes (fun i => sds.length + 2 + 2 + i) 0 _ (fun _ => rfl) _ h
    | _ + 1, _, h => port_writes (fun _ => rfl) h

end FBClass

/-- A data port of a generic function block. -/
inductive DataPort
  | input (x : DataInput)
  | output (y : DataOutput)
  deriving DecidableEq

namespace FBClass

variable (fb : FBClass)

/-- `getNumDIs`. -/
def numDIs : ℕ := fb.mDINames.length

/-- `getNumDOs`. -/
def numDOs : ℕ := fb.mDONames.length

/-- `getPortId`; an index that is equal to `cgInvalidPortId` is not told from a name that is not
there. -/
def getPortId (name : StringId) (names : List StringId) : Option ℕ :=
  (names.idxOf? name).filter (· ≠ 65535)

/-- `getAbsDataPortNum`; `INVALID_ABS_DATA_PORT_ID` is `none`. -/
def getAbsDataPortNum (paPortNameId : StringId) : Option ℕ :=
  (getPortId paPortNameId fb.mDINames).or
    ((getPortId paPortNameId fb.mDONames).map (fb.numDIs + ·))

/-- The variable that `getVar` finds for a name. -/
def getVar (name : StringId) : Option DataPort :=
  ((getPortId name fb.mDINames).map fun i => .input (getDI i)).or
    ((getPortId name fb.mDONames).map fun i => .output (getDO i))

/-- The data port of a number. -/
def portAt (p : ℕ) : DataPort :=
  if p < fb.numDIs then .input (getDI p) else .output (getDO (p - fb.numDIs))

end FBClass

/-! ### Forcing, and events -/

namespace PortState

variable {cgMaxSupportedForceIndex : ℕ} {Value : Type}

/-- `isForced`. -/
def isForced (s : PortState cgMaxSupportedForceIndex Value) (paAbsDataPortNum : ℕ) : Bool :=
  if h : paAbsDataPortNum < cgMaxSupportedForceIndex then s.mForces ⟨paAbsDataPortNum, h⟩
  else false

/-- What a data port holds. -/
def value (s : PortState cgMaxSupportedForceIndex Value) : DataPort → Value
  | .input x => s.inputs x
  | .output y => s.outputs y

/-- The state behind an assignment to the variable of a data port. -/
def assign (s : PortState cgMaxSupportedForceIndex Value) (v : Value) :
    DataPort → PortState cgMaxSupportedForceIndex Value
  | .input x => { s with inputs := Function.update s.inputs x v }
  | .output y => { s with outputs := Function.update s.outputs y v }

variable (F : ValueOps Value) (fb : FBClass) (s : PortState cgMaxSupportedForceIndex Value)

/-- `setForced` of a number; a number that has no bit is refused without a word to the caller. -/
def setForcedAt (paAbsDataPortNum : ℕ) (paForceValue : Bool) :
    PortState cgMaxSupportedForceIndex Value :=
  if h : paAbsDataPortNum < cgMaxSupportedForceIndex then
    let s := { s with mForces := Function.update s.mForces ⟨paAbsDataPortNum, h⟩ paForceValue }
    if paForceValue ∧ fb.numDIs ≤ paAbsDataPortNum ∧
        paAbsDataPortNum < fb.numDIs + fb.numDOs then
      -- the forced value of an output goes to its connection
      let y := getDO (paAbsDataPortNum - fb.numDIs)
      { s with
        connections :=
          Function.update s.connections y (F.setValue (s.connections y) (s.outputs y)) }
    else s
  else s

/-- `setForced` of names, and whether they are those of a port. -/
def setForced (paForce : Bool) :
    List StringId → Bool × PortState cgMaxSupportedForceIndex Value
  | [] => (false, s)
  | name :: names =>
    match fb.getAbsDataPortNum name with
    | some absDataPortNum =>
      if names = [] then (true, s.setForcedAt F fb absDataPortNum paForce) else (false, s)
    | none => (false, s)

/-- `writeValue` with a force, for the names behind that of the function block. -/
def writeValue (paValue : Text) :
    List StringId → EMGMResponse × PortState cgMaxSupportedForceIndex Value
  | [] => (.noSuchObject, s)
  | name :: members =>
    match fb.getVar name with
    | none => (.noSuchObject, s)
    | some port =>
      match F.fromString members paValue (s.value port) with
      | none => (.noSuchObject, s)
      | some (v, whole) =>
        if paValue = [] then (.badParams, s)
        else
          let s := s.assign v port
          if ¬whole then (.badParams, s)
          else
            let (found, s) := s.setForced F fb true (name :: members)
            if found then (.ready, s) else (.noSuchObject, s)

/-- `readData`: what a variable holds behind it. -/
def readData (paAbsDataPortNum : ℕ) (paValue : Value) : Option (Value → Value) → Value
  | none => paValue
  | some read => if s.isForced paAbsDataPortNum then paValue else read paValue

/-- `writeData`: what the connection holds behind it. -/
def writeData (paAbsDataPortNum : ℕ) (paValue connection : Value) : Value :=
  if s.isForced paAbsDataPortNum then connection else F.setValue connection paValue

/-- `readInputData`. -/
def readInputData (connected : InputConnections Value) (paEI : ℕ) :
    PortState cgMaxSupportedForceIndex Value :=
  { s with
    inputs := Updates.updateAll Prod.snd (fun call v => s.readData call.1 v (connected call.2))
      (fb.readInputData paEI) s.inputs }

/-- `writeOutputData`. -/
def writeOutputData (paEO : ℕ) : PortState cgMaxSupportedForceIndex Value :=
  { s with
    connections :=
      Updates.updateAll Prod.snd (fun call v => s.writeData F call.1 (s.outputs call.2) v)
        (fb.writeOutputData paEO) s.connections }

/-- `sendOutputEvent`, without what the event leads to. -/
def sendOutputEvent (paEO : ℕ) : PortState cgMaxSupportedForceIndex Value :=
  if paEO < fb.numEOs then s.writeOutputData F fb paEO else s

/-- `resetForcedOutputs`. -/
def resetForcedOutputs : PortState cgMaxSupportedForceIndex Value :=
  { s with
    outputs := Updates.updateAll getDO
      (fun index v =>
        if s.isForced (fb.numDIs + index) then F.setValue v (s.connections (getDO index)) else v)
      (List.range fb.numDOs) s.outputs }

/-- An effect of `executeEvent`. -/
def effect : PortEffect Value → PortState cgMaxSupportedForceIndex Value
  | .assign y v => s.assign v (.output y)
  | .sendOutputEvent paEO => s.sendOutputEvent F fb paEO

/-- `receiveInputEvent`. -/
def receiveInputEvent (paEIID : ℕ) (connected : InputConnections Value)
    (effects : List (PortEffect Value)) : PortState cgMaxSupportedForceIndex Value :=
  if s.mFBState = .running then
    let s := if paEIID < fb.numEIs then s.readInputData fb connected paEIID else s
    let s := effects.foldl (effect F fb) s
    if ∃ i, s.mForces i then s.resetForcedOutputs F fb else s
  else s

/-- The state behind a step. -/
def next (s : PortState cgMaxSupportedForceIndex Value) :
    PortStep Value → PortState cgMaxSupportedForceIndex Value
  | .force paNameList paValue => (s.writeValue F fb paValue paNameList).2
  | .clearForce paNameList => (s.setForced F fb false paNameList).2
  | .inputEvent paEIID connected effects => s.receiveInputEvent F fb paEIID connected effects
  | .outputEvent paEOID => s.sendOutputEvent F fb paEOID
  | .receive y v => s.assign v (.output y)

end PortState

end Forte
