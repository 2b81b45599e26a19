import Forte.Datatypes.Value
import Forte.Management.Container

/-!
# The data types of ports

What the connection commands ask of a data point is its data type: whether it is of type
`ANY`, which types can be cast into which, and what the member of a struct with a given
name is. A `Forte.PortType` is a data point without its value.

A variable of type `ANY` (`CIEC_ANY_VARIANT`) stays one for good: `getDataTypeID` answers
`e_ANY` whatever the variable holds. What changes when it is connected is the type of the
value in it.
-/

namespace Forte

namespace EDataTypeID

/-- The rows of `UpCast` in `CIEC_ANY::isCastable`, from `e_BOOL` to `e_WSTRING`. -/
def upCast : List (BitVec 32) :=
  [0b11111111_11111000_00000001_10000000, 0b01111000_01111000_00000001_10000000,
   0b00111000_00111000_00000001_10000000, 0b00011000_00011000_00000000_10000000,
   0b00001000_00001000_00000000_00000000, 0b00111111_11111000_00000001_10000000,
   0b00011011_10111000_00000001_10000000, 0b00001001_10011000_00000000_10000000,
   0b00000000_10001000_00000000_00000000, 0b01111111_11111000_00000000_00000000,
   0b00111011_10111000_00000000_00000000, 0b00011001_10011000_00000001_00000000,
   0b00001000_10001000_00000001_10000000, 0b00000000_00000100_00010000_00010000,
   0b00000000_00000010_00001000_00000000, 0b00000000_00000001_00000100_00000000,
   0b00000000_00000000_10000010_00000000, 0b00000000_00000000_01000000_01000000,
   0b00000000_00000000_00100000_00100000, 0b00000000_00000000_00010000_00010000,
   0b00000000_00000000_00001000_00000000, 0b00000000_00000000_00000100_00000000,
   0b00000000_00000000_00000010_00000000, 0b00000000_00011000_00000001_10000000,
   0b00000000_00001000_00000000_10000000, 0b00000000_00000000_00000000_01000000,
   0b00000000_00000000_00000000_00100000]

/-- The rows of `DownCast`. -/
def downCast : List (BitVec 32) :=
  [0b00000000_00000000_00000000_00000000, 0b10000111_10000000_00000000_00000000,
   0b11000111_11000000_00000000_00000000, 0b11100111_11100000_00000001_00000000,
   0b11110111_11110000_00000001_10000000, 0b11000000_00000000_00000000_00000000,
   0b11100100_01000000_00000000_00000000, 0b11110110_01100000_00000001_00000000,
   0b11111111_01110000_00000001_10000000, 0b10000000_00000000_00000001_10000000,
   0b11000100_01000000_00000001_10000000, 0b11100110_01100000_00000000_10000000,
   0b11110111_01110000_00000000_00000000, 0b00000000_00000000_00000000_00000000,
   0b00000000_00000000_00000000_00000000, 0b00000000_00000000_00000000_00000000,
   0b00000000_00000000_00000000_00000000, 0b00000000_00000000_00000000_00000000,
   0b00000000_00000000_00000000_00000000, 0b00000000_00000000_00000000_00000000,
   0b00000000_00000000_00000000_00000000, 0b00000000_00000000_00000000_00000000,
   0b00000000_00000000_00000000_00000000, 0b11111111_11100000_00000000_00000000,
   0b11111111_11110000_00000001_00000000, 0b00000000_00000000_00000000_00000000,
   0b00000000_00000000_00000000_00000000]

/-- From `e_BOOL` to `e_WSTRING`. -/
def inCastTables (id : EDataTypeID) : Bool :=
  EDataTypeID.bool.toNat ≤ id.toNat && id.toNat ≤ EDataTypeID.wstring.toNat

/-- `CIEC_ANY::isCastable`. -/
def isCastable (source destination : EDataTypeID) : Bool :=
  if source.inCastTables && destination.inCastTables then
    let row := source.toNat - EDataTypeID.bool.toNat
    let bit := destination.toNat - EDataTypeID.bool.toNat
    (upCast.getD row 0).getMsbD bit || (downCast.getD row 0).getMsbD bit
  else false

end EDataTypeID

/-- The data type of a port, with the types of what is in it. -/
inductive PortType
  /-- A type without members. -/
  | simple (id : EDataTypeID)
  /-- A struct with its members. -/
  | struct (members : List (StringId × PortType))
  /-- A variable of type `ANY` and the type of the value it holds. -/
  | any (content : PortType)

namespace PortType

/-- What an `ANY` holds before it is set: the first of the types it can hold. -/
def anyVariant : PortType := any (simple .sint)

instance : Inhabited PortType := ⟨anyVariant⟩

/-- `getDataTypeID`. -/
def getDataTypeID : PortType → EDataTypeID
  | simple id => id
  | struct _ => .struct
  | any _ => .any

/-- `unwrap`. -/
def unwrap : PortType → PortType
  | any content => content.unwrap
  | t => t

/-- `getVar`, the member under a list of names. Only a struct has members, one held in an
`ANY` has none. -/
def getVar (t : PortType) : List StringId → Option PortType
  | [] => some t
  | name :: names =>
    match t with
    | struct members =>
      match members.find? (·.1 = name) with
      | some (_, m) => m.getVar names
      | none => none
    | _ => none

/-- The types that a `CIEC_ANY_VARIANT` takes over; of a derived type it takes nothing. -/
def fitsVariant : PortType → Bool
  | simple id => id.inCastTables || id = .array
  | struct _ => true
  | any _ => false

/-- `setValue` with the value of a data point, as far as it changes types: an `ANY` takes
the type over. -/
def setValue (t value : PortType) : PortType :=
  match t with
  | any _ => if value.unwrap.fitsVariant then any value.unwrap else t
  | _ => t

/-- `setValue` on the member under a list of names. -/
def setVar (t : PortType) (value : PortType) : List StringId → PortType
  | [] => t.setValue value
  | name :: names =>
    match t with
    | struct members =>
      struct (members.map fun m => if m.1 = name then (m.1, m.2.setVar value names) else m)
    | _ => t

/-- `CDataConnection::canBeConnected`. -/
def canBeConnected (source destination : PortType) : Bool :=
  let srcId := source.getDataTypeID
  let dstId := destination.getDataTypeID
  if srcId = dstId then true
  else if (srcId = .any && dstId ≠ .any) || (srcId ≠ .any && dstId = .any) then true
  else srcId.isCastable dstId

end PortType

/-- The tables allow what the type names say: a `BOOL` into an `INT`, an `INT` into a
`SINT`, but no `STRING` into an `INT`. -/
example : EDataTypeID.isCastable .bool .int = true ∧ EDataTypeID.isCastable .int .sint = true ∧
    EDataTypeID.isCastable .string .int = false := by decide

end Forte
