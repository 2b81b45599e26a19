import Forte.Lib.References
import Forte.Network.PortType

/-!
# The network of a resource

The function blocks of a resource and the connections between them, as the objects of the
source refer to each other. The heap is kept field by field: `s.connRefCount b` is the
`mConnRefCount` of the function block `b`, `s.diConn b p` the connection object that its
`p`-th data input points at, and so on. A function block is a number, and no number is
given to a second one, so that a reference to a block that is gone stays recognizable.

A connection belongs to the function block at its source, except for the delegating ones
(members and negations of a data output) and the gathering ones, which are made for one
data input and are kept at it.

The resource is block `0`; it has no ports of its own, like `EMB_RES`. A function block may
have others in it, which are addressed through it: those in an adapter pin or in a
composite. The wiring that a composite makes of the blocks in it when it is created is left
out, and so are ports of type `ANY_ADAPTER`.
-/

namespace Forte

/-- A function block, `CFunctionBlock *`. -/
abbrev FBId := ℕ

/-- `TPortId`, the place of a port among those of its kind. -/
abbrev PortId := ℕ

/-- `CConnectionPoint`. -/
structure ConnectionPoint where
  /-- `mFB`. -/
  fb : FBId
  /-- `mPortId`. -/
  port : PortId
  deriving DecidableEq, Repr

/-- `SFBInterfaceSpec`, with the types of the ports. The names of the inputs of a kind are
different. -/
structure InterfaceSpec where
  /-- `mEINames`. -/
  eiNames : List StringId := []
  /-- `mEITypeNames`. -/
  eiTypeNames : List StringId := []
  /-- `mEONames`. -/
  eoNames : List StringId := []
  /-- `mDINames`. -/
  diNames : List StringId := []
  /-- `mDONames`. -/
  doNames : List StringId := []
  /-- `mDIONames`. -/
  dioNames : List StringId := []
  /-- `mSocketNames`. -/
  socketNames : List StringId := []
  /-- `mPlugNames`. -/
  plugNames : List StringId := []
  /-- The types of the data inputs. -/
  diTypes : List PortType := []
  /-- The types of the data outputs. -/
  doTypes : List PortType := []
  /-- The types of the in-outs. -/
  dioTypes : List PortType := []
  /-- The adapter types of the sockets. -/
  socketTypes : List StringId := []
  /-- The adapter types of the plugs. -/
  plugTypes : List StringId := []
  eiNodup : eiNames.Nodup := by first | exact List.nodup_nil | decide
  diNodup : diNames.Nodup := by first | exact List.nodup_nil | decide
  dioNodup : dioNames.Nodup := by first | exact List.nodup_nil | decide
  socketNodup : socketNames.Nodup := by first | exact List.nodup_nil | decide

instance : Inhabited InterfaceSpec := ⟨{}⟩

/-- `getPortId`; `cgInvalidPortId` is `none`. -/
def getPortId (name : StringId) (names : List StringId) : Option PortId := names.idxOf? name

/-- A data connection that is part of a function block. -/
inductive BaseConnection
  /-- A `COutDataConnection`, of a data output. -/
  | out (src : ConnectionPoint)
  /-- A `CInOutDataConnection`, of an in-out. -/
  | inOut (src : ConnectionPoint)
  deriving DecidableEq, Repr

/-- `mSourceId`. -/
def BaseConnection.src : BaseConnection → ConnectionPoint
  | out src => src
  | inOut src => src

/-- A `CDataConnection *`, the gathering ones apart. A delegating connection is an object of
its own, told apart by `ptr`, and refers to the variable of the base connection whose source
it has; `value` is the base connection that the variable is in. -/
inductive DataConnection
  | base (c : BaseConnection)
  /-- `CMemberDataConnection`. -/
  | member (c : BaseConnection) (ptr : ℕ) (value : BaseConnection) (name : List StringId)
  /-- `CNegatingDataConnection`. -/
  | negating (c : BaseConnection) (ptr : ℕ) (value : BaseConnection)
  deriving DecidableEq, Repr

namespace DataConnection

/-- The base connection whose source a connection has. -/
def origin : DataConnection → BaseConnection
  | base c => c
  | member c _ _ _ => c
  | negating c _ _ => c

/-- `mSourceId`. -/
def src (c : DataConnection) : ConnectionPoint := c.origin.src

/-- `isDelegating`. -/
def isDelegating : DataConnection → Bool
  | base _ => false
  | member _ _ _ _ => true
  | negating _ _ _ => true

end DataConnection

/-- What a data input may point at. -/
inductive InputConnection
  | single (c : DataConnection)
  /-- A `CGatheringDataConnection` with its `mGatheringData`: the names that lead to the
  member, and its connection. -/
  | gathering (members : List (List StringId × DataConnection))
  deriving DecidableEq, Repr

namespace InputConnection

/-- The connections that end at a data input. -/
def connections : InputConnection → List DataConnection
  | single c => [c]
  | gathering members => members.map (·.2)

/-- `isGathering`. -/
def isGathering : InputConnection → Bool
  | single _ => false
  | gathering _ => true

/-- `getMemberConnection`. The gathered struct itself has no connection. -/
def getMemberConnection (names : List StringId) : InputConnection → Option DataConnection
  | single c => if names = [] then some c else none
  | gathering members => (members.find? (·.1 = names)).map (·.2)

end InputConnection

/-- A `CConnection *` as the names of a source lead to it. -/
inductive Connection
  /-- A `CEventConnection`. -/
  | event (src : ConnectionPoint)
  | data (c : DataConnection)
  /-- A `CAdapterConnection`. -/
  | adapter (src : ConnectionPoint)
  deriving DecidableEq, Repr

/-- A child of a container: a plain container or a function block. -/
inductive Entry
  | folder
  | block (b : FBId)
  deriving DecidableEq, Repr

/-- The types that the variables of the function blocks have. -/
structure VariableTypes where
  /-- Of the data inputs. -/
  di : FBId → PortId → PortType
  /-- Of the data outputs. -/
  dout : FBId → PortId → PortType
  /-- Of the values in the connections of the data outputs. -/
  out : FBId → PortId → PortType
  /-- Of the in-outs. -/
  dio : FBId → PortId → PortType
  /-- Of the values that the in-outs define. -/
  inOut : FBId → PortId → PortType

/-- The state of a resource, field by field. -/
structure Network where
  /-- The number of the next function block. -/
  next : FBId
  /-- The number of the next delegating connection. -/
  nextPtr : ℕ
  /-- What the names lead to, from the resource on. -/
  dir : List StringId → Option Entry
  /-- Whether the function block exists. -/
  live : FBId → Bool
  /-- `getFullQualifiedApplicationInstanceName`. -/
  name : FBId → List StringId
  /-- `getFBInterfaceSpec`. -/
  spec : FBId → InterfaceSpec
  /-- `mDeletable`. -/
  deletable : FBId → Bool
  /-- `mFBState`. -/
  state : FBId → FBState
  /-- `mConnRefCount`. -/
  connRefCount : FBId → ℕ
  /-- Whether a counter was ever counted down from zero; the source does not keep this. -/
  underflow : Bool
  /-- `mInputEventConnectionCount`. -/
  inputEventConnectionCount : FBId → PortId → ℕ
  /-- `mDestinationIds` of the event connections. -/
  eoDests : FBId → PortId → List ConnectionPoint
  /-- The connections of the data inputs. -/
  diConn : FBId → PortId → Option InputConnection
  /-- The connections into the in-outs. -/
  dioInConn : FBId → PortId → Option ConnectionPoint
  /-- `mInOutDestinationIds` of the in-outs. -/
  dioDests : FBId → PortId → List ConnectionPoint
  /-- `mValue` of the in-outs: whose `mDefiningValue` it points at. -/
  dioValue : FBId → PortId → ConnectionPoint
  /-- `mSocket` of the connections of the plugs. -/
  plugSocket : FBId → PortId → Option ConnectionPoint
  /-- `mAdapterCon` of the sockets. -/
  socketConn : FBId → PortId → Option ConnectionPoint
  /-- The types of the variables. -/
  types : VariableTypes

/-- A resource as it is created: a function block without ports. -/
def Network.initial : Network where
  next := 1
  nextPtr := 0
  dir := fun names => if names = [] then some (.block 0) else none
  live := fun b => b = 0
  name := fun _ => []
  spec := fun _ => {}
  deletable := fun _ => true
  state := fun _ => .idle
  connRefCount := fun _ => 0
  underflow := false
  inputEventConnectionCount := fun _ _ => 0
  eoDests := fun _ _ => []
  diConn := fun _ _ => none
  dioInConn := fun _ _ => none
  dioDests := fun _ _ => []
  dioValue := fun b p => ⟨b, p⟩
  plugSocket := fun _ _ => none
  socketConn := fun _ _ => none
  types :=
    { di := fun _ _ => default
      dout := fun _ _ => default
      out := fun _ _ => default
      dio := fun _ _ => default
      inOut := fun _ _ => default }

namespace Network

/-! ### The counters -/

/-- `incConnRefCount`. -/
def incConnRefCount (s : Network) (b : FBId) : Network :=
  { s with connRefCount := countUp s.connRefCount b }

/-- `decConnRefCount`; the counter is a `size_t`. -/
def decConnRefCount (s : Network) (b : FBId) : Network :=
  { s with
    connRefCount := countDown 64 s.connRefCount b
    underflow := s.underflow || s.connRefCount b == 0 }

/-- Whether the event inputs of a function block are counted one by one. -/
def tracksInputs (s : Network) (b : FBId) : Bool := !(s.spec b).eiTypeNames.isEmpty

/-- `addInputEventConnection`. -/
def addInputEventConnection (s : Network) (b : FBId) (ei : PortId) : Network :=
  { s with
    inputEventConnectionCount :=
      if s.tracksInputs b then
        setAt s.inputEventConnectionCount b ei (s.inputEventConnectionCount b ei + 1)
      else s.inputEventConnectionCount }.incConnRefCount b

/-- `removeInputEventConnection`. -/
def removeInputEventConnection (s : Network) (b : FBId) (ei : PortId) : Network :=
  { s with
    inputEventConnectionCount :=
      if s.tracksInputs b && 0 < s.inputEventConnectionCount b ei then
        setAt s.inputEventConnectionCount b ei (s.inputEventConnectionCount b ei - 1)
      else s.inputEventConnectionCount }.decConnRefCount b

/-! ### Variables and their types -/

/-- The variable that `getValue` of a base connection returns, named by the connection it
is in. -/
def variableOf (s : Network) : BaseConnection → BaseConnection
  | .out src => .out src
  | .inOut src => .inOut (s.dioValue src.fb src.port)

/-- The type of a variable. -/
def variableType (s : Network) : BaseConnection → PortType
  | .out p => s.types.out p.fb p.port
  | .inOut p => s.types.inOut p.fb p.port

/-- A variable changes its type. -/
def setVariableType (s : Network) (v : BaseConnection) (t : PortType) : Network :=
  match v with
  | .out p => { s with types.out := setAt s.types.out p.fb p.port t }
  | .inOut p => { s with types.inOut := setAt s.types.inOut p.fb p.port t }

/-- The type of what `getValue` returns. -/
def valueType (s : Network) : DataConnection → PortType
  | .base c => s.variableType (s.variableOf c)
  | .member _ _ value names => ((s.variableType value).getVar names).getD default
  | .negating _ _ _ => .simple .bool

/-- `getValue().setValue`, as far as it changes types. -/
def setValueType (s : Network) (c : DataConnection) (t : PortType) : Network :=
  match c with
  | .base c =>
    let v := s.variableOf c
    s.setVariableType v ((s.variableType v).setVar t [])
  | .member _ _ value names =>
    s.setVariableType value ((s.variableType value).setVar t names)
  | .negating _ _ _ => s

/-- `configureGenericDI`. -/
def configureGenericDI (s : Network) (b : FBId) (di : PortId) (ref : PortType) : Network :=
  if (s.types.di b di).getDataTypeID = .any then
    { s with types.di := setAt s.types.di b di ((s.types.di b di).setValue ref.unwrap) }
  else s

/-- `configureGenericDO`. -/
def configureGenericDO (s : Network) (b : FBId) (dout : PortId) (ref : PortType) : Network :=
  if dout < (s.spec b).doNames.length && (s.types.dout b dout).getDataTypeID = .any then
    { s with types.dout := setAt s.types.dout b dout ((s.types.dout b dout).setValue ref.unwrap) }
  else s

/-- `configureGenericDIO`, without the bounds of arrays. -/
def configureGenericDio (s : Network) (b : FBId) (dio : PortId) (ref : PortType) : Network :=
  if (s.types.dio b dio).getDataTypeID = .any then
    { s with types.dio := setAt s.types.dio b dio ((s.types.dio b dio).setValue ref.unwrap) }
  else s

/-- `CDataConnection::handleAnySrcPortConnection`. -/
def handleAnySrcPortConnection (s : Network) (c : DataConnection) (dst : PortType) : Network :=
  if dst.getDataTypeID ≠ .any then
    (s.setValueType c dst.unwrap).configureGenericDO c.src.fb c.src.port dst
  else s

/-! ### The inputs -/

/-- The type of what `getValue` of a connection at a data input returns. The value of a
gathering connection is the data input itself. -/
def inputValueType (s : Network) (b : FBId) (di : PortId) : InputConnection → PortType
  | .single c => s.valueType c
  | .gathering _ => s.types.di b di

/-- `CFunctionBlock::connectDI` with a connection. -/
def connectDI (s : Network) (b : FBId) (di : PortId) (c : InputConnection) : Network × Bool :=
  if (s.spec b).diNames.length ≤ di then (s, false)
  else if (s.diConn b di).isSome && s.diConn b di ≠ some c then (s, false)
  else
    let value := s.inputValueType b di c
    ({ s with diConn := setAt s.diConn b di (some c) }.configureGenericDI b di value, true)

/-- `CFunctionBlock::connectDI` without one. -/
def disconnectDI (s : Network) (b : FBId) (di : PortId) : Network :=
  { s with diConn := setAt s.diConn b di none }

/-- `CFunctionBlock::connectDIO` with the connection of the in-out `src`, where `setValue`
stands for `CInOutDataConnection::setValue`. -/
def connectDIOWith (setValue : Network → ConnectionPoint → ConnectionPoint → Network)
    (s : Network) (dst src : ConnectionPoint) : Network × Bool :=
  if (s.spec dst.fb).dioNames.length ≤ dst.port then (s, false)
  else if (s.dioInConn dst.fb dst.port).isSome && s.dioInConn dst.fb dst.port ≠ some src then
    (s, false)
  else
    let s := { s with dioInConn := setAt s.dioInConn dst.fb dst.port (some src) }
    let s := setValue s dst (s.dioValue src.fb src.port)
    let value := s.variableType (s.variableOf (.inOut src))
    (s.configureGenericDio dst.fb dst.port value, true)

/-- `CInOutDataConnection::setValue`: the in-out at `pt` points at the value of `owner` now,
and tells the in-outs it is connected to. These calls go on along the connections, of which
an in-out takes part in at most one as the destination; the first argument bounds how far. -/
def setValue : ℕ → Network → ConnectionPoint → ConnectionPoint → Network
  | 0, s, _, _ => s
  | n + 1, s, pt, owner =>
    let s := { s with dioValue := setAt s.dioValue pt.fb pt.port owner }
    (s.dioDests pt.fb pt.port).foldl (fun s d => (connectDIOWith (setValue n) s d pt).1) s

/-- The number of in-outs there are, which no chain of in-out connections exceeds. -/
def dioCount (s : Network) : ℕ :=
  ((List.range s.next).map fun b => (s.spec b).dioNames.length).sum

/-- `CFunctionBlock::connectDIO` with the connection of the in-out `src`. -/
def connectDIO (s : Network) (dst src : ConnectionPoint) : Network × Bool :=
  connectDIOWith (setValue (s.dioCount + 1)) s dst src

/-- `CFunctionBlock::connectDIO` without a connection. -/
def disconnectDio (s : Network) (dst : ConnectionPoint) : Network :=
  { s with dioInConn := setAt s.dioInConn dst.fb dst.port none }

end Network

end Forte
