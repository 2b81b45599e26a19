import Forte.Lib.Counter
import Forte.Network.Network

/-!
# Composite function blocks

A composite function block (`CCompositeFB`) has function blocks in it, and a description of
the connections between these and its own interface. When it is initialized it makes these
connections with the `connect` of the connection classes, the same code that serves the
connection commands: a data connection counts up at the function block it begins at, an
event connection at the one it leads to, in-out and adapter connections at both.

A port of the interface has connections on two sides. The ones outside belong to the function
block as to any other; the ones inside (`mInterface2InternalEventCons`, `getIf2InConUnchecked`,
`getDIOOutConInternalUnchecked`) begin at an input of the interface, and have the composite as
the function block they count at. `createDataConnections` means to take these counts back.

What the data types of the ports decide, and with it what a generic port does when it is
connected, is a parameter (`Forte.Composite.PortRules`): it says which connections can be made,
and moves no counter. `createInternalFBs` is the one of `CCompositeFB` itself, which does
nothing.
-/

namespace Forte

namespace Composite

/-! ### Function blocks and descriptions -/

/-- `SCFB_FBConnectionData`. The empty name is the interface of the composite. -/
structure FBConnectionData where
  /-- `mSrcFBNameId`. -/
  srcFBNameId : StringId
  /-- `mSrcId`, as `getIds` returns it. -/
  srcId : List StringId
  /-- `mDstFBNameId`. -/
  dstFBNameId : StringId
  /-- `mDstId`. -/
  dstId : List StringId

/-- `SCFB_FBNData`. The entries lie in one address space. -/
structure FBNData where
  /-- `mEventConnections`. -/
  eventConnections : List FBConnectionData
  /-- `mDataConnections`. -/
  dataConnections : List FBConnectionData
  /-- `mAdapterConnections`. -/
  adapterConnections : List FBConnectionData
  size_lt : eventConnections.length + dataConnections.length + adapterConnections.length <
    2 ^ 64 := by decide

/-- A function block with the ones in it: those of a composite, and the adapters in the pins
of any. A composite has a description of its connections. -/
inductive Block
  | mk (id : FBId) (name : StringId) (spec : InterfaceSpec) (net : Option FBNData)
    (children : List Block)

namespace Block

/-- What tells the function block from others. -/
def id : Block → FBId
  | mk id _ _ _ _ => id

/-- `getInstanceNameId`. -/
def name : Block → StringId
  | mk _ name _ _ _ => name

/-- `getFBInterfaceSpec`. -/
def spec : Block → InterfaceSpec
  | mk _ _ spec _ _ => spec

/-- `cmFBNData`. -/
def net : Block → Option FBNData
  | mk _ _ _ net _ => net

/-- `getChildren`. -/
def children : Block → List Block
  | mk _ _ _ _ children => children

/-- `getFB`, which for the children there are is `getChild`. -/
def getFB (b : Block) (name : StringId) : Option Block :=
  if name = "" then none else b.children.find? (·.name = name)

mutual

/-- A function block and the ones in it, at any depth. -/
def nodes : Block → List Block
  | mk id name spec net children => mk id name spec net children :: nodesAll children

/-- The same for a list of function blocks. -/
def nodesAll : List Block → List Block
  | [] => []
  | b :: bs => nodes b ++ nodesAll bs

end

/-- The function blocks inside, at any depth. -/
def internals (b : Block) : List Block := nodesAll b.children

/-- The function block and the ones inside, by what tells them apart. -/
def ids (b : Block) : List FBId := b.nodes.map id

end Block

/-- A `CCompositeFB`. The function blocks in it are objects of their own. -/
structure CompositeFB where
  block : Block
  /-- `cmFBNData`. -/
  net : FBNData
  net_eq : block.net = some net := by rfl
  nodup : block.ids.Nodup := by decide

/-! ### Connections -/

/-- The side of the interface of its function block that a connection object is on. -/
inductive Side
  | outer | inner
  deriving DecidableEq, Repr

/-- A port, from one side. In a list of destinations the inner side is the
`cgInternal2InterfaceMarker`. -/
structure Pin where
  side : Side
  point : ConnectionPoint
  deriving DecidableEq, Repr

/-- A data connection that is part of a function block. -/
inductive PortConnection
  | out (pin : Pin)
  /-- A `CInOutDataConnection`. -/
  | inOut (pin : Pin)
  deriving DecidableEq, Repr

/-- `mSourceId`. -/
def PortConnection.src : PortConnection → ConnectionPoint
  | out pin => pin.point
  | inOut pin => pin.point

/-- A `CDataConnection *`, the gathering ones apart. -/
structure InternalData where
  /-- The connection whose source it has. -/
  origin : PortConnection
  /-- For a delegating connection what tells it from others, and the names it delegates to: a
  member, or `NOT`. -/
  delegate : Option (ℕ × List StringId) := none
  deriving DecidableEq, Repr

/-- A `CConnection *`. -/
inductive InternalConnection
  /-- A `CEventConnection`. -/
  | event (pin : Pin)
  | data (c : InternalData)
  /-- The `CAdapterConnection` of a plug. -/
  | adapter (plug : ConnectionPoint)
  deriving DecidableEq, Repr

/-- The function block of `mSourceId`. -/
def InternalConnection.source : InternalConnection → FBId
  | event pin => pin.point.fb
  | data c => c.origin.src.fb
  | adapter plug => plug.fb

/-- Whether `connect` counts at the function block the connection begins at. -/
def InternalConnection.countsAtSource : InternalConnection → Bool
  | event _ => false
  | data _ => true
  | adapter _ => true

/-- What a data input may point at. -/
inductive InputPointer
  | single (c : InternalData)
  /-- A `CGatheringDataConnection` with its `mGatheringData`. -/
  | gathering (members : List (List StringId × InternalData))
  deriving DecidableEq, Repr

/-- A variable that data can be brought to. -/
inductive DataPoint
  /-- A data input. -/
  | di (point : ConnectionPoint)
  /-- A data output. -/
  | dout (point : ConnectionPoint)
  /-- An in-out. -/
  | dio (point : ConnectionPoint)
  deriving DecidableEq, Repr

/-! ### The state -/

/-- What a function block keeps for its deletion. -/
structure BlockState where
  /-- `mConnRefCount`. -/
  connRefCount : Counter 64 := .zero
  /-- `mInputEventConnectionCount`. -/
  inputEventConnectionCount : PortId → BitVec 64 := fun _ => 0#64
  /-- `mDeletable`. -/
  deletable : Bool := true
  /-- `mFBState`. -/
  state : FBState := .idle

namespace BlockState

/-- `incConnRefCount`. -/
def incConnRefCount (b : BlockState) : BlockState := { b with connRefCount := b.connRefCount.up }

/-- `decConnRefCount`. -/
def decConnRefCount (b : BlockState) : BlockState :=
  { b with connRefCount := b.connRefCount.down }

/-- `setupInputConnectionTrackingData`. -/
def setupInputConnectionTrackingData (spec : InterfaceSpec) (b : BlockState) : BlockState :=
  if spec.eiTypeNames.isEmpty then b else { b with inputEventConnectionCount := fun _ => 0#64 }

/-- `addInputEventConnection`. -/
def addInputEventConnection (spec : InterfaceSpec) (ei : PortId) (b : BlockState) : BlockState :=
  incConnRefCount
    (if spec.eiTypeNames.isEmpty then b
    else
      { b with
        inputEventConnectionCount := Function.update b.inputEventConnectionCount ei
          (b.inputEventConnectionCount ei + 1#64) })

/-- `isCurrentlyDeleteable`. -/
def isCurrentlyDeleteable (b : BlockState) : Bool :=
  b.deletable && b.state ≠ .running && b.connRefCount.value == 0#64

end BlockState

/-- The function blocks and their connections, field by field. -/
structure Wiring (τ : Type) where
  /-- The number of the next delegating connection. -/
  nextPtr : ℕ
  blocks : FBId → BlockState
  /-- `mDestinationIds` of the event connections. -/
  destinations : Pin → List Pin
  /-- The connections of the data inputs. -/
  diConn : FBId → PortId → Option InputPointer
  /-- The connections into the in-outs. -/
  dioInConn : FBId → PortId → Option Pin
  /-- `mInOutDestinationIds`. -/
  dioDests : Pin → List ConnectionPoint
  /-- `mSocket` of the connections of the plugs. -/
  plugSocket : FBId → PortId → Option ConnectionPoint
  /-- `mAdapterCon` of the sockets. -/
  socketConn : FBId → PortId → Option ConnectionPoint
  /-- The variables of the ports, as far as the types decide about connections. -/
  types : τ

/-- What the types of the ports decide. -/
structure PortRules (τ : Type) where
  /-- Whether a data connection delegates to the names: they are `NOT` or lead to a member. -/
  delegates : τ → PortConnection → List StringId → Bool
  /-- Whether a variable is a struct in which the names lead to a member. -/
  hasMember : τ → DataPoint → List StringId → Bool
  /-- `canBeConnected`, or `handleAnySrcPortConnection` for a source of type `ANY`. Without
  an outcome the types do not fit. -/
  adaptSource : τ → InternalData → DataPoint → List StringId → Option τ
  /-- `configureGenericDI` with the value of the connection. -/
  configureGenericDI : τ → ConnectionPoint → InputPointer → τ × Bool
  /-- `setValue` of the in-out connection, and `configureGenericDIO`. -/
  configureGenericDio : τ → ConnectionPoint → Pin → τ × Bool
  /-- `isCompatible` of plug and socket, in one of the two directions. -/
  isCompatible : τ → ConnectionPoint → ConnectionPoint → Bool
  /-- `ISocketPin::connect`. -/
  connectSocket : τ → ConnectionPoint → ConnectionPoint → τ × Bool
  /-- `setInitialValues`. -/
  setInitialValues : τ → FBId → τ
  /-- `setFBNetworkInitialValues`. -/
  setFBNetworkInitialValues : τ → FBId → τ

namespace Wiring

variable {τ : Type}

/-- Function blocks as their constructors leave them. -/
def constructed (types : τ) : Wiring τ where
  nextPtr := 0
  blocks := fun _ => {}
  destinations := fun _ => []
  diConn := fun _ _ => none
  dioInConn := fun _ _ => none
  dioDests := fun _ => []
  plugSocket := fun _ _ => none
  socketConn := fun _ _ => none
  types := types

/-- A change at one function block. -/
def modify (s : Wiring τ) (b : FBId) (f : BlockState → BlockState) : Wiring τ :=
  { s with blocks := Function.update s.blocks b (f (s.blocks b)) }

end Wiring

/-! ### Connecting -/

/-- What a connection leaves: the wiring, and the response. -/
abbrev Outcome (τ : Type) := Wiring τ × EMGMResponse

section Connect

variable {τ : Type} (rules : PortRules τ)

/-- `CEventConnection::addDestination`. -/
def addDestination (s : Wiring τ) (pin dst : Pin) : Outcome τ :=
  if dst ∈ s.destinations pin then (s, .invalidState)
  else
    ({ s with destinations := Function.update s.destinations pin (s.destinations pin ++ [dst]) },
      .ready)

/-- `CEventConnection::connect`. -/
def connectEvent (s : Wiring τ) (pin : Pin) (dst : Block) : List StringId → Outcome τ
  | [name] =>
    match getPortId name dst.spec.eiNames with
    | none => (s, .noSuchObject)
    | some ei =>
      let (s, response) := addDestination s pin ⟨.outer, dst.id, ei⟩
      (s.modify dst.id (.addInputEventConnection dst.spec ei), response)
  | _ => (s, .noSuchObject)

/-- `CFunctionBlock::connectDI` with a connection. -/
def connectDI (s : Wiring τ) (dst : Block) (di : PortId) (c : InputPointer) : Wiring τ × Bool :=
  if dst.spec.diNames.length ≤ di then (s, false)
  else if (s.diConn dst.id di).isSome && s.diConn dst.id di ≠ some c then (s, false)
  else
    let (types, configured) := rules.configureGenericDI s.types ⟨dst.id, di⟩ c
    ({ s with diConn := setAt s.diConn dst.id di (some c), types := types }, configured)

/-- `CDataConnection::establishDataConnection`, to a data input. -/
def establishDataConnection (s : Wiring τ) (c : InternalData) (dst : Block) (di : PortId) :
    Outcome τ :=
  match rules.adaptSource s.types c (.di ⟨dst.id, di⟩) [] with
  | none => (s, .invalidOperation)
  | some types =>
    match connectDI rules { s with types := types } dst di (.single c) with
    | (s, true) => (s, .ready)
    | (s, false) => (s, .invalidState)

/-- `CGatheringDataConnection::addMemberConnection`, in the gathering connection of a data
input. -/
def addMemberConnection (s : Wiring τ) (dst : Block) (di : PortId)
    (members : List (List StringId × InternalData)) (names : List StringId)
    (c : InternalData) : Outcome τ :=
  if !rules.hasMember s.types (.di ⟨dst.id, di⟩) names then (s, .noSuchObject)
  else if members.any (·.1 = names) then (s, .invalidState)
  else
    ({ s with
        diConn := setAt s.diConn dst.id di (some (.gathering (members ++ [(names, c)]))) },
      .ready)

/-- `CDataConnection::establishGatheringConnection`, to a data input. -/
def establishGatheringConnection (s : Wiring τ) (c : InternalData) (dst : Block) (di : PortId)
    (names : List StringId) : Outcome τ :=
  if !rules.hasMember s.types (.di ⟨dst.id, di⟩) names then (s, .noSuchObject)
  else
    match rules.adaptSource s.types c (.di ⟨dst.id, di⟩) names with
    | none => (s, .invalidOperation)
    | some types =>
      let s := { s with types := types }
      match s.diConn dst.id di with
      | none =>
        match connectDI rules s dst di (.gathering []) with
        | (s, false) => (s, .invalidState)
        | (s, true) => addMemberConnection rules s dst di [] names c
      | some (.single _) => (s, .invalidState)
      | some (.gathering members) => addMemberConnection rules s dst di members names c

/-- `CDataConnection::connect`. -/
def connectData (s : Wiring τ) (c : InternalData) (dst : Block) : List StringId → Outcome τ
  | [] => (s, .noSuchObject)
  | name :: names =>
    match getPortId name dst.spec.diNames with
    | none => (s, .noSuchObject)
    | some di =>
      let (s, response) :=
        if names = [] then establishDataConnection rules s c dst di
        else establishGatheringConnection rules s c dst di names
      if response = .ready then (s.modify c.origin.src.fb .incConnRefCount, .ready)
      else (s, response)

/-- `CFunctionBlock::connectDIO` with the connection of an in-out. -/
def connectDio (s : Wiring τ) (dst : Block) (dio : PortId) (pin : Pin) : Wiring τ × Bool :=
  if dst.spec.dioNames.length ≤ dio then (s, false)
  else if (s.dioInConn dst.id dio).isSome && s.dioInConn dst.id dio ≠ some pin then (s, false)
  else
    let (types, configured) := rules.configureGenericDio s.types ⟨dst.id, dio⟩ pin
    ({ s with dioInConn := setAt s.dioInConn dst.id dio (some pin), types := types }, configured)

/-- `CInOutDataConnection::establishDataConnection`, to an in-out. -/
def establishInOutConnection (s : Wiring τ) (pin : Pin) (dst : Block) (dio : PortId) :
    Outcome τ :=
  match rules.adaptSource s.types ⟨.inOut pin, none⟩ (.dio ⟨dst.id, dio⟩) [] with
  | none => (s, .invalidOperation)
  | some types =>
    let s := { s with types := types }
    if (⟨dst.id, dio⟩ : ConnectionPoint) ∈ s.dioDests pin then (s, .invalidState)
    else
      match connectDio rules s dst dio pin with
      | (s, false) => (s, .invalidState)
      | (s, true) =>
        ({ s with
            dioDests := Function.update s.dioDests pin (s.dioDests pin ++ [⟨dst.id, dio⟩]) },
          .ready)

/-- `CInOutDataConnection::connect`: into a data input if there is one of that name, else
into an in-out. -/
def connectInOut (s : Wiring τ) (pin : Pin) (dst : Block) (names : List StringId) : Outcome τ :=
  match connectData rules s ⟨.inOut pin, none⟩ dst names with
  | (s, .noSuchObject) =>
    match names with
    | [name] =>
      match getPortId name dst.spec.dioNames with
      | none => (s, .noSuchObject)
      | some dio =>
        match establishInOutConnection rules s pin dst dio with
        | (s, .ready) =>
          ((s.modify dst.id .incConnRefCount).modify pin.point.fb .incConnRefCount, .ready)
        | (s, response) => (s, response)
    | _ => (s, .noSuchObject)
  | (s, response) => (s, response)

/-- `CAdapterConnection::connect`. -/
def connectAdapter (s : Wiring τ) (plug : ConnectionPoint) (dst : Block)
    (names : List StringId) : Outcome τ :=
  if (s.plugSocket plug.fb plug.port).isSome then (s, .invalidState)
  else
    match names with
    | [name] =>
      match getPortId name dst.spec.socketNames with
      | none => (s, .noSuchObject)
      | some socket =>
        if (s.socketConn dst.id socket).isSome then (s, .invalidState)
        else if !rules.isCompatible s.types plug ⟨dst.id, socket⟩ then (s, .invalidObject)
        else
          match rules.connectSocket s.types plug ⟨dst.id, socket⟩ with
          | (types, false) => ({ s with types := types }, .overflow)
          | (types, true) =>
            let s := { s with
              socketConn := setAt s.socketConn dst.id socket (some plug)
              plugSocket := setAt s.plugSocket plug.fb plug.port (some ⟨dst.id, socket⟩)
              types := types }
            ((s.modify dst.id .incConnRefCount).modify plug.fb .incConnRefCount, .ready)
    | _ => (s, .noSuchObject)

/-- `CConnection::connect`. A delegating connection of an in-out is not one of an in-out
itself. -/
def connect (s : Wiring τ) (c : InternalConnection) (dst : Block) (names : List StringId) :
    Outcome τ :=
  match c with
  | .event pin => connectEvent s pin dst names
  | .data ⟨.inOut pin, none⟩ => connectInOut rules s pin dst names
  | .data c => connectData rules s c dst names
  | .adapter plug => connectAdapter rules s plug dst names

/-! ### Connections to the interface -/

/-- `CEventConnection::connectToCFBInterface`. -/
def connectEventToInterface (s : Wiring τ) (pin : Pin) (cfb : Block) : List StringId → Outcome τ
  | [name] =>
    match getPortId name cfb.spec.eoNames with
    | none => (s, .noSuchObject)
    | some eo => addDestination s pin ⟨.inner, cfb.id, eo⟩
  | _ => (s, .noSuchObject)

/-- `establishDataConnection` with a data output of the interface. The `connectDI` of
`CCompositeFB` accepts every one there is and keeps nothing; the connection of an in-out asks
`connectDIO` instead, for which an id with the marker is out of range. -/
def establishInterfaceConnection (s : Wiring τ) (c : InternalData) (cfb : Block)
    (dout : PortId) : Outcome τ :=
  match rules.adaptSource s.types c (.dout ⟨cfb.id, dout⟩) [] with
  | none => (s, .invalidOperation)
  | some types =>
    let s := { s with types := types }
    match c with
    | ⟨.inOut _, none⟩ => (s, .invalidState)
    | _ => if dout < cfb.spec.doNames.length then (s, .ready) else (s, .invalidState)

/-- `establishGatheringConnection` with a data output of the interface. The name of the output
is looked up among the data inputs; where there is none, the new gathering connection is kept
nowhere. -/
def establishInterfaceGathering (s : Wiring τ) (c : InternalData) (cfb : Block) (dout : PortId)
    (name : StringId) (names : List StringId) : Outcome τ :=
  if !rules.hasMember s.types (.dout ⟨cfb.id, dout⟩) names then (s, .noSuchObject)
  else
    match rules.adaptSource s.types c (.dout ⟨cfb.id, dout⟩) names with
    | none => (s, .invalidOperation)
    | some types =>
      let s := { s with types := types }
      match getPortId name cfb.spec.diNames with
      | none =>
        if dout < cfb.spec.doNames.length then
          if rules.hasMember s.types (.dout ⟨cfb.id, dout⟩) names then (s, .ready)
          else (s, .noSuchObject)
        else (s, .invalidState)
      | some di =>
        match s.diConn cfb.id di with
        | none =>
          if dout < cfb.spec.doNames.length then
            if rules.hasMember s.types (.dout ⟨cfb.id, dout⟩) names then (s, .ready)
            else (s, .noSuchObject)
          else (s, .invalidState)
        | some (.single _) => (s, .invalidState)
        | some (.gathering members) => addMemberConnection rules s cfb di members names c

/-- `CDataConnection::connectToCFBInterface`. -/
def connectDataToInterface (s : Wiring τ) (c : InternalData) (cfb : Block) :
    List StringId → Outcome τ
  | [] => (s, .noSuchObject)
  | name :: names =>
    match getPortId name cfb.spec.doNames with
    | none => (s, .noSuchObject)
    | some dout =>
      if names = [] then establishInterfaceConnection rules s c cfb dout
      else establishInterfaceGathering rules s c cfb dout name names

/-- `CConnection::connectToCFBInterface`. Adapters are not connected across the interface. -/
def connectToCFBInterface (s : Wiring τ) (c : InternalConnection) (cfb : Block)
    (names : List StringId) : Outcome τ :=
  match c with
  | .event pin => connectEventToInterface s pin cfb names
  | .data c => connectDataToInterface rules s c cfb names
  | .adapter _ => (s, .invalidOperation)

end Connect

/-! ### The sources of connections -/

namespace Block

/-- `CFunctionBlock::getOutputConnection`, up to the delegating connection: the connection the
first names lead to, and the names behind it. -/
def outputConnection : List StringId → Block → Option (InternalConnection × List StringId)
  | [], _ => none
  | name :: names, b =>
    ((getPortId name b.spec.eoNames).map fun p => (.event ⟨.outer, b.id, p⟩, names)) <|>
    ((getPortId name b.spec.doNames).map fun p => (.data ⟨.out ⟨.outer, b.id, p⟩, none⟩, names)) <|>
    ((getPortId name b.spec.dioNames).map fun p =>
      (.data ⟨.inOut ⟨.outer, b.id, p⟩, none⟩, names)) <|>
    ((getPortId name b.spec.plugNames).map fun p => (.adapter ⟨b.id, p⟩, names)) <|>
    (b.getFB name).bind (outputConnection names)

/-- `CCompositeFB::getInternalConnection` with a name of the interface, up to the delegating
connection. -/
def interfaceConnection (b : Block) :
    List StringId → Option (InternalConnection × List StringId)
  | [] => none
  | name :: names =>
    ((getPortId name b.spec.eiNames).map fun p => (.event ⟨.inner, b.id, p⟩, names)) <|>
    ((getPortId name b.spec.diNames).map fun p => (.data ⟨.out ⟨.inner, b.id, p⟩, none⟩, names)) <|>
    ((getPortId name b.spec.dioNames).map fun p =>
      (.data ⟨.inOut ⟨.inner, b.id, p⟩, none⟩, names)) <|>
    ((getPortId name b.spec.plugNames).map fun p => (.adapter ⟨b.id, p⟩, names))

/-- `CCompositeFB::getInternalConnection`, up to the delegating connection. -/
def sourceConnection (b : Block) (srcFBName : StringId) (srcNames : List StringId) :
    Option (InternalConnection × List StringId) :=
  if srcFBName = "" then b.interfaceConnection srcNames
  else (b.getFB srcFBName).bind (outputConnection srcNames)

end Block

section Initialise

variable {τ : Type} (rules : PortRules τ)

/-- `getDelegatingConnection`. -/
def getDelegatingConnection (s : Wiring τ) (c : InternalConnection) (names : List StringId) :
    Option (Wiring τ × InternalConnection) :=
  if names = [] then some (s, c)
  else
    match c with
    | .data ⟨origin, none⟩ =>
      if rules.delegates s.types origin names then
        some ({ s with nextPtr := s.nextPtr + 1 }, .data ⟨origin, some (s.nextPtr, names)⟩)
      else none
    | _ => none

/-! ### Initializing -/

/-- The second half of `CCompositeFB::establishConnection`: the connection is made to the
function block of that name, or to the interface. -/
def connectDestination (b : Block) (s : Wiring τ) (c : InternalConnection)
    (conn : FBConnectionData) : Option (Outcome τ) :=
  if conn.dstFBNameId = "" then some (connectToCFBInterface rules s c b conn.dstId)
  else (b.getFB conn.dstFBNameId).map fun dst => connect rules s c dst conn.dstId

/-- `CCompositeFB::establishConnection`. There is no wiring when it fails. -/
def establishConnection (b : Block) (s : Wiring τ) (conn : FBConnectionData) :
    Option (Wiring τ) := do
  let (c, names) ← b.sourceConnection conn.srcFBNameId conn.srcId
  let (s, c) ← getDelegatingConnection rules s c names
  let (s, response) ← connectDestination rules b s c conn
  if response = .ready then some s else none

/-- `createEventConnections`, and `createAdapterConnections` just so. -/
def createConnections (b : Block) : List FBConnectionData → Wiring τ → Option (Wiring τ)
  | [], s => some s
  | conn :: conns, s => do
    let s ← establishConnection rules b s conn
    createConnections b conns s

/-- `createDataConnections`. -/
def createDataConnections (b : Block) : List FBConnectionData → Wiring τ → Option (Wiring τ)
  | [], s => some s
  | conn :: conns, s => do
    let s ← establishConnection rules b s conn
    -- the count at the interface is meant to be taken back here
    let s := if conn.srcFBNameId = "" then s.modify b.id .decConnRefCount else s
    createDataConnections b conns s

/-- What `CCompositeFB::initialize` does after `CFunctionBlock::initialize`. -/
def createNetwork (b : Block) (net : FBNData) (s : Wiring τ) : Option (Wiring τ) := do
  let s := { s with types := rules.setInitialValues s.types b.id }
  let s ← createConnections rules b net.eventConnections s
  let s ← createDataConnections rules b net.dataConnections s
  let s ← createConnections rules b net.adapterConnections s
  some { s with types := rules.setFBNetworkInitialValues s.types b.id }

/-- What a function block does after the ones in it are initialized. -/
def initialiseOwn (b : Block) (s : Wiring τ) : Option (Wiring τ) :=
  let s := s.modify b.id (.setupInputConnectionTrackingData b.spec)
  match b.net with
  | none => some s
  | some net => createNetwork rules b net s

mutual

/-- `initialize`, of a composite or of any other function block. -/
def initialise : Block → Wiring τ → Option (Wiring τ)
  | .mk id name spec net children, s => do
    let s ← initialiseAll children s
    initialiseOwn rules (.mk id name spec net children) s

/-- `CFBContainer::initialize`, for the function blocks inside. -/
def initialiseAll : List Block → Wiring τ → Option (Wiring τ)
  | [], s => some s
  | b :: bs, s => do
    let s ← initialise b s
    initialiseAll bs s

end

end Initialise

/-! ### Ports with declared types -/

/-- The type of the variable in a connection. The variable of a connection that begins at a
data input of the interface is this input. -/
def PortConnection.type (specs : FBId → InterfaceSpec) : PortConnection → PortType
  | out ⟨.outer, p⟩ => (specs p.fb).doTypes.getD p.port default
  | out ⟨.inner, p⟩ => (specs p.fb).diTypes.getD p.port default
  | inOut ⟨_, p⟩ => (specs p.fb).dioTypes.getD p.port default

/-- The type of `getValue` of a connection. -/
def InternalData.type (specs : FBId → InterfaceSpec) (c : InternalData) : PortType :=
  match c.delegate with
  | none => c.origin.type specs
  | some (_, names) =>
    match c.origin.type specs with
    | .simple .bool => .simple .bool
    | t => (t.getVar names).getD default

/-- The type of a variable. -/
def DataPoint.type (specs : FBId → InterfaceSpec) : DataPoint → PortType
  | di p => (specs p.fb).diTypes.getD p.port default
  | dout p => (specs p.fb).doTypes.getD p.port default
  | dio p => (specs p.fb).dioTypes.getD p.port default

/-- The rules for function blocks whose ports have the types that their interface declares,
none of them `ANY`, nor an array of variable bounds. -/
def declaredTypes : PortRules (FBId → InterfaceSpec) where
  delegates specs c names :=
    match c.type specs with
    | .simple .bool => names = ["NOT"]
    | t => (t.getVar names).isSome
  hasMember specs dst names :=
    (dst.type specs).getDataTypeID = .struct && ((dst.type specs).getVar names).isSome
  adaptSource specs c dst names :=
    match (dst.type specs).getVar names with
    | some t => if (c.type specs).canBeConnected t then some specs else none
    | none => none
  configureGenericDI specs _ _ := (specs, true)
  configureGenericDio specs _ _ := (specs, true)
  isCompatible specs plug socket :=
    (specs plug.fb).plugTypes[plug.port]? = (specs socket.fb).socketTypes[socket.port]?
  connectSocket specs _ _ := (specs, true)
  setInitialValues specs _ := specs
  setFBNetworkInitialValues specs _ := specs

end Composite

end Forte
