import Forte.Network.Network

/-!
# Connecting and disconnecting

`connect` and `disconnect` of the five classes of connections, each a function of the
network that returns the network it leaves and its response. They get the function block
at the destination and the list of names that is left over when it has been found: the
port, and after a data input of a struct type the member.
-/

namespace Forte

namespace Network

/-- What a connection command leaves: the network, and the response. -/
abbrev Outcome := Network × EMGMResponse

/-! ### Event connections -/

/-- `CEventConnection::addDestination`. -/
def addDestination (s : Network) (src pt : ConnectionPoint) : Outcome :=
  if pt ∈ s.eoDests src.fb src.port then (s, .invalidState)
  else
    ({ s with eoDests := setAt s.eoDests src.fb src.port (s.eoDests src.fb src.port ++ [pt]) },
      .ready)

/-- `CEventConnection::removeDestination`. -/
def removeDestination (s : Network) (src pt : ConnectionPoint) : Outcome :=
  if pt ∈ s.eoDests src.fb src.port then
    ({ s with
        eoDests := setAt s.eoDests src.fb src.port
          ((s.eoDests src.fb src.port).filter (· ≠ pt)) }, .ready)
  else (s, .invalidState)

/-- `CEventConnection::connect`. The input is told of the connection whatever
`addDestination` says. -/
def connectEvent (s : Network) (src : ConnectionPoint) (dst : FBId) :
    List StringId → Outcome
  | [name] =>
    match getPortId name (s.spec dst).eiNames with
    | none => (s, .noSuchObject)
    | some ei =>
      let (s, response) := s.addDestination src ⟨dst, ei⟩
      (s.addInputEventConnection dst ei, response)
  | _ => (s, .noSuchObject)

/-- `CEventConnection::disconnect`. -/
def disconnectEvent (s : Network) (src : ConnectionPoint) (dst : FBId) :
    List StringId → Outcome
  | [name] =>
    match getPortId name (s.spec dst).eiNames with
    | none => (s, .noSuchObject)
    | some ei =>
      let (s, response) := s.removeDestination src ⟨dst, ei⟩
      (s.removeInputEventConnection dst ei, response)
  | _ => (s, .noSuchObject)

/-! ### Data connections -/

/-- What `establishDataConnection` and `establishGatheringConnection` begin with: a source of
type `ANY` takes the type of the destination, another one has to fit. -/
def adaptSource (s : Network) (c : DataConnection) (dst : PortType) : Option Network :=
  if (s.valueType c).getDataTypeID = .any then some (s.handleAnySrcPortConnection c dst)
  else if (s.valueType c).canBeConnected dst then some s
  else none

/-- `CDataConnection::establishDataConnection`. -/
def establishDataConnection (s : Network) (c : DataConnection) (dst : FBId) (di : PortId) :
    Outcome :=
  match s.adaptSource c (s.types.di dst di) with
  | none => (s, .invalidOperation)
  | some s =>
    match s.connectDI dst di (.single c) with
    | (s, true) => (s, .ready)
    | (s, false) => (s, .invalidState)

/-- `CGatheringDataConnection::addMemberConnection`, in the gathering connection of a data
input. -/
def addMemberConnection (s : Network) (dst : FBId) (di : PortId)
    (members : List (List StringId × DataConnection)) (names : List StringId)
    (c : DataConnection) : Outcome :=
  match (s.types.di dst di).getVar names with
  | none => (s, .noSuchObject)
  | some _ =>
    if members.any (·.1 = names) then (s, .invalidState)
    else
      ({ s with diConn := setAt s.diConn dst di (some (.gathering (members ++ [(names, c)]))) },
        .ready)

/-- `CDataConnection::establishGatheringConnection`, where `names` leads from the data input
to the member. -/
def establishGatheringConnection (s : Network) (c : DataConnection) (dst : FBId)
    (di : PortId) (names : List StringId) : Outcome :=
  if (s.types.di dst di).getDataTypeID ≠ .struct then (s, .noSuchObject)
  else
    match (s.types.di dst di).getVar names with
    | none => (s, .noSuchObject)
    | some member =>
      match s.adaptSource c member with
      | none => (s, .invalidOperation)
      | some s =>
        match s.diConn dst di with
        | none =>
          match s.connectDI dst di (.gathering []) with
          | (s, false) => (s, .invalidState)
          | (s, true) => s.addMemberConnection dst di [] names c
        | some (.single _) => (s, .invalidState)
        | some (.gathering members) => s.addMemberConnection dst di members names c

/-- `CDataConnection::connect`. -/
def connectData (s : Network) (c : DataConnection) (dst : FBId) : List StringId → Outcome
  | [] => (s, .noSuchObject)
  | name :: names =>
    match getPortId name (s.spec dst).diNames with
    | none => (s, .noSuchObject)
    | some di =>
      let (s, response) :=
        if names = [] then s.establishDataConnection c dst di
        else s.establishGatheringConnection c dst di names
      if response = .ready then (s.incConnRefCount c.src.fb, .ready) else (s, response)

/-- `CDataConnection::disconnect`. With a member it is the gathering connection that decides
which connection goes. -/
def disconnectData (s : Network) (c : DataConnection) (dst : FBId) : List StringId → Outcome
  | [] => (s, .noSuchObject)
  | name :: names =>
    match getPortId name (s.spec dst).diNames with
    | none => (s, .noSuchObject)
    | some di =>
      match s.diConn dst di with
      | none => (s, .noSuchObject)
      | some dstConnection =>
        if names = [] then
          if dstConnection ≠ .single c then (s, .noSuchObject)
          else ((s.disconnectDI dst di).decConnRefCount c.src.fb, .ready)
        else
          match dstConnection with
          | .single _ => (s, .noSuchObject)
          | .gathering members =>
            -- `removeMemberConnection` looks the member up before it looks for it
            if (s.types.di dst di).getVar names = none ∨ ¬members.any (·.1 = names) then
              (s, .noSuchObject)
            else
              let members := members.filter (·.1 ≠ names)
              let s :=
                if members = [] then s.disconnectDI dst di
                else { s with diConn := setAt s.diConn dst di (some (.gathering members)) }
              (s.decConnRefCount c.src.fb, .ready)

/-! ### In-out connections -/

/-- `CInOutDataConnection::establishDataConnection`. -/
def establishInOutConnection (s : Network) (src dst : ConnectionPoint) : Outcome :=
  match s.adaptSource (.base (.inOut src)) (s.types.dio dst.fb dst.port) with
  | none => (s, .invalidOperation)
  | some s =>
    if dst ∈ s.dioDests src.fb src.port then (s, .invalidState)
    else
      match s.connectDIO dst src with
      | (s, false) => (s, .invalidState)
      | (s, true) =>
        ({ s with
            dioDests := setAt s.dioDests src.fb src.port
              (s.dioDests src.fb src.port ++ [dst]) }, .ready)

/-- `CInOutDataConnection::connect`: into a data input if there is one of that name, else
into an in-out. -/
def connectInOut (s : Network) (src : ConnectionPoint) (dst : FBId) (names : List StringId) :
    Outcome :=
  match s.connectData (.base (.inOut src)) dst names with
  | (s, .noSuchObject) =>
    match names with
    | [name] =>
      match getPortId name (s.spec dst).dioNames with
      | none => (s, .noSuchObject)
      | some dio =>
        match s.establishInOutConnection src ⟨dst, dio⟩ with
        | (s, .ready) => ((s.incConnRefCount dst).incConnRefCount src.fb, .ready)
        | (s, response) => (s, response)
    | _ => (s, .noSuchObject)
  | (s, response) => (s, response)

/-- `CInOutDataConnection::disconnect`. -/
def disconnectInOut (s : Network) (src : ConnectionPoint) (dst : FBId)
    (names : List StringId) : Outcome :=
  match s.disconnectData (.base (.inOut src)) dst names with
  | (s, .noSuchObject) =>
    match names with
    | [name] =>
      match getPortId name (s.spec dst).dioNames with
      | none => (s, .noSuchObject)
      | some dio =>
        let pt : ConnectionPoint := ⟨dst, dio⟩
        if pt ∈ s.dioDests src.fb src.port then
          let s := { s with
            dioDests := setAt s.dioDests src.fb src.port
              ((s.dioDests src.fb src.port).filter (· ≠ pt)) }
          (((s.disconnectDio pt).decConnRefCount dst).decConnRefCount src.fb, .ready)
        else (s, .noSuchObject)
    | _ => (s, .noSuchObject)
  | (s, response) => (s, response)

/-! ### Adapter connections -/

/-- `CAdapterConnection::connect`. Plug and socket are compatible when their adapters are of
one type; `ISocketPin::connect` cannot fail then. -/
def connectAdapter (s : Network) (src : ConnectionPoint) (dst : FBId)
    (names : List StringId) : Outcome :=
  if (s.plugSocket src.fb src.port).isSome then (s, .invalidState)
  else
    match names with
    | [name] =>
      match getPortId name (s.spec dst).socketNames with
      | none => (s, .noSuchObject)
      | some socket =>
        if (s.socketConn dst socket).isSome then (s, .invalidState)
        else if (s.spec src.fb).plugTypes[src.port]? ≠ (s.spec dst).socketTypes[socket]? then
          (s, .invalidObject)
        else
          let s := { s with
            socketConn := setAt s.socketConn dst socket (some src)
            plugSocket := setAt s.plugSocket src.fb src.port (some ⟨dst, socket⟩) }
          ((s.incConnRefCount dst).incConnRefCount src.fb, .ready)
    | _ => (s, .noSuchObject)

/-- `CAdapterConnection::performDisconnect`, of a connection to `socket`. -/
def performDisconnect (s : Network) (src socket : ConnectionPoint) : Network :=
  { s with
    socketConn := setAt s.socketConn socket.fb socket.port none
    plugSocket := setAt s.plugSocket src.fb src.port none }

/-- `CAdapterConnection::disconnect`. -/
def disconnectAdapter (s : Network) (src : ConnectionPoint) (dst : FBId)
    (names : List StringId) : Outcome :=
  match s.plugSocket src.fb src.port with
  | none => (s, .invalidState)
  | some mSocket =>
    match names with
    | [name] =>
      match getPortId name (s.spec dst).socketNames with
      | none => (s, .noSuchObject)
      | some socket =>
        if mSocket ≠ ⟨dst, socket⟩ then (s, .noSuchObject)
        else
          (((s.performDisconnect src mSocket).decConnRefCount dst).decConnRefCount src.fb,
            .ready)
    | _ => (s, .noSuchObject)

/-! ### Any connection -/

/-- `CConnection::connect`. -/
def connect (s : Network) (c : Connection) (dst : FBId) (names : List StringId) : Outcome :=
  match c with
  | .event src => s.connectEvent src dst names
  | .data (.base (.inOut src)) => s.connectInOut src dst names
  | .data c => s.connectData c dst names
  | .adapter src => s.connectAdapter src dst names

/-- `CConnection::disconnect`. -/
def disconnect (s : Network) (c : Connection) (dst : FBId) (names : List StringId) : Outcome :=
  match c with
  | .event src => s.disconnectEvent src dst names
  | .data (.base (.inOut src)) => s.disconnectInOut src dst names
  | .data c => s.disconnectData c dst names
  | .adapter src => s.disconnectAdapter src dst names

/-- `CGatheringDataConnection::disconnect`, of the one at the data input `di` of `dst`, with
the name of that input: the connections of the members are each asked to disconnect from
the port that has the member's name. -/
def disconnectGathering (s : Network) (dst : FBId) (di : PortId)
    (members : List (List StringId × DataConnection)) : Network :=
  (members.foldl (fun s m => (s.disconnect (.data m.2) dst m.1).1) s).disconnectDI dst di

end Network

end Forte
