import Forte.Network.Connections

/-!
# The management commands on a network

The four commands that change the network of a resource: function blocks and connections
are created and deleted, by name. The names are walked by the containers themselves, each
asking its child of the first name; a function block answers for its ports before it asks
the function blocks in it.

A type of function blocks is known by what an instance of it consists of, and the type
library is a parameter: for a type name and a hash it has a type, or a response that says
why not.
-/

namespace Forte

/-- What an instance of a type consists of: its interface, and the function blocks in it,
the innermost first, each with the names that lead there from the instance. No function
block has the name of a data input of the function block it is in. -/
structure FBType where
  /-- The interface. -/
  spec : InterfaceSpec
  /-- `mDeletable`. -/
  deletable : Bool
  /-- The function blocks inside. -/
  inner : List (List StringId × InterfaceSpec)
  separate : ∀ outer ∈ inner ++ [([], spec)], ∀ n ∈ outer.2.diNames,
    ∀ part ∈ inner, part.1 ≠ outer.1 ++ [n]

/-- All function blocks of an instance, in the order in which they are deinitialized. -/
def FBType.parts (ty : FBType) : List (List StringId × InterfaceSpec) := ty.inner ++ [([], ty.spec)]

/-- What `forte::createFB` finds for the name and the hash of a type. -/
abbrev TypeLibrary := StringId → String → Except EMGMResponse FBType

namespace Network

/-! ### Names -/

/-- Whether names lead to a `isDynamicContainer`: the resource or a plain container. -/
def isDynamicContainer (s : Network) (p : List StringId) : Bool :=
  p = [] || s.dir p = some .folder

/-- `getChild`. -/
def getChild (s : Network) (p : List StringId) (name : StringId) : Option Entry :=
  if name = "" then none else s.dir (p ++ [name])

/-- The function block that names lead to, if it is one. -/
def blockAt (s : Network) (p : List StringId) : Option FBId :=
  match s.dir p with
  | some (.block b) => some b
  | _ => none

/-- `getFB`, from the container that `p` leads to: the deepest function block along the
names, and the names that are left over. -/
def getFB (s : Network) (p : List StringId) : List StringId → Option (FBId × List StringId)
  | [] => (s.blockAt p).map (·, [])
  | name :: names =>
    match s.getChild p name with
    | some _ => s.getFB (p ++ [name]) names
    | none => (s.blockAt p).map (·, name :: names)

/-- The part of `CFunctionBlock::getInputConnection` about the function block's own ports;
`none` where it goes on to the children. -/
def portInput (s : Network) (b : FBId) (name : StringId) (names : List StringId) :
    Option (Option Connection) :=
  match (getPortId name (s.spec b).diNames).bind (s.diConn b) with
  | some conn => some ((conn.getMemberConnection names).map .data)
  | none =>
    match (getPortId name (s.spec b).dioNames).bind (s.dioInConn b), names with
    | some src, [] => some (some (.data (.base (.inOut src))))
    | _, _ =>
      match getPortId name (s.spec b).socketNames, names with
      | some socket, [] => some ((s.socketConn b socket).map .adapter)
      | _, _ => none

/-- `getInputConnection`, from the container that `p` leads to. -/
def getInputConnection (s : Network) (p : List StringId) : List StringId → Option Connection
  | [] => none
  | name :: names =>
    match (s.blockAt p).bind fun b => s.portInput b name names with
    | some found => found
    | none =>
      match s.getChild p name with
      | some _ => s.getInputConnection (p ++ [name]) names
      | none => none

/-- `CDataConnection::getDelegatingConnection`. -/
def getDelegatingConnection (s : Network) (c : BaseConnection) (names : List StringId) :
    Option DataConnection :=
  let value := s.variableOf c
  if names = [] then some (.base c)
  else if (s.variableType value).getDataTypeID = .bool && names = ["NOT"] then
    some (.negating c s.nextPtr value)
  else if ((s.variableType value).getVar names).isSome then
    some (.member c s.nextPtr value names)
  else none

/-- The part of `CFunctionBlock::getOutputConnection` about the function block's own ports;
`none` where it goes on to the children. -/
def portOutput (s : Network) (b : FBId) (name : StringId) (names : List StringId) :
    Option (Option Connection) :=
  match getPortId name (s.spec b).eoNames with
  | some eo => some (if names = [] then some (.event ⟨b, eo⟩) else none)
  | none =>
    match getPortId name (s.spec b).doNames with
    | some dout => some ((s.getDelegatingConnection (.out ⟨b, dout⟩) names).map .data)
    | none =>
      match getPortId name (s.spec b).dioNames with
      | some dio => some ((s.getDelegatingConnection (.inOut ⟨b, dio⟩) names).map .data)
      | none =>
        match getPortId name (s.spec b).plugNames with
        | some plug => some (if names = [] then some (.adapter ⟨b, plug⟩) else none)
        | none => none

/-- `getOutputConnection`, from the container that `p` leads to. -/
def getOutputConnection (s : Network) (p : List StringId) : List StringId → Option Connection
  | [] => none
  | name :: names =>
    match (s.blockAt p).bind fun b => s.portOutput b name names with
    | some found => found
    | none =>
      match s.getChild p name with
      | some _ => s.getOutputConnection (p ++ [name]) names
      | none => none

/-- The full name of the source of a connection, as `deleteConnection` compares it. A
delegating connection takes the name of its port from the data outputs, that of an in-out as
well. -/
def sourceName (s : Network) : Connection → List StringId
  | .event p => s.name p.fb ++ [(s.spec p.fb).eoNames.getD p.port ""]
  | .data (.base (.out p)) => s.name p.fb ++ [(s.spec p.fb).doNames.getD p.port ""]
  | .data (.base (.inOut p)) => s.name p.fb ++ [(s.spec p.fb).dioNames.getD p.port ""]
  | .data (.member c _ _ names) =>
    s.name c.src.fb ++ (s.spec c.src.fb).doNames.getD c.src.port "" :: names
  | .data (.negating c _ _) =>
    s.name c.src.fb ++ [(s.spec c.src.fb).doNames.getD c.src.port "", "NOT"]
  | .adapter p => s.name p.fb ++ [(s.spec p.fb).plugNames.getD p.port ""]

/-! ### Connections -/

/-- The function block at a destination and the names of the port, as `createConnection` and
`deleteConnection` find them. -/
def getDestination (s : Network) (dst : List StringId) : Option (FBId × List StringId) :=
  (s.getFB [] dst.dropLast).map fun found => (found.1, found.2 ++ dst.getLast?.toList)

/-- `CResource::createConnection`. A delegating connection that was made for it is kept when
it could be connected. -/
def createConnection (s : Network) (src dst : List StringId) : Outcome :=
  if src = [] ∨ dst = [] then (s, .noSuchObject)
  else
    match s.getOutputConnection [] src with
    | none => (s, .noSuchObject)
    | some con =>
      match s.getDestination dst with
      | none => (s, .noSuchObject)
      | some (dstFB, ports) =>
        match s.connect con dstFB ports with
        | (s, .ready) => ({ s with nextPtr := s.nextPtr + 1 }, .ready)
        | (s, response) => (s, response)

/-- `CResource::deleteConnection`. -/
def deleteConnection (s : Network) (src dst : List StringId) : Outcome :=
  if src = [] ∨ dst = [] then (s, .noSuchObject)
  else
    match s.getDestination dst with
    | none => (s, .noSuchObject)
    | some (dstFB, ports) =>
      match s.getInputConnection [] dst with
      | some dstCon =>
        if s.sourceName dstCon ≠ src then (s, .noSuchObject)
        else s.disconnect dstCon dstFB ports
      | none =>
        match s.getOutputConnection [] src with
        | none => (s, .noSuchObject)
        | some srcCon => s.disconnect srcCon dstFB ports

/-! ### Function blocks -/

/-- `findOrCreateContainer`. -/
def findOrCreateContainer (s : Network) (p : List StringId) (name : StringId) : Network :=
  match s.getChild p name with
  | some _ => s
  | none =>
    { s with dir := fun q =>
        if (p ++ [name]).isPrefixOf q then
          if q = p ++ [name] then some .folder else none
        else s.dir q }

/-- A value for the new function blocks, and the old value for the others. -/
def withNew {γ : Type} (s : Network) (ty : FBType) (new : List StringId × InterfaceSpec → γ)
    (old : FBId → γ) : FBId → γ :=
  fun b => if s.next ≤ b then (ty.parts[b - s.next]?).elim (old b) new else old b

/-- A new instance of a type, under the name `p`. -/
def addInstance (s : Network) (p : List StringId) (ty : FBType) : Network where
  next := s.next + ty.parts.length
  nextPtr := s.nextPtr
  dir := fun q =>
    if p.isPrefixOf q then
      (ty.parts.findIdx? (·.1 = q.drop p.length)).map fun i => .block (s.next + i)
    else s.dir q
  live := s.withNew ty (fun _ => true) s.live
  name := s.withNew ty (fun part => p ++ part.1) s.name
  spec := s.withNew ty (·.2) s.spec
  deletable := s.withNew ty (fun part => part.1 ≠ [] || ty.deletable) s.deletable
  state := s.withNew ty (fun _ => .idle) s.state
  connRefCount := s.withNew ty (fun _ => 0) s.connRefCount
  underflow := s.underflow
  inputEventConnectionCount := s.withNew ty (fun _ _ => 0) s.inputEventConnectionCount
  eoDests := s.withNew ty (fun _ _ => []) s.eoDests
  diConn := s.withNew ty (fun _ _ => none) s.diConn
  dioInConn := s.withNew ty (fun _ _ => none) s.dioInConn
  dioDests := s.withNew ty (fun _ _ => []) s.dioDests
  dioValue := fun b => s.withNew ty (fun _ p => ⟨b, p⟩) s.dioValue b
  plugSocket := s.withNew ty (fun _ _ => none) s.plugSocket
  socketConn := s.withNew ty (fun _ _ => none) s.socketConn
  types :=
    { di := s.withNew ty (fun part p => part.2.diTypes.getD p default) s.types.di
      dout := s.withNew ty (fun part p => part.2.doTypes.getD p default) s.types.dout
      out := s.withNew ty (fun part p => part.2.doTypes.getD p default) s.types.out
      dio := s.withNew ty (fun part p => part.2.dioTypes.getD p default) s.types.dio
      inOut := s.withNew ty (fun part p => part.2.dioTypes.getD p default) s.types.inOut }

/-- `CFBContainer::createFB`, from the container that `p` leads to. The containers on the
way are made where they are missing. -/
def createFBIn (lib : TypeLibrary) (s : Network) (p : List StringId) (typeName : StringId)
    (typeHash : String) : List StringId → Outcome
  | [] => (s, .invalidDst)
  | name :: names =>
    if !s.isDynamicContainer p then (s, .invalidDst)
    else
      match names with
      | [] =>
        match s.getChild p name with
        | some _ => (s, .invalidState)
        | none =>
          match lib typeName typeHash with
          | .error errorMSG => (s, errorMSG)
          | .ok ty => (s.addInstance (p ++ [name]) ty, .ready)
      | _ :: _ =>
        let s := s.findOrCreateContainer p name
        if s.isDynamicContainer (p ++ [name]) then
          createFBIn lib s (p ++ [name]) typeName typeHash names
        else (s, .invalidDst)

/-- `isCurrentlyDeleteable`. -/
def isCurrentlyDeleteable (s : Network) (b : FBId) : Bool :=
  s.deletable b && s.state b ≠ .running && s.connRefCount b = 0

/-- The loop of `deinitialize` over the destinations of an event output. It runs over the
memory of the vector as it was when it began, `memory`, while each `disconnect` moves the
destinations that are left to the front of it. -/
def disconnectDestinations (src : ConnectionPoint) :
    ℕ → List ConnectionPoint → Network → Network
  | 0, _, s => s
  | i + 1, memory, s =>
    match memory[memory.length - (i + 1)]? with
    | none => s
    | some pt =>
      let s := (s.disconnectEvent src pt.fb [(s.spec pt.fb).eiNames.getD pt.port ""]).1
      let left := s.eoDests src.fb src.port
      disconnectDestinations src i (left ++ memory.drop left.length) s

/-- The part of `deinitialize` about an event output. -/
def deinitializeEO (b : FBId) (s : Network) (eo : PortId) : Network :=
  disconnectDestinations ⟨b, eo⟩ (s.eoDests b eo).length (s.eoDests b eo) s

/-- The part of `deinitialize` about a data input. -/
def deinitializeDI (b : FBId) (s : Network) (di : PortId) : Network :=
  match s.diConn b di with
  | none => s
  | some (.single c) => (s.disconnect (.data c) b [(s.spec b).diNames.getD di ""]).1
  | some (.gathering members) => s.disconnectGathering b di members

/-- The part of `deinitialize` about a socket. -/
def deinitializeSocket (b : FBId) (s : Network) (socket : PortId) : Network :=
  match s.socketConn b socket with
  | none => s
  | some src => (s.disconnectAdapter src b [(s.spec b).socketNames.getD socket ""]).1

/-- The part of `deinitialize` about an in-out. -/
def deinitializeDio (b : FBId) (s : Network) (dio : PortId) : Network :=
  match s.dioInConn b dio with
  | none => s
  | some src => (s.disconnectInOut src b [(s.spec b).dioNames.getD dio ""]).1

/-- `CFunctionBlock::deinitialize`, without the function blocks inside. -/
def deinitialize (s : Network) (b : FBId) : Network :=
  let s := (List.range (s.spec b).eoNames.length).foldl (deinitializeEO b) s
  let s := (List.range (s.spec b).diNames.length).foldl (deinitializeDI b) s
  let s := (List.range (s.spec b).socketNames.length).foldl (deinitializeSocket b) s
  (List.range (s.spec b).dioNames.length).foldl (deinitializeDio b) s

/-- Whether a function block is the one under the name `p` or in it. -/
def isWithin (s : Network) (p : List StringId) (b : FBId) : Bool :=
  s.live b && p.isPrefixOf (s.name b)

/-- The function blocks that go with the one under the name `p`, in the order in which they
are deinitialized. -/
def within (s : Network) (p : List StringId) : List FBId :=
  (List.range s.next).filter (s.isWithin p)

/-- The default for the function blocks that are gone, and the old value for the others. -/
def without {γ : Type} (gone : FBId → Bool) (new old : FBId → γ) : FBId → γ :=
  fun b => if gone b then new b else old b

/-- The function blocks `gone` and the container under the name `p` are destructed. The
destructor of a plug's connection tells the socket. -/
def destruct (s : Network) (p : List StringId) (gone : FBId → Bool) : Network where
  next := s.next
  nextPtr := s.nextPtr
  dir := fun q => if p.isPrefixOf q then none else s.dir q
  live := without gone (fun _ => false) s.live
  name := without gone (fun _ => []) s.name
  spec := without gone (fun _ => {}) s.spec
  deletable := without gone (fun _ => true) s.deletable
  state := without gone (fun _ => .idle) s.state
  connRefCount := without gone (fun _ => 0) s.connRefCount
  underflow := s.underflow
  inputEventConnectionCount := without gone (fun _ _ => 0) s.inputEventConnectionCount
  eoDests := without gone (fun _ _ => []) s.eoDests
  diConn := without gone (fun _ _ => none) s.diConn
  dioInConn := without gone (fun _ _ => none) s.dioInConn
  dioDests := without gone (fun _ _ => []) s.dioDests
  dioValue := without gone (fun b p => ⟨b, p⟩) s.dioValue
  plugSocket := without gone (fun _ _ => none) s.plugSocket
  socketConn := without gone (fun _ _ => none) fun b p =>
    match s.socketConn b p with
    | some src =>
      if gone src.fb && s.plugSocket src.fb src.port = some ⟨b, p⟩ then none else some src
    | none => none
  types :=
    { di := without gone (fun _ _ => default) s.types.di
      dout := without gone (fun _ _ => default) s.types.dout
      out := without gone (fun _ _ => default) s.types.out
      dio := without gone (fun _ _ => default) s.types.dio
      inOut := without gone (fun _ _ => default) s.types.inOut }

/-- `forte::deleteFB`, of the function block under the name `p`. -/
def deleteInstance (s : Network) (p : List StringId) : Network :=
  ((s.within p).foldl deinitialize s).destruct p (s.isWithin p)

/-- `CFBContainer::deleteFB`, from the container that `p` leads to. -/
def deleteFBIn (s : Network) (p : List StringId) : List StringId → Outcome
  | [] => (s, .noSuchObject)
  | name :: names =>
    match s.getChild p name, names with
    | some (.block b), [] =>
      if s.isCurrentlyDeleteable b then (s.deleteInstance (p ++ [name]), .ready)
      else (s, .invalidState)
    | some .folder, _ :: _ => s.deleteFBIn (p ++ [name]) names
    | _, _ => (s, .noSuchObject)

end Network

/-! ### Runs -/

/-- The management commands that change the network. -/
inductive NetworkCommand
  | createFB (name : List StringId) (typeName : StringId) (typeHash : String)
  | deleteFB (name : List StringId)
  | createConnection (src dst : List StringId)
  | deleteConnection (src dst : List StringId)

namespace Network

/-- The part of `CResource::executeMGMCommand` about these commands. -/
def execute (lib : TypeLibrary) (s : Network) : NetworkCommand → Outcome
  | .createFB name typeName typeHash => createFBIn lib s [] typeName typeHash name
  | .deleteFB name => s.deleteFBIn [] name
  | .createConnection src dst => s.createConnection src dst
  | .deleteConnection src dst => s.deleteConnection src dst

/-- **The runs of a resource whose commands all meet a condition.** Between the commands the
execution states of the function blocks may change in any way. -/
inductive Run (lib : TypeLibrary) (P : Network → NetworkCommand → Prop) :
    Network → Network → Prop
  | refl (s : Network) : Run lib P s s
  | command {s t : Network} (run : Run lib P s t) (cmd : NetworkCommand) (h : P t cmd) :
    Run lib P s (t.execute lib cmd).1
  | states {s t : Network} (run : Run lib P s t) (state : FBId → FBState) :
    Run lib P s { t with state }

/-- What every step preserves holds after every run. -/
theorem Run.invariant {lib : TypeLibrary} {P : Network → NetworkCommand → Prop}
    {I : Network → Prop} {s t : Network} (run : Run lib P s t) (h : I s)
    (hcommand : ∀ s cmd, I s → P s cmd → I (s.execute lib cmd).1)
    (hstates : ∀ s state, I s → I { s with state }) : I t := by
  induction run with
  | refl => exact h
  | command _ cmd hP ih => exact hcommand _ cmd ih hP
  | states _ state ih => exact hstates _ state ih

/-- Some types of function blocks: sources and sinks of events and data, with an output of
type `ANY` and a struct input, and one with an in-out. -/
def sampleTypes : TypeLibrary := fun typeName _ =>
  if typeName = "SOURCE" then
    .ok { spec :=
            { eoNames := ["CNF"]
              doNames := ["OUT", "GEN"]
              doTypes := [.simple .int, .anyVariant] }
          deletable := true
          inner := []
          separate := by decide }
  else if typeName = "SINK" then
    .ok { spec :=
            { eiNames := ["REQ", "SET", "RESET"]
              eiTypeNames := ["Event", "Event", "Event"]
              diNames := ["IN", "ST"]
              diTypes := [.simple .string, .struct [("Var1", .simple .int)]] }
          deletable := true
          inner := []
          separate := by decide }
  else if typeName = "PIPE" then
    .ok { spec := { dioNames := ["IO"], dioTypes := [.simple .int] }
          deletable := true
          inner := []
          separate := by decide }
  else .error .unsupportedType

end Network

end Forte
