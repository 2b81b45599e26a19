import Forte.Communication.ComStack
import Forte.Communication.LocalComLayer
import Forte.Communication.ParameterParser
import Forte.Datatypes.NumberScanning

/-!
# OPC UA actions

The parameters of an OPC UA layer are the name of an action, an endpoint with a hash behind it or
none, and pairs of a browse path and a node id. Four separators cut them up: a semicolon between
the parts, a comma in a pair, a colon behind the namespace of a node id, and an equals sign behind
the type of its identifier.

* **What an action is read as** is said by the pieces of the text alone (`Forte.OpcUa.infoOf`), and
  `getActionInfoFromParams` does that, and leaves no node id allocated but those that it hands out
  (`Forte.OpcUa.run_getActionInfoFromParams`). The second part must not be empty, as its last
  character is looked at.
* **What is written is read**, if the identifiers have none of the separators of a node id, and the
  first pair of an action without an endpoint does not end like an endpoint
  (`Forte.OpcUa.infoOf_text`).
-/

namespace Forte

namespace OpcUa

open LocalCom (EComServiceType)

/-! ### Actions -/

/-- `UA_ActionType`. -/
inductive UA_ActionType
  | read | write | createMethod | callMethod | subscribe | createObject | createVariable
  | deleteObject | deleteVariable
  deriving DecidableEq, Repr

/-- `mActionNames`. -/
def mActionNames : UA_ActionType → Text
  | .read => text "READ"
  | .write => text "WRITE"
  | .createMethod => text "CREATE_METHOD"
  | .callMethod => text "CALL_METHOD"
  | .subscribe => text "SUBSCRIBE"
  | .createObject => text "CREATE_OBJECT"
  | .createVariable => text "CREATE_VARIABLE"
  | .deleteObject => text "DELETE_OBJECT"
  | .deleteVariable => text "DELETE_VARIABLE"

/-- The actions that are known. -/
def UA_ActionType.all : List UA_ActionType :=
  [.read, .write, .createMethod, .callMethod, .subscribe, .createObject, .createVariable,
    .deleteObject, .deleteVariable]

/-- The identifier of a node id, over the strings and byte strings of the library. -/
inductive Identifier (S B : Type)
  | numeric (n : BitVec 32)
  | string (s : S)
  | byteString (b : B)
  deriving DecidableEq

/-- `UA_NodeId`. -/
structure UA_NodeId (S B : Type) where
  namespaceIndex : BitVec 16
  identifier : Identifier S B
  deriving DecidableEq

/-- `UA_NodeId_init`. -/
def UA_NodeId.init {S B : Type} : UA_NodeId S B := ⟨0, .numeric 0⟩

/-- `CNodePairInfo`. -/
structure CNodePairInfo (S B : Type) where
  mNodeId : Option (UA_NodeId S B)
  mBrowsePath : Text
  deriving DecidableEq

/-- `CActionInfo`. -/
structure CActionInfo (S B : Type) where
  mAction : UA_ActionType
  mEndpoint : Text
  mNodePair : List (CNodePairInfo S B)
  deriving DecidableEq

/-- The layer of an action, by its function block. -/
structure Layer where
  getComServiceType : EComServiceType
  getNumRD : ℕ
  getNumSD : ℕ

namespace CActionInfo

variable {S B : Type} (layer : Layer) (info : CActionInfo S B)

/-- `getNoOfNodePairs`. -/
def getNoOfNodePairs : ℕ := info.mNodePair.length

/-- `checkNodePairInfo`. -/
def checkNodePairInfo : Bool :=
  info.mNodePair.all fun pair => ¬(pair.mBrowsePath = [] ∧ pair.mNodeId.isNone)

/-- `checkReadAction`. -/
def checkReadAction : Bool :=
  if info.mEndpoint = [] then
    layer.getComServiceType = .subscriber ∧ layer.getNumRD = info.getNoOfNodePairs
  else
    layer.getComServiceType = .client ∧ info.getNoOfNodePairs = layer.getNumRD ∧
      layer.getNumSD = 0

/-- `checkWriteAction`. -/
def checkWriteAction : Bool :=
  if info.mEndpoint = [] then
    layer.getComServiceType = .publisher ∧ layer.getNumSD = info.getNoOfNodePairs
  else
    layer.getComServiceType = .client ∧ layer.getNumSD = info.getNoOfNodePairs ∧
      layer.getNumRD = 0

/-- `checkCreateMethodAction`. -/
def checkCreateMethodAction : Bool :=
  layer.getComServiceType = .server ∧ info.getNoOfNodePairs = 1

/-- `checkCallMethodAction`. -/
def checkCallMethodAction : Bool :=
  layer.getComServiceType = .client ∧ info.getNoOfNodePairs = 1 ∧
    ∀ pair ∈ info.mNodePair.head?, pair.mBrowsePath ≠ []

/-- `checkSubscribeAction`. -/
def checkSubscribeAction : Bool :=
  layer.getComServiceType = .subscriber ∧ layer.getNumRD = info.getNoOfNodePairs

/-- `checkCreateObjectAction`, `checkCreateVariableAction` and `checkDeleteNodeAction`, which ask
for two pairs, three and one. -/
def checkPublished (pairs : ℕ) : Bool :=
  layer.getComServiceType = .publisher ∧ info.getNoOfNodePairs = pairs ∧ layer.getNumSD = 0

/-- `checkAction`. -/
def checkAction : Bool :=
  info.checkNodePairInfo &&
    match info.mAction with
    | .read => info.checkReadAction layer
    | .write => info.checkWriteAction layer
    | .createMethod => info.checkCreateMethodAction layer
    | .callMethod => info.checkCallMethodAction layer
    | .subscribe => info.checkSubscribeAction layer
    | .createObject => info.checkPublished layer 2
    | .createVariable => info.checkPublished layer 3
    | .deleteObject => info.checkPublished layer 1
    | .deleteVariable => info.checkPublished layer 1

end CActionInfo

/-! ### Reading -/

/-- What is read, with the number of the node ids that are allocated. There is no result if
something outside of a text is read, or a node id is deleted that is not allocated. -/
abbrev Parse (α : Type) : Type := StateT ℕ Option α

/-- A parser that has parsed, with how many parameters it has found. -/
def parseParameters (paParameters : Text) (paSeparator : UInt8) : Option (ℕ × ParameterParser) :=
  (ParameterParser.create (some paParameters) paSeparator).parseParameters

/-- The text of a parameter; there is none behind a null pointer. -/
def parameter (parser : ParameterParser) (paIndex : ℕ) : Option Text :=
  (parser.get paIndex).bind parser.textAt

/-- `UA_NodeId_new`. -/
def newNodeId : Parse Unit := fun allocated => some ((), allocated + 1)

/-- `UA_NodeId_delete`, for some node ids. -/
def deleteNodeIds (n : ℕ) : Parse Unit := fun allocated =>
  if n ≤ allocated then some ((), allocated - n) else none

/-- How many node ids some pairs own. -/
def owned {S B : Type} (pairs : List (CNodePairInfo S B)) : ℕ :=
  pairs.countP fun pair => pair.mNodeId.isSome

/-- How many node ids an action owns, if there is one. -/
def ownedBy {S B : Type} (info : Option (CActionInfo S B)) : ℕ :=
  owned (info.elim [] (·.mNodePair))

/-- `getActionEnum`, with nothing for an unknown action. -/
def getActionEnum (paActionString : Text) : Option UA_ActionType :=
  UA_ActionType.all.find? fun action => paActionString = mActionNames action

/-- `getEndpoint`: the endpoint, or nothing where there is none. An empty text has no last
character. -/
def getEndpoint (paEndpoint : Text) : Option (Option Text) :=
  paEndpoint.getLast?.map fun back =>
    if back = '#'.toUInt8 then some paEndpoint.dropLast else none

section Parsing

variable {S B : Type} (fromChars : Text → S) (allocByteString : Text → B)

/-- `parseNamespace`. -/
def parseNamespace (paNamespace : Text) (paResult : UA_NodeId S B) : Bool × UA_NodeId S B :=
  (true, { paResult with
    namespaceIndex := (Scanner.strtoul.convert 10 paNamespace).value.setWidth 16 })

/-- `parseIdentifier`. -/
def parseIdentifier (paIdentifier : Text) (paResult : UA_NodeId S B) :
    Option (Bool × UA_NodeId S B) := do
  let (n, identifierParser) ← parseParameters paIdentifier '='.toUInt8
  if n = 2 then
    let type ← parameter identifierParser 0
    let value ← parameter identifierParser 1
    if type = text "i" then
      return (true, { paResult with
        identifier := .numeric ((Scanner.strtoul.convert 10 value).value.setWidth 32) })
    else if type = text "s" then
      return (true, { paResult with identifier := .string (fromChars value) })
    else if type = text "g" then
      return (false, paResult)
    else if type = text "b" then
      return (true, { paResult with identifier := .byteString (allocByteString value) })
    else return (false, paResult)
  else return (false, paResult)

/-- The switch of `parseNodeId`, with whether the parts of the node id have been parsed. -/
def parseNodeIdParts (paNodeIdString : Text) : Option (Bool × UA_NodeId S B) := do
  let (numberOfParameters, mainParser) ← parseParameters paNodeIdString ':'.toUInt8
  if numberOfParameters = 2 then
    let paNamespace ← parameter mainParser 0
    let (parsed, resultNodeId) := parseNamespace paNamespace .init
    if parsed then
      let paIdentifier ← parameter mainParser 1
      parseIdentifier fromChars allocByteString paIdentifier resultNodeId
    else return (false, resultNodeId)
  else if numberOfParameters = 1 then
    let paIdentifier ← parameter mainParser 0
    parseIdentifier fromChars allocByteString paIdentifier .init
  else return (false, .init)

/-- `parseNodeId`. -/
def parseNodeId (paNodeIdString : Text) : Parse (Option (UA_NodeId S B)) := do
  newNodeId
  let (parsed, resultNodeId) ← parseNodeIdParts fromChars allocByteString paNodeIdString
  if parsed then return some resultNodeId
  else
    deleteNodeIds 1
    return none

/-- `handlePair`. -/
def handlePair (paPair : Text) (paResult : List (CNodePairInfo S B)) :
    Parse (Bool × List (CNodePairInfo S B)) := do
  let (noOfParameters, pairParser) ← parseParameters paPair ','.toUInt8
  if noOfParameters = 2 then
    let browsePathResult ← parameter pairParser 0
    let paNodeIdString ← parameter pairParser 1
    let nodeIdResult ← parseNodeId fromChars allocByteString paNodeIdString
    if nodeIdResult.isSome then return (true, paResult ++ [⟨nodeIdResult, browsePathResult⟩])
    else return (false, paResult)
  else if noOfParameters = 1 then
    let browsePathResult ← parameter pairParser 0
    return (true, paResult ++ [⟨none, browsePathResult⟩])
  else return (false, paResult)

/-- The loop over the pairs of `getActionInfoFromParams`, with whether none failed. -/
def handlePairs (mainParser : ParameterParser) :
    List ℕ → List (CNodePairInfo S B) → Parse (Bool × List (CNodePairInfo S B))
  | [], pairs => pure (true, pairs)
  | i :: indices, pairs => do
    let paPair ← parameter mainParser i
    let (handled, pairs) ← handlePair fromChars allocByteString paPair pairs
    if handled then handlePairs mainParser indices pairs else return (false, pairs)

/-- `getActionInfoFromParams`. A local method is an action info as well. -/
def getActionInfoFromParams (paLayer : Layer) (paParams : Text) :
    Parse (Option (CActionInfo S B)) := do
  let (amountOfParameters, mainParser) ← parseParameters paParams ';'.toUInt8
  if 2 ≤ amountOfParameters then
    let paActionString ← parameter mainParser 0
    match getActionEnum paActionString with
    | none => return none
    | some action =>
      let paEndpoint ← parameter mainParser 1
      let endpoint ← getEndpoint paEndpoint
      let startOfNodePairs := if endpoint.isSome then 2 else 1
      let (handled, pairs) ← handlePairs fromChars allocByteString mainParser
        (List.range' startOfNodePairs (amountOfParameters - startOfNodePairs)) []
      let retVal : CActionInfo S B := ⟨action, endpoint.getD [], pairs⟩
      if handled && retVal.checkAction paLayer then return some retVal
      else
        deleteNodeIds (owned pairs)
        return none
  else return none

end Parsing

/-! ### What is read, by the pieces of the text -/

/-- The pieces of a text, without the white space at their ends. -/
def pieces (separator : UInt8) (t : Text) : List Text := (t.splitOn separator).map trim

section Readings

variable {S B : Type} (fromChars : Text → S) (allocByteString : Text → B)

/-- The value of an identifier with a known type. -/
def valueOf (type value : Text) : Option (Identifier S B) :=
  if type = text "i" then
    some (.numeric ((Scanner.strtoul.convert 10 value).value.setWidth 32))
  else if type = text "s" then some (.string (fromChars value))
  else if type = text "b" then some (.byteString (allocByteString value))
  else none

/-- The identifier of a text. -/
def identifierOf (t : Text) : Option (Identifier S B) :=
  match pieces '='.toUInt8 t with
  | [type, value] => valueOf fromChars allocByteString type value
  | _ => none

/-- The node id of a text. -/
def nodeIdOf (t : Text) : Option (UA_NodeId S B) :=
  match pieces ':'.toUInt8 t with
  | [ns, identifier] => (identifierOf fromChars allocByteString identifier).map fun identifier =>
    ⟨(Scanner.strtoul.convert 10 ns).value.setWidth 16, identifier⟩
  | [identifier] => (identifierOf fromChars allocByteString identifier).map (⟨0, ·⟩)
  | _ => none

/-- The pair of a text. -/
def pairOf (t : Text) : Option (CNodePairInfo S B) :=
  match pieces ','.toUInt8 t with
  | [path, nodeId] => (nodeIdOf fromChars allocByteString nodeId).map (⟨some ·, path⟩)
  | [path] => some ⟨none, path⟩
  | _ => none

/-- The endpoint of an action and the texts of its pairs, from the second part on. -/
def endpointOf (second : Text) (rest : List Text) : Text × List Text :=
  if second.getLast? = some '#'.toUInt8 then (second.dropLast, rest) else ([], second :: rest)

/-- An action that is one for the layer. -/
def ifChecked (layer : Layer) (info : CActionInfo S B) : Option (CActionInfo S B) :=
  if info.checkAction layer then some info else none

/-- **The action of a text**, if there is one for the layer. -/
def infoOf (layer : Layer) (t : Text) : Option (CActionInfo S B) :=
  match pieces ';'.toUInt8 t with
  | first :: second :: rest =>
    (getActionEnum first).bind fun action =>
      ((endpointOf second rest).2.mapM (pairOf fromChars allocByteString)).bind fun pairs =>
        ifChecked layer ⟨action, (endpointOf second rest).1, pairs⟩
  | _ => none

end Readings

/-! ### Programs -/

section Programs

variable {α β : Type} {a : α} {allocated allocated' : ℕ}

/-- What does not allocate. -/
theorem run_lift_bind {x : Option α} (h : x = some a) (f : α → Parse β) :
    ((liftM x : Parse α) >>= f).run allocated = (f a).run allocated := by
  subst h
  rfl

theorem run_bind {x : Parse α} (h : x.run allocated = some (a, allocated')) (f : α → Parse β) :
    (x >>= f).run allocated = (f a).run allocated' := by
  rw [StateT.run_bind, h]
  rfl

end Programs

/-! ### Parameters -/

theorem mem_of_mem_splitOn {c separator : UInt8} {t piece : Text}
    (hpiece : piece ∈ t.splitOn separator) (hc : c ∈ piece) : c ∈ t := by
  induction t generalizing piece with
  | nil =>
    obtain rfl := List.mem_singleton.mp hpiece
    exact hc
  | cons x t ih =>
    obtain ⟨first, rest, hsplit⟩ := List.exists_cons_of_ne_nil (List.splitOn_ne_nil separator t)
    rw [List.splitOn_cons_eq_if_modifyHead, hsplit] at hpiece
    rw [hsplit] at ih
    split at hpiece
    · rcases List.mem_cons.mp hpiece with rfl | hmem
      · exact absurd hc List.not_mem_nil
      · exact List.mem_cons_of_mem x (ih hmem hc)
    · rcases List.mem_cons.mp hpiece with rfl | hmem
      · rcases List.mem_cons.mp hc with rfl | hc
        · exact List.mem_cons_self
        · exact List.mem_cons_of_mem x (ih List.mem_cons_self hc)
      · exact List.mem_cons_of_mem x (ih (List.mem_cons_of_mem first hmem) hc)

theorem mem_of_mem_trim {c : UInt8} {t : Text} (h : c ∈ trim t) : c ∈ t :=
  (List.dropWhile_suffix _).subset ((List.rdropWhile_prefix _ _).subset h)

/-- The pieces of a C string are C strings. -/
theorem zero_notMem_of_mem_pieces {separator : UInt8} {t piece : Text} (ht : 0 ∉ t)
    (h : piece ∈ pieces separator t) : 0 ∉ piece := by
  obtain ⟨whole, hwhole, rfl⟩ := List.mem_map.mp h
  exact fun hzero => ht (mem_of_mem_splitOn hwhole (mem_of_mem_trim hzero))

theorem pieces_ne_nil (separator : UInt8) (t : Text) : pieces separator t ≠ [] := fun h =>
  List.splitOn_ne_nil separator t (List.map_eq_nil_iff.mp h)

/-- **A parser hands out the pieces** of its text. -/
theorem parseParameters_spec {separator : UInt8} {t : Text} (ht : 0 ∉ t)
    (hseparator : isspace separator = false) :
    ∃ parser, parseParameters t separator = some ((pieces separator t).length, parser) ∧
      ∀ i, parameter parser i = (pieces separator t)[i]? := by
  have hgiven : ParameterParser.given (some t) = t :=
    List.takeWhile_eq_self_iff.mpr fun c hc => decide_eq_true (ne_of_mem_of_not_mem hc ht)
  obtain ⟨locations, cut, hrun, hpieces⟩ :=
    ParameterParser.parseParameters_eq (some t) hseparator
  rw [hgiven] at hpieces
  refine ⟨⟨cut, locations, separator⟩, ?_, fun i => ?_⟩
  · rw [pieces, ← hpieces.length_eq]
    exact hrun
  · have htexts : locations.map (ParameterParser.textAt ⟨cut, locations, separator⟩) =
        (pieces separator t).map some := by
      rw [← List.forall₂_eq_eq_eq, List.forall₂_map_left_iff, List.forall₂_map_right_iff]
      exact hpieces.imp fun _ _ h => h.2
    have hat := congrArg (fun texts => texts[i]?) htexts
    rw [List.getElem?_map, List.getElem?_map] at hat
    rw [parameter, ParameterParser.get]
    cases hlocation : locations[i]? with
    | none =>
      rw [hlocation] at hat
      exact (Option.map_eq_none_iff.mp hat.symm).symm
    | some location =>
      rw [hlocation] at hat
      obtain ⟨piece, hpiece, heq⟩ := Option.map_eq_some_iff.mp hat.symm
      rw [hpiece]
      exact heq.symm

/-! ### The parts -/

section Parts

variable {S B : Type} {fromChars : Text → S} {allocByteString : Text → B} {t : Text}

/-- **An identifier is parsed** as it is read. -/
theorem parseIdentifier_eq (ht : 0 ∉ t) (paResult : UA_NodeId S B) :
    parseIdentifier fromChars allocByteString t paResult =
      some (match identifierOf fromChars allocByteString t with
        | some identifier => (true, { paResult with identifier := identifier })
        | none => (false, paResult)) := by
  obtain ⟨parser, hparse, hparameter⟩ :=
    parseParameters_spec ht (by decide : isspace '='.toUInt8 = false)
  rw [parseIdentifier, hparse, identifierOf]
  match hpieces : pieces '='.toUInt8 t with
  | [] => exact absurd hpieces (pieces_ne_nil _ _)
  | [_] => rfl
  | [type, value] =>
    have htype : parameter parser 0 = some type := (hparameter 0).trans (by rw [hpieces]; rfl)
    have hvalue : parameter parser 1 = some value := (hparameter 1).trans (by rw [hpieces]; rfl)
    simp only [Option.bind_eq_bind, Option.bind_some, htype, hvalue, valueOf]
    by_cases hi : type = text "i"
    · rw [if_pos hi, if_pos hi]
      rfl
    rw [if_neg hi, if_neg hi]
    by_cases hs : type = text "s"
    · rw [if_pos hs, if_pos hs]
      rfl
    rw [if_neg hs, if_neg hs]
    by_cases hb : type = text "b"
    · have hg : type ≠ text "g" := hb ▸ by decide
      rw [if_neg hg, if_pos hb, if_pos hb]
      rfl
    · rw [if_neg hb, if_neg hb]
      split_ifs <;> rfl
  | _ :: _ :: _ :: _ => rfl

theorem parseNodeIdParts_eq (ht : 0 ∉ t) : ∃ resultNodeId,
    parseNodeIdParts fromChars allocByteString t =
      some ((nodeIdOf fromChars allocByteString t).isSome, resultNodeId) ∧
    ∀ nodeId ∈ nodeIdOf fromChars allocByteString t, nodeId = resultNodeId := by
  obtain ⟨parser, hparse, hparameter⟩ :=
    parseParameters_spec ht (by decide : isspace ':'.toUInt8 = false)
  have hzero : ∀ piece ∈ pieces ':'.toUInt8 t, 0 ∉ piece :=
    fun _ hpiece => zero_notMem_of_mem_pieces ht hpiece
  rw [parseNodeIdParts, hparse, nodeIdOf]
  match hpieces : pieces ':'.toUInt8 t with
  | [] => exact absurd hpieces (pieces_ne_nil _ _)
  | [identifier] =>
    have hidentifier : parameter parser 0 = some identifier :=
      (hparameter 0).trans (by rw [hpieces]; rfl)
    have heq := @parseIdentifier_eq S B fromChars allocByteString identifier
      (hzero _ (by rw [hpieces]; exact List.mem_cons_self)) .init
    simp only [Option.bind_eq_bind, Option.bind_some, List.length_singleton, hidentifier]
    rw [if_neg (by decide), if_pos trivial, heq]
    cases identifierOf fromChars allocByteString identifier with
    | none => exact ⟨_, rfl, nofun⟩
    | some found => exact ⟨_, rfl, fun _ h => (Option.some.inj h).symm⟩
  | [ns, identifier] =>
    have hns : parameter parser 0 = some ns := (hparameter 0).trans (by rw [hpieces]; rfl)
    have hidentifier : parameter parser 1 = some identifier :=
      (hparameter 1).trans (by rw [hpieces]; rfl)
    have heq := @parseIdentifier_eq S B fromChars allocByteString identifier
      (hzero _ (by rw [hpieces]; exact List.mem_cons_of_mem _ List.mem_cons_self))
      (parseNamespace ns .init).2
    simp only [Option.bind_eq_bind, Option.bind_some, hns, hidentifier]
    have htwo : [ns, identifier].length = 2 := rfl
    have hparsed : (parseNamespace ns (.init : UA_NodeId S B)).1 = true := rfl
    rw [if_pos htwo, if_pos hparsed, heq]
    cases identifierOf fromChars allocByteString identifier with
    | none => exact ⟨_, rfl, nofun⟩
    | some found => exact ⟨_, rfl, fun _ h => (Option.some.inj h).symm⟩
  | _ :: _ :: _ :: _ => exact ⟨_, rfl, nofun⟩

/-- **A node id is parsed** as it is read, and is allocated only if there is one. -/
theorem run_parseNodeId (ht : 0 ∉ t) (allocated : ℕ) :
    (parseNodeId fromChars allocByteString t).run allocated =
      some (nodeIdOf fromChars allocByteString t,
        allocated + (nodeIdOf fromChars allocByteString t).toList.length) := by
  obtain ⟨resultNodeId, hparts, hnodeId⟩ := @parseNodeIdParts_eq S B fromChars allocByteString t ht
  have hdelete : deleteNodeIds 1 (allocated + 1) = some ((), allocated) :=
    if_pos (Nat.le_add_left 1 allocated)
  rw [parseNodeId, hparts]
  cases hcase : nodeIdOf fromChars allocByteString t with
  | none => exact congrArg (Option.bind · fun r => some (none, r.2)) hdelete
  | some nodeId =>
    rw [hnodeId nodeId hcase]
    rfl

/-- How many node ids a pair owns. -/
theorem owned_append (pairs : List (CNodePairInfo S B)) (pair : CNodePairInfo S B) :
    owned (pairs ++ [pair]) = owned pairs + pair.mNodeId.toList.length := by
  rw [owned, List.countP_append, owned]
  cases hnodeId : pair.mNodeId with
  | none => simp [hnodeId]
  | some nodeId => simp [hnodeId]

/-- **A pair is handled** as it is read: it is appended, or nothing is. -/
theorem run_handlePair (ht : 0 ∉ t) (pairs : List (CNodePairInfo S B)) (allocated : ℕ) :
    (handlePair fromChars allocByteString t pairs).run (allocated + owned pairs) =
      some (match pairOf fromChars allocByteString t with
        | some pair => ((true, pairs ++ [pair]), allocated + owned (pairs ++ [pair]))
        | none => ((false, pairs), allocated + owned pairs)) := by
  obtain ⟨parser, hparse, hparameter⟩ :=
    parseParameters_spec ht (by decide : isspace ','.toUInt8 = false)
  have hzero : ∀ piece ∈ pieces ','.toUInt8 t, 0 ∉ piece :=
    fun _ hpiece => zero_notMem_of_mem_pieces ht hpiece
  rw [handlePair, run_lift_bind hparse, pairOf]
  match hpieces : pieces ','.toUInt8 t with
  | [] => exact absurd hpieces (pieces_ne_nil _ _)
  | [path] =>
    have hpath : parameter parser 0 = some path := (hparameter 0).trans (by rw [hpieces]; rfl)
    have hone : ¬[path].length = 2 := by
      rw [List.length_singleton]
      decide
    dsimp only
    rw [owned_append, if_neg hone, if_pos List.length_singleton, run_lift_bind hpath]
    rfl
  | [path, nodeId] =>
    have hpath : parameter parser 0 = some path := (hparameter 0).trans (by rw [hpieces]; rfl)
    have hnodeId : parameter parser 1 = some nodeId := (hparameter 1).trans (by rw [hpieces]; rfl)
    have hrun := @run_parseNodeId S B fromChars allocByteString nodeId
      (hzero _ (by rw [hpieces]; exact List.mem_cons_of_mem _ List.mem_cons_self))
      (allocated + owned pairs)
    have htwo : [path, nodeId].length = 2 := rfl
    dsimp only
    rw [if_pos htwo, run_lift_bind hpath, run_lift_bind hnodeId, run_bind hrun]
    cases nodeIdOf fromChars allocByteString nodeId with
    | none => rfl
    | some found =>
      dsimp only [Option.map_some]
      rw [owned_append]
      rfl
  | _ :: _ :: _ :: _ => rfl

/-- **The pairs are handled** as they are read, up to the first one that is none. -/
theorem run_handlePairs {parser : ParameterParser} {indices : List ℕ} {texts : List Text}
    (htexts : List.Forall₂ (fun i piece => parameter parser i = some piece ∧ 0 ∉ piece) indices
      texts) (pairs : List (CNodePairInfo S B)) (allocated : ℕ) :
    ∃ handled pairs', (handlePairs fromChars allocByteString parser indices pairs).run
        (allocated + owned pairs) = some ((handled, pairs'), allocated + owned pairs') ∧
      (texts.mapM (pairOf fromChars allocByteString)).map (pairs ++ ·) =
        if handled then some pairs' else none := by
  induction htexts generalizing pairs with
  | nil => exact ⟨true, pairs, rfl, by simp⟩
  | @cons i piece indices texts hpiece _ ih =>
    have hrun := @run_handlePair S B fromChars allocByteString piece hpiece.2 pairs allocated
    rw [handlePairs, run_lift_bind hpiece.1, List.mapM_cons]
    cases hpair : pairOf fromChars allocByteString piece with
    | none =>
      rw [hpair] at hrun
      rw [run_bind hrun]
      exact ⟨false, pairs, rfl, rfl⟩
    | some pair =>
      rw [hpair] at hrun
      rw [run_bind hrun]
      obtain ⟨handled, pairs', hrest, hpairs⟩ := ih (pairs ++ [pair])
      refine ⟨handled, pairs', hrest, ?_⟩
      rw [← hpairs]
      cases texts.mapM (pairOf fromChars allocByteString) with
      | none => rfl
      | some rest => simp

/-- The parameters from one on. -/
theorem forall₂_parameter {parser : ParameterParser} {texts : List Text}
    (hparameter : ∀ i, parameter parser i = texts[i]?) (hzero : ∀ piece ∈ texts, 0 ∉ piece)
    (k : ℕ) :
    List.Forall₂ (fun i piece => parameter parser i = some piece ∧ 0 ∉ piece)
      (List.range' k (texts.length - k)) (texts.drop k) := by
  induction hn : texts.length - k generalizing k with
  | zero =>
    rw [List.drop_eq_nil_of_le (by omega)]
    exact .nil
  | succ n ih =>
    have hlt : k < texts.length := by omega
    rw [List.drop_eq_getElem_cons hlt, List.range'_succ]
    refine .cons ⟨?_, hzero _ (List.getElem_mem hlt)⟩ (ih (k + 1) (by omega))
    rw [hparameter, List.getElem?_eq_getElem hlt]

/-- **The second part is given**, if the first one is an action. -/
def SecondGiven (t : Text) : Prop :=
  ∀ first second rest, pieces ';'.toUInt8 t = first :: second :: rest →
    (getActionEnum first).isSome → second ≠ []

/-- **The end**: an action that is not for the layer is deleted, with all of its node ids. -/
theorem run_checked {handled : Bool} {pairs : List (CNodePairInfo S B)}
    {found : Option (List (CNodePairInfo S B))}
    (hfound : found = if handled then some pairs else none)
    (layer : Layer) (action : UA_ActionType) (endpoint : Text) (allocated : ℕ) :
    ((if handled && CActionInfo.checkAction layer ⟨action, endpoint, pairs⟩ then
        return some ⟨action, endpoint, pairs⟩
      else do
        deleteNodeIds (owned pairs)
        return none) : Parse (Option (CActionInfo S B))).run (allocated + owned pairs) =
      some (found.bind fun pairs => ifChecked layer ⟨action, endpoint, pairs⟩, allocated +
        ownedBy (found.bind fun pairs => ifChecked layer ⟨action, endpoint, pairs⟩)) := by
  have hdelete : (deleteNodeIds (owned pairs)).run (allocated + owned pairs) =
      some ((), allocated) := by
    have hsub : allocated + owned pairs - owned pairs = allocated := Nat.add_sub_cancel _ _
    have hdelete : deleteNodeIds (owned pairs) (allocated + owned pairs) =
      some ((), allocated + owned pairs - owned pairs) := if_pos (Nat.le_add_left _ _)
    rwa [hsub] at hdelete
  subst hfound
  cases handled with
  | false => exact run_bind hdelete _
  | true =>
    rw [Bool.true_and, if_pos rfl, Option.bind_some, ifChecked]
    by_cases hcheck : CActionInfo.checkAction layer ⟨action, endpoint, pairs⟩ = true
    · rw [if_pos hcheck, if_pos hcheck]
      rfl
    · rw [if_neg hcheck, if_neg hcheck]
      exact run_bind hdelete _

/-- **The action of a text** is what is returned, and the node ids that it owns are all that has
been allocated. -/
theorem run_getActionInfoFromParams (layer : Layer) (ht : 0 ∉ t) (hsecond : SecondGiven t)
    (allocated : ℕ) :
    (getActionInfoFromParams fromChars allocByteString layer t).run allocated =
      some (infoOf fromChars allocByteString layer t,
        allocated + ownedBy (infoOf fromChars allocByteString layer t)) := by
  obtain ⟨parser, hparse, hparameter⟩ :=
    parseParameters_spec ht (by decide : isspace ';'.toUInt8 = false)
  have hzero : ∀ piece ∈ pieces ';'.toUInt8 t, 0 ∉ piece :=
    fun _ hpiece => zero_notMem_of_mem_pieces ht hpiece
  rw [getActionInfoFromParams, run_lift_bind hparse, infoOf]
  match hpieces : pieces ';'.toUInt8 t with
  | [] => exact absurd hpieces (pieces_ne_nil _ _)
  | [_] => rfl
  | first :: second :: rest =>
    rw [hpieces] at hparameter hzero
    have htwo : 2 ≤ (first :: second :: rest).length := by
      rw [List.length_cons, List.length_cons]
      omega
    have hfirst : parameter parser 0 = some first := hparameter 0
    have hsecond' : parameter parser 1 = some second := hparameter 1
    dsimp only
    rw [if_pos htwo, run_lift_bind hfirst]
    cases haction : getActionEnum first with
    | none => rfl
    | some action =>
      have hne := hsecond first second rest hpieces (haction ▸ rfl)
      have hlast := List.getLast?_eq_some_getLast hne
      dsimp only
      rw [run_lift_bind hsecond']
      by_cases hhash : second.getLast hne = '#'.toUInt8
      · have hendpoint : getEndpoint second = some (some second.dropLast) := by
          rw [getEndpoint, hlast, Option.map_some, if_pos hhash]
        obtain ⟨handled, pairs, hrun, hpairs⟩ :=
          @run_handlePairs S B fromChars allocByteString _ _ _
            (forall₂_parameter hparameter hzero 2) [] allocated
        rw [run_lift_bind hendpoint, endpointOf, hlast, if_pos (congrArg some hhash)]
        refine (run_bind hrun _).trans (run_checked ?_ layer action second.dropLast allocated)
        rw [← hpairs]
        exact Option.map_id'.symm
      · have hendpoint : getEndpoint second = some none := by
          rw [getEndpoint, hlast, Option.map_some, if_neg hhash]
        obtain ⟨handled, pairs, hrun, hpairs⟩ :=
          @run_handlePairs S B fromChars allocByteString _ _ _
            (forall₂_parameter hparameter hzero 1) [] allocated
        rw [run_lift_bind hendpoint, endpointOf, hlast,
          if_neg fun h => hhash (Option.some.inj h)]
        refine (run_bind hrun _).trans (run_checked ?_ layer action [] allocated)
        rw [← hpairs]
        exact Option.map_id'.symm

end Parts

/-! ### Actions that are written -/

/-- No white space at the ends. -/
def Tight (t : Text) : Prop :=
  (∀ c ∈ t.head?, isspace c = false) ∧ ∀ c ∈ t.getLast?, isspace c = false

/-- A text that may be a part: without a terminator, a semicolon, a comma or white space at its
ends. -/
structure Plain (t : Text) : Prop where
  zero : 0 ∉ t
  semicolon : ';'.toUInt8 ∉ t
  comma : ','.toUInt8 ∉ t
  tight : Tight t

/-- An identifier that is written. -/
inductive Written
  | number (n : BitVec 32)
  | string (t : Text)
  | byteString (t : Text)

namespace Written

/-- The letter of the type. -/
def letter : Written → UInt8
  | number _ => 'i'.toUInt8
  | string _ => 's'.toUInt8
  | byteString _ => 'b'.toUInt8

/-- What is behind the equals sign. -/
def value : Written → Text
  | number n => decimalDigits n.toNat
  | string t => t
  | byteString t => t

/-- The text of an identifier. -/
def text (w : Written) : Text := w.letter :: '='.toUInt8 :: w.value

end Written

/-- A node id that is written, with a namespace or without one. -/
structure WrittenNodeId where
  ns : Option (BitVec 16)
  identifier : Written

/-- The text of a node id. -/
def WrittenNodeId.text (n : WrittenNodeId) : Text :=
  match n.ns with
  | some ns => decimalDigits ns.toNat ++ ':'.toUInt8 :: n.identifier.text
  | none => n.identifier.text

/-- An action that is written, with its pairs of a browse path and a node id or none. -/
structure Request where
  action : UA_ActionType
  endpoint : Option Text
  pairs : List (Text × Option WrittenNodeId)

/-- The text of a pair. -/
def pairText : Text × Option WrittenNodeId → Text
  | (path, some n) => path ++ ','.toUInt8 :: n.text
  | (path, none) => path

namespace Request

variable (r : Request)

/-- The endpoint with its hash, if there is one, and the pairs. -/
def tailParts : List Text :=
  (r.endpoint.map (· ++ ['#'.toUInt8])).toList ++ r.pairs.map pairText

/-- The text of an action. -/
def text : Text := [';'.toUInt8].intercalate (mActionNames r.action :: r.tailParts)

/-- **The parts are plain.** -/
structure Proper : Prop where
  endpoint : ∀ endpoint ∈ r.endpoint, Plain endpoint
  path : ∀ pair ∈ r.pairs, Plain pair.1
  identifier : ∀ pair ∈ r.pairs, ∀ n ∈ pair.2, Plain n.identifier.value

/-- **The parts can be told apart**: no identifier has a separator of a node id in it, and if there
is no endpoint then there is a first pair, and it does not end like one. -/
structure Separable : Prop where
  colon : ∀ pair ∈ r.pairs, ∀ n ∈ pair.2, ':'.toUInt8 ∉ n.identifier.value
  equals : ∀ pair ∈ r.pairs, ∀ n ∈ pair.2, '='.toUInt8 ∉ n.identifier.value
  first : r.endpoint = none → ∃ pair ∈ r.pairs.head?, (pairText pair).getLast? ≠ some '#'.toUInt8

end Request

section Written

variable {S B : Type} (fromChars : Text → S) (allocByteString : Text → B)

/-- The identifier as it is to be read. -/
def Written.identifier : Written → Identifier S B
  | number n => .numeric n
  | string t => .string (fromChars t)
  | byteString t => .byteString (allocByteString t)

/-- The pair as it is to be read. -/
def pairInfo (pair : Text × Option WrittenNodeId) : CNodePairInfo S B where
  mNodeId := pair.2.map fun n =>
    ⟨n.ns.getD 0, n.identifier.identifier fromChars allocByteString⟩
  mBrowsePath := pair.1

/-- **The action as it is to be read.** -/
def Request.info (r : Request) : CActionInfo S B where
  mAction := r.action
  mEndpoint := r.endpoint.getD []
  mNodePair := r.pairs.map (pairInfo fromChars allocByteString)

end Written

/-! ### Pieces of what is written -/

section Pieces

variable {t a b : Text} {c separator : UInt8}

theorem Tight.trim_eq (h : Tight t) : trim t = t := by
  have hdrop : t.dropWhile isspace = t := by
    cases t with
    | nil => rfl
    | cons c t => exact List.dropWhile_cons_of_neg (by simp [h.1 c rfl])
  rw [trim, hdrop, List.rdropWhile_eq_self_iff]
  intro hne
  rw [Bool.not_eq_true]
  exact h.2 _ (List.getLast?_eq_some_getLast hne)

theorem tight_of_forall (h : ∀ c ∈ t, isspace c = false) : Tight t :=
  ⟨fun c hc => h c (List.mem_of_mem_head? hc), fun c hc => h c (List.mem_of_mem_getLast? hc)⟩

/-- A text with something in the middle that is no white space. -/
theorem tight_append_cons (ha : ∀ c ∈ a.head?, isspace c = false) (hc : isspace c = false)
    (hb : ∀ c ∈ b.getLast?, isspace c = false) : Tight (a ++ c :: b) := by
  constructor
  · intro d hd
    cases a with
    | nil => exact Option.some.inj hd ▸ hc
    | cons e a => exact ha d hd
  · intro d hd
    rw [List.getLast?_append_cons] at hd
    cases hlast : b.getLast? with
    | none =>
      obtain rfl := List.getLast?_eq_none_iff.mp hlast
      exact Option.some.inj hd ▸ hc
    | some e =>
      rw [List.getLast?_cons, hlast] at hd
      exact Option.some.inj hd ▸ hb e hlast

theorem pieces_of_not_mem (h : separator ∉ t) (ht : Tight t) : pieces separator t = [t] := by
  rw [pieces, List.splitOn_eq_singleton h, List.map_singleton, ht.trim_eq]

/-- The first piece. -/
theorem pieces_append_cons (h : separator ∉ a) (ha : Tight a) (b : Text) :
    pieces separator (a ++ separator :: b) = a :: pieces separator b := by
  rw [pieces, List.splitOn_append_cons_self_of_not_mem h, List.map_cons, ha.trim_eq, pieces]

/-- **Parts with separators between them** are the pieces of their text. -/
theorem pieces_intercalate {parts : List Text} (hne : parts ≠ [])
    (hparts : ∀ part ∈ parts, separator ∉ part ∧ Tight part) :
    pieces separator ([separator].intercalate parts) = parts := by
  rw [pieces, List.splitOn_intercalate separator (fun part hpart => (hparts part hpart).1) hne]
  exact (List.map_congr_left fun part hpart => (hparts part hpart).2.trim_eq).trans (List.map_id _)

theorem of_mem_intercalate {parts : List Text} (h : c ∈ [separator].intercalate parts) :
    c = separator ∨ ∃ part ∈ parts, c ∈ part := by
  induction parts with
  | nil => exact absurd h (by simp)
  | cons part parts ih =>
    cases parts with
    | nil => exact .inr ⟨part, List.mem_cons_self, by simpa using h⟩
    | cons next parts =>
      rw [List.intercalate_cons_cons, List.append_assoc] at h
      rcases List.mem_append.mp h with h | h
      · exact .inr ⟨part, List.mem_cons_self, h⟩
      · rcases List.mem_cons.mp h with h | h
        · exact .inl h
        · obtain hsep | ⟨part', hpart, hc⟩ := ih h
          · exact .inl hsep
          · exact .inr ⟨part', List.mem_cons_of_mem part hpart, hc⟩

theorem isspace_of_isDigit (c : UInt8) : isDigit c = true → isspace c = false := by
  revert c
  exact forall_byte (by decide +kernel)

theorem tight_decimalDigits (n : ℕ) : Tight (decimalDigits n) :=
  tight_of_forall fun c hc => isspace_of_isDigit c (Scanner.isDigit_of_mem_decimalDigits hc)

theorem not_mem_decimalDigits (h : isDigit c = false) (n : ℕ) : c ∉ decimalDigits n := fun hc =>
  Bool.false_ne_true (h.symm.trans (Scanner.isDigit_of_mem_decimalDigits hc))

end Pieces

/-! ### What is written is read -/

section Restoring

variable {S B : Type} {fromChars : Text → S} {allocByteString : Text → B}

theorem Written.letter_spec (w : Written) : isspace w.letter = false ∧ w.letter ≠ '='.toUInt8 ∧
    w.letter ≠ ':'.toUInt8 ∧ w.letter ≠ ','.toUInt8 ∧ w.letter ≠ ';'.toUInt8 ∧ w.letter ≠ 0 := by
  have hletters : ∀ c ∈ Forte.text "isb", isspace c = false ∧ c ≠ '='.toUInt8 ∧
      c ≠ ':'.toUInt8 ∧ c ≠ ','.toUInt8 ∧ c ≠ ';'.toUInt8 ∧ c ≠ 0 :=
    List.all_iff_forall_prop.mp (by decide)
  cases w with
  | number n => exact hletters _ List.mem_cons_self
  | string t => exact hletters _ (List.mem_cons_of_mem _ List.mem_cons_self)
  | byteString t =>
    exact hletters _ (List.mem_cons_of_mem _ (List.mem_cons_of_mem _ List.mem_cons_self))

theorem Written.tight_letter (w : Written) : Tight [w.letter] :=
  tight_of_forall fun _ hc => List.mem_singleton.mp hc ▸ w.letter_spec.1

theorem Written.tight (w : Written) (h : Plain w.value) : Tight w.text :=
  @tight_append_cons [w.letter] w.value '='.toUInt8 w.tight_letter.1 (by decide) h.tight.2

/-- The identifier of a node id. -/
theorem identifierOf_text {w : Written} (h : Plain w.value) (hequals : '='.toUInt8 ∉ w.value) :
    identifierOf fromChars allocByteString w.text =
      some (w.identifier fromChars allocByteString) := by
  have hletter : '='.toUInt8 ∉ [w.letter] := fun hmem =>
    w.letter_spec.2.1 (List.mem_singleton.mp hmem).symm
  have hpieces : pieces '='.toUInt8 w.text = [[w.letter], w.value] := by
    rw [← pieces_of_not_mem hequals h.tight]
    exact pieces_append_cons hletter w.tight_letter w.value
  rw [identifierOf, hpieces]
  cases w with
  | number n =>
    have hconvert := @Scanner.convert_decimalDigits [] n.toNat rfl
    have hmin : min n.toNat (2 ^ 32 - 1) = n.toNat := min_eq_left (Nat.le_sub_one_of_lt n.isLt)
    rw [List.append_nil, hmin] at hconvert
    change some (Identifier.numeric
      ((Scanner.strtoul.convert 10 (decimalDigits n.toNat)).value.setWidth 32)) = some (.numeric n)
    rw [hconvert, BitVec.setWidth_ofNat_of_le (by decide), BitVec.ofNat_toNat, BitVec.setWidth_eq]
  | string t => rfl
  | byteString t => rfl

/-- A character that is not in an identifier. -/
theorem Written.not_mem_text {w : Written} {c : UInt8} (hletter : w.letter ≠ c)
    (hequals : '='.toUInt8 ≠ c) (hvalue : c ∉ w.value) : c ∉ w.text := by
  intro hmem
  rcases List.mem_cons.mp hmem with h | hmem
  · exact hletter h.symm
  · rcases List.mem_cons.mp hmem with h | hmem
    · exact hequals h.symm
    · exact hvalue hmem

/-- The node id of a pair. -/
theorem nodeIdOf_text {n : WrittenNodeId} (h : Plain n.identifier.value)
    (hequals : '='.toUInt8 ∉ n.identifier.value) (hcolon : ':'.toUInt8 ∉ n.identifier.value) :
    nodeIdOf fromChars allocByteString n.text =
      some ⟨n.ns.getD 0, n.identifier.identifier fromChars allocByteString⟩ := by
  have hidentifier := pieces_of_not_mem (Written.not_mem_text n.identifier.letter_spec.2.2.1
    (by decide) hcolon) (n.identifier.tight h)
  rw [nodeIdOf, WrittenNodeId.text]
  cases n.ns with
  | none =>
    dsimp only
    rw [hidentifier]
    dsimp only
    rw [identifierOf_text h hequals]
    rfl
  | some ns =>
    have hconvert := @Scanner.convert_decimalDigits [] ns.toNat rfl
    have hmin : min ns.toNat (2 ^ 32 - 1) = ns.toNat := by
      have hlt := ns.isLt
      omega
    rw [List.append_nil, hmin] at hconvert
    dsimp only
    rw [pieces_append_cons (not_mem_decimalDigits (by decide) _) (tight_decimalDigits _),
      hidentifier]
    dsimp only
    rw [identifierOf_text h hequals, hconvert, BitVec.setWidth_ofNat_of_le (by decide),
      BitVec.ofNat_toNat, BitVec.setWidth_eq]
    rfl

theorem WrittenNodeId.tight (n : WrittenNodeId) (h : Plain n.identifier.value) : Tight n.text := by
  have hidentifier := n.identifier.tight h
  rw [WrittenNodeId.text]
  cases n.ns with
  | none => exact hidentifier
  | some ns => exact tight_append_cons (tight_decimalDigits _).1 (by decide) hidentifier.2

/-- A character that is not in a node id. -/
theorem WrittenNodeId.not_mem_text {n : WrittenNodeId} {c : UInt8} (hdigit : isDigit c = false)
    (hcolon : ':'.toUInt8 ≠ c) (hidentifier : c ∉ n.identifier.text) : c ∉ n.text := by
  rw [WrittenNodeId.text]
  cases n.ns with
  | none => exact hidentifier
  | some ns =>
    intro hmem
    rcases List.mem_append.mp hmem with hmem | hmem
    · exact not_mem_decimalDigits hdigit _ hmem
    · rcases List.mem_cons.mp hmem with h | hmem
      · exact hcolon h.symm
      · exact hidentifier hmem

section Pair

variable {pair : Text × Option WrittenNodeId}

/-- A pair. -/
theorem pairOf_text (hpath : Plain pair.1) (hidentifier : ∀ n ∈ pair.2, Plain n.identifier.value)
    (hequals : ∀ n ∈ pair.2, '='.toUInt8 ∉ n.identifier.value)
    (hcolon : ∀ n ∈ pair.2, ':'.toUInt8 ∉ n.identifier.value) :
    pairOf fromChars allocByteString (pairText pair) =
      some (pairInfo fromChars allocByteString pair) := by
  obtain ⟨path, nodeId⟩ := pair
  rw [pairOf]
  cases nodeId with
  | none =>
    rw [pairText, pieces_of_not_mem hpath.comma hpath.tight]
    rfl
  | some n =>
    have hplain := hidentifier n rfl
    have hcomma : ','.toUInt8 ∉ n.text := WrittenNodeId.not_mem_text (by decide) (by decide)
      (Written.not_mem_text n.identifier.letter_spec.2.2.2.1 (by decide) hplain.comma)
    rw [pairText, pieces_append_cons hpath.comma hpath.tight,
      pieces_of_not_mem hcomma (n.tight hplain)]
    dsimp only
    rw [nodeIdOf_text hplain (hequals n rfl) (hcolon n rfl)]
    rfl

theorem tight_pairText (hpath : Plain pair.1)
    (hidentifier : ∀ n ∈ pair.2, Plain n.identifier.value) : Tight (pairText pair) := by
  obtain ⟨path, nodeId⟩ := pair
  cases nodeId with
  | none => exact hpath.tight
  | some n => exact tight_append_cons hpath.tight.1 (by decide) (n.tight (hidentifier n rfl)).2

/-- A character that is not in a pair. -/
theorem not_mem_pairText {c : UInt8} (hdigit : isDigit c = false)
    (hothers : ∀ d ∈ Forte.text "=:,", d ≠ c) (hletter : ∀ w : Written, w.letter ≠ c)
    (hfirst : c ∉ pair.1) (hvalue : ∀ n ∈ pair.2, c ∉ n.identifier.value) :
    c ∉ pairText pair := by
  obtain ⟨path, nodeId⟩ := pair
  cases nodeId with
  | none => exact hfirst
  | some n =>
    intro hmem
    rcases List.mem_append.mp hmem with hmem | hmem
    · exact hfirst hmem
    · rcases List.mem_cons.mp hmem with h | hmem
      · exact hothers ','.toUInt8 (by decide) h.symm
      · exact WrittenNodeId.not_mem_text hdigit (hothers ':'.toUInt8 (by decide))
          (Written.not_mem_text (hletter n.identifier) (hothers '='.toUInt8 (by decide))
            (hvalue n rfl)) hmem

end Pair

section Actions

variable {r : Request}

theorem mActionNames_spec (action : UA_ActionType) :
    ';'.toUInt8 ∉ mActionNames action ∧ 0 ∉ mActionNames action ∧ Tight (mActionNames action) ∧
      getActionEnum (mActionNames action) = some action := by
  cases action <;> exact ⟨by decide, by decide,
    tight_of_forall (List.all_iff_forall_prop.mp (by decide)), by decide⟩

/-- The parts behind the name of the action. -/
theorem Request.Proper.tailParts_spec (hr : r.Proper) {part : Text} (h : part ∈ r.tailParts) :
    ';'.toUInt8 ∉ part ∧ 0 ∉ part ∧ Tight part := by
  rcases List.mem_append.mp h with h | h
  · obtain ⟨endpoint, hendpoint, rfl⟩ := Option.map_eq_some_iff.mp (Option.mem_toList.mp h)
    have hplain := hr.endpoint endpoint hendpoint
    refine ⟨fun hmem => ?_, fun hmem => ?_,
      tight_append_cons hplain.tight.1 (by decide) (by simp)⟩
    · rcases List.mem_append.mp hmem with hmem | hmem
      · exact hplain.semicolon hmem
      · exact absurd (List.mem_singleton.mp hmem) (by decide)
    · rcases List.mem_append.mp hmem with hmem | hmem
      · exact hplain.zero hmem
      · exact absurd (List.mem_singleton.mp hmem) (by decide)
  · obtain ⟨pair, hpair, rfl⟩ := List.mem_map.mp h
    have hpath := hr.path pair hpair
    have hidentifier := hr.identifier pair hpair
    refine ⟨?_, ?_, tight_pairText hpath hidentifier⟩
    · exact not_mem_pairText (by decide) (List.all_iff_forall_prop.mp (by decide))
        (fun w => w.letter_spec.2.2.2.2.1) hpath.semicolon fun n hn => (hidentifier n hn).semicolon
    · exact not_mem_pairText (by decide) (List.all_iff_forall_prop.mp (by decide))
        (fun w => w.letter_spec.2.2.2.2.2) hpath.zero fun n hn => (hidentifier n hn).zero

/-- **The parts of an action** are the pieces of its text. -/
theorem Request.Proper.pieces_text (hr : r.Proper) :
    pieces ';'.toUInt8 r.text = mActionNames r.action :: r.tailParts := by
  have hname := mActionNames_spec r.action
  refine pieces_intercalate (List.cons_ne_nil _ _) (List.forall_mem_cons.mpr
    ⟨⟨hname.1, hname.2.2.1⟩, fun part hpart => ?_⟩)
  have hspec := hr.tailParts_spec hpart
  exact ⟨hspec.1, hspec.2.2⟩

theorem Request.Proper.zero_notMem_text (hr : r.Proper) : 0 ∉ r.text := by
  intro hzero
  have hpart : ∀ part ∈ mActionNames r.action :: r.tailParts, 0 ∉ part :=
    List.forall_mem_cons.mpr ⟨(mActionNames_spec r.action).2.1, fun _ hpart =>
      (hr.tailParts_spec hpart).2.1⟩
  rcases of_mem_intercalate hzero with h | ⟨part, hmem, h⟩
  · exact absurd h (by decide)
  · exact hpart part hmem h

/-- The pairs of an action. -/
theorem mapM_pairOf_text {pairs : List (Text × Option WrittenNodeId)}
    (h : ∀ pair ∈ pairs, pairOf fromChars allocByteString (pairText pair) =
      some (pairInfo fromChars allocByteString pair)) :
    (pairs.map pairText).mapM (pairOf fromChars allocByteString) =
      some (pairs.map (pairInfo fromChars allocByteString)) := by
  induction pairs with
  | nil => rfl
  | cons pair pairs ih =>
    obtain ⟨hpair, hpairs⟩ := List.forall_mem_cons.mp h
    rw [List.map_cons, List.mapM_cons, hpair, ih hpairs]
    rfl

/-- **An action that is written is read**, if its parts can be told apart. -/
theorem infoOf_text (hr : r.Proper) (hs : r.Separable) {layer : Layer}
    (hcheck : (r.info fromChars allocByteString).checkAction layer = true) :
    infoOf fromChars allocByteString layer r.text =
      some (r.info fromChars allocByteString) := by
  have hpairs := mapM_pairOf_text fun pair hpair =>
    @pairOf_text S B fromChars allocByteString pair (hr.path pair hpair) (hr.identifier pair hpair)
      (hs.equals pair hpair) (hs.colon pair hpair)
  obtain ⟨-, -, -, hname⟩ := mActionNames_spec r.action
  have hchecked : ifChecked layer (r.info fromChars allocByteString) =
      some (r.info fromChars allocByteString) := if_pos hcheck
  rw [infoOf, hr.pieces_text, Request.tailParts]
  cases hendpoint : r.endpoint with
  | some endpoint =>
    have hsplit : endpointOf (endpoint ++ ['#'.toUInt8]) (r.pairs.map pairText) =
        (endpoint, r.pairs.map pairText) := by
      rw [endpointOf, List.getLast?_concat, if_pos rfl, List.dropLast_concat]
    dsimp only [Option.map_some, Option.toList_some, List.singleton_append]
    rw [hname, hsplit, hpairs]
    rw [Request.info, hendpoint] at hchecked ⊢
    exact hchecked
  | none =>
    obtain ⟨pair, hpair, hlast⟩ := hs.first hendpoint
    obtain ⟨rest, hpairs'⟩ := List.head?_eq_some_iff.mp hpair
    have hsplit : endpointOf (pairText pair) (rest.map pairText) =
        ([], r.pairs.map pairText) := by
      rw [endpointOf, if_neg hlast, hpairs', List.map_cons]
    dsimp only [Option.map_none, Option.toList_none, List.nil_append]
    rw [hpairs', List.map_cons]
    dsimp only
    rw [hname, hsplit, hpairs]
    rw [Request.info, hendpoint] at hchecked ⊢
    exact hchecked

/-- The second part of an action that is written. -/
theorem Request.Proper.secondGiven (hr : r.Proper) (hs : r.Separable) {layer : Layer}
    (hcheck : (r.info fromChars allocByteString).checkAction layer = true) :
    SecondGiven r.text := by
  intro first second rest hpieces _
  rw [hr.pieces_text, Request.tailParts] at hpieces
  obtain ⟨-, hpieces⟩ := List.cons.inj hpieces
  cases hendpoint : r.endpoint with
  | some endpoint =>
    rw [hendpoint] at hpieces
    have hsecond : endpoint ++ ['#'.toUInt8] = second := (List.cons.inj hpieces).1
    rw [← hsecond]
    exact List.append_ne_nil_of_right_ne_nil _ (List.cons_ne_nil _ _)
  | none =>
    obtain ⟨pair, hpair, -⟩ := hs.first hendpoint
    obtain ⟨others, hpairs⟩ := List.head?_eq_some_iff.mp hpair
    rw [hendpoint, hpairs] at hpieces
    have hsecond : pairText pair = second := (List.cons.inj hpieces).1
    rw [CActionInfo.checkAction, Bool.and_eq_true, CActionInfo.checkNodePairInfo,
      List.all_eq_true] at hcheck
    have hgiven := hcheck.1 (pairInfo fromChars allocByteString pair) (by
      rw [Request.info, hpairs]
      exact List.mem_cons_self)
    rw [← hsecond]
    intro hnil
    obtain ⟨path, nodeId⟩ := pair
    cases nodeId with
    | none =>
      have hpath : path = [] := hnil
      subst hpath
      exact absurd ⟨rfl, rfl⟩ (of_decide_eq_true hgiven)
    | some n => exact List.append_ne_nil_of_right_ne_nil _ (List.cons_ne_nil _ _) hnil

end Actions

end Restoring

/-! ### Texts with faults -/

/-- An identifier without an equals sign or with two of them, or with an unknown type. -/
def FaultyIdentifier (t : Text) : Prop :=
  ∀ type value, pieces '='.toUInt8 t = [type, value] →
    type ≠ text "i" ∧ type ≠ text "s" ∧ type ≠ text "b"

/-- A node id with a faulty identifier, or with two colons. -/
def FaultyNodeId (t : Text) : Prop :=
  match pieces ':'.toUInt8 t with
  | [_, identifier] => FaultyIdentifier identifier
  | [identifier] => FaultyIdentifier identifier
  | _ => True

/-- A pair with a faulty node id, or with two commas, or an empty one. -/
def FaultyPair (t : Text) : Prop :=
  match pieces ','.toUInt8 t with
  | [_, nodeId] => FaultyNodeId nodeId
  | [path] => path = []
  | _ => True

/-- **A text with a fault**: it has one part only, or an unknown action, or a faulty pair. -/
def Faulty (t : Text) : Prop :=
  match pieces ';'.toUInt8 t with
  | first :: second :: rest =>
    getActionEnum first = none ∨ ∃ pair ∈ (endpointOf second rest).2, FaultyPair pair
  | _ => True

section Rejecting

variable {S B : Type} {fromChars : Text → S} {allocByteString : Text → B} {t : Text}

theorem identifierOf_of_faulty (h : FaultyIdentifier t) :
    identifierOf fromChars allocByteString t = none := by
  rw [identifierOf]
  split
  · rename_i type value hpieces
    obtain ⟨hi, hs, hb⟩ := h type value hpieces
    rw [valueOf, if_neg hi, if_neg hs, if_neg hb]
  · rfl

theorem nodeIdOf_of_faulty (h : FaultyNodeId t) :
    nodeIdOf fromChars allocByteString t = none := by
  rw [FaultyNodeId] at h
  rw [nodeIdOf]
  match hpieces : pieces ':'.toUInt8 t with
  | [] => rfl
  | [identifier] =>
    rw [hpieces] at h
    exact congrArg (Option.map _) (identifierOf_of_faulty h)
  | [ns, identifier] =>
    rw [hpieces] at h
    exact congrArg (Option.map _) (identifierOf_of_faulty h)
  | _ :: _ :: _ :: _ => rfl

/-- A faulty pair is none, or an empty one. -/
theorem pairOf_of_faulty (h : FaultyPair t) :
    ∀ pair ∈ pairOf fromChars allocByteString t, pair = ⟨none, []⟩ := by
  rw [FaultyPair] at h
  rw [pairOf]
  match hpieces : pieces ','.toUInt8 t with
  | [] => exact nofun
  | [path] =>
    rw [hpieces] at h
    have hpath : path = [] := h
    subst hpath
    exact fun pair hpair => (Option.some.inj hpair).symm
  | [path, nodeId] =>
    rw [hpieces] at h
    dsimp only
    rw [nodeIdOf_of_faulty h]
    exact nofun
  | _ :: _ :: _ :: _ => exact nofun

theorem mem_of_mapM {α β : Type} {f : α → Option β} {xs : List α} {ys : List β}
    (h : xs.mapM f = some ys) {x : α} (hx : x ∈ xs) : ∃ y ∈ ys, f x = some y := by
  induction xs generalizing ys with
  | nil => exact absurd hx List.not_mem_nil
  | cons x' xs ih =>
    rw [List.mapM_cons] at h
    obtain ⟨y, hy, h⟩ := Option.bind_eq_some_iff.mp h
    obtain ⟨rest, hrest, h⟩ := Option.bind_eq_some_iff.mp h
    obtain rfl := Option.some.inj h
    rcases List.mem_cons.mp hx with rfl | hx
    · exact ⟨y, List.mem_cons_self, hy⟩
    · obtain ⟨z, hz, heq⟩ := ih hrest hx
      exact ⟨z, List.mem_cons_of_mem y hz, heq⟩

/-- **A text with a fault is rejected.** -/
theorem infoOf_of_faulty (layer : Layer) (h : Faulty t) :
    infoOf fromChars allocByteString layer t = none := by
  rw [Faulty] at h
  rw [infoOf]
  match hpieces : pieces ';'.toUInt8 t with
  | [] => rfl
  | [_] => rfl
  | first :: second :: rest =>
    rw [hpieces] at h
    dsimp only
    rcases h with haction | ⟨pair, hpair, hfaulty⟩
    · rw [haction]
      rfl
    · cases getActionEnum first with
      | none => rfl
      | some action =>
        rw [Option.bind_some]
        cases hpairs : (endpointOf second rest).2.mapM (pairOf fromChars allocByteString) with
        | none => rfl
        | some pairs =>
          -- the pair that is read for the faulty one has neither a path nor a node id
          obtain ⟨found, hfound, heq⟩ := mem_of_mapM hpairs hpair
          obtain rfl := pairOf_of_faulty hfaulty found heq
          have hcheck : CActionInfo.checkAction layer
              ⟨action, (endpointOf second rest).1, pairs⟩ = false := by
            rw [CActionInfo.checkAction, Bool.and_eq_false_iff]
            refine .inl (List.all_eq_false.mpr ⟨_, hfound, ?_⟩)
            exact fun hgiven => of_decide_eq_true hgiven ⟨rfl, rfl⟩
          exact if_neg fun hchecked => Bool.false_ne_true (hcheck.symm.trans hchecked)

end Rejecting

/-- **Actions that are written are read, and texts with faults are rejected**: an action whose
parts can be told apart is read if it is one for the layer; and a text with a second part is read
within its bounds, no node id is allocated that is not handed out, and nothing is returned if it
has a fault. -/
theorem restores_and_rejects {S B : Type} (fromChars : Text → S) (allocByteString : Text → B)
    (layer : Layer) :
    (∀ r : Request, r.Proper → r.Separable →
      (r.info fromChars allocByteString).checkAction layer = true → ∀ allocated : ℕ,
        (getActionInfoFromParams fromChars allocByteString layer r.text).run allocated =
          some (some (r.info fromChars allocByteString),
            allocated + owned (r.info fromChars allocByteString).mNodePair)) ∧
      ∀ t : ComInfra.CString, SecondGiven t.text → ∀ allocated : ℕ,
        ∃ info, (getActionInfoFromParams fromChars allocByteString layer t.text).run allocated =
            some (info, allocated + ownedBy info) ∧ (Faulty t.text → info = none) := by
  constructor
  · intro r hr hs hcheck allocated
    rw [run_getActionInfoFromParams layer hr.zero_notMem_text (hr.secondGiven hs hcheck),
      infoOf_text hr hs hcheck]
    rfl
  · intro t hsecond allocated
    exact ⟨_, run_getActionInfoFromParams layer t.noZero hsecond allocated, infoOf_of_faulty layer⟩

/-- A subscriber with one data output. -/
def subscriber : Layer := ⟨.subscriber, 1, 0⟩

/-- A request without an endpoint, for one node. -/
def readOf (pair : Text × Option WrittenNodeId) : Request := ⟨.read, none, [pair]⟩

theorem proper_readOf {path : Text} {nodeId : Option WrittenNodeId} (hpath : Plain path)
    (hidentifier : ∀ n ∈ nodeId, Plain n.identifier.value) : (readOf (path, nodeId)).Proper where
  endpoint := fun _ h => absurd h nofun
  path := List.forall_mem_singleton.mpr hpath
  identifier := List.forall_mem_singleton.mpr hidentifier

theorem plain_of_all {t : Text} (h : (t.all fun c => decide (c ≠ 0 ∧ c ≠ ';'.toUInt8 ∧
    c ≠ ','.toUInt8 ∧ isspace c = false)) = true) : Plain t := by
  have hall := List.all_iff_forall_prop.mp h
  exact ⟨fun hmem => (hall _ hmem).1 rfl, fun hmem => (hall _ hmem).2.1 rfl,
    fun hmem => (hall _ hmem).2.2.1 rfl, tight_of_forall fun c hc => (hall c hc).2.2.2⟩

theorem secondGiven_of_pieces {t first second : Text} {rest : List Text}
    (h : pieces ';'.toUInt8 t = first :: second :: rest) (hsecond : second ≠ []) :
    SecondGiven t := by
  intro first' second' rest' hpieces _
  have heq := (List.cons.inj (List.cons.inj (h.symm.trans hpieces)).2).1
  exact heq ▸ hsecond

/-- The node 5 of the namespace 1 is read, and a GUID is rejected. -/
theorem restores_and_rejects_numeric :
    (∀ allocated : ℕ, (getActionInfoFromParams (S := Text) (B := Text) id id subscriber
        (readOf (text "/a", some ⟨some 1, .number 5⟩)).text).run allocated =
      some (some ((readOf (text "/a", some ⟨some 1, .number 5⟩)).info id id), allocated + 1)) ∧
    ∃ info, (getActionInfoFromParams (S := Text) (B := Text) id id subscriber
      (text "READ;/a,g=5")).run 0 = some (info, 0 + ownedBy info) ∧ info = none := by
  constructor
  · refine (restores_and_rejects id id subscriber).1 _
      (proper_readOf (plain_of_all (by decide)) ?_) ⟨?_, ?_, ?_⟩ (by decide)
    · exact fun n hn => Option.some.inj hn ▸ plain_of_all (by decide)
    · exact List.forall_mem_singleton.mpr fun n hn => Option.some.inj hn ▸ by decide
    · exact List.forall_mem_singleton.mpr fun n hn => Option.some.inj hn ▸ by decide
    · exact fun _ => ⟨_, rfl, by decide⟩
  · have hsecond : SecondGiven (text "READ;/a,g=5") :=
      @secondGiven_of_pieces _ (text "READ") (text "/a,g=5") [] (by decide) (by decide)
    obtain ⟨info, hrun, hfaulty⟩ :=
      (restores_and_rejects id id subscriber).2 ⟨text "READ;/a,g=5", by decide⟩ hsecond 0
    have hparts : pieces ';'.toUInt8 (text "READ;/a,g=5") = [text "READ", text "/a,g=5"] := by
      decide
    have hpair : pieces ','.toUInt8 (text "/a,g=5") = [text "/a", text "g=5"] := by decide
    have hnodeId : pieces ':'.toUInt8 (text "g=5") = [text "g=5"] := by decide
    have hidentifier : pieces '='.toUInt8 (text "g=5") = [text "g", text "5"] := by decide
    refine ⟨info, hrun, hfaulty ?_⟩
    rw [Faulty, hparts]
    refine .inr ⟨text "/a,g=5", List.mem_cons_self, ?_⟩
    rw [FaultyPair, hpair]
    dsimp only
    rw [FaultyNodeId, hnodeId]
    intro type value h
    obtain rfl := (List.cons.inj (hidentifier.symm.trans h)).1
    decide

/-- A text with a second part, as it is read. -/
theorem run_of_pieces {layer : Layer} {t first second : Text} {rest : List Text}
    {info : Option (CActionInfo Text Text)} (ht : 0 ∉ t)
    (hpieces : pieces ';'.toUInt8 t = first :: second :: rest) (hsecond : second ≠ [])
    (hinfo : infoOf id id layer t = info) :
    (getActionInfoFromParams id id layer t).run 0 = some (info, ownedBy info) := by
  rw [run_getActionInfoFromParams layer ht (secondGiven_of_pieces hpieces hsecond), hinfo,
    Nat.zero_add]

/-- **An identifier with an equals sign or a colon** is not read, a path with a hash at its end is
taken for an endpoint, an action without an endpoint and pairs has too few parts, and a pair
without a path is not rejected. -/
theorem not_restores_equals :
    (∀ pair ∈ [(text "/a", some (⟨none, .string (text "b=c")⟩ : WrittenNodeId)),
        (text "/a", some ⟨none, .string (text "b:c")⟩), (text "/a#", none)],
      (readOf pair).Proper ∧
        ((readOf pair).info (S := Text) (B := Text) id id).checkAction subscriber = true ∧
        (getActionInfoFromParams (S := Text) (B := Text) id id subscriber
          (readOf pair).text).run 0 = some (none, 0)) ∧
    (((⟨.read, none, []⟩ : Request).info (S := Text) (B := Text) id id).checkAction
        ⟨.subscriber, 0, 0⟩ = true ∧
      (getActionInfoFromParams (S := Text) (B := Text) id id ⟨.subscriber, 0, 0⟩
        (⟨.read, none, []⟩ : Request).text).run 0 = some (none, 0)) ∧
    (getActionInfoFromParams (S := Text) (B := Text) id id subscriber (text "READ;,i=5")).run 0 =
      some (some ⟨.read, [], [⟨some ⟨0, .numeric 5⟩, []⟩]⟩, 1) := by
  refine ⟨?_, ⟨by decide, ?_⟩, ?_⟩
  · refine List.forall_mem_cons.mpr ⟨⟨?_, by decide, ?_⟩, List.forall_mem_cons.mpr
      ⟨⟨?_, by decide, ?_⟩, List.forall_mem_singleton.mpr ⟨?_, by decide, ?_⟩⟩⟩
    · exact proper_readOf (plain_of_all (by decide))
        fun n hn => Option.some.inj hn ▸ plain_of_all (by decide)
    · exact @run_of_pieces _ _ (text "READ") (text "/a,s=b=c") [] none (by decide) (by decide)
        (by decide) (by decide)
    · exact proper_readOf (plain_of_all (by decide))
        fun n hn => Option.some.inj hn ▸ plain_of_all (by decide)
    · exact @run_of_pieces _ _ (text "READ") (text "/a,s=b:c") [] none (by decide) (by decide)
        (by decide) (by decide)
    · exact proper_readOf (plain_of_all (by decide)) nofun
    · exact @run_of_pieces _ _ (text "READ") (text "/a#") [] none (by decide) (by decide)
        (by decide) (by decide)
  · have hone : pieces ';'.toUInt8 (⟨.read, none, []⟩ : Request).text = [text "READ"] := by decide
    have hsecond : SecondGiven (⟨.read, none, []⟩ : Request).text := fun _ _ _ hpieces =>
      absurd (hone.symm.trans hpieces) nofun
    rw [run_getActionInfoFromParams _ (by decide) hsecond]
    rfl
  · exact @run_of_pieces _ _ (text "READ") (text ",i=5") [] _ (by decide) (by decide) (by decide)
      (by decide : infoOf id id subscriber (text "READ;,i=5") =
        some ⟨.read, [], [⟨some ⟨0, .numeric 5⟩, []⟩]⟩)

end OpcUa

end Forte
