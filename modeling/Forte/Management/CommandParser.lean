import Forte.Datatypes.XmlText
import Forte.Lib.Scanner
import Forte.Management.Command

/-!
# The parser of management requests

`CommandParser` reads a request, one tag of XML with at most one element in it, into an
`SManagementCMD`. Its functions work on what is left of the text and on the command read so
far, and end with the response to a text that they refuse. What a refused request has left in
the command, which only the response to it shows, is not modelled.

An attribute is read up to its closing quote by `takeUntil`, which answers with an empty token
when there is none.
-/

namespace Forte

/-- The white space of `skipWhiteSpace`. -/
def isWhiteSpace (c : UInt8) : Bool := c ∈ text " \t\r\n"

/-- `CommandScanner::skipWhiteSpace`. -/
def skipWhiteSpace (s : Text) : Text := s.dropWhile isWhiteSpace

/-- `CommandScanner::peek`. -/
def peek (s : Text) : UInt8 := s.at 0

/-- The nine actions of `actionTable`. -/
inductive Action
  | create | delete | start | stop | kill | reset | read | write | query
  deriving DecidableEq, Repr

namespace Action

/-- `mActionName`. -/
def name : Action → Text
  | create => text "CREATE"
  | delete => text "DELETE"
  | start => text "START"
  | stop => text "STOP"
  | kill => text "KILL"
  | reset => text "RESET"
  | read => text "READ"
  | write => text "WRITE"
  | query => text "QUERY"

/-- `mCommand`. -/
def command : Action → EMGMCommandType
  | create => .createGroup
  | delete => .deleteGroup
  | start => .start
  | stop => .stop
  | kill => .kill
  | reset => .reset
  | read => .read
  | write => .write
  | query => .queryGroup

end Action

/-- `actionTable`. -/
def actionTable : List Action :=
  [.create, .delete, .start, .stop, .kill, .reset, .read, .write, .query]

namespace CommandParser

/-- What a function of the parser returns: the command and what is left of the text, or the
response that refuses it. -/
abbrev Parsed := Except EMGMResponse (SManagementCMD × Text)

/-- `parseActionAttributeValue`; there is no action for `EMGMCommandType::INVALID`. -/
def parseActionAttributeValue (s : Text) : Option Action × Text :=
  let (action, s) := takeUntil '"'.toUInt8 s
  (actionTable.find? (·.name = action), s)

/-- `proceedToOpenBracket`. -/
def proceedToOpenBracket (s : Text) : Option Text := consume (text "<") (skipWhiteSpace s)

/-- `proceedToClosingBracket`. -/
def proceedToClosingBracket (s : Text) : Option Text := consume (text "/>") (skipWhiteSpace s)

/-- `checkRequestClosingTag`. -/
def checkRequestClosingTag (s : Text) : Bool :=
  if s = [] then true
  else
    match consume (text "/Request>") (skipWhiteSpace s) with
    | none => false
    | some s => skipWhiteSpace s = []

/-- `isAsteriskValue`. -/
def isAsteriskValue (value : Text) : Bool := value = text "*"

/-- `isTriggerEvent`. -/
def isTriggerEvent (value : Text) : Bool :=
  value.length = 2 && value.at 0 = '$'.toUInt8 &&
    (value.at 1 = 'e'.toUInt8 || value.at 1 = 'E'.toUInt8)

/-- `isResetEventCount`. -/
def isResetEventCount (value : Text) : Bool :=
  value.length = 3 && value.at 0 = '$'.toUInt8 &&
    (value.at 1 = 'e'.toUInt8 || value.at 1 = 'E'.toUInt8) &&
    (value.at 2 = 'r'.toUInt8 || value.at 2 = 'R'.toUInt8)

/-- `parseIdentifier`. -/
def parseIdentifier (paAllowEmptyLastSegment : Bool) (identifierString : Text)
    (paIdentifier : TNameIdentifier) : Except EMGMResponse TNameIdentifier :=
  if identifierString = [] then .error .badParams
  else
    let segment := identifierString.takeWhile (· ≠ '.'.toUInt8)
    match _h : identifierString.dropWhile (· ≠ '.'.toUInt8) with
    | [] => required .overflow (paIdentifier.tryPushBack (.insert identifierString))
    | _ :: rest => do
      demand .badParams (segment ≠ [])
      let paIdentifier ← required .overflow (paIdentifier.tryPushBack (.insert segment))
      if rest = [] then do
        demand .badParams (paAllowEmptyLastSegment = true)
        required .overflow (paIdentifier.tryPushBack (.insert []))
      else parseIdentifier paAllowEmptyLastSegment rest paIdentifier
termination_by identifierString.length
decreasing_by
  have hlen := (List.dropWhile_sublist (l := identifierString)
    (fun c => decide (c ≠ '.'.toUInt8))).length_le
  rw [_h, List.length_cons] at hlen
  exact hlen

/-- An attribute that is an identifier, or an asterisk for any. -/
def parseNames (paAllowEmptyLastSegment : Bool) (value : Text) (paIdentifier : TNameIdentifier) :
    Except EMGMResponse TNameIdentifier :=
  if isAsteriskValue value then .ok paIdentifier
  else parseIdentifier paAllowEmptyLastSegment value paIdentifier

/-- `parseTypeName`: the identifier with the name of the type, and the hash of the type if
there is one. -/
def parseTypeName (typeString : Text) (paIdentifier : TNameIdentifier) (paTypeHash : Text) :
    Option (TNameIdentifier × Text) :=
  if '#'.toUInt8 ∈ typeString then
    (paIdentifier.tryPushBack (.insert (typeString.takeWhile (· ≠ '#'.toUInt8)))).map
      (·, (typeString.dropWhile (· ≠ '#'.toUInt8)).drop 1)
  else (paIdentifier.tryPushBack (.insert typeString)).map (·, paTypeHash)

/-- An attribute that is the name of a type, or an asterisk for any. -/
def parseType (value : Text) (paIdentifier : TNameIdentifier) (paTypeHash : Text) :
    Except EMGMResponse (TNameIdentifier × Text) :=
  if isAsteriskValue value then .ok (paIdentifier, paTypeHash)
  else required .overflow (parseTypeName value paIdentifier paTypeHash)

/-- `parseFBData`. -/
def parseFBData (c : SManagementCMD) (s : Text) : Parsed := do
  let s ← required .invalidObject (consume (text "FB Name=\"") s)
  let (fbInstanceName, s) := takeUntil '"'.toUInt8 s
  demand .badParams (fbInstanceName ≠ [])
  let firstParam ← parseNames false fbInstanceName c.firstParam
  let s ← required .invalidObject (consume (text "Type=\"") (skipWhiteSpace s))
  let (fbTypeName, s) := takeUntil '"'.toUInt8 s
  let (secondParam, additionalParams) ← parseType fbTypeName c.secondParam c.additionalParams
  let s ← required .invalidObject (proceedToClosingBracket s)
  .ok ({ c with firstParam, secondParam, additionalParams }, s)

/-- `parseConnectionContent`. -/
def parseConnectionContent (c : SManagementCMD) (s : Text) : Parsed := do
  let s ← required .invalidObject (consume (text "Source=\"") s)
  let (source, s) := takeUntil '"'.toUInt8 s
  demand .badParams (source ≠ [])
  let firstParam ← parseNames true source c.firstParam
  let s ← required .invalidObject (consume (text "Destination=\"") (skipWhiteSpace s))
  let (destination, s) := takeUntil '"'.toUInt8 s
  demand .badParams (destination ≠ [])
  let secondParam ← parseNames false destination c.secondParam
  let s ← required .invalidObject (proceedToClosingBracket s)
  .ok ({ c with firstParam, secondParam }, s)

/-- The first word of an element with the content of a connection. -/
def parseLinkData (word : Text) (c : SManagementCMD) (s : Text) : Parsed := do
  let s ← required .invalidObject (consume word s)
  parseConnectionContent c s

/-- `parseConnectionData`. -/
def parseConnectionData : SManagementCMD → Text → Parsed := parseLinkData (text "Connection ")

/-- `parseMonitoringData`. -/
def parseMonitoringData : SManagementCMD → Text → Parsed := parseLinkData (text "Watch ")

/-- The command has this type when its data could be parsed. -/
def as (cmd : EMGMCommandType) (parsed : Parsed) : Parsed :=
  parsed.map fun r => ({ r.1 with cmd }, r.2)

/-- The bracket behind the element is the one of the end tag. -/
def thenOpenBracket (parsed : Parsed) : Parsed := do
  let (c, s) ← parsed
  let s ← required .invalidObject (proceedToOpenBracket s)
  .ok (c, s)

/-- The element of a request to create or to delete, with the commands for what is in it. -/
def parseObjectData (fbInstance connection watch : EMGMCommandType) (c : SManagementCMD)
    (s : Text) : Parsed :=
  thenOpenBracket
    (if peek s = 'F'.toUInt8 then as fbInstance (parseFBData { c with cmd := .invalid } s)
    else if peek s = 'C'.toUInt8 then
      as connection (parseConnectionData { c with cmd := .invalid } s)
    else if peek s = 'W'.toUInt8 then
      as watch (parseMonitoringData { c with cmd := .invalid } s)
    else .error .invalidObject)

/-- `parseCreateData`. -/
def parseCreateData : SManagementCMD → Text → Parsed :=
  parseObjectData .createFBInstance .createConnection .monitoringAddWatch

/-- `parseDeleteData`. -/
def parseDeleteData : SManagementCMD → Text → Parsed :=
  parseObjectData .deleteFBInstance .deleteConnection .monitoringRemoveWatch

/-- `parseAdditionalStateCommandData`. -/
def parseAdditionalStateCommandData (c : SManagementCMD) (s : Text) : Parsed :=
  if peek s = 'F'.toUInt8 then thenOpenBracket (parseFBData c s) else .ok (c, s)

/-- `parseReadData`. -/
def parseReadData (c : SManagementCMD) (s : Text) : Parsed :=
  thenOpenBracket
    (if peek s = 'C'.toUInt8 then as .read (parseConnectionData { c with cmd := .invalid } s)
    else if peek s = 'W'.toUInt8 then do
      let s ← required .invalidObject (consume (text "Watches/>") s)
      .ok ({ c with cmd := .monitoringReadWatches }, s)
    else .error .invalidObject)

/-- The end of the destination in `parseWriteData`: which command it is. -/
def parseForce (value : Text) (s : Text) : Except EMGMResponse (EMGMCommandType × Text) :=
  match consume (text "force=\"") (skipWhiteSpace s) with
  | some s =>
    let (forceVal, s) := takeUntil '"'.toUInt8 s
    if forceVal = text "true" then .ok (.monitoringForce, s)
    else if forceVal = text "false" then .ok (.monitoringClearForce, s)
    else .error .badParams
  | none =>
    let s := skipWhiteSpace s
    if isTriggerEvent value then .ok (.monitoringTriggerEvent, s)
    else if isResetEventCount value then .ok (.monitoringResetEventCount, s)
    else .ok (.write, s)

/-- `parseWriteData`. -/
def parseWriteData (c : SManagementCMD) (s : Text) : Parsed := do
  let s ← required .invalidObject (consume (text "Connection Source=\"") s)
  let (source, s) := takeUntil '"'.toUInt8 s
  demand .badParams (source ≠ [])
  let additionalParams := transformEscapedXMLToNonEscapedText source c.additionalParams
  let s ← required .invalidObject (consume (text "Destination=\"") (skipWhiteSpace s))
  let (destination, s) := takeUntil '"'.toUInt8 s
  demand .badParams (destination ≠ [])
  let firstParam ← parseIdentifier false destination c.firstParam
  let (cmd, s) ← parseForce additionalParams s
  let s ← required .invalidObject (proceedToClosingBracket s)
  let s ← required .invalidObject (proceedToOpenBracket s)
  .ok ({ c with cmd, firstParam, additionalParams }, s)

/-- `parseQueryTypes`. -/
def parseQueryTypes (c : SManagementCMD) (s : Text)
    (singleQueryCMD listQueryCMD : EMGMCommandType) : Parsed := do
  let s ← required .invalidObject (consume (text "Name=\"") (skipWhiteSpace s))
  let (nameVal, s) := takeUntil '"'.toUInt8 s
  demand .badParams (nameVal ≠ [])
  let (firstParam, additionalParams) ← parseType nameVal c.firstParam c.additionalParams
  let cmd := if isAsteriskValue nameVal then listQueryCMD else singleQueryCMD
  let s ← required .invalidObject (proceedToClosingBracket s)
  .ok ({ c with cmd, firstParam, additionalParams }, s)

/-- A query for one type or for the list of types, behind the word for their kind. -/
def parseTypeQuery (c : SManagementCMD) (s word : Text)
    (singleQueryCMD listQueryCMD : EMGMCommandType) : Parsed := do
  let s ← required .invalidObject (consume word s)
  parseQueryTypes c s singleQueryCMD listQueryCMD

/-- `parseQueryData`. -/
def parseQueryData (c : SManagementCMD) (s : Text) : Parsed :=
  let types (word : Text) : EMGMCommandType → EMGMCommandType → Parsed :=
    parseTypeQuery { c with cmd := .invalid } s word
  thenOpenBracket
    (if peek s = 'F'.toUInt8 then
      if (consume (text "FBType") s).isSome then types (text "FBType") .queryFBType .queryFBTypes
      else as .queryFB (parseFBData { c with cmd := .invalid } s)
    else if peek s = 'C'.toUInt8 then
      as .queryConnection (parseConnectionData { c with cmd := .invalid } s)
    else if peek s = 'D'.toUInt8 then types (text "DataType") .queryDataType .queryDTTypes
    else if peek s = 'A'.toUInt8 then
      types (text "AdapterType") .queryAdapterType .queryAdapterTypes
    else if peek s = 'G'.toUInt8 then
      types (text "GlobalConstType") .queryGlobalConstType .queryGlobalConstTypes
    else .error .invalidObject)

/-- The switch of `parseMGMCommand`. -/
def parseElement (action : Action) (c : SManagementCMD) (s : Text) : Parsed :=
  match action with
  | .create => parseCreateData c s
  | .delete => parseDeleteData c s
  | .start => parseAdditionalStateCommandData c s
  | .stop => parseAdditionalStateCommandData c s
  | .kill => parseAdditionalStateCommandData c s
  | .reset => parseAdditionalStateCommandData c s
  | .read => parseReadData c s
  | .write => parseWriteData c s
  | .query => parseQueryData c s

/-- The brackets that may end the tag of a request. -/
def consumeTagEnd (s : Text) : Option Text := (consume (text ">") s).or (consume (text "/>") s)

/-- `parseRequest`, with the action. -/
def parseRequest (c : SManagementCMD) (s : Text) :
    Except EMGMResponse (Action × SManagementCMD × Text) := do
  let s ← required .invalidObject (consume (text "<Request ID=\"") s)
  let (id, s) := takeUntil '"'.toUInt8 s
  let s ← required .invalidObject (consume (text "Action=\"") (skipWhiteSpace s))
  let (action, s) := parseActionAttributeValue s
  let action ← required .unsupportedCmd action
  let s ← required .invalidObject (consumeTagEnd (skipWhiteSpace s))
  .ok (action, { c with id, cmd := action.command }, s)

/-- The bracket of the next tag, unless nothing is left. -/
def proceedToNextTag (s : Text) : Except EMGMResponse Text :=
  if skipWhiteSpace s = [] then .ok []
  else required .invalidObject (proceedToOpenBracket (skipWhiteSpace s))

/-- The command before a request for the destination is read. -/
def cleared (paDest : Text) : SManagementCMD :=
  { SManagementCMD.clear with
    destination := if paDest ≠ [] then some (.insert paDest) else none }

/-- `parseMGMCommand`. -/
def parseMGMCommand (paDest paCommand : Text) : Except EMGMResponse SManagementCMD := do
  let (action, c, s) ← parseRequest (cleared paDest) paCommand
  let s ← proceedToNextTag s
  let (c, s) ← parseElement action c s
  demand .invalidObject (checkRequestClosingTag s = true)
  .ok c

/-- `DEV_MGR::executeRQST`, with the execution of a command by the device. -/
def executeRQST {Device : Type}
    (executeMGMCommand : SManagementCMD → Device → EMGMResponse × Device) (dst rqst : Text)
    (device : Device) : EMGMResponse × Device :=
  match parseMGMCommand dst rqst with
  | .ok command => executeMGMCommand command device
  | .error response => (response, device)

end CommandParser

end Forte
