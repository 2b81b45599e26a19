import Forte.Communication.HTTPPackets
import Forte.Datatypes.NumberText

/-!
# The messages that are built for HTTP

What one side builds is parsed by the other one. The parsers know where the header of a message
ends by the first blank line, and so the round trip needs one at the end of the header, and none
before.

A GET request always ends with a blank line, but behind the header of a PUT or POST request and of
a response it is only built together with a content type. Without one the body is put directly
behind the port, the authorization or the status line. Which messages are parsed back is said by
`Forte.HTTP.Exchange.HeaderEnds`.
-/

namespace Forte

namespace HTTP

open Mem CString

/-! ### Building -/

/-- `addHeaderEnding`. -/
def addHeaderEnding (paDest : Text) : Text := paDest ++ text "\r\n\r\n"

/-- `addCommonHeader`. -/
def addCommonHeader (paDest paHost : Text) (paPort : UInt16) (paPath paAuth paParams : Text)
    (paType : ERequestType) : Text :=
  let paDest := match paType with
    | .get => text "GET "
    | .put => text "PUT "
    | .post => text "POST "
    | .notSet => paDest
  let paDest := paDest ++ paPath
  let paDest := if paParams ≠ [] then paDest ++ text "?" ++ paParams else paDest
  let paDest := paDest ++ text " HTTP/1.1\r\n" ++ text "Host: " ++ paHost ++ text ":" ++
    decimalDigits paPort.toNat
  if paAuth ≠ [] then paDest ++ text "\r\nAuthorization: " ++ paAuth else paDest

/-- `addBodyToRequest`. -/
def addBodyToRequest (paBody paContentType paDest : Text) : Text :=
  let paDest :=
    if paContentType ≠ [] then
      addHeaderEnding (paDest ++ text "\r\nContent-Type: " ++ paContentType ++
        text "\r\nContent-Length: " ++ decimalDigits paBody.length)
    else paDest
  if paBody ≠ [] then paDest ++ paBody else paDest

/-- `createGetRequest`. -/
def createGetRequest (paDest paHost : Text) (paPort : UInt16) (paPath paAuth paParams : Text) :
    Text :=
  addHeaderEnding (addCommonHeader paDest paHost paPort paPath paAuth paParams .get)

/-- `createPutPostRequest`. -/
def createPutPostRequest (paDest paHost : Text) (paPort : UInt16)
    (paPath paAuth paParams paBody paContentType : Text) (paType : ERequestType) : Text :=
  addBodyToRequest paBody paContentType
    (addCommonHeader paDest paHost paPort paPath paAuth paParams paType)

/-- `createResponse`. -/
def createResponse (paResult paContentType paBody : Text) : Text :=
  addBodyToRequest paBody paContentType paResult

/-! ### What messages are built from -/

/-- A string without some characters. -/
def Without (stops t : Text) : Prop := ∀ c ∈ t, c ≠ 0 ∧ c ∉ stops

instance (stops t : Text) : Decidable (Without stops t) := List.decidableBAll _ t

/-- Parameters as they are handed over for a request. -/
def parameterText : List (Text × Text) → Text
  | [] => []
  | [(name, value)] => name ++ '='.toUInt8 :: value
  | (name, value) :: parameter :: parameters =>
    name ++ '='.toUInt8 :: (value ++ '&'.toUInt8 :: parameterText (parameter :: parameters))

/-- What a request is for. -/
structure Target where
  path : Text
  parameters : List (Text × Text)
  path_ne_nil : path ≠ []
  path_without : Without (text " ?") path
  parameters_without : ∀ parameter ∈ parameters,
    Without (text "&= ") parameter.1 ∧ Without (text "&= ") parameter.2

/-- Who a request is sent to. -/
structure Server where
  host : Text
  port : UInt16
  auth : Text
  host_string : 0 ∉ host
  auth_string : 0 ∉ auth

/-- A body and what is said about it. -/
structure Content where
  contentType : Text
  body : Text
  contentType_string : 0 ∉ contentType
  body_string : 0 ∉ body

/-- The status line `HTTP/1.1 code reason`. -/
structure Status where
  code : Text
  reason : Text
  code_without : Without (text " \r\n") code
  reason_without : Without (text "\r\n") reason

def Status.line (status : Status) : Text :=
  text "HTTP/1.1 " ++ status.code ++ text " " ++ status.reason

/-- The path of a request together with its parameters. -/
def Target.withParameters (target : Target) : Text :=
  if target.parameters = [] then target.path
  else target.path ++ '?'.toUInt8 :: parameterText target.parameters

/-- A message from the one side to the other. -/
inductive Exchange
  | get (target : Target) (server : Server)
  | put (target : Target) (server : Server) (content : Content)
  | post (target : Target) (server : Server) (content : Content)
  | response (status : Status) (content : Content)

/-- What is built for a message, into a string that may have held something. -/
def Exchange.message (paDest : Text) : Exchange → Text
  | get target server =>
    createGetRequest paDest server.host server.port target.path server.auth
      (parameterText target.parameters)
  | put target server content =>
    createPutPostRequest paDest server.host server.port target.path server.auth
      (parameterText target.parameters) content.body content.contentType .put
  | post target server content =>
    createPutPostRequest paDest server.host server.port target.path server.auth
      (parameterText target.parameters) content.body content.contentType .post
  | response status content => createResponse status.line content.contentType content.body

/-- **What is asked of building and parsing**: the message is parsed to what it has been built
from. -/
def Exchange.Meets (paDest : Text) (e : Exchange) : Prop :=
  match e with
  | get target _ =>
    (parseGetRequest.run (e.message paDest ++ [0])).map Prod.fst =
      some ⟨true, target.path, target.parameters.map Prod.fst, target.parameters.map Prod.snd⟩
  | put target _ content =>
    (parsePutPostRequest.run (e.message paDest ++ [0])).map Prod.fst =
      some ⟨true, target.withParameters, [], [content.body]⟩
  | post target _ content =>
    (parsePutPostRequest.run (e.message paDest ++ [0])).map Prod.fst =
      some ⟨true, target.withParameters, [], [content.body]⟩
  | response status content =>
    (parseResponse.run (e.message paDest ++ [0])).map Prod.fst =
      some ⟨true, status.code, content.body⟩

/-- The end of a header. -/
def blankLine : Text := text "\r\n\r\n"

/-- The header of a PUT or POST request ends with its first blank line. Without a content type
only the authorization can end with one. -/
def RequestEnds (server : Server) (content : Content) : Prop :=
  ¬blankLine <:+: server.host ∧
    if content.contentType = [] then
      blankLine <:+ server.auth ∧ ¬blankLine <:+: server.auth.dropLast
    else
      ¬blankLine <:+: server.auth ++ text "\r\n" ∧
        ¬blankLine <:+: content.contentType ++ text "\r\n"

/-- **The messages whose header ends** with its first blank line. -/
def Exchange.HeaderEnds : Exchange → Prop
  | get _ _ => True
  | put _ server content => RequestEnds server content
  | post _ server content => RequestEnds server content
  | response _ content =>
    content.contentType ≠ [] ∧ ¬blankLine <:+: content.contentType ++ text "\r\n"

/-! ### Reading what has been built -/

theorem Without.not_mem {stops t : Text} (h : Without stops t) {c : UInt8}
    (hc : c = 0 ∨ c ∈ stops) : c ∉ t := by
  intro hmem
  rcases hc with rfl | hc
  · exact (h _ hmem).1 rfl
  · exact (h _ hmem).2 hc

/-- A character that is found behind a text without it. -/
theorem strstr_of_not_mem {c : UInt8} {t : Text} (h : c ∉ t) (hnul : 0 ∉ t) (rest : Text) :
    strstr 0 [c] (t ++ c :: rest) = some (some t.length) :=
  strstr_singleton_iff.mpr ⟨t, rest, rfl, h, hnul, rfl⟩

theorem set_append_cons (t : Text) (c d : UInt8) (rest : Text) :
    (t ++ c :: rest).set t.length d = t ++ d :: rest := by
  rw [List.set_append_right _ _ le_rfl, Nat.sub_self]
  rfl

theorem head_ne_zero {name : Text} (hname : 0 ∉ name) {rest : Text}
    (h : name ++ '='.toUInt8 :: rest ≠ []) : (name ++ '='.toUInt8 :: rest).head h ≠ 0 := by
  cases name with
  | nil => exact fun hzero => absurd hzero (by decide : '='.toUInt8 ≠ 0)
  | cons c name => exact fun hzero => hname (hzero ▸ List.mem_cons_self)

/-- The last parameter. -/
theorem parametersLoop_last {name value : Text} (hname : Without (text "&= ") name)
    (hvalue : Without (text "&= ") value) (rest : Text) :
    parametersLoop (name ++ '='.toUInt8 :: (value ++ 0 :: rest)) =
      some (some [(name, value)], name ++ 0 :: (value ++ 0 :: rest)) := by
  have hnul := hname.not_mem (.inl rfl)
  have hequal : strstr 0 (text "=") (name ++ '='.toUInt8 :: (value ++ 0 :: rest)) =
      some (some name.length) :=
    strstr_of_not_mem (hname.not_mem (.inr (by decide))) hnul _
  have hlast : strstr 0 (text "&") (value ++ 0 :: rest) = some none := by
    refine strstr_append_nul (by decide) (by decide) (fun hmem => ?_) rest
    exact hvalue.not_mem (.inr (by decide)) (hmem.subset (List.mem_singleton.mpr rfl))
  have hbehind : (name ++ '='.toUInt8 :: (value ++ 0 :: rest)).drop (name.length + 1) =
      value ++ 0 :: rest := by
    rw [← List.drop_drop, List.drop_left]
    rfl
  rw [parametersLoop, dif_neg (List.append_ne_nil_of_right_ne_nil _ (List.cons_ne_nil _ _)),
    if_neg (head_ne_zero hnul _), hequal]
  dsimp only
  rw [hbehind, hlast, List.take_left, set_append_cons]
  dsimp only
  rw [string_append_cons (hvalue.not_mem (.inl rfl))]
  rfl

/-- A parameter with another one behind it. -/
theorem parametersLoop_cons {name value : Text} (hname : Without (text "&= ") name)
    (hvalue : Without (text "&= ") value) (rest : Text) :
    parametersLoop (name ++ '='.toUInt8 :: (value ++ '&'.toUInt8 :: rest)) =
      (parametersLoop rest).map fun (parameters, rest) =>
        (parameters.map ((name, value) :: ·), name ++ 0 :: (value ++ 0 :: rest)) := by
  have hnul := hname.not_mem (.inl rfl)
  have hequal : strstr 0 (text "=") (name ++ '='.toUInt8 :: (value ++ '&'.toUInt8 :: rest)) =
      some (some name.length) :=
    strstr_of_not_mem (hname.not_mem (.inr (by decide))) hnul _
  have hnext : strstr 0 (text "&") (value ++ '&'.toUInt8 :: rest) = some (some value.length) :=
    strstr_of_not_mem (hvalue.not_mem (.inr (by decide))) (hvalue.not_mem (.inl rfl)) rest
  have hbehind : (name ++ '='.toUInt8 :: (value ++ '&'.toUInt8 :: rest)).drop (name.length + 1) =
      value ++ '&'.toUInt8 :: rest := by
    rw [← List.drop_drop, List.drop_left]
    rfl
  have hbehind' : (value ++ '&'.toUInt8 :: rest).drop (value.length + 1) = rest := by
    rw [← List.drop_drop, List.drop_left]
    rfl
  rw [parametersLoop, dif_neg (List.append_ne_nil_of_right_ne_nil _ (List.cons_ne_nil _ _)),
    if_neg (head_ne_zero hnul _), hequal]
  dsimp only
  rw [hbehind, hnext, List.take_left]
  dsimp only
  rw [hbehind', List.take_left]

/-- **The parameters are read in order**, by induction on them. -/
theorem parametersLoop_parameterText {parameters : List (Text × Text)}
    (h : ∀ parameter ∈ parameters,
      Without (text "&= ") parameter.1 ∧ Without (text "&= ") parameter.2) (rest : Text) :
    ∃ m, parametersLoop (parameterText parameters ++ 0 :: rest) = some (some parameters, m) := by
  induction parameters with
  | nil =>
    refine ⟨0 :: rest, ?_⟩
    rw [parametersLoop]
    rfl
  | cons parameter parameters ih =>
    obtain ⟨name, value⟩ := parameter
    rw [List.forall_mem_cons] at h
    cases parameters with
    | nil =>
      refine ⟨name ++ 0 :: (value ++ 0 :: rest), ?_⟩
      rw [parameterText, List.append_assoc]
      exact parametersLoop_last h.1.1 h.1.2 rest
    | cons parameter parameters =>
      obtain ⟨m, hm⟩ := ih h.2
      refine ⟨name ++ 0 :: (value ++ 0 :: m), ?_⟩
      rw [parameterText, List.append_assoc, List.cons_append, List.append_assoc, List.cons_append,
        parametersLoop_cons h.1.1 h.1.2, hm]
      rfl

/-! ### GET requests -/

/-- What is neither in names nor in values, and no separator, is not in the parameters. -/
theorem not_mem_parameterText {c : UInt8} (hc : c ∉ text "=&")
    {parameters : List (Text × Text)}
    (h : ∀ parameter ∈ parameters, c ∉ parameter.1 ∧ c ∉ parameter.2) :
    c ∉ parameterText parameters := by
  have hseparators : c ≠ '='.toUInt8 ∧ c ≠ '&'.toUInt8 := by
    simpa [text] using hc
  induction parameters with
  | nil => exact List.not_mem_nil
  | cons parameter parameters ih =>
    obtain ⟨name, value⟩ := parameter
    rw [List.forall_mem_cons] at h
    cases parameters with
    | nil => simp [parameterText, h.1.1, h.1.2, hseparators.1]
    | cons parameter parameters =>
      have hrest := ih h.2
      simp [parameterText, h.1.1, h.1.2, hseparators.1, hseparators.2, hrest]

/-- The path with its parameters ends at the blank behind it. -/
theorem Target.not_mem_withParameters (target : Target) {c : UInt8} (hc : c = 0 ∨ c = ' '.toUInt8) :
    c ∉ target.withParameters := by
  have hpath : c ∉ target.path := by
    refine target.path_without.not_mem (hc.imp_right fun h => ?_)
    exact h ▸ List.mem_cons_self
  have hparameters : c ∉ parameterText target.parameters := by
    have hstops : c = 0 ∨ c ∈ text "&= " := by
      refine hc.imp_right fun h => ?_
      rw [h]
      decide
    refine not_mem_parameterText ?_ fun parameter hmem => ?_
    · rcases hc with rfl | rfl <;> decide
    · obtain ⟨hname, hvalue⟩ := target.parameters_without parameter hmem
      exact ⟨hname.not_mem hstops, hvalue.not_mem hstops⟩
  rw [Target.withParameters]
  split
  · exact hpath
  · have hquestion : c ≠ '?'.toUInt8 := by
      rcases hc with rfl | rfl <;> decide
    simp [hpath, hparameters, hquestion]

/-- The parameters behind a path whose end has been marked. -/
theorem Target.run_parseGetParameters (target : Target) (rest : Text) :
    ∃ m, parseGetParameters.run (text "GET " ++ (target.withParameters ++ 0 :: rest)) =
      some (target.parameters, text "GET " ++ (target.path ++ 0 :: m)) := by
  obtain ⟨c, path, hpath⟩ := List.exists_cons_of_ne_nil target.path_ne_nil
  have hquestion : '?'.toUInt8 ∉ path := fun hmem =>
    target.path_without.not_mem (.inr (by decide)) (hpath ▸ List.mem_cons_of_mem c hmem)
  have hnul : 0 ∉ path := fun hmem =>
    target.path_without.not_mem (.inl rfl) (hpath ▸ List.mem_cons_of_mem c hmem)
  have hdrop : ∀ u, (text "GET " ++ (target.path ++ u)).drop 5 = path ++ u := by
    intro u
    rw [hpath]
    rfl
  rw [parseGetParameters, Target.withParameters]
  split
  · rename_i hnone
    have hfound : strstr 0 (text "?") (path ++ 0 :: rest) = some none := by
      refine strstr_append_nul (by decide) (by decide) (fun hmem => hquestion ?_) rest
      exact hmem.subset (List.mem_singleton.mpr rfl)
    refine ⟨rest, ?_⟩
    rw [run_scan_bind ((congrArg _ (hdrop _)).trans hfound), hnone]
    rfl
  · obtain ⟨m, hm⟩ := parametersLoop_parameterText target.parameters_without rest
    have hfound : strstr 0 (text "?")
        (path ++ '?'.toUInt8 :: (parameterText target.parameters ++ 0 :: rest)) =
          some (some path.length) := strstr_of_not_mem hquestion hnul _
    have hplace : 5 + path.length = (text "GET " ++ target.path).length := by
      rw [hpath, List.length_append, List.length_cons, ← Nat.add_assoc, Nat.add_right_comm]
      rfl
    have hrun : parseGETParameters.run (parameterText target.parameters ++ 0 :: rest) =
        some (target.parameters, m) := run_bind_of_eq_some hm _
    refine ⟨m, ?_⟩
    rw [List.append_assoc, List.cons_append, run_scan_bind ((congrArg _ (hdrop _)).trans hfound)]
    dsimp only
    rw [hplace, ← List.append_assoc, run_write_bind (by simp), set_append_cons,
      show 6 + path.length = (text "GET " ++ target.path).length + 1 by omega,
      run_within (by simp), ← List.drop_drop, List.drop_left, List.drop_one, List.tail_cons, hrun,
      List.take_length_add_append]
    exact congrArg (fun t => some (target.parameters, t)) (by simp)

/-- **A GET request is always parsed back**, whatever is in the rest of its header. -/
theorem Target.run_parseGetRequest (target : Target) (rest : Text) :
    (parseGetRequest.run (text "GET " ++ (target.withParameters ++ ' '.toUInt8 :: rest))).map
        Prod.fst =
      some ⟨true, target.path, target.parameters.map Prod.fst,
        target.parameters.map Prod.snd⟩ := by
  have hstart : startsWith (text "GET ")
      ((text "GET " ++ (target.withParameters ++ ' '.toUInt8 :: rest)).drop 0) = some true :=
    startsWith_eq_true_iff.mpr (List.prefix_append _ _)
  have hend : strstr 0 (text " ")
      ((text "GET " ++ (target.withParameters ++ ' '.toUInt8 :: rest)).drop 4) =
        some (some target.withParameters.length) :=
    strstr_of_not_mem (target.not_mem_withParameters (.inr rfl))
      (target.not_mem_withParameters (.inl rfl)) _
  have hplace : 4 + target.withParameters.length =
      (text "GET " ++ target.withParameters).length := by
    rw [List.length_append]
    rfl
  obtain ⟨m, hm⟩ := target.run_parseGetParameters rest
  have hpath : string 0 ((text "GET " ++ (target.path ++ 0 :: m)).drop 4) =
      some target.path := string_append_cons (target.path_without.not_mem (.inl rfl)) m
  rw [parseGetRequest, run_scan_bind hstart, if_pos rfl, run_scan_bind hend]
  dsimp only
  rw [hplace, ← List.append_assoc, run_write_bind (by simp), set_append_cons, List.append_assoc,
    parseGetTarget, run_bind_of_eq_some hm, run_scan_bind hpath]
  rfl

/-! ### The end of a header -/

/-- A header ends with its first blank line. -/
def EndsHeader (header : Text) : Prop :=
  blankLine <:+ header ∧ ¬blankLine <:+: header.dropLast

/-- The string behind the first blank line. -/
def behindBlankLine (t : Text) : Option Text :=
  match strstr 0 blankLine t with
  | some (some i) => string 0 (t.drop (i + 4))
  | _ => none

/-- **The body is what is found behind the first blank line** exactly if the header ends with
it. -/
theorem behindBlankLine_eq_some_iff {header body : Text} (hheader : 0 ∉ header)
    (hbody : 0 ∉ body) :
    behindBlankLine (header ++ (body ++ [0])) = some body ↔ EndsHeader header := by
  constructor
  · intro hstring
    rw [behindBlankLine] at hstring
    split at hstring
    case h_2 => exact absurd hstring nofun
    rename_i i hfound
    obtain ⟨hplace, -, -⟩ := (strstr_eq_some_iff (by decide)).mp hfound
    have hwithin := add_length_le_of_strstr (by decide) hfound
    rw [List.length_append, List.length_append, List.length_singleton] at hwithin
    have hfour : blankLine.length = 4 := rfl
    have hi : i ≤ (header ++ body).length := by
      rw [List.length_append]
      omega
    rw [← List.append_assoc, List.drop_append_of_le_length hi, prefix_append_cons_iff (by decide)]
      at hplace
    have hle := hplace.length_le
    rw [List.length_drop, hfour] at hle
    rw [← List.append_assoc, List.drop_append_of_le_length (by omega), string_append_cons
      (fun hmem => (List.mem_append.mp (List.mem_of_mem_drop hmem)).elim hheader hbody)] at hstring
    have hlength := congrArg List.length (Option.some.inj hstring)
    rw [List.length_drop, List.length_append] at hlength
    rw [List.length_append] at hle hi
    have hi' : i + 4 = header.length := by omega
    rw [List.drop_append_of_le_length (by omega)] at hplace
    have hend : blankLine = header.drop i := by
      refine (List.prefix_of_prefix_length_le hplace (List.prefix_append _ body) ?_).eq_of_length ?_
      all_goals
        rw [List.length_drop, hfour]
        omega
    obtain ⟨t, rfl⟩ : ∃ t, header = t ++ blankLine :=
      ⟨header.take i, by rw [hend, List.take_append_drop]⟩
    obtain rfl : i = t.length := by
      rw [List.length_append, hfour] at hi'
      omega
    rw [List.mem_append, not_or] at hheader
    rw [List.append_assoc] at hfound
    exact ⟨List.suffix_append t _, (strstr_append_iff (by decide) hheader.1 _).mp hfound⟩
  · rintro ⟨⟨t, rfl⟩, hfirst⟩
    rw [List.mem_append, not_or] at hheader
    have hfound : strstr 0 blankLine (t ++ (blankLine ++ (body ++ [0]))) = some (some t.length) :=
      (strstr_append_iff (by decide) hheader.1 _).mpr hfirst
    rw [List.append_assoc, behindBlankLine, hfound]
    dsimp only
    rw [List.drop_length_add_append]
    exact string_append_cons hbody []

/-- **A PUT or POST request is parsed back** exactly if its header ends with its first blank
line. -/
theorem run_parsePutPostTarget_iff (word : Text) {path header body : Text} (hnul : 0 ∉ path)
    (hblank : ' '.toUInt8 ∉ path) (hheader : 0 ∉ header) (hbody : 0 ∉ body) :
    ((parsePutPostTarget word.length).run
        (word ++ (path ++ ' '.toUInt8 :: (header ++ (body ++ [0]))))).map Prod.fst =
      some ⟨true, path, [], [body]⟩ ↔ EndsHeader header := by
  have hend : strstr 0 (text " ")
      ((word ++ (path ++ ' '.toUInt8 :: (header ++ (body ++ [0])))).drop word.length) =
        some (some path.length) := by
    rw [List.drop_left]
    exact strstr_of_not_mem hblank hnul _
  have hpath : string 0 ((word ++ (path ++ 0 :: (header ++ (body ++ [0])))).drop
      word.length) = some path := by
    rw [List.drop_left]
    exact string_append_cons hnul _
  have hbehind : ∀ i, (word ++ (path ++ 0 :: (header ++ (body ++ [0])))).drop
      ((word ++ path).length + 1 + i) = (header ++ (body ++ [0])).drop i := by
    intro i
    rw [← List.append_assoc, Nat.add_assoc, List.drop_length_add_append, Nat.add_comm,
      List.drop_succ_cons]
  have hsearch : strstr 0 (text "\r\n\r\n")
      ((word ++ (path ++ 0 :: (header ++ (body ++ [0])))).drop
        ((word ++ path).length + 1)) = strstr 0 blankLine (header ++ (body ++ [0])) :=
    congrArg _ (hbehind 0)
  have hread : ∀ i, string 0 ((word ++ (path ++ 0 :: (header ++ (body ++ [0])))).drop
      ((word ++ path).length + 1 + i + 4)) =
        string 0 ((header ++ (body ++ [0])).drop (i + 4)) := fun i =>
    congrArg _ (hbehind (i + 4))
  rw [parsePutPostTarget, run_scan_bind hend]
  dsimp only
  rw [← List.length_append, ← List.append_assoc, run_write_bind (by simp), set_append_cons,
    List.append_assoc, run_scan_bind hpath, ← behindBlankLine_eq_some_iff hheader hbody,
    behindBlankLine]
  rcases hfound : strstr 0 blankLine (header ++ (body ++ [0])) with _ | _ | i
  · rw [run_scan_bind_eq_none (hsearch.trans hfound)]
    exact iff_of_false (by rintro ⟨⟩) (by rintro ⟨⟩)
  · rw [run_scan_bind (hsearch.trans hfound)]
    refine iff_of_false (fun h => ?_) (by rintro ⟨⟩)
    exact absurd (congrArg Request.noParsingError (Option.some.inj h)) Bool.false_ne_true
  · rw [run_scan_bind (hsearch.trans hfound)]
    dsimp only
    rcases hstring : string 0 ((header ++ (body ++ [0])).drop (i + 4)) with _ | found
    · rw [run_scan_bind_eq_none ((hread i).trans hstring), hstring]
      exact iff_of_false (by rintro ⟨⟩) (by rintro ⟨⟩)
    · rw [run_scan_bind ((hread i).trans hstring), hstring]
      change some (Request.mk true path [] [found]) = _ ↔ _
      simp

/-! ### Responses -/

theorem parseParameters_append_cons {t : Text} (h : ' '.toUInt8 ∉ t) (rest : Text) :
    parseParameters (t ++ ' '.toUInt8 :: rest) = t :: parseParameters rest := by
  induction t with
  | nil => exact if_pos rfl
  | cons c t ih =>
    rw [List.mem_cons, not_or] at h
    rw [List.cons_append, parseParameters, if_neg (Ne.symm h.1), ih h.2]
    rfl

/-- **What is made of a response**: the end of its first line is put back, and so the blank line
is searched in what has been received. -/
theorem run_parseResponse_iff {m code body : Text} :
    (parseResponse.run m).map Prod.fst = some ⟨true, code, body⟩ ↔
      ∃ i, strstr 0 (text "\r\n") m = some (some i) ∧
        3 ≤ (parseParameters (m.take i)).length ∧
        (parseParameters (m.take i)).getD 1 [] = code ∧
        (strstr 0 blankLine m = some none ∧ body = [] ∨ behindBlankLine m = some body) := by
  rw [parseResponse]
  rcases hline : strstr 0 (text "\r\n") m with _ | _ | i
  · rw [run_scan_zero_bind_eq_none hline]
    exact iff_of_false (by rintro ⟨⟩) (by rintro ⟨i, ⟨⟩, -⟩)
  · rw [run_scan_zero_bind hline]
    refine iff_of_false (fun h => ?_) (by rintro ⟨i, ⟨⟩, -⟩)
    exact absurd (congrArg Response.ok (Option.some.inj h)) Bool.false_ne_true
  obtain ⟨⟨rest, hrest⟩, hnul, -⟩ := (strstr_eq_some_iff (by decide)).mp hline
  have hwithin := add_length_le_of_strstr (by decide) hline
  obtain ⟨line, rfl, rfl⟩ : ∃ line, m = line ++ '\r'.toUInt8 :: ('\n'.toUInt8 :: rest) ∧
      line.length = i := by
    refine ⟨m.take i, ?_, List.length_take_of_le (by omega)⟩
    nth_rewrite 1 [← List.take_append_drop i m, ← hrest]
    rfl
  rw [List.take_left] at hnul
  have hstring : string 0 (line ++ 0 :: ('\n'.toUInt8 :: rest)) = some line :=
    string_append_cons hnul _
  rw [run_scan_zero_bind hline]
  dsimp only
  rw [run_write_bind (by simp), set_append_cons, run_scan_zero_bind hstring]
  simp only [Option.some.injEq, exists_eq_left', List.take_left]
  split
  · rename_i hlong
    rw [run_write_bind (by simp), set_append_cons, and_iff_right hlong, behindBlankLine]
    have hsearch : strstr 0 (text "\r\n\r\n")
        ((line ++ '\r'.toUInt8 :: ('\n'.toUInt8 :: rest)).drop 0) =
          strstr 0 blankLine (line ++ '\r'.toUInt8 :: ('\n'.toUInt8 :: rest)) := rfl
    rcases hfound : strstr 0 blankLine (line ++ '\r'.toUInt8 :: ('\n'.toUInt8 :: rest))
      with _ | _ | i
    · rw [run_scan_bind_eq_none (hsearch.trans hfound)]
      refine iff_of_false (by rintro ⟨⟩) ?_
      rintro ⟨-, ⟨⟨⟩, -⟩ | hbody⟩
      cases hbody
    · rw [run_scan_bind (hsearch.trans hfound)]
      change some (Response.mk true _ []) = _ ↔ _
      simp [eq_comm]
    · rw [run_scan_bind (hsearch.trans hfound)]
      dsimp only
      rcases hstring' : string 0 ((line ++ '\r'.toUInt8 :: ('\n'.toUInt8 :: rest)).drop (i + 4))
        with _ | found
      · rw [run_scan_bind_eq_none hstring']
        refine iff_of_false (by rintro ⟨⟩) ?_
        rintro ⟨-, ⟨⟨⟩, -⟩ | hbody⟩
        cases hbody
      · rw [run_scan_bind hstring']
        change some (Response.mk true _ found) = _ ↔ _
        simp
  · rename_i hshort
    refine iff_of_false (fun h => ?_) fun h => hshort h.1
    exact absurd (congrArg Response.ok (Option.some.inj h)) Bool.false_ne_true

theorem Status.parseParameters_line (status : Status) :
    parseParameters status.line =
      text "HTTP/1.1" :: status.code :: parseParameters status.reason := by
  have hline : status.line = text "HTTP/1.1" ++
      ' '.toUInt8 :: (status.code ++ ' '.toUInt8 :: status.reason) := by
    rw [Status.line, List.append_assoc, List.append_assoc]
    rfl
  rw [hline, parseParameters_append_cons (by decide),
    parseParameters_append_cons (status.code_without.not_mem (.inr (by decide)))]

theorem Status.not_mem_line (status : Status) {c : UInt8}
    (hc : c = 0 ∨ c = '\r'.toUInt8 ∨ c = '\n'.toUInt8) : c ∉ status.line := by
  have hcode : c ∉ status.code := by
    refine status.code_without.not_mem (hc.imp_right fun h => ?_)
    rcases h with rfl | rfl <;> decide
  have hreason : c ∉ status.reason := by
    refine status.reason_without.not_mem (hc.imp_right fun h => ?_)
    rcases h with rfl | rfl <;> decide
  have htext : c ∉ text "HTTP/1.1 " ∧ c ∉ text " " := by
    rcases hc with rfl | rfl | rfl <;> decide
  rw [Status.line]
  simp only [List.mem_append, not_or]
  exact ⟨⟨⟨htext.1, hcode⟩, htext.2⟩, hreason⟩

/-- **A response whose header has a blank line** is parsed back exactly if the header ends with
it. -/
theorem Status.parsed_back_iff (status : Status) {header body : Text} (hheader : 0 ∉ header)
    (hbody : 0 ∉ body) (hstart : text "\r\n" <+: header) (hblank : blankLine <:+ header) :
    (parseResponse.run (status.line ++ header ++ (body ++ [0]))).map Prod.fst =
      some ⟨true, status.code, body⟩ ↔ EndsHeader (status.line ++ header) := by
  have hline : 0 ∉ status.line := status.not_mem_line (.inl rfl)
  have hnul : 0 ∉ status.line ++ header := fun hmem =>
    (List.mem_append.mp hmem).elim hline hheader
  have hfirst : strstr 0 (text "\r\n") (status.line ++ header ++ (body ++ [0])) =
      some (some status.line.length) := by
    obtain ⟨rest, rfl⟩ := hstart
    rw [List.append_assoc, List.append_assoc]
    refine (strstr_append_iff (by decide) hline _).mpr fun hmem => ?_
    rw [show text "\r\n" = ['\r'.toUInt8] ++ ['\n'.toUInt8] from rfl, ← List.append_assoc,
      List.dropLast_concat] at hmem
    have hnewline := hmem.subset (List.mem_append_right _ (List.mem_singleton.mpr rfl))
    rw [List.mem_append, List.mem_singleton] at hnewline
    exact hnewline.elim (status.not_mem_line (.inr (.inr rfl))) (by decide)
  have hlong : 3 ≤ (parseParameters status.line).length := by
    rw [status.parseParameters_line, List.length_cons, List.length_cons, length_parseParameters]
    omega
  have hcode : (parseParameters status.line).getD 1 [] = status.code := by
    rw [status.parseParameters_line]
    rfl
  have hfound : strstr 0 blankLine (status.line ++ header ++ (body ++ [0])) ≠ some none := by
    obtain ⟨t, rfl⟩ := hblank
    have hbefore : 0 ∉ status.line ++ t := fun hmem =>
      (List.mem_append.mp hmem).elim hline fun hmem => hheader (List.mem_append_left _ hmem)
    obtain ⟨i, hi⟩ := @exists_strstr_append _ _ 0 blankLine (by decide) _ hbefore (body ++ [0])
    rw [← List.append_assoc status.line t, List.append_assoc, hi]
    exact nofun
  rw [run_parseResponse_iff, ← behindBlankLine_eq_some_iff hnul hbody, hfirst]
  simp only [Option.some.injEq, exists_eq_left']
  rw [List.append_assoc, List.take_left, and_iff_right hlong, and_iff_right hcode,
    ← List.append_assoc]
  exact or_iff_right fun h => hfound h.1

/-- **A response without a header behind its status line** is not parsed back. -/
theorem Status.not_parsed (status : Status) {body : Text} (hbody : 0 ∉ body) :
    (parseResponse.run (status.line ++ (body ++ [0]))).map Prod.fst ≠
      some ⟨true, status.code, body⟩ := by
  intro hrun
  obtain ⟨i, hline, -, -, ⟨-, rfl⟩ | hbehind⟩ := run_parseResponse_iff.mp hrun
  · have hplace := ((strstr_eq_some_iff (by decide)).mp hline).1
    have hmem := List.mem_of_mem_drop (hplace.subset (@List.mem_cons_self _ '\r'.toUInt8 _))
    rw [List.mem_append] at hmem
    exact hmem.elim (status.not_mem_line (.inr (.inl rfl))) (by decide)
  · have hends := (behindBlankLine_eq_some_iff (status.not_mem_line (.inl rfl)) hbody).mp hbehind
    exact status.not_mem_line (.inr (.inl rfl)) (hends.1.subset (by decide))

/-! ### The headers that are built -/

/-- The part of a header about the content. -/
def contentHeader (content : Content) : Text :=
  if content.contentType = [] then []
  else text "\r\n" ++ (text "Content-Type:" ++ ' '.toUInt8 :: (content.contentType ++
    (text "\r\n" ++ (text "Content-Length:" ++ ' '.toUInt8 ::
      (decimalDigits content.body.length ++ blankLine)))))

/-- The part of a header about the authorization, and what is behind it. -/
def authHeader (server : Server) (rest : Text) : Text :=
  if server.auth = [] then rest
  else text "\r\nAuthorization:" ++ ' '.toUInt8 :: (server.auth ++ rest)

/-- A header behind the path, with what is behind the port. -/
def serverHeader (server : Server) (rest : Text) : Text :=
  text "HTTP/1.1\r\nHost:" ++ ' '.toUInt8 :: (server.host ++ ':'.toUInt8 ::
    (decimalDigits server.port.toNat ++ authHeader server rest))

theorem addBodyToRequest_eq (content : Content) (paDest : Text) :
    addBodyToRequest content.body content.contentType paDest =
      paDest ++ (contentHeader content ++ content.body) := by
  rw [addBodyToRequest, contentHeader]
  by_cases htype : content.contentType = [] <;> by_cases hbody : content.body = [] <;>
    simp [htype, hbody, addHeaderEnding, blankLine, text]

theorem parameterText_eq_nil_iff {parameters : List (Text × Text)} :
    parameterText parameters = [] ↔ parameters = [] := by
  cases parameters with
  | nil => exact iff_of_true rfl rfl
  | cons parameter parameters =>
    refine iff_of_false (fun h => ?_) (List.cons_ne_nil _ _)
    cases parameters <;> exact absurd (List.append_eq_nil_iff.mp h).2 (List.cons_ne_nil _ _)

theorem addCommonHeader_eq (paDest : Text) (target : Target) (server : Server)
    (paType : ERequestType) (rest : Text) :
    addCommonHeader paDest server.host server.port target.path server.auth
        (parameterText target.parameters) paType ++ rest =
      (match paType with
        | .get => text "GET "
        | .put => text "PUT "
        | .post => text "POST "
        | .notSet => paDest) ++
      (target.withParameters ++ ' '.toUInt8 :: serverHeader server rest) := by
  rw [Target.withParameters, serverHeader, authHeader]
  simp only [addCommonHeader, ne_eq, parameterText_eq_nil_iff]
  by_cases hparameters : target.parameters = [] <;> by_cases hauth : server.auth = [] <;>
    simp [hparameters, hauth, text]

/-! ### Blank lines in the headers that are built -/

/-- A digit is not a part of a blank line. -/
theorem not_mem_decimalDigits {c : UInt8} (hc : isDigit c = false) (v : ℕ) :
    c ∉ decimalDigits v := by
  intro hmem
  obtain ⟨d, hd, rfl⟩ := List.mem_map.mp hmem
  exact ne_of_isDigit (isDigit_digitChar (Places.lt_of_mem_digits (by decide) hd)) hc rfl

theorem infix_append_cons {c : UInt8} (hc : c ∉ blankLine) (t u : Text) :
    blankLine <:+: t ++ c :: u ↔ blankLine <:+: t ∨ blankLine <:+: u :=
  infix_append_cons_iff hc t u

/-- In front of a text that does not begin with a part of a blank line. -/
theorem infix_skip {t : Text} (ht : '\r'.toUInt8 ∉ t) (u : Text) :
    blankLine <:+: t ++ u ↔ blankLine <:+: u :=
  infix_append_iff_of_first ht u

theorem infix_stop {u : Text} (hu : '\n'.toUInt8 ∉ u) (t : Text) :
    blankLine <:+: t ++ u ↔ blankLine <:+: t :=
  @infix_append_iff_of_last _ _ (text "\r\n\r") _ hu t

theorem infix_authHeader (server : Server) (rest : Text) :
    blankLine <:+: authHeader server rest ↔ blankLine <:+: server.auth ++ rest := by
  rw [authHeader]
  split
  · rename_i hauth
    rw [hauth, List.nil_append]
  · rw [infix_append_cons (by decide)]
    exact or_iff_right (by decide)

theorem infix_serverHeader (server : Server) (rest : Text) :
    blankLine <:+: serverHeader server rest ↔
      blankLine <:+: server.host ∨ blankLine <:+: server.auth ++ rest := by
  rw [serverHeader, infix_append_cons (by decide), or_iff_right (by decide),
    infix_append_cons (by decide), infix_skip (not_mem_decimalDigits (by decide) _),
    infix_authHeader]

/-- The blank line at the end of the header apart, a blank line in the part about the content is
one in the content type, or it begins in front of it. -/
theorem infix_contentHeader {content : Content} (h : content.contentType ≠ []) (t : Text) :
    blankLine <:+: t ++ (contentHeader content).dropLast ↔
      blankLine <:+: t ++ text "\r\n" ∨
        blankLine <:+: content.contentType ++ text "\r\n" := by
  have hdrop : (contentHeader content).dropLast =
      text "\r\n" ++ (text "Content-Type:" ++ ' '.toUInt8 :: (content.contentType ++
        (text "\r\n" ++ (text "Content-Length:" ++ ' '.toUInt8 ::
          (decimalDigits content.body.length ++ text "\r\n\r"))))) := by
    rw [contentHeader, if_neg h, show blankLine = text "\r\n\r" ++ ['\n'.toUInt8] from rfl]
    simp only [← List.append_assoc, ← List.cons_append, List.dropLast_concat]
  have hcut : ∀ word ∈ [text "Content-Type:", text "Content-Length:"], ∀ t u : Text,
      blankLine <:+: t ++ (text "\r\n" ++ (word ++ ' '.toUInt8 :: u)) ↔
        blankLine <:+: t ++ text "\r\n" ∨ blankLine <:+: u := by
    intro word hword t u
    have hnewline : '\n'.toUInt8 ∉ word := by
      revert word
      decide
    rw [← List.append_assoc, ← List.append_assoc, infix_append_cons (by decide),
      infix_stop hnewline]
  rw [hdrop, hcut _ (by decide), hcut _ (by decide),
    infix_skip (not_mem_decimalDigits (by decide) _),
    or_iff_left (by decide : ¬blankLine <:+: text "\r\n\r")]

theorem suffix_contentHeader {content : Content} (h : content.contentType ≠ []) :
    blankLine <:+ contentHeader content := by
  rw [contentHeader, if_neg h]
  simp only [← List.append_assoc, ← List.cons_append]
  exact List.suffix_append _ blankLine

theorem serverHeader_eq (server : Server) (rest : Text) :
    serverHeader server rest = serverHeader server [] ++ rest := by
  rw [serverHeader, serverHeader, authHeader, authHeader]
  split <;> simp

/-- A header without a content type only ends with the blank line that the authorization ends
with. -/
theorem endsHeader_auth_iff {server : Server} (h : server.auth ≠ []) :
    EndsHeader (serverHeader server []) ↔
      ¬blankLine <:+: server.host ∧
        blankLine <:+ server.auth ∧ ¬blankLine <:+: server.auth.dropLast := by
  have hheader : serverHeader server [] =
      text "HTTP/1.1\r\nHost:" ++ ' '.toUInt8 :: (server.host ++ ':'.toUInt8 ::
        (decimalDigits server.port.toNat ++ text "\r\nAuthorization:")) ++
      ' '.toUInt8 :: server.auth := by
    rw [serverHeader, authHeader, if_neg h]
    simp
  rw [EndsHeader, hheader, suffix_append_cons_iff (by decide),
    List.dropLast_append_of_ne_nil (List.cons_ne_nil _ _), List.dropLast_cons_of_ne_nil h,
    infix_append_cons (by decide), infix_append_cons (by decide),
    or_iff_right (by decide : ¬blankLine <:+: text "HTTP/1.1\r\nHost:"),
    infix_append_cons (by decide), infix_skip (not_mem_decimalDigits (by decide) _),
    or_iff_left (by decide : ¬blankLine <:+: text "\r\nAuthorization:"), not_or]
  exact and_left_comm

/-- **The header of a PUT or POST request** ends with its first blank line in these cases. -/
theorem endsHeader_serverHeader_iff (server : Server) (content : Content) :
    EndsHeader (serverHeader server (contentHeader content)) ↔ RequestEnds server content := by
  rw [RequestEnds]
  split
  · rename_i htype
    have hnothing : contentHeader content = [] := if_pos htype
    rw [hnothing]
    by_cases hauth : server.auth = []
    · refine iff_of_false (fun h => ?_) fun h => absurd (hauth ▸ h.2.1) (by decide)
      have hdigits := h.1
      rw [serverHeader, authHeader, if_pos hauth, suffix_append_cons_iff (by decide),
        suffix_append_cons_iff (by decide), List.append_nil] at hdigits
      exact not_mem_decimalDigits (by decide) _ (hdigits.subset (by decide : '\n'.toUInt8 ∈ _))
    · exact endsHeader_auth_iff hauth
  · rename_i htype
    have hsuffix := suffix_contentHeader htype
    have hne : contentHeader content ≠ [] := by
      intro hnil
      rw [hnil] at hsuffix
      exact absurd hsuffix (by decide)
    have hdrop : (serverHeader server (contentHeader content)).dropLast =
        serverHeader server (contentHeader content).dropLast := by
      rw [serverHeader_eq, List.dropLast_append_of_ne_nil hne, ← serverHeader_eq]
    have hends : blankLine <:+ serverHeader server (contentHeader content) := by
      rw [serverHeader_eq]
      exact hsuffix.trans (List.suffix_append _ _)
    rw [EndsHeader, and_iff_right hends, hdrop, infix_serverHeader, infix_contentHeader htype,
      not_or, not_or]

/-! ### Which messages are parsed back -/

theorem Content.not_mem_contentHeader (content : Content) : 0 ∉ contentHeader content := by
  rw [contentHeader]
  split
  · exact List.not_mem_nil
  · have hdigits := not_mem_decimalDigits (by decide : isDigit 0 = false) content.body.length
    simp only [List.mem_append, List.mem_cons, not_or]
    exact ⟨by decide, by decide, by decide, content.contentType_string, by decide, by decide,
      by decide, hdigits, by decide⟩

theorem Server.not_mem_serverHeader (server : Server) {rest : Text} (h : 0 ∉ rest) :
    0 ∉ serverHeader server rest := by
  have hauth : 0 ∉ authHeader server rest := by
    rw [authHeader]
    split
    · exact h
    · simp only [List.mem_append, List.mem_cons, not_or]
      exact ⟨by decide, by decide, server.auth_string, h⟩
  have hdigits := not_mem_decimalDigits (by decide : isDigit 0 = false) server.port.toNat
  rw [serverHeader]
  simp only [List.mem_append, List.mem_cons, not_or]
  exact ⟨by decide, by decide, server.host_string, by decide, hdigits, hauth⟩

/-- What is built for a PUT or POST request, with the terminator behind it. -/
theorem message_eq (paDest : Text) (target : Target) (server : Server) (content : Content)
    (paType : ERequestType) :
    createPutPostRequest paDest server.host server.port target.path server.auth
        (parameterText target.parameters) content.body content.contentType paType ++ [0] =
      (match paType with
        | .get => text "GET "
        | .put => text "PUT "
        | .post => text "POST "
        | .notSet => paDest) ++
      (target.withParameters ++ ' '.toUInt8 ::
        (serverHeader server (contentHeader content) ++ (content.body ++ [0]))) := by
  rw [createPutPostRequest, addBodyToRequest_eq, List.append_assoc, addCommonHeader_eq,
    serverHeader_eq, serverHeader_eq server (contentHeader content)]
  simp only [List.append_assoc]

/-- **A PUT request** is parsed back exactly if its header ends with its first blank line. -/
theorem meets_put_iff (paDest : Text) (target : Target) (server : Server) (content : Content) :
    (Exchange.put target server content).Meets paDest ↔ RequestEnds server content := by
  have hheader := server.not_mem_serverHeader content.not_mem_contentHeader
  rw [← endsHeader_serverHeader_iff, ← run_parsePutPostTarget_iff (text "PUT ")
    (target.not_mem_withParameters (.inl rfl)) (target.not_mem_withParameters (.inr rfl))
    hheader content.body_string, Exchange.Meets, Exchange.message, message_eq]
  have hstart : startsWith (text "PUT ") (text "PUT " ++ (target.withParameters ++ ' '.toUInt8 ::
      (serverHeader server (contentHeader content) ++ (content.body ++ [0])))) = some true :=
    startsWith_eq_true_iff.mpr (List.prefix_append _ _)
  dsimp only
  rw [parsePutPostRequest, run_scan_zero_bind hstart]
  rfl

theorem meets_post_iff (paDest : Text) (target : Target) (server : Server) (content : Content) :
    (Exchange.post target server content).Meets paDest ↔ RequestEnds server content := by
  have hheader := server.not_mem_serverHeader content.not_mem_contentHeader
  rw [← endsHeader_serverHeader_iff, ← run_parsePutPostTarget_iff (text "POST ")
    (target.not_mem_withParameters (.inl rfl)) (target.not_mem_withParameters (.inr rfl))
    hheader content.body_string, Exchange.Meets, Exchange.message, message_eq]
  have hput : startsWith (text "PUT ") (text "POST " ++ (target.withParameters ++ ' '.toUInt8 ::
      (serverHeader server (contentHeader content) ++ (content.body ++ [0])))) = some false := rfl
  have hstart : startsWith (text "POST ") (text "POST " ++ (target.withParameters ++
      ' '.toUInt8 :: (serverHeader server (contentHeader content) ++ (content.body ++ [0])))) =
        some true := startsWith_eq_true_iff.mpr (List.prefix_append _ _)
  dsimp only
  rw [parsePutPostRequest, run_scan_zero_bind hput, if_neg Bool.false_ne_true,
    run_scan_zero_bind hstart]
  rfl

/-- **A GET request** is always parsed back. -/
theorem meets_get (paDest : Text) (target : Target) (server : Server) :
    (Exchange.get target server).Meets paDest := by
  have hmessage : createGetRequest paDest server.host server.port target.path server.auth
      (parameterText target.parameters) ++ [0] =
        text "GET " ++ (target.withParameters ++ ' '.toUInt8 ::
          serverHeader server (blankLine ++ [0])) := by
    rw [createGetRequest, addHeaderEnding, List.append_assoc, addCommonHeader_eq]
    rfl
  rw [Exchange.Meets, Exchange.message, hmessage]
  exact target.run_parseGetRequest _

/-- **A response** is parsed back exactly if it has a content type in which its header does not
already end. -/
theorem meets_response_iff (paDest : Text) (status : Status) (content : Content) :
    (Exchange.response status content).Meets paDest ↔
      content.contentType ≠ [] ∧ ¬blankLine <:+: content.contentType ++ text "\r\n" := by
  have hmessage : createResponse status.line content.contentType content.body ++ [0] =
      status.line ++ contentHeader content ++ (content.body ++ [0]) := by
    rw [createResponse, addBodyToRequest_eq]
    simp only [List.append_assoc]
  rw [Exchange.Meets, Exchange.message, hmessage]
  by_cases htype : content.contentType = []
  · have hnothing : contentHeader content = [] := if_pos htype
    rw [hnothing, List.append_nil]
    exact iff_of_false (status.not_parsed content.body_string) fun h => h.1 htype
  · have hstart : text "\r\n" <+: contentHeader content := by
      rw [contentHeader, if_neg htype]
      exact List.prefix_append _ _
    have hsuffix := suffix_contentHeader htype
    have hne : contentHeader content ≠ [] := by
      intro hnil
      rw [hnil] at hsuffix
      exact absurd hsuffix (by decide)
    have hends : blankLine <:+ status.line ++ contentHeader content :=
      hsuffix.trans (List.suffix_append _ _)
    have hline : ¬blankLine <:+: status.line ++ text "\r\n" := by
      rw [infix_skip (status.not_mem_line (.inr (.inl rfl)))]
      decide
    rw [status.parsed_back_iff content.not_mem_contentHeader content.body_string hstart hsuffix,
      EndsHeader, and_iff_right hends, List.dropLast_append_of_ne_nil hne,
      infix_contentHeader htype, or_iff_right hline, and_iff_right htype]

/-- **What is built is parsed back** exactly if its header ends with its first blank line. -/
theorem Exchange.meets_iff_headerEnds (e : Exchange) (paDest : Text) :
    e.Meets paDest ↔ e.HeaderEnds := by
  cases e with
  | get target server => exact iff_of_true (meets_get paDest target server) trivial
  | put target server content => exact meets_put_iff paDest target server content
  | post target server content => exact meets_post_iff paDest target server content
  | response status content => exact meets_response_iff paDest status content

/-- The body `x` for the path `/`, without a content type, ends up behind the port. -/
theorem Exchange.not_meets_without_type :
    ¬(Exchange.put ⟨text "/", [], by decide, by decide, by decide⟩
      ⟨text "localhost", 80, [], by decide, by decide⟩
      ⟨[], text "x", by decide, by decide⟩).Meets [] := by
  rw [meets_put_iff]
  rintro ⟨-, hends⟩
  rw [if_pos rfl] at hends
  exact absurd hends.1 (by decide)

end HTTP

end Forte
