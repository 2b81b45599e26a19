import Mathlib.Logic.Function.Basic
import Forte.Datatypes.Numbers
import Forte.Lib.CString

/-!
# The packets of the HTTP server and of its clients

All packets are received into one buffer, `sRecvBuffer`, and for a client the packet is copied
into the buffer of its layer. The parsers work in the buffers, as on strings: nobody puts a
terminator behind a packet, and the length of the packet is not passed on. What is behind it in
the buffer has been left there by longer packets before, with the zeros that parsing has written.

Only a packet that tells the parser by itself where to stop is parsed for itself
(`Forte.HTTP.isolated_iff`): one with a zero in it, a GET request, or one that is not recognized.
A PUT or POST request and a response go on with what is behind them.
-/

namespace Forte

namespace HTTP

open Mem CString

/-- `ERequestType`. -/
inductive ERequestType
  | get | put | post | notSet
  deriving DecidableEq

/-- What is made of a request. -/
structure Request where
  noParsingError : Bool
  path : Text
  parameterNames : List Text
  parameterValues : List Text
  deriving DecidableEq

/-- What is made of a response. -/
structure Response where
  /-- Whether `handleHTTPResponse` returns `e_ProcessDataOk`. -/
  ok : Bool
  responseCode : Text
  output : Text
  deriving DecidableEq

/-! ### The parsers -/

/-- `getTypeOfRequest`. -/
def getTypeOfRequest : Mem UInt8 ERequestType := do
  if ← scan (startsWith (text "GET ")) 0 then
    pure .get
  else if ← scan (startsWith (text "PUT ")) 0 then
    pure .put
  else if ← scan (startsWith (text "POST ")) 0 then
    pure .post
  else
    pure .notSet

/-- The loop of `parseGETParameters`, from the beginning of a name on; without any parameters if
they have to be cleared. -/
def parametersLoop (startOfName : Text) : Option (Option (List (Text × Text)) × Text) :=
  if h : startOfName = [] then none
  else if startOfName.head h = 0 then some (some [], startOfName)
  else
    match strstr 0 (text "=") startOfName with
    | none => none
    | some none => some (none, startOfName)
    | some (some i) =>
      let startOfValue := startOfName.drop (i + 1)
      match strstr 0 (text "&") startOfValue with
      | none => none
      | some none =>
        (string 0 startOfValue).map fun value =>
          (some [(startOfName.take i, value)], startOfName.set i 0)
      | some (some j) =>
        (parametersLoop (startOfValue.drop (j + 1))).map fun (parameters, rest) =>
          (parameters.map ((startOfName.take i, startOfValue.take j) :: ·),
            startOfName.take i ++ 0 :: (startOfValue.take j ++ 0 :: rest))
termination_by startOfName.length
decreasing_by
  have hpos := List.length_pos_iff.mpr h
  rw [List.length_drop, List.length_drop]
  omega

/-- `parseGETParameters`. -/
def parseGETParameters : Mem UInt8 (List (Text × Text)) := do
  let parameters ← parametersLoop
  pure (parameters.getD [])

/-- The parameters behind the path of a GET request. -/
def parseGetParameters : Mem UInt8 (List (Text × Text)) := do
  match ← scan (strstr 0 (text "?")) 5 with
  | none => pure []
  | some startOfParameters => do
    write (5 + startOfParameters) 0
    within parseGETParameters (6 + startOfParameters)

/-- `parseGetRequest` from the search for parameters on. -/
def parseGetTarget : Mem UInt8 Request := do
  let parameters ← parseGetParameters
  let path ← scan (string 0) 4
  pure ⟨true, path, parameters.map Prod.fst, parameters.map Prod.snd⟩

/-- `parseGetRequest`. -/
def parseGetRequest : Mem UInt8 Request := do
  if ← scan (startsWith (text "GET ")) 0 then
    match ← scan (strstr 0 (text " ")) 4 with
    | none => pure ⟨false, [], [], []⟩
    | some endOfPath => do
      write (4 + endOfPath) 0
      parseGetTarget
  else
    pure ⟨false, [], [], []⟩

/-- `parsePutPostRequest` behind the first word. -/
def parsePutPostTarget (paData : ℕ) : Mem UInt8 Request := do
  match ← scan (strstr 0 (text " ")) paData with
  | none => pure ⟨false, [], [], [[]]⟩
  | some endOfPath => do
    write (paData + endOfPath) 0
    let path ← scan (string 0) paData
    match ← scan (strstr 0 (text "\r\n\r\n")) (paData + endOfPath + 1) with
    | none => pure ⟨false, path, [], [[]]⟩
    | some content => do
      let content ← scan (string 0) (paData + endOfPath + 1 + content + 4)
      pure ⟨true, path, [], [content]⟩

/-- `parsePutPostRequest`. -/
def parsePutPostRequest : Mem UInt8 Request := do
  if ← scan (startsWith (text "PUT ")) 0 then
    parsePutPostTarget 4
  else if ← scan (startsWith (text "POST ")) 0 then
    parsePutPostTarget 5
  else
    pure ⟨false, [], [], [[]]⟩

/-- The part of `recvServers` that parses. -/
def parseRequest : Mem UInt8 Request := do
  match ← getTypeOfRequest with
  | .get => parseGetRequest
  | .put => parsePutPostRequest
  | .post => parsePutPostRequest
  | .notSet => pure ⟨false, [], [], []⟩

/-- `parseParameters` of a `CParameterParser` with the separator ` `, for which nothing is
trimmed. -/
def parseParameters : Text → List Text
  | [] => [[]]
  | c :: t =>
    if c = ' '.toUInt8 then [] :: parseParameters t
    else (parseParameters t).modifyHead (c :: ·)

/-- `parseResponse`, with `getHttpResponseCode`, which puts the end of the line back only if it
has found a code. -/
def parseResponse : Mem UInt8 Response := do
  match ← scan (strstr 0 (text "\r\n")) 0 with
  | none => pure ⟨false, [], []⟩
  | some helperChar => do
    write helperChar 0
    let statusLine ← scan (string 0) 0
    let parser := parseParameters statusLine
    if 3 ≤ parser.length then
      write helperChar '\r'.toUInt8
      match ← scan (strstr 0 (text "\r\n\r\n")) 0 with
      | none => pure ⟨true, parser.getD 1 [], []⟩
      | some helperChar => do
        let body ← scan (string 0) (helperChar + 4)
        pure ⟨true, parser.getD 1 [], body⟩
    else
      pure ⟨false, [], []⟩

/-! ### Receiving -/

/-- What `receiveDataFromTCP` has received: something that is not longer than the buffer. -/
structure Packet (cgIPLayerRecvBufferSize : ℕ) where
  bytes : Text
  ne_nil : bytes ≠ []
  length_le : bytes.length ≤ cgIPLayerRecvBufferSize

/-- The buffers of the handler and of the layers of its clients. -/
structure Buffers (Layer : Type) where
  sRecvBuffer : Text
  mRecvBuffer : Layer → Text

/-- Who a packet is for. -/
inductive Receiver (Layer : Type)
  | server
  /-- A client that is waiting for a response. -/
  | client (layer : Layer)
  deriving DecidableEq

/-- What is extracted from a packet. -/
abbrev Extracted : Type := Request ⊕ Response

/-- The parser for a packet. -/
def Receiver.parse {Layer : Type} : Receiver Layer → Mem UInt8 Extracted
  | server => Sum.inl <$> parseRequest
  | client _ => Sum.inr <$> parseResponse

/-- A packet at the beginning of a buffer, with what is left behind it. -/
def received (packet buffer : Text) : Text := packet ++ buffer.drop packet.length

variable {Layer : Type} [DecidableEq Layer] {cgIPLayerRecvBufferSize : ℕ}

/-- `recvData` of the handler, and for a client of its layer. Where a parser runs off the buffer
there is no result. -/
def recvData (b : Buffers Layer) (packet : Packet cgIPLayerRecvBufferSize) :
    Receiver Layer → Option Extracted × Buffers Layer
  | .server =>
    let sRecvBuffer := received packet.bytes b.sRecvBuffer
    match (Receiver.server : Receiver Layer).parse.run sRecvBuffer with
    | none => (none, { b with sRecvBuffer := sRecvBuffer })
    | some (extracted, sRecvBuffer) => (some extracted, { b with sRecvBuffer := sRecvBuffer })
  | .client layer =>
    let b := { b with sRecvBuffer := received packet.bytes b.sRecvBuffer }
    let mRecvBuffer := received packet.bytes (b.mRecvBuffer layer)
    match (Receiver.client layer).parse.run mRecvBuffer with
    | none => (none, { b with mRecvBuffer := Function.update b.mRecvBuffer layer mRecvBuffer })
    | some (extracted, mRecvBuffer) =>
      (some extracted, { b with mRecvBuffer := Function.update b.mRecvBuffer layer mRecvBuffer })

/-- The buffers behind a history of packets. -/
def after (history : List (Receiver Layer × Packet cgIPLayerRecvBufferSize)) : Buffers Layer :=
  history.foldl (fun b (receiver, packet) => (recvData b packet receiver).2)
    ⟨List.replicate cgIPLayerRecvBufferSize 0, fun _ => List.replicate cgIPLayerRecvBufferSize 0⟩

/-! ### What is asked of receiving -/

/-- **What is asked of receiving a packet**: what is extracted is the same behind any two
histories, and the parser stays within the packet, so that it has a result where the memory ends
with it. -/
structure Isolated (receiver : Receiver Layer) (packet : Packet cgIPLayerRecvBufferSize) :
    Prop where
  same : ∀ history history' : List (Receiver Layer × Packet cgIPLayerRecvBufferSize),
    (recvData (after history) packet receiver).1 = (recvData (after history') packet receiver).1
  within : receiver.parse.run packet.bytes ≠ none

/-- **A request that ends by itself**: there is a zero in it, or it is a GET request with a path
and a blank behind that, or it differs from the three words that are recognized. -/
def EndedRequest (t : Text) : Prop :=
  0 ∈ t ∨
    (∃ path rest, t = text "GET " ++ (path ++ ' '.toUInt8 :: rest) ∧ path ≠ [] ∧
      ' '.toUInt8 ∉ path) ∨
    ∀ word ∈ [text "GET ", text "PUT ", text "POST "], ¬t <+: word ∧ ¬word <+: t

/-- **A response that ends by itself**: there is a zero in it, or its first line has less than
two blanks, and so no code. -/
def EndedResponse (t : Text) : Prop :=
  0 ∈ t ∨ ∃ i, text "\r\n" <+: t.drop i ∧ (∀ j < i, ¬text "\r\n" <+: t.drop j) ∧
    (t.take i).count ' '.toUInt8 < 2

/-- A packet that ends by itself. -/
def Ended (packet : Packet cgIPLayerRecvBufferSize) : Receiver Layer → Prop
  | .server => EndedRequest packet.bytes
  | .client _ => EndedResponse packet.bytes

/-! ### The parsers are local -/

theorem local_startsWith (word : Text) (pos : ℕ) :
    Local (scan (startsWith word : Text → Option Bool) pos) :=
  @Local.scan _ _ (startsWith word) (fun _ _ h rest => startsWith_append h rest) pos

theorem local_strstr (word : Text) (pos : ℕ) : Local (scan (strstr 0 word) pos) :=
  @Local.scan _ _ (strstr 0 word) (fun _ _ h rest => strstr_append h rest) pos

theorem local_string (pos : ℕ) : Local (scan (string (0 : UInt8)) pos) :=
  @Local.scan _ _ (string 0) (fun _ _ h rest => string_append h rest) pos

theorem local_parametersLoop : Local parametersLoop := by
  intro m
  induction hn : m.length using Nat.strongRecOn generalizing m with
  | ind n ih =>
    intro parameters m' h rest
    change parametersLoop m = some (parameters, m') at h
    change parametersLoop (m ++ rest) = some (parameters, m' ++ rest)
    rw [parametersLoop] at h ⊢
    split at h
    · exact absurd h nofun
    rename_i hne
    rw [dif_neg (List.append_ne_nil_of_left_ne_nil hne rest), List.head_append_of_ne_nil hne]
    split at h
    · rename_i hend
      rw [if_pos hend]
      obtain ⟨rfl, rfl⟩ := Prod.mk.inj (Option.some.inj h)
      rfl
    rename_i hgo
    rw [if_neg hgo]
    rcases hname : strstr 0 (text "=") m with _ | _ | i
    · rw [hname] at h
      exact absurd h nofun
    · rw [hname] at h
      rw [strstr_append hname]
      obtain ⟨rfl, rfl⟩ := Prod.mk.inj (Option.some.inj h)
      rfl
    · have hi := add_length_le_of_strstr (by decide) hname
      have hi' : i + 1 ≤ m.length := hi
      rw [hname] at h
      rw [strstr_append hname]
      dsimp only at h ⊢
      rw [List.drop_append_of_le_length hi', List.take_append_of_le_length (by omega)]
      rcases hvalue : strstr 0 (text "&") (m.drop (i + 1)) with _ | _ | j
      · rw [hvalue] at h
        exact absurd h nofun
      · rw [hvalue] at h
        rw [strstr_append hvalue]
        obtain ⟨value, hstring, heq⟩ := Option.map_eq_some_iff.mp h
        obtain ⟨rfl, rfl⟩ := Prod.mk.inj heq
        dsimp only
        rw [string_append hstring, List.set_append_left _ _ (by omega)]
        rfl
      · have hj := add_length_le_of_strstr (by decide) hvalue
        have hj' : j + 1 ≤ (m.drop (i + 1)).length := hj
        rw [hvalue] at h
        rw [strstr_append hvalue]
        dsimp only at h ⊢
        rw [List.drop_append_of_le_length hj', List.take_append_of_le_length (by omega)]
        obtain ⟨⟨parameters', m''⟩, hrest, heq⟩ := Option.map_eq_some_iff.mp h
        obtain ⟨rfl, rfl⟩ := Prod.mk.inj heq
        have hshort : ((m.drop (i + 1)).drop (j + 1)).length < n := by
          rw [List.length_drop, List.length_drop]
          omega
        have hloop := ih _ hshort rfl hrest rest
        change parametersLoop _ = _ at hloop
        rw [hloop]
        simp

theorem local_parseGETParameters : Local parseGETParameters :=
  local_parametersLoop.bind fun _ => Local.pure _

theorem local_parseGetTarget : Local parseGetTarget := by
  have hparameters : Local parseGetParameters := by
    refine (local_strstr _ _).bind fun startOfParameters => ?_
    cases startOfParameters with
    | none => exact Local.pure _
    | some startOfParameters =>
      exact (Local.write _ _).bind fun _ => local_parseGETParameters.within _
  exact hparameters.bind fun _ => (local_string _).bind fun _ => Local.pure _

theorem local_parseGetRequest : Local parseGetRequest := by
  refine (local_startsWith _ _).bind fun _ => Local.ite ?_ (Local.pure _)
  refine (local_strstr _ _).bind fun endOfPath => ?_
  cases endOfPath with
  | none => exact Local.pure _
  | some endOfPath => exact (Local.write _ _).bind fun _ => local_parseGetTarget

theorem local_parsePutPostTarget (paData : ℕ) : Local (parsePutPostTarget paData) := by
  refine (local_strstr _ _).bind fun endOfPath => ?_
  cases endOfPath with
  | none => exact Local.pure _
  | some endOfPath =>
    refine (Local.write _ _).bind fun _ => (local_string _).bind fun path => ?_
    refine (local_strstr _ _).bind fun content => ?_
    cases content with
    | none => exact Local.pure _
    | some content => exact (local_string _).bind fun _ => Local.pure _

/-- **What is made of a request that ends within a block** is not changed by what is behind the
block. -/
theorem local_parseRequest : Local parseRequest := by
  have htype : Local getTypeOfRequest := by
    refine (local_startsWith _ _).bind fun _ => Local.ite (Local.pure _) ?_
    refine (local_startsWith _ _).bind fun _ => Local.ite (Local.pure _) ?_
    exact (local_startsWith _ _).bind fun _ => Local.ite (Local.pure _) (Local.pure _)
  have hputPost : Local parsePutPostRequest := by
    refine (local_startsWith _ _).bind fun _ => Local.ite (local_parsePutPostTarget _) ?_
    exact (local_startsWith _ _).bind fun _ =>
      Local.ite (local_parsePutPostTarget _) (Local.pure _)
  refine htype.bind fun requestType => ?_
  cases requestType with
  | get => exact local_parseGetRequest
  | put => exact hputPost
  | post => exact hputPost
  | notSet => exact Local.pure _

theorem local_parseResponse : Local parseResponse := by
  refine (local_strstr _ _).bind fun endOfLine => ?_
  cases endOfLine with
  | none => exact Local.pure _
  | some endOfLine =>
    refine (Local.write _ _).bind fun _ => (local_string _).bind fun statusLine => ?_
    refine Local.ite ((Local.write _ _).bind fun _ => ?_) (Local.pure _)
    refine (local_strstr _ _).bind fun helperChar => ?_
    cases helperChar with
    | none => exact Local.pure _
    | some helperChar => exact (local_string _).bind fun _ => Local.pure _

theorem Receiver.local_parse {Layer : Type} (receiver : Receiver Layer) :
    Local receiver.parse := by
  cases receiver with
  | server => exact local_parseRequest.bind fun _ => Local.pure _
  | client layer => exact local_parseResponse.bind fun _ => Local.pure _

/-! ### Where the parsers run off the block -/

/-- The loop over the parameters ends in a string, and only there. -/
theorem parametersLoop_eq_none_iff (m : Text) : parametersLoop m = none ↔ 0 ∉ m := by
  induction hn : m.length using Nat.strongRecOn generalizing m with
  | ind n ih =>
    rw [parametersLoop]
    split
    · rename_i hnil
      exact iff_of_true rfl (hnil ▸ List.not_mem_nil)
    rename_i hne
    split
    · rename_i hend
      exact iff_of_false nofun fun h => h (hend ▸ List.head_mem hne)
    rcases hname : strstr 0 (text "=") m with _ | _ | i
    · exact iff_of_true rfl ((strstr_eq_none_iff (by decide) (by decide)).mp hname).1
    · exact iff_of_false nofun fun h => h (nul_mem_of_strstr hname)
    · have hbehind : 0 ∈ m.drop (i + 1) ↔ 0 ∈ m :=
        nul_mem_drop_iff_of_strstr (by decide) (by decide) hname
      dsimp only
      rw [← hbehind]
      rcases hvalue : strstr 0 (text "&") (m.drop (i + 1)) with _ | _ | j
      · exact iff_of_true rfl ((strstr_eq_none_iff (by decide) (by decide)).mp hvalue).1
      · rw [Option.map_eq_none_iff, string_eq_none_iff]
      · have hbehind' : 0 ∈ (m.drop (i + 1)).drop (j + 1) ↔ 0 ∈ m.drop (i + 1) :=
          nul_mem_drop_iff_of_strstr (by decide) (by decide) hvalue
        have hpos := List.length_pos_iff.mpr hne
        rw [← hbehind']
        dsimp only
        rw [Option.map_eq_none_iff]
        refine ih _ ?_ _ rfl
        rw [List.length_drop, List.length_drop]
        omega

theorem run_parseGETParameters_eq_none_iff (m : Text) :
    parseGETParameters.run m = none ↔ 0 ∉ m := by
  rw [← parametersLoop_eq_none_iff, parseGETParameters]
  rcases h : parametersLoop m with _ | ⟨parameters, m'⟩
  · exact iff_of_true (run_bind_of_eq_none h _) rfl
  · refine iff_of_false ?_ nofun
    rw [run_bind_of_eq_some h]
    exact nofun

theorem drop_set_of_le {m : Text} {i j : ℕ} (h : i < j) (c : UInt8) :
    (m.set i c).drop j = m.drop j :=
  List.drop_set_of_lt h

/-- What has been written is there. -/
theorem mem_drop_set {m : Text} {i j : ℕ} (h : j ≤ i) (hi : i < m.length) (c : UInt8) :
    c ∈ (m.set i c).drop j := by
  rw [List.mem_drop_iff_getElem]
  refine ⟨i - j, by rw [List.length_set]; omega, ?_⟩
  simp [Nat.add_sub_cancel' h]

/-- The parameters of a GET request, where its path ends behind the first character. -/
theorem run_parseGetParameters {m : Text} (h : 0 ∈ m.drop 5) :
    ∃ parameters m', parseGetParameters.run m = some (parameters, m') ∧ 0 ∈ m'.drop 4 := by
  have hmem : 0 ∈ m.drop 4 := by
    rw [show (5 : ℕ) = 4 + 1 from rfl, ← List.drop_drop] at h
    exact List.mem_of_mem_drop h
  rw [parseGetParameters]
  rcases hfound : strstr 0 (text "?") (m.drop 5) with _ | _ | j
  · exact absurd h ((strstr_eq_none_iff (by decide) (by decide)).mp hfound).1
  · rw [run_scan_bind hfound]
    exact ⟨[], m, rfl, hmem⟩
  · have hlength : j + 1 ≤ (m.drop 5).length := add_length_le_of_strstr (by decide) hfound
    rw [List.length_drop] at hlength
    have hbehind : 0 ∈ (m.drop 5).drop (j + 1) :=
      (nul_mem_drop_iff_of_strstr (by decide) (by decide) hfound).mpr h
    rw [run_scan_bind hfound]
    dsimp only
    rw [run_write_bind (by omega), run_within (by rw [List.length_set]; omega),
      drop_set_of_le (by omega)]
    rw [List.drop_drop, show 5 + (j + 1) = 6 + j by omega] at hbehind
    obtain ⟨⟨parameters, rest⟩, hrun⟩ := Option.ne_none_iff_exists'.mp
      (mt (run_parseGETParameters_eq_none_iff _).mp (not_not_intro hbehind))
    rw [hrun]
    refine ⟨parameters, _, rfl, ?_⟩
    rw [List.drop_append]
    refine List.mem_append_left _ ?_
    rw [List.mem_drop_iff_getElem]
    refine ⟨j + 1, by rw [List.length_take, List.length_set]; omega, ?_⟩
    simp [show 4 + (j + 1) = 5 + j by omega]

theorem run_parseGetTarget_eq_none_iff (m : Text) :
    parseGetTarget.run m = none ↔ 0 ∉ m.drop 5 := by
  rw [parseGetTarget]
  by_cases hmem : 0 ∈ m.drop 5
  · refine iff_of_false ?_ (not_not_intro hmem)
    obtain ⟨parameters, m', hrun, hmem'⟩ := run_parseGetParameters hmem
    obtain ⟨path, hpath⟩ := Option.ne_none_iff_exists'.mp
      (mt (@string_eq_none_iff _ _ (0 : UInt8) _).mp (not_not_intro hmem'))
    rw [run_bind_of_eq_some hrun, run_scan_bind hpath]
    exact nofun
  · refine iff_of_true ?_ hmem
    have hnone : parseGetParameters.run m = none := by
      rw [parseGetParameters]
      rcases hfound : strstr 0 (text "?") (m.drop 5) with _ | _ | j
      · exact run_scan_bind_eq_none hfound _
      · exact absurd (nul_mem_of_strstr hfound) hmem
      · have hlength : j + 1 ≤ (m.drop 5).length := add_length_le_of_strstr (by decide) hfound
        rw [List.length_drop] at hlength
        rw [run_scan_bind hfound]
        dsimp only
        rw [run_write_bind (by omega), run_within (by rw [List.length_set]; omega),
          drop_set_of_le (by omega), Option.map_eq_none_iff, run_parseGETParameters_eq_none_iff]
        rw [show 6 + j = 5 + (j + 1) by omega, ← List.drop_drop]
        exact fun h => hmem (List.mem_of_mem_drop h)
    exact run_bind_of_eq_none hnone _

/-- **A GET request** runs off the block without a zero in it if no blank is behind its path, or
no path in front of the blank. -/
theorem run_parseGetRequest_eq_none_iff (t : Text) :
    parseGetRequest.run (text "GET " ++ t) = none ↔
      0 ∉ t ∧ ¬∃ path rest, t = path ++ ' '.toUInt8 :: rest ∧ path ≠ [] ∧ ' '.toUInt8 ∉ path := by
  have hstart : startsWith (text "GET ") ((text "GET " ++ t).drop 0) = some true :=
    startsWith_eq_true_iff.mpr (List.prefix_append _ t)
  have hdrop : (text "GET " ++ t).drop 4 = t := @List.drop_left _ (text "GET ") t
  rw [parseGetRequest, run_scan_bind hstart, if_pos rfl]
  rcases hfound : strstr 0 (text " ") t with _ | _ | k
  · obtain ⟨hnul, hblank⟩ := (strstr_eq_none_iff (by decide) (by decide)).mp hfound
    refine iff_of_true (run_scan_bind_eq_none (hdrop.symm ▸ hfound) _) ⟨hnul, ?_⟩
    rintro ⟨path, rest, rfl, -, -⟩
    exact hblank path.length (List.drop_left.symm ▸ ⟨rest, rfl⟩)
  · rw [run_scan_bind (hdrop.symm ▸ hfound)]
    exact iff_of_false nofun fun h => h.1 (nul_mem_of_strstr hfound)
  · obtain ⟨path, rest, rfl, hblank, hnul, rfl⟩ :=
      (strstr_singleton_iff (c := ' '.toUInt8)).mp hfound
    have hlength : 4 + path.length <
        (text "GET " ++ (path ++ ' '.toUInt8 :: rest)).length := by
      rw [List.length_append, List.length_append, List.length_cons]
      exact Nat.add_lt_add_left (by omega) 4
    rw [run_scan_bind (hdrop.symm ▸ hfound)]
    dsimp only
    rw [run_write_bind hlength, run_parseGetTarget_eq_none_iff]
    rcases eq_or_ne path [] with rfl | hne
    · rw [drop_set_of_le (by decide)]
      have hrest : 0 ∉ ' '.toUInt8 :: rest ↔ 0 ∉ rest :=
        not_congr (List.mem_cons.trans (or_iff_right (by decide)))
      change 0 ∉ rest ↔ 0 ∉ ' '.toUInt8 :: rest ∧ _
      rw [hrest]
      refine (and_iff_left ?_).symm
      rintro ⟨path, rest', heq, hne, hmem⟩
      obtain ⟨c, path, rfl⟩ := List.exists_cons_of_ne_nil hne
      exact hmem ((List.cons.inj heq).1 ▸ List.mem_cons_self)
    · have hpos := List.length_pos_iff.mpr hne
      refine iff_of_false (not_not_intro (mem_drop_set (by omega) hlength 0)) fun h => h.2 ?_
      exact ⟨path, rest, rfl, hne, hblank⟩

/-- **A PUT or POST request** runs off the block without a zero in it. -/
theorem run_parsePutPostTarget_eq_none_iff (paData : ℕ) (m : Text) :
    (parsePutPostTarget paData).run m = none ↔ 0 ∉ m.drop paData := by
  rw [parsePutPostTarget]
  rcases hpath : strstr 0 (text " ") (m.drop paData) with _ | _ | k
  · exact iff_of_true (run_scan_bind_eq_none hpath _)
      ((strstr_eq_none_iff (by decide) (by decide)).mp hpath).1
  · rw [run_scan_bind hpath]
    exact iff_of_false nofun fun h => h (nul_mem_of_strstr hpath)
  · have hlength : k + 1 ≤ (m.drop paData).length := add_length_le_of_strstr (by decide) hpath
    rw [List.length_drop] at hlength
    have hbehind : 0 ∈ (m.drop paData).drop (k + 1) ↔ 0 ∈ m.drop paData :=
      nul_mem_drop_iff_of_strstr (by decide) (by decide) hpath
    have hdrop : (m.set (paData + k) 0).drop (paData + k + 1) = (m.drop paData).drop (k + 1) := by
      rw [drop_set_of_le (by omega), List.drop_drop]
      rfl
    obtain ⟨path, hstring⟩ := Option.ne_none_iff_exists'.mp
      (mt (@string_eq_none_iff _ _ (0 : UInt8) _).mp
        (not_not_intro (mem_drop_set (m := m) (Nat.le_add_right paData k) (by omega) 0)))
    rw [run_scan_bind hpath]
    dsimp only
    rw [run_write_bind (by omega), run_scan_bind hstring, ← hbehind]
    rcases hcontent : strstr 0 (text "\r\n\r\n") ((m.drop paData).drop (k + 1)) with _ | _ | c
    · exact iff_of_true (run_scan_bind_eq_none (hdrop.symm ▸ hcontent) _)
        ((strstr_eq_none_iff (by decide) (by decide)).mp hcontent).1
    · rw [run_scan_bind (hdrop.symm ▸ hcontent)]
      exact iff_of_false nofun fun h => h (nul_mem_of_strstr hcontent)
    · have hbehind' : 0 ∈ ((m.drop paData).drop (k + 1)).drop (c + 4) ↔
          0 ∈ (m.drop paData).drop (k + 1) :=
        nul_mem_drop_iff_of_strstr (by decide) (by decide) hcontent
      rw [run_scan_bind (hdrop.symm ▸ hcontent), ← hbehind']
      have hdrop' : (m.set (paData + k) 0).drop (paData + k + 1 + c + 4) =
          ((m.drop paData).drop (k + 1)).drop (c + 4) := by
        rw [← hdrop, List.drop_drop]
        rfl
      dsimp only
      rcases hstring' : string 0 (((m.drop paData).drop (k + 1)).drop (c + 4)) with _ | content
      · exact iff_of_true (run_scan_bind_eq_none (hdrop'.symm ▸ hstring') _)
          (string_eq_none_iff.mp hstring')
      · rw [run_scan_bind (hdrop'.symm ▸ hstring')]
        refine iff_of_false nofun fun h => ?_
        exact nomatch hstring'.symm.trans (string_eq_none_iff.mpr h)

/-- A beginning of a word that is recognized does not end by itself. -/
theorem not_endedRequest_of_beginning {t word : Text}
    (hword : word ∈ [text "GET ", text "PUT ", text "POST "]) (h : t <+: word) (hne : t ≠ word) :
    ¬EndedRequest t := by
  have hall : ∀ word ∈ [text "GET ", text "PUT ", text "POST "],
      (0 : UInt8) ∉ word ∧ word.length ≤ 5 := by decide
  rintro (hnul | ⟨path, rest, rfl, hpath, -⟩ | hother)
  · exact (hall word hword).1 (h.subset hnul)
  · have hle := h.length_le.trans (hall word hword).2
    have hpos := List.length_pos_iff.mpr hpath
    rw [List.length_append, List.length_append, List.length_cons] at hle
    have hget : (text "GET ").length = 4 := rfl
    omega
  · exact (hother word hword).1 h

/-- A PUT or POST request only ends by itself with a zero in it. -/
theorem endedRequest_append_iff {word : Text} (hword : word ∈ [text "PUT ", text "POST "])
    (t : Text) : EndedRequest (word ++ t) ↔ 0 ∈ t := by
  have hall : ∀ word ∈ [text "PUT ", text "POST "],
      (0 : UInt8) ∉ word ∧ word.head? ≠ (text "GET ").head? ∧ word ≠ [] := by decide
  obtain ⟨hnul, hhead, hne⟩ := hall word hword
  refine ⟨?_, fun h => .inl (List.mem_append_right _ h)⟩
  rintro (hmem | ⟨path, rest, heq, -, -⟩ | hother)
  · exact (List.mem_append.mp hmem).resolve_left hnul
  · have hfirst := congrArg List.head? heq
    rw [List.head?_append_of_ne_nil _ hne] at hfirst
    exact absurd hfirst hhead
  · exact absurd (List.prefix_append word t) (hother word (List.mem_cons_of_mem _ hword)).2

theorem endedRequest_get_iff (t : Text) :
    EndedRequest (text "GET " ++ t) ↔
      0 ∈ t ∨ ∃ path rest, t = path ++ ' '.toUInt8 :: rest ∧ path ≠ [] ∧ ' '.toUInt8 ∉ path := by
  constructor
  · rintro (hmem | ⟨path, rest, heq, hpath⟩ | hother)
    · exact .inl ((List.mem_append.mp hmem).resolve_left (by decide))
    · exact .inr ⟨path, rest, List.append_cancel_left heq, hpath⟩
    · exact absurd (List.prefix_append _ t) (hother _ List.mem_cons_self).2
  · rintro (hmem | ⟨path, rest, rfl, hpath⟩)
    · exact .inl (List.mem_append_right _ hmem)
    · exact .inr (.inl ⟨path, rest, rfl, hpath⟩)

/-- What `recvServers` makes of a request of a known type. -/
theorem run_parseRequest_of_type {t : Text} {requestType : ERequestType}
    (h : getTypeOfRequest.run t = some (requestType, t)) :
    parseRequest.run t =
      match requestType with
      | .get => parseGetRequest.run t
      | .put => parsePutPostRequest.run t
      | .post => parsePutPostRequest.run t
      | .notSet => some (⟨false, [], [], []⟩, t) := by
  rw [parseRequest, run_bind_of_eq_some h]
  cases requestType <;> rfl

/-- **A request runs off a block that ends with it exactly if it does not end by itself.** -/
theorem run_parseRequest_eq_none_iff (t : Text) :
    parseRequest.run t = none ↔ ¬EndedRequest t := by
  rcases hget : startsWith (text "GET ") t with _ | _ | _
  · obtain ⟨hpre, hne⟩ := startsWith_eq_none_iff.mp hget
    have hnone : getTypeOfRequest.run t = none := run_scan_zero_bind_eq_none hget _
    exact iff_of_true (run_bind_of_eq_none hnone _)
      (not_endedRequest_of_beginning (by decide) hpre hne)
  · rcases hput : startsWith (text "PUT ") t with _ | _ | _
    · obtain ⟨hpre, hne⟩ := startsWith_eq_none_iff.mp hput
      have hnone : getTypeOfRequest.run t = none :=
        (run_scan_zero_bind hget _).trans (run_scan_zero_bind_eq_none hput _)
      exact iff_of_true (run_bind_of_eq_none hnone _)
        (not_endedRequest_of_beginning (by decide) hpre hne)
    · rcases hpost : startsWith (text "POST ") t with _ | _ | _
      · obtain ⟨hpre, hne⟩ := startsWith_eq_none_iff.mp hpost
        have hnone : getTypeOfRequest.run t = none :=
          (run_scan_zero_bind hget _).trans
            ((run_scan_zero_bind hput _).trans (run_scan_zero_bind_eq_none hpost _))
        exact iff_of_true (run_bind_of_eq_none hnone _)
          (not_endedRequest_of_beginning (by decide) hpre hne)
      · have hnotSet : getTypeOfRequest.run t = some (.notSet, t) :=
          (run_scan_zero_bind hget _).trans
            ((run_scan_zero_bind hput _).trans (run_scan_zero_bind hpost _))
        rw [run_parseRequest_of_type hnotSet]
        refine iff_of_false nofun (not_not_intro (.inr (.inr fun word hword => ?_)))
        simp only [List.mem_cons, List.not_mem_nil, or_false] at hword
        rcases hword with rfl | rfl | rfl
        · exact startsWith_eq_false_iff.mp hget
        · exact startsWith_eq_false_iff.mp hput
        · exact startsWith_eq_false_iff.mp hpost
      · have hposted : getTypeOfRequest.run t = some (.post, t) :=
          (run_scan_zero_bind hget _).trans
            ((run_scan_zero_bind hput _).trans (run_scan_zero_bind hpost _))
        have htarget : parsePutPostRequest.run t = (parsePutPostTarget 5).run t :=
          (run_scan_zero_bind hput _).trans (run_scan_zero_bind hpost _)
        obtain ⟨rest, rfl⟩ := startsWith_eq_true_iff.mp hpost
        rw [run_parseRequest_of_type hposted]
        dsimp only
        rw [htarget, run_parsePutPostTarget_eq_none_iff, endedRequest_append_iff (by decide)]
        rfl
    · have hputted : getTypeOfRequest.run t = some (.put, t) :=
        (run_scan_zero_bind hget _).trans (run_scan_zero_bind hput _)
      have htarget : parsePutPostRequest.run t = (parsePutPostTarget 4).run t :=
        run_scan_zero_bind hput _
      obtain ⟨rest, rfl⟩ := startsWith_eq_true_iff.mp hput
      rw [run_parseRequest_of_type hputted]
      dsimp only
      rw [htarget, run_parsePutPostTarget_eq_none_iff, endedRequest_append_iff (by decide)]
      rfl
  · have hgot : getTypeOfRequest.run t = some (.get, t) := run_scan_zero_bind hget _
    obtain ⟨rest, rfl⟩ := startsWith_eq_true_iff.mp hget
    rw [run_parseRequest_of_type hgot]
    dsimp only
    rw [run_parseGetRequest_eq_none_iff, endedRequest_get_iff, not_or]

theorem length_parseParameters (t : Text) :
    (parseParameters t).length = t.count ' '.toUInt8 + 1 := by
  induction t with
  | nil => rfl
  | cons c t ih =>
    rw [parseParameters, List.count_cons]
    split
    · rename_i heq
      rw [List.length_cons, ih, heq, beq_self_eq_true, if_pos rfl]
    · rename_i hne
      rw [List.length_modifyHead, ih, beq_false_of_ne hne, if_neg Bool.false_ne_true]

/-- **A response runs off a block that ends with it exactly if it does not end by itself.** -/
theorem run_parseResponse_eq_none_iff (t : Text) :
    parseResponse.run t = none ↔ ¬EndedResponse t := by
  rw [parseResponse]
  rcases hline : strstr 0 (text "\r\n") t with _ | _ | i
  · obtain ⟨hnul, hnone⟩ := (strstr_eq_none_iff (by decide) (by decide)).mp hline
    refine iff_of_true (run_scan_zero_bind_eq_none hline _) ?_
    rintro (hmem | ⟨i, hplace, -⟩)
    · exact hnul hmem
    · exact hnone i hplace
  · rw [run_scan_zero_bind hline]
    exact iff_of_false nofun (not_not_intro (.inl (nul_mem_of_strstr hline)))
  · obtain ⟨hplace, hstring, hfirst⟩ := (strstr_eq_some_iff (by decide)).mp hline
    have hlength : i + 2 ≤ t.length := add_length_le_of_strstr (by decide) hline
    have hsplit : t.set i 0 = t.take i ++ 0 :: t.drop (i + 1) :=
      List.set_eq_take_append_cons_drop.trans (if_pos (by omega))
    have hstatus : string 0 ((t.set i 0).drop 0) = some (t.take i) := by
      rw [List.drop_zero, hsplit]
      exact string_append_cons hstring _
    -- the first character of the end of the line is put back
    have hback : (t.set i 0).set i '\r'.toUInt8 = t := by
      have hlt : i < t.length := by omega
      have hget : t[i] = '\r'.toUInt8 := by
        obtain ⟨rest, hrest⟩ := hplace
        have hhead := congrArg List.head? hrest
        rw [List.head?_drop] at hhead
        exact (List.getElem?_eq_some_iff.mp hhead.symm).2
      rw [List.set_set, ← hget, List.set_getElem_self]
    rw [run_scan_zero_bind hline]
    dsimp only
    rw [run_write_bind (by omega), run_scan_bind hstatus, length_parseParameters]
    split
    · rename_i hcode
      have hnot : EndedResponse t ↔ 0 ∈ t := by
        refine or_iff_left ?_
        rintro ⟨j, hplace', hfirst', hcount⟩
        have hsame : i = j := by
          rcases lt_trichotomy i j with hlt | heq | hlt
          · exact absurd hplace (hfirst' i hlt)
          · exact heq
          · exact absurd hplace' (hfirst j hlt)
        subst hsame
        omega
      rw [run_write_bind (by rw [List.length_set]; omega), hback, hnot]
      rcases hbody : strstr 0 (text "\r\n\r\n") t with _ | _ | j
      · exact iff_of_true (run_scan_zero_bind_eq_none hbody _)
          ((strstr_eq_none_iff (by decide) (by decide)).mp hbody).1
      · rw [run_scan_zero_bind hbody]
        exact iff_of_false nofun (not_not_intro (nul_mem_of_strstr hbody))
      · have hbehind : 0 ∈ t.drop (j + 4) ↔ 0 ∈ t :=
          nul_mem_drop_iff_of_strstr (by decide) (by decide) hbody
        rw [run_scan_zero_bind hbody, ← hbehind]
        dsimp only
        rcases hstring' : string 0 (t.drop (j + 4)) with _ | body
        · exact iff_of_true (run_scan_bind_eq_none hstring' _) (string_eq_none_iff.mp hstring')
        · rw [run_scan_bind hstring']
          refine iff_of_false nofun (not_not_intro ?_)
          by_contra hnone
          exact nomatch hstring'.symm.trans (string_eq_none_iff.mpr hnone)
    · rename_i hcode
      refine iff_of_false nofun (not_not_intro (.inr ⟨i, hplace, hfirst, by omega⟩))

/-! ### Receiving -/

omit [DecidableEq Layer] in
theorem Receiver.run_parse_eq_none_iff (receiver : Receiver Layer)
    (packet : Packet cgIPLayerRecvBufferSize) :
    receiver.parse.run packet.bytes = none ↔ ¬Ended packet receiver := by
  cases receiver with
  | server =>
    rw [Ended, ← run_parseRequest_eq_none_iff, parse, StateT.run_map]
    exact Option.map_eq_none_iff
  | client layer =>
    rw [Ended, ← run_parseResponse_eq_none_iff, parse, StateT.run_map]
    exact Option.map_eq_none_iff

/-- **What is extracted where the parser stays within the packet** does not depend on the
buffers. -/
theorem recvData_of_run {receiver : Receiver Layer} {packet : Packet cgIPLayerRecvBufferSize}
    {extracted : Extracted} {m : Text}
    (h : receiver.parse.run packet.bytes = some (extracted, m)) (b : Buffers Layer) :
    (recvData b packet receiver).1 = some extracted := by
  cases receiver with
  | server =>
    have hrun := Receiver.local_parse _ h (b.sRecvBuffer.drop packet.bytes.length)
    rw [recvData, received, hrun]
  | client layer =>
    have hrun := Receiver.local_parse _ h ((b.mRecvBuffer layer).drop packet.bytes.length)
    simp only [recvData, received, hrun]

/-- **A packet is parsed for itself if and only if it ends by itself.** -/
theorem isolated_iff (receiver : Receiver Layer) (packet : Packet cgIPLayerRecvBufferSize) :
    Isolated receiver packet ↔ Ended packet receiver := by
  rw [← not_iff_not, ← receiver.run_parse_eq_none_iff packet]
  constructor
  · intro hnot
    by_contra hsome
    obtain ⟨⟨extracted, m⟩, hrun⟩ := Option.ne_none_iff_exists'.mp hsome
    refine hnot ⟨fun history history' => ?_, hsome⟩
    rw [recvData_of_run hrun, recvData_of_run hrun]
  · exact fun hnone h => h.within hnone

/-- A request with one character in it. -/
def short : Packet 1500 := ⟨text "POST /a HTTP/1.1\r\n\r\nx", by decide, by decide⟩

/-- A request with three. -/
def long : Packet 1500 := ⟨text "POST /a HTTP/1.1\r\n\r\nxyz", by decide, by decide⟩

/-- **A short POST request behind a longer one** gets the rest of that as well. -/
theorem not_isolated_short : ¬Isolated (.server : Receiver Unit) short := by
  intro h
  have hsame := h.same [] [(.server, long)]
  exact absurd hsame (by decide +kernel)

end HTTP

end Forte
