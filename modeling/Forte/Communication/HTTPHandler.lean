import Mathlib.Data.List.Flatten
import Mathlib.Data.List.Nodup
import Forte.Datatypes.Numbers
import Forte.Lib.Runs

/-!
# The answers of the HTTP server

The `CHTTP_Handler` hands the requests it receives to the layers of the server blocks, by their
paths, and puts their sockets into a list of the layer. When the block answers, the first socket
of the list gets the answer and is closed.

* **The answer to a bad request goes to the first socket as well**, which is another one if
  requests are waiting. From there on every answer of the block goes to the request behind the one
  that it is for.
* **An answer without a request** takes a socket from an empty list.
* **Without any path nobody answers**: a request on a connection from before the last path was
  removed keeps its socket open for ever.
* **A second request on a connection** that still waits leaves its socket twice in the lists, or in
  them when it is closed.

This is the model, with how often a socket waits or has been closed; in which runs all requests
are answered as they should be is said in `Forte.Communication.HTTPAnswers`. A request is what
the parser makes of it, and the values that the block gets are left out.
-/

namespace Forte

/-- An entry of `mServerLayers`, an `HTTPServerWaiting`. -/
structure HTTPServerWaiting (Layer : Type) where
  mLayer : Layer
  mPath : Text
  /-- Connections are numbered. -/
  mSockets : List ℕ

/-- What a request is answered. -/
inductive HTTPStatus
  | ok | badRequest | notFound
  deriving DecidableEq

/-- The `CHTTP_Handler` with its layers, and what has become of the connections. -/
structure HTTPHandler (Layer : Type) where
  mServerLayers : List (HTTPServerWaiting Layer)
  mAcceptedSockets : List ℕ
  /-- Whether there is a `smServerListeningSocket`. -/
  listening : Bool
  /-- The layers that have been opened, -/
  opened : List Layer
  /-- and those where this has gone well. -/
  mCorrectlyInitialized : List Layer
  /-- The number of connections there have been. -/
  connections : ℕ
  /-- The sockets that requests have been received from. -/
  received : List ℕ
  /-- The sockets that have been closed, and what was sent before. -/
  closed : List (ℕ × Option HTTPStatus)
  /-- The sockets of the requests that a block has got. -/
  requests : Layer → List ℕ
  /-- The sockets that its answers have been sent to. -/
  answers : Layer → List ℕ
  /-- A socket has been taken from an empty list. -/
  underrun : Bool

namespace HTTPHandler

variable {Layer : Type}

/-- The handler at the beginning. -/
def initial : HTTPHandler Layer where
  mServerLayers := []
  mAcceptedSockets := []
  listening := false
  opened := []
  mCorrectlyInitialized := []
  connections := 0
  received := []
  closed := []
  requests := fun _ => []
  answers := fun _ => []
  underrun := false

/-- The sockets of the first entry of a kind are changed. -/
def updateFirst (p : HTTPServerWaiting Layer → Bool) (f : List ℕ → List ℕ) :
    List (HTTPServerWaiting Layer) → List (HTTPServerWaiting Layer)
  | [] => []
  | serverLayer :: rest =>
    if p serverLayer then { serverLayer with mSockets := f serverLayer.mSockets } :: rest
    else serverLayer :: updateFirst p f rest

/-- The loop of `checkAcceptedSockets`, where some of the sockets have been there for too long. -/
def checkAcceptedSockets (s : HTTPHandler Layer) (timeout : ℕ → Bool) : HTTPHandler Layer :=
  { s with
    closed := s.closed ++ (s.mAcceptedSockets.filter timeout).map fun socket => (socket, none)
    mAcceptedSockets := s.mAcceptedSockets.filter fun socket => !timeout socket }

/-- The branch of `recvData` for the socket it listens on. -/
def accept (s : HTTPHandler Layer) : HTTPHandler Layer :=
  if s.listening then
    { s with
      mAcceptedSockets := s.mAcceptedSockets ++ [s.connections]
      connections := s.connections + 1 }
  else s

/-- `handlerReceivedWrongPath`. -/
def handlerReceivedWrongPath (s : HTTPHandler Layer) (paSocket : ℕ) : HTTPHandler Layer :=
  { s with closed := s.closed ++ [(paSocket, some .notFound)] }

/-- `removeServerPath`. -/
def removeServerPath (s : HTTPHandler Layer) (paPath : Text) : HTTPHandler Layer :=
  let s :=
    match s.mServerLayers.find? fun serverLayer => serverLayer.mPath = paPath with
    | none => s
    | some serverLayer =>
      { s with
        closed := s.closed ++ serverLayer.mSockets.map fun socket => (socket, none)
        mServerLayers := s.mServerLayers.eraseP fun serverLayer => serverLayer.mPath = paPath }
  if s.mServerLayers = [] then { s with listening := false } else s

variable [DecidableEq Layer]

/-- `openConnection` of a server's layer, which ends in `addServerPath`; the socket to listen on
may not be there. A layer is opened once. -/
def addServerPath (s : HTTPHandler Layer) (paLayer : Layer) (paPath : Text) (socket : Bool) :
    HTTPHandler Layer :=
  if paLayer ∈ s.opened then s
  else
    let s := { s with opened := paLayer :: s.opened }
    if s.mServerLayers.any fun serverLayer => serverLayer.mPath = paPath then s
    else
      { s with
        listening := s.listening || socket
        mServerLayers := s.mServerLayers ++ [⟨paLayer, paPath, []⟩]
        mCorrectlyInitialized := paLayer :: s.mCorrectlyInitialized }

/-- `sendServerAnswerHelper`. -/
def sendServerAnswerHelper (s : HTTPHandler Layer) (paLayer : Layer) (paAnswer : HTTPStatus)
    (paFromRecv : Bool) : HTTPHandler Layer :=
  match s.mServerLayers.find? fun serverLayer => serverLayer.mLayer = paLayer with
  | none => s
  | some serverLayer =>
    match serverLayer.mSockets with
    | [] => { s with underrun := true }
    | socket :: _ =>
      { s with
        closed := s.closed ++ [(socket, some paAnswer)]
        answers :=
          if paFromRecv then s.answers
          else Function.update s.answers paLayer (s.answers paLayer ++ [socket])
        mServerLayers :=
          updateFirst (fun serverLayer => serverLayer.mLayer = paLayer) List.tail s.mServerLayers }

/-- The first part of `forceCloseHelper`; the second one is about clients. -/
def forceClose (s : HTTPHandler Layer) (paLayer : Layer) : HTTPHandler Layer :=
  match s.mServerLayers.find? fun serverLayer => serverLayer.mLayer = paLayer with
  | none => s
  | some serverLayer =>
    match serverLayer.mSockets with
    | [] => s
    | socket :: _ =>
      { s with
        closed := s.closed ++ [(socket, none)]
        mServerLayers :=
          updateFirst (fun serverLayer => serverLayer.mLayer = paLayer) List.tail s.mServerLayers }

/-- `sendData` of a server's layer. -/
def sendData (s : HTTPHandler Layer) (paLayer : Layer) : HTTPHandler Layer :=
  if paLayer ∈ s.mCorrectlyInitialized then s.sendServerAnswerHelper paLayer .ok false else s

variable (getNumRD : Layer → ℕ)

/-- `recvServerData`, for the request on a socket. -/
def recvServerData (s : HTTPHandler Layer) (paLayer : Layer) (socket : ℕ)
    (paParameterValues : List Text) : HTTPHandler Layer :=
  if paParameterValues.length = getNumRD paLayer then
    { s with requests := Function.update s.requests paLayer (s.requests paLayer ++ [socket]) }
  else s.sendServerAnswerHelper paLayer .badRequest true

/-- `recvServers`, with the path and the values of the parameters if the request is well
formed. -/
def recvServers (s : HTTPHandler Layer) (paSocket : ℕ) (request : Option (Text × List Text)) :
    HTTPHandler Layer :=
  let s :=
    { s with
      mAcceptedSockets := s.mAcceptedSockets.erase paSocket
      received := paSocket :: s.received }
  if s.mServerLayers = [] then s
  else
    match request with
    | none => s.handlerReceivedWrongPath paSocket
    | some (path, parameterValues) =>
      match s.mServerLayers.find? fun serverLayer => serverLayer.mPath = path with
      | none => s.handlerReceivedWrongPath paSocket
      | some serverLayer =>
        let s :=
          { s with
            mServerLayers :=
              updateFirst (fun serverLayer => serverLayer.mPath = path) (· ++ [paSocket])
                s.mServerLayers }
        s.recvServerData getNumRD serverLayer.mLayer paSocket parameterValues

/-- What happens to the handler. -/
inductive Step (Layer : Type)
  | accept
  | timeout (timeout : ℕ → Bool)
  | addServerPath (paLayer : Layer) (paPath : Text) (socket : Bool)
  | removeServerPath (paPath : Text)
  | forceClose (paLayer : Layer)
  /-- A request is received. -/
  | recvServers (paSocket : ℕ) (request : Option (Text × List Text))
  /-- The block has an RSP event. -/
  | sendData (paLayer : Layer)

/-- The sockets that have been closed. -/
def closedSockets (s : HTTPHandler Layer) : List ℕ := s.closed.map Prod.fst

/-- A request can be received from a socket. -/
def IsOpen (s : HTTPHandler Layer) (socket : ℕ) : Prop :=
  socket < s.connections ∧ socket ∉ s.closedSockets

instance (s : HTTPHandler Layer) (socket : ℕ) : Decidable (s.IsOpen socket) :=
  inferInstanceAs (Decidable (_ ∧ _))

/-- The handler after a step. -/
def next (s : HTTPHandler Layer) : Step Layer → HTTPHandler Layer
  | .accept => s.accept
  | .timeout timeout => s.checkAcceptedSockets timeout
  | .addServerPath paLayer paPath socket => s.addServerPath paLayer paPath socket
  | .removeServerPath paPath => s.removeServerPath paPath
  | .forceClose paLayer => s.forceClose paLayer
  | .recvServers paSocket request =>
    if s.IsOpen paSocket then s.recvServers getNumRD paSocket request else s
  | .sendData paLayer => s.sendData paLayer

/-! ### What is asked of the handler -/

/-- All sockets that wait for an answer. -/
def waiting (layers : List (HTTPServerWaiting Layer)) : List ℕ :=
  layers.flatMap HTTPServerWaiting.mSockets

/-- The sockets that wait for the answers of one block. -/
def waitingOf (layers : List (HTTPServerWaiting Layer)) (layer : Layer) : List ℕ :=
  waiting (layers.filter fun serverLayer => serverLayer.mLayer = layer)

/-- How often a socket waits or has been closed. -/
def balance (s : HTTPHandler Layer) (socket : ℕ) : ℕ :=
  (waiting s.mServerLayers).count socket + s.closedSockets.count socket

/-- **What is asked of a state.** -/
structure Sound (s : HTTPHandler Layer) : Prop where
  /-- Every request waits once, or its socket has been closed once. -/
  once : ∀ socket ∈ s.received, s.balance socket = 1
  /-- The answers of a block have gone to its requests one after the other, and where the next
  ones go to is behind these. -/
  inOrder : ∀ layer,
    (s.answers layer ++ waitingOf s.mServerLayers layer).Sublist (s.requests layer)
  underrun : s.underrun = false

/-- What is asked of a step. -/
def Meets (s : HTTPHandler Layer) (st : Step Layer) : Prop := Sound (next getNumRD s st)

/-- **Requests and answers that are in order**: there is a path, no request came on the
connection before, and one with another number of parameters comes when no request of the block
is waiting; and a block only answers when one is. -/
def Orderly (s : HTTPHandler Layer) : Step Layer → Prop
  | .recvServers paSocket request => s.IsOpen paSocket →
      s.mServerLayers ≠ [] ∧ paSocket ∉ s.received ∧
        ∀ path parameterValues, request = some (path, parameterValues) →
          ∀ serverLayer,
            s.mServerLayers.find? (fun serverLayer => serverLayer.mPath = path) =
                some serverLayer →
              parameterValues.length ≠ getNumRD serverLayer.mLayer → serverLayer.mSockets = []
  | .sendData paLayer => paLayer ∈ s.mCorrectlyInitialized →
      ∀ serverLayer,
        s.mServerLayers.find? (fun serverLayer => serverLayer.mLayer = paLayer) =
            some serverLayer → serverLayer.mSockets ≠ []
  | _ => True

/-! ### The first entry -/

section

variable {p : HTTPServerWaiting Layer → Bool} {f : List ℕ → List ℕ}
  {layers : List (HTTPServerWaiting Layer)} {serverLayer : HTTPServerWaiting Layer}

omit [DecidableEq Layer] in
/-- **The first entry of a kind** changes or goes, and no other. -/
theorem exists_first (h : layers.find? p = some serverLayer) (f : List ℕ → List ℕ) :
    ∃ before after, layers = before ++ serverLayer :: after ∧
      updateFirst p f layers =
          before ++ { serverLayer with mSockets := f serverLayer.mSockets } :: after ∧
        layers.eraseP p = before ++ after := by
  induction layers with
  | nil => exact absurd h nofun
  | cons first rest ih =>
    rw [List.find?_cons] at h
    rw [updateFirst, List.eraseP_cons]
    cases hp : p first with
    | true =>
      rw [hp] at h
      obtain rfl : first = serverLayer := Option.some.inj h
      exact ⟨[], rest, rfl, if_pos rfl, rfl⟩
    | false =>
      rw [hp] at h
      obtain ⟨before, after, rfl, heq, herase⟩ := ih h
      refine ⟨first :: before, after, rfl, ?_, ?_⟩
      · rw [if_neg Bool.false_ne_true, heq, List.cons_append]
      · rw [cond_false, herase, List.cons_append]

omit [DecidableEq Layer] in
theorem map_mLayer_updateFirst (p : HTTPServerWaiting Layer → Bool) (f : List ℕ → List ℕ)
    (layers : List (HTTPServerWaiting Layer)) :
    (updateFirst p f layers).map HTTPServerWaiting.mLayer =
      layers.map HTTPServerWaiting.mLayer := by
  induction layers with
  | nil => rfl
  | cons first rest ih =>
    rw [updateFirst]
    split
    · rfl
    · rw [List.map_cons, ih, List.map_cons]

omit [DecidableEq Layer] in
theorem waiting_append (before after : List (HTTPServerWaiting Layer)) :
    waiting (before ++ after) = waiting before ++ waiting after :=
  List.flatMap_append

omit [DecidableEq Layer] in
theorem waiting_cons (serverLayer : HTTPServerWaiting Layer)
    (layers : List (HTTPServerWaiting Layer)) :
    waiting (serverLayer :: layers) = serverLayer.mSockets ++ waiting layers :=
  List.flatMap_cons

omit [DecidableEq Layer] in
/-- Nothing waits for a new layer. -/
theorem waiting_concat (layers : List (HTTPServerWaiting Layer)) (paLayer : Layer)
    (paPath : Text) : waiting (layers ++ [⟨paLayer, paPath, []⟩]) = waiting layers := by
  rw [waiting_append, waiting_cons]
  exact List.append_nil _

omit [DecidableEq Layer] in
/-- How often a socket waits, where the sockets of one entry have changed. -/
theorem count_waiting_updateFirst (h : layers.find? p = some serverLayer) (f : List ℕ → List ℕ)
    (socket : ℕ) :
    (waiting (updateFirst p f layers)).count socket + serverLayer.mSockets.count socket =
      (waiting layers).count socket + (f serverLayer.mSockets).count socket := by
  obtain ⟨before, after, rfl, heq, -⟩ := exists_first h f
  rw [heq, waiting_append, waiting_append, waiting_cons, waiting_cons]
  simp only [List.count_append]
  omega

omit [DecidableEq Layer] in
theorem mem_waiting_updateFirst (h : layers.find? p = some serverLayer) {socket : ℕ}
    (hmem : socket ∈ waiting (updateFirst p f layers)) :
    socket ∈ waiting layers ∨ socket ∈ f serverLayer.mSockets := by
  obtain ⟨before, after, rfl, heq, -⟩ := exists_first h f
  rw [heq, waiting_append, waiting_cons] at hmem
  rw [waiting_append, waiting_cons]
  simp only [List.mem_append] at hmem ⊢
  tauto

/-- The one entry of a layer has what waits for it. -/
theorem waitingOf_append_cons {before after : List (HTTPServerWaiting Layer)}
    (hnodup : ((before ++ serverLayer :: after).map HTTPServerWaiting.mLayer).Nodup)
    (layer : Layer) :
    waitingOf (before ++ serverLayer :: after) layer =
      if serverLayer.mLayer = layer then serverLayer.mSockets
      else waitingOf (before ++ after) layer := by
  rw [waitingOf, waitingOf, List.filter_append, List.filter_cons, List.filter_append]
  split
  · rename_i heq
    rw [decide_eq_true_iff] at heq
    subst heq
    rw [if_pos rfl]
    rw [List.map_append, List.map_cons, List.nodup_append] at hnodup
    obtain ⟨-, hafter, hbefore⟩ := hnodup
    have hleft : before.filter (fun e => e.mLayer = serverLayer.mLayer) = [] := by
      refine List.filter_eq_nil_iff.mpr fun e he => ?_
      rw [decide_eq_true_iff]
      exact fun heq => hbefore _ (List.mem_map_of_mem he) _ List.mem_cons_self heq
    have hright : after.filter (fun e => e.mLayer = serverLayer.mLayer) = [] := by
      refine List.filter_eq_nil_iff.mpr fun e he => ?_
      rw [decide_eq_true_iff]
      exact fun heq => (List.nodup_cons.mp hafter).1 (heq ▸ List.mem_map_of_mem he)
    rw [hleft, hright, List.nil_append, waiting_cons]
    exact List.append_nil _
  · rename_i hne
    rw [decide_eq_true_iff] at hne
    rw [if_neg hne]

theorem waitingOf_of_find? (hnodup : (layers.map HTTPServerWaiting.mLayer).Nodup)
    (h : layers.find? p = some serverLayer) :
    waitingOf layers serverLayer.mLayer = serverLayer.mSockets := by
  obtain ⟨before, after, rfl, -⟩ := exists_first h id
  rw [waitingOf_append_cons hnodup, if_pos rfl]

/-- **What waits for a layer**, where the sockets of one entry have changed. -/
theorem waitingOf_updateFirst (hnodup : (layers.map HTTPServerWaiting.mLayer).Nodup)
    (h : layers.find? p = some serverLayer) (f : List ℕ → List ℕ) (layer : Layer) :
    waitingOf (updateFirst p f layers) layer =
      if serverLayer.mLayer = layer then f serverLayer.mSockets else waitingOf layers layer := by
  have hnodup' : ((updateFirst p f layers).map HTTPServerWaiting.mLayer).Nodup := by
    rwa [map_mLayer_updateFirst]
  obtain ⟨before, after, rfl, heq, -⟩ := exists_first h f
  rw [heq] at hnodup' ⊢
  rw [waitingOf_append_cons hnodup', waitingOf_append_cons hnodup]
  split <;> rfl

omit [DecidableEq Layer] in
/-- What is left waits as before. -/
theorem mem_waiting_of_tail (h : layers.find? p = some serverLayer) {socket : ℕ}
    (hmem : socket ∈ waiting (updateFirst p List.tail layers)) : socket ∈ waiting layers := by
  rcases mem_waiting_updateFirst h hmem with hmem | hmem
  · exact hmem
  · exact List.mem_flatMap.mpr
      ⟨serverLayer, List.mem_of_find?_eq_some h, List.mem_of_mem_tail hmem⟩

omit [DecidableEq Layer] in
theorem mem_waiting_of_eraseP {socket : ℕ} (hmem : socket ∈ waiting (layers.eraseP p)) :
    socket ∈ waiting layers := by
  obtain ⟨serverLayer, hlayer, hsocket⟩ := List.mem_flatMap.mp hmem
  exact List.mem_flatMap.mpr ⟨serverLayer, List.mem_of_mem_eraseP hlayer, hsocket⟩

omit [DecidableEq Layer] in
/-- A socket that is taken from an entry no longer waits. -/
theorem count_waiting_tail (h : layers.find? p = some serverLayer) {socket : ℕ} {rest : List ℕ}
    (hsockets : serverLayer.mSockets = socket :: rest) (other : ℕ) :
    (waiting (updateFirst p List.tail layers)).count other + [socket].count other =
      (waiting layers).count other := by
  have hcount := count_waiting_updateFirst h List.tail other
  rw [hsockets, List.tail_cons, ← List.singleton_append, List.count_append] at hcount
  omega

omit [DecidableEq Layer] in
theorem count_waiting_eraseP (h : layers.find? p = some serverLayer) (socket : ℕ) :
    (waiting (layers.eraseP p)).count socket + serverLayer.mSockets.count socket =
      (waiting layers).count socket := by
  obtain ⟨before, after, rfl, -, heq⟩ := exists_first h id
  rw [heq, waiting_append, waiting_append, waiting_cons]
  simp only [List.count_append]
  omega

end

/-! ### What waits for one block -/

section

variable {layers : List (HTTPServerWaiting Layer)}

theorem waitingOf_concat (layers : List (HTTPServerWaiting Layer)) (paLayer : Layer)
    (paPath : Text) (layer : Layer) :
    waitingOf (layers ++ [⟨paLayer, paPath, []⟩]) layer = waitingOf layers layer := by
  rw [waitingOf, List.filter_append, List.filter_singleton]
  cases decide (paLayer = layer) with
  | true => exact waiting_concat _ paLayer paPath
  | false => exact congrArg waiting (List.append_nil _)

theorem waitingOf_eraseP_sublist (p : HTTPServerWaiting Layer → Bool) (layer : Layer) :
    (waitingOf (layers.eraseP p) layer).Sublist (waitingOf layers layer) :=
  (List.eraseP_sublist.filter _).flatMap _

/-- A layer has one entry only. -/
theorem find?_mLayer (hnodup : (layers.map HTTPServerWaiting.mLayer).Nodup)
    {serverLayer : HTTPServerWaiting Layer} (hmem : serverLayer ∈ layers) :
    (layers.find? fun e => e.mLayer = serverLayer.mLayer) = some serverLayer := by
  have hsome : (layers.find? fun e => e.mLayer = serverLayer.mLayer).isSome := by
    rw [List.find?_isSome]
    exact ⟨serverLayer, hmem, decide_eq_true rfl⟩
  obtain ⟨e, he⟩ := Option.isSome_iff_exists.mp hsome
  have hsame := List.find?_some he
  rw [decide_eq_true_iff] at hsame
  rw [he, List.inj_on_of_nodup_map hnodup (List.mem_of_find?_eq_some he) hmem hsame]

end

/-! ### How often a socket waits or is closed -/

section

variable {getNumRD} {s : HTTPHandler Layer}

omit [DecidableEq Layer] in
theorem balance_handlerReceivedWrongPath (s : HTTPHandler Layer) (paSocket socket : ℕ) :
    (s.handlerReceivedWrongPath paSocket).balance socket =
      s.balance socket + [paSocket].count socket := by
  rw [handlerReceivedWrongPath, balance, balance, closedSockets, closedSockets, List.map_append,
    List.count_append]
  exact (Nat.add_assoc _ _ _).symm

omit [DecidableEq Layer] in
/-- The first socket that waits is closed. -/
theorem balance_of_tail {s s' : HTTPHandler Layer} {p : HTTPServerWaiting Layer → Bool}
    {serverLayer : HTTPServerWaiting Layer} {first : ℕ} {rest : List ℕ}
    {answer : Option HTTPStatus} (hfind : s.mServerLayers.find? p = some serverLayer)
    (hsockets : serverLayer.mSockets = first :: rest)
    (hlayers : s'.mServerLayers = updateFirst p List.tail s.mServerLayers)
    (hclosed : s'.closed = s.closed ++ [(first, answer)]) (socket : ℕ) :
    s'.balance socket = s.balance socket := by
  have hcount := count_waiting_tail hfind hsockets socket
  rw [balance, balance, closedSockets, closedSockets, hlayers, hclosed, List.map_append,
    List.count_append]
  dsimp only [List.map_singleton]
  omega

/-- **Whoever is answered** does not wait any longer. -/
theorem balance_sendServerAnswerHelper (s : HTTPHandler Layer) (paLayer : Layer)
    (paAnswer : HTTPStatus) (paFromRecv : Bool) (socket : ℕ) :
    (s.sendServerAnswerHelper paLayer paAnswer paFromRecv).balance socket = s.balance socket := by
  rw [sendServerAnswerHelper]
  split
  · rfl
  · rename_i serverLayer hfind
    split
    · rfl
    · rename_i first rest hsockets
      exact balance_of_tail hfind hsockets rfl rfl socket

theorem balance_forceClose (s : HTTPHandler Layer) (paLayer : Layer) (socket : ℕ) :
    (s.forceClose paLayer).balance socket = s.balance socket := by
  rw [forceClose]
  split
  · rfl
  · rename_i serverLayer hfind
    split
    · rfl
    · rename_i first rest hsockets
      exact balance_of_tail hfind hsockets rfl rfl socket

omit [DecidableEq Layer] in
/-- The path and its sockets are removed, if it is there. -/
theorem exists_removeServerPath (s : HTTPHandler Layer) (paPath : Text) :
    ∃ listening, s.removeServerPath paPath =
      match s.mServerLayers.find? fun serverLayer => serverLayer.mPath = paPath with
      | none => { s with listening := listening }
      | some serverLayer =>
        { s with
          closed := s.closed ++ serverLayer.mSockets.map fun socket => (socket, none)
          mServerLayers := s.mServerLayers.eraseP fun serverLayer => serverLayer.mPath = paPath
          listening := listening } := by
  rw [removeServerPath]
  cases s.mServerLayers.find? fun serverLayer => serverLayer.mPath = paPath with
  | none =>
    dsimp only
    split
    · exact ⟨false, rfl⟩
    · exact ⟨s.listening, rfl⟩
  | some serverLayer =>
    dsimp only
    split
    · exact ⟨false, rfl⟩
    · exact ⟨s.listening, rfl⟩

omit [DecidableEq Layer] in
theorem balance_removeServerPath (s : HTTPHandler Layer) (paPath : Text) (socket : ℕ) :
    (s.removeServerPath paPath).balance socket = s.balance socket := by
  obtain ⟨listening, heq⟩ := s.exists_removeServerPath paPath
  rw [heq]
  split
  · rfl
  · rename_i serverLayer hfind
    have hcount := count_waiting_eraseP hfind socket
    have hclosed : (serverLayer.mSockets.map fun socket => (socket, (none : Option HTTPStatus))).map
        Prod.fst = serverLayer.mSockets := (List.map_map ..).trans (List.map_id _)
    rw [balance, balance, closedSockets, closedSockets, List.map_append, List.count_append, hclosed]
    dsimp only
    omega

theorem balance_recvServerData (s : HTTPHandler Layer) (paLayer : Layer) (paSocket : ℕ)
    (paParameterValues : List Text) (socket : ℕ) :
    (s.recvServerData getNumRD paLayer paSocket paParameterValues).balance socket =
      s.balance socket := by
  rw [recvServerData]
  split
  · rfl
  · exact balance_sendServerAnswerHelper s paLayer .badRequest true socket

/-- **A request** makes its socket wait or closes it, if there is any path. -/
theorem balance_recvServers (s : HTTPHandler Layer) (paSocket : ℕ)
    (request : Option (Text × List Text)) (socket : ℕ) :
    (s.recvServers getNumRD paSocket request).balance socket =
      s.balance socket + if s.mServerLayers = [] then 0 else [paSocket].count socket := by
  unfold recvServers
  dsimp only
  split
  · rfl
  · split
    · exact balance_handlerReceivedWrongPath _ paSocket socket
    · split
      · exact balance_handlerReceivedWrongPath _ paSocket socket
      · rename_i serverLayer hfind
        have hcount := count_waiting_updateFirst hfind (· ++ [paSocket]) socket
        rw [List.count_append] at hcount
        rw [balance_recvServerData, balance, balance]
        show (waiting (updateFirst _ _ s.mServerLayers)).count socket +
          s.closedSockets.count socket = _
        omega

end

end HTTPHandler

end Forte
