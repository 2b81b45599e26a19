import Mathlib.Data.List.Flatten
import Forte.Communication.ComStack
import Forte.Lib.Runs

/-!
# The stream of an IP layer

A `CIPComLayer` of a server or a client puts what arrives on its connection into a buffer and
queues an interrupt with its block; the block processes the queued interrupts in its event
chain, and the layer then hands the buffer up to the layer above it. The thread that watches
the sockets and the event chain take turns in any order.

* **One field says what has happened last**, and every call of `recvData` overwrites it. Bytes
  are only handed up if it says that data has arrived; after a close of the connection, or a
  connection attempt of somebody else, it does not.
* **The buffer outlives the connection.** What was not handed up is still in it when a server
  has accepted the next connection, and goes up together with the first bytes of that.
* **A client deletes its layers** after a close, with what is in the buffer.

`Forte.IPComLayer.delivers_iff` says in which runs every byte is handed up, once, in order and
with no others than those of its connection.
-/

namespace Forte

/-- `EComConnectionState`. -/
inductive EComConnectionState
  | disconnected | listening | connectedAndListening | connected
  deriving DecidableEq

/-- A byte with the number of the connection it has come by, which no layer looks at. -/
abbrev StreamByte : Type := ℕ × UInt8

/-- A `CIPComLayer` with the interrupts it has queued with its block, and what has become of
the bytes. -/
structure IPComLayer where
  mConnectionState : EComConnectionState
  /-- The connection of the socket, if there is one. -/
  mSocketID : Option ℕ
  mInterruptResp : ComInfra.EComResponse
  /-- The first `mBufFillSize` bytes of the buffer. -/
  mRecvBuffer : List StreamByte
  mComInterruptQueueCount : ℕ
  /-- The number of connections there have been. -/
  connections : ℕ
  received : List StreamByte
  /-- What the layer above has been handed, call by call. -/
  handed : List (List StreamByte)

/-- What is configured for the layers of a server or of a client. -/
structure IPConfig where
  isServer : Bool
  cgIPLayerRecvBufferSize : ℕ
  cgCommunicationInterruptQueueSize : ℕ
  /-- There are no arrays of the size zero. -/
  queueSize_pos : 0 < cgCommunicationInterruptQueueSize

/-- The bits of a response. -/
def ComInfra.EComResponse.value : ComInfra.EComResponse → ℕ
  | nothing => 0
  | initOk => 0x10
  | processDataOk => 0x20
  | initInvalidId => 0x51
  | initTerminated => 0x52
  | processDataInvalidObject => 0x63
  | processDataDataTypeError => 0x64
  | processDataInhibited => 0x65
  | processDataNoSocket => 0x66
  | processDataSendFailed => 0x67
  | processDataRecvFaild => 0x68

namespace IPComLayer

variable (config : IPConfig)

/-- The layer after `openConnection`: a server listens, and a client is connected. -/
def initial : IPComLayer where
  mConnectionState := if config.isServer then .listening else .connected
  mSocketID := if config.isServer then none else some 0
  mInterruptResp := .nothing
  mRecvBuffer := []
  mComInterruptQueueCount := 0
  connections := if config.isServer then 0 else 1
  received := []
  handed := []

/-- `interruptCommFB`. -/
def interruptCommFB (s : IPComLayer) : IPComLayer :=
  if s.mComInterruptQueueCount < config.cgCommunicationInterruptQueueSize then
    { s with mComInterruptQueueCount := s.mComInterruptQueueCount + 1 }
  else s

/-- `handledConnectedDataRecv`, with what `receiveDataFromTCP` reads: nothing if the peer has
closed the connection. -/
def handledConnectedDataRecv (s : IPComLayer) (data : List UInt8) : IPComLayer :=
  match s.mSocketID with
  | none => s
  | some connection =>
    match data with
    | [] =>
      interruptCommFB config
        { s with
          mInterruptResp := .initTerminated
          mSocketID := none
          mConnectionState := if config.isServer then .listening else s.mConnectionState }
    | _ =>
      let bytes := data.map fun byte => (connection, byte)
      interruptCommFB config
        { s with
          mRecvBuffer := s.mRecvBuffer ++ bytes
          mInterruptResp := .processDataOk
          received := s.received ++ bytes }

/-- A socket that can be read. -/
inductive Socket
  /-- The one of the connection, with the data that is there. -/
  | connection (data : List UInt8)
  /-- The one a server listens on. -/
  | listening

/-- `recvData`. -/
def recvData (s : IPComLayer) (socket : Socket) : IPComLayer :=
  let s := { s with mInterruptResp := .nothing }
  match s.mConnectionState with
  | .listening =>
    { s with
      mSocketID := some s.connections
      connections := s.connections + 1
      mConnectionState := .connected }
  | .connected =>
    match socket with
    | .connection data => handledConnectedDataRecv config s data
    -- `handleConnectionAttemptInConnected`
    | .listening => s
  | _ => s

/-- `processInterrupt`, with what the layer above answers. -/
def processInterrupt (s : IPComLayer) (response : ComInfra.EComResponse) : IPComLayer :=
  if s.mInterruptResp = .processDataOk ∧ s.mConnectionState = .connected ∧
      0 < s.mRecvBuffer.length then
    { s with
      mInterruptResp := response
      mRecvBuffer := []
      handed := s.handed ++ [s.mRecvBuffer] }
  else s

/-- The loop of `receiveData` over the interrupts, with the greatest response so far. -/
def receiveLoop (response : ComInfra.EComResponse) : ℕ → IPComLayer → ComInfra.EComResponse →
    IPComLayer × ComInfra.EComResponse
  | 0, s, eRetVal => (s, eRetVal)
  | n + 1, s, eRetVal =>
    let s := s.processInterrupt response
    let eResp := s.mInterruptResp
    receiveLoop response n s (if eRetVal.value < eResp.value then eResp else eRetVal)

/-- `CBaseCommFB::closeConnection`, which deletes the layers. -/
def closeConnection (s : IPComLayer) : IPComLayer :=
  { s with mConnectionState := .disconnected, mSocketID := none, mRecvBuffer := [] }

/-- The external event of the block: `receiveData`, and what follows a termination. -/
def receiveData (s : IPComLayer) (response : ComInfra.EComResponse) : IPComLayer :=
  let (s, resp) := receiveLoop response s.mComInterruptQueueCount s .nothing
  let s := { s with mComInterruptQueueCount := 0 }
  if resp.value &&& 2 ≠ 0 ∧ config.isServer = false then s.closeConnection else s

/-- What happens to the layer. -/
inductive Step
  /-- The socket of the connection can be read. -/
  | readable (data : List UInt8)
  /-- Somebody attempts to connect to a server. -/
  | attempt
  | receiveData (response : ComInfra.EComResponse)

/-- The layer after a step. Data that does not fit into the buffer has to wait, a connection
that is closed has none, and nobody can connect to a client. -/
def next (s : IPComLayer) : Step → IPComLayer
  | .readable data =>
    if s.mConnectionState = .connected ∧ s.mRecvBuffer.length < config.cgIPLayerRecvBufferSize ∧
        s.mRecvBuffer.length + data.length ≤ config.cgIPLayerRecvBufferSize then
      s.recvData config (.connection data)
    else s
  | .attempt => if config.isServer then s.recvData config .listening else s
  | .receiveData response => s.receiveData config response

/-! ### What the layer is for -/

/-- **The stream is intact**: the bytes that were received have been handed up or are in the
buffer, in this order, each call had bytes of one connection only, and they came one connection
after the other. -/
structure Intact (s : IPComLayer) : Prop where
  conserved : s.handed.flatten ++ s.mRecvBuffer = s.received
  unmixed : ∀ bytes ∈ s.handed, ∃ connection, ∀ byte ∈ bytes, byte.1 = connection
  ordered : s.received.Pairwise fun byte later => byte.1 ≤ later.1

/-- What is asked of a step: the stream is intact, and when the interrupts have been processed
nothing is left in the buffer. -/
def Meets (s : IPComLayer) (st : Step) : Prop :=
  Intact (next config s st) ∧
    ∀ response, st = .receiveData response →
      (next config s st).handed.flatten = (next config s st).received

/-- **Interrupts that are processed in time**: bytes in the buffer are of one connection, and
nothing has happened on the sockets since the last of them arrived. -/
def Timely (s : IPComLayer) : Step → Prop
  | .receiveData _ => s.mRecvBuffer = [] ∨
      (s.mInterruptResp = .processDataOk ∧ s.mConnectionState = .connected ∧
        ∃ connection, ∀ byte ∈ s.mRecvBuffer, byte.1 = connection)
  | _ => True

/-! ### Steps -/

section

variable {config} {s : IPComLayer}

/-- What is known of a layer whose stream is intact. -/
structure Good (s : IPComLayer) : Prop extends Intact s where
  /-- The bytes are of connections there have been. -/
  bounded : ∀ byte ∈ s.received, byte.1 < s.connections
  socket : ∀ connection, s.mSocketID = some connection → connection + 1 = s.connections
  queued : s.mRecvBuffer ≠ [] → 0 < s.mComInterruptQueueCount

theorem interruptCommFB_eq (s : IPComLayer) : ∃ count, 0 < count ∧
    interruptCommFB config s = { s with mComInterruptQueueCount := count } := by
  have hpos := config.queueSize_pos
  rw [interruptCommFB]
  split_ifs with hroom
  · exact ⟨_, Nat.succ_pos _, rfl⟩
  · exact ⟨s.mComInterruptQueueCount, by omega, rfl⟩

/-- **Data that arrives** is behind what is in the buffer. -/
theorem Good.handledConnectedDataRecv (h : Good s) (data : List UInt8) :
    Good (handledConnectedDataRecv config s data) := by
  rw [IPComLayer.handledConnectedDataRecv]
  cases hsocket : s.mSocketID with
  | none => exact h
  | some connection =>
    have hlast := h.socket connection hsocket
    cases data with
    | nil =>
      obtain ⟨count, hcount, heq⟩ := @interruptCommFB_eq config
        { s with
          mInterruptResp := .initTerminated
          mSocketID := none
          mConnectionState := if config.isServer then .listening else s.mConnectionState }
      refine heq ▸ ?_
      exact ⟨⟨h.conserved, h.unmixed, h.ordered⟩, h.bounded, nofun, fun _ => hcount⟩
    | cons first rest =>
      set bytes : List StreamByte := (first :: rest).map fun byte => (connection, byte)
        with hbytes
      have htag : ∀ byte ∈ bytes, byte.1 = connection := by
        intro byte hbyte
        obtain ⟨b, -, rfl⟩ := List.mem_map.mp hbyte
        rfl
      obtain ⟨count, hcount, heq⟩ := @interruptCommFB_eq config
        { s with
          mSocketID := some connection
          mRecvBuffer := s.mRecvBuffer ++ bytes
          mInterruptResp := .processDataOk
          received := s.received ++ bytes }
      show Good (interruptCommFB config { s with
        mSocketID := some connection
        mRecvBuffer := s.mRecvBuffer ++ bytes
        mInterruptResp := .processDataOk
        received := s.received ++ bytes })
      rw [heq]
      refine ⟨⟨?_, h.unmixed, ?_⟩, ?_, ?_, fun _ => hcount⟩
      · show s.handed.flatten ++ (s.mRecvBuffer ++ bytes) = s.received ++ bytes
        rw [← List.append_assoc, h.conserved]
      · refine List.pairwise_append.mpr ⟨h.ordered, ?_, fun byte hbyte later hlater => ?_⟩
        · refine List.pairwise_of_forall_mem_list fun byte hbyte later hlater => ?_
          rw [htag byte hbyte, htag later hlater]
        · have hbound := h.bounded byte hbyte
          rw [htag later hlater]
          omega
      · intro byte hbyte
        rcases List.mem_append.mp hbyte with hbyte | hbyte
        · exact h.bounded byte hbyte
        · show byte.1 < s.connections
          rw [htag byte hbyte]
          omega
      · exact fun c hc => h.socket c (hsocket.symm ▸ hc)

/-- **A call of `recvData`** keeps the stream intact. -/
theorem Good.recvData (h : Good s) (socket : Socket) : Good (recvData config s socket) := by
  have hreset : Good { s with mInterruptResp := .nothing } :=
    ⟨⟨h.conserved, h.unmixed, h.ordered⟩, h.bounded, h.socket, h.queued⟩
  cases hstate : s.mConnectionState with
  | listening =>
    simp only [IPComLayer.recvData, hstate]
    refine ⟨⟨h.conserved, h.unmixed, h.ordered⟩, fun byte hbyte => ?_, fun c hc => ?_, h.queued⟩
    · exact (h.bounded byte hbyte).trans (Nat.lt_succ_self s.connections)
    · rw [← Option.some.inj hc]
  | connected =>
    cases socket with
    | connection data =>
      simp only [IPComLayer.recvData, hstate]
      exact (hstate ▸ hreset).handledConnectedDataRecv data
    | listening =>
      simp only [IPComLayer.recvData, hstate]
      exact hstate ▸ hreset
  | _ =>
    simp only [IPComLayer.recvData, hstate]
    exact hstate ▸ hreset

theorem processInterrupt_of_empty (h : s.mRecvBuffer = []) (response : ComInfra.EComResponse) :
    s.processInterrupt response = s := by
  rw [processInterrupt, h, if_neg]
  exact fun hall => absurd hall.2.2 (by simp)

/-- Interrupts do nothing once the buffer has been handed up. -/
theorem receiveLoop_of_empty (h : s.mRecvBuffer = [])
    (response eRetVal : ComInfra.EComResponse) (n : ℕ) :
    (receiveLoop response n s eRetVal).1 = s := by
  induction n generalizing eRetVal with
  | zero => rfl
  | succ n ih =>
    rw [receiveLoop, processInterrupt_of_empty h]
    exact ih _

/-- Interrupts do nothing as long as something else than data has happened last. -/
theorem receiveLoop_of_not
    (h : ¬(s.mInterruptResp = .processDataOk ∧ s.mConnectionState = .connected))
    (response eRetVal : ComInfra.EComResponse) (n : ℕ) :
    (receiveLoop response n s eRetVal).1 = s := by
  induction n generalizing eRetVal with
  | zero => rfl
  | succ n ih =>
    have hsame : s.processInterrupt response = s := if_neg fun hall => h ⟨hall.1, hall.2.1⟩
    rw [receiveLoop, hsame]
    exact ih _

/-- **The first interrupt** hands up what is in the buffer. -/
theorem receiveLoop_of_data (hresp : s.mInterruptResp = .processDataOk)
    (hstate : s.mConnectionState = .connected) (hne : s.mRecvBuffer ≠ [])
    (response eRetVal : ComInfra.EComResponse) {n : ℕ} (hn : 0 < n) :
    (receiveLoop response n s eRetVal).1 =
      { s with
        mInterruptResp := response
        mRecvBuffer := []
        handed := s.handed ++ [s.mRecvBuffer] } := by
  obtain ⟨n, rfl⟩ : ∃ m, n = m + 1 := ⟨n - 1, by omega⟩
  have hfirst : s.processInterrupt response = _ :=
    if_pos ⟨hresp, hstate, List.length_pos_of_ne_nil hne⟩
  rw [receiveLoop, hfirst]
  exact receiveLoop_of_empty rfl response _ n

/-- What is left of a layer by its block, once the interrupts have been processed. -/
def settled (s : IPComLayer) (closed : Bool) : IPComLayer :=
  let s := { s with mComInterruptQueueCount := 0 }
  if closed then s.closeConnection else s

theorem receiveData_eq (s : IPComLayer) (response : ComInfra.EComResponse) :
    ∃ closed, receiveData config s response =
      (receiveLoop response s.mComInterruptQueueCount s .nothing).1.settled closed := by
  refine ⟨decide ((receiveLoop response s.mComInterruptQueueCount s .nothing).2.value &&& 2 ≠ 0 ∧
    config.isServer = false), ?_⟩
  simp only [receiveData, settled, decide_eq_true_eq]

theorem settled_handed (s : IPComLayer) (closed : Bool) :
    (s.settled closed).handed = s.handed ∧ (s.settled closed).received = s.received := by
  cases closed <;> exact ⟨rfl, rfl⟩

/-- With an empty buffer nothing is lost, whether the block closes its layers or not. -/
theorem Good.settled (h : Good s) (hempty : s.mRecvBuffer = []) (closed : Bool) :
    Good (s.settled closed) ∧ (s.settled closed).mRecvBuffer = [] := by
  cases closed with
  | false =>
    exact ⟨⟨⟨h.conserved, h.unmixed, h.ordered⟩, h.bounded, h.socket,
      fun hne => absurd hempty hne⟩, hempty⟩
  | true =>
    have hconserved : s.handed.flatten ++ [] = s.received := hempty ▸ h.conserved
    have hsocket : ∀ c, (s.settled true).mSocketID = some c → c + 1 = s.connections :=
      fun _ hc => absurd hc (by simp [IPComLayer.settled, closeConnection])
    exact ⟨⟨⟨hconserved, h.unmixed, h.ordered⟩, h.bounded, hsocket, fun hne => absurd rfl hne⟩,
      rfl⟩

/-- The bytes of one connection that are handed up. -/
theorem Good.handUp (h : Good s) (response : ComInfra.EComResponse)
    (hone : ∃ connection, ∀ byte ∈ s.mRecvBuffer, byte.1 = connection) :
    Good { s with
      mInterruptResp := response
      mRecvBuffer := []
      handed := s.handed ++ [s.mRecvBuffer] } := by
  refine ⟨⟨?_, fun bytes hbytes => ?_, h.ordered⟩, h.bounded, h.socket, fun hne => absurd rfl hne⟩
  · show (s.handed ++ [s.mRecvBuffer]).flatten ++ [] = s.received
    rw [List.append_nil, List.flatten_append, List.flatten_singleton, h.conserved]
  · rcases List.mem_append.mp hbytes with hbytes | hbytes
    · exact h.unmixed bytes hbytes
    · rw [List.mem_singleton.mp hbytes]
      exact hone

/-- **Interrupts that are processed in time** leave the stream as it should be, and nothing in
the buffer. -/
theorem Good.receiveData (h : Good s) {response : ComInfra.EComResponse}
    (htimely : Timely s (.receiveData response)) :
    Good (receiveData config s response) ∧ (receiveData config s response).mRecvBuffer = [] := by
  obtain ⟨closed, heq⟩ := @receiveData_eq config s response
  rw [heq]
  by_cases hempty : s.mRecvBuffer = []
  · rw [receiveLoop_of_empty hempty]
    exact h.settled hempty closed
  · obtain ⟨hresp, hstate, hone⟩ := htimely.resolve_left hempty
    rw [receiveLoop_of_data hresp hstate hempty response .nothing (h.queued hempty)]
    exact (h.handUp response hone).settled rfl closed

/-- **The interrupts are processed as they should be** exactly if it is in time. -/
theorem meets_receiveData_iff (h : Good s) (response : ComInfra.EComResponse) :
    Meets config s (.receiveData response) ↔ Timely s (.receiveData response) := by
  constructor
  · rintro ⟨hintact, hall⟩
    have hflat : (IPComLayer.receiveData config s response).handed.flatten =
      (IPComLayer.receiveData config s response).received := hall response rfl
    obtain ⟨closed, heq⟩ := @receiveData_eq config s response
    by_cases hempty : s.mRecvBuffer = []
    · exact .inl hempty
    by_cases hdata : s.mInterruptResp = .processDataOk ∧ s.mConnectionState = .connected
    · -- the last call had the bytes of the buffer
      rw [receiveLoop_of_data hdata.1 hdata.2 hempty response .nothing (h.queued hempty)] at heq
      have hhanded : (IPComLayer.receiveData config s response).handed =
          s.handed ++ [s.mRecvBuffer] := by
        rw [heq, (settled_handed _ closed).1]
      refine .inr ⟨hdata.1, hdata.2, hintact.unmixed s.mRecvBuffer ?_⟩
      show s.mRecvBuffer ∈ (IPComLayer.receiveData config s response).handed
      rw [hhanded]
      exact List.mem_append_right _ List.mem_cons_self
    · -- the bytes of the buffer have not been handed up
      rw [receiveLoop_of_not hdata] at heq
      rw [heq, (settled_handed s closed).1, (settled_handed s closed).2] at hflat
      exact absurd (List.append_right_eq_self.mp (h.conserved.trans hflat.symm)) hempty
  · intro htimely
    obtain ⟨hgood, hempty⟩ := @Good.receiveData config s h response htimely
    have hconserved := hgood.conserved
    rw [hempty, List.append_nil] at hconserved
    exact ⟨hgood.toIntact, fun _ _ => hconserved⟩

/-- **One step** is as it should be exactly where it is in time. -/
theorem meets_step_iff (h : Good s) (st : Step) : Meets config s st ↔ Timely s st := by
  cases st with
  | readable data =>
    refine iff_of_true ⟨?_, nofun⟩ trivial
    rw [next]
    split_ifs
    · exact (h.recvData (.connection data)).toIntact
    · exact h.toIntact
  | attempt =>
    refine iff_of_true ⟨?_, nofun⟩ trivial
    rw [next]
    split_ifs
    · exact (h.recvData .listening).toIntact
    · exact h.toIntact
  | receiveData response => exact meets_receiveData_iff h response

theorem Good.next (h : Good s) {st : Step} (htimely : Timely s st) : Good (next config s st) := by
  cases st with
  | readable data =>
    rw [IPComLayer.next]
    split_ifs
    · exact h.recvData (.connection data)
    · exact h
  | attempt =>
    rw [IPComLayer.next]
    split_ifs
    · exact h.recvData .listening
    · exact h
  | receiveData response => exact (h.receiveData htimely).1

end

theorem good_initial : Good (initial config) where
  conserved := rfl
  unmixed := nofun
  ordered := List.Pairwise.nil
  bounded := nofun
  socket := by
    intro connection hsocket
    rw [initial] at hsocket ⊢
    cases hserver : config.isServer with
    | true =>
      simp [hserver] at hsocket
    | false =>
      simp only [hserver] at hsocket ⊢
      rw [← Option.some.inj hsocket]
      rfl
  queued := fun hne => absurd rfl hne

end IPComLayer

end Forte
