import Forte.Communication.HTTPHandler

/-!
# Which requests are answered

Every request to the HTTP server should be answered once, or its socket closed once, and the
answers of a block should go to its requests in the order of their arrival. For one step this is
so, in a state where it was so before, exactly if the step is in order
(`Forte.HTTPHandler.meets_iff_orderly`), and so it is for the steps of a run
(`Forte.HTTPHandler.answers_iff`).
-/

namespace Forte

namespace HTTPHandler

variable {Layer : Type} [DecidableEq Layer]

section

variable {getNumRD : Layer → ℕ} {s : HTTPHandler Layer}

/-! ### What is known of every state -/

/-- **What is known of the states** whether or not they are as they should be. -/
structure Known (s : HTTPHandler Layer) : Prop where
  nodup : (s.mServerLayers.map HTTPServerWaiting.mLayer).Nodup
  opened : ∀ layer ∈ s.mServerLayers.map HTTPServerWaiting.mLayer, layer ∈ s.opened
  initialized : ∀ layer ∈ s.mServerLayers.map HTTPServerWaiting.mLayer,
    layer ∈ s.mCorrectlyInitialized
  waiting : ∀ socket ∈ waiting s.mServerLayers, socket ∈ s.received
  requests : ∀ layer, ∀ socket ∈ s.requests layer, socket ∈ s.received
  acceptedNodup : s.mAcceptedSockets.Nodup
  accepted : ∀ socket ∈ s.mAcceptedSockets, socket ∉ s.received ∧ socket < s.connections
  received : ∀ socket ∈ s.received, socket < s.connections

omit [DecidableEq Layer] in
theorem known_initial : Known (initial : HTTPHandler Layer) where
  nodup := List.nodup_nil
  opened := nofun
  initialized := nofun
  waiting := nofun
  requests := nofun
  acceptedNodup := List.nodup_nil
  accepted := nofun
  received := nofun

omit [DecidableEq Layer] in
/-- A step that only takes sockets from the entries, or entries, or closes sockets. -/
theorem Known.of_subset {s' : HTTPHandler Layer} (h : Known s)
    (hlayers : (s'.mServerLayers.map HTTPServerWaiting.mLayer).Sublist
      (s.mServerLayers.map HTTPServerWaiting.mLayer))
    (hwaiting : ∀ socket ∈ HTTPHandler.waiting s'.mServerLayers,
      socket ∈ HTTPHandler.waiting s.mServerLayers)
    (hopened : s'.opened = s.opened)
    (hinitialized : s'.mCorrectlyInitialized = s.mCorrectlyInitialized)
    (hrequests : s'.requests = s.requests) (hreceived : s'.received = s.received)
    (haccepted : s'.mAcceptedSockets.Sublist s.mAcceptedSockets)
    (hconnections : s'.connections = s.connections) : Known s' where
  nodup := h.nodup.sublist hlayers
  opened := fun layer hlayer => hopened ▸ h.opened layer (hlayers.subset hlayer)
  initialized := fun layer hlayer => hinitialized ▸ h.initialized layer (hlayers.subset hlayer)
  waiting := fun socket hsocket => hreceived ▸ h.waiting socket (hwaiting socket hsocket)
  requests := fun layer socket hsocket => hreceived ▸ h.requests layer socket (hrequests ▸ hsocket)
  acceptedNodup := h.acceptedNodup.sublist haccepted
  accepted := fun socket hsocket =>
    hreceived ▸ hconnections ▸ h.accepted socket (haccepted.subset hsocket)
  received := fun socket hsocket => hconnections ▸ h.received socket (hreceived ▸ hsocket)

theorem Known.sendServerAnswerHelper (h : Known s) (paLayer : Layer) (paAnswer : HTTPStatus)
    (paFromRecv : Bool) : Known (s.sendServerAnswerHelper paLayer paAnswer paFromRecv) := by
  rw [HTTPHandler.sendServerAnswerHelper]
  split
  · exact h
  · rename_i serverLayer hfind
    split
    · exact h.of_subset (.refl _) (fun _ => id) rfl rfl rfl rfl (.refl _) rfl
    · rename_i first rest hsockets
      refine h.of_subset ?_ (fun _ => mem_waiting_of_tail hfind) rfl rfl rfl rfl (.refl _) rfl
      exact map_mLayer_updateFirst _ _ s.mServerLayers ▸ .refl _

theorem Known.forceClose (h : Known s) (paLayer : Layer) : Known (s.forceClose paLayer) := by
  rw [HTTPHandler.forceClose]
  split
  · exact h
  · rename_i serverLayer hfind
    split
    · exact h
    · rename_i first rest hsockets
      refine h.of_subset ?_ (fun _ => mem_waiting_of_tail hfind) rfl rfl rfl rfl (.refl _) rfl
      exact map_mLayer_updateFirst _ _ s.mServerLayers ▸ .refl _

omit [DecidableEq Layer] in
theorem Known.removeServerPath (h : Known s) (paPath : Text) :
    Known (s.removeServerPath paPath) := by
  obtain ⟨listening, heq⟩ := s.exists_removeServerPath paPath
  rw [heq]
  split
  · exact h.of_subset (.refl _) (fun _ => id) rfl rfl rfl rfl (.refl _) rfl
  · exact h.of_subset (List.eraseP_sublist.map _) (fun _ => mem_waiting_of_eraseP) rfl rfl rfl rfl
      (.refl _) rfl

theorem Known.addServerPath (h : Known s) (paLayer : Layer) (paPath : Text) (socket : Bool) :
    Known (s.addServerPath paLayer paPath socket) := by
  rw [HTTPHandler.addServerPath]
  split
  · exact h
  · rename_i hnew
    have hopened : ∀ layer ∈ s.mServerLayers.map HTTPServerWaiting.mLayer,
        layer ∈ paLayer :: s.opened :=
      fun layer hlayer => List.mem_cons_of_mem _ (h.opened layer hlayer)
    dsimp only
    split
    · exact ⟨h.nodup, hopened, h.initialized, h.waiting, h.requests, h.acceptedNodup, h.accepted,
        h.received⟩
    · have hmap : (s.mServerLayers ++ [HTTPServerWaiting.mk paLayer paPath []]).map
          HTTPServerWaiting.mLayer =
            s.mServerLayers.map HTTPServerWaiting.mLayer ++ [paLayer] := List.map_append
      refine ⟨?_, fun layer hlayer => ?_, fun layer hlayer => ?_, fun k hk => ?_, h.requests,
        h.acceptedNodup, h.accepted, h.received⟩
      · rw [hmap]
        refine List.nodup_append.mpr ⟨h.nodup, List.nodup_singleton _, ?_⟩
        rintro layer hlayer _ hsame rfl
        exact hnew (h.opened _ (List.mem_singleton.mp hsame ▸ hlayer))
      · rw [hmap] at hlayer
        rcases List.mem_append.mp hlayer with hlayer | hlayer
        · exact hopened layer hlayer
        · exact List.mem_singleton.mp hlayer ▸ List.mem_cons_self
      · rw [hmap] at hlayer
        rcases List.mem_append.mp hlayer with hlayer | hlayer
        · exact List.mem_cons_of_mem _ (h.initialized layer hlayer)
        · exact List.mem_singleton.mp hlayer ▸ List.mem_cons_self
      · refine h.waiting k ?_
        rwa [waiting_concat] at hk

/-- A request that may be handed to a block. -/
theorem Known.recvServerData (h : Known s) (paLayer : Layer) {socket : ℕ}
    (hsocket : socket ∈ s.received) (paParameterValues : List Text) :
    Known (s.recvServerData getNumRD paLayer socket paParameterValues) := by
  rw [HTTPHandler.recvServerData]
  split
  · refine ⟨h.nodup, h.opened, h.initialized, h.waiting, fun layer k hk => ?_, h.acceptedNodup,
      h.accepted, h.received⟩
    dsimp only at hk
    rcases eq_or_ne layer paLayer with rfl | hne
    · rw [Function.update_self] at hk
      rcases List.mem_append.mp hk with hk | hk
      · exact h.requests layer k hk
      · exact List.mem_singleton.mp hk ▸ hsocket
    · rw [Function.update_of_ne hne] at hk
      exact h.requests layer k hk
  · exact h.sendServerAnswerHelper paLayer .badRequest true

/-- **What is known of a state is known after a request.** -/
theorem Known.recvServers (h : Known s) {paSocket : ℕ} (hopen : s.IsOpen paSocket)
    (request : Option (Text × List Text)) : Known (s.recvServers getNumRD paSocket request) := by
  have hreceived : Known
      { s with
        mAcceptedSockets := s.mAcceptedSockets.erase paSocket
        received := paSocket :: s.received } := by
    refine ⟨h.nodup, h.opened, h.initialized, ?_, ?_, h.acceptedNodup.erase _, ?_, ?_⟩
    · exact fun k hk => List.mem_cons_of_mem _ (h.waiting k hk)
    · exact fun layer k hk => List.mem_cons_of_mem _ (h.requests layer k hk)
    · intro k hk
      obtain ⟨hne, hk⟩ := (List.Nodup.mem_erase_iff h.acceptedNodup).mp hk
      refine ⟨fun hmem => ?_, (h.accepted k hk).2⟩
      rcases List.mem_cons.mp hmem with heq | hmem
      · exact hne heq
      · exact (h.accepted k hk).1 hmem
    · intro k hk
      rcases List.mem_cons.mp hk with rfl | hk
      · exact hopen.1
      · exact h.received k hk
  unfold HTTPHandler.recvServers
  dsimp only
  split
  · exact hreceived
  · split
    · exact hreceived.of_subset (.refl _) (fun _ => id) rfl rfl rfl rfl (.refl _) rfl
    · split
      · exact hreceived.of_subset (.refl _) (fun _ => id) rfl rfl rfl rfl (.refl _) rfl
      · rename_i serverLayer hfind
        refine Known.recvServerData ?_ _ List.mem_cons_self _
        rename_i path parameterValues hne
        have hmap := map_mLayer_updateFirst
          (fun serverLayer : HTTPServerWaiting Layer => decide (serverLayer.mPath = path))
          (· ++ [paSocket]) s.mServerLayers
        refine ⟨hmap ▸ hreceived.nodup, hmap ▸ hreceived.opened, hmap ▸ hreceived.initialized, ?_,
          hreceived.requests, hreceived.acceptedNodup, hreceived.accepted, hreceived.received⟩
        intro k hk
        rcases mem_waiting_updateFirst hfind hk with hk | hk
        · exact hreceived.waiting k hk
        · rcases List.mem_append.mp hk with hk | hk
          · refine hreceived.waiting k (List.mem_flatMap.mpr ⟨serverLayer, ?_, hk⟩)
            exact List.mem_of_find?_eq_some hfind
          · exact List.mem_singleton.mp hk ▸ List.mem_cons_self

/-! ### Steps -/

/-- A step with no request, that does not put any answer before an earlier one. -/
theorem Sound.of_balance {s' : HTTPHandler Layer} (h : Sound s)
    (hreceived : s'.received = s.received)
    (hbalance : ∀ socket ∈ s.received, s'.balance socket = s.balance socket)
    (hrequests : s'.requests = s.requests)
    (horder : ∀ layer, (s'.answers layer ++ waitingOf s'.mServerLayers layer).Sublist
      (s.answers layer ++ waitingOf s.mServerLayers layer))
    (hunderrun : s'.underrun = s.underrun) : Sound s' where
  once := fun socket hsocket =>
    (hbalance socket (hreceived ▸ hsocket)).trans (h.once socket (hreceived ▸ hsocket))
  inOrder := fun layer => hrequests ▸ (horder layer).trans (h.inOrder layer)
  underrun := hunderrun.trans h.underrun

theorem Sound.addServerPath (h : Sound s) (paLayer : Layer) (paPath : Text) (socket : Bool) :
    Sound (s.addServerPath paLayer paPath socket) := by
  rw [HTTPHandler.addServerPath]
  split
  · exact h
  · dsimp only
    split
    · exact ⟨h.once, h.inOrder, h.underrun⟩
    · refine h.of_balance rfl (fun k _ => ?_) rfl (fun layer => ?_) rfl
      · rw [balance, balance]
        dsimp only
        rw [waiting_concat]
        rfl
      · dsimp only
        rw [waitingOf_concat]

theorem Sound.removeServerPath (h : Sound s) (paPath : Text) :
    Sound (s.removeServerPath paPath) := by
  have hbalance := balance_removeServerPath s paPath
  obtain ⟨listening, heq⟩ := s.exists_removeServerPath paPath
  rw [heq] at hbalance ⊢
  revert hbalance
  split
  · exact fun _ => ⟨h.once, h.inOrder, h.underrun⟩
  · intro hbalance
    refine h.of_balance rfl (fun k _ => hbalance k) rfl (fun layer => ?_) rfl
    exact (waitingOf_eraseP_sublist _ layer).append_left _

/-- **What is left behind the first socket** of an entry still waits in order. -/
theorem Known.waitingOf_tail (hk : Known s) {paLayer : Layer}
    {serverLayer : HTTPServerWaiting Layer}
    (hfind : (s.mServerLayers.find? fun e => e.mLayer = paLayer) = some serverLayer)
    {socket : ℕ} {rest : List ℕ} (hsockets : serverLayer.mSockets = socket :: rest)
    (layer : Layer) :
    waitingOf s.mServerLayers layer =
      (if paLayer = layer then [socket] else []) ++
        waitingOf (updateFirst (fun e => e.mLayer = paLayer) List.tail s.mServerLayers) layer := by
  have hlayer := List.find?_some hfind
  rw [decide_eq_true_iff] at hlayer
  rw [waitingOf_updateFirst hk.nodup hfind, hlayer, hsockets]
  by_cases heq : paLayer = layer
  · rw [if_pos heq, if_pos heq, ← heq, ← hlayer, waitingOf_of_find? hk.nodup hfind, hsockets]
    rfl
  · rw [if_neg heq, if_neg heq, List.nil_append]

theorem Sound.forceClose (h : Sound s) (hk : Known s) (paLayer : Layer) :
    Sound (s.forceClose paLayer) := by
  have hbalance := balance_forceClose s paLayer
  rw [HTTPHandler.forceClose] at hbalance ⊢
  revert hbalance
  split
  · exact fun _ => h
  · rename_i serverLayer hfind
    split
    · exact fun _ => h
    · rename_i first rest hsockets
      intro hbalance
      refine h.of_balance rfl (fun k _ => hbalance k) rfl (fun layer => ?_) rfl
      rw [hk.waitingOf_tail hfind hsockets layer]
      exact (List.sublist_append_right _ _).append_left _

/-- **An answer goes to the request** that is the next one to be answered. -/
theorem Sound.sendServerAnswerHelper (h : Sound s) (hk : Known s) {paLayer : Layer}
    (hne : ∀ serverLayer, (s.mServerLayers.find? fun e => e.mLayer = paLayer) = some serverLayer →
      serverLayer.mSockets ≠ []) (paAnswer : HTTPStatus) (paFromRecv : Bool) :
    Sound (s.sendServerAnswerHelper paLayer paAnswer paFromRecv) := by
  have hbalance := balance_sendServerAnswerHelper s paLayer paAnswer paFromRecv
  rw [HTTPHandler.sendServerAnswerHelper] at hbalance ⊢
  revert hbalance
  split
  · exact fun _ => h
  · rename_i serverLayer hfind
    split
    · rename_i hnil
      exact absurd hnil (hne serverLayer hfind)
    · rename_i first rest hsockets
      intro hbalance
      refine h.of_balance rfl (fun k _ => hbalance k) rfl (fun layer => ?_) rfl
      rw [hk.waitingOf_tail hfind hsockets layer]
      dsimp only
      split
      · exact (List.sublist_append_right _ _).append_left _
      · split
        · rename_i heq
          rw [← heq, Function.update_self, List.append_assoc]
        · rename_i hother
          rw [Function.update_of_ne (Ne.symm hother), List.nil_append]

/-- **An RSP event** is right if and only if a request is waiting. -/
theorem sound_sendData_iff (h : Sound s) (hk : Known s) (paLayer : Layer) :
    Sound (s.sendData paLayer) ↔ (paLayer ∈ s.mCorrectlyInitialized →
      ∀ serverLayer, (s.mServerLayers.find? fun e => e.mLayer = paLayer) = some serverLayer →
        serverLayer.mSockets ≠ []) := by
  rw [sendData]
  split
  · rename_i hinitialized
    rw [forall_prop_of_true hinitialized]
    refine ⟨fun hsound serverLayer hfind hnil => ?_, fun hne =>
      h.sendServerAnswerHelper hk hne .ok false⟩
    have hunderrun := hsound.underrun
    rw [sendServerAnswerHelper, hfind] at hunderrun
    dsimp only at hunderrun
    rw [hnil] at hunderrun
    exact Bool.noConfusion hunderrun
  · rename_i hnot
    exact iff_of_true h fun hinitialized => absurd hinitialized hnot

/-- A request that is bad, for a block that has an entry. -/
theorem recvServers_of_ne {path : Text} {serverLayer : HTTPServerWaiting Layer}
    (hfind : (s.mServerLayers.find? fun e => e.mPath = path) = some serverLayer)
    {parameterValues : List Text} (hlength : parameterValues.length ≠ getNumRD serverLayer.mLayer)
    (paSocket : ℕ) :
    s.recvServers getNumRD paSocket (some (path, parameterValues)) =
      { s with
        mAcceptedSockets := s.mAcceptedSockets.erase paSocket
        received := paSocket :: s.received
        mServerLayers :=
          updateFirst (fun e => e.mPath = path) (· ++ [paSocket])
            s.mServerLayers }.sendServerAnswerHelper serverLayer.mLayer .badRequest true := by
  have hne : s.mServerLayers ≠ [] := List.ne_nil_of_mem (List.mem_of_find?_eq_some hfind)
  unfold recvServers
  dsimp only
  rw [if_neg hne, hfind]
  dsimp only
  rw [recvServerData, if_neg hlength]

/-- The entry that has got a socket is found by its layer. -/
theorem Known.find?_updateFirst (hk : Known s) {p : HTTPServerWaiting Layer → Bool}
    {serverLayer : HTTPServerWaiting Layer} (hfind : s.mServerLayers.find? p = some serverLayer)
    (f : List ℕ → List ℕ) :
    ((updateFirst p f s.mServerLayers).find? fun e => e.mLayer = serverLayer.mLayer) =
      some { serverLayer with mSockets := f serverLayer.mSockets } := by
  have hnodup : ((updateFirst p f s.mServerLayers).map HTTPServerWaiting.mLayer).Nodup := by
    rw [map_mLayer_updateFirst]
    exact hk.nodup
  obtain ⟨before, after, -, heq, -⟩ := exists_first hfind f
  refine @find?_mLayer _ _ _ hnodup { serverLayer with mSockets := f serverLayer.mSockets } ?_
  rw [heq]
  exact List.mem_append_right _ List.mem_cons_self

/-- **The sockets behind a bad request**: the first socket of the block has gone, and its own is
the last one. -/
theorem Known.waitingOf_recvServers (hk : Known s) {path : Text}
    {serverLayer : HTTPServerWaiting Layer}
    (hfind : (s.mServerLayers.find? fun e => e.mPath = path) = some serverLayer)
    {parameterValues : List Text} (hlength : parameterValues.length ≠ getNumRD serverLayer.mLayer)
    (paSocket : ℕ) (layer : Layer) :
    waitingOf (s.recvServers getNumRD paSocket (some (path, parameterValues))).mServerLayers layer =
      if serverLayer.mLayer = layer then (serverLayer.mSockets ++ [paSocket]).tail
      else waitingOf s.mServerLayers layer := by
  have hfirst := hk.find?_updateFirst hfind (· ++ [paSocket])
  have hnodup : ((updateFirst (fun e => e.mPath = path) (· ++ [paSocket]) s.mServerLayers).map
      HTTPServerWaiting.mLayer).Nodup := by
    rw [map_mLayer_updateFirst]
    exact hk.nodup
  rw [recvServers_of_ne hfind hlength, HTTPHandler.sendServerAnswerHelper, hfirst]
  dsimp only
  obtain ⟨first, rest, hsockets⟩ := List.exists_cons_of_ne_nil
    (List.append_ne_nil_of_right_ne_nil serverLayer.mSockets (List.cons_ne_nil paSocket []))
  rw [hsockets]
  dsimp only
  rw [waitingOf_updateFirst hnodup hfirst, waitingOf_updateFirst hk.nodup hfind]
  dsimp only
  rw [hsockets]
  split <;> rfl

theorem sendServerAnswerHelper_frame (s : HTTPHandler Layer) (paLayer : Layer)
    (paAnswer : HTTPStatus) :
    (s.sendServerAnswerHelper paLayer paAnswer true).answers = s.answers ∧
      (s.sendServerAnswerHelper paLayer paAnswer true).requests = s.requests ∧
        (s.sendServerAnswerHelper paLayer paAnswer true).received = s.received := by
  rw [sendServerAnswerHelper]
  split
  · exact ⟨rfl, rfl, rfl⟩
  · split <;> exact ⟨rfl, rfl, rfl⟩

theorem received_recvServers (s : HTTPHandler Layer) (paSocket : ℕ)
    (request : Option (Text × List Text)) :
    (s.recvServers getNumRD paSocket request).received = paSocket :: s.received := by
  unfold recvServers
  dsimp only
  split
  · rfl
  · split
    · rfl
    · split
      · rfl
      · rw [recvServerData]
        split
        · rfl
        · exact (sendServerAnswerHelper_frame _ _ _).2.2

/-- A request that a block gets. -/
theorem recvServers_of_eq {path : Text} {serverLayer : HTTPServerWaiting Layer}
    (hfind : (s.mServerLayers.find? fun e => e.mPath = path) = some serverLayer)
    {parameterValues : List Text} (hlength : parameterValues.length = getNumRD serverLayer.mLayer)
    (paSocket : ℕ) :
    s.recvServers getNumRD paSocket (some (path, parameterValues)) =
      { s with
        mAcceptedSockets := s.mAcceptedSockets.erase paSocket
        received := paSocket :: s.received
        mServerLayers := updateFirst (fun e => e.mPath = path) (· ++ [paSocket]) s.mServerLayers
        requests := Function.update s.requests serverLayer.mLayer
          (s.requests serverLayer.mLayer ++ [paSocket]) } := by
  have hne : s.mServerLayers ≠ [] := List.ne_nil_of_mem (List.mem_of_find?_eq_some hfind)
  unfold recvServers
  dsimp only
  rw [if_neg hne, hfind]
  dsimp only
  rw [recvServerData, if_pos hlength]

/-- A request that is not well formed, or has no path. -/
theorem recvServers_of_none (hne : s.mServerLayers ≠ []) {request : Option (Text × List Text)}
    (hrequest : ∀ path parameterValues, request = some (path, parameterValues) →
      (s.mServerLayers.find? fun e => e.mPath = path) = none) (paSocket : ℕ) :
    s.recvServers getNumRD paSocket request =
      { s with
        mAcceptedSockets := s.mAcceptedSockets.erase paSocket
        received := paSocket :: s.received }.handlerReceivedWrongPath paSocket := by
  unfold recvServers
  dsimp only
  rw [if_neg hne]
  split
  · rfl
  · rename_i path parameterValues
    rw [hrequest path parameterValues rfl]

/-- **A new request in order** keeps the answers in order. -/
theorem inOrder_recvServers (h : Sound s) (hk : Known s) (hne : s.mServerLayers ≠ [])
    {request : Option (Text × List Text)}
    (hrequest : ∀ path parameterValues, request = some (path, parameterValues) →
      ∀ serverLayer, (s.mServerLayers.find? fun e => e.mPath = path) = some serverLayer →
        parameterValues.length ≠ getNumRD serverLayer.mLayer → serverLayer.mSockets = [])
    (paSocket : ℕ) :
    (∀ layer, ((s.recvServers getNumRD paSocket request).answers layer ++
        waitingOf (s.recvServers getNumRD paSocket request).mServerLayers layer).Sublist
          ((s.recvServers getNumRD paSocket request).requests layer)) ∧
      (s.recvServers getNumRD paSocket request).underrun = false := by
  by_cases hnone : ∀ path parameterValues, request = some (path, parameterValues) →
      (s.mServerLayers.find? fun e => e.mPath = path) = none
  · rw [recvServers_of_none hne hnone]
    exact ⟨h.inOrder, h.underrun⟩
  push Not at hnone
  obtain ⟨path, parameterValues, rfl, hfound⟩ := hnone
  obtain ⟨serverLayer, hfind⟩ := Option.ne_none_iff_exists'.mp hfound
  have hwaiting := waitingOf_of_find? hk.nodup hfind
  by_cases hlength : parameterValues.length = getNumRD serverLayer.mLayer
  · rw [recvServers_of_eq hfind hlength]
    refine ⟨fun layer => ?_, h.underrun⟩
    dsimp only
    rw [waitingOf_updateFirst hk.nodup hfind]
    split
    · rename_i heq
      subst heq
      rw [Function.update_self, ← List.append_assoc, ← hwaiting]
      exact (h.inOrder serverLayer.mLayer).append_right [paSocket]
    · rename_i hother
      rw [Function.update_of_ne (Ne.symm hother)]
      exact h.inOrder layer
  · have hnil := hrequest path parameterValues rfl serverLayer hfind hlength
    have hfirst := hk.find?_updateFirst hfind (· ++ [paSocket])
    obtain ⟨hanswers, hrequests, -⟩ := sendServerAnswerHelper_frame
      { s with
        mAcceptedSockets := s.mAcceptedSockets.erase paSocket
        received := paSocket :: s.received
        mServerLayers := updateFirst (fun e => e.mPath = path) (· ++ [paSocket]) s.mServerLayers }
      serverLayer.mLayer .badRequest
    refine ⟨fun layer => ?_, ?_⟩
    · rw [hk.waitingOf_recvServers hfind hlength, recvServers_of_ne hfind hlength, hanswers,
        hrequests]
      dsimp only
      split
      · rename_i heq
        rw [hnil, List.nil_append, List.tail_cons, List.append_nil]
        exact (List.sublist_append_left _ _).trans (h.inOrder layer)
      · exact h.inOrder layer
    · rw [recvServers_of_ne hfind hlength, sendServerAnswerHelper, hfirst]
      dsimp only
      rw [hnil]
      exact h.underrun

/-- **A request is treated as it should be** if and only if there is a path, it is the first one
on its connection, and a bad one comes when no other one is waiting. -/
theorem sound_recvServers_iff (h : Sound s) (hk : Known s) {paSocket : ℕ}
    (hopen : s.IsOpen paSocket) (request : Option (Text × List Text)) :
    Sound (s.recvServers getNumRD paSocket request) ↔
      s.mServerLayers ≠ [] ∧ paSocket ∉ s.received ∧
        ∀ path parameterValues, request = some (path, parameterValues) →
          ∀ serverLayer, (s.mServerLayers.find? fun e => e.mPath = path) = some serverLayer →
            parameterValues.length ≠ getNumRD serverLayer.mLayer →
              serverLayer.mSockets = [] := by
  have hclosed : s.closedSockets.count paSocket = 0 := List.count_eq_zero.mpr hopen.2
  have hbalance := @balance_recvServers _ _ getNumRD s paSocket request
  constructor
  · intro hsound
    have hone := hsound.once paSocket (received_recvServers s paSocket request ▸
      List.mem_cons_self)
    rw [hbalance] at hone
    have hpaths : s.mServerLayers ≠ [] := by
      intro hnil
      rw [if_pos hnil, balance, hclosed, hnil] at hone
      exact Nat.noConfusion hone
    have hnew : paSocket ∉ s.received := by
      intro hmem
      rw [if_neg hpaths, h.once paSocket hmem, List.count_singleton_self] at hone
      omega
    refine ⟨hpaths, hnew, ?_⟩
    rintro path parameterValues rfl serverLayer hfind hlength
    by_contra hne
    obtain ⟨first, rest, hsockets⟩ := List.exists_cons_of_ne_nil hne
    -- its socket is now behind the ones of other requests
    have horder := hsound.inOrder serverLayer.mLayer
    rw [hk.waitingOf_recvServers hfind hlength, if_pos rfl, recvServers_of_ne hfind hlength,
      (sendServerAnswerHelper_frame _ _ _).2.1, hsockets, List.cons_append, List.tail_cons]
      at horder
    refine hnew (hk.requests serverLayer.mLayer paSocket (horder.subset ?_))
    exact List.mem_append_right _ (List.mem_append_right _ List.mem_cons_self)
  · rintro ⟨hpaths, hnew, hrequest⟩
    obtain ⟨hinOrder, hunderrun⟩ := inOrder_recvServers h hk hpaths hrequest paSocket
    refine ⟨fun socket hsocket => ?_, hinOrder, hunderrun⟩
    rw [hbalance, if_neg hpaths]
    rw [received_recvServers] at hsocket
    rcases List.mem_cons.mp hsocket with rfl | hsocket
    · have hwaiting : (waiting s.mServerLayers).count socket = 0 :=
        List.count_eq_zero.mpr fun hmem => hnew (hk.waiting socket hmem)
      rw [balance, hwaiting, hclosed, List.count_singleton_self]
    · have hne : socket ≠ paSocket := fun heq => hnew (heq ▸ hsocket)
      rw [h.once socket hsocket, List.count_singleton, beq_false_of_ne hne.symm]
      rfl

omit [DecidableEq Layer] in
theorem Known.accept (h : Known s) : Known s.accept := by
  rw [HTTPHandler.accept]
  split
  · refine ⟨h.nodup, h.opened, h.initialized, h.waiting, h.requests, ?_, fun k hk => ?_,
      fun k hk => Nat.lt_succ_of_lt (h.received k hk)⟩
    · refine List.nodup_append.mpr ⟨h.acceptedNodup, List.nodup_singleton _, ?_⟩
      rintro k hk _ hsame rfl
      exact absurd (List.mem_singleton.mp hsame ▸ (h.accepted k hk).2) (lt_irrefl _)
    · rcases List.mem_append.mp hk with hk | hk
      · exact ⟨(h.accepted k hk).1, Nat.lt_succ_of_lt (h.accepted k hk).2⟩
      · rw [List.mem_singleton.mp hk]
        exact ⟨fun hmem => lt_irrefl _ (h.received _ hmem), Nat.lt_succ_self _⟩
  · exact h

omit [DecidableEq Layer] in
theorem Known.checkAcceptedSockets (h : Known s) (timeout : ℕ → Bool) :
    Known (s.checkAcceptedSockets timeout) :=
  h.of_subset (.refl _) (fun _ => id) rfl rfl rfl rfl List.filter_sublist rfl

theorem Sound.accept (h : Sound s) : Sound s.accept := by
  rw [HTTPHandler.accept]
  split
  · exact ⟨h.once, h.inOrder, h.underrun⟩
  · exact h

/-- **A timeout** only closes sockets that no request has come from. -/
theorem Sound.checkAcceptedSockets (h : Sound s) (hk : Known s) (timeout : ℕ → Bool) :
    Sound (s.checkAcceptedSockets timeout) := by
  refine h.of_balance rfl (fun socket hsocket => ?_) rfl (fun _ => .refl _) rfl
  have hclosed : ((s.mAcceptedSockets.filter timeout).map
      fun socket => (socket, (none : Option HTTPStatus))).map Prod.fst =
        s.mAcceptedSockets.filter timeout := (List.map_map ..).trans (List.map_id _)
  have hnot : (s.mAcceptedSockets.filter timeout).count socket = 0 :=
    List.count_eq_zero.mpr fun hmem => (hk.accepted socket (List.mem_filter.mp hmem).1).1 hsocket
  rw [balance, balance, closedSockets, closedSockets, HTTPHandler.checkAcceptedSockets]
  dsimp only
  rw [List.map_append, List.count_append, hclosed, hnot, Nat.add_zero]

/-- **What is known of a state is known after every step.** -/
theorem Known.next (h : Known s) (st : Step Layer) : Known (next getNumRD s st) := by
  cases st with
  | accept => exact h.accept
  | timeout timeout => exact h.checkAcceptedSockets timeout
  | addServerPath paLayer paPath socket => exact h.addServerPath paLayer paPath socket
  | removeServerPath paPath => exact h.removeServerPath paPath
  | forceClose paLayer => exact h.forceClose paLayer
  | recvServers paSocket request =>
    rw [HTTPHandler.next]
    split
    · rename_i hopen
      exact h.recvServers hopen request
    · exact h
  | sendData paLayer =>
    rw [HTTPHandler.next, sendData]
    split
    · exact h.sendServerAnswerHelper paLayer .ok false
    · exact h

/-- **In a good state a step is as it should be if and only if it is in order.** -/
theorem meets_iff_orderly (h : Sound s) (hk : Known s) (st : Step Layer) :
    Meets getNumRD s st ↔ Orderly getNumRD s st := by
  cases st with
  | accept => exact iff_of_true h.accept trivial
  | timeout timeout => exact iff_of_true (h.checkAcceptedSockets hk timeout) trivial
  | addServerPath paLayer paPath socket =>
    exact iff_of_true (h.addServerPath paLayer paPath socket) trivial
  | removeServerPath paPath => exact iff_of_true (h.removeServerPath paPath) trivial
  | forceClose paLayer => exact iff_of_true (h.forceClose hk paLayer) trivial
  | recvServers paSocket request =>
    rw [Meets, next, Orderly]
    split
    · rename_i hopen
      rw [forall_prop_of_true hopen]
      exact sound_recvServers_iff h hk hopen request
    · rename_i hclosed
      exact iff_of_true h fun hopen => absurd hopen hclosed
  | sendData paLayer => exact sound_sendData_iff h hk paLayer

end

theorem sound_initial : Sound (initial : HTTPHandler Layer) where
  once := nofun
  inOrder := fun _ => .refl _
  underrun := rfl

/-- **Every request is answered once, or its socket closed once, the answers of a block go to its
requests in order, and no socket is taken from an empty list, after every step of a run, if and
only if all steps of the run are in order.** -/
theorem answers_iff (getNumRD : Layer → ℕ) (steps : List (Step Layer)) :
    Runs.Each (next getNumRD) (Meets getNumRD) initial steps ↔
      Runs.Each (next getNumRD) (Orderly getNumRD) initial steps :=
  @Runs.each_congr _ _ _ (fun s => Sound s ∧ Known s) _ _
    (fun _ st hgood hmeets => ⟨hmeets, hgood.2.next st⟩)
    (fun _ st hgood => meets_iff_orderly hgood.1 hgood.2 st) _ ⟨sound_initial, known_initial⟩
    steps

/-- **The answer to a bad request goes to another one**: of two requests to a block that has one
parameter the second has none, and its answer is sent to the first. -/
theorem not_meets_badRequest :
    ¬Runs.Each (next fun _ => 1) (Meets fun _ => 1) (initial : HTTPHandler Unit)
      [.addServerPath () (text "/a") true, .accept, .accept,
        .recvServers 0 (some (text "/a", [text "1"])), .recvServers 1 (some (text "/a", []))] := by
  intro h
  have horder := (h 4 (.recvServers 1 (some (text "/a", []))) rfl).inOrder ()
  exact absurd (horder.subset (a := 1) (by decide)) (by decide)

end HTTPHandler

end Forte
