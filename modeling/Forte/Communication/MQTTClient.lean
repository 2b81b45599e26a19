import Forte.Communication.LocalComLayer
import Forte.Lib.Runs

/-!
# The subscriptions of an MQTT client

A `CMQTTClient` keeps the layers that use its connection, and a list of those that have still to
be subscribed. A thread of its own runs the client, which connects and then subscribes one layer
after the other; the library reports with callbacks what has become of the requests, and that the
connection is lost; and layers come and go. All of these take turns in any order, and for a
subscription `runClient` gives up the lock.

* **A removed layer stays in the list** of those to be subscribed, if it is in there.
* **A success may come late**, when its connection is lost. It counts all the same: the layer is
  taken from the list, and with the last of them everything is taken to be subscribed.

`Forte.MQTTClient.subscriptions_iff` says in which runs the states are as they should be. The
layers in the callbacks have their client, and whether the thread is woken up is left out.
-/

namespace Forte

open LocalCom (EComServiceType)

/-- `MQTTStates`. -/
inductive MQTTStates
  | notConnected | connectionAsked | subscribing | allSubscribed
  deriving DecidableEq

/-- A `CMQTTClient`, with what the library knows of its connection. -/
structure MQTTClient (Layer : Type) where
  mMQTT_STATE : MQTTStates
  mLayers : List Layer
  mToResubscribe : List Layer
  /-- The layer that `runClient` has given up the lock for. -/
  layer : Option Layer
  connected : Bool
  /-- The number of connect requests that have not been answered. -/
  connects : ℕ
  /-- The layers of the subscribe requests on this connection that have not been answered. -/
  requests : List Layer
  /-- Those of the requests before, or without a connection. -/
  oldRequests : List Layer
  /-- The layers that have been subscribed on this connection. -/
  subscribed : List Layer

namespace MQTTClient

/-- `std::partition`: what is kept comes in any order. -/
structure Partition (Layer : Type) where
  kept : (Layer → Bool) → List Layer → List Layer
  perm : ∀ p layers, (kept p layers).Perm (layers.filter p)

variable {Layer : Type} [DecidableEq Layer]

/-- The client that `getNewClient` returns. -/
def initial : MQTTClient Layer where
  mMQTT_STATE := .connectionAsked
  mLayers := []
  mToResubscribe := []
  layer := none
  connected := false
  connects := 1
  requests := []
  oldRequests := []
  subscribed := []

/-- The requests that have not been answered. -/
def outstanding (s : MQTTClient Layer) (old : Bool) : List Layer :=
  if old then s.oldRequests else s.requests

/-- What the library makes of the answer to a subscribe request. -/
def answered (s : MQTTClient Layer) (layer : Layer) (old : Bool) : MQTTClient Layer :=
  if old then { s with oldRequests := s.oldRequests.erase layer }
  else { s with requests := s.requests.erase layer }

variable (partition : Partition Layer) (getComServiceType : Layer → EComServiceType)

/-- `removeLayerHelper`. -/
def removeLayerHelper (paLayer : Layer) (paLayerList : List Layer) : List Layer :=
  if paLayerList ≠ [] then partition.kept (fun elem => elem ≠ paLayer) paLayerList
  else paLayerList

/-- `removeToResubscribe`. -/
def removeToResubscribe (s : MQTTClient Layer) (paLayer : Layer) : MQTTClient Layer :=
  let toResubscribe := removeLayerHelper partition paLayer s.mToResubscribe
  { s with
    mToResubscribe := toResubscribe
    mMQTT_STATE := if toResubscribe = [] then .allSubscribed else s.mMQTT_STATE }

/-- `addLayer`. -/
def addLayer (s : MQTTClient Layer) (paLayer : Layer) : MQTTClient Layer :=
  let s := { s with mLayers := s.mLayers ++ [paLayer] }
  if getComServiceType paLayer = .subscriber then
    { s with
      mToResubscribe := s.mToResubscribe ++ [paLayer]
      mMQTT_STATE := if s.mMQTT_STATE = .allSubscribed then .subscribing else s.mMQTT_STATE }
  else s

/-- `removeLayer`. -/
def removeLayer (s : MQTTClient Layer) (paLayer : Layer) : MQTTClient Layer :=
  { s with mLayers := removeLayerHelper partition paLayer s.mLayers }

/-- `reconnect`. -/
def reconnect (s : MQTTClient Layer) : MQTTClient Layer :=
  { s with
    mMQTT_STATE := .notConnected
    mToResubscribe := s.mLayers.filter fun layer => getComServiceType layer = .subscriber }

/-- `runClient`, up to where it gives up the lock for a layer, with the answer of
`mqttConnect`. -/
def runClient (s : MQTTClient Layer) (connect : Bool) : MQTTClient Layer :=
  match s.mMQTT_STATE with
  | .notConnected =>
    if connect then { s with mMQTT_STATE := .connectionAsked, connects := s.connects + 1 } else s
  | .subscribing =>
    match s.mToResubscribe with
    | [] => { s with mMQTT_STATE := .allSubscribed }
    | layer :: _ => { s with layer := some layer }
  | _ => s

/-- `mqttSubscribe`, with the answer of the library, and the end of `runClient`. -/
def mqttSubscribe (s : MQTTClient Layer) (success : Bool) : MQTTClient Layer :=
  match s.layer with
  | none => s
  | some layer =>
    let s := { s with layer := none }
    if success then
      if s.connected then { s with requests := s.requests ++ [layer] }
      else { s with oldRequests := s.oldRequests ++ [layer] }
    else s

/-- `onMqttConnectionLost`; the subscriptions are lost as well. -/
def onMqttConnectionLost (s : MQTTClient Layer) : MQTTClient Layer :=
  { reconnect getComServiceType s with
    connected := false
    requests := []
    oldRequests := s.oldRequests ++ s.requests
    subscribed := [] }

/-- `onMqttConnectionSucceed`; nothing is subscribed on a new connection. -/
def onMqttConnectionSucceed (s : MQTTClient Layer) : MQTTClient Layer :=
  if 0 < s.connects then
    { s with
      mMQTT_STATE := .subscribing
      connected := true
      connects := s.connects - 1
      requests := []
      oldRequests := s.oldRequests ++ s.requests
      subscribed := [] }
  else s

/-- `onMqttConnectionFailed`. -/
def onMqttConnectionFailed (s : MQTTClient Layer) : MQTTClient Layer :=
  if 0 < s.connects then { s with mMQTT_STATE := .notConnected, connects := s.connects - 1 }
  else s

/-- `onSubscribeSucceed`, which the library calls for a request. -/
def onSubscribeSucceed (s : MQTTClient Layer) (layer : Layer) (old : Bool) : MQTTClient Layer :=
  if layer ∈ s.outstanding old then
    let s := s.answered layer old
    removeToResubscribe partition
      { s with subscribed := if old then s.subscribed else layer :: s.subscribed } layer
  else s

/-- `onSubscribeFailed`. -/
def onSubscribeFailed (s : MQTTClient Layer) (layer : Layer) (old : Bool) : MQTTClient Layer :=
  if layer ∈ s.outstanding old then s.answered layer old else s

/-- What happens to the client. -/
inductive Step (Layer : Type)
  | addLayer (paLayer : Layer)
  | removeLayer (paLayer : Layer)
  | runClient (connect : Bool)
  | mqttSubscribe (success : Bool)
  | onMqttConnectionLost
  | onMqttConnectionSucceed
  | onMqttConnectionFailed
  | onSubscribeSucceed (layer : Layer) (old : Bool)
  | onSubscribeFailed (layer : Layer) (old : Bool)
  deriving DecidableEq

/-- The client after a step. There is one thread that runs it, which comes back to `runClient`
when it has left it. -/
def next (s : MQTTClient Layer) : Step Layer → MQTTClient Layer
  | .addLayer paLayer => s.addLayer getComServiceType paLayer
  | .removeLayer paLayer => s.removeLayer partition paLayer
  | .runClient connect => if s.layer = none then s.runClient connect else s
  | .mqttSubscribe success => s.mqttSubscribe success
  | .onMqttConnectionLost => s.onMqttConnectionLost getComServiceType
  | .onMqttConnectionSucceed => s.onMqttConnectionSucceed
  | .onMqttConnectionFailed => s.onMqttConnectionFailed
  | .onSubscribeSucceed layer old => s.onSubscribeSucceed partition layer old
  | .onSubscribeFailed layer old => s.onSubscribeFailed layer old

/-! ### What is asked of the client -/

/-- **What is asked of a state.** -/
structure Sound (s : MQTTClient Layer) : Prop where
  /-- Everything is subscribed where the client takes it to be. -/
  allSubscribed : s.mMQTT_STATE = .allSubscribed → s.connected = true ∧
    ∀ layer ∈ s.mLayers, getComServiceType layer = .subscriber → layer ∈ s.subscribed
  /-- What is not subscribed is going to be. -/
  waiting : ∀ layer ∈ s.mLayers, getComServiceType layer = .subscriber →
    layer ∉ s.subscribed → layer ∈ s.mToResubscribe
  /-- No removed layer is waiting, -/
  mem_of_waiting : ∀ layer ∈ s.mToResubscribe, layer ∈ s.mLayers
  /-- or about to be subscribed. -/
  mem_of_layer : ∀ layer, s.layer = some layer → layer ∈ s.mLayers

/-- What is asked of a step: the state after it is as it should be, and only a connect request
leads out of the state without a connection. -/
def Meets (s : MQTTClient Layer) (st : Step Layer) : Prop :=
  Sound getComServiceType (next partition getComServiceType s st) ∧
    (s.mMQTT_STATE = .notConnected →
      (next partition getComServiceType s st).mMQTT_STATE ≠ .notConnected → st = .runClient true)

/-- **The steps that do no harm**: a layer is removed when it is neither waiting nor about to be
subscribed; a connection comes where the client waits for one and all subscribers are waiting;
and a success comes late only for a layer that is not waiting or is subscribed again, and as the
last one only where there is a connection. -/
def Harmless (s : MQTTClient Layer) : Step Layer → Prop
  | .removeLayer paLayer => paLayer ∉ s.mToResubscribe ∧ s.layer ≠ some paLayer
  | .onMqttConnectionSucceed => 0 < s.connects → s.mMQTT_STATE ≠ .notConnected ∧
      ∀ layer ∈ s.mLayers, getComServiceType layer = .subscriber → layer ∈ s.mToResubscribe
  | .onSubscribeSucceed layer old => layer ∈ s.outstanding old →
      (old = true → layer ∈ s.mToResubscribe → layer ∈ s.subscribed) ∧
        ((∀ other ∈ s.mToResubscribe, other = layer) →
          s.connected = true ∧ s.mMQTT_STATE ≠ .notConnected)
  | _ => True

/-! ### The lists -/

section

variable {partition} {getComServiceType} {s : MQTTClient Layer}

theorem mem_removeLayerHelper {paLayer layer : Layer} {paLayerList : List Layer} :
    layer ∈ removeLayerHelper partition paLayer paLayerList ↔
      layer ∈ paLayerList ∧ layer ≠ paLayer := by
  rw [removeLayerHelper]
  split
  · rw [(partition.perm _ _).mem_iff, List.mem_filter, decide_eq_true_iff]
  · rename_i hnil
    rw [not_not.mp hnil]
    exact iff_of_false List.not_mem_nil fun h => List.not_mem_nil h.1

/-- Nothing is left if there was nothing else. -/
theorem removeLayerHelper_eq_nil_iff {paLayer : Layer} {paLayerList : List Layer} :
    removeLayerHelper partition paLayer paLayerList = [] ↔
      ∀ other ∈ paLayerList, other = paLayer := by
  rw [List.eq_nil_iff_forall_not_mem]
  refine forall_congr' fun other => ?_
  rw [mem_removeLayerHelper, not_and, not_ne_iff]

omit [DecidableEq Layer] in
theorem mem_addLayer {paLayer layer : Layer} :
    layer ∈ (s.addLayer getComServiceType paLayer).mLayers ↔
      layer ∈ s.mLayers ∨ layer = paLayer := by
  rw [addLayer]
  split <;> exact List.mem_append.trans (or_congr_right List.mem_singleton)

omit [DecidableEq Layer] in
theorem waiting_addLayer {paLayer layer : Layer} :
    layer ∈ (s.addLayer getComServiceType paLayer).mToResubscribe ↔
      layer ∈ s.mToResubscribe ∨ layer = paLayer ∧ getComServiceType paLayer = .subscriber := by
  rw [addLayer]
  split
  · rename_i hsubscriber
    rw [and_iff_left hsubscriber]
    exact List.mem_append.trans (or_congr_right List.mem_singleton)
  · rename_i hsubscriber
    exact (or_iff_left fun h => hsubscriber h.2).symm

/-- What an answer to a subscribe request leaves as it is. -/
theorem answered_eq (layer : Layer) (old : Bool) : ∃ requests oldRequests,
    requests.Sublist s.requests ∧
      s.answered layer old = { s with requests := requests, oldRequests := oldRequests } := by
  cases old with
  | true => exact ⟨s.requests, s.oldRequests.erase layer, List.Sublist.refl _, rfl⟩
  | false => exact ⟨s.requests.erase layer, s.oldRequests, List.erase_sublist, rfl⟩

/-! ### What is known of every state -/

/-- **What is known of the states** whether or not they are as they should be. -/
structure Known (getComServiceType : Layer → EComServiceType) (s : MQTTClient Layer) : Prop where
  connected : s.mMQTT_STATE = .subscribing → s.connected = true
  subscribed : s.subscribed ≠ [] → s.connected = true
  requests : s.requests ≠ [] → s.connected = true
  subscriber : ∀ layer ∈ s.mToResubscribe, getComServiceType layer = .subscriber

/-- What is asked and known of a state. -/
structure Good (getComServiceType : Layer → EComServiceType) (s : MQTTClient Layer) : Prop
    extends Sound getComServiceType s, Known getComServiceType s

omit [DecidableEq Layer] in
theorem good_initial : Good getComServiceType (initial : MQTTClient Layer) where
  allSubscribed := nofun
  waiting := nofun
  mem_of_waiting := nofun
  mem_of_layer := nofun
  connected := nofun
  subscribed := fun h => absurd rfl h
  requests := fun h => absurd rfl h
  subscriber := nofun

omit [DecidableEq Layer] in
/-- With a new layer a client with a connection still has one. -/
theorem Known.addLayer (h : Known getComServiceType s)
    (hall : s.mMQTT_STATE = .allSubscribed → s.connected = true) (paLayer : Layer) :
    Known getComServiceType (s.addLayer getComServiceType paLayer) := by
  refine ⟨?_, ?_, ?_, fun layer hlayer => ?_⟩
  · rw [MQTTClient.addLayer]
    dsimp only
    split
    · dsimp only
      split
      · rename_i hstate
        exact fun _ => hall hstate
      · exact h.connected
    · exact h.connected
  · rw [MQTTClient.addLayer]
    split <;> exact h.subscribed
  · rw [MQTTClient.addLayer]
    split <;> exact h.requests
  · rcases waiting_addLayer.mp hlayer with hlayer | ⟨rfl, hsubscriber⟩
    · exact h.subscriber layer hlayer
    · exact hsubscriber

omit [DecidableEq Layer] in
theorem Known.runClient (h : Known getComServiceType s) (connect : Bool) :
    Known getComServiceType (s.runClient connect) := by
  rw [MQTTClient.runClient]
  split
  · split
    · exact ⟨by rintro ⟨⟩, h.subscribed, h.requests, h.subscriber⟩
    · exact h
  · split
    · exact ⟨by rintro ⟨⟩, h.subscribed, h.requests, h.subscriber⟩
    · exact ⟨h.connected, h.subscribed, h.requests, h.subscriber⟩
  · exact h

omit [DecidableEq Layer] in
theorem Known.mqttSubscribe (h : Known getComServiceType s) (success : Bool) :
    Known getComServiceType (s.mqttSubscribe success) := by
  rw [MQTTClient.mqttSubscribe]
  split
  · exact h
  · dsimp only
    split
    · split
      · rename_i hconnected
        exact ⟨h.connected, h.subscribed, fun _ => hconnected, h.subscriber⟩
      · exact ⟨h.connected, h.subscribed, h.requests, h.subscriber⟩
    · exact ⟨h.connected, h.subscribed, h.requests, h.subscriber⟩

omit [DecidableEq Layer] in
theorem known_onMqttConnectionLost :
    Known getComServiceType (s.onMqttConnectionLost getComServiceType) where
  connected := nofun
  subscribed := fun hne => absurd rfl hne
  requests := fun hne => absurd rfl hne
  subscriber := fun _ hlayer => of_decide_eq_true (List.mem_filter.mp hlayer).2

omit [DecidableEq Layer] in
theorem Known.onMqttConnectionSucceed (h : Known getComServiceType s) :
    Known getComServiceType s.onMqttConnectionSucceed := by
  rw [MQTTClient.onMqttConnectionSucceed]
  split
  · exact ⟨fun _ => rfl, fun _ => rfl, fun _ => rfl, h.subscriber⟩
  · exact h

omit [DecidableEq Layer] in
theorem Known.onMqttConnectionFailed (h : Known getComServiceType s) :
    Known getComServiceType s.onMqttConnectionFailed := by
  rw [MQTTClient.onMqttConnectionFailed]
  split
  · exact ⟨nofun, h.subscribed, h.requests, h.subscriber⟩
  · exact h

theorem Known.answered (h : Known getComServiceType s) (layer : Layer) (old : Bool) :
    Known getComServiceType (s.answered layer old) := by
  obtain ⟨requests, oldRequests, hsub, heq⟩ := s.answered_eq layer old
  rw [heq]
  exact ⟨h.connected, h.subscribed,
      fun hne => h.requests fun hnil => hne (List.sublist_nil.mp (hnil ▸ hsub)),
    h.subscriber⟩

theorem Known.onSubscribeSucceed (h : Known getComServiceType s) (layer : Layer) (old : Bool) :
    Known getComServiceType (s.onSubscribeSucceed partition layer old) := by
  rw [MQTTClient.onSubscribeSucceed]
  split
  · rename_i hmem
    have hanswered := h.answered layer old
    obtain ⟨requests, oldRequests, -, heq⟩ := s.answered_eq layer old
    rw [heq] at hanswered ⊢
    refine ⟨fun hstate => ?_, fun hne => ?_, hanswered.requests, fun other hother => ?_⟩
    · rw [removeToResubscribe] at hstate
      dsimp only at hstate
      split at hstate
      · exact absurd hstate nofun
      · exact h.connected hstate
    · cases old with
      | true => exact h.subscribed hne
      -- a request of this connection
      | false => exact h.requests (List.ne_nil_of_mem hmem)
    · exact h.subscriber other (mem_removeLayerHelper.mp hother).1
  · exact h

/-- **What is known of a state is known after every step**, if there is a connection where
everything is taken to be subscribed. -/
theorem Known.next (h : Known getComServiceType s)
    (hall : s.mMQTT_STATE = .allSubscribed → s.connected = true) (st : Step Layer) :
    Known getComServiceType (next partition getComServiceType s st) := by
  cases st with
  | addLayer paLayer => exact h.addLayer hall paLayer
  | removeLayer paLayer => exact ⟨h.connected, h.subscribed, h.requests, h.subscriber⟩
  | runClient connect =>
    rw [MQTTClient.next]
    split
    · exact h.runClient connect
    · exact h
  | mqttSubscribe success => exact h.mqttSubscribe success
  | onMqttConnectionLost => exact known_onMqttConnectionLost
  | onMqttConnectionSucceed => exact h.onMqttConnectionSucceed
  | onMqttConnectionFailed => exact h.onMqttConnectionFailed
  | onSubscribeSucceed layer old => exact h.onSubscribeSucceed layer old
  | onSubscribeFailed layer old =>
    rw [MQTTClient.next, MQTTClient.onSubscribeFailed]
    split
    · exact h.answered layer old
    · exact h

/-! ### Steps -/

omit [DecidableEq Layer] in
/-- A step that keeps the layers and the lists, and does not change what the client takes the
state to be, other than to ask for a connection or because there is none, is as it should be. -/
theorem Sound.of_eq {s' : MQTTClient Layer} (h : Sound getComServiceType s)
    (hlayers : s'.mLayers = s.mLayers) (hwaiting : s'.mToResubscribe = s.mToResubscribe)
    (hsubscribed : s'.subscribed = s.subscribed)
    (hall : s'.mMQTT_STATE = .allSubscribed → s.mMQTT_STATE = .allSubscribed)
    (hconnected : s'.connected = s.connected)
    (hlayer : ∀ layer, s'.layer = some layer → layer ∈ s.mLayers) :
    Sound getComServiceType s' where
  allSubscribed := by
    rw [hlayers, hsubscribed, hconnected]
    exact fun hstate => h.allSubscribed (hall hstate)
  waiting := by
    rw [hlayers, hsubscribed, hwaiting]
    exact h.waiting
  mem_of_waiting := by
    rw [hlayers, hwaiting]
    exact h.mem_of_waiting
  mem_of_layer := by
    rw [hlayers]
    exact hlayer

omit [DecidableEq Layer] in
theorem Sound.addLayer (h : Sound getComServiceType s) (paLayer : Layer) :
    Sound getComServiceType (s.addLayer getComServiceType paLayer) where
  allSubscribed := by
    intro hstate
    rw [MQTTClient.addLayer] at hstate ⊢
    split at hstate
    · dsimp only at hstate
      split at hstate
      · exact absurd hstate nofun
      · rename_i hne
        exact absurd hstate hne
    · rename_i hother
      obtain ⟨hconnected, hsubscribed⟩ := h.allSubscribed hstate
      refine ⟨?_, fun layer hlayer hsubscriber => ?_⟩
      · rw [if_neg hother]
        exact hconnected
      · rw [if_neg hother] at hlayer ⊢
        rcases List.mem_append.mp hlayer with hlayer | hlayer
        · exact hsubscribed layer hlayer hsubscriber
        · exact absurd (List.mem_singleton.mp hlayer ▸ hsubscriber) hother
  waiting := by
    intro layer hlayer hsubscriber hnot
    have hsubscribed : (s.addLayer getComServiceType paLayer).subscribed = s.subscribed := by
      rw [MQTTClient.addLayer]
      split <;> rfl
    rw [hsubscribed] at hnot
    refine waiting_addLayer.mpr ?_
    rcases mem_addLayer.mp hlayer with hlayer | rfl
    · exact .inl (h.waiting layer hlayer hsubscriber hnot)
    · exact .inr ⟨rfl, hsubscriber⟩
  mem_of_waiting := by
    intro layer hlayer
    refine mem_addLayer.mpr ?_
    rcases waiting_addLayer.mp hlayer with hlayer | ⟨rfl, -⟩
    · exact .inl (h.mem_of_waiting layer hlayer)
    · exact .inr rfl
  mem_of_layer := by
    intro layer hlayer
    have hsame : (s.addLayer getComServiceType paLayer).layer = s.layer := by
      rw [MQTTClient.addLayer]
      split <;> rfl
    exact mem_addLayer.mpr (.inl (h.mem_of_layer layer (hsame ▸ hlayer)))

/-- **A layer may be removed** if and only if it is neither waiting nor about to be subscribed. -/
theorem sound_removeLayer_iff (h : Sound getComServiceType s) (paLayer : Layer) :
    Sound getComServiceType (s.removeLayer partition paLayer) ↔
      paLayer ∉ s.mToResubscribe ∧ s.layer ≠ some paLayer := by
  refine ⟨fun hsound => ⟨fun hwaiting => ?_, fun hlayer => ?_⟩, fun ⟨hwaiting, hlayer⟩ => ?_⟩
  · exact (mem_removeLayerHelper.mp (hsound.mem_of_waiting paLayer hwaiting)).2 rfl
  · exact (mem_removeLayerHelper.mp (hsound.mem_of_layer paLayer hlayer)).2 rfl
  · refine ⟨fun hstate => ?_, fun layer hmem => ?_, fun layer hmem => ?_, fun layer heq => ?_⟩
    · obtain ⟨hconnected, hsubscribed⟩ := h.allSubscribed hstate
      exact ⟨hconnected, fun layer hmem => hsubscribed layer (mem_removeLayerHelper.mp hmem).1⟩
    · exact h.waiting layer (mem_removeLayerHelper.mp hmem).1
    · refine mem_removeLayerHelper.mpr ⟨h.mem_of_waiting layer hmem, ?_⟩
      rintro rfl
      exact hwaiting hmem
    · refine mem_removeLayerHelper.mpr ⟨h.mem_of_layer layer heq, ?_⟩
      rintro rfl
      exact hlayer heq

theorem Good.sound_runClient (h : Good getComServiceType s) (connect : Bool) :
    Sound getComServiceType (s.runClient connect) := by
  rw [MQTTClient.runClient]
  split
  · split
    · exact h.of_eq rfl rfl rfl nofun rfl h.mem_of_layer
    · exact h.toSound
  · rename_i hstate
    split
    · rename_i hnil
      -- nothing is waiting, and so everything is subscribed
      refine ⟨fun _ => ⟨h.connected hstate, fun layer hmem hsubscriber => ?_⟩, h.waiting,
        h.mem_of_waiting, h.mem_of_layer⟩
      by_contra hnot
      exact List.not_mem_nil (hnil ▸ h.waiting layer hmem hsubscriber hnot)
    · rename_i layer rest hwaiting
      refine h.of_eq rfl rfl rfl id rfl fun other heq => ?_
      obtain rfl : layer = other := Option.some.inj heq
      exact h.mem_of_waiting layer (hwaiting ▸ List.mem_cons_self)
  · exact h.toSound

omit [DecidableEq Layer] in
theorem Sound.mqttSubscribe (h : Sound getComServiceType s) (success : Bool) :
    Sound getComServiceType (s.mqttSubscribe success) := by
  rw [MQTTClient.mqttSubscribe]
  split
  · exact h
  · dsimp only
    split
    · split <;> exact h.of_eq rfl rfl rfl id rfl nofun
    · exact h.of_eq rfl rfl rfl id rfl nofun

omit [DecidableEq Layer] in
theorem Sound.onMqttConnectionLost (h : Sound getComServiceType s) :
    Sound getComServiceType (s.onMqttConnectionLost getComServiceType) where
  allSubscribed := nofun
  waiting := fun _ hlayer hsubscriber _ =>
    List.mem_filter.mpr ⟨hlayer, decide_eq_true hsubscriber⟩
  mem_of_waiting := fun _ hlayer => (List.mem_filter.mp hlayer).1
  mem_of_layer := h.mem_of_layer

omit [DecidableEq Layer] in
/-- **A new connection** leaves nothing out if and only if all subscribers are waiting. -/
theorem sound_onMqttConnectionSucceed_iff (h : Sound getComServiceType s) :
    Sound getComServiceType s.onMqttConnectionSucceed ↔ (0 < s.connects →
      ∀ layer ∈ s.mLayers, getComServiceType layer = .subscriber → layer ∈ s.mToResubscribe) := by
  rw [MQTTClient.onMqttConnectionSucceed]
  split
  · rename_i hpos
    rw [forall_prop_of_true hpos]
    refine ⟨fun hsound layer hmem hsubscriber => ?_, fun hall => ?_⟩
    · exact hsound.waiting layer hmem hsubscriber List.not_mem_nil
    · exact ⟨nofun, fun layer hmem hsubscriber _ => hall layer hmem hsubscriber,
        h.mem_of_waiting, h.mem_of_layer⟩
  · rename_i hpos
    exact iff_of_true h fun hpos' => absurd hpos' hpos

omit [DecidableEq Layer] in
theorem Sound.onMqttConnectionFailed (h : Sound getComServiceType s) :
    Sound getComServiceType s.onMqttConnectionFailed := by
  rw [MQTTClient.onMqttConnectionFailed]
  split
  · exact h.of_eq rfl rfl rfl nofun rfl h.mem_of_layer
  · exact h

theorem Sound.answered (h : Sound getComServiceType s) (layer : Layer) (old : Bool) :
    Sound getComServiceType (s.answered layer old) := by
  obtain ⟨requests, oldRequests, -, heq⟩ := s.answered_eq layer old
  rw [heq]
  exact h.of_eq rfl rfl rfl id rfl h.mem_of_layer

/-- **A success** leaves nothing out if and only if it is not late for a layer that is waiting,
and there is a connection if no other layer is waiting. -/
theorem Good.sound_onSubscribeSucceed_iff (h : Good getComServiceType s) {layer : Layer}
    {old : Bool} (hmem : layer ∈ s.outstanding old) :
    Sound getComServiceType (s.onSubscribeSucceed partition layer old) ↔
      (old = true → layer ∈ s.mToResubscribe → layer ∈ s.subscribed) ∧
        ((∀ other ∈ s.mToResubscribe, other = layer) → s.connected = true) := by
  obtain ⟨requests, oldRequests, -, heq⟩ := s.answered_eq layer old
  rw [onSubscribeSucceed, if_pos hmem]
  dsimp only
  rw [heq, removeToResubscribe, ← @removeLayerHelper_eq_nil_iff _ _ partition layer]
  dsimp only
  constructor
  · intro hsound
    refine ⟨fun hold hwaiting => ?_, fun hnil => (hsound.allSubscribed (if_pos hnil)).1⟩
    by_contra hnot
    have hstays := hsound.waiting layer (h.mem_of_waiting layer hwaiting)
      (h.subscriber layer hwaiting) (by rwa [if_pos hold])
    exact (mem_removeLayerHelper.mp hstays).2 rfl
  · rintro ⟨hlate, hconnected⟩
    -- what is still waiting, or has been subscribed
    have hwaiting : ∀ other ∈ s.mLayers, getComServiceType other = .subscriber →
        other ∉ (if old = true then s.subscribed else layer :: s.subscribed) →
          other ∈ removeLayerHelper partition layer s.mToResubscribe := by
      intro other hother hsubscriber hnot
      cases old with
      | true =>
        rw [if_pos rfl] at hnot
        have hother' := h.waiting other hother hsubscriber hnot
        refine mem_removeLayerHelper.mpr ⟨hother', ?_⟩
        rintro rfl
        exact hnot (hlate rfl hother')
      | false =>
        rw [if_neg Bool.false_ne_true, List.mem_cons, not_or] at hnot
        exact mem_removeLayerHelper.mpr ⟨h.waiting other hother hsubscriber hnot.2, hnot.1⟩
    refine ⟨fun hstate => ?_, hwaiting, fun other hother => ?_, h.mem_of_layer⟩
    · dsimp only at hstate ⊢
      split at hstate
      · rename_i hnil
        refine ⟨hconnected hnil, fun other hother hsubscriber => ?_⟩
        by_contra hnot
        exact List.not_mem_nil (hnil ▸ hwaiting other hother hsubscriber hnot)
      · obtain ⟨hyes, hsubscribed⟩ := h.allSubscribed hstate
        refine ⟨hyes, fun other hother hsubscriber => ?_⟩
        have hother' := hsubscribed other hother hsubscriber
        split
        · exact hother'
        · exact List.mem_cons_of_mem layer hother'
    · exact h.mem_of_waiting other (mem_removeLayerHelper.mp hother).1

/-- A success leads out of the state without a connection if and only if no other layer is
waiting. -/
theorem onSubscribeSucceed_leaves_iff (hstate : s.mMQTT_STATE = .notConnected) {layer : Layer}
    {old : Bool} (hmem : layer ∈ s.outstanding old) :
    (s.onSubscribeSucceed partition layer old).mMQTT_STATE ≠ .notConnected ↔
      ∀ other ∈ s.mToResubscribe, other = layer := by
  obtain ⟨requests, oldRequests, -, heq⟩ := s.answered_eq layer old
  rw [onSubscribeSucceed, if_pos hmem]
  dsimp only
  rw [heq, removeToResubscribe, ← @removeLayerHelper_eq_nil_iff _ _ partition layer]
  dsimp only
  split
  · rename_i hnil
    exact iff_of_true nofun hnil
  · rename_i hne
    exact iff_of_false (not_not_intro hstate) hne

/-- **In a good state a step is as it should be if and only if it does no harm.** -/
theorem Good.meets_iff_harmless (h : Good getComServiceType s) (st : Step Layer) :
    Meets partition getComServiceType s st ↔ Harmless getComServiceType s st := by
  cases st with
  | addLayer paLayer =>
    refine iff_of_true ⟨h.toSound.addLayer paLayer, fun hstate hne => absurd ?_ hne⟩ trivial
    rw [next, addLayer]
    dsimp only
    split
    · exact (if_neg (hstate ▸ nofun)).trans hstate
    · exact hstate
  | removeLayer paLayer =>
    refine (and_iff_left ?_).trans (sound_removeLayer_iff h.toSound paLayer)
    exact fun hstate hne => absurd hstate hne
  | runClient connect =>
    refine iff_of_true ⟨?_, fun hstate hne => ?_⟩ trivial
    · rw [next]
      split
      · exact h.sound_runClient connect
      · exact h.toSound
    · rw [next] at hne
      split at hne
      · rw [runClient, hstate] at hne
        cases connect with
        | true => rfl
        | false => exact absurd hstate hne
      · exact absurd hstate hne
  | mqttSubscribe success =>
    refine iff_of_true ⟨h.toSound.mqttSubscribe success, fun hstate hne => absurd ?_ hne⟩ trivial
    rw [next, mqttSubscribe]
    split
    · exact hstate
    · dsimp only
      split
      · split <;> exact hstate
      · exact hstate
  | onMqttConnectionLost =>
    exact iff_of_true ⟨h.toSound.onMqttConnectionLost, fun _ hne => absurd rfl hne⟩ trivial
  | onMqttConnectionSucceed =>
    rw [Meets, next, sound_onMqttConnectionSucceed_iff h.toSound, Harmless, imp_and, and_comm]
    refine and_congr_left fun _ => ?_
    rw [onMqttConnectionSucceed]
    split
    · rename_i hpos
      exact ⟨fun hkeeps _ hstate => absurd (hkeeps hstate nofun) nofun,
        fun hkeeps hstate => absurd hstate (hkeeps hpos)⟩
    · rename_i hpos
      exact iff_of_true (fun hstate hne => absurd hstate hne) fun hpos' => absurd hpos' hpos
  | onMqttConnectionFailed =>
    refine iff_of_true ⟨h.toSound.onMqttConnectionFailed, fun hstate hne => absurd ?_ hne⟩ trivial
    rw [next, onMqttConnectionFailed]
    split
    · rfl
    · exact hstate
  | onSubscribeSucceed layer old =>
    by_cases hmem : layer ∈ s.outstanding old
    · rw [Meets, next, h.sound_onSubscribeSucceed_iff hmem, Harmless, forall_prop_of_true hmem,
        and_assoc]
      refine and_congr_right fun _ => ?_
      rw [imp_and]
      refine and_congr_right fun _ => ⟨fun hkeeps hall hstate => ?_, fun hkeeps hstate hne => ?_⟩
      · exact absurd (hkeeps hstate ((onSubscribeSucceed_leaves_iff hstate hmem).mpr hall)) nofun
      · exact absurd hstate (hkeeps ((onSubscribeSucceed_leaves_iff hstate hmem).mp hne))
    · have hsame : next partition getComServiceType s (.onSubscribeSucceed layer old) = s :=
        if_neg hmem
      rw [Meets, hsame]
      exact iff_of_true ⟨h.toSound, fun hstate hne => absurd hstate hne⟩
        fun hmem' => absurd hmem' hmem
  | onSubscribeFailed layer old =>
    refine iff_of_true ⟨?_, fun hstate hne => absurd ?_ hne⟩ trivial
    · rw [next, onSubscribeFailed]
      split
      · exact h.toSound.answered layer old
      · exact h.toSound
    · obtain ⟨requests, oldRequests, -, heq⟩ := s.answered_eq layer old
      rw [next, onSubscribeFailed, heq]
      split <;> exact hstate

/-- A state that is as it should be is good again after a step that is. -/
theorem Good.next (h : Good getComServiceType s) {st : Step Layer}
    (hmeets : Meets partition getComServiceType s st) :
    Good getComServiceType (next partition getComServiceType s st) :=
  ⟨hmeets.1, h.toKnown.next (fun hstate => (h.allSubscribed hstate).1) st⟩

end

/-- **The states are as they should be after every step of a run, and only connect requests lead
out of the state without a connection, if and only if all steps of the run do no harm.** -/
theorem subscriptions_iff (steps : List (Step Layer)) :
    Runs.Each (next partition getComServiceType) (Meets partition getComServiceType) initial
        steps ↔
      Runs.Each (next partition getComServiceType) (Harmless getComServiceType) initial steps :=
  Runs.each_congr (fun _ _ h hmeets => h.next hmeets) (fun _ st h => h.meets_iff_harmless st)
    good_initial steps

/-- A partition that keeps the order. -/
def Partition.stable (Layer : Type) : Partition Layer := ⟨fun p layers => layers.filter p,
  fun _ _ => .rfl⟩

/-- **A layer that is removed before it is subscribed** is still in the list. -/
theorem not_meets_removed :
    ¬Runs.Each (next (Partition.stable Unit) fun _ => .subscriber)
      (Meets (Partition.stable Unit) fun _ => .subscriber) initial
      [.addLayer (), .removeLayer ()] := by
  intro h
  have hremoved := (h 1 (.removeLayer ()) rfl).1.mem_of_waiting () (by decide)
  exact absurd hremoved (by decide)

end MQTTClient

end Forte
