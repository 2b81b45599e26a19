import Mathlib.Data.Fintype.Defs
import Mathlib.Logic.Function.Basic
import Mathlib.Logic.Relation
import Forte.Execution.Breakpoints
import Forte.Execution.EventChain
import Forte.Lib.Words

/-!
# Replaying a resource

A recording has the output events of the service function blocks, each with the values of the
outputs and with the number of events that had been put into the event list before it.
`CResourceReplayer` executes a resource from its initial state: it delivers events until as
many have been put into the list as the next output event says, and then lets the service
function block send it.

The number tells how many events have been queued, not how many have been delivered. Events that
queue no others leave it as it is, so the output event comes before the last of those that were
delivered before it in the recording. The events still have the same order, since nothing was
queued in between. But the data connections already have the values of the output event
(`Forte.ResourceReplayer.not_replays_early`), and the event list has to hold the events that are not
delivered yet as well. `Forte.ResourceReplayer.replays_run` is about the runs in which
neither matters.
-/

namespace Forte.ResourceReplayer

/-- **The function blocks of a resource**, its event and its data connections. Of a service
function block only the outputs matter; the others are given by what they do with an event. A
composite function block does something with the events of its interface, and so do the function
blocks in it with theirs. -/
structure FBNetwork (FB C V T : Type) where
  /-- The variables of a function block. -/
  State : Type
  /-- Whether `getServiceFunctionBlockTypes` has the type of the function block. -/
  service : FB → Bool
  /-- The data connections that are read with an event. -/
  reads : FB → ℕ → List C
  /-- The new state, and the output events with what is written to data connections. -/
  execute : FB → ℕ → State → List V → State × List (ℕ × List (C × V))
  /-- The number of data outputs. -/
  numDOs : FB → ℕ
  /-- The data outputs of a service function block that are written with an output event, and
  their connections. -/
  written : FB → ℕ → List (ℕ × C)
  /-- The destinations of the connection of an output event. -/
  destinations : FB → ℕ → List (FB × ℕ)
  /-- `toString`. -/
  toString : V → T
  /-- The value a data output has after `fromString`. -/
  fromString : V → T → V
  /-- The data connections of service function blocks. -/
  ofService : C → Bool
  ofService_written : ∀ fb eo output, output ∈ written fb eo → ofService output.2 = true
  written_lt : ∀ fb eo output, output ∈ written fb eo → output.1 < numDOs fb
  ofService_execute : ∀ fb eiid state input sent, sent ∈ (execute fb eiid state input).2 →
    ∀ data ∈ sent.2, ofService data.1 = false
  /-- Event connections lead to event inputs. -/
  input : ∀ fb eo event, event ∈ destinations fb eo → event.2 ≠ externalEventID

/-- A resource, with the values of its data connections and a record of the events that were
delivered. -/
structure Resource (k l : Fin 64) {FB C V T : Type} (net : FBNetwork FB C V T) where
  ecet : FakeEventChain k l (FB × ℕ)
  /-- `mEventCounter`. -/
  eventCounter : Fin (2 ^ 64)
  /-- The number of events that were dropped because the event list was full. -/
  dropped : ℕ
  values : C → V
  states : FB → net.State
  /-- The data outputs of the service function blocks. -/
  outputs : FB → ℕ → V
  /-- The events that were delivered to other function blocks, and the values read with them. -/
  delivered : List (FB × ℕ × List V)

/-- `FBOutputEventPayload`. -/
structure FBOutputEventPayload (FB T : Type) where
  instanceName : FB
  eventId : ℕ
  eventCounter : Fin (2 ^ 64)
  outputs : List T

namespace Resource

variable {k l : Fin 64} {FB C V T : Type} [DecidableEq FB] [DecidableEq C]
  {net : FBNetwork FB C V T}

/-- `addEventEntry`. -/
def addEventEntry (s : Resource k l net) (event : FB × ℕ) : Resource k l net :=
  let (mEventList, pushed) := s.ecet.mEventList.push event
  let s := { s with ecet := { s.ecet with mEventList } }
  if !pushed then { s with dropped := s.dropped + 1 }
  else if event.2 ≠ externalEventID then { s with eventCounter := s.eventCounter + 1 }
  else s

/-- Values are written to data connections. -/
def writeData (values : C → V) (data : List (C × V)) : C → V :=
  data.foldl (fun values d => Function.update values d.1 d.2) values

/-- Output events write to data connections, one after the other. -/
def writeOutputs (values : C → V) (sent : List (ℕ × List (C × V))) : C → V :=
  sent.foldl (fun values output => writeData values output.2) values

/-- `sendOutputEvent`. -/
def sendOutputEvent (s : Resource k l net) (fb : FB) (eo : ℕ) (data : List (C × V)) :
    Resource k l net :=
  (net.destinations fb eo).foldl addEventEntry { s with values := writeData s.values data }

/-- `receiveInputEvent` of a function block that is not a service function block. -/
def receiveInputEvent (s : Resource k l net) (fb : FB) (eiid : ℕ) : Resource k l net :=
  let input := (net.reads fb eiid).map s.values
  let outcome := net.execute fb eiid (s.states fb) input
  outcome.2.foldl (fun s output => s.sendOutputEvent fb output.1 output.2)
    { s with
      states := Function.update s.states fb outcome.1
      delivered := s.delivered ++ [(fb, eiid, input)] }

/-- What a service function block writes with an output event. -/
def serviceData (s : Resource k l net) (fb : FB) (eo : ℕ) : List (C × V) :=
  (net.written fb eo).map fun output => (output.2, s.outputs fb output.1)

end Resource

/-! ### Recording -/

/-- A resource with its trace. -/
structure Recording (k l : Fin 64) {FB C V T : Type} (net : FBNetwork FB C V T) where
  resource : Resource k l net
  /-- The output events of service function blocks that were traced. -/
  trace : List (FBOutputEventPayload FB T)
  /-- The events that were delivered since one of them has queued others. -/
  idle : List (FB × ℕ)

namespace Recording

variable {k l : Fin 64} {FB C V T : Type} [DecidableEq FB] [DecidableEq C]
  {net : FBNetwork FB C V T}

/-- A service function block sends an output event, with values from outside. An output event
without a connection is not traced. -/
def sendOutputEvent (r : Recording k l net) (fb : FB) (output : ℕ × (ℕ → V)) :
    Recording k l net :=
  let s := { r.resource with outputs := Function.update r.resource.outputs fb output.2 }
  { r with
    trace :=
      if net.destinations fb output.1 = [] then r.trace
      else r.trace ++ [⟨fb, output.1, s.eventCounter,
        (List.range (net.numDOs fb)).map fun i => net.toString (s.outputs fb i)⟩]
    resource := s.sendOutputEvent fb output.1 (s.serviceData fb output.1) }

/-- What happens to the resource. -/
inductive Step (FB V : Type)
  /-- The external event of a service function block is put into the event list. -/
  | transferExternalEvent (fb : FB)
  /-- The next event is delivered; if it is an external event, the service function block sends
  output events with the values its data outputs have then. -/
  | mainRun (sent : List (ℕ × (ℕ → V)))

/-- An event is delivered. -/
def deliver (r : Recording k l net) (event : FB × ℕ) (sent : List (ℕ × (ℕ → V))) :
    Recording k l net :=
  if net.service event.1 then
    if event.2 = externalEventID then
      sent.foldl (fun r output => r.sendOutputEvent event.1 output) r
    else { r with idle := r.idle ++ [event] }
  else
    let resource := r.resource.receiveInputEvent event.1 event.2
    { r with
      resource
      idle := if resource.eventCounter = r.resource.eventCounter then r.idle ++ [event] else [] }

/-- The resource after a step. -/
def next (r : Recording k l net) : Step FB V → Recording k l net
  | .transferExternalEvent fb =>
    if net.service fb then
      { r with resource := r.resource.addEventEntry (fb, externalEventID) }
    else r
  | .mainRun sent =>
    match r.resource.ecet.mEventList.pop with
    | (_, none) => r
    | (mEventList, some event) =>
      { r with resource := { r.resource with ecet := { r.resource.ecet with mEventList } } }.deliver
        (mEventList.data event) sent

end Recording

/-! ### Replay -/

namespace Resource

variable {k l : Fin 64} {FB C V T : Type} [DecidableEq FB] [DecidableEq C]
  {net : FBNetwork FB C V T}

/-- The callback of `CResourceReplayer`: service function blocks only read their inputs. -/
def processOneEvent (s : Resource k l net) (event : FB × ℕ) : Resource k l net :=
  if net.service event.1 then s else s.receiveInputEvent event.1 event.2

/-- `triggerNextEvent`. -/
def triggerNextEvent (s : Resource k l net) : Resource k l net :=
  if !s.ecet.mIsRemoteEnabled then s
  else
    match s.ecet.mEventList.pop with
    | (_, none) => s
    | (mEventList, some event) =>
      { s with ecet := { s.ecet with mEventList } }.processOneEvent (mEventList.data event)

/-- `getNextEvent`. -/
def getNextEvent (s : Resource k l net) : Resource k l net × Option (FB × ℕ) :=
  let (ecet, event) := s.ecet.getNextEvent
  ({ s with ecet }, event)

/-- `simulateExternalOutputEvent`. -/
def simulateExternalOutputEvent (s : Resource k l net) (payload : FBOutputEventPayload FB T) :
    Resource k l net :=
  let outputs := fun i => match payload.outputs[i]? with
    | some text => net.fromString (s.outputs payload.instanceName i) text
    | none => s.outputs payload.instanceName i
  let s := { s with outputs := Function.update s.outputs payload.instanceName outputs }
  s.sendOutputEvent payload.instanceName payload.eventId
    (s.serviceData payload.instanceName payload.eventId)

/-- `reproduceNextEvent`, with the output events that are still to come. -/
def reproduceNextEvent (s : Resource k l net) : List (FBOutputEventPayload FB T) →
    Resource k l net × List (FBOutputEventPayload FB T) × Option (FB × ℕ)
  | [] =>
    if s.ecet.mEventList.isEmpty then (s, [], none)
    else
      let (s, toReturn) := s.getNextEvent
      (s.triggerNextEvent, [], toReturn)
  | payload :: rest =>
    if s.eventCounter < payload.eventCounter then
      let (s, toReturn) := s.getNextEvent
      (s.triggerNextEvent, payload :: rest, toReturn)
    else reproduceNextEvent (s.simulateExternalOutputEvent payload) rest

/-- `reproduceAll`, with a bound on its rounds, and whether it has come to its end. -/
def reproduceAll : ℕ → Resource k l net → List (FBOutputEventPayload FB T) → Resource k l net × Bool
  | 0, s, _ => (s, false)
  | bound + 1, s, externalEvents =>
    match s.reproduceNextEvent externalEvents with
    | (s, _, none) => (s, true)
    | (s, rest, some _) => reproduceAll bound s rest

/-- The constructor of `CResourceReplayer`. -/
def takeExternalControl (s : Resource k l net) : Resource k l net :=
  { s with ecet := { s.ecet with mIsRemoteEnabled := true } }

/-- A resource before its first event. -/
structure Fresh (s : Resource k l net) : Prop where
  ecet : ∃ elements externalElements, s.ecet = .initial elements externalElements
  eventCounter : s.eventCounter = 0
  dropped : s.dropped = 0
  delivered : s.delivered = []

end Resource

/-! ### What the delivery of an event does -/

/-- What the function blocks work on. -/
structure Memory {FB C V T : Type} (net : FBNetwork FB C V T) where
  values : C → V
  states : FB → net.State
  delivered : List (FB × ℕ × List V)

namespace Memory

variable {FB C V T : Type} [DecidableEq FB] [DecidableEq C] {net : FBNetwork FB C V T}

/-- The values that are read with an event. -/
def input (m : Memory net) (event : FB × ℕ) : List V := (net.reads event.1 event.2).map m.values

/-- The new state and the output events. -/
def outcome (m : Memory net) (event : FB × ℕ) : net.State × List (ℕ × List (C × V)) :=
  net.execute event.1 event.2 (m.states event.1) (m.input event)

/-- **An event is delivered.** -/
def perform (m : Memory net) (event : FB × ℕ) : Memory net :=
  if net.service event.1 then m
  else
    { values := Resource.writeOutputs m.values (m.outcome event).2
      states := Function.update m.states event.1 (m.outcome event).1
      delivered := m.delivered ++ [(event.1, event.2, m.input event)] }

/-- The events that are queued with it. -/
def queued (m : Memory net) (event : FB × ℕ) : List (FB × ℕ) :=
  if net.service event.1 then []
  else (m.outcome event).2.flatMap fun output => net.destinations event.1 output.1

/-- The events queue no others. -/
def Idle (m : Memory net) : List (FB × ℕ) → Prop
  | [] => True
  | event :: events => m.queued event = [] ∧ (m.perform event).Idle events

end Memory

/-- What the function blocks of a resource work on. -/
def Resource.memory {k l : Fin 64} {FB C V T : Type} {net : FBNetwork FB C V T}
    (s : Resource k l net) : Memory net := ⟨s.values, s.states, s.delivered⟩

/-! ### What a recording needs to be replayed -/

section

variable {k l : Fin 64} {FB C V T : Type} [DecidableEq FB] [DecidableEq C]
  {net : FBNetwork FB C V T}

/-- **The recording is replayed**: within some rounds, the events that were delivered in it have
been delivered with the same values, and these are all if it has left no event that is not
external. -/
def Replays (s : Resource k l net) (r : Recording k l net) : Prop :=
  ∃ bound, let (t, ended) := s.takeExternalControl.reproduceAll bound r.trace
    t.delivered = r.resource.delivered ∧
      ((∀ event ∈ r.resource.ecet.mEventList.contents, event.2 = externalEventID) → ended = true)

/-- An event of an event input. -/
def isInput (event : FB × ℕ) : Bool := event.2 ≠ externalEventID

/-- What a service function block writes with an output event and its values. -/
def sentData (net : FBNetwork FB C V T) (fb : FB) (output : ℕ × (ℕ → V)) : List (C × V) :=
  (net.written fb output.1).map fun o => (o.2, output.2 o.1)

/-- **An output event can come early**: its values are read back from their texts, none of the
events since the last one that queued others has read what it changes, and the event list has
room for them as well. -/
structure Early (r : Recording k l net) (fb : FB) (output : ℕ × (ℕ → V)) : Prop where
  text : ∀ o ∈ net.written fb output.1, ∀ old,
    net.fromString old (net.toString (output.2 o.1)) = output.2 o.1
  unread : ∀ event ∈ r.idle, net.service event.1 = false → ∀ c ∈ net.reads event.1 event.2,
    Resource.writeData r.resource.values (sentData net fb output) c = r.resource.values c
  room : r.idle.length +
    (r.resource.ecet.mEventList.contents.filter isInput).length +
      (net.destinations fb output.1).length ≤ RingBuffer.size k - 1
  count : r.resource.eventCounter.val + (net.destinations fb output.1).length < 2 ^ 64

/-- The condition on output events of a service function block. One without a connection must not
change a data connection, since it is not traced. -/
def SentCond (r : Recording k l net) (fb : FB) : List (ℕ × (ℕ → V)) → Prop
  | [] => True
  | output :: sent =>
    (if net.destinations fb output.1 = [] then
        ∀ o ∈ net.written fb output.1,
          Resource.writeData r.resource.values (sentData net fb output) o.2 = r.resource.values o.2
      else Early r fb output) ∧
      SentCond (r.sendOutputEvent fb output) fb sent

/-- The condition on the delivery of an event. -/
def DeliverCond (r : Recording k l net) (event : FB × ℕ) (sent : List (ℕ × (ℕ → V))) : Prop :=
  if net.service event.1 ∧ event.2 = externalEventID then SentCond r event.1 sent
  else r.resource.eventCounter.val + (r.resource.memory.queued event).length < 2 ^ 64

/-- The condition on a step. -/
def Cond (r : Recording k l net) : Recording.Step FB V → Prop
  | .transferExternalEvent _ => True
  | .mainRun sent =>
    match r.resource.ecet.mEventList.pop with
    | (_, none) => True
    | (mEventList, some event) =>
      DeliverCond
        { r with resource := { r.resource with ecet := { r.resource.ecet with mEventList } } }
        (mEventList.data event) sent

instance instDecidableEarly [Fintype V] [DecidableEq V] (r : Recording k l net) (fb : FB)
    (output : ℕ × (ℕ → V)) : Decidable (Early r fb output) :=
  decidable_of_iff
    ((∀ o ∈ net.written fb output.1, ∀ old,
        net.fromString old (net.toString (output.2 o.1)) = output.2 o.1) ∧
      (∀ event ∈ r.idle, net.service event.1 = false → ∀ c ∈ net.reads event.1 event.2,
        Resource.writeData r.resource.values (sentData net fb output) c = r.resource.values c) ∧
      r.idle.length + (r.resource.ecet.mEventList.contents.filter isInput).length +
        (net.destinations fb output.1).length ≤ RingBuffer.size k - 1 ∧
      r.resource.eventCounter.val + (net.destinations fb output.1).length < 2 ^ 64)
    ⟨fun ⟨text, unread, room, count⟩ => ⟨text, unread, room, count⟩,
      fun ⟨text, unread, room, count⟩ => ⟨text, unread, room, count⟩⟩

instance instDecidableSentCond [Fintype V] [DecidableEq V] (r : Recording k l net) (fb : FB)
    (sent : List (ℕ × (ℕ → V))) : Decidable (SentCond r fb sent) :=
  match sent with
  | [] => .isTrue trivial
  | output :: sent =>
    have := instDecidableSentCond (r.sendOutputEvent fb output) fb sent
    decidable_of_iff
      ((if net.destinations fb output.1 = [] then
          ∀ o ∈ net.written fb output.1, Resource.writeData r.resource.values
            (sentData net fb output) o.2 = r.resource.values o.2
        else Early r fb output) ∧
        SentCond (r.sendOutputEvent fb output) fb sent) Iff.rfl

instance instDecidableDeliverCond [Fintype V] [DecidableEq V] (r : Recording k l net)
    (event : FB × ℕ) (sent : List (ℕ × (ℕ → V))) : Decidable (DeliverCond r event sent) :=
  inferInstanceAs (Decidable (if net.service event.1 ∧ event.2 = externalEventID then
      SentCond r event.1 sent
    else r.resource.eventCounter.val + (r.resource.memory.queued event).length < 2 ^ 64))

instance instDecidableCond [Fintype V] [DecidableEq V] (r : Recording k l net)
    (st : Recording.Step FB V) : Decidable (Cond r st) :=
  match st with
  | .transferExternalEvent _ => .isTrue trivial
  | .mainRun sent =>
    match h : r.resource.ecet.mEventList.pop with
    | (_, none) => .isTrue (by rw [Cond, h]; trivial)
    | (b, some event) => decidable_of_iff (DeliverCond
        { r with resource := { r.resource with ecet := { r.resource.ecet with mEventList := b } } }
        (b.data event) sent) (by rw [Cond, h])

end

/-! ### Events in the list -/

section

variable {k l : Fin 64} {FB C V T : Type} [DecidableEq FB] [DecidableEq C]
  {net : FBNetwork FB C V T} {s : Resource k l net} {events : List (FB × ℕ)}

/-- Another event list, and another number of events. -/
def Resource.put (s : Resource k l net) (mEventList : RingBuffer k (FB × ℕ))
    (eventCounter : Fin (2 ^ 64)) : Resource k l net :=
  { s with ecet := { s.ecet with mEventList }, eventCounter }

omit [DecidableEq FB] [DecidableEq C] in
/-- **An event is added** if there is room, and counted if it is not external. -/
theorem addEventEntry_spec (h : s.ecet.mEventList.Holds events) (event : FB × ℕ) :
    if events.length < RingBuffer.size k - 1 then
      ∃ mEventList, s.addEventEntry event =
          s.put mEventList
            (if event.2 ≠ externalEventID then s.eventCounter + 1 else s.eventCounter) ∧
        mEventList.Holds (events ++ [event])
    else (s.addEventEntry event).dropped = s.dropped + 1 := by
  obtain ⟨hpushed, hholds⟩ := h.push event
  split
  · rename_i hroom
    rw [if_pos hroom] at hholds
    refine ⟨_, ?_, hholds⟩
    rw [decide_eq_true hroom] at hpushed
    simp only [Resource.addEventEntry, hpushed, Bool.not_true, Bool.false_eq_true, if_false]
    split
    · rfl
    · rfl
  · rename_i hfull
    rw [decide_eq_false hfull] at hpushed
    simp only [Resource.addEventEntry, hpushed, Bool.not_false, if_true]

omit [DecidableEq FB] [DecidableEq C] in
theorem dropped_le_addEventEntry (s : Resource k l net) (event : FB × ℕ) :
    s.dropped ≤ (s.addEventEntry event).dropped := by
  rw [Resource.addEventEntry]
  dsimp only
  split
  · exact Nat.le_succ _
  · split
    · exact le_rfl
    · exact le_rfl

omit [DecidableEq FB] [DecidableEq C] in
theorem dropped_le_foldl {β : Type} {f : Resource k l net → β → Resource k l net}
    (hf : ∀ s b, s.dropped ≤ (f s b).dropped) {n : ℕ} {s : Resource k l net}
    (h : n ≤ s.dropped) (l' : List β) : n ≤ (l'.foldl f s).dropped := by
  induction l' generalizing s with
  | nil => exact h
  | cons b l' ih => exact ih (h.trans (hf s b))

omit [DecidableEq FB] in
theorem dropped_le_sendOutputEvent (s : Resource k l net) (fb : FB) (eo : ℕ)
    (data : List (C × V)) : s.dropped ≤ (s.sendOutputEvent fb eo data).dropped := by
  rw [Resource.sendOutputEvent]
  refine dropped_le_foldl dropped_le_addEventEntry ?_ _
  exact le_rfl

theorem dropped_le_receiveInputEvent (s : Resource k l net) (fb : FB) (eiid : ℕ) :
    s.dropped ≤ (s.receiveInputEvent fb eiid).dropped := by
  rw [Resource.receiveInputEvent]
  refine dropped_le_foldl (fun s output => ?_) ?_ _
  · exact dropped_le_sendOutputEvent s fb output.1 output.2
  · exact le_rfl

omit [DecidableEq FB] [DecidableEq C] in
/-- **Events are added** if there is room for all of them. -/
theorem addEventEntries_spec (h : s.ecet.mEventList.Holds events) {new : List (FB × ℕ)}
    (hinput : ∀ event ∈ new, event.2 ≠ externalEventID)
    (hroom : events.length + new.length ≤ RingBuffer.size k - 1) :
    ∃ mEventList, new.foldl Resource.addEventEntry s =
        s.put mEventList (Fin.ofNat _ (s.eventCounter + new.length)) ∧
      mEventList.Holds (events ++ new) := by
  induction new generalizing s events with
  | nil =>
    refine ⟨s.ecet.mEventList, ?_, by rwa [List.append_nil]⟩
    have hsame : Fin.ofNat (2 ^ 64) (s.eventCounter.val + 0) = s.eventCounter :=
      Fin.ext (Nat.mod_eq_of_lt s.eventCounter.isLt)
    rw [List.length_nil, hsame]
    rfl
  | cons event new ih =>
    rw [List.length_cons] at hroom
    have hfirst := addEventEntry_spec h event
    rw [if_pos (by omega), if_pos (hinput event List.mem_cons_self)] at hfirst
    obtain ⟨b, hadd, hholds⟩ := hfirst
    have hrest := ih (s := s.put b (s.eventCounter + 1)) hholds
      (fun event hevent => hinput event (List.mem_cons_of_mem _ hevent))
      (by rw [List.length_append, List.length_singleton]; omega)
    obtain ⟨b', heq, hholds'⟩ := hrest
    refine ⟨b', ?_, by rwa [List.append_assoc] at hholds'⟩
    have hcount : Fin.ofNat (2 ^ 64) ((s.eventCounter + 1 : Fin (2 ^ 64)).val + new.length) =
        Fin.ofNat _ (s.eventCounter.val + (new.length + 1)) := by
      refine Fin.ext ?_
      rw [Fin.val_ofNat, Fin.val_ofNat, Fin.val_add, Fin.val_one, Nat.mod_add_mod]
      congr 1
      omega
    rw [List.foldl_cons, hadd, heq, List.length_cons, ← hcount]
    rfl

omit [DecidableEq FB] [DecidableEq C] in
/-- If no event is dropped, there was room for all of them. -/
theorem room_of_dropped (h : s.ecet.mEventList.Holds events) {new : List (FB × ℕ)}
    (hdropped : (new.foldl Resource.addEventEntry s).dropped = s.dropped) :
    events.length + new.length ≤ RingBuffer.size k - 1 := by
  induction new generalizing s events with
  | nil => exact h.length
  | cons event new ih =>
    have hfirst := addEventEntry_spec h event
    have hle := dropped_le_foldl dropped_le_addEventEntry (le_refl (s.addEventEntry event).dropped)
      new
    rw [List.foldl_cons] at hdropped
    split at hfirst
    · obtain ⟨b, hadd, hholds⟩ := hfirst
      rw [hadd] at hdropped
      have hrest := ih hholds hdropped
      rw [List.length_append, List.length_singleton] at hrest
      rw [List.length_cons]
      omega
    · omega

/-! ### Data in the connections -/

omit [DecidableEq FB] [DecidableEq C] in
/-- Adding events does not depend on the data connections. -/
theorem addEventEntries_values (new : List (FB × ℕ)) (s : Resource k l net) (values : C → V) :
    new.foldl Resource.addEventEntry { s with values } =
      { new.foldl Resource.addEventEntry s with values } := by
  induction new generalizing s with
  | nil => rfl
  | cons event new ih =>
    have hfirst : Resource.addEventEntry { s with values } event =
        { s.addEventEntry event with values } := by
      rw [Resource.addEventEntry, Resource.addEventEntry]
      dsimp only
      split
      · rfl
      · split
        · rfl
        · rfl
    rw [List.foldl_cons, List.foldl_cons, hfirst, ih]

omit [DecidableEq FB] in
/-- **The output events of a function block**: first the data, then all events. -/
theorem sendOutputEvents_eq (fb : FB) (sent : List (ℕ × List (C × V))) (s : Resource k l net) :
    sent.foldl (fun s output => s.sendOutputEvent fb output.1 output.2) s =
      (sent.flatMap fun output => net.destinations fb output.1).foldl Resource.addEventEntry
        { s with values := Resource.writeOutputs s.values sent } := by
  induction sent generalizing s with
  | nil => rfl
  | cons output sent ih =>
    have hsend : s.sendOutputEvent fb output.1 output.2 =
        { (net.destinations fb output.1).foldl Resource.addEventEntry s with
          values := Resource.writeData s.values output.2 } :=
      addEventEntries_values _ s _
    have hsends := addEventEntries_values (net.destinations fb output.1) s
      (Resource.writeOutputs s.values (output :: sent))
    rw [List.foldl_cons, ih, hsend, List.flatMap_cons, List.foldl_append]
    exact congrArg (fun t => (sent.flatMap fun output =>
      net.destinations fb output.1).foldl Resource.addEventEntry t) hsends.symm

/-- **What the delivery of an event does** to a resource. -/
theorem receiveInputEvent_eq {event : FB × ℕ} (hservice : net.service event.1 = false) :
    s.receiveInputEvent event.1 event.2 = (s.memory.queued event).foldl Resource.addEventEntry
      { s with
        values := (s.memory.perform event).values
        states := (s.memory.perform event).states
        delivered := (s.memory.perform event).delivered } := by
  rw [Resource.receiveInputEvent, Memory.queued, Memory.perform, hservice]
  exact sendOutputEvents_eq event.1 _ _

/-- A resource with events in its list, a number of events that have been queued and what its
function blocks work on. -/
structure Has (s : Resource k l net) (events : List (FB × ℕ)) (counter : ℕ) (m : Memory net) :
    Prop where
  ecet : FakeEventChain.Holds s.ecet events []
  eventCounter : s.eventCounter = Fin.ofNat _ counter
  memory : s.memory = m

/-- What the function blocks work on, with data written to connections. -/
def Memory.write (m : Memory net) (data : List (C × V)) : Memory net :=
  { m with values := Resource.writeData m.values data }

omit [DecidableEq FB] [DecidableEq C] in
theorem val_eventCounter {counter : ℕ} {m : Memory net} (h : Has s events counter m) :
    s.eventCounter.val = counter % 2 ^ 64 := by
  rw [h.eventCounter]
  rfl

omit [DecidableEq FB] in
/-- **What an output event leads to**, if there is room for the events it queues. -/
theorem sendOutputEvent_spec {counter : ℕ} {m : Memory net} (h : Has s events counter m) (fb : FB)
    (eo : ℕ) (data : List (C × V))
    (hroom : events.length + (net.destinations fb eo).length ≤ RingBuffer.size k - 1) :
    Has (s.sendOutputEvent fb eo data) (events ++ net.destinations fb eo)
        (counter + (net.destinations fb eo).length) (m.write data) ∧
      (s.sendOutputEvent fb eo data).ecet.mIsRemoteEnabled = s.ecet.mIsRemoteEnabled := by
  obtain ⟨hecet, hcounter, rfl⟩ := h
  obtain ⟨b, hadd, hholds⟩ := addEventEntries_spec
    (s := { s with values := Resource.writeData s.values data }) hecet.events
    (fun event hevent => net.input fb eo event hevent) hroom
  rw [Resource.sendOutputEvent, hadd]
  refine ⟨⟨⟨hholds, hecet.externals⟩, ?_, rfl⟩, rfl⟩
  show Fin.ofNat _ (s.eventCounter.val + _) = Fin.ofNat _ (counter + _)
  rw [hcounter, ofNat_val_add]

omit [DecidableEq FB] [DecidableEq C] in
/-- The events that are queued with an event are input events. -/
theorem queued_ne_external {m : Memory net} {event queued : FB × ℕ}
    (h : queued ∈ m.queued event) : queued.2 ≠ externalEventID := by
  rw [Memory.queued] at h
  split at h
  · exact absurd h List.not_mem_nil
  · obtain ⟨output, -, hdestination⟩ := List.mem_flatMap.mp h
    exact net.input _ _ _ hdestination

/-- If no event is dropped when an event is delivered, there was room for all it queues. -/
theorem room_of_receiveInputEvent {counter : ℕ} {m : Memory net} (h : Has s events counter m)
    {event : FB × ℕ} (hservice : net.service event.1 = false)
    (hdropped : (s.receiveInputEvent event.1 event.2).dropped = s.dropped) :
    events.length + (m.queued event).length ≤ RingBuffer.size k - 1 := by
  obtain ⟨hecet, -, rfl⟩ := h
  rw [receiveInputEvent_eq hservice] at hdropped
  refine room_of_dropped (s := { s with
    values := (s.memory.perform event).values
    states := (s.memory.perform event).states
    delivered := (s.memory.perform event).delivered }) hecet.events hdropped

/-- **What the delivery of an event leads to**, if there is room for the events it queues. -/
theorem receiveInputEvent_spec {counter : ℕ} {m : Memory net} (h : Has s events counter m)
    {event : FB × ℕ} (hservice : net.service event.1 = false)
    (hroom : events.length + (m.queued event).length ≤ RingBuffer.size k - 1) :
    Has (s.receiveInputEvent event.1 event.2) (events ++ m.queued event)
        (counter + (m.queued event).length) (m.perform event) ∧
      (s.receiveInputEvent event.1 event.2).ecet.mIsRemoteEnabled = s.ecet.mIsRemoteEnabled ∧
      (s.receiveInputEvent event.1 event.2).dropped = s.dropped := by
  obtain ⟨hecet, hcounter, rfl⟩ := h
  obtain ⟨b, hadd, hholds⟩ := addEventEntries_spec (s := { s with
    values := (s.memory.perform event).values
    states := (s.memory.perform event).states
    delivered := (s.memory.perform event).delivered })
    hecet.events (fun _ hqueued => queued_ne_external hqueued) hroom
  rw [receiveInputEvent_eq hservice, hadd]
  refine ⟨⟨⟨hholds, hecet.externals⟩, ?_, rfl⟩, rfl, rfl⟩
  show Fin.ofNat _ (s.eventCounter.val + _) = Fin.ofNat _ (counter + _)
  rw [hcounter, ofNat_val_add]

/-! ### Replaying -/

omit [DecidableEq FB] in
theorem isSome_inspected (event : FB × ℕ) (rest : List (FB × ℕ)) :
    (FakeEventChain.inspected k (event :: rest)).isSome = true := by
  rw [FakeEventChain.inspected]
  split
  · rfl
  · rename_i hlong
    rw [List.getElem?_eq_getElem (by omega)]
    rfl

/-- **A round of the replay delivers the next event.** -/
theorem trigger_spec {event : FB × ℕ} {counter : ℕ} {m : Memory net}
    (h : Has s (event :: events) counter m) (hremote : s.ecet.mIsRemoteEnabled = true)
    (hroom : events.length + (m.queued event).length ≤ RingBuffer.size k - 1) :
    s.getNextEvent.2.isSome = true ∧
      Has s.getNextEvent.1.triggerNextEvent (events ++ m.queued event)
        (counter + (m.queued event).length) (m.perform event) ∧
      s.getNextEvent.1.triggerNextEvent.ecet.mIsRemoteEnabled = true := by
  obtain ⟨b, hnext, hb⟩ := FakeEventChain.getNextEvent_spec h.ecet
  have hget : s.getNextEvent =
      ({ s with ecet := { s.ecet with mEventList := b } },
        FakeEventChain.inspected k (event :: events)) := by
    simp only [Resource.getNextEvent, hnext]
  obtain ⟨b', p, hpop, hdata, hb'⟩ := hb.pop_cons
  have htrigger : { s with ecet := { s.ecet with mEventList := b } }.triggerNextEvent =
      { s with ecet := { s.ecet with mEventList := b' } }.processOneEvent event := by
    have henabled : (!s.ecet.mIsRemoteEnabled) = false := by rw [hremote]; rfl
    rw [Resource.triggerNextEvent]
    simp only [henabled, Bool.false_eq_true, if_false, hpop, hdata]
  rw [hget]
  refine ⟨isSome_inspected event events, ?_⟩
  show Has (Resource.triggerNextEvent _) _ _ _ ∧
    (Resource.triggerNextEvent _).ecet.mIsRemoteEnabled = true
  have hhas : Has { s with ecet := { s.ecet with mEventList := b' } } events counter m :=
    ⟨⟨hb', h.ecet.externals⟩, h.eventCounter, h.memory⟩
  rw [htrigger, Resource.processOneEvent]
  split
  · rename_i hservice
    rw [Memory.queued, Memory.perform, if_pos hservice, if_pos hservice, List.append_nil]
    exact ⟨hhas, hremote⟩
  · rename_i hservice
    obtain ⟨hhas', hremote', -⟩ :=
      receiveInputEvent_spec hhas (Bool.not_eq_true _ ▸ hservice) hroom
    exact ⟨hhas', hremote'.trans hremote⟩

/-- **The course of a replay**, from a resource with the output events that are to come. -/
inductive Reproduces (s : Resource k l net) (externalEvents : List (FBOutputEventPayload FB T)) :
    Resource k l net → List (FBOutputEventPayload FB T) → Prop
  | refl : Reproduces s externalEvents s externalEvents
  /-- The next event is delivered before the next output event. -/
  | trigger {t : Resource k l net} {rest : List (FBOutputEventPayload FB T)} :
    Reproduces s externalEvents t rest → t.getNextEvent.2.isSome = true →
      t.ecet.mEventList.isEmpty = false →
      (∀ payload ∈ rest.head?, t.eventCounter < payload.eventCounter) →
      Reproduces s externalEvents t.getNextEvent.1.triggerNextEvent rest
  | inject {t : Resource k l net} {rest : List (FBOutputEventPayload FB T)}
    {payload : FBOutputEventPayload FB T} :
    Reproduces s externalEvents t (payload :: rest) → ¬t.eventCounter < payload.eventCounter →
      Reproduces s externalEvents (t.simulateExternalOutputEvent payload) rest

omit [DecidableEq FB] [DecidableEq C] in
theorem delivered_addEventEntry (s : Resource k l net) (event : FB × ℕ) :
    (s.addEventEntry event).delivered = s.delivered := by
  rw [Resource.addEventEntry]
  dsimp only
  split
  · rfl
  · split
    · rfl
    · rfl

omit [DecidableEq FB] in
theorem delivered_sendOutputEvent (s : Resource k l net) (fb : FB) (eo : ℕ) (data : List (C × V)) :
    (s.sendOutputEvent fb eo data).delivered = s.delivered := by
  rw [Resource.sendOutputEvent]
  refine List.foldlRecOn _ _
    (motive := fun t : Resource k l net => t.delivered = s.delivered) rfl ?_
  intro t ht event _
  rw [delivered_addEventEntry, ht]

theorem delivered_simulateExternalOutputEvent (s : Resource k l net)
    (payload : FBOutputEventPayload FB T) :
    (s.simulateExternalOutputEvent payload).delivered = s.delivered :=
  delivered_sendOutputEvent _ _ _ _

/-- The course of a replay is that of the rounds of `reproduceAll`. -/
theorem Reproduces.reproduceAll {t : Resource k l net}
    {externalEvents rest : List (FBOutputEventPayload FB T)}
    (h : Reproduces s externalEvents t rest) (n : ℕ) :
    ∃ bound, (s.reproduceAll bound externalEvents).1.delivered =
        (t.reproduceAll n rest).1.delivered ∧
      (s.reproduceAll bound externalEvents).2 = (t.reproduceAll n rest).2 := by
  induction h generalizing n with
  | refl => exact ⟨n, rfl, rfl⟩
  | @trigger t rest _ hsome hnonempty hcounter ih =>
    obtain ⟨event, hevent⟩ := Option.isSome_iff_exists.mp hsome
    have hround : t.reproduceNextEvent rest =
        (t.getNextEvent.1.triggerNextEvent, rest, some event) := by
      cases rest with
      | nil =>
        rw [Resource.reproduceNextEvent, hnonempty, ← hevent]
        rfl
      | cons payload rest =>
        rw [Resource.reproduceNextEvent, if_pos (hcounter payload rfl), ← hevent]
    obtain ⟨bound, hdelivered, hover⟩ := ih (n + 1)
    rw [Resource.reproduceAll, hround] at hdelivered hover
    exact ⟨bound, hdelivered, hover⟩
  | @inject t rest payload _ hcounter ih =>
    obtain ⟨bound, hdelivered, hover⟩ := ih n
    refine ⟨bound, hdelivered.trans ?_, hover.trans ?_⟩
    · cases n with
      | zero => exact (delivered_simulateExternalOutputEvent t payload).symm
      | succ n => rw [Resource.reproduceAll, Resource.reproduceNextEvent, if_neg hcounter]; rfl
    · cases n with
      | zero => rfl
      | succ n => rw [Resource.reproduceAll, Resource.reproduceNextEvent, if_neg hcounter]; rfl

/-! ### Data that comes early -/

omit [DecidableEq FB] in
theorem writeData_congr {values values' : C → V} {c : C} (h : values c = values' c)
    (data : List (C × V)) :
    Resource.writeData values data c = Resource.writeData values' data c := by
  induction data generalizing values values' with
  | nil => exact h
  | cons d data ih =>
    refine ih ?_
    rcases eq_or_ne c d.1 with rfl | hne
    · show Function.update values d.1 d.2 d.1 = Function.update values' d.1 d.2 d.1
      rw [Function.update_self, Function.update_self]
    · show Function.update values d.1 d.2 c = Function.update values' d.1 d.2 c
      rw [Function.update_of_ne hne, Function.update_of_ne hne, h]

omit [DecidableEq FB] in
theorem writeData_of_not_mem (values : C → V) {data : List (C × V)} {c : C}
    (h : ∀ d ∈ data, d.1 ≠ c) : Resource.writeData values data c = values c := by
  induction data generalizing values with
  | nil => rfl
  | cons d data ih =>
    refine (ih _ fun d' hd' => h d' (List.mem_cons_of_mem _ hd')).trans ?_
    exact Function.update_of_ne (h d List.mem_cons_self).symm _ _

omit [DecidableEq FB] in
theorem writeOutputs_eq (values : C → V) (sent : List (ℕ × List (C × V))) :
    Resource.writeOutputs values sent =
      Resource.writeData values (sent.flatMap fun output => output.2) :=
  (List.foldl_flatMap (f := fun output : ℕ × List (C × V) => output.2)).symm

omit [DecidableEq FB] in
/-- Data connections of service function blocks have the same values when others are written. -/
theorem writeData_comm (values : C → V) {data data' : List (C × V)}
    (h : ∀ d ∈ data, net.ofService d.1 = true) (h' : ∀ d ∈ data', net.ofService d.1 = false) :
    Resource.writeData (Resource.writeData values data) data' =
      Resource.writeData (Resource.writeData values data') data := by
  funext c
  rcases Bool.eq_false_or_eq_true (net.ofService c) with hc | hc
  · have hother : ∀ d ∈ data', d.1 ≠ c := fun d hd hcon => by
      rw [← hcon, h' d hd] at hc
      exact absurd hc Bool.false_ne_true
    rw [writeData_of_not_mem _ hother]
    exact writeData_congr (writeData_of_not_mem values hother).symm data
  · have hother : ∀ d ∈ data, d.1 ≠ c := fun d hd hcon => by
      rw [← hcon, h d hd] at hc
      exact absurd hc.symm Bool.false_ne_true
    rw [writeData_of_not_mem _ hother]
    exact writeData_congr (writeData_of_not_mem values hother) data'

omit [DecidableEq FB] in
/-- Data that changes nothing where it is written changes nothing at all. -/
theorem write_eq_self {m : Memory net} {data : List (C × V)}
    (h : ∀ d ∈ data, Resource.writeData m.values data d.1 = m.values d.1) : m.write data = m := by
  have hvalues : Resource.writeData m.values data = m.values := by
    funext c
    by_cases hc : ∃ d ∈ data, d.1 = c
    · obtain ⟨d, hd, rfl⟩ := hc
      exact h d hd
    · exact writeData_of_not_mem m.values fun d hd hcon => hc ⟨d, hd, hcon⟩
  rw [Memory.write, hvalues]

/-- The data changes none of the values that are read with an event. -/
def Unread (m : Memory net) (data : List (C × V)) (event : FB × ℕ) : Prop :=
  net.service event.1 = false →
    ∀ c ∈ net.reads event.1 event.2, Resource.writeData m.values data c = m.values c

omit [DecidableEq FB] in
/-- **What is not read does not matter** to an event. -/
theorem input_write {m : Memory net} {data : List (C × V)} {event : FB × ℕ}
    (hservice : net.service event.1 = false)
    (h : Unread m data event) : (m.write data).input event = m.input event :=
  List.map_congr_left (h hservice)

/-- Values that service function blocks write stay when an event is delivered. -/
theorem perform_values {c : C} (hc : net.ofService c = true) (m : Memory net) (event : FB × ℕ) :
    (m.perform event).values c = m.values c := by
  rw [Memory.perform]
  split
  · rfl
  · show Resource.writeOutputs m.values (m.outcome event).2 c = m.values c
    rw [writeOutputs_eq]
    refine writeData_of_not_mem m.values fun d hd hcon => ?_
    obtain ⟨sent, hsent, hdata⟩ := List.mem_flatMap.mp hd
    have hother := net.ofService_execute _ _ _ _ sent hsent d hdata
    rw [hcon, hc] at hother
    exact absurd hother.symm Bool.false_ne_true

/-- **Data of service function blocks that is not read with an event** can be written before it
is delivered. -/
theorem perform_write {m : Memory net} {data : List (C × V)}
    (hdata : ∀ d ∈ data, net.ofService d.1 = true) {event : FB × ℕ}
    (h : Unread m data event) :
    (m.write data).perform event = (m.perform event).write data ∧
      (m.write data).queued event = m.queued event := by
  rcases Bool.eq_false_or_eq_true (net.service event.1) with hservice | hservice
  · simp only [Memory.perform, Memory.queued, hservice, if_true, and_self]
  · have hinput := input_write hservice h
    have houtcome : (m.write data).outcome event = m.outcome event := by
      rw [Memory.outcome, hinput]
      rfl
    refine ⟨?_, by rw [Memory.queued, Memory.queued, houtcome]⟩
    have hother : ∀ d ∈ (m.outcome event).2.flatMap (fun output => output.2),
        net.ofService d.1 = false := by
      intro d hd
      obtain ⟨sent, hsent, hmem⟩ := List.mem_flatMap.mp hd
      exact net.ofService_execute _ _ _ _ sent hsent d hmem
    have hvalues : Resource.writeOutputs (m.write data).values (m.outcome event).2 =
        Resource.writeData (Resource.writeOutputs m.values (m.outcome event).2) data := by
      rw [writeOutputs_eq, writeOutputs_eq]
      exact writeData_comm m.values hdata hother
    simp only [Memory.perform, hservice, Bool.false_eq_true, if_false, houtcome, hinput, hvalues]
    rfl

/-- Events have not read data that they leave as it is, whether it is written before or behind
them. -/
theorem Unread.foldl {m : Memory net} {data : List (C × V)}
    (hdata : ∀ d ∈ data, net.ofService d.1 = true) {event : FB × ℕ} {between : List (FB × ℕ)}
    (h : Unread (between.foldl Memory.perform m) data event) :
    Unread m data event := by
  intro hservice c hc
  have hread := h hservice c hc
  rcases Bool.eq_false_or_eq_true (net.ofService c) with hof | hof
  · have hsame : (between.foldl Memory.perform m).values c = m.values c := by
      refine List.foldlRecOn _ _ (motive := fun m' : Memory net => m'.values c = m.values c) rfl ?_
      intro m' hm' event _
      rw [perform_values hof, hm']
    rw [hsame, writeData_congr hsame] at hread
    exact hread
  · refine writeData_of_not_mem m.values fun d hd hcon => ?_
    rw [← hcon, hdata d hd] at hof
    exact absurd hof.symm Bool.false_ne_true

/-- **Data that none of the events reads** can be written before all of them. -/
theorem foldl_perform_write {data : List (C × V)} (hdata : ∀ d ∈ data, net.ofService d.1 = true)
    (idle : List (FB × ℕ)) (m : Memory net)
    (h : ∀ event ∈ idle, Unread (idle.foldl Memory.perform m) data event) :
    idle.foldl Memory.perform (m.write data) = (idle.foldl Memory.perform m).write data ∧
      (m.Idle idle → (m.write data).Idle idle) := by
  induction idle generalizing m with
  | nil => exact ⟨rfl, id⟩
  | cons event idle ih =>
    have hunread : Unread m data event :=
      @Unread.foldl _ _ _ _ _ _ _ m data hdata event (event :: idle) (h event List.mem_cons_self)
    obtain ⟨hperform, hqueued⟩ := perform_write hdata hunread
    obtain ⟨hfold, hidle⟩ := ih (m.perform event) fun event' hevent' =>
      h event' (List.mem_cons_of_mem _ hevent')
    refine ⟨?_, fun hm => ⟨hqueued.trans hm.1, ?_⟩⟩
    · rw [List.foldl_cons, hperform, hfold]
      rfl
    · rw [hperform]
      exact hidle hm.2

/-! ### A recording and its replay -/

/-- **A replay follows a recording.** It has not delivered the events since the last one that
queued others, and its event list has them in front of those that are still to come. -/
structure Follows (s : Resource k l net) (r : Recording k l net) (t : Resource k l net)
    (events pending : List (FB × ℕ)) (counter : ℕ) (m : Memory net) : Prop where
  recorded : Has r.resource events counter (r.idle.foldl Memory.perform m)
  replayed : Has t (r.idle ++ pending) counter m
  remote : t.ecet.mIsRemoteEnabled = true
  idle : m.Idle r.idle
  count : counter < 2 ^ 64
  reproduces : ∀ more : List (FBOutputEventPayload FB T),
    (∀ payload ∈ more.head?, t.eventCounter ≤ payload.eventCounter) →
      Reproduces s.takeExternalControl (r.trace ++ more) t more

/-- A replay follows a recording in which no event has been dropped. Only service function blocks
have external events. -/
def Followed (s : Resource k l net) (r : Recording k l net) : Prop :=
  r.resource.dropped = 0 → ∃ t events counter m,
    Follows s r t events (events.filter isInput) counter m ∧
      ∀ event ∈ events, isInput event = false → net.service event.1 = true

/-- An output event is read back from the trace. -/
theorem serviceData_simulate (t : Resource k l net) (fb : FB) (output : ℕ × (ℕ → V))
    (htext : ∀ o ∈ net.written fb output.1, ∀ old,
      net.fromString old (net.toString (output.2 o.1)) = output.2 o.1)
    {texts : List T} (htexts : texts = (List.range (net.numDOs fb)).map fun i =>
      net.toString (output.2 i)) (eventCounter : Fin (2 ^ 64)) :
    ∃ outputs, t.simulateExternalOutputEvent ⟨fb, output.1, eventCounter, texts⟩ =
      { t with outputs }.sendOutputEvent fb output.1 (sentData net fb output) := by
  refine ⟨_, congrArg (Resource.sendOutputEvent _ fb output.1) ?_⟩
  refine List.map_congr_left fun o ho => ?_
  have hlt := net.written_lt fb output.1 o ho
  have hat : texts[o.1]? = some (net.toString (output.2 o.1)) := by
    rw [htexts, List.getElem?_map, List.getElem?_range hlt]
    rfl
  show (o.2, Function.update t.outputs fb _ fb o.1) = (o.2, output.2 o.1)
  rw [Function.update_self, hat]
  exact congrArg (Prod.mk o.2) (htext o ho _)

/-- **A replay follows the output events of a service function block.** -/
theorem Followed.sendOutputEvent {r : Recording k l net} (h : Followed s r) {fb : FB}
    {output : ℕ × (ℕ → V)}
    (hcond : if net.destinations fb output.1 = [] then
        ∀ o ∈ net.written fb output.1,
          Resource.writeData r.resource.values (sentData net fb output) o.2 = r.resource.values o.2
      else Early r fb output) : Followed s (r.sendOutputEvent fb output) := by
  have hdata : { r.resource with
      outputs := Function.update r.resource.outputs fb output.2 }.serviceData fb output.1 =
        sentData net fb output := by
    rw [Resource.serviceData, sentData]
    dsimp only
    rw [Function.update_self]
  have hofService : ∀ d ∈ sentData net fb output, net.ofService d.1 = true := by
    intro d hd
    obtain ⟨o, ho, rfl⟩ := List.mem_map.mp hd
    exact net.ofService_written fb output.1 o ho
  intro hdropped
  have hle := dropped_le_sendOutputEvent { r.resource with
    outputs := Function.update r.resource.outputs fb output.2 } fb output.1
    (sentData net fb output)
  rw [Recording.sendOutputEvent, hdata] at hdropped
  have hbefore : r.resource.dropped = 0 := Nat.le_zero.mp (hle.trans hdropped.le)
  obtain ⟨t, events, counter, m, hfollows, hexternal⟩ := h hbefore
  have hroom : events.length + (net.destinations fb output.1).length ≤ RingBuffer.size k - 1 :=
    room_of_dropped (s := { r.resource with
      outputs := Function.update r.resource.outputs fb output.2
      values := Resource.writeData r.resource.values (sentData net fb output) })
      hfollows.recorded.ecet.events (hdropped.trans hbefore.symm)
  have hset : Has { r.resource with outputs := Function.update r.resource.outputs fb output.2 }
      events counter (r.idle.foldl Memory.perform m) :=
    ⟨hfollows.recorded.ecet, hfollows.recorded.eventCounter, hfollows.recorded.memory⟩
  obtain ⟨hrecorded, -⟩ := sendOutputEvent_spec hset fb output.1 (sentData net fb output) hroom
  have hvalues : (r.idle.foldl Memory.perform m).values = r.resource.values :=
    congrArg Memory.values hfollows.recorded.memory.symm
  rw [Recording.sendOutputEvent, hdata]
  split at hcond
  · rename_i hunconnected
    have hsame : (r.idle.foldl Memory.perform m).write (sentData net fb output) =
        r.idle.foldl Memory.perform m := by
      refine write_eq_self fun d hd => ?_
      obtain ⟨o, ho, rfl⟩ := List.mem_map.mp hd
      rw [hvalues]
      exact hcond o ho
    rw [hsame, hunconnected, List.append_nil] at hrecorded
    refine ⟨t, events, counter, m, ⟨hrecorded, hfollows.replayed, hfollows.remote, hfollows.idle,
      hfollows.count, ?_⟩, hexternal⟩
    rw [if_pos hunconnected]
    exact hfollows.reproduces
  · rename_i hconnected
    obtain ⟨htext, hunread, hearly, hcount⟩ := hcond
    have hnone : ∀ event ∈ r.idle,
        Unread (r.idle.foldl Memory.perform m) (sentData net fb output) event := by
      intro event hevent hservice
      rw [hvalues]
      exact hunread event hevent hservice
    obtain ⟨hwrite, hidle⟩ := foldl_perform_write hofService r.idle m hnone
    rw [← hwrite] at hrecorded
    rw [hfollows.recorded.ecet.events.contents] at hearly
    rw [val_eventCounter hfollows.recorded, Nat.mod_eq_of_lt hfollows.count] at hcount
    have htexts : ((List.range (net.numDOs fb)).map fun i =>
        net.toString (Function.update r.resource.outputs fb output.2 fb i)) =
          (List.range (net.numDOs fb)).map fun i => net.toString (output.2 i) := by
      rw [Function.update_self]
    obtain ⟨outputs, hsimulate⟩ :=
      serviceData_simulate t fb output htext htexts r.resource.eventCounter
    have hloaded : Has { t with outputs } (r.idle ++ events.filter isInput) counter m :=
      ⟨hfollows.replayed.ecet, hfollows.replayed.eventCounter, hfollows.replayed.memory⟩
    obtain ⟨hreplayed, hremote⟩ := sendOutputEvent_spec hloaded fb output.1
      (sentData net fb output) (by rw [List.length_append]; omega)
    have hinputs : (net.destinations fb output.1).filter isInput = net.destinations fb output.1 :=
      List.filter_eq_self.mpr fun event hevent => decide_eq_true (net.input fb _ event hevent)
    have hpending : r.idle ++ events.filter isInput ++ net.destinations fb output.1 =
        r.idle ++ (events ++ net.destinations fb output.1).filter isInput := by
      rw [List.filter_append, hinputs, List.append_assoc]
    rw [hpending] at hreplayed
    have hsamecounter : t.eventCounter = r.resource.eventCounter :=
      hfollows.replayed.eventCounter.trans hfollows.recorded.eventCounter.symm
    refine ⟨_, _, _, m.write (sentData net fb output), ⟨hrecorded, hreplayed,
      hremote.trans hfollows.remote, hidle hfollows.idle, hcount, fun more _ => ?_⟩, ?_⟩
    · rw [if_neg hconnected, List.append_assoc, ← hsimulate]
      refine Reproduces.inject (hfollows.reproduces _ fun payload hpayload => ?_) ?_
      · obtain rfl := Option.mem_some_iff.mp hpayload
        exact Fin.le_def.mpr (congrArg Fin.val hsamecounter).le
      · rw [hsamecounter]
        exact Fin.lt_irrefl _
    · intro event hevent hinput
      rcases List.mem_append.mp hevent with hold | hnew
      · exact hexternal event hold hinput
      · rw [isInput, decide_eq_false_iff_not, not_not] at hinput
        exact absurd hinput (net.input fb output.1 event hnew)

/-- The output events of a service function block are sent one after the other. -/
theorem Followed.sendOutputEvents {fb : FB} (sent : List (ℕ × (ℕ → V))) {r : Recording k l net}
    (h : Followed s r) (hcond : SentCond r fb sent) :
    Followed s (sent.foldl (fun r output => r.sendOutputEvent fb output) r) := by
  induction sent generalizing r with
  | nil => exact h
  | cons output sent ih => exact ih (h.sendOutputEvent hcond.1) hcond.2

omit [DecidableEq FB] [DecidableEq C] in
/-- The events of an output event, or of all that are sent with an event, are input events. -/
theorem filter_isInput {new : List (FB × ℕ)} (h : ∀ event ∈ new, event.2 ≠ externalEventID)
    (events : List (FB × ℕ)) : (events ++ new).filter isInput = events.filter isInput ++ new := by
  have hnew : new.filter isInput = new :=
    List.filter_eq_self.mpr fun event hevent => decide_eq_true (h event hevent)
  rw [List.filter_append, hnew]

/-- One more event that queues no others. -/
theorem Memory.Idle.concat {m : Memory net} {idle : List (FB × ℕ)} {event : FB × ℕ}
    (h : m.Idle idle) (hevent : (idle.foldl Memory.perform m).queued event = []) :
    m.Idle (idle ++ [event]) := by
  induction idle generalizing m with
  | nil => exact ⟨hevent, trivial⟩
  | cons event' idle ih => exact ⟨h.1, ih h.2 hevent⟩

/-- The replay delivers events that queue no others. -/
theorem Reproduces.idle {counter : ℕ} {pending : List (FB × ℕ)} (idle : List (FB × ℕ))
    {t : Resource k l net} {m : Memory net} (h : Has t (idle ++ pending) counter m)
    (hremote : t.ecet.mIsRemoteEnabled = true) (hidle : m.Idle idle) :
    ∃ t', (∀ externalEvents more : List (FBOutputEventPayload FB T),
        Reproduces s externalEvents t more →
          (∀ payload ∈ more.head?, t.eventCounter < payload.eventCounter) →
            Reproduces s externalEvents t' more) ∧
      Has t' pending counter (idle.foldl Memory.perform m) ∧ t'.ecet.mIsRemoteEnabled = true := by
  induction idle generalizing t m with
  | nil => exact ⟨t, fun _ _ hreproduces _ => hreproduces, h, hremote⟩
  | cons event idle ih =>
    have hlength := h.ecet.events.length
    rw [List.cons_append] at h
    rw [List.cons_append, List.length_cons] at hlength
    obtain ⟨hsome, hnext, hnextremote⟩ := trigger_spec h hremote (by
      rw [hidle.1]
      exact Nat.le_of_succ_le hlength)
    rw [hidle.1, List.append_nil, List.length_nil, Nat.add_zero] at hnext
    obtain ⟨t', hreaches, hhas, hremote'⟩ := ih hnext hnextremote hidle.2
    refine ⟨t', fun externalEvents more hreproduces hcounter => ?_, hhas, hremote'⟩
    refine hreaches _ _ (hreproduces.trigger hsome h.ecet.events.isEmpty hcounter) ?_
    rwa [hnext.eventCounter, ← h.eventCounter]

/-- **A replay follows the delivery of an event.** -/
theorem Followed.deliver {r : Recording k l net} {event : FB × ℕ} {events : List (FB × ℕ)}
    (h : r.resource.dropped = 0 → ∃ t counter m,
      Follows s r t events ((event :: events).filter isInput) counter m ∧
        ∀ event' ∈ event :: events, isInput event' = false → net.service event'.1 = true)
    {sent : List (ℕ × (ℕ → V))} (hcond : DeliverCond r event sent) :
    Followed s (r.deliver event sent) := by
  rw [Recording.deliver]
  rw [DeliverCond] at hcond
  rcases Bool.eq_false_or_eq_true (net.service event.1) with hservice | hservice
  · rw [if_pos hservice]
    split
    · -- the service function block sends its output events
      rename_i hexternal
      rw [if_pos ⟨hservice, hexternal⟩] at hcond
      refine Followed.sendOutputEvents sent (fun hdropped => ?_) hcond
      obtain ⟨t, counter, m, hfollows, hof⟩ := h hdropped
      have hinput : isInput event = false := decide_eq_false (not_not.mpr hexternal)
      rw [List.filter_cons_of_neg (by rw [hinput]; exact Bool.false_ne_true)] at hfollows
      exact ⟨t, events, counter, m, hfollows, fun event' hevent' =>
        hof event' (List.mem_cons_of_mem _ hevent')⟩
    · -- nothing happens here, but the replay has the event in its list
      rename_i hexternal
      intro hdropped
      obtain ⟨t, counter, m, hfollows, hof⟩ := h hdropped
      have hinput : isInput event = true := decide_eq_true hexternal
      rw [List.filter_cons_of_pos hinput] at hfollows
      have hsame : (r.idle ++ [event]).foldl Memory.perform m = r.idle.foldl Memory.perform m := by
        rw [List.foldl_append, List.foldl_cons, List.foldl_nil, Memory.perform, if_pos hservice]
      refine ⟨t, events, counter, m, ⟨?_, ?_, hfollows.remote, ?_, hfollows.count,
        hfollows.reproduces⟩, fun event' hevent' => hof event' (List.mem_cons_of_mem _ hevent')⟩
      · show Has r.resource events counter ((r.idle ++ [event]).foldl Memory.perform m)
        rw [hsame]
        exact hfollows.recorded
      · show Has t (r.idle ++ [event] ++ events.filter isInput) counter m
        rw [List.append_assoc]
        exact hfollows.replayed
      · refine hfollows.idle.concat ?_
        rw [Memory.queued, if_pos hservice]
  · rw [if_neg (by rw [hservice]; exact Bool.false_ne_true)]
    rw [if_neg (by rw [hservice]; exact fun hcon => Bool.false_ne_true hcon.1)] at hcond
    intro hdropped
    have hle := dropped_le_receiveInputEvent r.resource event.1 event.2
    have hbefore : r.resource.dropped = 0 := Nat.le_zero.mp (hle.trans hdropped.le)
    obtain ⟨t, counter, m, hfollows, hof⟩ := h hbefore
    have hinput : isInput event = true := by
      rcases Bool.eq_false_or_eq_true (isInput event) with hinput | hinput
      · exact hinput
      · rw [hof event List.mem_cons_self hinput] at hservice
        exact absurd hservice.symm Bool.false_ne_true
    have hevents : ∀ event' ∈ events, isInput event' = false → net.service event'.1 = true :=
      fun event' hevent' => hof event' (List.mem_cons_of_mem _ hevent')
    rw [List.filter_cons_of_pos hinput] at hfollows
    obtain ⟨hrecorded, hreplayed, hremote, hidle, hcount, hreproduces⟩ := hfollows
    rw [hrecorded.memory, val_eventCounter hrecorded, Nat.mod_eq_of_lt hcount] at hcond
    have hroom := room_of_receiveInputEvent hrecorded hservice (hdropped.trans hbefore.symm)
    obtain ⟨hdelivered, -, -⟩ := receiveInputEvent_spec hrecorded hservice hroom
    have hcounter := val_eventCounter hrecorded
    have hcounter' := val_eventCounter hdelivered
    rw [Nat.mod_eq_of_lt hcount] at hcounter
    rw [Nat.mod_eq_of_lt hcond] at hcounter'
    rcases List.eq_nil_or_concat' ((r.idle.foldl Memory.perform m).queued event) with
      hqueued | ⟨_, _, hqueued⟩
    · -- the event is put behind the others that queue none
      rw [hqueued, List.length_nil, Nat.add_zero] at hcounter'
      rw [hqueued, List.append_nil, List.length_nil, Nat.add_zero] at hdelivered
      dsimp only
      rw [if_pos (Fin.ext (hcounter'.trans hcounter.symm))]
      refine ⟨t, events, counter, m, ⟨?_, ?_, hremote, ?_, hcount, hreproduces⟩, hevents⟩
      · rw [List.foldl_append]
        exact hdelivered
      · rw [List.append_assoc]
        exact hreplayed
      · exact hidle.concat hqueued
    · -- the replay delivers the events up to this one
      have hpos : 0 < ((r.idle.foldl Memory.perform m).queued event).length := by
        rw [hqueued, List.length_append]
        exact Nat.succ_pos _
      have hne : (r.resource.receiveInputEvent event.1 event.2).eventCounter ≠
          r.resource.eventCounter := fun hcon => by
        rw [hcon] at hcounter'
        omega
      obtain ⟨t', hreaches, hhas, hremote'⟩ := Reproduces.idle r.idle hreplayed hremote hidle
      have hlength := hrecorded.ecet.events.length
      obtain ⟨hsome, hnext, hnextremote⟩ := trigger_spec hhas hremote'
        ((Nat.add_le_add_right (List.length_filter_le _ _) _).trans hroom)
      rw [← filter_isInput (fun _ => queued_ne_external)] at hnext
      dsimp only
      rw [if_neg hne]
      refine ⟨_, _, _, (r.idle.foldl Memory.perform m).perform event,
        ⟨hdelivered, hnext, hnextremote, trivial, hcond, fun more hmore => ?_⟩, ?_⟩
      · have hbelow : ∀ payload ∈ more.head?, t.eventCounter < payload.eventCounter := by
          intro payload hpayload
          have hle : _ ≤ payload.eventCounter.val := hmore payload hpayload
          have hval := val_eventCounter hreplayed
          have hval' := val_eventCounter hnext
          rw [Nat.mod_eq_of_lt hcount] at hval
          rw [Nat.mod_eq_of_lt hcond] at hval'
          show t.eventCounter.val < payload.eventCounter.val
          omega
        have hbefore := hreaches _ more
          (hreproduces more fun payload hpayload => Fin.le_of_lt (hbelow payload hpayload)) hbelow
        refine hbefore.trigger hsome hhas.ecet.events.isEmpty ?_
        rwa [hhas.eventCounter, ← hreplayed.eventCounter]
      · intro event' hevent' hinput'
        rcases List.mem_append.mp hevent' with hold | hnew
        · exact hevents event' hold hinput'
        · rw [isInput, decide_eq_false_iff_not, not_not] at hinput'
          exact absurd hinput' (queued_ne_external hnew)

/-- **A step of a recording.** -/
theorem Followed.next {r : Recording k l net} (h : Followed s r) (st : Recording.Step FB V)
    (hcond : Cond r st) : Followed s (r.next st) := by
  cases st with
  | transferExternalEvent fb =>
    rw [Recording.next]
    split
    · rename_i hservice
      intro hdropped
      have hle := dropped_le_addEventEntry r.resource (fb, externalEventID)
      have hbefore : r.resource.dropped = 0 := Nat.le_zero.mp (hle.trans hdropped.le)
      obtain ⟨t, events, counter, m, hfollows, hexternal⟩ := h hbefore
      have hadd := addEventEntry_spec hfollows.recorded.ecet.events (fb, externalEventID)
      split at hadd
      · obtain ⟨b, hput, hholds⟩ := hadd
        rw [if_neg (not_not.mpr rfl)] at hput
        have hinput : isInput (fb, externalEventID) = false := decide_eq_false (not_not.mpr rfl)
        have hpending : (events ++ [(fb, externalEventID)]).filter isInput =
            events.filter isInput := by
          rw [List.filter_append, List.filter_singleton, hinput]
          exact List.append_nil _
        refine ⟨t, events ++ [(fb, externalEventID)], counter, m, ⟨?_, ?_, hfollows.remote,
          hfollows.idle, hfollows.count, hfollows.reproduces⟩, fun event hevent hevent' => ?_⟩
        · dsimp only
          rw [hput]
          exact ⟨⟨hholds, hfollows.recorded.ecet.externals⟩, hfollows.recorded.eventCounter,
            hfollows.recorded.memory⟩
        · rw [hpending]
          exact hfollows.replayed
        · rcases List.mem_append.mp hevent with hold | hnew
          · exact hexternal event hold hevent'
          · rw [List.mem_singleton.mp hnew]
            exact hservice
      · exact absurd hdropped (by dsimp only; omega)
    · exact h
  | mainRun sent =>
    rw [Cond] at hcond
    rw [Recording.next]
    split at hcond
    · exact h
    · rename_i b event hpop
      refine @Followed.deliver _ _ _ _ _ _ _ _ _ _ _ _ b.contents (fun hdropped => ?_) _ hcond
      obtain ⟨t, events, counter, m, hfollows, hexternal⟩ := h hdropped
      cases events with
      | nil =>
        rw [hfollows.recorded.ecet.events.pop_nil] at hpop
        exact absurd (congrArg Prod.snd hpop) (by simp)
      | cons first events =>
        obtain ⟨b', i, hpop', hfirst, hb'⟩ := hfollows.recorded.ecet.events.pop_cons
        obtain ⟨rfl, hevent⟩ := Prod.mk.inj (hpop'.symm.trans hpop)
        obtain rfl := Option.some.inj hevent
        rw [hb'.contents, hfirst]
        exact ⟨t, counter, m, ⟨⟨⟨hb', hfollows.recorded.ecet.externals⟩,
          hfollows.recorded.eventCounter, hfollows.recorded.memory⟩, hfollows.replayed,
          hfollows.remote, hfollows.idle, hfollows.count, hfollows.reproduces⟩, hexternal⟩

/-- A replay starts where the recording has. -/
theorem followed_fresh (hs : s.Fresh) : Followed s ⟨s, [], []⟩ := by
  obtain ⟨⟨elements, externalElements, hecet⟩, hcounter, -, -⟩ := hs
  intro _
  have hholds : FakeEventChain.Holds s.ecet [] [] := by
    rw [hecet]
    exact ⟨RingBuffer.holds_initial elements, RingBuffer.holds_initial externalElements⟩
  refine ⟨s.takeExternalControl, [], 0, s.memory, ⟨⟨hholds, hcounter, rfl⟩,
    ⟨⟨hholds.events, hholds.externals⟩, hcounter, rfl⟩, rfl, trivial, Nat.two_pow_pos 64,
      fun more _ => ?_⟩, fun event hevent => absurd hevent List.not_mem_nil⟩
  exact Reproduces.refl

/-- **A recording that is followed is replayed.** -/
theorem Followed.replays {r : Recording k l net} (h : Followed s r)
    (hdropped : r.resource.dropped = 0) : Replays s r := by
  obtain ⟨t, events, counter, m, hfollows, -⟩ := h hdropped
  obtain ⟨t', hreaches, hhas, -⟩ := Reproduces.idle (s := s.takeExternalControl) r.idle
    hfollows.replayed hfollows.remote hfollows.idle
  have hnone : ∀ P : FBOutputEventPayload FB T → Prop, ∀ payload ∈ ([] : List _).head?, P payload :=
    fun P payload hpayload => absurd hpayload (by simp)
  have hreproduces := hreaches _ _ (hfollows.reproduces [] (hnone _)) (hnone _)
  rw [List.append_nil] at hreproduces
  have hdelivered : t'.delivered = r.resource.delivered :=
    congrArg Memory.delivered (hhas.memory.trans hfollows.recorded.memory.symm)
  rw [Replays, hfollows.recorded.ecet.events.contents]
  by_cases hempty : events.filter isInput = []
  · have hround : t'.reproduceAll 1 ([] : List (FBOutputEventPayload FB T)) = (t', true) := by
      have hisEmpty := hhas.ecet.events.isEmpty
      rw [hempty] at hisEmpty
      rw [Resource.reproduceAll, Resource.reproduceNextEvent, hisEmpty]
      rfl
    obtain ⟨bound, hsame, hover⟩ := hreproduces.reproduceAll 1
    rw [hround] at hsame hover
    exact ⟨bound, hsame.trans hdelivered, fun _ => hover⟩
  · obtain ⟨bound, hsame, -⟩ := hreproduces.reproduceAll 0
    refine ⟨bound, hsame.trans hdelivered, fun hexternal => absurd ?_ hempty⟩
    refine List.filter_eq_nil_iff.mpr fun event hevent => ?_
    rw [isInput, decide_eq_true_eq, not_not]
    exact hexternal event hevent

/-- A replay that has come to its end stays there. -/
theorem reproduceAll_over {bound : ℕ} {externalEvents : List (FBOutputEventPayload FB T)}
    (h : (s.reproduceAll bound externalEvents).2 = true) (n : ℕ) :
    s.reproduceAll (bound + n) externalEvents = s.reproduceAll bound externalEvents := by
  induction bound generalizing s externalEvents with
  | zero => exact absurd h Bool.false_ne_true
  | succ bound ih =>
    rw [Nat.succ_add, Resource.reproduceAll, Resource.reproduceAll]
    rw [Resource.reproduceAll] at h
    split
    · rfl
    · rename_i hround
      rw [hround] at h
      exact ih h

/-! ### Data that a replay reads too early -/

/-- `S` and `T` are service function blocks. An output event of `T` leads to the first event
input of `B`, which reads the data output of `S`; the output event of `S` leads to the second,
which reads nothing. -/
inductive SampleFB
  | S
  | T
  | B
  deriving DecidableEq

/-- The only data connection is that of `S`. -/
def sampleNetwork : FBNetwork SampleFB Unit Bool Bool where
  State := Unit
  service fb := fb ≠ .B
  reads
    | .B, 0 => [()]
    | _, _ => []
  execute _ _ _ _ := ((), [])
  numDOs
    | .S => 1
    | _ => 0
  written
    | .S, 0 => [(0, ())]
    | _, _ => []
  destinations
    | .T, 0 => [(.B, 0)]
    | .S, 0 => [(.B, 1)]
    | _, _ => []
  toString value := value
  fromString _ text := text
  ofService _ := true
  ofService_written _ _ _ _ := rfl
  written_lt
    | .S, 0, output, h => by
      rw [List.mem_singleton.mp h]
      exact Nat.one_pos
    | .S, _ + 1, _, h => absurd h List.not_mem_nil
    | .T, _, _, h => absurd h List.not_mem_nil
    | .B, _, _, h => absurd h List.not_mem_nil
  ofService_execute _ _ _ _ sent h := absurd h List.not_mem_nil
  input
    | .S, 0, event, h => by
      rw [List.mem_singleton.mp h]
      decide
    | .T, 0, event, h => by
      rw [List.mem_singleton.mp h]
      decide
    | .S, _ + 1, _, h => absurd h List.not_mem_nil
    | .T, _ + 1, _, h => absurd h List.not_mem_nil
    | .B, _, _, h => absurd h List.not_mem_nil

/-- The resource before its first event. -/
def sample : Resource 3 3 sampleNetwork where
  ecet := .initial (fun _ => (.S, 0)) fun _ => (.S, 0)
  eventCounter := 0
  dropped := 0
  values _ := false
  states _ := ()
  outputs _ _ := false
  delivered := []

/-- `B` reads the output of `S`, which is set only after that. -/
def sampleRun : List (Recording.Step SampleFB Bool) :=
  [.transferExternalEvent .T, .mainRun [(0, fun _ => false)], .mainRun [],
    .transferExternalEvent .S, .mainRun [(0, fun _ => true)], .mainRun []]

/-- **The replay sets the output of `S` before `B` reads it**, since `B` has queued nothing in
between. -/
theorem not_replays_early : sample.Fresh ∧
    (Runs.run Recording.next ⟨sample, [], []⟩ sampleRun).resource.dropped = 0 ∧
      ¬Replays sample (Runs.run Recording.next ⟨sample, [], []⟩ sampleRun) := by
  refine ⟨⟨⟨_, _, rfl⟩, rfl, rfl, rfl⟩, by decide +kernel, ?_⟩
  rintro ⟨bound, hdelivered, -⟩
  have hover : (sample.takeExternalControl.reproduceAll 3
      (Runs.run Recording.next ⟨sample, [], []⟩ sampleRun).trace).2 = true := by
    decide +kernel
  have hother : ∀ bound < 4, (sample.takeExternalControl.reproduceAll bound
      (Runs.run Recording.next ⟨sample, [], []⟩ sampleRun).trace).1.delivered ≠
        (Runs.run Recording.next ⟨sample, [], []⟩ sampleRun).resource.delivered := by
    decide +kernel
  rcases Nat.lt_or_ge bound 3 with hfew | hmany
  · exact hother bound (hfew.trans (Nat.lt_succ_self 3)) hdelivered
  · obtain ⟨n, rfl⟩ := Nat.exists_eq_add_of_le hmany
    refine hother 3 (Nat.lt_succ_self 3) ?_
    rw [← reproduceAll_over hover n]
    exact hdelivered

/-! ### Recordings that are replayed -/

/-- **Every recording is replayed in which no event was dropped and all output events of service
function blocks can come early**: the other function blocks get the same events, with the same
data. -/
theorem replays_run (hs : s.Fresh) {steps : List (Recording.Step FB V)}
    (hcond : Runs.Each Recording.next Cond ⟨s, [], []⟩ steps)
    (hdropped : (Runs.run Recording.next ⟨s, [], []⟩ steps).resource.dropped = 0) :
    Replays s (Runs.run Recording.next ⟨s, [], []⟩ steps) :=
  (Runs.good_run (fun _ st h => h.next st) (followed_fresh hs) hcond).replays hdropped

/-- `S` sets its output before `T` sends its event. -/
theorem replays_run_sample : Replays sample
    (Runs.run Recording.next ⟨sample, [], []⟩ [.transferExternalEvent .S,
      .mainRun [(0, fun _ => true)], .mainRun [], .transferExternalEvent .T,
      .mainRun [(0, fun _ => false)], .mainRun []]) := by
  refine replays_run ⟨⟨_, _, rfl⟩, rfl, rfl, rfl⟩ ?_ ?_
  · decide +kernel
  · decide +kernel

end

end Forte.ResourceReplayer
