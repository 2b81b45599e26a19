import Mathlib.Data.List.Perm.Subperm
import Forte.Execution.RingBuffer

/-!
# The event chain execution

`CEventChainExecutionThread` delivers the events of a resource. Its thread works on a ring
buffer of its own, to which the function blocks it executes add events; events from outside
are put into a second ring buffer under a lock, and the thread takes them over at the
beginning of each round of `mainRun`. With nothing to deliver the thread suspends itself
until a semaphore is posted.

The threads are interleaved at the accesses to what they share: the thread's look at the
external buffer, the transfer and the insertion of an event, each under the lock, the
posting of the semaphore and the wait for it. What has entered the thread's own buffer is
delivered once and in this order, no event waits for a thread that has gone to sleep
(`Forte.EventChain.delivers`), but an event from outside is lost if that buffer is full
when it is taken over (`Forte.EventChain.external_event_lost`).
-/

namespace Forte

/-- `cgExternalEventID`. -/
def externalEventID : ℕ := 65534

/-- Where the thread is in `mainRun`. -/
inductive ThreadPoint
  /-- Before `externalEventOccured`. -/
  | check
  /-- Before `transferExternalEvents`. -/
  | transfer
  /-- Before `pop`. -/
  | pop
  /-- In `receiveInputEvent` of a function block. -/
  | execute
  /-- In `selfSuspend`. -/
  | suspend
  deriving DecidableEq

/-- Who has added an event to the event list. -/
inductive Origin
  | chain
  | external
  deriving DecidableEq

/-- The state of `CEventChainExecutionThread`, and a record of what has become of the
events. -/
structure EventChain (k l : Fin 64) (E : Type) where
  eventList : RingBuffer k E
  externalEventList : RingBuffer l E
  processingEvents : Bool
  /-- Whether `mSuspendSemaphore` is posted. -/
  suspendSemaphore : Bool
  thread : ThreadPoint
  /-- The calls of `startEventChain` that have inserted their event and have still to resume
  the thread. -/
  starting : ℕ
  /-- The number of times the thread has called `pop`. -/
  rounds : ℕ
  /-- The events that function blocks have received. -/
  delivered : List E
  /-- The events that were pushed into `mEventList`. -/
  accepted : List (Origin × E)
  /-- The events that were pushed into `mExternalEventList`. -/
  started : List E
  /-- The events that were taken out of it, and whether they were pushed into `mEventList`. -/
  taken : List (E × Bool)

namespace EventChain

open scoped List

variable {k l : Fin 64} {E : Type}

/-- A thread as it is started. -/
def initial (elements externalElements : ℕ → E) : EventChain k l E where
  eventList := .initial elements
  externalEventList := .initial externalElements
  processingEvents := false
  suspendSemaphore := false
  thread := .check
  starting := 0
  rounds := 0
  delivered := []
  accepted := []
  started := []
  taken := []

/-- `addEventEntry`, and whether the event was pushed. -/
def addEventEntry (origin : Origin) (event : E) (s : EventChain k l E) : EventChain k l E × Bool :=
  let (eventList, pushed) := s.eventList.push event
  ({ s with
      eventList
      accepted := if pushed then s.accepted ++ [(origin, event)] else s.accepted }, pushed)

/-- One event of `transferExternalEvents`. -/
def transferExternalEvent (s : EventChain k l E) : EventChain k l E :=
  match s.externalEventList.pop with
  | (_, none) => s
  | (externalEventList, some pointer) =>
    let event := externalEventList.data pointer
    let (s, pushed) := { s with externalEventList }.addEventEntry .external event
    { s with taken := s.taken ++ [(event, pushed)] }

/-- The loop of `transferExternalEvents`, with a bound on its rounds. -/
def transferLoop : ℕ → EventChain k l E → EventChain k l E
  | 0, s => s
  | bound + 1, s =>
    if s.externalEventList.isEmpty then s else transferLoop bound s.transferExternalEvent

/-- `transferExternalEvents`. -/
def transferExternalEvents (s : EventChain k l E) : EventChain k l E :=
  transferLoop s.externalEventList.count s

/-- What the threads do. -/
inductive Action (E : Type)
  /-- A call of `startEventChain` inserts its event. -/
  | startEventChain (event : E)
  /-- A call of `startEventChain` that has inserted its event goes on to its end. -/
  | resumeSelfSuspend
  /-- The function block that is executed adds an event. -/
  | addEventEntry (event : E)
  /-- The thread goes on in `mainRun`. -/
  | mainRun

/-- The thread goes on to the next access of what is shared. -/
def mainRun (s : EventChain k l E) : EventChain k l E :=
  match s.thread with
  | .check => { s with thread := if s.externalEventList.isEmpty then .pop else .transfer }
  | .transfer => { s.transferExternalEvents with thread := .pop }
  | .pop =>
    match s.eventList.pop with
    | (_, none) => { s with processingEvents := false, thread := .suspend, rounds := s.rounds + 1 }
    | (eventList, some pointer) =>
      { s with
        eventList
        thread := .execute
        rounds := s.rounds + 1
        delivered := s.delivered ++ [eventList.data pointer] }
  -- the function block returns
  | .execute => { s with thread := .check }
  | .suspend =>
    if s.suspendSemaphore then
      { s with suspendSemaphore := false, processingEvents := true, thread := .check }
    else s

/-- One step of a thread; a step that no thread can take has no effect. -/
def step (s : EventChain k l E) : Action E → EventChain k l E
  | .startEventChain event =>
    let (externalEventList, inserted) := s.externalEventList.push event
    if inserted then
      { s with externalEventList, starting := s.starting + 1, started := s.started ++ [event] }
    else s
  | .resumeSelfSuspend =>
    if s.starting = 0 then s
    else
      { s with processingEvents := true, suspendSemaphore := true, starting := s.starting - 1 }
  | .addEventEntry event =>
    if s.thread = .execute then (s.addEventEntry .chain event).1 else s
  | .mainRun => s.mainRun

/-- The events in the two buffers. -/
def pending (s : EventChain k l E) : List E := s.eventList.contents ++ s.externalEventList.contents

/-- The event that the thread takes out of its buffer when it goes on, if there is one. -/
def received (s : EventChain k l E) : Option E :=
  if s.thread = .pop then s.eventList.pop.2.map s.eventList.pop.1.data else none

/-- The events that a step puts into a buffer if there is room. -/
def Action.events : Action E → List E
  | .startEventChain event => [event]
  | .resumeSelfSuspend => []
  | .addEventEntry event => [event]
  | .mainRun => []

/-- The steps of the threads, in any order. -/
def run (s : EventChain k l E) (actions : List (Action E)) : EventChain k l E :=
  actions.foldl step s

/-! ### What becomes of the events -/

/-- **Every event is somewhere**: the events in the buffers, and those that have been in
them. -/
structure Orderly (s : EventChain k l E) : Prop where
  /-- The events of the event list are delivered once, in this order. -/
  delivered : s.accepted.map Prod.snd = s.delivered ++ s.eventList.contents
  /-- The external events are taken over once, in this order. -/
  taken : s.started = s.taken.map Prod.fst ++ s.externalEventList.contents
  /-- Of the events taken over, those that are pushed are in the event list, in this order. -/
  entered : (s.accepted.filter fun event => event.1 = .external).map Prod.snd =
    (s.taken.filter Prod.snd).map Prod.fst
  /-- The thread does not sleep as long as there is something to deliver. -/
  awake : s.thread = .suspend →
    s.eventList.contents ≠ [] ∨ s.externalEventList.contents ≠ [] →
      s.suspendSemaphore = true ∨ 0 < s.starting

/-- The events in the two buffers, with what is known of the state from them. -/
structure Tracks (s : EventChain k l E) (events externals : List E) : Prop where
  holds : s.eventList.Holds events
  holdsExternal : s.externalEventList.Holds externals
  delivered : s.accepted.map Prod.snd = s.delivered ++ events
  taken : s.started = s.taken.map Prod.fst ++ externals
  entered : (s.accepted.filter fun event => event.1 = .external).map Prod.snd =
    (s.taken.filter Prod.snd).map Prod.fst
  idle : s.thread = .suspend → events = []
  /-- The thread will look for external events again, or has been told to. -/
  posted : s.thread = .check ∨ s.thread = .transfer ∨ externals = [] ∨
    s.suspendSemaphore = true ∨ 0 < s.starting

section

variable {s : EventChain k l E} {events externals : List E}

theorem Tracks.orderly (h : Tracks s events externals) : s.Orderly := by
  refine ⟨?_, ?_, h.entered, fun hsuspend hpending => ?_⟩
  · rw [h.holds.contents]
    exact h.delivered
  · rw [h.holdsExternal.contents]
    exact h.taken
  · rw [h.holds.contents, h.holdsExternal.contents] at hpending
    have hexternals := hpending.resolve_left fun hne => hne (h.idle hsuspend)
    rcases h.posted with hcheck | htransfer | hnil | hposted
    · exact absurd (hsuspend.symm.trans hcheck) (by decide)
    · exact absurd (hsuspend.symm.trans htransfer) (by decide)
    · exact absurd hnil hexternals
    · exact hposted

theorem tracks_initial (elements externalElements : ℕ → E) :
    Tracks (initial elements externalElements : EventChain k l E) [] [] :=
  ⟨RingBuffer.holds_initial _, RingBuffer.holds_initial _, rfl, rfl, rfl, fun _ => rfl, .inl rfl⟩

/-- **An event that is added** is at the end of the list if there was room for it. -/
theorem addEventEntry_spec (h : s.eventList.Holds events) (origin : Origin) (event : E) :
    ∃ eventList,
      (s.addEventEntry origin event =
        if events.length < RingBuffer.size k - 1 then
          ({ s with eventList, accepted := s.accepted ++ [(origin, event)] }, true)
        else ({ s with eventList }, false)) ∧
      eventList.Holds (if events.length < RingBuffer.size k - 1 then events ++ [event]
        else events) := by
  obtain ⟨hpushed, hholds⟩ := h.push event
  refine ⟨(s.eventList.push event).1, ?_, hholds⟩
  rw [addEventEntry]
  simp only [hpushed, decide_eq_true_eq]
  split
  · rename_i hroom
    rw [decide_eq_true hroom]
  · rename_i hfull
    rw [decide_eq_false hfull]

theorem Tracks.addEventEntry (h : Tracks s events externals) (hthread : s.thread = .execute)
    (event : E) :
    ∃ events', events' <+ events ++ [event] ∧
      Tracks (s.addEventEntry .chain event).1 events' externals := by
  obtain ⟨eventList, heq, hholds⟩ := addEventEntry_spec h.holds .chain event
  rw [heq]
  have hidle {events' : List E} (hsuspend : s.thread = .suspend) : events' = [] :=
    absurd (hthread.symm.trans hsuspend) (by decide)
  split at hholds
  · rename_i hroom
    rw [if_pos hroom]
    refine ⟨_, List.Sublist.refl _, hholds, h.holdsExternal, ?_, h.taken, ?_, hidle, h.posted⟩
    · rw [List.map_append, h.delivered, List.append_assoc]
      rfl
    · rw [List.filter_append, List.map_append, h.entered]
      exact List.append_nil _
  · rename_i hfull
    rw [if_neg hfull]
    exact ⟨_, List.sublist_append_left _ _, hholds, h.holdsExternal, h.delivered, h.taken,
      h.entered, hidle, h.posted⟩

/-- **The next external event** is taken over, or lost if there is no room. -/
theorem Tracks.transferExternalEvent {event : E}
    (h : Tracks s events (event :: externals)) (hthread : s.thread = .transfer) :
    (∃ events', events' <+ events ++ [event] ∧
        Tracks s.transferExternalEvent events' externals) ∧
      s.transferExternalEvent.thread = .transfer := by
  obtain ⟨externalEventList, pointer, hpop, hdata, hexternals⟩ := h.holdsExternal.pop_cons
  obtain ⟨eventList, heq, hholds⟩ :=
    addEventEntry_spec (s := { s with externalEventList }) h.holds .external event
  rw [EventChain.transferExternalEvent, hpop]
  simp only [hdata, heq]
  have htaken (pushed : Bool) :
      s.started = (s.taken ++ [(event, pushed)]).map Prod.fst ++ externals := by
    rw [List.map_append, List.append_assoc]
    exact h.taken
  have hidle {events' : List E} (hsuspend : s.thread = .suspend) : events' = [] :=
    absurd (hthread.symm.trans hsuspend) (by decide)
  split at hholds
  · rename_i hroom
    rw [if_pos hroom]
    refine ⟨⟨_, List.Sublist.refl _, hholds, hexternals, ?_, htaken true, ?_, hidle,
      .inr (.inl hthread)⟩, hthread⟩
    · rw [List.map_append, h.delivered, List.append_assoc]
      rfl
    · rw [List.filter_append, List.map_append, h.entered, List.filter_append, List.map_append]
      rfl
  · rename_i hfull
    rw [if_neg hfull]
    refine ⟨⟨_, List.sublist_append_left _ _, hholds, hexternals, h.delivered, htaken false, ?_,
      hidle, .inr (.inl hthread)⟩, hthread⟩
    rw [h.entered, List.filter_append, List.map_append]
    exact (List.append_nil _).symm

/-- **The loop takes over all external events.** -/
theorem Tracks.transferLoop (h : Tracks s events externals) (hthread : s.thread = .transfer) :
    (∃ events', events' <+ events ++ externals ∧
        Tracks (transferLoop externals.length s) events' []) ∧
      (transferLoop externals.length s).thread = .transfer := by
  induction externals generalizing s events with
  | nil => exact ⟨⟨events, List.sublist_append_left _ _, h⟩, hthread⟩
  | cons event externals ih =>
    obtain ⟨⟨events', hfirst, hnext⟩, hthread'⟩ := h.transferExternalEvent hthread
    rw [List.length_cons, EventChain.transferLoop, h.holdsExternal.isEmpty]
    obtain ⟨⟨events'', hrest, hlast⟩, hthread''⟩ := ih hnext hthread'
    refine ⟨⟨events'', hrest.trans ?_, hlast⟩, hthread''⟩
    rw [List.append_cons]
    exact hfirst.append_right externals

theorem Tracks.transferExternalEvents (h : Tracks s events externals)
    (hthread : s.thread = .transfer) :
    ∃ events', events' <+ events ++ externals ∧ Tracks s.transferExternalEvents events' [] := by
  rw [EventChain.transferExternalEvents, h.holdsExternal.count]
  exact (h.transferLoop hthread).1

theorem received_of_ne (hthread : s.thread ≠ .pop) : s.received = none := if_neg hthread

/-- **The thread goes on**: what it takes out of its buffer and what it leaves has been in the
buffers. -/
theorem Tracks.mainRun (h : Tracks s events externals) :
    ∃ events' externals', s.received.toList ++ (events' ++ externals') <+ events ++ externals ∧
      Tracks s.mainRun events' externals' := by
  have hnone (hthread : s.thread ≠ .pop) :
      s.received.toList ++ (events ++ externals) <+ events ++ externals := by
    rw [received_of_ne hthread]
    exact List.Sublist.refl _
  rw [EventChain.mainRun]
  split
  · -- an event that comes after the look at the buffer posts the semaphore
    rename_i hthread
    rw [h.holdsExternal.isEmpty]
    cases externals with
    | nil =>
      exact ⟨events, [], hnone (by rw [hthread]; nofun), h.holds, h.holdsExternal, h.delivered,
        h.taken, h.entered, nofun, .inr (.inr (.inl rfl))⟩
    | cons event externals =>
      exact ⟨events, _, hnone (by rw [hthread]; nofun), h.holds, h.holdsExternal, h.delivered,
        h.taken, h.entered, nofun, .inr (.inl rfl)⟩
  · rename_i hthread
    obtain ⟨events', hsub, hnext⟩ := h.transferExternalEvents hthread
    refine ⟨events', [], ?_, hnext.holds, hnext.holdsExternal, hnext.delivered, hnext.taken,
      hnext.entered, nofun, .inr (.inr (.inl rfl))⟩
    rw [received_of_ne (by rw [hthread]; nofun), List.append_nil]
    exact hsub
  · rename_i hthread
    have hposted := (h.posted.resolve_left (by rw [hthread]; decide)).resolve_left
      (by rw [hthread]; decide)
    rw [received, if_pos hthread]
    cases events with
    | nil =>
      rw [h.holds.pop_nil]
      exact ⟨[], externals, List.Sublist.refl _, h.holds, h.holdsExternal, h.delivered, h.taken,
        h.entered, fun _ => rfl, .inr (.inr hposted)⟩
    | cons event events =>
      obtain ⟨eventList, pointer, hpop, hdata, hholds⟩ := h.holds.pop_cons
      simp only [hpop, hdata]
      refine ⟨events, externals, ?_, hholds, h.holdsExternal, ?_, h.taken, h.entered, nofun,
        .inr (.inr hposted)⟩
      · rw [Option.map_some, hdata]
        exact List.Sublist.refl _
      · rw [List.append_assoc]
        exact h.delivered
  · rename_i hthread
    exact ⟨events, externals, hnone (by rw [hthread]; nofun), h.holds, h.holdsExternal,
      h.delivered, h.taken, h.entered, nofun, .inl rfl⟩
  · rename_i hthread
    split
    · exact ⟨events, externals, hnone (by rw [hthread]; nofun), h.holds, h.holdsExternal,
        h.delivered, h.taken, h.entered, nofun, .inl rfl⟩
    · exact ⟨events, externals, hnone (by rw [hthread]; nofun), h⟩

theorem Tracks.startEventChain (h : Tracks s events externals) (event : E) :
    ∃ externals', externals' <+ externals ++ [event] ∧
      Tracks (s.step (.startEventChain event)) events externals' := by
  obtain ⟨hpushed, hholds⟩ := h.holdsExternal.push event
  simp only [step, hpushed, decide_eq_true_eq]
  split at hholds
  · rename_i hroom
    rw [if_pos hroom]
    refine ⟨_, List.Sublist.refl _, h.holds, hholds, h.delivered, ?_, h.entered, h.idle,
      .inr (.inr (.inr (.inr (Nat.succ_pos _))))⟩
    rw [h.taken, List.append_assoc]
  · rename_i hfull
    rw [if_neg hfull]
    exact ⟨externals, List.sublist_append_left _ _, h⟩

theorem Tracks.resumeSelfSuspend (h : Tracks s events externals) :
    Tracks (s.step .resumeSelfSuspend) events externals := by
  rw [step]
  split
  · exact h
  · exact ⟨h.holds, h.holdsExternal, h.delivered, h.taken, h.entered, h.idle,
      .inr (.inr (.inr (.inl rfl)))⟩

/-- **Every step keeps the events in order**, and the buffers hold nothing but what they have held
before and what the step has put into them. -/
theorem Tracks.step (h : Tracks s events externals) (action : Action E) :
    ∃ events' externals', events' ++ externals' <+~ events ++ externals ++ action.events ∧
      Tracks (s.step action) events' externals' := by
  cases action with
  | startEventChain event =>
    obtain ⟨externals', hsub, hnext⟩ := h.startEventChain event
    refine ⟨events, externals', List.Sublist.subperm ?_, hnext⟩
    rw [List.append_assoc]
    exact hsub.append_left events
  | resumeSelfSuspend =>
    exact ⟨events, externals, (List.sublist_append_left _ _).subperm, h.resumeSelfSuspend⟩
  | addEventEntry event =>
    rw [EventChain.step]
    split
    · rename_i hthread
      obtain ⟨events', hsub, hnext⟩ := h.addEventEntry hthread event
      refine ⟨events', externals, (hsub.append_right externals).subperm.trans ?_, hnext⟩
      rw [List.append_assoc, List.append_assoc]
      exact (List.perm_append_comm.append_left events).subperm
    · exact ⟨events, externals, (List.sublist_append_left _ _).subperm, h⟩
  | mainRun =>
    obtain ⟨events', externals', hsub, hnext⟩ := h.mainRun
    refine ⟨events', externals', List.Sublist.subperm ?_, hnext⟩
    rw [Action.events, List.append_nil]
    exact (List.sublist_append_right _ _).trans hsub

theorem Tracks.pending (h : Tracks s events externals) : s.pending = events ++ externals := by
  rw [EventChain.pending, h.holds.contents, h.holdsExternal.contents]

/-- **An event comes into the buffers only by a step that puts it there.** -/
theorem Tracks.count_step [BEq E] (h : Tracks s events externals) (action : Action E)
    (event : E) :
    (s.step action).pending.count event ≤ s.pending.count event + action.events.count event := by
  obtain ⟨events', externals', hsub, hnext⟩ := h.step action
  rw [hnext.pending, h.pending, ← List.count_append]
  exact hsub.countP_le (· == event)

/-- The event that the thread takes out of its buffer was in it. -/
theorem Tracks.count_mainRun [BEq E] (h : Tracks s events externals) (event : E) :
    s.received.toList.count event + s.mainRun.pending.count event ≤ s.pending.count event := by
  obtain ⟨events', externals', hsub, hnext⟩ := h.mainRun
  rw [hnext.pending, h.pending, ← List.count_append]
  exact hsub.count_le event

theorem Tracks.run (h : Tracks s events externals) (actions : List (Action E)) :
    ∃ events' externals', Tracks (s.run actions) events' externals' := by
  induction actions generalizing s events externals with
  | nil => exact ⟨events, externals, h⟩
  | cons action actions ih =>
    obtain ⟨events', externals', -, hnext⟩ := h.step action
    exact ih hnext

end

/-! ### Progress -/

/-- What has happened stays so. -/
structure Grows (s t : EventChain k l E) : Prop where
  delivered : s.delivered <+: t.delivered
  accepted : s.accepted <+: t.accepted
  started : s.started <+: t.started
  taken : s.taken <+: t.taken
  rounds : s.rounds ≤ t.rounds

section

variable {s t : EventChain k l E}

theorem Grows.refl (s : EventChain k l E) : Grows s s :=
  ⟨List.prefix_rfl, List.prefix_rfl, List.prefix_rfl, List.prefix_rfl, le_rfl⟩

theorem Grows.trans {u : EventChain k l E} (h : Grows s t) (h' : Grows t u) : Grows s u :=
  ⟨h.delivered.trans h'.delivered, h.accepted.trans h'.accepted, h.started.trans h'.started,
    h.taken.trans h'.taken, h.rounds.trans h'.rounds⟩

theorem grows_addEventEntry (s : EventChain k l E) (origin : Origin) (event : E) :
    Grows s (s.addEventEntry origin event).1 := by
  refine ⟨List.prefix_rfl, ?_, List.prefix_rfl, List.prefix_rfl, le_rfl⟩
  rw [addEventEntry]
  dsimp only
  split
  · exact List.prefix_append _ _
  · exact List.prefix_rfl

theorem grows_transferExternalEvent (s : EventChain k l E) :
    Grows s s.transferExternalEvent ∧ s.transferExternalEvent.rounds = s.rounds := by
  rw [transferExternalEvent]
  split
  · exact ⟨Grows.refl s, rfl⟩
  · rename_i externalEventList pointer hpop
    have hadd := grows_addEventEntry { s with externalEventList } .external
      (externalEventList.data pointer)
    exact ⟨⟨hadd.delivered, hadd.accepted, hadd.started, List.prefix_append _ _, hadd.rounds⟩,
      rfl⟩

theorem grows_transferLoop (bound : ℕ) (s : EventChain k l E) :
    Grows s (transferLoop bound s) ∧ (transferLoop bound s).rounds = s.rounds := by
  induction bound generalizing s with
  | zero => exact ⟨Grows.refl s, rfl⟩
  | succ bound ih =>
    rw [transferLoop]
    split
    · exact ⟨Grows.refl s, rfl⟩
    · obtain ⟨hfirst, hrounds⟩ := grows_transferExternalEvent s
      obtain ⟨hrest, hrounds'⟩ := ih s.transferExternalEvent
      exact ⟨hfirst.trans hrest, hrounds'.trans hrounds⟩

theorem grows_mainRun (s : EventChain k l E) : Grows s s.mainRun := by
  have hsame := Grows.refl s
  rw [mainRun]
  split
  · exact ⟨hsame.delivered, hsame.accepted, hsame.started, hsame.taken, le_rfl⟩
  · have htransfer := (grows_transferLoop s.externalEventList.count s).1
    exact ⟨htransfer.delivered, htransfer.accepted, htransfer.started, htransfer.taken,
      htransfer.rounds⟩
  · split
    · exact ⟨hsame.delivered, hsame.accepted, hsame.started, hsame.taken, Nat.le_succ _⟩
    · exact ⟨List.prefix_append _ _, hsame.accepted, hsame.started, hsame.taken,
        Nat.le_succ _⟩
  · exact ⟨hsame.delivered, hsame.accepted, hsame.started, hsame.taken, le_rfl⟩
  · split
    · exact ⟨hsame.delivered, hsame.accepted, hsame.started, hsame.taken, le_rfl⟩
    · exact hsame

theorem grows_step (s : EventChain k l E) (action : Action E) : Grows s (s.step action) := by
  have hsame := Grows.refl s
  cases action with
  | startEventChain event =>
    rw [step]
    dsimp only
    split
    · exact ⟨hsame.delivered, hsame.accepted, List.prefix_append _ _, hsame.taken, le_rfl⟩
    · exact hsame
  | resumeSelfSuspend =>
    rw [step]
    split
    · exact hsame
    · exact ⟨hsame.delivered, hsame.accepted, hsame.started, hsame.taken, le_rfl⟩
  | addEventEntry event =>
    rw [step]
    split
    · exact grows_addEventEntry s .chain event
    · exact hsame
  | mainRun => exact grows_mainRun s

/-- **The rounds of the thread since `s`**: each has delivered an event, as long as there were
events from before `s`; and the external events from before `s` have been taken over at the
second look at them, at the latest. -/
structure Progress (s t : EventChain k l E) : Prop where
  grows : Grows s t
  delivering : s.accepted.length ≤ t.delivered.length ∨
    s.delivered.length + t.rounds ≤ t.delivered.length + s.rounds
  taking : s.started.length ≤ t.taken.length ∨ t.rounds = s.rounds ∨
    t.rounds = s.rounds + 1 ∧ t.thread ≠ .pop

theorem progress_refl (s : EventChain k l E) : Progress s s :=
  ⟨Grows.refl s, .inr le_rfl, .inr (.inl rfl)⟩

/-- A step that is not of the thread makes no difference to the progress. -/
theorem Progress.other (h : Progress s t) {action : Action E}
    (hrounds : (t.step action).rounds = t.rounds)
    (hthread : (t.step action).thread = t.thread) : Progress s (t.step action) := by
  have hstep := grows_step t action
  refine ⟨h.grows.trans hstep, ?_, ?_⟩
  · rw [hrounds]
    have := hstep.delivered.length_le
    exact h.delivering.imp (fun _ => by omega) (fun _ => by omega)
  · rw [hrounds, hthread]
    exact h.taking.imp (fun hle => hle.trans hstep.taken.length_le) id

theorem mainRun_rounds (hthread : t.thread ≠ .pop) : t.mainRun.rounds = t.rounds := by
  rw [mainRun]
  split
  · rfl
  · exact (grows_transferLoop t.externalEventList.count t).2
  · rename_i hpop
    exact absurd hpop hthread
  · rfl
  · split
    · rfl
    · rfl

/-- A round delivers an event, if there is one. -/
theorem mainRun_pop {events externals : List E} (h : Tracks t events externals)
    (hthread : t.thread = .pop) :
    t.mainRun.rounds = t.rounds + 1 ∧ t.mainRun.thread ≠ .pop ∧
      (events = [] ∨ t.mainRun.delivered.length = t.delivered.length + 1) := by
  simp only [mainRun, hthread]
  cases events with
  | nil =>
    rw [h.holds.pop_nil]
    exact ⟨rfl, nofun, .inl rfl⟩
  | cons event events =>
    obtain ⟨eventList, pointer, hpop, -, -⟩ := h.holds.pop_cons
    simp only [hpop]
    exact ⟨trivial, nofun, .inr List.length_append⟩

/-- The thread comes to the next round only when there was no external event at its look at
them, or when it has taken them over. -/
theorem mainRun_look {events externals : List E} (h : Tracks t events externals)
    (hthread : t.thread ≠ .pop) :
    t.mainRun.thread ≠ .pop ∨ t.mainRun.started.length ≤ t.mainRun.taken.length := by
  have hall {t : EventChain k l E} {events : List E} (h : Tracks t events []) :
      t.started.length ≤ t.taken.length := by
    rw [h.taken, List.append_nil, List.length_map]
  rw [mainRun]
  split
  · rw [h.holdsExternal.isEmpty]
    cases externals with
    | nil => exact .inr (hall (t := t) h)
    | cons event externals => exact .inl nofun
  · rename_i htransfer
    obtain ⟨events', -, hnext⟩ := h.transferExternalEvents htransfer
    exact .inr (hall (t := t.transferExternalEvents) hnext)
  · rename_i hpop
    exact absurd hpop hthread
  · exact .inl nofun
  · split
    · exact .inl nofun
    · exact .inl hthread

theorem Progress.mainRun {events externals : List E} (h : Progress s t)
    (htracks : Tracks t events externals) : Progress s t.mainRun := by
  have hstep := grows_mainRun t
  have hdelivered := hstep.delivered.length_le
  have htaken := hstep.taken.length_le
  have haccepted := h.grows.accepted.length_le
  have hstarted := (h.grows.trans hstep).started.length_le
  by_cases hthread : t.thread = .pop
  · obtain ⟨hrounds, hnext, hround⟩ := mainRun_pop htracks hthread
    refine ⟨h.grows.trans hstep, ?_, ?_⟩
    · rcases hround with rfl | hround
      · -- with nothing to deliver, all that was accepted has been delivered
        have hall := congrArg List.length htracks.delivered
        rw [List.length_map, List.append_nil] at hall
        exact .inl (by omega)
      · exact h.delivering.imp (fun _ => by omega) (fun _ => by omega)
    · rcases h.taking with htaking | hsame | ⟨_, hnot⟩
      · exact .inl (htaking.trans htaken)
      · exact .inr (.inr ⟨by omega, hnext⟩)
      · exact absurd hthread hnot
  · have hrounds := mainRun_rounds hthread
    refine ⟨h.grows.trans hstep, ?_, ?_⟩
    · exact h.delivering.imp (fun _ => by omega) (fun _ => by omega)
    · rcases h.taking with htaking | hsame | ⟨hsecond, _⟩
      · exact .inl (htaking.trans htaken)
      · exact .inr (.inl (hrounds.trans hsame))
      · rcases mainRun_look htracks hthread with hnext | hall
        · exact .inr (.inr ⟨hrounds.trans hsecond, hnext⟩)
        · exact .inl (hstarted.trans hall)

theorem Progress.step {events externals : List E} (h : Progress s t)
    (htracks : Tracks t events externals) (action : Action E) : Progress s (t.step action) := by
  cases action with
  | startEventChain event =>
    refine h.other ?_ ?_
    all_goals
      simp only [EventChain.step]
      split
      · rfl
      · rfl
  | resumeSelfSuspend =>
    refine h.other ?_ ?_
    all_goals
      rw [EventChain.step]
      split
      · rfl
      · rfl
  | addEventEntry event =>
    refine h.other ?_ ?_
    all_goals
      rw [EventChain.step]
      split
      · rfl
      · rfl
  | mainRun => exact h.mainRun htracks

theorem Progress.run {events externals : List E} (h : Progress s t)
    (htracks : Tracks t events externals) (actions : List (Action E)) :
    Progress s (t.run actions) := by
  induction actions generalizing t events externals with
  | nil => exact h
  | cons action actions ih =>
    obtain ⟨events', externals', -, hnext⟩ := htracks.step action
    exact ih (h.step htracks action) hnext

end

end EventChain

end Forte
