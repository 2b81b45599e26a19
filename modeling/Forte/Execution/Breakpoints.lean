import Mathlib.Data.Finset.Insert
import Mathlib.Data.Finset.Erase
import Forte.Execution.RingBuffer
import Forte.Lib.Runs

/-!
# Breakpoints

A `CFakeEventExecutionThread` is an event chain execution that can be controlled from outside.
Before each round of `mainRun` it looks at the next event, and if that is in the set of the
breakpoints it takes itself under external control and calls a callback instead.

* **What is looked at is the event list**, before the external events are transferred. When the
  list is empty the first external event is transferred and delivered in the same round.
* **The event is looked at by taking it out** of the ring buffer and inserting it at the front
  again, which moves all events to other places in the array. The one that is returned is read
  from the old place of the first event after that. Of a list that takes more than half of the
  places, another event has been moved there (`Forte.FakeEventChain.inspected`).

`Forte.FakeEventChain.watches_iff` says which runs never deliver an event in the set: those in
which neither happens with an event that is in it.
-/

namespace Forte

/-- The state of a `CFakeEventExecutionThread`. -/
structure FakeEventChain (k l : Fin 64) (E : Type) where
  mEventList : RingBuffer k E
  mExternalEventList : RingBuffer l E
  mIsRemoteEnabled : Bool
  mBreakpoints : Finset E

namespace FakeEventChain

variable {k l : Fin 64} {E : Type}

/-- A thread as it is created. -/
def initial (elements externalElements : ℕ → E) : FakeEventChain k l E where
  mEventList := .initial elements
  mExternalEventList := .initial externalElements
  mIsRemoteEnabled := false
  mBreakpoints := ∅

/-- `insertFront`, with a buffer `temp` whose array is not read before it is written. -/
def insertFront (s : FakeEventChain k l E) (paEvent : E) : FakeEventChain k l E :=
  let temp : RingBuffer k E := ((RingBuffer.initial fun _ => paEvent).push paEvent).1
  let (mEventList, temp) := RingBuffer.moveTo s.mEventList.count s.mEventList temp
  let (_, mEventList) := RingBuffer.moveTo temp.count temp mEventList
  { s with mEventList }

/-- `getNextEvent`. The pointer is read again at the end. -/
def getNextEvent (s : FakeEventChain k l E) : FakeEventChain k l E × Option E :=
  match s.mEventList.pop with
  | (_, none) => (s, none)
  | (mEventList, some nextEvent) =>
    let s := { s with mEventList }.insertFront (mEventList.data nextEvent)
    (s, some (s.mEventList.data nextEvent))

/-- `addEventEntry`. -/
def addEventEntry (s : FakeEventChain k l E) (paEvent : E) : FakeEventChain k l E :=
  { s with mEventList := (s.mEventList.push paEvent).1 }

/-- `startEventChain`. -/
def startEventChain (s : FakeEventChain k l E) (paEvent : E) : FakeEventChain k l E :=
  if s.mIsRemoteEnabled then s
  else { s with mExternalEventList := (s.mExternalEventList.push paEvent).1 }

/-- `transferExternalEvents`, if there are any. -/
def transferExternalEvents (s : FakeEventChain k l E) : FakeEventChain k l E :=
  let (mExternalEventList, mEventList) :=
    RingBuffer.moveTo s.mExternalEventList.count s.mExternalEventList s.mEventList
  { s with mExternalEventList, mEventList }

/-- The next event is delivered to its function block, which adds events; there is none if the
list is empty. -/
def deliver (s : FakeEventChain k l E) (outputs : List E) : FakeEventChain k l E × Option E :=
  match s.mEventList.pop with
  | (_, none) => (s, none)
  | (mEventList, some event) =>
    (outputs.foldl addEventEntry { s with mEventList }, some (mEventList.data event))

/-- What a round of `run` does. -/
inductive Outcome (E : Type)
  /-- The thread suspends itself, without an event or under external control. -/
  | suspended
  /-- The callback `mBreakpointWasHit` is called. -/
  | hit (event : E)
  | delivered (event : E)
  deriving DecidableEq

/-- A round that delivers the next event, if there is one. -/
def Outcome.ofEvent : Option E → Outcome E
  | some event => delivered event
  | none => suspended

/-- `mainRun`. -/
def mainRun (s : FakeEventChain k l E) (outputs : List E) : FakeEventChain k l E × Outcome E :=
  let r := s.transferExternalEvents.deliver outputs
  (r.1, .ofEvent r.2)

variable [DecidableEq E]

/-- **A round of `run`.** Other threads start event chains at any time; the ones between the
look at the next event and the transfer are `arrivals`. -/
def iterate (s : FakeEventChain k l E) (arrivals outputs : List E) :
    FakeEventChain k l E × Outcome E :=
  if s.mIsRemoteEnabled then (s, .suspended)
  else
    let (s, nextEvent) := s.getNextEvent
    match nextEvent with
    | some event =>
      if event ∈ s.mBreakpoints then ({ s with mIsRemoteEnabled := true }, .hit event)
      else (arrivals.foldl startEventChain s).mainRun outputs
    | none => (arrivals.foldl startEventChain s).mainRun outputs

/-- What happens to the thread. -/
inductive Step (E : Type)
  | iterate (arrivals outputs : List E)
  | startEventChain (paEvent : E)
  | addBreakpoint (paBreakpoint : E)
  | removeBreakpoint (paBreakpoint : E)
  | takeExternalControl
  | removeExternalControl
  | triggerNextEvent (outputs : List E)

/-- The state after a step. -/
def next (s : FakeEventChain k l E) : Step E → FakeEventChain k l E
  | .iterate arrivals outputs => (s.iterate arrivals outputs).1
  | .startEventChain paEvent => s.startEventChain paEvent
  | .addBreakpoint paBreakpoint => { s with mBreakpoints := insert paBreakpoint s.mBreakpoints }
  | .removeBreakpoint paBreakpoint => { s with mBreakpoints := s.mBreakpoints.erase paBreakpoint }
  | .takeExternalControl => { s with mIsRemoteEnabled := true }
  | .removeExternalControl => { s with mIsRemoteEnabled := false }
  | .triggerNextEvent outputs => if s.mIsRemoteEnabled then (s.deliver outputs).1 else s

/-! ### What breakpoints are for -/

omit [DecidableEq E] in
/-- **What is asked of a round**: no event in the set of the breakpoints is delivered, and on a
hit the thread is under external control and the event stays at the front. -/
def Safe (breakpoints : Finset E) (r : FakeEventChain k l E × Outcome E) : Prop :=
  match r.2 with
  | .hit event => r.1.mIsRemoteEnabled = true ∧ r.1.mEventList.contents.head? = some event
  | .delivered event => event ∉ breakpoints
  | .suspended => True

/-- What is asked of a step. -/
def Meets (s : FakeEventChain k l E) : Step E → Prop
  | .iterate arrivals outputs => Safe s.mBreakpoints (s.iterate arrivals outputs)
  | _ => True

omit [DecidableEq E] in
/-- The event `getNextEvent` returns for the events in the list. -/
def inspected (k : Fin 64) (events : List E) : Option E :=
  if 2 * events.length ≤ RingBuffer.size k then events.head?
  else events[RingBuffer.size k - events.length]?

omit [DecidableEq E] in
/-- The first external event in a round, if the buffer has room for one. -/
def firstExternal (s : FakeEventChain k l E) (arrivals : List E) : Option E :=
  (s.mExternalEventList.contents ++ if 1 < RingBuffer.size l then arrivals else []).head?

/-- **Rounds in which no breakpoint is missed**: with an empty list the first external event,
which is delivered in the round, is no breakpoint; otherwise the event that is looked at is the
next one, or neither of them is a breakpoint. -/
def Watched (s : FakeEventChain k l E) : Step E → Prop
  | .iterate arrivals _ => s.mIsRemoteEnabled = false →
    match s.mEventList.contents with
    | [] => ∀ event, s.firstExternal arrivals = some event → 1 < RingBuffer.size k →
        event ∉ s.mBreakpoints
    | event :: events => inspected k (event :: events) = some event ∨
        (event ∉ s.mBreakpoints ∧
          ∀ other, inspected k (event :: events) = some other → other ∉ s.mBreakpoints)
  | _ => True

/-! ### Looking at the next event -/

section

variable {s : FakeEventChain k l E} {events externals : List E}

/-- The events in the two buffers. -/
structure Holds (s : FakeEventChain k l E) (events externals : List E) : Prop where
  events : s.mEventList.Holds events
  externals : s.mExternalEventList.Holds externals

omit [DecidableEq E] in
/-- **An event is inserted at the front** by moving all of them behind the places they were at;
no other place of the array is written. -/
theorem insertFront_spec {rest : List E} (h : s.mEventList.Holds rest)
    (hlen : rest.length + 1 ≤ RingBuffer.size k - 1) (event : E) :
    ∃ b, s.insertFront event = { s with mEventList := b } ∧ b.Holds (event :: rest) ∧
      b.popIndex = s.mEventList.popIndex + BitVec.ofNat 64 rest.length ∧
      ∀ i, (∀ j < rest.length + 1,
        i ≠ RingBuffer.slot k (s.mEventList.popIndex + BitVec.ofNat 64 (rest.length + j))) →
        b.data i = s.mEventList.data i := by
  set temp : RingBuffer k E := ((RingBuffer.initial fun _ => event).push event).1 with htemp
  have hfirst : temp.Holds [event] := by
    have hpush := ((RingBuffer.holds_initial (k := k) fun _ => event).push event).2
    rwa [if_pos (show ([] : List E).length < RingBuffer.size k - 1 by simp; omega)] at hpush
  -- the events are collected behind the first one
  obtain ⟨hempty, hcollected⟩ := h.moveTo hfirst
  have hfrom := h.moveTo_from temp
  have hall : [event] ++ rest.take (RingBuffer.size k - 1 - [event].length) = event :: rest := by
    rw [List.take_of_length_le (by simp; omega)]
    rfl
  rw [hall] at hcollected
  have hcount : (RingBuffer.moveTo rest.length s.mEventList temp).2.count = rest.length + 1 :=
    hcollected.count
  -- and moved back
  obtain ⟨-, hback⟩ := hcollected.moveTo hempty
  rw [List.nil_append, List.take_of_length_le (by simp; omega)] at hback
  refine ⟨_, ?_, hback, ?_, fun i hi => ?_⟩
  · simp only [insertFront, h.count, ← htemp]
    rw [hcount]
    rfl
  · rw [RingBuffer.popIndex_moveTo, hfrom]
  · have hpush : (RingBuffer.moveTo rest.length s.mEventList temp).1.pushIndex =
        s.mEventList.popIndex + BitVec.ofNat 64 rest.length := by
      rw [hfrom]
      exact h.pushIndex
    refine (RingBuffer.data_moveTo_of_ne _ fun j hj => ?_).trans (by rw [hfrom])
    rw [hpush, BitVec.add_assoc, ← BitVec.ofNat_add]
    exact hi j hj

omit [DecidableEq E] in
theorem inspected_nil : inspected k ([] : List E) = none := by
  rw [inspected]
  split_ifs <;> rfl

omit [DecidableEq E] in
/-- **What `getNextEvent` does**: the list has the same events after it. -/
theorem getNextEvent_spec (h : Holds s events externals) :
    ∃ mEventList, s.getNextEvent = ({ s with mEventList }, inspected k events) ∧
      mEventList.Holds events := by
  cases events with
  | nil =>
    refine ⟨s.mEventList, ?_, h.events⟩
    rw [getNextEvent, h.events.pop_nil, inspected_nil]
  | cons event rest =>
    have hlen : rest.length + 1 ≤ RingBuffer.size k - 1 := h.events.length
    obtain ⟨b₁, p, hpop, hdata, hrest⟩ := h.events.pop_cons
    have hplace : b₁.popIndex = s.mEventList.popIndex + 1 ∧
        p = RingBuffer.slot k s.mEventList.popIndex := by
      rw [RingBuffer.pop] at hpop
      split_ifs at hpop
      · exact absurd (Prod.mk.inj hpop).2 (by simp)
      · obtain ⟨rfl, hp⟩ := Prod.mk.inj hpop
        exact ⟨rfl, (Option.some.inj hp).symm⟩
    have hindex (n : ℕ) : b₁.popIndex + BitVec.ofNat 64 n =
        s.mEventList.popIndex + BitVec.ofNat 64 (n + 1) := by
      rw [hplace.1, Nat.add_comm, BitVec.ofNat_add, ← BitVec.add_assoc]
      rfl
    obtain ⟨b, hinsert, hback, hfront, hkept⟩ :=
      insertFront_spec (s := { s with mEventList := b₁ }) hrest hlen event
    refine ⟨b, ?_, hback⟩
    rw [getNextEvent, hpop]
    simp only [hdata, hinsert]
    refine Prod.ext rfl ?_
    show some (b.data p) = inspected k (event :: rest)
    rw [inspected, List.length_cons]
    split_ifs with hhalf
    · -- the place the first event was at is not written
      have hsame : b.data p = b₁.data p := by
        refine hkept p fun j hj => ?_
        show p ≠ RingBuffer.slot k (b₁.popIndex + BitVec.ofNat 64 (rest.length + j))
        rw [hindex, RingBuffer.slot_add, hplace.2, RingBuffer.slot_eq]
        exact RingBuffer.mod_ne_of_lt (m := 0) (by omega) (by omega)
      rw [hsame, hdata]
      rfl
    · -- one round of the array behind it there is another event
      have hlt : RingBuffer.size k - (rest.length + 1) < (event :: rest).length := by
        rw [List.length_cons]
        omega
      have hround : p = (b.popIndex.toNat + (RingBuffer.size k - (rest.length + 1))) %
          RingBuffer.size k := by
        have hfront' : b.popIndex =
            s.mEventList.popIndex + BitVec.ofNat 64 (rest.length + 1) := hfront.trans (hindex _)
        rw [← RingBuffer.slot_add, hfront', BitVec.add_assoc, ← BitVec.ofNat_add,
          RingBuffer.slot_add, Nat.add_sub_cancel' (by omega), Nat.add_mod_right, hplace.2,
          RingBuffer.slot_eq]
      have hread := hback.data _ hlt
      rw [hround, List.getElem?_eq_getElem hlt]
      exact congrArg some hread

/-! ### Rounds -/

omit [DecidableEq E] in
/-- The events that are added do not change anything else. -/
theorem addEventEntries_spec (h : Holds s events externals) (outputs : List E) :
    ∃ mEventList events', outputs.foldl addEventEntry s = { s with mEventList } ∧
      mEventList.Holds events' := by
  induction outputs generalizing s events with
  | nil => exact ⟨s.mEventList, events, rfl, h.events⟩
  | cons event outputs ih =>
    have hpush := (h.events.push event).2
    obtain ⟨b, events', heq, hb⟩ := ih (s := s.addEventEntry event) ⟨hpush, h.externals⟩
    exact ⟨b, events', heq, hb⟩

omit [DecidableEq E] in
/-- **What a delivery does**: the first event is delivered. -/
theorem deliver_spec (h : Holds s events externals) (outputs : List E) :
    ∃ mEventList events', s.deliver outputs = ({ s with mEventList }, events.head?) ∧
      mEventList.Holds events' := by
  cases events with
  | nil =>
    refine ⟨s.mEventList, [], ?_, h.events⟩
    rw [deliver, h.events.pop_nil]
    rfl
  | cons event rest =>
    obtain ⟨b, p, hpop, hdata, hrest⟩ := h.events.pop_cons
    obtain ⟨b', events', heq, hb'⟩ :=
      addEventEntries_spec (s := { s with mEventList := b }) ⟨hrest, h.externals⟩ outputs
    refine ⟨b', events', ?_, hb'⟩
    rw [deliver, hpop]
    simp only [heq, hdata, List.head?_cons]

omit [DecidableEq E] in
/-- **The external events** that are started are behind the ones that are in the buffer. -/
theorem startEventChains_spec (h : Holds s events externals) (hremote : s.mIsRemoteEnabled = false)
    (arrivals : List E) :
    ∃ mExternalEventList externals',
      arrivals.foldl startEventChain s = { s with mExternalEventList } ∧
      mExternalEventList.Holds externals' ∧
      externals'.head? = (externals ++ if 1 < RingBuffer.size l then arrivals else []).head? := by
  induction arrivals generalizing s externals with
  | nil => exact ⟨s.mExternalEventList, externals, rfl, h.externals, by simp⟩
  | cons event arrivals ih =>
    have hstart : s.startEventChain event =
        { s with mExternalEventList := (s.mExternalEventList.push event).1 } := by
      rw [startEventChain, hremote]
      rfl
    have hpush := (h.externals.push event).2
    obtain ⟨b, externals', heq, hb, hhead⟩ := ih
      (s := { s with mExternalEventList := (s.mExternalEventList.push event).1 })
      ⟨h.events, hpush⟩ hremote
    refine ⟨b, externals', ?_, hb, hhead.trans ?_⟩
    · rw [List.foldl_cons, hstart]
      exact heq
    · -- the first one is first as long as there is room for any
      cases externals with
      | nil =>
        by_cases hsize : 1 < RingBuffer.size l
        · rw [if_pos (show ([] : List E).length < RingBuffer.size l - 1 by simp; omega)]
          simp [hsize]
        · rw [if_neg (show ¬([] : List E).length < RingBuffer.size l - 1 by simp; omega)]
          simp [hsize]
      | cons first rest => split_ifs <;> simp

omit [DecidableEq E] in
/-- **What `mainRun` does**: the external events are behind the others, and the first one is
delivered. -/
theorem mainRun_spec (h : Holds s events externals) (outputs : List E) :
    (∃ events', Holds (s.mainRun outputs).1 events' []) ∧
      (s.mainRun outputs).2 =
        .ofEvent (events ++ externals.take (RingBuffer.size k - 1 - events.length)).head? := by
  obtain ⟨htaken, hmoved⟩ := h.externals.moveTo h.events
  have hall : Holds s.transferExternalEvents
      (events ++ externals.take (RingBuffer.size k - 1 - events.length)) [] := by
    rw [transferExternalEvents, h.externals.count]
    exact ⟨hmoved, htaken⟩
  obtain ⟨b, events', hdeliver, hb⟩ := deliver_spec hall outputs
  rw [mainRun, hdeliver]
  exact ⟨⟨events', hb, hall.externals⟩, rfl⟩

omit [DecidableEq E] in
theorem safe_of_ofEvent {breakpoints : Finset E} {r : FakeEventChain k l E × Outcome E}
    {next : Option E} (h : r.2 = .ofEvent next) :
    Safe breakpoints r ↔ ∀ event, next = some event → event ∉ breakpoints := by
  rw [Safe, h]
  cases next with
  | none => exact iff_of_true trivial nofun
  | some event => exact ⟨fun hevent _ heq => Option.some.inj heq ▸ hevent, fun hall => hall _ rfl⟩

/-- **A round** up to what it delivers: it is handed over to `mainRun` with the same events,
unless the one that was looked at is a breakpoint. -/
theorem iterate_spec (h : Holds s events externals) (hremote : s.mIsRemoteEnabled = false)
    (arrivals outputs : List E) :
    ∃ b b' externals', b.Holds events ∧ b'.Holds externals' ∧
      externals'.head? = (externals ++ if 1 < RingBuffer.size l then arrivals else []).head? ∧
      s.iterate arrivals outputs =
        match inspected k events with
        | some event =>
          if event ∈ s.mBreakpoints then
            ({ s with mEventList := b, mIsRemoteEnabled := true }, .hit event)
          else
            mainRun { s with mEventList := b, mExternalEventList := b' } outputs
        | none => mainRun { s with mEventList := b, mExternalEventList := b' } outputs := by
  obtain ⟨b, hnext, hb⟩ := getNextEvent_spec h
  obtain ⟨b', externals', hstart, hb', hhead⟩ := startEventChains_spec
    (s := { s with mEventList := b }) ⟨hb, h.externals⟩ hremote arrivals
  refine ⟨b, b', externals', hb, hb', hhead, ?_⟩
  rw [iterate, if_neg (by simp [hremote]), hnext]
  cases inspected k events with
  | none => exact congrArg (mainRun · outputs) hstart
  | some event => simp only [hstart]

/-- **A round keeps the buffers in order.** -/
theorem iterate_holds (h : Holds s events externals) (arrivals outputs : List E) :
    ∃ events' externals', Holds (s.iterate arrivals outputs).1 events' externals' := by
  by_cases hremote : s.mIsRemoteEnabled = true
  · rw [iterate, if_pos hremote]
    exact ⟨events, externals, h⟩
  · obtain ⟨b, b', externals', hb, hb', -, hrun⟩ :=
      iterate_spec h (by simpa using hremote) arrivals outputs
    obtain ⟨⟨events', hholds⟩, -⟩ := mainRun_spec
      (s := { s with mEventList := b, mExternalEventList := b' }) ⟨hb, hb'⟩ outputs
    rw [hrun]
    split
    · split_ifs
      · exact ⟨events, externals, hb, h.externals⟩
      · exact ⟨events', [], hholds⟩
    · exact ⟨events', [], hholds⟩

/-- **A round misses no breakpoint** exactly where it is watched. -/
theorem meets_iterate_iff (h : Holds s events externals) (arrivals outputs : List E) :
    Meets s (.iterate arrivals outputs) ↔ Watched s (.iterate arrivals outputs) := by
  rw [Watched, firstExternal, h.events.contents, h.externals.contents, Meets]
  by_cases hremote : s.mIsRemoteEnabled = true
  · rw [iterate, if_pos hremote]
    exact iff_of_true trivial fun hfalse => absurd (hremote.symm.trans hfalse) (by simp)
  have hremote' : s.mIsRemoteEnabled = false := by simpa using hremote
  obtain ⟨b, b', externals', hb, hb', hhead, hrun⟩ := iterate_spec h hremote' arrivals outputs
  obtain ⟨-, hdelivered⟩ := mainRun_spec
    (s := { s with mEventList := b, mExternalEventList := b' }) ⟨hb, hb'⟩ outputs
  have hsafe : Safe s.mBreakpoints
      (mainRun { s with mEventList := b, mExternalEventList := b' } outputs) ↔ _ :=
    safe_of_ofEvent hdelivered
  rw [hrun, forall_prop_of_true hremote']
  cases events with
  | nil =>
    rw [inspected_nil, hsafe, List.nil_append, List.head?_take, hhead, List.length_nil,
      Nat.sub_zero]
    -- there is room for the first external event, or for none at all
    by_cases hsize : 1 < RingBuffer.size k
    · rw [if_neg (by omega)]
      exact forall_congr' fun event => imp_congr_right fun _ =>
        ⟨fun hevent _ => hevent, fun hevent => hevent hsize⟩
    · rw [if_pos (by omega)]
      exact iff_of_true nofun fun _ _ hroom => absurd hroom hsize
  | cons event rest =>
    have hfront : Safe s.mBreakpoints
        (mainRun { s with mEventList := b, mExternalEventList := b' } outputs) ↔
          event ∉ s.mBreakpoints := by
      rw [hsafe]
      exact ⟨fun hall => hall event rfl, fun hevent _ heq => Option.some.inj heq ▸ hevent⟩
    show _ ↔ inspected k (event :: rest) = some event ∨ (event ∉ s.mBreakpoints ∧
      ∀ other, inspected k (event :: rest) = some other → other ∉ s.mBreakpoints)
    generalize inspected k (event :: rest) = looked
    rcases looked with _ | other
    · show Safe s.mBreakpoints (mainRun _ outputs) ↔ _
      rw [hfront, or_iff_right (by simp)]
      exact (and_iff_left nofun).symm
    · show Safe s.mBreakpoints (if other ∈ s.mBreakpoints then _ else _) ↔ _
      by_cases hhit : other ∈ s.mBreakpoints
      · -- the callback is called for the event that was looked at
        rw [if_pos hhit, Safe]
        simp only [hb.contents, List.head?_cons, true_and, Option.some.injEq]
        constructor
        · rintro rfl
          exact .inl rfl
        · rintro (heq | ⟨-, hall⟩)
          · exact heq.symm
          · exact absurd hhit (hall other rfl)
      · rw [if_neg hhit, hfront]
        constructor
        · exact fun hevent => .inr ⟨hevent, fun _ heq => Option.some.inj heq ▸ hhit⟩
        · rintro (heq | ⟨hevent, -⟩)
          · rwa [← Option.some.inj heq]
          · exact hevent

/-! ### Runs -/

/-- **Every step keeps the buffers in order.** -/
theorem next_holds (h : Holds s events externals) (st : Step E) :
    ∃ events' externals', Holds (s.next st) events' externals' := by
  cases st with
  | iterate arrivals outputs => exact iterate_holds h arrivals outputs
  | startEventChain event =>
    rw [next, startEventChain]
    split_ifs
    · exact ⟨events, externals, h⟩
    · exact ⟨events, _, h.events, (h.externals.push event).2⟩
  | triggerNextEvent outputs =>
    rw [next]
    split_ifs
    · obtain ⟨b, events', hdeliver, hb⟩ := deliver_spec h outputs
      rw [hdeliver]
      exact ⟨events', externals, hb, h.externals⟩
    · exact ⟨events, externals, h⟩
  | _ => exact ⟨events, externals, h.events, h.externals⟩

end

/-- **No run misses a breakpoint** if and only if every round of it is watched. -/
theorem watches_iff (elements externalElements : ℕ → E) (steps : List (Step E)) :
    Runs.Each next Meets (initial elements externalElements : FakeEventChain k l E) steps ↔
      Runs.Each next Watched (initial elements externalElements : FakeEventChain k l E) steps :=
  have hgood : ∀ (s : FakeEventChain k l E) st, (∃ events externals, Holds s events externals) →
      Meets s st → ∃ events externals, Holds (s.next st) events externals :=
    fun _ st ⟨_, _, h⟩ _ => next_holds h st
  have hstep : ∀ (s : FakeEventChain k l E) st, (∃ events externals, Holds s events externals) →
      (Meets s st ↔ Watched s st) := by
    rintro s st ⟨events, externals, h⟩
    cases st with
    | iterate arrivals outputs => exact meets_iterate_iff h arrivals outputs
    | _ => exact Iff.rfl
  have hinitial : ∃ events externals,
      Holds (initial elements externalElements : FakeEventChain k l E) events externals :=
    ⟨[], [], RingBuffer.holds_initial elements, RingBuffer.holds_initial externalElements⟩
  Runs.each_congr hgood hstep hinitial steps

/-- An external event that is a breakpoint is delivered when the list is empty. -/
theorem not_watches_external :
    ¬∀ (elements externalElements : ℕ → Bool) (steps : List (Step Bool)),
      Runs.Each next Meets (initial elements externalElements : FakeEventChain 4 4 Bool) steps := by
  intro h
  let steps : List (Step Bool) :=
    [.addBreakpoint true, .startEventChain true, .iterate [] []]
  let before : FakeEventChain 4 4 Bool :=
    Runs.run next (initial (fun _ => false) fun _ => false) (steps.take 2)
  have hmeets : Meets before (.iterate [] []) := h _ _ steps 2 _ rfl
  -- the event is delivered, and the callback has not been called
  have hdelivered : (before.iterate [] []).2 = .ofEvent (some true) := by decide +kernel
  exact (safe_of_ofEvent hdelivered).mp hmeets true rfl (by decide)

end FakeEventChain

end Forte
