import Forte.Execution.Breakpoints
import Forte.Execution.EventChain

/-!
# Control from outside

What a `CFakeEventExecutionThread` lets others do with its event list: look at the next event,
insert one at the front, take events off the back, and have the next one delivered. With the
list goes the counter `mEventCounter` of the events that were put into it.

The header has two modes. Without external control events are neither delivered nor taken away
on request; under it both is done, and the counter goes down with each event that is taken off
the back. `Forte.ControlledChain.manual` is about the list in any state the thread can reach. It
leaves out what the ring buffer has no room for: looking at the next event needs half of the
places to be free, and inserting one needs one of them.
-/

namespace Forte

/-- A `CFakeEventExecutionThread` with its event counter. -/
structure ControlledChain (k l : Fin 64) (FB : Type) extends FakeEventChain k l (FB × ℕ) where
  mEventCounter : BitVec 64

namespace ControlledChain

variable {k l : Fin 64} {FB : Type}

/-- A thread as it is created. -/
def initial (elements externalElements : ℕ → FB × ℕ) : ControlledChain k l FB where
  toFakeEventChain := .initial elements externalElements
  mEventCounter := 0

/-- `addEventEntry`. External events are not counted. -/
def addEventEntry (s : ControlledChain k l FB) (paEventToAdd : FB × ℕ) :
    ControlledChain k l FB :=
  let (mEventList, pushed) := s.mEventList.push paEventToAdd
  { s with
    mEventList
    mEventCounter :=
      if pushed && paEventToAdd.2 ≠ externalEventID then s.mEventCounter + 1
      else s.mEventCounter }

/-- The next event is delivered to its function block, which adds events; there is none if the
list is empty. -/
def deliver (s : ControlledChain k l FB) (outputs : List (FB × ℕ)) :
    ControlledChain k l FB × Option (FB × ℕ) :=
  match s.mEventList.pop with
  | (_, none) => (s, none)
  | (mEventList, some event) =>
    (outputs.foldl addEventEntry { s with mEventList }, some (mEventList.data event))

/-- `triggerNextEvent`, and the event that is delivered. -/
def triggerNextEvent (s : ControlledChain k l FB) (outputs : List (FB × ℕ)) :
    ControlledChain k l FB × Option (FB × ℕ) :=
  if !s.mIsRemoteEnabled then (s, none) else s.deliver outputs

/-- `insertFront`. -/
def insertFront (s : ControlledChain k l FB) (paEvent : FB × ℕ) : ControlledChain k l FB :=
  { s with toFakeEventChain := s.toFakeEventChain.insertFront paEvent }

/-- `getNextEvent`. -/
def getNextEvent (s : ControlledChain k l FB) : ControlledChain k l FB × Option (FB × ℕ) :=
  let (chain, event) := s.toFakeEventChain.getNextEvent
  ({ s with toFakeEventChain := chain }, event)

/-- The loop that pops all events and appends them to `temp`, with a bound on its rounds. -/
def popAll {E : Type} : ℕ → RingBuffer k E → List E → RingBuffer k E × List E
  | 0, b, temp => (b, temp)
  | bound + 1, b, temp =>
    match b.pop with
    | (_, none) => (b, temp)
    | (rest, some pointer) => popAll bound rest (temp ++ [rest.data pointer])

/-- The loop that takes events off the back of `temp`; `pop_back` must not be called on an empty
vector. -/
def dropBack {E : Type} : ℕ → List E → BitVec 64 → Option (List E × BitVec 64)
  | 0, temp, mEventCounter => some (temp, mEventCounter)
  | n + 1, temp, mEventCounter =>
    if temp = [] then none else dropBack n temp.dropLast (mEventCounter - 1)

/-- `removeFromBack`; no state if it calls `pop_back` on an empty vector. -/
def removeFromBack (s : ControlledChain k l FB) (paNumberOfItemsToRemove : ℕ) :
    Option (ControlledChain k l FB) :=
  if !s.mIsRemoteEnabled then some s
  else
    let (mEventList, temp) := popAll s.mEventList.count s.mEventList []
    (dropBack paNumberOfItemsToRemove temp s.mEventCounter).map fun (temp, mEventCounter) =>
      { s with
        mEventList := temp.foldl (fun b event => (b.push event).1) mEventList
        mEventCounter }

/-- What happens to the thread. -/
inductive Step (FB : Type)
  /-- A function block adds an event. -/
  | addEventEntry (paEventToAdd : FB × ℕ)
  | startEventChain (paEvent : FB × ℕ)
  | takeExternalControl
  | removeExternalControl
  /-- The external events are transferred, and the next event is delivered. -/
  | mainRun (outputs : List (FB × ℕ))
  | triggerNextEvent (outputs : List (FB × ℕ))
  | getNextEvent
  | insertFront (paEvent : FB × ℕ)
  | removeFromBack (paNumberOfItemsToRemove : ℕ)

/-- The state after a step, if it has one. -/
def next (s : ControlledChain k l FB) : Step FB → Option (ControlledChain k l FB)
  | .addEventEntry paEventToAdd => some (s.addEventEntry paEventToAdd)
  | .startEventChain paEvent =>
    some { s with toFakeEventChain := s.toFakeEventChain.startEventChain paEvent }
  | .takeExternalControl => some { s with mIsRemoteEnabled := true }
  | .removeExternalControl => some { s with mIsRemoteEnabled := false }
  | .mainRun outputs =>
    let s := { s with toFakeEventChain := s.toFakeEventChain.transferExternalEvents }
    some (s.deliver outputs).1
  | .triggerNextEvent outputs => some (s.triggerNextEvent outputs).1
  | .getNextEvent => some s.getNextEvent.1
  | .insertFront paEvent => some (s.insertFront paEvent)
  | .removeFromBack paNumberOfItemsToRemove => s.removeFromBack paNumberOfItemsToRemove

/-- The events in the list. -/
def events (s : ControlledChain k l FB) : List (FB × ℕ) := s.mEventList.contents

/-! ### The loops of `removeFromBack` -/

section

variable {E : Type} {b : RingBuffer k E} {events : List E}

theorem popAll_spec (h : b.Holds events) (temp : List E) :
    ∃ mEventList, popAll events.length b temp = (mEventList, temp ++ events) ∧
      mEventList.Holds [] := by
  induction events generalizing b temp with
  | nil => exact ⟨b, by rw [List.append_nil]; rfl, h⟩
  | cons event rest ih =>
    obtain ⟨b', pointer, hpop, rfl, hrest⟩ := h.pop_cons
    obtain ⟨mEventList, heq, hempty⟩ := ih hrest (temp ++ [b'.data pointer])
    refine ⟨mEventList, ?_, hempty⟩
    rw [List.length_cons, popAll, hpop, List.append_cons]
    exact heq

/-- As many events are taken off the back as there are, and the counter goes down with each of
them. -/
theorem dropBack_eq (n : ℕ) (temp : List E) (mEventCounter : BitVec 64) :
    dropBack n temp mEventCounter =
      if n ≤ temp.length then
        some (temp.take (temp.length - n), mEventCounter - BitVec.ofNat 64 n)
      else none := by
  induction n generalizing temp mEventCounter with
  | zero => simp [dropBack]
  | succ n ih =>
    rw [dropBack]
    rcases List.eq_nil_or_concat' temp with rfl | ⟨front, last, rfl⟩
    · rfl
    · have hlength : (front ++ [last]).length = front.length + 1 := List.length_append
      have hcounter : mEventCounter - 1 - BitVec.ofNat 64 n =
          mEventCounter - BitVec.ofNat 64 (n + 1) := by
        rw [BitVec.ofNat_add, BitVec.add_comm]
        exact BitVec.sub_sub _ _ _
      rw [if_neg (by simp), List.dropLast_concat, ih, hcounter, hlength, Nat.add_sub_add_right]
      refine if_congr (Nat.add_le_add_iff_right).symm ?_ rfl
      rw [List.take_append_of_le_length (Nat.sub_le _ _)]

theorem foldl_push_holds (h : b.Holds events) {more : List E}
    (hroom : events.length + more.length ≤ RingBuffer.size k - 1) :
    (more.foldl (fun b event => (b.push event).1) b).Holds (events ++ more) := by
  induction more generalizing b events with
  | nil =>
    rw [List.append_nil]
    exact h
  | cons event more ih =>
    have hpush := (h.push event).2
    rw [List.length_cons] at hroom
    rw [if_pos (by omega)] at hpush
    rw [List.append_cons]
    refine ih hpush ?_
    rw [List.length_append, List.length_singleton]
    omega

end

/-! ### What the operations do -/

section

variable {s : ControlledChain k l FB} {events externals : List (FB × ℕ)}

/-- The events in the two buffers. -/
def Holds (s : ControlledChain k l FB) (events externals : List (FB × ℕ)) : Prop :=
  s.toFakeEventChain.Holds events externals

theorem Holds.events_eq (h : s.Holds events externals) : s.events = events :=
  RingBuffer.Holds.contents (FakeEventChain.Holds.events h)

theorem Holds.addEventEntry (h : s.Holds events externals) (event : FB × ℕ) :
    ∃ events', (s.addEventEntry event).Holds events' externals :=
  ⟨_, (h.events.push event).2, h.externals⟩

/-- **What a delivery does**: the first event is delivered. -/
theorem Holds.deliver (h : s.Holds events externals) (outputs : List (FB × ℕ)) :
    (s.deliver outputs).2 = events.head? ∧
      ∃ events', (s.deliver outputs).1.Holds events' externals := by
  have hadd (t : ControlledChain k l FB) (rest : List (FB × ℕ)) (ht : t.Holds rest externals) :
      ∃ events', (outputs.foldl ControlledChain.addEventEntry t).Holds events' externals := by
    induction outputs generalizing t rest with
    | nil => exact ⟨rest, ht⟩
    | cons event outputs ih =>
      obtain ⟨events', hadd⟩ := ht.addEventEntry event
      exact ih _ _ hadd
  rw [ControlledChain.deliver]
  rcases events with - | ⟨event, rest⟩
  · rw [h.events.pop_nil]
    exact ⟨rfl, [], h⟩
  · obtain ⟨b, pointer, hpop, rfl, hrest⟩ := h.events.pop_cons
    rw [hpop]
    exact ⟨rfl, hadd _ rest ⟨hrest, h.externals⟩⟩

/-- Which event is delivered next: none without external control. -/
theorem Holds.triggerNextEvent (h : s.Holds events externals) (outputs : List (FB × ℕ)) :
    (s.triggerNextEvent outputs).2 = (if s.mIsRemoteEnabled then events.head? else none) ∧
      ∃ events', (s.triggerNextEvent outputs).1.Holds events' externals := by
  rw [ControlledChain.triggerNextEvent]
  cases s.mIsRemoteEnabled with
  | false => exact ⟨rfl, events, h⟩
  | true => exact h.deliver outputs

/-- The list is left as it is, and so is everything else. -/
theorem Holds.getNextEvent (h : s.Holds events externals) :
    ∃ mEventList, s.getNextEvent =
        ({ s with mEventList }, FakeEventChain.inspected k events) ∧
      mEventList.Holds events := by
  obtain ⟨b, hnext, hb⟩ := FakeEventChain.getNextEvent_spec h
  refine ⟨b, ?_, hb⟩
  rw [ControlledChain.getNextEvent, hnext]

/-- An event is inserted at the front, if there is a place left for it. -/
theorem Holds.insertFront (h : s.Holds events externals) (event : FB × ℕ)
    (hroom : events.length < RingBuffer.size k - 1) :
    ∃ mEventList, s.insertFront event = { s with mEventList } ∧
      mEventList.Holds (event :: events) := by
  obtain ⟨b, hinsert, hb, -, -⟩ := FakeEventChain.insertFront_spec h.events hroom event
  refine ⟨b, ?_, hb⟩
  rw [ControlledChain.insertFront, hinsert]

/-- Also when there is none, the events are in the list in some order. -/
theorem Holds.insertFront_exists (h : s.Holds events externals) (event : FB × ℕ) :
    ∃ events', (s.insertFront event).Holds events' externals := by
  have hfirst := ((RingBuffer.holds_initial (k := k) fun _ => event).push event).2
  obtain ⟨hempty, hcollected⟩ := h.events.moveTo hfirst
  have hback := (hcollected.moveTo hempty).2
  rw [← hcollected.count, ← h.events.count] at hback
  exact ⟨_, hback, h.externals⟩

/-- **Events are taken off the back** under external control. -/
theorem Holds.removeFromBack (h : s.Holds events externals) (hremote : s.mIsRemoteEnabled = true)
    (n : ℕ) :
    ∃ mEventList, mEventList.Holds (events.take (events.length - n)) ∧
      s.removeFromBack n =
        if n ≤ events.length then
          some { s with mEventList, mEventCounter := s.mEventCounter - BitVec.ofNat 64 n }
        else none := by
  obtain ⟨b, hpop, hempty⟩ := popAll_spec h.events []
  have hlength : events.length ≤ RingBuffer.size k - 1 := h.events.length
  have hroom : ([] : List (FB × ℕ)).length + (events.take (events.length - n)).length ≤
      RingBuffer.size k - 1 := by
    rw [List.length_nil, List.length_take]
    omega
  refine ⟨_, foldl_push_holds hempty hroom, ?_⟩
  rw [ControlledChain.removeFromBack, hremote, h.events.count, hpop, List.nil_append]
  rw [if_neg (by simp)]
  simp only [dropBack_eq]
  split_ifs <;> rfl

/-! ### Any state that can be reached -/

/-- **A step keeps the buffers in order.** -/
theorem Holds.next (h : s.Holds events externals) (st : Step FB) {t : ControlledChain k l FB}
    (ht : s.next st = some t) : ∃ events' externals', t.Holds events' externals' := by
  cases st with
  | addEventEntry event =>
    obtain rfl := Option.some.inj ht
    obtain ⟨events', hadd⟩ := h.addEventEntry event
    exact ⟨events', externals, hadd⟩
  | startEventChain event =>
    obtain rfl := Option.some.inj ht
    have hpush := (h.externals.push event).2
    rw [FakeEventChain.startEventChain]
    split
    · exact ⟨events, externals, h⟩
    · exact ⟨events, _, h.events, hpush⟩
  | takeExternalControl =>
    obtain rfl := Option.some.inj ht
    exact ⟨events, externals, h.events, h.externals⟩
  | removeExternalControl =>
    obtain rfl := Option.some.inj ht
    exact ⟨events, externals, h.events, h.externals⟩
  | mainRun outputs =>
    obtain rfl := Option.some.inj ht
    obtain ⟨htaken, hmoved⟩ := h.externals.moveTo h.events
    rw [← h.externals.count] at htaken hmoved
    have hall : Holds
        { s with toFakeEventChain := s.toFakeEventChain.transferExternalEvents } _ [] :=
      ⟨hmoved, htaken⟩
    obtain ⟨-, events', hdeliver⟩ := hall.deliver outputs
    exact ⟨events', [], hdeliver⟩
  | triggerNextEvent outputs =>
    obtain rfl := Option.some.inj ht
    obtain ⟨-, events', htrigger⟩ := h.triggerNextEvent outputs
    exact ⟨events', externals, htrigger⟩
  | getNextEvent =>
    obtain rfl := Option.some.inj ht
    obtain ⟨b, hnext, hb⟩ := h.getNextEvent
    rw [hnext]
    exact ⟨events, externals, hb, h.externals⟩
  | insertFront event =>
    obtain rfl := Option.some.inj ht
    obtain ⟨events', hinsert⟩ := h.insertFront_exists event
    exact ⟨events', externals, hinsert⟩
  | removeFromBack n =>
    change s.removeFromBack n = some t at ht
    by_cases hremote : s.mIsRemoteEnabled = true
    · obtain ⟨b, hb, heq⟩ := h.removeFromBack hremote n
      rw [heq, Option.ite_none_right_eq_some] at ht
      obtain ⟨-, ⟨⟩⟩ := ht
      exact ⟨_, externals, hb, h.externals⟩
    · rw [ControlledChain.removeFromBack, if_pos (by simpa using hremote)] at ht
      obtain rfl := Option.some.inj ht
      exact ⟨events, externals, h⟩

theorem holds_initial (elements externalElements : ℕ → FB × ℕ) :
    (initial elements externalElements : ControlledChain k l FB).Holds [] [] :=
  ⟨RingBuffer.holds_initial elements, RingBuffer.holds_initial externalElements⟩

/-- **A run keeps the buffers in order.** -/
theorem Holds.run (h : s.Holds events externals) {steps : List (Step FB)}
    {t : ControlledChain k l FB} (ht : steps.foldlM ControlledChain.next s = some t) :
    ∃ events' externals', t.Holds events' externals' := by
  induction steps generalizing s events externals with
  | nil =>
    obtain rfl := Option.some.inj ht
    exact ⟨events, externals, h⟩
  | cons st steps ih =>
    rw [List.foldlM_cons] at ht
    obtain ⟨u, hu, hrest⟩ := Option.bind_eq_some_iff.mp ht
    obtain ⟨events', externals', hnext⟩ := h.next st hu
    exact ih hnext hrest

end

/-- **What the manual methods do** in a state. -/
structure Manual (s : ControlledChain k l FB) : Prop where
  /-- Looking at the next event leaves the list and the counter as they are, and everything
  else. -/
  look : ∃ mEventList, s.getNextEvent.1 = { s with mEventList } ∧ mEventList.contents = s.events
  /-- What is looked at is the event that is delivered next. -/
  next : s.mIsRemoteEnabled = true → 2 * s.events.length ≤ RingBuffer.size k →
    ∀ outputs, s.getNextEvent.2 = (s.triggerNextEvent outputs).2
  /-- That is the first one in the list. -/
  first : 2 * s.events.length ≤ RingBuffer.size k → s.getNextEvent.2 = s.events.head?
  insertFront : s.events.length < RingBuffer.size k - 1 → ∀ paEvent, ∃ mEventList,
    s.insertFront paEvent = { s with mEventList } ∧ mEventList.contents = paEvent :: s.events
  removeFromBack : s.mIsRemoteEnabled = true → ∀ n ≤ s.events.length, ∃ mEventList,
    s.removeFromBack n =
        some { s with mEventList, mEventCounter := s.mEventCounter - BitVec.ofNat 64 n } ∧
      mEventList.contents = s.events.take (s.events.length - n)
  /-- Without external control nothing is removed, and nothing is delivered. -/
  disabled : s.mIsRemoteEnabled = false →
    (∀ n, s.removeFromBack n = some s) ∧ ∀ outputs, s.triggerNextEvent outputs = (s, none)

/-- **The manual methods do what they are for** in every state that can be reached, as long as
the ring buffer has room for how they do it. -/
theorem manual {elements externalElements : ℕ → FB × ℕ} {steps : List (Step FB)}
    {s : ControlledChain k l FB}
    (h : steps.foldlM next (initial elements externalElements) = some s) : s.Manual := by
  obtain ⟨events, externals, hs⟩ := (holds_initial elements externalElements).run h
  obtain ⟨b, hnext, hb⟩ := hs.getNextEvent
  have hfirst (hhalf : 2 * events.length ≤ RingBuffer.size k) :
      s.getNextEvent.2 = events.head? := by
    rw [hnext]
    exact if_pos hhalf
  constructor
  · exact ⟨b, by rw [hnext], hb.contents.trans hs.events_eq.symm⟩
  · intro hremote hhalf outputs
    rw [hs.events_eq] at hhalf
    rw [hfirst hhalf, (hs.triggerNextEvent outputs).1, if_pos hremote]
  · rwa [hs.events_eq]
  · intro hroom event
    rw [hs.events_eq] at hroom ⊢
    obtain ⟨b', hinsert, hb'⟩ := hs.insertFront event hroom
    exact ⟨b', hinsert, hb'.contents⟩
  · intro hremote n hn
    rw [hs.events_eq] at hn ⊢
    obtain ⟨b', hb', hremove⟩ := hs.removeFromBack hremote n
    exact ⟨b', hremove.trans (if_pos hn), hb'.contents⟩
  · intro hremote
    refine ⟨fun n => ?_, fun outputs => ?_⟩
    · rw [ControlledChain.removeFromBack, hremote]
      rfl
    · rw [ControlledChain.triggerNextEvent, hremote]
      rfl

/-- Three events, in a ring buffer of four places. -/
def sampleSteps : List (Step Unit) :=
  [.addEventEntry ((), 1), .addEventEntry ((), 2), .addEventEntry ((), 3)]

theorem manual_sample : ∃ s : ControlledChain 2 2 Unit,
    sampleSteps.foldlM next (initial (fun _ => ((), 0)) fun _ => ((), 0)) = some s ∧ s.Manual :=
  ⟨_, rfl, @manual 2 2 Unit _ _ sampleSteps _ rfl⟩

/-- **Not everything is done in every state**: without external control nothing is removed;
under it the counter goes down with the events; of three events in four places the second one is
looked at although the first one is delivered next, and inserting one at the front loses the
last one. -/
theorem not_manual_sample :
    ∃ s : ControlledChain 2 2 Unit,
      sampleSteps.foldlM next (initial (fun _ => ((), 0)) fun _ => ((), 0)) = some s ∧
      s.events = [((), 1), ((), 2), ((), 3)] ∧ s.mEventCounter = 3 ∧
      (s.removeFromBack 1).map events = some [((), 1), ((), 2), ((), 3)] ∧
      ({ s with mIsRemoteEnabled := true }.removeFromBack 1).map mEventCounter = some 2 ∧
      ({ s with mIsRemoteEnabled := true }.triggerNextEvent []).2 = some ((), 1) ∧
      { s with mIsRemoteEnabled := true }.getNextEvent.2 = some ((), 2) ∧
      (s.insertFront ((), 4)).events = [((), 4), ((), 1), ((), 2)] := by
  refine ⟨_, rfl, ?_⟩
  decide +kernel

end ControlledChain
end Forte
