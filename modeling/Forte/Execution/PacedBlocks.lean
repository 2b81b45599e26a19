import Forte.Execution.DelayTimer
import Forte.Lib.Paced

/-!
# Composite function blocks that pace events

`E_TRAIN` and `E_TABLE` send a number of events with a wait before each of them. They consist of
an `E_DELAY`, which waits, and of function blocks that control it: `START` goes to these, and they
start the delay if there is an event to come; when the wait is over, the delay sends the event and
tells them so. `STOP` goes to the delay.

The events between them are in the event list of the resource, and the delay is started from the
event list when the timer handler lets it. This file has what the two have in common, with any
function blocks that control the delay. If each of these does its part
(`Forte.Controller.Counts`), then what happens is a paced sequence, in every order of the steps of
the two threads and whatever else is executed in between (`Forte.PacedFB.goes_run`), if `START`
comes when everything is at rest and `STOP` does not reach the delay during a tick. A `STOP` then
stops the sequence if the timer handler comes to it before the wait is over; otherwise it has no
effect.
-/

namespace Forte

/-! ### The composite function blocks -/

/-- The function blocks that control the delay: they have events of their own, which are executed
with what is in the connections from the interface. -/
structure Controller (Inputs C E : Type) where
  created : C
  /-- The event that `START` is connected to. -/
  onStart : E
  /-- The event that `EO` of the delay is connected to. -/
  onEO : E
  /-- The execution of an event, with the events that are sent; `none` is `START` of the delay. -/
  receiveInputEvent : C → Inputs → E → C × List (Option E)
  /-- What is connected to `DT` of the delay. -/
  dt : C → Inputs → BitVec 64
  /-- What is connected to the output `CV`. -/
  cv : C → BitVec 16

/-- The events of the composite function block that are in the event list. -/
inductive PacedEvent (E : Type)
  | start
  | stop
  | controller (event : E)
  | delayStart
  | delayStop
  /-- The external event of the delay. -/
  | external
  /-- The event output `EO`. -/
  | eo
  deriving DecidableEq

/-- A composite function block that paces events, with what is in its connections, and of the
event list its events. -/
structure PacedFB (Inputs C E : Type) where
  controller : C
  /-- The connections from the interface. -/
  inputs : Inputs
  delay : Delay
  pending : List (PacedEvent E)
  log : List (Paced.Entry Inputs (BitVec 64))

namespace PacedFB

variable {Inputs C E : Type}

/-- What happens to the function block. -/
inductive Action (Inputs : Type)
  | start
  | stop
  /-- The first of its events is executed, with what is at its inputs. -/
  | execute (inputs : Inputs)
  /-- An external event comes into the event list. -/
  | transfer
  | timer (action : Delay.TimerAction)

variable (ctrl : Controller Inputs C E)

/-- A function block as it is created. -/
def created (inputs : Inputs) : PacedFB Inputs C E := ⟨ctrl.created, inputs, .created, [], []⟩

/-- What is sent for an output of the delay. -/
def sent : Delay.Output → List (PacedEvent E)
  | .eo => [.eo, .controller ctrl.onEO]
  | .wait _ => []

/-- What is seen of it in the log. -/
def logged : Delay.Output → List (Paced.Entry Inputs (BitVec 64))
  | .eo => []
  | .wait interval => [.wait interval]

/-- The delay receives an event. -/
def executeDelay (s : PacedFB Inputs C E) (eiid : ℕ) : PacedFB Inputs C E :=
  let (delay, outputs) := s.delay.receiveInputEvent eiid (ctrl.dt s.controller s.inputs)
  { s with
    delay
    pending := s.pending ++ outputs.flatMap (sent ctrl)
    log := s.log ++ outputs.flatMap logged }

/-- An event is executed. -/
def executeEvent (s : PacedFB Inputs C E) (inputs : Inputs) : PacedEvent E → PacedFB Inputs C E
  | .start =>
    { s with
      inputs
      pending := s.pending ++ [.controller ctrl.onStart]
      log := s.log ++ [.start inputs] }
  | .stop => { s with pending := s.pending ++ [.delayStop] }
  | .controller event =>
    let (controller, events) := ctrl.receiveInputEvent s.controller s.inputs event
    { s with
      controller
      pending := s.pending ++ events.map fun event => event.elim .delayStart .controller }
  | .delayStart => s.executeDelay ctrl DelayFB.eventSTARTID
  | .delayStop => s.executeDelay ctrl DelayFB.eventSTOPID
  | .external => s.executeDelay ctrl externalEventID
  | .eo => { s with log := s.log ++ [.event (ctrl.cv s.controller).toNat] }

/-- One step; a step that cannot be taken has no effect. -/
def step (s : PacedFB Inputs C E) : Action Inputs → PacedFB Inputs C E
  | .start => { s with pending := s.pending ++ [.start] }
  | .stop => { s with pending := s.pending ++ [.stop] }
  | .execute inputs =>
    match s.pending with
    | [] => s
    | event :: pending => { s with pending }.executeEvent ctrl inputs event
  | .transfer =>
    if 0 < s.delay.fired then
      { s with
        delay := { s.delay with fired := s.delay.fired - 1 }
        pending := s.pending ++ [.external] }
    else s
  | .timer action =>
    { s with
      delay := s.delay.tick action
      log := s.log ++ if s.delay.stops action then [.stopped] else [] }

/-- There is nothing to do. -/
def Resting (s : PacedFB Inputs C E) : Prop := s.pending = [] ∧ s.delay.Resting

/-- When a step is as it should be: `START` comes when everything is at rest, and `STOP` does not
reach the delay during a tick. -/
def Orderly (s : PacedFB Inputs C E) : Action Inputs → Prop
  | .start => s.Resting
  | .execute _ => s.pending.head? = some .delayStop → s.delay.inTick = false
  | _ => True

instance [DecidableEq E] (s : PacedFB Inputs C E) : Decidable s.Resting :=
  inferInstanceAs (Decidable (_ ∧ _))

instance [DecidableEq E] (s : PacedFB Inputs C E) (action : Action Inputs) :
    Decidable (s.Orderly action) :=
  match action with
  | .start => inferInstanceAs (Decidable s.Resting)
  | .execute _ =>
    inferInstanceAs (Decidable (s.pending.head? = some .delayStop → s.delay.inTick = false))
  | .stop | .transfer | .timer _ => .isTrue trivial

end PacedFB

/-! ### What becomes of a start -/

variable {Inputs C E : Type}

/-- **Controllers that count**: what they are in between the sequences, with an event of theirs to
be executed before the event with a number, and when the delay waits for it. -/
structure Controller.Counts (ctrl : Controller Inputs C E)
    (q : Paced.Sequence Inputs (BitVec 64)) where
  Sound : C → Prop
  Working : Inputs → ℕ → E → C → Prop
  Waiting : Inputs → ℕ → C → Prop
  created : Sound ctrl.created
  onStart : ∀ {c}, Sound c → ∀ inputs, Working inputs 0 ctrl.onStart c
  onEO : ∀ {inputs k c}, Waiting inputs k c → Working inputs (k + 1) ctrl.onEO c
  receive : ∀ {inputs k event c}, Working inputs k event c → ∃ c' events,
    ctrl.receiveInputEvent c inputs event = (c', events) ∧
      ((∃ event', events = [some event'] ∧ Working inputs k event' c') ∨
        (events = [none] ∧ k < q.length inputs ∧ Waiting inputs k c') ∨
        (events = [] ∧ q.length inputs ≤ k ∧ Sound c'))
  dt : ∀ {inputs k c}, Waiting inputs k c → ctrl.dt c inputs = q.wait inputs k
  cv : ∀ {inputs k c}, Waiting inputs k c → (ctrl.cv c).toNat = k
  /-- After a stop. -/
  sound : ∀ {inputs k c}, Waiting inputs k c → Sound c

namespace PacedFB

variable {ctrl : Controller Inputs C E} {q : Paced.Sequence Inputs (BitVec 64)}
  (counts : ctrl.Counts q)

/-- Where a sequence is: the events in the event list without those of `STOP`, the delay with its
intervals and external events, the controller with its inputs, and the place in the log. -/
inductive Phase : List (PacedEvent E) → Bool → List (BitVec 64) → List (BitVec 64) → ℕ → C →
    Inputs → Paced.State Inputs → Prop
  | rest {c inputs} (h : counts.Sound c) : Phase [] false [] [] 0 c inputs .rest
  | start {c inputs} (h : counts.Sound c) : Phase [.start] false [] [] 0 c inputs .rest
  | working {c inputs k event} (h : counts.Working inputs k event c) :
    Phase [.controller event] false [] [] 0 c inputs (q.before inputs k)
  | starting {c inputs k} (h : counts.Waiting inputs k c) :
    Phase [.delayStart] false [] [] 0 c inputs (.due inputs k)
  | added {c inputs k} (active : Bool) (h : counts.Waiting inputs k c) :
    Phase [] active [q.wait inputs k] [] 0 c inputs (.waiting inputs k)
  | registered {c inputs k} (active : Bool) (h : counts.Waiting inputs k c) :
    Phase [] active [] [q.wait inputs k] 0 c inputs (.waiting inputs k)
  | fired {c inputs k} (active : Bool) (h : counts.Waiting inputs k c) :
    Phase [] active [] [] 1 c inputs (.waiting inputs k)
  | external {c inputs k} (active : Bool) (h : counts.Waiting inputs k c) :
    Phase [.external] active [] [] 0 c inputs (.waiting inputs k)
  | eo {c inputs k} (h : counts.Waiting inputs k c) :
    Phase [.eo, .controller ctrl.onEO] false [] [] 0 c inputs (.waiting inputs k)

/-- The event comes of a `STOP`. -/
def OfStop : PacedEvent E → Bool
  | .stop | .delayStop => true
  | _ => false

/-- The events that do not come of a `STOP`. -/
def tokens (pending : List (PacedEvent E)) : List (PacedEvent E) :=
  pending.filter fun event => !OfStop event

/-- **A paced sequence goes on**: the log has been followed to a place, and the function block is
there. -/
structure Goes (s : PacedFB Inputs C E) (place : Paced.State Inputs) : Prop where
  follow : q.follow s.log = some place
  phase : Phase counts (tokens s.pending) s.delay.active s.delay.added s.delay.registered
    s.delay.fired s.controller s.inputs place
  /-- What is to be removed has been told to stop. -/
  removing : s.delay.removing = true → s.delay.registered ≠ [] → s.delay.active = false
  inTick : s.delay.inTick = true → s.delay.removing = false

variable {counts} {s : PacedFB Inputs C E} {place : Paced.State Inputs}

theorem tokens_append (events events' : List (PacedEvent E)) :
    tokens (events ++ events') = tokens events ++ tokens events' := List.filter_append ..

theorem follow_concat_of {log : List (Paced.Entry Inputs (BitVec 64))} {place' : Paced.State Inputs}
    {entry : Paced.Entry Inputs (BitVec 64)} (h : q.follow log = some place)
    (hnext : q.next place entry = some place') : q.follow (log ++ [entry]) = some place' := by
  rw [Paced.follow_concat, h]
  exact hnext

section Phase

variable {events : List (PacedEvent E)} {active : Bool} {added registered : List (BitVec 64)}
  {fired : ℕ} {c : C} {inputs : Inputs}
  (h : Phase counts events active added registered fired c inputs place)

include h

/-- What is done to the delay that does not wait. -/
theorem Phase.inactive :
    Phase counts events false added registered fired c inputs place := by
  cases h with
  | rest h => exact .rest h
  | start h => exact .start h
  | working h => exact .working h
  | starting h => exact .starting h
  | added active h => exact .added false h
  | registered active h => exact .registered false h
  | fired active h => exact .fired false h
  | external active h => exact .external false h
  | eo h => exact .eo h

/-- **There is one wait at most**: to be registered, registered, or over. -/
theorem Phase.one_wait (hdue : ¬(added = [] ∧ registered = [] ∧ fired = 0)) :
    ∃ k, (events = [] ∧ counts.Waiting inputs k c ∧ place = .waiting inputs k) ∧
      ((added = [q.wait inputs k] ∧ registered = [] ∧ fired = 0) ∨
        (added = [] ∧ registered = [q.wait inputs k] ∧ fired = 0) ∨
        (added = [] ∧ registered = [] ∧ fired = 1)) := by
  cases h with
  | added active h => exact ⟨_, ⟨rfl, h, rfl⟩, .inl ⟨rfl, rfl, rfl⟩⟩
  | registered active h => exact ⟨_, ⟨rfl, h, rfl⟩, .inr (.inl ⟨rfl, rfl, rfl⟩)⟩
  | fired active h => exact ⟨_, ⟨rfl, h, rfl⟩, .inr (.inr ⟨rfl, rfl, rfl⟩)⟩
  | rest h => exact absurd ⟨rfl, rfl, rfl⟩ hdue
  | start h => exact absurd ⟨rfl, rfl, rfl⟩ hdue
  | working h => exact absurd ⟨rfl, rfl, rfl⟩ hdue
  | starting h => exact absurd ⟨rfl, rfl, rfl⟩ hdue
  | external active h => exact absurd ⟨rfl, rfl, rfl⟩ hdue
  | eo h => exact absurd ⟨rfl, rfl, rfl⟩ hdue

/-- What is registered is waited for. -/
theorem Phase.waiting_of_registered (hne : registered ≠ []) :
    ∃ k, (events = [] ∧ counts.Waiting inputs k c ∧ place = .waiting inputs k) ∧
      added = [] ∧ registered = [q.wait inputs k] ∧ fired = 0 := by
  obtain ⟨k, hplace, ⟨-, hnil, -⟩ | hregistered | ⟨-, hnil, -⟩⟩ := h.one_wait fun hno => hne hno.2.1
  · exact absurd hnil hne
  · exact ⟨k, hplace, hregistered⟩
  · exact absurd hnil hne

/-- What is to be registered is waited for. -/
theorem Phase.waiting_of_added (hne : added ≠ []) :
    ∃ k, (events = [] ∧ counts.Waiting inputs k c ∧ place = .waiting inputs k) ∧
      added = [q.wait inputs k] ∧ registered = [] ∧ fired = 0 := by
  obtain ⟨k, hplace, hadded | ⟨hnil, -⟩ | ⟨hnil, -⟩⟩ := h.one_wait fun hno => hne hno.1
  · exact ⟨k, hplace, hadded⟩
  · exact absurd hnil hne
  · exact absurd hnil hne

/-- What has been started is waited for. -/
theorem Phase.waiting_of_fired (hne : fired ≠ 0) :
    ∃ k, (events = [] ∧ counts.Waiting inputs k c ∧ place = .waiting inputs k) ∧
      added = [] ∧ registered = [] ∧ fired = 1 := by
  obtain ⟨k, hplace, ⟨-, -, hnone⟩ | ⟨-, -, hnone⟩ | hfired⟩ :=
    h.one_wait fun hno => hne hno.2.2
  · exact absurd hnone hne
  · exact absurd hnone hne
  · exact ⟨k, hplace, hfired⟩

end Phase

/-- **The event that the sequence has come to** is executed. -/
theorem Goes.executeToken (h : Goes counts s place) {event : PacedEvent E}
    {pending : List (PacedEvent E)} (hpending : s.pending = event :: pending)
    (hstop : OfStop event = false) (inputs : Inputs) :
    ∃ place', Goes counts ({ s with pending }.executeEvent ctrl inputs event) place' := by
  obtain ⟨hfollow, hphase, hremoving, hinTick⟩ := h
  obtain ⟨c, conn, ⟨active, varDT, added, registered, removing, inTick, fired⟩, pending', log⟩ := s
  obtain rfl : pending' = event :: pending := hpending
  have htokens : tokens (event :: pending) = event :: tokens pending :=
    List.filter_cons_of_pos (by rw [hstop]; rfl)
  simp only [htokens] at hfollow hphase hremoving hinTick
  generalize hrest : tokens pending = rest at hphase
  have happend (events : List (PacedEvent E)) :
      tokens (pending ++ events) = rest ++ tokens events :=
    (tokens_append pending events).trans (by rw [hrest])
  -- besides those of `STOP`, the events say in which phase this is
  cases hphase with
  | start hsound =>
    refine ⟨q.before inputs 0, follow_concat_of hfollow rfl, ?_, hremoving, hinTick⟩
    rw [executeEvent, happend]
    exact .working (counts.onStart hsound inputs)
  | working hworking =>
    rename_i k e
    obtain ⟨c', events, hreceive, hevents⟩ := counts.receive hworking
    simp only [executeEvent, hreceive]
    -- the controller goes on, starts the delay, or has come to the end
    rcases hevents with ⟨e', rfl, hnext⟩ | ⟨rfl, hk, hnext⟩ | ⟨rfl, hk, hnext⟩
    · refine ⟨q.before conn k, hfollow, ?_, hremoving, hinTick⟩
      rw [happend]
      exact .working hnext
    · rw [Paced.Sequence.before, if_pos hk] at hfollow
      refine ⟨.due conn k, hfollow, ?_, hremoving, hinTick⟩
      rw [happend]
      exact .starting hnext
    · rw [Paced.Sequence.before, if_neg (by omega)] at hfollow
      refine ⟨.rest, hfollow, ?_, hremoving, hinTick⟩
      rw [happend]
      exact .rest hnext
  | starting hwaiting =>
    rename_i k
    simp only [executeEvent, executeDelay, Delay.receive_start, List.flatMap_singleton]
    refine ⟨.waiting conn k, follow_concat_of hfollow (if_pos (counts.dt hwaiting)), ?_,
      fun _ hne => absurd rfl hne, hinTick⟩
    rw [happend, counts.dt hwaiting]
    exact .added true hwaiting
  | external active hwaiting =>
    rename_i k
    simp only [executeEvent, executeDelay, Delay.receive_external, List.flatMap_singleton]
    refine ⟨.waiting conn k, by simpa [logged] using hfollow, ?_, fun _ _ => rfl, hinTick⟩
    rw [happend]
    exact .eo hwaiting
  | eo hwaiting =>
    rename_i k
    refine ⟨q.before conn (k + 1), follow_concat_of hfollow ?_, ?_, hremoving, hinTick⟩
    · exact if_pos (counts.cv hwaiting)
    · rw [executeEvent, hrest]
      exact .working (counts.onEO hwaiting)

/-- **A `STOP` goes to the delay**, which waits no more as far as it knows. -/
theorem Goes.executeStop (h : Goes counts s place) {event : PacedEvent E}
    {pending : List (PacedEvent E)} (hpending : s.pending = event :: pending)
    (hstop : OfStop event = true) (htick : event = .delayStop → s.delay.inTick = false)
    (inputs : Inputs) :
    Goes counts ({ s with pending }.executeEvent ctrl inputs event) place := by
  obtain ⟨hfollow, hphase, hremoving, hinTick⟩ := h
  have htokens : tokens s.pending = tokens pending := by
    rw [hpending, tokens, List.filter_cons_of_neg (by rw [hstop]; exact Bool.false_ne_true)]
    rfl
  rw [htokens] at hphase
  cases event with
  | stop =>
    refine ⟨hfollow, ?_, hremoving, hinTick⟩
    rw [executeEvent, tokens_append]
    simpa [tokens, OfStop] using hphase
  | delayStop =>
    simp only [executeEvent, executeDelay, Delay.receive_stop]
    refine ⟨by simpa using hfollow, by simpa using hphase.inactive, fun _ _ => rfl, ?_⟩
    intro hin
    exact absurd hin (by simpa using htick rfl)
  | start => cases hstop
  | controller event => cases hstop
  | delayStart => cases hstop
  | external => cases hstop
  | eo => cases hstop

/-- The timer handler takes out what has been told to stop. -/
theorem Goes.processRemoveList (h : Goes counts s place) :
    ∃ place', Goes counts (s.step ctrl (.timer .processRemoveList)) place' := by
  obtain ⟨hfollow, hphase, hremoving, hinTick⟩ := h
  have hinTick' := Delay.inTick_tick hinTick .processRemoveList
  cases hin : s.delay.inTick with
  | true =>
    refine ⟨place, ?_, ?_, ?_, hinTick'⟩
    · simpa [step, Delay.stops, hin] using hfollow
    · simpa [step, Delay.tick, hin] using hphase
    · simpa [step, Delay.tick, hin] using hremoving
  | false =>
    have htick : s.delay.tick .processRemoveList = s.delay.processRemoveList := by
      simp [Delay.tick, hin]
    by_cases hstopped : s.delay.removing = true ∧ s.delay.registered ≠ []
    · -- the delay is registered no more
      obtain ⟨k, ⟨hevents, hwaiting, rfl⟩, hadded, hregistered, hfired⟩ :=
        hphase.waiting_of_registered hstopped.2
      have hstops : s.delay.stops .processRemoveList = true := by
        simp [Delay.stops, hin, hstopped.1, hregistered]
      refine ⟨.rest, ?_, ?_, ?_, hinTick'⟩
      · simp only [step, hstops, if_true]
        exact follow_concat_of hfollow rfl
      · simp only [step, htick, Delay.processRemoveList, hstopped.1, if_true, hevents, hadded,
          hfired, hremoving hstopped.1 hstopped.2]
        exact .rest (counts.sound hwaiting)
      · simp [step, htick, Delay.processRemoveList]
    · have hregistered : (if s.delay.removing then [] else s.delay.registered) =
          s.delay.registered := by
        split
        · rename_i hremove
          exact (not_not.mp fun hne => hstopped ⟨hremove, hne⟩).symm
        · rfl
      have hstops : s.delay.stops .processRemoveList = false := by
        simpa [Delay.stops, hin] using hstopped
      refine ⟨place, ?_, ?_, ?_, hinTick'⟩
      · simpa [step, hstops] using hfollow
      · simp only [step, htick, Delay.processRemoveList, hregistered]
        exact hphase
      · simp [step, htick, Delay.processRemoveList]

/-- An interval is over. -/
theorem Goes.trigger (h : Goes counts s place) (i : ℕ) :
    Goes counts (s.step ctrl (.timer (.trigger i))) place := by
  obtain ⟨hfollow, hphase, hremoving, hinTick⟩ := h
  refine ⟨by simpa [step, Delay.stops] using hfollow, ?_, ?_, Delay.inTick_tick hinTick _⟩
  · simp only [step, Delay.tick]
    split
    · rename_i htriggered
      have hne : s.delay.registered ≠ [] := by
        intro hnil
        simp [hnil] at htriggered
      obtain ⟨k, ⟨hevents, hwaiting, rfl⟩, hadded, hregistered, hfired⟩ :=
        hphase.waiting_of_registered hne
      -- no other interval is registered
      obtain rfl : i = 0 := by
        rw [hregistered, List.length_singleton] at htriggered
        omega
      simp only [Delay.trigger, hevents, hadded, hregistered, hfired]
      exact .fired _ hwaiting
    · exact hphase
  · simp only [step, Delay.tick]
    split
    · intro hremove hne
      refine hremoving hremove fun hnil => hne ?_
      simp [Delay.trigger, hnil]
    · exact hremoving

/-- What is new comes into the list of the timer handler. -/
theorem Goes.processAddList (h : Goes counts s place) (due : ℕ → Bool) :
    Goes counts (s.step ctrl (.timer (.processAddList due))) place := by
  obtain ⟨hfollow, hphase, hremoving, hinTick⟩ := h
  refine ⟨by simpa [step, Delay.stops] using hfollow, ?_, ?_, Delay.inTick_tick hinTick _⟩
  · simp only [step, Delay.tick]
    split
    · by_cases hnil : s.delay.added = []
      · simpa [Delay.processAddList, hnil] using hphase
      · obtain ⟨k, ⟨hevents, hwaiting, rfl⟩, hadded, hregistered, hfired⟩ :=
          hphase.waiting_of_added hnil
        cases hdue : due 0 with
        | true =>
          simp only [Delay.processAddList, hevents, hadded, hregistered, hfired]
          simpa [hdue] using Phase.fired s.delay.active hwaiting
        | false =>
          simp only [Delay.processAddList, hevents, hadded, hregistered, hfired]
          simpa [hdue] using Phase.registered s.delay.active hwaiting
    · exact hphase
  · simp only [step, Delay.tick]
    split
    · rename_i hin
      exact fun hremove => absurd hremove (by simp [Delay.processAddList, hinTick hin])
    · exact hremoving

theorem Goes.transfer (h : Goes counts s place) : Goes counts (s.step ctrl .transfer) place := by
  simp only [step]
  split
  · rename_i hpos
    obtain ⟨hfollow, hphase, hremoving, hinTick⟩ := h
    obtain ⟨k, ⟨hevents, hwaiting, rfl⟩, hadded, hregistered, hfired⟩ :=
      hphase.waiting_of_fired (by omega)
    refine ⟨hfollow, ?_, hremoving, hinTick⟩
    simp only [tokens_append, hevents, hadded, hregistered, hfired]
    exact .external _ hwaiting
  · exact h

theorem Phase.rest_of_resting {c : C} {inputs : Inputs} {active : Bool}
    (h : Phase counts [] active [] [] 0 c inputs place) :
    place = .rest ∧ active = false ∧ counts.Sound c := by
  cases h with
  | rest h => exact ⟨rfl, rfl, h⟩

theorem Goes.rest_of_resting (h : Goes counts s place) (hresting : s.Resting) :
    place = .rest ∧ s.delay.active = false ∧ counts.Sound s.controller := by
  obtain ⟨hpending, hadded, hregistered, hfired⟩ := hresting
  have hphase := h.phase
  rw [hpending, hadded, hregistered, hfired] at hphase
  exact hphase.rest_of_resting

/-- **What a step keeps.** -/
theorem Goes.step (h : Goes counts s place) {action : Action Inputs} (ha : s.Orderly action) :
    ∃ place', Goes counts (s.step ctrl action) place' := by
  cases action with
  | start =>
    obtain ⟨rfl, hactive, hsound⟩ := h.rest_of_resting ha
    obtain ⟨hpending, hadded, hregistered, hfired⟩ := ha
    refine ⟨.rest, h.follow, ?_, h.removing, h.inTick⟩
    simp only [PacedFB.step, hpending, hadded, hregistered, hfired, hactive]
    exact .start hsound
  | stop =>
    refine ⟨place, h.follow, ?_, h.removing, h.inTick⟩
    simpa [PacedFB.step, tokens, OfStop] using h.phase
  | execute inputs =>
    simp only [PacedFB.step]
    split
    · exact ⟨place, h⟩
    · rename_i event pending hpending
      cases hstop : OfStop event with
      | true =>
        refine ⟨place, h.executeStop hpending hstop (fun heq => ha ?_) inputs⟩
        rw [hpending, heq]
        rfl
      | false => exact h.executeToken hpending hstop inputs
  | transfer => exact ⟨place, h.transfer⟩
  | timer action =>
    cases action with
    | processRemoveList => exact h.processRemoveList
    | trigger i => exact ⟨place, h.trigger i⟩
    | processAddList due => exact ⟨place, h.processAddList due⟩

variable (counts) in
/-- **What a run keeps.** -/
theorem goes_run (inputs : Inputs) {actions : List (Action Inputs)}
    (h : Runs.Each (PacedFB.step ctrl) Orderly (created ctrl inputs) actions) :
    ∃ place, Goes counts (Runs.run (PacedFB.step ctrl) (created ctrl inputs) actions) place := by
  have hstep : ∀ s action, (∃ place, Goes counts s place) → Orderly s action →
      ∃ place, Goes counts (s.step ctrl action) place :=
    fun s action hgood hcond => hgood.elim fun place h => h.step hcond
  refine Runs.good_run hstep ⟨.rest, rfl, ?_, ?_, ?_⟩ h
  · exact .rest counts.created
  · exact fun _ hne => absurd rfl hne
  · exact fun _ => rfl

/-- **At rest the log is that of complete sequences**, if nothing was stopped. -/
theorem complete_of_resting (counts : ctrl.Counts q) (inputs : Inputs)
    {actions : List (Action Inputs)}
    (h : Runs.Each (PacedFB.step ctrl) Orderly (created ctrl inputs) actions) :
    let s := Runs.run (PacedFB.step ctrl) (created ctrl inputs) actions
    (∃ place, q.follow s.log = some place) ∧
      (s.Resting → .stopped ∉ s.log →
        ∃ starts : List Inputs, s.log = starts.flatMap q.complete) := by
  obtain ⟨place, hgoes⟩ := goes_run counts inputs h
  refine ⟨⟨place, hgoes.follow⟩, fun hresting hstopped => ?_⟩
  obtain ⟨rfl, -, -⟩ := hgoes.rest_of_resting hresting
  exact Paced.reads_of_follow hstopped hgoes.follow

end PacedFB

end Forte
