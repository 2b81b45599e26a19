import Forte.Execution.DelayTimer
import Forte.Execution.EdgeTriggers

/-!
# Composite function blocks for pulses

`E_PULSE` and `E_TP` set their output `Q` and reset it an interval later: an `E_DELAY` is started
together with an `E_SR` or `E_RS` being set, and resets it with its `EO`. `E_PULSE` does so for
every `REQ`, and `E_TP` for a rising edge at `IN`; `R` stops the delay and resets the output.

All of this goes through the event list, and events may come at any time: while the delay has been
told to stop, while its external event is already on its way, or while it has been set but not
been started. A pulse can become shorter by this. But it does not stay: when nothing is left to
do, `Q` is reset, and what has been published is this (`Forte.PulseFB.pulse_ends`). The one thing
that must not happen is that the delay is unregistered during a tick.
-/

namespace Forte

/-! ### The flip-flop -/

/-- The states of `E_SR` and of `E_RS`. -/
inductive SRState
  | start | set | reset
  deriving DecidableEq

/-- The event inputs of `E_SR` and of `E_RS`. -/
inductive SREvent
  | s | r
  deriving DecidableEq

/-- `FORTE_E_SR`, which sends `EO` with `Q`. -/
def eSR : BasicFB SRState SREvent Bool Unit Bool where
  initial := .start
  transitions
    | .start | .reset => [⟨some .s, fun _ => true, .set⟩]
    | .set => [⟨some .r, fun _ => true, .reset⟩]
  enterState
    | .start, q => (q, [])
    | .set, _ => (true, [true])
    | .reset, _ => (false, [false])
  rank _ := 0
  rank_lt s := by cases s <;> simp
  initialValues := false
  readInputData _ _ q := q

/-- `FORTE_E_RS`, which has the same chart. -/
def eRS : BasicFB SRState SREvent Bool Unit Bool := eSR

/-- The flip-flop shows what it has been told. -/
def SRHolds (s : Option SRState × Bool) (q : Bool) : Prop :=
  ∃ state, s = (some state, q) ∧ (state = .set ↔ q = true)

/-- What an event tells the flip-flop. -/
def SREvent.value : SREvent → Bool
  | .s => true
  | .r => false

/-- **The flip-flop** does what it is told, and sends `EO` when it changes. -/
theorem SRHolds.receive {s : Option SRState × Bool} {q : Bool} (h : SRHolds s q)
    (event : SREvent) :
    ∃ s', eSR.receiveInputEvent s (event, ()) =
      (s', if event.value = q then [] else [event.value]) ∧ SRHolds s' event.value := by
  obtain ⟨state, rfl, hstate⟩ := h
  cases state with
  | start =>
    obtain rfl : q = false := by simpa using hstate
    cases event with
    | s => exact ⟨_, rfl, .set, rfl, by decide⟩
    | r => exact ⟨_, rfl, .start, rfl, by decide⟩
  | set =>
    obtain rfl : q = true := by simpa using hstate
    cases event with
    | s => exact ⟨_, rfl, .set, rfl, by decide⟩
    | r => exact ⟨_, rfl, .reset, rfl, by decide⟩
  | reset =>
    obtain rfl : q = false := by simpa using hstate
    cases event with
    | s => exact ⟨_, rfl, .set, rfl, by decide⟩
    | r => exact ⟨_, rfl, .reset, rfl, by decide⟩

/-! ### The composite function blocks -/

/-- The composite function blocks for pulses. -/
inductive PulseType
  | ePulse
  | eTP
  deriving DecidableEq

/-- The events of the composite function block that are in the event list. -/
inductive PulseEvent
  | req
  | r
  /-- An event of the `E_R_TRIG` in `E_TP`. -/
  | trig (event : EdgeEvent TrigOutput)
  | delayStart
  | delayStop
  /-- The external event of the delay. -/
  | external
  | sr (event : SREvent)
  /-- The event output `CNF`. -/
  | cnf
  deriving DecidableEq

/-- A composite function block for pulses, and of the event list its events. -/
structure PulseFB where
  /-- The connection from `IN`, in `E_TP`. -/
  connIN : Bool
  /-- The connection from `PT`. -/
  connPT : BitVec 64
  trig : EdgeTrigger TrigOutput
  delay : Delay
  sr : Option SRState × Bool
  /-- The output of the flip-flop. -/
  srQ : Bool
  pending : List PulseEvent
  /-- The output `Q`. -/
  q : Bool

/-- Where the pulses of a type come from, in the order of its connections: those of `REQ` in
`E_PULSE`, and in `E_TP` those of the `E_R_TRIG`. -/
def PulseType.pulse : PulseType → List PulseEvent
  | ePulse => [.delayStart, .sr .s]
  | eTP => [.sr .s, .delayStart]

namespace PulseFB

/-- What happens to the function block. -/
inductive Action
  | req
  | r
  /-- The first of its events is executed, with what is at its inputs. -/
  | execute (varIN : Bool) (pt : BitVec 64)
  /-- An external event comes into the event list. -/
  | transfer
  | timer (action : Delay.TimerAction)

/-- A function block as it is created. -/
def created : PulseFB :=
  ⟨false, 0, .created, .created, eSR.created, false, [], false⟩

/-- The delay receives an event; its `EO` goes to the flip-flop. -/
def executeDelay (s : PulseFB) (eiid : ℕ) : PulseFB :=
  let (delay, outputs) := s.delay.receiveInputEvent eiid s.connPT
  { s with
    delay
    pending := s.pending ++ outputs.flatMap fun
      | .eo => [.sr .r]
      | .wait _ => [] }

/-- The flip-flop receives an event, and its `EO` goes to `CNF`. -/
def executeSR (s : PulseFB) (event : SREvent) : PulseFB :=
  let (sr, outputs) := eSR.receiveInputEvent s.sr (event, ())
  { s with
    sr
    srQ := outputs.getLast?.getD s.srQ
    pending := s.pending ++ outputs.map fun _ => .cnf }

/-- What is connected to an event of the `E_R_TRIG`. -/
def behindTrig (type : PulseType) : EdgeEvent TrigOutput → List PulseEvent
  | .eo _ => type.pulse
  | .ei | .clk | .switchEI => []

/-- An event is executed. -/
def executeEvent (type : PulseType) (s : PulseFB) (varIN : Bool) (pt : BitVec 64) :
    PulseEvent → PulseFB
  | .req =>
    { s with
      connIN := varIN
      connPT := pt
      pending := s.pending ++ match type with
        | .ePulse => type.pulse
        | .eTP => [.trig .ei] }
  | .r => { s with pending := s.pending ++ [.delayStop, .sr .r] }
  | .trig event =>
    let trig := { s.trig with pending := [] }.executeEvent eRTrig s.connIN event
    { s with trig, pending := s.pending ++ (trig.pending.map .trig ++ behindTrig type event) }
  | .delayStart => s.executeDelay DelayFB.eventSTARTID
  | .delayStop => s.executeDelay DelayFB.eventSTOPID
  | .external => s.executeDelay externalEventID
  | .sr event => s.executeSR event
  | .cnf => { s with q := s.srQ }

/-- One step; a step that cannot be taken has no effect. -/
def step (type : PulseType) (s : PulseFB) : Action → PulseFB
  | .req => { s with pending := s.pending ++ [.req] }
  | .r => { s with pending := s.pending ++ [.r] }
  | .execute varIN pt =>
    match s.pending with
    | [] => s
    | event :: pending => { s with pending }.executeEvent type varIN pt event
  | .transfer =>
    if 0 < s.delay.fired then
      { s with
        delay := { s.delay with fired := s.delay.fired - 1 }
        pending := s.pending ++ [.external] }
    else s
  | .timer action => { s with delay := s.delay.tick action }

/-- There is nothing to do. -/
def Resting (s : PulseFB) : Prop := s.pending = [] ∧ s.delay.Resting

instance (s : PulseFB) : Decidable s.Resting := inferInstanceAs (Decidable (_ ∧ _))

/-- When a step is as it should be: `STOP` does not reach the delay during a tick. -/
def Orderly (s : PulseFB) : Action → Prop
  | .execute _ _ => s.pending.head? = some .delayStop → s.delay.inTick = false
  | _ => True

instance (s : PulseFB) (action : Action) : Decidable (s.Orderly action) :=
  match action with
  | .execute _ _ =>
    inferInstanceAs (Decidable (s.pending.head? = some .delayStop → s.delay.inTick = false))
  | .req | .r | .transfer | .timer _ => .isTrue trivial

/-! ### What is in the event list -/

/-- The event is not one of those that come in pairs. -/
def Single : PulseEvent → Bool
  | .sr .s | .delayStart | .delayStop => false
  | _ => true

/-- Events that have come in pairs: with each setting of the flip-flop a start of the delay, and
with each stop of the delay a reset of the flip-flop. -/
inductive InPairs (type : PulseType) : List PulseEvent → Prop
  | nil : InPairs type []
  | pulse {events} (h : InPairs type events) : InPairs type (type.pulse ++ events)
  | stop {events} (h : InPairs type events) : InPairs type (.delayStop :: .sr .r :: events)
  | single {event events} (hevent : Single event = true) (h : InPairs type events) :
    InPairs type (event :: events)

variable {type : PulseType} {events : List PulseEvent} {s : PulseFB}

theorem InPairs.append (h : InPairs type events) {events' : List PulseEvent}
    (h' : InPairs type events') : InPairs type (events ++ events') := by
  induction h with
  | nil => exact h'
  | pulse _ ih =>
    rw [List.append_assoc]
    exact ih.pulse
  | stop _ ih => exact ih.stop
  | single hevent _ ih => exact .single hevent ih

theorem inPairs_pulse (type : PulseType) : InPairs type type.pulse := by
  have h : InPairs type (type.pulse ++ []) := InPairs.nil.pulse
  rwa [List.append_nil] at h

/-- What the flip-flop will show when the events have been executed. -/
def shown : Bool → List PulseEvent → Bool
  | q, [] => q
  | _, .sr event :: events => shown event.value events
  | q, _ :: events => shown q events

theorem shown_append (q : Bool) (events events' : List PulseEvent) :
    shown q (events ++ events') = shown (shown q events) events' := by
  induction events generalizing q with
  | nil => rfl
  | cons event events ih =>
    cases event with
    | sr event => exact ih event.value
    | req | r | trig event | delayStart | delayStop | external | cnf => exact ih q

theorem shown_of_not_mem (h : .sr .r ∉ events) : shown true events = true := by
  induction events with
  | nil => rfl
  | cons event events ih =>
    obtain ⟨hne, htail⟩ := List.ne_and_not_mem_of_not_mem_cons h
    cases event with
    | sr event =>
      cases event with
      | s => exact ih htail
      | r => exact absurd rfl hne
    | req | r | trig event | delayStart | delayStop | external | cnf => exact ih htail

/-- **What is going to be set has the delay going to be started.** -/
theorem InPairs.start_mem (h : InPairs type events) (hshown : shown false events = true) :
    .delayStart ∈ events := by
  induction h with
  | nil => cases hshown
  | pulse _ _ => cases type <;> simp [PulseType.pulse]
  | stop _ ih =>
    have hmem := ih hshown
    simp [hmem]
  | @single event events hevent _ ih =>
    refine List.mem_cons_of_mem _ (ih ?_)
    cases event with
    | sr event =>
      cases event with
      | s => cases hevent
      | r => exact hshown
    | req | r | trig event | delayStart | delayStop | external | cnf => exact hshown

/-- Events in pairs, of the first of which one may have been executed. -/
def Paired (type : PulseType) (pending : List PulseEvent) : Prop :=
  InPairs type pending ∨ ∃ events, InPairs type events ∧ pending = type.pulse.tail ++ events

theorem Paired.append (h : Paired type events) {events' : List PulseEvent}
    (h' : InPairs type events') : Paired type (events ++ events') := by
  rcases h with h | ⟨rest, h, rfl⟩
  · exact .inl (h.append h')
  · exact .inr ⟨rest ++ events', h.append h', List.append_assoc ..⟩

/-- The first event is executed: the other one of its pair is the next one. -/
theorem Paired.tail {event : PulseEvent} (h : Paired type (event :: events)) :
    Paired type events ∧
      (event = .delayStop → ∃ rest, events = .sr .r :: rest ∧ InPairs type rest) := by
  rcases h with h | ⟨rest, h, heq⟩
  · generalize hpending : event :: events = pending at h
    cases h with
    | nil => cases hpending
    | @pulse rest h =>
      obtain ⟨hevent, htail⟩ : event = type.pulse.head? ∧ events = type.pulse.tail ++ rest := by
        cases type <;> simpa [PulseType.pulse] using hpending
      refine ⟨.inr ⟨rest, h, htail⟩, ?_⟩
      rintro rfl
      cases type <;> simp [PulseType.pulse] at hevent
    | @stop rest h =>
      obtain ⟨rfl, rfl⟩ := List.cons.inj hpending
      exact ⟨.inl (.single rfl h), fun _ => ⟨rest, rfl, h⟩⟩
    | @single event' rest hevent h =>
      obtain ⟨rfl, rfl⟩ := List.cons.inj hpending
      exact ⟨.inl h, fun heq => absurd hevent (by rw [heq]; decide)⟩
  · -- the other one of a pulse
    obtain ⟨hne, rfl⟩ : event ≠ .delayStop ∧ events = rest := by
      cases type <;> simp_all [PulseType.pulse]
    exact ⟨.inl h, fun heq => absurd heq hne⟩

/-! ### What is still to come -/

/-- **A pulse that has been begun is going to end.** -/
structure Live (type : PulseType) (s : PulseFB) : Prop where
  sr : SRHolds s.sr s.srQ
  pending : Paired type s.pending
  /-- The delay knows only of what is to come. -/
  active : s.delay.active = true → s.delay.Due ∨ .external ∈ s.pending
  /-- What is set is going to be reset. -/
  ends : shown s.srQ s.pending = true →
    s.delay.Due ∨ .external ∈ s.pending ∨ .delayStart ∈ s.pending
  inTick : s.delay.inTick = true → s.delay.removing = false
  published : .cnf ∈ s.pending ∨ s.q = s.srQ

theorem Live.of_append (h : Live type s) {events : List PulseEvent} (hpairs : InPairs type events)
    (hends : shown (shown s.srQ s.pending) events = true →
      shown s.srQ s.pending = true ∨ .delayStart ∈ events) :
    Live type { s with pending := s.pending ++ events } := by
  refine ⟨h.sr, h.pending.append hpairs, fun hactive => ?_, fun hshown => ?_, h.inTick, ?_⟩
  · exact (h.active hactive).imp_right (List.mem_append_left _)
  · rw [shown_append] at hshown
    rcases hends hshown with hbefore | hstart
    · exact (h.ends hbefore).imp_right (Or.imp (List.mem_append_left _) (List.mem_append_left _))
    · exact .inr (.inr (List.mem_append_right _ hstart))
  · exact h.published.imp_left (List.mem_append_left _)

/-- The event concerns neither the delay nor the flip-flop. -/
def Outer : PulseEvent → Prop
  | .req | .r | .trig _ => True
  | .delayStart | .delayStop | .external | .sr _ | .cnf => False

/-- Such an event has been taken out of the event list. -/
theorem Live.of_outer (h : Live type s) {event : PulseEvent}
    (hpending : s.pending = event :: events) (houter : Outer event) (connIN : Bool)
    (connPT : BitVec 64) (trig : EdgeTrigger TrigOutput) :
    Live type { s with connIN, connPT, trig, pending := events } := by
  obtain ⟨hsr, hpaired, hactive, hends, hinTick, hpublished⟩ := h
  rw [hpending] at hpaired hactive hends hpublished
  cases event with
  | req | r | trig event =>
    exact ⟨hsr, hpaired.tail.1, by simpa using hactive, by simpa [shown] using hends, hinTick,
      by simpa using hpublished⟩
  | delayStart | delayStop | external | sr _ | cnf => exact houter.elim

/-- The delay is started, unless it runs. -/
theorem Live.delayStart (h : Live type s) (hpending : s.pending = .delayStart :: events) :
    Live type ({ s with pending := events }.executeDelay DelayFB.eventSTARTID) := by
  obtain ⟨hsr, hpaired, hactive, hends, hinTick, hpublished⟩ := h
  rw [hpending] at hpaired hactive hpublished
  have hpublished' : .cnf ∈ events ∨ s.q = s.srQ := by simpa using hpublished
  cases hrunning : s.delay.active with
  | true =>
    -- the end of the last pulse will be that of this one
    have hdue : s.delay.Due ∨ .external ∈ events := by simpa using hactive hrunning
    simp only [executeDelay, Delay.receive_start_of_active hrunning, List.flatMap_nil,
      List.append_nil]
    exact ⟨hsr, hpaired.tail.1, fun _ => hdue, fun _ => hdue.imp_right .inl, hinTick, hpublished'⟩
  | false =>
    have hdue : ({ s.delay with
        active := true, varDT := s.connPT, added := s.delay.added ++ [s.connPT] } : Delay).Due :=
      .inl (by simp)
    simp only [executeDelay, Delay.receive_start hrunning, List.flatMap_singleton, List.append_nil]
    exact ⟨hsr, hpaired.tail.1, fun _ => .inl hdue, fun _ => .inl hdue, hinTick, hpublished'⟩

/-- The delay is stopped, and the flip-flop is reset next. -/
theorem Live.delayStop (h : Live type s) (hpending : s.pending = .delayStop :: events)
    (htick : s.delay.inTick = false) :
    Live type ({ s with pending := events }.executeDelay DelayFB.eventSTOPID) := by
  obtain ⟨hsr, hpaired, -, -, -, hpublished⟩ := h
  rw [hpending] at hpaired hpublished
  obtain ⟨htail, hreset⟩ := hpaired.tail
  obtain ⟨rest, rfl, hrest⟩ := hreset rfl
  simp only [executeDelay, Delay.receive_stop, List.flatMap_nil, List.append_nil]
  refine ⟨hsr, htail, fun hfalse => absurd hfalse Bool.false_ne_true, fun hshown => ?_,
    fun hin => absurd hin (by simp [htick]), by simpa using hpublished⟩
  -- what sets the flip-flop after this starts the delay, too
  exact .inr (.inr (List.mem_cons_of_mem _ (hrest.start_mem hshown)))

/-- The interval is over, and the flip-flop will be reset. -/
theorem Live.external (h : Live type s) (hpending : s.pending = .external :: events) :
    Live type ({ s with pending := events }.executeDelay externalEventID) := by
  obtain ⟨hsr, hpaired, -, -, hinTick, hpublished⟩ := h
  rw [hpending] at hpaired hpublished
  simp only [executeDelay, Delay.receive_external, List.flatMap_singleton]
  refine ⟨hsr, hpaired.tail.1.append (.single rfl .nil),
    fun hfalse => absurd hfalse Bool.false_ne_true, fun hshown => ?_, hinTick,
    by simpa using hpublished⟩
  rw [shown_append] at hshown
  cases hshown

/-- The flip-flop is set or reset, and the change is going to be published. -/
theorem Live.executeSR (h : Live type s) {event : SREvent}
    (hpending : s.pending = .sr event :: events) :
    Live type ({ s with pending := events }.executeSR event) := by
  obtain ⟨hsr, hpaired, hactive, hends, hinTick, hpublished⟩ := h
  rw [hpending] at hpaired hactive hends hpublished
  have htail := hpaired.tail.1
  have hactive' : s.delay.active = true → s.delay.Due ∨ .external ∈ events := by simpa using hactive
  have hends' : shown event.value events = true →
      s.delay.Due ∨ .external ∈ events ∨ .delayStart ∈ events := by simpa [shown] using hends
  obtain ⟨s', hreceive, hholds⟩ := hsr.receive event
  simp only [PulseFB.executeSR, hreceive]
  by_cases hsame : event.value = s.srQ
  · rw [hsame] at hends' hholds
    simp only [if_pos hsame, List.map_nil, List.append_nil]
    exact ⟨hholds, htail, hactive', hends', hinTick, by simpa using hpublished⟩
  · simp only [if_neg hsame, List.map_cons, List.map_nil]
    refine ⟨hholds, htail.append (.single rfl .nil), fun hact => ?_, fun hshown => ?_, hinTick,
      .inl (by simp)⟩
    · exact (hactive' hact).imp_right (List.mem_append_left _)
    · rw [shown_append] at hshown
      exact (hends' hshown).imp_right (Or.imp (List.mem_append_left _) (List.mem_append_left _))

/-- What the flip-flop shows is published. -/
theorem Live.cnf (h : Live type s) (hpending : s.pending = .cnf :: events) :
    Live type { s with pending := events, q := s.srQ } := by
  obtain ⟨hsr, hpaired, hactive, hends, hinTick, -⟩ := h
  rw [hpending] at hpaired hactive hends
  exact ⟨hsr, hpaired.tail.1, by simpa using hactive, by simpa [shown] using hends, hinTick,
    .inr rfl⟩

theorem inPairs_trig (events : List (EdgeEvent TrigOutput)) :
    InPairs type (events.map .trig) := by
  induction events with
  | nil => exact .nil
  | cons event events ih => exact .single rfl ih

theorem shown_trig (q : Bool) (events : List (EdgeEvent TrigOutput)) :
    shown q (events.map .trig) = q := by
  induction events with
  | nil => rfl
  | cons event events ih => exact ih

/-- **What the execution of an event keeps.** -/
theorem Live.executeEvent (h : Live type s) {event : PulseEvent}
    (hpending : s.pending = event :: events) (htick : event = .delayStop → s.delay.inTick = false)
    (varIN : Bool) (pt : BitVec 64) :
    Live type ({ s with pending := events }.executeEvent type varIN pt event) := by
  cases event with
  | req =>
    have hrest := h.of_outer hpending trivial varIN pt s.trig
    cases type with
    | ePulse => exact hrest.of_append (inPairs_pulse _) fun _ => .inr (by decide)
    | eTP => exact hrest.of_append (.single rfl .nil) .inl
  | r =>
    have hrest := h.of_outer hpending trivial s.connIN s.connPT s.trig
    exact hrest.of_append InPairs.nil.stop fun hfalse => absurd hfalse Bool.false_ne_true
  | trig event =>
    have hrest := h.of_outer hpending trivial s.connIN s.connPT
      ({ s.trig with pending := [] }.executeEvent eRTrig s.connIN event)
    have htrig : InPairs type
        (({ s.trig with pending := [] }.executeEvent eRTrig s.connIN event).pending.map .trig) :=
      inPairs_trig _
    cases event with
    | eo output =>
      -- a rising edge begins a pulse
      exact hrest.of_append (htrig.append (inPairs_pulse type)) fun _ => .inr (by
        cases type <;> simp [behindTrig, PulseType.pulse])
    | ei | clk | switchEI =>
      refine hrest.of_append (htrig.append .nil) fun hshown => .inl ?_
      rwa [shown_append, shown_trig] at hshown
  | delayStart => exact h.delayStart hpending
  | delayStop => exact h.delayStop hpending (htick rfl)
  | external => exact h.external hpending
  | sr event => exact h.executeSR hpending
  | cnf => exact h.cnf hpending

theorem Live.transfer (h : Live type s) : Live type (s.step type .transfer) := by
  simp only [step]
  split
  · obtain ⟨hsr, hpaired, -, -, hinTick, hpublished⟩ := h
    exact ⟨hsr, hpaired.append (.single rfl .nil), fun _ => .inr (by simp),
      fun _ => .inr (.inl (by simp)), hinTick, hpublished.imp_left (List.mem_append_left _)⟩
  · exact h

/-- **What a step keeps.** -/
theorem Live.step (h : Live type s) {action : Action} (ha : s.Orderly action) :
    Live type (s.step type action) := by
  cases action with
  | req => exact h.of_append (.single rfl .nil) .inl
  | r => exact h.of_append (.single rfl .nil) .inl
  | execute varIN pt =>
    simp only [PulseFB.step]
    split
    · exact h
    · rename_i event pending hpending
      refine h.executeEvent hpending (fun heq => ha ?_) varIN pt
      rw [hpending, heq]
      rfl
  | transfer => exact h.transfer
  | timer action =>
    obtain ⟨hsr, hpaired, hactive, hends, hinTick, hpublished⟩ := h
    have hkept := fun hdue : s.delay.Due => hdue.tick hinTick action
    refine ⟨hsr, hpaired, fun hact => (hactive ?_).imp_left hkept,
      fun hshown => (hends hshown).imp_left hkept, Delay.inTick_tick hinTick action, hpublished⟩
    exact (Delay.active_tick action).symm.trans hact

theorem live_created : Live type created where
  sr := ⟨.start, rfl, by decide⟩
  pending := .inl .nil
  active hactive := absurd hactive Bool.false_ne_true
  ends hshown := absurd hshown Bool.false_ne_true
  inTick _ := rfl
  published := .inr rfl

/-- **A pulse ends**: whatever `REQ` and `R` come, and in every order of the steps of the two
threads in which `STOP` does not reach the delay during a tick, the flip-flop is reset when there
is nothing left to do, and this has been published; and as long as it is set, the external event
of the delay is still to come, or one of the events that are waiting is a start of the delay or a
reset. -/
theorem pulse_ends {actions : List Action}
    (h : Runs.Each (PulseFB.step type) Orderly created actions) :
    let s := Runs.run (PulseFB.step type) created actions
    (s.Resting → s.srQ = false ∧ s.q = false) ∧
      (s.srQ = true → s.delay.Due ∨ .external ∈ s.pending ∨ .delayStart ∈ s.pending ∨
        .sr .r ∈ s.pending) := by
  intro s
  have hlive : Live type s := Runs.good_run (fun _ _ hs ha => hs.step ha) live_created h
  constructor
  · rintro ⟨hpending, hresting⟩
    have hends := hlive.ends
    have hpublished := hlive.published
    rw [hpending] at hends hpublished
    have hq : s.srQ = false := by
      by_contra hne
      rcases hends (by simpa [shown] using hne) with hdue | hmem | hmem
      · exact hdue.not_resting hresting
      · exact absurd hmem List.not_mem_nil
      · exact absurd hmem List.not_mem_nil
    refine ⟨hq, ?_⟩
    rw [← hq]
    exact hpublished.resolve_left List.not_mem_nil
  · intro hq
    by_cases hreset : .sr .r ∈ s.pending
    · exact .inr (.inr (.inr hreset))
    · have hshown : shown s.srQ s.pending = true := by
        rw [hq]
        exact shown_of_not_mem hreset
      rcases hlive.ends hshown with hdue | hmem | hmem
      · exact .inl hdue
      · exact .inr (.inl hmem)
      · exact .inr (.inr (.inl hmem))

/-- A pulse of `E_PULSE`, which has been published before it ends. -/
theorem pulse_ends_once :
    let begun := [.req] ++ List.replicate 4 (.execute false 5)
    let rest := [.timer .processRemoveList, .timer (.processAddList fun _ => false),
      .timer .processRemoveList, .timer (.trigger 0), .timer (.processAddList fun _ => false),
      .transfer] ++ List.replicate 3 (.execute false 5)
    (Runs.run (PulseFB.step .ePulse) created begun).q = true ∧
      (Runs.run (PulseFB.step .ePulse) created (begun ++ rest)).q = false := by
  intro begun rest
  have horderly : Runs.Each (PulseFB.step .ePulse) Orderly created (begun ++ rest) := by decide
  exact ⟨by decide, ((pulse_ends horderly).1 (by decide)).2⟩

/-- A pulse that begins in the tick in which the one before it was stopped goes on for ever. -/
example :
    let s := Runs.run (PulseFB.step .ePulse) created ([.req] ++
      List.replicate 4 (.execute false 5) ++ [.timer .processRemoveList, .r] ++
      List.replicate 4 (.execute false 5) ++ [.req] ++ List.replicate 4 (.execute false 5) ++
      [.timer (.processAddList fun _ => false), .timer .processRemoveList,
        .timer (.processAddList fun _ => false)])
    s.Resting ∧ s.q = true := by decide

end PulseFB

end Forte
