import Mathlib.Data.List.Count
import Forte.Lib.Runs
import Forte.Execution.EventChain
import Forte.Execution.TimerExactness

/-!
# Delay function blocks

`E_DELAY` and `E_RDELAY` send `EO` an interval after `START`, unless `STOP` comes before. They
register with the timer handler, which starts an event chain with their external event when the
interval has passed, and the event chain execution delivers this event as it delivers the
others. The function block knows of all this only the flag `mActive`, and sends `EO` whenever it
receives the external event.

A cancellation therefore has to reach what is under way, and `unregisterTimedFB` only takes out
what is in the list of the timer handler when the next tick begins. It misses a registration made
since the last tick, an entry that is due in the tick in progress, and an external event that has
been started (`Forte.DelayFB.Cancellable`). In runs where this does not happen, and where
intervals and times fit into their types, the function blocks keep to their delays
(`Forte.DelayFB.delays_run`).
-/

namespace Forte

/-- The types of function blocks that delay an event. -/
inductive DelayType
  | eDelay
  | eRDelay
  deriving DecidableEq

/-- What `executeEvent` does, one thing after the other: the threads are interleaved between
them. -/
inductive DelayAccess
  | sendOutputEvent
  | unregisterTimedFB
  | registerOneShotTimedFB
  /-- The assignment to `mActive`. -/
  | setActive (active : Bool)
  deriving DecidableEq

/-- Where the timer's thread is in `nextTick`. -/
inductive TickPoint
  /-- Before `nextTick`. -/
  | idle
  /-- Before `processTimedFBList`. -/
  | timedFBList
  /-- Before `processAddList`. -/
  | addFBList
  deriving DecidableEq

/-- What a function block has done. -/
inductive DelayEntry
  /-- It has registered for a `START`, in a tick and with an interval in ticks. -/
  | start (tick interval : ℕ)
  /-- It has received a `STOP`. -/
  | stop
  /-- It has sent `EO` in a tick. -/
  | eo (tick : ℕ)
  deriving DecidableEq

/-- A delay function block with the timer handler and the event chain execution. -/
structure DelayFB (k l : Fin 64) (FB : Type) where
  timer : TimerHandler FB
  tickPoint : TickPoint
  /-- How many of the event chains started by the timer handler have come to
  `startEventChain`. -/
  queued : ℕ
  chain : EventChain k l (FB × ℕ)
  /-- `mActive`. -/
  active : Bool
  varDT : BitVec 64
  /-- What the function block still has to do for the event it has received. -/
  handling : List DelayAccess
  /-- What it has done, the last thing first. -/
  history : List DelayEntry

namespace DelayFB

/-- `csmEventSTARTID`. -/
def eventSTARTID : ℕ := 0

/-- `csmEventSTOPID`. -/
def eventSTOPID : ℕ := 1

/-- `CTimedFB::executeEvent`. -/
def timedFBExecuteEvent (active : Bool) (eiid : ℕ) : List DelayAccess :=
  if eiid = externalEventID then [.sendOutputEvent]
  else if eiid = eventSTOPID then
    if active then [.unregisterTimedFB, .setActive false] else []
  else []

/-- `FORTE_E_DELAY::executeEvent`. -/
def eDelayExecuteEvent (active : Bool) (eiid : ℕ) : List DelayAccess :=
  if eiid = externalEventID then [.sendOutputEvent, .setActive false]
  else if eiid = eventSTARTID then
    if !active then [.registerOneShotTimedFB, .setActive true] else []
  else timedFBExecuteEvent active eiid

/-- `FORTE_E_RDELAY::executeEvent`. -/
def eRDelayExecuteEvent (active : Bool) (eiid : ℕ) : List DelayAccess :=
  if eiid = externalEventID then [.sendOutputEvent, .setActive false]
  else if eiid = eventSTARTID then
    (if active then [.unregisterTimedFB] else []) ++ [.registerOneShotTimedFB, .setActive true]
  else timedFBExecuteEvent active eiid

/-- `executeEvent` of a function block type. -/
def executeEvent : DelayType → Bool → ℕ → List DelayAccess
  | .eDelay => eDelayExecuteEvent
  | .eRDelay => eRDelayExecuteEvent

variable {k l : Fin 64} {FB : Type} [DecidableEq FB]

/-- A function block as it is created. -/
def initial (elements externalElements : ℕ → FB × ℕ) : DelayFB k l FB where
  timer := .initial
  tickPoint := .idle
  queued := 0
  chain := .initial elements externalElements
  active := false
  varDT := 0
  handling := []
  history := []

/-- What the threads do. -/
inductive Action (FB : Type)
  /-- The timer's thread goes on. -/
  | nextTick
  /-- The thread of the event chain execution goes on; `dt` is what the connection to `DT` has
  if it is read. -/
  | mainRun (dt : BitVec 64)
  /-- Another function block registers with the timer handler or unregisters. -/
  | timedFB (call : TimerHandler.Call FB)
  /-- An event is started from outside. -/
  | startEventChain (event : FB × ℕ)
  | resumeSelfSuspend
  /-- The function block that is executed adds an event. -/
  | addEventEntry (event : FB × ℕ)

variable (type : DelayType) (ticksPerSecond : ℤ) (fb : FB)

/-- The timer's thread goes on: an event chain that it has started comes to `startEventChain`,
and after them the next part of `nextTick`. -/
def nextTick (s : DelayFB k l FB) : DelayFB k l FB :=
  match s.timer.started[s.queued]? with
  | some (_, timedFB) =>
    { s with
      queued := s.queued + 1
      chain := s.chain.step (.startEventChain (timedFB, externalEventID)) }
  | none =>
    match s.tickPoint with
    | .idle => { s with timer := s.timer.beginTick, tickPoint := .timedFBList }
    | .timedFBList => { s with timer := s.timer.processTimedFBList, tickPoint := .addFBList }
    | .addFBList =>
      { s with timer := { s.timer.processAddList with ticking := false }, tickPoint := .idle }

/-- The function block goes on with an event. -/
def access (s : DelayFB k l FB) : DelayAccess → DelayFB k l FB
  | .sendOutputEvent => { s with history := .eo s.timer.ticks :: s.history }
  | .unregisterTimedFB => { s with timer := s.timer.unregisterTimedFB fb }
  | .registerOneShotTimedFB =>
    { s with
      timer := s.timer.registerOneShotTimedFB ticksPerSecond fb s.varDT
      history := .start s.timer.ticks (TimerHandler.intervalInTicks ticksPerSecond s.varDT) ::
        s.history }
  | .setActive active => { s with active }

/-- `receiveInputEvent` of the running function block, up to `executeEvent`. -/
def receiveInputEvent (s : DelayFB k l FB) (dt : BitVec 64) (eiid : ℕ) : DelayFB k l FB :=
  { s with
    varDT := if eiid < 2 then dt else s.varDT
    handling := executeEvent type s.active eiid
    history := if eiid = eventSTOPID then .stop :: s.history else s.history }

/-- The thread of the event chain execution goes on; only when the function block is done with
an event, it comes to the next one. -/
def mainRun (s : DelayFB k l FB) (dt : BitVec 64) : DelayFB k l FB :=
  match s.handling with
  | first :: rest => { s.access ticksPerSecond fb first with handling := rest }
  | [] =>
    match s.chain.received with
    | some (receiver, eiid) =>
      if receiver = fb then { s with chain := s.chain.mainRun }.receiveInputEvent type dt eiid
      else { s with chain := s.chain.mainRun }
    | none => { s with chain := s.chain.mainRun }

/-- One step of a thread; a step that no thread can take has no effect. The external event of
the function block comes from the timer handler only. -/
def step (s : DelayFB k l FB) : Action FB → DelayFB k l FB
  | .nextTick => s.nextTick
  | .mainRun dt => s.mainRun type ticksPerSecond fb dt
  | .timedFB .nextTick => s
  | .timedFB call =>
    if call.about fb then s else { s with timer := s.timer.step ticksPerSecond call }
  | .startEventChain event =>
    if event = (fb, externalEventID) then s
    else { s with chain := s.chain.step (.startEventChain event) }
  | .resumeSelfSuspend => { s with chain := s.chain.step .resumeSelfSuspend }
  | .addEventEntry event =>
    if event = (fb, externalEventID) then s
    else { s with chain := s.chain.step (.addEventEntry event) }

/-! ### What is asked of a delay -/

/-- `EO` in a tick is the only one for the last `START`, and its interval has passed. -/
def OncePerStart (before : List DelayEntry) (n : ℕ) : Prop :=
  ∃ recent tick interval older, before = recent ++ .start tick interval :: older ∧
    (∀ tick interval, .start tick interval ∉ recent) ∧ (∀ tick, .eo tick ∉ recent) ∧
    tick + interval ≤ n

/-- After every `STOP` there was a `START`. -/
def NotStopped (before : List DelayEntry) : Prop :=
  ∀ recent older, before = recent ++ .stop :: older →
    ∃ tick interval, .start tick interval ∈ recent

/-- **What is asked of a delay**: `EO` comes at most once for each `START` that the function
block has registered for, not before its interval has passed, and never behind a `STOP`. -/
def Delays (history : List DelayEntry) : Prop :=
  ∀ later n before, history = later ++ .eo n :: before → OncePerStart before n ∧ NotStopped before

/-! ### The condition -/

/-- **A cancellation reaches all that is under way**: no entry of the function block is due in
the tick in progress, no registration of it would be added behind the next removal, and no
event chain of it has been started. -/
structure Cancellable (s : DelayFB k l FB) : Prop where
  timed : ∀ entry ∈ s.timer.timedFBList, entry.timedFB = fb →
    s.tickPoint = .idle ∨ s.timer.forteTime < entry.timeOut
  add : ∀ entry ∈ s.timer.addFBList, entry.timedFB = fb →
    s.tickPoint ≠ .idle ∧ s.timer.forteTime < entry.timeOut
  started : fb ∉ (s.timer.started.drop s.queued).map Prod.snd
  pending : (fb, externalEventID) ∉ s.chain.pending

instance (s : DelayFB k l FB) : Decidable (s.Cancellable fb) :=
  decidable_of_iff ((∀ entry ∈ s.timer.timedFBList, entry.timedFB = fb →
      s.tickPoint = .idle ∨ s.timer.forteTime < entry.timeOut) ∧
    (∀ entry ∈ s.timer.addFBList, entry.timedFB = fb →
      s.tickPoint ≠ .idle ∧ s.timer.forteTime < entry.timeOut) ∧
    fb ∉ (s.timer.started.drop s.queued).map Prod.snd ∧
    (fb, externalEventID) ∉ s.chain.pending)
    ⟨fun ⟨timed, add, started, pending⟩ => ⟨timed, add, started, pending⟩,
      fun h => ⟨h.timed, h.add, h.started, h.pending⟩⟩

/-- The condition on what the function block does next: a cancellation reaches all that is under
way, and an interval in ticks has 32 bits, a time 64 bits. -/
def Allows (s : DelayFB k l FB) : List DelayAccess → Prop
  | .unregisterTimedFB :: _ => s.Cancellable fb
  | .registerOneShotTimedFB :: _ =>
    TimerHandler.intervalInTicks ticksPerSecond s.varDT < 2 ^ 32 ∧
      s.timer.forteTime + TimerHandler.intervalInTicks ticksPerSecond s.varDT < 2 ^ 64
  | .sendOutputEvent :: _ => True
  | .setActive _ :: _ => True
  | [] => True

/-- The condition on a step. -/
def Cond (s : DelayFB k l FB) : Action FB → Prop
  | .mainRun _ => s.Allows ticksPerSecond fb s.handling
  | .nextTick => True
  | .timedFB _ => True
  | .startEventChain _ => True
  | .resumeSelfSuspend => True
  | .addEventEntry _ => True

instance (s : DelayFB k l FB) (handling : List DelayAccess) :
    Decidable (s.Allows ticksPerSecond fb handling) :=
  match handling with
  | .unregisterTimedFB :: _ => inferInstanceAs (Decidable (s.Cancellable fb))
  | .registerOneShotTimedFB :: _ => inferInstanceAs (Decidable (_ ∧ _))
  | .sendOutputEvent :: _ => .isTrue trivial
  | .setActive _ :: _ => .isTrue trivial
  | [] => .isTrue trivial

instance (s : DelayFB k l FB) (action : Action FB) :
    Decidable (s.Cond ticksPerSecond fb action) :=
  match action with
  | .mainRun _ => inferInstanceAs (Decidable (s.Allows ticksPerSecond fb s.handling))
  | .nextTick => .isTrue trivial
  | .timedFB _ => .isTrue trivial
  | .startEventChain _ => .isTrue trivial
  | .resumeSelfSuspend => .isTrue trivial
  | .addEventEntry _ => .isTrue trivial

/-! ### What is under way -/

/-- An entry of the list that no removal takes out before it is triggered. -/
def timedLeft (s : DelayFB k l FB) (entry : TimedFBListEntry FB) : Bool :=
  entry.timedFB = fb && (fb ∉ s.timer.removeFBList ||
    s.tickPoint ≠ .idle && entry.timeOut ≤ s.timer.forteTime)

/-- A registration that no removal takes out before it is triggered. -/
def addLeft (s : DelayFB k l FB) (entry : TimedFBListEntry FB) : Bool :=
  entry.timedFB = fb && (fb ∉ s.timer.removeFBList ||
    (s.tickPoint = .idle || entry.timeOut ≤ s.timer.forteTime))

/-- The entries of the function block that will be triggered. -/
def registered (s : DelayFB k l FB) : List (TimedFBListEntry FB) :=
  s.timer.timedFBList.filter (s.timedLeft fb) ++ s.timer.addFBList.filter (s.addLeft fb)

/-- The number of event chains that have been started for the function block, and have not come
to it. -/
def expired (s : DelayFB k l FB) : ℕ :=
  ((s.timer.started.drop s.queued).map Prod.snd).count fb +
    s.chain.pending.count (fb, externalEventID)

/-- Nothing is under way. -/
def Quiet (s : DelayFB k l FB) : Prop := s.registered fb = [] ∧ s.expired fb = 0

/-- **What is under way for a `START`** is one thing at most, and expires when its interval has
passed. -/
structure Waiting (s : DelayFB k l FB) (tick interval : ℕ) : Prop where
  one : (s.registered fb).length + s.expired fb ≤ 1
  last : s.history.head? = some (.start tick interval)
  begun : tick ≤ s.timer.ticks
  timeOut : ∀ entry ∈ s.registered fb, entry.timeOut.val = tick % 2 ^ 64 + interval
  elapsed : 0 < s.expired fb → tick + interval ≤ s.timer.ticks

/-- The external event of the last `START` has been received. -/
structure Over (s : DelayFB k l FB) : Prop where
  quiet : s.Quiet fb
  last : ∃ tick interval, s.history.head? = some (.start tick interval) ∧
    tick + interval ≤ s.timer.ticks

/-- Where the function block is with an event, and what is under way then. -/
inductive Phase (quiet waiting elapsed : Prop) : List DelayAccess → Bool → Prop
  | quiet : quiet → Phase quiet waiting elapsed [] false
  | waiting : waiting → Phase quiet waiting elapsed [] true
  | stopping {active} : Phase quiet waiting elapsed [.unregisterTimedFB, .setActive false] active
  | restarting {active} :
    Phase quiet waiting elapsed [.unregisterTimedFB, .registerOneShotTimedFB, .setActive true]
      active
  | starting {active} : quiet →
    Phase quiet waiting elapsed [.registerOneShotTimedFB, .setActive true] active
  | started {active} : waiting → Phase quiet waiting elapsed [.setActive true] active
  | stopped {active} : quiet → Phase quiet waiting elapsed [.setActive false] active
  | expired {active} :
    elapsed → Phase quiet waiting elapsed [.sendOutputEvent, .setActive false] active

/-- The phase of a state. -/
def InPhase (s : DelayFB k l FB) : Prop :=
  Phase (s.Quiet fb) (∃ tick interval, s.Waiting fb tick interval) (s.Over fb) s.handling s.active

/-- **The invariant of the runs.** -/
structure Good (s : DelayFB k l FB) : Prop where
  delays : Delays s.history
  tracks : ∃ events externals, s.chain.Tracks events externals
  ordered : s.timer.Ordered
  time : s.timer.forteTime.val = s.timer.ticks % 2 ^ 64
  oneShot : ∀ entry ∈ s.timer.timedFBList ++ s.timer.addFBList, entry.timedFB = fb →
    entry.interval = oneShotIndicator
  phase : s.InPhase fb

/-- **Something of what is under way goes on its way**, and nothing is added. -/
structure Passes (s t : DelayFB k l FB) : Prop where
  count : (t.registered fb).length + t.expired fb ≤ (s.registered fb).length + s.expired fb
  mem : ∀ entry ∈ t.registered fb, entry ∈ s.registered fb
  /-- What expires was due. -/
  expired : 0 < t.expired fb →
    0 < s.expired fb ∨ ∃ entry ∈ s.registered fb, entry.timeOut ≤ s.timer.forteTime
  ticks : s.timer.ticks ≤ t.timer.ticks
  history : t.history = s.history

section

variable {fb} {s t : DelayFB k l FB}

theorem Phase.imp {quiet waiting elapsed quiet' waiting' elapsed' : Prop}
    {handling : List DelayAccess} {active : Bool} (hquiet : quiet → quiet')
    (hwaiting : waiting → waiting') (hover : elapsed → elapsed')
    (h : Phase quiet waiting elapsed handling active) :
    Phase quiet' waiting' elapsed' handling active := by
  cases h with
  | quiet h => exact .quiet (hquiet h)
  | waiting h => exact .waiting (hwaiting h)
  | stopping => exact .stopping
  | restarting => exact .restarting
  | starting h => exact .starting (hquiet h)
  | started h => exact .started (hwaiting h)
  | stopped h => exact .stopped (hquiet h)
  | expired h => exact .expired (hover h)

theorem Passes.quiet (h : Passes fb s t) (hs : s.Quiet fb) : t.Quiet fb := by
  have hcount := h.count
  rw [hs.1, hs.2, List.length_nil] at hcount
  exact ⟨List.eq_nil_of_length_eq_zero (by omega), by omega⟩

/-- A point in time that has come, where the time starts again at `2 ^ 64` ticks. -/
theorem add_le_of_mod_le {tick interval ticks : ℕ} (hbegun : tick ≤ ticks)
    (hdue : tick % 2 ^ 64 + interval ≤ ticks % 2 ^ 64) : tick + interval ≤ ticks := by
  by_contra hlt
  omega

theorem Passes.waiting (h : Passes fb s t)
    (htime : s.timer.forteTime.val = s.timer.ticks % 2 ^ 64) {tick interval : ℕ}
    (hs : s.Waiting fb tick interval) : t.Waiting fb tick interval := by
  refine ⟨h.count.trans hs.one, h.history ▸ hs.last, hs.begun.trans h.ticks,
    fun entry hentry => hs.timeOut entry (h.mem entry hentry), fun hexpired => ?_⟩
  rcases h.expired hexpired with hexpired | ⟨entry, hentry, hdue⟩
  · exact (hs.elapsed hexpired).trans h.ticks
  · have hdue' : entry.timeOut.val ≤ s.timer.forteTime.val := hdue
    rw [hs.timeOut entry hentry, htime] at hdue'
    exact (add_le_of_mod_le hs.begun hdue').trans h.ticks

theorem Passes.elapsed (h : Passes fb s t) (hs : s.Over fb) : t.Over fb := by
  obtain ⟨tick, interval, hlast, hle⟩ := hs.last
  exact ⟨h.quiet hs.quiet, tick, interval, h.history ▸ hlast, hle.trans h.ticks⟩

theorem Passes.inPhase (h : Passes fb s t)
    (htime : s.timer.forteTime.val = s.timer.ticks % 2 ^ 64) (hhandling : t.handling = s.handling)
    (hactive : t.active = s.active) (hs : s.InPhase fb) : t.InPhase fb := by
  rw [InPhase, hhandling, hactive]
  refine hs.imp h.quiet (fun ⟨tick, interval, hwaiting⟩ => ?_) h.elapsed
  exact ⟨tick, interval, h.waiting htime hwaiting⟩

/-! ### A tick -/

theorem length_registered (s : DelayFB k l FB) : (s.registered fb).length =
    s.timer.timedFBList.countP (s.timedLeft fb) + s.timer.addFBList.countP (s.addLeft fb) := by
  rw [registered, List.length_append, List.countP_eq_length_filter, List.countP_eq_length_filter]

theorem mem_registered {entry : TimedFBListEntry FB} : entry ∈ s.registered fb ↔
    entry ∈ s.timer.timedFBList ∧ s.timedLeft fb entry = true ∨
      entry ∈ s.timer.addFBList ∧ s.addLeft fb entry = true := by
  rw [registered, List.mem_append, List.mem_filter, List.mem_filter]

/-- The removals at the beginning of a tick take out what they were expected to. -/
theorem registered_beginTick (hpoint : s.tickPoint = .idle) :
    { s with timer := s.timer.beginTick, tickPoint := .timedFBList }.registered fb =
      s.registered fb := by
  rw [registered, registered, TimerHandler.beginTick_eq]
  refine congrArg₂ (· ++ ·) ?_ ?_
  · rw [List.filter_filter]
    refine List.filter_congr fun entry _ => ?_
    rw [Bool.eq_iff_iff]
    simp only [timedLeft, hpoint, List.not_mem_nil, not_false_eq_true, decide_true, Bool.true_or,
      Bool.and_true, decide_eq_true_eq, Bool.and_eq_true, ne_eq, not_true_eq_false, decide_false,
      Bool.false_and, Bool.or_false]
    exact and_congr_right fun hfb => by rw [hfb]
  · refine List.filter_congr fun entry _ => ?_
    rw [Bool.eq_iff_iff]
    simp [addLeft, hpoint]

theorem passes_beginTick (hpoint : s.tickPoint = .idle) :
    Passes fb s { s with timer := s.timer.beginTick, tickPoint := .timedFBList } := by
  have hregistered := @registered_beginTick _ _ _ _ fb _ hpoint
  have hexpired : { s with timer := s.timer.beginTick, tickPoint := .timedFBList }.expired fb =
      s.expired fb := by
    rw [DelayFB.expired, TimerHandler.beginTick_eq]
    rfl
  refine ⟨?_, ?_, fun hpos => .inl (hexpired ▸ hpos), ?_, rfl⟩
  · rw [hregistered, hexpired]
  · rw [hregistered]
    exact fun entry hentry => hentry
  · rw [TimerHandler.beginTick_eq]
    exact Nat.le_succ _

/-- **A list of entries expires**: they were registered, and due. -/
theorem passes_of_started {due : List (TimedFBListEntry FB)}
    (hlog : t.timer.started =
      s.timer.started ++ due.map fun entry => (s.timer.ticks, entry.timedFB))
    (hqueued : t.queued = s.queued) (hchain : t.chain = s.chain)
    (hcount : (t.registered fb).length + due.countP (·.timedFB = fb) ≤ (s.registered fb).length)
    (hmem : ∀ entry ∈ t.registered fb, entry ∈ s.registered fb)
    (hdue : ∀ entry ∈ due, entry.timedFB = fb →
      entry ∈ s.registered fb ∧ entry.timeOut ≤ s.timer.forteTime)
    (hticks : s.timer.ticks ≤ t.timer.ticks) (hhistory : t.history = s.history) :
    Passes fb s t := by
  have hexpired : t.expired fb ≤ s.expired fb + due.countP (·.timedFB = fb) := by
    have hall : ((due.map fun entry => (s.timer.ticks, entry.timedFB)).map Prod.snd).count fb =
        due.countP (·.timedFB = fb) := by
      rw [List.map_map, List.count_eq_countP, List.countP_map]
      exact List.countP_congr fun entry _ => by simp
    have hdrop : ((due.map fun entry => (s.timer.ticks, entry.timedFB)).drop
        (s.queued - s.timer.started.length)).Sublist _ := List.drop_sublist _ _
    have hle := (hdrop.map Prod.snd).count_le fb
    rw [DelayFB.expired, DelayFB.expired, hlog, hqueued, hchain, List.drop_append, List.map_append,
      List.count_append]
    omega
  refine ⟨by omega, hmem, fun hpos => ?_, hticks, hhistory⟩
  rcases Nat.eq_zero_or_pos (s.expired fb) with hzero | hpos'
  · have hone : 0 < due.countP (·.timedFB = fb) := by omega
    obtain ⟨entry, hentry, hfb⟩ := List.countP_pos_iff.mp hone
    exact .inr ⟨entry, hdue entry hentry (of_decide_eq_true hfb)⟩
  · exact .inl hpos'

omit [DecidableEq FB] in
/-- One-shot entries do not come back. -/
theorem timedFB_ne_of_mem_again {time : TickTime} {entries : List (TimedFBListEntry FB)}
    (hone : ∀ entry ∈ entries, entry.timedFB = fb → entry.interval = oneShotIndicator)
    {entry : TimedFBListEntry FB} (h : entry ∈ entries.filterMap (TimerHandler.again time)) :
    entry.timedFB ≠ fb := by
  obtain ⟨before, hbefore, hagain⟩ := List.mem_filterMap.mp h
  rw [TimerHandler.again] at hagain
  split_ifs at hagain with hperiodic
  obtain rfl := Option.some.inj hagain
  exact fun hfb => hperiodic (hone before hbefore hfb)

omit [DecidableEq FB] in
/-- One-shot entries that are in the list behind `processTimedFBList` were in it before. -/
theorem mem_of_mem_processTimedFBList {timer : TimerHandler FB} (hordered : timer.Ordered)
    (hone : ∀ entry ∈ timer.timedFBList, entry.timedFB = fb → entry.interval = oneShotIndicator)
    {entry : TimedFBListEntry FB} (h : entry ∈ timer.processTimedFBList.timedFBList)
    (hfb : entry.timedFB = fb) : entry ∈ timer.timedFBList := by
  have htimed := (TimerHandler.gone_processTimedFBList hordered).timed
  rcases List.mem_append.mp (htimed.mem_iff.mp h) with hlater | hagain
  · exact (List.mem_filter.mp hlater).1
  · exact absurd hfb (timedFB_ne_of_mem_again
      (fun entry hentry => hone entry (List.mem_filter.mp hentry).1) hagain)

omit [DecidableEq FB] in
/-- One-shot entries that are in the list behind `processAddList` were in it or added to it. -/
theorem mem_of_mem_processAddList {timer : TimerHandler FB}
    (hone : ∀ entry ∈ timer.addFBList, entry.timedFB = fb → entry.interval = oneShotIndicator)
    {entry : TimedFBListEntry FB} (h : entry ∈ timer.processAddList.timedFBList)
    (hfb : entry.timedFB = fb) : entry ∈ timer.timedFBList ++ timer.addFBList := by
  have htimed := (TimerHandler.gone_processAddList timer).timed.trans
    ((TimerHandler.perm_settle timer.forteTime timer.addFBList).symm.append_left _)
  rcases List.mem_append.mp (htimed.mem_iff.mp h) with hold | hnew
  · exact List.mem_append_left _ hold
  · rcases List.mem_append.mp hnew with hlater | hagain
    · exact List.mem_append_right _ (List.mem_filter.mp hlater).1
    · exact absurd hfb (timedFB_ne_of_mem_again
        (fun entry hentry => hone entry (List.mem_filter.mp hentry).1) hagain)

/-- What comes back into the list is not of the function block. -/
theorem countP_again_eq_zero {time : TickTime} {entries : List (TimedFBListEntry FB)}
    (hone : ∀ entry ∈ entries, entry.timedFB = fb → entry.interval = oneShotIndicator) :
    (entries.filterMap (TimerHandler.again time)).countP (s.timedLeft fb) = 0 := by
  refine List.countP_eq_zero.mpr fun entry hentry hleft => ?_
  rw [timedLeft, Bool.and_eq_true, decide_eq_true_eq] at hleft
  exact timedFB_ne_of_mem_again hone hentry hleft.1

omit [DecidableEq FB] in
/-- The entries that are due, and those that are not. -/
theorem countP_due_add_later (p : TimedFBListEntry FB → Bool) (time : TickTime)
    (entries : List (TimedFBListEntry FB)) :
    (entries.filter fun entry => entry.timeOut ≤ time).countP p +
      (entries.filter fun entry => time < entry.timeOut).countP p = entries.countP p := by
  have hlater : (entries.filter fun entry => time < entry.timeOut) =
      entries.filter fun entry => !decide (entry.timeOut ≤ time) := by
    refine List.filter_congr fun entry _ => ?_
    rw [← decide_not, decide_eq_decide]
    exact not_le.symm
  rw [List.countP_eq_countP_filter_add entries p fun entry => entry.timeOut ≤ time, hlater]

/-- In the middle of a tick, an entry that is due will be triggered. -/
theorem timedLeft_of_due (hpoint : s.tickPoint = .timedFBList) {entry : TimedFBListEntry FB}
    (hfb : entry.timedFB = fb) (hdue : entry.timeOut ≤ s.timer.forteTime) :
    s.timedLeft fb entry = true := by
  simp [timedLeft, hfb, hpoint, hdue]

theorem addLeft_of_due {entry : TimedFBListEntry FB} (hfb : entry.timedFB = fb)
    (hdue : entry.timeOut ≤ s.timer.forteTime) : s.addLeft fb entry = true := by
  simp [addLeft, hfb, hdue]

theorem timedFB_of_timedLeft {entry : TimedFBListEntry FB} (h : s.timedLeft fb entry = true) :
    entry.timedFB = fb := by
  rw [timedLeft, Bool.and_eq_true] at h
  exact of_decide_eq_true h.1

theorem passes_processTimedFBList (hordered : s.timer.Ordered)
    (hone : ∀ entry ∈ s.timer.timedFBList ++ s.timer.addFBList, entry.timedFB = fb →
      entry.interval = oneShotIndicator) (hpoint : s.tickPoint = .timedFBList) :
    Passes fb s
      { s with timer := s.timer.processTimedFBList, tickPoint := .addFBList } := by
  have hgone := TimerHandler.gone_processTimedFBList hordered
  obtain ⟨timed, started, hframe⟩ := hgone.frame
  have hold (entry : TimedFBListEntry FB) (hentry : entry ∈ s.timer.processTimedFBList.timedFBList)
      (hfb : entry.timedFB = fb) : entry ∈ s.timer.timedFBList :=
    mem_of_mem_processTimedFBList hordered
      (fun entry hentry => hone entry (List.mem_append_left _ hentry)) hentry hfb
  rw [hframe] at hgone hold ⊢
  let due := s.timer.timedFBList.filter fun entry => entry.timeOut ≤ s.timer.forteTime
  have htimed : timed.Perm
      ((s.timer.timedFBList.filter fun entry => s.timer.forteTime < entry.timeOut) ++
        due.filterMap (TimerHandler.again s.timer.forteTime)) := hgone.timed
  have hlog : started = s.timer.started ++ due.map fun entry => (s.timer.ticks, entry.timedFB) :=
    hgone.log
  let t : DelayFB k l FB := { s with
    timer := { s.timer with timedFBList := timed, started := started }, tickPoint := .addFBList }
  have htimedLeft : t.timedLeft fb = s.timedLeft fb := by
    funext entry
    simp [timedLeft, t, hpoint]
  have haddLeft : t.addLeft fb = s.addLeft fb := by
    funext entry
    simp [addLeft, t, hpoint]
  have hdueOne : ∀ entry ∈ due, entry.timedFB = fb → entry.interval = oneShotIndicator :=
    fun entry hentry => hone entry (List.mem_append_left _ (List.mem_filter.mp hentry).1)
  have hdue : ∀ entry ∈ due, entry.timedFB = fb → s.timedLeft fb entry = true :=
    fun entry hentry hfb =>
      timedLeft_of_due hpoint hfb (of_decide_eq_true (List.mem_filter.mp hentry).2)
  have hcount : timed.countP (s.timedLeft fb) + due.countP (·.timedFB = fb) ≤
      s.timer.timedFBList.countP (s.timedLeft fb) := by
    have hmono : due.countP (·.timedFB = fb) ≤ due.countP (s.timedLeft fb) :=
      List.countP_mono_left fun entry hentry hfb => hdue entry hentry (of_decide_eq_true hfb)
    rw [htimed.countP_eq, List.countP_append, countP_again_eq_zero hdueOne,
      ← countP_due_add_later (s.timedLeft fb) s.timer.forteTime s.timer.timedFBList]
    show _ + 0 + _ ≤ due.countP (s.timedLeft fb) + _
    omega
  show Passes fb s t
  refine passes_of_started hlog rfl rfl ?_ (fun entry hentry => ?_) (fun entry hentry hfb => ?_)
    le_rfl rfl
  · rw [length_registered, length_registered, htimedLeft, haddLeft]
    show timed.countP _ + s.timer.addFBList.countP _ + _ ≤ _
    omega
  · rcases mem_registered.mp hentry with ⟨hmem, hleft⟩ | hadd
    · rw [htimedLeft] at hleft
      exact mem_registered.mpr (.inl ⟨hold entry hmem (timedFB_of_timedLeft hleft), hleft⟩)
    · rw [haddLeft] at hadd
      exact mem_registered.mpr (.inr hadd)
  · obtain ⟨hmem, htime⟩ := List.mem_filter.mp hentry
    exact ⟨mem_registered.mpr (.inl ⟨hmem, hdue entry hentry hfb⟩), of_decide_eq_true htime⟩

theorem passes_processAddList
    (hone : ∀ entry ∈ s.timer.timedFBList ++ s.timer.addFBList, entry.timedFB = fb →
      entry.interval = oneShotIndicator) (hpoint : s.tickPoint = .addFBList) :
    Passes fb s { s with
      timer := { s.timer.processAddList with ticking := false }, tickPoint := .idle } := by
  obtain ⟨timed, started, hframe⟩ := TimerHandler.processAddList_frame s.timer
  have hgone := TimerHandler.gone_processAddList s.timer
  have htimed := hgone.timed.trans
    ((TimerHandler.perm_settle s.timer.forteTime s.timer.addFBList).symm.append_left _)
  have hold (entry : TimedFBListEntry FB) (hentry : entry ∈ s.timer.processAddList.timedFBList)
      (hfb : entry.timedFB = fb) : entry ∈ s.timer.timedFBList ++ s.timer.addFBList :=
    mem_of_mem_processAddList (fun entry hentry => hone entry (List.mem_append_right _ hentry))
      hentry hfb
  rw [hframe] at htimed hgone hold ⊢
  let due := s.timer.addFBList.filter fun entry => entry.timeOut ≤ s.timer.forteTime
  have hlog : started = s.timer.started ++ due.map fun entry => (s.timer.ticks, entry.timedFB) :=
    hgone.log
  let t : DelayFB k l FB := { s with
    timer := { s.timer with
      timedFBList := timed, started := started, addFBList := [], ticking := false }
    tickPoint := .idle }
  have htimedLeft (entry : TimedFBListEntry FB) (hleft : t.timedLeft fb entry = true) :
      s.timedLeft fb entry = true ∧ s.addLeft fb entry = true := by
    simp only [timedLeft, t, Bool.and_eq_true, decide_eq_true_eq] at hleft
    simp_all [timedLeft, addLeft]
  have hdueOne : ∀ entry ∈ due, entry.timedFB = fb → entry.interval = oneShotIndicator :=
    fun entry hentry => hone entry (List.mem_append_right _ (List.mem_filter.mp hentry).1)
  have hdue : ∀ entry ∈ due, entry.timedFB = fb → s.addLeft fb entry = true :=
    fun entry hentry hfb => addLeft_of_due hfb (of_decide_eq_true (List.mem_filter.mp hentry).2)
  have hcount : timed.countP (t.timedLeft fb) + due.countP (·.timedFB = fb) ≤
      s.timer.timedFBList.countP (s.timedLeft fb) + s.timer.addFBList.countP (s.addLeft fb) := by
    have hmono : due.countP (·.timedFB = fb) ≤ due.countP (s.addLeft fb) :=
      List.countP_mono_left fun entry hentry hfb => hdue entry hentry (of_decide_eq_true hfb)
    have htimedMono : s.timer.timedFBList.countP (t.timedLeft fb) ≤
        s.timer.timedFBList.countP (s.timedLeft fb) :=
      List.countP_mono_left fun entry _ hleft => (htimedLeft entry hleft).1
    have haddMono : (s.timer.addFBList.filter fun entry =>
          s.timer.forteTime < entry.timeOut).countP (t.timedLeft fb) ≤
        (s.timer.addFBList.filter fun entry =>
          s.timer.forteTime < entry.timeOut).countP (s.addLeft fb) :=
      List.countP_mono_left fun entry _ hleft => (htimedLeft entry hleft).2
    rw [htimed.countP_eq, List.countP_append, List.countP_append, countP_again_eq_zero hdueOne,
      ← countP_due_add_later (s.addLeft fb) s.timer.forteTime s.timer.addFBList]
    show _ + (_ + 0) + _ ≤ _ + (due.countP (s.addLeft fb) + _)
    omega
  show Passes fb s t
  refine passes_of_started hlog rfl rfl ?_ (fun entry hentry => ?_) (fun entry hentry hfb => ?_)
    le_rfl rfl
  · rw [length_registered, length_registered]
    exact hcount
  · rcases mem_registered.mp hentry with ⟨hmem, hleft⟩ | ⟨hmem, -⟩
    · obtain ⟨hleft', hadd⟩ := htimedLeft entry hleft
      rcases List.mem_append.mp (hold entry hmem (timedFB_of_timedLeft hleft)) with htimed' | hadd'
      · exact mem_registered.mpr (.inl ⟨htimed', hleft'⟩)
      · exact mem_registered.mpr (.inr ⟨hadd', hadd⟩)
    · exact absurd hmem List.not_mem_nil
  · obtain ⟨hmem, htime⟩ := List.mem_filter.mp hentry
    exact ⟨mem_registered.mpr (.inr ⟨hmem, hdue entry hentry hfb⟩), of_decide_eq_true htime⟩

/-! ### The other threads -/

/-- **Nothing is added to the buffers of the event chain execution** but what has been started. -/
theorem passes_queue {queued : ℕ} {chain : EventChain k l (FB × ℕ)}
    (hcount : ((s.timer.started.drop queued).map Prod.snd).count fb +
        chain.pending.count (fb, externalEventID) ≤ s.expired fb) :
    Passes fb s { s with queued, chain } where
  count := Nat.add_le_add_left hcount _
  mem _ hentry := hentry
  expired hpos := .inl (Nat.lt_of_lt_of_le hpos hcount)
  ticks := le_rfl
  history := rfl

theorem passes_chain {events externals : List (FB × ℕ)}
    (htracks : s.chain.Tracks events externals) {action : EventChain.Action (FB × ℕ)}
    (haction : (fb, externalEventID) ∉ action.events) :
    Passes fb s { s with chain := s.chain.step action } := by
  have hcount := htracks.count_step action (fb, externalEventID)
  rw [List.count_eq_zero_of_not_mem haction, Nat.add_zero] at hcount
  have hqueue : ((s.timer.started.drop s.queued).map Prod.snd).count fb +
      (s.chain.step action).pending.count (fb, externalEventID) ≤ s.expired fb :=
    Nat.add_le_add_left hcount _
  exact passes_queue hqueue

/-- An event chain comes to `startEventChain`, and its event into the buffer if there is room. -/
theorem passes_startEventChain {events externals : List (FB × ℕ)}
    (htracks : s.chain.Tracks events externals) {n : ℕ} {timedFB : FB}
    (hstarted : s.timer.started[s.queued]? = some (n, timedFB)) :
    Passes fb s { s with
      queued := s.queued + 1
      chain := s.chain.step (.startEventChain (timedFB, externalEventID)) } := by
  have hcount := htracks.count_step (.startEventChain (timedFB, externalEventID))
    (fb, externalEventID)
  obtain ⟨hlt, hget⟩ := List.getElem?_eq_some_iff.mp hstarted
  refine passes_queue ?_
  have hevents : [(timedFB, externalEventID)].count (fb, externalEventID) = [timedFB].count fb := by
    rw [List.count_singleton, List.count_singleton]
    simp
  rw [EventChain.Action.events, hevents] at hcount
  have hdrop : s.timer.started.drop s.queued =
      (n, timedFB) :: s.timer.started.drop (s.queued + 1) := by
    rw [List.drop_eq_getElem_cons hlt, hget]
  have hfirst : ((s.timer.started.drop s.queued).map Prod.snd).count fb =
      [timedFB].count fb + ((s.timer.started.drop (s.queued + 1)).map Prod.snd).count fb := by
    rw [hdrop, ← List.count_append]
    rfl
  rw [DelayFB.expired, hfirst]
  omega

/-- A registration of another function block. -/
theorem registered_add {entry : TimedFBListEntry FB} (hne : entry.timedFB ≠ fb) :
    { s with timer := { s.timer with addFBList := s.timer.addFBList ++ [entry] } }.registered fb =
      s.registered fb := by
  have haddLeft : s.addLeft fb entry = false := by
    rw [addLeft, decide_eq_false hne, Bool.false_and]
  show _ ++ (s.timer.addFBList ++ [entry]).filter (s.addLeft fb) = _
  rw [List.filter_append, List.filter_singleton, haddLeft]
  exact congrArg (_ ++ ·) (List.append_nil _)

/-- The removal of another function block. -/
theorem registered_remove {fb' : FB} (hne : fb' ≠ fb) :
    { s with timer := s.timer.unregisterTimedFB fb' }.registered fb = s.registered fb := by
  have hmem : decide (fb ∉ s.timer.removeFBList ++ [fb']) = decide (fb ∉ s.timer.removeFBList) := by
    rw [decide_eq_decide, List.mem_append, List.mem_singleton, or_iff_left (Ne.symm hne)]
  refine congrArg₂ (· ++ ·) (List.filter_congr fun entry _ => ?_)
    (List.filter_congr fun entry _ => ?_)
  · exact congrArg (fun left => decide (entry.timedFB = fb) && (left || _)) hmem
  · exact congrArg (fun left => decide (entry.timedFB = fb) && (left || _)) hmem

theorem passes_of_registered_eq {timer : TimerHandler FB}
    (hregistered : { s with timer }.registered fb = s.registered fb)
    (hstarted : timer.started = s.timer.started) (hticks : timer.ticks = s.timer.ticks) :
    Passes fb s { s with timer } := by
  have hexpired : { s with timer }.expired fb = s.expired fb := by
    simp only [DelayFB.expired, hstarted]
  refine ⟨?_, ?_, fun hpos => .inl (hexpired ▸ hpos), hticks.ge, rfl⟩
  · rw [hregistered, hexpired]
  · rw [hregistered]
    exact fun _ hentry => hentry

/-- The calls of other function blocks. -/
theorem passes_timedFB {call : TimerHandler.Call FB} (hcall : call ≠ .nextTick)
    (hfb : call.about fb = false) :
    Passes fb s { s with timer := s.timer.step ticksPerSecond call } := by
  cases call with
  | registerOneShotTimedFB fb' dt =>
    exact passes_of_registered_eq (registered_add (of_decide_eq_false hfb)) rfl rfl
  | registerPeriodicTimedFB fb' dt =>
    exact passes_of_registered_eq (registered_add (of_decide_eq_false hfb)) rfl rfl
  | unregisterTimedFB fb' =>
    exact passes_of_registered_eq (registered_remove (of_decide_eq_false hfb)) rfl rfl
  | nextTick => exact absurd rfl hcall

/-! ### The function block -/

/-- **Behind a cancellation nothing is under way**, where it reaches all that was. -/
theorem Cancellable.quiet (h : s.Cancellable fb) :
    { s with timer := s.timer.unregisterTimedFB fb }.Quiet fb := by
  have hremoved : fb ∈ s.timer.removeFBList ++ [fb] :=
    List.mem_append_right _ (List.mem_singleton_self fb)
  constructor
  · refine List.append_eq_nil_iff.mpr ⟨List.filter_eq_nil_iff.mpr fun entry hentry hleft => ?_,
      List.filter_eq_nil_iff.mpr fun entry hentry hleft => ?_⟩
    · simp only [timedLeft, TimerHandler.unregisterTimedFB, hremoved, Bool.and_eq_true,
        decide_eq_true_eq, not_true_eq_false, decide_false, Bool.false_or] at hleft
      obtain ⟨hfb, hpoint, hdue⟩ := hleft
      rcases h.timed entry hentry hfb with hidle | hlater
      · exact hpoint hidle
      · exact absurd (of_decide_eq_true hdue) (not_le.mpr hlater)
    · simp only [addLeft, TimerHandler.unregisterTimedFB, hremoved, Bool.and_eq_true,
        decide_eq_true_eq, not_true_eq_false, decide_false, Bool.false_or, Bool.or_eq_true] at hleft
      obtain ⟨hfb, hleft⟩ := hleft
      obtain ⟨hpoint, hlater⟩ := h.add entry hentry hfb
      rcases hleft with hidle | hdue
      · exact hpoint hidle
      · exact absurd (of_decide_eq_true hdue) (not_le.mpr hlater)
  · exact Nat.add_eq_zero_iff.mpr
      ⟨List.count_eq_zero_of_not_mem h.started, List.count_eq_zero_of_not_mem h.pending⟩

/-- **A registration is under way** until its interval has passed. -/
theorem Quiet.register (h : s.Quiet fb)
    (htime : s.timer.forteTime.val = s.timer.ticks % 2 ^ 64)
    (hlt : TimerHandler.intervalInTicks ticksPerSecond s.varDT < 2 ^ 32)
    (hroom : s.timer.forteTime + TimerHandler.intervalInTicks ticksPerSecond s.varDT < 2 ^ 64) :
    (s.access ticksPerSecond fb .registerOneShotTimedFB).Waiting fb s.timer.ticks
      (TimerHandler.intervalInTicks ticksPerSecond s.varDT) := by
  let interval := TimerHandler.intervalInTicks ticksPerSecond s.varDT
  let entry : TimedFBListEntry FB := ⟨fb, TimerHandler.after s.timer.forteTime
    (TimerHandler.convertIntervalToTimerHandlerUnits ticksPerSecond s.varDT), oneShotIndicator⟩
  have htimeOut : entry.timeOut.val = s.timer.ticks % 2 ^ 64 + interval := by
    show (TimerHandler.after _ _).val = _
    rw [TimerHandler.convertIntervalToTimerHandlerUnits_eq hlt, TimerHandler.after_eq _ hlt,
      Fin.val_ofNat, Nat.mod_eq_of_lt hroom, htime]
  obtain ⟨htimed, hadd⟩ := List.append_eq_nil_iff.mp h.1
  have hregistered : (s.access ticksPerSecond fb .registerOneShotTimedFB).registered fb =
      [entry].filter (s.addLeft fb) := by
    show s.timer.timedFBList.filter (s.timedLeft fb) ++
      (s.timer.addFBList ++ [entry]).filter (s.addLeft fb) = _
    rw [htimed, List.filter_append, hadd]
    rfl
  have hexpired : (s.access ticksPerSecond fb .registerOneShotTimedFB).expired fb = 0 := h.2
  refine ⟨?_, rfl, le_rfl, fun entry' hentry' => ?_, fun hpos => ?_⟩
  · rw [hregistered, hexpired]
    exact List.length_filter_le _ [entry]
  · rw [hregistered] at hentry'
    obtain rfl := List.mem_singleton.mp (List.mem_filter.mp hentry').1
    exact htimeOut
  · exact absurd hexpired hpos.ne'

theorem Delays.cons {history : List DelayEntry} (h : Delays history) {entry : DelayEntry}
    (hentry : ∀ n, entry = .eo n → OncePerStart history n ∧ NotStopped history) :
    Delays (entry :: history) := by
  intro later n before heq
  cases later with
  | nil =>
    obtain ⟨rfl, rfl⟩ := List.cons.inj heq
    exact hentry n rfl
  | cons head later => exact h later n before (List.cons.inj heq).2

/-- **`EO` right behind a `START`** whose interval has passed. -/
theorem delays_eo {history : List DelayEntry} (h : Delays history) {tick interval n : ℕ}
    (hlast : history.head? = some (.start tick interval)) (hle : tick + interval ≤ n) :
    Delays (.eo n :: history) := by
  obtain ⟨older, rfl⟩ := List.head?_eq_some_iff.mp hlast
  refine h.cons fun n' hn => ?_
  obtain rfl := DelayEntry.eo.inj hn
  refine ⟨⟨[], tick, interval, older, rfl, fun _ _ => List.not_mem_nil, fun _ => List.not_mem_nil,
    hle⟩, fun recent older' heq => ?_⟩
  cases recent with
  | nil => exact absurd (List.cons.inj heq).1 nofun
  | cons head recent =>
    obtain ⟨rfl, -⟩ := List.cons.inj heq
    exact ⟨tick, interval, List.mem_cons_self⟩

theorem Waiting.handling {tick interval : ℕ} (h : s.Waiting fb tick interval)
    (handling : List DelayAccess) (active : Bool) :
    { s with handling, active }.Waiting fb tick interval :=
  ⟨h.one, h.last, h.begun, h.timeOut, h.elapsed⟩

/-- **What one thing of an event keeps**, if the condition is satisfied. -/
theorem Good.access (h : s.Good fb) {first : DelayAccess} {rest : List DelayAccess}
    (hhandling : s.handling = first :: rest) (dt : BitVec 64)
    (hcond : s.Cond ticksPerSecond fb (.mainRun dt)) :
    Good fb { s.access ticksPerSecond fb first with handling := rest } := by
  have hphase := h.phase
  rw [InPhase, hhandling] at hphase
  rw [Cond, hhandling] at hcond
  cases hphase with
  | stopping =>
    exact ⟨h.delays, h.tracks, h.ordered, h.time, h.oneShot, .stopped (Cancellable.quiet hcond)⟩
  | restarting =>
    exact ⟨h.delays, h.tracks, h.ordered, h.time, h.oneShot, .starting (Cancellable.quiet hcond)⟩
  | starting hquiet =>
    refine ⟨h.delays.cons nofun, h.tracks, h.ordered, h.time, fun entry hentry hfb => ?_,
      .started ⟨_, _, (hquiet.register ticksPerSecond h.time hcond.1 hcond.2).handling _ _⟩⟩
    rcases List.mem_append.mp hentry with htimed | hadd
    · exact h.oneShot entry (List.mem_append_left _ htimed) hfb
    · rcases List.mem_append.mp hadd with hadd | hnew
      · exact h.oneShot entry (List.mem_append_right _ hadd) hfb
      · rw [List.mem_singleton.mp hnew]
  | started hwaiting =>
    obtain ⟨tick, interval, hwaiting⟩ := hwaiting
    exact ⟨h.delays, h.tracks, h.ordered, h.time, h.oneShot,
      .waiting ⟨tick, interval, hwaiting.handling _ _⟩⟩
  | stopped hquiet => exact ⟨h.delays, h.tracks, h.ordered, h.time, h.oneShot, .quiet hquiet⟩
  | expired hover =>
    obtain ⟨tick, interval, hlast, hle⟩ := hover.last
    exact ⟨delays_eo h.delays hlast hle, h.tracks, h.ordered, h.time, h.oneShot,
      .stopped hover.quiet⟩

omit [DecidableEq FB] in
/-- **What the function block sets out to do with an event.** -/
theorem phase_executeEvent {quiet waiting elapsed elapsed' : Prop} {active : Bool} {eiid : ℕ}
    (h : Phase quiet waiting elapsed [] active) (hexternal : eiid = externalEventID → elapsed') :
    Phase quiet (waiting ∧ eiid ≠ eventSTOPID) elapsed' (executeEvent type active eiid) active := by
  have htimedFB (hne : eiid ≠ externalEventID) :
      Phase quiet (waiting ∧ eiid ≠ eventSTOPID) elapsed' (timedFBExecuteEvent active eiid)
        active := by
    rw [timedFBExecuteEvent, if_neg hne]
    cases h with
    | quiet hquiet =>
      split
      · exact .quiet hquiet
      · exact .quiet hquiet
    | waiting hwaiting =>
      split
      · exact .stopping
      · rename_i hstop
        exact .waiting ⟨hwaiting, hstop⟩
  cases type with
  | eDelay =>
    show Phase _ _ _ (eDelayExecuteEvent active eiid) active
    rw [eDelayExecuteEvent]
    split
    · rename_i hexternal'
      exact .expired (hexternal hexternal')
    · rename_i hne
      split
      · rename_i hstart
        cases h with
        | quiet hquiet => exact .starting hquiet
        | waiting hwaiting => exact .waiting ⟨hwaiting, by rw [hstart]; decide⟩
      · exact htimedFB hne
  | eRDelay =>
    show Phase _ _ _ (eRDelayExecuteEvent active eiid) active
    rw [eRDelayExecuteEvent]
    split
    · rename_i hexternal'
      exact .expired (hexternal hexternal')
    · rename_i hne
      split
      · cases h with
        | quiet hquiet => exact .starting hquiet
        | waiting hwaiting => exact .restarting
      · exact htimedFB hne

/-- The event that is received is one of those that were under way. -/
theorem expired_received {events externals : List (FB × ℕ)}
    (htracks : s.chain.Tracks events externals)
    (hreceived : s.chain.received = some (fb, externalEventID)) :
    { s with chain := s.chain.mainRun }.expired fb + 1 ≤ s.expired fb := by
  have hcount := htracks.count_mainRun (fb, externalEventID)
  rw [hreceived, Option.toList_some, List.count_singleton_self] at hcount
  rw [Nat.add_comm] at hcount
  exact Nat.add_le_add_left hcount _

/-- **The external event of the last `START`**: nothing else is under way, and the interval has
passed. -/
theorem Waiting.received {tick interval : ℕ} (h : s.Waiting fb tick interval)
    {events externals : List (FB × ℕ)} (htracks : s.chain.Tracks events externals)
    (hreceived : s.chain.received = some (fb, externalEventID)) :
    { s with chain := s.chain.mainRun }.Over fb := by
  have hexpired := expired_received htracks hreceived
  have hone := h.one
  refine ⟨⟨List.eq_nil_of_length_eq_zero ?_, by omega⟩, tick, interval, h.last,
    h.elapsed (by omega)⟩
  show (s.registered fb).length = 0
  omega

/-- **An external event that is received is that of the last `START`.** -/
theorem over_received {events externals : List (FB × ℕ)}
    (htracks : s.chain.Tracks events externals)
    (hreceived : s.chain.received = some (fb, externalEventID)) {active : Bool}
    (h : Phase (s.Quiet fb) (∃ tick interval, s.Waiting fb tick interval) (s.Over fb) [] active) :
    { s with chain := s.chain.mainRun }.Over fb := by
  cases h with
  | quiet hquiet =>
    have hexpired := expired_received htracks hreceived
    rw [hquiet.2] at hexpired
    exact absurd hexpired (Nat.not_succ_le_zero _)
  | waiting hwaiting =>
    obtain ⟨tick, interval, hwaiting⟩ := hwaiting
    exact hwaiting.received htracks hreceived

theorem passes_mainRun {events externals : List (FB × ℕ)}
    (htracks : s.chain.Tracks events externals) :
    Passes fb s { s with chain := s.chain.mainRun } :=
  have hnone : (fb, externalEventID) ∉
      (EventChain.Action.mainRun : EventChain.Action (FB × ℕ)).events :=
    List.not_mem_nil
  passes_chain htracks hnone

/-- **What the thread of the event chain execution keeps**, if the condition is satisfied. -/
theorem Good.mainRun (h : s.Good fb) (dt : BitVec 64)
    (hcond : s.Cond ticksPerSecond fb (.mainRun dt)) :
    Good fb (s.mainRun type ticksPerSecond fb dt) := by
  obtain ⟨events, externals, htracks⟩ := h.tracks
  obtain ⟨events', externals', -, htracks'⟩ := htracks.mainRun
  let t := { s with chain := s.chain.mainRun }
  have hpasses : Passes fb s t := passes_mainRun htracks
  have hgood : t.Good fb := ⟨h.delays, ⟨events', externals', htracks'⟩, h.ordered, h.time,
    h.oneShot, hpasses.inPhase h.time rfl rfl h.phase⟩
  rw [DelayFB.mainRun]
  split
  · rename_i first rest hhandling
    exact h.access ticksPerSecond hhandling dt hcond
  · rename_i hhandling
    split
    · rename_i receiver eiid hreceived
      split
      · rename_i hreceiver
        subst hreceiver
        have hphase := h.phase
        rw [InPhase, hhandling] at hphase
        have hsame (hstop : eiid ≠ eventSTOPID) :
            (t.receiveInputEvent type dt eiid).history = t.history := if_neg hstop
        refine ⟨?_, hgood.tracks, hgood.ordered, hgood.time, hgood.oneShot, ?_⟩
        · show Delays (if eiid = eventSTOPID then .stop :: s.history else s.history)
          split
          · exact h.delays.cons nofun
          · exact h.delays
        · have hover (hexternal : eiid = externalEventID) :
              (t.receiveInputEvent type dt eiid).Over receiver := by
            rw [hexternal] at hreceived
            have hover := over_received htracks hreceived hphase
            obtain ⟨tick, interval, hlast, hle⟩ := hover.last
            refine ⟨hover.quiet, tick, interval, ?_, hle⟩
            rw [hsame (by rw [hexternal]; decide)]
            exact hlast
          refine (phase_executeEvent type hphase hover).imp hpasses.quiet ?_ id
          rintro ⟨⟨tick, interval, hwaiting⟩, hstop⟩
          have hnext := hpasses.waiting h.time hwaiting
          refine ⟨tick, interval, hnext.one, ?_, hnext.begun, hnext.timeOut, hnext.elapsed⟩
          rw [hsame hstop]
          exact hnext.last
      · exact hgood
    · exact hgood

/-- **What the timer's thread keeps.** -/
theorem Good.nextTick (h : s.Good fb) : Good fb s.nextTick := by
  obtain ⟨events, externals, htracks⟩ := h.tracks
  rw [DelayFB.nextTick]
  split
  · rename_i n timedFB hstarted
    obtain ⟨events', externals', -, htracks'⟩ :=
      htracks.step (.startEventChain (timedFB, externalEventID))
    exact ⟨h.delays, ⟨events', externals', htracks'⟩, h.ordered, h.time, h.oneShot,
      (passes_startEventChain htracks hstarted).inPhase h.time rfl rfl h.phase⟩
  · split
    · rename_i hpoint
      refine ⟨h.delays, h.tracks, h.ordered.beginTick, ?_, ?_,
        (passes_beginTick hpoint).inPhase h.time rfl rfl h.phase⟩
      · show s.timer.beginTick.forteTime.val = s.timer.beginTick.ticks % 2 ^ 64
        rw [TimerHandler.beginTick_eq]
        show (s.timer.forteTime + 1).val = (s.timer.ticks + 1) % 2 ^ 64
        rw [Fin.val_add, h.time, Fin.val_one, Nat.mod_add_mod]
      · show ∀ entry ∈ s.timer.beginTick.timedFBList ++ s.timer.beginTick.addFBList, _
        rw [TimerHandler.beginTick_eq]
        intro entry hentry
        exact h.oneShot entry ((List.filter_sublist.append_right _).subset hentry)
    · rename_i hpoint
      obtain ⟨timed, started, hframe⟩ := TimerHandler.processTimedFBList_frame s.timer
      refine ⟨h.delays, h.tracks, h.ordered.processTimedFBList, ?_, ?_,
        (passes_processTimedFBList h.ordered h.oneShot hpoint).inPhase h.time rfl rfl h.phase⟩
      · show s.timer.processTimedFBList.forteTime.val = s.timer.processTimedFBList.ticks % 2 ^ 64
        rw [hframe]
        exact h.time
      · intro entry hentry hfb
        rcases List.mem_append.mp hentry with htimed | hadd
        · exact h.oneShot entry (List.mem_append_left _ (mem_of_mem_processTimedFBList h.ordered
            (fun entry hentry => h.oneShot entry (List.mem_append_left _ hentry)) htimed hfb)) hfb
        · have hadd' : entry ∈ s.timer.processTimedFBList.addFBList := hadd
          rw [hframe] at hadd'
          exact h.oneShot entry (List.mem_append_right _ hadd') hfb
    · rename_i hpoint
      obtain ⟨timed, started, hframe⟩ := TimerHandler.processAddList_frame s.timer
      refine ⟨h.delays, h.tracks, h.ordered.processAddList, ?_, ?_,
        (passes_processAddList h.oneShot hpoint).inPhase h.time rfl rfl h.phase⟩
      · show s.timer.processAddList.forteTime.val = s.timer.processAddList.ticks % 2 ^ 64
        rw [hframe]
        exact h.time
      · intro entry hentry hfb
        rcases List.mem_append.mp hentry with htimed | hadd
        · exact h.oneShot entry (mem_of_mem_processAddList
            (fun entry hentry => h.oneShot entry (List.mem_append_right _ hentry)) htimed hfb) hfb
        · exact absurd hadd List.not_mem_nil

/-- **What a call of another function block keeps.** -/
theorem Good.timedFB (h : s.Good fb) {call : TimerHandler.Call FB} (hcall : call ≠ .nextTick)
    (hfb : call.about fb = false) :
    Good fb { s with timer := s.timer.step ticksPerSecond call } := by
  have hadd {entry : TimedFBListEntry FB} (hne : entry.timedFB ≠ fb) :
      ∀ entry' ∈ s.timer.timedFBList ++ (s.timer.addFBList ++ [entry]), entry'.timedFB = fb →
        entry'.interval = oneShotIndicator := by
    intro entry' hentry' hfb'
    rw [← List.append_assoc] at hentry'
    rcases List.mem_append.mp hentry' with hold | hnew
    · exact h.oneShot entry' hold hfb'
    · obtain rfl := List.mem_singleton.mp hnew
      exact absurd hfb' hne
  have hphase := (passes_timedFB ticksPerSecond hcall hfb).inPhase h.time rfl rfl h.phase
  cases call with
  | registerOneShotTimedFB fb' dt =>
    exact ⟨h.delays, h.tracks, h.ordered, h.time, hadd (of_decide_eq_false hfb), hphase⟩
  | registerPeriodicTimedFB fb' dt =>
    exact ⟨h.delays, h.tracks, h.ordered, h.time, hadd (of_decide_eq_false hfb), hphase⟩
  | unregisterTimedFB fb' => exact ⟨h.delays, h.tracks, h.ordered, h.time, h.oneShot, hphase⟩
  | nextTick => exact absurd rfl hcall

/-- **What a step keeps**, if the condition is satisfied. -/
theorem Good.step (h : s.Good fb) (action : Action FB) (hcond : s.Cond ticksPerSecond fb action) :
    Good fb (s.step type ticksPerSecond fb action) := by
  obtain ⟨events, externals, htracks⟩ := h.tracks
  have hchain (chainAction : EventChain.Action (FB × ℕ))
      (hevents : (fb, externalEventID) ∉ chainAction.events) :
      Good fb { s with chain := s.chain.step chainAction } := by
    obtain ⟨events', externals', -, htracks'⟩ := htracks.step chainAction
    exact ⟨h.delays, ⟨events', externals', htracks'⟩, h.ordered, h.time, h.oneShot,
      (passes_chain htracks hevents).inPhase h.time rfl rfl h.phase⟩
  cases action with
  | nextTick => exact h.nextTick
  | mainRun dt => exact h.mainRun type ticksPerSecond dt hcond
  | timedFB call =>
    have hcalls (hcall : call ≠ .nextTick) : Good fb (if call.about fb then s
        else { s with timer := s.timer.step ticksPerSecond call }) := by
      split
      · exact h
      · rename_i hfb
        exact h.timedFB ticksPerSecond hcall (Bool.not_eq_true _ ▸ hfb)
    cases call with
    | nextTick => exact h
    | registerOneShotTimedFB fb' dt => exact hcalls (by rintro ⟨⟩)
    | registerPeriodicTimedFB fb' dt => exact hcalls (by rintro ⟨⟩)
    | unregisterTimedFB fb' => exact hcalls (by rintro ⟨⟩)
  | startEventChain event =>
    rw [DelayFB.step]
    split
    · exact h
    · rename_i hne
      exact hchain _ fun hmem => hne (List.mem_singleton.mp hmem).symm
  | resumeSelfSuspend => exact hchain _ List.not_mem_nil
  | addEventEntry event =>
    rw [DelayFB.step]
    split
    · exact h
    · rename_i hne
      exact hchain _ fun hmem => hne (List.mem_singleton.mp hmem).symm

end

theorem good_initial (elements externalElements : ℕ → FB × ℕ) :
    Good fb (initial elements externalElements : DelayFB k l FB) where
  delays later n before heq := absurd heq (by simp [initial])
  tracks := ⟨[], [], EventChain.tracks_initial _ _⟩
  ordered := List.Pairwise.nil
  time := rfl
  oneShot _ hentry := absurd hentry List.not_mem_nil
  phase := by
    refine .quiet ⟨rfl, ?_⟩
    have htracks := EventChain.tracks_initial (k := k) (l := l) elements externalElements
    show _ + List.count _ (EventChain.pending (EventChain.initial elements externalElements)) = 0
    rw [htracks.pending]
    rfl

/-- **A delay keeps to its interval, and to `STOP`**: in every run of a delay function block of
either type, in which each cancellation reaches what is under way and the intervals and times fit
into their types, `EO` comes at most once for each `START` that was registered, not before its
interval has passed, and never behind a `STOP`. -/
theorem delays_run (elements externalElements : ℕ → FB × ℕ) (actions : List (Action FB))
    (hcond : Runs.Each (step type ticksPerSecond fb) (Cond ticksPerSecond fb)
      (initial elements externalElements : DelayFB k l FB) actions) :
    Delays (Runs.run (step type ticksPerSecond fb)
      (initial elements externalElements : DelayFB k l FB) actions).history :=
  (Runs.good_run (fun _ action h hcond => h.step type ticksPerSecond action hcond)
    (good_initial fb elements externalElements) hcond).delays

/-- The steps by which an event from outside is delivered and dealt with. -/
def deliver (eiid rounds : ℕ) (dt : BitVec 64) : List (Action ℕ) :=
  .startEventChain (0, eiid) :: List.replicate rounds (.mainRun dt)

/-- `START` for two milliseconds, a tick, `STOP`, `START` for one millisecond and two ticks. -/
theorem delays_run_restarted : Delays (Runs.run (step .eDelay 1000 0)
    (initial (fun _ => (0, 0)) fun _ => (0, 0) : DelayFB 8 4 ℕ)
    (deliver eventSTARTID 6 2000000 ++ List.replicate 3 .nextTick ++ deliver eventSTOPID 6 0 ++
      deliver eventSTARTID 6 1000000 ++ List.replicate 7 .nextTick ++
      List.replicate 6 (.mainRun 0))).history :=
  delays_run .eDelay 1000 0 _ _ _ (by decide +kernel)

/-- `STOP` comes before the next tick, and so the removal before the registration. -/
theorem not_delays_stopped :
    ¬∀ (type : DelayType) (ticksPerSecond : ℤ) (fb : ℕ) (elements externalElements : ℕ → ℕ × ℕ)
      (actions : List (Action ℕ)), Delays (Runs.run (step type ticksPerSecond fb)
        (initial elements externalElements : DelayFB 8 4 ℕ) actions).history := by
  intro h
  have hstop := (h .eDelay 1000 0 (fun _ => (0, 0)) (fun _ => (0, 0))
    (deliver eventSTARTID 6 2000000 ++ deliver eventSTOPID 6 0 ++ List.replicate 7 .nextTick ++
      List.replicate 6 (.mainRun 0)) [] 2 [.stop, .start 0 2] (by decide +kernel)).2
  obtain ⟨tick, interval, hmem⟩ := hstop [] _ rfl
  exact absurd hmem List.not_mem_nil

end DelayFB

end Forte
