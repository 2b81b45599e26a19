import Mathlib.Data.Fin.Basic
import Mathlib.Order.Fin.Basic
import Forte.Lib.UpperBound
import Forte.Lib.Words

/-!
# The timer handler

`CTimerHandler` starts the event chains of function blocks after an interval, once or
periodically. Registrations and removals come from the threads of the resources at any time
and are collected in two lists, each under a lock of its own; `nextTick` merges them into the
list it works on, the removals first and the registrations last.

A removal therefore takes out what was registered when the last tick had ended, and leaves a
registration that came in between (`Forte.TimerHandler.Outliving`) – although it was made
before the removal. This is the only way for a function block to be triggered in a later
tick than the next one after it was unregistered (`Forte.TimerHandler.cancelled_iff`). Other
function blocks never notice (`Forte.TimerHandler.others_run`).
-/

namespace Forte

/-- `uint_fast64_t`, the type of points in time. -/
abbrev TickTime := Fin (2 ^ 64)

/-- `STimedFBListEntry`. -/
structure TimedFBListEntry (FB : Type) where
  timedFB : FB
  /-- Absolute time when the function block is to be triggered. -/
  timeOut : TickTime
  /-- Time between two triggers, or `scmOneShotIndicator`. -/
  interval : Fin (2 ^ 32)
  deriving DecidableEq

/-- `scmOneShotIndicator`. -/
def oneShotIndicator : Fin (2 ^ 32) := 0

/-- The state of `CTimerHandler`. -/
structure TimerHandler (FB : Type) where
  forteTime : TickTime
  timedFBList : List (TimedFBListEntry FB)
  addFBList : List (TimedFBListEntry FB)
  removeFBList : List FB
  /-- The timer's thread is in `nextTick`, after `processRemoveList` and before
  `processTimedFBList`. -/
  ticking : Bool
  /-- The number of ticks that have begun. -/
  ticks : ℕ
  /-- The event chains that were started, each with the tick in which it was. -/
  started : List (ℕ × FB)

namespace TimerHandler

variable {FB : Type} [DecidableEq FB]

/-- A timer handler as it is created. -/
def initial : TimerHandler FB := ⟨0, [], [], [], false, 0, []⟩

/-- `csmForteTimeBaseUnitsPerSecond`. -/
def forteTimeBaseUnitsPerSecond : ℤ := 1000000000

/-- `convertIntervalToTimerHandlerUnits`; the configuration sets `cgForteTicksPerSecond`. -/
def convertIntervalToTimerHandlerUnits (ticksPerSecond : ℤ) (timeInterval : BitVec 64) :
    Fin (2 ^ 32) :=
  let interval := timeInterval.toInt.tdiv (forteTimeBaseUnitsPerSecond.tdiv ticksPerSecond)
  if interval > 0 then (BitVec.ofInt 32 interval).toFin else 1

/-- A point in time an interval later, in 64 bits. -/
def after (time : TickTime) (interval : Fin (2 ^ 32)) : TickTime :=
  time + Fin.castLE (by decide) interval

/-- `registerOneShotTimedFB`. -/
def registerOneShotTimedFB (ticksPerSecond : ℤ) (fb : FB) (timeInterval : BitVec 64)
    (s : TimerHandler FB) : TimerHandler FB :=
  let interval := convertIntervalToTimerHandlerUnits ticksPerSecond timeInterval
  { s with addFBList := s.addFBList ++ [⟨fb, after s.forteTime interval, oneShotIndicator⟩] }

/-- `registerPeriodicTimedFB`. -/
def registerPeriodicTimedFB (ticksPerSecond : ℤ) (fb : FB) (timeInterval : BitVec 64)
    (s : TimerHandler FB) : TimerHandler FB :=
  let interval := convertIntervalToTimerHandlerUnits ticksPerSecond timeInterval
  { s with addFBList := s.addFBList ++ [⟨fb, after s.forteTime interval, interval⟩] }

/-- `unregisterTimedFB`. -/
def unregisterTimedFB (fb : FB) (s : TimerHandler FB) : TimerHandler FB :=
  { s with removeFBList := s.removeFBList ++ [fb] }

/-- `addTimedFBEntry`. -/
def addTimedFBEntry (s : TimerHandler FB) (entry : TimedFBListEntry FB) : TimerHandler FB :=
  { s with timedFBList := UpperBound.insert TimedFBListEntry.timeOut entry s.timedFBList }

/-- `startNewEventChain` of the device execution. -/
def startNewEventChain (s : TimerHandler FB) (fb : FB) : TimerHandler FB :=
  { s with started := s.started ++ [(s.ticks, fb)] }

/-- `triggerTimedFB`. -/
def triggerTimedFB (s : TimerHandler FB) (entry : TimedFBListEntry FB) : TimerHandler FB :=
  let s := s.startNewEventChain entry.timedFB
  if entry.interval ≠ oneShotIndicator then
    s.addTimedFBEntry { entry with timeOut := after s.forteTime entry.interval }
  else s

/-- `removeTimedFB`. -/
def removeTimedFB (s : TimerHandler FB) (fb : FB) : TimerHandler FB :=
  { s with timedFBList := s.timedFBList.filter fun entry => entry.timedFB ≠ fb }

/-- `processRemoveList`. -/
def processRemoveList (s : TimerHandler FB) : TimerHandler FB :=
  { s.removeFBList.foldl removeTimedFB s with removeFBList := [] }

/-- The list after the entries that are due have been erased. -/
def eraseDue (s : TimerHandler FB) : TimerHandler FB :=
  { s with timedFBList := UpperBound.beyond TimedFBListEntry.timeOut s.forteTime s.timedFBList }

/-- `processTimedFBList`. -/
def processTimedFBList (s : TimerHandler FB) : TimerHandler FB :=
  (UpperBound.upTo TimedFBListEntry.timeOut s.forteTime s.timedFBList).foldl triggerTimedFB
    s.eraseDue

/-- One entry of `processAddList`. -/
def addPending (s : TimerHandler FB) (entry : TimedFBListEntry FB) : TimerHandler FB :=
  if entry.timeOut ≤ s.forteTime then s.triggerTimedFB entry else s.addTimedFBEntry entry

/-- `processAddList`. -/
def processAddList (s : TimerHandler FB) : TimerHandler FB :=
  { s.addFBList.foldl addPending s with addFBList := [] }

/-- `nextTick` up to and with `processRemoveList`. -/
def beginTick (s : TimerHandler FB) : TimerHandler FB :=
  { processRemoveList { s with forteTime := s.forteTime + 1, ticks := s.ticks + 1 } with
    ticking := true }

/-- `nextTick` from `processTimedFBList` on. -/
def finishTick (s : TimerHandler FB) : TimerHandler FB :=
  { s.processTimedFBList.processAddList with ticking := false }

/-- What the threads do. The calls of other threads can come in the middle of a `nextTick`;
what comes between two of its parts has the same effect before or after them, except for
the one place between the lists of removals and of registrations, so that a tick is taken
in the two steps `beginTick` and `finishTick`. -/
inductive Call (FB : Type)
  | registerOneShotTimedFB (fb : FB) (timeInterval : BitVec 64)
  | registerPeriodicTimedFB (fb : FB) (timeInterval : BitVec 64)
  | unregisterTimedFB (fb : FB)
  | nextTick

/-- One step of a thread. -/
def step (ticksPerSecond : ℤ) (s : TimerHandler FB) : Call FB → TimerHandler FB
  | .registerOneShotTimedFB fb interval => s.registerOneShotTimedFB ticksPerSecond fb interval
  | .registerPeriodicTimedFB fb interval => s.registerPeriodicTimedFB ticksPerSecond fb interval
  | .unregisterTimedFB fb => s.unregisterTimedFB fb
  | .nextTick => if s.ticking then s.finishTick else s.beginTick

/-- The steps of the threads, in any order. -/
def run (ticksPerSecond : ℤ) (s : TimerHandler FB) (calls : List (Call FB)) : TimerHandler FB :=
  calls.foldl (step ticksPerSecond) s

/-- The call registers the function block. -/
def Call.Registers (fb : FB) : Call FB → Prop
  | .registerOneShotTimedFB fb' _ => fb' = fb
  | .registerPeriodicTimedFB fb' _ => fb' = fb
  | _ => False

/-- The call is about the function block. -/
def Call.about (fb : FB) : Call FB → Bool
  | .registerOneShotTimedFB fb' _ => fb' = fb
  | .registerPeriodicTimedFB fb' _ => fb' = fb
  | .unregisterTimedFB fb' => fb' = fb
  | .nextTick => false

/-- What the timer handler has of all function blocks but one. -/
def others (fb : FB) (s : TimerHandler FB) : TimerHandler FB :=
  { s with
    timedFBList := s.timedFBList.filter fun entry => entry.timedFB ≠ fb
    addFBList := s.addFBList.filter fun entry => entry.timedFB ≠ fb
    removeFBList := s.removeFBList.filter fun fb' => fb' ≠ fb
    started := s.started.filter fun start => start.2 ≠ fb }

/-! ### The list is sorted -/

/-- **The list of timed function blocks is sorted**, as the search for upper bounds takes for
granted. -/
def Ordered (s : TimerHandler FB) : Prop :=
  UpperBound.Sorted TimedFBListEntry.timeOut s.timedFBList

section

variable {s : TimerHandler FB}

omit [DecidableEq FB] in
theorem Ordered.addTimedFBEntry (h : s.Ordered) (entry : TimedFBListEntry FB) :
    (s.addTimedFBEntry entry).Ordered :=
  UpperBound.Sorted.insert h entry

omit [DecidableEq FB] in
theorem Ordered.triggerTimedFB (h : s.Ordered) (entry : TimedFBListEntry FB) :
    (s.triggerTimedFB entry).Ordered := by
  rw [TimerHandler.triggerTimedFB]
  split
  · exact addTimedFBEntry (s := s.startNewEventChain entry.timedFB) h _
  · exact h

omit [DecidableEq FB] in
theorem Ordered.addPending (h : s.Ordered) (entry : TimedFBListEntry FB) :
    (s.addPending entry).Ordered := by
  rw [TimerHandler.addPending]
  split
  · exact h.triggerTimedFB entry
  · exact h.addTimedFBEntry entry

omit [DecidableEq FB] in
/-- What one element keeps, a list of them keeps. -/
theorem Ordered.foldl {β : Type} {f : TimerHandler FB → β → TimerHandler FB}
    (hf : ∀ {s : TimerHandler FB}, s.Ordered → ∀ b, (f s b).Ordered) (h : s.Ordered)
    (l : List β) : (l.foldl f s).Ordered := by
  induction l generalizing s with
  | nil => exact h
  | cons b l ih => exact ih (hf h b)

theorem Ordered.removeTimedFB (h : s.Ordered) (fb : FB) : (s.removeTimedFB fb).Ordered :=
  UpperBound.Sorted.filter h _

theorem Ordered.beginTick (h : s.Ordered) : s.beginTick.Ordered :=
  foldl (s := { s with forteTime := s.forteTime + 1, ticks := s.ticks + 1 }) removeTimedFB h
    s.removeFBList

omit [DecidableEq FB] in
theorem Ordered.processTimedFBList (h : s.Ordered) : s.processTimedFBList.Ordered :=
  foldl (s := s.eraseDue) triggerTimedFB (UpperBound.Sorted.beyond h _) _

omit [DecidableEq FB] in
theorem Ordered.processAddList (h : s.Ordered) : s.processAddList.Ordered := foldl addPending h _

omit [DecidableEq FB] in
theorem Ordered.finishTick (h : s.Ordered) : s.finishTick.Ordered :=
  processAddList h.processTimedFBList

theorem Ordered.step (ticksPerSecond : ℤ) (h : s.Ordered) (call : Call FB) :
    (s.step ticksPerSecond call).Ordered := by
  cases call with
  | registerOneShotTimedFB fb interval => exact h
  | registerPeriodicTimedFB fb interval => exact h
  | unregisterTimedFB fb => exact h
  | nextTick =>
    rw [TimerHandler.step]
    split
    · exact h.finishTick
    · exact h.beginTick

theorem ordered_run (ticksPerSecond : ℤ) (calls : List (Call FB)) :
    (initial.run ticksPerSecond calls : TimerHandler FB).Ordered :=
  have hinitial : (initial : TimerHandler FB).Ordered := List.Pairwise.nil
  hinitial.foldl (fun h call => h.step ticksPerSecond call) calls

end

/-! ### What a tick changes -/

section

variable {s : TimerHandler FB}

omit [DecidableEq FB] in
theorem triggerTimedFB_frame (s : TimerHandler FB) (entry : TimedFBListEntry FB) :
    ∃ timed started,
      s.triggerTimedFB entry = { s with timedFBList := timed, started := started } := by
  rw [triggerTimedFB]
  split
  · exact ⟨_, _, rfl⟩
  · exact ⟨_, _, rfl⟩

omit [DecidableEq FB] in
theorem addPending_frame (s : TimerHandler FB) (entry : TimedFBListEntry FB) :
    ∃ timed started, s.addPending entry = { s with timedFBList := timed, started := started } := by
  rw [addPending]
  split
  · exact triggerTimedFB_frame s entry
  · exact ⟨_, _, rfl⟩

omit [DecidableEq FB] in
theorem foldl_frame {f : TimerHandler FB → TimedFBListEntry FB → TimerHandler FB}
    (hf : ∀ s entry, ∃ timed started,
      f s entry = { s with timedFBList := timed, started := started })
    (s : TimerHandler FB) (l : List (TimedFBListEntry FB)) :
    ∃ timed started, l.foldl f s = { s with timedFBList := timed, started := started } := by
  refine List.foldlRecOn l f
    (motive := fun t => ∃ timed started, t = { s with timedFBList := timed, started := started })
    ⟨s.timedFBList, s.started, rfl⟩ ?_
  rintro _ ⟨timed, started, rfl⟩ entry -
  obtain ⟨timed', started', heq⟩ := hf _ entry
  exact ⟨timed', started', heq⟩

omit [DecidableEq FB] in
theorem processTimedFBList_frame (s : TimerHandler FB) :
    ∃ timed started, s.processTimedFBList = { s with timedFBList := timed, started := started } :=
  foldl_frame triggerTimedFB_frame s.eraseDue _

omit [DecidableEq FB] in
theorem finishTick_frame (s : TimerHandler FB) :
    ∃ timed started, s.finishTick =
      { s with timedFBList := timed, started := started, addFBList := [], ticking := false } := by
  obtain ⟨timed, started, heq⟩ := processTimedFBList_frame s
  obtain ⟨timed', started', heq'⟩ :=
    foldl_frame addPending_frame s.processTimedFBList s.processTimedFBList.addFBList
  refine ⟨timed', started', ?_⟩
  rw [finishTick, processAddList, heq', heq]

theorem foldl_removeTimedFB (s : TimerHandler FB) (l : List FB) :
    l.foldl removeTimedFB s =
      { s with timedFBList := s.timedFBList.filter fun entry => entry.timedFB ∉ l } := by
  induction l generalizing s with
  | nil => simp
  | cons fb l ih =>
    rw [List.foldl_cons, ih, removeTimedFB, List.filter_filter]
    refine congrArg (fun timed => { s with timedFBList := timed })
      (List.filter_congr fun entry _ => ?_)
    rw [Bool.eq_iff_iff]
    simp [and_comm]

theorem beginTick_eq (s : TimerHandler FB) :
    s.beginTick =
      { s with
        forteTime := s.forteTime + 1
        ticks := s.ticks + 1
        timedFBList := s.timedFBList.filter fun entry => entry.timedFB ∉ s.removeFBList
        removeFBList := []
        ticking := true } := by
  rw [beginTick, processRemoveList, foldl_removeTimedFB]

end

/-! ### Other function blocks -/

section

variable {s : TimerHandler FB} (fb : FB)

theorem others_addTimedFBEntry (h : s.Ordered) (entry : TimedFBListEntry FB) :
    others fb (s.addTimedFBEntry entry) =
      if entry.timedFB = fb then others fb s else (others fb s).addTimedFBEntry entry := by
  have hfilter := UpperBound.filter_insert h entry fun entry => entry.timedFB ≠ fb
  by_cases hfb : entry.timedFB = fb
  · rw [if_pos hfb]
    rw [if_neg (by simpa using hfb)] at hfilter
    exact congrArg (fun l => { others fb s with timedFBList := l }) hfilter
  · rw [if_neg hfb]
    rw [if_pos (by simpa using hfb)] at hfilter
    exact congrArg (fun l => { others fb s with timedFBList := l }) hfilter

theorem others_triggerTimedFB (h : s.Ordered) (entry : TimedFBListEntry FB) :
    others fb (s.triggerTimedFB entry) =
      if entry.timedFB = fb then others fb s else (others fb s).triggerTimedFB entry := by
  have hstart : others fb (s.startNewEventChain entry.timedFB) =
      if entry.timedFB = fb then others fb s
      else (others fb s).startNewEventChain entry.timedFB := by
    split
    · simp_all [others, startNewEventChain]
    · simp_all [others, startNewEventChain]
  rw [triggerTimedFB, triggerTimedFB]
  split
  · rw [others_addTimedFBEntry fb (s := s.startNewEventChain entry.timedFB) h, hstart]
    split
    · rfl
    · rfl
  · exact hstart

theorem others_addPending (h : s.Ordered) (entry : TimedFBListEntry FB) :
    others fb (s.addPending entry) =
      if entry.timedFB = fb then others fb s else (others fb s).addPending entry := by
  rw [addPending, addPending]
  change _ = if _ then _ else if entry.timeOut ≤ s.forteTime then _ else _
  split
  · exact others_triggerTimedFB fb h entry
  · exact others_addTimedFBEntry fb h entry

theorem others_removeTimedFB (fb' : FB) :
    others fb (s.removeTimedFB fb') =
      if fb' = fb then others fb s else (others fb s).removeTimedFB fb' := by
  have hcomm := List.filter_comm (fun entry : TimedFBListEntry FB => entry.timedFB ≠ fb)
    (fun entry => entry.timedFB ≠ fb') s.timedFBList
  have heq : others fb (s.removeTimedFB fb') = (others fb s).removeTimedFB fb' :=
    congrArg (fun l => { others fb s with timedFBList := l }) hcomm
  split
  · rename_i hfb
    subst hfb
    rw [heq]
    refine congrArg (fun l => { others fb' s with timedFBList := l }) ?_
    exact List.filter_eq_self.mpr fun entry hmem => (List.mem_filter.mp hmem).2
  · exact heq

/-- **What a list does for the others** is what its elements of the others do. -/
theorem others_foldl {β : Type} {f : TimerHandler FB → β → TimerHandler FB} (of : β → FB)
    (hkeep : ∀ {s : TimerHandler FB}, s.Ordered → ∀ b, (f s b).Ordered)
    (hf : ∀ {s : TimerHandler FB}, s.Ordered → ∀ b,
      others fb (f s b) = if of b = fb then others fb s else f (others fb s) b)
    (h : s.Ordered) (l : List β) :
    others fb (l.foldl f s) = (l.filter fun b => of b ≠ fb).foldl f (others fb s) := by
  induction l generalizing s with
  | nil => rfl
  | cons b l ih =>
    rw [List.foldl_cons, ih (hkeep h b), hf h, List.filter_cons]
    by_cases hb : of b = fb
    · rw [if_pos hb, if_neg (by simpa using hb)]
    · rw [if_neg hb, if_pos (by simpa using hb), List.foldl_cons]

theorem others_beginTick (h : s.Ordered) :
    others fb s.beginTick = (others fb s).beginTick := by
  have hremove := others_foldl fb id (f := removeTimedFB)
    (s := { s with forteTime := s.forteTime + 1, ticks := s.ticks + 1 })
    Ordered.removeTimedFB (fun _ => others_removeTimedFB fb) h s.removeFBList
  exact congrArg (fun s => { s with removeFBList := [], ticking := true }) hremove

theorem others_processTimedFBList (h : s.Ordered) :
    others fb s.processTimedFBList = (others fb s).processTimedFBList := by
  have herase : others fb s.eraseDue = (others fb s).eraseDue :=
    congrArg (fun l => { others fb s with timedFBList := l })
      (UpperBound.beyond_filter h s.forteTime _).symm
  rw [processTimedFBList, others_foldl fb TimedFBListEntry.timedFB Ordered.triggerTimedFB
    (others_triggerTimedFB fb) (s := s.eraseDue) (UpperBound.Sorted.beyond h _), herase,
    ← UpperBound.upTo_filter h]
  rfl

omit [DecidableEq FB] in
theorem addFBList_processTimedFBList : s.processTimedFBList.addFBList = s.addFBList := by
  obtain ⟨timed, started, heq⟩ := processTimedFBList_frame s
  rw [heq]

theorem others_finishTick (h : s.Ordered) :
    others fb s.finishTick = (others fb s).finishTick := by
  have hadd := others_foldl fb TimedFBListEntry.timedFB Ordered.addPending
    (others_addPending fb) h.processTimedFBList s.processTimedFBList.addFBList
  rw [others_processTimedFBList fb h] at hadd
  have hlist : (s.processTimedFBList.addFBList.filter fun entry => entry.timedFB ≠ fb) =
      (others fb s).processTimedFBList.addFBList := by
    rw [addFBList_processTimedFBList, addFBList_processTimedFBList]
    rfl
  rw [hlist] at hadd
  exact congrArg (fun s => { s with addFBList := [], ticking := false }) hadd

/-- **What a step does for the other function blocks** does not depend on the one that is
left out, nor do the calls about that one matter. -/
theorem others_step (ticksPerSecond : ℤ) (h : s.Ordered) (call : Call FB) :
    others fb (s.step ticksPerSecond call) =
      if call.about fb then others fb s else (others fb s).step ticksPerSecond call := by
  cases call with
  | registerOneShotTimedFB fb' interval =>
    by_cases hfb : fb' = fb
    · simp [step, Call.about, registerOneShotTimedFB, others, hfb]
    · simp [step, Call.about, registerOneShotTimedFB, others, hfb]
  | registerPeriodicTimedFB fb' interval =>
    by_cases hfb : fb' = fb
    · simp [step, Call.about, registerPeriodicTimedFB, others, hfb]
    · simp [step, Call.about, registerPeriodicTimedFB, others, hfb]
  | unregisterTimedFB fb' =>
    by_cases hfb : fb' = fb
    · simp [step, Call.about, unregisterTimedFB, others, hfb]
    · simp [step, Call.about, unregisterTimedFB, others, hfb]
  | nextTick =>
    change _ = if false then _ else if s.ticking then _ else _
    rw [if_neg (by decide), step]
    split
    · exact others_finishTick fb h
    · exact others_beginTick fb h

/-- **Other function blocks are never affected**: what the timer handler has of them, and
which of them it has triggered in which tick, is as if there had been no call about the one
that is left out. -/
theorem others_run (ticksPerSecond : ℤ) (h : s.Ordered) (calls : List (Call FB)) :
    others fb (s.run ticksPerSecond calls) =
      (others fb s).run ticksPerSecond (calls.filter fun call => !call.about fb) := by
  induction calls generalizing s with
  | nil => rfl
  | cons call calls ih =>
    rw [run, List.foldl_cons, ← run, ih (h.step ticksPerSecond call),
      others_step fb ticksPerSecond h, List.filter_cons]
    by_cases hcall : call.about fb
    · rw [if_pos hcall, hcall]
      rfl
    · rw [if_neg hcall, Bool.eq_false_iff.mpr hcall]
      rfl

end

/-! ### Cancelling -/

/-- **A registration that a removal does not reach**: it has not been merged into the list,
and will be only after the removal – unless it is done with by the end of the tick, because
it is for one time that has come. -/
def Outliving (fb : FB) (s : TimerHandler FB) : Prop :=
  s.ticking = false ∧ ∃ entry ∈ s.addFBList, entry.timedFB = fb ∧
    (entry.interval ≠ oneShotIndicator ∨ s.forteTime + 1 < entry.timeOut)

/-- **The function block is cancelled**: unless it is registered again, no tick after the
next one triggers it. -/
def Cancelled (ticksPerSecond : ℤ) (fb : FB) (s : TimerHandler FB) : Prop :=
  ∀ calls : List (Call FB), (∀ call ∈ calls, ¬call.Registers fb) →
    ∀ n, (n, fb) ∈ (s.run ticksPerSecond calls).started → n ≤ s.ticks + 1

/-- Nothing in a list is of the function block. -/
def Without (fb : FB) (l : List (TimedFBListEntry FB)) : Prop :=
  ∀ entry ∈ l, entry.timedFB ≠ fb

/-- What has been started was so in a tick that has begun. -/
def Logged (s : TimerHandler FB) : Prop := ∀ n fb, (n, fb) ∈ s.started → n ≤ s.ticks

/-- **The way of a function block out of the timer handler**, up to the tick `last`. -/
inductive Leaving (fb : FB) (last : ℕ) (s : TimerHandler FB) : Prop
  /-- Its removal is in the list. -/
  | requested (hticks : s.ticks + 1 = last) (hremove : fb ∈ s.removeFBList)
      (hadd : s.ticking = false → ∀ entry ∈ s.addFBList, entry.timedFB = fb →
        entry.interval = oneShotIndicator ∧ entry.timeOut ≤ s.forteTime + 1)
  /-- The tick has removed it, and is about to look at the registrations. -/
  | removed (hticks : s.ticks = last) (hticking : s.ticking = true)
      (htimed : Without fb s.timedFBList)
      (hadd : ∀ entry ∈ s.addFBList, entry.timedFB = fb →
        entry.interval = oneShotIndicator ∧ entry.timeOut ≤ s.forteTime)
  | gone (htimed : Without fb s.timedFBList) (hadd : Without fb s.addFBList)
      (hlog : ∀ n, (n, fb) ∈ s.started → n ≤ last)

section

variable {fb : FB} {last : ℕ} {s : TimerHandler FB}

omit [DecidableEq FB] in
theorem without_insert {entry : TimedFBListEntry FB} {l : List (TimedFBListEntry FB)}
    (hentry : entry.timedFB ≠ fb) (h : Without fb l) :
    Without fb (UpperBound.insert TimedFBListEntry.timeOut entry l) := by
  intro entry' hmem
  rcases UpperBound.mem_insert _ |>.mp hmem with rfl | hmem
  · exact hentry
  · exact h entry' hmem

/-- The function block is not in the list, and was not started after the tick `last`. -/
structure Quiet (fb : FB) (last : ℕ) (s : TimerHandler FB) : Prop where
  timed : Without fb s.timedFBList
  log : ∀ n, (n, fb) ∈ s.started → n ≤ last

omit [DecidableEq FB] in
theorem Quiet.startNewEventChain (h : Quiet fb last s) {fb' : FB}
    (hfb : fb' = fb → s.ticks ≤ last) : Quiet fb last (s.startNewEventChain fb') := by
  refine ⟨h.timed, fun n hn => ?_⟩
  rcases List.mem_append.mp hn with hn | hn
  · exact h.log n hn
  · obtain ⟨rfl, rfl⟩ := Prod.mk.inj (List.mem_singleton.mp hn)
    exact hfb rfl

omit [DecidableEq FB] in
theorem Quiet.triggerTimedFB (h : Quiet fb last s) {entry : TimedFBListEntry FB}
    (hentry : entry.timedFB = fb → s.ticks ≤ last ∧ entry.interval = oneShotIndicator) :
    Quiet fb last (s.triggerTimedFB entry) := by
  have hstart := h.startNewEventChain fun heq => (hentry heq).1
  rw [TimerHandler.triggerTimedFB]
  split
  · rename_i hperiodic
    exact ⟨without_insert (fun heq => hperiodic (hentry heq).2) hstart.timed, hstart.log⟩
  · exact hstart

omit [DecidableEq FB] in
theorem Quiet.addPending (h : Quiet fb last s) {entry : TimedFBListEntry FB}
    (hentry : entry.timedFB = fb →
      s.ticks ≤ last ∧ entry.interval = oneShotIndicator ∧ entry.timeOut ≤ s.forteTime) :
    Quiet fb last (s.addPending entry) := by
  rw [TimerHandler.addPending]
  split
  · exact h.triggerTimedFB fun heq => ⟨(hentry heq).1, (hentry heq).2.1⟩
  · rename_i hlater
    exact ⟨without_insert (fun heq => hlater (hentry heq).2.2) h.timed, h.log⟩

omit [DecidableEq FB] in
/-- **A tick that has nothing of a function block but registrations for now** ends with
nothing of it. -/
theorem Quiet.finishTick (h : Quiet fb last s)
    (hadd : ∀ entry ∈ s.addFBList, entry.timedFB = fb →
      s.ticks ≤ last ∧ entry.interval = oneShotIndicator ∧ entry.timeOut ≤ s.forteTime) :
    Quiet fb last s.finishTick := by
  -- the entries that are due are not of this function block
  have htimed : Quiet fb last s.processTimedFBList := by
    refine List.foldlRecOn (motive := Quiet fb last) _ _
      ⟨fun entry hmem => h.timed entry (List.dropWhile_subset _ hmem), h.log⟩ ?_
    intro s' hs' entry hmem
    exact hs'.triggerTimedFB fun heq =>
      absurd heq (h.timed entry (List.takeWhile_subset _ hmem))
  obtain ⟨timed, started, heq⟩ := processTimedFBList_frame s
  have hfold : Quiet fb last (s.addFBList.foldl TimerHandler.addPending s.processTimedFBList) ∧
      ∃ timed started, s.addFBList.foldl TimerHandler.addPending s.processTimedFBList =
        { s with timedFBList := timed, started := started } := by
    refine List.foldlRecOn (motive := fun t => Quiet fb last t ∧
      ∃ timed started, t = { s with timedFBList := timed, started := started }) _ _
      ⟨htimed, timed, started, heq⟩ ?_
    rintro t ⟨ht, timed, started, rfl⟩ entry hmem
    refine ⟨ht.addPending (hadd entry hmem), ?_⟩
    obtain ⟨timed', started', heq'⟩ := addPending_frame _ entry
    exact ⟨timed', started', heq'⟩
  rw [TimerHandler.finishTick, processAddList, addFBList_processTimedFBList]
  exact ⟨hfold.1.timed, hfold.1.log⟩

omit [DecidableEq FB] in
theorem Logged.startNewEventChain (h : s.Logged) (fb : FB) : (s.startNewEventChain fb).Logged := by
  intro n fb' hn
  rcases List.mem_append.mp hn with hn | hn
  · exact h n fb' hn
  · exact (Prod.mk.inj (List.mem_singleton.mp hn)).1.le

omit [DecidableEq FB] in
theorem Logged.triggerTimedFB (h : s.Logged) (entry : TimedFBListEntry FB) :
    (s.triggerTimedFB entry).Logged := by
  rw [TimerHandler.triggerTimedFB]
  split
  · exact h.startNewEventChain entry.timedFB
  · exact h.startNewEventChain entry.timedFB

omit [DecidableEq FB] in
theorem Logged.addPending (h : s.Logged) (entry : TimedFBListEntry FB) :
    (s.addPending entry).Logged := by
  rw [TimerHandler.addPending]
  split
  · exact h.triggerTimedFB entry
  · exact h

theorem Logged.step (ticksPerSecond : ℤ) (h : s.Logged) (call : Call FB) :
    (s.step ticksPerSecond call).Logged := by
  cases call with
  | registerOneShotTimedFB fb interval => exact h
  | registerPeriodicTimedFB fb interval => exact h
  | unregisterTimedFB fb => exact h
  | nextTick =>
    rw [TimerHandler.step]
    split
    · have htimed : s.processTimedFBList.Logged :=
        List.foldlRecOn (motive := Logged) _ _ h fun _ ht entry _ => ht.triggerTimedFB entry
      exact List.foldlRecOn (motive := Logged) s.processTimedFBList.addFBList
        TimerHandler.addPending htimed fun _ ht entry _ => ht.addPending entry
    · rw [beginTick_eq]
      exact fun n fb hn => (h n fb hn).trans (Nat.le_succ _)

theorem logged_run (ticksPerSecond : ℤ) (calls : List (Call FB)) :
    (initial.run ticksPerSecond calls : TimerHandler FB).Logged :=
  List.foldlRecOn (motive := Logged) _ _ (fun _ _ hn => absurd hn List.not_mem_nil)
    fun _ ht call _ => ht.step ticksPerSecond call

omit [DecidableEq FB] in
theorem Leaving.quiet (h : Leaving fb last s) (hlog : s.Logged) (n : ℕ)
    (hn : (n, fb) ∈ s.started) : n ≤ last := by
  cases h with
  | requested hticks _ _ => exact (hlog n fb hn).trans (by omega)
  | removed hticks _ _ _ => exact (hlog n fb hn).trans hticks.le
  | gone _ _ hquiet => exact hquiet n hn

omit [DecidableEq FB] in
/-- What other threads register is not of the function block that is on its way out. -/
theorem Leaving.register (h : Leaving fb last s) {entry : TimedFBListEntry FB}
    (hentry : entry.timedFB ≠ fb) :
    Leaving fb last { s with addFBList := s.addFBList ++ [entry] } := by
  have hmem {entry' : TimedFBListEntry FB} (h : entry' ∈ s.addFBList ++ [entry])
      (heq : entry'.timedFB = fb) : entry' ∈ s.addFBList := by
    rcases List.mem_append.mp h with h | h
    · exact h
    · rw [List.mem_singleton.mp h] at heq
      exact absurd heq hentry
  cases h with
  | requested hticks hremove hadd =>
    exact .requested hticks hremove fun hticking entry' h heq =>
      hadd hticking entry' (hmem h heq) heq
  | removed hticks hticking htimed hadd =>
    exact .removed hticks hticking htimed fun entry' h heq => hadd entry' (hmem h heq) heq
  | gone htimed hadd hquiet =>
    exact .gone htimed (fun entry' h heq => hadd entry' (hmem h heq) heq) hquiet

theorem Leaving.beginTick (h : Leaving fb last s) (hticking : s.ticking = false) :
    Leaving fb last s.beginTick := by
  rw [beginTick_eq]
  cases h with
  | requested hticks hremove hadd =>
    refine .removed hticks rfl (fun entry hmem heq => ?_) (hadd hticking)
    exact of_decide_eq_true (List.mem_filter.mp hmem).2 (heq ▸ hremove)
  | removed _ hticking' _ _ => exact absurd (hticking.symm.trans hticking') (by decide)
  | gone htimed hadd hquiet =>
    exact .gone (fun entry hmem => htimed entry (List.mem_filter.mp hmem).1) hadd hquiet

omit [DecidableEq FB] in
theorem Leaving.finishTick (h : Leaving fb last s) (hlog : s.Logged) :
    Leaving fb last s.finishTick := by
  have hquiet := h.quiet hlog
  have hadded : s.finishTick.addFBList = [] := rfl
  have hnothing : Without fb s.finishTick.addFBList := by
    rw [hadded]
    exact fun _ hmem => absurd hmem List.not_mem_nil
  cases h with
  | requested hticks hremove hadd =>
    obtain ⟨timed, started, heq⟩ := finishTick_frame s
    rw [heq]
    exact .requested hticks hremove fun _ _ hmem => absurd hmem List.not_mem_nil
  | removed hticks _ htimed hadd =>
    have hend := Quiet.finishTick ⟨htimed, hquiet⟩ fun entry hmem heq =>
      ⟨hticks.le, hadd entry hmem heq⟩
    exact .gone hend.timed hnothing hend.log
  | gone htimed hadd _ =>
    have hend := Quiet.finishTick ⟨htimed, hquiet⟩ fun entry hmem heq =>
      absurd heq (hadd entry hmem)
    exact .gone hend.timed hnothing hend.log

/-- **A function block on its way out goes on**, whatever the threads do but register it. -/
theorem Leaving.step (ticksPerSecond : ℤ) (h : Leaving fb last s) (hlog : s.Logged)
    {call : Call FB} (hcall : ¬call.Registers fb) :
    Leaving fb last (s.step ticksPerSecond call) := by
  cases call with
  | registerOneShotTimedFB fb' interval => exact h.register hcall
  | registerPeriodicTimedFB fb' interval => exact h.register hcall
  | unregisterTimedFB fb' =>
    cases h with
    | requested hticks hremove hadd =>
      exact .requested hticks (List.mem_append_left _ hremove) hadd
    | removed hticks hticking htimed hadd => exact .removed hticks hticking htimed hadd
    | gone htimed hadd hquiet => exact .gone htimed hadd hquiet
  | nextTick =>
    rw [TimerHandler.step]
    split
    · exact h.finishTick hlog
    · rename_i hticking
      exact h.beginTick (Bool.eq_false_iff.mpr hticking)

theorem Leaving.run (ticksPerSecond : ℤ) {calls : List (Call FB)}
    (hcalls : ∀ call ∈ calls, ¬call.Registers fb) (h : Leaving fb last s) (hlog : s.Logged) :
    Leaving fb last (s.run ticksPerSecond calls) ∧ (s.run ticksPerSecond calls).Logged :=
  List.foldlRecOn (motive := fun t => Leaving fb last t ∧ t.Logged) _ _ ⟨h, hlog⟩
    fun _ ht call hmem =>
      ⟨ht.1.step ticksPerSecond ht.2 (hcalls call hmem), ht.2.step ticksPerSecond call⟩

/-- **What no registration outlives is cancelled.** -/
theorem cancelled_of_not_outliving (ticksPerSecond : ℤ) (hlog : s.Logged)
    (h : ¬Outliving fb s) : Cancelled ticksPerSecond fb (s.unregisterTimedFB fb) := by
  intro calls hcalls n hn
  have hleaving : Leaving fb (s.ticks + 1) (s.unregisterTimedFB fb) := by
    refine .requested rfl (List.mem_append_right _ (List.mem_singleton_self fb)) ?_
    intro hticking entry hmem heq
    refine ⟨?_, ?_⟩
    · by_contra hinterval
      exact h ⟨hticking, entry, hmem, heq, .inl hinterval⟩
    · by_contra htime
      exact h ⟨hticking, entry, hmem, heq, .inr (lt_of_not_ge htime)⟩
  obtain ⟨hend, hlogged⟩ := hleaving.run ticksPerSecond hcalls hlog
  exact hend.quiet hlogged n hn

/-! ### Registrations that outlive a removal -/

/-- What was in the list and what was started is still there, in the same tick. -/
structure Keeps (s t : TimerHandler FB) : Prop where
  timed : s.timedFBList ⊆ t.timedFBList
  log : s.started ⊆ t.started
  ticks : t.ticks = s.ticks
  time : t.forteTime = s.forteTime

omit [DecidableEq FB] in
theorem keeps_addTimedFBEntry (entry : TimedFBListEntry FB) :
    Keeps s (s.addTimedFBEntry entry) :=
  ⟨fun _ hmem => (UpperBound.mem_insert _).mpr (.inr hmem), fun _ h => h, rfl, rfl⟩

omit [DecidableEq FB] in
/-- A triggered entry is started, and a periodic one comes back into the list. -/
theorem triggerTimedFB_spec (entry : TimedFBListEntry FB) :
    Keeps s (s.triggerTimedFB entry) ∧
      (s.ticks, entry.timedFB) ∈ (s.triggerTimedFB entry).started ∧
      (entry.interval ≠ oneShotIndicator →
        ∃ entry' ∈ (s.triggerTimedFB entry).timedFBList, entry'.timedFB = entry.timedFB) := by
  have hstarted : (s.ticks, entry.timedFB) ∈ (s.startNewEventChain entry.timedFB).started :=
    List.mem_append_right _ (List.mem_singleton_self _)
  have hkeeps : Keeps s (s.startNewEventChain entry.timedFB) :=
    ⟨fun _ h => h, List.subset_append_left _ _, rfl, rfl⟩
  rw [triggerTimedFB]
  split
  · let again : TimedFBListEntry FB := { entry with timeOut := after s.forteTime entry.interval }
    refine ⟨⟨?_, hkeeps.log, rfl, rfl⟩, hstarted, fun _ => ⟨again, ?_, rfl⟩⟩
    · exact (keeps_addTimedFBEntry (s := s.startNewEventChain entry.timedFB) again).timed
    · exact (UpperBound.mem_insert _).mpr (.inl rfl)
  · rename_i hone
    exact ⟨hkeeps, hstarted, fun hperiodic => absurd hperiodic hone⟩

omit [DecidableEq FB] in
/-- A registration for later, or a periodic one, comes into the list. -/
theorem addPending_spec (entry : TimedFBListEntry FB) :
    Keeps s (s.addPending entry) ∧
      (entry.interval ≠ oneShotIndicator ∨ s.forteTime < entry.timeOut →
        ∃ entry' ∈ (s.addPending entry).timedFBList, entry'.timedFB = entry.timedFB) := by
  rw [addPending]
  split
  · rename_i hdue
    obtain ⟨hkeeps, -, hperiodic⟩ := triggerTimedFB_spec (s := s) entry
    exact ⟨hkeeps, fun h => hperiodic (h.resolve_right (not_lt_of_ge hdue))⟩
  · exact ⟨keeps_addTimedFBEntry entry,
      fun _ => ⟨entry, (UpperBound.mem_insert _).mpr (.inl rfl), rfl⟩⟩

omit [DecidableEq FB] in
theorem Keeps.refl (s : TimerHandler FB) : Keeps s s := ⟨fun _ h => h, fun _ h => h, rfl, rfl⟩

omit [DecidableEq FB] in
theorem Keeps.trans {t u : TimerHandler FB} (h : Keeps s t) (h' : Keeps t u) : Keeps s u :=
  ⟨fun _ hmem => h'.timed (h.timed hmem), fun _ hmem => h'.log (h.log hmem),
    h'.ticks.trans h.ticks, h'.time.trans h.time⟩

omit [DecidableEq FB] in
theorem keeps_foldl {f : TimerHandler FB → TimedFBListEntry FB → TimerHandler FB}
    (hf : ∀ s entry, Keeps s (f s entry)) (s : TimerHandler FB)
    (l : List (TimedFBListEntry FB)) : Keeps s (l.foldl f s) :=
  List.foldlRecOn (motive := Keeps s) l f (Keeps.refl s)
    fun t ht entry _ => ht.trans (hf t entry)

omit [DecidableEq FB] in
/-- An element of a list takes effect at some point of the list, and what it has started and
added stays. -/
theorem exists_keeps_foldl {f : TimerHandler FB → TimedFBListEntry FB → TimerHandler FB}
    (hf : ∀ s entry, Keeps s (f s entry)) {l : List (TimedFBListEntry FB)}
    {entry : TimedFBListEntry FB} (hmem : entry ∈ l) (s : TimerHandler FB) :
    ∃ t, Keeps s t ∧ Keeps (f t entry) (l.foldl f s) := by
  obtain ⟨l₁, l₂, rfl⟩ := List.append_of_mem hmem
  rw [List.foldl_append, List.foldl_cons]
  exact ⟨l₁.foldl f s, keeps_foldl hf s l₁, keeps_foldl hf _ l₂⟩

omit [DecidableEq FB] in
theorem keeps_triggerTimedFB (s : TimerHandler FB) (entry : TimedFBListEntry FB) :
    Keeps s (s.triggerTimedFB entry) := (triggerTimedFB_spec entry).1

omit [DecidableEq FB] in
theorem keeps_addPending (s : TimerHandler FB) (entry : TimedFBListEntry FB) :
    Keeps s (s.addPending entry) := (addPending_spec entry).1

omit [DecidableEq FB] in
/-- **An entry of the list** is triggered in a tick if it is due, and else it stays. -/
theorem finishTick_of_mem_timed (h : s.Ordered) {entry : TimedFBListEntry FB}
    (hmem : entry ∈ s.timedFBList) :
    (entry.timeOut ≤ s.forteTime → (s.ticks, entry.timedFB) ∈ s.finishTick.started) ∧
      (s.forteTime < entry.timeOut → entry ∈ s.finishTick.timedFBList) := by
  have hadd : Keeps s.processTimedFBList s.finishTick :=
    let h := keeps_foldl keeps_addPending s.processTimedFBList s.processTimedFBList.addFBList
    ⟨h.timed, h.log, h.ticks, h.time⟩
  refine ⟨fun hdue => ?_, fun hlater => ?_⟩
  · have hupTo : entry ∈ UpperBound.upTo TimedFBListEntry.timeOut s.forteTime s.timedFBList := by
      rw [UpperBound.upTo_eq h]
      exact List.mem_filter.mpr ⟨hmem, decide_eq_true hdue⟩
    obtain ⟨t, hbefore, hafter⟩ := exists_keeps_foldl keeps_triggerTimedFB hupTo s.eraseDue
    have hstarted := hafter.log (triggerTimedFB_spec (s := t) entry).2.1
    rw [hbefore.ticks] at hstarted
    exact hadd.log hstarted
  · have hbeyond : entry ∈ s.eraseDue.timedFBList := by
      rw [eraseDue, UpperBound.beyond_eq h]
      exact List.mem_filter.mpr ⟨hmem, decide_eq_true hlater⟩
    exact hadd.timed ((keeps_foldl keeps_triggerTimedFB s.eraseDue _).timed hbeyond)

omit [DecidableEq FB] in
/-- **A registration** for later or for many times is in the list after a tick. -/
theorem finishTick_of_mem_add {entry : TimedFBListEntry FB} (hmem : entry ∈ s.addFBList)
    (h : entry.interval ≠ oneShotIndicator ∨ s.forteTime < entry.timeOut) :
    ∃ entry' ∈ s.finishTick.timedFBList, entry'.timedFB = entry.timedFB := by
  have htimed := keeps_foldl keeps_triggerTimedFB s.eraseDue
    (UpperBound.upTo TimedFBListEntry.timeOut s.forteTime s.timedFBList)
  rw [← addFBList_processTimedFBList] at hmem
  obtain ⟨t, hbefore, hafter⟩ := exists_keeps_foldl keeps_addPending hmem s.processTimedFBList
  have htime : t.forteTime = s.forteTime := hbefore.time.trans htimed.time
  obtain ⟨entry', hmem', heq⟩ := (addPending_spec (s := t) entry).2 (by rwa [htime])
  exact ⟨entry', hafter.timed hmem', heq⟩

/-- The two halves of a tick. -/
theorem run_tick (ticksPerSecond : ℤ) (hticking : s.ticking = false) (n : ℕ) :
    s.run ticksPerSecond (List.replicate (2 * (n + 1)) .nextTick) =
      s.beginTick.finishTick.run ticksPerSecond (List.replicate (2 * n) .nextTick) := by
  have hbegin : s.step ticksPerSecond .nextTick = s.beginTick := by
    rw [step, hticking]
    rfl
  have hfinish : s.beginTick.step ticksPerSecond .nextTick = s.beginTick.finishTick := rfl
  rw [Nat.mul_succ, run, List.replicate_succ, List.replicate_succ, List.foldl_cons,
    List.foldl_cons, hbegin, hfinish]
  rfl

/-- **An entry of the list is triggered at last**, if nothing but time goes on. -/
theorem exists_triggered (ticksPerSecond : ℤ) {entry : TimedFBListEntry FB} (h : s.Ordered)
    (hticking : s.ticking = false) (hremove : s.removeFBList = [])
    (hmem : entry ∈ s.timedFBList) :
    ∃ n m, s.ticks < m ∧
      (m, entry.timedFB) ∈
        (s.run ticksPerSecond (List.replicate (2 * n) .nextTick)).started := by
  -- the ticks that are left after the next one
  induction hleft : entry.timeOut.val - (s.forteTime + 1).val generalizing s with
  | zero =>
    have hbegin : entry ∈ s.beginTick.timedFBList := by
      rw [beginTick_eq, hremove]
      exact List.mem_filter.mpr ⟨hmem, decide_eq_true List.not_mem_nil⟩
    have htime : entry.timeOut ≤ s.beginTick.forteTime := by
      rw [beginTick_eq]
      exact Nat.le_of_sub_eq_zero hleft
    have hstarted := (finishTick_of_mem_timed h.beginTick hbegin).1 htime
    refine ⟨1, s.beginTick.ticks, ?_, ?_⟩
    · rw [beginTick_eq]
      exact Nat.lt_succ_self _
    · rw [run_tick ticksPerSecond hticking 0]
      exact hstarted
  | succ left ih =>
    have hbegin : entry ∈ s.beginTick.timedFBList := by
      rw [beginTick_eq, hremove]
      exact List.mem_filter.mpr ⟨hmem, decide_eq_true List.not_mem_nil⟩
    have hlater : s.forteTime + 1 < entry.timeOut := Fin.lt_def.mpr (by omega)
    have htime : s.beginTick.forteTime < entry.timeOut := by
      rw [beginTick_eq]
      exact hlater
    have hstays := (finishTick_of_mem_timed h.beginTick hbegin).2 htime
    obtain ⟨timed, started, hframe⟩ := finishTick_frame s.beginTick
    have htime' : s.beginTick.finishTick.forteTime = s.forteTime + 1 := by
      rw [hframe, beginTick_eq]
    have hticks' : s.beginTick.finishTick.ticks = s.ticks + 1 := by
      rw [hframe, beginTick_eq]
    have hremove' : s.beginTick.finishTick.removeFBList = [] := by
      rw [hframe, beginTick_eq]
    have hnext : (s.forteTime + 1 + 1).val = (s.forteTime + 1).val + 1 :=
      Fin.val_add_one_of_lt' (by
        have := Fin.lt_def.mp hlater
        have := entry.timeOut.isLt
        omega)
    obtain ⟨n, m, hm, hstarted⟩ := ih h.beginTick.finishTick rfl hremove' hstays
      (by rw [htime', hnext]; omega)
    refine ⟨n + 1, m, ?_, ?_⟩
    · rw [hticks'] at hm
      exact Nat.lt_of_succ_lt hm
    · rwa [run_tick ticksPerSecond hticking n]

/-- **What a registration outlives is not cancelled.** -/
theorem not_cancelled_of_outliving (ticksPerSecond : ℤ) (hordered : s.Ordered)
    (h : Outliving fb s) : ¬Cancelled ticksPerSecond fb (s.unregisterTimedFB fb) := by
  intro hcancelled
  obtain ⟨hticking, entry, hmem, rfl, hoverdue⟩ := h
  -- the tick that removes the function block brings it into the list
  have hordered' : (s.unregisterTimedFB entry.timedFB).Ordered := hordered
  have hadd : entry ∈ (s.unregisterTimedFB entry.timedFB).beginTick.addFBList := by
    rw [beginTick_eq]
    exact hmem
  have hcond : entry.interval ≠ oneShotIndicator ∨
      (s.unregisterTimedFB entry.timedFB).beginTick.forteTime < entry.timeOut := by
    rw [beginTick_eq]
    exact hoverdue
  obtain ⟨entry', hmem', heq⟩ := finishTick_of_mem_add hadd hcond
  obtain ⟨timed, started, hframe⟩ :=
    finishTick_frame (s.unregisterTimedFB entry.timedFB).beginTick
  have hticks : (s.unregisterTimedFB entry.timedFB).beginTick.finishTick.ticks = s.ticks + 1 := by
    rw [hframe, beginTick_eq]
    rfl
  have hremove : (s.unregisterTimedFB entry.timedFB).beginTick.finishTick.removeFBList = [] := by
    rw [hframe, beginTick_eq]
  obtain ⟨n, m, hm, hstarted⟩ :=
    exists_triggered ticksPerSecond hordered'.beginTick.finishTick rfl hremove hmem'
  rw [heq] at hstarted
  have hticks' := run_tick (s := s.unregisterTimedFB entry.timedFB) ticksPerSecond hticking n
  rw [← hticks'] at hstarted
  have hlate := hcancelled _ (fun call hcall => by
    rw [List.eq_of_mem_replicate hcall]
    exact id) m hstarted
  rw [hticks] at hm
  exact absurd hlate (Nat.not_le.mpr hm)

end

/-- What the timer handler has of the others is the same with and without the removal. -/
theorem others_unregisterTimedFB (ticksPerSecond : ℤ) (fb : FB) {s : TimerHandler FB}
    (h : s.Ordered) (calls : List (Call FB)) :
    others fb ((s.unregisterTimedFB fb).run ticksPerSecond calls) =
      others fb (s.run ticksPerSecond calls) := by
  have hremove : others fb (s.unregisterTimedFB fb) = others fb s := by
    simp [others, unregisterTimedFB]
  have hordered : (s.unregisterTimedFB fb).Ordered := h
  rw [others_run fb ticksPerSecond hordered, hremove, ← others_run fb ticksPerSecond h]

/-- **A function block that is unregistered is cancelled, and the others are unaffected, if
and only if no registration outlives the removal.** -/
theorem cancelled_iff (ticksPerSecond : ℤ) (calls : List (Call FB)) (fb : FB) :
    let s := initial.run ticksPerSecond calls
    (Cancelled ticksPerSecond fb (s.unregisterTimedFB fb) ∧
      ∀ later, others fb ((s.unregisterTimedFB fb).run ticksPerSecond later) =
        others fb (s.run ticksPerSecond later)) ↔ ¬Outliving fb s := by
  have hordered := ordered_run ticksPerSecond calls
  refine ⟨fun h houtliving => ?_, fun h => ⟨?_, ?_⟩⟩
  · exact not_cancelled_of_outliving ticksPerSecond hordered houtliving h.1
  · exact cancelled_of_not_outliving ticksPerSecond (logged_run ticksPerSecond calls) h
  · exact others_unregisterTimedFB ticksPerSecond fb hordered

/-- A function block that is registered for every millisecond and unregistered before the
next tick is triggered in the second tick after that. -/
theorem not_cancelled_registered_before_tick :
    ¬∀ (calls : List (Call ℕ)) (fb : ℕ),
      Cancelled 1000 fb ((initial.run 1000 calls).unregisterTimedFB fb) := by
  intro h
  have hlate := h [.registerPeriodicTimedFB 7 1000000#64] 7 (List.replicate 4 .nextTick)
    (fun call hcall => by
      rw [List.eq_of_mem_replicate hcall]
      exact id) 2 (by decide)
  exact absurd hlate (by decide)

end TimerHandler

end Forte
