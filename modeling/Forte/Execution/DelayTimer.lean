import Forte.Execution.DelayBlocks
import Forte.Lib.Transducer

/-!
# A delay in a composite function block

Composite function blocks have an `E_DELAY` in them for what they do later. What they have to
know of it is when it starts and when it sends `EO`, and not how many ticks there are in between.
This file has the delay with what concerns it of the timer handler, which may take any number of
ticks: in each of them it first removes what has been unregistered, then starts the external
events of some intervals, and then puts the ones that are new into its list.

An interval that has been added or registered and is not to be removed comes to its external event
(`Forte.Delay.Due`), unless the delay is unregistered in between; what is unregistered in a tick
is removed in the next one only, with what has been added in the meantime.
-/

namespace Forte

/-- An `E_DELAY`, and of the timer handler what concerns it. -/
structure Delay where
  /-- `mActive`. -/
  active : Bool
  varDT : BitVec 64
  /-- Its intervals in `mAddFBList`. -/
  added : List (BitVec 64)
  /-- Its intervals in `mTimedFBList`. -/
  registered : List (BitVec 64)
  /-- It is in `mRemoveFBList`. -/
  removing : Bool
  /-- The timer handler is in `nextTick`, behind `processRemoveList`. -/
  inTick : Bool
  /-- How many of its external events have been started and are not in the event list yet. -/
  fired : ℕ

namespace Delay

/-- What is seen of an `E_DELAY`. -/
inductive Output
  | eo
  | wait (interval : BitVec 64)
  deriving DecidableEq

/-- An `E_DELAY` as it is created. -/
def created : Delay := ⟨false, 0, [], [], false, false, 0⟩

/-- One access of `executeEvent`. -/
def access (d : Delay) : DelayAccess → Delay × List Output
  | .sendOutputEvent => (d, [.eo])
  | .unregisterTimedFB => ({ d with removing := true }, [])
  | .registerOneShotTimedFB => ({ d with added := d.added ++ [d.varDT] }, [.wait d.varDT])
  | .setActive active => ({ d with active }, [])

/-- `receiveInputEvent`, with what is at `DT`. -/
def receiveInputEvent (d : Delay) (eiid : ℕ) (dt : BitVec 64) : Delay × List Output :=
  let d := { d with varDT := if eiid < 2 then dt else d.varDT }
  let accesses := DelayFB.eDelayExecuteEvent d.active eiid
  (Transducer.after access d accesses, Transducer.outputs access d accesses)

/-- `processRemoveList`, at the beginning of a tick. -/
def processRemoveList (d : Delay) : Delay :=
  { d with
    registered := if d.removing then [] else d.registered
    removing := false
    inTick := true }

/-- An interval is over in `processTimedFBList`. -/
def trigger (d : Delay) (i : ℕ) : Delay :=
  { d with registered := d.registered.eraseIdx i, fired := d.fired + 1 }

/-- `processAddList`, at the end of a tick. Of the intervals some are over already. -/
def processAddList (d : Delay) (due : ℕ → Bool) : Delay :=
  let (triggered, kept) := d.added.zipIdx.partition fun entry => due entry.2
  { d with
    added := []
    registered := d.registered ++ kept.map Prod.fst
    inTick := false
    fired := d.fired + triggered.length }

/-- A step of the timer's thread. -/
inductive TimerAction
  | processRemoveList
  /-- An interval is over, in `processTimedFBList`. -/
  | trigger (i : ℕ)
  | processAddList (due : ℕ → Bool)

/-- One step of the timer's thread; a step that cannot be taken has no effect. -/
def tick (d : Delay) : TimerAction → Delay
  | .processRemoveList => if d.inTick then d else d.processRemoveList
  | .trigger i => if d.inTick ∧ i < d.registered.length then d.trigger i else d
  | .processAddList due => if d.inTick then d.processAddList due else d

/-- A step takes out what is registered. -/
def stops (d : Delay) : TimerAction → Bool
  | .processRemoveList => !d.inTick && (d.removing && !d.registered.isEmpty)
  | .trigger _ | .processAddList _ => false

/-- Nothing is to come of the delay. -/
def Resting (d : Delay) : Prop := d.added = [] ∧ d.registered = [] ∧ d.fired = 0

instance (d : Delay) : Decidable d.Resting := inferInstanceAs (Decidable (_ ∧ _ ∧ _))

/-- There is an external event to come. -/
def Due (d : Delay) : Prop :=
  d.added ≠ [] ∨ 0 < d.fired ∨ (d.registered ≠ [] ∧ d.removing = false)

theorem receive_start {d : Delay} (h : d.active = false) (dt : BitVec 64) :
    d.receiveInputEvent DelayFB.eventSTARTID dt =
      ({ d with active := true, varDT := dt, added := d.added ++ [dt] }, [.wait dt]) := by
  obtain ⟨active, varDT, added, registered, removing, inTick, fired⟩ := d
  obtain rfl : active = false := h
  rfl

theorem receive_start_of_active {d : Delay} (h : d.active = true) (dt : BitVec 64) :
    d.receiveInputEvent DelayFB.eventSTARTID dt = ({ d with varDT := dt }, []) := by
  obtain ⟨active, varDT, added, registered, removing, inTick, fired⟩ := d
  obtain rfl : active = true := h
  rfl

theorem receive_external (d : Delay) (dt : BitVec 64) :
    d.receiveInputEvent externalEventID dt = ({ d with active := false }, [.eo]) := rfl

theorem receive_stop (d : Delay) (dt : BitVec 64) :
    d.receiveInputEvent DelayFB.eventSTOPID dt =
      ({ d with active := false, varDT := dt, removing := d.active || d.removing }, []) := by
  obtain ⟨active, varDT, added, registered, removing, inTick, fired⟩ := d
  cases active with
  | false => rfl
  | true => rfl

variable {d : Delay}

theorem Due.not_resting (h : d.Due) : ¬d.Resting := by
  rintro ⟨hadded, hregistered, hfired⟩
  rcases h with h | h | h
  · exact h hadded
  · omega
  · exact h.1 hregistered

/-- The steps of the timer's thread lose nothing. -/
theorem Due.tick (h : d.Due) (hin : d.inTick = true → d.removing = false) (action : TimerAction) :
    (d.tick action).Due := by
  cases action with
  | processRemoveList =>
    simp only [Delay.tick]
    split
    · exact h
    · rcases h with h | h | ⟨hregistered, hremoving⟩
      · exact .inl h
      · exact .inr (.inl h)
      · refine .inr (.inr ⟨?_, rfl⟩)
        simpa [Delay.processRemoveList, hremoving] using hregistered
  | trigger i =>
    simp only [Delay.tick]
    split
    · exact .inr (.inl (Nat.succ_pos _))
    · exact h
  | processAddList due =>
    simp only [Delay.tick]
    split
    · rename_i htick
      rcases h with h | h | ⟨hregistered, hremoving⟩
      · -- what was added is registered, or its external event is started
        by_cases hdue : (d.added.zipIdx.filter fun entry => due entry.2) = []
        · refine .inr (.inr ⟨?_, hin htick⟩)
          obtain ⟨interval, rest, hadded⟩ := List.exists_cons_of_ne_nil h
          have hzero : due 0 = false := by
            rw [hadded] at hdue
            simpa using (List.filter_eq_nil_iff.mp hdue) (interval, 0) (by simp)
          simp [Delay.processAddList, hadded, hzero]
        · refine .inr (.inl ?_)
          have := List.length_pos_of_ne_nil hdue
          simp only [Delay.processAddList, List.partition_eq_filter_filter]
          omega
      · exact .inr (.inl (Nat.lt_of_lt_of_le h (Nat.le_add_right _ _)))
      · exact .inr (.inr ⟨by simp [Delay.processAddList, hregistered], hremoving⟩)
    · exact h

theorem active_tick (action : TimerAction) : (d.tick action).active = d.active := by
  cases action with
  | processRemoveList | trigger i | processAddList due =>
    simp only [Delay.tick]
    split
    · rfl
    · rfl

theorem inTick_tick (hin : d.inTick = true → d.removing = false) (action : TimerAction) :
    (d.tick action).inTick = true → (d.tick action).removing = false := by
  cases action with
  | processRemoveList =>
    simp only [Delay.tick]
    split
    · exact hin
    · exact fun _ => rfl
  | trigger i =>
    simp only [Delay.tick]
    split
    · exact hin
    · exact hin
  | processAddList due =>
    simp only [Delay.tick]
    split
    · exact fun hfalse => absurd hfalse Bool.false_ne_true
    · exact hin

end Delay

end Forte

