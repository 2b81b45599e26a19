import Forte.Execution.EventCounters

/-!
# Basic function blocks that pass events on

`E_SWITCH` sends an event on to the output that its data input tells it, and `E_D_FF` sends one
when its data input has changed. They are parts of the composite function blocks for edges, trains
and tables of events.
-/

namespace Forte

/-! ### `E_SWITCH` -/

/-- The states of `E_SWITCH`. -/
inductive SwitchState
  | start | g0 | g1
  deriving DecidableEq

/-- `FORTE_E_SWITCH`. Its event input is `EI`, its data `G`, and what it sends is the event output
`EO0` or `EO1`. -/
def eSwitch : BasicFB SwitchState Unit Bool Bool Bool where
  initial := .start
  transitions
    | .start => [⟨some (), fun g => !g, .g0⟩, ⟨some (), fun g => g, .g1⟩]
    | .g0 | .g1 => [⟨none, fun _ => true, .start⟩]
  enterState
    | .start, g => (g, [])
    | .g0, g => (g, [false])
    | .g1, g => (g, [true])
  rank
    | .start => 0
    | .g0 | .g1 => 1
  rank_lt s := by cases s <;> simp
  initialValues := false
  readInputData _ g _ := g

theorem eSwitch_star : eSwitch.Star where
  back s hs := by
    cases s with
    | start => exact absurd rfl hs
    | g0 => rfl
    | g1 => rfl
  event_ne_none := by simp [eSwitch]
  enterState _ := rfl

/-- **A switch** sends the event on to the output that `G` tells. -/
theorem eSwitch_receive (data g : Bool) :
    eSwitch.receiveInputEvent (some .start, data) ((), g) = ((some .start, g), [g]) := by
  refine (BasicFB.receiveInputEvent_of_star eSwitch_star data _).trans ?_
  cases g with
  | false => rfl
  | true => rfl

/-! ### `E_D_FF` -/

/-- The states of `E_D_FF`. -/
inductive DFFState
  | start | set | reset
  deriving DecidableEq

/-- The variables of `E_D_FF`. -/
structure DFFData where
  d : Bool
  q : Bool
  deriving DecidableEq

/-- `alg_LATCH`. -/
def DFFData.algLATCH (d : DFFData) : DFFData := { d with q := d.d }

/-- `FORTE_E_D_FF`. Its event input is `CLK`, and what it sends is `EO` with `Q`. -/
def eDFF : BasicFB DFFState Unit DFFData Bool Bool where
  initial := .start
  transitions
    | .start => [⟨some (), fun d => d.d, .set⟩]
    | .set => [⟨some (), fun d => !d.d, .reset⟩]
    | .reset => [⟨some (), fun d => d.d, .set⟩]
  enterState
    | .start, d => (d, [])
    | .set, d | .reset, d => (d.algLATCH, [d.algLATCH.q])
  rank _ := 0
  rank_lt s := by cases s <;> simp
  initialValues := ⟨false, false⟩
  readInputData _ d data := { data with d }

/-- What a flip-flop holds: its state goes with it. -/
def DFFHolds (q : Bool) (s : Option DFFState × DFFData) : Prop :=
  s.2.q = q ∧ if q then s.1 = some .set else s.1 = some .start ∨ s.1 = some .reset

theorem dFFHolds_created : DFFHolds false eDFF.created := ⟨rfl, .inl rfl⟩

/-- **A flip-flop** takes over its input, and sends an event if it has changed by it. -/
theorem DFFHolds.receive {q : Bool} {s : Option DFFState × DFFData} (h : DFFHolds q s) (d : Bool) :
    DFFHolds d (eDFF.receiveInputEvent s ((), d)).1 ∧
      (eDFF.receiveInputEvent s ((), d)).2 = if d = q then [] else [d] := by
  obtain ⟨state, data⟩ := s
  obtain ⟨rfl, hstate⟩ := h
  cases hq : data.q with
  | true =>
    rw [hq, if_pos rfl] at hstate
    subst hstate
    cases d with
    | true => exact ⟨⟨hq, rfl⟩, rfl⟩
    | false => exact ⟨⟨rfl, .inr rfl⟩, rfl⟩
  | false =>
    rw [hq] at hstate
    rcases hstate with rfl | rfl
    · cases d with
      | true => exact ⟨⟨rfl, rfl⟩, rfl⟩
      | false => exact ⟨⟨hq, .inl rfl⟩, rfl⟩
    · cases d with
      | true => exact ⟨⟨rfl, rfl⟩, rfl⟩
      | false => exact ⟨⟨hq, .inr rfl⟩, rfl⟩

end Forte
