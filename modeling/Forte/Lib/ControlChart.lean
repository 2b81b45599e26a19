import Mathlib.Data.List.Basic

/-!
# Execution control charts

An execution control chart has states and transitions between them. The transitions out of a
state are tried in their order; a transition may need an event, may have a guard on the data, and
is cleared if both are as it wants them. Entering a state changes the data and puts something
out.

An event is used up by the first transition: behind it only transitions that need no event can
be cleared, and they are, until there is none left. That there comes an end to it is part of a
chart: its transitions without an event lead down in a rank. What is left is stable
(`Forte.ControlChart.executeEvent_stable`), and in the shape that most charts have an event is a
single transition (`Forte.ControlChart.Star.executeEvent`).
-/

namespace Forte

/-- A transition of an execution control chart. -/
structure Transition (State Event Data : Type) where
  /-- The event it needs. -/
  event : Option Event
  guard : Data → Bool
  target : State

/-- An execution control chart. -/
structure ControlChart (State Event Data Output : Type) where
  initial : State
  transitions : State → List (Transition State Event Data)
  enterState : State → Data → Data × List Output
  rank : State → ℕ
  /-- The transitions without an event come to an end. -/
  rank_lt : ∀ s, ∀ t ∈ transitions s, t.event = none → rank t.target < rank s

variable {State Event Data Output : Type} [DecidableEq Event]

/-- Whether a transition is cleared, with the event that is still there. -/
def Transition.enabled (t : Transition State Event Data) (event : Option Event) (data : Data) :
    Bool :=
  (t.event.all fun needed => event = some needed) && t.guard data

theorem Transition.event_eq_none {t : Transition State Event Data} {data : Data}
    (h : t.enabled none data = true) : t.event = none := by
  cases hevent : t.event with
  | none => rfl
  | some needed => simp [Transition.enabled, hevent] at h

namespace ControlChart

variable (chart : ControlChart State Event Data Output)

/-- The target of the first transition that is cleared. -/
def cleared (s : State) (event : Option Event) (data : Data) : Option State :=
  ((chart.transitions s).find? fun t => t.enabled event data).map Transition.target

/-- The transitions that are cleared when the event is used up, with a bound on their number. -/
def settle : ℕ → State → Data → State × Data × List Output
  | 0, s, data => (s, data, [])
  | bound + 1, s, data =>
    match chart.cleared s none data with
    | none => (s, data, [])
    | some target =>
      let entered := chart.enterState target data
      let settled := settle bound target entered.1
      (settled.1, settled.2.1, entered.2 ++ settled.2.2)

/-- The execution of an event. A value that is no state is replaced by the initial state, and the
event is lost. -/
def executeEvent (s : Option State) (event : Event) (data : Data) :
    Option State × Data × List Output :=
  match s with
  | none => (some chart.initial, data, [])
  | some s =>
    match chart.cleared s (some event) data with
    | none => (some s, data, [])
    | some target =>
      let entered := chart.enterState target data
      let settled := chart.settle (chart.rank target) target entered.1
      (some settled.1, settled.2.1, entered.2 ++ settled.2.2)

variable {chart} {s : State} {data : Data}

theorem rank_lt_of_cleared {target : State} (h : chart.cleared s none data = some target) :
    chart.rank target < chart.rank s := by
  obtain ⟨t, hfind, rfl⟩ := Option.map_eq_some_iff.mp h
  have henabled : t.enabled none data = true := by simpa using List.find?_some hfind
  exact chart.rank_lt s t (List.mem_of_find?_eq_some hfind) (Transition.event_eq_none henabled)

theorem cleared_of_rank_eq_zero (h : chart.rank s = 0) : chart.cleared s none data = none := by
  cases hcleared : chart.cleared s none data with
  | none => rfl
  | some target => exact absurd (rank_lt_of_cleared hcleared) (by omega)

/-- **The transitions come to an end**: behind them none is cleared. -/
theorem settle_stable {bound : ℕ} (hbound : chart.rank s ≤ bound) :
    chart.cleared (chart.settle bound s data).1 none (chart.settle bound s data).2.1 = none := by
  induction bound generalizing s data with
  | zero => exact cleared_of_rank_eq_zero (s := s) (by omega)
  | succ bound ih =>
    rw [settle]
    cases hcleared : chart.cleared s none data with
    | none => exact hcleared
    | some target =>
      have hlt := rank_lt_of_cleared hcleared
      exact ih (by omega)

/-- **An event is used up** and leaves a state out of which no transition is cleared, if it has
met one. -/
theorem executeEvent_stable (hs : chart.cleared s none data = none) (event : Event) :
    ∃ s', (chart.executeEvent (some s) event data).1 = some s' ∧
      chart.cleared s' none (chart.executeEvent (some s) event data).2.1 = none := by
  rw [executeEvent]
  cases chart.cleared s (some event) data with
  | none => exact ⟨s, rfl, hs⟩
  | some target => exact ⟨_, rfl, settle_stable (Nat.le_refl _)⟩

/-- A chart whose transitions lead out of the initial state with an event and back without one. -/
structure Star (chart : ControlChart State Event Data Output) : Prop where
  back : ∀ s, s ≠ chart.initial → chart.transitions s = [⟨none, fun _ => true, chart.initial⟩]
  event_ne_none : ∀ t ∈ chart.transitions chart.initial, t.event ≠ none
  enterState : ∀ data, chart.enterState chart.initial data = (data, [])

theorem Star.cleared_initial (h : chart.Star) : chart.cleared chart.initial none data = none := by
  rw [cleared, Option.map_eq_none_iff, List.find?_eq_none]
  intro t ht henabled
  exact h.event_ne_none t ht (Transition.event_eq_none henabled)

theorem Star.settle (h : chart.Star) (bound : ℕ) (hbound : chart.rank s ≤ bound) :
    chart.settle bound s data = (chart.initial, data, []) := by
  by_cases hs : s = chart.initial
  · subst hs
    cases bound with
    | zero => rfl
    | succ bound => rw [ControlChart.settle, h.cleared_initial]
  · have hback : chart.cleared s none data = some chart.initial := by
      rw [cleared, h.back s hs]
      rfl
    have hlt := rank_lt_of_cleared hback
    obtain ⟨bound, rfl⟩ : ∃ n, bound = n + 1 := ⟨bound - 1, by omega⟩
    rw [ControlChart.settle, hback]
    simp only [h.enterState]
    cases bound with
    | zero => rfl
    | succ bound =>
      rw [ControlChart.settle, h.cleared_initial]
      rfl

/-- **In a star** an event clears one transition at most, and the chart is back in the initial
state. -/
theorem Star.executeEvent (h : chart.Star) (event : Event) :
    chart.executeEvent (some chart.initial) event data =
      match chart.cleared chart.initial (some event) data with
      | none => (some chart.initial, data, [])
      | some target =>
        (some chart.initial, (chart.enterState target data).1,
          (chart.enterState target data).2) := by
  rw [ControlChart.executeEvent]
  cases chart.cleared chart.initial (some event) data with
  | none => rfl
  | some target =>
    simp only [h.settle _ (Nat.le_refl _), List.append_nil]

end ControlChart

end Forte
