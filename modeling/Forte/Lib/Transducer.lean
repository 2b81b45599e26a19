import Mathlib.Data.List.Induction
import Forte.Lib.Runs

/-!
# Transducers

A transducer answers every input with a list of outputs and goes on in another state. The state
behind a number of inputs is that of a run, and what has been answered is the answers one after
the other.

Two transducers whose states are related, and stay so with the same answers, cannot be told
apart (`Forte.Transducer.simulation`). What is known of a state from the inputs goes by induction
on them from the last one (`Forte.Transducer.after_induction`).
-/

namespace Forte.Transducer

variable {State State' Input Output : Type}

/-- The state behind a number of inputs. -/
def after (react : State → Input → State × List Output) (s : State) (inputs : List Input) :
    State :=
  Runs.run (fun s input => (react s input).1) s inputs

/-- What has been answered to a number of inputs. -/
def outputs (react : State → Input → State × List Output) : State → List Input → List Output
  | _, [] => []
  | s, input :: inputs => (react s input).2 ++ outputs react (react s input).1 inputs

variable {react : State → Input → State × List Output}

@[simp]
theorem after_nil (s : State) : after react s [] = s := rfl

theorem after_append (s : State) (inputs inputs' : List Input) :
    after react s (inputs ++ inputs') = after react (after react s inputs) inputs' :=
  Runs.run_append s inputs inputs'

theorem after_concat (s : State) (inputs : List Input) (input : Input) :
    after react s (inputs ++ [input]) = (react (after react s inputs) input).1 :=
  after_append s inputs [input]

theorem outputs_append (s : State) (inputs inputs' : List Input) :
    outputs react s (inputs ++ inputs') =
      outputs react s inputs ++ outputs react (after react s inputs) inputs' := by
  induction inputs generalizing s with
  | nil => rfl
  | cons input inputs ih =>
    rw [List.cons_append, outputs, outputs, ih, List.append_assoc]
    rfl

theorem outputs_concat (s : State) (inputs : List Input) (input : Input) :
    outputs react s (inputs ++ [input]) =
      outputs react s inputs ++ (react (after react s inputs) input).2 := by
  rw [outputs_append, outputs, outputs, List.append_nil]

/-- **What is known from the inputs**: what holds before the first of them, and goes on to hold
with each of them, holds behind all of them. -/
theorem after_induction {P : List Input → State → Prop}
    (hreact : ∀ inputs s input, P inputs s → P (inputs ++ [input]) (react s input).1)
    {s : State} (hs : P [] s) (inputs : List Input) : P inputs (after react s inputs) := by
  induction inputs using List.reverseRecOn with
  | nil => exact hs
  | append_singleton inputs input ih =>
    rw [after_concat]
    exact hreact inputs _ input ih

/-- **Related transducers** with the same answers stay related and go on to answer the same. -/
theorem simulation {react' : State' → Input → State' × List Output} {R : State → State' → Prop}
    (hreact : ∀ s s' input, R s s' →
      R (react s input).1 (react' s' input).1 ∧ (react s input).2 = (react' s' input).2)
    {s : State} {s' : State'} (hs : R s s') (inputs : List Input) :
    R (after react s inputs) (after react' s' inputs) ∧
      outputs react s inputs = outputs react' s' inputs := by
  induction inputs generalizing s s' with
  | nil => exact ⟨hs, rfl⟩
  | cons input inputs ih =>
    obtain ⟨hnext, hout⟩ := hreact s s' input hs
    obtain ⟨hlast, houts⟩ := ih hnext
    refine ⟨hlast, ?_⟩
    rw [outputs, outputs, hout, houts]

end Forte.Transducer
