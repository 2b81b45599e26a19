import Mathlib.Data.List.Basic

/-!
# Runs, and what their steps have to keep

A run is a list of steps, and the state behind a number of them is a fold. What is asked of a
step is a relation of the state before it and the step, `Meets`; where in a good state it is
equivalent to a condition and keeps the state good, it is met by all steps of a run if and only
if all of them satisfy the condition (`Forte.Runs.each_congr`).
-/

namespace Forte.Runs

variable {State Step : Type} (next : State → Step → State)

/-- The state behind a run. -/
def run (s : State) (steps : List Step) : State := steps.foldl next s

/-- **Every step of a run** is as it should be in the state before it. -/
def Each (P : State → Step → Prop) (s : State) (steps : List Step) : Prop :=
  ∀ n st, steps[n]? = some st → P (run next s (steps.take n)) st

variable {next}

theorem each_nil (P : State → Step → Prop) (s : State) : Each next P s [] :=
  fun _ _ h => absurd h (by simp)

theorem each_cons_iff {P : State → Step → Prop} {s : State} {st : Step} {steps : List Step} :
    Each next P s (st :: steps) ↔ P s st ∧ Each next P (next s st) steps := by
  refine ⟨fun h => ⟨h 0 st rfl, fun n st' hst' => h (n + 1) st' hst'⟩, fun h n st' hst' => ?_⟩
  cases n with
  | zero =>
    obtain rfl : st = st' := Option.some.inj hst'
    exact h.1
  | succ n => exact h.2 n st' hst'

theorem each_and_iff {P Q : State → Step → Prop} {s : State} {steps : List Step} :
    Each next (fun s st => P s st ∧ Q s st) s steps ↔
      Each next P s steps ∧ Each next Q s steps := by
  refine ⟨fun h => ⟨fun n st hst => (h n st hst).1, fun n st hst => (h n st hst).2⟩, ?_⟩
  exact fun h n st hst => ⟨h.1 n st hst, h.2 n st hst⟩

instance instDecidableEach {P : State → Step → Prop} [∀ s st, Decidable (P s st)] (s : State)
    (steps : List Step) : Decidable (Each next P s steps) :=
  match steps with
  | [] => .isTrue (each_nil P s)
  | st :: steps =>
    have := instDecidableEach (P := P) (next s st) steps
    decidable_of_iff (P s st ∧ Each next P (next s st) steps) each_cons_iff.symm

theorem run_cons (s : State) (st : Step) (steps : List Step) :
    run next s (st :: steps) = run next (next s st) steps := rfl

theorem run_append (s : State) (steps steps' : List Step) :
    run next s (steps ++ steps') = run next (run next s steps) steps' := List.foldl_append

theorem each_append_iff {P : State → Step → Prop} {s : State} {steps steps' : List Step} :
    Each next P s (steps ++ steps') ↔
      Each next P s steps ∧ Each next P (run next s steps) steps' := by
  induction steps generalizing s with
  | nil => exact ⟨fun h => ⟨each_nil P s, h⟩, fun h => h.2⟩
  | cons st steps ih => rw [List.cons_append, each_cons_iff, each_cons_iff, ih, run_cons, and_assoc]

/-- **An invariant holds behind a run** whose steps keep it where the condition is satisfied. -/
theorem good_run {Good : State → Prop} {Cond : State → Step → Prop}
    (hstep : ∀ s st, Good s → Cond s st → Good (next s st)) {s : State} (hs : Good s)
    {steps : List Step} (h : Each next Cond s steps) : Good (run next s steps) := by
  induction steps generalizing s with
  | nil => exact hs
  | cons st steps ih =>
    obtain ⟨hst, hsteps⟩ := each_cons_iff.mp h
    exact ih (hstep s st hs hst) hsteps

/-- **What is asked of the steps of a run** is met by all of them, where in a good state the
condition is enough for it and keeps the state good. -/
theorem each_of_good {Good : State → Prop} {Meets Cond : State → Step → Prop}
    (hstep : ∀ s st, Good s → Cond s st → Good (next s st) ∧ Meets s st) {s : State} (hs : Good s)
    {steps : List Step} (h : Each next Cond s steps) : Each next Meets s steps := by
  induction steps generalizing s with
  | nil => exact each_nil Meets s
  | cons st steps ih =>
    obtain ⟨hst, hsteps⟩ := each_cons_iff.mp h
    obtain ⟨hgood, hmeets⟩ := hstep s st hs hst
    exact each_cons_iff.mpr ⟨hmeets, ih hgood hsteps⟩

/-- **What each step settles for good** is settled behind a run, for all of its steps. -/
theorem run_settles {Good : State → Prop} {Settled : Step → State → Prop} {steps : List Step}
    (hstep : ∀ s, ∀ st ∈ steps, Good s → Good (next s st) ∧ Settled st (next s st))
    (hkeep : ∀ s st st', Settled st' s → Settled st' (next s st)) {s : State} (hs : Good s) :
    Good (run next s steps) ∧ ∀ st ∈ steps, Settled st (run next s steps) := by
  induction steps generalizing s with
  | nil => exact ⟨hs, fun st h => absurd h List.not_mem_nil⟩
  | cons st steps ih =>
    obtain ⟨hgood, hsettled⟩ := hstep s st List.mem_cons_self hs
    have hrest := ih (fun s st' hst' => hstep s st' (List.mem_cons_of_mem st hst')) hgood
    refine ⟨hrest.1, fun st' hst' => ?_⟩
    rcases List.mem_cons.mp hst' with rfl | hlater
    · exact steps.foldlRecOn next hsettled fun s hs st _ => hkeep s st st' hs
    · exact hrest.2 st' hlater

/-- **All steps of a run meet what is asked of them if and only if all of them satisfy the
condition**, where the two are equivalent in a good state. -/
theorem each_congr {Good : State → Prop} {Meets Cond : State → Step → Prop}
    (hgood : ∀ s st, Good s → Meets s st → Good (next s st))
    (hiff : ∀ s st, Good s → (Meets s st ↔ Cond s st)) {s : State} (hs : Good s)
    (steps : List Step) : Each next Meets s steps ↔ Each next Cond s steps := by
  induction steps generalizing s with
  | nil => exact iff_of_true (each_nil Meets s) (each_nil Cond s)
  | cons st steps ih =>
    rw [each_cons_iff, each_cons_iff, hiff s st hs]
    refine and_congr_right fun hst => ?_
    exact ih (hgood s st hs ((hiff s st hs).mpr hst))

end Forte.Runs
