import Mathlib.Logic.Function.Basic
import Forte.Lib.Transducer

/-!
# Pipelines over one queue

The stages of a pipeline hand values over in registers: a stage that produces a value writes it
into the register of the next stage and puts the next stage into the queue that all stages, and
whatever else is executed, have in common. The first stage comes into the queue from outside, and
reads what is outside when it is executed.

A register holds one value. A stage that produces a second value before the first one has been
read overwrites it, and the next stage reads the second one twice. Since the queue is one for all
stages, this does not happen as long as the first stage waits in it once at a time: then each
stage consumes what the stage before it has produced, in this order, and nothing is missing but
what is still in a register (`Forte.Pipeline.Orderly.arrive`, `Forte.Pipeline.Orderly.execute`).
-/

namespace Forte

/-- A pipeline: what the stages do with a value. -/
structure Pipeline (S V : Type) where
  react : ℕ → S → V → S × Option V

namespace Pipeline

variable {S V : Type}

/-- The state of a pipeline. -/
structure State (S V : Type) where
  state : ℕ → S
  /-- What a stage reads, other than the first one. -/
  register : ℕ → V
  /-- The queue. -/
  pending : List ℕ
  /-- The values that a stage has read. -/
  consumed : ℕ → List V

/-- What happens to a pipeline. -/
inductive Action (V : Type)
  /-- The first stage comes into the queue. -/
  | arrive
  /-- What is first in the queue is executed, with a value outside. -/
  | execute (outside : V)

variable (p : Pipeline S V)

/-- What a stage does, as a transducer. -/
def reaction (i : ℕ) (s : S) (value : V) : S × List V :=
  ((p.react i s value).1, (p.react i s value).2.toList)

/-- A stage is executed with a value. -/
def executeStage (s : State S V) (i : ℕ) (rest : List ℕ) (value : V) : State S V :=
  let reaction := p.react i (s.state i) value
  { state := Function.update s.state i reaction.1
    register := reaction.2.elim s.register fun next => Function.update s.register (i + 1) next
    pending := rest ++ reaction.2.elim [] fun _ => [i + 1]
    consumed := Function.update s.consumed i (s.consumed i ++ [value]) }

/-- One step. -/
def step (s : State S V) : Action V → State S V
  | .arrive => { s with pending := s.pending ++ [0] }
  | .execute outside =>
    match s.pending with
    | [] => s
    | i :: rest => p.executeStage s i rest (if i = 0 then outside else s.register i)

/-- A pipeline before its first step. -/
def initial (start : ℕ → S) (register : ℕ → V) : State S V := ⟨start, register, [], fun _ => []⟩

/-- The values that a stage has produced. -/
def produced (start : ℕ → S) (i : ℕ) (consumed : List V) : List V :=
  Transducer.outputs (p.reaction i) (start i) consumed

/-- **Nothing gets lost or is read twice**: a stage has consumed what the stage before it has
produced, up to what is in the register, and is in the queue if there is something in it. -/
structure Orderly (start : ℕ → S) (s : State S V) : Prop where
  /-- A stage is in the queue once, and before the stage whose value it would miss. -/
  pending : s.pending.Pairwise fun a b => a ≠ b ∧ a + 1 ≠ b
  state : ∀ i, s.state i = Transducer.after (p.reaction i) (start i) (s.consumed i)
  consumed : ∀ i, p.produced start i (s.consumed i) =
    s.consumed (i + 1) ++ if i + 1 ∈ s.pending then [s.register (i + 1)] else []

variable {p} {start : ℕ → S} {s : State S V}

theorem orderly_initial (register : ℕ → V) : p.Orderly start (initial start register) :=
  ⟨List.Pairwise.nil, fun _ => rfl, fun _ => rfl⟩

theorem Orderly.arrive (h : p.Orderly start s) (hpending : 0 ∉ s.pending) :
    p.Orderly start (p.step s .arrive) := by
  refine ⟨?_, h.state, fun i => ?_⟩
  · refine List.pairwise_append.mpr ⟨h.pending, List.pairwise_singleton _ _, fun a ha b hb => ?_⟩
    obtain rfl := List.mem_singleton.mp hb
    exact ⟨fun heq => hpending (heq ▸ ha), Nat.succ_ne_zero a⟩
  · have hmem : i + 1 ∈ s.pending ++ [0] ↔ i + 1 ∈ s.pending := by simp
    simp only [step, hmem]
    exact h.consumed i

theorem pairwise_concat {i : ℕ} {rest : List ℕ}
    (h : (i :: rest).Pairwise fun a b => a ≠ b ∧ a + 1 ≠ b) :
    (rest ++ [i + 1]).Pairwise fun a b => a ≠ b ∧ a + 1 ≠ b := by
  obtain ⟨hhead, hrest⟩ := List.pairwise_cons.mp h
  refine List.pairwise_append.mpr ⟨hrest, List.pairwise_singleton _ _, fun a ha b hb => ?_⟩
  obtain rfl := List.mem_singleton.mp hb
  have hne := hhead a ha
  exact ⟨fun heq => hne.2 heq.symm, fun heq => hne.1 (Nat.add_right_cancel heq).symm⟩

/-- **A stage is executed** with what is meant for it. -/
theorem Orderly.executeStage {i : ℕ} {rest : List ℕ} (h : p.Orderly start s)
    (hpending : s.pending = i :: rest) {value : V} (hvalue : i ≠ 0 → value = s.register i) :
    p.Orderly start (p.executeStage s i rest value) := by
  have hpairwise := h.pending
  rw [hpending] at hpairwise
  obtain ⟨hhead, hrest⟩ := List.pairwise_cons.mp hpairwise
  have hi : i ∉ rest := fun hmem => (hhead i hmem).1 rfl
  have hnext : i + 1 ∉ rest := fun hmem => (hhead (i + 1) hmem).2 rfl
  have hout : p.produced start i (s.consumed i ++ [value]) =
      p.produced start i (s.consumed i) ++ (p.react i (s.state i) value).2.toList := by
    rw [produced, Transducer.outputs_concat, ← h.state i]
    rfl
  refine ⟨?_, fun j => ?_, fun j => ?_⟩
  · rw [Pipeline.executeStage]
    cases (p.react i (s.state i) value).2 with
    | none => simpa using hrest
    | some next => exact pairwise_concat hpairwise
  · simp only [Pipeline.executeStage]
    by_cases hj : j = i
    · subst hj
      rw [Function.update_self, Function.update_self, Transducer.after_concat, ← h.state j]
      rfl
    · rw [Function.update_of_ne hj, Function.update_of_ne hj, h.state j]
  · have hconsumed := h.consumed j
    rw [hpending] at hconsumed
    simp only [Pipeline.executeStage]
    by_cases hj : j = i
    · -- what the stage produces is in the register of the next one, which has been empty
      subst hj
      rw [if_neg (by simpa using hnext), List.append_nil] at hconsumed
      rw [Function.update_self, hout, hconsumed, Function.update_of_ne (Nat.succ_ne_self j)]
      rcases Option.eq_none_or_eq_some (p.react j (s.state j) value).2 with hnone | ⟨next, hsome⟩
      · simp [hnone, hnext]
      · simp [hsome]
    · rw [Function.update_of_ne hj, hconsumed]
      by_cases hij : j + 1 = i
      · -- what was in the register of the stage has been read
        subst hij
        rw [hvalue (Nat.succ_ne_zero j), Function.update_self]
        rcases Option.eq_none_or_eq_some (p.react (j + 1) (s.state (j + 1))
          (s.register (j + 1))).2 with hnone | ⟨next, hsome⟩
        · simp [hnone, hi]
        · simp [hsome, hi]
      · rw [Function.update_of_ne hij]
        rcases Option.eq_none_or_eq_some (p.react i (s.state i) value).2 with hnone | ⟨next, hsome⟩
        · simp [hnone, hij]
        · simp [hsome, hij, hj]

theorem Orderly.execute (h : p.Orderly start s) (outside : V) :
    p.Orderly start (p.step s (.execute outside)) := by
  simp only [step]
  cases hpending : s.pending with
  | nil => exact h
  | cons i rest => exact h.executeStage hpending fun hi => if_neg hi

/-- What a stage has consumed is what the stage before it has produced of what it has consumed
itself, up to an end. -/
theorem Orderly.consumed_prefix (h : p.Orderly start s) (i : ℕ) :
    s.consumed (i + 1) <+: p.produced start i (s.consumed i) :=
  ⟨_, (h.consumed i).symm⟩

theorem Orderly.consumed_of_pending_nil (h : p.Orderly start s) (hpending : s.pending = [])
    (i : ℕ) : s.consumed (i + 1) = p.produced start i (s.consumed i) := by
  have hconsumed := h.consumed i
  rw [hpending, if_neg List.not_mem_nil, List.append_nil] at hconsumed
  exact hconsumed.symm

end Pipeline

end Forte
