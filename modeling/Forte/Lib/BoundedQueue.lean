import Mathlib.Data.List.Basic

/-!
# Bounded queues

A first-in first-out queue with room for `capacity` elements, which refuses an element when
it is full, and remembers the element that was taken last. What a program sees of it are
the answers to the operations, `Forte.BoundedQueue.answers`; an implementation is one when
it answers every sequence of operations in the same way. The rule for showing that is
`Forte.BoundedQueue.answers_eq`: a relation to the queue that one operation keeps and under
which it is answered alike.
-/

namespace Forte

/-- The operations on a queue. -/
inductive QueueOp (α : Type)
  | push (elem : α)
  | pop
  | clear
  | isEmpty
  | isFull
  /-- Look at the element that the last `pop` has returned, if nothing was popped or cleared
  since. -/
  | last

/-- The answers of a queue. -/
inductive QueueAnswer (α : Type)
  | bool (b : Bool)
  | elem (x : Option α)
  | done
  deriving DecidableEq

/-- The state of a queue: what is in it, the oldest first, and what was taken last. -/
structure BoundedQueue (α : Type) where
  queue : List α
  taken : Option α

namespace BoundedQueue

variable {α σ : Type}

def empty : BoundedQueue α := ⟨[], none⟩

/-- One operation on a queue with room for `capacity` elements. -/
def step (capacity : ℕ) (s : BoundedQueue α) : QueueOp α → BoundedQueue α × QueueAnswer α
  | .push x =>
    if s.queue.length = capacity then (s, .bool false)
    else ({ s with queue := s.queue ++ [x] }, .bool true)
  | .pop =>
    match s.queue with
    | [] => ({ s with taken := none }, .elem none)
    | x :: rest => ({ queue := rest, taken := some x }, .elem (some x))
  | .clear => (empty, .done)
  | .isEmpty => (s, .bool s.queue.isEmpty)
  | .isFull => (s, .bool (s.queue.length = capacity))
  | .last => (s, .elem s.taken)

/-- The answers to a sequence of operations. -/
def answers (step : σ → QueueOp α → σ × QueueAnswer α) : σ → List (QueueOp α) →
    List (QueueAnswer α)
  | _, [] => []
  | s, op :: ops => (step s op).2 :: answers step (step s op).1 ops

/-- **What is answered as a queue answers, operation by operation, is a queue.** -/
theorem answers_eq {step : σ → QueueOp α → σ × QueueAnswer α} {capacity : ℕ}
    (R : σ → BoundedQueue α → Prop)
    (hstep : ∀ s q op, R s q → R (step s op).1 (q.step capacity op).1 ∧
      (step s op).2 = (q.step capacity op).2)
    {s : σ} {q : BoundedQueue α} (h : R s q) (ops : List (QueueOp α)) :
    answers step s ops = answers (BoundedQueue.step capacity) q ops := by
  induction ops generalizing s q with
  | nil => rfl
  | cons op ops ih =>
    obtain ⟨hnext, hanswer⟩ := hstep s q op h
    rw [answers, answers, hanswer, ih hnext]

end BoundedQueue

end Forte
