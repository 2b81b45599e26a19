import Mathlib.Data.List.Induction
import Mathlib.Data.List.Range

/-!
# Paced sequences

A sequence of numbered events is paced if it waits before each of them. A start says how many
events there are to be and how long the waits are; a wait may be stopped, and that is the end of
the sequence. What has happened, over any number of sequences, is a log.

The machine of this file follows a log (`Forte.Paced.Sequence.follow`). A log that it has followed
back to rest, and in which nothing was stopped, is that of complete sequences
(`Forte.Paced.reads_of_follow`).
-/

namespace Forte.Paced

variable {Start Time : Type}

/-- What happens in a paced sequence. -/
inductive Entry (Start Time : Type)
  | start (s : Start)
  /-- A wait begins. -/
  | wait (time : Time)
  | event (number : ℕ)
  /-- The wait is stopped. -/
  | stopped
  deriving DecidableEq

/-- Where a paced sequence is. -/
inductive State (Start : Type)
  | rest
  /-- The wait for an event has to begin. -/
  | due (s : Start) (number : ℕ)
  /-- The wait for an event has begun. -/
  | waiting (s : Start) (number : ℕ)
  deriving DecidableEq

/-- How many events there are to be, and the waits before them. -/
structure Sequence (Start Time : Type) where
  length : Start → ℕ
  wait : Start → ℕ → Time

variable (q : Sequence Start Time)

/-- The place before an event, which is at the end if there is no such event. -/
def Sequence.before (s : Start) (number : ℕ) : State Start :=
  if number < q.length s then .due s number else .rest

variable [DecidableEq Time]

/-- One entry is followed. -/
def Sequence.next : State Start → Entry Start Time → Option (State Start)
  | .rest, .start s => some (q.before s 0)
  | .due s number, .wait time => if time = q.wait s number then some (.waiting s number) else none
  | .waiting s number, .event number' =>
    if number' = number then some (q.before s (number + 1)) else none
  | .waiting _ _, .stopped => some .rest
  | _, _ => none

/-- A log is followed. -/
def Sequence.follow (log : List (Entry Start Time)) : Option (State Start) :=
  log.foldlM q.next .rest

theorem follow_concat (log : List (Entry Start Time)) (entry : Entry Start Time) :
    q.follow (log ++ [entry]) = (q.follow log).bind fun state => q.next state entry := by
  simp [Sequence.follow, List.foldlM_append]

/-- The events of a sequence below a number, each with its wait. -/
def Sequence.upTo (s : Start) (number : ℕ) : List (Entry Start Time) :=
  .start s :: (List.range number).flatMap fun k => [.wait (q.wait s k), .event k]

/-- A complete sequence. -/
def Sequence.complete (s : Start) : List (Entry Start Time) := q.upTo s (q.length s)

omit [DecidableEq Time] in
theorem upTo_succ (s : Start) (number : ℕ) :
    q.upTo s (number + 1) = q.upTo s number ++ [.wait (q.wait s number), .event number] := by
  simp [Sequence.upTo, List.range_succ]

/-- What a log is that has been followed to a place: complete sequences, and one that has come as
far as this. -/
def Sequence.Reads (log : List (Entry Start Time)) : State Start → Prop
  | .rest => ∃ starts : List Start, log = starts.flatMap q.complete
  | .due s number =>
    number < q.length s ∧ ∃ starts : List Start, log = starts.flatMap q.complete ++ q.upTo s number
  | .waiting s number =>
    number < q.length s ∧ ∃ starts : List Start,
      log = starts.flatMap q.complete ++ q.upTo s number ++ [.wait (q.wait s number)]

variable {q}

omit [DecidableEq Time] in
/-- A sequence has come to the place before an event. -/
theorem reads_before {starts : List Start} {log : List (Entry Start Time)} {s : Start}
    {number : ℕ} (hlog : log = starts.flatMap q.complete ++ q.upTo s number)
    (hle : number ≤ q.length s) : q.Reads log (q.before s number) := by
  rw [Sequence.before]
  split
  · rename_i hlt
    exact ⟨hlt, starts, hlog⟩
  · have heq : number = q.length s := by omega
    refine ⟨starts ++ [s], ?_⟩
    rw [hlog, heq, List.flatMap_append, List.flatMap_singleton]
    rfl

/-- **A log that is followed** without a stop is that of complete sequences, and of one that has
come to the place where it is followed to. -/
theorem reads_of_follow {log : List (Entry Start Time)} (hstopped : .stopped ∉ log)
    {state : State Start} (h : q.follow log = some state) : q.Reads log state := by
  induction log using List.reverseRecOn generalizing state with
  | nil =>
    obtain rfl : State.rest = state := Option.some.inj h
    exact ⟨[], rfl⟩
  | append_singleton log entry ih =>
    rw [follow_concat, Option.bind_eq_some_iff] at h
    obtain ⟨before, hbefore, hnext⟩ := h
    have hreads := ih (fun hmem => hstopped (List.mem_append_left _ hmem)) hbefore
    cases before with
    | rest =>
      cases entry with
      | start s =>
        obtain rfl : q.before s 0 = state := Option.some.inj hnext
        obtain ⟨starts, rfl⟩ := hreads
        exact reads_before rfl (Nat.zero_le _)
      | wait time => cases hnext
      | event number => cases hnext
      | stopped => cases hnext
    | due s number =>
      cases entry with
      | start s => cases hnext
      | wait time =>
        obtain ⟨hlt, starts, rfl⟩ := hreads
        simp only [Sequence.next] at hnext
        split at hnext
        · rename_i htime
          obtain rfl : State.waiting s number = state := Option.some.inj hnext
          exact ⟨hlt, starts, by rw [htime]⟩
        · cases hnext
      | event number => cases hnext
      | stopped => cases hnext
    | waiting s number =>
      cases entry with
      | start s => cases hnext
      | wait time => cases hnext
      | event number' =>
        obtain ⟨hlt, starts, rfl⟩ := hreads
        simp only [Sequence.next] at hnext
        split at hnext
        · rename_i hnumber
          obtain rfl : q.before s (number + 1) = state := Option.some.inj hnext
          have hlog : starts.flatMap q.complete ++ q.upTo s number ++ [.wait (q.wait s number)] ++
              [.event number'] = starts.flatMap q.complete ++ q.upTo s (number + 1) := by
            rw [hnumber, upTo_succ]
            simp only [List.append_assoc, List.cons_append, List.nil_append]
          exact reads_before hlog hlt
        · cases hnext
      | stopped => exact absurd (List.mem_append_right _ List.mem_cons_self) hstopped

end Forte.Paced
