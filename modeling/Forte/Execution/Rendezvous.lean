import Forte.Execution.EventCounters

/-!
# Rendezvous function blocks

`GEN_E_REND` sends `EO` when all of its events have come, and starts again with the next one or
with `R`. The events it has received are divided into rounds by this, which is what
`Forte.Rendezvous.genERend_rounds` says of any number of inputs and of everything that can come.
`E_REND` is a basic function block that does the same for two inputs, and it does exactly what
`GEN_E_REND` does for them (`Forte.Rendezvous.eRend_outputs`).
-/

namespace Forte.Rendezvous

/-! ### `GEN_E_REND` -/

/-- `GEN_E_REND::executeEvent`, with `mFlags`: the events below `n` are `EI1` to `EIn`, and `n` is
`R`. -/
def genERend (n : ℕ) (flags : List Bool) (eiid : ℕ) : List Bool × List Unit :=
  if eiid = n then (flags.map fun _ => false, [])
  else if eiid < n then
    let flags := flags.set eiid true
    if flags.all id then (flags.map fun _ => false, [()]) else (flags, [])
  else (flags, [])

/-- `mFlags` when the interface has been created. -/
def genERendCreated (n : ℕ) : List Bool := List.replicate n false

/-- Events with which no rendezvous has come about, and no `R`. -/
def Incomplete (n : ℕ) (events : List ℕ) : Prop := n ∉ events ∧ ¬∀ i < n, i ∈ events

/-- Events with which a rendezvous comes about, with the last one of them. -/
def Met (n : ℕ) (events : List ℕ) : Prop :=
  Incomplete n events.dropLast ∧ n ∉ events ∧ ∀ i < n, i ∈ events

/-- Events that are ended by `R`. -/
def Broken (n : ℕ) (events : List ℕ) : Prop :=
  Incomplete n events.dropLast ∧ events.getLast? = some n

instance (n : ℕ) (events : List ℕ) : Decidable (Incomplete n events) :=
  inferInstanceAs (Decidable (_ ∧ _))

instance (n : ℕ) (events : List ℕ) : Decidable (Met n events) :=
  inferInstanceAs (Decidable (_ ∧ _ ∧ _))

/-- **The events are divided into rounds**, and those that have come since the last one. -/
structure Divided (n : ℕ) (events : List ℕ) (rounds : List (List ℕ)) (rest : List ℕ) : Prop where
  events : events = rounds.flatten ++ rest
  rounds : ∀ round ∈ rounds, Met n round ∨ Broken n round
  rest : Incomplete n rest

/-- The flags of the events that have come. -/
def marks (n : ℕ) (events : List ℕ) : List Bool :=
  (List.range n).map fun i => decide (i ∈ events)

variable {n : ℕ} {events : List ℕ} {rounds : List (List ℕ)} {rest : List ℕ}

theorem incomplete_nil (hn : 2 ≤ n) : Incomplete n [] :=
  ⟨List.not_mem_nil, fun h => absurd (h 0 (by omega)) List.not_mem_nil⟩

theorem marks_nil (n : ℕ) : marks n [] = genERendCreated n := by
  simp [marks, genERendCreated]

theorem marks_map_false (n : ℕ) (events : List ℕ) :
    ((marks n events).map fun _ => false) = marks n [] := by
  simp [marks]

theorem marks_set (events : List ℕ) {eiid : ℕ} :
    (marks n events).set eiid true = marks n (events ++ [eiid]) := by
  refine List.ext_getElem (by simp [marks]) fun i hi hi' => ?_
  rw [List.getElem_set]
  by_cases heq : eiid = i
  · simp [marks, heq]
  · simp [marks, heq, Ne.symm heq]

theorem marks_of_le (events : List ℕ) {eiid : ℕ} (h : n ≤ eiid) :
    marks n (events ++ [eiid]) = marks n events := by
  refine List.map_congr_left fun i hi => ?_
  have hne : i ≠ eiid := by
    have := List.mem_range.mp hi
    omega
  simp [hne]

theorem marks_all (events : List ℕ) : (marks n events).all id = true ↔ ∀ i < n, i ∈ events := by
  simp [marks]

theorem met_concat_iff (h : Incomplete n rest) {eiid : ℕ} (hne : eiid ≠ n) :
    Met n (rest ++ [eiid]) ↔ ∀ i < n, i ∈ rest ++ [eiid] := by
  refine ⟨fun hmet => hmet.2.2, fun hall => ⟨?_, ?_, hall⟩⟩
  · rwa [List.dropLast_concat]
  · simpa [h.1] using Ne.symm hne

/-- **What one event does.** -/
theorem genERend_marks (h : Incomplete n rest) (eiid : ℕ) :
    genERend n (marks n rest) eiid =
      if eiid = n then (marks n [], [])
      else if Met n (rest ++ [eiid]) then (marks n [], [()])
      else (marks n (rest ++ [eiid]), []) := by
  rw [genERend, marks_map_false]
  by_cases heq : eiid = n
  · rw [if_pos heq, if_pos heq]
  · rw [if_neg heq, if_neg heq]
    simp only [met_concat_iff h heq]
    by_cases hlt : eiid < n
    · rw [if_pos hlt, marks_set]
      simp only [marks_map_false, marks_all]
    · -- an event of no number changes nothing
      have hnot : ¬∀ i < n, i ∈ rest ++ [eiid] := by
        intro hall
        refine h.2 fun i hi => ?_
        have hne : i ≠ eiid := by omega
        simpa [hne] using hall i hi
      rw [if_neg hlt, if_neg hnot, marks_of_le rest (by omega)]

/-- **What is known from the events**: their rounds, and the flags of those since the last one. -/
theorem genERend_divided (hn : 2 ≤ n) (events : List ℕ) :
    ∃ rounds rest, Divided n events rounds rest ∧
      Transducer.after (genERend n) (genERendCreated n) events = marks n rest ∧
      (Transducer.outputs (genERend n) (genERendCreated n) events).length =
        rounds.countP fun round => Met n round := by
  induction events using List.reverseRecOn with
  | nil => exact ⟨[], [], ⟨rfl, by simp, incomplete_nil hn⟩, (marks_nil n).symm, rfl⟩
  | append_singleton events eiid ih =>
    obtain ⟨rounds, rest, ⟨rfl, hrounds, hrest⟩, hafter, hlength⟩ := ih
    rw [Transducer.after_concat, Transducer.outputs_concat, hafter, genERend_marks hrest,
      List.length_append, hlength]
    have hconcat : (rounds ++ [rest ++ [eiid]]).flatten ++ [] =
        rounds.flatten ++ rest ++ [eiid] := by simp
    by_cases heq : eiid = n
    · have hbroken : Broken n (rest ++ [eiid]) := by
        refine ⟨by rwa [List.dropLast_concat], ?_⟩
        rw [List.getLast?_concat, heq]
      have hnot : ¬Met n (rest ++ [eiid]) := fun hmet => hmet.2.1 (by simp [heq])
      rw [if_pos heq]
      refine ⟨rounds ++ [rest ++ [eiid]], [], ⟨hconcat.symm, ?_, incomplete_nil hn⟩, rfl, ?_⟩
      · simpa [or_imp, forall_and, hbroken] using hrounds
      · simp [hnot]
    · rw [if_neg heq]
      by_cases hmet : Met n (rest ++ [eiid])
      · rw [if_pos hmet]
        refine ⟨rounds ++ [rest ++ [eiid]], [], ⟨hconcat.symm, ?_, incomplete_nil hn⟩, rfl, ?_⟩
        · simpa [or_imp, forall_and, hmet] using hrounds
        · simp [hmet]
      · rw [if_neg hmet]
        have hrest' : Incomplete n (rest ++ [eiid]) := by
          refine ⟨by simpa [hrest.1] using Ne.symm heq, ?_⟩
          rwa [← met_concat_iff hrest heq]
        exact ⟨rounds, rest ++ [eiid], ⟨by simp, hrounds, hrest'⟩, rfl, rfl⟩

/-- **Rendezvous**: whatever events a `GEN_E_REND` with `n` inputs receives, they are divided into
rounds. A round either ends with the event that was the last one of `EI1` to `EIn` to come, or
with `R` before all of them have come. `EO` is sent once for each round of the first kind, and
with the event that ends it. -/
theorem genERend_rounds (hn : 2 ≤ n) (events : List ℕ) :
    ∃ rounds rest, Divided n events rounds rest ∧
      (Transducer.outputs (genERend n) (genERendCreated n) events).length =
        (rounds.countP fun round => Met n round) ∧
      ∀ eiid, (genERend n (Transducer.after (genERend n) (genERendCreated n) events) eiid).2 =
        if Met n (rest ++ [eiid]) then [()] else [] := by
  obtain ⟨rounds, rest, hdivided, hafter, hlength⟩ := genERend_divided hn events
  refine ⟨rounds, rest, hdivided, hlength, fun eiid => ?_⟩
  rw [hafter, genERend_marks hdivided.rest]
  by_cases heq : eiid = n
  · have hnot : ¬Met n (rest ++ [eiid]) := fun hmet => hmet.2.1 (by simp [heq])
    rw [if_pos heq, if_neg hnot]
  · rw [if_neg heq]
    split
    · rfl
    · rfl

/-- A rendezvous, an `R`, and one event more. -/
theorem genERend_rounds_two :
    ∃ rounds rest, Divided 2 [0, 0, 1, 0, 2, 1] rounds rest ∧
      (rounds.countP fun round => Met 2 round) = 1 := by
  obtain ⟨rounds, rest, hdivided, hlength, -⟩ :=
    genERend_rounds (n := 2) (by decide) [0, 0, 1, 0, 2, 1]
  exact ⟨rounds, rest, hdivided, hlength.symm.trans (by decide)⟩

/-! ### `E_REND` -/

/-- The states of `E_REND`. -/
inductive RendState
  | start | ei1 | eo | ei2
  deriving DecidableEq

/-- The event inputs of `E_REND`. -/
inductive RendEvent
  | ei1 | ei2 | r
  deriving DecidableEq

/-- `FORTE_E_REND`. -/
def eRend : BasicFB RendState RendEvent Unit Unit Unit where
  initial := .start
  transitions
    | .start => [⟨some .ei2, fun _ => true, .ei2⟩, ⟨some .ei1, fun _ => true, .ei1⟩]
    | .ei1 => [⟨some .r, fun _ => true, .start⟩, ⟨some .ei2, fun _ => true, .eo⟩]
    | .eo => [⟨none, fun _ => true, .start⟩]
    | .ei2 => [⟨some .r, fun _ => true, .start⟩, ⟨some .ei1, fun _ => true, .eo⟩]
  enterState
    | .start, d | .ei1, d | .ei2, d => (d, [])
    | .eo, d => (d, [()])
  rank
    | .start | .ei1 | .ei2 => 0
    | .eo => 1
  rank_lt s := by cases s <;> simp
  initialValues := ()
  readInputData _ _ d := d

/-- `scmEventEI1ID`, `scmEventEI2ID` and `scmEventRID`. -/
def RendEvent.id : RendEvent → ℕ
  | .ei1 => 0
  | .ei2 => 1
  | .r => 2

/-- The flags that `GEN_E_REND` has where `E_REND` is in a state. -/
inductive SameRound : Option RendState × Unit → List Bool → Prop
  | start : SameRound (some .start, ()) [false, false]
  | ei1 : SameRound (some .ei1, ()) [true, false]
  | ei2 : SameRound (some .ei2, ()) [false, true]

theorem SameRound.receive {s : Option RendState × Unit} {flags : List Bool} (h : SameRound s flags)
    (event : RendEvent) :
    SameRound (eRend.receiveInputEvent s (event, ())).1 (genERend 2 flags event.id).1 ∧
      (eRend.receiveInputEvent s (event, ())).2 = (genERend 2 flags event.id).2 := by
  cases h with
  | start =>
    cases event with
    | ei1 => exact ⟨.ei1, rfl⟩
    | ei2 => exact ⟨.ei2, rfl⟩
    | r => exact ⟨.start, rfl⟩
  | ei1 =>
    cases event with
    | ei1 => exact ⟨.ei1, rfl⟩
    | ei2 => exact ⟨.start, rfl⟩
    | r => exact ⟨.start, rfl⟩
  | ei2 =>
    cases event with
    | ei1 => exact ⟨.start, rfl⟩
    | ei2 => exact ⟨.ei2, rfl⟩
    | r => exact ⟨.start, rfl⟩

/-- **The chart and the flags**: `E_REND` sends what a `GEN_E_REND` with two inputs sends,
whatever both receive. -/
theorem eRend_outputs (events : List RendEvent) :
    Transducer.outputs (fun s event => eRend.receiveInputEvent s (event, ())) eRend.created events =
      Transducer.outputs (fun flags event => genERend 2 flags event.id) (genERendCreated 2)
        events :=
  (Transducer.simulation (R := SameRound) (fun _ _ event h => h.receive event) .start events).2

end Forte.Rendezvous
