import Mathlib.Data.BitVec
import Forte.Lib.ControlChart
import Forte.Lib.Transducer

/-!
# Basic function blocks that count

A basic function block has an execution control chart. When it receives an event it reads the
data inputs that go with the event, and executes the event; with an event that it sends it
publishes the data outputs that go with it.

This file has the blocks that count events. `E_CTU` counts up and `E_CTD` down, until there is
nothing more to count, and what they show is known from the events since the last one that has
set them (`Forte.eCtu_counts`, `Forte.eCtd_counts`). `E_CTUD` and `E_CTUD_UDINT` count both ways.
They compare their count with the preset value whenever they answer, and not when they read it;
what they show is right all the same (`Forte.ctud_counts`).
-/

namespace Forte

/-- A `CBasicFB`: its chart, and what it reads with an event. -/
structure BasicFB (State Event Data Inputs Output : Type) extends
    ControlChart State Event Data Output where
  /-- What `setInitialValues` leaves. -/
  initialValues : Data
  readInputData : Event → Inputs → Data → Data

namespace BasicFB

variable {State Event Data Inputs Output : Type} [DecidableEq Event]
  (fb : BasicFB State Event Data Inputs Output)

/-- `receiveInputEvent`, with what is at the data inputs. -/
def receiveInputEvent (s : Option State × Data) (input : Event × Inputs) :
    (Option State × Data) × List Output :=
  let executed := fb.executeEvent s.1 input.1 (fb.readInputData input.1 input.2 s.2)
  ((executed.1, executed.2.1), executed.2.2)

/-- A function block as it is created. -/
def created : Option State × Data := (some fb.initial, fb.initialValues)

/-- The function block when it has received a number of events. -/
def after (inputs : List (Event × Inputs)) : Option State × Data :=
  Transducer.after fb.receiveInputEvent fb.created inputs

/-- What it sends with the next event. -/
def answer (inputs : List (Event × Inputs)) (input : Event × Inputs) : List Output :=
  (fb.receiveInputEvent (fb.after inputs) input).2

variable {fb}

/-- **What is known from the events** goes by induction on them from the last one. -/
theorem after_induction {P : List (Event × Inputs) → Option State × Data → Prop}
    (hreceive : ∀ inputs s input, P inputs s →
      P (inputs ++ [input]) (fb.receiveInputEvent s input).1)
    (h : P [] fb.created) (inputs : List (Event × Inputs)) : P inputs (fb.after inputs) :=
  Transducer.after_induction hreceive h inputs

/-- **A chart that is a star** is in its initial state between the events. -/
theorem receiveInputEvent_of_star (h : fb.Star) (data : Data) (input : Event × Inputs) :
    fb.receiveInputEvent (some fb.initial, data) input =
      let data := fb.readInputData input.1 input.2 data
      match fb.cleared fb.initial (some input.1) data with
      | none => ((some fb.initial, data), [])
      | some target =>
        ((some fb.initial, (fb.enterState target data).1), (fb.enterState target data).2) := by
  simp only [receiveInputEvent, h.executeEvent]
  cases fb.cleared fb.initial (some input.1) (fb.readInputData input.1 input.2 data) with
  | none => rfl
  | some target => rfl

end BasicFB

/-! ### Counting up -/

/-- The states of `E_CTU`. -/
inductive CtuState
  | start | cu | r
  deriving DecidableEq

/-- The event inputs of `E_CTU`. -/
inductive CtuEvent
  | cu | r
  deriving DecidableEq

/-- The event outputs of `E_CTU`. -/
inductive CtuOutput
  | cuo | ro
  deriving DecidableEq

/-- The variables of `E_CTU`. -/
structure CtuData where
  pv : BitVec 16
  q : Bool
  cv : BitVec 16
  deriving DecidableEq

namespace CtuData

/-- `alg_CU`. -/
def algCU (d : CtuData) : CtuData :=
  let cv := d.cv + 1
  { d with cv, q := d.pv ≤ cv }

/-- `alg_R`. -/
def algR (d : CtuData) : CtuData := { d with cv := 0, q := false }

/-- An event of `E_CTU` with the outputs that are published with it. -/
def send (d : CtuData) (event : CtuOutput) : List (CtuOutput × Bool × BitVec 16) :=
  [(event, d.q, d.cv)]

end CtuData

/-- `FORTE_E_CTU`. -/
def eCtu : BasicFB CtuState CtuEvent CtuData (BitVec 16) (CtuOutput × Bool × BitVec 16) where
  initial := .start
  transitions
    | .start => [⟨some .cu, fun d => d.cv < 65535#16, .cu⟩, ⟨some .r, fun _ => true, .r⟩]
    | .cu | .r => [⟨none, fun _ => true, .start⟩]
  enterState
    | .start, d => (d, [])
    | .cu, d => (d.algCU, d.algCU.send .cuo)
    | .r, d => (d.algR, d.algR.send .ro)
  rank
    | .start => 0
    | .cu | .r => 1
  rank_lt s := by cases s <;> simp
  initialValues := ⟨0, false, 0⟩
  readInputData
    | .cu, pv, d => { d with pv }
    | .r, _, d => d

theorem eCtu_star : eCtu.Star where
  back s hs := by
    cases s with
    | start => exact absurd rfl hs
    | cu => rfl
    | r => rfl
  event_ne_none := by simp [eCtu]
  enterState _ := rfl

/-- The values of `PV` with the `CU` events since the last `R`, the last one first. -/
def countedSinceReset (inputs : List (CtuEvent × BitVec 16)) : List (BitVec 16) :=
  (inputs.reverse.takeWhile fun input => input.1 = .cu).map Prod.snd

theorem countedSinceReset_cu (inputs : List (CtuEvent × BitVec 16)) (pv : BitVec 16) :
    countedSinceReset (inputs ++ [(.cu, pv)]) = pv :: countedSinceReset inputs := by
  simp [countedSinceReset]

theorem countedSinceReset_r (inputs : List (CtuEvent × BitVec 16)) (pv : BitVec 16) :
    countedSinceReset (inputs ++ [(.r, pv)]) = [] := by
  simp [countedSinceReset]

theorem eCtu_receive_cu (d : CtuData) (pv : BitVec 16) :
    eCtu.receiveInputEvent (some .start, d) (.cu, pv) =
      let d := { d with pv }
      if d.cv < 65535#16 then ((some .start, d.algCU), d.algCU.send .cuo)
      else ((some .start, d), []) := by
  refine (BasicFB.receiveInputEvent_of_star eCtu_star d _).trans ?_
  by_cases h : d.cv < 65535#16
  · simp [eCtu, ControlChart.cleared, Transition.enabled, h]
  · simp [eCtu, ControlChart.cleared, Transition.enabled, h]

theorem eCtu_receive_r (d : CtuData) (pv : BitVec 16) :
    eCtu.receiveInputEvent (some .start, d) (.r, pv) =
      ((some .start, d.algR), d.algR.send .ro) := by
  refine (BasicFB.receiveInputEvent_of_star eCtu_star d _).trans ?_
  simp [eCtu, ControlChart.cleared, Transition.enabled]

/-- What is known of `E_CTU` from the events it has received. -/
structure CtuCounts (inputs : List (CtuEvent × BitVec 16)) (s : Option CtuState × CtuData) :
    Prop where
  state : s.1 = some .start
  cv : s.2.cv.toNat = min 65535 (countedSinceReset inputs).length
  q : s.2.q = true ↔ ∃ pv ∈ (countedSinceReset inputs).head?, pv ≤ s.2.cv

section

variable {inputs : List (CtuEvent × BitVec 16)} {s : Option CtuState × CtuData}

theorem CtuCounts.lt_iff (h : CtuCounts inputs s) :
    s.2.cv < 65535#16 ↔ (countedSinceReset inputs).length < 65535 := by
  rw [BitVec.lt_def, h.cv]
  simp

theorem CtuCounts.cv_add_one (h : CtuCounts inputs s) (hlt : s.2.cv < 65535#16) :
    (s.2.cv + 1).toNat = (countedSinceReset inputs).length + 1 := by
  have hroom := h.lt_iff.mp hlt
  rw [BitVec.toNat_add, h.cv]
  simp
  omega

theorem CtuCounts.receive (h : CtuCounts inputs s) (input : CtuEvent × BitVec 16) :
    CtuCounts (inputs ++ [input]) (eCtu.receiveInputEvent s input).1 := by
  obtain ⟨state, d⟩ := s
  obtain rfl : state = some .start := h.state
  obtain ⟨event, pv⟩ := input
  cases event with
  | cu =>
    rw [eCtu_receive_cu]
    by_cases hlt : d.cv < 65535#16
    · have hroom := h.lt_iff.mp hlt
      simp only [hlt, if_true]
      refine ⟨rfl, ?_, ?_⟩
      · rw [countedSinceReset_cu, List.length_cons]
        refine (h.cv_add_one hlt).trans ?_
        omega
      · simp [countedSinceReset_cu, CtuData.algCU]
    · -- there is nothing more to count, and no preset value is larger
      have hfull := h.cv
      have hroom := mt h.lt_iff.mpr hlt
      have hmax : d.cv = 65535#16 := by
        apply BitVec.eq_of_toNat_eq
        rw [hfull]
        simp
        omega
      simp only [hlt, if_false]
      refine ⟨rfl, ?_, ?_⟩
      · rw [countedSinceReset_cu, List.length_cons]
        refine hfull.trans ?_
        omega
      · have hle (pv : BitVec 16) : pv ≤ d.cv := by
          rw [hmax]
          bv_omega
        have hq := h.q
        cases hcounted : countedSinceReset inputs with
        | nil => simp [hcounted] at hroom
        | cons first rest =>
          rw [hcounted] at hq
          simpa [countedSinceReset_cu, hle] using hq
  | r =>
    rw [eCtu_receive_r]
    refine ⟨rfl, ?_, ?_⟩
    · simp [countedSinceReset_r, CtuData.algR]
    · simp [countedSinceReset_r, CtuData.algR]

theorem CtuCounts.answer_cu (h : CtuCounts inputs s) (pv : BitVec 16) :
    (eCtu.receiveInputEvent s (.cu, pv)).2 =
      let counted := (countedSinceReset inputs).length
      if counted < 65535 then
        [(.cuo, decide (pv.toNat ≤ counted + 1), BitVec.ofNat 16 (counted + 1))]
      else [] := by
  obtain ⟨state, d⟩ := s
  obtain rfl : state = some .start := h.state
  rw [eCtu_receive_cu]
  by_cases hlt : d.cv < 65535#16
  · have hcv := h.cv_add_one hlt
    have heq : d.cv + 1 = BitVec.ofNat 16 ((countedSinceReset inputs).length + 1) := by
      rw [← hcv, BitVec.ofNat_toNat, BitVec.setWidth_eq]
    have hle : decide (pv ≤ d.cv + 1) = decide (pv.toNat ≤ (countedSinceReset inputs).length + 1) :=
      decide_eq_decide.mpr (by rw [BitVec.le_def, hcv])
    simp only [hlt, h.lt_iff.mp hlt, if_true, CtuData.send, CtuData.algCU]
    rw [hle, heq]
  · simp only [hlt, mt h.lt_iff.mpr hlt, if_false]

theorem ctuCounts (inputs : List (CtuEvent × BitVec 16)) : CtuCounts inputs (eCtu.after inputs) :=
  BasicFB.after_induction (fun _ _ input h => h.receive input)
    ⟨rfl, rfl, by simp [countedSinceReset, BasicFB.created, eCtu]⟩ inputs

end

/-- **Counting up**: whatever has been received, the count is that of the `CU` events since the
last `R`, as far as it goes, and the output shows whether it has come to the preset value. A `CU`
event is answered as long as there is something to count, and an `R` always. -/
theorem eCtu_counts (inputs : List (CtuEvent × BitVec 16)) :
    CtuCounts inputs (eCtu.after inputs) ∧
      (∀ pv, eCtu.answer inputs (.cu, pv) =
        let counted := (countedSinceReset inputs).length
        if counted < 65535 then
          [(.cuo, decide (pv.toNat ≤ counted + 1), BitVec.ofNat 16 (counted + 1))]
        else []) ∧
      ∀ pv, eCtu.answer inputs (.r, pv) = [(.ro, false, 0)] := by
  have h := ctuCounts inputs
  refine ⟨h, h.answer_cu, fun pv => ?_⟩
  obtain ⟨d, hd⟩ : ∃ d, eCtu.after inputs = (some .start, d) := ⟨_, Prod.ext h.state rfl⟩
  rw [BasicFB.answer, hd, eCtu_receive_r]
  rfl

/-! ### Counting down -/

/-- The states of `E_CTD`. -/
inductive CtdState
  | start | cd | ld
  deriving DecidableEq

/-- The event inputs of `E_CTD`. -/
inductive CtdEvent
  | cd | ld
  deriving DecidableEq

/-- The event outputs of `E_CTD`. -/
inductive CtdOutput
  | cdo | ldo
  deriving DecidableEq

/-- The variables of `E_CTD`. -/
structure CtdData where
  pv : BitVec 16
  q : Bool
  cv : BitVec 16
  deriving DecidableEq

namespace CtdData

/-- `alg_CD`. -/
def algCD (d : CtdData) : CtdData :=
  let cv := d.cv - 1
  { d with cv, q := cv = 0 }

/-- `alg_LOAD`. -/
def algLOAD (d : CtdData) : CtdData := { d with cv := d.pv, q := d.pv = 0 }

/-- An event of `E_CTD` with the outputs that are published with it. -/
def send (d : CtdData) (event : CtdOutput) : List (CtdOutput × Bool × BitVec 16) :=
  [(event, d.q, d.cv)]

end CtdData

/-- `FORTE_E_CTD`. -/
def eCtd : BasicFB CtdState CtdEvent CtdData (BitVec 16) (CtdOutput × Bool × BitVec 16) where
  initial := .start
  transitions
    | .start => [⟨some .cd, fun d => 0#16 < d.cv, .cd⟩, ⟨some .ld, fun _ => true, .ld⟩]
    | .cd | .ld => [⟨none, fun _ => true, .start⟩]
  enterState
    | .start, d => (d, [])
    | .cd, d => (d.algCD, d.algCD.send .cdo)
    | .ld, d => (d.algLOAD, d.algLOAD.send .ldo)
  rank
    | .start => 0
    | .cd | .ld => 1
  rank_lt s := by cases s <;> simp
  initialValues := ⟨0, false, 0⟩
  readInputData
    | .cd, _, d => d
    | .ld, pv, d => { d with pv }

theorem eCtd_star : eCtd.Star where
  back s hs := by
    cases s with
    | start => exact absurd rfl hs
    | cd => rfl
    | ld => rfl
  event_ne_none := by simp [eCtd]
  enterState _ := rfl

theorem eCtd_receive_cd (d : CtdData) (pv : BitVec 16) :
    eCtd.receiveInputEvent (some .start, d) (.cd, pv) =
      if 0#16 < d.cv then ((some .start, d.algCD), d.algCD.send .cdo)
      else ((some .start, d), []) := by
  refine (BasicFB.receiveInputEvent_of_star eCtd_star d _).trans ?_
  by_cases h : 0#16 < d.cv
  · simp [eCtd, ControlChart.cleared, Transition.enabled, h]
  · simp [eCtd, ControlChart.cleared, Transition.enabled, h]

theorem eCtd_receive_ld (d : CtdData) (pv : BitVec 16) :
    eCtd.receiveInputEvent (some .start, d) (.ld, pv) =
      let d := { d with pv }
      ((some .start, d.algLOAD), d.algLOAD.send .ldo) := by
  refine (BasicFB.receiveInputEvent_of_star eCtd_star d _).trans ?_
  simp [eCtd, ControlChart.cleared, Transition.enabled]

/-- The `CD` events since the last `LD`, and the value of `PV` that has come with it. -/
def loaded : List (CtdEvent × BitVec 16) → Option (BitVec 16) × ℕ :=
  List.foldl (fun s input => if input.1 = .ld then (some input.2, 0) else (s.1, s.2 + 1)) (none, 0)

/-- What is left to count down. -/
def remaining (inputs : List (CtdEvent × BitVec 16)) : ℕ :=
  ((loaded inputs).1.elim 0 BitVec.toNat) - (loaded inputs).2

theorem loaded_cd (inputs : List (CtdEvent × BitVec 16)) (pv : BitVec 16) :
    loaded (inputs ++ [(.cd, pv)]) = ((loaded inputs).1, (loaded inputs).2 + 1) := by
  simp [loaded]

theorem loaded_ld (inputs : List (CtdEvent × BitVec 16)) (pv : BitVec 16) :
    loaded (inputs ++ [(.ld, pv)]) = (some pv, 0) := by
  simp [loaded]

/-- What is known of `E_CTD` from the events it has received. -/
structure CtdCounts (inputs : List (CtdEvent × BitVec 16)) (s : Option CtdState × CtdData) :
    Prop where
  state : s.1 = some .start
  cv : s.2.cv.toNat = remaining inputs
  q : s.2.q = true ↔ (loaded inputs).1.isSome ∧ remaining inputs = 0

section

variable {inputs : List (CtdEvent × BitVec 16)} {s : Option CtdState × CtdData}

theorem CtdCounts.pos_iff (h : CtdCounts inputs s) : 0#16 < s.2.cv ↔ 0 < remaining inputs := by
  rw [BitVec.lt_def, h.cv]
  rfl

theorem CtdCounts.cv_sub_one (h : CtdCounts inputs s) (hpos : 0#16 < s.2.cv) :
    (s.2.cv - 1).toNat = remaining inputs - 1 := by
  have hcv := h.cv
  have hleft := h.pos_iff.mp hpos
  bv_omega

theorem CtdCounts.receive (h : CtdCounts inputs s) (input : CtdEvent × BitVec 16) :
    CtdCounts (inputs ++ [input]) (eCtd.receiveInputEvent s input).1 := by
  obtain ⟨state, d⟩ := s
  obtain rfl : state = some .start := h.state
  obtain ⟨event, pv⟩ := input
  cases event with
  | cd =>
    have hremaining : remaining (inputs ++ [(.cd, pv)]) = remaining inputs - 1 := by
      simp only [remaining, loaded_cd]
      omega
    rw [eCtd_receive_cd]
    by_cases hpos : 0#16 < d.cv
    · have hcv := h.cv_sub_one hpos
      have hleft := h.pos_iff.mp hpos
      simp only [hpos, if_true]
      refine ⟨rfl, by rw [hremaining]; exact hcv, ?_⟩
      -- something has been loaded, since there is something left of it
      have hsome : (loaded inputs).1.isSome := by
        rw [remaining] at hleft
        cases hloaded : (loaded inputs).1 with
        | none => simp [hloaded] at hleft
        | some pv => rfl
      rw [hremaining, loaded_cd, ← hcv]
      simp [CtdData.algCD, hsome, BitVec.toNat_eq]
    · have hleft := mt h.pos_iff.mpr hpos
      simp only [hpos, if_false]
      have hsame : remaining inputs - 1 = remaining inputs := by omega
      refine ⟨rfl, by rw [hremaining, hsame]; exact h.cv, ?_⟩
      rw [hremaining, hsame, loaded_cd]
      exact h.q
  | ld =>
    rw [eCtd_receive_ld]
    have hremaining : remaining (inputs ++ [(.ld, pv)]) = pv.toNat := by
      simp [remaining, loaded_ld]
    refine ⟨rfl, by rw [hremaining]; rfl, ?_⟩
    rw [hremaining, loaded_ld]
    simp [CtdData.algLOAD, BitVec.toNat_eq]

theorem CtdCounts.answer_cd (h : CtdCounts inputs s) (pv : BitVec 16) :
    (eCtd.receiveInputEvent s (.cd, pv)).2 =
      if 0 < remaining inputs then
        [(.cdo, decide (remaining inputs = 1), BitVec.ofNat 16 (remaining inputs - 1))]
      else [] := by
  obtain ⟨state, d⟩ := s
  obtain rfl : state = some .start := h.state
  rw [eCtd_receive_cd]
  by_cases hpos : 0#16 < d.cv
  · have hcv := h.cv_sub_one hpos
    have hleft := h.pos_iff.mp hpos
    have heq : d.cv - 1 = BitVec.ofNat 16 (remaining inputs - 1) := by
      rw [← hcv, BitVec.ofNat_toNat, BitVec.setWidth_eq]
    have hzero : decide (d.cv - 1 = 0) = decide (remaining inputs = 1) := by
      refine decide_eq_decide.mpr (BitVec.toNat_eq.trans ?_)
      rw [hcv]
      simp
      omega
    simp only [hpos, hleft, if_true, CtdData.send, CtdData.algCD]
    rw [hzero, heq]
  · simp only [hpos, mt h.pos_iff.mpr hpos, if_false]

theorem ctdCounts (inputs : List (CtdEvent × BitVec 16)) : CtdCounts inputs (eCtd.after inputs) :=
  BasicFB.after_induction (fun _ _ input h => h.receive input)
    ⟨rfl, rfl, by simp [loaded, BasicFB.created, eCtd]⟩ inputs

end

/-- **Counting down**: whatever has been received, the count is what is left of the value that was
loaded last, and the output shows whether this is nothing, once a value has been loaded. A `CD`
event is answered as long as there is something left, and an `LD` always. -/
theorem eCtd_counts (inputs : List (CtdEvent × BitVec 16)) :
    CtdCounts inputs (eCtd.after inputs) ∧
      (∀ pv, eCtd.answer inputs (.cd, pv) =
        if 0 < remaining inputs then
          [(.cdo, decide (remaining inputs = 1), BitVec.ofNat 16 (remaining inputs - 1))]
        else []) ∧
      ∀ pv, eCtd.answer inputs (.ld, pv) = [(.ldo, decide (pv = 0), pv)] := by
  have h := ctdCounts inputs
  refine ⟨h, h.answer_cd, fun pv => ?_⟩
  obtain ⟨d, hd⟩ : ∃ d, eCtd.after inputs = (some .start, d) := ⟨_, Prod.ext h.state rfl⟩
  rw [BasicFB.answer, hd, eCtd_receive_ld]
  rfl

/-! ### Counting both ways -/

/-- The states of `E_CTUD`. -/
inductive CtudState
  | start | cu | r | cd | ld
  deriving DecidableEq

/-- The event inputs of `E_CTUD`. -/
inductive CtudEvent
  | cu | cd | r | ld
  deriving DecidableEq

/-- The event outputs of `E_CTUD`. -/
inductive CtudOutput
  | co | ro | ldo
  deriving DecidableEq

/-- The variables of `E_CTUD`, with a width for `PV` and `CV`. -/
structure CtudData (w : ℕ) where
  pv : BitVec w
  qu : Bool
  qd : Bool
  cv : BitVec w
  deriving DecidableEq

namespace CtudData

variable {w : ℕ}

/-- `alg_CountUp`. -/
def algCountUp (d : CtudData w) : CtudData w := { d with cv := d.cv + 1 }

/-- `alg_Reset`. -/
def algReset (d : CtudData w) : CtudData w := { d with cv := 0 }

/-- `alg_Load`. -/
def algLoad (d : CtudData w) : CtudData w := { d with cv := d.pv }

/-- `alg_CountDown`. -/
def algCountDown (d : CtudData w) : CtudData w := { d with cv := d.cv - 1 }

/-- `alg_UpdateQUQD`. -/
def algUpdateQUQD (d : CtudData w) : CtudData w := { d with qu := d.pv ≤ d.cv, qd := d.cv = 0 }

/-- An event of `E_CTUD` with the outputs that are published with it. -/
def send (d : CtudData w) (event : CtudOutput) : List (CtudOutput × Bool × Bool × BitVec w) :=
  [(event, d.qu, d.qd, d.cv)]

end CtudData

/-- The chart that `E_CTUD` and `E_CTUD_UDINT` have in common. -/
def ctud (w : ℕ) : BasicFB CtudState CtudEvent (CtudData w) (BitVec w)
    (CtudOutput × Bool × Bool × BitVec w) where
  initial := .start
  transitions
    | .start =>
      [⟨some .cu, fun d => d.cv.toNat < 2 ^ w - 1, .cu⟩, ⟨some .r, fun _ => true, .r⟩,
        ⟨some .cd, fun d => 0 < d.cv.toNat, .cd⟩, ⟨some .ld, fun _ => true, .ld⟩]
    | .cu | .r | .cd | .ld => [⟨none, fun _ => true, .start⟩]
  enterState
    | .start, d => (d, [])
    | .cu, d => let d := d.algCountUp.algUpdateQUQD; (d, d.send .co)
    | .r, d => let d := d.algReset.algUpdateQUQD; (d, d.send .ro)
    | .cd, d => let d := d.algCountDown.algUpdateQUQD; (d, d.send .co)
    | .ld, d => let d := d.algLoad.algUpdateQUQD; (d, d.send .ldo)
  rank
    | .start => 0
    | .cu | .r | .cd | .ld => 1
  rank_lt s := by cases s <;> simp
  initialValues := ⟨0, false, false, 0⟩
  readInputData
    | .cu, pv, d | .ld, pv, d => { d with pv }
    | .r, _, d | .cd, _, d => d

/-- `FORTE_E_CTUD`, with a `UINT`. -/
def eCtud := ctud 16

/-- `FORTE_E_CTUD_UDINT`. -/
def eCtudUdint := ctud 32

namespace Ctud

variable {w : ℕ}

theorem star : (ctud w).Star where
  back s hs := by
    cases s with
    | start => exact absurd rfl hs
    | cu => rfl
    | r => rfl
    | cd => rfl
    | ld => rfl
  event_ne_none := by simp [ctud]
  enterState _ := rfl

/-- The count, with one event more. -/
def countWith (w : ℕ) (count : ℕ) : CtudEvent × BitVec w → ℕ
  | (.cu, _) => min (2 ^ w - 1) (count + 1)
  | (.cd, _) => count - 1
  | (.r, _) => 0
  | (.ld, pv) => pv.toNat

/-- The count behind a number of events. -/
def count (inputs : List (CtudEvent × BitVec w)) : ℕ := inputs.foldl (countWith w) 0

/-- The preset value, with one event more. -/
def presetWith (preset : BitVec w) : CtudEvent × BitVec w → BitVec w
  | (.cu, pv) | (.ld, pv) => pv
  | (.cd, _) | (.r, _) => preset

/-- The preset value that was read last. -/
def preset (inputs : List (CtudEvent × BitVec w)) : BitVec w := inputs.foldl presetWith 0

/-- The event that is sent for an event, if it is not one too many. -/
def sent (w count : ℕ) : CtudEvent → Option CtudOutput
  | .cu => if count < 2 ^ w - 1 then some .co else none
  | .cd => if 0 < count then some .co else none
  | .r => some .ro
  | .ld => some .ldo

theorem count_concat (inputs : List (CtudEvent × BitVec w)) (input : CtudEvent × BitVec w) :
    count (inputs ++ [input]) = countWith w (count inputs) input := by
  rw [count, List.foldl_append]
  rfl

theorem preset_concat (inputs : List (CtudEvent × BitVec w)) (input : CtudEvent × BitVec w) :
    preset (inputs ++ [input]) = presetWith (preset inputs) input := by
  rw [preset, List.foldl_append]
  rfl

/-- What a counter shows for a count and a preset value. -/
def shown (preset : BitVec w) (count : ℕ) : CtudData w :=
  ⟨preset, preset.toNat ≤ count, count = 0, BitVec.ofNat w count⟩

theorem countWith_lt {n : ℕ} (hn : n < 2 ^ w) (input : CtudEvent × BitVec w) :
    countWith w n input < 2 ^ w := by
  obtain ⟨event, pv⟩ := input
  cases event with
  | cu => simp only [countWith]; omega
  | cd => simp only [countWith]; omega
  | r => simp only [countWith]; omega
  | ld => exact pv.isLt

theorem toNat_one {n : ℕ} (hn : 0 < n) (hlt : n < 2 ^ w) : (1 : BitVec w).toNat = 1 :=
  BitVec.toNat_ofNat 1 w ▸ Nat.mod_eq_of_lt (by omega)

theorem algUpdateQUQD_eq (d : CtudData w) {n : ℕ} (hcv : d.cv.toNat = n) :
    d.algUpdateQUQD = shown d.pv n := by
  subst hcv
  simp [CtudData.algUpdateQUQD, shown, BitVec.le_def, BitVec.toNat_eq]

/-- **What an event does**: it is answered with what is then shown, unless it is one too many. -/
theorem receive (d : CtudData w) (input : CtudEvent × BitVec w) :
    (ctud w).receiveInputEvent (some .start, d) input =
      match sent w d.cv.toNat input.1 with
      | none => ((some .start, { d with pv := presetWith d.pv input }), [])
      | some output =>
        let d := shown (presetWith d.pv input) (countWith w d.cv.toNat input)
        ((some .start, d), d.send output) := by
  refine (BasicFB.receiveInputEvent_of_star star d _).trans ?_
  have hlt := d.cv.isLt
  obtain ⟨event, pv⟩ := input
  cases event with
  | cu =>
    by_cases h : d.cv.toNat < 2 ^ w - 1
    · have hcv : (d.cv + 1).toNat = min (2 ^ w - 1) (d.cv.toNat + 1) := by
        have hone : (1 : BitVec w).toNat = 1 := toNat_one (by omega : 0 < 2 ^ w - 1) (by omega)
        rw [BitVec.toNat_add, hone, Nat.mod_eq_of_lt (by omega)]
        omega
      have hshown : (CtudData.algCountUp { d with pv }).algUpdateQUQD =
          shown pv (min (2 ^ w - 1) (d.cv.toNat + 1)) := algUpdateQUQD_eq _ hcv
      simp [ctud, ControlChart.cleared, Transition.enabled, h, sent, presetWith, countWith, hshown]
    · simp [ctud, ControlChart.cleared, Transition.enabled, h, sent, presetWith]
  | cd =>
    by_cases h : 0 < d.cv.toNat
    · have hcv : (d.cv - 1).toNat = d.cv.toNat - 1 := by
        have hone : (1 : BitVec w).toNat = 1 := toNat_one h hlt
        rw [BitVec.toNat_sub_of_le, hone]
        rw [BitVec.le_def, hone]
        exact h
      have hshown : d.algCountDown.algUpdateQUQD = shown d.pv (d.cv.toNat - 1) :=
        algUpdateQUQD_eq _ hcv
      simp [ctud, ControlChart.cleared, Transition.enabled, h, sent, presetWith, countWith, hshown]
    · simp [ctud, ControlChart.cleared, Transition.enabled, h, sent, presetWith]
  | r =>
    have hshown : d.algReset.algUpdateQUQD = shown d.pv 0 := algUpdateQUQD_eq _ BitVec.toNat_zero
    simp [ctud, ControlChart.cleared, Transition.enabled, sent, presetWith, countWith, hshown]
  | ld =>
    have hshown : (CtudData.algLoad { d with pv }).algUpdateQUQD = shown pv pv.toNat :=
      algUpdateQUQD_eq _ rfl
    simp [ctud, ControlChart.cleared, Transition.enabled, sent, presetWith, countWith, hshown]

/-- What is known of an up-down counter from the events it has received. -/
structure Counts (inputs : List (CtudEvent × BitVec w)) (s : Option CtudState × CtudData w) :
    Prop where
  state : s.1 = some .start
  pv : s.2.pv = preset inputs
  cv : s.2.cv.toNat = count inputs
  /-- Something is shown only when an event has been answered. -/
  shown : if inputs.all (·.1 = .cd) then s.2.qu = false ∧ s.2.qd = false
    else s.2 = Ctud.shown (preset inputs) (count inputs)

section

variable {inputs : List (CtudEvent × BitVec w)} {s : Option CtudState × CtudData w}

theorem count_lt (inputs : List (CtudEvent × BitVec w)) : count inputs < 2 ^ w :=
  inputs.foldlRecOn (motive := fun n => n < 2 ^ w) (countWith w) (Nat.two_pow_pos w)
    fun _ hn input _ => countWith_lt hn input

theorem count_of_all_cd (h : inputs.all (·.1 = .cd)) : count inputs = 0 := by
  rw [count]
  refine inputs.foldlRecOn (motive := fun n => n = 0) _ rfl fun n hn input hinput => ?_
  have hcd : input.1 = .cd := by simpa using List.all_eq_true.mp h input hinput
  obtain ⟨event, pv⟩ := input
  obtain rfl : event = .cd := hcd
  simp [countWith, hn]

/-- An event that is answered is not a `CD` with nothing to count. -/
theorem all_cd_of_sent {input : CtudEvent × BitVec w} {output : CtudOutput}
    (h : sent w (count inputs) input.1 = some output) :
    (inputs ++ [input]).all (·.1 = .cd) = false := by
  rw [List.all_append, Bool.and_eq_false_iff]
  by_cases hcd : input.1 = .cd
  · left
    by_contra hall
    rw [Bool.not_eq_false] at hall
    rw [hcd, count_of_all_cd hall] at h
    cases h
  · right
    simpa using hcd

theorem Counts.receive (hw : 0 < w) (h : Counts inputs s) (input : CtudEvent × BitVec w) :
    Counts (inputs ++ [input]) ((ctud w).receiveInputEvent s input).1 := by
  obtain ⟨state, d⟩ := s
  obtain rfl : state = some .start := h.state
  have hcv : d.cv.toNat = count inputs := h.cv
  have hpv : d.pv = preset inputs := h.pv
  have hshown := h.shown
  rw [Ctud.receive, hcv, hpv]
  cases hsent : sent w (count inputs) input.1 with
  | some output =>
    refine ⟨rfl, (preset_concat inputs input).symm, ?_, ?_⟩
    · rw [count_concat]
      exact (BitVec.toNat_ofNat _ w).trans (Nat.mod_eq_of_lt (countWith_lt (count_lt inputs) input))
    · rw [all_cd_of_sent hsent, preset_concat, count_concat]
      rfl
  | none =>
    obtain ⟨event, pv⟩ := input
    cases event with
    | cu =>
      have hpreset := (preset_concat inputs (.cu, pv)).symm
      have hmax : count inputs = 2 ^ w - 1 := by
        have hlt := count_lt inputs
        simp only [sent] at hsent
        split at hsent
        · cases hsent
        · omega
      have hpos : 1 < 2 ^ w := Nat.one_lt_two_pow hw.ne'
      have hall : inputs.all (·.1 = .cd) = false := by
        by_contra hall
        rw [Bool.not_eq_false] at hall
        have := count_of_all_cd hall
        omega
      rw [hall] at hshown
      have hd : d = Ctud.shown (preset inputs) (count inputs) := hshown
      refine ⟨rfl, hpreset, ?_, ?_⟩
      · rw [count_concat]
        refine hcv.trans ?_
        simp only [countWith]
        omega
      · -- the new preset value has not been compared, but none is larger than the count
        rw [List.all_append, hall, preset_concat, count_concat, hd]
        have hle (pv : BitVec w) : pv.toNat ≤ 2 ^ w - 1 := by
          have := pv.isLt
          omega
        simp [Ctud.shown, presetWith, countWith, hmax, hle]
    | cd =>
      have hpreset := (preset_concat inputs (.cd, pv)).symm
      have hzero : count inputs = 0 := by
        simp only [sent] at hsent
        split at hsent
        · cases hsent
        · omega
      refine ⟨rfl, hpreset, ?_, ?_⟩
      · rw [count_concat]
        refine hcv.trans ?_
        simp only [countWith]
        omega
      · have hall : (inputs ++ [(CtudEvent.cd, pv)]).all (·.1 = CtudEvent.cd) =
            inputs.all (·.1 = CtudEvent.cd) := by simp [List.all_append]
        rw [hall, preset_concat, count_concat]
        simpa [presetWith, countWith, hzero, ← hpv] using hshown
    | r => cases hsent
    | ld => cases hsent

theorem counts (hw : 0 < w) (inputs : List (CtudEvent × BitVec w)) :
    Counts inputs ((ctud w).after inputs) :=
  BasicFB.after_induction (fun _ _ input h => h.receive hw input)
    ⟨rfl, rfl, BitVec.toNat_zero, rfl, rfl⟩ inputs

end

end Ctud

/-- **Counting both ways**: whatever has been received, the count is what comes of the events,
held between zero and the largest value of its type. An event is answered unless it is one too
many; what is shown, from the first answer on, is how the count compares with zero and with the
preset value that was read last, also where this has been read without an answer. -/
theorem ctud_counts {w : ℕ} (hw : 0 < w) (inputs : List (CtudEvent × BitVec w)) :
    Ctud.Counts inputs ((ctud w).after inputs) ∧
      ∀ input, (ctud w).answer inputs input =
        match Ctud.sent w (Ctud.count inputs) input.1 with
        | none => []
        | some output =>
          (Ctud.shown (Ctud.preset (inputs ++ [input])) (Ctud.count (inputs ++ [input]))).send
            output := by
  have h := Ctud.counts hw inputs
  refine ⟨h, fun input => ?_⟩
  obtain ⟨d, hd⟩ : ∃ d, (ctud w).after inputs = (some .start, d) := ⟨_, Prod.ext h.state rfl⟩
  have hcv : d.cv.toNat = Ctud.count inputs := by simpa [hd] using h.cv
  have hpv : d.pv = Ctud.preset inputs := by simpa [hd] using h.pv
  rw [BasicFB.answer, hd, Ctud.receive, hcv, hpv, Ctud.preset_concat, Ctud.count_concat]
  cases Ctud.sent w (Ctud.count inputs) input.1 with
  | none => rfl
  | some output => rfl

/-- An `E_CTUD` that is loaded, counts down to zero and is not answered any more. -/
theorem ctud_counts_16 :
    Ctud.Counts [(.ld, 1), (.cd, 0), (.cd, 0)] (eCtud.after [(.ld, 1), (.cd, 0), (.cd, 0)]) ∧
      eCtud.answer [(.ld, 1), (.cd, 0)] (.cd, 0) = [] :=
  ⟨(ctud_counts (by decide : 0 < 16) _).1, ((ctud_counts (by decide) _).2 _).trans (by decide)⟩

end Forte
