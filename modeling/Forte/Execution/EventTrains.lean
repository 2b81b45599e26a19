import Mathlib.Data.Fin.VecNotation
import Forte.Execution.EventSwitches
import Forte.Execution.PacedBlocks

/-!
# Trains and tables of events

`E_TRAIN` sends `N` events with an interval `DT` before each of them: an `E_CTU` counts them, and
an `E_SWITCH` goes on to the next one as long as there is one. It sends one event for `N = 0` too.
`E_TABLE` sends up to four events with an interval of its own before each of them, and none for
`N = 0`. In `Forte.eTrain_complete` and `Forte.eTable_complete` these are what comes of any number
of starts, and each event comes with its number in `CV`.
-/

namespace Forte

/-! ### `E_TRAIN` -/

/-- The inputs of `E_TRAIN`. -/
structure TrainInputs where
  dt : BitVec 64
  n : BitVec 16
  deriving DecidableEq

/-- The events for the counter and the switch of `E_TRAIN`. -/
inductive TrainEvent
  | ctrR | ctrCU | gateEI
  deriving DecidableEq

/-- The counter and the switch of `E_TRAIN`, with the outputs of the counter. -/
structure TrainFBs where
  ctr : Option CtuState × CtuData
  gate : Option SwitchState × Bool
  connQ : Bool
  connCV : BitVec 16
  deriving DecidableEq

namespace TrainFBs

/-- The counter receives an event, and publishes its outputs with those that it sends. -/
def executeCounter (c : TrainFBs) (event : CtuEvent) (pv : BitVec 16) :
    TrainFBs × List (Option TrainEvent) :=
  let (ctr, outputs) := eCtu.receiveInputEvent c.ctr (event, pv)
  ({ c with
      ctr
      connQ := (outputs.getLast?.map fun output => output.2.1).getD c.connQ
      connCV := (outputs.getLast?.map fun output => output.2.2).getD c.connCV },
    outputs.map fun _ => some .gateEI)

/-- An event is executed. -/
def receiveInputEvent (c : TrainFBs) (inputs : TrainInputs) :
    TrainEvent → TrainFBs × List (Option TrainEvent)
  | .ctrR => c.executeCounter .r inputs.n
  | .ctrCU => c.executeCounter .cu inputs.n
  | .gateEI =>
    let (gate, outputs) := eSwitch.receiveInputEvent c.gate ((), c.connQ)
    -- only `EO0` is connected
    ({ c with gate }, (outputs.filter fun output => !output).map fun _ => none)

end TrainFBs

/-- The controller of `FORTE_E_TRAIN`. -/
def eTrain : Controller TrainInputs TrainFBs TrainEvent where
  created := ⟨eCtu.created, eSwitch.created, false, 0⟩
  onStart := .ctrR
  onEO := .ctrCU
  receiveInputEvent := TrainFBs.receiveInputEvent
  dt _ inputs := inputs.dt
  cv := TrainFBs.connCV

/-- **A train of events**, of which there is always one. -/
def train : Paced.Sequence TrainInputs (BitVec 64) where
  length inputs := max 1 inputs.n.toNat
  wait inputs _ := inputs.dt

namespace TrainFBs

/-- The charts are in their initial states. -/
def Ready (c : TrainFBs) : Prop := c.ctr.1 = some .start ∧ c.gate.1 = some .start

/-- The counter has counted the events below a number, and published this. -/
structure Counted (k : ℕ) (c : TrainFBs) : Prop where
  ready : c.Ready
  cv : c.ctr.2.cv.toNat = k
  connCV : c.connCV.toNat = k

variable {c : TrainFBs} {k : ℕ} {inputs : TrainInputs}

theorem executeCounter_r (h : c.Ready) (n : BitVec 16) :
    ∃ c', c.executeCounter .r n = (c', [some .gateEI]) ∧ c'.Counted 0 ∧ c'.connQ = false := by
  obtain ⟨⟨state, d⟩, gate, connQ, connCV⟩ := c
  obtain ⟨rfl, hgate⟩ := h
  rw [executeCounter, eCtu_receive_r]
  exact ⟨_, rfl, ⟨⟨rfl, hgate⟩, rfl, rfl⟩, rfl⟩

theorem executeCounter_cu (h : c.Counted k) (n : BitVec 16) (hk : k < 65535) :
    ∃ c', c.executeCounter .cu n = (c', [some .gateEI]) ∧ c'.Counted (k + 1) ∧
      c'.connQ = decide (n.toNat ≤ k + 1) := by
  obtain ⟨⟨state, d⟩, gate, connQ, connCV⟩ := c
  obtain ⟨⟨rfl, hgate⟩, hcv, -⟩ := h
  have hlt : d.cv < 65535#16 := by
    rw [BitVec.lt_def, hcv]
    exact hk
  have hsucc : (d.cv + 1).toNat = k + 1 := by
    rw [BitVec.toNat_add, show d.cv.toNat = k from hcv]
    exact Nat.mod_eq_of_lt (by omega : k + 1 < 2 ^ 16)
  rw [executeCounter, eCtu_receive_cu]
  simp only [if_pos hlt]
  refine ⟨_, rfl, ⟨⟨rfl, hgate⟩, hsucc, hsucc⟩, ?_⟩
  exact decide_eq_decide.mpr (by rw [BitVec.le_def, hsucc])

/-- What the counter and the switch are before an event with a number: the counter is still to
count the event before, or it has told the switch whether this was the last one. -/
def Working (inputs : TrainInputs) (k : ℕ) : TrainEvent → TrainFBs → Prop
  | .ctrR, c => k = 0 ∧ c.Ready
  | .ctrCU, c => ∃ j, k = j + 1 ∧ j < train.length inputs ∧ c.Counted j
  | .gateEI, c => c.Counted k ∧ c.connQ = decide (train.length inputs ≤ k)

theorem Working.receive {event : TrainEvent} (h : Working inputs k event c) :
    ∃ c' events, eTrain.receiveInputEvent c inputs event = (c', events) ∧
      ((∃ event', events = [some event'] ∧ Working inputs k event' c') ∨
        (events = [none] ∧ k < train.length inputs ∧ k < train.length inputs ∧ c'.Counted k) ∨
        (events = [] ∧ train.length inputs ≤ k ∧ c'.Ready)) := by
  have hn : inputs.n.toNat < 65536 := inputs.n.isLt
  cases event with
  | ctrR =>
    obtain ⟨rfl, hready⟩ := h
    obtain ⟨c', hexecute, hcounted, hq⟩ := executeCounter_r hready inputs.n
    refine ⟨c', _, hexecute, .inl ⟨_, rfl, hcounted, hq.trans (decide_eq_false ?_).symm⟩⟩
    simp [train]
  | ctrCU =>
    obtain ⟨j, rfl, hj, hcounted⟩ := h
    obtain ⟨c', hexecute, hcounted', hq⟩ := executeCounter_cu hcounted inputs.n
      (by simp only [train] at hj; omega)
    refine ⟨c', _, hexecute, .inl ⟨_, rfl, hcounted', hq.trans (decide_eq_decide.mpr ?_)⟩⟩
    simp only [train]
    omega
  | gateEI =>
    obtain ⟨hcounted, hq⟩ := h
    have hreceive : eSwitch.receiveInputEvent c.gate ((), c.connQ) =
        ((some .start, c.connQ), [c.connQ]) := by
      rw [← Prod.mk.eta (p := c.gate), hcounted.ready.2, eSwitch_receive]
    have hexecute : eTrain.receiveInputEvent c inputs .gateEI =
        ({ c with gate := (some .start, c.connQ) },
          ([c.connQ].filter fun output => !output).map fun _ => none) := by
      simp only [eTrain, receiveInputEvent, hreceive]
    refine ⟨_, _, hexecute, .inr ?_⟩
    rw [hq]
    by_cases hk : train.length inputs ≤ k
    · exact .inr ⟨by simp [hk], hk, hcounted.ready.1, rfl⟩
    · have hlt : k < train.length inputs := by omega
      exact .inl ⟨by simp [hk], hlt, hlt, ⟨hcounted.ready.1, rfl⟩, hcounted.cv, hcounted.connCV⟩

end TrainFBs

/-- The counter and the switch count. -/
def eTrainCounts : eTrain.Counts train where
  Sound := TrainFBs.Ready
  Working := TrainFBs.Working
  Waiting inputs k c := k < train.length inputs ∧ c.Counted k
  created := ⟨rfl, rfl⟩
  onStart h _ := ⟨rfl, h⟩
  onEO {_ k _} h := ⟨k, rfl, h⟩
  receive h := h.receive
  dt _ := rfl
  cv h := h.2.connCV
  sound h := h.2.ready

/-- **A train is complete**: in every run in which `START` comes only when everything is at rest,
what happens can be read as starts, waits and events of trains in their order; and at rest again,
if nothing has been stopped, it has been whole trains, of `N` events and at least one, each with
a wait of `DT` before it and its number in `CV`. -/
theorem eTrain_complete (inputs : TrainInputs) {actions : List (PacedFB.Action TrainInputs)}
    (h : Runs.Each (PacedFB.step eTrain) PacedFB.Orderly (PacedFB.created eTrain inputs) actions) :
    let s := Runs.run (PacedFB.step eTrain) (PacedFB.created eTrain inputs) actions
    (∃ place, train.follow s.log = some place) ∧
      (s.Resting → .stopped ∉ s.log →
        ∃ starts : List TrainInputs, s.log = starts.flatMap train.complete) :=
  PacedFB.complete_of_resting eTrainCounts inputs h

/-- A train of two events. -/
theorem eTrain_complete_two :
    let wait : List (PacedFB.Action TrainInputs) :=
      [.execute ⟨5, 2⟩, .timer .processRemoveList, .timer (.processAddList fun _ => false),
        .timer .processRemoveList, .timer (.trigger 0), .timer (.processAddList fun _ => false),
        .transfer, .execute ⟨5, 2⟩, .execute ⟨5, 2⟩, .execute ⟨5, 2⟩, .execute ⟨5, 2⟩]
    let s := Runs.run (PacedFB.step eTrain) (PacedFB.created eTrain ⟨0, 0⟩)
      ([.start, .execute ⟨5, 2⟩, .execute ⟨5, 2⟩, .execute ⟨5, 2⟩] ++ wait ++ wait)
    s.log = [.start ⟨5, 2⟩, .wait 5, .event 0, .wait 5, .event 1] ∧
      ∃ starts : List TrainInputs, s.log = starts.flatMap train.complete := by
  intro wait s
  exact ⟨by decide, (eTrain_complete ⟨0, 0⟩ (by decide)).2 (by decide) (by decide)⟩

/-! ### `E_TABLE` -/

/-- The inputs of `E_TABLE`. -/
structure TableInputs where
  dt : Fin 4 → BitVec 64
  n : BitVec 16
  deriving DecidableEq

/-- The states of `E_TABLE_CTRL`. -/
inductive TableState
  | start | init | init1 | nextStep
  deriving DecidableEq

/-- The event inputs of `E_TABLE_CTRL`. -/
inductive TableEvent
  | start | clk
  deriving DecidableEq

/-- The variables of `E_TABLE_CTRL`. -/
structure TableData where
  inputs : TableInputs
  dto : BitVec 64
  cv : BitVec 16
  deriving DecidableEq

namespace TableData

/-- `alg_INIT`. -/
def algINIT (d : TableData) : TableData := { d with cv := 0, dto := d.inputs.dt 0 }

/-- `alg_NEXT_STEP`. It is not executed with a larger `CV` than 2. -/
def algNEXT_STEP (d : TableData) : TableData :=
  let cv := d.cv + 1
  { d with cv, dto := if h : cv.toNat < 4 then d.inputs.dt ⟨cv.toNat, h⟩ else d.dto }

/-- `CLKO` with the outputs that are published with it. -/
def send (d : TableData) : List (BitVec 64 × BitVec 16) := [(d.dto, d.cv)]

end TableData

/-- `func_MIN` of two `UINT`. -/
def uintMin (a b : BitVec 16) : BitVec 16 := if a < b then a else b

/-- `FORTE_E_TABLE_CTRL`. -/
def eTableCtrl :
    BasicFB TableState TableEvent TableData TableInputs (BitVec 64 × BitVec 16) where
  initial := .start
  transitions
    | .start =>
      [⟨some .start, fun _ => true, .init⟩,
        ⟨some .clk, fun d => d.cv < uintMin 3#16 (d.inputs.n - 1#16), .nextStep⟩]
    | .init =>
      [⟨none, fun d => d.inputs.n = 0#16, .start⟩, ⟨none, fun d => 0#16 < d.inputs.n, .init1⟩]
    | .init1 | .nextStep => [⟨none, fun _ => true, .start⟩]
  enterState
    | .start, d => (d, [])
    | .init, d => (d.algINIT, [])
    | .init1, d => (d, d.send)
    | .nextStep, d => (d.algNEXT_STEP, d.algNEXT_STEP.send)
  rank
    | .start => 0
    | .init1 | .nextStep => 1
    | .init => 2
  rank_lt s := by cases s <;> simp
  initialValues := ⟨⟨fun _ => 0, 0⟩, 0, 0⟩
  readInputData
    | .start, inputs, d => { d with inputs }
    | .clk, _, d => d

theorem eTableCtrl_receive_start (d : TableData) (inputs : TableInputs) :
    eTableCtrl.receiveInputEvent (some .start, d) (.start, inputs) =
      let d := { d with inputs }.algINIT
      if inputs.n = 0#16 then ((some .start, d), []) else ((some .start, d), d.send) := by
  by_cases hn : inputs.n = 0#16
  · simp [BasicFB.receiveInputEvent, ControlChart.executeEvent, ControlChart.cleared,
      ControlChart.settle, eTableCtrl, Transition.enabled, TableData.algINIT, hn]
  · have hpos : 0#16 < inputs.n := by bv_omega
    simp [BasicFB.receiveInputEvent, ControlChart.executeEvent, ControlChart.cleared,
      ControlChart.settle, eTableCtrl, Transition.enabled, TableData.algINIT, hn, hpos]

theorem eTableCtrl_receive_clk (d : TableData) (inputs : TableInputs) :
    eTableCtrl.receiveInputEvent (some .start, d) (.clk, inputs) =
      if d.cv < uintMin 3#16 (d.inputs.n - 1#16) then
        ((some .start, d.algNEXT_STEP), d.algNEXT_STEP.send)
      else ((some .start, d), []) := by
  by_cases h : d.cv < uintMin 3#16 (d.inputs.n - 1#16)
  · simp [BasicFB.receiveInputEvent, ControlChart.executeEvent, ControlChart.cleared,
      ControlChart.settle, eTableCtrl, Transition.enabled, h]
  · simp [BasicFB.receiveInputEvent, ControlChart.executeEvent, ControlChart.cleared,
      eTableCtrl, Transition.enabled, h]

/-- The controller of `E_TABLE`, with its outputs. -/
structure TableFBs where
  ctrl : Option TableState × TableData
  connDTO : BitVec 64
  connCV : BitVec 16
  deriving DecidableEq

namespace TableFBs

/-- An event is executed; `CLKO` starts the delay. -/
def receiveInputEvent (c : TableFBs) (inputs : TableInputs) (event : TableEvent) :
    TableFBs × List (Option TableEvent) :=
  let (ctrl, outputs) := eTableCtrl.receiveInputEvent c.ctrl (event, inputs)
  ({ c with
      ctrl
      connDTO := (outputs.getLast?.map Prod.fst).getD c.connDTO
      connCV := (outputs.getLast?.map Prod.snd).getD c.connCV },
    outputs.map fun _ => none)

end TableFBs

/-- The controller of `FORTE_E_TABLE`. -/
def eTable : Controller TableInputs TableFBs TableEvent where
  created := ⟨eTableCtrl.created, 0, 0⟩
  onStart := .start
  onEO := .clk
  receiveInputEvent := TableFBs.receiveInputEvent
  dt c _ := c.connDTO
  cv := TableFBs.connCV

/-- **A table of events**, of which there are four at most. -/
def table : Paced.Sequence TableInputs (BitVec 64) where
  length inputs := min 4 inputs.n.toNat
  wait inputs k := if h : k < 4 then inputs.dt ⟨k, h⟩ else 0

namespace TableFBs

/-- The chart is in its initial state. -/
def Ready (c : TableFBs) : Prop := c.ctrl.1 = some .start

/-- The controller has come to an event with a number, and published this. -/
structure At (inputs : TableInputs) (k : ℕ) (c : TableFBs) : Prop where
  lt : k < table.length inputs
  ready : c.Ready
  read : c.ctrl.2.inputs = inputs
  cv : c.ctrl.2.cv.toNat = k
  connCV : c.connCV.toNat = k
  connDTO : c.connDTO = table.wait inputs k

/-- What the controller is before an event with a number. -/
def Working (inputs : TableInputs) (k : ℕ) : TableEvent → TableFBs → Prop
  | .start, c => k = 0 ∧ c.Ready
  | .clk, c => ∃ j, k = j + 1 ∧ c.At inputs j

variable {c : TableFBs} {k : ℕ} {inputs : TableInputs}

theorem receive_start (h : c.Ready) (inputs : TableInputs) :
    ∃ c' events, eTable.receiveInputEvent c inputs .start = (c', events) ∧
      ((events = [none] ∧ 0 < table.length inputs ∧ c'.At inputs 0) ∨
        (events = [] ∧ table.length inputs ≤ 0 ∧ c'.Ready)) := by
  obtain ⟨⟨state, d⟩, connDTO, connCV⟩ := c
  obtain rfl : state = some .start := h
  simp only [eTable, receiveInputEvent, eTableCtrl_receive_start]
  by_cases hn : inputs.n = 0#16
  · rw [if_pos hn]
    exact ⟨_, _, rfl, .inr ⟨rfl, by simp [table, hn], rfl⟩⟩
  · have hpos : 0 < table.length inputs := by
      have hne : inputs.n.toNat ≠ 0 := fun hzero => hn (BitVec.eq_of_toNat_eq hzero)
      simp only [table]
      omega
    rw [if_neg hn]
    exact ⟨_, _, rfl, .inl ⟨rfl, hpos, hpos, rfl, rfl, rfl, rfl, rfl⟩⟩

/-- Whether there is a next event. -/
theorem lt_uintMin_iff (h : c.At inputs k) :
    c.ctrl.2.cv < uintMin 3#16 (c.ctrl.2.inputs.n - 1#16) ↔ k + 1 < table.length inputs := by
  have hlt := h.lt
  simp only [table] at hlt ⊢
  have hsub : (inputs.n - 1#16).toNat = inputs.n.toNat - 1 := by bv_omega
  rw [h.read, BitVec.lt_def, h.cv, uintMin]
  split
  · rename_i hless
    rw [BitVec.lt_def, hsub] at hless
    have hthree : (3#16).toNat = 3 := rfl
    omega
  · rename_i hless
    rw [BitVec.lt_def, hsub] at hless
    have hthree : (3#16).toNat = 3 := rfl
    omega

theorem receive_clk (h : c.At inputs k) :
    ∃ c' events, eTable.receiveInputEvent c inputs .clk = (c', events) ∧
      ((events = [none] ∧ k + 1 < table.length inputs ∧ c'.At inputs (k + 1)) ∨
        (events = [] ∧ table.length inputs ≤ k + 1 ∧ c'.Ready)) := by
  have hiff := lt_uintMin_iff h
  obtain ⟨hlt, hready, hinputs, hcv, -, -⟩ := h
  obtain ⟨⟨state, d⟩, connDTO, connCV⟩ := c
  obtain rfl : state = some .start := hready
  simp only at hiff hinputs hcv
  simp only [eTable, receiveInputEvent, eTableCtrl_receive_clk]
  by_cases hnext : k + 1 < table.length inputs
  · have hfour : k + 1 < 4 := lt_of_lt_of_le hnext (Nat.min_le_left 4 _)
    have hsucc : (d.cv + 1).toNat = k + 1 := by
      rw [BitVec.toNat_add, hcv]
      exact Nat.mod_eq_of_lt (by omega : k + 1 < 2 ^ 16)
    rw [if_pos (hiff.mpr hnext)]
    refine ⟨_, _, rfl, .inl ⟨rfl, hnext, hnext, rfl, hinputs, hsucc, hsucc, ?_⟩⟩
    simp only [TableData.send, TableData.algNEXT_STEP, table, dif_pos hfour,
      hinputs, hsucc]
    rfl
  · rw [if_neg (mt hiff.mp hnext)]
    exact ⟨_, _, rfl, .inr ⟨rfl, by omega, rfl⟩⟩

end TableFBs

/-- The controller counts. -/
def eTableCounts : eTable.Counts table where
  Sound := TableFBs.Ready
  Working := TableFBs.Working
  Waiting := TableFBs.At
  created := rfl
  onStart h _ := ⟨rfl, h⟩
  onEO {_ k _} h := ⟨k, rfl, h⟩
  receive {inputs k event c} h := by
    cases event with
    | start =>
      obtain ⟨rfl, hready⟩ := h
      obtain ⟨c', events, hreceive, hevents⟩ := TableFBs.receive_start hready inputs
      exact ⟨c', events, hreceive, .inr hevents⟩
    | clk =>
      obtain ⟨j, rfl, hat⟩ := h
      obtain ⟨c', events, hreceive, hevents⟩ := TableFBs.receive_clk hat
      exact ⟨c', events, hreceive, .inr hevents⟩
  dt h := h.connDTO
  cv h := h.connCV
  sound h := h.ready

/-- **A table is complete**: in every run in which `START` comes only when everything is at rest,
what happens can be read as starts, waits and events of tables in their order; and at rest again,
if nothing has been stopped, it has been whole tables, of `N` events and at most four, each with
the wait for it in `DT` before it and its number in `CV`. -/
theorem eTable_complete (inputs : TableInputs) {actions : List (PacedFB.Action TableInputs)}
    (h : Runs.Each (PacedFB.step eTable) PacedFB.Orderly (PacedFB.created eTable inputs) actions) :
    let s := Runs.run (PacedFB.step eTable) (PacedFB.created eTable inputs) actions
    (∃ place, table.follow s.log = some place) ∧
      (s.Resting → .stopped ∉ s.log →
        ∃ starts : List TableInputs, s.log = starts.flatMap table.complete) :=
  PacedFB.complete_of_resting eTableCounts inputs h

/-- A table of two events. -/
theorem eTable_complete_two :
    let inputs : TableInputs := ⟨![5, 7, 0, 0], 2⟩
    let wait : List (PacedFB.Action TableInputs) :=
      [.execute inputs, .timer .processRemoveList, .timer (.processAddList fun _ => false),
        .timer .processRemoveList, .timer (.trigger 0), .timer (.processAddList fun _ => false),
        .transfer, .execute inputs, .execute inputs, .execute inputs]
    let s := Runs.run (PacedFB.step eTable) (PacedFB.created eTable ⟨fun _ => 0, 0⟩)
      ([.start, .execute inputs, .execute inputs] ++ wait ++ wait)
    s.log = [.start inputs, .wait 5, .event 0, .wait 7, .event 1] ∧
      ∃ starts : List TableInputs, s.log = starts.flatMap table.complete := by
  intro inputs wait s
  exact ⟨by decide, (eTable_complete ⟨fun _ => 0, 0⟩ (by decide)).2 (by decide) (by decide)⟩

end Forte
