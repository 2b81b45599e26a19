import Forte.Execution.EventSwitches
import Forte.Lib.Pipeline

/-!
# Edges

`E_R_TRIG`, `E_F_TRIG` and `E_RF_TRIG` are composite function blocks that send an event when the
value of their input has risen or fallen. They consist of the same two function blocks: an event
at `EI` goes to a flip-flop, which sends one if the value is another one than before, and a switch
sends this on to the output for rising or for falling edges.

The events between them go through the event list of the resource, together with those of all
other function blocks, and in the meantime the values are in the connections: `QI` in the
connection from the interface to the flip-flop, and `Q` in the one from there to the switch. This
is a pipeline over one queue. Under every interleaving in which `EI` waits in the event list once
at a time, the events sent are the edges of the values that were read, in this order
(`Forte.EdgeTrigger.edges_sent`); with two of them waiting an edge can be missed, or be reported
twice.
-/

namespace Forte

/-- The events of a composite function block for edges that are in the event list. -/
inductive EdgeEvent (Output : Type)
  /-- The event input `EI`. -/
  | ei
  /-- `CLK` of the flip-flop. -/
  | clk
  /-- `EI` of the switch. -/
  | switchEI
  /-- An event output of the composite function block. -/
  | eo (output : Output)
  deriving DecidableEq

/-- A composite function block for edges, with what is in its connections, and of the event list
its events. -/
structure EdgeTrigger (Output : Type) where
  dFF : Option DFFState × DFFData
  switch : Option SwitchState × Bool
  /-- `conn_if2in_QI`. -/
  connQI : Bool
  /-- The connection from `Q` to `G`. -/
  connQ : Bool
  pending : List (EdgeEvent Output)
  /-- The values of `QI` that were read. -/
  sampled : List Bool
  /-- The events that were sent. -/
  sent : List Output

namespace EdgeTrigger

variable {Output : Type}

/-- A function block as it is created. -/
def created : EdgeTrigger Output where
  dFF := eDFF.created
  switch := eSwitch.created
  connQI := false
  connQ := false
  pending := []
  sampled := []
  sent := []

/-- What happens to the function block. -/
inductive Action
  /-- An event for `EI` is added to the event list. -/
  | addEventEntry
  /-- The first of its events is executed, with what is at the input `QI`. -/
  | execute (qi : Bool)
  deriving DecidableEq

/-- To which event output the outputs `EO0` and `EO1` of the switch are connected. -/
abbrev Connections (Output : Type) := Bool → Option Output

variable (connections : Connections Output)

/-- An event is executed. -/
def executeEvent (s : EdgeTrigger Output) (qi : Bool) : EdgeEvent Output → EdgeTrigger Output
  | .ei =>
    { s with connQI := qi, pending := s.pending ++ [.clk], sampled := s.sampled ++ [qi] }
  | .clk =>
    let (dFF, outputs) := eDFF.receiveInputEvent s.dFF ((), s.connQI)
    { s with
      dFF
      connQ := outputs.getLast?.getD s.connQ
      pending := s.pending ++ outputs.map fun _ => .switchEI }
  | .switchEI =>
    let (switch, outputs) := eSwitch.receiveInputEvent s.switch ((), s.connQ)
    { s with
      switch
      pending := s.pending ++ (outputs.filterMap connections).map .eo }
  | .eo output => { s with sent := s.sent ++ [output] }

/-- One step. -/
def step (s : EdgeTrigger Output) : Action → EdgeTrigger Output
  | .addEventEntry => { s with pending := s.pending ++ [.ei] }
  | .execute qi =>
    match s.pending with
    | [] => s
    | event :: pending => { s with pending }.executeEvent connections qi event

/-- The edges of a sequence of values, behind one of them. -/
def edges : Bool → List Bool → List Output
  | _, [] => []
  | q, value :: values =>
    (if value = q then [] else (connections value).toList) ++ edges value values

end EdgeTrigger

/-- The event output of `E_R_TRIG` and of `E_F_TRIG`. -/
inductive TrigOutput
  | eo
  deriving DecidableEq

/-- The event outputs of `E_RF_TRIG`. -/
inductive RFTrigOutput
  | er | ef
  deriving DecidableEq

/-- The connections of `FORTE_E_R_TRIG` out of the switch. -/
def eRTrig : EdgeTrigger.Connections TrigOutput
  | false => none
  | true => some .eo

/-- The connections of `FORTE_E_F_TRIG` out of the switch. -/
def eFTrig : EdgeTrigger.Connections TrigOutput
  | false => some .eo
  | true => none

/-- The connections of `FORTE_E_RF_TRIG` out of the switch. -/
def eRFTrig : EdgeTrigger.Connections RFTrigOutput
  | false => some .ef
  | true => some .er

namespace EdgeTrigger

variable {Output : Type} (connections : Connections Output)

/-- The flip-flop and the switch as stages: the first one takes a value from the input, the next
one keeps it and passes it on if it is another one, and the third one if there is a connection. -/
def stages : Pipeline Bool Bool where
  react
    | 0, q, value => (q, some value)
    | 1, q, value => (value, if value = q then none else some value)
    | 2, q, value => (q, if (connections value).isSome then some value else none)
    | _, q, _ => (q, none)

/-- The stage that an event belongs to. -/
def stage : EdgeEvent Output → ℕ
  | .ei => 0
  | .clk => 1
  | .switchEI => 2
  | .eo _ => 3

/-- **The function block is the pipeline**: its connections are the registers. -/
structure Represents (s : EdgeTrigger Output) (t : Pipeline.State Bool Bool) : Prop where
  dFF : DFFHolds (t.state 1) s.dFF
  switch : s.switch.1 = some .start
  connQI : s.connQI = t.register 1
  connQ : s.connQ = t.register 2
  pending : s.pending.map stage = t.pending
  /-- An event output is the one for the value in the last register. -/
  eo : ∀ output, .eo output ∈ s.pending → connections (t.register 3) = some output
  sampled : s.sampled = t.consumed 0
  sent : s.sent = (t.consumed 3).filterMap connections

/-- What happens to the pipeline with it. -/
def Action.toPipeline : Action → Pipeline.Action Bool
  | .addEventEntry => .arrive
  | .execute qi => .execute qi

variable {connections} {s : EdgeTrigger Output} {t : Pipeline.State Bool Bool}

theorem represents_created :
    Represents connections (created : EdgeTrigger Output)
      (Pipeline.initial (fun _ => false) fun _ => false) :=
  ⟨dFFHolds_created, rfl, rfl, rfl, rfl, by simp [created], rfl, rfl⟩

/-- **One step** of the function block is one of the pipeline. -/
theorem Represents.step (h : Represents connections s t)
    (ht : (stages connections).Orderly (fun _ => false) t) (action : Action) :
    Represents connections (step connections s action)
      ((stages connections).step t action.toPipeline) := by
  cases action with
  | addEventEntry =>
    refine ⟨h.dFF, h.switch, h.connQI, h.connQ, ?_, fun output houtput => ?_, h.sampled, h.sent⟩
    · rw [EdgeTrigger.step, List.map_append, h.pending]
      rfl
    · refine h.eo output ?_
      simpa [EdgeTrigger.step] using houtput
  | execute qi =>
    rw [EdgeTrigger.step, Action.toPipeline, Pipeline.step, ← h.pending]
    cases hpending : s.pending with
    | nil => exact h
    | cons event pending =>
      have heo (output : Output) (houtput : .eo output ∈ pending) :=
        h.eo output (hpending ▸ List.mem_cons_of_mem event houtput)
      cases event with
      | ei =>
        simp only [executeEvent, List.map_cons, stage, Pipeline.executeStage, stages, if_true]
        refine ⟨?_, h.switch, ?_, ?_, ?_, ?_, ?_, ?_⟩
        · simpa using h.dFF
        · simp
        · simpa using h.connQ
        · simp [stage]
        · simpa using heo
        · simpa using h.sampled
        · simpa using h.sent
      | clk =>
        obtain ⟨hdFF, houtputs⟩ := h.dFF.receive s.connQI
        show Represents connections _
          ((stages connections).executeStage t 1 (pending.map stage) (t.register 1))
        rw [← h.connQI]
        simp only [executeEvent, Pipeline.executeStage, houtputs]
        by_cases hsame : s.connQI = t.state 1
        · have hreact : (stages connections).react 1 (t.state 1) s.connQI = (s.connQI, none) :=
            Prod.ext rfl (if_pos hsame)
          simp only [hreact, if_pos hsame]
          refine ⟨?_, h.switch, ?_, ?_, ?_, ?_, ?_, ?_⟩
          · simpa using hdFF
          · simpa using h.connQI
          · simpa using h.connQ
          · simp
          · simpa using heo
          · simpa using h.sampled
          · simpa using h.sent
        · have hreact : (stages connections).react 1 (t.state 1) s.connQI =
              (s.connQI, some s.connQI) := Prod.ext rfl (if_neg hsame)
          simp only [hreact, if_neg hsame]
          refine ⟨?_, h.switch, ?_, ?_, ?_, ?_, ?_, ?_⟩
          · simpa using hdFF
          · simpa using h.connQI
          · simp
          · simp [stage]
          · simpa using heo
          · simpa using h.sampled
          · simpa using h.sent
      | switchEI =>
        have hreceive : eSwitch.receiveInputEvent s.switch ((), s.connQ) =
            ((some .start, s.connQ), [s.connQ]) := by
          rw [← Prod.mk.eta (p := s.switch), h.switch, eSwitch_receive]
        show Represents connections _
          ((stages connections).executeStage t 2 (pending.map stage) (t.register 2))
        rw [← h.connQ]
        simp only [executeEvent, Pipeline.executeStage, hreceive]
        cases hconnection : connections s.connQ with
        | none =>
          have hreact : (stages connections).react 2 (t.state 2) s.connQ = (t.state 2, none) :=
            Prod.ext rfl (if_neg (by simp [hconnection]))
          simp only [hreact]
          refine ⟨?_, rfl, ?_, ?_, ?_, ?_, ?_, ?_⟩
          · simpa using h.dFF
          · simpa using h.connQI
          · simpa using h.connQ
          · simp [hconnection]
          · simpa [hconnection] using heo
          · simpa using h.sampled
          · simpa using h.sent
        | some output =>
          have hreact : (stages connections).react 2 (t.state 2) s.connQ =
              (t.state 2, some s.connQ) := Prod.ext rfl (if_pos (by rw [hconnection]; rfl))
          have hnone (output : Output) : .eo output ∉ pending := by
            intro hmem
            have hpairwise := ht.pending
            rw [← h.pending, hpending, List.map_cons, List.pairwise_cons] at hpairwise
            exact (hpairwise.1 3 (List.mem_map.mpr ⟨_, hmem, rfl⟩)).2 rfl
          simp only [hreact]
          refine ⟨?_, rfl, ?_, ?_, ?_, ?_, ?_, ?_⟩
          · simpa using h.dFF
          · simpa using h.connQI
          · simpa using h.connQ
          · simp [hconnection, stage]
          · intro output' houtput'
            have heq : output' = output := by simpa [hconnection, hnone] using houtput'
            simpa [heq] using hconnection
          · simpa using h.sampled
          · simpa using h.sent
      | eo output =>
        have hconnections := h.eo output (hpending ▸ List.mem_cons_self)
        simp only [executeEvent, List.map_cons, stage, Pipeline.executeStage, stages]
        refine ⟨?_, h.switch, ?_, ?_, ?_, ?_, ?_, ?_⟩
        · simpa using h.dFF
        · simpa using h.connQI
        · simpa using h.connQ
        · simp
        · simpa using heo
        · simpa using h.sampled
        · simp [h.sent, hconnections]

/-- A state that a pipeline has come to in good order. -/
def Piped (connections : Connections Output) (s : EdgeTrigger Output) : Prop :=
  ∃ t, (stages connections).Orderly (fun _ => false) t ∧ Represents connections s t

theorem Piped.step (h : Piped connections s) {action : Action}
    (haction : action = .addEventEntry → .ei ∉ s.pending) :
    Piped connections (EdgeTrigger.step connections s action) := by
  obtain ⟨t, ht, hs⟩ := h
  refine ⟨(stages connections).step t action.toPipeline, ?_, hs.step ht action⟩
  cases action with
  | addEventEntry =>
    refine ht.arrive fun hmem => haction rfl ?_
    rw [← hs.pending] at hmem
    obtain ⟨event, hevent, hstage⟩ := List.mem_map.mp hmem
    cases event with
    | ei => exact hevent
    | clk => cases hstage
    | switchEI => cases hstage
    | eo output => cases hstage
  | execute qi => exact ht.execute qi

/-! ### The edges -/

theorem produced_zero (q : Bool) (values : List Bool) :
    (stages connections).produced (fun _ => q) 0 values = values := by
  rw [Pipeline.produced]
  induction values with
  | nil => rfl
  | cons value values ih => exact congrArg (value :: ·) ih

theorem produced_one (q : Bool) (values : List Bool) :
    ((stages connections).produced (fun _ => q) 1 values).filterMap connections =
      edges connections q values := by
  rw [Pipeline.produced]
  induction values generalizing q with
  | nil => rfl
  | cons value values ih =>
    rw [Transducer.outputs, List.filterMap_append]
    refine congrArg₂ (· ++ ·) ?_ (ih value)
    by_cases hsame : value = q
    · simp [Pipeline.reaction, stages, hsame]
    · cases hconnection : connections value with
      | none => simp [Pipeline.reaction, stages, hsame, hconnection]
      | some output => simp [Pipeline.reaction, stages, hsame, hconnection]

theorem produced_two (q : Bool) (values : List Bool) :
    ((stages connections).produced (fun _ => q) 2 values).filterMap connections =
      values.filterMap connections := by
  rw [Pipeline.produced]
  induction values with
  | nil => rfl
  | cons value values ih =>
    rw [Transducer.outputs, List.filterMap_append, ← List.singleton_append, List.filterMap_append]
    refine congrArg₂ (· ++ ·) ?_ ih
    cases hconnection : connections value with
    | none => simp [Pipeline.reaction, stages, hconnection]
    | some output => simp [Pipeline.reaction, stages, hconnection]

theorem edges_append (q : Bool) (values values' : List Bool) :
    edges connections q (values ++ values') =
      edges connections q values ++ edges connections ((values.getLast?).getD q) values' := by
  induction values generalizing q with
  | nil => rfl
  | cons value values ih =>
    rw [List.cons_append, edges, edges, ih, List.append_assoc, List.getLast?_cons]
    rfl

variable (connections) in
/-- **The edges are sent**: in every run in which `EI` waits in the event list once at a time,
whatever else is executed in between, the events sent are the edges of the values that were read
at `EI`, from the first one on; and all of them, once no event of the function block waits. -/
theorem edges_sent {actions : List Action}
    (h : Runs.Each (step connections) (fun s action => action = .addEventEntry → .ei ∉ s.pending)
      created actions) :
    let s := Runs.run (step connections) created actions
    s.sent <+: edges connections false s.sampled ∧
      (s.pending = [] → s.sent = edges connections false s.sampled) := by
  intro s
  obtain ⟨t, ht, hs⟩ : Piped connections s :=
    Runs.good_run (fun s action hgood hcond => hgood.step hcond)
      ⟨_, Pipeline.orderly_initial _, represents_created⟩ h
  rw [hs.sent, hs.sampled]
  constructor
  · -- each stage is behind the one before it
    have hsent := (ht.consumed_prefix 2).filterMap connections
    rw [produced_two] at hsent
    have hswitched := (ht.consumed_prefix 1).filterMap connections
    rw [produced_one] at hswitched
    have hlatched := ht.consumed_prefix 0
    rw [produced_zero] at hlatched
    obtain ⟨rest, hrest⟩ := hlatched
    rw [← hrest, edges_append]
    exact (hsent.trans hswitched).trans (List.prefix_append _ _)
  · intro hpending
    have hnil : t.pending = [] := by rw [← hs.pending, hpending]; rfl
    rw [ht.consumed_of_pending_nil hnil 2, produced_two, ht.consumed_of_pending_nil hnil 1,
      produced_one, ht.consumed_of_pending_nil hnil 0, produced_zero]

/-- A rising edge is sent while the next event at `EI` is waiting already. -/
theorem edges_sent_overlapping :
    (Runs.run (step eRTrig) created [.addEventEntry, .execute true, .addEventEntry, .execute true,
      .execute false, .execute false, .execute false, .execute false, .execute false]).sent =
        [.eo] := by
  have hspaced : Runs.Each (step eRTrig) (fun s action => action = .addEventEntry → .ei ∉ s.pending)
      created [.addEventEntry, .execute true, .addEventEntry, .execute true, .execute false,
        .execute false, .execute false, .execute false, .execute false] := by decide
  exact ((edges_sent eRTrig hspaced).2 (by decide)).trans (by decide)

/-- With two events waiting at `EI`, a rising edge is reported twice. -/
example :
    let s := Runs.run (step eRTrig) created ([.addEventEntry, .execute true, .execute true,
      .execute true, .execute true, .addEventEntry, .addEventEntry, .execute true, .addEventEntry,
      .execute false, .execute false] ++ List.replicate 7 (.execute true))
    s.pending = [] ∧ edges eRTrig false s.sampled = [.eo, .eo] ∧ s.sent = [.eo, .eo, .eo] := by
  decide

end EdgeTrigger

end Forte
