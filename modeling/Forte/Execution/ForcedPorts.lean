import Forte.Execution.GenericPorts
import Forte.Lib.Runs

/-!
# Forced data ports

A data port that is forced keeps the forced value until its force is cleared, and the others are
read and written (`Forte.PortState.PerPortRun`). The three classes of generic function blocks hand
numbers of their own to `readData` and `writeData`. In two of them each number is the one that the
name of the port leads to; `REQ` of a `GEN_CSV_WRITER` counts its generic inputs from zero, so that
a port is read or not by the bit of the port two places before. Besides that there are bits for the
first ports only, and a port that has none is forced without effect and without an error.
`Forte.GenericFB.per_port_iff` says what a run has to avoid.
-/

namespace Forte

open DataInput (getDI)

open DataOutput (getDO)

namespace PortState

variable {cgMaxSupportedForceIndex : ℕ} {Value : Type}

section PerPort

variable (F : ValueOps Value) (fb : FBClass)

/-! ### Forcing per port -/

/-- What a force keeps at a port: the value of an input, or the value in the connection of an
output. -/
def held (s : PortState cgMaxSupportedForceIndex Value) (p : ℕ) : Value :=
  if p < fb.numDIs then s.inputs (getDI p) else s.connections (getDO (p - fb.numDIs))

/-- What a port is to keep when it is forced to `v`. -/
def forcedTo (s : PortState cgMaxSupportedForceIndex Value) (p : ℕ) (v : Value) : Value :=
  if p < fb.numDIs then v else F.setValue (s.connections (getDO (p - fb.numDIs))) v

/-- A step forces a port: it is a force command with the name of the port alone, and with a text
that is read to its end as `v`. -/
def Forces (s : PortState cgMaxSupportedForceIndex Value) (st : PortStep Value) (p : ℕ)
    (v : Value) : Prop :=
  ∃ name paValue, st = .force [name] paValue ∧ paValue ≠ [] ∧
    fb.getAbsDataPortNum name = some p ∧
    F.fromString [] paValue (s.value (fb.portAt p)) = some (v, true)

/-- A step clears the force of a port. -/
def Clears (st : PortStep Value) (p : ℕ) : Prop :=
  ∃ name, st = .clearForce [name] ∧ fb.getAbsDataPortNum name = some p

/-- A step reads a connected input: it is an event in which the function block reads it. -/
def Reads (s : PortState cgMaxSupportedForceIndex Value) (st : PortStep Value) (x : DataInput)
    (read : Value → Value) : Prop :=
  ∃ paEIID connected effects, st = .inputEvent paEIID connected effects ∧
    s.mFBState = .running ∧ paEIID < fb.numEIs ∧
    x ∈ (fb.readInputData paEIID).map Prod.snd ∧ connected x = some read

/-- A step is a command about a port: it forces the port or a member of it, or clears its force. -/
def Names (st : PortStep Value) (p : ℕ) : Prop :=
  (∃ name members paValue, st = .force (name :: members) paValue ∧
    fb.getAbsDataPortNum name = some p) ∨ Clears fb st p

/-- **Forcing is per port** in a step. -/
structure PerPort (s : PortState cgMaxSupportedForceIndex Value) (st : PortStep Value) :
    Prop where
  /-- A port that is forced is marked, and has the value. -/
  forced : ∀ p v, Forces F fb s st p v →
    (next F fb s st).isForced p ∧ (next F fb s st).held fb p = s.forcedTo F fb p v
  /-- A port whose force is cleared is not marked. -/
  cleared : ∀ p, Clears fb st p → ¬(next F fb s st).isForced p
  /-- The marks of the other ports stay. -/
  marks : ∀ p, ¬Names fb st p → (next F fb s st).isForced p = s.isForced p
  /-- A marked port keeps its value in every step that is no command about it. -/
  kept : ∀ p < fb.numDIs + fb.numDOs, s.isForced p → ¬Names fb st p →
    (next F fb s st).held fb p = s.held fb p
  /-- An input that is not marked takes the value of its connection. -/
  taken : ∀ x read, Reads fb s st x read → ¬s.isForced x.port →
    (next F fb s st).inputs x = read (s.inputs x)

/-- **Forcing is per port** in a run: in each of its steps, and a port that has been forced keeps
the value until a command about it. -/
structure PerPortRun (s : PortState cgMaxSupportedForceIndex Value)
    (steps : List (PortStep Value)) : Prop where
  each : Runs.Each (next F fb) (PerPort F fb) s steps
  kept : ∀ before st p v between, before ++ st :: between <+: steps →
    Forces F fb (Runs.run (next F fb) s before) st p v →
    (∀ st' ∈ between, ¬Names fb st' p) →
    (Runs.run (next F fb) s (before ++ st :: between)).held fb p =
      (Runs.run (next F fb) s before).forcedTo F fb p v

/-- What a step must not disturb: a port that is forced has a bit, and where the bits of the number
that is handed over and of the input that is read differ, reading makes no difference. -/
def Aligned (s : PortState cgMaxSupportedForceIndex Value) : PortStep Value → Prop
  | .force paNameList paValue => ∀ p v, Forces F fb s (.force paNameList paValue) p v →
      p < cgMaxSupportedForceIndex
  | .inputEvent paEIID connected _ => s.mFBState = .running → paEIID < fb.numEIs →
      ∀ call ∈ fb.readInputData paEIID, ∀ read, connected call.2 = some read →
        s.isForced call.1 = s.isForced call.2.port ∨ read (s.inputs call.2) = s.inputs call.2
  | _ => True

end PerPort

/-! ### What the operations change -/

variable {F : ValueOps Value} {fb : FBClass} {s : PortState cgMaxSupportedForceIndex Value}

theorem isForced_of_lt {p : ℕ} (h : p < cgMaxSupportedForceIndex) :
    s.isForced p = s.mForces ⟨p, h⟩ := dif_pos h

theorem not_isForced_of_le {p : ℕ} (h : cgMaxSupportedForceIndex ≤ p) : s.isForced p = false :=
  dif_neg (Nat.not_lt.mpr h)

theorem isForced_congr {s' : PortState cgMaxSupportedForceIndex Value}
    (h : s'.mForces = s.mForces) (p : ℕ) : s'.isForced p = s.isForced p := by
  rw [isForced, isForced, h]

/-- The bits behind `setForced` of a number that has one. -/
theorem mForces_setForcedAt {p : ℕ} (h : p < cgMaxSupportedForceIndex) (paForceValue : Bool) :
    (s.setForcedAt F fb p paForceValue).mForces =
      Function.update s.mForces ⟨p, h⟩ paForceValue := by
  rw [setForcedAt, dif_pos h]
  dsimp only
  split <;> rfl

theorem isForced_setForcedAt_self {p : ℕ} (h : p < cgMaxSupportedForceIndex)
    (paForceValue : Bool) : (s.setForcedAt F fb p paForceValue).isForced p = paForceValue := by
  rw [isForced_of_lt h, mForces_setForcedAt h, Function.update_self]

theorem setForcedAt_of_le {p : ℕ} (h : cgMaxSupportedForceIndex ≤ p) (paForceValue : Bool) :
    s.setForcedAt F fb p paForceValue = s := dif_neg (Nat.not_lt.mpr h)

theorem isForced_setForcedAt_of_ne {p q : ℕ} (h : q ≠ p) (paForceValue : Bool) :
    (s.setForcedAt F fb p paForceValue).isForced q = s.isForced q := by
  rcases Nat.lt_or_ge p cgMaxSupportedForceIndex with hp | hp
  · rcases Nat.lt_or_ge q cgMaxSupportedForceIndex with hq | hq
    · rw [isForced_of_lt hq, isForced_of_lt hq, mForces_setForcedAt hp]
      exact Function.update_of_ne (fun heq => h (Fin.mk.inj heq)) _ _
    · rw [not_isForced_of_le hq, not_isForced_of_le hq]
  · rw [setForcedAt_of_le hp]

theorem inputs_setForcedAt (p : ℕ) (paForceValue : Bool) :
    (s.setForcedAt F fb p paForceValue).inputs = s.inputs := by
  rw [setForcedAt]
  split
  · dsimp only
    split <;> rfl
  · rfl

/-- A port that is not forced shows what it has shown. -/
theorem held_setForcedAt_of_ne {p q : ℕ} (h : q ≠ p) (paForceValue : Bool) :
    (s.setForcedAt F fb p paForceValue).held fb q = s.held fb q := by
  rw [held, held, inputs_setForcedAt]
  by_cases hq : q < fb.numDIs
  · rw [if_pos hq, if_pos hq]
  rw [if_neg hq, if_neg hq, setForcedAt]
  split
  · dsimp only
    split
    · rename_i houtput
      refine Function.update_of_ne (fun heq => h ?_) _ _
      have hindex := DataOutput.getDO_injective heq
      omega
    · rfl
  · rfl

theorem held_setForcedAt_self {p : ℕ} (h : p < cgMaxSupportedForceIndex)
    (hp : p < fb.numDIs + fb.numDOs) :
    (s.setForcedAt F fb p true).held fb p =
      s.forcedTo F fb p (s.value (fb.portAt p)) := by
  rw [held, forcedTo, inputs_setForcedAt, FBClass.portAt]
  by_cases hinput : p < fb.numDIs
  · rw [if_pos hinput, if_pos hinput, if_pos hinput]
    rfl
  · rw [if_neg hinput, if_neg hinput, if_neg hinput, setForcedAt, dif_pos h]
    dsimp only
    rw [if_pos ⟨rfl, by omega, hp⟩]
    exact Function.update_self _ _ _

theorem isForced_assign (v : Value) (port : DataPort) (p : ℕ) :
    (s.assign v port).isForced p = s.isForced p := by
  cases port <;> rfl

theorem value_assign (v : Value) (port : DataPort) : (s.assign v port).value port = v := by
  cases port
  · exact Function.update_self _ _ _
  · exact Function.update_self _ _ _

theorem connections_assign (v : Value) (port : DataPort) :
    (s.assign v port).connections = s.connections := by
  cases port <;> rfl

theorem forcedTo_assign (v : Value) (port : DataPort) (p : ℕ) (w : Value) :
    (s.assign v port).forcedTo F fb p w = s.forcedTo F fb p w := by
  rw [forcedTo, forcedTo, connections_assign]

/-- An assignment to a port is not seen at the others. -/
theorem held_assign_portAt {p q : ℕ} (h : q ≠ p) (v : Value) :
    (s.assign v (fb.portAt p)).held fb q = s.held fb q := by
  rw [FBClass.portAt]
  split
  · rw [held, held, connections_assign]
    split
    · exact Function.update_of_ne (fun heq => h (DataInput.getDI_injective heq)) _ _
    · rfl
  · rfl

theorem held_of_input {p : ℕ} (h : p < fb.numDIs) : s.held fb p = s.inputs (getDI p) := if_pos h

theorem held_of_output {p : ℕ} (h : ¬p < fb.numDIs) :
    s.held fb p = s.connections (getDO (p - fb.numDIs)) := if_neg h

/-- An output that is forced keeps the value of its connection when outputs are written. -/
theorem held_writeOutputData {p : ℕ} (hforced : s.isForced p) (paEO : ℕ) :
    (s.writeOutputData F fb paEO).held fb p = s.held fb p := by
  by_cases hp : p < fb.numDIs
  · rw [held_of_input hp, held_of_input hp]
    rfl
  rw [held_of_output hp, held_of_output hp]
  refine Updates.updateAll_eq_self fun call hcall heq => ?_
  have hnumber : call.1 = p := by
    rw [fb.writes_port paEO call hcall, heq, DataOutput.port_getDO]
    exact Nat.add_sub_cancel' (Nat.not_lt.mp hp)
  rw [writeData, hnumber, if_pos hforced]

theorem held_sendOutputEvent {p : ℕ} (hforced : s.isForced p) (paEO : ℕ) :
    (s.sendOutputEvent F fb paEO).held fb p = s.held fb p := by
  rw [sendOutputEvent]
  split
  · exact held_writeOutputData hforced paEO
  · rfl

theorem mForces_sendOutputEvent (paEO : ℕ) :
    (s.sendOutputEvent F fb paEO).mForces = s.mForces := by
  rw [sendOutputEvent]
  split <;> rfl

theorem inputs_sendOutputEvent (paEO : ℕ) :
    (s.sendOutputEvent F fb paEO).inputs = s.inputs := by
  rw [sendOutputEvent]
  split <;> rfl

/-- The effects of `executeEvent` leave the bits and the inputs as they are, and what is shown at
the ports that are forced. -/
theorem effects_spec (effects : List (PortEffect Value)) :
    (effects.foldl (effect F fb) s).mForces = s.mForces ∧
      (effects.foldl (effect F fb) s).inputs = s.inputs ∧
      ∀ p, s.isForced p → (effects.foldl (effect F fb) s).held fb p = s.held fb p := by
  induction effects generalizing s with
  | nil => exact ⟨rfl, rfl, fun _ _ => rfl⟩
  | cons e effects ih =>
    obtain ⟨hforces, hinputs, hheld⟩ := @ih (s.effect F fb e)
    have hmarks : (s.effect F fb e).mForces = s.mForces := by
      cases e with
      | assign y v => rfl
      | sendOutputEvent paEO => exact mForces_sendOutputEvent paEO
    refine ⟨hforces.trans hmarks, hinputs.trans ?_, fun p hp => ?_⟩
    · cases e with
      | assign y v => rfl
      | sendOutputEvent paEO => exact inputs_sendOutputEvent paEO
    · refine (hheld p ((isForced_congr hmarks p).trans hp)).trans ?_
      cases e with
      | assign y v => rfl
      | sendOutputEvent paEO => exact held_sendOutputEvent hp paEO

/-- **An event** leaves the bits as they are, and the inputs as they have been read; what it does
behind that does not change what is shown at the ports that are forced. -/
theorem receiveInputEvent_spec (paEIID : ℕ) (connected : InputConnections Value)
    (effects : List (PortEffect Value)) :
    (s.receiveInputEvent F fb paEIID connected effects).mForces = s.mForces ∧
      (s.receiveInputEvent F fb paEIID connected effects).inputs =
        (if s.mFBState = .running ∧ paEIID < fb.numEIs then
          (s.readInputData fb connected paEIID).inputs else s.inputs) ∧
      ∀ p, s.isForced p → ¬p < fb.numDIs →
        (s.receiveInputEvent F fb paEIID connected effects).held fb p = s.held fb p := by
  rw [receiveInputEvent]
  by_cases hrunning : s.mFBState = .running
  · rw [if_pos hrunning]
    dsimp only
    generalize hread :
      (if paEIID < fb.numEIs then s.readInputData fb connected paEIID else s) = r
    have hmarks : r.mForces = s.mForces := by
      rw [← hread]
      split <;> rfl
    have hconnections : r.connections = s.connections := by
      rw [← hread]
      split <;> rfl
    have hinputs : r.inputs = if s.mFBState = .running ∧ paEIID < fb.numEIs then
        (s.readInputData fb connected paEIID).inputs else s.inputs := by
      rw [← hread]
      by_cases hinput : paEIID < fb.numEIs
      · rw [if_pos hinput, if_pos ⟨hrunning, hinput⟩]
      · rw [if_neg hinput, if_neg fun h => hinput h.2]
    obtain ⟨hforces, hkept, hheld⟩ := @effects_spec _ _ F fb r effects
    have hshown : ∀ p, s.isForced p → ¬p < fb.numDIs →
        (effects.foldl (effect F fb) r).held fb p = s.held fb p := by
      intro p hp houtput
      rw [hheld p ((isForced_congr hmarks p).trans hp), held_of_output houtput,
        held_of_output houtput, hconnections]
    split
    · exact ⟨hforces.trans hmarks, hkept.trans hinputs, hshown⟩
    · exact ⟨hforces.trans hmarks, hkept.trans hinputs, hshown⟩
  · rw [if_neg hrunning, if_neg fun h => hrunning h.1]
    exact ⟨rfl, rfl, fun _ _ _ => rfl⟩

/-- What an input holds that the function block reads. -/
theorem inputs_readInputData {connected : InputConnections Value} {paEI : ℕ}
    {call : ℕ × DataInput} (hcall : call ∈ fb.readInputData paEI) :
    (s.readInputData fb connected paEI).inputs call.2 =
      s.readData call.1 (s.inputs call.2) (connected call.2) := by
  show Updates.updateAll Prod.snd (fun call v => s.readData call.1 v (connected call.2))
    (fb.readInputData paEI) s.inputs call.2 = _
  exact Updates.updateAll_of_mem (fb.reads_nodup paEI) hcall

/-- An input stays as it is if no round of `readInputData` changes it. -/
theorem inputs_readInputData_eq_self {connected : InputConnections Value} {paEI : ℕ}
    {x : DataInput}
    (h : ∀ call ∈ fb.readInputData paEI, call.2 = x →
      s.readData call.1 (s.inputs x) (connected call.2) = s.inputs x) :
    (s.readInputData fb connected paEI).inputs x = s.inputs x := by
  show Updates.updateAll Prod.snd (fun call v => s.readData call.1 v (connected call.2))
    (fb.readInputData paEI) s.inputs x = _
  exact Updates.updateAll_eq_self h

theorem getPortId_lt {name : StringId} {names : List StringId} {i : ℕ}
    (h : FBClass.getPortId name names = some i) : i < names.length := by
  obtain ⟨hindex, -⟩ := Option.filter_eq_some_iff.mp h
  exact (List.idxOf?_eq_some_iff.mp hindex).1

/-- **The variable that a force command writes is that of the number** that it marks. -/
theorem getVar_eq (name : StringId) :
    fb.getVar name = (fb.getAbsDataPortNum name).map fb.portAt := by
  rw [FBClass.getVar, FBClass.getAbsDataPortNum]
  cases hinput : FBClass.getPortId name fb.mDINames with
  | some i =>
    have hlt : i < fb.numDIs := getPortId_lt hinput
    simp [FBClass.portAt, hlt]
  | none =>
    cases FBClass.getPortId name fb.mDONames with
    | none => rfl
    | some i => simp [FBClass.portAt]

theorem getAbsDataPortNum_lt {name : StringId} {p : ℕ}
    (h : fb.getAbsDataPortNum name = some p) : p < fb.numDIs + fb.numDOs := by
  rw [FBClass.getAbsDataPortNum, Option.or_eq_some_iff] at h
  rcases h with hinput | ⟨-, houtput⟩
  · exact Nat.lt_add_right _ (getPortId_lt hinput)
  · obtain ⟨i, hi, rfl⟩ := Option.map_eq_some_iff.mp houtput
    exact Nat.add_lt_add_left (getPortId_lt hi) _

/-! ### What a step changes -/

theorem setForced_singleton {name : StringId} {p : ℕ}
    (hname : fb.getAbsDataPortNum name = some p) (paForce : Bool) :
    s.setForced F fb paForce [name] = (true, s.setForcedAt F fb p paForce) := by
  rw [setForced, hname]
  exact if_pos rfl

/-- Names that do not lead to a port alone change nothing. -/
theorem setForced_eq_false {names : List StringId}
    (h : ∀ name p, names = [name] → fb.getAbsDataPortNum name ≠ some p) (paForce : Bool) :
    s.setForced F fb paForce names = (false, s) := by
  cases names with
  | nil => rfl
  | cons name members =>
    rw [setForced]
    cases hname : fb.getAbsDataPortNum name with
    | none => rfl
    | some p => exact if_neg fun hmembers => h name p (by rw [hmembers]) hname

/-- **A force command** forces a port and is answered with ready, or it is answered with something
else and at most the variable of the port that it begins with has another value. -/
theorem writeValue_cases (paValue : Text) (names : List StringId) :
    (∃ p v, Forces F fb s (.force names paValue) p v ∧
      s.writeValue F fb paValue names =
        (.ready, (s.assign v (fb.portAt p)).setForcedAt F fb p true)) ∨
    (¬∃ p v, Forces F fb s (.force names paValue) p v) ∧
      (s.writeValue F fb paValue names).1 ≠ .ready ∧
      ((s.writeValue F fb paValue names).2 = s ∨
        ∃ name members p v, names = name :: members ∧ fb.getAbsDataPortNum name = some p ∧
          (s.writeValue F fb paValue names).2 = s.assign v (fb.portAt p)) := by
  cases names with
  | nil =>
    refine .inr ⟨?_, by rw [writeValue]; simp, .inl rfl⟩
    rintro ⟨p, v, name, text, hst, -⟩
    cases hst
  | cons name members =>
    have hforces : ∀ p v, Forces F fb s (.force (name :: members) paValue) p v ↔
        members = [] ∧ paValue ≠ [] ∧ fb.getAbsDataPortNum name = some p ∧
          F.fromString members paValue (s.value (fb.portAt p)) = some (v, true) := by
      intro p v
      constructor
      · rintro ⟨name', text, hst, hrest⟩
        cases hst
        exact ⟨rfl, hrest⟩
      · rintro ⟨rfl, hrest⟩
        exact ⟨name, paValue, rfl, hrest⟩
    simp only [hforces]
    rw [writeValue, getVar_eq]
    cases hname : fb.getAbsDataPortNum name with
    | none =>
      refine .inr ⟨?_, by simp, .inl rfl⟩
      rintro ⟨p, v, -, -, hp, -⟩
      cases hp
    | some p =>
      dsimp only [Option.map_some]
      cases hread : F.fromString members paValue (s.value (fb.portAt p)) with
      | none =>
        refine .inr ⟨?_, by simp, .inl rfl⟩
        rintro ⟨q, v, -, -, hq, hv⟩
        cases hq
        rw [hread] at hv
        cases hv
      | some r =>
        obtain ⟨v, whole⟩ := r
        dsimp only
        by_cases hempty : paValue = []
        · rw [if_pos hempty]
          refine .inr ⟨?_, by simp, .inl rfl⟩
          rintro ⟨q, w, -, hne, -⟩
          exact hne hempty
        rw [if_neg hempty]
        cases whole with
        | false =>
          rw [if_pos Bool.false_ne_true]
          refine .inr ⟨?_, by simp, .inr ⟨name, members, p, v, rfl, hname, rfl⟩⟩
          rintro ⟨q, w, -, -, hq, hw⟩
          cases hq
          rw [hread] at hw
          cases hw
        | true =>
          rw [if_neg (not_not.mpr rfl)]
          by_cases hmembers : members = []
          · subst hmembers
            refine .inl ⟨p, v, ⟨rfl, hempty, rfl, hread⟩, ?_⟩
            rw [setForced_singleton hname]
            rfl
          · rw [setForced_eq_false fun name' q heq => absurd (List.cons.inj heq).2 hmembers]
            refine .inr ⟨?_, by simp, .inr ⟨name, members, p, v, rfl, hname, rfl⟩⟩
            rintro ⟨q, w, hnil, -⟩
            exact hmembers hnil

/-- A command forces at most one port, to one value. -/
theorem Forces.unique {st : PortStep Value} {p q : ℕ} {v w : Value} (h : Forces F fb s st p v)
    (h' : Forces F fb s st q w) : p = q ∧ v = w := by
  obtain ⟨name, text, rfl, -, hp, hv⟩ := h
  obtain ⟨name', text', heq, -, hq, hw⟩ := h'
  cases heq
  obtain rfl : p = q := Option.some.inj (hp.symm.trans hq)
  rw [hv] at hw
  exact ⟨rfl, (Prod.mk.inj (Option.some.inj hw)).1⟩

theorem Forces.names {st : PortStep Value} {p : ℕ} {v : Value} (h : Forces F fb s st p v) :
    Names fb st p := by
  obtain ⟨name, text, rfl, -, hp, -⟩ := h
  exact .inl ⟨name, [], text, rfl, hp⟩

theorem Forces.lt {st : PortStep Value} {p : ℕ} {v : Value} (h : Forces F fb s st p v) :
    p < fb.numDIs + fb.numDOs := by
  obtain ⟨name, text, -, -, hp, -⟩ := h
  exact getAbsDataPortNum_lt hp

theorem Clears.names {st : PortStep Value} {p : ℕ} (h : Clears fb st p) : Names fb st p := .inr h

/-- A step that is no command has to keep the bits and what is shown at the ports that are forced,
and has to take the values of the connections. -/
theorem perPort_of_event {st : PortStep Value} (hnames : ∀ p, ¬Names fb st p)
    (hmarks : (next F fb s st).mForces = s.mForces)
    (hkept : ∀ p < fb.numDIs + fb.numDOs, s.isForced p →
      (next F fb s st).held fb p = s.held fb p)
    (htaken : ∀ x read, Reads fb s st x read → ¬s.isForced x.port →
      (next F fb s st).inputs x = read (s.inputs x)) : PerPort F fb s st where
  forced p _ h := absurd h.names (hnames p)
  cleared p h := absurd h.names (hnames p)
  marks p _ := isForced_congr hmarks p
  kept p hp hforced _ := hkept p hp hforced
  taken := htaken

theorem not_names_inputEvent (paEIID : ℕ) (connected : InputConnections Value)
    (effects : List (PortEffect Value)) (p : ℕ) :
    ¬Names fb (.inputEvent paEIID connected effects) p := by
  rintro (⟨name, members, text, hst, -⟩ | ⟨name, hst, -⟩) <;> cases hst

theorem not_names_outputEvent (paEOID : ℕ) (p : ℕ) :
    ¬Names fb (.outputEvent paEOID : PortStep Value) p := by
  rintro (⟨name, members, text, hst, -⟩ | ⟨name, hst, -⟩) <;> cases hst

theorem not_names_receive (y : DataOutput) (v : Value) (p : ℕ) :
    ¬Names fb (.receive y v) p := by
  rintro (⟨name, members, text, hst, -⟩ | ⟨name, hst, -⟩) <;> cases hst

theorem perPort_outputEvent (paEOID : ℕ) : PerPort F fb s (.outputEvent paEOID) := by
  refine perPort_of_event (not_names_outputEvent paEOID) (mForces_sendOutputEvent paEOID)
    (fun p _ hp => held_sendOutputEvent hp paEOID) ?_
  rintro x read ⟨ei, connected, effects, hst, -⟩
  cases hst

theorem perPort_receive (y : DataOutput) (v : Value) : PerPort F fb s (.receive y v) := by
  refine perPort_of_event (not_names_receive y v) rfl (fun p _ _ => rfl) ?_
  rintro x read ⟨ei, connected, effects, hst, -⟩
  cases hst

theorem perPort_clearForce (names : List StringId) : PerPort F fb s (.clearForce names) := by
  have hforces : ∀ p v, ¬Forces F fb s (.clearForce names) p v := by
    rintro p v ⟨name, text, hst, -⟩
    cases hst
  have hreads : ∀ x read, ¬Reads fb s (.clearForce names) x read := by
    rintro x read ⟨ei, connected, effects, hst, -⟩
    cases hst
  by_cases hclears : ∃ p, Clears fb (.clearForce names : PortStep Value) p
  · obtain ⟨p, name, hst, hp⟩ := hclears
    cases hst
    have hnext : next F fb s (.clearForce [name]) = s.setForcedAt F fb p false := by
      show (s.setForced F fb false [name]).2 = _
      rw [setForced_singleton hp]
    have hother : ∀ q, ¬Names fb (.clearForce [name] : PortStep Value) q → q ≠ p := by
      rintro q hq rfl
      exact hq (.inr ⟨name, rfl, hp⟩)
    refine ⟨fun q v h => absurd h (hforces q v), ?_, ?_, ?_,
      fun x read h => absurd h (hreads x read)⟩
    · rintro q ⟨name', hst, hq⟩
      cases hst
      obtain rfl : p = q := Option.some.inj (hp.symm.trans hq)
      rw [hnext]
      rcases Nat.lt_or_ge p cgMaxSupportedForceIndex with hlt | hle
      · rw [isForced_setForcedAt_self hlt]
        exact Bool.false_ne_true
      · rw [not_isForced_of_le hle]
        exact Bool.false_ne_true
    · intro q hq
      rw [hnext, isForced_setForcedAt_of_ne (hother q hq)]
    · intro q _ _ hq
      rw [hnext, held_setForcedAt_of_ne (hother q hq)]
  · have hnext : next F fb s (.clearForce names) = s := by
      show (s.setForced F fb false names).2 = s
      rw [setForced_eq_false]
      rintro name p rfl hp
      exact hclears ⟨p, name, rfl, hp⟩
    refine ⟨fun q v h => absurd h (hforces q v), fun q h => absurd ⟨q, h⟩ hclears,
      fun q _ => by rw [hnext], fun q _ _ _ => by rw [hnext],
      fun x read h => absurd h (hreads x read)⟩

/-- **A force command** does what it should if and only if the port has a bit. -/
theorem perPort_force_iff (names : List StringId) (paValue : Text) :
    PerPort F fb s (.force names paValue) ↔
      ∀ p v, Forces F fb s (.force names paValue) p v → p < cgMaxSupportedForceIndex := by
  constructor
  · intro h p v hforces
    by_contra hlt
    have hmarked := (h.forced p v hforces).1
    rw [not_isForced_of_le (Nat.not_lt.mp hlt)] at hmarked
    exact Bool.false_ne_true hmarked
  intro h
  have hclears : ∀ p, ¬Clears fb (.force names paValue : PortStep Value) p := by
    rintro p ⟨name, hst, -⟩
    cases hst
  have hreads : ∀ x read, ¬Reads fb s (.force names paValue) x read := by
    rintro x read ⟨ei, connected, effects, hst, -⟩
    cases hst
  rcases @writeValue_cases _ _ F fb s paValue names with
    ⟨p, v, hforces, hresult⟩ | ⟨hnone, -, hresult⟩
  · have hnext : next F fb s (.force names paValue) =
        (s.assign v (fb.portAt p)).setForcedAt F fb p true := by
      show (s.writeValue F fb paValue names).2 = _
      rw [hresult]
    have hother : ∀ q, ¬Names fb (.force names paValue : PortStep Value) q → q ≠ p := by
      rintro q hq rfl
      exact hq hforces.names
    refine ⟨?_, fun q hq => absurd hq (hclears q), ?_, ?_,
      fun x read hx => absurd hx (hreads x read)⟩
    · intro q w hq
      obtain ⟨rfl, rfl⟩ := hforces.unique hq
      have hlt := h p v hforces
      rw [hnext, isForced_setForcedAt_self hlt, held_setForcedAt_self hlt hforces.lt,
        value_assign, forcedTo_assign]
      exact ⟨rfl, rfl⟩
    · intro q hq
      rw [hnext, isForced_setForcedAt_of_ne (hother q hq), isForced_assign]
    · intro q _ _ hq
      rw [hnext, held_setForcedAt_of_ne (hother q hq), held_assign_portAt (hother q hq)]
  · have hforces : ∀ p v, ¬Forces F fb s (.force names paValue) p v :=
      fun p v hpv => hnone ⟨p, v, hpv⟩
    refine ⟨fun q w hq => absurd hq (hforces q w), fun q hq => absurd hq (hclears q), ?_, ?_,
      fun x read hx => absurd hx (hreads x read)⟩
    · intro q _
      show (s.writeValue F fb paValue names).2.isForced q = s.isForced q
      rcases hresult with hresult | ⟨name, members, p, v, -, -, hresult⟩
      · rw [hresult]
      · rw [hresult, isForced_assign]
    · intro q _ _ hq
      show (s.writeValue F fb paValue names).2.held fb q = s.held fb q
      rcases hresult with hresult | ⟨name, members, p, v, rfl, hp, hresult⟩
      · rw [hresult]
      · rw [hresult]
        refine held_assign_portAt ?_ v
        rintro rfl
        exact hq (.inl ⟨name, members, paValue, rfl, hp⟩)

/-- **An input event** does what it should if and only if the bits of the numbers that are handed
over are those of the inputs that are read, or make no difference. -/
theorem perPort_inputEvent_iff (paEIID : ℕ) (connected : InputConnections Value)
    (effects : List (PortEffect Value)) :
    PerPort F fb s (.inputEvent paEIID connected effects) ↔
      Aligned F fb s (.inputEvent paEIID connected effects) := by
  obtain ⟨hmarks, hinputs, hheld⟩ := @receiveInputEvent_spec _ _ F fb s paEIID connected effects
  constructor
  · intro h hrunning hinput call hcall read hread
    rw [if_pos ⟨hrunning, hinput⟩] at hinputs
    have hlt : call.2.port < fb.numDIs := fb.reads_port paEIID call hcall
    have hactual : (next F fb s (.inputEvent paEIID connected effects)).inputs call.2 =
        if s.isForced call.1 then s.inputs call.2 else read (s.inputs call.2) := by
      show (s.receiveInputEvent F fb paEIID connected effects).inputs call.2 = _
      rw [hinputs, inputs_readInputData hcall, hread]
      rfl
    by_cases hforced : s.isForced call.2.port
    · have hkept := h.kept call.2.port (Nat.lt_add_right _ hlt) hforced
        (not_names_inputEvent paEIID connected effects _)
      rw [held_of_input hlt, held_of_input hlt, DataInput.getDI_port, hactual] at hkept
      by_cases hcheck : s.isForced call.1
      · exact .inl (hcheck.trans hforced.symm)
      · rw [if_neg hcheck] at hkept
        exact .inr hkept
    · have htaken := h.taken call.2 read ⟨paEIID, connected, effects, rfl, hrunning, hinput,
        List.mem_map_of_mem hcall, hread⟩ hforced
      rw [hactual] at htaken
      by_cases hcheck : s.isForced call.1
      · rw [if_pos hcheck] at htaken
        exact .inr htaken.symm
      · exact .inl ((Bool.not_eq_true _ ▸ hcheck).trans (Bool.not_eq_true _ ▸ hforced).symm)
  · intro h
    refine perPort_of_event (not_names_inputEvent paEIID connected effects) hmarks ?_ ?_
    · intro p _ hforced
      by_cases hp : p < fb.numDIs
      · rw [held_of_input hp, held_of_input hp]
        refine (congrFun hinputs _).trans ?_
        split
        · rename_i hreads
          refine inputs_readInputData_eq_self fun call hcall heq => ?_
          rw [← heq]
          cases hread : connected call.2 with
          | none => rfl
          | some read =>
            have hport : call.2.port = p := by rw [heq, DataInput.port_getDI]
            rcases h hreads.1 hreads.2 call hcall read hread with hbits | hsame
            · rw [hport, hforced] at hbits
              exact if_pos hbits
            · rw [readData, hsame, ite_self]
        · rfl
      · exact hheld p hforced hp
    · rintro x read ⟨ei, conns, effs, hst, hrunning, hinput, hx, hread⟩ hforced
      cases hst
      obtain ⟨call, hcall, rfl⟩ := List.mem_map.mp hx
      refine (congrFun hinputs _).trans ?_
      rw [if_pos ⟨hrunning, hinput⟩, inputs_readInputData hcall, hread, readData]
      rcases h hrunning hinput call hcall read hread with hbits | hsame
      · rw [hbits, if_neg hforced]
      · rw [hsame, ite_self]

/-- **A step forces per port** if and only if it disturbs nothing. -/
theorem perPort_iff (s : PortState cgMaxSupportedForceIndex Value) (st : PortStep Value) :
    PerPort F fb s st ↔ Aligned F fb s st := by
  cases st with
  | force names paValue => exact perPort_force_iff names paValue
  | clearForce names => exact iff_of_true (perPort_clearForce names) trivial
  | inputEvent ei connected effects => exact perPort_inputEvent_iff ei connected effects
  | outputEvent eo => exact iff_of_true (perPort_outputEvent eo) trivial
  | receive y v => exact iff_of_true (perPort_receive y v) trivial

/-! ### Runs -/

/-- **A port that has been forced keeps the value** in a run whose steps force per port, as long as
there is no command about it. -/
theorem held_run {p : ℕ} (hp : p < fb.numDIs + fb.numDOs) {steps : List (PortStep Value)}
    (hforced : s.isForced p)
    (heach : Runs.Each (next F fb)
      (fun s st => PerPort F fb s st ∧ ¬Names fb st p) s steps) :
    (Runs.run (next F fb) s steps).held fb p = s.held fb p := by
  refine (@Runs.good_run _ _ (next F fb)
    (fun s' => s'.isForced p ∧ s'.held fb p = s.held fb p) _ ?_ s ⟨hforced, rfl⟩ steps heach).2
  rintro s' st ⟨hmarked, hheld⟩ ⟨hstep, hnames⟩
  exact ⟨(hstep.marks p hnames).trans hmarked, (hstep.kept p hp hmarked hnames).trans hheld⟩

/-- **A run forces per port** if and only if no step of it disturbs anything. -/
theorem perPortRun_iff (s : PortState cgMaxSupportedForceIndex Value)
    (steps : List (PortStep Value)) :
    PerPortRun F fb s steps ↔ Runs.Each (next F fb) (Aligned F fb) s steps := by
  constructor
  · intro h n st hst
    exact (perPort_iff _ st).mp (h.each n st hst)
  intro h
  have heach : Runs.Each (next F fb) (PerPort F fb) s steps := fun n st hst =>
    (perPort_iff _ st).mpr (h n st hst)
  refine ⟨heach, ?_⟩
  rintro before st p v between ⟨after, rfl⟩ hforces hquiet
  rw [List.append_assoc, List.cons_append, Runs.each_append_iff, Runs.each_cons_iff,
    Runs.each_append_iff] at heach
  obtain ⟨-, hst, hbetween, -⟩ := heach
  obtain ⟨hmarked, hheld⟩ := hst.forced p v hforces
  rw [Runs.run_append, Runs.run_cons, ← hheld]
  refine held_run hforces.lt hmarked (Runs.each_and_iff.mpr ⟨hbetween, fun n st' hst' => ?_⟩)
  exact hquiet st' (List.mem_of_getElem? hst')

end PortState

/-! ### The three classes -/

/-- The generic function blocks, with the names of their generic inputs and outputs. -/
inductive GenericFB
  | csvWriter (sds : List StringId)
  | commFB (sds rds : List StringId)
  | communicationFB (numEIs numEOs : ℕ) (sds rds : List StringId)

namespace FBClass

/-- **The number that is handed over is the number of the name**, for each port that a name leads
to. -/
def Indexed (fb : FBClass) : Prop :=
  ∀ name p, fb.getAbsDataPortNum name = some p →
    (p < fb.numDIs → ∀ paEI, ∀ call ∈ fb.readInputData paEI, call.2 = getDI p → call.1 = p) ∧
    ∀ j, p = fb.numDIs + j → ∀ paEO, ∀ call ∈ fb.writeOutputData paEO,
      call.2 = getDO j → call.1 = p

theorem number_reads {count : ℕ} {call : ℕ × DataInput}
    (h : call ∈ (0, .varQI) :: (1, .varID) :: genReads (fun i => i + 2) count) :
    call.1 = call.2.port := by
  rcases List.mem_cons.mp h with rfl | h
  · rfl
  rcases List.mem_cons.mp h with rfl | h
  · rfl
  obtain ⟨i, -, rfl⟩ := mem_genReads.mp h
  rfl

theorem number_CCommFB {sds rds : List StringId} :
    ∀ {paEI : ℕ} {call : ℕ × DataInput}, call ∈ (CCommFB sds rds).readInputData paEI →
      call.1 = call.2.port
  | 0, _, h => @number_reads 0 _ h
  | 1, _, h => number_reads h
  | _ + 2, _, h => absurd h List.not_mem_nil

theorem number_CommunicationFB {numEIs numEOs : ℕ} {sds rds : List StringId} :
    ∀ {paEI : ℕ} {call : ℕ × DataInput},
      call ∈ (CommunicationFB numEIs numEOs sds rds).readInputData paEI → call.1 = call.2.port
  | 0, _, h => @number_reads 0 _ h
  | _ + 1, _, h => number_reads h

/-- Outputs are counted right in all classes. -/
theorem indexed_iff_reads {fb : FBClass} :
    fb.Indexed ↔ ∀ name p, fb.getAbsDataPortNum name = some p → p < fb.numDIs →
      ∀ paEI, ∀ call ∈ fb.readInputData paEI, call.2 = getDI p → call.1 = p := by
  refine ⟨fun h name p hp => (h name p hp).1, fun h name p hp => ⟨h name p hp, ?_⟩⟩
  rintro j rfl paEO call hcall heq
  rw [fb.writes_port paEO call hcall, heq, DataOutput.port_getDO]
  rfl

theorem indexed_of_number {fb : FBClass}
    (h : ∀ paEI, ∀ call ∈ fb.readInputData paEI, call.1 = call.2.port) : fb.Indexed := by
  rw [indexed_iff_reads]
  intro name p _ _ paEI call hcall heq
  rw [h paEI call hcall, heq, DataInput.port_getDI]

/-- A `GEN_CSV_WRITER` hands over the number of no generic input. -/
theorem indexed_GEN_CSV_WRITER_iff (sds : List StringId) :
    (GEN_CSV_WRITER sds).Indexed ↔
      ∀ name, ∀ i < sds.length, (GEN_CSV_WRITER sds).getAbsDataPortNum name ≠ some (i + 2) := by
  rw [indexed_iff_reads]
  constructor
  · intro h name i hi hname
    have hcall : (i, .mGenDIs i) ∈ (GEN_CSV_WRITER sds).readInputData 1 :=
      List.mem_cons_of_mem _ (mem_genReads.mpr ⟨i, hi, rfl⟩)
    have hnumber := h name (i + 2) hname (Nat.add_lt_add_right hi 2) 1 _ hcall rfl
    simp at hnumber
  · intro h name p hname hp paEI call hcall heq
    match paEI with
    | 0 =>
      have hnumber : call.1 = call.2.port := @number_reads 0 _ hcall
      rw [hnumber, heq, DataInput.port_getDI]
    | 1 =>
      rcases List.mem_cons.mp hcall with rfl | hgen
      · rw [← DataInput.port_getDI p, ← heq]
        rfl
      · obtain ⟨i, hi, rfl⟩ := mem_genReads.mp hgen
        have hport : i + 2 = p := by
          rw [← DataInput.port_getDI p, ← heq]
          rfl
        exact absurd (hport ▸ hname) (h name i hi)
    | _ + 2 => exact absurd hcall List.not_mem_nil

end FBClass

namespace GenericFB

/-- The class of a generic function block. -/
def fbClass : GenericFB → FBClass
  | csvWriter sds => .GEN_CSV_WRITER sds
  | commFB sds rds => .CCommFB sds rds
  | communicationFB numEIs numEOs sds rds => .CommunicationFB numEIs numEOs sds rds

open PortState

variable {cgMaxSupportedForceIndex : ℕ} {Value : Type}

/-- **What forcing per port needs** of a step. A port that is forced has a bit. And when a
`GEN_CSV_WRITER` executes `REQ`, the port of each of its connected generic inputs is forced if and
only if the port two places before is, or the connection would not change the input. -/
def Undisturbed (F : ValueOps Value) (t : GenericFB)
    (s : PortState cgMaxSupportedForceIndex Value) : PortStep Value → Prop
  | .force paNameList paValue => ∀ p v, Forces F t.fbClass s (.force paNameList paValue) p v →
      p < cgMaxSupportedForceIndex
  | .inputEvent paEIID connected _ => ∀ sds, t = .csvWriter sds → paEIID = 1 →
      s.mFBState = .running → ∀ i < sds.length, ∀ read, connected (.mGenDIs i) = some read →
        s.isForced i = s.isForced (i + 2) ∨ read (s.inputs (.mGenDIs i)) = s.inputs (.mGenDIs i)
  | _ => True

variable {F : ValueOps Value}

theorem aligned_of_number {fb : FBClass} {s : PortState cgMaxSupportedForceIndex Value}
    (h : ∀ paEI, ∀ call ∈ fb.readInputData paEI, call.1 = call.2.port) (paEIID : ℕ)
    (connected : InputConnections Value) (effects : List (PortEffect Value)) :
    Aligned F fb s (.inputEvent paEIID connected effects) := by
  intro _ _ call hcall _ _
  rw [h paEIID call hcall]
  exact .inl rfl

theorem aligned_csvWriter_iff {sds : List StringId}
    {s : PortState cgMaxSupportedForceIndex Value} {paEIID : ℕ}
    {connected : InputConnections Value} {effects : List (PortEffect Value)} :
    Aligned F (.GEN_CSV_WRITER sds) s (.inputEvent paEIID connected effects) ↔
      (paEIID = 1 → s.mFBState = .running → ∀ i < sds.length, ∀ read,
        connected (.mGenDIs i) = some read →
          s.isForced i = s.isForced (i + 2) ∨
            read (s.inputs (.mGenDIs i)) = s.inputs (.mGenDIs i)) := by
  constructor
  · rintro h rfl hrunning i hi read hread
    exact h hrunning (by decide : 1 < 2) (i, .mGenDIs i)
      (List.mem_cons_of_mem _ (FBClass.mem_genReads.mpr ⟨i, hi, rfl⟩)) read hread
  · intro h hrunning hinput call hcall read hread
    match paEIID with
    | 0 =>
      have hnumber : call.1 = call.2.port := @FBClass.number_reads 0 _ hcall
      rw [hnumber]
      exact .inl rfl
    | 1 =>
      rcases List.mem_cons.mp hcall with rfl | hgen
      · exact .inl rfl
      · obtain ⟨i, hi, rfl⟩ := FBClass.mem_genReads.mp hgen
        exact h rfl hrunning i hi read hread
    | _ + 2 => exact absurd hcall List.not_mem_nil

theorem aligned_iff (t : GenericFB) (s : PortState cgMaxSupportedForceIndex Value)
    (st : PortStep Value) : Aligned F t.fbClass s st ↔ Undisturbed F t s st := by
  cases st with
  | force names paValue => exact Iff.rfl
  | clearForce names => exact Iff.rfl
  | outputEvent eo => exact Iff.rfl
  | receive y v => exact Iff.rfl
  | inputEvent ei connected effects =>
    cases t with
    | csvWriter sds =>
      refine aligned_csvWriter_iff.trans ⟨fun h sds' heq => ?_, fun h => h sds rfl⟩
      cases heq
      exact h
    | commFB sds rds =>
      refine iff_of_true (aligned_of_number (fun _ _ => FBClass.number_CCommFB) _ _ _) ?_
      intro sds' heq
      cases heq
    | communicationFB numEIs numEOs sds rds =>
      refine iff_of_true (aligned_of_number (fun _ _ => FBClass.number_CommunicationFB) _ _ _) ?_
      intro sds' heq
      cases heq

theorem indexed_fbClass_iff (t : GenericFB) :
    t.fbClass.Indexed ↔ ∀ sds, t = .csvWriter sds → ∀ name, ∀ i < sds.length,
      t.fbClass.getAbsDataPortNum name ≠ some (i + 2) := by
  cases t with
  | csvWriter sds =>
    refine (FBClass.indexed_GEN_CSV_WRITER_iff sds).trans ⟨fun h sds' heq => ?_, fun h => h sds rfl⟩
    cases heq
    exact h
  | commFB sds rds =>
    refine iff_of_true (FBClass.indexed_of_number fun _ _ => FBClass.number_CCommFB) ?_
    intro sds' heq
    cases heq
  | communicationFB numEIs numEOs sds rds =>
    refine iff_of_true (FBClass.indexed_of_number fun _ _ => FBClass.number_CommunicationFB) ?_
    intro sds' heq
    cases heq

/-- Values that are numbers, written with one digit. -/
def digitOps : ValueOps ℕ where
  setValue _ v := v
  fromString
    | [], [c], v => some (if 48 ≤ c ∧ c ≤ 57 then (c.toNat - 48, true) else (v, false))
    | [], _, v => some (v, false)
    | _ :: _, _, _ => none

/-- A function block that runs, with zeros in all variables and without forces. -/
def running : PortState 64 ℕ := ⟨.running, fun _ => false, fun _ => 0, fun _ => 0, fun _ => 0⟩

/-- Nothing is connected but `SD_1`, to a five. -/
def fiveAtSD1 : InputConnections ℕ := fun x =>
  if x = .mGenDIs 0 then some fun _ => 5 else none

/-- In a `CCommFB` the input keeps the seven. -/
example :
    (Runs.run (next digitOps (commFB ["SD_1"] []).fbClass) running
      [.force ["SD_1"] [55], .inputEvent 1 fiveAtSD1 [.sendOutputEvent 1]]).inputs (.mGenDIs 0) =
        7 := by
  decide

end GenericFB

end Forte
