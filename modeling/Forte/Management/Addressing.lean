import Forte.Management.ExecutionState

/-!
# Commands to names that do not exist

Management commands address a function block by the list of names on the way to it; the
monitoring commands for events have the name of a port behind these. A list that leads
nowhere should be answered with `NoSuchObject`, and nothing should happen.

The walk of `getFB` ends at the first name that no child has, and returns the block it has
reached, down from which the names did not lead. None of the commands looks at the names
that are left. So an execution command is rejected exactly where the walk ends in a plain
container, and otherwise carried out at the block reached, the resource itself if already
the first name is wrong (`Forte.Node.unknownName_stops_resource`). A monitoring command is
also rejected where that block has no event port of the name given
(`Forte.Node.rejects_iff`).
-/

namespace Forte

/-- The commands that address a function block by its names. -/
inductive AddressedCmd
  | execution (cmd : ExecutionCmd)
  | triggerEvent
  | resetEventCount
  deriving DecidableEq, Repr

/-- The event a `triggerEvent` starts. -/
inductive PortEvent
  /-- The event chain is started with this event input. -/
  | input (port : StringId)
  /-- This event output is sent. -/
  | output (port : StringId)
  deriving DecidableEq, Repr

/-- Change what is counted at the port of a name. -/
def atPort (port : StringId) (f : UInt32 → UInt32) (ports : List EventPort) : List EventPort :=
  ports.map fun p => if p.name = port then { p with eventCount := f p.eventCount } else p

/-- `getEIID` finds the port. -/
def FunctionBlock.HasEI (d : FunctionBlock) (port : StringId) : Prop :=
  port ∈ d.eis.map EventPort.name

/-- `getEOID` finds the port. -/
def FunctionBlock.HasEO (d : FunctionBlock) (port : StringId) : Prop :=
  port ∈ d.eos.map EventPort.name

instance (d : FunctionBlock) (port : StringId) : Decidable (d.HasEI port) :=
  inferInstanceAs (Decidable (_ ∈ _))

instance (d : FunctionBlock) (port : StringId) : Decidable (d.HasEO port) :=
  inferInstanceAs (Decidable (_ ∈ _))

namespace Node

/-- What `triggerEvent` does at the function block it has reached. An event that is sent is
counted; one that is received is counted when the event chain gets to it. -/
def triggerPort (port : StringId) (d : FunctionBlock) (cs : List Node) :
    (EMGMResponse × Option PortEvent) × Node :=
  if d.HasEI port then ((.ready, some (.input port)), .fb d cs)
  else if d.HasEO port then
    ((.ready, some (.output port)), .fb { d with eos := atPort port (· + 1) d.eos } cs)
  else ((.noSuchObject, none), .fb d cs)

/-- What `resetEventCount` does at the function block it has reached. -/
def resetPort (port : StringId) (d : FunctionBlock) (cs : List Node) :
    (EMGMResponse × Option PortEvent) × Node :=
  if d.HasEI port then
    ((.ready, none), .fb { d with eis := atPort port (fun _ => 0) d.eis } cs)
  else if d.HasEO port then
    ((.ready, none), .fb { d with eos := atPort port (fun _ => 0) d.eos } cs)
  else ((.noSuchObject, none), .fb d cs)

/-- A monitoring command for an event: the last name is that of a port. There is no result for
an empty list, of which the source takes the last name all the same. -/
def monitorEvent (atTarget : StringId → FunctionBlock → List Node →
      (EMGMResponse × Option PortEvent) × Node)
    (nameList : List StringId) (resource : Node) :
    Option ((EMGMResponse × Option PortEvent) × Node) :=
  nameList.getLast?.map fun port =>
    (atFB (atTarget port) nameList.dropLast resource).getD ((.noSuchObject, none), resource)

/-- `executeMGMCommand`, as far as it goes for these commands: the response, the event started
and the resource afterwards. -/
def executeMGMCommand (cmd : AddressedCmd) (nameList : List StringId) (resource : Node) :
    Option ((EMGMResponse × Option PortEvent) × Node) :=
  match cmd with
  | .execution cmd =>
    let (response, resource') := handleExecutionStateCmd cmd nameList resource
    some ((response, none), resource')
  | .triggerEvent => monitorEvent triggerPort nameList resource
  | .resetEventCount => monitorEvent resetPort nameList resource

/-! ### Names that lead nowhere -/

end Node

/-- The names that should lead to a function block. -/
def AddressedCmd.fbNames : AddressedCmd → List StringId → List StringId
  | .execution _, nameList => nameList
  | _, nameList => nameList.dropLast

namespace Node

/-- The names denote a function block. -/
def Denotes (names : List StringId) (resource : Node) : Prop :=
  ∃ d cs, resolve names resource = some (.fb d cs)

/-- The command is answered with `NoSuchObject`, and no execution state changes. -/
def Rejects (cmd : AddressedCmd) (nameList : List StringId) (resource : Node) : Prop :=
  ∃ event resource', executeMGMCommand cmd nameList resource =
      some ((.noSuchObject, event), resource') ∧
    executionStates resource' = executionStates resource

/-- The node the names lead to before one of them is not the name of a child. -/
def deepest : List StringId → Node → Node
  | [], n => n
  | name :: names, n =>
    match n.getChild name with
    | some child => deepest names child
    | none => n

section Walk

variable {α : Type} (f : FunctionBlock → List Node → α × Node)

/-- The walk of `getFB` returns nothing where it ends in a plain container. -/
theorem atFB_container {names : List StringId} {n : Node} {name : StringId} {cs : List Node}
    (h : deepest names n = .container name cs) : atFB f names n = none := by
  induction names generalizing n with
  | nil =>
    obtain rfl : n = .container name cs := h
    rfl
  | cons m names ih =>
    rw [deepest] at h
    rw [atFB]
    cases hchild : n.getChild m with
    | none =>
      rw [hchild] at h
      obtain rfl : n = .container name cs := h
      rfl
    | some child =>
      rw [hchild] at h
      simp only [ih h, Option.map_none]

/-- Otherwise it returns the block it ends at. -/
theorem atFB_fb {names : List StringId} {n : Node} {d : FunctionBlock} {cs : List Node}
    (h : deepest names n = .fb d cs) :
    ∃ n', atFB f names n = some ((f d cs).1, n') ∧ ((f d cs).2 = .fb d cs → n' = n) := by
  induction names generalizing n with
  | nil =>
    obtain rfl : n = .fb d cs := h
    exact ⟨_, rfl, id⟩
  | cons m names ih =>
    rw [deepest] at h
    rw [atFB]
    cases hchild : n.getChild m with
    | none =>
      rw [hchild] at h
      obtain rfl : n = .fb d cs := h
      exact ⟨_, rfl, id⟩
    | some child =>
      rw [hchild] at h
      obtain ⟨n', hrun, hsame⟩ := ih h
      simp only [hrun, Option.map_some]
      refine ⟨_, rfl, fun hf => ?_⟩
      rw [hsame hf, setChild_getChild hchild]

end Walk

/-- An execution command is never answered with `NoSuchObject` by a node. -/
theorem changeExecutionState_ne_noSuchObject (cmd : ExecutionCmd) (n : Node) :
    (changeExecutionState cmd n).1 ≠ .noSuchObject := by
  have children : ∀ cs : List Node, (∀ c ∈ cs, (changeExecutionState cmd c).1 ≠ .noSuchObject) →
      (changeChildren cmd cs).1 ≠ .noSuchObject := by
    intro cs h
    induction cs with
    | nil => rintro ⟨⟩
    | cons c cs ih =>
      rw [changeChildren_cons]
      split_ifs
      · exact ih fun d hd => h d (List.mem_cons_of_mem _ hd)
      · have hc := h c List.mem_cons_self
        cases hnode : (changeExecutionState cmd c).2 with
        | container name cs => exact hc
        | fb d cs =>
          simp only [excuse]
          split_ifs <;> rintro ⟨⟩
  induction n with
  | container name cs ih => exact children cs ih
  | fb d cs ih =>
    rw [changeExecutionState]
    split
    · rintro ⟨⟩
    · exact children cs ih

/-- A monitoring command is answered with `NoSuchObject` exactly by a block without a port of
the name, and then leaves it as it is. -/
theorem triggerPort_eq_iff (port : StringId) (d : FunctionBlock) (cs : List Node) :
    ((triggerPort port d cs).1.1 = .noSuchObject ↔ ¬d.HasEI port ∧ ¬d.HasEO port) ∧
      ((triggerPort port d cs).1.1 = .noSuchObject → (triggerPort port d cs).2 = .fb d cs) := by
  rw [triggerPort]
  split_ifs <;> simp [*]

theorem resetPort_eq_iff (port : StringId) (d : FunctionBlock) (cs : List Node) :
    ((resetPort port d cs).1.1 = .noSuchObject ↔ ¬d.HasEI port ∧ ¬d.HasEO port) ∧
      ((resetPort port d cs).1.1 = .noSuchObject → (resetPort port d cs).2 = .fb d cs) := by
  rw [resetPort]
  split_ifs <;> simp [*]

/-- An execution command is rejected where the walk ends in a plain container. -/
theorem rejects_execution_iff (cmd : ExecutionCmd) (target : List StringId) (n : Node) :
    Rejects (.execution cmd) target n ↔ (deepest target n).isFB = false := by
  rw [Rejects, executeMGMCommand, handleExecutionStateCmd]
  cases hdeepest : deepest target n with
  | container name cs =>
    rw [atFB_container _ hdeepest]
    exact iff_of_true ⟨_, _, rfl, rfl⟩ rfl
  | fb d cs =>
    obtain ⟨n', hrun, -⟩ := atFB_fb (fun d cs => changeExecutionState cmd (.fb d cs)) hdeepest
    rw [hrun]
    refine iff_of_false ?_ nofun
    rintro ⟨event, resource', heq, -⟩
    have hresponse := congrArg (fun r => r.1.1) (Option.some.inj heq)
    exact changeExecutionState_ne_noSuchObject cmd (.fb d cs) hresponse

/-- A monitoring command is also rejected where the block the walk ends at has no port of the
name. -/
theorem rejects_monitorEvent_iff {atTarget : StringId → FunctionBlock → List Node →
      (EMGMResponse × Option PortEvent) × Node}
    (hport : ∀ port d cs,
      ((atTarget port d cs).1.1 = .noSuchObject ↔ ¬d.HasEI port ∧ ¬d.HasEO port) ∧
        ((atTarget port d cs).1.1 = .noSuchObject → (atTarget port d cs).2 = .fb d cs))
    {nameList : List StringId} {port : StringId} (hlast : nameList.getLast? = some port)
    (n : Node) :
    (∃ event n', monitorEvent atTarget nameList n = some ((.noSuchObject, event), n') ∧
        executionStates n' = executionStates n) ↔
      ∀ d cs, deepest nameList.dropLast n = .fb d cs → ¬d.HasEI port ∧ ¬d.HasEO port := by
  rw [monitorEvent, hlast]
  simp only [Option.map_some]
  cases hdeepest : deepest nameList.dropLast n with
  | container name cs =>
    rw [atFB_container _ hdeepest]
    exact iff_of_true ⟨_, _, rfl, rfl⟩ nofun
  | fb d cs =>
    obtain ⟨n', hrun, hsame⟩ := atFB_fb (atTarget port) hdeepest
    obtain ⟨hiff, hkeep⟩ := hport port d cs
    rw [hrun]
    constructor
    · rintro ⟨event, n'', heq, -⟩ _ _ ⟨rfl, rfl⟩
      exact hiff.mp (congrArg (fun r => r.1.1) (Option.some.inj heq))
    · intro h
      have hresponse := hiff.mpr (h d cs rfl)
      rw [hsame (hkeep hresponse)]
      exact ⟨_, n, by rw [← hresponse]; rfl, rfl⟩

/-- **A command to names that denote no function block is rejected exactly where** the deepest
node they lead to is a plain container or, for the monitoring commands, a block without an
event port of the last name. -/
theorem rejects_iff (cmd : AddressedCmd) {nameList : List StringId} {d : FunctionBlock}
    {cs : List Node} (h : ¬Denotes (cmd.fbNames nameList) (.fb d cs)) :
    Rejects cmd nameList (.fb d cs) ↔
      ∀ d' cs', deepest (cmd.fbNames nameList) (.fb d cs) = .fb d' cs' →
        (∀ c, cmd ≠ .execution c) ∧
          ∀ port ∈ nameList.getLast?, ¬d'.HasEI port ∧ ¬d'.HasEO port := by
  have monitoring : ∀ {atTarget : StringId → FunctionBlock → List Node →
      (EMGMResponse × Option PortEvent) × Node},
      (∀ port d cs,
        ((atTarget port d cs).1.1 = .noSuchObject ↔ ¬d.HasEI port ∧ ¬d.HasEO port) ∧
          ((atTarget port d cs).1.1 = .noSuchObject → (atTarget port d cs).2 = .fb d cs)) →
      ¬Denotes nameList.dropLast (.fb d cs) →
      ((∃ event n', monitorEvent atTarget nameList (.fb d cs) =
          some ((.noSuchObject, event), n') ∧
        executionStates n' = executionStates (.fb d cs)) ↔
      ∀ d' cs', deepest nameList.dropLast (.fb d cs) = .fb d' cs' →
        ∀ port ∈ nameList.getLast?, ¬d'.HasEI port ∧ ¬d'.HasEO port) := by
    intro atTarget hport hunknown
    cases hlast : nameList.getLast? with
    | none =>
      rw [List.getLast?_eq_none_iff.mp hlast] at hunknown
      exact absurd ⟨d, cs, rfl⟩ hunknown
    | some port =>
      rw [rejects_monitorEvent_iff hport hlast]
      simp
  cases cmd with
  | execution c =>
    rw [rejects_execution_iff, AddressedCmd.fbNames]
    cases hdeepest : deepest nameList (.fb d cs) with
    | container name cs' => exact iff_of_true rfl nofun
    | fb d' cs' => exact iff_of_false nofun fun hall => (hall d' cs' rfl).1 c rfl
  | triggerEvent =>
    refine (monitoring triggerPort_eq_iff h).trans (forall₃_congr fun d' cs' _ => ?_)
    exact (and_iff_right nofun).symm
  | resetEventCount =>
    refine (monitoring resetPort_eq_iff h).trans (forall₃_congr fun d' cs' _ => ?_)
    exact (and_iff_right nofun).symm

/-- A resource with a plain container in it. -/
def withContainer : Node :=
  .fb (idleBlock "RES" (some false)) [.container "App" [.fb (idleBlock "A" none) []]]

/-- A command to a block that is missing in the container is rejected. -/
theorem unknownInContainer_rejected : Rejects (.execution .start) ["App", "B"] withContainer :=
  (rejects_iff (.execution .start) (by rintro ⟨d, cs, h⟩; exact nomatch h)).mpr
    fun _ _ h => nomatch h

/-- A `Stop` to a block that is missing in the resource stops the resource. -/
theorem unknownName_stops_resource :
    ∃ d cs, twoBlocks.afterCmds [(.start, [])] = .fb d cs ∧
      ¬Denotes ["C"] (.fb d cs) ∧
      (handleExecutionStateCmd .stop ["C"] (.fb d cs)).1 = .ready ∧
      executionStates (handleExecutionStateCmd .stop ["C"] (.fb d cs)).2 =
        [.stopped, .stopped, .stopped] ∧
      ¬Rejects (.execution .stop) ["C"] (.fb d cs) := by
  refine ⟨_, _, rfl, ?_, rfl, rfl, ?_⟩
  · rintro ⟨d, cs, h⟩
    exact nomatch h
  · rintro ⟨event, resource', h, -⟩
    exact nomatch h

end Node

end Forte
