import Forte.Management.Container

/-!
# Trees in one state

A resource is started, stopped, killed and reset as a whole. As long as no command is given to a
block in it, all its function blocks are in the same state, and a command that is possible in
this state is carried out everywhere (`Forte.Node.changeExecutionState_eq`). The tree itself
does not change by it (`Forte.Node.resolve_carriedOut`).
-/

namespace Forte

namespace Node

/-- **All function blocks of a tree are in one state.** -/
def AllIn (st : FBState) (n : Node) : Prop := ∀ s ∈ n.executionStates, s = st

theorem allIn_container_iff {st : FBState} {name : StringId} {cs : List Node} :
    AllIn st (.container name cs) ↔ ∀ c ∈ cs, c.AllIn st := by
  simp only [AllIn, executionStates, childStates_eq_flatMap, List.mem_flatMap]
  exact ⟨fun h c hc s hs => h s ⟨c, hc, hs⟩, fun h s ⟨c, hc, hs⟩ => h c hc s hs⟩

theorem allIn_fb_iff {st : FBState} {d : FunctionBlock} {cs : List Node} :
    AllIn st (.fb d cs) ↔ d.state = st ∧ ∀ c ∈ cs, c.AllIn st := by
  simp only [AllIn, executionStates, childStates_eq_flatMap, List.forall_mem_cons,
    List.mem_flatMap]
  refine and_congr_right fun _ => ?_
  exact ⟨fun h c hc s hs => h s ⟨c, hc, hs⟩, fun h s ⟨c, hc, hs⟩ => h c hc s hs⟩

mutual

/-- A tree in which a command has been carried out everywhere: all function blocks are in the
state it leads to, and the event executions have followed. -/
def carriedOut (cmd : ExecutionCmd) (st : FBState) : Node → Node
  | .container name cs => .container name (allCarriedOut cmd st cs)
  | .fb d cs =>
    .fb { d with state := st, eventExecution := d.eventExecution.map (changeEventExecution cmd) }
      (allCarriedOut cmd st cs)

/-- The trees of a list. -/
def allCarriedOut (cmd : ExecutionCmd) (st : FBState) : List Node → List Node
  | [] => []
  | c :: cs => carriedOut cmd st c :: allCarriedOut cmd st cs

end

@[simp]
theorem allCarriedOut_eq_map (cmd : ExecutionCmd) (st : FBState) (cs : List Node) :
    allCarriedOut cmd st cs = cs.map (carriedOut cmd st) := by
  induction cs with
  | nil => rfl
  | cons c cs ih => rw [allCarriedOut, List.map_cons, ih]

section

variable {cmd : ExecutionCmd} {st st' : FBState}

/-- **A command that is possible in the common state is carried out everywhere.** -/
theorem changeExecutionState_eq (hst : st.change cmd = some st') {n : Node} (h : n.AllIn st) :
    changeExecutionState cmd n = (.ready, n.carriedOut cmd st') := by
  have hchildren : ∀ cs : List Node,
      (∀ c ∈ cs, changeExecutionState cmd c = (.ready, c.carriedOut cmd st')) →
      changeChildren cmd cs = (.ready, allCarriedOut cmd st' cs) := by
    intro cs hcs
    induction cs with
    | nil => rfl
    | cons c cs ih =>
      have hready : (c.carriedOut cmd st').excuse cmd .ready = .ready := by cases c <;> rfl
      rw [changeChildren, hcs c List.mem_cons_self,
        ih fun d hd => hcs d (List.mem_cons_of_mem c hd)]
      simp only [hready, if_true]
      rfl
  induction n with
  | container name cs ih =>
    have hall := allIn_container_iff.mp h
    rw [changeExecutionState, hchildren cs fun c hc => ih c hc (hall c hc)]
    rfl
  | fb d cs ih =>
    obtain ⟨rfl, hall⟩ := allIn_fb_iff.mp h
    rw [changeExecutionState, hst]
    simp only [hchildren cs fun c hc => ih c hc (hall c hc), if_true]
    rfl

theorem allIn_carriedOut (n : Node) : (n.carriedOut cmd st').AllIn st' := by
  induction n with
  | container name cs ih =>
    rw [carriedOut, allIn_container_iff, allCarriedOut_eq_map, List.forall_mem_map]
    exact ih
  | fb d cs ih =>
    rw [carriedOut, allIn_fb_iff, allCarriedOut_eq_map, List.forall_mem_map]
    exact ⟨rfl, ih⟩

theorem getChild_carriedOut (n : Node) (name : StringId) :
    (n.carriedOut cmd st').getChild name = (n.getChild name).map (carriedOut cmd st') := by
  have hname : ∀ c : Node, (c.carriedOut cmd st').getInstanceNameId = c.getInstanceNameId := by
    intro c
    cases c <;> rfl
  have hchildren : (n.carriedOut cmd st').getChildren =
      n.getChildren.map (carriedOut cmd st') := by
    cases n <;> exact allCarriedOut_eq_map cmd st' _
  rw [getChild, getChild, hchildren, List.find?_map]
  simp only [Function.comp_def, hname]

/-- **The names in the tree stay as they are.** -/
theorem resolve_carriedOut (p : List StringId) (n : Node) :
    (n.carriedOut cmd st').resolve p = (n.resolve p).map (carriedOut cmd st') := by
  induction p generalizing n with
  | nil => rfl
  | cons name p ih =>
    rw [resolve, resolve, getChild_carriedOut]
    cases n.getChild name with
    | none => rfl
    | some child => exact ih child

end

/-- The execution state of the function block that names lead to. -/
def stateAt (n : Node) (p : List StringId) : Option FBState :=
  match n.resolve p with
  | some (.fb d _) => some d.state
  | _ => none

theorem AllIn.resolve {st : FBState} {n m : Node} (h : n.AllIn st) {p : List StringId}
    (hm : n.resolve p = some m) : m.AllIn st := by
  induction p generalizing n with
  | nil => exact Option.some.inj hm ▸ h
  | cons name p ih =>
    rw [Node.resolve] at hm
    obtain ⟨child, hchild, hrest⟩ := Option.bind_eq_some_iff.mp hm
    have hmem : child ∈ n.getChildren := List.mem_of_find?_eq_some hchild
    refine ih ?_ hrest
    cases n with
    | container m cs => exact allIn_container_iff.mp h child hmem
    | fb d cs => exact (allIn_fb_iff.mp h).2 child hmem

/-- In a tree in one state every function block is in this state. -/
theorem AllIn.stateAt_eq {st : FBState} {n : Node} (h : n.AllIn st) {p : List StringId}
    {d : FunctionBlock} {cs : List Node} (hp : n.resolve p = some (.fb d cs)) :
    n.stateAt p = some st := by
  rw [stateAt, hp]
  exact congrArg some (allIn_fb_iff.mp (h.resolve hp)).1

end Node

end Forte
