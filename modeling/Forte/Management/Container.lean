import Mathlib.Data.List.Basic

/-!
# Containers

The function blocks of a device form a tree. Its nodes are plain containers, which only
group what is in them, and function blocks, which are containers as well: a resource is a
function block with the blocks of its applications in it, and a device one with its
resources in it. This file has the tree, the commands that change execution states, and
the walk along a list of names by which management commands address a node.

The children of a container have different names and are kept in the order of their
names, where `getChild` finds them by binary search; the model searches the list.

What single types of function blocks do beside the state change, such as closing their
network connections, is left out.
-/

namespace Forte

/-- `StringId`, the name of an instance or of a port. -/
abbrev StringId := String

/-- `EMGMResponse`. -/
inductive EMGMResponse
  | ready | badParams | localTermination | systemTermination | notReady | unsupportedCmd
  | unsupportedType | noSuchObject | invalidObject | invalidOperation | invalidState | overflow
  | invalidDst
  deriving DecidableEq, Repr

/-- `CFunctionBlock::E_FBStates`. -/
inductive FBState
  | idle | running | stopped | killed
  deriving DecidableEq, Repr

/-- The commands of `EMGMCommandType` that change execution states. -/
inductive ExecutionCmd
  | start | stop | kill | reset
  deriving DecidableEq, Repr

/-- An event port of a function block and how often it has had an event. -/
structure EventPort where
  /-- The name of the port. -/
  name : StringId
  /-- Its entry in the event monitoring data. -/
  eventCount : UInt32
  deriving DecidableEq, Repr

/-- What is modelled of a `CFunctionBlock`, without the nodes in it. -/
structure FunctionBlock where
  /-- `mContInstanceName`. -/
  name : StringId
  /-- `mFBState`. -/
  state : FBState
  /-- The `mResourceEventExecution` of a resource: whether its thread is alive. -/
  eventExecution : Option Bool
  /-- The event inputs. -/
  eis : List EventPort
  /-- The event outputs. -/
  eos : List EventPort
  deriving DecidableEq, Repr

/-- A `CFBContainer` with its `mChildren`. -/
inductive Node
  /-- A plain container. -/
  | container (name : StringId) (children : List Node)
  /-- A function block. -/
  | fb (data : FunctionBlock) (children : List Node)

namespace Node

/-- Induction over the tree: a node has the statement for each of its children. -/
@[elab_as_elim, induction_eliminator]
theorem inductionOn {P : Node → Prop}
    (container : ∀ name cs, (∀ c ∈ cs, P c) → P (.container name cs))
    (fb : ∀ d cs, (∀ c ∈ cs, P c) → P (.fb d cs)) : ∀ n, P n :=
  @Node.rec P (fun cs => ∀ c ∈ cs, P c) container fb
    (fun _ h => absurd h List.not_mem_nil)
    (fun _ _ hc hcs _ hmem => (List.mem_cons.mp hmem).elim (fun h => h ▸ hc) (hcs _))

/-- `getInstanceNameId`. -/
def getInstanceNameId : Node → StringId
  | .container name _ => name
  | .fb d _ => d.name

/-- `getChildren`. -/
def getChildren : Node → List Node
  | .container _ cs => cs
  | .fb _ cs => cs

/-- The node with other children. -/
def withChildren : Node → List Node → Node
  | .container name _, cs => .container name cs
  | .fb d _, cs => .fb d cs

/-- `isFB`. -/
def isFB : Node → Bool
  | .container _ _ => false
  | .fb _ _ => true

/-! ### Execution states -/

end Node

/-- The switch of `CFunctionBlock::changeExecutionState`: the next state, unless the command
is refused in the present one. -/
def FBState.change : FBState → ExecutionCmd → Option FBState
  | .idle, .start => some .running
  | .stopped, .start => some .running
  | .running, .stop => some .stopped
  | .running, .kill => some .killed
  | .stopped, .reset => some .idle
  | .killed, .reset => some .idle
  | _, _ => none

/-- `CEventChainExecutionThread::changeExecutionState`. -/
def changeEventExecution (cmd : ExecutionCmd) (alive : Bool) : Bool :=
  match cmd with
  | .start => true
  | .stop => false
  | .kill => false
  | .reset => alive

/-- The test of `checkForActionEquivalentState`. -/
def FBState.equivalent : FBState → ExecutionCmd → Bool
  | .killed, .stop => true
  | .stopped, .kill => true
  | .idle, .kill => true
  | _, _ => false

namespace Node

/-- The response of the loop of `CFBContainer::changeExecutionState` to a child that has
answered: a function block that refuses is excused where its state is as good. -/
def excuse (cmd : ExecutionCmd) (response : EMGMResponse) : Node → EMGMResponse
  | .container _ _ => response
  | .fb d _ =>
    if response = .ready then .ready
    else if d.state.equivalent cmd then .ready else .invalidState

mutual

/-- `changeExecutionState`: of a plain container, of a function block, which first changes its
own state, and of a resource, whose event execution follows if all the rest did. -/
def changeExecutionState (cmd : ExecutionCmd) : Node → EMGMResponse × Node
  | .container name cs =>
    let (response, cs') := changeChildren cmd cs
    (response, .container name cs')
  | .fb d cs =>
    match d.state.change cmd with
    | none => (.invalidState, .fb d cs)
    | some state =>
      let (response, cs') := changeChildren cmd cs
      let eventExecution :=
        if response = .ready then d.eventExecution.map (changeEventExecution cmd)
        else d.eventExecution
      (response, .fb { d with state, eventExecution } cs')

/-- The loop over the children, which ends at the first one that refuses. -/
def changeChildren (cmd : ExecutionCmd) : List Node → EMGMResponse × List Node
  | [] => (.ready, [])
  | c :: cs =>
    let (response, c') := changeExecutionState cmd c
    let response := c'.excuse cmd response
    if response = .ready then
      let (response, cs') := changeChildren cmd cs
      (response, c' :: cs')
    else
      (response, c' :: cs)

end

mutual

/-- The execution states of the function blocks in a tree. -/
def executionStates : Node → List FBState
  | .container _ cs => childStates cs
  | .fb d cs => d.state :: childStates cs

/-- The execution states of the function blocks in a list of trees. -/
def childStates : List Node → List FBState
  | [] => []
  | c :: cs => executionStates c ++ childStates cs

end

@[simp]
theorem childStates_eq_flatMap (cs : List Node) : childStates cs = cs.flatMap executionStates := by
  induction cs with
  | nil => rfl
  | cons c cs ih => rw [childStates, List.flatMap_cons, ih]

/-! ### Addressing -/

/-- `getChild`. -/
def getChild (n : Node) (name : StringId) : Option Node :=
  n.getChildren.find? fun c => c.getInstanceNameId = name

/-- Put a node in the place of the child of a name. -/
def replaceChild (name : StringId) (child : Node) : List Node → List Node
  | [] => []
  | c :: cs => if c.getInstanceNameId = name then child :: cs else c :: replaceChild name child cs

/-- A node with a changed child. -/
def setChild (n : Node) (name : StringId) (child : Node) : Node :=
  n.withChildren (replaceChild name child n.getChildren)

/-- A child put in its own place changes nothing. -/
theorem setChild_getChild {n child : Node} {name : StringId} (h : n.getChild name = some child) :
    n.setChild name child = n := by
  have hlist : ∀ cs : List Node, cs.find? (fun c => c.getInstanceNameId = name) = some child →
      replaceChild name child cs = cs := by
    intro cs
    induction cs with
    | nil => exact fun _ => rfl
    | cons c cs ih =>
      intro hfind
      rw [List.find?_cons] at hfind
      rw [replaceChild]
      by_cases hc : c.getInstanceNameId = name
      · rw [if_pos hc]
        simp only [hc, decide_true, Option.some.injEq] at hfind
        rw [hfind]
      · rw [if_neg hc]
        simp only [hc, decide_false] at hfind
        rw [ih hfind]
  cases n with
  | container m cs => exact congrArg (Node.container m) (hlist cs h)
  | fb d cs => exact congrArg (Node.fb d) (hlist cs h)

/-- What a name list denotes: every name has to be the name of a child. -/
def resolve : List StringId → Node → Option Node
  | [], n => some n
  | name :: names, n => do resolve names (← n.getChild name)

/-- What is done to the node the walk of `getFB` has ended at, if it is a function block. -/
def atThis {α : Type} (f : FunctionBlock → List Node → α × Node) : Node → Option (α × Node)
  | .container _ _ => none
  | .fb d cs => some (f d cs)

/-- `getFB`, together with what is done to the function block it returns: the walk follows
the names as long as there are children of these names. -/
def atFB {α : Type} (f : FunctionBlock → List Node → α × Node) :
    List StringId → Node → Option (α × Node)
  | [], n => atThis f n
  | name :: names, n =>
    match n.getChild name with
    | some child => (atFB f names child).map fun r => (r.1, n.setChild name r.2)
    | none => atThis f n

/-- `handleExecutionStateCmd` of a resource. -/
def handleExecutionStateCmd (cmd : ExecutionCmd) (target : List StringId) (resource : Node) :
    EMGMResponse × Node :=
  match atFB (fun d cs => changeExecutionState cmd (.fb d cs)) target resource with
  | none => (.noSuchObject, resource)
  | some r => r

/-- A resource after a number of commands. -/
def afterCmds (resource : Node) : List (ExecutionCmd × List StringId) → Node
  | [] => resource
  | (cmd, target) :: cmds => (handleExecutionStateCmd cmd target resource).2.afterCmds cmds

end Node

end Forte
