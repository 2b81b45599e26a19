import Forte.Management.Acceptance
import Forte.Network.Watching

/-!
# Which names a command reads

The parser fills the two lists of names of a command, and the executors take them apart. Most
of them look whether a list is empty before they read a name from it, or walk along it name by
name; some rely on the parser. This file follows the executors through a command and writes
down which names they read and by which names of a port they address a watch. Reads of one
list in a row are written down once.

The reads are safe for all that the parser accepts, with three exceptions: the type of a new
function block may be an asterisk, and a watch may be added to or removed from a function
block itself (`Forte.Device.safe_iff`).
-/

namespace Forte

/-- An access by names. -/
inductive Access
  /-- The first name of a list is read. -/
  | front (names : List StringId)
  /-- The last name of a list is read. -/
  | back (names : List StringId)
  /-- A watch is looked for or made, for a port of these names. -/
  | watch (portNames : List StringId)
  deriving DecidableEq, Repr

/-- The names of an access. -/
def Access.names : Access → List StringId
  | front names => names
  | back names => names
  | watch names => names

/-- An access that needs names has them. -/
def Access.Safe (a : Access) : Prop := a.names ≠ []

instance (a : Access) : Decidable a.Safe := inferInstanceAs (Decidable (_ ≠ _))

/-- A device: the function blocks of all its resources, and the lists of watches of these. -/
structure Device where
  /-- The function blocks, from the device on. -/
  network : Network
  /-- Whether a function block is a resource, to which function blocks can be added. -/
  isResource : FBId → Bool
  /-- `mFBMonitoringList` of a resource. -/
  fbMonitoringList : FBId → List FBMonitoringEntry

namespace Device

/-! ### Walks along names -/

section Walks

variable (d : Device) (layout : Layout)

/-- A walk that reads a name and goes on to the child of that name, where it may. -/
def walk (enters : List StringId → StringId → Bool) (p : List StringId) :
    List StringId → List Access
  | [] => []
  | name :: names =>
    .front (name :: names) :: if enters p name then walk enters (p ++ [name]) names else []

/-- `isDynamicContainer` of a child. -/
def isDynamic : Entry → Bool
  | .folder => true
  | .block b => d.isResource b

/-- `CFBContainer::createFB`, where a container that is missing is made. -/
def createFB : List StringId → List StringId → List Access :=
  walk fun p name => (d.network.getChild p name).all d.isDynamic

/-- `CFBContainer::deleteFB`. -/
def deleteFB : List StringId → List StringId → List Access :=
  walk fun p name => (d.network.getChild p name).any d.isDynamic

/-- `getFB` with iterators. -/
def getFB : List StringId → List StringId → List Access :=
  walk fun p name => (d.network.getChild p name).isSome

/-- `getVar` of a variable. -/
def getMember : PortType → List StringId → List Access
  | _, [] => []
  | .struct members, name :: names =>
    .front (name :: names) ::
      match members.find? (·.1 = name) with
      | some (_, m) => getMember m names
      | none => []
  | _, _ :: _ => []

/-- `getVar` of a container. -/
def getVar (p : List StringId) : List StringId → List Access
  | [] => []
  | name :: names =>
    .front (name :: names) ::
      match (d.network.blockAt p).bind fun b => d.network.ownVariable layout b name with
      | some (_, _, type) => getMember type names
      | none =>
        match d.network.getChild p name with
        | some _ => getVar (p ++ [name]) names
        | none => []

/-- `setForced`, which takes a port, not a member. -/
def setForced : List StringId → List StringId → List Access :=
  walk fun p name => (d.network.getChild p name).isSome

/-- `getInputConnection`. -/
def getInputConnection (p : List StringId) : List StringId → List Access
  | [] => []
  | name :: names =>
    .front (name :: names) ::
      match (d.network.blockAt p).bind fun b => d.network.portInput b name names with
      | some _ => []
      | none =>
        match d.network.getChild p name with
        | some _ => getInputConnection (p ++ [name]) names
        | none => []

/-- `getOutputConnection`; a member of a data output is looked up in its variable. -/
def getOutputConnection (p : List StringId) : List StringId → List Access
  | [] => []
  | name :: names =>
    .front (name :: names) ::
      match (d.network.blockAt p).bind fun b => d.network.portOutput b name names with
      | some _ =>
        match (d.network.blockAt p).bind fun b => d.network.ownVariable layout b name with
        | some (_, _, type) => getMember type names
        | none => []
      | none =>
        match d.network.getChild p name with
        | some _ => getOutputConnection (p ++ [name]) names
        | none => []

/-- `connect` and `disconnect`: a data connection may have a member as its destination, the
others have a port. -/
def connect (c : Connection) (ports : List StringId) : List Access :=
  match c, ports with
  | .data _, name :: names => [.front (name :: names)]
  | _, [name] => [.front [name]]
  | _, _ => []

end Walks

/-! ### The executors -/

section Executors

variable (d : Device) (layout : Layout) (p : List StringId)

/-- `CResource::createConnection`. -/
def createConnection (src dst : List StringId) : List Access :=
  if src = [] ∨ dst = [] then []
  else
    d.getOutputConnection layout p src ++
      match d.network.getOutputConnection p src with
      | none => []
      | some con =>
        d.getFB p dst.dropLast ++
          match d.network.getFB p dst.dropLast with
          | none => []
          | some (_, rest) => connect con (rest ++ dst.getLast?.toList)

/-- `CResource::deleteConnection`. -/
def deleteConnection (src dst : List StringId) : List Access :=
  if src = [] ∨ dst = [] then []
  else
    d.getFB p dst.dropLast ++
      match d.network.getFB p dst.dropLast with
      | none => []
      | some (_, rest) =>
        d.getInputConnection p dst ++
          match d.network.getInputConnection p dst with
          | some dstCon => connect dstCon (rest ++ dst.getLast?.toList)
          | none =>
            d.getOutputConnection layout p src ++
              match d.network.getOutputConnection p src with
              | none => []
              | some srcCon => connect srcCon (rest ++ dst.getLast?.toList)

/-- `CResource::writeValue`, of a value that can be read. -/
def writeValue (nameList : List StringId) (force : Bool) : List Access :=
  d.getVar layout p nameList ++
    match d.network.getVar layout p nameList with
    | none => []
    | some _ =>
      if force then d.setForced p nameList
      else d.getOutputConnection layout p nameList ++ d.getInputConnection p nameList

/-- `addWatch`. -/
def addWatch (nameList : List StringId) : List Access :=
  d.getFB p nameList ++
    match d.network.getFB p nameList with
    | none => []
    | some (b, portNameList) =>
      let q := p ++ nameList.take (nameList.length - portNameList.length)
      d.getVar layout q portNameList ++
        match d.network.getVar layout q portNameList with
        | some _ => [.watch portNameList, .front portNameList]
        | none =>
          .front portNameList ::
            match d.network.eventAt b portNameList with
            | some _ => [.watch portNameList]
            | none => []

/-- `removeWatch`, with the list of watches `l`. -/
def removeWatch (l : List FBMonitoringEntry) (nameList : List StringId) : List Access :=
  d.getFB p nameList ++
    match d.network.getFB p nameList with
    | none => []
    | some (b, portNameList) =>
      match Table.find? (layout.address ·.fb) (layout.address b) l with
      | none => []
      | some _ => [.watch portNameList]

/-- `triggerEvent` and `resetEventCount`. -/
def monitorEvent (nameList : List StringId) : List Access :=
  .back nameList :: d.getFB p nameList.dropLast

/-- The list of watches of the resource that `p` leads to. -/
def watchesAt : List FBMonitoringEntry :=
  (d.network.blockAt p).elim [] d.fbMonitoringList

/-- `CResource::executeMGMCommand`, of the resource that `p` leads to, and
`executeMonitoringCommand`. Types are created from Lua, where that is compiled in. -/
def executeMGMCommand (c : SManagementCMD) : List Access :=
  let first := c.firstParam.names
  let second := c.secondParam.names
  match c.cmd with
  | .createFBInstance => .front second :: d.createFB p first
  | .createFBType => [.front first]
  | .createAdapterType => [.front first]
  | .deleteFBInstance => d.deleteFB p first
  | .createConnection => d.createConnection layout p first second
  | .deleteConnection => d.deleteConnection layout p first second
  | .read => d.getVar layout p first
  | .write => d.writeValue layout p first false
  | .start => d.getFB p first
  | .stop => d.getFB p first
  | .kill => d.getFB p first
  | .reset => d.getFB p first
  | .queryFBType => [.front first]
  | .queryAdapterType => [.front first]
  | .queryDataType => [.front first]
  | .queryGlobalConstType => [.front first]
  | .monitoringAddWatch => d.addWatch layout p first
  | .monitoringRemoveWatch => d.removeWatch layout p (d.watchesAt p) first
  | .monitoringForce => d.writeValue layout p first true
  | .monitoringClearForce => d.setForced p first
  | .monitoringTriggerEvent => d.monitorEvent p first
  | .monitoringResetEventCount => d.monitorEvent p first
  | _ => []

/-- The resource that executes a command: the device itself, or its child of the name of the
destination, if there is one. -/
def destination (c : SManagementCMD) : Option (List StringId) :=
  match c.destination with
  | none => some []
  | some name => (d.network.getChild [] name).map fun _ => [name]

/-- `CDevice::executeMGMCommand`. -/
def execute (c : SManagementCMD) : List Access :=
  match d.destination c with
  | none => []
  | some p => d.executeMGMCommand layout p c

end Executors

/-! ### Walks are safe -/

section Safe

variable (d : Device) (layout : Layout)

theorem front_safe (name : StringId) (names : List StringId) :
    (Access.front (name :: names)).Safe := List.cons_ne_nil _ _

theorem forall_front_cons {name : StringId} {names : List StringId} {rest : List Access}
    (h : ∀ a ∈ rest, a.Safe) : ∀ a ∈ .front (name :: names) :: rest, a.Safe :=
  List.forall_mem_cons.mpr ⟨front_safe name names, h⟩

theorem walk_safe (enters : List StringId → StringId → Bool) (p names : List StringId) :
    ∀ a ∈ walk enters p names, a.Safe := by
  induction names generalizing p with
  | nil => exact nofun
  | cons name names ih =>
    refine forall_front_cons ?_
    split
    · exact ih (p ++ [name])
    · exact nofun

theorem getFB_safe (p names : List StringId) : ∀ a ∈ d.getFB p names, a.Safe :=
  walk_safe _ p names

theorem getMember_safe (type : PortType) (names : List StringId) :
    ∀ a ∈ getMember type names, a.Safe := by
  induction names generalizing type with
  | nil =>
    cases type <;> exact nofun
  | cons name names ih =>
    cases type with
    | struct members =>
      refine forall_front_cons ?_
      split
      · exact ih _
      · exact nofun
    | _ => exact nofun

theorem getVar_safe (p names : List StringId) : ∀ a ∈ d.getVar layout p names, a.Safe := by
  induction names generalizing p with
  | nil => exact nofun
  | cons name names ih =>
    refine forall_front_cons ?_
    split
    · exact getMember_safe _ names
    · split
      · exact ih (p ++ [name])
      · exact nofun

theorem getInputConnection_safe (p names : List StringId) :
    ∀ a ∈ d.getInputConnection p names, a.Safe := by
  induction names generalizing p with
  | nil => exact nofun
  | cons name names ih =>
    refine forall_front_cons ?_
    split
    · exact nofun
    · split
      · exact ih (p ++ [name])
      · exact nofun

theorem getOutputConnection_safe (p names : List StringId) :
    ∀ a ∈ d.getOutputConnection layout p names, a.Safe := by
  induction names generalizing p with
  | nil => exact nofun
  | cons name names ih =>
    refine forall_front_cons ?_
    split
    · split
      · exact getMember_safe _ names
      · exact nofun
    · split
      · exact ih (p ++ [name])
      · exact nofun

theorem connect_safe (c : Connection) (ports : List StringId) :
    ∀ a ∈ connect c ports, a.Safe := by
  unfold connect
  split
  · exact List.forall_mem_singleton.mpr (front_safe _ _)
  · exact List.forall_mem_singleton.mpr (front_safe _ _)
  · exact nofun

theorem forall_append {l l' : List Access} (h : ∀ a ∈ l, a.Safe) (h' : ∀ a ∈ l', a.Safe) :
    ∀ a ∈ l ++ l', a.Safe :=
  List.forall_mem_append.mpr ⟨h, h'⟩

theorem createConnection_safe (p src dst : List StringId) :
    ∀ a ∈ d.createConnection layout p src dst, a.Safe := by
  unfold createConnection
  split
  · exact nofun
  refine forall_append (d.getOutputConnection_safe layout p src) ?_
  split
  · exact nofun
  refine forall_append (walk_safe _ p _) ?_
  split
  · exact nofun
  · exact connect_safe _ _

theorem deleteConnection_safe (p src dst : List StringId) :
    ∀ a ∈ d.deleteConnection layout p src dst, a.Safe := by
  unfold deleteConnection
  split
  · exact nofun
  refine forall_append (walk_safe _ p _) ?_
  split
  · exact nofun
  refine forall_append (d.getInputConnection_safe p dst) ?_
  split
  · exact connect_safe _ _
  refine forall_append (d.getOutputConnection_safe layout p src) ?_
  split
  · exact nofun
  · exact connect_safe _ _

theorem writeValue_safe (p nameList : List StringId) (force : Bool) :
    ∀ a ∈ d.writeValue layout p nameList force, a.Safe := by
  unfold writeValue
  refine forall_append (d.getVar_safe layout p nameList) ?_
  split
  · exact nofun
  split
  · exact walk_safe _ p nameList
  · exact forall_append (d.getOutputConnection_safe layout p nameList)
      (d.getInputConnection_safe p nameList)

/-- **A watch is added safely** unless its names lead to a function block and none is left. -/
theorem addWatch_safe_iff (p nameList : List StringId) :
    (∀ a ∈ d.addWatch layout p nameList, a.Safe) ↔
      ∀ b, d.network.getFB p nameList ≠ some (b, []) := by
  unfold addWatch
  rw [List.forall_mem_append, and_iff_right (d.getFB_safe p nameList)]
  split
  · rename_i hnone
    exact iff_of_true nofun fun b hb => absurd (hnone.symm.trans hb) nofun
  rename_i b rest hfb
  cases rest with
  | nil =>
    refine iff_of_false (fun hall => ?_) fun hne => hne b hfb
    exact hall (.front []) List.mem_cons_self rfl
  | cons name names =>
    refine iff_of_true (forall_append (d.getVar_safe layout _ _) ?_) ?_
    · split
      · exact List.forall_mem_cons.mpr ⟨List.cons_ne_nil _ _,
          List.forall_mem_singleton.mpr (front_safe _ _)⟩
      · refine forall_front_cons ?_
        split
        · exact List.forall_mem_singleton.mpr (List.cons_ne_nil _ _)
        · exact nofun
    · intro b' hb'
      exact absurd (Prod.mk.inj (Option.some.inj (hfb.symm.trans hb'))).2 (List.cons_ne_nil _ _)

/-- **A watch is removed safely** unless its names lead to a watched function block and none is
left. -/
theorem removeWatch_safe_iff (p nameList : List StringId) (l : List FBMonitoringEntry) :
    (∀ a ∈ d.removeWatch layout p l nameList, a.Safe) ↔
      ∀ b, d.network.getFB p nameList = some (b, []) →
        Table.find? (layout.address ·.fb) (layout.address b) l = none := by
  unfold removeWatch
  rw [List.forall_mem_append, and_iff_right (d.getFB_safe p nameList)]
  split
  · rename_i hnone
    exact iff_of_true nofun fun b hb => absurd (hnone.symm.trans hb) nofun
  rename_i b rest hfb
  split
  · rename_i hnone
    refine iff_of_true nofun fun b' hb' => ?_
    obtain ⟨rfl, -⟩ := Prod.mk.inj (Option.some.inj (hfb.symm.trans hb'))
    exact hnone
  · rename_i e hfind
    rw [List.forall_mem_singleton]
    constructor
    · intro hne b' hb'
      exact absurd (Prod.mk.inj (Option.some.inj (hfb.symm.trans hb'))).2 hne
    · rintro hall (rfl : rest = [])
      exact absurd (hfind.symm.trans (hall b hfb)) nofun

end Safe

end Device

/-! ### What the parser puts in a command -/

/-- The commands that read a first name without looking whether there is one. -/
def EMGMCommandType.needsName : EMGMCommandType → Bool
  | .createFBType => true
  | .createAdapterType => true
  | .queryFBType => true
  | .queryAdapterType => true
  | .queryDataType => true
  | .queryGlobalConstType => true
  | .monitoringTriggerEvent => true
  | .monitoringResetEventCount => true
  | _ => false

theorem Dotted.names_ne_nil {allow : Bool} {t : Text} {names : List StringId}
    (h : Dotted allow t names) : names ≠ [] := by
  cases h <;> exact List.cons_ne_nil _ _

theorem TypeName.names_ne_nil {t hash : Text} {id : TNameIdentifier} (h : TypeName t id hash)
    (hany : t ≠ text "*") : id.names ≠ [] := by
  cases h with
  | any => exact absurd rfl hany
  | plain _ _ hid => rw [hid]; exact List.cons_ne_nil _ _
  | hashed _ _ hid => rw [hid]; exact List.cons_ne_nil _ _

/-- **The parser gives a name to the commands that need one.** -/
theorem Element.names_ne_nil {action : Action} {complete : Bool} {e : Text} {content : Content}
    (h : Element action complete e content) (hneeds : content.cmd.needsName = true) :
    content.firstParam.names ≠ [] := by
  cases h with
  | fb hcmd _ => cases action <;> cases hcmd <;> exact absurd hneeds (by rintro ⟨⟩)
  | connection hcmd _ => cases action <;> cases hcmd <;> exact absurd hneeds (by rintro ⟨⟩)
  | watch hcmd _ => cases action <;> cases hcmd <;> exact absurd hneeds (by rintro ⟨⟩)
  | watches => exact absurd hneeds (by rintro ⟨⟩)
  | write h =>
    cases h with
    | intro _ _ _ _ _ hfirst _ => exact hfirst.names_ne_nil
  | types hkind h =>
    cases h with
    | any =>
      simp only [typeKinds, List.mem_cons, Prod.mk.injEq, List.not_mem_nil, or_false] at hkind
      rcases hkind with ⟨-, -, rfl⟩ | ⟨-, -, rfl⟩ | ⟨-, -, rfl⟩ | ⟨-, -, rfl⟩ <;>
        exact absurd hneeds (by rintro ⟨⟩)
    | name _ _ hany _ _ hfirst => exact hfirst.names_ne_nil hany

theorem Request.names_ne_nil {complete : Bool} {t id : Text} {content : Content}
    (h : Request complete t id content) (hneeds : content.cmd.needsName = true) :
    content.firstParam.names ≠ [] := by
  have haction (action : Action) : action.command.needsName = false := by cases action <;> rfl
  obtain ⟨-, -, -, hbody⟩ := h
  cases hbody with
  | closed => exact absurd (hneeds.symm.trans (haction _)) nofun
  | «open» => exact absurd (hneeds.symm.trans (haction _)) nofun
  | empty => exact absurd (hneeds.symm.trans (haction _)) nofun
  | element _ hel => exact hel.names_ne_nil hneeds

namespace Device

open CommandParser

/-- **The commands that are not safe** at the resource that `p` leads to: a function block is
made of no type, a watch is added to a function block itself, or removed from one that is
watched. -/
inductive Unsafe (d : Device) (layout : Layout) (p : List StringId) (c : SManagementCMD) : Prop
  | createFB (hcmd : c.cmd = .createFBInstance) (h : c.secondParam.names = [])
  | addWatch (hcmd : c.cmd = .monitoringAddWatch) {b : FBId}
      (h : d.network.getFB p c.firstParam.names = some (b, []))
  | removeWatch (hcmd : c.cmd = .monitoringRemoveWatch) {b : FBId}
      (h : d.network.getFB p c.firstParam.names = some (b, [])) {e : FBMonitoringEntry}
      (hwatched : Table.find? (layout.address ·.fb) (layout.address b) (d.watchesAt p) = some e)

/-- A resource reads safely what a command says, unless it is one of these. -/
theorem executeMGMCommand_safe_iff (d : Device) (layout : Layout) (p : List StringId)
    {c : SManagementCMD} (hneeds : c.cmd.needsName = true → c.firstParam.names ≠ []) :
    (∀ a ∈ d.executeMGMCommand layout p c, a.Safe) ↔ ¬d.Unsafe layout p c := by
  have hother {cmd : EMGMCommandType} (hcmd : c.cmd = cmd)
      (hne : cmd ≠ .createFBInstance ∧ cmd ≠ .monitoringAddWatch ∧ cmd ≠ .monitoringRemoveWatch)
      {l : List Access} (hl : ∀ a ∈ l, a.Safe) :
      (∀ a ∈ l, a.Safe) ↔ ¬d.Unsafe layout p c := by
    refine iff_of_true hl ?_
    rintro (⟨h, -⟩ | ⟨h, -⟩ | ⟨h, -⟩)
    · exact hne.1 (hcmd.symm.trans h)
    · exact hne.2.1 (hcmd.symm.trans h)
    · exact hne.2.2 (hcmd.symm.trans h)
  have hfirst {cmd : EMGMCommandType} (hcmd : c.cmd = cmd) (h : cmd.needsName = true)
      {l : List Access} (hl : ∀ a ∈ l, a.Safe) :
      (∀ a ∈ .front c.firstParam.names :: l, a.Safe) ∧
        ∀ a ∈ .back c.firstParam.names :: l, a.Safe :=
    ⟨List.forall_mem_cons.mpr ⟨hneeds (hcmd ▸ h), hl⟩,
      List.forall_mem_cons.mpr ⟨hneeds (hcmd ▸ h), hl⟩⟩
  unfold executeMGMCommand
  cases hcmd : c.cmd with
  | createFBInstance =>
    have hwalk : ∀ a ∈ d.createFB p c.firstParam.names, a.Safe := walk_safe _ p _
    simp only [List.forall_mem_cons, and_iff_left hwalk]
    constructor
    · rintro hne (⟨-, h⟩ | ⟨h, -⟩ | ⟨h, -⟩)
      · exact hne h
      · exact absurd (hcmd.symm.trans h) nofun
      · exact absurd (hcmd.symm.trans h) nofun
    · exact fun h hnil => h (.createFB hcmd hnil)
  | monitoringAddWatch =>
    refine (d.addWatch_safe_iff layout p c.firstParam.names).trans ⟨?_, ?_⟩
    · rintro hall (⟨h, -⟩ | ⟨-, h⟩ | ⟨h, -⟩)
      · exact absurd (hcmd.symm.trans h) nofun
      · exact hall _ h
      · exact absurd (hcmd.symm.trans h) nofun
    · exact fun h b hb => h (.addWatch hcmd hb)
  | monitoringRemoveWatch =>
    refine (d.removeWatch_safe_iff layout p c.firstParam.names (d.watchesAt p)).trans ⟨?_, ?_⟩
    · rintro hall (⟨h, -⟩ | ⟨h, -⟩ | ⟨-, h, hwatched⟩)
      · exact absurd (hcmd.symm.trans h) nofun
      · exact absurd (hcmd.symm.trans h) nofun
      · exact absurd ((hall _ h).symm.trans hwatched) nofun
    · intro h b hb
      cases hfind : Table.find? (layout.address ·.fb) (layout.address b) (d.watchesAt p) with
      | none => rfl
      | some e => exact absurd (.removeWatch hcmd hb hfind) h
  | createFBType => exact hother hcmd (by decide) (hfirst (l := []) hcmd rfl nofun).1
  | createAdapterType => exact hother hcmd (by decide) (hfirst (l := []) hcmd rfl nofun).1
  | queryFBType => exact hother hcmd (by decide) (hfirst (l := []) hcmd rfl nofun).1
  | queryAdapterType => exact hother hcmd (by decide) (hfirst (l := []) hcmd rfl nofun).1
  | queryDataType => exact hother hcmd (by decide) (hfirst (l := []) hcmd rfl nofun).1
  | queryGlobalConstType => exact hother hcmd (by decide) (hfirst (l := []) hcmd rfl nofun).1
  | monitoringTriggerEvent =>
    exact hother hcmd (by decide) (hfirst hcmd rfl (d.getFB_safe p _)).2
  | monitoringResetEventCount =>
    exact hother hcmd (by decide) (hfirst hcmd rfl (d.getFB_safe p _)).2
  | deleteFBInstance => exact hother hcmd (by decide) (walk_safe _ p _)
  | start => exact hother hcmd (by decide) (d.getFB_safe p _)
  | stop => exact hother hcmd (by decide) (d.getFB_safe p _)
  | kill => exact hother hcmd (by decide) (d.getFB_safe p _)
  | reset => exact hother hcmd (by decide) (d.getFB_safe p _)
  | createConnection => exact hother hcmd (by decide) (d.createConnection_safe layout p _ _)
  | deleteConnection => exact hother hcmd (by decide) (d.deleteConnection_safe layout p _ _)
  | read => exact hother hcmd (by decide) (d.getVar_safe layout p _)
  | write => exact hother hcmd (by decide) (d.writeValue_safe layout p _ _)
  | monitoringForce => exact hother hcmd (by decide) (d.writeValue_safe layout p _ _)
  | monitoringClearForce => exact hother hcmd (by decide) (walk_safe _ p _)
  | _ => exact hother hcmd (by decide) nofun

/-- **What the parser accepts is safe to execute**, but for three kinds of commands. -/
theorem safe_iff {dest t : Text} {c : SManagementCMD} (hparse : parseMGMCommand dest t = .ok c)
    (d : Device) (layout : Layout) :
    (∀ a ∈ d.execute layout c, a.Safe) ↔ ∀ p, d.destination c = some p → ¬d.Unsafe layout p c := by
  obtain ⟨complete, id, content, hrequest, rfl⟩ := parseMGMCommand_eq_ok_iff.mp hparse
  unfold execute
  cases hdest : d.destination (content.command dest id) with
  | none => exact iff_of_true nofun nofun
  | some p =>
    refine (d.executeMGMCommand_safe_iff layout p hrequest.names_ne_nil).trans ?_
    exact ⟨fun h q hq => Option.some.inj hq ▸ h, fun h => h p rfl⟩

/-- A request for a function block of any type. -/
def createOfAnyType : Text :=
  text "<Request ID=\"1\" Action=\"CREATE\"><FB Name=\"a\" Type=\"*\"/></Request>"

/-- A request for a watch of anything. -/
def watchAnything : Text :=
  text "<Request ID=\"1\" Action=\"CREATE\"><Watch Source=\"*\" Destination=\"*\"/></Request>"

/-- What is read of a request to create something. -/
theorem parse_create {t el : Text} {content : Content} (hel : Element .create true el content)
    (ht : t = text "<Request ID=\"" ++ text "1" ++ text "\"" ++ text " " ++ text "Action=\"" ++
      Action.create.name ++ text "\"" ++ [] ++ (tagEnd false ++ [] ++ text "<" ++ el ++ [] ++
        text "<" ++ ([] ++ text "/Request>" ++ []))) :
    parseMGMCommand [] t = .ok (content.command [] (text "1")) := by
  have hnil : White [] := nofun
  have hblank : White (text " ") := by decide
  have hid : Unquoted (text "1") := by unfold Unquoted; decide
  have hbody : Body .create (!false && true && true) _ content :=
    .element hnil hel hnil (.complete hnil hnil)
  rw [ht]
  exact parseMGMCommand_eq_ok_iff.mpr ⟨true, _, content, .intro hid hblank hnil hbody, rfl⟩

theorem parse_createOfAnyType : parseMGMCommand [] createOfAnyType =
    .ok (Content.command ⟨.createFBInstance, ⟨[.insert (text "a")], by decide⟩, .nil, []⟩ []
      (text "1")) := by
  have hfb : FBData true (text "FB Name=\"" ++ text "a" ++ text "\"" ++ text " " ++
      text "Type=\"" ++ text "*" ++ text "\"" ++ [] ++ text "/>")
      ⟨[.insert (text "a")], by decide⟩ .nil [] :=
    .complete (by unfold Unquoted; decide) (by unfold Unquoted; decide)
      (by decide) nofun (.names (by decide) (.last (by decide) (by decide))) .any
  exact parse_create (.fb rfl hfb) rfl

theorem parse_watchAnything : parseMGMCommand [] watchAnything =
    .ok (Content.command ⟨.monitoringAddWatch, .nil, .nil, []⟩ [] (text "1")) := by
  have hlink : LinkData (text "Watch ") (text "Watch " ++ text "Source=\"" ++ text "*" ++
      text "\"" ++ text " " ++ text "Destination=\"" ++ text "*" ++ text "\"" ++ [] ++ text "/>")
      .nil .nil :=
    .intro (by unfold Unquoted; decide) (by unfold Unquoted; decide) (by decide)
      nofun .any .any
  exact parse_create (.watch rfl hlink) rfl

/-- A device without function blocks. -/
def emptyDevice : Device := ⟨.initial, fun b => b = 0, fun _ => []⟩

/-- The request for a function block of any type reads a name that is not there. -/
theorem createOfAnyType_unsafe_iff :
    (∀ a ∈ emptyDevice.execute sampleLayout (Content.command
        ⟨.createFBInstance, ⟨[.insert (text "a")], by decide⟩, .nil, []⟩ [] (text "1")), a.Safe) ↔
      ∀ p, emptyDevice.destination (Content.command
          ⟨.createFBInstance, ⟨[.insert (text "a")], by decide⟩, .nil, []⟩ [] (text "1")) =
            some p →
        ¬emptyDevice.Unsafe sampleLayout p (Content.command
          ⟨.createFBInstance, ⟨[.insert (text "a")], by decide⟩, .nil, []⟩ [] (text "1")) :=
  safe_iff parse_createOfAnyType emptyDevice sampleLayout

/-- **Two requests that are accepted and read names that are not there.** -/
theorem accepted_unsafe :
    (∃ c, parseMGMCommand [] createOfAnyType = .ok c ∧
      ∃ a ∈ emptyDevice.execute sampleLayout c, ¬a.Safe) ∧
    ∃ c, parseMGMCommand [] watchAnything = .ok c ∧
      ∃ a ∈ emptyDevice.execute sampleLayout c, ¬a.Safe :=
  ⟨⟨_, parse_createOfAnyType, .front [], List.mem_cons_self, fun h => h rfl⟩,
    ⟨_, parse_watchAnything, .front [], List.mem_cons_self, fun h => h rfl⟩⟩

end Device

end Forte
