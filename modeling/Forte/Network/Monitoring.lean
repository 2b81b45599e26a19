import Forte.Lib.SortedTable
import Forte.Network.Naming
import Mathlib.Data.List.Lex

/-!
# Watches

Monitoring commands put variables and event ports on a list of watches and read them. The
watches refer to the variables and event counters themselves, which belong to function
blocks, and the list of the function blocks that are watched is kept sorted by their
addresses.

What should hold of the list at any time is `Forte.Network.Consistent`. Two commands break
it: `deleteFB` does not look at the watches, so that those of the function block it deletes
stay behind (`Forte.watches_inconsistent`), and `addWatch` makes an entry for the function
block before it looks for the port, and keeps it when there is none. With nothing left behind
the names of the function block, it takes the first name of an empty list. In the runs
without these the list is consistent at any time (`Forte.Network.WatchRun.consistent`).
-/

namespace Forte

/-- What else there is to a function block, for as long as it exists, and to an interned
string. -/
structure Layout where
  /-- The address of a function block. -/
  address : FBId → ℕ
  /-- The internal variables that its type gives a function block, with `!ECC` if it has an
  execution control chart. -/
  internalVars : FBId → List (StringId × PortType)
  /-- The address of a string. -/
  nameAddress : StringId → ℕ
  nameAddress_injective : Function.Injective nameAddress

/-- The kinds of variables of a function block. -/
inductive VariableKind
  | internal | di | dout | dio
  deriving DecidableEq, Repr

/-- A variable of a function block or a member of one, `CIEC_ANY *`. -/
structure Variable where
  fb : FBId
  kind : VariableKind
  port : PortId
  /-- The names that lead to the member. -/
  names : List StringId
  deriving DecidableEq, Repr

/-- An entry of the event monitoring data of a function block. -/
inductive EventPoint
  /-- `getEIMonitorData`. -/
  | input (fb : FBId) (ei : PortId)
  /-- `getEOMonitorData`. -/
  | output (fb : FBId) (eo : PortId)
  deriving DecidableEq, Repr

/-- The function block whose monitoring data it is in. -/
def EventPoint.fb : EventPoint → FBId
  | input b _ => b
  | output b _ => b

/-- `CDataWatchEntry`, without its buffer. -/
structure DataWatchEntry where
  /-- `mPortId`. -/
  portId : List StringId
  /-- `mDataValueRef`. -/
  dataValueRef : Variable
  /-- `mForceIndex`. -/
  forceIndex : Option ℕ
  deriving DecidableEq, Repr

/-- `CEventWatchEntry`, without its buffer. -/
structure EventWatchEntry where
  /-- `mPortId`. -/
  portId : List StringId
  /-- `mEventDataRef`. -/
  eventDataRef : EventPoint
  deriving DecidableEq, Repr

/-- `SFBMonitoringEntry`. -/
structure FBMonitoringEntry where
  /-- `mFullFBName`. -/
  fullFBName : String
  /-- `mFB`. -/
  fb : FBId
  /-- `mWatchedDataPoints`. -/
  watchedDataPoints : List DataWatchEntry
  /-- `mWatchedEventPoints`. -/
  watchedEventPoints : List EventWatchEntry
  deriving DecidableEq, Repr

namespace Network

/-! ### Variables and event ports by name -/

/-- The variable of a function block of a name, with its type: `getInternalVar`,
`getDataInput`, `getDataOutput`, `getDataInOut`. -/
def ownVariable (s : Network) (layout : Layout) (b : FBId) (name : StringId) :
    Option (VariableKind × PortId × PortType) :=
  match getPortId name ((layout.internalVars b).map (·.1)) with
  | some i => some (.internal, i, ((layout.internalVars b).map (·.2)).getD i default)
  | none =>
    match getPortId name (s.spec b).diNames with
    | some di => some (.di, di, s.types.di b di)
    | none =>
      match getPortId name (s.spec b).doNames with
      | some dout => some (.dout, dout, s.types.dout b dout)
      | none => (getPortId name (s.spec b).dioNames).map fun dio => (.dio, dio, s.types.dio b dio)

/-- The part of `CFunctionBlock::getVar` about the function block's own variables; `none`
where it goes on to the children. -/
def portVariable (s : Network) (layout : Layout) (b : FBId) (name : StringId)
    (names : List StringId) : Option (Option Variable) :=
  (s.ownVariable layout b name).map fun (kind, port, type) =>
    (type.getVar names).map fun _ => ⟨b, kind, port, names⟩

/-- `getVar`, from the container that `p` leads to. -/
def getVar (s : Network) (layout : Layout) (p : List StringId) :
    List StringId → Option Variable
  | [] => none
  | name :: names =>
    match (s.blockAt p).bind fun b => s.portVariable layout b name names with
    | some found => found
    | none =>
      match s.getChild p name with
      | some _ => s.getVar layout (p ++ [name]) names
      | none => none

/-- `getAbsDataPortNum`; `INVALID_ABS_DATA_PORT_ID` is `none`. -/
def getAbsDataPortNum (s : Network) (b : FBId) (name : StringId) : Option ℕ :=
  let spec := s.spec b
  (getPortId name spec.diNames).or
    (((getPortId name spec.doNames).map (spec.diNames.length + ·)).or
      ((getPortId name spec.dioNames).map (spec.diNames.length + spec.doNames.length + ·)))

/-- The event port of a name, an input or else an output. -/
def eventPoint (s : Network) (b : FBId) (name : StringId) : Option EventPoint :=
  match getPortId name (s.spec b).eiNames with
  | some ei => some (.input b ei)
  | none => (getPortId name (s.spec b).eoNames).map (.output b)

end Network

/-! ### The list of watches -/

namespace Layout

variable (layout : Layout)

/-- The watches are sorted by the addresses of the names of their ports, and the watched
function blocks by their own addresses. -/
def portKey (portId : List StringId) : List ℕ := portId.map layout.nameAddress

/-- `addDataWatch`. -/
def addDataWatch (s : Network) (portId : List StringId) (dataVal : Variable)
    (e : FBMonitoringEntry) : FBMonitoringEntry :=
  { e with
    watchedDataPoints := Table.insertAbsent (layout.portKey ·.portId)
      ⟨portId, dataVal, portId.head?.bind (s.getAbsDataPortNum e.fb)⟩ e.watchedDataPoints }

/-- `addEventWatch`. -/
def addEventWatch (portId : List StringId) (eventData : EventPoint) (e : FBMonitoringEntry) :
    FBMonitoringEntry :=
  { e with
    watchedEventPoints :=
      Table.insertAbsent (layout.portKey ·.portId) ⟨portId, eventData⟩ e.watchedEventPoints }

/-- `removeDataWatch`, or else `removeEventWatch`. -/
def removeAnyWatch (portId : List StringId) (e : FBMonitoringEntry) : Option FBMonitoringEntry :=
  let key := layout.portKey portId
  if (Table.find? (layout.portKey ·.portId) key e.watchedDataPoints).isSome then
    some { e with
      watchedDataPoints := Table.erase (layout.portKey ·.portId) key e.watchedDataPoints }
  else if (Table.find? (layout.portKey ·.portId) key e.watchedEventPoints).isSome then
    some { e with
      watchedEventPoints := Table.erase (layout.portKey ·.portId) key e.watchedEventPoints }
  else none

/-- `findOrCreateFBMonitoringEntry`. -/
def findOrCreateFBMonitoringEntry (b : FBId) (nameList : List StringId)
    (l : List FBMonitoringEntry) : List FBMonitoringEntry :=
  Table.insertAbsent (layout.address ·.fb) ⟨".".intercalate nameList, b, [], []⟩ l

/-- `addWatch` of a resource under the name `p`, or none where it takes the first name of an
empty list. -/
def addWatch (s : Network) (p nameList : List StringId) (l : List FBMonitoringEntry) :
    Option (EMGMResponse × List FBMonitoringEntry) :=
  match s.getFB p nameList with
  | none => some (.noSuchObject, l)
  | some (b, portNameList) =>
    let fbNameList := nameList.take (nameList.length - portNameList.length)
    let l := layout.findOrCreateFBMonitoringEntry b fbNameList l
    match s.getVar layout (p ++ fbNameList) portNameList with
    | some dataVal =>
      some (.ready, Table.modify (layout.address ·.fb) (layout.address b)
        (layout.addDataWatch s portNameList dataVal) l)
    | none =>
      match portNameList with
      | [] => none
      | port :: _ =>
        match s.eventPoint b port with
        | some eventData =>
          some (.ready, Table.modify (layout.address ·.fb) (layout.address b)
            (layout.addEventWatch portNameList eventData) l)
        | none => some (.noSuchObject, l)

/-- `removeWatch` of a resource under the name `p`. -/
def removeWatch (s : Network) (p nameList : List StringId) (l : List FBMonitoringEntry) :
    EMGMResponse × List FBMonitoringEntry :=
  match s.getFB p nameList with
  | none => (.noSuchObject, l)
  | some (b, portNameList) =>
    match (Table.find? (layout.address ·.fb) (layout.address b) l).bind
        (layout.removeAnyWatch portNameList) with
    | none => (.noSuchObject, l)
    | some e =>
      if e.watchedDataPoints = [] ∧ e.watchedEventPoints = [] then
        (.ready, Table.erase (layout.address ·.fb) (layout.address b) l)
      else (.ready, Table.modify (layout.address ·.fb) (layout.address b) (fun _ => e) l)

end Layout

/-- What `readWatches` reads: variables, with their function block, which knows whether they
are forced, and event counters. -/
inductive WatchedPoint
  | data (fb : FBId) (v : Variable)
  | event (e : EventPoint)
  deriving DecidableEq, Repr

/-- What the watches refer to. -/
def FBMonitoringEntry.points (e : FBMonitoringEntry) : List WatchedPoint :=
  e.watchedDataPoints.map (fun w => .data e.fb w.dataValueRef) ++
    e.watchedEventPoints.map fun w => .event w.eventDataRef

namespace Network

/-- Whether what is read is there. -/
def isThere (s : Network) : WatchedPoint → Bool
  | .data b v => s.live b && s.live v.fb
  | .event e => s.live e.fb

/-- `readResourceWatches`, as far as it reads; none where it reads what is not there. -/
def readResourceWatches (s : Network) (l : List FBMonitoringEntry) : Option (List WatchedPoint) :=
  let points := l.flatMap FBMonitoringEntry.points
  if points.all s.isThere then some points else none

end Network

/-- The commands about watches, and the ones that make function blocks come and go. -/
inductive WatchCommand
  | addWatch (nameList : List StringId)
  | removeWatch (nameList : List StringId)
  | readWatches
  | createFB (nameList : List StringId) (typeName : StringId) (typeHash : String)
  | deleteFB (nameList : List StringId)

/-- A resource with its `mFBMonitoringList`. -/
structure Monitored where
  network : Network
  /-- `mFBMonitoringList`. -/
  fbMonitoringList : List FBMonitoringEntry

/-- The execution of a command; none where it has no defined behaviour. -/
def Monitored.execute (lib : TypeLibrary) (layout : Layout) (s : Monitored) :
    WatchCommand → Option (EMGMResponse × Monitored)
  | .addWatch nameList =>
    (layout.addWatch s.network [] nameList s.fbMonitoringList).map fun r =>
      (r.1, { s with fbMonitoringList := r.2 })
  | .removeWatch nameList =>
    let (response, l) := layout.removeWatch s.network [] nameList s.fbMonitoringList
    some (response, { s with fbMonitoringList := l })
  | .readWatches => (s.network.readResourceWatches s.fbMonitoringList).map fun _ => (.ready, s)
  | .createFB nameList typeName typeHash =>
    let (network, response) := Network.createFBIn lib s.network [] typeName typeHash nameList
    some (response, { s with network })
  | .deleteFB nameList =>
    let (network, response) := s.network.deleteFBIn [] nameList
    some (response, { s with network })

/-! ### What the watches refer to -/

namespace Network

/-- The variable of a function block that names lead to. -/
def variableAt (s : Network) (layout : Layout) (b : FBId) : List StringId → Option Variable
  | [] => none
  | name :: names => (s.portVariable layout b name names).join

/-- The event port of a function block that the first of the names leads to. -/
def eventAt (s : Network) (b : FBId) (names : List StringId) : Option EventPoint :=
  names.head?.bind (s.eventPoint b)

/-- **The watches of a function block refer to what there is.** -/
structure Watches (layout : Layout) (s : Network) (e : FBMonitoringEntry) : Prop where
  live : s.live e.fb = true
  data : ∀ w ∈ e.watchedDataPoints, s.variableAt layout e.fb w.portId = some w.dataValueRef
  event : ∀ w ∈ e.watchedEventPoints, s.eventAt e.fb w.portId = some w.eventDataRef
  dataSorted : Table.Sorted (layout.portKey ·.portId) e.watchedDataPoints
  eventSorted : Table.Sorted (layout.portKey ·.portId) e.watchedEventPoints

/-- **The list of watches is consistent**: it has at most one entry for a function block, each
with a watch at least, and the watches refer to what there is. -/
structure Consistent (layout : Layout) (s : Network) (l : List FBMonitoringEntry) : Prop where
  watches : ∀ e ∈ l, Watches layout s e
  watched : ∀ e ∈ l, e.watchedDataPoints ≠ [] ∨ e.watchedEventPoints ≠ []
  sorted : Table.Sorted (layout.address ·.fb) l

/-- Function blocks that exist at the same time have different addresses. -/
def Allocated (layout : Layout) (s : Network) : Prop :=
  ∀ b b', s.live b = true → s.live b' = true → layout.address b = layout.address b' → b = b'

theorem consistent_nil (layout : Layout) (s : Network) : Consistent layout s [] where
  watches := nofun
  watched := nofun
  sorted := List.Pairwise.nil

/-! ### Where the walk along a name ends -/

/-- The walk of `getFB` ends where there is no child of the next name. -/
theorem getFB_eq_some {s : Network} {p names rest : List StringId} {b : FBId}
    (h : s.getFB p names = some (b, rest)) : ∃ taken, names = taken ++ rest ∧
      s.blockAt (p ++ taken) = some b ∧
      ∀ name ∈ rest.head?, s.getChild (p ++ taken) name = none := by
  induction names generalizing p with
  | nil =>
    obtain ⟨b', hb', heq⟩ := Option.map_eq_some_iff.mp h
    obtain ⟨rfl, rfl⟩ := Prod.mk.inj heq
    exact ⟨[], rfl, by rw [List.append_nil]; exact hb', nofun⟩
  | cons name names ih =>
    unfold getFB at h
    split at h
    · obtain ⟨taken, rfl, hb, hchild⟩ := ih h
      rw [List.append_assoc] at hb hchild
      exact ⟨name :: taken, rfl, hb, hchild⟩
    · rename_i hnone
      obtain ⟨b', hb', heq⟩ := Option.map_eq_some_iff.mp h
      obtain ⟨rfl, rfl⟩ := Prod.mk.inj heq
      refine ⟨[], rfl, by rw [List.append_nil]; exact hb', ?_⟩
      rintro _ ⟨rfl⟩
      rw [List.append_nil]
      exact hnone

/-- There the names that are left are those of a variable of the function block, or of
none. -/
theorem getVar_eq_variableAt {s : Network} (layout : Layout) {p rest : List StringId} {b : FBId}
    (hb : s.blockAt p = some b) (hchild : ∀ name ∈ rest.head?, s.getChild p name = none) :
    s.getVar layout p rest = s.variableAt layout b rest := by
  cases rest with
  | nil => rfl
  | cons name names =>
    rw [getVar, hb, variableAt, Option.bind_some]
    cases hport : s.portVariable layout b name names with
    | some found => rfl
    | none =>
      simp only [hchild name rfl]
      rfl

theorem fb_of_portVariable {s : Network} {layout : Layout} {b : FBId} {name : StringId}
    {names : List StringId} {v : Variable}
    (h : s.portVariable layout b name names = some (some v)) : v.fb = b := by
  obtain ⟨_, -, h⟩ := Option.map_eq_some_iff.mp h
  obtain ⟨_, -, rfl⟩ := Option.map_eq_some_iff.mp h
  rfl

theorem fb_of_variableAt {s : Network} {layout : Layout} {b : FBId} {names : List StringId}
    {v : Variable}
    (h : s.variableAt layout b names = some v) : v.fb = b := by
  cases names with
  | nil => exact absurd h nofun
  | cons name names => exact fb_of_portVariable (Option.join_eq_some_iff.mp h)

theorem fb_of_eventAt {s : Network} {b : FBId} {names : List StringId} {e : EventPoint}
    (h : s.eventAt b names = some e) : e.fb = b := by
  obtain ⟨name, -, h⟩ := Option.bind_eq_some_iff.mp h
  unfold eventPoint at h
  split at h
  · rw [← Option.some.inj h]
    rfl
  · obtain ⟨eo, -, rfl⟩ := Option.map_eq_some_iff.mp h
    rfl

end Network

/-! ### One entry -/

namespace Layout

variable {layout : Layout} {s : Network} {e : FBMonitoringEntry} {portId : List StringId}

theorem watches_addDataWatch (h : s.Watches layout e) {v : Variable}
    (hv : s.variableAt layout e.fb portId = some v) :
    s.Watches layout (layout.addDataWatch s portId v e) := by
  refine ⟨h.live, ?_, h.event, h.dataSorted.insertAbsent _, h.eventSorted⟩
  intro w hw
  rcases (Table.mem_insertAbsent h.dataSorted).mp hw with hw | ⟨rfl, -⟩
  · exact h.data w hw
  · exact hv

theorem watches_addEventWatch (h : s.Watches layout e) {v : EventPoint}
    (hv : s.eventAt e.fb portId = some v) : s.Watches layout (layout.addEventWatch portId v e) := by
  refine ⟨h.live, h.data, ?_, h.dataSorted, h.eventSorted.insertAbsent _⟩
  intro w hw
  rcases (Table.mem_insertAbsent h.eventSorted).mp hw with hw | ⟨rfl, -⟩
  · exact h.event w hw
  · exact hv

theorem watches_removeAnyWatch (h : s.Watches layout e) {e' : FBMonitoringEntry}
    (he : layout.removeAnyWatch portId e = some e') : s.Watches layout e' ∧ e'.fb = e.fb := by
  simp only [removeAnyWatch] at he
  split_ifs at he
  · obtain rfl := Option.some.inj he
    refine ⟨⟨h.live, fun w hw => h.data w ?_, h.event, h.dataSorted.erase, h.eventSorted⟩, rfl⟩
    exact ((Table.mem_erase h.dataSorted).mp hw).1
  · obtain rfl := Option.some.inj he
    refine ⟨⟨h.live, h.data, fun w hw => h.event w ?_, h.dataSorted, h.eventSorted.erase⟩, rfl⟩
    exact ((Table.mem_erase h.eventSorted).mp hw).1

end Layout

/-! ### The commands -/

namespace Network

variable {layout : Layout} {s : Network} {l : List FBMonitoringEntry}

/-- An entry that is found or made, and to which a watch is added. -/
theorem Consistent.watch (h : Consistent layout s l) (ha : Allocated layout s) {b : FBId}
    (hb : s.live b = true) (nameList : List StringId) {f : FBMonitoringEntry → FBMonitoringEntry}
    (hf : ∀ e, Watches layout s e → e.fb = b → Watches layout s (f e) ∧ (f e).fb = b ∧
      ((f e).watchedDataPoints ≠ [] ∨ (f e).watchedEventPoints ≠ [])) :
    Consistent layout s (Table.modify (layout.address ·.fb) (layout.address b) f
      (layout.findOrCreateFBMonitoringEntry b nameList l)) := by
  have hsorted := h.sorted.insertAbsent ⟨".".intercalate nameList, b, [], []⟩
  have hwatches : ∀ e ∈ layout.findOrCreateFBMonitoringEntry b nameList l, Watches layout s e := by
    intro e he
    rcases (Table.mem_insertAbsent h.sorted).mp he with he | ⟨rfl, -⟩
    · exact h.watches e he
    · exact ⟨hb, nofun, nofun, .nil, .nil⟩
  have hfb : ∀ e ∈ layout.findOrCreateFBMonitoringEntry b nameList l,
      layout.address e.fb = layout.address b → e.fb = b :=
    fun e he hkey => ha e.fb b (hwatches e he).live hb hkey
  refine ⟨?_, ?_, hsorted.modify fun e he hkey => ?_⟩
  · intro e he
    rcases (Table.mem_modify hsorted).mp he with ⟨he, -⟩ | ⟨e₀, he₀, hkey, rfl⟩
    · exact hwatches e he
    · exact (hf e₀ (hwatches e₀ he₀) (hfb e₀ he₀ hkey)).1
  · intro e he
    rcases (Table.mem_modify hsorted).mp he with ⟨he, hkey⟩ | ⟨e₀, he₀, hkey, rfl⟩
    · rcases (Table.mem_insertAbsent h.sorted).mp he with he | ⟨rfl, -⟩
      · exact h.watched e he
      · exact absurd rfl hkey
    · exact (hf e₀ (hwatches e₀ he₀) (hfb e₀ he₀ hkey)).2.2
  · rw [(hf e (hwatches e he) (hfb e he hkey)).2.1]

/-- **Where `addWatch` does no harm**: a function block that the names lead to has a variable
or an event port of the names that are left, or is watched already; and there are names
left. -/
def MayWatch (s : Network) (layout : Layout) (l : List FBMonitoringEntry)
    (nameList : List StringId) : Prop :=
  ∀ b rest, s.getFB [] nameList = some (b, rest) → rest ≠ [] ∧
    ((s.variableAt layout b rest).isSome ∨ (s.eventAt b rest).isSome ∨ ∃ e ∈ l, e.fb = b)

theorem Consistent.addWatch (h : Consistent layout s l) (hnamed : Named s)
    (ha : Allocated layout s) {nameList : List StringId} (hmay : s.MayWatch layout l nameList) :
    ∃ r l', layout.addWatch s [] nameList l = some (r, l') ∧ Consistent layout s l' ∧
      (r ≠ .ready → l' = l) := by
  cases hfb : s.getFB [] nameList with
  | none => exact ⟨.noSuchObject, l, by rw [Layout.addWatch, hfb], h, fun _ => rfl⟩
  | some found =>
    obtain ⟨b, rest⟩ := found
    obtain ⟨hne, hport⟩ := hmay b rest hfb
    obtain ⟨taken, rfl, hblock, hchild⟩ := getFB_eq_some hfb
    have hlive := hnamed.live_of_dir (blockAt_dir hblock)
    have htake : (taken ++ rest).take ((taken ++ rest).length - rest.length) = taken := by
      rw [List.length_append, Nat.add_sub_cancel, List.take_left]
    simp only [Layout.addWatch, hfb, htake, getVar_eq_variableAt layout hblock hchild]
    cases hvar : s.variableAt layout b rest with
    | some v =>
      refine ⟨.ready, _, rfl, h.watch ha hlive taken fun e he heb => ?_, fun hr => absurd rfl hr⟩
      subst heb
      exact ⟨Layout.watches_addDataWatch he hvar, rfl, .inl (Table.insertAbsent_ne_nil _ _)⟩
    | none =>
      obtain ⟨port, names, rfl⟩ := List.exists_cons_of_ne_nil hne
      cases hevent : s.eventPoint b port with
      | some v =>
        simp only [hevent]
        refine ⟨.ready, _, rfl, h.watch ha hlive taken fun e he heb => ?_, fun hr => absurd rfl hr⟩
        subst heb
        exact ⟨Layout.watches_addEventWatch he hevent, rfl,
          .inr (Table.insertAbsent_ne_nil _ _)⟩
      | none =>
        rw [hvar] at hport
        rcases hport with hport | hport | ⟨e, he, heb⟩
        · exact absurd hport nofun
        · rw [eventAt, List.head?_cons, Option.bind_some, hevent] at hport
          exact absurd hport nofun
        · -- the entry was there already
          have hsame : layout.findOrCreateFBMonitoringEntry b taken l = l :=
            Table.insertAbsent_of_mem h.sorted he (congrArg layout.address heb)
          simp only [hevent, hsame]
          exact ⟨.noSuchObject, l, rfl, h, fun _ => rfl⟩

theorem Consistent.removeWatch (h : Consistent layout s l) (nameList : List StringId) :
    Consistent layout s (layout.removeWatch s [] nameList l).2 ∧
      ((layout.removeWatch s [] nameList l).1 ≠ .ready →
        (layout.removeWatch s [] nameList l).2 = l) := by
  unfold Layout.removeWatch
  split
  · exact ⟨h, fun _ => rfl⟩
  rename_i b rest _
  split
  · exact ⟨h, fun _ => rfl⟩
  rename_i e hremove
  obtain ⟨e₀, hfind, hremove⟩ := Option.bind_eq_some_iff.mp hremove
  obtain ⟨he₀, hkey⟩ := (Table.find?_eq_some h.sorted).mp hfind
  obtain ⟨hwatches, hfb⟩ := Layout.watches_removeAnyWatch (h.watches e₀ he₀) hremove
  split
  · refine ⟨⟨?_, ?_, h.sorted.erase⟩, fun hr => absurd rfl hr⟩
    · exact fun e he => h.watches e ((Table.mem_erase h.sorted).mp he).1
    · exact fun e he => h.watched e ((Table.mem_erase h.sorted).mp he).1
  · rename_i hleft
    refine ⟨⟨?_, ?_, h.sorted.modify fun _ _ _ => ?_⟩, fun hr => absurd rfl hr⟩
    · intro e' he'
      rcases (Table.mem_modify h.sorted).mp he' with ⟨he', -⟩ | ⟨-, -, -, rfl⟩
      · exact h.watches e' he'
      · exact hwatches
    · intro e' he'
      rcases (Table.mem_modify h.sorted).mp he' with ⟨he', -⟩ | ⟨-, -, -, rfl⟩
      · exact h.watched e' he'
      · exact not_and_or.mp hleft
    · rw [hfb, hkey]

/-- What a consistent list refers to can be read. -/
theorem Consistent.readResourceWatches (h : Consistent layout s l) :
    s.readResourceWatches l = some (l.flatMap FBMonitoringEntry.points) := by
  unfold Network.readResourceWatches
  refine if_pos (List.all_eq_true.mpr fun point hpoint => ?_)
  obtain ⟨e, he, hpoint⟩ := List.mem_flatMap.mp hpoint
  have hlive := (h.watches e he).live
  rcases List.mem_append.mp hpoint with hpoint | hpoint
  · obtain ⟨w, hw, rfl⟩ := List.mem_map.mp hpoint
    have hv := fb_of_variableAt ((h.watches e he).data w hw)
    simp only [isThere, hv, hlive, Bool.and_self]
  · obtain ⟨w, hw, rfl⟩ := List.mem_map.mp hpoint
    have hv := fb_of_eventAt ((h.watches e he).event w hw)
    simp only [isThere, hv, hlive]

end Network

end Forte
