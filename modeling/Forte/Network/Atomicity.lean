import Forte.Lib.Runs
import Forte.Network.Naming

/-!
# Connection commands that are refused

When a `createConnection` or a `deleteConnection` is not answered with `Ready`, the network
should be what it was. It is, with three exceptions: an event connection that is created though
it exists is counted once more, an event connection that is deleted though it does not exist is
counted once less, and a source of type `ANY` has taken the type of a destination that then
turns out to be taken. `Forte.Network.connections_atomic_iff` says that there are no others.
-/

namespace Forte

namespace PortType

/-- **A variable takes the type of a value over**: it is of type `ANY`, the type is one it can
hold, and it holds another one. -/
def Takes (t value : PortType) : Prop :=
  ∃ content, t = any content ∧ value.unwrap.fitsVariant = true ∧ content ≠ value.unwrap

/-- A member under a list of names takes the type of a value over. -/
inductive TakesAt (value : PortType) : List StringId → PortType → Prop
  | here {t : PortType} (h : t.Takes value) : TakesAt value [] t
  | there {name : StringId} {names : List StringId} {members : List (StringId × PortType)}
      {m : PortType} (hm : (name, m) ∈ members) (h : TakesAt value names m) :
      TakesAt value (name :: names) (struct members)

theorem map_eq_self_iff {α : Type} {f : α → α} {l : List α} :
    l.map f = l ↔ ∀ a ∈ l, f a = a := by
  conv_lhs => rw [← List.map_id l, List.map_map, List.map_inj_left]
  rfl

theorem setValue_eq_self_iff {t value : PortType} : t.setValue value = t ↔ ¬t.Takes value := by
  cases t with
  | simple id =>
    refine iff_of_true rfl ?_
    rintro ⟨content, heq, -⟩
    exact PortType.noConfusion heq
  | struct members =>
    refine iff_of_true rfl ?_
    rintro ⟨content, heq, -⟩
    exact PortType.noConfusion heq
  | any content =>
    rw [setValue]
    split
    · rename_i hfits
      rw [any.injEq]
      constructor
      · rintro heq ⟨content', hcontent, -, hne⟩
        exact hne (any.inj hcontent ▸ heq.symm)
      · intro hnot
        by_contra hne
        exact hnot ⟨content, rfl, hfits, fun heq => hne heq.symm⟩
    · rename_i hfits
      refine iff_of_true rfl ?_
      rintro ⟨content', -, hfits', -⟩
      exact hfits hfits'

theorem setVar_eq_self_iff {t value : PortType} {names : List StringId} :
    t.setVar value names = t ↔ ¬TakesAt value names t := by
  induction names generalizing t with
  | nil =>
    rw [show t.setVar value [] = t.setValue value by rw [setVar], setValue_eq_self_iff]
    refine not_congr ⟨.here, ?_⟩
    rintro ⟨h⟩
    exact h
  | cons name names ih =>
    cases t with
    | simple id =>
      refine iff_of_true rfl ?_
      rintro ⟨⟩
    | any content =>
      refine iff_of_true rfl ?_
      rintro ⟨⟩
    | struct members =>
      rw [setVar, struct.injEq]
      constructor
      · intro heq htakes
        obtain - | @⟨_, _, _, m, hm, h⟩ := htakes
        have hset := map_eq_self_iff.mp heq (name, m) hm
        rw [if_pos rfl] at hset
        exact (ih.mp (Prod.mk.inj hset).2) h
      · intro hnot
        refine map_eq_self_iff.mpr ?_
        rintro ⟨name', m⟩ hm
        split
        · rename_i hname
          obtain rfl : name' = name := hname
          rw [ih.mpr fun h => hnot (.there hm h)]
        · rfl

/-- What can be told from a type other than `ANY` is itself. -/
theorem unwrap_of_ne_any {t : PortType} (h : t.getDataTypeID ≠ .any) : t.unwrap = t := by
  cases t with
  | simple id => rfl
  | struct members => rfl
  | any content => exact absurd rfl h

end PortType

namespace Network

/-! ### Sources of type `ANY` -/

/-- The variable that a connection writes takes the type of a value over. -/
def ValueTakes (s : Network) (t : PortType) : DataConnection → Prop
  | .base c => PortType.TakesAt t [] (s.variableType (s.variableOf c))
  | .member _ _ value names => PortType.TakesAt t names (s.variableType value)
  | .negating _ _ _ => False

/-- **A source takes the type of its destination over**: the variable that the connection
writes does, or the data output with the number of the port. -/
def SourceTakes (s : Network) (d : DataConnection) (t : PortType) : Prop :=
  t.getDataTypeID ≠ .any ∧ (s.ValueTakes t d ∨
    d.src.port < (s.spec d.src.fb).doNames.length ∧ (s.types.dout d.src.fb d.src.port).Takes t)

theorem setVariableType_eq_self_iff {s : Network} {v : BaseConnection} {t : PortType} :
    s.setVariableType v t = s ↔ t = s.variableType v := by
  constructor
  · intro h
    rw [← h]
    cases v with
    | out p => exact (setAt_self s.types.out p.fb p.port t).symm
    | inOut p => exact (setAt_self s.types.inOut p.fb p.port t).symm
  · rintro rfl
    cases v with
    | out p => simp only [setVariableType, variableType, setAt_eq_self]
    | inOut p => simp only [setVariableType, variableType, setAt_eq_self]

theorem setValueType_eq_self_iff {s : Network} {d : DataConnection} {t : PortType} :
    s.setValueType d t = s ↔ ¬s.ValueTakes t d := by
  cases d with
  | base c => exact setVariableType_eq_self_iff.trans PortType.setVar_eq_self_iff
  | member c ptr value names => exact setVariableType_eq_self_iff.trans PortType.setVar_eq_self_iff
  | negating c ptr value => exact iff_of_true rfl id

theorem configureGenericDO_eq_self_iff {s : Network} {b : FBId} {dout : PortId} {t : PortType} :
    s.configureGenericDO b dout t = s ↔
      ¬(dout < (s.spec b).doNames.length ∧ (s.types.dout b dout).Takes t.unwrap) := by
  unfold configureGenericDO
  split
  · rename_i hany
    rw [Bool.and_eq_true, decide_eq_true_eq] at hany
    rw [and_iff_right hany.1, ← PortType.setValue_eq_self_iff]
    constructor
    · intro h
      have hself := congrArg (fun s : Network => s.types.dout b dout) h
      exact (setAt_self s.types.dout b dout _).symm.trans hself
    · intro h
      simp only [h, setAt_eq_self]
  · rename_i hnot
    rw [Bool.and_eq_true, decide_eq_true_eq, not_and, decide_eq_true_eq] at hnot
    refine iff_of_true rfl ?_
    rintro ⟨hlt, content, hcontent, -⟩
    exact hnot hlt (by rw [hcontent]; rfl)

/-- The variables in connections are not those of the data outputs. -/
theorem eq_self_of_configureGenericDO {s : Network} {d : DataConnection} {t ref : PortType}
    {b : FBId} {dout : PortId} (h : (s.setValueType d t).configureGenericDO b dout ref = s) :
    s.setValueType d t = s := by
  have hout : (s.setValueType d t).types.out = s.types.out := by
    rw [← congrArg (fun s : Network => s.types.out) h, configureGenericDO]
    split <;> rfl
  have hinOut : (s.setValueType d t).types.inOut = s.types.inOut := by
    rw [← congrArg (fun s : Network => s.types.inOut) h, configureGenericDO]
    split <;> rfl
  have hvariable (v : BaseConnection) (t' : PortType)
      (hout : (s.setVariableType v t').types.out = s.types.out)
      (hinOut : (s.setVariableType v t').types.inOut = s.types.inOut) :
      s.setVariableType v t' = s := by
    refine setVariableType_eq_self_iff.mpr ?_
    cases v with
    | out p => exact (setAt_self s.types.out p.fb p.port t').symm.trans (congrFun₂ hout ..)
    | inOut p => exact (setAt_self s.types.inOut p.fb p.port t').symm.trans (congrFun₂ hinOut ..)
  cases d with
  | base c => exact hvariable _ _ hout hinOut
  | member c ptr value names => exact hvariable _ _ hout hinOut
  | negating c ptr value => rfl

theorem handleAnySrcPortConnection_eq_self_iff {s : Network} {d : DataConnection}
    {t : PortType} : s.handleAnySrcPortConnection d t = s ↔ ¬s.SourceTakes d t := by
  unfold handleAnySrcPortConnection SourceTakes
  split
  · rename_i hany
    have hunwrap := PortType.unwrap_of_ne_any hany
    rw [and_iff_right hany, not_or, ← setValueType_eq_self_iff, hunwrap]
    constructor
    · intro h
      have hself := eq_self_of_configureGenericDO h
      rw [hself] at h
      have hdout := configureGenericDO_eq_self_iff.mp h
      rw [hunwrap] at hdout
      exact ⟨hself, hdout⟩
    · rintro ⟨hself, hdout⟩
      rw [hself, configureGenericDO_eq_self_iff, hunwrap]
      exact hdout
  · rename_i hany
    exact iff_of_true rfl fun h => hany h.1

/-! ### Refused connections -/

/-- An event connection that exists already. -/
def EventExists (s : Network) (c : Connection) (dst : FBId) (names : List StringId) : Prop :=
  ∃ src name ei, c = .event src ∧ names = [name] ∧
    getPortId name (s.spec dst).eiNames = some ei ∧
    ConnectionPoint.mk dst ei ∈ s.eoDests src.fb src.port

/-- An event connection that does not exist. -/
def EventAbsent (s : Network) (c : Connection) (dst : FBId) (names : List StringId) : Prop :=
  ∃ src name ei, c = .event src ∧ names = [name] ∧
    getPortId name (s.spec dst).eiNames = some ei ∧
    ConnectionPoint.mk dst ei ∉ s.eoDests src.fb src.port

/-- A source of type `ANY` that takes the type of a destination over, though that is taken. -/
def AdaptsInVain (s : Network) (c : Connection) (dst : FBId) (names : List StringId) : Prop :=
  ∃ d t, c = .data d ∧ (s.valueType d).getDataTypeID = .any ∧ Taken s dst d names t ∧
    s.SourceTakes d t

theorem adaptSource_of_any {s : Network} {d : DataConnection} (t : PortType)
    (hany : (s.valueType d).getDataTypeID = .any) :
    s.adaptSource d t = some (s.handleAnySrcPortConnection d t) := if_pos hany

/-- A source of type `ANY` has adapted itself before the destination turns out to be taken. -/
theorem connect_taken {s : Network} {dst : FBId} {d : DataConnection} {names : List StringId}
    {t : PortType} (hany : (s.valueType d).getDataTypeID = .any) (h : Taken s dst d names t) :
    s.connect (.data d) dst names = (s.handleAnySrcPortConnection d t, .invalidState) := by
  obtain ⟨types, hadapt, hdi'⟩ := s.handleAnySrcPortConnection_eq d t
  have hadapted := (adaptSource_of_any t hany).trans (congrArg some hadapt)
  -- an in-out tries a data input of that name first, which is the last it tries if there is one
  have hdata (h : s.connectData d dst names = ({ s with types }, .invalidState)) :
      s.connect (.data d) dst names = ({ s with types }, .invalidState) := by
    cases d with
    | base c =>
      cases c with
      | out src => exact h
      | inOut src => simp only [connect, connectInOut, h]
    | member c ptr value member => exact h
    | negating c ptr value => exact h
  rw [hadapt]
  cases h with
  | @input name di hdi hsome hother =>
    refine hdata ?_
    have hconnect : Network.connectDI { s with types } dst di (.single d) =
        ({ s with types }, false) := by
      rcases connectDI_cases { s with types } dst hdi (.single d) with
        ⟨-, -, heq⟩ | ⟨hnone | hsame, -⟩
      · exact heq
      · exact absurd hnone hsome
      · exact absurd hsame hother
    simp only [connectData, hdi, if_pos, establishDataConnection, hadapted, hconnect]
    rfl
  | @whole name names di t c hdi hne hstruct hvar hconn =>
    refine hdata ?_
    simp only [connectData, hdi, if_neg hne, establishGatheringConnection, hstruct, hvar, hadapted,
      hconn]
    rfl
  | @member name names di t ms hdi hne hstruct hvar hconn hmem =>
    refine hdata ?_
    have hvar' : (types.di dst di).getVar names = some t := by rw [hdi', hvar]
    have hadd : Network.addMemberConnection { s with types } dst di ms names d =
        ({ s with types }, .invalidState) := by
      rcases addMemberConnection_cases { s with types } dst di ms d hvar' with
        ⟨-, heq⟩ | ⟨hnew, -⟩
      · exact heq
      · exact absurd hmem hnew
    simp only [connectData, hdi, if_neg hne, establishGatheringConnection, hstruct, hvar, hadapted,
      hconn, hadd]
    rfl
  | @inOut name dio src hd hdi hdio htaken =>
    subst hd
    have hestablish : s.establishInOutConnection src ⟨dst, dio⟩ =
        ({ s with types }, .invalidState) := by
      simp only [establishInOutConnection, hadapted]
      split
      · rfl
      rename_i hmem
      obtain ⟨hsome, hother⟩ := htaken.resolve_left hmem
      have hconnect : Network.connectDIO { s with types } ⟨dst, dio⟩ src =
          ({ s with types }, false) := by
        rcases connectDIO_cases { s with types } ⟨dst, dio⟩ hdio src with
          ⟨-, -, heq⟩ | ⟨hnone | hsame, -⟩
        · exact heq
        · exact absurd hnone hsome
        · exact absurd hsame hother
      rw [hconnect]
    simp only [connect, connectInOut, connectData, hdi, hdio, hestablish]

/-- An outcome is **all or nothing**: the response is `Ready`, or the network is as it was. -/
def Atomic (s : Network) (o : Outcome) : Prop := o.2 ≠ .ready → o.1 = s

theorem addInputEventConnection_ne (s : Network) (b : FBId) (ei : PortId) :
    s.addInputEventConnection b ei ≠ s := by
  intro h
  have hcount := congrArg (fun s : Network => s.connRefCount b) h
  have hup : (s.addInputEventConnection b ei).connRefCount b =
      s.connRefCount b + [b].count b := countUp_apply ..
  rw [List.count_singleton_self] at hup
  omega

theorem removeInputEventConnection_ne (s : Network) (b : FBId) (ei : PortId) :
    s.removeInputEventConnection b ei ≠ s := by
  intro h
  have hcount := congrArg (fun s : Network => s.connRefCount b) h
  have hdown : (s.removeInputEventConnection b ei).connRefCount b =
      if s.connRefCount b = 0 then 2 ^ 64 - 1 else s.connRefCount b - 1 := if_pos rfl
  simp only [hdown] at hcount
  split at hcount
  · omega
  · omega

theorem connect_atomic_iff {s : Network} {c : Connection} {dst : FBId} {names : List StringId} :
    s.Atomic (s.connect c dst names) ↔
      ¬s.EventExists c dst names ∧ ¬s.AdaptsInVain c dst names := by
  constructor
  · intro h
    constructor
    · rintro ⟨src, name, ei, rfl, rfl, hei, hmem⟩
      have heq : s.connect (.event src) dst [name] =
          (s.addInputEventConnection dst ei, .invalidState) := by
        simp only [connect, connectEvent, hei, addDestination, if_pos hmem]
      rw [heq] at h
      exact s.addInputEventConnection_ne dst ei (h (by rintro ⟨⟩))
    · rintro ⟨d, t, rfl, hany, htaken, htakes⟩
      rw [connect_taken hany htaken] at h
      exact handleAnySrcPortConnection_eq_self_iff.mp (h (by rintro ⟨⟩)) htakes
  · rintro ⟨hexists, hvain⟩ hr
    have hout := connect_connects s c dst names
    generalize s.connect c dst names = o at hout hr
    cases hout with
    | refused => rfl
    | @adapted d names t hany htaken =>
      exact handleAnySrcPortConnection_eq_self_iff.mpr fun htakes =>
        hvain ⟨d, t, rfl, hany, htaken, htakes⟩
    | eventAgain hei hmem => exact absurd ⟨_, _, _, rfl, rfl, hei, hmem⟩ hexists
    | event | data | member | inOut | adapter => exact absurd rfl hr

theorem disconnect_atomic_iff {s : Network} {c : Connection} {dst : FBId}
    {names : List StringId} :
    s.Atomic (s.disconnect c dst names) ↔ ¬s.EventAbsent c dst names := by
  constructor
  · rintro h ⟨src, name, ei, rfl, rfl, hei, hmem⟩
    have heq : s.disconnect (.event src) dst [name] =
        (s.removeInputEventConnection dst ei, .invalidState) := by
      simp only [disconnect, disconnectEvent, hei, removeDestination, if_neg hmem]
    rw [heq] at h
    exact s.removeInputEventConnection_ne dst ei (h (by rintro ⟨⟩))
  · intro habsent hr
    have hout := disconnect_disconnects s c dst names
    generalize s.disconnect c dst names = o at hout hr
    cases hout with
    | refused => rfl
    | eventAbsent hei hmem => exact absurd ⟨_, _, _, rfl, rfl, hei, hmem⟩ habsent
    | event | data | member | inOut | adapter => exact absurd rfl hr

/-! ### The commands -/

/-- **What a `createConnection` must not be asked for**, with the connection of the source and
the port at the destination: an event connection that exists, or a data connection whose source
takes a type over from a destination that is taken. -/
def Creatable (s : Network) (src dst : List StringId) : Prop :=
  ∀ c b ports, s.getOutputConnection [] src = some c → s.getDestination dst = some (b, ports) →
    ¬s.EventExists c b ports ∧ ¬s.AdaptsInVain c b ports

/-- **What a `deleteConnection` must not be asked for**: an event connection that does not
exist. -/
def Deletable (s : Network) (src dst : List StringId) : Prop :=
  ∀ c b ports, s.getInputConnection [] dst = none → s.getOutputConnection [] src = some c →
    s.getDestination dst = some (b, ports) → ¬s.EventAbsent c b ports

theorem src_ne_nil {s : Network} {src : List StringId} {c : Connection}
    (h : s.getOutputConnection [] src = some c) : src ≠ [] := by
  rintro rfl
  exact absurd h nofun

/-- A destination with a port has names. -/
theorem dst_ne_nil {s : Network} {dst ports : List StringId} {b : FBId}
    (h : s.getDestination dst = some (b, ports)) (hports : ports ≠ []) : dst ≠ [] := by
  rintro rfl
  obtain ⟨⟨b', rest⟩, hfound, heq⟩ := Option.map_eq_some_iff.mp h
  obtain ⟨b'', -, hrest⟩ := Option.map_eq_some_iff.mp hfound
  obtain ⟨-, rfl⟩ := Prod.mk.inj hrest
  exact hports (Prod.mk.inj heq).2.symm

theorem createConnection_atomic_iff {s : Network} {src dst : List StringId} :
    s.Atomic (s.createConnection src dst) ↔ s.Creatable src dst := by
  constructor
  · intro h c b ports hc hdst
    by_cases hports : ports = []
    · subst hports
      refine ⟨?_, ?_⟩
      · rintro ⟨src', name, ei, -, hnames, -⟩
        exact absurd hnames nofun
      · rintro ⟨d, t, -, -, htaken, -⟩
        cases htaken
    · refine connect_atomic_iff.mp fun hr => ?_
      have hne : ¬(src = [] ∨ dst = []) := by
        rintro (hsrc | hdst')
        · exact src_ne_nil hc hsrc
        · exact dst_ne_nil hdst hports hdst'
      have heq : s.createConnection src dst = s.connect c b ports := by
        unfold createConnection
        rw [if_neg hne]
        simp only [hc, hdst]
      rw [heq] at h
      exact h hr
  · intro h hr
    rcases s.createConnection_cases src dst with
      ⟨r, -, heq⟩ | ⟨c, b, ports, s', r, hc, hdst, hconnect, heq⟩
    · rw [heq]
    · have hatomic := connect_atomic_iff.mpr (h c b ports hc hdst)
      rw [hconnect] at hatomic
      rw [heq] at hr ⊢
      split at hr
      · exact absurd rfl hr
      · rename_i hne
        rw [if_neg hne]
        exact hatomic hne

/-- The connection at an input is no event connection. -/
theorem getInputConnection_ne_event {s : Network} {p names : List StringId} {c : Connection}
    (h : s.getInputConnection p names = some c) (src : ConnectionPoint) : c ≠ .event src := by
  induction names generalizing p with
  | nil => cases h
  | cons name names ih =>
    unfold getInputConnection at h
    split at h
    · rename_i found hfound
      obtain ⟨b, -, hport⟩ := Option.bind_eq_some_iff.mp hfound
      rw [h] at hport
      rcases portInput_cases hport with
        ⟨-, -, d, -, -, -, rfl⟩ | ⟨-, src', -, -, -, rfl⟩ | ⟨-, src', -, -, -, rfl⟩
      · exact Connection.noConfusion
      · exact Connection.noConfusion
      · exact Connection.noConfusion
    · split at h
      · exact ih h
      · cases h

theorem deleteConnection_atomic_iff {s : Network} {src dst : List StringId} :
    s.Atomic (s.deleteConnection src dst) ↔ s.Deletable src dst := by
  constructor
  · intro h c b ports hin hout hdst
    by_cases hports : ports = []
    · subst hports
      rintro ⟨src', name, ei, -, hnames, -⟩
      exact absurd hnames nofun
    · have hne : ¬(src = [] ∨ dst = []) := by
        rintro (hsrc | hdst')
        · exact src_ne_nil hout hsrc
        · exact dst_ne_nil hdst hports hdst'
      have heq : s.deleteConnection src dst = s.disconnect c b ports := by
        unfold deleteConnection
        rw [if_neg hne]
        simp only [hdst, hin, hout]
      rw [heq] at h
      exact disconnect_atomic_iff.mp h
  · intro h
    rcases s.deleteConnection_cases src dst with ⟨r, -, heq⟩ | ⟨c, b, ports, hdst, hc, heq⟩
    · rw [heq]
      exact fun _ => rfl
    · rw [heq, disconnect_atomic_iff]
      rcases hc with hin | ⟨hin, hout⟩
      · rintro ⟨src', -, -, rfl, -⟩
        exact getInputConnection_ne_event hin src' rfl
      · exact h c b ports hin hout hdst

end Network

/-! ### Runs -/

/-- A step of a resource: a command, or execution, which may change the execution states of the
function blocks in any way. -/
inductive NetworkStep
  | command (cmd : NetworkCommand)
  | execute (state : FBId → FBState)

namespace Network

/-- The network behind a step. -/
def step (lib : TypeLibrary) (s : Network) : NetworkStep → Network
  | .command cmd => (s.execute lib cmd).1
  | .execute state => { s with state }

/-- A step that is a connection command is all or nothing. -/
def ConnectsAtomically (lib : TypeLibrary) (s : Network) : NetworkStep → Prop
  | .command (.createConnection src dst) =>
    s.Atomic (s.execute lib (.createConnection src dst))
  | .command (.deleteConnection src dst) =>
    s.Atomic (s.execute lib (.deleteConnection src dst))
  | _ => True

/-- A step that is a connection command asks for nothing that goes wrong. -/
def ConnectsHarmlessly (s : Network) : NetworkStep → Prop
  | .command (.createConnection src dst) => s.Creatable src dst
  | .command (.deleteConnection src dst) => s.Deletable src dst
  | _ => True

/-- A source and a sink are created, and an event connection between them twice. -/
def connectingTwice : List NetworkStep :=
  [.command (.createFB ["A"] "SOURCE" ""), .command (.createFB ["B"] "SINK" ""),
    .command (.createConnection ["A", "CNF"] ["B", "REQ"]),
    .command (.createConnection ["A", "CNF"] ["B", "REQ"])]

end Network

end Forte
