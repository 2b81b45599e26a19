import Mathlib.Logic.Relation
import Forte.Network.Commands

/-!
# What connecting and disconnecting can do

The outcomes of `connect` and `disconnect`, each with what it leaves of the network:
`Forte.Network.Connects` and `Forte.Network.Disconnects` have one constructor for each, and
everything else about connection commands is shown by cases on them. The types of the
variables change with almost every connection, in ways that only a refused connection is
asked about, and are left open in the other cases.

The relations are where the flaws of the source can be read off: an event connection that is
refused because it exists already is counted all the same (`Connects.eventAgain`), so is the
deletion of one that does not exist (`Disconnects.eventAbsent`), and a data connection from
a source of type `ANY` may be refused after the source has taken the type of the destination
(`Connects.adapted`).
-/

namespace Forte

namespace Network

/-! ### Types -/

theorem setVariableType_eq (s : Network) (v : BaseConnection) (t : PortType) :
    ∃ types, s.setVariableType v t = { s with types } ∧ types.di = s.types.di := by
  cases v <;> exact ⟨_, rfl, rfl⟩

theorem setValueType_eq (s : Network) (c : DataConnection) (t : PortType) :
    ∃ types, s.setValueType c t = { s with types } ∧ types.di = s.types.di := by
  cases c with
  | base c => exact setVariableType_eq ..
  | member c ptr value names => exact setVariableType_eq ..
  | negating c ptr value => exact ⟨s.types, rfl, rfl⟩

theorem configureGenericDI_eq (s : Network) (b : FBId) (di : PortId) (ref : PortType) :
    ∃ types, s.configureGenericDI b di ref = { s with types } := by
  unfold configureGenericDI
  split
  · exact ⟨_, rfl⟩
  · exact ⟨s.types, rfl⟩

theorem configureGenericDO_eq (s : Network) (b : FBId) (dout : PortId) (ref : PortType) :
    ∃ types, s.configureGenericDO b dout ref = { s with types } ∧ types.di = s.types.di := by
  unfold configureGenericDO
  split
  · exact ⟨_, rfl, rfl⟩
  · exact ⟨s.types, rfl, rfl⟩

theorem configureGenericDIO_eq (s : Network) (b : FBId) (dio : PortId) (ref : PortType) :
    ∃ types, s.configureGenericDio b dio ref = { s with types } := by
  unfold configureGenericDio
  split
  · exact ⟨_, rfl⟩
  · exact ⟨s.types, rfl⟩

/-- A source of type `ANY` changes types at its own end only. -/
theorem handleAnySrcPortConnection_eq (s : Network) (c : DataConnection) (dst : PortType) :
    ∃ types, s.handleAnySrcPortConnection c dst = { s with types } ∧
      types.di = s.types.di := by
  unfold handleAnySrcPortConnection
  split
  · obtain ⟨types, h, hdi⟩ := s.setValueType_eq c dst.unwrap
    rw [h]
    obtain ⟨types', h', hdi'⟩ :=
      configureGenericDO_eq { s with types } c.src.fb c.src.port dst
    exact ⟨types', h', hdi'.trans hdi⟩
  · exact ⟨s.types, rfl, rfl⟩

/-- A source that can be connected has not changed, or it is of type `ANY`. -/
theorem adaptSource_cases {s s' : Network} {c : DataConnection} {dst : PortType}
    (h : s.adaptSource c dst = some s') :
    s' = s ∨ (s.valueType c).getDataTypeID = .any ∧ s' = s.handleAnySrcPortConnection c dst := by
  unfold adaptSource at h
  split at h
  · rename_i hany
    exact .inr ⟨hany, (Option.some.inj h).symm⟩
  · split at h
    · exact .inl (Option.some.inj h).symm
    · exact absurd h nofun

theorem adaptSource_eq {s s' : Network} {c : DataConnection} {dst : PortType}
    (h : s.adaptSource c dst = some s') :
    ∃ types, s' = { s with types } ∧ types.di = s.types.di := by
  rcases adaptSource_cases h with rfl | ⟨-, rfl⟩
  · exact ⟨_, rfl, rfl⟩
  · exact handleAnySrcPortConnection_eq ..

/-! ### The inputs -/

/-- The two answers of `connectDI`. -/
theorem connectDI_cases (s : Network) (b : FBId) {di : PortId} {name : StringId}
    (hdi : getPortId name (s.spec b).diNames = some di) (c : InputConnection) :
    (s.diConn b di ≠ none ∧ s.diConn b di ≠ some c ∧ s.connectDI b di c = (s, false)) ∨
    (s.diConn b di = none ∨ s.diConn b di = some c) ∧ ∃ types, s.connectDI b di c =
      ({ s with diConn := setAt s.diConn b di (some c), types }, true) := by
  have hlt : ¬(s.spec b).diNames.length ≤ di :=
    Nat.not_le.mpr (List.idxOf?_eq_some_iff.mp hdi).1
  unfold connectDI
  rw [if_neg hlt]
  split
  · rename_i hocc
    rw [Bool.and_eq_true, decide_eq_true_eq] at hocc
    refine .inl ⟨?_, hocc.2, rfl⟩
    intro hnone
    rw [hnone] at hocc
    exact absurd hocc.1 (by decide)
  · rename_i hfree
    rw [Bool.and_eq_true, decide_eq_true_eq, not_and_or, not_not] at hfree
    refine .inr ⟨?_, ?_⟩
    · rcases hfree with hnone | hsame
      · exact .inl (Option.not_isSome_iff_eq_none.mp hnone)
      · exact .inr hsame
    · obtain ⟨types, h⟩ := configureGenericDI_eq
        { s with diConn := setAt s.diConn b di (some c) } b di (s.inputValueType b di c)
      exact ⟨types, congrArg (·, true) h⟩

/-- An in-out that is reached from another along the connections between in-outs. -/
def Below (s : Network) : ConnectionPoint → ConnectionPoint → Prop :=
  Relation.ReflTransGen fun x y => y ∈ s.dioDests x.fb x.port

/-- **What `setValue` leaves**: below the in-out where it began, in-outs point at the new
value; and an in-out that had no connection may have got one that exists already. -/
structure Spread (s : Network) (pt owner : ConnectionPoint) (s' : Network) : Prop where
  shape : ∃ dioInConn dioValue types, s' = { s with dioInConn, dioValue, types }
  inConn : ∀ b p, s'.dioInConn b p = s.dioInConn b p ∨ s.dioInConn b p = none ∧
    ∃ q : ConnectionPoint, ⟨b, p⟩ ∈ s.dioDests q.fb q.port ∧ s'.dioInConn b p = some q
  value : ∀ b p, s'.dioValue b p = s.dioValue b p ∨
    s'.dioValue b p = owner ∧ s.Below pt ⟨b, p⟩

theorem Spread.refl (s : Network) (pt owner : ConnectionPoint) : s.Spread pt owner s :=
  ⟨⟨_, _, _, rfl⟩, fun _ _ => .inl rfl, fun _ _ => .inl rfl⟩

/-- A value that spreads from an in-out, and then from one below it. -/
theorem Spread.trans {s s₁ s₂ : Network} {pt pt' owner : ConnectionPoint}
    (h₁ : s.Spread pt owner s₁) (hbelow : s.Below pt pt') (h₂ : s₁.Spread pt' owner s₂) :
    s.Spread pt owner s₂ := by
  obtain ⟨⟨f₁, g₁, t₁, rfl⟩, hin₁, hval₁⟩ := h₁
  obtain ⟨⟨f₂, g₂, t₂, rfl⟩, hin₂, hval₂⟩ := h₂
  refine ⟨⟨f₂, g₂, t₂, rfl⟩, fun b p => ?_, fun b p => ?_⟩
  · rcases hin₂ b p with h₂ | ⟨hnone, h₂⟩
    · rcases hin₁ b p with h₁ | ⟨hnone, q, hq, h₁⟩
      · exact .inl (h₂.trans h₁)
      · exact .inr ⟨hnone, q, hq, h₂.trans h₁⟩
    · rcases hin₁ b p with h₁ | ⟨-, q, -, h₁⟩
      · exact .inr ⟨h₁.symm.trans hnone, h₂⟩
      · exact absurd (h₁.symm.trans hnone) nofun
  · rcases hval₂ b p with h₂ | ⟨h₂, hlow⟩
    · rcases hval₁ b p with h₁ | ⟨h₁, hlow⟩
      · exact .inl (h₂.trans h₁)
      · exact .inr ⟨h₂.trans h₁, hlow⟩
    · exact .inr ⟨h₂, hbelow.trans hlow⟩

theorem Spread.configureGenericDio {s s' : Network} {pt owner : ConnectionPoint}
    (h : s.Spread pt owner s') (b : FBId) (dio : PortId) (ref : PortType) :
    s.Spread pt owner (s'.configureGenericDio b dio ref) := by
  obtain ⟨⟨f, g, t, rfl⟩, hin, hval⟩ := h
  obtain ⟨types, htypes⟩ := configureGenericDIO_eq
    { s with dioInConn := f, dioValue := g, types := t } b dio ref
  rw [htypes]
  exact ⟨⟨f, g, types, rfl⟩, hin, hval⟩

/-- A value that is told to one of the destinations of an in-out spreads below that in-out. -/
theorem connectDIOWith_spread {setValue : Network → ConnectionPoint → ConnectionPoint → Network}
    (hset : ∀ (s : Network) pt owner, s.Spread pt owner (setValue s pt owner)) (s : Network)
    {pt d : ConnectionPoint} (hd : d ∈ s.dioDests pt.fb pt.port) :
    s.Spread pt (s.dioValue pt.fb pt.port) (connectDIOWith setValue s d pt).1 := by
  unfold connectDIOWith
  split
  · exact Spread.refl ..
  split
  · exact Spread.refl ..
  rename_i hfree
  rw [Bool.and_eq_true, decide_eq_true_eq, not_and_or, not_not] at hfree
  have hin : s.Spread pt (s.dioValue pt.fb pt.port)
      { s with dioInConn := setAt s.dioInConn d.fb d.port (some pt) } := by
    refine ⟨⟨_, _, _, rfl⟩, fun b p => ?_, fun _ _ => .inl rfl⟩
    simp only [setAt_apply]
    split
    · rename_i hbp
      obtain ⟨rfl, rfl⟩ := hbp
      rcases hfree with hnone | hsame
      · exact .inr ⟨Option.not_isSome_iff_eq_none.mp hnone, pt, hd, rfl⟩
      · exact .inl hsame.symm
    · exact .inl rfl
  exact (hin.trans (.single hd) (hset _ d _)).configureGenericDio ..

/-- All destinations of an in-out are told its value. -/
theorem foldl_spread (tell : Network → ConnectionPoint → Network) (pt : ConnectionPoint)
    (htell : ∀ (s : Network) d, d ∈ s.dioDests pt.fb pt.port →
      s.Spread pt (s.dioValue pt.fb pt.port) (tell s d))
    (ds : List ConnectionPoint) (s : Network) (hds : ∀ d ∈ ds, d ∈ s.dioDests pt.fb pt.port) :
    s.Spread pt (s.dioValue pt.fb pt.port) (ds.foldl tell s) := by
  induction ds generalizing s with
  | nil => exact Spread.refl ..
  | cons d ds ih =>
    have hd := htell s d (hds d List.mem_cons_self)
    -- the in-out itself keeps its value, whether or not it is among those below it
    have hown : (tell s d).dioValue pt.fb pt.port = s.dioValue pt.fb pt.port :=
      (hd.value pt.fb pt.port).elim id (·.1)
    have hrest := ih (tell s d) fun d' hd' => by
      obtain ⟨f, g, t, hshape⟩ := hd.shape
      rw [hshape]
      exact hds d' (List.mem_cons_of_mem d hd')
    rw [hown] at hrest
    exact hd.trans .refl hrest

theorem setValue_spread (n : ℕ) (s : Network) (pt owner : ConnectionPoint) :
    s.Spread pt owner (setValue n s pt owner) := by
  induction n generalizing s pt owner with
  | zero => exact Spread.refl s pt owner
  | succ n ih =>
    have hself : s.Spread pt owner
        { s with dioValue := setAt s.dioValue pt.fb pt.port owner } := by
      refine ⟨⟨_, _, _, rfl⟩, fun _ _ => .inl rfl, fun b p => ?_⟩
      simp only [setAt_apply]
      split
      · rename_i hbp
        obtain ⟨rfl, rfl⟩ := hbp
        exact .inr ⟨rfl, .refl⟩
      · exact .inl rfl
    have hrest := foldl_spread (fun s d => (connectDIOWith (setValue n) s d pt).1) pt
      (fun s d hd => connectDIOWith_spread ih s hd) (s.dioDests pt.fb pt.port)
      { s with dioValue := setAt s.dioValue pt.fb pt.port owner } fun d hd => hd
    simp only [setAt_self] at hrest
    exact hself.trans .refl hrest

/-- The two answers of `connectDIO`. -/
theorem connectDIO_cases (s : Network) (dst : ConnectionPoint) {name : StringId}
    (hdio : getPortId name (s.spec dst.fb).dioNames = some dst.port) (src : ConnectionPoint) :
    (s.dioInConn dst.fb dst.port ≠ none ∧ s.dioInConn dst.fb dst.port ≠ some src ∧
      s.connectDIO dst src = (s, false)) ∨
    (s.dioInConn dst.fb dst.port = none ∨ s.dioInConn dst.fb dst.port = some src) ∧
      ∃ s', s.connectDIO dst src = (s', true) ∧
        { s with dioInConn := setAt s.dioInConn dst.fb dst.port (some src) }.Spread dst
          (s.dioValue src.fb src.port) s' := by
  have hlt : ¬(s.spec dst.fb).dioNames.length ≤ dst.port :=
    Nat.not_le.mpr (List.idxOf?_eq_some_iff.mp hdio).1
  unfold connectDIO connectDIOWith
  rw [if_neg hlt]
  split
  · rename_i hocc
    rw [Bool.and_eq_true, decide_eq_true_eq] at hocc
    refine .inl ⟨?_, hocc.2, rfl⟩
    intro hnone
    rw [hnone] at hocc
    exact absurd hocc.1 (by decide)
  · rename_i hfree
    rw [Bool.and_eq_true, decide_eq_true_eq, not_and_or, not_not] at hfree
    refine .inr ⟨hfree.imp Option.not_isSome_iff_eq_none.mp id, _, rfl, ?_⟩
    exact (setValue_spread _ _ _ _).configureGenericDio ..

/-! ### Connecting -/

/-- **The destination of a data connection is there, but taken**, and `t` is its type: a
data input with another connection, a member that is gathered already or whose struct is
connected as a whole, an in-out with a connection. -/
inductive Taken (s : Network) (dst : FBId) (d : DataConnection) : List StringId → PortType → Prop
  | input {name : StringId} {di : PortId}
      (hdi : getPortId name (s.spec dst).diNames = some di)
      (hsome : s.diConn dst di ≠ none) (hother : s.diConn dst di ≠ some (.single d)) :
      Taken s dst d [name] (s.types.di dst di)
  | whole {name : StringId} {names : List StringId} {di : PortId} {t : PortType}
      {c : DataConnection} (hdi : getPortId name (s.spec dst).diNames = some di)
      (hne : names ≠ []) (hstruct : (s.types.di dst di).getDataTypeID = .struct)
      (hvar : (s.types.di dst di).getVar names = some t)
      (hconn : s.diConn dst di = some (.single c)) : Taken s dst d (name :: names) t
  | member {name : StringId} {names : List StringId} {di : PortId} {t : PortType}
      {ms : List (List StringId × DataConnection)}
      (hdi : getPortId name (s.spec dst).diNames = some di)
      (hne : names ≠ []) (hstruct : (s.types.di dst di).getDataTypeID = .struct)
      (hvar : (s.types.di dst di).getVar names = some t)
      (hconn : s.diConn dst di = some (.gathering ms)) (hmem : names ∈ ms.map (·.1)) :
      Taken s dst d (name :: names) t
  | inOut {name : StringId} {dio : PortId} {src : ConnectionPoint} (hd : d = .base (.inOut src))
      (hdi : getPortId name (s.spec dst).diNames = none)
      (hdio : getPortId name (s.spec dst).dioNames = some dio)
      (htaken : ConnectionPoint.mk dst dio ∈ s.dioDests src.fb src.port ∨
        s.dioInConn dst dio ≠ none ∧ s.dioInConn dst dio ≠ some src) :
      Taken s dst d [name] (s.types.dio dst dio)

/-- **The outcomes of `connect`.** -/
inductive Connects (s : Network) (dst : FBId) : Connection → List StringId → Outcome → Prop
  /-- Nothing has happened. -/
  | refused {c : Connection} {names : List StringId} {r : EMGMResponse} (hr : r ≠ .ready) :
      Connects s dst c names (s, r)
  /-- The source has taken the type of a destination that turned out to be taken. -/
  | adapted {d : DataConnection} {names : List StringId} {t : PortType}
      (hany : (s.valueType d).getDataTypeID = .any) (htaken : Taken s dst d names t) :
      Connects s dst (.data d) names (s.handleAnySrcPortConnection d t, .invalidState)
  /-- The event connection exists, and is counted once more. -/
  | eventAgain {src : ConnectionPoint} {name : StringId} {ei : PortId}
      (hei : getPortId name (s.spec dst).eiNames = some ei)
      (hmem : ConnectionPoint.mk dst ei ∈ s.eoDests src.fb src.port) :
      Connects s dst (.event src) [name] (s.addInputEventConnection dst ei, .invalidState)
  | event {src : ConnectionPoint} {name : StringId} {ei : PortId}
      (hei : getPortId name (s.spec dst).eiNames = some ei)
      (hmem : ConnectionPoint.mk dst ei ∉ s.eoDests src.fb src.port) :
      Connects s dst (.event src) [name]
        ({ s with
            eoDests := setAt s.eoDests src.fb src.port
              (s.eoDests src.fb src.port ++ [ConnectionPoint.mk dst ei])
            }.addInputEventConnection dst ei,
          .ready)
  /-- A data connection into a data input that has none, or that has this one. -/
  | data {d : DataConnection} {name : StringId} {di : PortId} {types : VariableTypes}
      (hdi : getPortId name (s.spec dst).diNames = some di)
      (hfree : s.diConn dst di = none ∨ s.diConn dst di = some (.single d)) :
      Connects s dst (.data d) [name]
        ({ s with diConn := setAt s.diConn dst di (some (.single d)), types }.incConnRefCount
          d.src.fb, .ready)
  /-- A data connection into a member. -/
  | member {d : DataConnection} {name : StringId} {names : List StringId} {di : PortId}
      {ms : List (List StringId × DataConnection)} {types : VariableTypes}
      (hdi : getPortId name (s.spec dst).diNames = some di) (hne : names ≠ [])
      (hms : s.diConn dst di = none ∧ ms = [] ∨ s.diConn dst di = some (.gathering ms))
      (hnew : names ∉ ms.map (·.1)) :
      Connects s dst (.data d) (name :: names)
        ({ s with
            diConn := setAt s.diConn dst di (some (.gathering (ms ++ [(names, d)]))),
            types }.incConnRefCount d.src.fb, .ready)
  /-- A connection between in-outs; the source's value spreads below the destination. -/
  | inOut {src : ConnectionPoint} {name : StringId} {dio : PortId} {types : VariableTypes}
      {s' : Network} (hdio : getPortId name (s.spec dst).dioNames = some dio)
      (hmem : ConnectionPoint.mk dst dio ∉ s.dioDests src.fb src.port)
      (hfree : s.dioInConn dst dio = none ∨ s.dioInConn dst dio = some src)
      (hspread : { s with
          dioInConn := setAt s.dioInConn dst dio (some src), types }.Spread ⟨dst, dio⟩
        (s.dioValue src.fb src.port) s') :
      Connects s dst (.data (.base (.inOut src))) [name]
        (({ s' with
            dioDests := setAt s.dioDests src.fb src.port
              (s.dioDests src.fb src.port ++ [ConnectionPoint.mk dst dio]) }.incConnRefCount
            dst).incConnRefCount src.fb, .ready)
  | adapter {src : ConnectionPoint} {name : StringId} {socket : PortId}
      (hsocket : getPortId name (s.spec dst).socketNames = some socket)
      (hplug : s.plugSocket src.fb src.port = none) (hfree : s.socketConn dst socket = none) :
      Connects s dst (.adapter src) [name]
        (({ s with
            socketConn := setAt s.socketConn dst socket (some src)
            plugSocket := setAt s.plugSocket src.fb src.port (some ⟨dst, socket⟩)
            }.incConnRefCount dst).incConnRefCount src.fb, .ready)

theorem connectEvent_connects (s : Network) (src : ConnectionPoint) (dst : FBId)
    (names : List StringId) :
    s.Connects dst (.event src) names (s.connectEvent src dst names) := by
  unfold connectEvent
  split
  · rename_i name
    split
    · exact .refused nofun
    · rename_i ei hei
      by_cases hmem : ConnectionPoint.mk dst ei ∈ s.eoDests src.fb src.port
      · simp only [addDestination, if_pos hmem]
        exact .eventAgain hei hmem
      · simp only [addDestination, if_neg hmem]
        exact .event hei hmem
  · exact .refused nofun

theorem connectAdapter_connects (s : Network) (src : ConnectionPoint) (dst : FBId)
    (names : List StringId) :
    s.Connects dst (.adapter src) names (s.connectAdapter src dst names) := by
  unfold connectAdapter
  split
  · exact .refused (by rintro ⟨⟩)
  rename_i hplug
  split
  · split
    · exact .refused (by rintro ⟨⟩)
    · rename_i socket hsocket
      split
      · exact .refused (by rintro ⟨⟩)
      rename_i hfree
      split
      · exact .refused (by rintro ⟨⟩)
      · exact .adapter hsocket (Option.not_isSome_iff_eq_none.mp hplug)
          (Option.not_isSome_iff_eq_none.mp hfree)
  · exact .refused (by rintro ⟨⟩)

/-- What the two ways of establishing a connection to a data input have in common. -/
theorem adaptSource_connects {s s₁ : Network} {dst : FBId} {d : DataConnection}
    {names : List StringId} {t : PortType} (hadapt : s.adaptSource d t = some s₁)
    (htaken : Taken s dst d names t) :
    s.Connects dst (.data d) names (s₁, .invalidState) := by
  rcases adaptSource_cases hadapt with rfl | ⟨hany, rfl⟩
  · exact .refused nofun
  · exact .adapted hany htaken

theorem any_fst_eq_iff {ms : List (List StringId × DataConnection)} {names : List StringId} :
    ms.any (·.1 = names) = true ↔ names ∈ ms.map (·.1) := by
  simp only [List.any_eq_true, decide_eq_true_eq, List.mem_map]

/-- The two answers of `addMemberConnection` for a member that exists. -/
theorem addMemberConnection_cases (s : Network) (dst : FBId) (di : PortId)
    (ms : List (List StringId × DataConnection)) {names : List StringId} (c : DataConnection)
    {t : PortType} (hvar : (s.types.di dst di).getVar names = some t) :
    (names ∈ ms.map (·.1) ∧ s.addMemberConnection dst di ms names c = (s, .invalidState)) ∨
    names ∉ ms.map (·.1) ∧ s.addMemberConnection dst di ms names c =
      ({ s with diConn := setAt s.diConn dst di (some (.gathering (ms ++ [(names, c)]))) },
        .ready) := by
  simp only [addMemberConnection, hvar, any_fst_eq_iff]
  by_cases hmem : names ∈ ms.map (·.1)
  · rw [if_pos hmem]
    exact .inl ⟨hmem, rfl⟩
  · rw [if_neg hmem]
    exact .inr ⟨hmem, rfl⟩

/-- A gathering connection does not change the struct it is made for. -/
theorem connectDI_gathering (s : Network) {dst : FBId} {di : PortId} {name : StringId}
    (hdi : getPortId name (s.spec dst).diNames = some di) (hnone : s.diConn dst di = none)
    (hstruct : (s.types.di dst di).getDataTypeID = .struct) :
    s.connectDI dst di (.gathering []) =
      ({ s with diConn := setAt s.diConn dst di (some (.gathering [])) }, true) := by
  have hlt : ¬(s.spec dst).diNames.length ≤ di :=
    Nat.not_le.mpr (List.idxOf?_eq_some_iff.mp hdi).1
  have hany : (s.types.di dst di).getDataTypeID ≠ .any := by
    rw [hstruct]
    exact nofun
  unfold connectDI
  rw [if_neg hlt, if_neg (by rw [hnone]; exact nofun)]
  simp only [configureGenericDI, if_neg hany]

theorem connectData_connects (s : Network) (d : DataConnection) (dst : FBId)
    (names : List StringId) :
    s.Connects dst (.data d) names (s.connectData d dst names) := by
  unfold connectData
  split
  · exact .refused (by rintro ⟨⟩)
  rename_i name names
  split
  · exact .refused (by rintro ⟨⟩)
  rename_i di hdi
  -- a whole input, or a member of one that gathers
  by_cases hnames : names = []
  · subst hnames
    simp only [if_pos, establishDataConnection]
    cases hadapt : s.adaptSource d (s.types.di dst di) with
    | none => exact .refused (by rintro ⟨⟩)
    | some s₁ =>
      obtain ⟨types, htypes, -⟩ := adaptSource_eq hadapt
      have hdi₁ : getPortId name (s₁.spec dst).diNames = some di := by rw [htypes]; exact hdi
      rcases connectDI_cases s₁ dst hdi₁ (.single d) with
        ⟨hsome, hother, heq⟩ | ⟨hfree, types', heq⟩
      · simp only [heq]
        rw [htypes] at hsome hother
        exact adaptSource_connects hadapt (.input hdi hsome hother)
      · simp only [heq, if_pos]
        subst htypes
        exact .data hdi hfree
  · simp only [if_neg hnames, establishGatheringConnection]
    split
    · exact .refused (by rintro ⟨⟩)
    rename_i hstruct
    rw [not_not] at hstruct
    split
    · exact .refused (by rintro ⟨⟩)
    rename_i member hvar
    cases hadapt : s.adaptSource d member with
    | none => exact .refused (by rintro ⟨⟩)
    | some s₁ =>
      obtain ⟨types, rfl, htypes⟩ := adaptSource_eq hadapt
      have htype : types.di dst di = s.types.di dst di := congrFun₂ htypes ..
      have hvar₁ : (types.di dst di).getVar names = some member := by rw [htype, hvar]
      simp only
      split
      · rename_i hnone
        have hstruct₁ : (types.di dst di).getDataTypeID = .struct := by rw [htype, hstruct]
        simp only [connectDI_gathering { s with types } hdi hnone hstruct₁]
        rcases addMemberConnection_cases
            { s with diConn := setAt s.diConn dst di (some (.gathering [])), types } dst di [] d
            hvar₁ with ⟨hmem, -⟩ | ⟨hnew, heq⟩
        · exact absurd hmem List.not_mem_nil
        · simp only [heq, if_pos, setAt_setAt]
          exact .member hdi hnames (.inl ⟨hnone, rfl⟩) hnew
      · rename_i hconn
        exact adaptSource_connects hadapt (.whole hdi hnames hstruct hvar hconn)
      · rename_i ms hconn
        rcases addMemberConnection_cases { s with types } dst di ms d hvar₁ with
          ⟨hmem, heq⟩ | ⟨hnew, heq⟩
        · simp only [heq]
          exact adaptSource_connects hadapt (.member hdi hnames hstruct hvar hconn hmem)
        · simp only [heq, if_pos]
          exact .member hdi hnames (.inr hconn) hnew

theorem establishDataConnection_ne (s : Network) (d : DataConnection) (dst : FBId)
    (di : PortId) : (s.establishDataConnection d dst di).2 ≠ .noSuchObject := by
  unfold establishDataConnection
  split
  · exact nofun
  split <;> exact nofun

/-- A data connection to a port finds nothing there only if it is not a data input. -/
theorem connectData_noSuchObject {s : Network} {d : DataConnection} {dst : FBId}
    {name : StringId} (h : (s.connectData d dst [name]).2 = .noSuchObject) :
    getPortId name (s.spec dst).diNames = none := by
  cases hdi : getPortId name (s.spec dst).diNames with
  | none => rfl
  | some di =>
    simp only [connectData, hdi, if_pos] at h
    split at h
    · exact absurd h nofun
    · exact absurd h (establishDataConnection_ne s d dst di)

theorem connectInOut_connects (s : Network) (src : ConnectionPoint) (dst : FBId)
    (names : List StringId) :
    s.Connects dst (.data (.base (.inOut src))) names (s.connectInOut src dst names) := by
  have hdata := connectData_connects s (.base (.inOut src)) dst names
  unfold connectInOut
  split
  · rename_i s₁ heq
    rw [heq] at hdata
    obtain rfl : s = s₁ := by cases hdata; rfl
    split
    · rename_i name
      have hdi : getPortId name (s.spec dst).diNames = none :=
        connectData_noSuchObject (congrArg Prod.snd heq)
      split
      · exact .refused (by rintro ⟨⟩)
      rename_i dio hdio
      simp only [establishInOutConnection]
      cases hadapt : s.adaptSource (.base (.inOut src)) (s.types.dio dst dio) with
      | none => exact .refused (by rintro ⟨⟩)
      | some s₂ =>
        obtain ⟨types, rfl, -⟩ := adaptSource_eq hadapt
        by_cases hmem : ConnectionPoint.mk dst dio ∈ s.dioDests src.fb src.port
        · simp only [if_pos hmem]
          exact adaptSource_connects hadapt (.inOut rfl hdi hdio (.inl hmem))
        · simp only [if_neg hmem]
          rcases connectDIO_cases { s with types } ⟨dst, dio⟩ hdio src with
            ⟨hsome, hother, heq⟩ | ⟨hfree, s₃, heq, hspread⟩
          · simp only [heq]
            exact adaptSource_connects hadapt (.inOut rfl hdi hdio (.inr ⟨hsome, hother⟩))
          · simp only [heq]
            have hdests : s₃.dioDests = s.dioDests := by
              obtain ⟨f, g, t, hshape⟩ := hspread.shape
              rw [hshape]
            rw [hdests]
            exact .inOut hdio hmem hfree hspread
    · exact .refused (by rintro ⟨⟩)
  · rename_i s₁ r hr heq
    rw [← heq]
    exact hdata

theorem connect_connects (s : Network) (c : Connection) (dst : FBId) (names : List StringId) :
    s.Connects dst c names (s.connect c dst names) := by
  unfold connect
  split
  · exact connectEvent_connects ..
  · exact connectInOut_connects ..
  · exact connectData_connects ..
  · exact connectAdapter_connects ..

/-! ### Disconnecting -/

/-- What a data input points at when the members are gathered: without members nothing is
left of the gathering connection. -/
def gathered (ms : List (List StringId × DataConnection)) : Option InputConnection :=
  if ms = [] then none else some (.gathering ms)

/-- **The outcomes of `disconnect`.** -/
inductive Disconnects (s : Network) (dst : FBId) : Connection → List StringId → Outcome → Prop
  /-- Nothing has happened. -/
  | refused {c : Connection} {names : List StringId} {r : EMGMResponse} (hr : r ≠ .ready) :
      Disconnects s dst c names (s, r)
  /-- There is no such event connection, and one less is counted. -/
  | eventAbsent {src : ConnectionPoint} {name : StringId} {ei : PortId}
      (hei : getPortId name (s.spec dst).eiNames = some ei)
      (hmem : ConnectionPoint.mk dst ei ∉ s.eoDests src.fb src.port) :
      Disconnects s dst (.event src) [name]
        (s.removeInputEventConnection dst ei, .invalidState)
  | event {src : ConnectionPoint} {name : StringId} {ei : PortId}
      (hei : getPortId name (s.spec dst).eiNames = some ei)
      (hmem : ConnectionPoint.mk dst ei ∈ s.eoDests src.fb src.port) :
      Disconnects s dst (.event src) [name]
        ({ s with
            eoDests := setAt s.eoDests src.fb src.port
              ((s.eoDests src.fb src.port).filter (· ≠ ConnectionPoint.mk dst ei))
            }.removeInputEventConnection dst ei, .ready)
  | data {d : DataConnection} {name : StringId} {di : PortId}
      (hdi : getPortId name (s.spec dst).diNames = some di)
      (hconn : s.diConn dst di = some (.single d)) :
      Disconnects s dst (.data d) [name]
        ((s.disconnectDI dst di).decConnRefCount d.src.fb, .ready)
  /-- The connection of a member is gone, whichever it was, and the source of the one that
  was asked is told. -/
  | member {d : DataConnection} {name : StringId} {names : List StringId} {di : PortId}
      {ms : List (List StringId × DataConnection)}
      (hdi : getPortId name (s.spec dst).diNames = some di) (hne : names ≠ [])
      (hconn : s.diConn dst di = some (.gathering ms)) (hmem : names ∈ ms.map (·.1)) :
      Disconnects s dst (.data d) (name :: names)
        ({ s with
            diConn := setAt s.diConn dst di (gathered (ms.filter (·.1 ≠ names)))
            }.decConnRefCount d.src.fb, .ready)
  | inOut {src : ConnectionPoint} {name : StringId} {dio : PortId}
      (hdio : getPortId name (s.spec dst).dioNames = some dio)
      (hmem : ConnectionPoint.mk dst dio ∈ s.dioDests src.fb src.port) :
      Disconnects s dst (.data (.base (.inOut src))) [name]
        ((({ s with
            dioDests := setAt s.dioDests src.fb src.port
              ((s.dioDests src.fb src.port).filter (· ≠ ConnectionPoint.mk dst dio))
            }.disconnectDio ⟨dst, dio⟩).decConnRefCount dst).decConnRefCount src.fb, .ready)
  | adapter {src : ConnectionPoint} {name : StringId} {socket : PortId}
      (hsocket : getPortId name (s.spec dst).socketNames = some socket)
      (hplug : s.plugSocket src.fb src.port = some ⟨dst, socket⟩) :
      Disconnects s dst (.adapter src) [name]
        (((s.performDisconnect src ⟨dst, socket⟩).decConnRefCount dst).decConnRefCount src.fb,
          .ready)

theorem disconnectEvent_disconnects (s : Network) (src : ConnectionPoint) (dst : FBId)
    (names : List StringId) :
    s.Disconnects dst (.event src) names (s.disconnectEvent src dst names) := by
  unfold disconnectEvent
  split
  · rename_i name
    split
    · exact .refused nofun
    · rename_i ei hei
      by_cases hmem : ConnectionPoint.mk dst ei ∈ s.eoDests src.fb src.port
      · simp only [removeDestination, if_pos hmem]
        exact .event hei hmem
      · simp only [removeDestination, if_neg hmem]
        exact .eventAbsent hei hmem
  · exact .refused nofun

theorem disconnectAdapter_disconnects (s : Network) (src : ConnectionPoint) (dst : FBId)
    (names : List StringId) :
    s.Disconnects dst (.adapter src) names (s.disconnectAdapter src dst names) := by
  unfold disconnectAdapter
  split
  · exact .refused nofun
  rename_i mSocket hplug
  split
  · split
    · exact .refused nofun
    · rename_i socket hsocket
      split
      · exact .refused nofun
      · rename_i heq
        rw [not_not] at heq
        subst heq
        exact .adapter hsocket hplug
  · exact .refused nofun

theorem disconnectData_disconnects (s : Network) (d : DataConnection) (dst : FBId)
    (names : List StringId) :
    s.Disconnects dst (.data d) names (s.disconnectData d dst names) := by
  unfold disconnectData
  split
  · exact .refused nofun
  rename_i name names
  split
  · exact .refused nofun
  rename_i di hdi
  split
  · exact .refused nofun
  rename_i dstConnection hconn
  by_cases hnames : names = []
  · subst hnames
    simp only [if_pos]
    split
    · exact .refused nofun
    · rename_i heq
      rw [not_not] at heq
      exact .data hdi (hconn.trans (congrArg some heq))
  · simp only [if_neg hnames]
    split
    · exact .refused nofun
    · rename_i ms
      split
      · exact .refused nofun
      · rename_i hfound
        have hmem : names ∈ ms.map (·.1) := any_fst_eq_iff.mp (not_not.mp (not_or.mp hfound).2)
        have hleft := Disconnects.member (d := d) hdi hnames hconn hmem
        unfold gathered at hleft
        split
        · rename_i hempty
          rwa [if_pos hempty] at hleft
        · rename_i hsome
          rwa [if_neg hsome] at hleft

theorem disconnectInOut_disconnects (s : Network) (src : ConnectionPoint) (dst : FBId)
    (names : List StringId) :
    s.Disconnects dst (.data (.base (.inOut src))) names (s.disconnectInOut src dst names) := by
  have hdata := disconnectData_disconnects s (.base (.inOut src)) dst names
  unfold disconnectInOut
  split
  · rename_i s₁ heq
    rw [heq] at hdata
    obtain rfl : s = s₁ := by cases hdata; rfl
    split
    · split
      · exact .refused nofun
      rename_i dio hdio
      by_cases hmem : ConnectionPoint.mk dst dio ∈ s.dioDests src.fb src.port
      · simp only [if_pos hmem]
        exact .inOut hdio hmem
      · simp only [if_neg hmem]
        exact .refused nofun
    · exact .refused nofun
  · rename_i s₁ r hr heq
    rw [← heq]
    exact hdata

theorem disconnect_disconnects (s : Network) (c : Connection) (dst : FBId)
    (names : List StringId) : s.Disconnects dst c names (s.disconnect c dst names) := by
  unfold disconnect
  split
  · exact disconnectEvent_disconnects ..
  · exact disconnectInOut_disconnects ..
  · exact disconnectData_disconnects ..
  · exact disconnectAdapter_disconnects ..

end Network

end Forte
