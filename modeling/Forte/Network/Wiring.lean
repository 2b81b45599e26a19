import Forte.Network.Gathering

/-!
# The wiring of a network

Connections are kept at one end or at both: an event connection at its source, a connection
to a data input at the input, one between in-outs or between a plug and a socket at either
end. `Forte.Network.Wired` says that what is kept is right: both ends are ports of function
blocks that exist, and the two ends of a connection agree. Every single connecting and
disconnecting keeps it, whatever the counters say.
-/

namespace Forte

namespace Network

/-- A port of a function block that exists; `names` are those of its kind. -/
def HasPort (s : Network) (names : InterfaceSpec → List StringId) (pt : ConnectionPoint) : Prop :=
  s.live pt.fb = true ∧ pt.port < (names (s.spec pt.fb)).length

/-! ### Connections kept at their sources -/

/-- Connections with different destinations, from sources that exist to destinations that
exist. -/
structure Wires (Source Target : ConnectionPoint → Prop)
    (dests : FBId → PortId → List ConnectionPoint) : Prop where
  source : ∀ {a p d}, d ∈ dests a p → Source ⟨a, p⟩
  target : ∀ {a p d}, d ∈ dests a p → Target d
  nodup : ∀ a p, (dests a p).Nodup

/-- The destinations point back at the sources. -/
def Answered (dests : FBId → PortId → List ConnectionPoint)
    (back : FBId → PortId → Option ConnectionPoint) : Prop :=
  ∀ a p d, d ∈ dests a p ↔ back d.fb d.port = some ⟨a, p⟩

section Wires

variable {Source Target Source' Target' : ConnectionPoint → Prop}
  {dests : FBId → PortId → List ConnectionPoint} {back : FBId → PortId → Option ConnectionPoint}
  {src dst : ConnectionPoint}

theorem Wires.imp (h : Wires Source Target dests)
    (hports : ∀ a p d, d ∈ dests a p → Source' ⟨a, p⟩ ∧ Target' d) :
    Wires Source' Target' dests :=
  ⟨fun hd => (hports _ _ _ hd).1, fun hd => (hports _ _ _ hd).2, h.nodup⟩

theorem Wires.add (h : Wires Source Target dests) (hsrc : Source src) (hdst : Target dst)
    (hnew : dst ∉ dests src.fb src.port) :
    Wires Source Target (setAt dests src.fb src.port (dests src.fb src.port ++ [dst])) := by
  refine ⟨fun {a p d} hd => ?_, fun {a p d} hd => ?_, fun a p => ?_⟩
  · rw [setAt_apply] at hd
    split at hd
    · rename_i hap
      rw [hap.1, hap.2]
      exact hsrc
    · exact h.source hd
  · rw [setAt_apply] at hd
    split at hd
    · rcases List.mem_append.mp hd with hold | hlast
      · exact h.target hold
      · rw [List.mem_singleton.mp hlast]
        exact hdst
    · exact h.target hd
  · rw [setAt_apply]
    split
    · exact (h.nodup ..).append (List.nodup_singleton dst) (by simpa using hnew)
    · exact h.nodup a p

theorem Wires.remove (h : Wires Source Target dests) (src dst : ConnectionPoint) :
    Wires Source Target
      (setAt dests src.fb src.port ((dests src.fb src.port).filter (· ≠ dst))) := by
  have hold {a p d} (hd : d ∈ setAt dests src.fb src.port
      ((dests src.fb src.port).filter (· ≠ dst)) a p) : d ∈ dests a p := by
    rw [setAt_apply] at hd
    split at hd
    · rename_i hap
      rw [hap.1, hap.2]
      exact List.mem_of_mem_filter hd
    · exact hd
  refine ⟨fun hd => h.source (hold hd), fun hd => h.target (hold hd), fun a p => ?_⟩
  rw [setAt_apply]
  split
  · exact (h.nodup ..).filter _
  · exact h.nodup a p

theorem Answered.add (h : Answered dests back) (hnone : back dst.fb dst.port = none) :
    Answered (setAt dests src.fb src.port (dests src.fb src.port ++ [dst]))
      (setAt back dst.fb dst.port (some src)) := by
  intro a p d
  by_cases hd : d = dst
  · subst hd
    rw [setAt_self, setAt_apply]
    have hnot : d ∉ dests a p := fun hmem => by
      have hback := (h a p d).mp hmem
      rw [hnone] at hback
      cases hback
    split
    · rename_i hap
      rw [hap.1, hap.2]
      exact iff_of_true (List.mem_append_right _ (List.mem_singleton_self d)) rfl
    · rename_i hap
      refine iff_of_false hnot fun heq => hap ?_
      rw [Option.some.inj heq]
      exact ⟨rfl, rfl⟩
  · have hne : ¬(d.fb = dst.fb ∧ d.port = dst.port) := fun heq =>
      hd (by cases d; cases dst; exact ConnectionPoint.mk.injEq .. ▸ heq)
    rw [setAt_of_ne _ _ _ _ hne, ← h a p d, setAt_apply]
    split
    · rename_i hap
      rw [hap.1, hap.2, List.mem_append, List.mem_singleton]
      exact or_iff_left hd
    · exact Iff.rfl

theorem Answered.remove (h : Answered dests back) (hmem : dst ∈ dests src.fb src.port) :
    Answered (setAt dests src.fb src.port ((dests src.fb src.port).filter (· ≠ dst)))
      (setAt back dst.fb dst.port none) := by
  have hback := (h src.fb src.port dst).mp hmem
  intro a p d
  by_cases hd : d = dst
  · subst hd
    rw [setAt_self, setAt_apply]
    refine iff_of_false ?_ nofun
    split
    · exact fun hin => of_decide_eq_true (List.mem_filter.mp hin).2 rfl
    · rename_i hap
      intro hin
      rw [(h a p d).mp hin] at hback
      exact hap (ConnectionPoint.mk.injEq .. ▸ Option.some.inj hback)
  · have hne : ¬(d.fb = dst.fb ∧ d.port = dst.port) := fun heq =>
      hd (by cases d; cases dst; exact ConnectionPoint.mk.injEq .. ▸ heq)
    rw [setAt_of_ne _ _ _ _ hne, ← h a p d, setAt_apply]
    split
    · rename_i hap
      rw [hap.1, hap.2, List.mem_filter]
      exact and_iff_left (decide_eq_true hd)
    · exact Iff.rfl

end Wires

/-! ### Connections kept at data inputs -/

/-- The connection of a data input is right: the input exists, so do the sources, and no
member is connected twice. -/
structure FitsInput (Source : FBId → Prop) (Target : ConnectionPoint → Prop)
    (pt : ConnectionPoint) (conn : InputConnection) : Prop where
  target : Target pt
  source : ∀ c ∈ conn.connections, Source c.src.fb
  nodup : ∀ ms, conn = .gathering ms → (ms.map (·.1)).Nodup

/-- The connections of the data inputs are right. -/
def Inputs (Source : FBId → Prop) (Target : ConnectionPoint → Prop)
    (diConn : FBId → PortId → Option InputConnection) : Prop :=
  ∀ b di conn, diConn b di = some conn → FitsInput Source Target ⟨b, di⟩ conn

theorem Inputs.set {Source : FBId → Prop} {Target : ConnectionPoint → Prop}
    {diConn : FBId → PortId → Option InputConnection} (h : Inputs Source Target diConn)
    {b : FBId} {di : PortId} {new : Option InputConnection}
    (hnew : ∀ conn, new = some conn → FitsInput Source Target ⟨b, di⟩ conn) :
    Inputs Source Target (setAt diConn b di new) := by
  intro b' di' conn hconn
  rw [setAt_apply] at hconn
  split at hconn
  · rename_i heq
    rw [heq.1, heq.2]
    exact hnew conn hconn
  · exact h b' di' conn hconn

/-! ### The whole network -/

/-- The pointers of a table, each as the list of what it points at. -/
def pointers (table : FBId → PortId → Option ConnectionPoint) :
    FBId → PortId → List ConnectionPoint :=
  fun b p => (table b p).toList

theorem pointers_setAt (table : FBId → PortId → Option ConnectionPoint) (b : FBId) (p : PortId)
    (d : Option ConnectionPoint) :
    pointers (setAt table b p d) = setAt (pointers table) b p d.toList := by
  funext b' p'
  rw [pointers, setAt_apply, setAt_apply]
  split <;> rfl

/-- **The wiring of a network**: both ends of every connection exist, and agree. -/
structure Wired (s : Network) : Prop where
  event : Wires (s.HasPort (·.eoNames)) (s.HasPort (·.eiNames)) s.eoDests
  input : Inputs (fun b => s.live b = true) (s.HasPort (·.diNames)) s.diConn
  inOut : Wires (s.HasPort (·.dioNames)) (s.HasPort (·.dioNames)) s.dioDests
  inOutBack : Answered s.dioDests s.dioInConn
  adapter : Wires (s.HasPort (·.plugNames)) (s.HasPort (·.socketNames)) (pointers s.plugSocket)
  adapterBack : Answered (pointers s.plugSocket) s.socketConn

theorem wired_initial : Wired initial where
  event := ⟨fun h => absurd h List.not_mem_nil, fun h => absurd h List.not_mem_nil,
    fun _ _ => List.nodup_nil⟩
  input := nofun
  inOut := ⟨fun h => absurd h List.not_mem_nil, fun h => absurd h List.not_mem_nil,
    fun _ _ => List.nodup_nil⟩
  inOutBack _ _ _ := iff_of_false List.not_mem_nil nofun
  adapter := ⟨fun h => absurd h List.not_mem_nil, fun h => absurd h List.not_mem_nil,
    fun _ _ => List.nodup_nil⟩
  adapterBack _ _ _ := iff_of_false List.not_mem_nil nofun

/-! ### Connecting and disconnecting -/

theorem hasPort_of_getPortId {s : Network} {b : FBId} (hlive : s.live b = true)
    {names : InterfaceSpec → List StringId} {name : StringId} {p : PortId}
    (hp : getPortId name (names (s.spec b)) = some p) : s.HasPort names ⟨b, p⟩ :=
  ⟨hlive, getPortId_lt hp⟩

/-- The in-outs below one of a network that is wired have their connections already. -/
theorem Spread.dioInConn_eq {s s' : Network} {pt owner : ConnectionPoint}
    (h : s.Spread pt owner s')
    (hconn : ∀ (q d : ConnectionPoint), d ∈ s.dioDests q.fb q.port →
      s.dioInConn d.fb d.port ≠ none) : s'.dioInConn = s.dioInConn := by
  funext b p
  rcases h.inConn b p with heq | ⟨hnone, q, hq, -⟩
  · exact heq
  · exact absurd hnone (hconn q ⟨b, p⟩ hq)

/-- **Connecting keeps the wiring**, whatever the outcome. -/
theorem Connects.wired {s : Network} {dst : FBId} {c : Connection} {names : List StringId}
    {o : Outcome} (h : s.Connects dst c names o) (hs : Wired s) (hsrc : Sourced s c)
    (hdst : s.live dst = true) : Wired o.1 := by
  cases h with
  | refused => exact hs
  | adapted =>
    obtain ⟨types, heq, -⟩ := s.handleAnySrcPortConnection_eq _ _
    rw [heq]
    exact ⟨hs.event, hs.input, hs.inOut, hs.inOutBack, hs.adapter, hs.adapterBack⟩
  | eventAgain =>
    exact ⟨hs.event, hs.input, hs.inOut, hs.inOutBack, hs.adapter, hs.adapterBack⟩
  | event hei hnew =>
    obtain ⟨hlive, hlt⟩ := hsrc
    exact ⟨hs.event.add ⟨hlive, hlt⟩ (hasPort_of_getPortId hdst hei) hnew, hs.input, hs.inOut,
      hs.inOutBack, hs.adapter, hs.adapterBack⟩
  | data hdi hfree =>
    obtain - | ⟨hlive, -, -⟩ := hsrc
    refine ⟨hs.event, hs.input.set ?_, hs.inOut, hs.inOutBack, hs.adapter, hs.adapterBack⟩
    rintro conn ⟨⟩
    refine ⟨hasPort_of_getPortId hdst hdi, ?_, by rintro ms ⟨⟩⟩
    intro c hc
    rw [List.mem_singleton.mp hc]
    exact hlive
  | @member d name names di ms types hdi hne hms hnew =>
    obtain - | ⟨hlive, -, -⟩ := hsrc
    -- what the input gathered before, if it gathered anything
    have hold : (∀ m ∈ ms, s.live m.2.src.fb = true) ∧ (ms.map (·.1)).Nodup := by
      rcases hms with ⟨-, rfl⟩ | hconn
      · exact ⟨fun m hm => absurd hm List.not_mem_nil, List.nodup_nil⟩
      · have hfits := hs.input _ _ _ hconn
        exact ⟨fun m hm => hfits.source m.2 (List.mem_map_of_mem hm), hfits.nodup ms rfl⟩
    refine ⟨hs.event, hs.input.set ?_, hs.inOut, hs.inOutBack, hs.adapter, hs.adapterBack⟩
    rintro conn ⟨⟩
    refine ⟨hasPort_of_getPortId hdst hdi, ?_, ?_⟩
    · intro c hc
      obtain ⟨m, hm, rfl⟩ := List.mem_map.mp hc
      rcases List.mem_append.mp hm with hm | hm
      · exact hold.1 m hm
      · rw [List.mem_singleton.mp hm]
        exact hlive
    · rintro ms' ⟨⟩
      rw [List.map_append, List.map_singleton]
      exact hold.2.append (List.nodup_singleton _) (by simpa using hnew)
  | @inOut src name dio types s' hdio hnew hfree hspread =>
    obtain - | ⟨hlive, hport, -⟩ := hsrc
    have hnone : s.dioInConn dst dio = none := by
      refine hfree.resolve_right fun hsame => ?_
      exact hnew ((hs.inOutBack src.fb src.port ⟨dst, dio⟩).mpr hsame)
    -- the spreading sets the pointer of the new destination and of no other
    have hconn := hspread.dioInConn_eq fun q d hd => by
      have hback := (hs.inOutBack q.fb q.port d).mp hd
      simp only [setAt_apply]
      split
      · exact Option.some_ne_none _
      · rw [hback]
        exact Option.some_ne_none _
    obtain ⟨f, g, t, hshape⟩ := hspread.shape
    subst hshape
    obtain rfl : f = setAt s.dioInConn dst dio (some src) := hconn
    exact ⟨hs.event, hs.input,
      hs.inOut.add ⟨hlive, hport⟩ (hasPort_of_getPortId hdst hdio) hnew,
      hs.inOutBack.add hnone, hs.adapter, hs.adapterBack⟩
  | @adapter src name socket hsocket hplug hfree =>
    obtain - | - | ⟨hlive, hlt⟩ := hsrc
    -- a plug has at most one socket, and this one had none
    have hdests : pointers s.plugSocket src.fb src.port = [] := by
      rw [pointers, hplug]
      rfl
    have hadd : pointers (setAt s.plugSocket src.fb src.port (some ⟨dst, socket⟩)) =
        setAt (pointers s.plugSocket) src.fb src.port
          (pointers s.plugSocket src.fb src.port ++ [⟨dst, socket⟩]) := by
      rw [pointers_setAt, hdests]
      rfl
    refine ⟨hs.event, hs.input, hs.inOut, hs.inOutBack, ?_, ?_⟩
    · have hnew : ConnectionPoint.mk dst socket ∉ pointers s.plugSocket src.fb src.port := by
        rw [hdests]
        exact List.not_mem_nil
      exact hadd ▸ hs.adapter.add ⟨hlive, hlt⟩ (hasPort_of_getPortId hdst hsocket) hnew
    · exact hadd ▸ hs.adapterBack.add hfree

/-- **Disconnecting keeps the wiring**, whatever the outcome. -/
theorem Disconnects.wired {s : Network} {dst : FBId} {c : Connection} {names : List StringId}
    {o : Outcome} (h : s.Disconnects dst c names o) (hs : Wired s) : Wired o.1 := by
  cases h with
  | refused => exact hs
  | eventAbsent =>
    exact ⟨hs.event, hs.input, hs.inOut, hs.inOutBack, hs.adapter, hs.adapterBack⟩
  | event =>
    exact ⟨hs.event.remove _ _, hs.input, hs.inOut, hs.inOutBack, hs.adapter, hs.adapterBack⟩
  | data =>
    exact ⟨hs.event, hs.input.set nofun, hs.inOut, hs.inOutBack, hs.adapter, hs.adapterBack⟩
  | @member d name names di ms hdi hne hconn hmem =>
    have hfits := hs.input _ _ _ hconn
    refine ⟨hs.event, hs.input.set ?_, hs.inOut, hs.inOutBack, hs.adapter, hs.adapterBack⟩
    intro conn hgathered
    unfold gathered at hgathered
    split at hgathered
    · cases hgathered
    -- the connection stays with the members that are left
    obtain rfl := Option.some.inj hgathered
    refine ⟨hfits.target, ?_, ?_⟩
    · intro c hc
      obtain ⟨m, hm, rfl⟩ := List.mem_map.mp hc
      exact hfits.source m.2 (List.mem_map_of_mem (List.mem_of_mem_filter hm))
    · rintro ms' ⟨⟩
      exact (hfits.nodup ms rfl).sublist (List.filter_sublist.map _)
  | inOut hdio hmem =>
    exact ⟨hs.event, hs.input, hs.inOut.remove _ _, hs.inOutBack.remove hmem, hs.adapter,
      hs.adapterBack⟩
  | @adapter src name socket hsocket hplug =>
    have hdests : pointers s.plugSocket src.fb src.port = [⟨dst, socket⟩] := by
      rw [pointers, hplug]
      rfl
    have hremove : pointers (setAt s.plugSocket src.fb src.port none) =
        setAt (pointers s.plugSocket) src.fb src.port
          ((pointers s.plugSocket src.fb src.port).filter (· ≠ ⟨dst, socket⟩)) := by
      rw [pointers_setAt, hdests]
      simp
    refine ⟨hs.event, hs.input, hs.inOut, hs.inOutBack, ?_, ?_⟩
    · exact hremove ▸ hs.adapter.remove src ⟨dst, socket⟩
    · have hmem : ConnectionPoint.mk dst socket ∈ pointers s.plugSocket src.fb src.port := by
        rw [hdests]
        exact List.mem_singleton_self _
      exact hremove ▸ hs.adapterBack.remove hmem

theorem Wired.disconnectDI {s : Network} (h : Wired s) (b : FBId) (di : PortId) :
    Wired (s.disconnectDI b di) :=
  ⟨h.event, h.input.set nofun, h.inOut, h.inOutBack, h.adapter, h.adapterBack⟩

theorem Wired.deinitialize {s : Network} (h : Wired s) (b : FBId) : Wired (s.deinitialize b) :=
  deinitialize_preserves (fun _ c dst names h => (disconnect_disconnects _ c dst names).wired h)
    (fun _ b di h => h.disconnectDI b di) s b h

end Network

end Forte
