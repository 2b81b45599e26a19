import Forte.Lib.Runs
import Forte.Network.Wiring

/-!
# Releasing function blocks

What deinitializing a function block takes away. Any `disconnect` leaves fewer connections
(`Forte.Network.Fewer`); `deinitialize` leaves a function block without any where no event
output has more than two destinations (`Forte.Network.deinitialize_releases`), for its loop over
the destinations of an event output is one over a vector that `disconnect` shortens. When in the
end nothing is connected to the function blocks that go, destructing them takes no connection
away (`Forte.Network.Isolated.wired_destruct`).
-/

namespace Forte

namespace Network

/-! ### Fewer connections -/

/-- **A network with fewer connections**, whose function blocks and values are the same. -/
structure Fewer (s s' : Network) : Prop where
  blocks : SameBlocks s s'
  event : ∀ b p, (s'.eoDests b p).Sublist (s.eoDests b p)
  input : ∀ b p conn', s'.diConn b p = some conn' → ∃ conn, s.diConn b p = some conn ∧
    (conn'.isGathering = true → conn.isGathering = true) ∧
      conn'.connections.Sublist conn.connections
  inOut : ∀ b p, (s'.dioDests b p).Sublist (s.dioDests b p)
  inOutBack : ∀ b p q, s'.dioInConn b p = some q → s.dioInConn b p = some q
  adapter : ∀ b p d, s'.plugSocket b p = some d → s.plugSocket b p = some d
  adapterBack : ∀ b p q, s'.socketConn b p = some q → s.socketConn b p = some q
  value : s'.dioValue = s.dioValue

@[refl]
theorem Fewer.refl (s : Network) : Fewer s s :=
  ⟨.refl s, fun _ _ => .refl _, fun _ _ conn h => ⟨conn, h, id, .refl _⟩, fun _ _ => .refl _,
    fun _ _ _ => id, fun _ _ _ => id, fun _ _ _ => id, rfl⟩

theorem Fewer.trans {s s₁ s₂ : Network} (h₁ : Fewer s s₁) (h₂ : Fewer s₁ s₂) : Fewer s s₂ where
  blocks := h₁.blocks.trans h₂.blocks
  event b p := (h₂.event b p).trans (h₁.event b p)
  input b p conn' h := by
    obtain ⟨conn₁, hconn₁, hgather₁, hsub₁⟩ := h₂.input b p conn' h
    obtain ⟨conn, hconn, hgather, hsub⟩ := h₁.input b p conn₁ hconn₁
    exact ⟨conn, hconn, fun h => hgather (hgather₁ h), hsub₁.trans hsub⟩
  inOut b p := (h₂.inOut b p).trans (h₁.inOut b p)
  inOutBack b p q h := h₁.inOutBack b p q (h₂.inOutBack b p q h)
  adapter b p d h := h₁.adapter b p d (h₂.adapter b p d h)
  adapterBack b p q h := h₁.adapterBack b p q (h₂.adapterBack b p q h)
  value := h₂.value.trans h₁.value

/-- One pointer less. -/
theorem of_setAt_none {γ : Type} {table : FBId → PortId → Option γ} {b b' : FBId}
    {p p' : PortId} {v : γ} (h : setAt table b p none b' p' = some v) : table b' p' = some v := by
  rw [setAt_apply] at h
  split at h
  · cases h
  · exact h

/-- One list shorter. -/
theorem setAt_filter_sublist (dests : FBId → PortId → List ConnectionPoint) (b b' : FBId)
    (p p' : PortId) (keep : ConnectionPoint → Bool) :
    (setAt dests b p ((dests b p).filter keep) b' p').Sublist (dests b' p') := by
  rw [setAt_apply]
  split
  · rename_i heq
    rw [heq.1, heq.2]
    exact List.filter_sublist
  · exact .refl _

theorem fewer_disconnectDI (s : Network) (b : FBId) (di : PortId) :
    Fewer s (s.disconnectDI b di) :=
  { Fewer.refl s with
    blocks := ⟨rfl, rfl, rfl, rfl, rfl, rfl, rfl⟩
    input := fun _ _ conn h => ⟨conn, of_setAt_none h, id, .refl _⟩ }

theorem Disconnects.fewer {s : Network} {dst : FBId} {c : Connection} {names : List StringId}
    {o : Outcome} (h : s.Disconnects dst c names o) : Fewer s o.1 := by
  have hblocks := h.sameBlocks
  cases h with
  | refused => exact .refl s
  | eventAbsent => exact { Fewer.refl s with blocks := hblocks }
  | event => exact { Fewer.refl s with
      blocks := hblocks
      event := fun _ _ => setAt_filter_sublist .. }
  | data => exact { s.fewer_disconnectDI _ _ with blocks := hblocks }
  | @member d name names di ms hdi hne hconn hmem =>
    refine { Fewer.refl s with blocks := hblocks, input := fun b p conn' h => ?_ }
    replace h : setAt s.diConn dst di (gathered (ms.filter (·.1 ≠ names))) b p = some conn' := h
    rw [setAt_apply] at h
    split at h
    · rename_i heq
      rw [heq.1, heq.2]
      -- the connection is still there, with fewer members
      unfold gathered at h
      split at h
      · cases h
      obtain rfl := Option.some.inj h
      exact ⟨_, hconn, fun _ => rfl, List.filter_sublist.map _⟩
    · exact ⟨conn', h, id, .refl _⟩
  | inOut => exact { Fewer.refl s with
      blocks := hblocks
      inOut := fun _ _ => setAt_filter_sublist ..
      inOutBack := fun _ _ _ => of_setAt_none }
  | adapter => exact { Fewer.refl s with
      blocks := hblocks
      adapter := fun _ _ _ => of_setAt_none
      adapterBack := fun _ _ _ => of_setAt_none }

theorem fewer_disconnect (s : Network) (c : Connection) (dst : FBId) (names : List StringId) :
    Fewer s (s.disconnect c dst names).1 :=
  (disconnect_disconnects s c dst names).fewer

theorem fewer_deinitialize (s : Network) (b : FBId) : Fewer s (s.deinitialize b) :=
  deinitialize_preserves (P := Fewer s)
    (fun s c dst names h => h.trans (s.fewer_disconnect c dst names))
    (fun s b di h => h.trans (s.fewer_disconnectDI b di)) s b (.refl s)

/-! ### Deinitializing a function block -/

/-- The name of a port leads to the port. -/
theorem getPortId_getD {names : List StringId} (h : names.Nodup) {p : PortId}
    (hp : p < names.length) : getPortId (names.getD p "") names = some p := by
  rw [List.getD_eq_getElem?_getD, List.getElem?_eq_getElem hp, Option.getD_some]
  refine List.idxOf?_eq_some_iff.mpr ⟨hp, rfl, fun j hj heq => ?_⟩
  exact hj.ne ((List.Nodup.getElem_inj_iff h).mp heq)

/-- `deinitialize` on a destination, as it takes it from the list of an event output. -/
def disconnectDestination (src : ConnectionPoint) (s : Network) (pt : ConnectionPoint) :
    Network :=
  (s.disconnectEvent src pt.fb [(s.spec pt.fb).eiNames.getD pt.port ""]).1

theorem disconnectDestination_of_mem {s : Network} (hs : Wired s) {src pt : ConnectionPoint}
    (hmem : pt ∈ s.eoDests src.fb src.port) :
    disconnectDestination src s pt =
      { s with
          eoDests := setAt s.eoDests src.fb src.port
            ((s.eoDests src.fb src.port).filter (· ≠ pt))
          }.removeInputEventConnection pt.fb pt.port := by
  have hei := getPortId_getD (s.spec pt.fb).eiNodup (hs.event.target hmem).2
  simp only [disconnectDestination, disconnectEvent, hei, removeDestination]
  rw [if_pos hmem]

theorem Wired.disconnectDestination {s : Network} (h : Wired s) (src pt : ConnectionPoint) :
    Wired (disconnectDestination src s pt) :=
  (disconnectEvent_disconnects s src pt.fb _).wired h

/-- **An event output with at most two destinations** is left without any. With a third one
the loop would meet one destination twice and another one never. -/
theorem deinitializeEO_releases {P : Network → Prop} {b : FBId} {eo : PortId}
    (hP : ∀ s pt, Wired s → pt ∈ s.eoDests b eo → P s → P (disconnectDestination ⟨b, eo⟩ s pt))
    {s : Network} (hs : Wired s) (hlen : (s.eoDests b eo).length ≤ 2) (h : P s) :
    P (deinitializeEO b s eo) ∧ (deinitializeEO b s eo).eoDests b eo = [] := by
  have hleft {s : Network} (hs : Wired s) {pt : ConnectionPoint} (hmem : pt ∈ s.eoDests b eo) :
      (disconnectDestination ⟨b, eo⟩ s pt).eoDests b eo =
        (s.eoDests b eo).filter (· ≠ pt) := by
    rw [disconnectDestination_of_mem hs hmem]
    exact setAt_self ..
  have hnodup := hs.event.nodup b eo
  unfold deinitializeEO
  generalize hdests : s.eoDests b eo = dests at hlen hnodup
  rcases dests with - | ⟨x, - | ⟨y, - | ⟨z, rest⟩⟩⟩
  · exact ⟨h, hdests⟩
  · have hx : x ∈ s.eoDests b eo := hdests ▸ List.mem_singleton_self x
    refine ⟨hP s x hs hx h, ?_⟩
    refine (hleft hs hx).trans ?_
    rw [hdests]
    simp
  · have hx : x ∈ s.eoDests b eo := hdests ▸ List.mem_cons_self
    have hxy : x ≠ y := fun heq => (List.nodup_cons.mp hnodup).1 (heq ▸ List.mem_singleton_self y)
    have hs₁ := hs.disconnectDestination ⟨b, eo⟩ x
    have hdests₁ : (disconnectDestination ⟨b, eo⟩ s x).eoDests b eo = [y] := by
      rw [hleft hs hx, hdests]
      simp [hxy.symm]
    have hy : y ∈ (disconnectDestination ⟨b, eo⟩ s x).eoDests b eo :=
      hdests₁ ▸ List.mem_singleton_self y
    -- the second destination has moved to the place of the first, and is met where it was
    have hloop : disconnectDestinations ⟨b, eo⟩ [x, y].length [x, y] s =
        disconnectDestination ⟨b, eo⟩ (disconnectDestination ⟨b, eo⟩ s x) y := by
      change disconnectDestinations ⟨b, eo⟩ 1
        ((disconnectDestination ⟨b, eo⟩ s x).eoDests b eo ++
          [x, y].drop ((disconnectDestination ⟨b, eo⟩ s x).eoDests b eo).length)
        (disconnectDestination ⟨b, eo⟩ s x) = _
      rw [hdests₁]
      rfl
    rw [hloop]
    refine ⟨hP _ y hs₁ hy (hP s x hs hx h), ?_⟩
    rw [hleft hs₁ hy, hdests₁]
    simp
  · simp at hlen

/-- A connection of a data input can be disconnected. -/
theorem disconnect_single {s : Network} {b : FBId} {di : PortId} {name : StringId}
    {c : DataConnection} (hdi : getPortId name (s.spec b).diNames = some di)
    (hconn : s.diConn b di = some (.single c)) :
    s.disconnect (.data c) b [name] =
      ((s.disconnectDI b di).decConnRefCount c.src.fb, .ready) := by
  have hdata : s.disconnectData c b [name] =
      ((s.disconnectDI b di).decConnRefCount c.src.fb, .ready) := by
    simp only [disconnectData, hdi, hconn, if_pos]
    rw [if_neg (not_not.mpr rfl)]
  cases c with
  | base c =>
    cases c with
    | out src => exact hdata
    | inOut src => simp only [disconnect, disconnectInOut, hdata]
  | member c ptr value names => exact hdata
  | negating c ptr value => exact hdata

/-- A data input is left without a connection. -/
theorem deinitializeDI_eq_none {s : Network} (hs : Wired s) (b : FBId) (di : PortId) :
    (deinitializeDI b s di).diConn b di = none := by
  unfold deinitializeDI
  split
  · rename_i hnone
    exact hnone
  · rename_i c hconn
    have hdi := getPortId_getD (s.spec b).diNodup (hs.input _ _ _ hconn).target.2
    rw [disconnect_single hdi hconn]
    exact setAt_self ..
  · exact setAt_self ..

/-- A socket is left without a connection. -/
theorem deinitializeSocket_eq_none {s : Network} (hs : Wired s) (b : FBId) (socket : PortId) :
    (deinitializeSocket b s socket).socketConn b socket = none := by
  unfold deinitializeSocket
  split
  · rename_i hnone
    exact hnone
  · rename_i src hsrc
    have hmem := (hs.adapterBack src.fb src.port ⟨b, socket⟩).mpr hsrc
    have hplug : s.plugSocket src.fb src.port = some ⟨b, socket⟩ := Option.mem_toList.mp hmem
    have hsocket := getPortId_getD (s.spec b).socketNodup (hs.adapter.target hmem).2
    simp only [disconnectAdapter, hplug, hsocket, if_neg (not_not.mpr rfl)]
    exact setAt_self ..

/-- An in-out is left without a connection, when the data inputs are. -/
theorem deinitializeDio_eq_none {s : Network} (hs : Wired s) (b : FBId) (dio : PortId)
    (hinputs : ∀ di, s.diConn b di = none) : (deinitializeDio b s dio).dioInConn b dio = none := by
  unfold deinitializeDio
  split
  · rename_i hnone
    exact hnone
  · rename_i src hsrc
    have hmem := (hs.inOutBack src.fb src.port ⟨b, dio⟩).mpr hsrc
    have hdio := getPortId_getD (s.spec b).dioNodup (hs.inOut.target hmem).2
    have hdata (names : List StringId) :
        s.disconnectData (.base (.inOut src)) b names = (s, .noSuchObject) := by
      unfold disconnectData
      split
      · rfl
      split
      · rfl
      simp only [hinputs]
    simp only [disconnectInOut, hdata, hdio]
    rw [if_pos hmem]
    exact setAt_self ..

/-- **A function block that is not connected any more**, as far as `deinitialize` goes. -/
structure Released (s : Network) (b : FBId) : Prop where
  event : ∀ p, s.eoDests b p = []
  input : ∀ p, s.diConn b p = none
  adapter : ∀ p, s.socketConn b p = none
  inOut : ∀ p, s.dioInConn b p = none

theorem Fewer.eq_none {γ : Type} {x y : Option γ} (h : ∀ v, y = some v → x = some v)
    (hx : x = none) : y = none := by
  cases y with
  | none => rfl
  | some v => exact absurd (hx.symm.trans (h v rfl)) nofun

theorem Fewer.diConn_eq_none {s s' : Network} (h : Fewer s s') {b : FBId} {p : PortId}
    (hp : s.diConn b p = none) : s'.diConn b p = none := by
  cases hconn : s'.diConn b p with
  | none => rfl
  | some conn' =>
    obtain ⟨conn, hold, -⟩ := h.input b p conn' hconn
    rw [hp] at hold
    cases hold

theorem Fewer.eoDests_eq_nil {s s' : Network} (h : Fewer s s') {b : FBId} {p : PortId}
    (hp : s.eoDests b p = []) : s'.eoDests b p = [] :=
  List.sublist_nil.mp (hp ▸ h.event b p)

theorem Fewer.released {s s' : Network} (h : Fewer s s') {b : FBId} (hb : Released s b) :
    Released s' b where
  event p := h.eoDests_eq_nil (hb.event p)
  input p := h.diConn_eq_none (hb.input p)
  adapter p := Fewer.eq_none (h.adapterBack b p) (hb.adapter p)
  inOut p := Fewer.eq_none (h.inOutBack b p) (hb.inOut p)

theorem fewer_deinitializeEO (b : FBId) (s : Network) (eo : PortId) :
    Fewer s (deinitializeEO b s eo) :=
  disconnectDestinations_preserves (fun t c dst names h => h.trans (t.fewer_disconnect c dst names))
    _ _ _ s (.refl s)

theorem fewer_deinitializeDI (b : FBId) (s : Network) (di : PortId) :
    Fewer s (deinitializeDI b s di) :=
  deinitializeDI_preserves (fun t c dst names h => h.trans (t.fewer_disconnect c dst names))
    (fun t b di h => h.trans (t.fewer_disconnectDI b di)) b s di (.refl s)

theorem fewer_deinitializeSocket (b : FBId) (s : Network) (socket : PortId) :
    Fewer s (deinitializeSocket b s socket) :=
  deinitializeSocket_preserves (fun t c dst names h => h.trans (t.fewer_disconnect c dst names))
    b s socket (.refl s)

theorem fewer_deinitializeDio (b : FBId) (s : Network) (dio : PortId) :
    Fewer s (deinitializeDio b s dio) :=
  deinitializeDio_preserves (fun t c dst names h => h.trans (t.fewer_disconnect c dst names))
    b s dio (.refl s)

section Deinitialize

variable {P : Network → Prop} {b : FBId}

/-- One of the loops of `deinitialize`: what each pass keeps is kept, and what each pass leaves
behind for its port is there for all ports of the kind. -/
theorem foldl_part {Good : Network → Prop} {Settled : PortId → Network → Prop}
    {part : Network → PortId → Network} (hfewer : ∀ t p, Fewer t (part t p))
    (hstep : ∀ t p, Good t → Good (part t p) ∧ Settled p (part t p))
    (hkeep : ∀ t t' p, Fewer t t' → Settled p t → Settled p t') (n : ℕ) {s : Network}
    (hs : Good s) :
    Good ((List.range n).foldl part s) ∧ Fewer s ((List.range n).foldl part s) ∧
      ∀ p < n, Settled p ((List.range n).foldl part s) := by
  obtain ⟨⟨hgood, hfew⟩, hsettled⟩ := @Runs.run_settles _ _ part
    (fun t => Good t ∧ Fewer s t) Settled (List.range n)
    (fun t p _ ht => ⟨⟨(hstep t p ht.1).1, ht.2.trans (hfewer t p)⟩, (hstep t p ht.1).2⟩)
    (fun t p p' ht => hkeep t _ p' (hfewer t p) ht) _ ⟨hs, .refl s⟩
  exact ⟨hgood, hfew, fun p hp => hsettled p (List.mem_range.mpr hp)⟩

/-- What a `disconnect` of any kind leaves wired. -/
theorem Wired.disconnect {s : Network} (h : Wired s) (c : Connection) (dst : FBId)
    (names : List StringId) : Wired (s.disconnect c dst names).1 :=
  (disconnect_disconnects s c dst names).wired h

/-- The loop over the event outputs, which have at most two destinations. -/
theorem foldl_deinitializeEO
    (hevent : ∀ s eo pt, Wired s → pt ∈ s.eoDests b eo → P s →
      P (disconnectDestination ⟨b, eo⟩ s pt)) {s s' : Network} (hs : Wired s)
    (hfew : ∀ eo, (s.eoDests b eo).length ≤ 2) (h : P s)
    (heq : (List.range (s.spec b).eoNames.length).foldl (deinitializeEO b) s = s') :
    Wired s' ∧ P s' ∧ ∀ p, s'.eoDests b p = [] := by
  obtain ⟨⟨hs', hP', -⟩, hfewer, hdests⟩ := @foldl_part
    (fun t => Wired t ∧ P t ∧ ∀ eo, (t.eoDests b eo).length ≤ 2)
    (fun eo t => t.eoDests b eo = []) _ (fewer_deinitializeEO b)
    (fun t eo ht => by
      obtain ⟨⟨hw, hp⟩, hnil⟩ := deinitializeEO_releases (P := fun t => Wired t ∧ P t)
        (fun t pt hw hpt hp => ⟨hw.disconnectDestination _ pt, hevent t eo pt hw hpt hp.2⟩)
        ht.1 (ht.2.2 eo) ⟨ht.1, ht.2.1⟩
      exact ⟨⟨hw, hp, fun eo' =>
        ((fewer_deinitializeEO b t eo).event b eo').length_le.trans (ht.2.2 eo')⟩, hnil⟩)
    (fun _ _ _ hfewer => hfewer.eoDests_eq_nil) (s.spec b).eoNames.length _ ⟨hs, h, hfew⟩
  rw [heq] at hs' hP' hfewer hdests
  refine ⟨hs', hP', fun p => ?_⟩
  by_contra hne
  obtain ⟨d, hd⟩ := List.exists_mem_of_ne_nil _ hne
  exact hne (hdests p (hfewer.blocks.spec ▸ (hs'.event.source hd).2))

/-- The loop over the data inputs. -/
theorem foldl_deinitializeDI (hinput : ∀ s di, Wired s → P s → P (deinitializeDI b s di))
    {s s' : Network} (hs : Wired s) (h : P s)
    (heq : (List.range (s.spec b).diNames.length).foldl (deinitializeDI b) s = s') :
    Wired s' ∧ P s' ∧ Fewer s s' ∧ ∀ p, s'.diConn b p = none := by
  obtain ⟨⟨hs', hP'⟩, hfewer, hconns⟩ := @foldl_part
    (fun t => Wired t ∧ P t) (fun di t => t.diConn b di = none) _
    (fewer_deinitializeDI b)
    (fun t di ht => ⟨⟨deinitializeDI_preserves (fun _ c dst names ht => ht.disconnect c dst names)
      (fun _ b di ht => ht.disconnectDI b di) b t di ht.1, hinput t di ht.1 ht.2⟩,
      deinitializeDI_eq_none ht.1 b di⟩)
    (fun _ _ _ hfewer => hfewer.diConn_eq_none) (s.spec b).diNames.length _ ⟨hs, h⟩
  rw [heq] at hs' hP' hfewer hconns
  refine ⟨hs', hP', hfewer, fun p => ?_⟩
  by_contra hne
  obtain ⟨conn, hconn⟩ := Option.ne_none_iff_exists'.mp hne
  exact hne (hconns p (hfewer.blocks.spec ▸ (hs'.input b p conn hconn).target.2))

/-- The loop over the sockets. -/
theorem foldl_deinitializeSocket
    (hsocket : ∀ s socket, Wired s → P s → P (deinitializeSocket b s socket))
    {s s' : Network} (hs : Wired s) (h : P s)
    (heq : (List.range (s.spec b).socketNames.length).foldl (deinitializeSocket b) s = s') :
    Wired s' ∧ P s' ∧ Fewer s s' ∧ ∀ p, s'.socketConn b p = none := by
  obtain ⟨⟨hs', hP'⟩, hfewer, hconns⟩ := @foldl_part
    (fun t => Wired t ∧ P t) (fun socket t => t.socketConn b socket = none) _
    (fewer_deinitializeSocket b)
    (fun t socket ht => ⟨⟨deinitializeSocket_preserves
      (fun _ c dst names ht => ht.disconnect c dst names) b t socket ht.1,
      hsocket t socket ht.1 ht.2⟩, deinitializeSocket_eq_none ht.1 b socket⟩)
    (fun _ _ p hfewer => Fewer.eq_none (hfewer.adapterBack b p)) (s.spec b).socketNames.length
    _ ⟨hs, h⟩
  rw [heq] at hs' hP' hfewer hconns
  refine ⟨hs', hP', hfewer, fun p => ?_⟩
  by_contra hne
  obtain ⟨q, hq⟩ := Option.ne_none_iff_exists'.mp hne
  have hmem := (hs'.adapterBack q.fb q.port ⟨b, p⟩).mpr hq
  exact hne (hconns p (hfewer.blocks.spec ▸ (hs'.adapter.target hmem).2))

/-- The loop over the in-outs, when the data inputs are left without connections. -/
theorem foldl_deinitializeDio (hdio : ∀ s dio, Wired s → P s → P (deinitializeDio b s dio))
    {s s' : Network} (hs : Wired s) (h : P s) (hinputs : ∀ di, s.diConn b di = none)
    (heq : (List.range (s.spec b).dioNames.length).foldl (deinitializeDio b) s = s') :
    P s' ∧ Fewer s s' ∧ ∀ p, s'.dioInConn b p = none := by
  obtain ⟨⟨hs', hP', -⟩, hfewer, hconns⟩ := @foldl_part
    (fun t => Wired t ∧ P t ∧ ∀ di, t.diConn b di = none)
    (fun dio t => t.dioInConn b dio = none) _ (fewer_deinitializeDio b)
    (fun t dio ht => ⟨⟨deinitializeDio_preserves
      (fun _ c dst names ht => ht.disconnect c dst names) b t dio ht.1, hdio t dio ht.1 ht.2.1,
      fun di => (fewer_deinitializeDio b t dio).diConn_eq_none (ht.2.2 di)⟩,
      deinitializeDio_eq_none ht.1 b dio ht.2.2⟩)
    (fun _ _ p hfewer => Fewer.eq_none (hfewer.inOutBack b p)) (s.spec b).dioNames.length
    _ ⟨hs, h, hinputs⟩
  rw [heq] at hs' hP' hfewer hconns
  refine ⟨hP', hfewer, fun p => ?_⟩
  by_contra hne
  obtain ⟨q, hq⟩ := Option.ne_none_iff_exists'.mp hne
  have hmem := (hs'.inOutBack q.fb q.port ⟨b, p⟩).mpr hq
  exact hne (hconns p (hfewer.blocks.spec ▸ (hs'.inOut.target hmem).2))

/-- **Deinitializing a function block** whose event outputs have at most two destinations
leaves it without connections, and keeps what each of its parts keeps. -/
theorem deinitialize_releases
    (hevent : ∀ s eo pt, Wired s → pt ∈ s.eoDests b eo → P s →
      P (disconnectDestination ⟨b, eo⟩ s pt))
    (hinput : ∀ s di, Wired s → P s → P (deinitializeDI b s di))
    (hsocket : ∀ s socket, Wired s → P s → P (deinitializeSocket b s socket))
    (hdio : ∀ s dio, Wired s → P s → P (deinitializeDio b s dio)) {s : Network}
    (hs : Wired s) (hfew : ∀ eo, (s.eoDests b eo).length ≤ 2) (h : P s) :
    P (s.deinitialize b) ∧ Released (s.deinitialize b) b := by
  unfold deinitialize
  simp only
  generalize heq₁ : (List.range (s.spec b).eoNames.length).foldl (deinitializeEO b) s = s₁
  generalize heq₂ : (List.range (s₁.spec b).diNames.length).foldl (deinitializeDI b) s₁ = s₂
  generalize heq₃ :
    (List.range (s₂.spec b).socketNames.length).foldl (deinitializeSocket b) s₂ = s₃
  generalize heq₄ : (List.range (s₃.spec b).dioNames.length).foldl (deinitializeDio b) s₃ = s₄
  obtain ⟨hs₁, hP₁, hdests⟩ := foldl_deinitializeEO hevent hs hfew h heq₁
  obtain ⟨hs₂, hP₂, hfewer₂, hinputs⟩ := foldl_deinitializeDI hinput hs₁ hP₁ heq₂
  obtain ⟨hs₃, hP₃, hfewer₃, hsockets⟩ := foldl_deinitializeSocket hsocket hs₂ hP₂ heq₃
  obtain ⟨hP₄, hfewer₄, hinOuts⟩ := foldl_deinitializeDio hdio hs₃ hP₃
    (fun di => hfewer₃.diConn_eq_none (hinputs di)) heq₄
  refine ⟨hP₄, fun p => ?_, fun p => ?_, fun p => ?_, hinOuts⟩
  · exact ((hfewer₂.trans hfewer₃).trans hfewer₄).eoDests_eq_nil (hdests p)
  · exact (hfewer₃.trans hfewer₄).diConn_eq_none (hinputs p)
  · exact Fewer.eq_none (hfewer₄.adapterBack b p) (hsockets p)

end Deinitialize

/-! ### Destructing function blocks -/

/-- **No connection leads across the border** of some function blocks, but for those that
`deinitialize` takes down from inside: events that go out, data that comes in, sockets and
in-outs that get their connections from outside. -/
structure Closed (s : Network) (inside : FBId → Bool) : Prop where
  event : ∀ a p d, d ∈ s.eoDests a p → inside d.fb = true → inside a = true
  input : ∀ a p conn, s.diConn a p = some conn → ∀ c ∈ conn.connections,
    inside c.src.fb = true → inside a = true
  inOut : ∀ a p d, d ∈ s.dioDests a p → inside a = true → inside d.fb = true
  adapter : ∀ a p d, s.plugSocket a p = some d → inside a = true → inside d.fb = true

/-- **Some function blocks have no connections at all.** -/
structure Isolated (s : Network) (inside : FBId → Bool) : Prop where
  event : ∀ a p d, d ∈ s.eoDests a p → inside a = false ∧ inside d.fb = false
  input : ∀ a p conn, s.diConn a p = some conn → inside a = false ∧
    ∀ c ∈ conn.connections, inside c.src.fb = false
  inOut : ∀ a p d, d ∈ s.dioDests a p → inside a = false ∧ inside d.fb = false
  adapter : ∀ a p d, s.plugSocket a p = some d → inside a = false ∧ inside d.fb = false

theorem Fewer.closed {s s' : Network} (h : Fewer s s') {inside : FBId → Bool}
    (hs : Closed s inside) : Closed s' inside where
  event a p d hd := hs.event a p d ((h.event a p).subset hd)
  input a p conn' hconn' c hc := by
    obtain ⟨conn, hconn, -, hsub⟩ := h.input a p conn' hconn'
    exact hs.input a p conn hconn c (hsub.subset hc)
  inOut a p d hd := hs.inOut a p d ((h.inOut a p).subset hd)
  adapter a p d hd := hs.adapter a p d (h.adapter a p d hd)

/-- What is closed and has been deinitialized is isolated. -/
theorem Closed.isolated {s : Network} (hs : Wired s) {inside : FBId → Bool}
    (h : Closed s inside) (hreleased : ∀ b, inside b = true → Released s b) :
    Isolated s inside where
  event a p d hd := by
    have ha : ¬inside a = true := fun ha => by
      rw [(hreleased a ha).event p] at hd
      exact List.not_mem_nil hd
    exact ⟨Bool.not_eq_true _ ▸ ha, Bool.not_eq_true _ ▸ fun hin => ha (h.event a p d hd hin)⟩
  input a p conn hconn := by
    have ha : ¬inside a = true := fun ha => by
      rw [(hreleased a ha).input p] at hconn
      cases hconn
    exact ⟨Bool.not_eq_true _ ▸ ha,
      fun c hc => Bool.not_eq_true _ ▸ fun hin => ha (h.input a p conn hconn c hc hin)⟩
  inOut a p d hd := by
    have hback := (hs.inOutBack a p d).mp hd
    have hin : ¬inside d.fb = true := fun hin => by
      rw [(hreleased d.fb hin).inOut d.port] at hback
      cases hback
    exact ⟨Bool.not_eq_true _ ▸ fun ha => hin (h.inOut a p d hd ha), Bool.not_eq_true _ ▸ hin⟩
  adapter a p d hd := by
    have hback := (hs.adapterBack a p d).mp (Option.mem_toList.mpr hd)
    have hin : ¬inside d.fb = true := fun hin => by
      rw [(hreleased d.fb hin).adapter d.port] at hback
      cases hback
    exact ⟨Bool.not_eq_true _ ▸ fun ha => hin (h.adapter a p d hd ha), Bool.not_eq_true _ ▸ hin⟩

/-- A table that is empty for the function blocks that go is not changed by their going. -/
theorem without_eq_self {γ : Type} {gone : FBId → Bool} {new old : FBId → γ}
    (h : ∀ b, gone b = true → old b = new b) : without gone new old = old := by
  funext b
  unfold without
  split
  · rename_i hb
    exact (h b hb).symm
  · rfl

/-- **Two networks with the same connections.** -/
structure SameConnections (s s' : Network) : Prop where
  event : s'.eoDests = s.eoDests
  input : s'.diConn = s.diConn
  inOut : s'.dioDests = s.dioDests
  inOutBack : s'.dioInConn = s.dioInConn
  adapter : s'.plugSocket = s.plugSocket
  adapterBack : s'.socketConn = s.socketConn

/-- The wiring stays right when only function blocks without connections change. -/
theorem Isolated.wired {s s' : Network} {inside : FBId → Bool} (h : Isolated s inside)
    (hs : Wired s) (hsame : SameConnections s s')
    (hkeep : ∀ b, inside b = false → s'.live b = s.live b ∧ s'.spec b = s.spec b) : Wired s' := by
  have hport {names : InterfaceSpec → List StringId} {pt : ConnectionPoint}
      (hpt : inside pt.fb = false) (hold : s.HasPort names pt) : s'.HasPort names pt := by
    obtain ⟨hlive, hspec⟩ := hkeep pt.fb hpt
    rw [HasPort, hlive, hspec]
    exact hold
  refine ⟨?_, ?_, ?_, ?_, ?_, ?_⟩
  · rw [hsame.event]
    exact hs.event.imp fun a p d hd => ⟨hport (h.event a p d hd).1 (hs.event.source hd),
      hport (h.event a p d hd).2 (hs.event.target hd)⟩
  · rw [hsame.input]
    intro b p conn hconn
    have hfits := hs.input b p conn hconn
    obtain ⟨hb, hsources⟩ := h.input b p conn hconn
    exact ⟨hport hb hfits.target,
      fun c hc => (hkeep _ (hsources c hc)).1.trans (hfits.source c hc), hfits.nodup⟩
  · rw [hsame.inOut]
    exact hs.inOut.imp fun a p d hd => ⟨hport (h.inOut a p d hd).1 (hs.inOut.source hd),
      hport (h.inOut a p d hd).2 (hs.inOut.target hd)⟩
  · rw [hsame.inOut, hsame.inOutBack]
    exact hs.inOutBack
  · rw [hsame.adapter]
    refine hs.adapter.imp fun a p d hd => ?_
    have hborder := h.adapter a p d (Option.mem_toList.mp hd)
    exact ⟨hport hborder.1 (hs.adapter.source hd), hport hborder.2 (hs.adapter.target hd)⟩
  · rw [hsame.adapter, hsame.adapterBack]
    exact hs.adapterBack

/-- What is isolated has empty tables. -/
theorem Isolated.empty {s : Network} {inside : FBId → Bool} (h : Isolated s inside)
    (hs : Wired s) {b : FBId} (hb : inside b = true) :
    (s.eoDests b = fun _ => []) ∧ (s.diConn b = fun _ => none) ∧ (s.dioDests b = fun _ => []) ∧
      (s.dioInConn b = fun _ => none) ∧ (s.plugSocket b = fun _ => none) ∧
      s.socketConn b = fun _ => none := by
  -- an end of a connection is outside, so it is not the block
  have hne {x : FBId} (hx : inside x = false) : x ≠ b := by
    rintro rfl
    rw [hb] at hx
    cases hx
  refine ⟨?_, ?_, ?_, ?_, ?_, ?_⟩
  · funext p
    exact List.eq_nil_iff_forall_not_mem.mpr fun d hd => hne (h.event b p d hd).1 rfl
  · funext p
    exact Option.eq_none_iff_forall_ne_some.mpr fun conn hconn => hne (h.input b p conn hconn).1 rfl
  · funext p
    exact List.eq_nil_iff_forall_not_mem.mpr fun d hd => hne (h.inOut b p d hd).1 rfl
  · funext p
    refine Option.eq_none_iff_forall_ne_some.mpr fun q hq => ?_
    have hmem := (hs.inOutBack q.fb q.port ⟨b, p⟩).mpr hq
    exact hne (h.inOut q.fb q.port _ hmem).2 rfl
  · funext p
    exact Option.eq_none_iff_forall_ne_some.mpr fun d hd => hne (h.adapter b p d hd).1 rfl
  · funext p
    refine Option.eq_none_iff_forall_ne_some.mpr fun q hq => ?_
    have hmem := (hs.adapterBack q.fb q.port ⟨b, p⟩).mpr hq
    exact hne (h.adapter q.fb q.port _ (Option.mem_toList.mp hmem)).2 rfl

/-- Destructing function blocks without connections takes no connection away. -/
theorem Isolated.sameConnections_destruct {s : Network} {inside : FBId → Bool}
    (h : Isolated s inside) (hs : Wired s) (p : List StringId) :
    SameConnections s (s.destruct p inside) where
  event := without_eq_self fun _ hb => (h.empty hs hb).1
  input := without_eq_self fun _ hb => (h.empty hs hb).2.1
  inOut := without_eq_self fun _ hb => (h.empty hs hb).2.2.1
  inOutBack := without_eq_self fun _ hb => (h.empty hs hb).2.2.2.1
  adapter := without_eq_self fun _ hb => (h.empty hs hb).2.2.2.2.1
  adapterBack := by
    funext b q
    simp only [destruct, without]
    split
    · rename_i hb
      exact (congrFun (h.empty hs hb).2.2.2.2.2 q).symm
    · beta_reduce
      split
      · rename_i src hsrc
        have hmem := (hs.adapterBack src.fb src.port ⟨b, q⟩).mpr hsrc
        rw [(h.adapter src.fb src.port _ (Option.mem_toList.mp hmem)).1, hsrc]
        rfl
      · rename_i hnone
        exact hnone.symm

theorem Isolated.wired_destruct {s : Network} {inside : FBId → Bool} (h : Isolated s inside)
    (hs : Wired s) (p : List StringId) : Wired (s.destruct p inside) := by
  refine h.wired hs (h.sameConnections_destruct hs p) fun b hb => ?_
  simp only [destruct, without, hb]
  exact ⟨rfl, rfl⟩

theorem mem_within_iff {s : Network} (hn : Named s) {p : List StringId} {b : FBId} :
    b ∈ s.within p ↔ s.isWithin p b = true := by
  rw [within, List.mem_filter, List.mem_range]
  refine and_iff_right_of_imp fun hb => hn.lt_next ?_
  rw [isWithin, Bool.and_eq_true] at hb
  exact hb.1

/-- **What is left when function blocks have been deinitialized** whose event outputs have at
most two destinations: none of them is connected any more. -/
theorem foldl_deinitialize_releases {P : Network → Prop} {s : Network} (bs : List FBId)
    (hs : Wired s) (hfew : ∀ b ∈ bs, ∀ eo, (s.eoDests b eo).length ≤ 2)
    (hP : ∀ t, ∀ b ∈ bs, Wired t → Fewer s t → (∀ eo, (t.eoDests b eo).length ≤ 2) → P t →
      P (t.deinitialize b)) (h : P s) :
    Wired (bs.foldl deinitialize s) ∧ Fewer s (bs.foldl deinitialize s) ∧
      P (bs.foldl deinitialize s) ∧ ∀ b ∈ bs, Released (bs.foldl deinitialize s) b := by
  obtain ⟨⟨hwired, hfewer, hholds⟩, hreleased⟩ := @Runs.run_settles _ _ deinitialize
    (fun t => Wired t ∧ Fewer s t ∧ P t) (fun b t => Released t b) bs
    (fun t b hb ht => by
      obtain ⟨hwired, hfewer, hholds⟩ := ht
      have hfew' (eo : PortId) : (t.eoDests b eo).length ≤ 2 :=
        (hfewer.event b eo).length_le.trans (hfew b hb eo)
      have hreleased := deinitialize_releases (P := fun _ => True) (b := b)
        (fun _ _ _ _ _ _ => trivial) (fun _ _ _ _ => trivial) (fun _ _ _ _ => trivial)
        (fun _ _ _ _ => trivial) hwired hfew' trivial
      exact ⟨⟨hwired.deinitialize b, hfewer.trans (t.fewer_deinitialize b),
        hP t b hb hwired hfewer hfew' hholds⟩, hreleased.2⟩)
    (fun t b b' ht => (t.fewer_deinitialize b).released ht) _ ⟨hs, .refl s, h⟩
  exact ⟨hwired, hfewer, hholds, hreleased⟩

/-! ### New function blocks -/

/-- Connections are between function blocks that exist. -/
theorem Wired.isolated {s : Network} (h : Wired s) : Isolated s fun b => !s.live b where
  event a p d hd := by
    rw [(h.event.source hd).1, (h.event.target hd).1]
    exact ⟨rfl, rfl⟩
  input a p conn hconn := by
    have hfits := h.input a p conn hconn
    rw [hfits.target.1]
    refine ⟨rfl, fun c hc => ?_⟩
    rw [hfits.source c hc]
    rfl
  inOut a p d hd := by
    rw [(h.inOut.source hd).1, (h.inOut.target hd).1]
    exact ⟨rfl, rfl⟩
  adapter a p d hd := by
    have hmem : d ∈ pointers s.plugSocket a p := Option.mem_toList.mpr hd
    rw [(h.adapter.source hmem).1, (h.adapter.target hmem).1]
    exact ⟨rfl, rfl⟩

/-- A table that is empty for the function blocks that do not exist is not changed by a new
instance, which begins with it empty. -/
theorem withNew_eq_self {s : Network} (hs : Named s) {ty : FBType} {γ : Type} {v : γ}
    {old : FBId → γ} (h : ∀ b, (!s.live b) = true → old b = v) :
    s.withNew ty (fun _ => v) old = old := by
  funext b
  rcases s.withNew_cases ty b with ⟨i, part, -, rfl, hnew⟩ | ⟨-, hold⟩
  · rw [hnew]
    refine (h _ ?_).symm
    rw [Bool.not_eq_true', ← Bool.not_eq_true]
    exact fun hlive => absurd (hs.lt_next hlive) (Nat.not_lt.mpr (Nat.le_add_right _ _))
  · exact hold ..

theorem Wired.sameConnections_addInstance {s : Network} (h : Wired s) (hs : Named s)
    (p : List StringId) (ty : FBType) : SameConnections s (s.addInstance p ty) where
  event := withNew_eq_self hs fun _ hb => (h.isolated.empty h hb).1
  input := withNew_eq_self hs fun _ hb => (h.isolated.empty h hb).2.1
  inOut := withNew_eq_self hs fun _ hb => (h.isolated.empty h hb).2.2.1
  inOutBack := withNew_eq_self hs fun _ hb => (h.isolated.empty h hb).2.2.2.1
  adapter := withNew_eq_self hs fun _ hb => (h.isolated.empty h hb).2.2.2.2.1
  adapterBack := withNew_eq_self hs fun _ hb => (h.isolated.empty h hb).2.2.2.2.2

theorem Wired.addInstance {s : Network} (h : Wired s) (hs : Named s) (p : List StringId)
    (ty : FBType) : Wired (s.addInstance p ty) := by
  refine h.isolated.wired h (h.sameConnections_addInstance hs p ty) fun b hb => ?_
  have hlt : b < s.next := hs.lt_next (by simpa using hb)
  exact ⟨withNew_of_lt ty hlt _ _, withNew_of_lt ty hlt _ _⟩

end Network

end Forte
