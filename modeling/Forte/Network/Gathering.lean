import Forte.Network.Naming

/-!
# Gathering connections

The members of one struct input, fed by several connections. A run of commands with member
access on the input is recorded beside the network: which member connections are alive, in
the order in which they were created – a member connection is created by a command that is
answered with `Ready`, and dies with the next deletion for that member that is. The
gathering connection at the input has recorded the same ones at any time
(`Forte.Network.gatheredMembers_eq_live`), and when none is left everything that was counted
is as it was.
-/

namespace Forte

namespace Network

/-- The member connections that are recorded at a data input. -/
def gatheredMembers (s : Network) (b : FBId) (di : PortId) :
    List (List StringId × DataConnection) :=
  match s.diConn b di with
  | some (.gathering members) => members
  | _ => []

/-- The member connections alive after a `createConnection` for the member `names`. -/
def liveAfterCreate (s : Network) (src dst names : List StringId)
    (live : List (List StringId × DataConnection)) : List (List StringId × DataConnection) :=
  match (s.createConnection src dst).2, s.getOutputConnection [] src with
  | .ready, some (.data c) => live ++ [(names, c)]
  | _, _ => live

/-- The member connections alive after a `deleteConnection` for the member `names`. -/
def liveAfterDelete (s : Network) (src dst names : List StringId)
    (live : List (List StringId × DataConnection)) : List (List StringId × DataConnection) :=
  if (s.deleteConnection src dst).2 = .ready then live.filter (·.1 ≠ names) else live

/-- **A run of commands on the members of a data input**, the input `name` of the function
block `b`, with the member connections that are alive after it. Every command may fail. -/
inductive MemberRun (b : FBId) (name : StringId) (s₀ : Network) :
    Network → List (List StringId × DataConnection) → Prop
  | refl : MemberRun b name s₀ s₀ []
  | create {s : Network} {live : List (List StringId × DataConnection)}
      (run : MemberRun b name s₀ s live) (src dst names : List StringId) (hne : names ≠ [])
      (hdst : s.getDestination dst = some (b, name :: names)) :
      MemberRun b name s₀ (s.createConnection src dst).1 (s.liveAfterCreate src dst names live)
  | delete {s : Network} {live : List (List StringId × DataConnection)}
      (run : MemberRun b name s₀ s live) (src dst names : List StringId) (hne : names ≠ [])
      (hdst : s.getDestination dst = some (b, name :: names)) :
      MemberRun b name s₀ (s.deleteConnection src dst).1 (s.liveAfterDelete src dst names live)

/-- The function blocks at the sources of member connections. -/
def sources (live : List (List StringId × DataConnection)) : List FBId := live.map (·.2.src.fb)

/-- **What a run on the members of an input leaves**, from a network `s₀` where the input had
no connection: the gathering connection of the members alive, the counters as they were but
for their sources, and all else that refers to function blocks unchanged. -/
structure Gathers (s₀ s : Network) (b : FBId) (di : PortId)
    (live : List (List StringId × DataConnection)) : Prop where
  blocks : SameBlocks s₀ s
  conn : s.diConn b di = gathered live
  nodup : (live.map (·.1)).Nodup
  count : ∀ x, s.connRefCount x = s₀.connRefCount x + (sources live).count x
  others : ∀ b' di', ¬(b' = b ∧ di' = di) → s.diConn b' di' = s₀.diConn b' di'
  eoDests : s.eoDests = s₀.eoDests
  dioDests : s.dioDests = s₀.dioDests
  plugSocket : s.plugSocket = s₀.plugSocket

theorem gathered_eq_gathering_iff {live ms : List (List StringId × DataConnection)} :
    gathered live = some (.gathering ms) ↔ live = ms ∧ live ≠ [] := by
  unfold gathered
  split
  · rename_i hnil
    exact ⟨nofun, fun h => absurd hnil h.2⟩
  · rename_i hne
    simp only [Option.some.injEq, InputConnection.gathering.injEq]
    exact ⟨fun h => ⟨h, hne⟩, fun h => h.1⟩

theorem gathered_concat (live : List (List StringId × DataConnection))
    (m : List StringId × DataConnection) :
    gathered (live ++ [m]) = some (.gathering (live ++ [m])) :=
  if_neg (List.append_ne_nil_of_right_ne_nil _ (List.cons_ne_nil _ _))

/-- A gathering connection that `connect` found or made has recorded the members alive. -/
theorem eq_of_gathered {live ms : List (List StringId × DataConnection)}
    (h : gathered live = none ∧ ms = [] ∨ gathered live = some (.gathering ms)) : live = ms := by
  rcases h with ⟨hnone, rfl⟩ | hsome
  · unfold gathered at hnone
    split at hnone
    · rename_i hnil
      exact hnil
    · exact absurd hnone nofun
  · exact (gathered_eq_gathering_iff.mp hsome).1

theorem count_sources_cons (m : List StringId × DataConnection)
    (live : List (List StringId × DataConnection)) (x : FBId) :
    (sources (m :: live)).count x = (sources live).count x + [m.2.src.fb].count x := by
  rw [sources, List.map_cons, List.count_cons, List.count_singleton]
  rfl

/-- The counters when one member connection of several goes. -/
theorem count_sources_filter {live : List (List StringId × DataConnection)}
    (hnodup : (live.map (·.1)).Nodup) {names : List StringId} {d : DataConnection}
    (hd : (names, d) ∈ live) (x : FBId) :
    (sources (live.filter (·.1 ≠ names))).count x + [d.src.fb].count x =
      (sources live).count x := by
  induction live with
  | nil => exact absurd hd List.not_mem_nil
  | cons m live ih =>
    rw [List.map_cons, List.nodup_cons] at hnodup
    rcases List.mem_cons.mp hd with rfl | hlive
    · have hrest : live.filter (·.1 ≠ names) = live :=
        List.filter_eq_self.mpr fun a ha => decide_eq_true fun heq =>
          hnodup.1 (heq ▸ List.mem_map_of_mem (f := (·.1)) ha)
      rw [List.filter_cons_of_neg (by simp), hrest, count_sources_cons]
    · have hne : m.1 ≠ names := fun heq =>
        hnodup.1 (heq ▸ List.mem_map_of_mem (f := (·.1)) hlive)
      rw [List.filter_cons_of_pos (by simpa using hne), count_sources_cons, count_sources_cons]
      have := ih hnodup.2 hlive
      omega

/-- The connection that a deletion with member access goes to is the member's own if there
is one. -/
theorem mem_of_getInputConnection {s : Network} (hs : Named s) {b : FBId} {di : PortId}
    {name : StringId} {dst names : List StringId} {ms : List (List StringId × DataConnection)}
    (hdi : getPortId name (s.spec b).diNames = some di)
    (hconn : s.diConn b di = some (.gathering ms))
    (hdst : s.getDestination dst = some (b, name :: names)) (hmem : names ∈ ms.map (·.1)) :
    ∃ d, (names, d) ∈ ms ∧ s.getInputConnection [] dst = some (.data d) := by
  obtain ⟨m, hm, hname⟩ := List.mem_map.mp hmem
  have hfind : (ms.find? (·.1 = names)).isSome := by
    rw [List.find?_isSome]
    exact ⟨m, hm, by simpa using hname⟩
  obtain ⟨⟨names', d⟩, hfound⟩ := Option.isSome_iff_exists.mp hfind
  obtain rfl : names' = names := by simpa using List.find?_some hfound
  refine ⟨d, List.mem_of_find?_eq_some hfound, getInputConnection_of_portInput hs hdst ?_⟩
  simp only [portInput, hdi, Option.bind_some, hconn, InputConnection.getMemberConnection,
    hfound, Option.map_some]

section Steps

variable {s₀ s : Network} {b : FBId} {di : PortId} {name : StringId}
  {live : List (List StringId × DataConnection)} {names : List StringId}

/-- **Connecting a member.** -/
theorem Gathers.connect (h : Gathers s₀ s b di live)
    (hdi : getPortId name (s₀.spec b).diNames = some di) (hne : names ≠ []) (c : Connection) :
    (s.connect c b (name :: names)).2 ≠ .ready ∧
      Gathers s₀ (s.connect c b (name :: names)).1 b di live ∨
    ∃ d, c = .data d ∧ (s.connect c b (name :: names)).2 = .ready ∧
      Gathers s₀ (s.connect c b (name :: names)).1 b di (live ++ [(names, d)]) := by
  rw [← h.blocks.spec] at hdi
  have hout := connect_connects s c b (name :: names)
  generalize hports : name :: names = ports at hout
  generalize s.connect c b ports = o at hout
  -- with member access there is only one way to be connected
  cases hout with
  | refused hr => exact .inl ⟨hr, h⟩
  | adapted =>
    obtain ⟨types, heq, -⟩ := s.handleAnySrcPortConnection_eq _ _
    rw [heq]
    exact .inl ⟨nofun, h.blocks.trans ⟨rfl, rfl, rfl, rfl, rfl, rfl, rfl⟩, h.conn, h.nodup,
      h.count, h.others, h.eoDests, h.dioDests, h.plugSocket⟩
  | @member d name' names' di' ms types hdi' _ hms hnew =>
    obtain ⟨rfl, rfl⟩ := List.cons.inj hports
    obtain rfl : di = di' := Option.some.inj (hdi.symm.trans hdi')
    rw [h.conn] at hms
    obtain rfl := eq_of_gathered hms
    refine .inr ⟨d, rfl, rfl, ?_⟩
    refine ⟨h.blocks.trans ⟨rfl, rfl, rfl, rfl, rfl, rfl, rfl⟩, ?_, ?_, ?_, ?_, h.eoDests,
      h.dioDests, h.plugSocket⟩
    · rw [gathered_concat]
      exact setAt_self ..
    · rw [List.map_append, List.map_singleton]
      exact h.nodup.append (List.nodup_singleton _) (by simpa using hnew)
    · intro x
      have hup : (s.incConnRefCount d.src.fb).connRefCount x =
          s.connRefCount x + [d.src.fb].count x := countUp_apply ..
      rw [sources, List.map_append, List.count_append, ← sources, ← Nat.add_assoc, ← h.count x]
      exact hup
    · intro b' di' hne'
      exact (setAt_of_ne _ _ _ _ hne').trans (h.others b' di' hne')
  | eventAgain | event | data | inOut | adapter =>
    exact absurd (List.cons.inj hports).2 hne

/-- **Disconnecting a member**, through its own connection, or through one whose source the
names lead to when the member has none. -/
theorem Gathers.disconnect (h : Gathers s₀ s b di live)
    (hdi : getPortId name (s₀.spec b).diNames = some di) (hne : names ≠ []) {c : Connection}
    (hc : names ∈ live.map (·.1) → ∃ d, (names, d) ∈ live ∧ c = .data d) :
    (s.disconnect c b (name :: names)).2 ≠ .ready ∧
      Gathers s₀ (s.disconnect c b (name :: names)).1 b di live ∨
    (s.disconnect c b (name :: names)).2 = .ready ∧
      Gathers s₀ (s.disconnect c b (name :: names)).1 b di (live.filter (·.1 ≠ names)) := by
  rw [← h.blocks.spec] at hdi
  have hout := disconnect_disconnects s c b (name :: names)
  generalize hports : name :: names = ports at hout
  generalize s.disconnect c b ports = o at hout
  cases hout with
  | refused hr => exact .inl ⟨hr, h⟩
  | @member d' name' names' di' ms hdi' _ hconn hmem =>
    obtain ⟨rfl, rfl⟩ := List.cons.inj hports
    obtain rfl : di = di' := Option.some.inj (hdi.symm.trans hdi')
    rw [h.conn] at hconn
    obtain ⟨rfl, -⟩ := gathered_eq_gathering_iff.mp hconn
    obtain ⟨d, hd, hcd⟩ := hc hmem
    obtain rfl : d' = d := by injection hcd
    have hcount := count_sources_filter h.nodup hd
    refine .inr ⟨rfl, h.blocks.trans ⟨rfl, rfl, rfl, rfl, rfl, rfl, rfl⟩, setAt_self .., ?_, ?_,
      ?_, h.eoDests, h.dioDests, h.plugSocket⟩
    · exact h.nodup.sublist (List.filter_sublist.map _)
    · intro x
      -- the source of a gathered member is counted at least once
      have hpos : 0 < s.connRefCount d'.src.fb := by
        have := hcount d'.src.fb
        rw [List.count_singleton_self] at this
        rw [h.count]
        omega
      have hdown : (s.decConnRefCount d'.src.fb).connRefCount x + [d'.src.fb].count x =
          s.connRefCount x := countDown_apply hpos x
      have := hcount x
      have := h.count x
      change (s.decConnRefCount d'.src.fb).connRefCount x = _
      omega
    · intro b' di' hne'
      exact (setAt_of_ne _ _ _ _ hne').trans (h.others b' di' hne')
  | eventAbsent | event | data | inOut | adapter =>
    exact absurd (List.cons.inj hports).2 hne

/-- A step of the run that creates a connection. -/
theorem Gathers.create (h : Gathers s₀ s b di live)
    (hdi : getPortId name (s₀.spec b).diNames = some di) (hne : names ≠ [])
    {src dst : List StringId} (hdst : s.getDestination dst = some (b, name :: names)) :
    Gathers s₀ (s.createConnection src dst).1 b di (s.liveAfterCreate src dst names live) := by
  unfold liveAfterCreate
  rcases s.createConnection_cases src dst with
    ⟨r, hr, heq⟩ | ⟨c, b', ports, s', r, hsrc, hdst', hs', heq⟩
  · rw [heq]
    cases r <;> first | exact h | exact absurd rfl hr
  · obtain ⟨rfl, rfl⟩ := Prod.mk.inj (Option.some.inj (hdst.symm.trans hdst'))
    have hconnect := h.connect hdi hne c
    rw [hs'] at hconnect
    rw [heq, hsrc]
    rcases hconnect with ⟨hr, hgathers⟩ | ⟨d, rfl, rfl, hgathers⟩
    · rw [if_neg hr]
      cases r <;> first | exact hgathers | exact absurd rfl hr
    · rw [if_pos rfl]
      exact ⟨hgathers.blocks.trans ⟨rfl, rfl, rfl, rfl, rfl, rfl, rfl⟩, hgathers.conn,
        hgathers.nodup, hgathers.count, hgathers.others, hgathers.eoDests, hgathers.dioDests,
        hgathers.plugSocket⟩

/-- A step of the run that deletes a connection. -/
theorem Gathers.delete (hs : Named s) (h : Gathers s₀ s b di live)
    (hdi : getPortId name (s₀.spec b).diNames = some di) (hne : names ≠ [])
    {src dst : List StringId} (hdst : s.getDestination dst = some (b, name :: names)) :
    Gathers s₀ (s.deleteConnection src dst).1 b di (s.liveAfterDelete src dst names live) := by
  unfold liveAfterDelete
  rcases s.deleteConnection_cases src dst with ⟨r, hr, heq⟩ | ⟨c, b', ports, hdst', hc, heq⟩
  · rw [heq, if_neg hr]
    exact h
  · obtain ⟨rfl, rfl⟩ := Prod.mk.inj (Option.some.inj (hdst.symm.trans hdst'))
    -- a member that is gathered is found by its own name
    have hown : names ∈ live.map (·.1) → ∃ d, (names, d) ∈ live ∧ c = .data d := by
      intro hmem
      have hconn : s.diConn b di = some (.gathering live) := by
        rw [h.conn]
        refine gathered_eq_gathering_iff.mpr ⟨rfl, ?_⟩
        rintro rfl
        exact absurd hmem List.not_mem_nil
      obtain ⟨d, hd, hin⟩ := mem_of_getInputConnection hs (h.blocks.spec ▸ hdi) hconn hdst hmem
      rw [hin] at hc
      rcases hc with hc | ⟨hnone, -⟩
      · exact ⟨d, hd, (Option.some.inj hc).symm⟩
      · exact absurd hnone nofun
    rw [heq]
    rcases h.disconnect hdi hne hown with ⟨hr, hgathers⟩ | ⟨hr, hgathers⟩
    · rw [if_neg hr]
      exact hgathers
    · rw [if_pos hr]
      exact hgathers

end Steps

/-- What holds along a run on the members of an input. -/
theorem MemberRun.gathers {s₀ s : Network} (hs₀ : Named s₀) {b : FBId} {di : PortId}
    {name : StringId} {live : List (List StringId × DataConnection)}
    (hdi : getPortId name (s₀.spec b).diNames = some di) (hnone : s₀.diConn b di = none)
    (run : MemberRun b name s₀ s live) : Gathers s₀ s b di live := by
  induction run with
  | refl =>
    exact ⟨.refl s₀, hnone, List.nodup_nil, fun _ => rfl, fun _ _ _ => rfl, rfl, rfl, rfl⟩
  | create run src dst names hne hdst ih => exact ih.create hdi hne hdst
  | delete run src dst names hne hdst ih =>
    exact ih.delete (hs₀.of_sameBlocks ih.blocks) hdi hne hdst

/-- A source and a sink with a struct input, and nothing connected. -/
def sourceAndSink : Network :=
  let s := (initial.execute sampleTypes (.createFB ["A"] "SOURCE" "")).1
  (s.execute sampleTypes (.createFB ["B"] "SINK" "")).1

theorem sourceAndSink_reached : Run sampleTypes (fun _ _ => True) initial sourceAndSink :=
  .command (.command (.refl _) _ trivial) _ trivial

end Network

end Forte
