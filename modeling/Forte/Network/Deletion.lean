import Forte.Network.Counting

/-!
# Counters over the runs of a resource

The counters are right in every state of a run whose commands reach none of the places where
the source counts wrong: a connection that is created though it exists, an event connection
that is deleted though it does not exist, and the deletion of a function block that has an
event output with more than two destinations, or a data input that gathers members, or
function blocks in it that others are connected to (`Forte.Network.counts_exactly`).
-/

namespace Forte

namespace Network

/-! ### Deleting a function block -/

/-- **A function block can be released** with all that is in it: `deinitialize` visits every
destination of its events, and no connection refers from outside to a function block inside,
whose counter nobody looks at. -/
structure Releasable (s : Network) (p : List StringId) (b : FBId) : Prop where
  few : ∀ a, s.isWithin p a = true → ∀ eo, (s.eoDests a eo).length ≤ 2
  event : ∀ a eo d, d ∈ s.eoDests a eo → s.isWithin p d.fb = true →
    s.isWithin p a = true ∨ d.fb = b
  input : ∀ a di conn, s.diConn a di = some conn → ∀ c ∈ conn.connections,
    s.isWithin p c.src.fb = true → s.isWithin p a = true ∨ c.src.fb = b
  inOut : ∀ a dio d, d ∈ s.dioDests a dio → s.isWithin p a = true →
    s.isWithin p d.fb = true ∨ a = b
  adapter : ∀ a plug d, s.plugSocket a plug = some d → s.isWithin p a = true →
    s.isWithin p d.fb = true ∨ a = b

/-- No data input of the function block, or of one in it, gathers members. -/
def Ungathered (s : Network) (p : List StringId) : Prop :=
  ∀ a, s.isWithin p a = true → ∀ di ms, s.diConn a di ≠ some (.gathering ms)

/-- What can be released, and is not referred to itself, is closed. -/
theorem Releasable.closed {s : Network} {p : List StringId} {b : FBId} (h : Releasable s p b)
    (hb : Unreferenced s b) : Closed s (s.isWithin p) where
  event a q d hd hin := (h.event a q d hd hin).resolve_right (hb.event a q d hd)
  input a q conn hconn c hc hin :=
    (h.input a q conn hconn c hc hin).resolve_right (hb.input a q conn hconn c hc)
  inOut a q d hd hin := (h.inOut a q d hd hin).resolve_right (hb.inOut a q d hd).2
  adapter a q d hd hin := (h.adapter a q d hd hin).resolve_right (hb.adapter a q d hd).2

/-- **What a releasable function block leaves before it is destructed**: nothing that is in it
is connected, and whatever deinitializing the function blocks in it keeps is kept. -/
theorem Releasable.deinitialized {P : Network → Prop} {s : Network} {p : List StringId} {b : FBId}
    (h : Releasable s p b) (hn : Named s) (hs : Wired s) (hb : Unreferenced s b)
    (hP : ∀ t a, s.isWithin p a = true → Wired t → Fewer s t →
      (∀ eo, (t.eoDests a eo).length ≤ 2) → P t → P (t.deinitialize a)) (hholds : P s) :
    Wired ((s.within p).foldl deinitialize s) ∧ Fewer s ((s.within p).foldl deinitialize s) ∧
      P ((s.within p).foldl deinitialize s) ∧
      Isolated ((s.within p).foldl deinitialize s) (s.isWithin p) := by
  obtain ⟨hwired, hfewer, hholds, hreleased⟩ := foldl_deinitialize_releases (P := P) (s.within p)
    hs (fun a ha => h.few a ((mem_within_iff hn).mp ha))
    (fun t a ha => hP t a ((mem_within_iff hn).mp ha)) hholds
  exact ⟨hwired, hfewer, hholds, (hfewer.closed (h.closed hb)).isolated hwired
    fun a ha => hreleased a ((mem_within_iff hn).mpr ha)⟩

theorem Wired.deleteInstance {s : Network} (hs : Wired s) (hn : Named s) {p : List StringId}
    {b : FBId} (h : Releasable s p b) (hb : Unreferenced s b) : Wired (s.deleteInstance p) := by
  obtain ⟨hwired, -, -, hisolated⟩ := h.deinitialized (P := fun _ => True) hn hs hb
    (fun _ _ _ _ _ _ _ => trivial) trivial
  exact hisolated.wired_destruct hwired p

theorem Counted.deleteInstance {s : Network} {more : FBId → ℕ} {moreEvents : FBId → PortId → ℕ}
    (hc : Counted s more moreEvents) (hn : Named s) (hs : Wired s) {p : List StringId}
    {b : FBId} (h : Releasable s p b) (hb : Unreferenced s b) (hsingle : Ungathered s p) :
    Counted (s.deleteInstance p) more moreEvents := by
  obtain ⟨hwired, hfewer, hcounted, hisolated⟩ := h.deinitialized
    (P := fun t => Counted t more moreEvents) hn hs hb
    (fun t a ha ht hfewer hfew hc => hc.deinitialize (hn.of_sameBlocks hfewer.blocks) ht hfew
      (hfewer.not_gathering (hsingle a ha))) hc
  exact hcounted.destruct (hn.of_sameBlocks hfewer.blocks) hwired hisolated p

/-- A function block that may be deleted is not counted, and not referred to. -/
theorem Counted.unreferenced {s : Network} {more : FBId → ℕ} {moreEvents : FBId → PortId → ℕ}
    (hc : Counted s more moreEvents) (hn : Named s) (hs : Wired s) {p : List StringId} {b : FBId}
    (hdir : s.dir p = some (.block b)) (hdel : s.isCurrentlyDeleteable b = true) :
    Unreferenced s b := by
  have hzero : s.connRefCount b = 0 := by
    rw [isCurrentlyDeleteable, Bool.and_eq_true, decide_eq_true_eq] at hdel
    exact hdel.2
  refine (connectionsOf_eq_zero_iff hn hs).mp ?_
  have := hc.count b (hn.live_of_dir hdir)
  omega

/-! ### The commands -/

theorem Wired.createConnection {s : Network} (hs : Wired s) (hn : Named s)
    (src dst : List StringId) : Wired (s.createConnection src dst).1 := by
  rcases s.createConnection_cases src dst with
    ⟨r, -, heq⟩ | ⟨c, b, ports, s', r, hc, hdst, hconnect, heq⟩
  · rw [heq]
    exact hs
  · have hwired := (connect_connects s c b ports).wired hs (hn.sourced hc)
      (hn.live_of_getDestination hdst)
    rw [hconnect] at hwired
    rw [heq]
    split
    · exact ⟨hwired.event, hwired.input, hwired.inOut, hwired.inOutBack, hwired.adapter,
        hwired.adapterBack⟩
    · exact hwired

theorem Wired.deleteConnection {s : Network} (hs : Wired s) (src dst : List StringId) :
    Wired (s.deleteConnection src dst).1 := by
  rcases s.deleteConnection_cases src dst with ⟨r, -, heq⟩ | ⟨c, b, ports, -, -, heq⟩
  · rw [heq]
    exact hs
  · rw [heq]
    exact (disconnect_disconnects s c b ports).wired hs

/-- **What a `createConnection` must not be asked for** for the sake of the counters: a
connection that exists. -/
def CreatesNew (s : Network) (src dst : List StringId) : Prop :=
  ∀ c b ports, s.getOutputConnection [] src = some c → s.getDestination dst = some (b, ports) →
    ¬s.EventExists c b ports ∧ ¬s.DataExists c b ports

section Commands

variable {s : Network} {more : FBId → ℕ} {moreEvents : FBId → PortId → ℕ}

theorem Counted.createConnection (h : Counted s more moreEvents) (hn : Named s)
    (src dst : List StringId) :
    ∃ more' moreEvents', Counted (s.createConnection src dst).1 more' moreEvents' ∧
      (s.CreatesNew src dst → more' = more ∧ moreEvents' = moreEvents) := by
  rcases s.createConnection_cases src dst with
    ⟨r, -, heq⟩ | ⟨c, b, ports, s', r, hc, hdst, hconnect, heq⟩
  · rw [heq]
    exact ⟨more, moreEvents, h, fun _ => ⟨rfl, rfl⟩⟩
  · obtain ⟨more', moreEvents', hcounted, hsame⟩ := (connect_connects s c b ports).counted hn
      (hn.sourced hc) (hn.live_of_getDestination hdst) h
    rw [hconnect] at hcounted
    refine ⟨more', moreEvents', ?_, fun hnew => ?_⟩
    · rw [heq]
      split
      · exact ⟨hcounted.count, hcounted.events, hcounted.safe⟩
      · exact hcounted
    · obtain ⟨hevent, hdata⟩ := hnew c b ports hc hdst
      exact hsame hevent hdata

/-- The connection that a `deleteConnection` goes to is the member's own, if it is a member
that goes. -/
theorem atOwnMember_of_walks (hn : Named s) {src dst ports : List StringId} {b : FBId}
    {c : Connection} (hdst : s.getDestination dst = some (b, ports))
    (hc : s.getInputConnection [] dst = some c ∨
      s.getInputConnection [] dst = none ∧ s.getOutputConnection [] src = some c) :
    s.AtOwnMember c b ports := by
  rintro d name names di ms rfl rfl - hdi hconn hmem
  obtain ⟨d', hd', hin⟩ := mem_of_getInputConnection hn hdi hconn hdst hmem
  rw [hin] at hc
  rcases hc with hc | ⟨hnone, -⟩
  · injection hc with hc
    injection hc with hc
    rwa [hc] at hd'
  · cases hnone

theorem Counted.deleteConnection (h : Counted s more moreEvents) (hn : Named s) (hs : Wired s)
    {src dst : List StringId} (hdel : s.Deletable src dst) :
    Counted (s.deleteConnection src dst).1 more moreEvents := by
  rcases s.deleteConnection_cases src dst with ⟨r, -, heq⟩ | ⟨c, b, ports, hdst, hc, heq⟩
  · rw [heq]
    exact h
  · rw [heq]
    refine (disconnect_disconnects s c b ports).counted hn hs ?_ (atOwnMember_of_walks hn hdst hc) h
    rcases hc with hin | ⟨hin, hout⟩
    · rintro ⟨src', -, -, rfl, -⟩
      exact getInputConnection_ne_event hin src' rfl
    · exact hdel c b ports hin hout hdst

end Commands

/-- What new containers and new instances keep is kept by `createFB`. -/
theorem createFBIn_preserves {P : Network → Prop}
    (hfolder : ∀ s p name, P s → P (s.findOrCreateContainer p name))
    (hnew : ∀ s p ty, Named s → P s → P (s.addInstance p ty)) (lib : TypeLibrary) {s : Network}
    (hn : Named s) (p : List StringId) (typeName : StringId) (typeHash : String)
    (names : List StringId) (h : P s) : P (createFBIn lib s p typeName typeHash names).1 := by
  induction names generalizing s p with
  | nil => exact h
  | cons name names ih =>
    unfold createFBIn
    split
    · exact h
    rename_i hdyn
    rw [Bool.not_eq_true, Bool.not_eq_false'] at hdyn
    split
    · split
      · exact h
      split
      · exact h
      · exact hnew s _ _ hn h
    · simp only
      split
      · exact ih (hn.findOrCreateContainer hdyn name) _ (hfolder s p name h)
      · exact hfolder s p name h

theorem Wired.findOrCreateContainer {s : Network} (h : Wired s) (p : List StringId)
    (name : StringId) : Wired (s.findOrCreateContainer p name) := by
  unfold Network.findOrCreateContainer
  split
  · exact h
  · exact ⟨h.event, h.input, h.inOut, h.inOutBack, h.adapter, h.adapterBack⟩

theorem Counted.findOrCreateContainer {s : Network} {more : FBId → ℕ}
    {moreEvents : FBId → PortId → ℕ} (h : Counted s more moreEvents) (p : List StringId)
    (name : StringId) : Counted (s.findOrCreateContainer p name) more moreEvents := by
  unfold Network.findOrCreateContainer
  split
  · exact h
  · exact ⟨h.count, h.events, h.safe⟩

theorem withNew_const {γ : Type} (s : Network) (ty : FBType) (v : γ) :
    s.withNew ty (fun _ => v) (fun _ => v) = fun _ => v := by
  funext b
  rcases s.withNew_cases ty b with ⟨i, part, -, -, hnew⟩ | ⟨-, hold⟩
  · exact hnew ..
  · exact hold ..

/-! ### Runs -/

/-- **What a command must not reach** for the counters to be right. -/
def Countable (s : Network) : NetworkCommand → Prop
  | .createFB _ _ _ => True
  | .deleteFB name => ∀ b, s.dir name = some (.block b) → s.isCurrentlyDeleteable b = true →
      s.Releasable name b ∧ s.Ungathered name
  | .createConnection src dst => s.CreatesNew src dst
  | .deleteConnection src dst => s.Deletable src dst

/-- **The counters are right**: `mConnRefCount` is the number of connections that refer to the
function block, each event input counts the event connections into it, no counter has been
counted down below zero, and a function block is deletable exactly if its execution state
allows it and no connection refers to it. -/
structure CountsExactly (s : Network) : Prop where
  connRefCount : ∀ b, s.live b = true → s.connRefCount b = s.connectionsOf b
  inputEventConnectionCount : ∀ b, s.live b = true → s.tracksInputs b = true → ∀ ei,
    s.inputEventConnectionCount b ei = s.eventsInto ⟨b, ei⟩
  underflow : s.underflow = false
  isCurrentlyDeleteable : ∀ b, s.live b = true → (s.isCurrentlyDeleteable b = true ↔
    s.deletable b = true ∧ s.state b ≠ .running ∧ Unreferenced s b)

/-- What holds in every state of a run whose commands are countable. -/
structure Sound (s : Network) : Prop where
  named : Named s
  wired : Wired s
  counted : Counted s 0 0

theorem sound_initial : Sound initial := ⟨named_initial, wired_initial, counted_initial⟩

theorem Sound.execute {s : Network} (h : Sound s) (lib : TypeLibrary) (cmd : NetworkCommand)
    (hcmd : s.Countable cmd) : Sound (s.execute lib cmd).1 := by
  have hnamed := h.named.execute lib cmd
  cases cmd with
  | createFB name typeName typeHash =>
    obtain ⟨hwired, hcounted⟩ := createFBIn_preserves (P := fun s => Wired s ∧ Counted s 0 0)
      (fun s p name h => ⟨h.1.findOrCreateContainer p name, h.2.findOrCreateContainer p name⟩)
      (fun s p ty hn h => by
        have hcounted := h.2.addInstance hn h.1 p ty
        have hmore : s.withNew ty (fun _ => 0) (0 : FBId → ℕ) = 0 := s.withNew_const ty 0
        have hevents : s.withNew ty (fun _ _ => 0) (0 : FBId → PortId → ℕ) = 0 :=
          s.withNew_const ty (fun _ => 0)
        rw [hmore, hevents] at hcounted
        exact ⟨h.1.addInstance hn p ty, hcounted⟩)
      lib h.named [] typeName typeHash name ⟨h.wired, h.counted⟩
    exact ⟨hnamed, hwired, hcounted⟩
  | deleteFB name =>
    rcases s.deleteFBIn_cases [] name with ⟨r, -, heq⟩ | ⟨q, n, b, hdir, hdel, hname, heq⟩
    · rw [Network.execute, heq]
      exact h
    · rw [List.nil_append] at hname
      subst hname
      -- the condition on the command is one on the instance it deletes
      obtain ⟨hrelease, hsingle⟩ := hcmd b hdir hdel
      have hunref := h.counted.unreferenced h.named h.wired hdir hdel
      rw [Network.execute, heq] at hnamed ⊢
      exact ⟨hnamed, h.wired.deleteInstance h.named hrelease hunref,
        h.counted.deleteInstance h.named h.wired hrelease hunref hsingle⟩
  | createConnection src dst =>
    obtain ⟨more, moreEvents, hcounted, hsame⟩ := h.counted.createConnection h.named src dst
    obtain ⟨rfl, rfl⟩ := hsame hcmd
    exact ⟨hnamed, h.wired.createConnection h.named src dst, hcounted⟩
  | deleteConnection src dst =>
    exact ⟨hnamed, h.wired.deleteConnection src dst,
      h.counted.deleteConnection h.named h.wired hcmd⟩

theorem Sound.countsExactly {s : Network} (h : Sound s) : CountsExactly s where
  connRefCount := h.counted.count
  inputEventConnectionCount := h.counted.events
  underflow := h.counted.safe
  isCurrentlyDeleteable b hb := by
    rw [← connectionsOf_eq_zero_iff h.named h.wired, Network.isCurrentlyDeleteable,
      Bool.and_eq_true, Bool.and_eq_true, decide_eq_true_eq, decide_eq_true_eq, and_assoc,
      h.counted.count b hb]
    exact Iff.rfl

/-- A source whose event is connected to a sink. -/
def eventConnected : Network :=
  (sourceAndSink.execute sampleTypes (.createConnection ["A", "CNF"] ["B", "REQ"])).1

theorem eventConnected_counted : Run sampleTypes Countable initial
    (eventConnected.execute sampleTypes (.deleteFB ["B"])).1 := by
  refine .command (.command (.command (.command (.refl _) _ trivial) _ trivial) _ ?_) _ ?_
  · intro c b ports hc hdst
    have hc' : sourceAndSink.getOutputConnection [] ["A", "CNF"] = some (.event ⟨1, 0⟩) := by
      decide
    obtain rfl := Option.some.inj (hc'.symm.trans hc)
    refine ⟨?_, ?_⟩
    · rintro ⟨src, name, ei, hsrc, -, -, hmem⟩
      obtain rfl := Connection.event.inj hsrc
      have hnil : sourceAndSink.eoDests 1 0 = [] := by decide
      exact List.not_mem_nil (hnil ▸ hmem)
    · rintro ⟨d, -, -, hd, -⟩
      exact Connection.noConfusion hd
  · intro b hdir hdel
    have hdir' : eventConnected.dir ["B"] = some (.block 2) := by decide
    obtain rfl := Entry.block.inj (Option.some.inj (hdir'.symm.trans hdir))
    have hnot : eventConnected.isCurrentlyDeleteable 2 = false := by decide
    exact absurd (hnot.symm.trans hdel) Bool.false_ne_true

end Network

end Forte
