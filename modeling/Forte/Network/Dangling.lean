import Mathlib.Data.List.Flatten
import Forte.Network.Deletion

/-!
# References to what is gone

When a function block is deleted nothing that is left may refer to it: no connection has it at
one of its ends, and no in-out or member connection points at one of its values. What is needed
of the counters is that they are not too small (`Forte.Network.Counted`, with any surplus), so
that a function block that is referred to is not deletable; and the values that an in-out points
at are those of an in-out above it (`Forte.Network.Valued`), whose function block the connection
between the two keeps from being deleted. `CInOutDataConnection::disconnect` takes the
connection away and leaves the value, which is where the source fails.
-/

namespace Forte

namespace Network

/-! ### Gathering connections -/

/-- Fewer connections refer to a function block less often. -/
theorem Fewer.connectionsOf_le {s s' : Network} (h : Fewer s s') (b : FBId) :
    s'.connectionsOf b ≤ s.connectionsOf b := by
  have htotal {names : InterfaceSpec → List StringId} {held held' : FBId → PortId → List FBId}
      (hheld : ∀ a p, (held' a p).Sublist (held a p)) :
      s.total names held' b ≤ s.total names held b := by
    unfold total refTotal
    exact Finset.sum_le_sum fun a _ => Finset.sum_le_sum fun p _ => (hheld a p).count_le b
  simp only [connectionsOf, h.blocks.total]
  refine Nat.add_le_add (Nat.add_le_add (Nat.add_le_add (htotal ?_) (htotal ?_)) (htotal ?_))
    (htotal ?_)
  · exact fun a p => (h.event a p).flatMap _
  · intro a p
    cases hconn' : s'.diConn a p with
    | none =>
      simp only [inputSources, hconn', Option.elim, List.map_nil, List.nil_sublist]
    | some conn' =>
      obtain ⟨conn, hconn, -, hsub⟩ := h.input a p conn' hconn'
      simp only [inputSources, hconn', hconn, Option.elim]
      exact hsub.map _
  · exact fun a p => (h.inOut a p).flatMap _
  · intro a p
    cases hplug : s'.plugSocket a p with
    | none =>
      simp only [ends, pointers, hplug, Option.toList_none, List.flatMap_nil, List.nil_sublist]
    | some d => simp only [ends, pointers, hplug, h.adapter a p d hplug, List.Sublist.refl]

theorem Fewer.disconnectDI {s s' : Network} (h : Fewer s s') (b : FBId) (di : PortId) :
    Fewer (s.disconnectDI b di) (s'.disconnectDI b di) where
  blocks := ⟨h.blocks.next, h.blocks.dir, h.blocks.live, h.blocks.name, h.blocks.spec,
    h.blocks.deletable, h.blocks.state⟩
  event := h.event
  input b' di' conn' hconn' := by
    replace hconn' : setAt s'.diConn b di none b' di' = some conn' := hconn'
    rw [setAt_apply] at hconn'
    split at hconn'
    · cases hconn'
    · rename_i hne
      obtain ⟨conn, hconn, hrest⟩ := h.input b' di' conn' hconn'
      exact ⟨conn, (setAt_of_ne _ _ _ _ hne).trans hconn, hrest⟩
  inOut := h.inOut
  inOutBack := h.inOutBack
  adapter := h.adapter
  adapterBack := h.adapterBack
  value := h.value

/-- **While the members of a gathering connection are asked to disconnect**: the counters are
not too small for the connections of the other ports and for the members that are still to be
asked. -/
structure Owing (s : Network) (b : FBId) (di : PortId) (todo : List FBId) : Prop where
  count : ∀ x, s.live x = true →
    (s.disconnectDI b di).connectionsOf x + todo.count x ≤ s.connRefCount x
  safe : s.underflow = false

section Owing

variable {s : Network} {b : FBId} {di : PortId} {todo l : List FBId} {x : FBId}

/-- Some counters go down, one of them that of the member that is asked; the others have lost
a connection. -/
theorem Owing.lose (h : Owing s b di (x :: todo)) (hlive : ∀ y ∈ x :: l, s.live y = true)
    {t : Network} (ht : SameBlocks s t) (hcounts : t.connRefCount = s.connRefCount)
    (hunder : t.underflow = s.underflow)
    (hrefs : ∀ y, (t.disconnectDI b di).connectionsOf y + l.count y ≤
      (s.disconnectDI b di).connectionsOf y) :
    Owing ((l ++ [x]).foldl decConnRefCount t) b di todo := by
  have hsum (y : FBId) (hy : s.live y = true) : (t.disconnectDI b di).connectionsOf y +
      (l ++ [x]).count y + todo.count y ≤ t.connRefCount y := by
    have hle := h.count y hy
    have := hrefs y
    rw [count_cons_eq x todo] at hle
    rw [hcounts, List.count_append]
    omega
  obtain ⟨counts, heq, hdown⟩ := foldl_decConnRefCount t (l ++ [x]) fun y => by
    by_cases hy : y ∈ l ++ [x]
    · have := hsum y (hlive y (by simpa [or_comm] using hy))
      omega
    · rw [List.count_eq_zero.mpr hy]
      exact Nat.zero_le _
  rw [heq]
  refine ⟨fun y hy => ?_, hunder.trans h.safe⟩
  have hle := hsum y (ht.live ▸ hy)
  have := hdown y
  change (t.disconnectDI b di).connectionsOf y + todo.count y ≤ counts y
  omega

/-- A member is asked, and nothing has happened, or the connection of another port. -/
theorem Owing.disconnect {d : DataConnection} {names : List StringId} {o : Outcome}
    (h : Owing s b di (d.src.fb :: todo)) (hs : Wired s) (hn : Named s)
    (hlive : s.live d.src.fb = true) (ho : s.Disconnects b (.data d) names o) :
    Owing o.1 b di todo := by
  have hfewer := ho.fewer
  cases ho with
  | refused =>
    refine ⟨fun x hx => ?_, h.safe⟩
    -- nothing was counted down, and the counts cover the shorter list too
    have hle := h.count x hx
    rw [count_cons_eq d.src.fb todo] at hle
    change (s.disconnectDI b di).connectionsOf x + todo.count x ≤ s.connRefCount x
    omega
  | @data d name di' hdi hconn =>
    exact h.lose (l := []) (t := s.disconnectDI b di') (by simpa using hlive)
      ⟨rfl, rfl, rfl, rfl, rfl, rfl, rfl⟩ rfl rfl
      fun y => ((s.fewer_disconnectDI b di').disconnectDI b di).connectionsOf_le y
  | @member d name names' di' ms hdi hne hconn hmem =>
    refine h.lose (l := []) (t := { s with
        diConn := setAt s.diConn b di' (gathered (ms.filter (·.1 ≠ names'))) })
      (by simpa using hlive) ⟨rfl, rfl, rfl, rfl, rfl, rfl, rfl⟩ rfl rfl fun y => ?_
    exact (hfewer.disconnectDI b di).connectionsOf_le y
  | @inOut src name dio hdio hmem =>
    set t : Network := { s with
      dioDests := setAt s.dioDests src.fb src.port
        ((s.dioDests src.fb src.port).filter (· ≠ ConnectionPoint.mk b dio))
      }.disconnectDio ⟨b, dio⟩ with ht
    refine h.lose (l := [b]) (t := t) ?_ ⟨rfl, rfl, rfl, rfl, rfl, rfl, rfl⟩ rfl rfl fun y => ?_
    · intro y hy
      rcases List.mem_pair.mp hy with rfl | rfl
      · exact hlive
      · exact (hs.inOut.target hmem).1
    · have hremove : (s.disconnectDI b di).total (·.dioNames)
          (ends bothEnds (t.disconnectDI b di).dioDests) y + [b, src.fb].count y =
            (s.disconnectDI b di).total (·.dioNames)
              (ends bothEnds (s.disconnectDI b di).dioDests) y :=
        total_remove hn (hs.inOut.source hmem) bothEnds s.dioDests (hs.inOut.nodup ..) hmem y
      have hcount : [b, src.fb].count y = [src.fb].count y + [b].count y := count_cons_eq b _ y
      have := connectionsOf_inOuts (s := s.disconnectDI b di) (t := t.disconnectDI b di)
        ⟨rfl, rfl, rfl, rfl, rfl, rfl, rfl⟩ y rfl rfl rfl
      omega

end Owing

/-- Data connections leave the event inputs alone. -/
theorem Disconnects.events_eq {s : Network} {b : FBId} {d : DataConnection}
    {names : List StringId} {o : Outcome} (h : s.Disconnects b (.data d) names o) :
    o.1.eoDests = s.eoDests ∧
      o.1.inputEventConnectionCount = s.inputEventConnectionCount := by
  cases h <;> exact ⟨rfl, rfl⟩

/-- What holds while the members of a gathering connection are asked, one after the other. -/
structure Asking (s t : Network) (b : FBId) (di : PortId) (todo : List FBId) : Prop where
  fewer : Fewer s t
  wired : Wired t
  owing : Owing t b di todo
  eoDests : t.eoDests = s.eoDests
  inputEventConnectionCount : t.inputEventConnectionCount = s.inputEventConnectionCount

theorem Asking.foldl {s t : Network} {b : FBId} {di : PortId}
    {ms : List (List StringId × DataConnection)} (hn : Named s)
    (hlive : ∀ m ∈ ms, s.live m.2.src.fb = true) (h : Asking s t b di (sources ms)) :
    Asking s (ms.foldl (fun t m => (t.disconnect (.data m.2) b m.1).1) t) b di [] := by
  induction ms generalizing t with
  | nil => exact h
  | cons m ms ih =>
    have ho := disconnect_disconnects t (.data m.2) b m.1
    have hm : t.live m.2.src.fb = true := h.fewer.blocks.live ▸ hlive m List.mem_cons_self
    obtain ⟨hdests, hcounts⟩ := ho.events_eq
    exact ih (fun m' hm' => hlive m' (List.mem_cons_of_mem m hm'))
      ⟨h.fewer.trans ho.fewer, ho.wired h.wired,
        h.owing.disconnect h.wired (hn.of_sameBlocks h.fewer.blocks) hm ho,
        hdests.trans h.eoDests, hcounts.trans h.inputEventConnectionCount⟩

section Counted

variable {s : Network} {more : FBId → ℕ} {moreEvents : FBId → PortId → ℕ} {b : FBId}

/-- **A gathering connection is disconnected**: the counters may be too large after that, never
too small. -/
theorem Counted.disconnectGathering (h : Counted s more moreEvents) (hn : Named s) (hs : Wired s)
    {di : PortId} {ms : List (List StringId × DataConnection)}
    (hconn : s.diConn b di = some (.gathering ms)) :
    ∃ more', Counted (s.disconnectGathering b di ms) more' moreEvents := by
  have hfits := hs.input b di _ hconn
  have hstart : Owing s b di (sources ms) := by
    refine ⟨fun x hx => ?_, h.safe⟩
    have hset := connectionsOf_setInput hn hfits.target none s.types x
    rw [inputSources_gathering hconn] at hset
    have hcount := h.count x hx
    change (s.disconnectDI b di).connectionsOf x + _ = _ + 0 at hset
    omega
  have hend := Asking.foldl hn (fun m hm => hfits.source m.2 (List.mem_map_of_mem hm))
    ⟨.refl s, hs, hstart, rfl, rfl⟩
  unfold Network.disconnectGathering
  generalize ms.foldl (fun t m => (t.disconnect (.data m.2) b m.1).1) s = t at hend
  refine ⟨fun x => t.connRefCount x - (t.disconnectDI b di).connectionsOf x, fun x hx => ?_,
    fun x hx htracks ei => ?_, hend.owing.safe⟩
  · have hle := hend.owing.count x hx
    change t.connRefCount x = _
    rw [List.count_nil] at hle
    omega
  · have hlive : s.live x = true := hend.fewer.blocks.live ▸ hx
    have htracks' : s.tracksInputs x = true := by
      rw [tracksInputs, ← hend.fewer.blocks.spec]
      exact htracks
    have hinto : (t.disconnectDI b di).eventsInto ⟨x, ei⟩ = s.eventsInto ⟨x, ei⟩ := by
      rw [Network.eventsInto, Network.eventsInto, ← hend.fewer.blocks.total, ← hend.eoDests]
      rfl
    change t.inputEventConnectionCount x ei = _
    rw [hend.inputEventConnectionCount, hinto, h.events x hlive htracks']

/-- **Deinitializing counts nothing too small.** -/
theorem Counted.deinitialize_exists (h : Counted s more moreEvents) (hn : Named s) (hs : Wired s)
    (hfew : ∀ eo, (s.eoDests b eo).length ≤ 2) :
    ∃ more', Counted (s.deinitialize b) more' moreEvents := by
  have hnamed {t : Network} (ht : Fewer s t) : Named t := hn.of_sameBlocks ht.blocks
  refine (deinitialize_releases (P := fun t => Fewer s t ∧ ∃ more', Counted t more' moreEvents)
    (b := b) ?_ ?_ ?_ ?_ hs hfew ⟨.refl s, more, h⟩).1.2
  · rintro t eo pt ht hpt ⟨hfewer, more', hc⟩
    exact ⟨hfewer.trans (disconnectEvent_disconnects t _ _ _).fewer, more',
      hc.disconnectDestination (hnamed hfewer) ht hpt⟩
  · rintro t di ht ⟨hfewer, more', hc⟩
    refine ⟨hfewer.trans (fewer_deinitializeDI b t di), ?_⟩
    by_cases hgathering : ∃ ms, t.diConn b di = some (.gathering ms)
    · obtain ⟨ms, hms⟩ := hgathering
      rw [Network.deinitializeDI, hms]
      exact hc.disconnectGathering (hnamed hfewer) ht hms
    · exact ⟨more', hc.deinitializeDI (hnamed hfewer) ht b di (not_exists.mp hgathering)⟩
  · rintro t socket ht ⟨hfewer, more', hc⟩
    exact ⟨hfewer.trans (fewer_deinitializeSocket b t socket), more',
      hc.deinitializeSocket (hnamed hfewer) ht b socket⟩
  · rintro t dio ht ⟨hfewer, more', hc⟩
    exact ⟨hfewer.trans (fewer_deinitializeDio b t dio), more',
      hc.deinitializeDio (hnamed hfewer) ht b dio⟩

theorem Counted.deleteInstance_exists (hc : Counted s more moreEvents) (hn : Named s)
    (hs : Wired s) {p : List StringId} (h : Releasable s p b) (hb : Unreferenced s b) :
    ∃ more' moreEvents', Counted (s.deleteInstance p) more' moreEvents' := by
  obtain ⟨hwired, hfewer, ⟨more', hcounted⟩, hisolated⟩ := h.deinitialized
    (P := fun t => ∃ more', Counted t more' moreEvents) hn hs hb
    (fun t a _ ht hfewer hfew ⟨more', hc⟩ =>
      hc.deinitialize_exists (hn.of_sameBlocks hfewer.blocks) ht hfew) ⟨more, hc⟩
  exact ⟨more', moreEvents,
    hcounted.destruct (hn.of_sameBlocks hfewer.blocks) hwired hisolated p⟩

end Counted

/-! ### Values -/

/-- A variable is the one that a connection from `c` reads, or one above it. -/
def Feeds (s : Network) : BaseConnection → BaseConnection → Prop
  | .out p, .out q => p = q
  | .inOut p, .inOut q => s.Below p q
  | _, _ => False

/-- **Values are found above**: an in-out points at the value of an in-out that it is connected
to from above, and so does a delegating connection. -/
structure Valued (s : Network) : Prop where
  value : ∀ b p, s.Below (s.dioValue b p) ⟨b, p⟩
  captured : ∀ b di conn, s.diConn b di = some conn → ∀ c ∈ conn.connections,
    ∀ v ∈ DataConnection.captured c, s.Feeds v c.origin

theorem valued_initial : Valued initial where
  value _ _ := .refl
  captured _ _ _ h := by cases h

/-- What is above a function block that exists exists, for there is a connection. -/
theorem Wired.live_of_below {s : Network} (hs : Wired s) {x y : ConnectionPoint}
    (h : s.Below x y) (hy : s.live y.fb = true) : s.live x.fb = true := by
  rcases Relation.ReflTransGen.cases_head h with rfl | ⟨z, hz, -⟩
  · exact hy
  · exact (hs.inOut.source hz).1

theorem Below.mono {s t : Network}
    (h : ∀ x y : ConnectionPoint, y ∈ s.dioDests x.fb x.port → y ∈ t.dioDests x.fb x.port)
    {x y : ConnectionPoint} (hxy : s.Below x y) : t.Below x y :=
  Relation.ReflTransGen.mono (fun x y => h x y) _ _ hxy

theorem Feeds.mono {s t : Network}
    (h : ∀ x y : ConnectionPoint, y ∈ s.dioDests x.fb x.port → y ∈ t.dioDests x.fb x.port)
    {v c : BaseConnection} (hvc : s.Feeds v c) : t.Feeds v c := by
  cases v with
  | out p =>
    cases c with
    | out q => exact hvc
    | inOut q => exact hvc
  | inOut p =>
    cases c with
    | out q => exact hvc
    | inOut q => exact Below.mono h hvc

theorem Valued.feeds_variableOf {s : Network} (h : Valued s) (c : BaseConnection) :
    s.Feeds (s.variableOf c) c := by
  cases c with
  | out p => exact rfl
  | inOut p => exact h.value p.fb p.port

/-- The same in-outs and their values, and inputs that have no connections but the old ones and
perhaps one from `d`. -/
theorem Valued.of_inputs {s t : Network} (h : Valued s) (hdests : t.dioDests = s.dioDests)
    (hvalue : t.dioValue = s.dioValue) {d : Option DataConnection}
    (hd : ∀ c ∈ d, ∀ v ∈ DataConnection.captured c, v = s.variableOf c.origin)
    (hinput : ∀ b di conn, t.diConn b di = some conn → ∀ c ∈ conn.connections,
      c ∈ d ∨ ∃ conn', s.diConn b di = some conn' ∧ c ∈ conn'.connections) : Valued t := by
  have hmono (x y : ConnectionPoint) (hy : y ∈ s.dioDests x.fb x.port) :
      y ∈ t.dioDests x.fb x.port := by
    rw [hdests]
    exact hy
  refine ⟨fun b p => ?_, fun b di conn hconn c hc v hv => ?_⟩
  · rw [hvalue]
    exact Below.mono hmono (h.value b p)
  · rcases hinput b di conn hconn c hc with hnew | ⟨conn', hconn', hc'⟩
    · rw [hd c hnew v hv]
      exact Feeds.mono hmono (h.feeds_variableOf c.origin)
    · exact Feeds.mono hmono (h.captured b di conn' hconn' c hc' v hv)

/-- **Connecting keeps the values above.** -/
theorem Connects.valued {s : Network} {dst : FBId} {c : Connection} {names : List StringId}
    {o : Outcome} (h : s.Connects dst c names o) (hs : Valued s) (hsrc : Sourced s c) :
    Valued o.1 := by
  cases h with
  | refused => exact hs
  | adapted =>
    obtain ⟨types, heq, -⟩ := s.handleAnySrcPortConnection_eq _ _
    rw [heq]
    exact ⟨hs.value, hs.captured⟩
  | eventAgain | event | adapter => exact ⟨hs.value, hs.captured⟩
  | @data d name di types hdi hfree =>
    obtain - | ⟨-, -, hcaptured⟩ := hsrc
    refine hs.of_inputs (d := some d) rfl rfl (by rintro c ⟨⟩; exact hcaptured) ?_
    intro b di' conn hconn c hc
    replace hconn : setAt s.diConn dst di (some (.single d)) b di' = some conn := hconn
    rw [setAt_apply] at hconn
    split at hconn
    · obtain rfl := Option.some.inj hconn
      exact .inl (congrArg some (List.mem_singleton.mp hc).symm)
    · exact .inr ⟨conn, hconn, hc⟩
  | @member d name names di ms types hdi hne hms hnew =>
    obtain - | ⟨-, -, hcaptured⟩ := hsrc
    refine hs.of_inputs (d := some d) rfl rfl (by rintro c ⟨⟩; exact hcaptured) ?_
    intro b di' conn hconn c hc
    replace hconn : setAt s.diConn dst di (some (.gathering (ms ++ [(names, d)]))) b di' =
      some conn := hconn
    rw [setAt_apply] at hconn
    split at hconn
    · rename_i heq
      obtain rfl := Option.some.inj hconn
      rw [heq.1, heq.2]
      obtain ⟨m, hm, rfl⟩ := List.mem_map.mp hc
      rcases List.mem_append.mp hm with hold | hlast
      · rcases hms with ⟨-, rfl⟩ | hms
        · exact absurd hold List.not_mem_nil
        · exact .inr ⟨_, hms, List.mem_map_of_mem hold⟩
      · exact .inl (congrArg some (by rw [List.mem_singleton.mp hlast]))
    · exact .inr ⟨conn, hconn, hc⟩
  | @inOut src name dio types s' hdio hnew hfree hspread =>
    have hvalue := hspread.value
    have hdests : s'.dioDests = s.dioDests := by
      obtain ⟨f, g, t, hshape⟩ := hspread.shape
      rw [hshape]
    have hdiConn : s'.diConn = s.diConn := by
      obtain ⟨f, g, t, hshape⟩ := hspread.shape
      rw [hshape]
    set t : Network := { s' with
      dioDests := setAt s.dioDests src.fb src.port
        (s.dioDests src.fb src.port ++ [ConnectionPoint.mk dst dio]) } with ht
    have hmono (x y : ConnectionPoint) (hy : y ∈ s.dioDests x.fb x.port) :
        y ∈ t.dioDests x.fb x.port := by
      change y ∈ setAt s.dioDests src.fb src.port _ x.fb x.port
      rw [setAt_apply]
      split
      · rename_i heq
        rw [← heq.1, ← heq.2]
        exact List.mem_append_left _ hy
      · exact hy
    have hedge : ConnectionPoint.mk dst dio ∈ t.dioDests src.fb src.port := by
      change _ ∈ setAt s.dioDests src.fb src.port _ src.fb src.port
      rw [setAt_self]
      exact List.mem_append_right _ (List.mem_singleton_self _)
    have hvalued : Valued t := by
      refine ⟨fun b p => ?_, fun b di conn hconn c hc v hv => ?_⟩
      · change t.Below (s'.dioValue b p) ⟨b, p⟩
        rcases hvalue b p with hold | ⟨howner, hbelow⟩
        · rw [hold]
          exact Below.mono hmono (hs.value b p)
        · -- the value comes from above the source, and `b` is below the destination
          rw [howner]
          have habove : t.Below (s.dioValue src.fb src.port) ⟨dst, dio⟩ :=
            (Below.mono hmono (hs.value src.fb src.port)).tail hedge
          exact habove.trans (Below.mono hmono hbelow)
      · have hconn' : s.diConn b di = some conn := by
          rw [← hdiConn]
          exact hconn
        exact Feeds.mono hmono (hs.captured b di conn hconn' c hc v hv)
    exact ⟨hvalued.value, hvalued.captured⟩

/-- **A connection between in-outs that exists**, where no data input of the name has it. -/
def InOutExists (s : Network) (c : Connection) (dst : FBId) (names : List StringId) : Prop :=
  ∃ src name dio, c = .data (.base (.inOut src)) ∧ names = [name] ∧
    (∀ di, getPortId name (s.spec dst).diNames = some di →
      s.diConn dst di ≠ some (.single (.base (.inOut src)))) ∧
    getPortId name (s.spec dst).dioNames = some dio ∧
    ConnectionPoint.mk dst dio ∈ s.dioDests src.fb src.port

/-- Only connections between in-outs are taken from their lists. -/
theorem dioDests_disconnect {s : Network} {c : Connection} {dst : FBId} {names : List StringId}
    (h : ¬s.InOutExists c dst names) : (s.disconnect c dst names).1.dioDests = s.dioDests := by
  by_cases hdata : ∃ src name di, c = .data (.base (.inOut src)) ∧ names = [name] ∧
      getPortId name (s.spec dst).diNames = some di ∧
      s.diConn dst di = some (.single (.base (.inOut src)))
  · obtain ⟨src, name, di, rfl, rfl, hdi, hconn⟩ := hdata
    rw [disconnect_single hdi hconn]
    rfl
  · have ho := disconnect_disconnects s c dst names
    generalize s.disconnect c dst names = o at ho
    cases ho with
    | @inOut src name dio hdio hmem =>
      exact absurd ⟨src, name, dio, rfl, rfl,
        fun di hdi hconn => hdata ⟨src, name, di, rfl, rfl, hdi, hconn⟩, hdio, hmem⟩ h
    | refused | eventAbsent | event | data | member | adapter => rfl

/-- **Disconnecting keeps the values above**, but for a connection between in-outs. -/
theorem Valued.disconnect {s : Network} (h : Valued s) {c : Connection} {dst : FBId}
    {names : List StringId} (hnot : ¬s.InOutExists c dst names) :
    Valued (s.disconnect c dst names).1 := by
  have hfewer := s.fewer_disconnect c dst names
  refine h.of_inputs (d := none) (dioDests_disconnect hnot) hfewer.value nofun ?_
  intro b di conn' hconn' c' hc'
  obtain ⟨conn, hconn, -, hsub⟩ := hfewer.input b di conn' hconn'
  exact .inr ⟨conn, hconn, hsub.subset hc'⟩

/-- The connections between in-outs that go with a `disconnect` are those into its function
block. -/
theorem Disconnects.mem_dioDests {s : Network} {dst : FBId} {c : Connection}
    {names : List StringId} {o : Outcome} (h : s.Disconnects dst c names o) {a : FBId}
    {p : PortId} {d : ConnectionPoint} (hd : d ∈ s.dioDests a p) (hne : d.fb ≠ dst) :
    d ∈ o.1.dioDests a p := by
  cases h with
  | @inOut src name dio hdio hmem =>
    change d ∈ setAt s.dioDests src.fb src.port _ a p
    rw [setAt_apply]
    split
    · rename_i heq
      rw [heq.1, heq.2] at hd
      refine List.mem_filter.mpr ⟨hd, decide_eq_true fun heq => hne ?_⟩
      rw [heq]
    · exact hd
  | refused | eventAbsent | event | data | member | adapter => exact hd

theorem mem_dioDests_disconnectDestination {s : Network} {src pt : ConnectionPoint} {a : FBId}
    {p : PortId} {d : ConnectionPoint} (hd : d ∈ s.dioDests a p) :
    d ∈ (disconnectDestination src s pt).dioDests a p := by
  have ho := disconnectEvent_disconnects s src pt.fb [(s.spec pt.fb).eiNames.getD pt.port ""]
  unfold disconnectDestination
  generalize s.disconnectEvent src pt.fb [(s.spec pt.fb).eiNames.getD pt.port ""] = o at ho
  cases ho <;> exact hd

/-- Deinitializing a function block takes the connections between in-outs that lead into it. -/
theorem mem_dioDests_deinitialize {s : Network} (hs : Wired s) {b : FBId}
    (hfew : ∀ eo, (s.eoDests b eo).length ≤ 2) {a : FBId} {p : PortId} {d : ConnectionPoint}
    (hd : d ∈ s.dioDests a p) (hne : d.fb ≠ b) : d ∈ (s.deinitialize b).dioDests a p := by
  refine (deinitialize_releases (P := fun t => d ∈ t.dioDests a p) (b := b) ?_ ?_ ?_ ?_ hs hfew
    hd).1
  · exact fun t eo pt _ _ h => mem_dioDests_disconnectDestination h
  · intro t di _ h
    unfold deinitializeDI
    split
    · exact h
    · exact (disconnect_disconnects ..).mem_dioDests h hne
    · exact List.foldlRecOn (motive := fun t => d ∈ t.dioDests a p) _ _ h
        fun t h m _ => (disconnect_disconnects t _ b _).mem_dioDests h hne
  · intro t socket _ h
    unfold deinitializeSocket
    split
    · exact h
    · exact (disconnectAdapter_disconnects ..).mem_dioDests h hne
  · intro t dio _ h
    unfold deinitializeDio
    split
    · exact h
    · exact (disconnectInOut_disconnects ..).mem_dioDests h hne

/-- What is above an in-out outside is outside. -/
theorem Below.outside {s t : Network} {inside : FBId → Bool} (hclosed : Closed s inside)
    (hkeep : ∀ a p d, d ∈ s.dioDests a p → inside d.fb = false → d ∈ t.dioDests a p)
    {x y : ConnectionPoint} (h : s.Below x y) (hy : inside y.fb = false) : t.Below x y := by
  induction h with
  | refl => exact .refl
  | @tail z y hxz hzy ih =>
    have hz : inside z.fb = false := by
      rw [← Bool.not_eq_true]
      intro hz
      rw [hclosed.inOut z.fb z.port y hzy hz] at hy
      cases hy
    exact (ih hz).tail (hkeep z.fb z.port y hzy hy)

theorem Valued.deleteInstance {s : Network} (h : Valued s) (hn : Named s) (hs : Wired s)
    {p : List StringId} {b : FBId} (hrelease : Releasable s p b) (hb : Unreferenced s b) :
    Valued (s.deleteInstance p) := by
  have hclosed := hrelease.closed hb
  obtain ⟨hwired, hfewer, hkeep, hisolated⟩ := hrelease.deinitialized
    (P := fun t => ∀ a q d, d ∈ s.dioDests a q → s.isWithin p d.fb = false → d ∈ t.dioDests a q)
    hn hs hb
    (fun t a ha ht _ hfew hkeep a' q d hd hout => by
      refine mem_dioDests_deinitialize ht hfew (hkeep a' q d hd hout) ?_
      rintro rfl
      rw [ha] at hout
      cases hout)
    (fun _ _ _ hd _ => hd)
  unfold Network.deleteInstance
  generalize (s.within p).foldl Network.deinitialize s = t at hwired hfewer hkeep hisolated
  have hsame := hisolated.sameConnections_destruct hwired p
  have hkeep' (a : FBId) (q : PortId) (d : ConnectionPoint) (hd : d ∈ s.dioDests a q)
      (hout : s.isWithin p d.fb = false) :
      d ∈ (t.destruct p (s.isWithin p)).dioDests a q := by
    rw [hsame.inOut]
    exact hkeep a q d hd hout
  refine ⟨fun a q => ?_, fun a di conn hconn c hc v hv => ?_⟩
  · -- a deleted block's ports are reset; another port's value came by ports outside
    cases ha : s.isWithin p a with
    | true =>
      simp only [destruct, without, ha, if_true]
      exact .refl
    | false =>
      have hvalue : (t.destruct p (s.isWithin p)).dioValue a q = s.dioValue a q := by
        simp only [destruct, without, ha, Bool.false_eq_true, if_false, hfewer.value]
      rw [hvalue]
      exact Below.outside hclosed hkeep' (h.value a q) ha
  · rw [hsame.input] at hconn
    obtain ⟨conn₀, hconn₀, -, hsub⟩ := hfewer.input a di conn hconn
    have hfeeds := h.captured a di conn₀ hconn₀ c (hsub.subset hc) v hv
    have hout := (hisolated.input a di conn hconn).2 c hc
    rw [DataConnection.src] at hout
    generalize c.origin = origin at hfeeds hout
    cases v with
    | out x =>
      cases origin with
      | out y => exact hfeeds
      | inOut y => exact hfeeds
    | inOut x =>
      cases origin with
      | out y => exact hfeeds
      | inOut y => exact Below.outside hclosed hkeep' hfeeds hout

theorem Valued.addInstance {s : Network} (h : Valued s) (hn : Named s) (hs : Wired s)
    (p : List StringId) (ty : FBType) : Valued (s.addInstance p ty) := by
  have hsame := hs.sameConnections_addInstance hn p ty
  have hmono (x y : ConnectionPoint) (hy : y ∈ s.dioDests x.fb x.port) :
      y ∈ (s.addInstance p ty).dioDests x.fb x.port := by
    rw [hsame.inOut]
    exact hy
  refine ⟨fun b q => ?_, fun b di conn hconn c hc v hv => ?_⟩
  · change (s.addInstance p ty).Below (s.withNew ty (fun _ q => ⟨b, q⟩) s.dioValue b q) ⟨b, q⟩
    rcases s.withNew_cases ty b with ⟨i, part, -, -, hnew⟩ | ⟨-, hold⟩
    · rw [hnew]
      exact .refl
    · rw [hold]
      exact Below.mono hmono (h.value b q)
  · rw [hsame.input] at hconn
    exact Feeds.mono hmono (h.captured b di conn hconn c hc v hv)

theorem Valued.createConnection {s : Network} (h : Valued s) (hn : Named s)
    (src dst : List StringId) : Valued (s.createConnection src dst).1 := by
  rcases s.createConnection_cases src dst with
    ⟨r, -, heq⟩ | ⟨c, b, ports, s', r, hc, -, hconnect, heq⟩
  · rw [heq]
    exact h
  · have hvalued := (connect_connects s c b ports).valued h (hn.sourced hc)
    rw [hconnect] at hvalued
    rw [heq]
    split
    · exact ⟨hvalued.value, hvalued.captured⟩
    · exact hvalued

theorem Valued.findOrCreateContainer {s : Network} (h : Valued s) (p : List StringId)
    (name : StringId) : Valued (s.findOrCreateContainer p name) := by
  unfold Network.findOrCreateContainer
  split
  · exact h
  · exact ⟨h.value, h.captured⟩

/-! ### Runs -/

/-- **Nothing dangles**: the function blocks that the connections of a function block lead to
or come from exist, and so do those whose values its in-outs and its inputs refer to. -/
structure NoDangling (s : Network) : Prop where
  eoDests : ∀ b eo d, s.live b = true → d ∈ s.eoDests b eo → s.live d.fb = true
  diConn : ∀ b di conn, s.live b = true → s.diConn b di = some conn → ∀ c ∈ conn.connections,
    s.live c.src.fb = true ∧ ∀ v ∈ DataConnection.captured c, s.live v.src.fb = true
  dioDests : ∀ b dio d, s.live b = true → d ∈ s.dioDests b dio → s.live d.fb = true
  dioInConn : ∀ b dio src, s.live b = true → s.dioInConn b dio = some src → s.live src.fb = true
  dioValue : ∀ b dio, s.live b = true → s.live (s.dioValue b dio).fb = true
  plugSocket : ∀ b plug d, s.live b = true → s.plugSocket b plug = some d → s.live d.fb = true
  socketConn : ∀ b socket src, s.live b = true → s.socketConn b socket = some src →
    s.live src.fb = true

theorem Valued.noDangling {s : Network} (h : Valued s) (hs : Wired s) : NoDangling s where
  eoDests _ _ _ _ hd := (hs.event.target hd).1
  diConn b di conn _ hconn c hc := by
    have hlive := (hs.input b di conn hconn).source c hc
    refine ⟨hlive, fun v hv => ?_⟩
    have hfeeds := h.captured b di conn hconn c hc v hv
    rw [DataConnection.src] at hlive
    generalize c.origin = origin at hfeeds hlive
    cases v with
    | out x =>
      cases origin with
      | out y =>
        obtain rfl : x = y := hfeeds
        exact hlive
      | inOut y => exact absurd hfeeds id
    | inOut x =>
      cases origin with
      | out y => exact absurd hfeeds id
      | inOut y => exact hs.live_of_below hfeeds hlive
  dioDests _ _ _ _ hd := (hs.inOut.target hd).1
  dioInConn b dio src _ hsrc :=
    (hs.inOut.source ((hs.inOutBack src.fb src.port ⟨b, dio⟩).mpr hsrc)).1
  dioValue b dio hb := hs.live_of_below (h.value b dio) hb
  plugSocket _ _ _ _ hd := (hs.adapter.target (Option.mem_toList.mpr hd)).1
  socketConn b socket src _ hsrc :=
    (hs.adapter.source ((hs.adapterBack src.fb src.port ⟨b, socket⟩).mpr hsrc)).1

/-- **What a `deleteConnection` must not be asked for** for the sake of the values: a
connection between in-outs. -/
def KeepsInOuts (s : Network) (src dst : List StringId) : Prop :=
  ∀ c b ports, s.getDestination dst = some (b, ports) →
    (s.getInputConnection [] dst = some c ∨
      s.getInputConnection [] dst = none ∧ s.getOutputConnection [] src = some c) →
    ¬s.InOutExists c b ports

theorem Valued.deleteConnection {s : Network} (h : Valued s) {src dst : List StringId}
    (hkeeps : s.KeepsInOuts src dst) : Valued (s.deleteConnection src dst).1 := by
  rcases s.deleteConnection_cases src dst with ⟨r, -, heq⟩ | ⟨c, b, ports, hdst, hc, heq⟩
  · rw [heq]
    exact h
  · rw [heq]
    exact h.disconnect (hkeeps c b ports hdst hc)

/-- **What a command must not reach** for nothing to dangle. -/
def Harmless (s : Network) : NetworkCommand → Prop
  | .createFB _ _ _ => True
  | .deleteFB name => ∀ b, s.dir name = some (.block b) → s.isCurrentlyDeleteable b = true →
      s.Releasable name b
  | .createConnection _ _ => True
  | .deleteConnection src dst => s.Deletable src dst ∧ s.KeepsInOuts src dst

/-- What holds in every state of a run whose commands are harmless. -/
structure Safe (s : Network) : Prop where
  named : Named s
  wired : Wired s
  counted : ∃ more moreEvents, Counted s more moreEvents
  valued : Valued s

theorem safe_initial : Safe initial :=
  ⟨named_initial, wired_initial, ⟨0, 0, counted_initial⟩, valued_initial⟩

theorem Safe.execute {s : Network} (h : Safe s) (lib : TypeLibrary) (cmd : NetworkCommand)
    (hcmd : s.Harmless cmd) : Safe (s.execute lib cmd).1 := by
  have hnamed := h.named.execute lib cmd
  obtain ⟨hn, hs, ⟨more, moreEvents, hc⟩, hv⟩ := h
  cases cmd with
  | createFB name typeName typeHash =>
    obtain ⟨hwired, hcounted, hvalued⟩ := createFBIn_preserves
      (P := fun s => Wired s ∧ (∃ more moreEvents, Counted s more moreEvents) ∧ Valued s)
      (by
        rintro s p name ⟨hs, ⟨more, moreEvents, hc⟩, hv⟩
        exact ⟨hs.findOrCreateContainer p name,
          ⟨more, moreEvents, hc.findOrCreateContainer p name⟩, hv.findOrCreateContainer p name⟩)
      (by
        rintro s p ty hn ⟨hs, ⟨more, moreEvents, hc⟩, hv⟩
        exact ⟨hs.addInstance hn p ty, ⟨_, _, hc.addInstance hn hs p ty⟩,
          hv.addInstance hn hs p ty⟩)
      lib hn [] typeName typeHash name ⟨hs, ⟨more, moreEvents, hc⟩, hv⟩
    exact ⟨hnamed, hwired, hcounted, hvalued⟩
  | deleteFB name =>
    rcases s.deleteFBIn_cases [] name with ⟨r, -, heq⟩ | ⟨q, n, b, hdir, hdel, hname, heq⟩
    · rw [Network.execute, heq]
      exact ⟨hn, hs, ⟨more, moreEvents, hc⟩, hv⟩
    · rw [List.nil_append] at hname
      subst hname
      have hrelease := hcmd b hdir hdel
      have hunref := hc.unreferenced hn hs hdir hdel
      rw [Network.execute, heq] at hnamed ⊢
      exact ⟨hnamed, hs.deleteInstance hn hrelease hunref,
        hc.deleteInstance_exists hn hs hrelease hunref, hv.deleteInstance hn hs hrelease hunref⟩
  | createConnection src dst =>
    obtain ⟨more', moreEvents', hcounted, -⟩ := hc.createConnection hn src dst
    exact ⟨hnamed, hs.createConnection hn src dst, ⟨more', moreEvents', hcounted⟩,
      hv.createConnection hn src dst⟩
  | deleteConnection src dst =>
    exact ⟨hnamed, hs.deleteConnection src dst,
      ⟨more, moreEvents, hc.deleteConnection hn hs hcmd.1⟩, hv.deleteConnection hcmd.2⟩

/-- A function block that `deleteFB` was asked for is gone when the response is `Ready`. -/
theorem not_live_of_deleteFB {s : Network} (hn : Named s) {lib : TypeLibrary}
    {name : List StringId} {b : FBId} (hdir : s.dir name = some (.block b))
    (hready : (s.execute lib (.deleteFB name)).2 = .ready) :
    (s.execute lib (.deleteFB name)).1.live b = false := by
  rcases s.deleteFBIn_cases [] name with ⟨r, hr, heq⟩ | ⟨q, n, b', -, -, hname, heq⟩
  · rw [Network.execute, heq] at hready
    exact absurd hready hr
  · rw [List.nil_append] at hname
    subst hname
    rw [Network.execute, heq]
    have hwithin : s.isWithin (q ++ [n]) b = true := by
      rw [isWithin, hn.live_of_dir hdir, hn.name_of_dir hdir, Bool.true_and,
        List.isPrefixOf_iff_prefix]
    simp only [Network.deleteInstance, destruct, without, hwithin, if_true]

theorem Run.safe {lib : TypeLibrary} {s : Network} (run : Run lib Harmless initial s) : Safe s := by
  refine run.invariant safe_initial (fun s cmd h => h.execute lib cmd) ?_
  rintro s state ⟨hn, hs, ⟨more, moreEvents, hc⟩, hv⟩
  exact ⟨⟨hn.root, hn.rootSpec, hn.live_of_dir, hn.name_of_dir, hn.separate, hn.lt_next,
    hn.spec_dead⟩, ⟨hs.event, hs.input, hs.inOut, hs.inOutBack, hs.adapter, hs.adapterBack⟩,
    ⟨more, moreEvents, hc.count, hc.events, hc.safe⟩, ⟨hv.value, hv.captured⟩⟩

/-- A network without connections, every function block of which can be released. -/
theorem Counted.releasable {s : Network} {more : FBId → ℕ} {moreEvents : FBId → PortId → ℕ}
    (hc : Counted s more moreEvents) (hn : Named s) (hs : Wired s)
    (hzero : ∀ b < s.next, s.connRefCount b = 0) (p : List StringId) (b : FBId) :
    Releasable s p b := by
  have hunref {x : FBId} (hx : s.live x = true) : Unreferenced s x := by
    refine (connectionsOf_eq_zero_iff hn hs).mp ?_
    have := hc.count x hx
    have := hzero x (hn.lt_next hx)
    omega
  refine ⟨fun a _ eo => ?_, fun a eo d hd => ?_, fun a di conn hconn c hc => ?_,
    fun a dio d hd => ?_, fun a plug d hd => ?_⟩
  · have hnil : s.eoDests a eo = [] := List.eq_nil_iff_forall_not_mem.mpr fun d hd =>
      (hunref (hs.event.target hd).1).event a eo d hd rfl
    rw [hnil]
    exact Nat.zero_le _
  · exact absurd rfl ((hunref (hs.event.target hd).1).event a eo d hd)
  · exact absurd rfl ((hunref ((hs.input a di conn hconn).source c hc)).input a di conn hconn c hc)
  · exact absurd rfl ((hunref (hs.inOut.target hd).1).inOut a dio d hd).1
  · have hmem : d ∈ pointers s.plugSocket a plug := Option.mem_toList.mpr hd
    exact absurd rfl ((hunref (hs.adapter.target hmem).1).adapter a plug d hd).1

/-- A source and a sink between which a connection was created and deleted. -/
def eventDisconnected : Network :=
  (eventConnected.execute sampleTypes (.deleteConnection ["A", "CNF"] ["B", "REQ"])).1

theorem eventDisconnected_reached : Run sampleTypes Harmless initial eventDisconnected := by
  have hconnected : Run sampleTypes Harmless initial eventConnected :=
    .command (.command (.command (.refl _) _ trivial) _ trivial) _ trivial
  refine .command hconnected _ ?_
  have hout : eventConnected.getOutputConnection [] ["A", "CNF"] = some (.event ⟨1, 0⟩) := by decide
  have hin : eventConnected.getInputConnection [] ["B", "REQ"] = none := by decide
  have hdst : eventConnected.getDestination ["B", "REQ"] = some (2, ["REQ"]) := by decide
  constructor
  · intro c b ports _ hc hdst'
    obtain rfl := Option.some.inj (hout.symm.trans hc)
    obtain ⟨rfl, rfl⟩ := Prod.mk.inj (Option.some.inj (hdst.symm.trans hdst'))
    rintro ⟨src, name, ei, hsrc, hname, hei, hmem⟩
    obtain rfl := Connection.event.inj hsrc
    obtain rfl := (List.cons.inj hname).1
    have hei' : getPortId "REQ" (eventConnected.spec 2).eiNames = some 0 := by decide
    obtain rfl := Option.some.inj (hei'.symm.trans hei)
    exact hmem (by decide)
  · rintro c b ports - hc ⟨src, -, -, rfl, -⟩
    rcases hc with hc | ⟨-, hc⟩
    · cases hin.symm.trans hc
    · cases hout.symm.trans hc

/-- Two sources and two sinks; the event of the first source leads to three inputs, one of them
the input that the event of the second source leads to. -/
def threeDestinations : Network :=
  [NetworkCommand.createFB ["A"] "SOURCE" "", .createFB ["D"] "SOURCE" "",
    .createFB ["B"] "SINK" "", .createFB ["C"] "SINK" "",
    .createConnection ["A", "CNF"] ["B", "REQ"], .createConnection ["A", "CNF"] ["B", "SET"],
    .createConnection ["A", "CNF"] ["C", "REQ"], .createConnection ["D", "CNF"] ["C", "REQ"]].foldl
    (fun s cmd => (s.execute sampleTypes cmd).1) initial

end Network

end Forte
