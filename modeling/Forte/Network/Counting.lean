import Forte.Network.Atomicity
import Forte.Network.Release

/-!
# The reference counters

`mConnRefCount` is meant to be the number of the connections that refer to a function block
(`Forte.Network.connectionsOf`): event connections into it, data connections out of it, and
both ends of those between in-outs and between adapters. What the counters really are is that
number and something more (`Forte.Network.Counted`): a surplus that every connection which is
created twice adds to.
-/

namespace Forte

namespace Network

/-! ### What is to be counted -/

/-- How often something is referred to in a table of connections, over all ports of a kind. -/
def total {κ : Type} [DecidableEq κ] (s : Network) (names : InterfaceSpec → List StringId)
    (held : FBId → PortId → List κ) (k : κ) : ℕ :=
  refTotal (Finset.range s.next) (fun b => Finset.range (names (s.spec b)).length) held k

/-- What the connections of a table refer to, where `f b d` is what one from `b` to `d` does. -/
def ends {κ : Type} (f : FBId → ConnectionPoint → List κ)
    (dests : FBId → PortId → List ConnectionPoint) : FBId → PortId → List κ :=
  fun b p => (dests b p).flatMap (f b)

/-- The function blocks at the sources of the connections of data inputs. -/
def inputSources (diConn : FBId → PortId → Option InputConnection) : FBId → PortId → List FBId :=
  fun b p => ((diConn b p).elim [] (·.connections)).map (·.src.fb)

/-- The function block at the destination. -/
def intoEnd (_ : FBId) (d : ConnectionPoint) : List FBId := [d.fb]

/-- The function blocks at both ends. -/
def bothEnds (b : FBId) (d : ConnectionPoint) : List FBId := [d.fb, b]

/-- **How many connections refer to a function block**, as `mConnRefCount` is meant: event
connections into it, data connections out of it, both ends of in-out and of adapter
connections. -/
def connectionsOf (s : Network) (b : FBId) : ℕ :=
  s.total (·.eoNames) (ends intoEnd s.eoDests) b +
    s.total (·.diNames) (inputSources s.diConn) b +
    s.total (·.dioNames) (ends bothEnds s.dioDests) b +
    s.total (·.plugNames) (ends bothEnds (pointers s.plugSocket)) b

/-- How many event connections lead to an event input. -/
def eventsInto (s : Network) (pt : ConnectionPoint) : ℕ :=
  s.total (·.eoNames) (ends (fun _ d => [d]) s.eoDests) pt

/-- No connection refers to a function block. -/
structure Unreferenced (s : Network) (b : FBId) : Prop where
  event : ∀ a p d, d ∈ s.eoDests a p → d.fb ≠ b
  input : ∀ a p conn, s.diConn a p = some conn → ∀ c ∈ conn.connections, c.src.fb ≠ b
  inOut : ∀ a p d, d ∈ s.dioDests a p → d.fb ≠ b ∧ a ≠ b
  adapter : ∀ a p d, s.plugSocket a p = some d → d.fb ≠ b ∧ a ≠ b

section Totals

variable {κ : Type} [DecidableEq κ] {s : Network} {names : InterfaceSpec → List StringId}

/-- Nothing in a table refers to something if its total is zero. -/
theorem not_mem_of_total_eq_zero (hs : Named s) {held : FBId → PortId → List κ} {k : κ}
    (h : s.total names held k = 0) {pt : ConnectionPoint} (hpt : s.HasPort names pt) :
    k ∉ held pt.fb pt.port :=
  refTotal_eq_zero_iff.mp h pt.fb (Finset.mem_range.mpr (hs.lt_next hpt.1)) pt.port
    (Finset.mem_range.mpr hpt.2)

theorem total_eq_zero {held : FBId → PortId → List κ} {k : κ} (h : ∀ b p, k ∉ held b p) :
    s.total names held k = 0 :=
  refTotal_eq_zero_iff.mpr fun b _ p _ => h b p

/-- One entry of a table changes. -/
theorem total_setAt (hs : Named s) {pt : ConnectionPoint} (hpt : s.HasPort names pt)
    (held : FBId → PortId → List κ) (ks : List κ) (k : κ) :
    s.total names (setAt held pt.fb pt.port ks) k + (held pt.fb pt.port).count k =
      s.total names held k + ks.count k :=
  refTotal_setAt (P := fun b => Finset.range (names (s.spec b)).length)
    (Finset.mem_range.mpr (hs.lt_next hpt.1)) (Finset.mem_range.mpr hpt.2) ks k

omit [DecidableEq κ] in
theorem ends_setAt (f : FBId → ConnectionPoint → List κ)
    (dests : FBId → PortId → List ConnectionPoint) (b : FBId) (p : PortId)
    (ds : List ConnectionPoint) :
    ends f (setAt dests b p ds) = setAt (ends f dests) b p (ds.flatMap (f b)) := by
  funext b' p'
  rw [ends, setAt_apply, setAt_apply]
  split
  · rename_i h
    rw [h.1]
  · rfl

/-- A connection more. -/
theorem total_add (hs : Named s) {src : ConnectionPoint} (hsrc : s.HasPort names src)
    (f : FBId → ConnectionPoint → List κ) (dests : FBId → PortId → List ConnectionPoint)
    (d : ConnectionPoint) (k : κ) :
    s.total names (ends f (setAt dests src.fb src.port (dests src.fb src.port ++ [d]))) k =
      s.total names (ends f dests) k + (f src.fb d).count k := by
  have h := total_setAt hs hsrc (ends f dests) ((dests src.fb src.port ++ [d]).flatMap (f src.fb)) k
  rw [ends_setAt]
  rw [List.flatMap_append, List.flatMap_singleton] at h ⊢
  rw [List.count_append, ends] at h
  omega

/-- A connection less. -/
theorem total_remove (hs : Named s) {src : ConnectionPoint} (hsrc : s.HasPort names src)
    (f : FBId → ConnectionPoint → List κ) (dests : FBId → PortId → List ConnectionPoint)
    (hnodup : (dests src.fb src.port).Nodup) {d : ConnectionPoint}
    (hd : d ∈ dests src.fb src.port) (k : κ) :
    s.total names
        (ends f (setAt dests src.fb src.port ((dests src.fb src.port).filter (· ≠ d)))) k +
      (f src.fb d).count k = s.total names (ends f dests) k := by
  have h := total_setAt hs hsrc (ends f dests)
    (((dests src.fb src.port).filter (· ≠ d)).flatMap (f src.fb)) k
  have herase : (dests src.fb src.port).erase d = (dests src.fb src.port).filter (· ≠ d) := by
    rw [hnodup.erase_eq_filter]
    exact List.filter_congr fun x _ => Bool.eq_iff_iff.mpr (by simp)
  have hcount := ((List.perm_cons_erase hd).flatMap_right (f src.fb)).count_eq k
  rw [List.flatMap_cons, List.count_append, herase] at hcount
  rw [ends_setAt]
  rw [ends, hcount] at h
  omega

end Totals

theorem mem_inputSources {diConn : FBId → PortId → Option InputConnection} {b x : FBId}
    {p : PortId} : x ∈ inputSources diConn b p ↔
      ∃ conn, diConn b p = some conn ∧ ∃ c ∈ conn.connections, c.src.fb = x := by
  unfold inputSources
  cases diConn b p with
  | none => simp
  | some conn => simp

theorem mem_ends_bothEnds {dests : FBId → PortId → List ConnectionPoint} {b x : FBId}
    {p : PortId} : x ∈ ends bothEnds dests b p ↔ ∃ d ∈ dests b p, d.fb = x ∨ b = x := by
  simp only [ends, bothEnds, List.mem_flatMap, List.mem_cons, List.not_mem_nil, or_false]
  exact exists_congr fun d => and_congr_right fun _ => or_congr eq_comm eq_comm

theorem mem_ends_intoEnd {dests : FBId → PortId → List ConnectionPoint} {b x : FBId}
    {p : PortId} : x ∈ ends intoEnd dests b p ↔ ∃ d ∈ dests b p, d.fb = x := by
  simp only [ends, intoEnd, List.mem_flatMap, List.mem_singleton]
  exact exists_congr fun d => and_congr_right fun _ => eq_comm

/-- **No connection is counted for a function block if there is none.** -/
theorem connectionsOf_eq_zero_iff {s : Network} (hn : Named s) (hs : Wired s) {b : FBId} :
    s.connectionsOf b = 0 ↔ Unreferenced s b := by
  simp only [connectionsOf, Nat.add_eq_zero_iff]
  constructor
  · rintro ⟨⟨⟨hevent, hinput⟩, hinOut⟩, hadapter⟩
    refine ⟨fun a p d hd heq => ?_, fun a p conn hconn c hc heq => ?_, fun a p d hd => ?_,
      fun a p d hd => ?_⟩
    · exact not_mem_of_total_eq_zero hn hevent (hs.event.source hd)
        (mem_ends_intoEnd.mpr ⟨d, hd, heq⟩)
    · exact not_mem_of_total_eq_zero hn hinput (hs.input a p conn hconn).target
        (mem_inputSources.mpr ⟨conn, hconn, c, hc, heq⟩)
    · have hnot := not_mem_of_total_eq_zero hn hinOut (hs.inOut.source hd)
      exact ⟨fun heq => hnot (mem_ends_bothEnds.mpr ⟨d, hd, .inl heq⟩),
        fun heq => hnot (mem_ends_bothEnds.mpr ⟨d, hd, .inr heq⟩)⟩
    · have hmem : d ∈ pointers s.plugSocket a p := Option.mem_toList.mpr hd
      have hnot := not_mem_of_total_eq_zero hn hadapter (hs.adapter.source hmem)
      exact ⟨fun heq => hnot (mem_ends_bothEnds.mpr ⟨d, hmem, .inl heq⟩),
        fun heq => hnot (mem_ends_bothEnds.mpr ⟨d, hmem, .inr heq⟩)⟩
  · intro h
    refine ⟨⟨⟨total_eq_zero fun a p hin => ?_, total_eq_zero fun a p hin => ?_⟩,
      total_eq_zero fun a p hin => ?_⟩, total_eq_zero fun a p hin => ?_⟩
    · obtain ⟨d, hd, heq⟩ := mem_ends_intoEnd.mp hin
      exact h.event a p d hd heq
    · obtain ⟨conn, hconn, c, hc, heq⟩ := mem_inputSources.mp hin
      exact h.input a p conn hconn c hc heq
    · obtain ⟨d, hd, heq⟩ := mem_ends_bothEnds.mp hin
      exact heq.elim (h.inOut a p d hd).1 (h.inOut a p d hd).2
    · obtain ⟨d, hd, heq⟩ := mem_ends_bothEnds.mp hin
      have hadapter := h.adapter a p d (Option.mem_toList.mp hd)
      exact heq.elim hadapter.1 hadapter.2

/-! ### What the counters are -/

/-- **The counters of a network**, with a surplus of connections that are not there. -/
structure Counted (s : Network) (more : FBId → ℕ) (moreEvents : FBId → PortId → ℕ) : Prop where
  count : ∀ b, s.live b = true → s.connRefCount b = s.connectionsOf b + more b
  events : ∀ b, s.live b = true → s.tracksInputs b = true → ∀ ei,
    s.inputEventConnectionCount b ei = s.eventsInto ⟨b, ei⟩ + moreEvents b ei
  safe : s.underflow = false

theorem counted_initial : Counted initial 0 0 where
  count _ _ := rfl
  events _ _ h := by cases h
  safe := rfl

theorem count_cons_eq (a : FBId) (bs : List FBId) (b : FBId) :
    (a :: bs).count b = bs.count b + [a].count b := by
  rw [← List.singleton_append, List.count_append, Nat.add_comm]

/-- Several counters are counted up. -/
theorem foldl_incConnRefCount (s : Network) (gained : List FBId) :
    ∃ connRefCount, gained.foldl incConnRefCount s = { s with connRefCount } ∧
      ∀ b, connRefCount b = s.connRefCount b + gained.count b := by
  induction gained generalizing s with
  | nil => exact ⟨s.connRefCount, rfl, fun _ => rfl⟩
  | cons a gained ih =>
    obtain ⟨counts, heq, hcounts⟩ := ih (s.incConnRefCount a)
    refine ⟨counts, heq, fun b => ?_⟩
    have hup : (s.incConnRefCount a).connRefCount b = s.connRefCount b + [a].count b :=
      countUp_apply ..
    rw [hcounts, hup, count_cons_eq a gained]
    omega

/-- Several counters are counted down, none of them too often. -/
theorem foldl_decConnRefCount (s : Network) (lost : List FBId)
    (h : ∀ b, lost.count b ≤ s.connRefCount b) :
    ∃ connRefCount, lost.foldl decConnRefCount s = { s with connRefCount } ∧
      ∀ b, connRefCount b + lost.count b = s.connRefCount b := by
  induction lost generalizing s with
  | nil => exact ⟨s.connRefCount, rfl, fun _ => rfl⟩
  | cons a lost ih =>
    have hpos : 0 < s.connRefCount a := by
      have ha := h a
      rw [count_cons_eq, List.count_singleton_self] at ha
      omega
    have hdown (b : FBId) : (s.decConnRefCount a).connRefCount b + [a].count b =
        s.connRefCount b := countDown_apply hpos b
    obtain ⟨counts, heq, hcounts⟩ := ih (s.decConnRefCount a) fun b => by
      have hb := h b
      rw [count_cons_eq a lost] at hb
      have := hdown b
      omega
    have hsafe : (s.underflow || s.connRefCount a == 0) = s.underflow := by
      rw [beq_eq_false_iff_ne.mpr hpos.ne', Bool.or_false]
    refine ⟨counts, ?_, fun b => ?_⟩
    · rw [List.foldl_cons, heq]
      simp only [decConnRefCount, hsafe]
    · rw [count_cons_eq a lost]
      have := hcounts b
      have := hdown b
      omega

/-- **Another table of connections**, with the same counters and event connections. -/
structure Retabled (s t : Network) : Prop where
  blocks : SameBlocks s t
  connRefCount : t.connRefCount = s.connRefCount
  inputEventConnectionCount : t.inputEventConnectionCount = s.inputEventConnectionCount
  underflow : t.underflow = s.underflow
  eoDests : t.eoDests = s.eoDests

theorem SameBlocks.total {s t : Network} (h : SameBlocks s t) {κ : Type} [DecidableEq κ]
    (names : InterfaceSpec → List StringId) (held : FBId → PortId → List κ) :
    t.total names held = s.total names held := by
  funext k
  rw [Network.total, Network.total, h.next, h.spec]

/-! ### What a changed table counts -/

section Tables

variable {s t : Network} (h : SameBlocks s t) (b : FBId)

include h

theorem connectionsOf_events (hinput : t.diConn = s.diConn) (hinOut : t.dioDests = s.dioDests)
    (hadapter : t.plugSocket = s.plugSocket) :
    t.connectionsOf b + s.total (·.eoNames) (ends intoEnd s.eoDests) b =
      s.connectionsOf b + s.total (·.eoNames) (ends intoEnd t.eoDests) b := by
  simp only [connectionsOf, h.total, hinput, hinOut, hadapter]
  omega

theorem connectionsOf_inputs (hevent : t.eoDests = s.eoDests) (hinOut : t.dioDests = s.dioDests)
    (hadapter : t.plugSocket = s.plugSocket) :
    t.connectionsOf b + s.total (·.diNames) (inputSources s.diConn) b =
      s.connectionsOf b + s.total (·.diNames) (inputSources t.diConn) b := by
  simp only [connectionsOf, h.total, hevent, hinOut, hadapter]
  omega

theorem connectionsOf_inOuts (hevent : t.eoDests = s.eoDests) (hinput : t.diConn = s.diConn)
    (hadapter : t.plugSocket = s.plugSocket) :
    t.connectionsOf b + s.total (·.dioNames) (ends bothEnds s.dioDests) b =
      s.connectionsOf b + s.total (·.dioNames) (ends bothEnds t.dioDests) b := by
  simp only [connectionsOf, h.total, hevent, hinput, hadapter]
  omega

theorem connectionsOf_adapters (hevent : t.eoDests = s.eoDests) (hinput : t.diConn = s.diConn)
    (hinOut : t.dioDests = s.dioDests) :
    t.connectionsOf b + s.total (·.plugNames) (ends bothEnds (pointers s.plugSocket)) b =
      s.connectionsOf b + s.total (·.plugNames) (ends bothEnds (pointers t.plugSocket)) b := by
  simp only [connectionsOf, h.total, hevent, hinput, hinOut]
  omega

end Tables

section Counted

variable {s t : Network} {more : FBId → ℕ} {moreEvents : FBId → PortId → ℕ}

/-- Event inputs are counted as before. -/
theorem Counted.events_retabled (h : Counted s more moreEvents) (ht : Retabled s t) (b : FBId)
    (hlive : t.live b = true) (htracks : t.tracksInputs b = true) (ei : PortId) :
    t.inputEventConnectionCount b ei = t.eventsInto ⟨b, ei⟩ + moreEvents b ei := by
  rw [ht.blocks.live] at hlive
  rw [tracksInputs, ht.blocks.spec] at htracks
  rw [eventsInto, ht.blocks.total, ht.eoDests, ht.inputEventConnectionCount]
  exact h.events b hlive htracks ei

/-- **Connections are made**, and counted where they refer to. -/
theorem Counted.gain (h : Counted s more moreEvents) (ht : Retabled s t) (gained : List FBId)
    (hrefs : ∀ b, t.connectionsOf b = s.connectionsOf b + gained.count b) :
    Counted (gained.foldl incConnRefCount t) more moreEvents := by
  obtain ⟨counts, heq, hcounts⟩ := foldl_incConnRefCount t gained
  rw [heq]
  refine ⟨fun b hlive => ?_, fun b hlive htracks ei => ?_, ht.underflow.trans h.safe⟩
  · change counts b = t.connectionsOf b + more b
    rw [hcounts, hrefs, ht.connRefCount, h.count b (ht.blocks.live ▸ hlive)]
    omega
  · exact h.events_retabled ht b hlive htracks ei

/-- **Connections are taken away**, and counted where they referred to. -/
theorem Counted.lose (h : Counted s more moreEvents) (ht : Retabled s t) (lost : List FBId)
    (hlive : ∀ b ∈ lost, s.live b = true)
    (hrefs : ∀ b, t.connectionsOf b + lost.count b = s.connectionsOf b) :
    Counted (lost.foldl decConnRefCount t) more moreEvents := by
  obtain ⟨counts, heq, hcounts⟩ := foldl_decConnRefCount t lost fun b => by
    rw [ht.connRefCount]
    by_cases hb : b ∈ lost
    · have := h.count b (hlive b hb)
      have := hrefs b
      omega
    · rw [List.count_eq_zero.mpr hb]
      exact Nat.zero_le _
  rw [heq]
  refine ⟨fun b hlive => ?_, fun b hlive htracks ei => ?_, ht.underflow.trans h.safe⟩
  · change counts b = t.connectionsOf b + more b
    have hb := hcounts b
    rw [ht.connRefCount, h.count b (ht.blocks.live ▸ hlive)] at hb
    have := hrefs b
    omega
  · exact h.events_retabled ht b hlive htracks ei

/-- A function block is counted once more, for a connection that is there already. -/
theorem Counted.incConnRefCount (h : Counted s more moreEvents) (b : FBId) :
    Counted (s.incConnRefCount b) (fun b' => more b' + [b].count b') moreEvents := by
  refine ⟨fun b' hlive => ?_, h.events, h.safe⟩
  have hup : (s.incConnRefCount b).connRefCount b' = s.connRefCount b' + [b].count b' :=
    countUp_apply ..
  rw [hup, h.count b' hlive, Nat.add_assoc]
  rfl

/-! ### Event inputs -/

theorem count_singleton_point {b b' : FBId} {ei ei' : PortId} :
    [ConnectionPoint.mk b ei].count ⟨b', ei'⟩ = if b' = b ∧ ei' = ei then 1 else 0 := by
  rw [List.count_singleton]
  refine if_congr ?_ rfl rfl
  rw [beq_iff_eq, ConnectionPoint.mk.injEq]
  exact and_congr eq_comm eq_comm

/-- An event input counts a connection more. -/
theorem inputEventConnectionCount_add (s : Network) (b : FBId) (ei : PortId) {b' : FBId}
    (htracks : s.tracksInputs b' = true) (ei' : PortId) :
    (s.addInputEventConnection b ei).inputEventConnectionCount b' ei' =
      s.inputEventConnectionCount b' ei' + [ConnectionPoint.mk b ei].count ⟨b', ei'⟩ := by
  rw [count_singleton_point]
  simp only [addInputEventConnection, Network.incConnRefCount]
  by_cases hb : b' = b ∧ ei' = ei
  · obtain ⟨rfl, rfl⟩ := hb
    rw [if_pos htracks, setAt_self, if_pos ⟨rfl, rfl⟩]
  · rw [if_neg hb]
    split
    · exact setAt_of_ne _ _ _ _ hb
    · rfl

/-- An event input counts a connection less. -/
theorem inputEventConnectionCount_remove (s : Network) (b : FBId) (ei : PortId)
    (hpos : s.tracksInputs b = true → 0 < s.inputEventConnectionCount b ei) {b' : FBId}
    (htracks : s.tracksInputs b' = true) (ei' : PortId) :
    (s.removeInputEventConnection b ei).inputEventConnectionCount b' ei' +
      [ConnectionPoint.mk b ei].count ⟨b', ei'⟩ = s.inputEventConnectionCount b' ei' := by
  rw [count_singleton_point]
  simp only [removeInputEventConnection, decConnRefCount]
  by_cases hb : b' = b ∧ ei' = ei
  · obtain ⟨rfl, rfl⟩ := hb
    have hpos' := hpos htracks
    rw [htracks, decide_eq_true hpos', Bool.and_self, if_pos rfl, setAt_self, if_pos ⟨rfl, rfl⟩]
    omega
  · rw [if_neg hb]
    split
    · exact setAt_of_ne _ _ _ _ hb
    · rfl

/-- **An event connection is made.** -/
theorem Counted.addEvent (h : Counted s more moreEvents) (hn : Named s) {src : ConnectionPoint}
    (hsrc : s.HasPort (·.eoNames) src) (b : FBId) (ei : PortId) :
    Counted ({ s with
      eoDests := setAt s.eoDests src.fb src.port
        (s.eoDests src.fb src.port ++ [ConnectionPoint.mk b ei])
      }.addInputEventConnection b ei) more moreEvents := by
  set t : Network := { s with
    eoDests := setAt s.eoDests src.fb src.port
      (s.eoDests src.fb src.port ++ [ConnectionPoint.mk b ei]) } with ht
  refine ⟨fun b' hlive => ?_, fun b' hlive htracks ei' => ?_, h.safe⟩
  · have hup : (t.addInputEventConnection b ei).connRefCount b' =
        s.connRefCount b' + [b].count b' := countUp_apply ..
    have hadd : s.total (·.eoNames) (ends intoEnd (t.addInputEventConnection b ei).eoDests) b' =
        s.total (·.eoNames) (ends intoEnd s.eoDests) b' + [b].count b' :=
      total_add hn hsrc intoEnd s.eoDests ⟨b, ei⟩ b'
    have hrefs : (t.addInputEventConnection b ei).connectionsOf b' =
        s.connectionsOf b' + [b].count b' := by
      have := connectionsOf_events (s := s) (t := t.addInputEventConnection b ei)
        ⟨rfl, rfl, rfl, rfl, rfl, rfl, rfl⟩ b' rfl rfl rfl
      omega
    rw [hup, hrefs, h.count b' hlive]
    omega
  · have hadd := total_add hn hsrc (fun _ d => [d]) s.eoDests ⟨b, ei⟩ ⟨b', ei'⟩
    have hinto : (t.addInputEventConnection b ei).eventsInto ⟨b', ei'⟩ =
        s.eventsInto ⟨b', ei'⟩ + [ConnectionPoint.mk b ei].count ⟨b', ei'⟩ := hadd
    have hevents : t.inputEventConnectionCount b' ei' =
        s.eventsInto ⟨b', ei'⟩ + moreEvents b' ei' := h.events b' hlive htracks ei'
    rw [inputEventConnectionCount_add t b ei htracks, hinto, hevents]
    omega

/-- **An event connection is taken away.** -/
theorem Counted.removeEvent (h : Counted s more moreEvents) (hn : Named s) (hs : Wired s)
    {src : ConnectionPoint} {b : FBId} {ei : PortId}
    (hmem : ConnectionPoint.mk b ei ∈ s.eoDests src.fb src.port) :
    Counted ({ s with
      eoDests := setAt s.eoDests src.fb src.port
        ((s.eoDests src.fb src.port).filter (· ≠ ConnectionPoint.mk b ei))
      }.removeInputEventConnection b ei) more moreEvents := by
  set t : Network := { s with
    eoDests := setAt s.eoDests src.fb src.port
      ((s.eoDests src.fb src.port).filter (· ≠ ConnectionPoint.mk b ei)) } with ht
  have hlive : s.live b = true := (hs.event.target hmem).1
  have hnodup := hs.event.nodup src.fb src.port
  have hrefs (b' : FBId) :
      (t.removeInputEventConnection b ei).connectionsOf b' + [b].count b' =
        s.connectionsOf b' := by
    have hremove : s.total (·.eoNames)
        (ends intoEnd (t.removeInputEventConnection b ei).eoDests) b' + [b].count b' =
          s.total (·.eoNames) (ends intoEnd s.eoDests) b' :=
      total_remove hn (hs.event.source hmem) intoEnd s.eoDests hnodup hmem b'
    have := connectionsOf_events (s := s) (t := t.removeInputEventConnection b ei)
      ⟨rfl, rfl, rfl, rfl, rfl, rfl, rfl⟩ b' rfl rfl rfl
    omega
  have hinto (pt : ConnectionPoint) :
      (t.removeInputEventConnection b ei).eventsInto pt + [ConnectionPoint.mk b ei].count pt =
        s.eventsInto pt :=
    total_remove hn (hs.event.source hmem) (fun _ d => [d]) s.eoDests hnodup hmem pt
  -- the block was counted for the connection, so the count does not go below zero
  have hpos : 0 < s.connRefCount b := by
    have hb := hrefs b
    rw [List.count_singleton_self] at hb
    have := h.count b hlive
    omega
  refine ⟨fun b' hlive' => ?_, fun b' hlive' htracks ei' => ?_, ?_⟩
  · have hdown : (t.removeInputEventConnection b ei).connRefCount b' + [b].count b' =
        s.connRefCount b' := countDown_apply hpos b'
    have := hrefs b'
    have := h.count b' hlive'
    omega
  · have hevents (b' : FBId) (hlive' : s.live b' = true) (htracks : t.tracksInputs b' = true)
        (ei' : PortId) : t.inputEventConnectionCount b' ei' =
          s.eventsInto ⟨b', ei'⟩ + moreEvents b' ei' := h.events b' hlive' htracks ei'
    have hfirst (htracks : t.tracksInputs b = true) : 0 < t.inputEventConnectionCount b ei := by
      have hpt := hinto ⟨b, ei⟩
      rw [List.count_singleton_self] at hpt
      have := hevents b hlive htracks ei
      omega
    have := inputEventConnectionCount_remove t b ei hfirst htracks ei'
    have := hinto ⟨b', ei'⟩
    have := hevents b' hlive' htracks ei'
    omega
  · have hne : (s.connRefCount b == 0) = false := beq_eq_false_iff_ne.mpr hpos.ne'
    change (s.underflow || s.connRefCount b == 0) = false
    rw [h.safe, hne]
    rfl

/-- An event connection that is there is counted once more. -/
theorem Counted.addEventAgain (h : Counted s more moreEvents) (b : FBId) (ei : PortId) :
    Counted (s.addInputEventConnection b ei) (fun b' => more b' + [b].count b')
      fun b' ei' => moreEvents b' ei' + [ConnectionPoint.mk b ei].count ⟨b', ei'⟩ := by
  refine ⟨fun b' hlive => (h.incConnRefCount b).count b' hlive,
    fun b' hlive htracks ei' => ?_, h.safe⟩
  rw [inputEventConnectionCount_add s b ei htracks, h.events b' hlive htracks, Nat.add_assoc]
  rfl

end Counted

/-! ### Connecting -/

theorem inputSources_setAt (diConn : FBId → PortId → Option InputConnection) (b : FBId)
    (di : PortId) (new : Option InputConnection) :
    inputSources (setAt diConn b di new) =
      setAt (inputSources diConn) b di ((new.elim [] (·.connections)).map (·.src.fb)) := by
  funext b' di'
  rw [inputSources, setAt_apply, setAt_apply]
  split <;> rfl

theorem inputSources_gathering {diConn : FBId → PortId → Option InputConnection} {b : FBId}
    {di : PortId} {ms : List (List StringId × DataConnection)}
    (h : diConn b di = some (.gathering ms)) : inputSources diConn b di = sources ms := by
  rw [inputSources, h]
  exact List.map_map

theorem sources_gathered (ms : List (List StringId × DataConnection)) :
    ((gathered ms).elim [] (·.connections)).map (·.src.fb) = sources ms := by
  unfold gathered
  split
  · rename_i hnil
    rw [hnil]
    rfl
  · exact List.map_map

section Counted

variable {s : Network} {more : FBId → ℕ} {moreEvents : FBId → PortId → ℕ}

/-- The connection of one data input changes. -/
theorem connectionsOf_setInput (hn : Named s) {b : FBId} {di : PortId}
    (hport : s.HasPort (·.diNames) ⟨b, di⟩) (new : Option InputConnection)
    (types : VariableTypes) (k : FBId) :
    connectionsOf { s with diConn := setAt s.diConn b di new, types } k +
        (inputSources s.diConn b di).count k =
      s.connectionsOf k + ((new.elim [] (·.connections)).map (·.src.fb)).count k := by
  have hset := total_setAt hn hport (inputSources s.diConn)
    ((new.elim [] (·.connections)).map (·.src.fb)) k
  rw [← inputSources_setAt] at hset
  have := connectionsOf_inputs (s := s) (t := { s with diConn := setAt s.diConn b di new, types })
    ⟨rfl, rfl, rfl, rfl, rfl, rfl, rfl⟩ k rfl rfl rfl
  simp only at hset this
  omega

/-- **A data input gets a connection more**, from `x`. -/
theorem Counted.gainInput (h : Counted s more moreEvents) (hn : Named s) {b : FBId} {di : PortId}
    (hport : s.HasPort (·.diNames) ⟨b, di⟩) {new : Option InputConnection}
    {types : VariableTypes} {x : FBId}
    (hnew : ∀ k, ((new.elim [] (·.connections)).map (·.src.fb)).count k =
      (inputSources s.diConn b di).count k + [x].count k) :
    Counted ({ s with diConn := setAt s.diConn b di new, types }.incConnRefCount x) more
      moreEvents := by
  refine h.gain (t := { s with diConn := setAt s.diConn b di new, types })
    ⟨⟨rfl, rfl, rfl, rfl, rfl, rfl, rfl⟩, rfl, rfl, rfl, rfl⟩ [x] fun k => ?_
  have := connectionsOf_setInput hn hport new types k
  have := hnew k
  omega

/-- **A data input gets a connection less**, from `x`. -/
theorem Counted.loseInput (h : Counted s more moreEvents) (hn : Named s) {b : FBId} {di : PortId}
    (hport : s.HasPort (·.diNames) ⟨b, di⟩) {new : Option InputConnection} {x : FBId}
    (hlive : s.live x = true)
    (hnew : ∀ k, ((new.elim [] (·.connections)).map (·.src.fb)).count k + [x].count k =
      (inputSources s.diConn b di).count k) :
    Counted ({ s with diConn := setAt s.diConn b di new }.decConnRefCount x) more
      moreEvents := by
  refine h.lose (t := { s with diConn := setAt s.diConn b di new })
    ⟨⟨rfl, rfl, rfl, rfl, rfl, rfl, rfl⟩, rfl, rfl, rfl, rfl⟩ [x] ?_ fun k => ?_
  · intro b' hb'
    rw [List.mem_singleton.mp hb']
    exact hlive
  · have := connectionsOf_setInput hn hport new s.types k
    have := hnew k
    omega

end Counted

/-- A plain data connection that exists already. -/
def DataExists (s : Network) (c : Connection) (dst : FBId) (names : List StringId) : Prop :=
  ∃ d name di, c = .data d ∧ names = [name] ∧
    getPortId name (s.spec dst).diNames = some di ∧ s.diConn dst di = some (.single d)

section Outcomes

variable {s : Network} {dst : FBId} {c : Connection} {names : List StringId} {o : Outcome}
  {more : FBId → ℕ} {moreEvents : FBId → PortId → ℕ}

/-- **Connecting counts right**, but for a connection that exists already, which is counted
once more. -/
theorem Connects.counted (h : s.Connects dst c names o) (hn : Named s)
    (hsrc : Sourced s c) (hdst : s.live dst = true) (hc : Counted s more moreEvents) :
    ∃ more' moreEvents', Counted o.1 more' moreEvents' ∧
      (¬s.EventExists c dst names → ¬s.DataExists c dst names →
        more' = more ∧ moreEvents' = moreEvents) := by
  cases h with
  | refused => exact ⟨more, moreEvents, hc, fun _ _ => ⟨rfl, rfl⟩⟩
  | adapted =>
    obtain ⟨types, heq, -⟩ := s.handleAnySrcPortConnection_eq _ _
    rw [heq]
    exact ⟨more, moreEvents, ⟨hc.count, hc.events, hc.safe⟩, fun _ _ => ⟨rfl, rfl⟩⟩
  | eventAgain hei hmem =>
    exact ⟨_, _, hc.addEventAgain dst _,
      fun hnot => absurd ⟨_, _, _, rfl, rfl, hei, hmem⟩ hnot⟩
  | event hei hmem =>
    obtain ⟨hlive, hlt⟩ := hsrc
    exact ⟨more, moreEvents, hc.addEvent hn ⟨hlive, hlt⟩ dst _, fun _ _ => ⟨rfl, rfl⟩⟩
  | @data d name di types hdi hfree =>
    rcases hfree with hnone | hsame
    · refine ⟨more, moreEvents, hc.gainInput hn (hasPort_of_getPortId hdst hdi) fun k => ?_,
        fun _ _ => ⟨rfl, rfl⟩⟩
      rw [inputSources, hnone]
      exact (Nat.zero_add _).symm
    · -- the same connection again: the input stays and the source is counted once more
      have hself : setAt s.diConn dst di (some (.single d)) = s.diConn := by
        rw [← hsame, setAt_eq_self]
      have hagain := hc.incConnRefCount d.src.fb
      rw [hself]
      exact ⟨_, moreEvents, ⟨hagain.count, hagain.events, hagain.safe⟩,
        fun _ hnot => absurd ⟨_, _, _, rfl, rfl, hdi, hsame⟩ hnot⟩
  | @member d name names di ms types hdi hne hms hnew =>
    have hold : inputSources s.diConn dst di = sources ms := by
      rcases hms with ⟨hnone, rfl⟩ | hconn
      · rw [inputSources, hnone]
        rfl
      · exact inputSources_gathering hconn
    refine ⟨more, moreEvents, hc.gainInput hn (hasPort_of_getPortId hdst hdi) fun k => ?_,
      fun _ _ => ⟨rfl, rfl⟩⟩
    rw [hold, ← gathered_concat, sources_gathered, sources, List.map_append, List.count_append]
    rfl
  | @inOut src name dio types s' hdio hnew hfree hspread =>
    obtain - | ⟨hlive, hport, -⟩ := hsrc
    obtain ⟨f, g, t, hshape⟩ := hspread.shape
    subst hshape
    refine ⟨more, moreEvents, hc.gain (t := { s with
        dioInConn := f, dioValue := g, types := t
        dioDests := setAt s.dioDests src.fb src.port
          (s.dioDests src.fb src.port ++ [ConnectionPoint.mk dst dio]) })
      ⟨⟨rfl, rfl, rfl, rfl, rfl, rfl, rfl⟩, rfl, rfl, rfl, rfl⟩ [dst, src.fb] fun b => ?_,
      fun _ _ => ⟨rfl, rfl⟩⟩
    have hfrom : s.HasPort (·.dioNames) src := ⟨hlive, hport⟩
    have hadd := total_add hn hfrom bothEnds s.dioDests ⟨dst, dio⟩ b
    rw [bothEnds] at hadd
    have := connectionsOf_inOuts (s := s) (t := { s with
        dioInConn := f, dioValue := g, types := t
        dioDests := setAt s.dioDests src.fb src.port
          (s.dioDests src.fb src.port ++ [ConnectionPoint.mk dst dio]) })
      ⟨rfl, rfl, rfl, rfl, rfl, rfl, rfl⟩ b rfl rfl rfl
    simp only at hadd this
    omega
  | @adapter src name socket hsocket hplug hfree =>
    obtain - | - | ⟨hlive, hlt⟩ := hsrc
    refine ⟨more, moreEvents, hc.gain (t := { s with
        socketConn := setAt s.socketConn dst socket (some src)
        plugSocket := setAt s.plugSocket src.fb src.port (some ⟨dst, socket⟩) })
      ⟨⟨rfl, rfl, rfl, rfl, rfl, rfl, rfl⟩, rfl, rfl, rfl, rfl⟩ [dst, src.fb] fun b => ?_,
      fun _ _ => ⟨rfl, rfl⟩⟩
    have hfrom : s.HasPort (·.plugNames) src := ⟨hlive, hlt⟩
    have hadd := total_add hn hfrom bothEnds (pointers s.plugSocket) ⟨dst, socket⟩ b
    have hdests : pointers s.plugSocket src.fb src.port = [] := by
      rw [pointers, hplug]
      rfl
    rw [bothEnds, hdests] at hadd
    have := connectionsOf_adapters (s := s) (t := { s with
        socketConn := setAt s.socketConn dst socket (some src)
        plugSocket := setAt s.plugSocket src.fb src.port (some ⟨dst, socket⟩) })
      ⟨rfl, rfl, rfl, rfl, rfl, rfl, rfl⟩ b rfl rfl rfl
    rw [pointers_setAt] at this
    simp only [Option.toList_some, List.nil_append] at hadd this
    omega

/-- **A connection is disconnected at its own member**, if it is a member that is. -/
def AtOwnMember (s : Network) (c : Connection) (dst : FBId) (names : List StringId) : Prop :=
  ∀ d name names' di ms, c = .data d → names = name :: names' → names' ≠ [] →
    getPortId name (s.spec dst).diNames = some di → s.diConn dst di = some (.gathering ms) →
    names' ∈ ms.map (·.1) → (names', d) ∈ ms

/-- **Disconnecting counts right**, but for an event connection that does not exist. -/
theorem Disconnects.counted (h : s.Disconnects dst c names o) (hn : Named s) (hs : Wired s)
    (habsent : ¬s.EventAbsent c dst names) (hown : s.AtOwnMember c dst names)
    (hc : Counted s more moreEvents) : Counted o.1 more moreEvents := by
  cases h with
  | refused => exact hc
  | eventAbsent hei hmem => exact absurd ⟨_, _, _, rfl, rfl, hei, hmem⟩ habsent
  | event hei hmem => exact hc.removeEvent hn hs hmem
  | @data d name di hdi hconn =>
    have hfits := hs.input dst di _ hconn
    refine hc.loseInput hn hfits.target (hfits.source d (List.mem_singleton_self d)) fun k => ?_
    rw [inputSources, hconn]
    exact Nat.zero_add _
  | @member d name names di ms hdi hne hconn hmem =>
    have hfits := hs.input dst di _ hconn
    -- the member that goes is the one whose source is counted down
    have hd := hown d name names di ms rfl rfl hne hdi hconn hmem
    refine hc.loseInput hn hfits.target (hfits.source d (List.mem_map_of_mem hd)) fun k => ?_
    rw [sources_gathered, inputSources_gathering hconn]
    exact count_sources_filter (hfits.nodup ms rfl) hd k
  | @inOut src name dio hdio hmem =>
    refine hc.lose (t := { s with
        dioDests := setAt s.dioDests src.fb src.port
          ((s.dioDests src.fb src.port).filter (· ≠ ConnectionPoint.mk dst dio))
        }.disconnectDio ⟨dst, dio⟩)
      ⟨⟨rfl, rfl, rfl, rfl, rfl, rfl, rfl⟩, rfl, rfl, rfl, rfl⟩ [dst, src.fb] ?_ fun b => ?_
    · intro b hb
      rcases List.mem_pair.mp hb with rfl | rfl
      · exact (hs.inOut.target hmem).1
      · exact (hs.inOut.source hmem).1
    · have hremove := total_remove hn (hs.inOut.source hmem) bothEnds s.dioDests
        (hs.inOut.nodup ..) hmem b
      rw [bothEnds] at hremove
      have := connectionsOf_inOuts (s := s) (t := { s with
          dioDests := setAt s.dioDests src.fb src.port
            ((s.dioDests src.fb src.port).filter (· ≠ ConnectionPoint.mk dst dio))
          }.disconnectDio ⟨dst, dio⟩)
        ⟨rfl, rfl, rfl, rfl, rfl, rfl, rfl⟩ b rfl rfl rfl
      simp only [disconnectDio] at hremove this ⊢
      omega
  | @adapter src name socket hsocket hplug =>
    have hdests : pointers s.plugSocket src.fb src.port = [⟨dst, socket⟩] := by
      rw [pointers, hplug]
      rfl
    have hmem : ConnectionPoint.mk dst socket ∈ pointers s.plugSocket src.fb src.port := by
      rw [hdests]
      exact List.mem_singleton_self _
    refine hc.lose (t := s.performDisconnect src ⟨dst, socket⟩)
      ⟨⟨rfl, rfl, rfl, rfl, rfl, rfl, rfl⟩, rfl, rfl, rfl, rfl⟩ [dst, src.fb] ?_ fun b => ?_
    · intro b hb
      rcases List.mem_pair.mp hb with rfl | rfl
      · exact (hs.adapter.target hmem).1
      · exact (hs.adapter.source hmem).1
    · have hremove := total_remove hn (hs.adapter.source hmem) bothEnds (pointers s.plugSocket)
        (hs.adapter.nodup ..) hmem b
      rw [bothEnds, hdests] at hremove
      have := connectionsOf_adapters (s := s) (t := s.performDisconnect src ⟨dst, socket⟩)
        ⟨rfl, rfl, rfl, rfl, rfl, rfl, rfl⟩ b rfl rfl rfl
      simp only [performDisconnect, pointers_setAt, Option.toList_none] at hremove this ⊢
      simp only [ne_eq, not_true_eq_false, decide_false, List.filter_cons_of_neg,
        Bool.false_eq_true, not_false_eq_true, List.filter_nil] at hremove
      omega

end Outcomes

/-! ### Deinitializing -/

theorem not_eventAbsent {s : Network} {c : Connection} (hc : ∀ src, c ≠ .event src) (dst : FBId)
    (names : List StringId) : ¬s.EventAbsent c dst names := by
  rintro ⟨src, -, -, rfl, -⟩
  exact hc src rfl

/-- Only a member can be disconnected in the place of another one. -/
theorem atOwnMember_port (s : Network) (c : Connection) (dst : FBId) (name : StringId) :
    s.AtOwnMember c dst [name] := by
  intro d name' names' di ms _ hnames hne
  exact absurd (List.cons.inj hnames).2.symm hne

section Deinitialize

variable {s : Network} {more : FBId → ℕ} {moreEvents : FBId → PortId → ℕ}

theorem Counted.disconnectDestination (h : Counted s more moreEvents) (hn : Named s)
    (hs : Wired s) {src pt : ConnectionPoint} (hmem : pt ∈ s.eoDests src.fb src.port) :
    Counted (disconnectDestination src s pt) more moreEvents := by
  rw [disconnectDestination_of_mem hs hmem]
  exact h.removeEvent hn hs hmem

theorem Counted.deinitializeSocket (h : Counted s more moreEvents) (hn : Named s) (hs : Wired s)
    (b : FBId) (socket : PortId) : Counted (deinitializeSocket b s socket) more moreEvents := by
  unfold Network.deinitializeSocket
  split
  · exact h
  · exact (disconnectAdapter_disconnects ..).counted hn hs
      (not_eventAbsent (fun _ => Connection.noConfusion) _ _)
      (atOwnMember_port _ _ _ _) h

theorem Counted.deinitializeDio (h : Counted s more moreEvents) (hn : Named s) (hs : Wired s)
    (b : FBId) (dio : PortId) : Counted (deinitializeDio b s dio) more moreEvents := by
  unfold Network.deinitializeDio
  split
  · exact h
  · exact (disconnectInOut_disconnects ..).counted hn hs
      (not_eventAbsent (fun _ => Connection.noConfusion) _ _)
      (atOwnMember_port _ _ _ _) h

/-- A data input whose connection is not a gathering one. -/
theorem Counted.deinitializeDI (h : Counted s more moreEvents) (hn : Named s) (hs : Wired s)
    (b : FBId) (di : PortId) (hsingle : ∀ ms, s.diConn b di ≠ some (.gathering ms)) :
    Counted (deinitializeDI b s di) more moreEvents := by
  unfold Network.deinitializeDI
  split
  · exact h
  · exact (disconnect_disconnects ..).counted hn hs
      (not_eventAbsent (fun _ => Connection.noConfusion) _ _)
      (atOwnMember_port _ _ _ _) h
  · rename_i ms hconn
    exact absurd hconn (hsingle ms)

theorem Fewer.not_gathering {s s' : Network} (h : Fewer s s') {b : FBId}
    (hs : ∀ di ms, s.diConn b di ≠ some (.gathering ms)) (di : PortId)
    (ms : List (List StringId × DataConnection)) : s'.diConn b di ≠ some (.gathering ms) := by
  intro hconn'
  obtain ⟨conn, hconn, hgather, -⟩ := h.input b di _ hconn'
  cases conn with
  | single c => exact absurd (hgather rfl) nofun
  | gathering ms' => exact hs di ms' hconn

/-- **Deinitializing counts right** for a function block without gathering connections. -/
theorem Counted.deinitialize (h : Counted s more moreEvents) (hn : Named s) (hs : Wired s)
    {b : FBId} (hfew : ∀ eo, (s.eoDests b eo).length ≤ 2)
    (hsingle : ∀ di ms, s.diConn b di ≠ some (.gathering ms)) :
    Counted (s.deinitialize b) more moreEvents := by
  have hnamed {t t' : Network} (ht : Fewer s t) (ht' : Fewer t t') : Named t' :=
    hn.of_sameBlocks (ht.trans ht').blocks
  refine (deinitialize_releases (P := fun t => Fewer s t ∧ Counted t more moreEvents) (b := b)
    ?_ ?_ ?_ ?_ hs hfew ⟨.refl s, h⟩).1.2
  · rintro t eo pt ht hpt ⟨hfewer, hc⟩
    exact ⟨hfewer.trans (disconnectEvent_disconnects t _ _ _).fewer,
      hc.disconnectDestination (hnamed hfewer (.refl t)) ht hpt⟩
  · rintro t di ht ⟨hfewer, hc⟩
    exact ⟨hfewer.trans (fewer_deinitializeDI b t di), hc.deinitializeDI
      (hnamed hfewer (.refl t)) ht b di (hfewer.not_gathering hsingle di)⟩
  · rintro t socket ht ⟨hfewer, hc⟩
    exact ⟨hfewer.trans (fewer_deinitializeSocket b t socket),
      hc.deinitializeSocket (hnamed hfewer (.refl t)) ht b socket⟩
  · rintro t dio ht ⟨hfewer, hc⟩
    exact ⟨hfewer.trans (fewer_deinitializeDio b t dio),
      hc.deinitializeDio (hnamed hfewer (.refl t)) ht b dio⟩

end Deinitialize

/-! ### Function blocks that come and go -/

/-- What a table counts depends on the function blocks that have entries in it only. -/
theorem total_congr {κ : Type} [DecidableEq κ] {s s' : Network}
    {names : InterfaceSpec → List StringId} {held : FBId → PortId → List κ} {k : κ}
    (hnext : s.next ≤ s'.next)
    (h : ∀ b p, k ∈ held b p → b < s.next ∧ s'.spec b = s.spec b) :
    s'.total names held k = s.total names held k := by
  have hrange : Finset.range s.next ⊆ Finset.range s'.next := fun b hb =>
    Finset.mem_range.mpr ((Finset.mem_range.mp hb).trans_le hnext)
  rw [total, total, refTotal_mono_owners hrange fun b _ hb p _ hmem =>
    hb (Finset.mem_range.mpr (h b p hmem).1)]
  refine refTotal_congr fun b _ => ?_
  by_cases hmem : ∃ p, k ∈ held b p
  · obtain ⟨p, hp⟩ := hmem
    rw [(h b p hp).2]
  · have hzero (S : Finset PortId) : ∑ p ∈ S, (held b p).count k = 0 :=
      Finset.sum_eq_zero fun p _ => List.count_eq_zero.mpr fun hp => hmem ⟨p, hp⟩
    rw [hzero, hzero]

/-- **What connections count stays** when only function blocks without connections change. -/
theorem Isolated.connectionsOf {s s' : Network} {inside : FBId → Bool} (h : Isolated s inside)
    (hs : Wired s) (hn : Named s) (hsame : SameConnections s s') (hnext : s.next ≤ s'.next)
    (hkeep : ∀ b, inside b = false → s'.spec b = s.spec b) (b : FBId) :
    s'.connectionsOf b = s.connectionsOf b := by
  rw [Network.connectionsOf, Network.connectionsOf, hsame.event, hsame.input, hsame.inOut,
    hsame.adapter]
  congr 1
  · congr 1
    · congr 1
      · refine total_congr hnext fun a p hmem => ?_
        obtain ⟨d, hd, -⟩ := mem_ends_intoEnd.mp hmem
        exact ⟨hn.lt_next (hs.event.source hd).1, hkeep a (h.event a p d hd).1⟩
      · refine total_congr hnext fun a p hmem => ?_
        obtain ⟨conn, hconn, -⟩ := mem_inputSources.mp hmem
        exact ⟨hn.lt_next (hs.input a p conn hconn).target.1, hkeep a (h.input a p conn hconn).1⟩
    · refine total_congr hnext fun a p hmem => ?_
      obtain ⟨d, hd, -⟩ := mem_ends_bothEnds.mp hmem
      exact ⟨hn.lt_next (hs.inOut.source hd).1, hkeep a (h.inOut a p d hd).1⟩
  · refine total_congr hnext fun a p hmem => ?_
    obtain ⟨d, hd, -⟩ := mem_ends_bothEnds.mp hmem
    exact ⟨hn.lt_next (hs.adapter.source hd).1,
      hkeep a (h.adapter a p d (Option.mem_toList.mp hd)).1⟩

theorem Isolated.eventsInto {s s' : Network} {inside : FBId → Bool} (h : Isolated s inside)
    (hs : Wired s) (hn : Named s) (hsame : SameConnections s s') (hnext : s.next ≤ s'.next)
    (hkeep : ∀ b, inside b = false → s'.spec b = s.spec b) (pt : ConnectionPoint) :
    s'.eventsInto pt = s.eventsInto pt := by
  rw [Network.eventsInto, Network.eventsInto, hsame.event]
  refine total_congr hnext fun a p hmem => ?_
  obtain ⟨d, hd, -⟩ := List.mem_flatMap.mp hmem
  exact ⟨hn.lt_next (hs.event.source hd).1, hkeep a (h.event a p d hd).1⟩

/-- **Destructing function blocks without connections** leaves the other ones counted. -/
theorem Counted.destruct {s : Network} {more : FBId → ℕ} {moreEvents : FBId → PortId → ℕ}
    (h : Counted s more moreEvents) (hn : Named s) (hs : Wired s) {inside : FBId → Bool}
    (hisolated : Isolated s inside) (p : List StringId) :
    Counted (s.destruct p inside) more moreEvents := by
  have hsame := hisolated.sameConnections_destruct hs p
  have hkeep (b : FBId) (hb : inside b = false) : (s.destruct p inside).spec b = s.spec b := by
    simp only [Network.destruct, without, hb, Bool.false_eq_true, if_false]
  have hlive {b : FBId} (hb : (s.destruct p inside).live b = true) :
      inside b = false ∧ s.live b = true := by
    simp only [Network.destruct, without] at hb
    split at hb
    · cases hb
    · rename_i hin
      exact ⟨Bool.not_eq_true _ ▸ hin, hb⟩
  refine ⟨fun b hb => ?_, fun b hb htracks ei => ?_, h.safe⟩
  · obtain ⟨hin, hold⟩ := hlive hb
    rw [hisolated.connectionsOf hs hn hsame le_rfl hkeep, ← h.count b hold]
    simp only [Network.destruct, without, hin, Bool.false_eq_true, if_false]
  · obtain ⟨hin, hold⟩ := hlive hb
    rw [tracksInputs, hkeep b hin] at htracks
    rw [hisolated.eventsInto hs hn hsame le_rfl hkeep, ← h.events b hold htracks]
    simp only [Network.destruct, without, hin, Bool.false_eq_true, if_false]

/-- Nothing refers to a function block that does not exist. -/
theorem Wired.unreferenced {s : Network} (h : Wired s) {b : FBId} (hb : s.live b = false) :
    Unreferenced s b := by
  have hne {x : FBId} (hx : (!s.live x) = false) : x ≠ b := by
    rintro rfl
    rw [hb] at hx
    cases hx
  exact ⟨fun a p d hd => hne (h.isolated.event a p d hd).2,
    fun a p conn hconn c hc => hne ((h.isolated.input a p conn hconn).2 c hc),
    fun a p d hd => ⟨hne (h.isolated.inOut a p d hd).2, hne (h.isolated.inOut a p d hd).1⟩,
    fun a p d hd => ⟨hne (h.isolated.adapter a p d hd).2, hne (h.isolated.adapter a p d hd).1⟩⟩

theorem Unreferenced.eventsInto_eq_zero {s : Network} {b : FBId} (h : Unreferenced s b)
    (ei : PortId) : s.eventsInto ⟨b, ei⟩ = 0 := by
  refine total_eq_zero fun a p hmem => ?_
  obtain ⟨d, hd, heq⟩ := List.mem_flatMap.mp hmem
  rw [List.mem_singleton] at heq
  exact h.event a p d hd (heq ▸ rfl)

/-- **New function blocks** begin with nothing counted, and nothing refers to them. -/
theorem Counted.addInstance {s : Network} {more : FBId → ℕ} {moreEvents : FBId → PortId → ℕ}
    (h : Counted s more moreEvents) (hn : Named s) (hs : Wired s) (p : List StringId)
    (ty : FBType) :
    Counted (s.addInstance p ty) (s.withNew ty (fun _ => 0) more)
      (s.withNew ty (fun _ _ => 0) moreEvents) := by
  have hsame := hs.sameConnections_addInstance hn p ty
  have hkeep (b : FBId) (hb : (!s.live b) = false) : (s.addInstance p ty).spec b = s.spec b :=
    withNew_of_lt ty (hn.lt_next (by simpa using hb)) _ _
  have hdead (i : ℕ) : s.live (s.next + i) = false := by
    rw [← Bool.not_eq_true]
    exact fun hlive => absurd (hn.lt_next hlive) (Nat.not_lt.mpr (Nat.le_add_right _ _))
  have hrefs := hs.isolated.connectionsOf hs hn hsame (Nat.le_add_right _ _) hkeep
  have hinto := hs.isolated.eventsInto hs hn hsame (Nat.le_add_right _ _) hkeep
  refine ⟨fun b hb => ?_, fun b hb htracks ei => ?_, h.safe⟩
  · rw [hrefs]
    rcases s.withNew_cases ty b with ⟨i, part, -, rfl, hnew⟩ | ⟨-, hold⟩
    · rw [(connectionsOf_eq_zero_iff hn hs).mpr (hs.unreferenced (hdead i))]
      exact (hnew _ _).trans ((Nat.zero_add _).trans (hnew (fun _ => 0) more)).symm
    · have hlive : s.live b = true := (hold (fun _ => true) s.live).symm.trans hb
      exact (hold _ _).trans ((h.count b hlive).trans (congrArg _ (hold _ _).symm))
  · rw [hinto]
    rcases s.withNew_cases ty b with ⟨i, part, -, rfl, hnew⟩ | ⟨-, hold⟩
    · rw [(hs.unreferenced (hdead i)).eventsInto_eq_zero]
      exact (congrFun (hnew _ _) ei).trans
        ((Nat.zero_add _).trans (congrFun (hnew (fun _ _ => 0) moreEvents) ei)).symm
    · have hlive : s.live b = true := (hold (fun _ => true) s.live).symm.trans hb
      have htracks' : s.tracksInputs b = true := by
        rw [tracksInputs, ← hkeep b (by rw [hlive]; rfl)]
        exact htracks
      exact (congrFun (hold _ _) ei).trans ((h.events b hlive htracks' ei).trans
        (congrArg _ (congrFun (hold _ _) ei).symm))

end Network

end Forte
