import Forte.Network.Monitoring
import Mathlib.Logic.Encodable.Basic
import Mathlib.Logic.Equiv.List

/-!
# Watches and function blocks that come and go

`createFB` and `deleteFB` leave the variables and the event ports of the other function blocks
where they are, so that watches of these go on referring to them. Put together with what
`addWatch` and `removeWatch` do, the list of watches is consistent in every run whose commands
do no harm (`Forte.WatchRun.consistent`); each of the commands that are left out breaks it.
-/

namespace Forte

namespace Network

/-! ### What the watches of a function block depend on -/

/-- A function block has the same ports with variables of the same types. -/
structure SameVariables (s s' : Network) (b : FBId) : Prop where
  live : s'.live b = s.live b
  spec : s'.spec b = s.spec b
  di : s'.types.di b = s.types.di b
  dout : s'.types.dout b = s.types.dout b
  dio : s'.types.dio b = s.types.dio b

namespace SameVariables

variable {s s' s₁ : Network} {b : FBId}

theorem refl (s : Network) (b : FBId) : SameVariables s s b := ⟨rfl, rfl, rfl, rfl, rfl⟩

theorem trans (h₁ : SameVariables s s₁ b) (h₂ : SameVariables s₁ s' b) : SameVariables s s' b :=
  ⟨h₂.live.trans h₁.live, h₂.spec.trans h₁.spec, h₂.di.trans h₁.di, h₂.dout.trans h₁.dout,
    h₂.dio.trans h₁.dio⟩

theorem variableAt_eq (h : SameVariables s s' b) (layout : Layout) (names : List StringId) :
    s'.variableAt layout b names = s.variableAt layout b names := by
  cases names with
  | nil => rfl
  | cons name names =>
    simp only [variableAt, portVariable, ownVariable, h.spec, h.di, h.dout, h.dio]

theorem eventAt_eq (h : SameVariables s s' b) (names : List StringId) :
    s'.eventAt b names = s.eventAt b names := by
  have hpoint : s'.eventPoint b = s.eventPoint b := by
    funext name
    simp only [eventPoint, h.spec]
  rw [eventAt, eventAt, hpoint]

theorem watches {layout : Layout} {e : FBMonitoringEntry} (h : SameVariables s s' e.fb)
    (he : s.Watches layout e) : s'.Watches layout e :=
  ⟨h.live.trans he.live, fun w hw => (h.variableAt_eq layout _).trans (he.data w hw),
    fun w hw => (h.eventAt_eq _).trans (he.event w hw), he.dataSorted, he.eventSorted⟩

end SameVariables

theorem Consistent.of_sameVariables {layout : Layout} {s s' : Network}
    {l : List FBMonitoringEntry} (h : Consistent layout s l)
    (hsame : ∀ e ∈ l, SameVariables s s' e.fb) : Consistent layout s' l :=
  ⟨fun e he => (hsame e he).watches (h.watches e he), h.watched, h.sorted⟩

/-! ### Function blocks that come and go -/

theorem findOrCreateContainer_sameVariables (s : Network) (p : List StringId) (name : StringId)
    (b : FBId) : SameVariables s (s.findOrCreateContainer p name) b := by
  unfold findOrCreateContainer
  split <;> exact ⟨rfl, rfl, rfl, rfl, rfl⟩

theorem findOrCreateContainer_next (s : Network) (p : List StringId) (name : StringId) :
    (s.findOrCreateContainer p name).next = s.next := by
  unfold findOrCreateContainer
  split <;> rfl

theorem addInstance_sameVariables (s : Network) (p : List StringId) (ty : FBType) {b : FBId}
    (hb : b < s.next) : SameVariables s (s.addInstance p ty) b :=
  ⟨withNew_of_lt ty hb _ _, withNew_of_lt ty hb _ _, withNew_of_lt ty hb _ _,
    withNew_of_lt ty hb _ _, withNew_of_lt ty hb _ _⟩

/-- `createFB` leaves the function blocks that exist as they are. -/
theorem createFBIn_sameVariables (lib : TypeLibrary) (s : Network) (p : List StringId)
    (typeName : StringId) (typeHash : String) (names : List StringId) {b : FBId}
    (hb : b < s.next) : SameVariables s (createFBIn lib s p typeName typeHash names).1 b := by
  induction names generalizing s p with
  | nil => exact .refl s b
  | cons name names ih =>
    unfold createFBIn
    split
    · exact .refl s b
    split
    · split
      · exact .refl s b
      split
      · exact .refl s b
      · exact s.addInstance_sameVariables _ _ hb
    · have hfolder := s.findOrCreateContainer_sameVariables p name b
      simp only
      split
      · exact hfolder.trans (ih _ _ (by rw [findOrCreateContainer_next]; exact hb))
      · exact hfolder

theorem Disconnects.types_eq {s : Network} {dst : FBId} {c : Connection} {names : List StringId}
    {o : Outcome} (h : s.Disconnects dst c names o) : o.1.types = s.types := by
  cases h <;> rfl

theorem foldl_deinitialize_types (s : Network) (bs : List FBId) :
    (bs.foldl deinitialize s).types = s.types :=
  bs.foldlRecOn (motive := fun t => t.types = s.types) deinitialize rfl fun t ht b _ =>
    deinitialize_preserves (P := fun u => u.types = s.types)
      (fun _ c dst names h => (disconnect_disconnects _ c dst names).types_eq.trans h)
      (fun _ _ _ h => h) t b ht

/-- `deleteFB` leaves the function blocks that it does not delete as they are. -/
theorem deleteInstance_sameVariables (s : Network) {p : List StringId} {b : FBId}
    (hb : s.isWithin p b = false) : SameVariables s (s.deleteInstance p) b := by
  have hsame := foldl_deinitialize_sameBlocks s (s.within p)
  have htypes := foldl_deinitialize_types s (s.within p)
  refine ⟨?_, ?_, ?_, ?_, ?_⟩
  · simp only [deleteInstance, destruct, without, hb, hsame.live, Bool.false_eq_true, if_false]
  · simp only [deleteInstance, destruct, without, hb, hsame.spec, Bool.false_eq_true, if_false]
  all_goals
    simp only [deleteInstance, destruct, without, hb, htypes, Bool.false_eq_true, if_false]

end Network

/-! ### Runs -/

/-- Whether a command works on the list of watches. -/
def WatchCommand.editsWatches : WatchCommand → Bool
  | addWatch _ => true
  | removeWatch _ => true
  | _ => false

/-- **The commands that do no harm.** A watch is added where there is something to watch, or
the function block is watched already; and no function block is deleted that is watched, or
with one in it that is. -/
def Harmless (layout : Layout) (s : Monitored) : WatchCommand → Prop
  | .addWatch nameList => s.network.MayWatch layout s.fbMonitoringList nameList
  | .deleteFB nameList =>
    ∀ b, s.network.dir nameList = some (.block b) → s.network.isCurrentlyDeleteable b = true →
      ∀ e ∈ s.fbMonitoringList, ¬nameList <+: s.network.name e.fb
  | _ => True

/-- **The runs of a resource whose commands all meet a condition**, and have a defined
behaviour. New function blocks are given addresses that no other one has. -/
inductive WatchRun (lib : TypeLibrary) (layout : Layout) (P : Monitored → WatchCommand → Prop)
    (s₀ : Monitored) : Monitored → Prop
  | start : WatchRun lib layout P s₀ s₀
  | command {s s' : Monitored} {response : EMGMResponse} (run : WatchRun lib layout P s₀ s)
      (cmd : WatchCommand) (hP : P s cmd) (h : s.execute lib layout cmd = some (response, s'))
      (hallocated : s'.network.Allocated layout) : WatchRun lib layout P s₀ s'

/-- **A command that does no harm** has a defined behaviour, keeps the list of watches
consistent, and leaves it alone when it is about watches and refused. -/
theorem Network.Consistent.execute (lib : TypeLibrary) {layout : Layout} {s : Monitored}
    (h : s.network.Consistent layout s.fbMonitoringList) (hnamed : s.network.Named)
    (ha : s.network.Allocated layout) {cmd : WatchCommand} (hcmd : Harmless layout s cmd) :
    ∃ response s', s.execute lib layout cmd = some (response, s') ∧
      s'.network.Consistent layout s'.fbMonitoringList ∧ s'.network.Named ∧
      (cmd.editsWatches = true → response ≠ .ready → s' = s) := by
  cases cmd with
  | addWatch nameList =>
    obtain ⟨response, l, heq, hl, hsame⟩ := h.addWatch hnamed ha hcmd
    refine ⟨response, { s with fbMonitoringList := l }, ?_, hl, hnamed, fun _ hr => ?_⟩
    · rw [Monitored.execute, heq]
      rfl
    · rw [hsame hr]
  | removeWatch nameList =>
    obtain ⟨hl, hsame⟩ := h.removeWatch nameList
    exact ⟨_, _, rfl, hl, hnamed, fun _ hr => congrArg (Monitored.mk s.network) (hsame hr)⟩
  | readWatches =>
    refine ⟨.ready, s, ?_, h, hnamed, fun _ _ => rfl⟩
    rw [Monitored.execute, h.readResourceWatches]
    rfl
  | createFB nameList typeName typeHash =>
    refine ⟨_, _, rfl, h.of_sameVariables fun e he => ?_,
      hnamed.createFBIn lib [] typeName typeHash nameList, nofun⟩
    exact Network.createFBIn_sameVariables lib _ _ _ _ _ (hnamed.lt_next (h.watches e he).live)
  | deleteFB nameList =>
    refine ⟨_, _, rfl, ?_, hnamed.execute lib (.deleteFB nameList), nofun⟩
    rcases s.network.deleteFBIn_cases [] nameList with ⟨r, -, heq⟩ |
      ⟨q, name, b, hdir, hdel, hnames, heq⟩
    · simp only [heq]
      exact h
    · obtain rfl : nameList = q ++ [name] := hnames
      simp only [heq]
      refine h.of_sameVariables fun e he => s.network.deleteInstance_sameVariables ?_
      rw [Network.isWithin, Bool.and_eq_false_iff, ← Bool.not_eq_true (List.isPrefixOf _ _),
        List.isPrefixOf_iff_prefix]
      exact .inr (hcmd b hdir hdel e he)

/-- **The list of watches is consistent in every run without harm**, from a resource without
watches on: after any commands, and the next one, if it does no harm, has a defined
behaviour and leaves the list alone when it is about watches and refused. -/
theorem WatchRun.consistent {lib : TypeLibrary} {layout : Layout} {s₀ : Network} {s : Monitored}
    (hstart : Network.Run lib (fun _ _ => True) .initial s₀) (ha : s₀.Allocated layout)
    (run : WatchRun lib layout (Harmless layout) ⟨s₀, []⟩ s) :
    s.network.Consistent layout s.fbMonitoringList ∧
      ∀ cmd, Harmless layout s cmd → ∃ response s', s.execute lib layout cmd = some (response, s') ∧
        (cmd.editsWatches = true → response ≠ .ready → s' = s) := by
  have hinvariant : s.network.Consistent layout s.fbMonitoringList ∧ s.network.Named ∧
      s.network.Allocated layout := by
    induction run with
    | start => exact ⟨Network.consistent_nil layout s₀, hstart.named, ha⟩
    | command _ cmd hP heq hallocated ih =>
      obtain ⟨h, hnamed, ha⟩ := ih
      obtain ⟨_, _, heq', h', hnamed', -⟩ := h.execute lib hnamed ha hP
      obtain ⟨-, rfl⟩ := Prod.mk.inj (Option.some.inj (heq.symm.trans heq'))
      exact ⟨h', hnamed', hallocated⟩
  obtain ⟨h, hnamed, ha⟩ := hinvariant
  refine ⟨h, fun cmd hcmd => ?_⟩
  obtain ⟨response, s', heq, -, -, hsame⟩ := h.execute lib hnamed ha hcmd
  exact ⟨response, s', heq, hsame⟩

/-- Function blocks without internal variables, each at an address of its own. -/
def sampleLayout : Layout where
  address := id
  internalVars := fun _ => []
  nameAddress := fun name => Encodable.encode (name.toList.map Char.toNat)
  nameAddress_injective := fun name name' h => by
    have hmap := Encodable.encode_injective h
    have hlist := List.map_injective_iff.mpr (fun c c' hc => Char.toNat_inj.mp hc) hmap
    exact String.toList_inj.mp hlist

/-- A resource with a function block that sends events and data. -/
def oneSource : Network :=
  (Network.initial.execute Network.sampleTypes (.createFB ["A"] "SOURCE" "")).1

theorem oneSource_run : Network.Run Network.sampleTypes (fun _ _ => True) .initial oneSource :=
  .command (.refl _) (.createFB ["A"] "SOURCE" "") trivial

theorem oneSource_allocated : oneSource.Allocated sampleLayout := fun _ _ _ _ h => h

/-- A watch of an output of it. -/
def oneWatch : Monitored :=
  ⟨oneSource, [⟨"A", 1, [⟨["OUT"], ⟨1, .dout, 0, []⟩, some 0⟩], []⟩]⟩

theorem oneWatch_eq : Monitored.execute Network.sampleTypes sampleLayout ⟨oneSource, []⟩
    (.addWatch ["A", "OUT"]) = some (.ready, oneWatch) := rfl

/-- After a watch was added, the list is consistent. -/
theorem oneWatch_consistent :
    oneWatch.network.Consistent sampleLayout oneWatch.fbMonitoringList ∧
      ∀ cmd, Harmless sampleLayout oneWatch cmd → ∃ response s',
        oneWatch.execute Network.sampleTypes sampleLayout cmd = some (response, s') ∧
          (cmd.editsWatches = true → response ≠ .ready → s' = oneWatch) := by
  refine WatchRun.consistent oneSource_run oneSource_allocated
    (.command .start (.addWatch ["A", "OUT"]) ?_ oneWatch_eq oneSource_allocated)
  intro b rest hfb
  obtain ⟨rfl, rfl⟩ : 1 = b ∧ ["OUT"] = rest :=
    Prod.mk.inj (Option.some.inj (show some (1, ["OUT"]) = some (b, rest) from hfb))
  exact ⟨List.cons_ne_nil _ _, .inl rfl⟩

/-- **How the list becomes inconsistent.** A watched function block is deleted, and the next
`readWatches` reads what is not there. A watch of a port that does not exist is refused, but
leaves an entry without watches. A watch of a function block has no defined behaviour. -/
theorem watches_inconsistent :
    (∃ s, WatchRun Network.sampleTypes sampleLayout (fun _ _ => True) ⟨oneSource, []⟩ s ∧
      ¬s.network.Consistent sampleLayout s.fbMonitoringList ∧
      s.execute Network.sampleTypes sampleLayout .readWatches = none) ∧
    (∃ s : Monitored, Monitored.execute Network.sampleTypes sampleLayout ⟨oneSource, []⟩
        (.addWatch ["A", "NO"]) = some (.noSuchObject, s) ∧
      s.fbMonitoringList ≠ [] ∧
      ¬s.network.Consistent sampleLayout s.fbMonitoringList) ∧
    Monitored.execute Network.sampleTypes sampleLayout ⟨oneSource, []⟩ (.addWatch ["A"]) =
      none := by
  refine ⟨⟨_, .command (.command .start (.addWatch ["A", "OUT"]) trivial oneWatch_eq
    oneSource_allocated) (.deleteFB ["A"]) trivial rfl fun _ _ _ _ h => h, ?_, rfl⟩,
    ⟨_, rfl, List.cons_ne_nil _ _, ?_⟩, rfl⟩
  · intro h
    exact absurd (h.watches _ List.mem_cons_self).live nofun
  · intro h
    exact (h.watched _ List.mem_cons_self).elim (fun hdata => hdata rfl) fun hevent => hevent rfl

end Forte
