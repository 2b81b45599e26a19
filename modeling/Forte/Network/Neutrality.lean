import Forte.Network.Composite

/-!
# What initializing a composite leaves in the counters

A composite must come out of `CCompositeFB::initialize` with the counters it went in with, or it
can never be deleted. The connections inside are made with the `connect` of the connection
classes, which counts; `Forte.Composite.Connected` says once for all of them what it counts, and
a connection to the interface counts nothing. `createDataConnections` takes back one count for
every data connection that begins at the interface, whether there was one or not, and nothing is
taken back of what event and adapter connections have counted.

So the counter of the composite follows its description alone
(`Forte.Composite.FBNData.finalCount`), and that of a function block inside only runs out in the
initializing of a composite that stands there itself. The main result is
`Forte.Composite.initialise_neutral_iff`, with the condition under which initializing is neutral
(`Forte.Composite.CompositeFB.Balanced`). A data input connected to a data output of the same
interface violates it, a plug of the interface connected to a socket inside does as well.
-/

namespace Forte

namespace Composite

variable {τ : Type}

/-! ### Function blocks inside -/

namespace Block

theorem nodes_mk (id : FBId) (name : StringId) (spec : InterfaceSpec) (net : Option FBNData)
    (children : List Block) :
    (mk id name spec net children).nodes = mk id name spec net children :: nodesAll children := by
  rw [nodes]

theorem nodes_eq (b : Block) : b.nodes = b :: b.internals := by
  obtain ⟨id, name, spec, net, children⟩ := b
  exact nodes_mk ..

theorem ids_eq (b : Block) : b.ids = b.id :: b.internals.map Block.id := by
  rw [ids, nodes_eq, List.map_cons]

theorem mem_nodesAll {bs : List Block} {d : Block} :
    d ∈ nodesAll bs ↔ ∃ b ∈ bs, d ∈ b.nodes := by
  induction bs with
  | nil => simp [nodesAll]
  | cons b bs ih => simp [nodesAll, ih]

/-- The function blocks in a child are inside. -/
theorem mem_internals_of_child {b child d : Block} (hchild : child ∈ b.children)
    (hd : d ∈ child.nodes) : d ∈ b.internals :=
  mem_nodesAll.mpr ⟨child, hchild, hd⟩

theorem mem_children_of_getFB {b child : Block} {name : StringId}
    (h : b.getFB name = some child) : child ∈ b.children := by
  unfold getFB at h
  split at h
  · cases h
  · exact List.mem_of_find?_eq_some h

theorem id_mem_ids (b : Block) : b.id ∈ b.ids := by
  rw [ids_eq]
  exact List.mem_cons_self

theorem self_mem_nodes (b : Block) : b ∈ b.nodes := by
  rw [nodes_eq]
  exact List.mem_cons_self

theorem id_mem_ids_of_mem_internals {b d : Block} (h : d ∈ b.internals) : d.id ∈ b.ids := by
  rw [ids_eq]
  exact List.mem_cons_of_mem _ (List.mem_map_of_mem h)

theorem id_ne_of_mem_internals {b d : Block} (hnodup : b.ids.Nodup) (h : d ∈ b.internals) :
    d.id ≠ b.id := by
  rw [ids_eq, List.nodup_cons] at hnodup
  exact fun he => hnodup.1 (he ▸ List.mem_map_of_mem h)

/-- What is in a child is not the function block itself. -/
theorem ne_of_mem_ids_child {b child : Block} {i : FBId} (hnodup : b.ids.Nodup)
    (hchild : child ∈ b.children) (hi : i ∈ child.ids) : i ≠ b.id := by
  obtain ⟨d, hd, rfl⟩ := List.mem_map.mp hi
  exact id_ne_of_mem_internals hnodup (mem_internals_of_child hchild hd)

theorem mem_ids_of_mem_ids_child {b child : Block} {i : FBId} (hchild : child ∈ b.children)
    (hi : i ∈ child.ids) : i ∈ b.ids := by
  obtain ⟨d, hd, rfl⟩ := List.mem_map.mp hi
  exact id_mem_ids_of_mem_internals (mem_internals_of_child hchild hd)

theorem mem_internals_of_getFB {b child : Block} {name : StringId}
    (h : b.getFB name = some child) : child ∈ b.internals :=
  mem_internals_of_child (mem_children_of_getFB h) (self_mem_nodes child)

/-- **A connection of a function block begins at it, or at one inside.** -/
theorem source_mem_of_outputConnection {names rest : List StringId} {b : Block}
    {c : InternalConnection} (h : outputConnection names b = some (c, rest)) :
    c.source ∈ b.ids := by
  induction names generalizing b with
  | nil => cases h
  | cons name names ih =>
    have hself := id_mem_ids b
    simp only [outputConnection, Option.orElse_eq_some, Option.map_eq_some_iff, Prod.mk.injEq,
      Option.bind_eq_some_iff] at h
    rcases h with ⟨_, _, rfl, _⟩ | ⟨-, ⟨_, _, rfl, _⟩ | ⟨-, ⟨_, _, rfl, _⟩ | ⟨-, ⟨_, _, rfl, _⟩ |
      ⟨-, child, hchild, hrest⟩⟩⟩⟩
    · exact hself
    · exact hself
    · exact hself
    · exact hself
    · -- the rest of the names leads into a child
      exact mem_ids_of_mem_ids_child (mem_children_of_getFB hchild) (ih hrest)

/-- A connection from the interface begins at the composite. -/
theorem source_of_interfaceConnection {names rest : List StringId} {b : Block}
    {c : InternalConnection} (h : b.interfaceConnection names = some (c, rest)) :
    c.source = b.id := by
  cases names with
  | nil => cases h
  | cons name names =>
    simp only [interfaceConnection, Option.orElse_eq_some, Option.map_eq_some_iff,
      Prod.mk.injEq] at h
    rcases h with ⟨_, _, rfl, _⟩ | ⟨-, ⟨_, _, rfl, _⟩ | ⟨-, ⟨_, _, rfl, _⟩ | ⟨-, _, _, rfl, _⟩⟩⟩
    · rfl
    · rfl
    · rfl
    · rfl

theorem source_mem_of_sourceConnection {b : Block} {srcFBName : StringId}
    {srcNames rest : List StringId} {c : InternalConnection}
    (h : b.sourceConnection srcFBName srcNames = some (c, rest)) : c.source ∈ b.ids := by
  unfold sourceConnection at h
  split at h
  · rw [source_of_interfaceConnection h]
    exact id_mem_ids b
  · obtain ⟨src, hsrc, hout⟩ := Option.bind_eq_some_iff.mp h
    exact mem_ids_of_mem_ids_child (mem_children_of_getFB hsrc)
      (source_mem_of_outputConnection hout)

end Block

/-! ### What connecting does to the counters -/

namespace Wiring

@[simp]
theorem modify_blocks (s : Wiring τ) (b : FBId) (f : BlockState → BlockState) :
    (s.modify b f).blocks = Function.update s.blocks b (f (s.blocks b)) := rfl

end Wiring

theorem addDestination_blocks (s : Wiring τ) (pin dst : Pin) :
    (addDestination s pin dst).1.blocks = s.blocks := by
  unfold addDestination
  split <;> rfl

section Rules

variable (rules : PortRules τ)

theorem connectDI_blocks (s : Wiring τ) (dst : Block) (di : PortId) (c : InputPointer) :
    (connectDI rules s dst di c).1.blocks = s.blocks := by
  unfold connectDI
  split
  · rfl
  · split <;> rfl

theorem connectDio_blocks (s : Wiring τ) (dst : Block) (dio : PortId) (pin : Pin) :
    (connectDio rules s dst dio pin).1.blocks = s.blocks := by
  unfold connectDio
  split
  · rfl
  · split <;> rfl

theorem establishDataConnection_blocks (s : Wiring τ) (c : InternalData) (dst : Block)
    (di : PortId) : (establishDataConnection rules s c dst di).1.blocks = s.blocks := by
  unfold establishDataConnection
  split
  · rfl
  · rename_i types _
    have hconnect := connectDI_blocks rules { s with types := types } dst di (.single c)
    split <;> rename_i heq <;> rw [heq] at hconnect <;> exact hconnect

theorem addMemberConnection_blocks (s : Wiring τ) (dst : Block) (di : PortId)
    (members : List (List StringId × InternalData)) (names : List StringId)
    (c : InternalData) :
    (addMemberConnection rules s dst di members names c).1.blocks = s.blocks := by
  unfold addMemberConnection
  split
  · rfl
  · split <;> rfl

theorem establishGatheringConnection_blocks (s : Wiring τ) (c : InternalData) (dst : Block)
    (di : PortId) (names : List StringId) :
    (establishGatheringConnection rules s c dst di names).1.blocks = s.blocks := by
  unfold establishGatheringConnection
  split
  · rfl
  · split
    · rfl
    · rename_i types _
      have hconnect := connectDI_blocks rules { s with types := types } dst di (.gathering [])
      dsimp only
      split
      · split <;> rename_i heq <;> rw [heq] at hconnect
        · exact hconnect
        · rw [addMemberConnection_blocks]
          exact hconnect
      · rfl
      · exact addMemberConnection_blocks ..

/-- **A data connection counts at the function block it begins at when it is made**, and
moves no counter otherwise. -/
theorem connectData_blocks (s : Wiring τ) (c : InternalData) (dst : Block)
    (names : List StringId) :
    (connectData rules s c dst names).1.blocks =
      if (connectData rules s c dst names).2 = .ready then
        (s.modify c.origin.src.fb .incConnRefCount).blocks
      else s.blocks := by
  cases names with
  | nil => rfl
  | cons name names =>
    rcases hdi : getPortId name dst.spec.diNames with _ | di
    · simp [connectData, hdi]
    · have hblocks : (if names = [] then establishDataConnection rules s c dst di
          else establishGatheringConnection rules s c dst di names).1.blocks = s.blocks := by
        split
        · exact establishDataConnection_blocks ..
        · exact establishGatheringConnection_blocks ..
      simp only [connectData, hdi]
      by_cases hready : (if names = [] then establishDataConnection rules s c dst di
          else establishGatheringConnection rules s c dst di names).2 = .ready
      · simp [hready, hblocks]
      · simp [hready, hblocks]

theorem establishInOutConnection_blocks (s : Wiring τ) (pin : Pin) (dst : Block)
    (dio : PortId) : (establishInOutConnection rules s pin dst dio).1.blocks = s.blocks := by
  unfold establishInOutConnection
  split
  · rfl
  · rename_i types _
    have hconnect := connectDio_blocks rules { s with types := types } dst dio pin
    dsimp only
    split
    · rfl
    · split <;> rename_i heq <;> rw [heq] at hconnect <;> exact hconnect

/-- What making a connection does to the counters: the function block at the source is
counted where the connection counts there, the one at the destination may be, and nothing is
counted down. -/
structure Connected (s s' : Wiring τ) (c : InternalConnection) (dst : FBId) : Prop where
  source : c.source ≠ dst → s'.blocks c.source =
    if c.countsAtSource then (s.blocks c.source).incConnRefCount else s.blocks c.source
  underflow : ∀ b, (s'.blocks b).connRefCount.underflow = (s.blocks b).connRefCount.underflow
  others : ∀ b, b ≠ c.source → b ≠ dst → s'.blocks b = s.blocks b

theorem connectEvent_connected {s s' : Wiring τ} {pin : Pin} {dst : Block}
    {names : List StringId} (h : connectEvent s pin dst names = (s', .ready)) :
    Connected s s' (.event pin) dst.id := by
  unfold connectEvent at h
  split at h
  · split at h
    · cases h
    · rename_i ei _
      have hblocks := addDestination_blocks s pin ⟨.outer, dst.id, ei⟩
      rcases hadd : addDestination s pin ⟨.outer, dst.id, ei⟩ with ⟨s₁, response⟩
      rw [hadd] at h hblocks
      obtain ⟨rfl, -⟩ := Prod.mk.inj h
      refine ⟨fun hne => ?_, fun b => ?_, fun b _ hb => ?_⟩
      · rw [Wiring.modify_blocks, hblocks, Function.update_of_ne hne]
        rfl
      · rw [Wiring.modify_blocks, hblocks]
        by_cases hb : b = dst.id
        · rw [hb, Function.update_self]
          unfold BlockState.addInputEventConnection
          split <;> rfl
        · rw [Function.update_of_ne hb]
      · rw [Wiring.modify_blocks, hblocks, Function.update_of_ne hb]
  · cases h

/-- A connection that counts at its source alone. -/
theorem Connected.of_source {s s' : Wiring τ} {c : InternalConnection} {dst : FBId}
    (hcounts : c.countsAtSource = true)
    (h : s'.blocks = (s.modify c.source .incConnRefCount).blocks) : Connected s s' c dst := by
  rw [Wiring.modify_blocks] at h
  refine ⟨fun _ => ?_, fun b => ?_, fun b hb _ => ?_⟩
  · rw [h, Function.update_self, if_pos hcounts]
  · rw [h]
    by_cases hb : b = c.source
    · rw [hb, Function.update_self]
      rfl
    · rw [Function.update_of_ne hb]
  · rw [h, Function.update_of_ne hb]

/-- A connection that counts at both ends. -/
theorem Connected.of_both {s s' : Wiring τ} {c : InternalConnection} {dst : FBId}
    (hcounts : c.countsAtSource = true)
    (h : s'.blocks =
      ((s.modify dst .incConnRefCount).modify c.source .incConnRefCount).blocks) :
    Connected s s' c dst := by
  have hdst : ∀ b, ((s.modify dst .incConnRefCount).blocks b).connRefCount.underflow =
      (s.blocks b).connRefCount.underflow := by
    intro b
    rw [Wiring.modify_blocks]
    by_cases hb : b = dst
    · rw [hb, Function.update_self]
      rfl
    · rw [Function.update_of_ne hb]
  have hsource : Connected (s.modify dst .incConnRefCount) s' c dst := .of_source hcounts h
  refine ⟨fun hne => ?_, fun b => (hsource.underflow b).trans (hdst b), fun b hb hbdst => ?_⟩
  · rw [hsource.source hne, Wiring.modify_blocks, Function.update_of_ne hne]
  · rw [hsource.others b hb hbdst, Wiring.modify_blocks, Function.update_of_ne hbdst]

theorem connectData_connected {s s' : Wiring τ} {c : InternalData} {dst : Block}
    {names : List StringId} (h : connectData rules s c dst names = (s', .ready)) :
    Connected s s' (.data c) dst.id := by
  have hblocks := connectData_blocks rules s c dst names
  rw [h, if_pos rfl] at hblocks
  exact .of_source rfl hblocks

theorem connectInOut_connected {s s' : Wiring τ} {pin : Pin} {dst : Block}
    {names : List StringId} (h : connectInOut rules s pin dst names = (s', .ready)) :
    Connected s s' (.data ⟨.inOut pin, none⟩) dst.id := by
  unfold connectInOut at h
  split at h
  · -- there is no such data input, which has moved no counter
    rename_i s₁ hdata
    have hsame := connectData_blocks rules s ⟨.inOut pin, none⟩ dst names
    have hready : EMGMResponse.noSuchObject ≠ .ready := by decide
    rw [hdata, if_neg hready] at hsame
    split at h
    · split at h
      · cases h
      · rename_i dio _
        have hblocks := establishInOutConnection_blocks rules s₁ pin dst dio
        split at h
        · rename_i s₂ hestablish
          obtain ⟨rfl, -⟩ := Prod.mk.inj h
          rw [hestablish] at hblocks
          have hs₂ : s₂.blocks = s.blocks := hblocks.trans hsame
          refine .of_both rfl ?_
          simp only [Wiring.modify_blocks, hs₂]
          rfl
        · rename_i hne _
          obtain ⟨-, rfl⟩ := Prod.mk.inj h
          exact absurd rfl hne
    · cases h
  · obtain ⟨rfl, rfl⟩ := Prod.mk.inj h
    exact connectData_connected rules ‹_›

theorem connectAdapter_connected {s s' : Wiring τ} {plug : ConnectionPoint} {dst : Block}
    {names : List StringId} (h : connectAdapter rules s plug dst names = (s', .ready)) :
    Connected s s' (.adapter plug) dst.id := by
  unfold connectAdapter at h
  split at h
  · cases h
  · split at h
    · split at h
      · cases h
      · split at h
        · cases h
        · split at h
          · cases h
          · split at h
            · cases h
            · obtain ⟨rfl, -⟩ := Prod.mk.inj h
              exact .of_both rfl rfl
    · cases h

/-- **Every connection moves the counters in this way when it is made.** -/
theorem connect_connected {s s' : Wiring τ} {c : InternalConnection} {dst : Block}
    {names : List StringId} (h : connect rules s c dst names = (s', .ready)) :
    Connected s s' c dst.id := by
  unfold connect at h
  split at h
  · exact connectEvent_connected h
  · exact connectInOut_connected rules h
  · exact connectData_connected rules h
  · exact connectAdapter_connected rules h

/-! ### Connections to the interface -/

theorem establishInterfaceConnection_blocks (s : Wiring τ) (c : InternalData) (cfb : Block)
    (dout : PortId) :
    (establishInterfaceConnection rules s c cfb dout).1.blocks = s.blocks := by
  unfold establishInterfaceConnection
  split
  · rfl
  · dsimp only
    split
    · rfl
    · split <;> rfl

theorem establishInterfaceGathering_blocks (s : Wiring τ) (c : InternalData) (cfb : Block)
    (dout : PortId) (name : StringId) (names : List StringId) :
    (establishInterfaceGathering rules s c cfb dout name names).1.blocks = s.blocks := by
  unfold establishInterfaceGathering
  split
  · rfl
  · split
    · rfl
    · dsimp only
      split
      · repeat' split
        all_goals rfl
      · split
        · repeat' split
          all_goals rfl
        · rfl
        · exact addMemberConnection_blocks ..

/-- **A connection to the interface moves no counter.** -/
theorem connectToCFBInterface_blocks (s : Wiring τ) (c : InternalConnection) (cfb : Block)
    (names : List StringId) :
    (connectToCFBInterface rules s c cfb names).1.blocks = s.blocks := by
  unfold connectToCFBInterface
  split
  · unfold connectEventToInterface
    split
    · split
      · rfl
      · exact addDestination_blocks ..
    · rfl
  · unfold connectDataToInterface
    split
    · rfl
    · split
      · rfl
      · split
        · exact establishInterfaceConnection_blocks ..
        · exact establishInterfaceGathering_blocks ..
  · rfl

/-- A delegating connection begins where the connection does that it is made for. -/
theorem getDelegatingConnection_some {s s' : Wiring τ} {c c' : InternalConnection}
    {names : List StringId} (h : getDelegatingConnection rules s c names = some (s', c')) :
    s'.blocks = s.blocks ∧ c'.source = c.source ∧ c'.countsAtSource = c.countsAtSource := by
  unfold getDelegatingConnection at h
  split at h
  · cases h
    exact ⟨rfl, rfl, rfl⟩
  · split at h
    · split at h
      · cases h
        exact ⟨rfl, rfl, rfl⟩
      · cases h
    · cases h

/-! ### What a description counts -/

/-- An entry leads from a data input, an in-out or a plug of the interface to a function block
inside: connecting it counts the composite. -/
def FBConnectionData.countsComposite (b : Block) (conn : FBConnectionData) : Bool :=
  conn.srcFBNameId = "" && conn.dstFBNameId ≠ "" &&
    (b.interfaceConnection conn.srcId).any (·.1.countsAtSource)

/-- A data connection for which `createDataConnections` takes back a count that connecting it
has not made. -/
def FBConnectionData.isOverReleased (b : Block) (conn : FBConnectionData) : Bool :=
  conn.srcFBNameId = "" && !conn.countsComposite b

/-- The state with the counter moved. -/
def BlockState.mapCount (f : Counter 64 → Counter 64) (b : BlockState) : BlockState :=
  { b with connRefCount := f b.connRefCount }

theorem BlockState.mapCount_mapCount (f g : Counter 64 → Counter 64) (b : BlockState) :
    (b.mapCount f).mapCount g = b.mapCount (g ∘ f) := rfl

/-- What a part of the initializing leaves alone: the counters of the function blocks in the
composite do not run out, and nothing is changed outside. -/
structure Inside (b : Block) (s s' : Wiring τ) : Prop where
  underflow : ∀ d, d ≠ b.id →
    (s'.blocks d).connRefCount.underflow = (s.blocks d).connRefCount.underflow
  outside : ∀ d, d ∉ b.ids → s'.blocks d = s.blocks d

theorem Inside.of_eq {b : Block} {s s' : Wiring τ} (h : s'.blocks = s.blocks) :
    Inside b s s' :=
  ⟨fun d _ => by rw [h], fun d _ => by rw [h]⟩

theorem Inside.trans {b : Block} {s s₁ s₂ : Wiring τ} (h : Inside b s s₁)
    (h' : Inside b s₁ s₂) : Inside b s s₂ :=
  ⟨fun d hd => (h'.underflow d hd).trans (h.underflow d hd),
    fun d hd => (h'.outside d hd).trans (h.outside d hd)⟩

/-- A change at the composite itself. -/
theorem Inside.modify (b : Block) (s : Wiring τ) (f : BlockState → BlockState) :
    Inside b s (s.modify b.id f) := by
  refine ⟨fun d hd => ?_, fun d hd => ?_⟩
  · rw [Wiring.modify_blocks, Function.update_of_ne hd]
  · have hne : d ≠ b.id := by
      rintro rfl
      exact hd (Block.id_mem_ids b)
    rw [Wiring.modify_blocks, Function.update_of_ne hne]

/-- **One connection of the description**: the composite is counted for it when it leads from
a data input, an in-out or a plug of the interface to a function block inside. -/
theorem establishConnection_some {b : Block} {s s' : Wiring τ} {conn : FBConnectionData}
    (hnodup : b.ids.Nodup) (h : establishConnection rules b s conn = some s') :
    Inside b s s' ∧ s'.blocks b.id =
      if conn.countsComposite b then (s.blocks b.id).incConnRefCount else s.blocks b.id := by
  simp only [establishConnection, Option.bind_eq_bind, Option.bind_eq_some_iff, Prod.exists] at h
  obtain ⟨c, names, hsource, s₁, c₁, hdelegating, s₂, response, hmade, hready⟩ := h
  obtain ⟨hs₁, hc₁, hcounts⟩ := getDelegatingConnection_some rules hdelegating
  split at hready
  · rename_i hresponse
    cases hready
    subst hresponse
    unfold connectDestination at hmade
    split at hmade
    · -- to the interface
      rename_i hdst
      have hblocks := connectToCFBInterface_blocks rules s₁ c₁ b conn.dstId
      rw [Option.some.inj hmade] at hblocks
      have hsame := hblocks.trans hs₁
      dsimp only at hsame
      refine ⟨.of_eq hsame, ?_⟩
      rw [hsame, if_neg]
      simp [FBConnectionData.countsComposite, hdst]
    · -- to a function block inside
      rename_i hdst
      obtain ⟨dst, hgetFB, hconnect⟩ := Option.map_eq_some_iff.mp hmade
      have hconnected := connect_connected rules hconnect
      have hdstInside := Block.mem_internals_of_getFB hgetFB
      have hdstNe := Block.id_ne_of_mem_internals hnodup hdstInside
      have hsourceMem : c₁.source ∈ b.ids := by
        rw [hc₁]
        exact Block.source_mem_of_sourceConnection hsource
      refine ⟨⟨fun d _ => ?_, fun d hd => ?_⟩, ?_⟩
      · rw [hconnected.underflow, hs₁]
      · rw [hconnected.others d (fun he => hd (he ▸ hsourceMem)) fun he => hd (by
          rw [he]
          exact Block.id_mem_ids_of_mem_internals hdstInside), hs₁]
      · unfold Block.sourceConnection at hsource
        split at hsource
        · -- from the interface
          rename_i hsrc
          have hself : c₁.source = b.id :=
            hc₁.trans (Block.source_of_interfaceConnection hsource)
          have hstep := hconnected.source (by rw [hself]; exact hdstNe.symm)
          rw [hself, hcounts, hs₁] at hstep
          rw [hstep]
          simp [FBConnectionData.countsComposite, hsrc, hdst, hsource]
        · -- from a function block inside
          rename_i hsrc
          obtain ⟨src, hgetSrc, hout⟩ := Option.bind_eq_some_iff.mp hsource
          have hne : b.id ≠ c₁.source := by
            rw [hc₁]
            exact (Block.ne_of_mem_ids_child hnodup (Block.mem_children_of_getFB hgetSrc)
              (Block.source_mem_of_outputConnection hout)).symm
          rw [hconnected.others _ hne hdstNe.symm, hs₁, if_neg]
          simp [FBConnectionData.countsComposite, hsrc]
  · cases hready

/-! ### What the lists of a description count -/

/-- **The event or the adapter connections of a description**: none of the counts they make at
the composite is taken back. -/
theorem createConnections_some {b : Block} (hnodup : b.ids.Nodup)
    {conns : List FBConnectionData} {s s' : Wiring τ}
    (h : createConnections rules b conns s = some s') :
    Inside b s s' ∧ s'.blocks b.id =
      (s.blocks b.id).mapCount (Counter.up^[conns.countP (·.countsComposite b)]) := by
  induction conns generalizing s with
  | nil =>
    cases h
    exact ⟨.of_eq rfl, rfl⟩
  | cons conn conns ih =>
    simp only [createConnections, Option.bind_eq_bind, Option.bind_eq_some_iff] at h
    obtain ⟨s₁, hstep, hrest⟩ := h
    obtain ⟨hinside, hself⟩ := establishConnection_some rules hnodup hstep
    obtain ⟨hinside', hself'⟩ := ih hrest
    refine ⟨hinside.trans hinside', ?_⟩
    rw [hself', hself, List.countP_cons]
    by_cases hcounts : conn.countsComposite b
    · rw [if_pos hcounts, if_pos hcounts]
      rfl
    · rw [if_neg hcounts, if_neg hcounts]
      rfl

/-- **The data connections of a description**: a count that was made is taken back, and the
ones taken back beyond that add up. -/
theorem createDataConnections_some {b : Block} (hnodup : b.ids.Nodup)
    {conns : List FBConnectionData} {s s' : Wiring τ}
    (hroom : conns ≠ [] → (s.blocks b.id).connRefCount.HasRoom)
    (h : createDataConnections rules b conns s = some s') :
    Inside b s s' ∧ s'.blocks b.id =
      (s.blocks b.id).mapCount (Counter.down^[conns.countP (·.isOverReleased b)]) := by
  induction conns generalizing s with
  | nil =>
    cases h
    exact ⟨.of_eq rfl, rfl⟩
  | cons conn conns ih =>
    simp only [createDataConnections, Option.bind_eq_bind, Option.bind_eq_some_iff] at h
    obtain ⟨s₁, hstep, hrest⟩ := h
    have hcount : (s.blocks b.id).connRefCount.HasRoom := hroom (List.cons_ne_nil _ _)
    obtain ⟨hinside, hself⟩ := establishConnection_some rules hnodup hstep
    -- the wiring after this connection, with what `createDataConnections` takes back
    have hnext : Inside b s (if conn.srcFBNameId = "" then s₁.modify b.id .decConnRefCount
        else s₁) ∧ (if conn.srcFBNameId = "" then s₁.modify b.id .decConnRefCount
          else s₁).blocks b.id =
        if conn.isOverReleased b then (s.blocks b.id).decConnRefCount else s.blocks b.id := by
      by_cases hsrc : conn.srcFBNameId = ""
      · rw [if_pos hsrc]
        refine ⟨hinside.trans (.modify b s₁ _), ?_⟩
        rw [Wiring.modify_blocks, Function.update_self, hself]
        by_cases hcounts : conn.countsComposite b
        · rw [if_pos hcounts, if_neg (by simp [FBConnectionData.isOverReleased, hcounts])]
          exact congrArg (fun c => { s.blocks b.id with connRefCount := c })
            (Counter.down_up hcount)
        · rw [if_neg hcounts, if_pos (by simp [FBConnectionData.isOverReleased, hcounts, hsrc])]
      · have hcounts : ¬conn.countsComposite b := by
          simp [FBConnectionData.countsComposite, hsrc]
        rw [if_neg hsrc, hself, if_neg hcounts,
          if_neg (by simp [FBConnectionData.isOverReleased, hsrc])]
        exact ⟨hinside, rfl⟩
    obtain ⟨hinsideNext, hselfNext⟩ := hnext
    have hroomNext : ((if conn.srcFBNameId = "" then s₁.modify b.id .decConnRefCount
        else s₁).blocks b.id).connRefCount.HasRoom := by
      rw [hselfNext]
      split
      · exact hcount.down
      · exact hcount
    obtain ⟨hinside', hself'⟩ := ih (fun _ => hroomNext) hrest
    refine ⟨hinsideNext.trans hinside', ?_⟩
    rw [hself', hselfNext, List.countP_cons]
    by_cases hover : conn.isOverReleased b
    · rw [if_pos hover, if_pos hover]
      rfl
    · rw [if_neg hover, if_neg hover]
      rfl

/-- The counts that the event connections make at the composite. -/
def FBNData.keptEvents (b : Block) (net : FBNData) : ℕ :=
  net.eventConnections.countP (·.countsComposite b)

/-- The counts that the adapter connections make at the composite. -/
def FBNData.keptAdapters (b : Block) (net : FBNData) : ℕ :=
  net.adapterConnections.countP (·.countsComposite b)

/-- The counts that are taken back without having been made. -/
def FBNData.overReleased (b : Block) (net : FBNData) : ℕ :=
  net.dataConnections.countP (·.isOverReleased b)

theorem FBNData.total_lt (b : Block) (net : FBNData) :
    net.keptEvents b + net.overReleased b + net.keptAdapters b < 2 ^ 64 := by
  have hevents : net.keptEvents b ≤ net.eventConnections.length := List.countP_le_length
  have hdata : net.overReleased b ≤ net.dataConnections.length := List.countP_le_length
  have hadapters : net.keptAdapters b ≤ net.adapterConnections.length :=
    List.countP_le_length
  have hsize := net.size_lt
  omega

/-- The counter of a composite when its network has been created. -/
def FBNData.finalCount (b : Block) (net : FBNData) : Counter 64 :=
  Counter.up^[net.keptAdapters b]
    (Counter.down^[net.overReleased b] (Counter.up^[net.keptEvents b] .zero))

theorem FBNData.finalCount_underflow (b : Block) (net : FBNData) :
    (net.finalCount b).underflow = decide (net.keptEvents b < net.overReleased b) := by
  have htotal := net.total_lt b
  have hevents : net.keptEvents b % 2 ^ 64 = net.keptEvents b := Nat.mod_eq_of_lt (by omega)
  simp only [finalCount, Counter.iterate_up, Counter.iterate_down, Counter.zero,
    BitVec.zero_add, BitVec.toNat_ofNat, hevents, Bool.false_or]

/-- **The counter is back at zero when as much was kept as was taken back beyond it.** -/
theorem FBNData.finalCount_value (b : Block) (net : FBNData) :
    (net.finalCount b).value = 0#64 ↔
      net.keptEvents b + net.keptAdapters b = net.overReleased b := by
  have htotal := net.total_lt b
  simp only [finalCount, Counter.iterate_up, Counter.iterate_down, Counter.zero]
  rw [← BitVec.toNat_inj]
  simp only [BitVec.toNat_add, BitVec.toNat_sub, BitVec.toNat_ofNat]
  omega

/-- **What creating its network does to the counter of a composite.** -/
theorem createNetwork_some {b : Block} (hnodup : b.ids.Nodup) {net : FBNData} {s s' : Wiring τ}
    (hzero : (s.blocks b.id).connRefCount = .zero)
    (h : createNetwork rules b net s = some s') :
    Inside b s s' ∧ s'.blocks b.id = { s.blocks b.id with connRefCount := net.finalCount b } := by
  simp only [createNetwork, Option.bind_eq_bind, Option.bind_eq_some_iff, Option.some.injEq] at h
  obtain ⟨s₁, hevents, s₂, hdata, s₃, hadapters, rfl⟩ := h
  obtain ⟨hinside₁, hself₁⟩ := createConnections_some rules hnodup hevents
  have hroom : net.dataConnections ≠ [] → (s₁.blocks b.id).connRefCount.HasRoom := by
    intro hne
    have hpos : 0 < net.dataConnections.length := List.length_pos_iff.mpr hne
    have hle : net.keptEvents b ≤ net.eventConnections.length := List.countP_le_length
    have hsize := net.size_lt
    refine Or.inr fun hwrap => ?_
    rw [hself₁] at hwrap
    have hvalue := congrArg BitVec.toNat hwrap
    simp only [BlockState.mapCount, hzero, Counter.iterate_up, Counter.zero,
      BitVec.toNat_add, BitVec.toNat_ofNat] at hvalue
    unfold FBNData.keptEvents at hle
    omega
  obtain ⟨hinside₂, hself₂⟩ := createDataConnections_some rules hnodup hroom hdata
  obtain ⟨hinside₃, hself₃⟩ := createConnections_some rules hnodup hadapters
  refine ⟨?_, ?_⟩
  · have hbefore : Inside b s { s with types := rules.setInitialValues s.types b.id } :=
      .of_eq rfl
    have hafter : Inside b s₃
        { s₃ with types := rules.setFBNetworkInitialValues s₃.types b.id } := .of_eq rfl
    exact ((hbefore.trans hinside₁).trans (hinside₂.trans hinside₃)).trans hafter
  · change s₃.blocks b.id = _
    rw [hself₃, hself₂, hself₁, FBNData.finalCount, ← hzero]
    rfl

/-! ### Initializing -/

/-- The counter of a function block when it is initialized. -/
def Block.finalCount (b : Block) : Counter 64 :=
  match b.net with
  | none => .zero
  | some net => net.finalCount b

/-- The ids of a list of function blocks and of those in them. -/
def Block.idsAll (bs : List Block) : List FBId := (nodesAll bs).map Block.id

theorem Block.idsAll_cons (b : Block) (bs : List Block) :
    idsAll (b :: bs) = b.ids ++ idsAll bs := by
  simp [idsAll, ids, nodesAll]

theorem Block.ids_mk (id : FBId) (name : StringId) (spec : InterfaceSpec)
    (net : Option FBNData) (children : List Block) :
    (mk id name spec net children).ids = id :: idsAll children := by
  simp [ids, nodes_mk, idsAll, Block.id]

theorem setupInputConnectionTrackingData_connRefCount (spec : InterfaceSpec) (b : BlockState) :
    (b.setupInputConnectionTrackingData spec).connRefCount = b.connRefCount := by
  unfold BlockState.setupInputConnectionTrackingData
  split <;> rfl

/-- What initializing leaves in the function blocks `bs` and changes nowhere else. -/
structure Settled (bs : List Block) (ids : List FBId) (s s' : Wiring τ) : Prop where
  underflow : ∀ d ∈ bs, (s'.blocks d.id).connRefCount.underflow = d.finalCount.underflow
  outside : ∀ i, i ∉ ids → s'.blocks i = s.blocks i

/-- What a function block does after the ones in it are initialized. -/
theorem initialiseOwn_some {b : Block} {s s' : Wiring τ} (hnodup : b.ids.Nodup)
    (hzero : (s.blocks b.id).connRefCount = .zero) (h : initialiseOwn rules b s = some s') :
    Inside b s s' ∧ s'.blocks b.id =
      { (s.blocks b.id).setupInputConnectionTrackingData b.spec with
        connRefCount := b.finalCount } := by
  have hsetup := Inside.modify b s (.setupInputConnectionTrackingData b.spec)
  have hself : (s.modify b.id (.setupInputConnectionTrackingData b.spec)).blocks b.id =
      (s.blocks b.id).setupInputConnectionTrackingData b.spec := by
    rw [Wiring.modify_blocks, Function.update_self]
  have hcount := (setupInputConnectionTrackingData_connRefCount b.spec (s.blocks b.id)).trans hzero
  unfold initialiseOwn at h
  dsimp only at h
  unfold Block.finalCount
  rcases hnet : b.net with _ | net
  · rw [hnet] at h
    obtain rfl := Option.some.inj h
    refine ⟨hsetup, ?_⟩
    rw [hself, ← hcount]
  · rw [hnet] at h
    obtain ⟨hinside, hfinal⟩ := createNetwork_some rules hnodup (by rw [hself]; exact hcount) h
    refine ⟨hsetup.trans hinside, ?_⟩
    rw [hfinal, hself]

mutual

/-- **Initializing a function block** leaves in each function block in it what its own network
has counted down too often, and moves its own counter as its network says. -/
theorem initialise_some : ∀ {b : Block} {s s' : Wiring τ}, b.ids.Nodup →
    (∀ i ∈ b.ids, (s.blocks i).connRefCount = .zero) → initialise rules b s = some s' →
    Settled b.nodes b.ids s s' ∧ s'.blocks b.id =
      { (s.blocks b.id).setupInputConnectionTrackingData b.spec with
        connRefCount := b.finalCount }
  | .mk id name spec net children, s, s', hnodup, hzero, h => by
    have hids := Block.ids_mk id name spec net children
    have hparts := hnodup
    rw [hids] at hzero hparts
    obtain ⟨hid, hchildren⟩ := List.nodup_cons.mp hparts
    simp only [initialise, Option.bind_eq_bind, Option.bind_eq_some_iff] at h
    obtain ⟨s₁, hall, hown⟩ := h
    have hsettled := initialiseAll_some hchildren
      (fun i hi => hzero i (List.mem_cons_of_mem _ hi)) hall
    have hself : s₁.blocks id = s.blocks id := hsettled.outside id hid
    have hcount : (s₁.blocks id).connRefCount = .zero := by
      rw [hself]
      exact hzero id List.mem_cons_self
    obtain ⟨hinside, hfinal⟩ := initialiseOwn_some rules hnodup hcount hown
    refine ⟨⟨fun d hd => ?_, fun i hi => ?_⟩, ?_⟩
    · rw [Block.nodes_mk] at hd
      rcases List.mem_cons.mp hd with rfl | hd
      · exact congrArg (·.connRefCount.underflow) hfinal
      · have hne : d.id ≠ id := fun he => hid (he ▸ List.mem_map_of_mem hd)
        rw [hinside.underflow d.id hne, hsettled.underflow d hd]
    · rw [hinside.outside i hi, hsettled.outside i fun hmem => hi (by
        rw [hids]
        exact List.mem_cons_of_mem _ hmem)]
    · have hstate : s₁.blocks (Block.mk id name spec net children).id =
          s.blocks (Block.mk id name spec net children).id := hself
      rw [hfinal, hstate]

/-- The same for the function blocks in a container, one after the other. -/
theorem initialiseAll_some : ∀ {bs : List Block} {s s' : Wiring τ}, (Block.idsAll bs).Nodup →
    (∀ i ∈ Block.idsAll bs, (s.blocks i).connRefCount = .zero) →
    initialiseAll rules bs s = some s' →
    Settled (Block.nodesAll bs) (Block.idsAll bs) s s'
  | [], s, s', _, _, h => by
    simp only [initialiseAll, Option.some.injEq] at h
    subst h
    exact ⟨fun d hd => absurd hd List.not_mem_nil, fun i _ => rfl⟩
  | b :: bs, s, s', hnodup, hzero, h => by
    rw [Block.idsAll_cons] at hnodup hzero
    obtain ⟨hb, hbs, hdisjoint⟩ := List.nodup_append'.mp hnodup
    simp only [initialiseAll, Option.bind_eq_bind, Option.bind_eq_some_iff] at h
    obtain ⟨s₁, hfirst, hrest⟩ := h
    obtain ⟨hsettled, -⟩ := initialise_some hb
      (fun i hi => hzero i (List.mem_append_left _ hi)) hfirst
    have hsettled' := initialiseAll_some hbs (fun i hi => by
      rw [hsettled.outside i fun hmem => hdisjoint hmem hi]
      exact hzero i (List.mem_append_right _ hi)) hrest
    refine ⟨fun d hd => ?_, fun i hi => ?_⟩
    · rw [Block.nodesAll] at hd
      rcases List.mem_append.mp hd with hd | hd
      · -- what comes later does not touch the first function block
        rw [hsettled'.outside d.id (hdisjoint (List.mem_map_of_mem hd)), hsettled.underflow d hd]
      · exact hsettled'.underflow d hd
    · rw [Block.idsAll_cons] at hi
      rw [hsettled'.outside i fun hmem => hi (List.mem_append_right _ hmem),
        hsettled.outside i fun hmem => hi (List.mem_append_left _ hmem)]

end

/-! ### Neutrality -/

/-- A function block and the ones in it are as their constructors leave them. -/
def IsConstructed (b : Block) (s : Wiring τ) : Prop := ∀ i ∈ b.ids, s.blocks i = {}

/-- **Initializing is neutral to the outside**: the counters of the composite are what they
were, so that it can still be deleted, and no counter of a function block in it was counted
down from zero. -/
structure Neutral (b : Block) (s s' : Wiring τ) : Prop where
  connRefCount :
    (s'.blocks b.id).connRefCount.value = (s.blocks b.id).connRefCount.value
  inputEventConnectionCount :
    (s'.blocks b.id).inputEventConnectionCount = (s.blocks b.id).inputEventConnectionCount
  deletable :
    (s'.blocks b.id).isCurrentlyDeleteable = (s.blocks b.id).isCurrentlyDeleteable
  underflow : ∀ d ∈ b.internals, (s'.blocks d.id).connRefCount.underflow = false

/-- What is taken back of the counts is what was made. At a composite inside, which others
are connected to later, too little may be taken back by its event and adapter connections,
and too much only as far as its event connections make up for it. -/
structure CompositeFB.Balanced (fb : CompositeFB) : Prop where
  own : fb.net.keptEvents fb.block + fb.net.keptAdapters fb.block =
    fb.net.overReleased fb.block
  inside : ∀ d ∈ fb.block.internals, ∀ net, d.net = some net →
    net.overReleased d ≤ net.keptEvents d

theorem Block.finalCount_underflow (b : Block) :
    b.finalCount.underflow = false ↔
      ∀ net, b.net = some net → net.overReleased b ≤ net.keptEvents b := by
  unfold finalCount
  rcases b.net with _ | net
  · simp [Counter.zero]
  · rw [FBNData.finalCount_underflow, decide_eq_false_iff_not, Nat.not_lt]
    exact ⟨fun h net' hnet => Option.some.inj hnet ▸ h, fun h => h net rfl⟩

/-- **When initializing a composite is neutral**: if and only if as many of its data connections
lead from the interface to the interface itself, or begin at an event input of it, as event and
adapter connections lead from a data input, an in-out or a plug of the interface to a function
block inside; and no composite inside has more of the former among its data connections than of
the latter among its event connections. -/
theorem initialise_neutral_iff (fb : CompositeFB) {s s' : Wiring τ}
    (hconstructed : IsConstructed fb.block s) (h : initialise rules fb.block s = some s') :
    Neutral fb.block s s' ↔ fb.Balanced := by
  have hself : s.blocks fb.block.id = {} := hconstructed _ (Block.id_mem_ids fb.block)
  obtain ⟨hsettled, hfinal⟩ := initialise_some rules fb.nodup
    (fun i hi => by rw [hconstructed i hi]) h
  have hcount : fb.block.finalCount = fb.net.finalCount fb.block := by
    rw [Block.finalCount, fb.net_eq]
  have hsetup : (BlockState.setupInputConnectionTrackingData fb.block.spec {}) = {} := by
    unfold BlockState.setupInputConnectionTrackingData
    split <;> rfl
  rw [hself, hsetup, hcount] at hfinal
  have hzero := fb.net.finalCount_value fb.block
  have hinternals : ∀ d ∈ fb.block.internals,
      ((s'.blocks d.id).connRefCount.underflow = false ↔
        ∀ net, d.net = some net → net.overReleased d ≤ net.keptEvents d) := by
    intro d hd
    rw [hsettled.underflow d (by rw [Block.nodes_eq]; exact List.mem_cons_of_mem _ hd)]
    exact d.finalCount_underflow
  refine ⟨fun hneutral => ⟨?_, fun d hd => ?_⟩, fun hbalanced => ⟨?_, ?_, ?_, fun d hd => ?_⟩⟩
  · have hvalue := hneutral.connRefCount
    rw [hfinal, hself] at hvalue
    exact hzero.mp hvalue
  · exact (hinternals d hd).mp (hneutral.underflow d hd)
  · rw [hfinal, hself]
    exact hzero.mpr hbalanced.own
  · rw [hfinal, hself]
  · have hvalue := hzero.mpr hbalanced.own
    rw [hfinal, hself]
    simp [BlockState.isCurrentlyDeleteable, hvalue, Counter.zero]
  · exact (hinternals d hd).mpr (hbalanced.inside d hd)

end Rules

/-- The interface of a function block that hands on an `INT` with an event. -/
def relaySpec : InterfaceSpec where
  eiNames := ["REQ"]
  eiTypeNames := ["Event"]
  eoNames := ["CNF"]
  diNames := ["IN"]
  doNames := ["OUT"]
  diTypes := [.simple .int]
  doTypes := [.simple .int]

/-- A composite of one function block, with everything handed on. -/
def relay : CompositeFB :=
  let net : FBNData :=
    { eventConnections := [⟨"", ["REQ"], "F", ["REQ"]⟩, ⟨"F", ["CNF"], "", ["CNF"]⟩]
      dataConnections := [⟨"", ["IN"], "F", ["IN"]⟩, ⟨"F", ["OUT"], "", ["OUT"]⟩]
      adapterConnections := [] }
  { block := .mk 1 "Relay" relaySpec (some net) [.mk 2 "F" relaySpec none []]
    net := net }

theorem relay_isSome :
    (initialise declaredTypes relay.block (.constructed fun _ => relaySpec)).isSome = true := by
  decide +kernel

/-- The composite that hands everything on stays deletable. -/
theorem initialise_neutral_relay :
    Neutral relay.block (.constructed fun _ => relaySpec)
      ((initialise declaredTypes relay.block (.constructed fun _ => relaySpec)).get
        relay_isSome) :=
  (initialise_neutral_iff declaredTypes relay (fun _ _ => rfl) (Option.some_get _).symm).mpr
    ⟨by decide +kernel, fun d hd net hnet => by
      have hd : d ∈ [Block.mk 2 "F" relaySpec none []] := hd
      obtain rfl := List.mem_singleton.mp hd
      cases hnet⟩

/-- A composite with no function block in it, whose input is connected to its output. -/
def shortcut : CompositeFB :=
  let net : FBNData :=
    { eventConnections := [⟨"", ["REQ"], "", ["CNF"]⟩]
      dataConnections := [⟨"", ["IN"], "", ["OUT"]⟩]
      adapterConnections := [] }
  { block := .mk 1 "Shortcut" relaySpec (some net) []
    net := net }

/-- **A direct connection leaves the counter at its greatest value**, and the composite can
never be deleted. -/
theorem initialise_direct_connection :
    ∃ (fb : CompositeFB) (s s' : Wiring (FBId → InterfaceSpec)), IsConstructed fb.block s ∧
      initialise declaredTypes fb.block s = some s' ∧
      (s.blocks fb.block.id).isCurrentlyDeleteable = true ∧
      (s'.blocks fb.block.id).connRefCount.value = BitVec.allOnes 64 ∧
      (s'.blocks fb.block.id).isCurrentlyDeleteable = false ∧ ¬Neutral fb.block s s' := by
  have hrun : (initialise declaredTypes shortcut.block (.constructed fun _ => relaySpec)).map
      (fun s => (s.blocks 1).connRefCount.value) = some (BitVec.allOnes 64) := by
    decide +kernel
  obtain ⟨s', hs', hvalue⟩ := Option.map_eq_some_iff.mp hrun
  have hdeletable : (s'.blocks 1).isCurrentlyDeleteable = false := by
    simp [BlockState.isCurrentlyDeleteable, hvalue]
  refine ⟨shortcut, .constructed fun _ => relaySpec, s', fun _ _ => rfl, hs', rfl, hvalue,
    hdeletable, fun hneutral => ?_⟩
  have hsame : (s'.blocks 1).isCurrentlyDeleteable = true := hneutral.deletable
  rw [hdeletable] at hsame
  cases hsame

end Composite

end Forte
