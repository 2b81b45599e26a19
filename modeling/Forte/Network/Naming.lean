import Forte.Network.Outcomes

/-!
# Names and function blocks

What holds of the names in every run, whatever the commands: names lead to function blocks
that exist, and the two walks by which `deleteConnection` finds the destination of a
connection – the function block, and the connection at its input – end at the same function
block. They could part only where a function block has another one in it with the name of a data
input.
-/

namespace Forte

namespace Network

/-! ### What connection commands leave alone -/

/-- The function blocks are the same ones, under the same names. -/
structure SameBlocks (s s' : Network) : Prop where
  next : s'.next = s.next
  dir : s'.dir = s.dir
  live : s'.live = s.live
  name : s'.name = s.name
  spec : s'.spec = s.spec
  deletable : s'.deletable = s.deletable
  state : s'.state = s.state

@[refl]
theorem SameBlocks.refl (s : Network) : SameBlocks s s := ⟨rfl, rfl, rfl, rfl, rfl, rfl, rfl⟩

theorem SameBlocks.trans {s s₁ s₂ : Network} (h₁ : SameBlocks s s₁) (h₂ : SameBlocks s₁ s₂) :
    SameBlocks s s₂ :=
  ⟨h₂.next.trans h₁.next, h₂.dir.trans h₁.dir, h₂.live.trans h₁.live, h₂.name.trans h₁.name,
    h₂.spec.trans h₁.spec, h₂.deletable.trans h₁.deletable, h₂.state.trans h₁.state⟩

theorem Connects.sameBlocks {s : Network} {dst : FBId} {c : Connection} {names : List StringId}
    {o : Outcome} (h : s.Connects dst c names o) : SameBlocks s o.1 := by
  cases h with
  | refused => exact .refl s
  | adapted =>
    obtain ⟨types, h, -⟩ := s.handleAnySrcPortConnection_eq _ _
    rw [h]
    exact ⟨rfl, rfl, rfl, rfl, rfl, rfl, rfl⟩
  | inOut _ _ _ hspread =>
    obtain ⟨f, g, t, hshape⟩ := hspread.shape
    rw [hshape]
    exact ⟨rfl, rfl, rfl, rfl, rfl, rfl, rfl⟩
  | eventAgain | event | data | member | adapter => exact ⟨rfl, rfl, rfl, rfl, rfl, rfl, rfl⟩

theorem Disconnects.sameBlocks {s : Network} {dst : FBId} {c : Connection}
    {names : List StringId} {o : Outcome} (h : s.Disconnects dst c names o) :
    SameBlocks s o.1 := by
  cases h <;> exact ⟨rfl, rfl, rfl, rfl, rfl, rfl, rfl⟩

/-! ### The commands, by their outcomes -/

/-- `createConnection` is refused, or it is a `connect`. -/
theorem createConnection_cases (s : Network) (src dst : List StringId) :
    (∃ r, r ≠ .ready ∧ s.createConnection src dst = (s, r)) ∨
    ∃ c b ports s' r, s.getOutputConnection [] src = some c ∧
      s.getDestination dst = some (b, ports) ∧ s.connect c b ports = (s', r) ∧
      s.createConnection src dst =
        (if r = .ready then ({ s' with nextPtr := s'.nextPtr + 1 }, .ready) else (s', r)) := by
  unfold createConnection
  split
  · exact .inl ⟨.noSuchObject, nofun, rfl⟩
  split
  · exact .inl ⟨.noSuchObject, nofun, rfl⟩
  rename_i c hc
  split
  · exact .inl ⟨.noSuchObject, nofun, rfl⟩
  rename_i b ports hdst
  split
  · rename_i s' heq
    exact .inr ⟨c, b, ports, s', .ready, hc, hdst, heq, (if_pos rfl).symm⟩
  · rename_i s' r hr heq
    exact .inr ⟨c, b, ports, s', r, hc, hdst, heq, (if_neg hr).symm⟩

/-- `deleteConnection` is refused, or it is a `disconnect`: of the connection at the
destination, or of one of the source where the destination has none. -/
theorem deleteConnection_cases (s : Network) (src dst : List StringId) :
    (∃ r, r ≠ .ready ∧ s.deleteConnection src dst = (s, r)) ∨
    ∃ c b ports, s.getDestination dst = some (b, ports) ∧
      (s.getInputConnection [] dst = some c ∨
        s.getInputConnection [] dst = none ∧ s.getOutputConnection [] src = some c) ∧
      s.deleteConnection src dst = s.disconnect c b ports := by
  unfold deleteConnection
  split
  · exact .inl ⟨.noSuchObject, nofun, rfl⟩
  split
  · exact .inl ⟨.noSuchObject, nofun, rfl⟩
  rename_i b ports hdst
  split
  · rename_i c hin
    split
    · exact .inl ⟨.noSuchObject, nofun, rfl⟩
    · exact .inr ⟨c, b, ports, hdst, .inl hin, rfl⟩
  · rename_i hin
    split
    · exact .inl ⟨.noSuchObject, nofun, rfl⟩
    · rename_i c hout
      exact .inr ⟨c, b, ports, hdst, .inr ⟨hin, hout⟩, rfl⟩

theorem createConnection_sameBlocks (s : Network) (src dst : List StringId) :
    SameBlocks s (s.createConnection src dst).1 := by
  rcases s.createConnection_cases src dst with ⟨r, -, heq⟩ | ⟨c, b, ports, s', r, -, -, hs', heq⟩
  · rw [heq]
  · have hsame := (connect_connects s c b ports).sameBlocks
    rw [hs'] at hsame
    rw [heq]
    split
    · exact ⟨hsame.next, hsame.dir, hsame.live, hsame.name, hsame.spec, hsame.deletable,
        hsame.state⟩
    · exact hsame

theorem deleteConnection_sameBlocks (s : Network) (src dst : List StringId) :
    SameBlocks s (s.deleteConnection src dst).1 := by
  rcases s.deleteConnection_cases src dst with ⟨r, -, heq⟩ | ⟨c, b, ports, -, -, heq⟩
  · rw [heq]
  · rw [heq]
    exact (disconnect_disconnects s c b ports).sameBlocks

/-- `deleteFB` deletes nothing, or the function block that its names lead to. -/
theorem deleteFBIn_cases (s : Network) (p names : List StringId) :
    (∃ r, r ≠ .ready ∧ s.deleteFBIn p names = (s, r)) ∨
    ∃ q name b, s.dir (q ++ [name]) = some (.block b) ∧ s.isCurrentlyDeleteable b = true ∧
      p ++ names = q ++ [name] ∧
      s.deleteFBIn p names = (s.deleteInstance (q ++ [name]), .ready) := by
  induction names generalizing p with
  | nil => exact .inl ⟨.noSuchObject, nofun, rfl⟩
  | cons name names ih =>
    unfold deleteFBIn
    split
    · rename_i b hchild
      have hdir : s.dir (p ++ [name]) = some (.block b) := by
        unfold getChild at hchild
        split at hchild
        · exact absurd hchild nofun
        · exact hchild
      split
      · rename_i hdel
        exact .inr ⟨p, name, b, hdir, hdel, rfl, rfl⟩
      · exact .inl ⟨.invalidState, nofun, rfl⟩
    · rename_i name' names' _
      have hstep := ih (p ++ [name])
      rwa [List.append_assoc, List.singleton_append] at hstep
    · exact .inl ⟨.noSuchObject, nofun, rfl⟩

section Deinitialize

variable {P : Network → Prop} (hdisconnect : ∀ s c dst names, P s → P (s.disconnect c dst names).1)
  (hdi : ∀ s b di, P s → P (s.disconnectDI b di))

include hdisconnect

theorem disconnectDestinations_preserves (src : ConnectionPoint) (n : ℕ)
    (memory : List ConnectionPoint) (s : Network) (h : P s) :
    P (disconnectDestinations src n memory s) := by
  induction n generalizing memory s with
  | zero => exact h
  | succ n ih =>
    unfold disconnectDestinations
    split
    · exact h
    · exact ih _ _ (hdisconnect s (.event src) _ _ h)

theorem deinitializeSocket_preserves (b : FBId) (s : Network) (socket : PortId) (h : P s) :
    P (deinitializeSocket b s socket) := by
  unfold deinitializeSocket
  split
  · exact h
  · exact hdisconnect _ (.adapter _) _ _ h

theorem deinitializeDio_preserves (b : FBId) (s : Network) (dio : PortId) (h : P s) :
    P (deinitializeDio b s dio) := by
  unfold deinitializeDio
  split
  · exact h
  · exact hdisconnect _ (.data (.base (.inOut _))) _ _ h

include hdi

theorem deinitializeDI_preserves (b : FBId) (s : Network) (di : PortId) (h : P s) :
    P (deinitializeDI b s di) := by
  unfold deinitializeDI
  split
  · exact h
  · exact hdisconnect _ _ _ _ h
  · exact hdi _ _ _ (List.foldlRecOn _ _ h fun s h _ _ => hdisconnect s _ _ _ h)

/-- What every `disconnect` preserves is preserved by `deinitialize`. -/
theorem deinitialize_preserves (s : Network) (b : FBId) (h : P s) : P (s.deinitialize b) := by
  have hfold (f : Network → PortId → Network) (hf : ∀ s p, P s → P (f s p)) (ps : List PortId)
      (s : Network) (h : P s) : P (ps.foldl f s) :=
    ps.foldlRecOn f h fun s h p _ => hf s p h
  exact hfold _ (deinitializeDio_preserves hdisconnect b) _ _
    (hfold _ (deinitializeSocket_preserves hdisconnect b) _ _
      (hfold _ (deinitializeDI_preserves hdisconnect hdi b) _ _
        (hfold _ (fun s _ h => disconnectDestinations_preserves hdisconnect _ _ _ s h) _ _ h)))

end Deinitialize

theorem deinitialize_sameBlocks (s : Network) (b : FBId) : SameBlocks s (s.deinitialize b) :=
  deinitialize_preserves (P := SameBlocks s)
    (fun _ c dst names h => h.trans (disconnect_disconnects _ c dst names).sameBlocks)
    (fun _ _ _ h => h.trans ⟨rfl, rfl, rfl, rfl, rfl, rfl, rfl⟩) s b (.refl s)

/-! ### Names that lead to what there is -/

/-- **What holds of the names**: they lead to function blocks that exist and have these
names, and no name leads from a function block both to a data input and to another function
block. -/
structure Named (s : Network) : Prop where
  root : s.dir [] = some (.block 0)
  rootSpec : s.spec 0 = {}
  live_of_dir : ∀ {q b}, s.dir q = some (.block b) → s.live b = true
  name_of_dir : ∀ {q b}, s.dir q = some (.block b) → s.name b = q
  separate : ∀ {q b n}, s.dir q = some (.block b) → n ∈ (s.spec b).diNames →
    s.dir (q ++ [n]) = none
  lt_next : ∀ {b}, s.live b = true → b < s.next
  spec_dead : ∀ {b}, s.live b = false → s.spec b = {}

theorem named_initial : Named initial where
  root := rfl
  rootSpec := rfl
  live_of_dir {q b} h := by
    simp only [initial] at h ⊢
    split at h
    · obtain rfl : 0 = b := by injection h with h; injection h
      rfl
    · exact absurd h nofun
  name_of_dir {q b} h := by
    simp only [initial] at h ⊢
    split at h
    · rename_i hq
      exact hq.symm
    · exact absurd h nofun
  separate h hn := absurd hn List.not_mem_nil
  lt_next {b} h := by
    simp only [initial, decide_eq_true_eq] at h
    exact h ▸ Nat.zero_lt_one
  spec_dead _ := rfl

theorem Named.of_sameBlocks {s s' : Network} (h : Named s) (hsame : SameBlocks s s') :
    Named s' where
  root := hsame.dir ▸ h.root
  rootSpec := hsame.spec ▸ h.rootSpec
  live_of_dir := by rw [hsame.dir, hsame.live]; exact h.live_of_dir
  name_of_dir := by rw [hsame.dir, hsame.name]; exact h.name_of_dir
  separate := by rw [hsame.dir, hsame.spec]; exact h.separate
  lt_next := by rw [hsame.live, hsame.next]; exact h.lt_next
  spec_dead := by rw [hsame.live, hsame.spec]; exact h.spec_dead

/-- The resource has no port, and what is dynamic besides it is no function block. -/
theorem Named.diNames_eq_nil {s : Network} (h : Named s) {p : List StringId} {b : FBId}
    (hp : s.isDynamicContainer p = true) (hb : s.dir p = some (.block b)) :
    (s.spec b).diNames = [] := by
  rw [isDynamicContainer, Bool.or_eq_true, decide_eq_true_eq, decide_eq_true_eq] at hp
  rcases hp with rfl | hfolder
  · rw [h.root] at hb
    obtain rfl : 0 = b := by injection hb with hb; injection hb
    rw [h.rootSpec]
  · rw [hb] at hfolder
    exact absurd hfolder nofun

theorem not_isPrefixOf_nil (p : List StringId) (name : StringId) :
    (p ++ [name]).isPrefixOf [] = false := by
  cases p <;> rfl

/-- A name that leads into the container `p ++ [name]` from outside is that of the
container. -/
theorem eq_of_isPrefixOf_append {p q : List StringId} {name n : StringId}
    (hq : (p ++ [name]).isPrefixOf q = false) (h : (p ++ [name]).isPrefixOf (q ++ [n]) = true) :
    q ++ [n] = p ++ [name] := by
  rw [← Bool.not_eq_true, List.isPrefixOf_iff_prefix] at hq
  rw [List.isPrefixOf_iff_prefix] at h
  obtain ⟨rest, hrest⟩ := h
  rcases List.eq_nil_or_concat rest with rfl | ⟨rest', n', rfl⟩
  · rw [List.append_nil] at hrest
    exact hrest.symm
  · rw [List.concat_eq_append, ← List.append_assoc] at hrest
    exact absurd ⟨rest', (List.append_inj' hrest rfl).1⟩ hq

theorem Named.findOrCreateContainer {s : Network} (h : Named s) {p : List StringId}
    (hp : s.isDynamicContainer p = true) (name : StringId) :
    Named (s.findOrCreateContainer p name) := by
  unfold Network.findOrCreateContainer
  split
  · exact h
  -- a function block that names lead to now was there before
  have hold {q : List StringId} {b : FBId}
      (hb : (if (p ++ [name]).isPrefixOf q = true then
        if q = p ++ [name] then some Entry.folder else none else s.dir q) = some (.block b)) :
      (p ++ [name]).isPrefixOf q = false ∧ s.dir q = some (.block b) := by
    split at hb
    · split at hb <;> exact absurd hb nofun
    · rename_i hpre
      exact ⟨Bool.not_eq_true _ ▸ hpre, hb⟩
  refine ⟨?_, h.rootSpec, fun hb => h.live_of_dir (hold hb).2,
    fun hb => h.name_of_dir (hold hb).2, ?_, h.lt_next, h.spec_dead⟩
  · simp only [not_isPrefixOf_nil]
    exact h.root
  · intro q b n hb hn
    obtain ⟨hpre, hb₀⟩ := hold hb
    simp only
    split
    · rename_i hpre'
      obtain rfl := (List.append_inj' (eq_of_isPrefixOf_append hpre hpre') rfl).1
      rw [h.diNames_eq_nil hp hb₀] at hn
      exact absurd hn List.not_mem_nil
    · exact h.separate hb₀ hn

/-- A function block is a new one, or it has what it had. -/
theorem withNew_cases (s : Network) (ty : FBType) (b : FBId) :
    (∃ i part, ty.parts[i]? = some part ∧ b = s.next + i ∧
      ∀ {γ : Type} (new : List StringId × InterfaceSpec → γ) (old : FBId → γ),
        s.withNew ty new old b = new part) ∨
    (¬∃ i part, ty.parts[i]? = some part ∧ b = s.next + i) ∧
      ∀ {γ : Type} (new : List StringId × InterfaceSpec → γ) (old : FBId → γ),
        s.withNew ty new old b = old b := by
  by_cases hb : s.next ≤ b
  · cases hpart : ty.parts[b - s.next]? with
    | some part =>
      refine .inl ⟨b - s.next, part, hpart, (Nat.add_sub_cancel' hb).symm, fun new old => ?_⟩
      simp only [withNew, if_pos hb, hpart, Option.elim]
    | none =>
      refine .inr ⟨?_, fun new old => ?_⟩
      · rintro ⟨i, part, hi, rfl⟩
        rw [Nat.add_sub_cancel_left, hi] at hpart
        exact absurd hpart nofun
      · simp only [withNew, if_pos hb, hpart, Option.elim]
  · refine .inr ⟨?_, fun new old => ?_⟩
    · rintro ⟨i, part, hi, rfl⟩
      exact hb (Nat.le_add_right _ _)
    · simp only [withNew, if_neg hb]

/-- A function block from before an instance was added keeps what it has. -/
theorem withNew_of_lt {s : Network} {b : FBId} (ty : FBType) (h : b < s.next) {γ : Type}
    (new : List StringId × InterfaceSpec → γ) (old : FBId → γ) :
    s.withNew ty new old b = old b :=
  if_neg (Nat.not_le.mpr h)

theorem withNew_part {s : Network} {ty : FBType} {i : ℕ} {part : List StringId × InterfaceSpec}
    (h : ty.parts[i]? = some part) {γ : Type} (new : List StringId × InterfaceSpec → γ)
    (old : FBId → γ) : s.withNew ty new old (s.next + i) = new part := by
  simp only [withNew, if_pos (Nat.le_add_right _ _), Nat.add_sub_cancel_left, h, Option.elim]

/-- What the names below the new instance lead to: its parts. -/
theorem addInstance_dir {s : Network} {p q : List StringId} {ty : FBType} {b : FBId}
    (h : (s.addInstance p ty).dir q = some (.block b)) :
    (∃ i part, ty.parts[i]? = some part ∧ b = s.next + i ∧ q = p ++ part.1) ∨
      p.isPrefixOf q = false ∧ s.dir q = some (.block b) := by
  simp only [addInstance] at h
  split at h
  · rename_i hpre
    obtain ⟨rest, rfl⟩ := List.isPrefixOf_iff_prefix.mp hpre
    rw [List.drop_left, Option.map_eq_some_iff] at h
    obtain ⟨i, hi, hb⟩ := h
    obtain ⟨hlt, hpart, -⟩ := List.findIdx?_eq_some_iff_getElem.mp hi
    refine .inl ⟨i, ty.parts[i], List.getElem?_eq_getElem hlt, ?_, ?_⟩
    · injection hb with hb
      exact hb.symm
    · rw [of_decide_eq_true hpart]
  · rename_i hpre
    exact .inr ⟨Bool.not_eq_true _ ▸ hpre, h⟩

theorem Named.addInstance {s : Network} (h : Named s) {p : List StringId}
    (hp : s.isDynamicContainer p = true) (name : StringId) (ty : FBType) :
    Named (s.addInstance (p ++ [name]) ty) := by
  -- the resource has an old number, so that no new block takes its place
  have hroot : 0 < s.next := h.lt_next (h.live_of_dir h.root)
  refine ⟨?_, ?_, ?_, ?_, ?_, ?_, ?_⟩
  · simp only [Network.addInstance, not_isPrefixOf_nil]
    exact h.root
  · exact (withNew_of_lt ty hroot _ _).trans h.rootSpec
  · intro q b hb
    rcases addInstance_dir hb with ⟨i, part, hi, rfl, rfl⟩ | ⟨-, hb⟩
    · exact withNew_part hi _ _
    · have hlive := h.live_of_dir hb
      exact (withNew_of_lt ty (h.lt_next hlive) _ _).trans hlive
  · intro q b hb
    rcases addInstance_dir hb with ⟨i, part, hi, rfl, rfl⟩ | ⟨-, hb⟩
    · exact withNew_part hi _ _
    · exact (withNew_of_lt ty (h.lt_next (h.live_of_dir hb)) _ _).trans (h.name_of_dir hb)
  · intro q b n hb hn
    rcases addInstance_dir hb with ⟨i, part, hi, rfl, rfl⟩ | ⟨hpre, hb₀⟩
    · -- inside the instance it is the type that keeps the names apart
      have hspec : (s.addInstance (p ++ [name]) ty).spec (s.next + i) = part.2 :=
        withNew_part hi _ _
      rw [hspec] at hn
      have hpre : (p ++ [name]).isPrefixOf (p ++ [name] ++ part.1 ++ [n]) = true := by
        rw [List.append_assoc, List.isPrefixOf_iff_prefix]
        exact List.prefix_append ..
      simp only [Network.addInstance, if_pos hpre]
      rw [List.append_assoc (p ++ [name]), List.drop_left, Option.map_eq_none_iff,
        List.findIdx?_eq_none_iff]
      intro other hother
      refine decide_eq_false fun heq => ?_
      rcases List.mem_append.mp hother with hinner | hself
      · exact ty.separate part (List.mem_of_getElem? hi) n hn other hinner heq
      · rw [List.mem_singleton.mp hself] at heq
        exact absurd heq.symm (List.append_ne_nil_of_right_ne_nil _ (List.cons_ne_nil _ _))
    · have hspec : (s.addInstance (p ++ [name]) ty).spec b = s.spec b :=
        withNew_of_lt ty (h.lt_next (h.live_of_dir hb₀)) _ _
      rw [hspec] at hn
      simp only [Network.addInstance]
      split
      · rename_i hpre'
        obtain rfl := (List.append_inj' (eq_of_isPrefixOf_append hpre hpre') rfl).1
        rw [h.diNames_eq_nil hp hb₀] at hn
        exact absurd hn List.not_mem_nil
      · exact h.separate hb₀ hn
  · intro b hb
    rcases s.withNew_cases ty b with ⟨i, part, hi, rfl, -⟩ | ⟨-, hold⟩
    · exact Nat.add_lt_add_left (List.getElem?_eq_some_iff.mp hi).1 _
    · exact Nat.lt_of_lt_of_le (h.lt_next ((hold _ _).symm.trans hb)) (Nat.le_add_right _ _)
  · intro b hb
    rcases s.withNew_cases ty b with ⟨i, part, hi, rfl, hnew⟩ | ⟨-, hold⟩
    · exact absurd ((hnew (fun _ => true) s.live).symm.trans hb) nofun
    · exact (hold _ _).trans (h.spec_dead ((hold _ _).symm.trans hb))

theorem Named.createFBIn {s : Network} (h : Named s) (lib : TypeLibrary) (p : List StringId)
    (typeName : StringId) (typeHash : String) (names : List StringId) :
    Named (createFBIn lib s p typeName typeHash names).1 := by
  induction names generalizing s p with
  | nil => exact h
  | cons name names ih =>
    unfold Network.createFBIn
    split
    · exact h
    rename_i hdyn
    rw [Bool.not_eq_true, Bool.not_eq_false'] at hdyn
    split
    · split
      · exact h
      split
      · exact h
      · exact h.addInstance hdyn name _
    · simp only
      split
      · exact ih (h.findOrCreateContainer hdyn name) _
      · exact h.findOrCreateContainer hdyn name

theorem Named.destruct {s : Network} (h : Named s) {p : List StringId} (hp : p ≠ [])
    (hroot : s.isWithin p 0 = false) : Named (s.destruct p (s.isWithin p)) := by
  -- what the directory still names is outside the deleted instance
  have hold {q : List StringId} {b : FBId}
      (hb : (s.destruct p (s.isWithin p)).dir q = some (.block b)) :
      s.dir q = some (.block b) ∧ s.isWithin p b = false := by
    simp only [Network.destruct] at hb
    split at hb
    · exact absurd hb nofun
    · rename_i hpre
      refine ⟨hb, ?_⟩
      rw [Bool.not_eq_true] at hpre
      rw [isWithin, h.name_of_dir hb, hpre, Bool.and_false]
  refine ⟨?_, ?_, ?_, ?_, ?_, ?_, ?_⟩
  · have hpre : p.isPrefixOf [] = false := by
      cases p with
      | nil => exact absurd rfl hp
      | cons => rfl
    simp only [Network.destruct, hpre]
    exact h.root
  · simp only [Network.destruct, without, hroot]
    exact h.rootSpec
  · intro q b hb
    obtain ⟨hb, hwithin⟩ := hold hb
    simp only [Network.destruct, without, hwithin]
    exact h.live_of_dir hb
  · intro q b hb
    obtain ⟨hb, hwithin⟩ := hold hb
    simp only [Network.destruct, without, hwithin]
    exact h.name_of_dir hb
  · intro q b n hb hn
    obtain ⟨hb, hwithin⟩ := hold hb
    simp only [Network.destruct, without, hwithin] at hn ⊢
    split
    · rfl
    · exact h.separate hb hn
  · intro b hb
    simp only [Network.destruct, without] at hb ⊢
    split at hb
    · exact absurd hb nofun
    · exact h.lt_next hb
  · intro b hb
    simp only [Network.destruct, without] at hb ⊢
    split
    · rfl
    · rename_i hwithin
      rw [if_neg hwithin] at hb
      exact h.spec_dead hb

theorem SameBlocks.isWithin {s s' : Network} (h : SameBlocks s s') :
    s'.isWithin = s.isWithin := by
  funext p b
  rw [Network.isWithin, Network.isWithin, h.live, h.name]

theorem foldl_deinitialize_sameBlocks (s : Network) (bs : List FBId) :
    SameBlocks s (bs.foldl deinitialize s) :=
  bs.foldlRecOn deinitialize (.refl s) fun _ h b _ => h.trans (deinitialize_sameBlocks _ b)

/-- The resource is in none of the function blocks in it. -/
theorem Named.not_isWithin_root {s : Network} (h : Named s) {p : List StringId} (hp : p ≠ []) :
    s.isWithin p 0 = false := by
  rw [isWithin, h.name_of_dir h.root]
  cases p with
  | nil => exact absurd rfl hp
  | cons => exact Bool.and_false _

theorem Named.deleteInstance {s : Network} (h : Named s) {p : List StringId} (hp : p ≠ []) :
    Named (s.deleteInstance p) := by
  have hsame := foldl_deinitialize_sameBlocks s (s.within p)
  have hnamed := h.of_sameBlocks hsame
  rw [Network.deleteInstance, ← hsame.isWithin]
  exact hnamed.destruct hp (hnamed.not_isWithin_root hp)

theorem Named.execute {s : Network} (h : Named s) (lib : TypeLibrary) (cmd : NetworkCommand) :
    Named (s.execute lib cmd).1 := by
  cases cmd with
  | createFB name typeName typeHash => exact h.createFBIn lib [] typeName typeHash name
  | deleteFB name =>
    rcases s.deleteFBIn_cases [] name with ⟨r, -, heq⟩ | ⟨q, n, b, -, -, -, heq⟩
    · rw [Network.execute, heq]
      exact h
    · rw [Network.execute, heq]
      exact h.deleteInstance (List.append_ne_nil_of_right_ne_nil _ (List.cons_ne_nil _ _))
  | createConnection src dst => exact h.of_sameBlocks (createConnection_sameBlocks s src dst)
  | deleteConnection src dst => exact h.of_sameBlocks (deleteConnection_sameBlocks s src dst)

/-- **Names lead to what there is** after any run. -/
theorem Run.named {lib : TypeLibrary} {P : Network → NetworkCommand → Prop} {s : Network}
    (run : Run lib P initial s) : Named s :=
  run.invariant named_initial (fun _ cmd h _ => h.execute lib cmd)
    fun _ _ h => ⟨h.root, h.rootSpec, h.live_of_dir, h.name_of_dir, h.separate, h.lt_next,
      h.spec_dead⟩

/-! ### Where the walks along a name end -/

theorem getChild_dir {s : Network} {p : List StringId} {name : StringId} {e : Entry}
    (h : s.getChild p name = some e) : s.dir (p ++ [name]) = some e := by
  unfold getChild at h
  split at h
  · exact absurd h nofun
  · exact h

theorem blockAt_dir {s : Network} {p : List StringId} {b : FBId} (h : s.blockAt p = some b) :
    s.dir p = some (.block b) := by
  unfold blockAt at h
  split at h
  · rename_i b' hdir
    rw [hdir, Option.some.inj h]
  · exact absurd h nofun

/-- The walk to a destination ends at a function block that exists. -/
theorem getFB_dir {s : Network} {p names rest : List StringId} {b : FBId}
    (h : s.getFB p names = some (b, rest)) : ∃ q, s.dir q = some (.block b) := by
  induction names generalizing p with
  | nil =>
    obtain ⟨b', hb', heq⟩ := Option.map_eq_some_iff.mp h
    exact ⟨p, blockAt_dir (hb'.trans (congrArg some (congrArg Prod.fst heq)))⟩
  | cons name names ih =>
    unfold getFB at h
    split at h
    · exact ih h
    · obtain ⟨b', hb', heq⟩ := Option.map_eq_some_iff.mp h
      exact ⟨p, blockAt_dir (hb'.trans (congrArg some (congrArg Prod.fst heq)))⟩

theorem Named.live_of_getDestination {s : Network} (h : Named s) {dst ports : List StringId}
    {b : FBId} (hdst : s.getDestination dst = some (b, ports)) : s.live b = true := by
  obtain ⟨⟨b', rest⟩, hfb, heq⟩ := Option.map_eq_some_iff.mp hdst
  obtain ⟨rfl, -⟩ := Prod.mk.inj heq
  obtain ⟨q, hq⟩ := getFB_dir hfb
  exact h.live_of_dir hq

/-- An answer about a member comes from a data input. -/
theorem mem_diNames_of_portInput {s : Network} {b : FBId} {name : StringId}
    {names : List StringId} (hne : names ≠ []) (h : s.portInput b name names ≠ none) :
    name ∈ (s.spec b).diNames := by
  cases hdi : getPortId name (s.spec b).diNames with
  | some di =>
    obtain ⟨hlt, heq, -⟩ := List.idxOf?_eq_some_iff.mp hdi
    exact heq ▸ List.getElem_mem hlt
  | none =>
    obtain ⟨n, ns, rfl⟩ := List.exists_cons_of_ne_nil hne
    simp [portInput, hdi] at h

/-- A function block with a child of some name has no data input of that name. -/
theorem portInput_eq_none_of_child {s : Network} (h : Named s) {p names : List StringId}
    {name : StringId} {e : Entry} (hchild : s.getChild p name = some e) (hne : names ≠ []) :
    ((s.blockAt p).bind fun b => s.portInput b name names) = none := by
  cases hb : s.blockAt p with
  | none => rfl
  | some b =>
    by_contra hsome
    have hnone := h.separate (blockAt_dir hb) (mem_diNames_of_portInput hne hsome)
    rw [getChild_dir hchild] at hnone
    exact absurd hnone nofun

theorem inputConnection_of_walks {s : Network} (h : Named s) {p names rest names' : List StringId}
    {last name : StringId} {b : FBId} {found : Option Connection}
    (hfb : s.getFB p names = some (b, rest)) (hrest : rest ++ [last] = name :: names')
    (hport : s.portInput b name names' = some found) :
    s.getInputConnection p (names ++ [last]) = found := by
  induction names generalizing p with
  | nil =>
    obtain ⟨b', hb', heq⟩ := Option.map_eq_some_iff.mp hfb
    obtain ⟨rfl, rfl⟩ := Prod.mk.inj heq
    obtain ⟨rfl, rfl⟩ := List.cons.inj hrest
    simp only [List.nil_append, getInputConnection, hb', Option.bind_some, hport]
  | cons next names ih =>
    rw [getFB] at hfb
    rw [List.cons_append, getInputConnection]
    cases hchild : s.getChild p next with
    | some e =>
      simp only [hchild] at hfb
      rw [portInput_eq_none_of_child h hchild (List.append_ne_nil_of_right_ne_nil names
        (List.cons_ne_nil last []))]
      exact ih hfb
    | none =>
      simp only [hchild] at hfb
      obtain ⟨b', hb', heq⟩ := Option.map_eq_some_iff.mp hfb
      obtain ⟨rfl, rfl⟩ := Prod.mk.inj heq
      rw [List.cons_append, List.cons.injEq] at hrest
      obtain ⟨rfl, rfl⟩ := hrest
      simp only [hb', Option.bind_some, hport]

/-- What the function block at a destination answers for its ports is what the walk for the
connection at the input finds. -/
theorem getInputConnection_of_portInput {s : Network} (h : Named s)
    {dst names : List StringId} {name : StringId} {b : FBId} {found : Option Connection}
    (hdst : s.getDestination dst = some (b, name :: names))
    (hport : s.portInput b name names = some found) :
    s.getInputConnection [] dst = found := by
  obtain ⟨⟨b', rest⟩, hfb, heq⟩ := Option.map_eq_some_iff.mp hdst
  obtain ⟨rfl, hrest⟩ := Prod.mk.inj heq
  rcases List.eq_nil_or_concat dst with rfl | ⟨init, last, rfl⟩
  · have hempty : (s.blockAt []).map (·, []) = some (b', rest) := hfb
    obtain ⟨b'', -, hrest'⟩ := Option.map_eq_some_iff.mp hempty
    obtain ⟨-, rfl⟩ := Prod.mk.inj hrest'
    exact absurd hrest nofun
  · rw [List.concat_eq_append] at hfb hrest ⊢
    rw [List.dropLast_concat] at hfb
    rw [List.getLast?_concat] at hrest
    exact inputConnection_of_walks h hfb hrest hport

/-- A port of a function block. -/
def BaseConnection.IsPort (s : Network) : BaseConnection → Prop
  | .out p => p.port < (s.spec p.fb).doNames.length
  | .inOut p => p.port < (s.spec p.fb).dioNames.length

/-- The variable that a delegating connection refers to. -/
def DataConnection.captured : DataConnection → Option BaseConnection
  | .base _ => none
  | .member _ _ value _ => some value
  | .negating _ _ value => some value

/-- **What the names of a source lead to**: a connection of a port of a function block that
exists. -/
inductive Sourced (s : Network) : Connection → Prop
  | event {p : ConnectionPoint} (live : s.live p.fb = true)
      (lt : p.port < (s.spec p.fb).eoNames.length) : Sourced s (.event p)
  | data {d : DataConnection} (live : s.live d.src.fb = true)
      (port : BaseConnection.IsPort s d.origin)
      (captured : ∀ v ∈ DataConnection.captured d, v = s.variableOf d.origin) :
      Sourced s (.data d)
  | adapter {p : ConnectionPoint} (live : s.live p.fb = true)
      (lt : p.port < (s.spec p.fb).plugNames.length) : Sourced s (.adapter p)

theorem getPortId_lt {name : StringId} {names : List StringId} {i : PortId}
    (h : getPortId name names = some i) : i < names.length :=
  (List.idxOf?_eq_some_iff.mp h).1

theorem sourced_of_getDelegatingConnection {s : Network} {b : BaseConnection}
    {names : List StringId} {d : DataConnection} (live : s.live b.src.fb = true)
    (port : BaseConnection.IsPort s b) (h : s.getDelegatingConnection b names = some d) :
    Sourced s (.data d) := by
  unfold getDelegatingConnection at h
  split at h
  · obtain rfl := Option.some.inj h
    exact .data live port nofun
  simp only at h
  split at h
  · obtain rfl := Option.some.inj h
    exact .data live port fun v hv => (Option.some.inj hv).symm
  split at h
  · obtain rfl := Option.some.inj h
    exact .data live port fun v hv => (Option.some.inj hv).symm
  · exact absurd h nofun

theorem sourced_of_portOutput {s : Network} {b : FBId} {name : StringId}
    {names : List StringId} {c : Connection} (live : s.live b = true)
    (h : s.portOutput b name names = some (some c)) : Sourced s c := by
  unfold portOutput at h
  split at h
  · rename_i eo heo
    split at h
    · obtain rfl := Option.some.inj (Option.some.inj h)
      exact .event live (getPortId_lt heo)
    · exact absurd (Option.some.inj h) nofun
  split at h
  · rename_i dout hdo
    obtain ⟨d, hd, rfl⟩ := Option.map_eq_some_iff.mp (Option.some.inj h)
    exact sourced_of_getDelegatingConnection (b := .out ⟨b, dout⟩) live (getPortId_lt hdo) hd
  split at h
  · rename_i dio hdio
    obtain ⟨d, hd, rfl⟩ := Option.map_eq_some_iff.mp (Option.some.inj h)
    exact sourced_of_getDelegatingConnection (b := .inOut ⟨b, dio⟩) live (getPortId_lt hdio) hd
  split at h
  · rename_i plug hplug
    split at h
    · obtain rfl := Option.some.inj (Option.some.inj h)
      exact .adapter live (getPortId_lt hplug)
    · exact absurd (Option.some.inj h) nofun
  · exact absurd h nofun

theorem Named.sourced {s : Network} (h : Named s) {p names : List StringId} {c : Connection}
    (hc : s.getOutputConnection p names = some c) : Sourced s c := by
  induction names generalizing p with
  | nil => exact absurd hc nofun
  | cons name names ih =>
    unfold getOutputConnection at hc
    split at hc
    · rename_i found hfound
      obtain ⟨b, hb, hport⟩ := Option.bind_eq_some_iff.mp hfound
      exact sourced_of_portOutput (h.live_of_dir (blockAt_dir hb)) (hc ▸ hport)
    · split at hc
      · exact ih hc
      · exact absurd hc nofun

/-- What a data input answers. -/
theorem portInput_cases {s : Network} {b : FBId} {name : StringId} {names : List StringId}
    {c : Connection} (h : s.portInput b name names = some (some c)) :
    (∃ di conn d, getPortId name (s.spec b).diNames = some di ∧ s.diConn b di = some conn ∧
      conn.getMemberConnection names = some d ∧ c = .data d) ∨
    (∃ dio src, names = [] ∧ getPortId name (s.spec b).dioNames = some dio ∧
      s.dioInConn b dio = some src ∧ c = .data (.base (.inOut src))) ∨
    ∃ socket src, names = [] ∧ getPortId name (s.spec b).socketNames = some socket ∧
      s.socketConn b socket = some src ∧ c = .adapter src := by
  unfold portInput at h
  split at h
  · rename_i conn hconn
    obtain ⟨di, hdi, hconn⟩ := Option.bind_eq_some_iff.mp hconn
    obtain ⟨d, hd, rfl⟩ := Option.map_eq_some_iff.mp (Option.some.inj h)
    exact .inl ⟨di, conn, d, hdi, hconn, hd, rfl⟩
  split at h
  · rename_i src hsrc
    obtain ⟨dio, hdio, hin⟩ := Option.bind_eq_some_iff.mp hsrc
    exact .inr (.inl ⟨dio, src, rfl, hdio, hin, (Option.some.inj (Option.some.inj h)).symm⟩)
  split at h
  · rename_i socket hsocket _
    obtain ⟨src, hsrc, rfl⟩ := Option.map_eq_some_iff.mp (Option.some.inj h)
    exact .inr (.inr ⟨socket, src, rfl, hsocket, hsrc, rfl⟩)
  · exact absurd h nofun

end Network

end Forte
