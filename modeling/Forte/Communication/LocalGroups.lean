import Forte.Datatypes.AnyVariant
import Forte.Lib.SortedTable

/-!
# Groups of local communication

Publishers and subscribers of one device that have the same group identifier exchange data
directly. The manager of the groups keeps them in a table that is sorted by the identifier.
A layer that registers itself joins the group of its identifier, if that has the types of its
data pins, or creates it; the last layer that leaves a group removes it.

`Forte.LocalCom.Wf` is what the table is for: it has the layers that are registered, each of
them once, in groups whose types are theirs. A registration adds a layer to them
(`Forte.LocalCom.Wf.register`) and an unregistration removes one
(`Forte.LocalCom.Wf.unregister`).
-/

namespace Forte

namespace LocalCom

/-! ### The table of the groups -/

/-- A `CLocalComLayer`, with the address it was created at. The order of the identifiers is the
one of the addresses of their interned texts, which may be any. -/
structure CLocalComLayer (ι κ : Type) where
  address : ℕ
  mFb : ι
  mGroupID : κ
  deriving DecidableEq

/-- The two lists of a group. -/
inductive Role
  | publ | subl
  deriving DecidableEq

variable {ι κ : Type}

/-- A `CLocalCommGroup`. -/
structure CLocalCommGroup (ι κ : Type) where
  mGroupName : κ
  mPublList : List (CLocalComLayer ι κ)
  mSublList : List (CLocalComLayer ι κ)
  mDataTypes : List StringId

/-- One of the lists of a group. -/
def CLocalCommGroup.layers (g : CLocalCommGroup ι κ) : Role → List (CLocalComLayer ι κ)
  | .publ => g.mPublList
  | .subl => g.mSublList

/-- The group with another list. -/
def CLocalCommGroup.setLayers (g : CLocalCommGroup ι κ) (r : Role)
    (ls : List (CLocalComLayer ι κ)) : CLocalCommGroup ι κ :=
  match r with
  | .publ => { g with mPublList := ls }
  | .subl => { g with mSublList := ls }

/-- A `TLocalCommGroupList`. -/
abbrev TLocalCommGroupList (ι κ : Type) : Type := List (CLocalCommGroup ι κ)

/-- `buildDataTypeList`. -/
def buildDataTypeList (paDataPins : List AnyVariant) : List StringId :=
  paDataPins.map fun pin => pin.held.getTypeNameID

/-- `checkDataTypes`. -/
def checkDataTypes (group : CLocalCommGroup ι κ) (paDataPins : List AnyVariant) : Bool :=
  if paDataPins.length ≠ group.mDataTypes.length then false
  else (group.mDataTypes.zip paDataPins).all fun p => p.1 = p.2.held.getTypeNameID

variable [LinearOrder κ]

/-- `findOrCreateLocalCommGroup`: the groups with the one for the identifier, if the types of
the pins are the ones of that group. -/
def findOrCreateLocalCommGroup (groups : TLocalCommGroupList ι κ) (paID : κ)
    (paDataPins : List AnyVariant) : Option (TLocalCommGroupList ι κ) :=
  match Table.find? CLocalCommGroup.mGroupName paID groups with
  | some group => if checkDataTypes group paDataPins then some groups else none
  | none =>
    some (Table.insertAbsent CLocalCommGroup.mGroupName
      ⟨paID, [], [], buildDataTypeList paDataPins⟩ groups)

/-- `getComGroup`. -/
def getComGroup (groups : TLocalCommGroupList ι κ) (paGroupID : κ) :
    Option (CLocalCommGroup ι κ) :=
  Table.find? CLocalCommGroup.mGroupName paGroupID groups

/-- The registration of a layer with one of the lists. -/
def register (r : Role) (groups : TLocalCommGroupList ι κ) (paGroupID : κ)
    (paLayer : CLocalComLayer ι κ) (paDataPins : List AnyVariant) :
    Option (TLocalCommGroupList ι κ) :=
  (findOrCreateLocalCommGroup groups paGroupID paDataPins).map <|
    Table.modify CLocalCommGroup.mGroupName paGroupID fun group =>
      group.setLayers r (group.layers r ++ [paLayer])

/-- `registerPubl`. -/
def registerPubl (groups : TLocalCommGroupList ι κ) (paGroupID : κ)
    (paLayer : CLocalComLayer ι κ) (paDataPins : List AnyVariant) :
    Option (TLocalCommGroupList ι κ) :=
  register .publ groups paGroupID paLayer paDataPins

/-- `registerSubl`, with the pins of the block. -/
def registerSubl (groups : TLocalCommGroupList ι κ) (paGroupID : κ)
    (paLayer : CLocalComLayer ι κ) (paDataPins : List AnyVariant) :
    Option (TLocalCommGroupList ι κ) :=
  register .subl groups paGroupID paLayer paDataPins

variable [DecidableEq ι]

/-- The group a layer was removed from is taken out if it has no other. -/
def unregister (r : Role) (groups : TLocalCommGroupList ι κ) (paGroupID : κ)
    (paLayer : CLocalComLayer ι κ) : TLocalCommGroupList ι κ :=
  match Table.find? CLocalCommGroup.mGroupName paGroupID groups with
  | some group =>
    let left := group.setLayers r ((group.layers r).erase paLayer)
    -- `checkForGroupRemoval`
    if left.mPublList = [] ∧ left.mSublList = [] then
      Table.erase CLocalCommGroup.mGroupName paGroupID groups
    else Table.modify CLocalCommGroup.mGroupName paGroupID (fun _ => left) groups
  | none => groups

/-- `unregisterPubl`. -/
def unregisterPubl (groups : TLocalCommGroupList ι κ) (paGroupID : κ)
    (paLayer : CLocalComLayer ι κ) : TLocalCommGroupList ι κ :=
  unregister .publ groups paGroupID paLayer

/-- `unregisterSubl`. -/
def unregisterSubl (groups : TLocalCommGroupList ι κ) (paGroupID : κ)
    (paLayer : CLocalComLayer ι κ) : TLocalCommGroupList ι κ :=
  unregister .subl groups paGroupID paLayer

/-! ### What the table is for -/

omit [DecidableEq ι] in
/-- **The table lists the layers that are registered**, each once and in the group of its
identifier, whose types are the ones of the layer. -/
structure Listed (types : Role → CLocalComLayer ι κ → List StringId)
    (groups : TLocalCommGroupList ι κ) (R : Role → CLocalComLayer ι κ → Prop) : Prop where
  sorted : Table.Sorted CLocalCommGroup.mGroupName groups
  once : ∀ g ∈ groups, ∀ r, (g.layers r).Nodup
  named : ∀ g ∈ groups, ∀ r, ∀ l ∈ g.layers r, l.mGroupID = g.mGroupName
  agree : ∀ g ∈ groups, ∀ r, ∀ l ∈ g.layers r, types r l = g.mDataTypes
  mem_iff : ∀ r l, R r l ↔ ∃ g ∈ groups, l ∈ g.layers r

omit [DecidableEq ι] in
/-- **The table is well formed**: it lists the layers, and no group is without one. -/
structure Wf (types : Role → CLocalComLayer ι κ → List StringId)
    (groups : TLocalCommGroupList ι κ) (R : Role → CLocalComLayer ι κ → Prop) : Prop
    extends Listed types groups R where
  inhabited : ∀ g ∈ groups, ∃ r, g.layers r ≠ []

/-! ### Lists of a group -/

section Layers

omit [LinearOrder κ] [DecidableEq ι]

variable (g : CLocalCommGroup ι κ) (r : Role) (ls : List (CLocalComLayer ι κ))

@[simp] theorem CLocalCommGroup.mGroupName_setLayers :
    (g.setLayers r ls).mGroupName = g.mGroupName := by cases r <;> rfl

@[simp] theorem CLocalCommGroup.mDataTypes_setLayers :
    (g.setLayers r ls).mDataTypes = g.mDataTypes := by cases r <;> rfl

@[simp] theorem CLocalCommGroup.layers_setLayers_self : (g.setLayers r ls).layers r = ls := by
  cases r <;> rfl

theorem CLocalCommGroup.layers_setLayers_of_ne {q : Role} (h : q ≠ r) :
    (g.setLayers r ls).layers q = g.layers q := by
  cases r <;> cases q <;> first | exact absurd rfl h | rfl

theorem CLocalCommGroup.exists_layers_ne_nil :
    (∃ r, g.layers r ≠ []) ↔ ¬(g.mPublList = [] ∧ g.mSublList = []) := by
  constructor
  · rintro ⟨r | r, hr⟩ ⟨hpubl, hsubl⟩
    · exact hr hpubl
    · exact hr hsubl
  · intro h
    by_cases hpubl : g.mPublList = []
    · exact ⟨.subl, fun hsubl => h ⟨hpubl, hsubl⟩⟩
    · exact ⟨.publ, hpubl⟩

end Layers

/-- The loop of the check, for as many pins as there are types. -/
theorem all_zip_iff {names : List StringId} {pins : List AnyVariant}
    (hlen : pins.length = names.length) :
    ((names.zip pins).all fun p => p.1 = p.2.held.getTypeNameID) = true ↔
      buildDataTypeList pins = names := by
  induction pins generalizing names with
  | nil =>
    obtain rfl : names = [] := List.length_eq_zero_iff.mp hlen.symm
    exact iff_of_true rfl rfl
  | cons pin pins ih =>
    rcases names with _ | ⟨name, names⟩
    · exact absurd hlen (by simp)
    · have hcons : buildDataTypeList (pin :: pins) =
          pin.held.getTypeNameID :: buildDataTypeList pins := rfl
      rw [List.zip_cons_cons, List.all_cons, Bool.and_eq_true, ih (Nat.succ.inj hlen),
        decide_eq_true_iff, hcons, List.cons.injEq]
      exact and_congr_left' eq_comm

omit [LinearOrder κ] [DecidableEq ι] in
/-- The check compares the lists of types. -/
theorem checkDataTypes_iff (group : CLocalCommGroup ι κ) (pins : List AnyVariant) :
    checkDataTypes group pins = true ↔ buildDataTypeList pins = group.mDataTypes := by
  rw [checkDataTypes]
  split_ifs with hlen
  · refine iff_of_false (by simp) fun heq => hlen ?_
    rw [← heq, buildDataTypeList, List.length_map]
  · exact all_zip_iff (not_not.mp hlen)

/-! ### Registrations -/

section Registration

omit [DecidableEq ι]

variable {types : Role → CLocalComLayer ι κ → List StringId} {groups : TLocalCommGroupList ι κ}
  {R : Role → CLocalComLayer ι κ → Prop}

/-- **The group for an identifier** is there with the types of the pins, and nothing else has
changed. -/
theorem Listed.findOrCreate (h : Listed types groups R) {paID : κ} {pins : List AnyVariant}
    {groups' : TLocalCommGroupList ι κ}
    (hfind : findOrCreateLocalCommGroup groups paID pins = some groups') :
    Listed types groups' R ∧
      (∃ g ∈ groups', g.mGroupName = paID ∧ g.mDataTypes = buildDataTypeList pins) ∧
      ∀ g ∈ groups', g.mGroupName ≠ paID → g ∈ groups := by
  rw [findOrCreateLocalCommGroup] at hfind
  cases hgroup : Table.find? CLocalCommGroup.mGroupName paID groups with
  | some group =>
    rw [hgroup] at hfind
    obtain ⟨hmem, hname⟩ := (Table.find?_eq_some h.sorted).mp hgroup
    obtain ⟨hcheck, heq⟩ := Option.ite_none_right_eq_some.mp hfind
    obtain rfl := Option.some.inj heq
    exact ⟨h, ⟨group, hmem, hname, ((checkDataTypes_iff group pins).mp hcheck).symm⟩,
      fun g hg _ => hg⟩
  | none =>
    rw [hgroup] at hfind
    obtain rfl := Option.some.inj hfind
    have hnew := (Table.find?_eq_none h.sorted).mp hgroup
    have hmem (g : CLocalCommGroup ι κ) := Table.mem_insertAbsent h.sorted
      (a := ⟨paID, [], [], buildDataTypeList pins⟩) (b := g)
    -- the group that was created has no layer
    have hold : ∀ g ∈ Table.insertAbsent CLocalCommGroup.mGroupName
        ⟨paID, [], [], buildDataTypeList pins⟩ groups, ∀ r, ∀ l ∈ g.layers r, g ∈ groups := by
      intro g hg r l hl
      rcases (hmem g).mp hg with hg | ⟨rfl, -⟩
      · exact hg
      · cases r <;> exact absurd hl List.not_mem_nil
    refine ⟨⟨h.sorted.insertAbsent _, fun g hg r => ?_, fun g hg r l hl => ?_,
      fun g hg r l hl => ?_, fun r l => ?_⟩, ⟨_, (hmem _).mpr (.inr ⟨rfl, hnew⟩), rfl, rfl⟩,
      fun g hg hne => ?_⟩
    · rcases (hmem g).mp hg with hg | ⟨rfl, -⟩
      · exact h.once g hg r
      · cases r <;> exact List.nodup_nil
    · exact h.named g (hold g hg r l hl) r l hl
    · exact h.agree g (hold g hg r l hl) r l hl
    · rw [h.mem_iff]
      constructor
      · rintro ⟨g, hg, hl⟩
        exact ⟨g, (hmem g).mpr (.inl hg), hl⟩
      · rintro ⟨g, hg, hl⟩
        exact ⟨g, hold g hg r l hl, hl⟩
    · rcases (hmem g).mp hg with hg | ⟨rfl, -⟩
      · exact hg
      · exact absurd rfl hne

/-- **A registration** adds a layer with the types of its pins. -/
theorem Wf.register (h : Wf types groups R) {r : Role} {l : CLocalComLayer ι κ}
    {pins : List AnyVariant} {groups' : TLocalCommGroupList ι κ} (hl : ¬R r l)
    (htypes : types r l = buildDataTypeList pins)
    (hreg : register r groups l.mGroupID l pins = some groups') :
    Wf types groups' fun q x => R q x ∨ (q = r ∧ x = l) := by
  obtain ⟨base, hbase, rfl⟩ := Option.map_eq_some_iff.mp hreg
  obtain ⟨hlisted, ⟨group, hgroup, hname, hdata⟩, hold⟩ := h.findOrCreate hbase
  set join : CLocalCommGroup ι κ → CLocalCommGroup ι κ :=
    fun g => g.setLayers r (g.layers r ++ [l]) with hjoin
  have hmem (g : CLocalCommGroup ι κ) :
      g ∈ Table.modify CLocalCommGroup.mGroupName l.mGroupID join base ↔
        (g ∈ base ∧ g.mGroupName ≠ l.mGroupID) ∨ g = join group := by
    rw [Table.mem_modify hlisted.sorted]
    refine or_congr_right ⟨?_, fun h => ⟨group, hgroup, hname, h⟩⟩
    rintro ⟨g', hg', hname', rfl⟩
    rw [hlisted.sorted.eq_of_key hg' hgroup (hname'.trans hname.symm)]
  -- the layers of the group that was joined
  have hself : (join group).layers r = group.layers r ++ [l] := group.layers_setLayers_self r _
  have hother {q : Role} (hq : q ≠ r) : (join group).layers q = group.layers q :=
    group.layers_setLayers_of_ne r _ hq
  have hjoined {q : Role} {x : CLocalComLayer ι κ} :
      x ∈ (join group).layers q ↔ x ∈ group.layers q ∨ (q = r ∧ x = l) := by
    by_cases hq : q = r
    · subst hq
      rw [hself, List.mem_append, List.mem_singleton]
      simp
    · rw [hother hq]
      simp [hq]
  have hnew : ∀ g ∈ base, l ∉ g.layers r :=
    fun g hg hmem => hl ((hlisted.mem_iff r l).mpr ⟨g, hg, hmem⟩)
  refine ⟨⟨?_, fun g hg q => ?_, fun g hg q x hx => ?_, fun g hg q x hx => ?_, fun q x => ?_⟩,
    fun g hg => ?_⟩
  · exact hlisted.sorted.modify fun g _ hg => (g.mGroupName_setLayers r _).trans hg
  · rcases (hmem g).mp hg with ⟨hg, -⟩ | rfl
    · exact hlisted.once g hg q
    · by_cases hq : q = r
      · subst hq
        rw [hself]
        exact (hlisted.once group hgroup q).append (List.nodup_singleton l)
          (List.disjoint_singleton.mpr (hnew group hgroup))
      · rw [hother hq]
        exact hlisted.once group hgroup q
  · rcases (hmem g).mp hg with ⟨hg, -⟩ | rfl
    · exact hlisted.named g hg q x hx
    · rw [hjoin, CLocalCommGroup.mGroupName_setLayers]
      rcases hjoined.mp hx with hx | ⟨-, rfl⟩
      · exact hlisted.named group hgroup q x hx
      · exact hname.symm
  · rcases (hmem g).mp hg with ⟨hg, -⟩ | rfl
    · exact hlisted.agree g hg q x hx
    · rw [hjoin, CLocalCommGroup.mDataTypes_setLayers]
      rcases hjoined.mp hx with hx | ⟨rfl, rfl⟩
      · exact hlisted.agree group hgroup q x hx
      · exact htypes.trans hdata.symm
  · rw [hlisted.mem_iff]
    constructor
    · rintro (⟨g, hg, hx⟩ | ⟨rfl, rfl⟩)
      · by_cases heq : g.mGroupName = l.mGroupID
        · obtain rfl := hlisted.sorted.eq_of_key hg hgroup (heq.trans hname.symm)
          exact ⟨_, (hmem _).mpr (.inr rfl), hjoined.mpr (.inl hx)⟩
        · exact ⟨g, (hmem g).mpr (.inl ⟨hg, heq⟩), hx⟩
      · exact ⟨_, (hmem _).mpr (.inr rfl), hjoined.mpr (.inr ⟨rfl, rfl⟩)⟩
    · rintro ⟨g, hg, hx⟩
      rcases (hmem g).mp hg with ⟨hg, -⟩ | rfl
      · exact .inl ⟨g, hg, hx⟩
      · exact (hjoined.mp hx).imp_left fun hx => ⟨group, hgroup, hx⟩
  · rcases (hmem g).mp hg with ⟨hg, hne⟩ | rfl
    · exact h.inhabited g (hold g hg hne)
    · refine ⟨r, ?_⟩
      rw [hself]
      exact List.append_ne_nil_of_right_ne_nil _ (List.cons_ne_nil l [])

end Registration

section Unregistration

variable {types : Role → CLocalComLayer ι κ → List StringId} {groups : TLocalCommGroupList ι κ}
  {R : Role → CLocalComLayer ι κ → Prop}

omit [DecidableEq ι] in
/-- A layer that is not in a group of its identifier is not registered. -/
theorem Wf.not_of_group {r : Role} {l : CLocalComLayer ι κ} (h : Wf types groups R)
    (hgroup : ∀ g ∈ groups, g.mGroupName ≠ l.mGroupID) : ¬R r l := by
  rw [h.mem_iff]
  rintro ⟨g, hg, hl⟩
  exact hgroup g hg (h.named g hg r l hl).symm

/-- **An unregistration** removes a layer, and does nothing if it is not there. -/
theorem Wf.unregister (h : Wf types groups R) (r : Role) (l : CLocalComLayer ι κ) :
    Wf types (unregister r groups l.mGroupID l) fun q x => R q x ∧ ¬(q = r ∧ x = l) := by
  rw [LocalCom.unregister]
  cases hfind : Table.find? CLocalCommGroup.mGroupName l.mGroupID groups with
  | none =>
    have hnot : ¬R r l := h.not_of_group ((Table.find?_eq_none h.sorted).mp hfind)
    have heq : (fun q x => R q x ∧ ¬(q = r ∧ x = l)) = R := by
      funext q x
      refine propext (and_iff_left_of_imp fun hR => ?_)
      rintro ⟨rfl, rfl⟩
      exact hnot hR
    rw [heq]
    exact h
  | some group =>
    obtain ⟨hgroup, hname⟩ := (Table.find?_eq_some h.sorted).mp hfind
    set left := group.setLayers r ((group.layers r).erase l) with hleft
    have hself : left.layers r = (group.layers r).erase l := group.layers_setLayers_self r _
    have hother {q : Role} (hq : q ≠ r) : left.layers q = group.layers q :=
      group.layers_setLayers_of_ne r _ hq
    have hremains {q : Role} {x : CLocalComLayer ι κ} :
        x ∈ left.layers q ↔ x ∈ group.layers q ∧ ¬(q = r ∧ x = l) := by
      by_cases hq : q = r
      · subst hq
        rw [hself, (h.once group hgroup q).mem_erase_iff]
        simp [and_comm]
      · rw [hother hq]
        simp [hq]
    -- where a layer other than this one is
    have hiff (q : Role) (x : CLocalComLayer ι κ) : (R q x ∧ ¬(q = r ∧ x = l)) ↔
        (∃ g ∈ groups, g.mGroupName ≠ l.mGroupID ∧ x ∈ g.layers q) ∨ x ∈ left.layers q := by
      rw [h.mem_iff, hremains]
      constructor
      · rintro ⟨⟨g, hg, hx⟩, hne⟩
        by_cases heq : g.mGroupName = l.mGroupID
        · obtain rfl := h.sorted.eq_of_key hg hgroup (heq.trans hname.symm)
          exact .inr ⟨hx, hne⟩
        · exact .inl ⟨g, hg, heq, hx⟩
      · rintro (⟨g, hg, heq, hx⟩ | ⟨hx, hne⟩)
        · refine ⟨⟨g, hg, hx⟩, ?_⟩
          rintro ⟨rfl, rfl⟩
          exact heq (h.named g hg q x hx).symm
        · exact ⟨⟨group, hgroup, hx⟩, hne⟩
    show Wf types (if left.mPublList = [] ∧ left.mSublList = [] then _ else _) _
    split_ifs with hempty
    · have hgone : ∀ q, left.layers q = [] := fun q => by
        cases q
        · exact hempty.1
        · exact hempty.2
      refine ⟨⟨h.sorted.erase, fun g hg q => ?_, fun g hg q x hx => ?_, fun g hg q x hx => ?_,
        fun q x => ?_⟩, fun g hg => ?_⟩
      · exact h.once g ((Table.mem_erase h.sorted).mp hg).1 q
      · exact h.named g ((Table.mem_erase h.sorted).mp hg).1 q x hx
      · exact h.agree g ((Table.mem_erase h.sorted).mp hg).1 q x hx
      · rw [hiff, hgone, or_iff_left List.not_mem_nil]
        simp only [Table.mem_erase h.sorted, and_assoc]
      · exact h.inhabited g ((Table.mem_erase h.sorted).mp hg).1
    · have hmem (g : CLocalCommGroup ι κ) :
          g ∈ Table.modify CLocalCommGroup.mGroupName l.mGroupID (fun _ => left) groups ↔
            (g ∈ groups ∧ g.mGroupName ≠ l.mGroupID) ∨ g = left := by
        rw [Table.mem_modify h.sorted]
        exact or_congr_right ⟨fun ⟨_, _, _, heq⟩ => heq, fun heq => ⟨group, hgroup, hname, heq⟩⟩
      have hleftname : left.mGroupName = l.mGroupID :=
        (group.mGroupName_setLayers r _).trans hname
      refine ⟨⟨h.sorted.modify fun _ _ _ => hleftname, fun g hg q => ?_, fun g hg q x hx => ?_,
        fun g hg q x hx => ?_, fun q x => ?_⟩, fun g hg => ?_⟩
      · rcases (hmem g).mp hg with ⟨hg, -⟩ | rfl
        · exact h.once g hg q
        · by_cases hq : q = r
          · subst hq
            rw [hself]
            exact (h.once group hgroup q).erase l
          · rw [hother hq]
            exact h.once group hgroup q
      · rcases (hmem g).mp hg with ⟨hg, -⟩ | rfl
        · exact h.named g hg q x hx
        · rw [hleftname, ← hname]
          exact h.named group hgroup q x (hremains.mp hx).1
      · rcases (hmem g).mp hg with ⟨hg, -⟩ | rfl
        · exact h.agree g hg q x hx
        · rw [hleft, CLocalCommGroup.mDataTypes_setLayers]
          exact h.agree group hgroup q x (hremains.mp hx).1
      · rw [hiff]
        constructor
        · rintro (⟨g, hg, hne, hx⟩ | hx)
          · exact ⟨g, (hmem g).mpr (.inl ⟨hg, hne⟩), hx⟩
          · exact ⟨left, (hmem left).mpr (.inr rfl), hx⟩
        · rintro ⟨g, hg, hx⟩
          rcases (hmem g).mp hg with ⟨hg, hne⟩ | rfl
          · exact .inl ⟨g, hg, hne, hx⟩
          · exact .inr hx
      · rcases (hmem g).mp hg with ⟨hg, -⟩ | rfl
        · exact h.inhabited g hg
        · exact left.exists_layers_ne_nil.mpr hempty

end Unregistration

end LocalCom

end Forte
