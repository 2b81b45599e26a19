import Mathlib.Logic.Function.Basic
import Forte.Communication.LocalGroups
import Forte.Lib.Runs

/-!
# Function blocks over a local communication layer

A communication block opens and closes a stack of layers, of which any may be a
`CLocalComLayer`. When it opens, the layer of a publisher or of a subscriber is registered with
the group of its identifier, after its data pins have been compared with the types of the group.
A send copies the inputs of the block to the outputs of every subscriber of the group, by their
positions.

* **Clients and servers are not registered**, and so their data pins are not compared with
  anything. Their layers open all the same, and they send to the subscribers of the group with
  their identifier.
* **A data pin is of any type**: a write replaces its value together with its type, also after
  the registration.

`Forte.LocalCom.keeps_groups_iff` says which runs keep the table of the groups as it should be
and copy every input on each send: those in which a client or server only sends what fits the
types of the group, and the data pins of what is registered keep their types.
-/

namespace Forte

namespace LocalCom

/-! ### The layers of the blocks -/

/-- `EComServiceType`. -/
inductive EComServiceType
  | server | client | publisher | subscriber
  deriving DecidableEq

/-- The list a block is in. -/
def EComServiceType.role : EComServiceType → Option Role
  | server => none
  | client => none
  | publisher => some .publ
  | subscriber => some .subl

/-- The list a layer of the block is taken from when it is closed. -/
def EComServiceType.closingRole : EComServiceType → Role
  | publisher => .publ
  | _ => .subl

/-- The blocks, with what is in their stacks of layers; only the local ones are told apart. -/
structure State (ι κ : Type) where
  mLocalCommGroups : TLocalCommGroupList ι κ
  stack : ι → List (Option (CLocalComLayer ι κ))
  /-- The number of layers that have been created. -/
  created : ℕ
  sds : ι → List AnyVariant
  rds : ι → List AnyVariant

variable {ι κ : Type} [DecidableEq ι] [LinearOrder κ]

/-- The data pins a layer is registered with. -/
def State.pins (s : State ι κ) : Role → ι → List AnyVariant
  | .publ => s.sds
  | .subl => s.rds

/-- A new layer below the ones in the stack of a block. -/
def State.create (s : State ι κ) (fb : ι) (layer : Option (CLocalComLayer ι κ)) : State ι κ :=
  { s with
    created := s.created + 1
    stack := Function.update s.stack fb (s.stack fb ++ [layer]) }

variable (service : ι → EComServiceType)

/-- `CLocalComLayer::openConnection`. -/
def openConnection (s : State ι κ) (layer : CLocalComLayer ι κ) :
    Option (TLocalCommGroupList ι κ) :=
  match service layer.mFb with
  | .server => some s.mLocalCommGroups
  | .client => some s.mLocalCommGroups
  | .publisher => registerPubl s.mLocalCommGroups layer.mGroupID layer (s.sds layer.mFb)
  | .subscriber => registerSubl s.mLocalCommGroups layer.mGroupID layer (s.rds layer.mFb)

/-- `CLocalComLayer::closeConnection`. -/
def closeConnection (groups : TLocalCommGroupList ι κ) (layer : CLocalComLayer ι κ) :
    TLocalCommGroupList ι κ :=
  if service layer.mFb = .publisher then unregisterPubl groups layer.mGroupID layer
  else unregisterSubl groups layer.mGroupID layer

/-- What the identifier of a block says of a layer. -/
inductive LayerParams (κ : Type)
  /-- `loc[…]`. -/
  | loc (mGroupID : κ)
  /-- A layer of another kind, and if it opens. -/
  | other (opens : Bool)

/-- `createComstack`, and if every layer has been opened. -/
def createComstack (s : State ι κ) (fb : ι) : List (LayerParams κ) → State ι κ × Bool
  | [] => (s, true)
  | .other opens :: commID =>
    let s' := s.create fb none
    if opens then createComstack s' fb commID else (s', false)
  | .loc mGroupID :: commID =>
    let newLayer := ⟨s.created, fb, mGroupID⟩
    let s' := s.create fb (some newLayer)
    match openConnection service s' newLayer with
    | some groups => createComstack { s' with mLocalCommGroups := groups } fb commID
    | none => (s', false)

/-- The layers of a stack are closed from the top, each by the one above it and again by its
destructor. -/
def closeStack (groups : TLocalCommGroupList ι κ)
    (stack : List (Option (CLocalComLayer ι κ))) : TLocalCommGroupList ι κ :=
  stack.foldl (fun groups layer => match layer with
    | some layer => closeConnection service (closeConnection service groups layer) layer
    | none => groups) groups

/-- `CBaseCommFB::closeConnection`. -/
def closeBlock (s : State ι κ) (fb : ι) : State ι κ :=
  { s with
    mLocalCommGroups := closeStack service s.mLocalCommGroups (s.stack fb)
    stack := Function.update s.stack fb [] }

/-- `CBaseCommFB::openConnection`. -/
def openBlock (s : State ι κ) (fb : ι) (commID : List (LayerParams κ)) : State ι κ :=
  if s.stack fb = [] then
    let r := createComstack service s fb commID
    if r.2 then r.1 else closeBlock service r.1 fb
  else s

/-! ### Sending -/

/-- `setRDs`. There is no result where it writes behind the outputs. -/
def setRDs : List AnyVariant → List AnyVariant → Option (List AnyVariant)
  | rds, [] => some rds
  | _ :: rds, sd :: sds => (setRDs rds sds).map (AnyVariant.setValue sd.held :: ·)
  | [], _ :: _ => none

/-- The loop over the subscribers of a group. -/
def setEachRDs (sds : List AnyVariant) (mSublList : List (CLocalComLayer ι κ))
    (rds : ι → List AnyVariant) : Option (ι → List AnyVariant) :=
  mSublList.foldlM (fun rds runner =>
    (setRDs (rds runner.mFb) sds).map (Function.update rds runner.mFb)) rds

/-- `CLocalComLayer::sendData`. -/
def sendData (s : State ι κ) (layer : CLocalComLayer ι κ) : Option (State ι κ) :=
  match getComGroup s.mLocalCommGroups layer.mGroupID with
  | none => some s
  | some comGroup =>
    (setEachRDs (s.sds layer.mFb) comGroup.mSublList s.rds).map fun rds => { s with rds := rds }

/-! ### Runs -/

/-- What happens to the blocks. -/
inductive Step (ι κ : Type)
  | openBlock (fb : ι) (commID : List (LayerParams κ))
  | closeBlock (fb : ι)
  /-- A layer is handed the data of its block; which layers are is up to the ones above. -/
  | sendData (layer : CLocalComLayer ι κ)
  /-- A data pin gets another value, at an input or at an output. -/
  | write (r : Role) (fb : ι) (i : ℕ) (v : Datum)

/-- A layer that is in the stack of a block that sends. -/
def State.Sends (s : State ι κ) (layer : CLocalComLayer ι κ) : Prop :=
  some layer ∈ s.stack layer.mFb ∧ service layer.mFb ≠ .subscriber

instance (s : State ι κ) (layer : CLocalComLayer ι κ) : Decidable (s.Sends service layer) :=
  inferInstanceAs (Decidable (_ ∧ _))

/-- The data pins with another value at one of them. -/
def State.write (s : State ι κ) (r : Role) (fb : ι) (i : ℕ) (v : Datum) : State ι κ :=
  let pins := Function.update (s.pins r) fb ((s.pins r fb).modify i fun _ => .setValue v)
  match r with
  | .publ => { s with sds := pins }
  | .subl => { s with rds := pins }

/-- The state after a step. After a send that has written behind the outputs nothing is known;
the model stays as it was. -/
def next (s : State ι κ) : Step ι κ → State ι κ
  | .openBlock fb commID => openBlock service s fb commID
  | .closeBlock fb => closeBlock service s fb
  | .sendData layer =>
    if s.Sends service layer then (LocalCom.sendData s layer).getD s else s
  | .write r fb i v => s.write r fb i v

omit [DecidableEq ι] [LinearOrder κ] in
/-- Before anything has been opened, with any data pins. -/
def initial (sds rds : ι → List AnyVariant) : State ι κ where
  mLocalCommGroups := []
  stack := fun _ => []
  created := 0
  sds := sds
  rds := rds

/-! ### What the groups are for -/

/-- The types of the data pins of a layer. -/
def State.types (s : State ι κ) (r : Role) (layer : CLocalComLayer ι κ) : List StringId :=
  buildDataTypeList (s.pins r layer.mFb)

/-- The layers that are registered: those in the stacks of the publishers and subscribers. -/
def State.Registered (s : State ι κ) (r : Role) (layer : CLocalComLayer ι κ) : Prop :=
  (service layer.mFb).role = some r ∧ some layer ∈ s.stack layer.mFb

/-- **The groups are as they should be**: the table is well formed, with exactly the layers that
are registered. -/
structure Inv (s : State ι κ) : Prop where
  wf : Wf s.types s.mLocalCommGroups (s.Registered service)
  owner : ∀ fb layer, some layer ∈ s.stack fb → layer.mFb = fb
  fresh : ∀ fb layer, some layer ∈ s.stack fb → layer.address < s.created

/-- **A send copies** every input to the output of the same position of every subscriber, and
does not write behind the outputs. -/
def Copies (s : State ι κ) (layer : CLocalComLayer ι κ) : Prop :=
  ∃ s' : State ι κ, sendData s layer = some s' ∧
    ∀ comGroup, getComGroup s.mLocalCommGroups layer.mGroupID = some comGroup →
      ∀ runner ∈ comGroup.mSublList, ∀ (i : ℕ) (sd : AnyVariant), (s.sds layer.mFb)[i]? = some sd →
        (s'.rds runner.mFb)[i]? = some sd

/-- What is asked of a step. -/
def Meets (s : State ι κ) (st : Step ι κ) : Prop :=
  Inv service (next service s st) ∧
    ∀ layer, st = .sendData layer → s.Sends service layer → Copies s layer

/-- **What a client or server may send** to the subscribers of a group: the first of its types.
A data pin of what is registered keeps its type. -/
def Fits (s : State ι κ) : Step ι κ → Prop
  | .sendData layer => s.Sends service layer → service layer.mFb = .publisher ∨
      ∀ comGroup, getComGroup s.mLocalCommGroups layer.mGroupID = some comGroup →
        comGroup.mSublList = [] ∨
          buildDataTypeList (s.sds layer.mFb) <+: comGroup.mDataTypes
  | .write r fb i v => (∃ layer, layer.mFb = fb ∧ s.Registered service r layer) →
      ∀ pin, (s.pins r fb)[i]? = some pin →
        (AnyVariant.setValue v).held.getTypeNameID = pin.held.getTypeNameID
  | _ => True

/-! ### Opening and closing -/

section Opening

variable {service} {s : State ι κ} {fb : ι}

omit [DecidableEq ι] in
/-- The table is well formed for the layers that are registered and for their types alone. -/
theorem Wf.congr {types types' : Role → CLocalComLayer ι κ → List StringId}
    {groups : TLocalCommGroupList ι κ} {R R' : Role → CLocalComLayer ι κ → Prop}
    (h : Wf types groups R) (hR : ∀ r l, R r l ↔ R' r l)
    (htypes : ∀ r l, R r l → types' r l = types r l) : Wf types' groups R' where
  sorted := h.sorted
  once := h.once
  named := h.named
  agree := fun g hg r l hl =>
    (htypes r l ((h.mem_iff r l).mpr ⟨g, hg, hl⟩)).trans (h.agree g hg r l hl)
  mem_iff := fun r l => (hR r l).symm.trans (h.mem_iff r l)
  inhabited := h.inhabited

/-- **While a block opens its layers** the ones that are registered are in the stacks, and those
of the other blocks are all of them. -/
structure Opening (service : ι → EComServiceType) (s : State ι κ) (fb : ι)
    (R : Role → CLocalComLayer ι κ → Prop) : Prop where
  wf : Wf s.types s.mLocalCommGroups R
  registered : ∀ r l, R r l → s.Registered service r l
  others : ∀ r l, l.mFb ≠ fb → s.Registered service r l → R r l
  owner : ∀ fb' layer, some layer ∈ s.stack fb' → layer.mFb = fb'
  fresh : ∀ fb' layer, some layer ∈ s.stack fb' → layer.address < s.created

omit [DecidableEq ι] in
theorem Inv.toOpening (h : Inv service s) : Opening service s fb (s.Registered service) :=
  ⟨h.wf, fun _ _ hR => hR, fun _ _ _ hR => hR, h.owner, h.fresh⟩

omit [LinearOrder κ] in
theorem mem_stack_create {x : Option (CLocalComLayer ι κ)} {fb' : ι}
    {l : CLocalComLayer ι κ} :
    some l ∈ (s.create fb x).stack fb' ↔ some l ∈ s.stack fb' ∨ (fb' = fb ∧ some l = x) := by
  show some l ∈ Function.update s.stack fb (s.stack fb ++ [x]) fb' ↔ _
  by_cases hfb : fb' = fb
  · subst hfb
    rw [Function.update_self, List.mem_append, List.mem_singleton, and_iff_right rfl]
  · rw [Function.update_of_ne hfb]
    simp [hfb]

/-- A layer of another kind does not matter. -/
theorem Inv.create_none (h : Inv service s) : Inv service (s.create fb none) := by
  have hmem {fb' : ι} {l : CLocalComLayer ι κ} :
      some l ∈ (s.create fb none).stack fb' ↔ some l ∈ s.stack fb' := by
    rw [mem_stack_create, or_iff_left (by simp)]
  refine ⟨h.wf.congr (fun r l => and_congr_right fun _ => hmem.symm) fun _ _ _ => rfl,
    fun fb' l hl => h.owner fb' l (hmem.mp hl), fun fb' l hl => ?_⟩
  exact (h.fresh fb' l (hmem.mp hl)).trans (Nat.lt_succ_self s.created)

/-- The layer a block creates. -/
theorem Inv.opening (h : Inv service s) (mGroupID : κ) :
    Opening service (s.create fb (some ⟨s.created, fb, mGroupID⟩)) fb (s.Registered service) where
  wf := h.wf.congr (fun _ _ => Iff.rfl) fun _ _ _ => rfl
  registered := fun _ _ hR => ⟨hR.1, mem_stack_create.mpr (.inl hR.2)⟩
  others := fun _ _ hne hR =>
    ⟨hR.1, (mem_stack_create.mp hR.2).resolve_right fun hnew => hne hnew.1⟩
  owner := by
    intro fb' l hl
    rcases mem_stack_create.mp hl with hl | ⟨rfl, hnew⟩
    · exact h.owner fb' l hl
    · rw [Option.some.inj hnew]
  fresh := by
    intro fb' l hl
    rcases mem_stack_create.mp hl with hl | ⟨rfl, hnew⟩
    · exact (h.fresh fb' l hl).trans (Nat.lt_succ_self s.created)
    · rw [Option.some.inj hnew]
      exact Nat.lt_succ_self s.created

/-- **A layer that has been opened** is registered, unless its block is a client or a server. -/
theorem Inv.openConnection (h : Inv service s) {mGroupID : κ} {groups : TLocalCommGroupList ι κ}
    (hopen : openConnection service (s.create fb (some ⟨s.created, fb, mGroupID⟩))
      ⟨s.created, fb, mGroupID⟩ = some groups) :
    Inv service { s.create fb (some ⟨s.created, fb, mGroupID⟩) with
      mLocalCommGroups := groups } := by
  have hstage : Opening service (s.create fb (some ⟨s.created, fb, mGroupID⟩)) fb _ :=
    h.opening mGroupID
  set l : CLocalComLayer ι κ := ⟨s.created, fb, mGroupID⟩ with hl
  refine ⟨?_, hstage.owner, hstage.fresh⟩
  have hnew : ∀ r, ¬s.Registered service r l := fun r hR =>
    absurd (h.fresh fb l hR.2) (Nat.lt_irrefl s.created)
  -- what is in the stacks behind the creation
  have hiff (r : Role) (x : CLocalComLayer ι κ) : (s.create fb (some l)).Registered service r x ↔
      s.Registered service r x ∨ ((service fb).role = some r ∧ x = l) := by
    rw [State.Registered, State.Registered, mem_stack_create, and_or_left]
    refine or_congr_right ⟨?_, ?_⟩
    · rintro ⟨hrole, hfb, heq⟩
      exact ⟨hfb ▸ hrole, Option.some.inj heq⟩
    · rintro ⟨hrole, rfl⟩
      exact ⟨hrole, rfl, rfl⟩
  have hregister (r : Role) (hrole : (service fb).role = some r)
      (hreg : register r s.mLocalCommGroups l.mGroupID l (s.pins r fb) = some groups) :
      Wf s.types groups ((s.create fb (some l)).Registered service) := by
    refine (h.wf.register (hnew r) rfl hreg).congr (fun q x => ?_) fun _ _ _ => rfl
    rw [hiff, hrole, Option.some.injEq, eq_comm (a := r)]
  have hnone (hrole : (service fb).role = none) (hgroups : s.mLocalCommGroups = groups) :
      Wf s.types groups ((s.create fb (some l)).Registered service) := by
    refine hgroups ▸ h.wf.congr (fun q x => ?_) fun _ _ _ => rfl
    rw [hiff, hrole]
    simp
  rw [LocalCom.openConnection] at hopen
  show Wf s.types groups ((s.create fb (some l)).Registered service)
  cases hservice : service fb with
  | server =>
    refine hnone (by rw [hservice]; rfl) ?_
    simp only [hl, hservice] at hopen
    exact Option.some.inj hopen
  | client =>
    refine hnone (by rw [hservice]; rfl) ?_
    simp only [hl, hservice] at hopen
    exact Option.some.inj hopen
  | publisher =>
    refine hregister .publ (by rw [hservice]; rfl) ?_
    simp only [hl, hservice] at hopen
    exact hopen
  | subscriber =>
    refine hregister .subl (by rw [hservice]; rfl) ?_
    simp only [hl, hservice] at hopen
    exact hopen

/-- **The layers of an identifier**: all of them have been opened, or the block is left with
some. -/
theorem Inv.createComstack (h : Inv service s) (commID : List (LayerParams κ)) :
    if (createComstack service s fb commID).2 then
      Inv service (createComstack service s fb commID).1
    else ∃ R, Opening service (createComstack service s fb commID).1 fb R := by
  induction commID generalizing s with
  | nil => exact h
  | cons params commID ih =>
    cases params with
    | other opens =>
      cases opens with
      | true => exact ih h.create_none
      | false => exact ⟨_, h.create_none.toOpening⟩
    | loc mGroupID =>
      rw [LocalCom.createComstack]
      cases hopen : LocalCom.openConnection service
          (s.create fb (some ⟨s.created, fb, mGroupID⟩)) ⟨s.created, fb, mGroupID⟩ with
      | none => exact ⟨_, h.opening mGroupID⟩
      | some groups => exact ih (h.openConnection hopen)

/-- A layer that is closed is not in the list of its block any more. -/
theorem Wf.closeConnection {types : Role → CLocalComLayer ι κ → List StringId}
    {groups : TLocalCommGroupList ι κ} {R : Role → CLocalComLayer ι κ → Prop}
    (h : Wf types groups R) (l : CLocalComLayer ι κ) :
    Wf types (closeConnection service groups l) fun r x =>
      R r x ∧ ¬(r = (service l.mFb).closingRole ∧ x = l) := by
  rw [LocalCom.closeConnection]
  split_ifs with hservice
  · rw [hservice]
    exact h.unregister .publ l
  · have hrole : (service l.mFb).closingRole = .subl := by
      cases hcase : service l.mFb with
      | publisher => exact absurd hcase hservice
      | _ => rfl
    rw [hrole]
    exact h.unregister .subl l

/-- **The layers of a stack that is closed** are not in the table any more. -/
theorem Wf.closeStack {types : Role → CLocalComLayer ι κ → List StringId}
    {groups : TLocalCommGroupList ι κ} {R : Role → CLocalComLayer ι κ → Prop}
    (h : Wf types groups R) (stack : List (Option (CLocalComLayer ι κ))) :
    Wf types (closeStack service groups stack) fun r x =>
      R r x ∧ ¬(r = (service x.mFb).closingRole ∧ some x ∈ stack) := by
  induction stack generalizing groups R with
  | nil =>
    refine h.congr (fun r x => ?_) fun _ _ _ => rfl
    simp
  | cons layer stack ih =>
    cases layer with
    | none =>
      refine (ih h).congr (fun r x => ?_) fun _ _ _ => rfl
      simp
    | some l =>
      refine (ih ((h.closeConnection l).closeConnection l)).congr (fun r x => ?_) fun _ _ _ => rfl
      simp only [List.mem_cons, Option.some.injEq, and_assoc]
      refine and_congr_right fun _ => ?_
      constructor
      · rintro ⟨hne, -, hstack⟩ ⟨rfl, rfl | hmem⟩
        · exact hne ⟨rfl, rfl⟩
        · exact hstack ⟨rfl, hmem⟩
      · intro hall
        have hne : ¬(r = (service l.mFb).closingRole ∧ x = l) := by
          rintro ⟨rfl, rfl⟩
          exact hall ⟨rfl, .inl rfl⟩
        exact ⟨hne, hne, fun hstack => hall ⟨hstack.1, .inr hstack.2⟩⟩

omit [DecidableEq ι] [LinearOrder κ] in
/-- A block that registers its layers closes them in the list they are registered in. -/
theorem closingRole_of_role {t : EComServiceType} {r : Role} (h : t.role = some r) :
    t.closingRole = r := by
  cases t <;> cases r <;> first | rfl | exact absurd h (by decide)

/-- **A block that is closed** leaves nothing behind, whatever it had opened. -/
theorem Opening.closeBlock {R : Role → CLocalComLayer ι κ → Prop} (h : Opening service s fb R) :
    Inv service (closeBlock service s fb) := by
  have hmem {fb' : ι} {l : CLocalComLayer ι κ} :
      some l ∈ (LocalCom.closeBlock service s fb).stack fb' ↔ fb' ≠ fb ∧ some l ∈ s.stack fb' := by
    show some l ∈ Function.update s.stack fb [] fb' ↔ _
    by_cases hfb : fb' = fb
    · subst hfb
      rw [Function.update_self]
      simp
    · rw [Function.update_of_ne hfb, and_iff_right hfb]
  refine ⟨(h.wf.closeStack (s.stack fb)).congr (fun r l => ?_) fun _ _ _ => rfl,
    fun fb' l hl => h.owner fb' l (hmem.mp hl).2, fun fb' l hl => h.fresh fb' l (hmem.mp hl).2⟩
  rw [State.Registered, hmem]
  constructor
  · rintro ⟨hR, hopen⟩
    obtain ⟨hrole, hstack⟩ := h.registered r l hR
    refine ⟨hrole, ?_, hstack⟩
    rintro rfl
    exact hopen ⟨(closingRole_of_role hrole).symm, hstack⟩
  · rintro ⟨hrole, hne, hstack⟩
    exact ⟨h.others r l hne ⟨hrole, hstack⟩, fun hopen => hne (h.owner fb l hopen.2)⟩

/-- A block that opens its layers keeps the groups as they should be. -/
theorem Inv.openBlock (h : Inv service s) (commID : List (LayerParams κ)) :
    Inv service (openBlock service s fb commID) := by
  rw [LocalCom.openBlock]
  split_ifs with hstack
  · have hopened : if (LocalCom.createComstack service s fb commID).2 then _ else _ :=
      h.createComstack commID
    show Inv service (if (LocalCom.createComstack service s fb commID).2 then _ else _)
    split_ifs at hopened ⊢ with hok
    · exact hopened
    · obtain ⟨R, hopening⟩ := hopened
      exact hopening.closeBlock
  · exact h

end Opening

/-! ### Copying -/

section Copying

omit [DecidableEq ι] [LinearOrder κ]

theorem setRDs_of_le {rds sds : List AnyVariant} (h : sds.length ≤ rds.length) :
    setRDs rds sds = some (sds ++ rds.drop sds.length) := by
  induction sds generalizing rds with
  | nil => cases rds <;> rfl
  | cons sd sds ih =>
    rcases rds with _ | ⟨rd, rds⟩
    · exact absurd h (by simp)
    · rw [setRDs, ih (Nat.le_of_succ_le_succ h), AnyVariant.setValue_held]
      rfl

theorem length_le_of_setRDs {rds sds rds' : List AnyVariant} (h : setRDs rds sds = some rds') :
    sds.length ≤ rds.length := by
  induction sds generalizing rds rds' with
  | nil => exact Nat.zero_le _
  | cons sd sds ih =>
    rcases rds with _ | ⟨rd, rds⟩
    · exact absurd h (by simp [setRDs])
    · obtain ⟨rest, hrest, -⟩ := Option.map_eq_some_iff.mp h
      exact Nat.succ_le_succ (ih hrest)

variable [DecidableEq ι]

/-- **The loop over the subscribers** comes to its end if all of them have enough outputs, and
stores the inputs at every one. -/
theorem setEachRDs_of_le {sds : List AnyVariant} {subs : List (CLocalComLayer ι κ)}
    {rds : ι → List AnyVariant} (h : ∀ sub ∈ subs, sds.length ≤ (rds sub.mFb).length) :
    ∃ rds', setEachRDs sds subs rds = some rds' ∧
      (∀ sub ∈ subs, rds' sub.mFb = sds ++ (rds sub.mFb).drop sds.length) ∧
      ∀ fb, (∀ sub ∈ subs, sub.mFb ≠ fb) → rds' fb = rds fb := by
  induction subs generalizing rds with
  | nil => exact ⟨rds, rfl, fun _ h => absurd h List.not_mem_nil, fun _ _ => rfl⟩
  | cons sub subs ih =>
    obtain ⟨hsub, hsubs⟩ := List.forall_mem_cons.mp h
    set stored := sds ++ (rds sub.mFb).drop sds.length with hstored
    have hself : Function.update rds sub.mFb stored sub.mFb = stored := Function.update_self ..
    have hlen : ∀ x ∈ subs, sds.length ≤ (Function.update rds sub.mFb stored x.mFb).length := by
      intro x hx
      by_cases hfb : x.mFb = sub.mFb
      · rw [hfb, hself, hstored, List.length_append]
        exact Nat.le_add_right _ _
      · rw [Function.update_of_ne hfb]
        exact hsubs x hx
    obtain ⟨rds', hrun, hin, hout⟩ := ih hlen
    -- a subscriber that is written to again has the same outputs
    have hagain : sds ++ stored.drop sds.length = stored := by rw [hstored, List.drop_left]
    have hfirst : rds' sub.mFb = stored := by
      by_cases hex : ∃ x ∈ subs, x.mFb = sub.mFb
      · obtain ⟨x, hx, hfb⟩ := hex
        have hx' := hin x hx
        rwa [hfb, hself, hagain] at hx'
      · rw [hout sub.mFb fun x hx hfb => hex ⟨x, hx, hfb⟩, hself]
    refine ⟨rds', ?_, List.forall_mem_cons.mpr ⟨hfirst, fun x hx => ?_⟩, fun fb hfb => ?_⟩
    · rw [setEachRDs, List.foldlM_cons, setRDs_of_le hsub]
      exact hrun
    · rw [hin x hx]
      by_cases hfb : x.mFb = sub.mFb
      · rw [hfb, hself, hagain]
      · rw [Function.update_of_ne hfb]
    · obtain ⟨hne, hnes⟩ := List.forall_mem_cons.mp hfb
      rw [hout fb hnes, Function.update_of_ne hne.symm]

theorem length_le_of_setEachRDs {sds : List AnyVariant} {subs : List (CLocalComLayer ι κ)}
    {rds rds' : ι → List AnyVariant} (h : setEachRDs sds subs rds = some rds') :
    ∀ sub ∈ subs, sds.length ≤ (rds sub.mFb).length := by
  induction subs generalizing rds with
  | nil => exact fun _ h => absurd h List.not_mem_nil
  | cons sub subs ih =>
    rw [setEachRDs, List.foldlM_cons] at h
    obtain ⟨rds₁, hrds₁, hrest⟩ := Option.bind_eq_some_iff.mp h
    obtain ⟨stored, hstored, rfl⟩ := Option.map_eq_some_iff.mp hrds₁
    have hsub := length_le_of_setRDs hstored
    rw [setRDs_of_le hsub] at hstored
    refine List.forall_mem_cons.mpr ⟨hsub, fun x hx => ?_⟩
    have hx' := ih hrest x hx
    by_cases hfb : x.mFb = sub.mFb
    · rw [hfb]
      exact hsub
    · rwa [Function.update_of_ne hfb] at hx'

/-- Outputs in which the first types of them are stored keep their types. -/
theorem buildDataTypeList_stored {sds rds : List AnyVariant}
    (h : buildDataTypeList sds <+: buildDataTypeList rds) :
    buildDataTypeList (sds ++ rds.drop sds.length) = buildDataTypeList rds := by
  obtain ⟨rest, hrest⟩ := h
  have hlen : (buildDataTypeList sds).length = sds.length := List.length_map ..
  have hsplit : buildDataTypeList (sds ++ rds.drop sds.length) =
      buildDataTypeList sds ++ (buildDataTypeList rds).drop sds.length := by
    rw [buildDataTypeList, buildDataTypeList, buildDataTypeList, List.map_append, List.map_drop]
  rw [hsplit, ← hrest, ← hlen, List.drop_left]

/-- A pin that gets another value keeps the list of types if and only if it keeps its own. -/
theorem buildDataTypeList_modify_iff (pins : List AnyVariant) (i : ℕ) (x : AnyVariant) :
    buildDataTypeList (pins.modify i fun _ => x) = buildDataTypeList pins ↔
      ∀ pin, pins[i]? = some pin → x.held.getTypeNameID = pin.held.getTypeNameID := by
  induction pins generalizing i with
  | nil => simp
  | cons pin pins ih =>
    cases i with
    | zero => simp [buildDataTypeList]
    | succ i =>
      rw [List.modify_succ_cons, List.getElem?_cons_succ, ← ih i]
      exact List.cons_inj_right _

end Copying

/-! ### Sends and writes -/

section Steps

variable {service} {s : State ι κ}

omit [DecidableEq ι] in
/-- **The group of a publisher** has the types of its inputs. -/
theorem Inv.types_of_publisher (h : Inv service s) {l : CLocalComLayer ι κ}
    (hservice : service l.mFb = .publisher) (hstack : some l ∈ s.stack l.mFb)
    {g : CLocalCommGroup ι κ} (hg : getComGroup s.mLocalCommGroups l.mGroupID = some g) :
    buildDataTypeList (s.sds l.mFb) = g.mDataTypes := by
  obtain ⟨hmem, hname⟩ := (Table.find?_eq_some h.wf.sorted).mp hg
  obtain ⟨g', hg', hl⟩ := (h.wf.mem_iff .publ l).mp ⟨by rw [hservice]; rfl, hstack⟩
  have hname' := h.wf.named g' hg' .publ l hl
  obtain rfl := h.wf.sorted.eq_of_key hg' hmem (hname'.symm.trans hname.symm)
  exact h.wf.agree g' hg' .publ l hl

/-- **A send** is as it should be if and only if the inputs have the first types of the group, or
there is nobody to send to. -/
theorem meets_sendData_iff (h : Inv service s) {l : CLocalComLayer ι κ}
    {g : CLocalCommGroup ι κ} (hsends : s.Sends service l)
    (hg : getComGroup s.mLocalCommGroups l.mGroupID = some g) :
    Inv service (next service s (.sendData l)) ∧ Copies s l ↔
      g.mSublList = [] ∨ buildDataTypeList (s.sds l.mFb) <+: g.mDataTypes := by
  have hmem := ((Table.find?_eq_some h.wf.sorted).mp hg).1
  have hsend : sendData s l =
      (setEachRDs (s.sds l.mFb) g.mSublList s.rds).map fun rds => { s with rds := rds } := by
    rw [sendData, hg]
  have hnext : next service s (.sendData l) = (sendData s l).getD s := if_pos hsends
  constructor
  · rintro ⟨hinv, s', hs', hcopies⟩
    rcases hsubs : g.mSublList with _ | ⟨sub, subs⟩
    · exact .inl rfl
    have hsub : sub ∈ g.mSublList := hsubs ▸ List.mem_cons_self
    rw [hnext, hs', Option.getD_some] at hinv
    rw [hsend] at hs'
    obtain ⟨rds, hrds, rfl⟩ := Option.map_eq_some_iff.mp hs'
    obtain ⟨rds', hrds', hin, -⟩ := setEachRDs_of_le (length_le_of_setEachRDs hrds)
    obtain rfl := Option.some.inj (hrds.symm.trans hrds')
    have hagree : buildDataTypeList (rds sub.mFb) = g.mDataTypes :=
      hinv.wf.agree g hmem .subl sub hsub
    refine .inr ?_
    rw [← hagree, hin sub hsub]
    exact (List.prefix_append _ _).map _
  · intro hfits
    have hagree : ∀ sub ∈ g.mSublList, buildDataTypeList (s.rds sub.mFb) = g.mDataTypes :=
      fun sub hsub => h.wf.agree g hmem .subl sub hsub
    have hleading : ∀ sub ∈ g.mSublList,
        buildDataTypeList (s.sds l.mFb) <+: buildDataTypeList (s.rds sub.mFb) := by
      intro sub hsub
      rw [hagree sub hsub]
      refine hfits.resolve_left fun hnil => ?_
      exact absurd (hnil ▸ hsub) List.not_mem_nil
    have hlen : ∀ sub ∈ g.mSublList, (s.sds l.mFb).length ≤ (s.rds sub.mFb).length := by
      intro sub hsub
      have hle := (hleading sub hsub).length_le
      rwa [buildDataTypeList, buildDataTypeList, List.length_map, List.length_map] at hle
    obtain ⟨rds, hrds, hin, hout⟩ := setEachRDs_of_le hlen
    have hs' : sendData s l = some { s with rds := rds } := by
      rw [hsend, hrds]
      rfl
    refine ⟨?_, _, hs', fun g' hg' sub hsub i sd hsd => ?_⟩
    · rw [hnext, hs', Option.getD_some]
      refine ⟨h.wf.congr (fun _ _ => Iff.rfl) fun r x hx => ?_, h.owner, h.fresh⟩
      cases r with
      | publ => rfl
      | subl =>
        show buildDataTypeList (rds x.mFb) = buildDataTypeList (s.rds x.mFb)
        by_cases hex : ∃ sub ∈ g.mSublList, sub.mFb = x.mFb
        · obtain ⟨sub, hsub, hfb⟩ := hex
          rw [← hfb, hin sub hsub]
          exact buildDataTypeList_stored (hleading sub hsub)
        · rw [hout x.mFb fun sub hsub hfb => hex ⟨sub, hsub, hfb⟩]
    · obtain rfl := Option.some.inj (hg.symm.trans hg')
      show (rds sub.mFb)[i]? = some sd
      rw [hin sub hsub]
      exact List.getElem?_append_left (List.getElem?_eq_some_iff.mp hsd).1 ▸ hsd

omit [LinearOrder κ] in
theorem pins_write_self (r : Role) (fb : ι) (i : ℕ) (v : Datum) :
    (s.write r fb i v).pins r =
      Function.update (s.pins r) fb ((s.pins r fb).modify i fun _ => .setValue v) := by
  cases r <;> rfl

omit [LinearOrder κ] in
theorem pins_write_of_ne {r q : Role} (h : q ≠ r) (fb : ι) (i : ℕ) (v : Datum) :
    (s.write r fb i v).pins q = s.pins q := by
  cases r <;> cases q <;> first | exact absurd rfl h | rfl

omit [LinearOrder κ] in
/-- A write changes nothing but the data pins. -/
theorem write_eq (r : Role) (fb : ι) (i : ℕ) (v : Datum) :
    (s.write r fb i v).mLocalCommGroups = s.mLocalCommGroups ∧
      (s.write r fb i v).stack = s.stack ∧ (s.write r fb i v).created = s.created := by
  cases r <;> exact ⟨rfl, rfl, rfl⟩

/-- **A write** is as it should be if and only if a pin of what is registered keeps its type. -/
theorem inv_write_iff (h : Inv service s) (r : Role) (fb : ι) (i : ℕ) (v : Datum) :
    Inv service (s.write r fb i v) ↔ Fits service s (.write r fb i v) := by
  obtain ⟨hgroups, hstack, hcreated⟩ := write_eq (s := s) r fb i v
  have hregistered : (s.write r fb i v).Registered service = s.Registered service := by
    funext q l
    rw [State.Registered, State.Registered, hstack]
  have htypes {l : CLocalComLayer ι κ} (hfb : l.mFb = fb) : (s.write r fb i v).types r l =
      buildDataTypeList ((s.pins r fb).modify i fun _ => .setValue v) := by
    rw [State.types, pins_write_self, hfb, Function.update_self]
  constructor
  · rintro hinv ⟨l, hfb, hl⟩
    obtain ⟨g, hg, hmem⟩ := (h.wf.mem_iff r l).mp hl
    have hbefore := h.wf.agree g hg r l hmem
    have hafter := hinv.wf.agree g (hgroups ▸ hg) r l hmem
    rw [htypes hfb, ← hbefore, State.types, hfb] at hafter
    exact (buildDataTypeList_modify_iff _ _ _).mp hafter
  · intro hfits
    have hwf : Wf (s.write r fb i v).types s.mLocalCommGroups (s.Registered service) := by
      refine h.wf.congr (fun _ _ => Iff.rfl) fun q l hl => ?_
      by_cases hq : q = r
      · subst hq
        by_cases hfb : l.mFb = fb
        · rw [htypes hfb, State.types, hfb]
          exact (buildDataTypeList_modify_iff _ _ _).mpr (hfits ⟨l, hfb, hl⟩)
        · rw [State.types, State.types, pins_write_self, Function.update_of_ne hfb]
      · rw [State.types, State.types, pins_write_of_ne hq]
    refine ⟨?_, ?_, ?_⟩
    · rw [hgroups, hregistered]
      exact hwf
    · rw [hstack]
      exact h.owner
    · rw [hstack, hcreated]
      exact h.fresh

/-- **One step** is as it should be exactly where its data fits. -/
theorem meets_step_iff (h : Inv service s) (st : Step ι κ) :
    Meets service s st ↔ Fits service s st := by
  cases st with
  | openBlock fb commID => exact iff_of_true ⟨h.openBlock commID, fun _ h => nomatch h⟩ trivial
  | closeBlock fb => exact iff_of_true ⟨h.toOpening.closeBlock, fun _ h => nomatch h⟩ trivial
  | write r fb i v =>
    rw [← inv_write_iff h]
    exact and_iff_left fun _ h => nomatch h
  | sendData l =>
    by_cases hsends : s.Sends service l
    · have hmeets : Meets service s (.sendData l) ↔
          Inv service (next service s (.sendData l)) ∧ Copies s l :=
        and_congr_right fun _ => ⟨fun hall => hall l rfl hsends, fun hcopies _ heq _ =>
          Step.sendData.inj heq ▸ hcopies⟩
      rw [hmeets]
      cases hg : getComGroup s.mLocalCommGroups l.mGroupID with
      | none =>
        have hsend : sendData s l = some s := by rw [sendData, hg]
        have hnext : next service s (.sendData l) = s := by
          rw [next, if_pos hsends, hsend, Option.getD_some]
        refine iff_of_true ⟨by rw [hnext]; exact h, s, hsend, fun g hg' => ?_⟩
          fun _ => .inr fun g hg' => ?_
        · exact absurd (hg.symm.trans hg') (by simp)
        · exact absurd (hg.symm.trans hg') (by simp)
      | some g =>
        rw [meets_sendData_iff h hsends hg]
        constructor
        · rintro hfits -
          refine .inr fun g' hg' => ?_
          rwa [← Option.some.inj (hg.symm.trans hg')]
        · intro hfits
          rcases hfits hsends with hservice | hall
          · exact .inr (h.types_of_publisher hservice hsends.1 hg ▸ List.prefix_rfl)
          · exact hall g hg
    · have hnext : next service s (.sendData l) = s := if_neg hsends
      refine iff_of_true ⟨by rw [hnext]; exact h, fun l' heq hsends' => ?_⟩
        fun hsends' => absurd hsends' hsends
      exact absurd (Step.sendData.inj heq ▸ hsends') hsends

end Steps

omit [DecidableEq ι] in
theorem inv_initial (sds rds : ι → List AnyVariant) :
    Inv service (initial sds rds : State ι κ) where
  wf := by
    refine ⟨⟨List.Pairwise.nil, nofun, nofun, nofun, fun r l => ?_⟩, nofun⟩
    exact iff_of_false (fun hR => absurd hR.2 List.not_mem_nil) nofun
  owner := fun _ _ hl => absurd hl List.not_mem_nil
  fresh := fun _ _ hl => absurd hl List.not_mem_nil

/-- **A run keeps the groups as they should be and copies every input on each send** if and only
if what is sent and written in it fits. -/
theorem keeps_groups_iff (sds rds : ι → List AnyVariant) (steps : List (Step ι κ)) :
    Runs.Each (next service) (Meets service) (initial sds rds) steps ↔
      Runs.Each (next service) (Fits service) (initial sds rds) steps :=
  have hgood : ∀ s st, Inv service s → Meets service s st → Inv service (next service s st) :=
    fun _ _ _ hmeets => hmeets.1
  have hstep : ∀ s st, Inv service s → (Meets service s st ↔ Fits service s st) :=
    fun _ st h => meets_step_iff h st
  Runs.each_congr hgood hstep (inv_initial service sds rds) steps

/-- A client with two inputs sends to a subscriber with one output. -/
theorem not_keeps_groups_client :
    ¬∀ (service : Bool → EComServiceType) (sds rds : Bool → List AnyVariant)
      (steps : List (Step Bool ℕ)),
      Runs.Each (next service) (Meets service) (initial sds rds) steps := by
  intro h
  let service : Bool → EComServiceType := fun client => if client then .client else .subscriber
  let sds : Bool → List AnyVariant := fun client => if client then [.initial, .initial] else []
  let rds : Bool → List AnyVariant := fun client => if client then [] else [.initial]
  let steps : List (Step Bool ℕ) :=
    [.openBlock false [.loc 0], .openBlock true [.loc 0], .sendData ⟨1, true, 0⟩]
  have hsends : (Runs.run (next service) (initial sds rds) (steps.take 2)).Sends service
      ⟨1, true, 0⟩ := by decide
  obtain ⟨s', hs', -⟩ := (h service sds rds steps 2 _ rfl).2 ⟨1, true, 0⟩ rfl hsends
  have hnone : sendData (Runs.run (next service) (initial sds rds) (steps.take 2))
      ⟨1, true, 0⟩ = none := rfl
  exact absurd (hnone.symm.trans hs') (by simp)

end LocalCom

end Forte
