import Forte.Datatypes.AnyVariant
import Forte.Datatypes.Endianess
import Forte.Lib.Runs

/-!
# Sending through an endian channel

A `CommunicationFB` hands its inputs `SD_1`, `SD_2`, … to its channel, and an `EndianChannel`
passes them on to the channel below in the configured byte order
(`Forte.EndianChannel.convert`). What is handed over are the variables of the block, and they
are converted where they are. An input that is connected is read again at the next event; one
that is not keeps the value in the other byte order, and the next send converts it back.

`Forte.EndianChannel.sends_image_iff` says which runs of a block leave its inputs as they are and
send the image of their values each time: those that send in the native byte order only, or
values that are the same in both.
-/

namespace Forte

/-- The value of a variable. -/
def AnyVariant.value (x : AnyVariant) : ValueTree := x.held.value

namespace EndianChannel

/-! ### The channel -/

/-- `std::endian`. -/
inductive Endian
  | little | big
  deriving DecidableEq

/-- The byte order in the configuration string of a channel. -/
def parseEndian (native : Endian) (paConfigString : Text) : Option Endian :=
  if paConfigString = [] ∨ paConfigString = text "native" then some native
  else if paConfigString = text "big" then some .big
  else if paConfigString = text "little" then some .little
  else none

/-- The conversion of one variable: arrays and structs in place, and the others by an
assignment. -/
def swapHeld : Datum → Option (Datum × List ℕ)
  | .array lowerBound elements => swapEndianessInplace (.array lowerBound elements)
  | .struct structTypeName elementNames members =>
    swapEndianessInplace (.struct structTypeName elementNames members)
  | v => swapEndianess v

/-- `EndianChannel::convert`. The variables that are returned are the ones handed over. -/
def convert (native mEndian : Endian) (paData : List AnyVariant) : Option (List AnyVariant) :=
  if mEndian = native then some paData
  else (convertAll swapHeld (paData.map (·.held))).map fun r => r.1.map AnyVariant.setValue

/-! ### The function block -/

/-- A `CommunicationFB` with the byte order of its channel while that is open. -/
structure State where
  mGenDIs : List AnyVariant
  mChannel : Option Endian

/-- A block with a number of inputs. -/
def initial (numGenDIs : ℕ) : State where
  mGenDIs := List.replicate numGenDIs .initial
  mChannel := none

/-- `readInputData`, where a connection has a value for an input; an input that is not
connected, or is forced, is left alone. -/
def readInputData (mGenDIs : List AnyVariant) (conns : ℕ → Option Datum) : List AnyVariant :=
  mGenDIs.mapIdx fun i x => match conns i with
    | some v => .setValue v
    | none => x

/-- `CommunicationFB::send`: what is passed to the channel below, if anything, and the variables
after it. There is no result where a conversion does not come to an end. -/
def send (native : Endian) (s : State) (qi : Bool) :
    Option (Option (List AnyVariant) × List AnyVariant) :=
  match qi, s.mChannel with
  | true, some mEndian => (convert native mEndian s.mGenDIs).map fun paData => (some paData, paData)
  | _, _ => some (none, s.mGenDIs)

/-- What happens to a block. -/
inductive Step
  /-- Its `ID` opens an endian channel; `lower` says if the rest of the channels opens. -/
  | openChannel (paConfigString : Text) (lower : Bool)
  | closeChannel
  /-- An input is written from outside, as an initial value or by a command. -/
  | write (i : ℕ) (v : Datum)
  /-- The event `REQ`, with the value of `QI` and those at the connections of the inputs. -/
  | request (qi : Bool) (conns : ℕ → Option Datum)

/-- The inputs are read for an event. -/
def State.read (s : State) (conns : ℕ → Option Datum) : State :=
  { s with mGenDIs := readInputData s.mGenDIs conns }

/-- The block after a step. One that does not come to the end of a send stays in it. -/
def next (native : Endian) (s : State) : Step → State
  | .openChannel paConfigString lower =>
    { s with mChannel := if lower then parseEndian native paConfigString else none }
  | .closeChannel => { s with mChannel := none }
  | .write i v => { s with mGenDIs := s.mGenDIs.modify i fun _ => .setValue v }
  | .request qi conns =>
    match send native (s.read conns) qi with
    | some r => { s with mGenDIs := r.2 }
    | none => s.read conns

/-! ### What a send is for -/

/-- The image of a value in a byte order. -/
def image (native mEndian : Endian) (v : ValueTree) : ValueTree :=
  if mEndian = native then v else v.reversed

/-- **What is asked of a send**: the inputs have the same values before and after it, and what is
passed on is the image of these values. -/
def Meets (native : Endian) (s : State) : Step → Prop
  | .request qi conns =>
    ∃ passed after, send native (s.read conns) qi = some (passed, after) ∧
      after.map AnyVariant.value = (s.read conns).mGenDIs.map AnyVariant.value ∧
      ∀ paData, passed = some paData → ∀ mEndian, s.mChannel = some mEndian →
        paData.map AnyVariant.value =
          (s.read conns).mGenDIs.map fun x => image native mEndian x.value
  | _ => True

/-- A variable whose value is the same in both byte orders and is kept by the conversion. -/
def IsSymmetric (x : AnyVariant) : Prop := x.value.reversed = x.value ∧ Kept x.held

/-- **Sends without an effect on the inputs**: of nothing, in the native byte order, or of
values that are the same in both. -/
def Harmless (native : Endian) (s : State) : Step → Prop
  | .request qi conns =>
    qi = false ∨ (∀ mEndian, s.mChannel = some mEndian → mEndian = native) ∨
      ∀ x ∈ (s.read conns).mGenDIs, IsSymmetric x
  | _ => True

/-! ### The conversion of the variables -/

/-- Outside of trees the two conversions are the same. -/
theorem swapHeld_eq {v : Datum} (h : IsAlternative v) :
    swapHeld v = swapEntry (swapPlain 8) v := by
  cases v with
  | string bound storage =>
    obtain rfl : bound = none := h
    rfl
  | _ => rfl

/-- The conversion of an alternative is one. -/
theorem isAlternative_of_swapEntry {v w : Datum} {accessed : List ℕ} (h : IsAlternative v)
    (hw : swapEntry (swapPlain 8) v = some (w, accessed)) : IsAlternative w := by
  cases v with
  | any w => exact h.elim
  | string bound storage =>
    cases hw
    exact h
  | duration t data => cases t <;> cases hw <;> trivial
  | wstring storage =>
    obtain ⟨r, -, heq⟩ := Option.map_eq_some_iff.mp hw
    obtain ⟨rfl, -⟩ := Prod.mk.inj heq
    trivial
  | array lowerBound es =>
    rw [swapEntry] at hw
    split_ifs at hw
    obtain ⟨r, -, heq⟩ := Option.map_eq_some_iff.mp hw
    obtain ⟨rfl, -⟩ := Prod.mk.inj heq
    trivial
  | struct name names ms =>
    obtain ⟨r, -, heq⟩ := Option.map_eq_some_iff.mp hw
    obtain ⟨rfl, -⟩ := Prod.mk.inj heq
    trivial
  | _ =>
    cases hw
    trivial

/-- The variables after a conversion hold what comes out of it. -/
theorem held_of_convertAll {xs : List AnyVariant} {ws : List Datum} {accessed : List ℕ}
    (h : convertAll swapHeld (xs.map (·.held)) = some (ws, accessed)) :
    (ws.map AnyVariant.setValue).map AnyVariant.value = ws.map Datum.value := by
  induction xs generalizing ws accessed with
  | nil =>
    obtain ⟨rfl, -⟩ := Prod.mk.inj (Option.some.inj h)
    rfl
  | cons x xs ih =>
    obtain ⟨r, hr, hrest⟩ := Option.bind_eq_some_iff.mp h
    obtain ⟨rs, hrs, heq⟩ := Option.map_eq_some_iff.mp hrest
    obtain ⟨rfl, -⟩ := Prod.mk.inj heq
    rw [swapHeld_eq x.isAlternative] at hr
    have hheld : (AnyVariant.setValue r.1).held = r.1 :=
      AnyVariant.held_setValue (isAlternative_of_swapEntry x.isAlternative hr)
    rw [List.map_cons, List.map_cons, List.map_cons, ih hrs, AnyVariant.value, hheld]

/-- **The variables are kept and are their own image** if and only if all of them are
symmetric. -/
theorem convert_keeps_iff {native mEndian : Endian} (h : mEndian ≠ native)
    (xs : List AnyVariant) :
    (∃ ys, convert native mEndian xs = some ys ∧
        ys.map AnyVariant.value = xs.map AnyVariant.value ∧
        ys.map AnyVariant.value = xs.map fun x => image native mEndian x.value) ↔
      ∀ x ∈ xs, IsSymmetric x := by
  have himage : (xs.map fun x => image native mEndian x.value) =
      xs.map fun x => x.value.reversed :=
    List.map_congr_left fun x _ => if_neg h
  have hvalues : Datum.values (xs.map (·.held)) = xs.map AnyVariant.value := by
    rw [values_eq_map, List.map_map]
    rfl
  have hkept : (∀ v ∈ xs.map (·.held), Keeps swapHeld v) ↔ ∀ x ∈ xs, Keeps swapHeld x.held :=
    List.forall_mem_map
  rw [himage, convert, if_neg h]
  constructor
  · rintro ⟨ys, hys, hsame, hrev⟩
    obtain ⟨⟨ws, accessed⟩, hws, rfl⟩ := Option.map_eq_some_iff.mp hys
    rw [held_of_convertAll hws] at hsame hrev
    have hsymm : ∀ x ∈ xs, x.value.reversed = x.value :=
      List.map_inj_left.mp (hrev.symm.trans hsame)
    have hall := (convertAll_keeps_iff _).mp
      ⟨ws, accessed, hws, by rw [values_eq_map, hsame, hvalues]⟩
    intro x hx
    refine ⟨hsymm x hx, (keeps_iff x.held (hsymm x hx)).mp ?_⟩
    obtain ⟨w, accessed, hw, hvalue⟩ := hkept.mp hall x hx
    exact ⟨w, accessed, (swapHeld_eq x.isAlternative).symm.trans hw, hvalue⟩
  · intro hall
    have hkeeps : ∀ x ∈ xs, Keeps swapHeld x.held := fun x hx => by
      obtain ⟨w, accessed, hw, hvalue⟩ := (keeps_iff x.held (hall x hx).1).mpr (hall x hx).2
      exact ⟨w, accessed, (swapHeld_eq x.isAlternative).trans hw, hvalue⟩
    obtain ⟨ws, accessed, hws, hsame⟩ := (convertAll_keeps_iff _).mpr (hkept.mpr hkeeps)
    rw [values_eq_map, hvalues] at hsame
    refine ⟨ws.map AnyVariant.setValue, by rw [hws]; rfl, ?_, ?_⟩
    · rw [held_of_convertAll hws, hsame]
    · rw [held_of_convertAll hws, hsame]
      exact List.map_congr_left fun x hx => (hall x hx).1.symm

/-! ### Runs -/

/-- **One send** is as it should be exactly where it is harmless. -/
theorem meets_iff (native : Endian) (s : State) (st : Step) :
    Meets native s st ↔ Harmless native s st := by
  rcases st with ⟨_, _⟩ | _ | ⟨_, _⟩ | ⟨qi, conns⟩
  · exact Iff.rfl
  · exact Iff.rfl
  · exact Iff.rfl
  rcases qi with _ | _
  · exact iff_of_true ⟨none, _, rfl, rfl, fun _ h => absurd h (by simp)⟩ (.inl rfl)
  rcases hchannel : s.mChannel with _ | mEndian
  · refine iff_of_true ⟨none, (s.read conns).mGenDIs, ?_, rfl, fun _ h => absurd h (by simp)⟩
      (.inr (.inl fun _ h => absurd (hchannel.symm.trans h) (by simp)))
    simp only [send, State.read, hchannel]
  have hsend : send native (s.read conns) true =
      (convert native mEndian (s.read conns).mGenDIs).map fun paData => (some paData, paData) := by
    simp only [send, State.read, hchannel]
  by_cases hnative : mEndian = native
  · have hconvert : convert native mEndian (s.read conns).mGenDIs =
        some (s.read conns).mGenDIs := if_pos hnative
    refine iff_of_true ⟨some (s.read conns).mGenDIs, (s.read conns).mGenDIs, ?_, rfl, ?_⟩
      (.inr (.inl fun e he => ?_))
    · rw [hsend, hconvert]
      rfl
    · rintro paData ⟨⟩ e he
      obtain rfl : mEndian = e := Option.some.inj (hchannel.symm.trans he)
      exact List.map_congr_left fun x _ => (if_pos hnative).symm
    · rw [← Option.some.inj (hchannel.symm.trans he)]
      exact hnative
  · have hharmless : Harmless native s (.request true conns) ↔
        ∀ x ∈ (s.read conns).mGenDIs, IsSymmetric x := by
      refine ⟨fun h => ?_, fun h => .inr (.inr h)⟩
      rcases h with hqi | hall | hsymm
      · exact absurd hqi (by simp)
      · exact absurd (hall mEndian hchannel) hnative
      · exact hsymm
    rw [hharmless, ← convert_keeps_iff hnative, Meets, hsend]
    constructor
    · rintro ⟨passed, after, heq, hsame, himage⟩
      obtain ⟨ys, hys, hpair⟩ := Option.map_eq_some_iff.mp heq
      obtain ⟨rfl, rfl⟩ := Prod.mk.inj hpair
      exact ⟨ys, hys, hsame, himage ys rfl mEndian hchannel⟩
    · rintro ⟨ys, hys, hsame, himage⟩
      refine ⟨some ys, ys, by rw [hys]; rfl, hsame, ?_⟩
      rintro paData ⟨⟩ e he
      obtain rfl : mEndian = e := Option.some.inj (hchannel.symm.trans he)
      exact himage

/-- **A run keeps the inputs at every send and sends their image each time** if and only if
each of its sends is harmless. -/
theorem sends_image_iff (native : Endian) (s : State) (steps : List Step) :
    Runs.Each (next native) (Meets native) s steps ↔
      Runs.Each (next native) (Harmless native) s steps :=
  have hgood : ∀ s st, True → Meets native s st → True := fun _ _ _ _ => trivial
  have hstep : ∀ s st, True → (Meets native s st ↔ Harmless native s st) :=
    fun s st _ => meets_iff native s st
  Runs.each_congr hgood hstep trivial steps

/-- A constant at an input that is not connected is in the other byte order after it has been
sent, where the channel has not the byte order of the host. -/
theorem not_sends_image_constant :
    ¬∀ (native : Endian) (numGenDIs : ℕ) (steps : List Step),
      Runs.Each (next native) (Meets native) (initial numGenDIs) steps := by
  intro h
  have hmeets := h .little 1
    [.write 0 (.number .uint 1), .openChannel (text "big") true, .request true fun _ => none]
    2 _ rfl
  rcases (meets_iff _ _ _).mp hmeets with hqi | hnative | hsymm
  · exact absurd hqi (by decide)
  · exact absurd (hnative .big rfl) (by decide)
  · have hbytes := (hsymm ⟨.number .uint 1, trivial⟩ (List.mem_singleton.mpr rfl)).1
    exact absurd (ValueTree.elementary.inj hbytes).2 (by decide)

end EndianChannel

end Forte
