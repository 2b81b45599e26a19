import Forte.Communication.LayerIds

/-!
# Opening a communication stack

`CBaseCommFB::openConnection` builds the stack of layers its `ID` names, from the top to the
bottom, and opens each layer as soon as it has been created. When a layer is missing or cannot
be opened, the loop ends with what has been built so far, and the caller closes it: the top
layer is closed and deleted, and the destructor of a layer closes and deletes the one below.

Which layers there are and whether they can be opened is left to the environment, which may
answer as it likes every time. What happens to the layers is written to a log.
-/

namespace Forte.ComInfra

/-- `EComResponse`. -/
inductive EComResponse
  | nothing | initOk | processDataOk | initInvalidId | initTerminated | processDataInvalidObject
  | processDataDataTypeError | processDataInhibited | processDataNoSocket
  | processDataSendFailed | processDataRecvFaild
  deriving DecidableEq, Repr

/-- What happens to a layer. -/
inductive LayerEvent
  | create (layer : ℕ) (layerID : Text)
  | openConnection (layer : ℕ) (layerParams : Text) (response : EComResponse)
  | closeConnection (layer : ℕ)
  | delete (layer : ℕ)
  deriving DecidableEq, Repr

/-- The environment, which knows all that has happened. -/
structure Environment where
  /-- Whether `ComLayerManager::create` returns a layer. -/
  create : List LayerEvent → Text → Bool
  /-- What `openConnection` of a layer answers. -/
  openConnection : List LayerEvent → ℕ → Text → EComResponse

/-- A communication function block: the layers of its stack from `mTopOfComStack` down to the
bottom, and the log. -/
structure CommFB where
  comStack : List ℕ
  events : List LayerEvent

namespace CommFB

/-- A layer that is created, put below the others and opened. -/
def addLayer (env : Environment) (fb : CommFB) (layerID layerParams : Text) :
    EComResponse × CommFB :=
  let newLayer := fb.events.length
  let created := fb.events ++ [.create newLayer layerID]
  let response := env.openConnection created newLayer layerParams
  (response, {
    comStack := fb.comStack ++ [newLayer]
    events := created ++ [.openConnection newLayer layerParams response] })

/-- The loop of `createComstack`. There is no result when the fuel is used up. -/
def createComstackLoop (env : Environment) :
    ℕ → CommFB → EComResponse → List UInt8 → ℕ → Option (EComResponse × CommFB)
  | 0, _, _, _, _ => none
  | fuel + 1, fb, retVal, buffer, commID =>
    if buffer.getD commID 0 = 0 then some (retVal, fb)
    else
      match extractLayerIdAndParams buffer commID with
      | none => some (.initInvalidId, fb)
      | some e =>
        let layerID := cStringAt e.buffer e.layerID
        if layerID ≠ [] ∧ env.create fb.events layerID then
          let opened := fb.addLayer env layerID (cStringAt e.buffer e.layerParams)
          if opened.1 = .initOk then
            createComstackLoop env fuel opened.2 opened.1 e.buffer e.remainingID
          else some opened
        else some (.initInvalidId, fb)

/-- `CBaseCommFB::createComstack`. -/
def createComstack (env : Environment) (fuel : ℕ) (fb : CommFB) (commID : List UInt8) :
    Option (EComResponse × CommFB) :=
  createComstackLoop env fuel fb .initInvalidId commID 0

/-- A layer that is closed and deleted, with the layers below it. -/
def closeLayers : List ℕ → List LayerEvent
  | [] => []
  | layer :: below => .closeConnection layer :: (closeLayers below ++ [.delete layer])

/-- `CBaseCommFB::closeConnection`. -/
def closeConnection (fb : CommFB) : CommFB where
  comStack := []
  events := fb.events ++ closeLayers fb.comStack

/-- `CBaseCommFB::openConnection`; `getDefaultIDString` is virtual. -/
def openConnection (env : Environment) (getDefaultIDString : Text → Text) (fuel : ℕ)
    (fb : CommFB) (id : Text) : Option (EComResponse × CommFB) :=
  if fb.comStack = [] then
    let commID := if brackets.closing ∈ id then id else getDefaultIDString id
    if commID = [] then some (.initInvalidId, fb)
    else
      (createComstack env fuel fb (commID ++ [0])).map fun r =>
        if r.1 = .initOk then r else (r.1, r.2.closeConnection)
  else some (.initOk, fb)

/-! ### The loop, of a list of layers -/

/-- The layers of a list, one after the other; `ended` says whether nothing is behind them. -/
def openLayers (env : Environment) (ended : Bool) :
    CommFB → EComResponse → List (Text × Text) → EComResponse × CommFB
  | fb, retVal, [] => if ended then (retVal, fb) else (.initInvalidId, fb)
  | fb, _, layer :: ls =>
    if layer.1 ≠ [] ∧ env.create fb.events layer.1 then
      let opened := fb.addLayer env layer.1 layer.2
      if opened.1 = .initOk then openLayers env ended opened.2 opened.1 ls else opened
    else (.initInvalidId, fb)

/-- **The loop ends**, and has opened the layers of its text. -/
theorem createComstackLoop_eq {env : Environment} {fuel : ℕ} {fb : CommFB}
    {retVal : EComResponse} {buffer : List UInt8} {pos : ℕ} {t : Text}
    (h : Holds buffer pos t) (hfuel : t.length < fuel) :
    createComstackLoop env fuel fb retVal buffer pos =
      some (openLayers env (layers t).2 fb retVal (layers t).1) := by
  induction fuel generalizing fb retVal buffer pos t with
  | zero => exact absurd hfuel (Nat.not_lt_zero _)
  | succ fuel ih =>
    rw [createComstackLoop]
    by_cases hne : t = []
    · rw [if_pos (h.getD_eq_zero_iff.mpr hne), hne, layers_nil]
      rfl
    rw [if_neg fun hzero => hne (h.getD_eq_zero_iff.mp hzero)]
    cases hsplit : splitLayer t with
    | none =>
      rw [extractLayerIdAndParams_of_none h hsplit, layers_of_none hne hsplit]
      rfl
    | some r =>
      obtain ⟨name, params, rest⟩ := r
      obtain ⟨e, he, hname, hparams, hrest⟩ := extractLayerIdAndParams_of_some h hsplit
      have hlength := length_splitLayer hsplit
      rw [he, layers_of_some hsplit, openLayers]
      dsimp only
      rw [hname, hparams, ih hrest (by omega)]
      split_ifs <;> rfl

theorem holds_text {t : Text} (ht : 0 ∉ t) : Holds (t ++ [0]) 0 t := ⟨[], [], rfl, rfl, ht⟩

/-! ### What is left behind -/

/-- **All layers that are created while a stack is built are in it.** -/
theorem openLayers_events (env : Environment) (ended : Bool) (ls : List (Text × Text))
    (fb : CommFB) (retVal : EComResponse) :
    ∃ layers new, (openLayers env ended fb retVal ls).2.comStack = fb.comStack ++ layers ∧
      (openLayers env ended fb retVal ls).2.events = fb.events ++ new ∧
      ∀ layer layerID, .create layer layerID ∈ new → layer ∈ layers := by
  induction ls generalizing fb retVal with
  | nil =>
    refine ⟨[], [], ?_⟩
    rw [openLayers]
    split_ifs <;> exact ⟨by simp, by simp, by simp⟩
  | cons l ls ih =>
    rw [openLayers]
    split_ifs with hcreate
    · dsimp only
      -- the layer that has just been created
      let first := [LayerEvent.create fb.events.length l.1,
        .openConnection fb.events.length l.2 (fb.addLayer env l.1 l.2).1]
      have hfirst : ∀ layer layerID, LayerEvent.create layer layerID ∈ first →
          layer = fb.events.length := by
        intro layer layerID hmem
        simp only [first, List.mem_cons, LayerEvent.create.injEq, List.not_mem_nil, or_false,
          reduceCtorEq] at hmem
        exact hmem.1
      have hevents : (fb.addLayer env l.1 l.2).2.events = fb.events ++ first :=
        List.append_assoc _ _ _
      split_ifs with hopen
      · obtain ⟨layers, new, hstack, hnew, hall⟩ :=
          ih (fb.addLayer env l.1 l.2).2 (fb.addLayer env l.1 l.2).1
        refine ⟨fb.events.length :: layers, first ++ new, ?_, ?_, fun layer layerID hmem => ?_⟩
        · rw [hstack]
          exact List.append_assoc _ _ _
        · rw [hnew, hevents, List.append_assoc]
        · rcases List.mem_append.mp hmem with hmem | hmem
          · exact List.mem_cons.mpr (Or.inl (hfirst layer layerID hmem))
          · exact List.mem_cons_of_mem _ (hall layer layerID hmem)
      · exact ⟨[fb.events.length], first, rfl, hevents, fun layer layerID hmem =>
          List.mem_singleton.mpr (hfirst layer layerID hmem)⟩
    · exact ⟨[], [], by simp, by simp, by simp⟩

/-- Every layer of a stack that is closed is closed and deleted. -/
theorem closeLayers_mem {layers : List ℕ} {layer : ℕ} (h : layer ∈ layers) :
    .closeConnection layer ∈ closeLayers layers ∧ .delete layer ∈ closeLayers layers := by
  induction layers with
  | nil => exact absurd h List.not_mem_nil
  | cons l ls ih =>
    rw [closeLayers]
    rcases List.mem_cons.mp h with rfl | h
    · simp
    · obtain ⟨hclose, hdelete⟩ := ih h
      simp [hclose, hdelete]

/-- **Nothing is left open**: the stack is empty, and every layer that was created meanwhile has
been closed and deleted. -/
def NothingLeft (before after : CommFB) : Prop :=
  after.comStack = [] ∧ ∃ new, after.events = before.events ++ new ∧
    ∀ layer layerID, .create layer layerID ∈ new →
      .closeConnection layer ∈ new ∧ .delete layer ∈ new

theorem closeConnection_openLayers (env : Environment) (ended : Bool) (ls : List (Text × Text))
    {fb : CommFB} (retVal : EComResponse) (hfb : fb.comStack = []) :
    NothingLeft fb (openLayers env ended fb retVal ls).2.closeConnection := by
  obtain ⟨layers, new, hstack, hnew, hall⟩ := openLayers_events env ended ls fb retVal
  rw [hfb, List.nil_append] at hstack
  refine ⟨rfl, new ++ closeLayers layers, ?_, fun layer layerID hmem => ?_⟩
  · rw [closeConnection, hstack, hnew, List.append_assoc]
  · have hcreated : ∀ ls : List ℕ, LayerEvent.create layer layerID ∉ closeLayers ls := by
      intro ls
      induction ls with
      | nil => simp [closeLayers]
      | cons l ls ih => simp [closeLayers, ih]
    have hlayer := hall layer layerID ((List.mem_append.mp hmem).resolve_right (hcreated layers))
    obtain ⟨hclose, hdelete⟩ := closeLayers_mem hlayer
    exact ⟨List.mem_append_right _ hclose, List.mem_append_right _ hdelete⟩

/-- **Opening a connection ends**, and after a failure nothing is left open. -/
theorem openConnection_ends (env : Environment) {getDefaultIDString : Text → Text} {fuel : ℕ}
    (fb : CommFB) {id : Text} (hid : 0 ∉ id) (hdefault : 0 ∉ getDefaultIDString id)
    (hfuel : id.length < fuel) (hfuelDefault : (getDefaultIDString id).length < fuel) :
    ∃ r, openConnection env getDefaultIDString fuel fb id = some r ∧
      (r.1 ≠ .initOk → NothingLeft fb r.2) := by
  by_cases hfb : fb.comStack = []
  · obtain ⟨commID, hcommID, hzero, hlength⟩ : ∃ commID,
        (if brackets.closing ∈ id then id else getDefaultIDString id) = commID ∧
          0 ∉ commID ∧ commID.length < fuel := by
      refine ⟨_, rfl, ?_⟩
      split_ifs
      · exact ⟨hid, hfuel⟩
      · exact ⟨hdefault, hfuelDefault⟩
    rw [openConnection, if_pos hfb]
    dsimp only
    rw [hcommID]
    by_cases hempty : commID = []
    · rw [if_pos hempty]
      exact ⟨_, rfl, fun _ => ⟨hfb, [], (List.append_nil fb.events).symm, by simp⟩⟩
    · have hstack : createComstack env fuel fb (commID ++ [0]) =
          some (openLayers env (layers commID).2 fb .initInvalidId (layers commID).1) :=
        createComstackLoop_eq (holds_text hzero) hlength
      rw [if_neg hempty, hstack]
      refine ⟨_, rfl, ?_⟩
      dsimp only
      split_ifs with hok
      · exact fun hr => absurd hok hr
      · exact fun _ => closeConnection_openLayers env _ _ _ hfb
  · rw [openConnection, if_neg hfb]
    exact ⟨_, rfl, fun hr => absurd rfl hr⟩

end CommFB

/-! ### The identifiers of a stack -/

/-- A text without a zero. -/
structure CString where
  text : Text
  noZero : 0 ∉ text

/-- **What is asked of an identifier**: a list of layers is found as it was written, a text with
unbalanced or missing brackets is refused, and to open a stack by it comes to an end, with
nothing left open after a failure. -/
structure Sound (id : CString) : Prop where
  renders : ∀ ls, (∀ l ∈ ls, WellNamed l) → id.text = render ls →
    ∀ fuel, id.text.length < fuel → extractAll fuel (id.text ++ [0]) 0 = some (ls, true)
  refuses : Faulty id.text → ∀ fuel, id.text.length < fuel →
    ∃ ls, extractAll fuel (id.text ++ [0]) 0 = some (ls, false)
  ends : ∀ env fb fuel, id.text.length < fuel →
    (CommFB.createComstack env fuel fb (id.text ++ [0])).isSome = true
  nothingLeft : ∀ env (getDefaultIDString : Text → Text) fb fuel, 0 ∉ getDefaultIDString id.text →
    id.text.length < fuel → (getDefaultIDString id.text).length < fuel →
    ∃ r, CommFB.openConnection env getDefaultIDString fuel fb id.text = some r ∧
      (r.1 ≠ .initOk → CommFB.NothingLeft fb r.2)

/-- **An identifier is treated as it should be** if and only if it does not hide a fault. -/
theorem sound_iff (id : CString) : Sound id ↔ ¬Hides id.text := by
  have hholds : Holds (id.text ++ [0]) 0 id.text := CommFB.holds_text id.noZero
  rw [← refused_iff]
  constructor
  · intro h hfaulty
    obtain ⟨ls, hls⟩ := h.refuses hfaulty (id.text.length + 1) (Nat.lt_succ_self _)
    rw [extractAll_eq hholds (Nat.lt_succ_self _)] at hls
    exact congrArg Prod.snd (Option.some.inj hls)
  · intro h
    refine ⟨fun ls hls hrender fuel hfuel => ?_, fun hfaulty fuel hfuel => ?_,
      fun env fb fuel hfuel => ?_, fun env getDefaultIDString fb fuel hdefault hfuel hfuel' => ?_⟩
    · rw [extractAll_eq hholds hfuel, hrender, layers_render hls]
    · refine ⟨(layers id.text).1, ?_⟩
      rw [extractAll_eq hholds hfuel, ← h hfaulty]
    · rw [CommFB.createComstack, CommFB.createComstackLoop_eq hholds hfuel]
      rfl
    · exact CommFB.openConnection_ends env fb id.noZero hdefault hfuel hfuel'

/-- The closing bracket that is too many is taken for the dot behind a layer. -/
theorem not_sound_surplus_bracket : ¬∀ id : CString, Sound id := by
  intro h
  obtain ⟨ls, hls⟩ :=
    (h ⟨text "a[b]]", by decide⟩).refuses (Or.inl (by decide)) 6 (by decide)
  have haccepted : extractAll 6 (text "a[b]]" ++ [0]) 0 = some ([(text "a", text "b")], true) := by
    decide
  exact absurd (hls.symm.trans haccepted) (by simp)

end Forte.ComInfra
