import Forte.Communication.IPComLayer

/-!
# The CAN layer

A publisher on a CAN bus cuts the bytes of its inputs into frames of at most eight, and stops at
the first one the socket refuses. It notes that the frame was refused, but answers that all went
well (`Forte.CANLayer.sendData_correct_iff`).

A subscriber keeps a received frame until its block has processed the interrupt that goes with it.
There is one place for a frame: one that arrives before is put over it, and is then copied to the
outputs by both interrupts. All frames are copied, once and in order, exactly if each one arrives
when all interrupts before it have been processed and there is a place in the queue of the block
(`Forte.CANLayer.each_reports_iff`).
-/

namespace Forte

/-- `CAN_MAX_DLEN`. -/
def canMaxDlen : ℕ := 8

/-- A `can_frame`, but for the identifier that is the same in all frames of a layer. -/
structure CanFrame where
  can_dlc : ℕ
  data : List UInt8
  can_dlc_le : can_dlc ≤ canMaxDlen
  length_data : data.length = canMaxDlen
  deriving DecidableEq

/-- The bytes of a frame that belong to it by its length code. -/
def CanFrame.payload (frame : CanFrame) : List UInt8 := frame.data.take frame.can_dlc

namespace CANLayer

/-! ### Sending -/

/-- The frame that is filled with the bytes from `offset` on. -/
def chunk (data : List UInt8) (offset : ℕ) : CanFrame where
  can_dlc := if canMaxDlen < data.length - offset then canMaxDlen else data.length - offset
  data :=
    let chunk := (data.drop offset).take
      (if canMaxDlen < data.length - offset then canMaxDlen else data.length - offset)
    chunk ++ List.replicate (canMaxDlen - chunk.length) 0
  can_dlc_le := by split_ifs <;> omega
  length_data := by
    have hle : ((data.drop offset).take (if canMaxDlen < data.length - offset then canMaxDlen
        else data.length - offset)).length ≤ canMaxDlen := by
      rw [List.length_take]
      split_ifs <;> omega
    rw [List.length_append, List.length_replicate, Nat.add_sub_cancel' hle]

theorem can_dlc_chunk (data : List UInt8) (offset : ℕ) :
    (chunk data offset).can_dlc = min canMaxDlen (data.length - offset) := by
  rw [chunk]
  dsimp only
  split_ifs <;> omega

/-- The loop of `sendData` from `offset` on: the frames that are written, the refused one
included, and `eRetVal`. The socket accepts or refuses the frames by their number. -/
def sendLoop (accepts : ℕ → Bool) (data : List UInt8) (count offset : ℕ) :
    List CanFrame × ComInfra.EComResponse :=
  if offset < data.length then
    let mFrame := chunk data offset
    if accepts count then
      let (written, eRetVal) := sendLoop accepts data (count + 1) (offset + mFrame.can_dlc)
      (mFrame :: written, eRetVal)
    else ([mFrame], .processDataSendFailed)
  else ([], .processDataOk)
termination_by data.length - offset
decreasing_by
  rw [can_dlc_chunk, canMaxDlen]
  omega

/-- `sendData`, with the bytes of the inputs: the frames it writes and its response. -/
def sendData (accepts : ℕ → Bool) (apoSDs : List UInt8) : List CanFrame × ComInfra.EComResponse :=
  let (written, _eRetVal) := sendLoop accepts apoSDs 0 0
  (written, .processDataOk)

/-- **The frames carry the bytes**, in order, all of them unless a frame is refused; none is
written after that, and the response is an error exactly in this case. -/
structure Sent (accepts : ℕ → Bool) (apoSDs : List UInt8)
    (result : List CanFrame × ComInfra.EComResponse) : Prop where
  payload : (∀ k < result.1.length, accepts k = true) →
    result.1.flatMap CanFrame.payload = apoSDs
  started : result.1.flatMap CanFrame.payload <+: apoSDs
  last : ∀ k < result.1.length, accepts k = false → k + 1 = result.1.length
  response : result.2 = .processDataOk ↔ ∀ k < result.1.length, accepts k = true

/-- The number of frames for so many bytes. -/
def frameCount (size : ℕ) : ℕ := (size + (canMaxDlen - 1)) / canMaxDlen

theorem payload_chunk (data : List UInt8) (offset : ℕ) :
    (chunk data offset).payload = (data.drop offset).take (chunk data offset).can_dlc := by
  rw [CanFrame.payload]
  refine List.take_left' ?_
  rw [List.length_take, List.length_drop, chunk]
  dsimp only
  split_ifs <;> omega

/-- A frame takes the next bytes, and is the next one of those there are for them. -/
theorem drop_eq_payload_append (data : List UInt8) (offset : ℕ) :
    data.drop offset =
      (chunk data offset).payload ++ data.drop (offset + (chunk data offset).can_dlc) := by
  rw [payload_chunk, ← List.drop_drop, List.take_append_drop]

theorem frameCount_of_lt {data : List UInt8} {offset : ℕ} (h : offset < data.length) :
    frameCount (data.length - (offset + (chunk data offset).can_dlc)) + 1 =
      frameCount (data.length - offset) := by
  rw [can_dlc_chunk, frameCount, frameCount, canMaxDlen]
  omega

/-- **The loop** writes the bytes that are left, up to the first refused frame. -/
theorem sendLoop_spec (accepts : ℕ → Bool) (data : List UInt8) (count offset : ℕ) :
    let written := (sendLoop accepts data count offset).1
    written.length ≤ frameCount (data.length - offset) ∧
      written.flatMap CanFrame.payload <+: data.drop offset ∧
      (∀ k < written.length, accepts (count + k) = false → k + 1 = written.length) ∧
      ((∀ k < written.length, accepts (count + k) = true) →
        written.flatMap CanFrame.payload = data.drop offset ∧
          written.length = frameCount (data.length - offset)) := by
  fun_induction sendLoop accepts data count offset with
  | case1 count offset h mFrame haccepts written eRetVal heq ih =>
    obtain ⟨hcount, hprefix, hlast, hall⟩ := ih
    have hcut : data.drop offset = mFrame.payload ++ data.drop (offset + mFrame.can_dlc) :=
      drop_eq_payload_append data offset
    have hframes : frameCount (data.length - (offset + mFrame.can_dlc)) + 1 =
        frameCount (data.length - offset) := frameCount_of_lt h
    rw [heq] at hcount hprefix hlast hall
    dsimp only at hcount hprefix hlast hall
    simp only [List.length_cons, List.flatMap_cons]
    rw [hcut, ← hframes]
    refine ⟨by omega, (List.prefix_append_right_inj _).mpr hprefix, ?_, ?_⟩
    · intro k hk hrefused
      rcases k with - | k
      · exact absurd (haccepts.symm.trans hrefused) (by decide)
      · rw [← Nat.add_assoc, Nat.add_right_comm] at hrefused
        exact congrArg (· + 1) (hlast k (by omega) hrefused)
    · intro haccepted
      obtain ⟨hpayload, hlength⟩ := hall fun k hk => by
        rw [Nat.add_right_comm, Nat.add_assoc]
        exact haccepted (k + 1) (by omega)
      exact ⟨by rw [hpayload], by rw [hlength]⟩
  | case2 count offset h mFrame haccepts =>
    -- the frame that is refused is written all the same, and is the last one
    have hpayload : mFrame.payload <+: data.drop offset := by
      rw [payload_chunk]
      exact List.take_prefix _ _
    have hpos : 0 < frameCount (data.length - offset) := by
      rw [frameCount, canMaxDlen]
      omega
    refine ⟨hpos, by rwa [List.flatMap_singleton], ?_, ?_⟩
    · intro k hk _
      obtain rfl : k = 0 := Nat.lt_one_iff.mp hk
      rfl
    · intro haccepted
      exact absurd (haccepted 0 Nat.one_pos) haccepts
  | case3 count offset h =>
    have hdrop : data.drop offset = [] := List.drop_eq_nil_of_le (by omega)
    have hzero : frameCount (data.length - offset) = 0 := by
      rw [frameCount, canMaxDlen]
      omega
    refine ⟨Nat.zero_le _, List.nil_prefix, ?_, fun _ => ⟨hdrop.symm, hzero.symm⟩⟩
    intro k hk
    exact absurd hk (Nat.not_lt_zero k)

/-- **What is sent is right** exactly if no frame is refused. -/
theorem sendData_correct_iff (accepts : ℕ → Bool) (apoSDs : List UInt8) :
    Sent accepts apoSDs (sendData accepts apoSDs) ↔
      ∀ k < frameCount apoSDs.length, accepts k = true := by
  obtain ⟨hcount, hprefix, hlast, hall⟩ := sendLoop_spec accepts apoSDs 0 0
  simp only [Nat.zero_add, List.drop_zero, Nat.sub_zero] at hcount hprefix hlast hall
  constructor
  · intro h
    have haccepted := h.response.mp rfl
    rw [← (hall haccepted).2]
    exact haccepted
  · intro h
    have haccepted : ∀ k < (sendData accepts apoSDs).1.length, accepts k = true :=
      fun k hk => h k (hk.trans_le hcount)
    exact ⟨fun _ => (hall haccepted).1, hprefix, hlast, iff_of_true rfl haccepted⟩

/-! ### Receiving -/

/-- `CCommFB::receiveData` under way. -/
structure ReceiveData where
  comInterruptQueueCountCopy : ℕ
  i : ℕ
  eRetVal : ComInfra.EComResponse

end CANLayer

/-- The layer of a subscriber, with the interrupts it has queued with its block and the outputs
of that, which are `BYTE`s. -/
structure CANLayer where
  mFrame : CanFrame
  mEInterruptResp : ComInfra.EComResponse
  mComInterruptQueueCount : ℕ
  receiveData : Option CANLayer.ReceiveData
  apoRDs : List UInt8
  /-- The frames that `recvData` was called with. -/
  received : List CanFrame
  /-- The outputs behind each `processInterrupt` that wrote them. -/
  copied : List (List UInt8)

namespace CANLayer

variable (cgCommunicationInterruptQueueSize : ℕ)

/-- The layer that was opened, where nothing has set its frame and its response. -/
def opened (mFrame : CanFrame) (mEInterruptResp : ComInfra.EComResponse) (apoRDs : List UInt8) :
    CANLayer where
  mFrame := mFrame
  mEInterruptResp := mEInterruptResp
  mComInterruptQueueCount := 0
  receiveData := none
  apoRDs := apoRDs
  received := []
  copied := []

/-- `interruptCommFB`. All interrupts in the queue are of this layer. -/
def interruptCommFB (s : CANLayer) : CANLayer :=
  if s.mComInterruptQueueCount < cgCommunicationInterruptQueueSize then
    { s with mComInterruptQueueCount := s.mComInterruptQueueCount + 1 }
  else s

/-- `recvData` in the thread of the handler. -/
def recvData (s : CANLayer) (frame : CanFrame) : CANLayer :=
  let interrupted := interruptCommFB cgCommunicationInterruptQueueSize
    { s with
      mEInterruptResp := .nothing
      mFrame := frame
      received := s.received ++ [frame] }
  { interrupted with mEInterruptResp := .processDataOk }

/-- The bytes of a frame for so many outputs. -/
def rdValues (frame : CanFrame) (size_rd : ℕ) : List UInt8 :=
  (List.range size_rd).map fun i => if frame.can_dlc ≤ i then 0 else frame.data.getD i 0

/-- `processInterrupt`. -/
def processInterrupt (s : CANLayer) : CANLayer :=
  if s.mEInterruptResp = .processDataOk then
    let apoRDs := rdValues s.mFrame s.apoRDs.length
    { s with apoRDs := apoRDs, copied := s.copied ++ [apoRDs] }
  else s

/-- What `receiveData` does next: it notes the number of the interrupts, processes one of these,
or takes all of them from the queue and ends. -/
def advance (s : CANLayer) : CANLayer :=
  match s.receiveData with
  | none =>
    { s with
      receiveData := some
        { comInterruptQueueCountCopy := s.mComInterruptQueueCount, i := 0, eRetVal := .nothing } }
  | some r =>
    if r.i < r.comInterruptQueueCountCopy then
      let eResp := s.mEInterruptResp
      { s.processInterrupt with
        receiveData := some
          { r with
            i := r.i + 1
            eRetVal := if r.eRetVal.value < eResp.value then eResp else r.eRetVal } }
    else
      { s with
        mComInterruptQueueCount := s.mComInterruptQueueCount - r.comInterruptQueueCountCopy
        receiveData := none }

/-- A step of the handler, or of the event chain of the block. -/
inductive Step
  | recvData (frame : CanFrame)
  | receiveData

/-- The layer behind a step. -/
def next (s : CANLayer) : Step → CANLayer
  | .recvData frame => recvData cgCommunicationInterruptQueueSize s frame
  | .receiveData => s.advance

/-- The number of the interrupts in the queue that have not been processed. -/
def pending (s : CANLayer) : ℕ :=
  match s.receiveData with
  | none => s.mComInterruptQueueCount
  | some r => s.mComInterruptQueueCount - r.i

/-- **All frames are copied to the outputs**, once and in order, but for one at most that is
still in its place and has its interrupt in the queue. -/
def Delivers (s : CANLayer) : Prop :=
  ∃ processed held, s.received = processed ++ held ∧
    s.copied = processed.map (rdValues · s.apoRDs.length) ∧
      held.length = s.pending ∧ (held = [] ∨ held = [s.mFrame])

/-- A frame arrives when all interrupts have been processed and there is place for its own. -/
def Cond (s : CANLayer) : Step → Prop
  | .recvData _ =>
    s.pending = 0 ∧ s.mComInterruptQueueCount < cgCommunicationInterruptQueueSize
  | .receiveData => True

instance (s : CANLayer) (st : Step) : Decidable (Cond cgCommunicationInterruptQueueSize s st) :=
  match st with
  | .recvData _ => inferInstanceAs (Decidable (_ ∧ _))
  | .receiveData => inferInstanceAs (Decidable True)

/-- The layer between two steps of a run in which all frames are copied. -/
structure Good (s : CANLayer) : Prop where
  delivers : s.Delivers
  /-- No more interrupts are processed than there were. -/
  copy_le : ∀ r ∈ s.receiveData, r.i ≤ r.comInterruptQueueCountCopy ∧
    r.comInterruptQueueCountCopy ≤ s.mComInterruptQueueCount
  resp : s.pending ≠ 0 → s.mEInterruptResp = .processDataOk

variable {cgCommunicationInterruptQueueSize}

theorem good_opened (mFrame : CanFrame) (mEInterruptResp : ComInfra.EComResponse)
    (apoRDs : List UInt8) :
    Good (opened mFrame mEInterruptResp apoRDs) where
  delivers := ⟨[], [], rfl, rfl, rfl, .inl rfl⟩
  copy_le := by rintro r ⟨⟩
  resp h := absurd rfl h

/-- The numbers of frames: one at most is not copied yet. -/
theorem Delivers.length {s : CANLayer} (h : s.Delivers) :
    s.received.length = s.copied.length + s.pending ∧ s.pending ≤ 1 := by
  obtain ⟨processed, held, hreceived, hcopied, hpending, hheld⟩ := h
  rw [hreceived, hcopied, List.length_append, List.length_map, hpending]
  refine ⟨rfl, ?_⟩
  rw [← hpending]
  rcases hheld with rfl | rfl
  · exact Nat.zero_le 1
  · exact le_rfl

/-! ### A frame arrives -/

/-- **A frame that arrives** takes the place of the one before, and the rest stays. -/
theorem recvData_eq (s : CANLayer) (frame : CanFrame) :
    recvData cgCommunicationInterruptQueueSize s frame =
      { s with
        mFrame := frame
        mEInterruptResp := .processDataOk
        mComInterruptQueueCount := s.mComInterruptQueueCount +
          if s.mComInterruptQueueCount < cgCommunicationInterruptQueueSize then 1 else 0
        received := s.received ++ [frame] } := by
  rw [recvData, interruptCommFB]
  dsimp only
  split_ifs <;> rfl

theorem pending_recvData {s : CANLayer} (hs : s.Good) (frame : CanFrame) :
    (recvData cgCommunicationInterruptQueueSize s frame).pending =
      s.pending +
        if s.mComInterruptQueueCount < cgCommunicationInterruptQueueSize then 1 else 0 := by
  rw [recvData_eq, pending, pending]
  rcases hr : s.receiveData with - | r
  · rfl
  · have hle := hs.copy_le r hr
    dsimp only
    omega

theorem recvData_iff {s : CANLayer} (hs : s.Good) (frame : CanFrame) :
    Delivers (recvData cgCommunicationInterruptQueueSize s frame) ↔
      s.pending = 0 ∧ s.mComInterruptQueueCount < cgCommunicationInterruptQueueSize := by
  have hpending := @pending_recvData cgCommunicationInterruptQueueSize s hs frame
  constructor
  · intro h
    obtain ⟨hbefore, -⟩ := hs.delivers.length
    obtain ⟨hlength, hone⟩ := h.length
    -- one frame more has come, and none was copied, so that its interrupt has to be in the queue
    rw [hpending] at hlength hone
    rw [recvData_eq] at hlength
    dsimp only at hlength
    rw [List.length_append, List.length_singleton, hbefore] at hlength
    split_ifs at hlength hone with hplace
    · exact ⟨by omega, hplace⟩
    · omega
  · rintro ⟨hzero, hplace⟩
    obtain ⟨processed, held, hreceived, hcopied, hheld, -⟩ := hs.delivers
    obtain rfl : held = [] := List.eq_nil_of_length_eq_zero (hheld.trans hzero)
    refine ⟨processed, [frame], ?_, ?_, ?_, ?_⟩
    · rw [recvData_eq, List.append_nil] at *
      exact congrArg (· ++ [frame]) hreceived
    · rw [recvData_eq]
      exact hcopied
    · rw [hpending, hzero, if_pos hplace]
      rfl
    · rw [recvData_eq]
      exact .inr rfl

theorem good_recvData {s : CANLayer} (hs : s.Good) (frame : CanFrame)
    (h : Delivers (recvData cgCommunicationInterruptQueueSize s frame)) :
    Good (recvData cgCommunicationInterruptQueueSize s frame) where
  delivers := h
  copy_le r hr := by
    rw [recvData_eq] at hr ⊢
    obtain ⟨hi, hcopy⟩ := hs.copy_le r hr
    exact ⟨hi, hcopy.trans (Nat.le_add_right _ _)⟩
  resp _ := by rw [recvData_eq]

/-! ### The block receives -/

/-- **An interrupt that is processed** is one less to be processed. -/
theorem pending_turn {s : CANLayer} (hs : s.Good) {r : ReceiveData}
    (hr : s.receiveData = some r) (hi : r.i < r.comInterruptQueueCountCopy) :
    s.pending = s.mComInterruptQueueCount - (r.i + 1) + 1 := by
  obtain ⟨-, hcopy⟩ := hs.copy_le r hr
  rw [pending, hr]
  dsimp only
  omega

theorem good_processed {s : CANLayer} (hs : s.Good) {r : ReceiveData}
    (hr : s.receiveData = some r) (hi : r.i < r.comInterruptQueueCountCopy) :
    Good s.advance := by
  obtain ⟨-, hcopy⟩ := hs.copy_le r hr
  have hpending := pending_turn hs hr hi
  have hresp : s.mEInterruptResp = .processDataOk := hs.resp (by omega)
  have hone := hs.delivers.length.2
  obtain ⟨processed, held, hreceived, hcopied, hheld, hmFrame⟩ := hs.delivers
  -- there is an interrupt, and so a frame, which is the one in the only place for it
  obtain rfl : held = [s.mFrame] := by
    rcases hmFrame with rfl | rfl
    · rw [hpending] at hheld
      exact absurd hheld (by simp)
    · rfl
  have hadvance : s.advance =
      { s with
        apoRDs := rdValues s.mFrame s.apoRDs.length
        copied := s.copied ++ [rdValues s.mFrame s.apoRDs.length]
        receiveData := some
          { r with
            i := r.i + 1
            eRetVal := if r.eRetVal.value < s.mEInterruptResp.value then s.mEInterruptResp
              else r.eRetVal } } := by
    rw [advance, hr]
    dsimp only
    rw [if_pos hi, processInterrupt, if_pos hresp]
  have hlength : (rdValues s.mFrame s.apoRDs.length).length = s.apoRDs.length := by
    rw [rdValues, List.length_map, List.length_range]
  rw [hadvance]
  refine ⟨⟨processed ++ [s.mFrame], [], ?_, ?_, ?_, .inl rfl⟩, ?_, fun _ => hresp⟩
  · rw [List.append_nil]
    exact hreceived
  · dsimp only
    rw [hlength, List.map_append, hcopied]
    rfl
  · rw [pending]
    dsimp only [List.length_nil]
    omega
  · rintro _ ⟨⟩
    dsimp only
    exact ⟨hi, hcopy⟩

/-- **A step of `receiveData`** copies the frame of its interrupt. -/
theorem good_advance {s : CANLayer} (hs : s.Good) : Good s.advance := by
  rcases hr : s.receiveData with - | r
  · have hadvance : s.advance =
        { s with
          receiveData := some
            { comInterruptQueueCountCopy := s.mComInterruptQueueCount, i := 0,
              eRetVal := .nothing } } := by
      rw [advance, hr]
    have hpending : s.advance.pending = s.pending := by
      rw [hadvance, pending, pending, hr]
      rfl
    obtain ⟨processed, held, hreceived, hcopied, hheld, hmFrame⟩ := hs.delivers
    refine ⟨⟨processed, held, ?_, ?_, hheld.trans hpending.symm, ?_⟩, ?_, ?_⟩
    · rwa [hadvance]
    · rwa [hadvance]
    · rwa [hadvance]
    · rw [hadvance]
      rintro _ ⟨⟩
      exact ⟨Nat.zero_le _, le_rfl⟩
    · rw [hpending, hadvance]
      exact hs.resp
  · -- either one more frame of the copied count, or the end of the loop
    by_cases hi : r.i < r.comInterruptQueueCountCopy
    · exact good_processed hs hr hi
    · obtain ⟨hle, hcopy⟩ := hs.copy_le r hr
      have hadvance : s.advance =
          { s with
            mComInterruptQueueCount := s.mComInterruptQueueCount - r.comInterruptQueueCountCopy
            receiveData := none } := by
        rw [advance, hr]
        exact if_neg hi
      have hpending : s.advance.pending = s.pending := by
        rw [hadvance, pending, pending, hr]
        dsimp only
        omega
      obtain ⟨processed, held, hreceived, hcopied, hheld, hmFrame⟩ := hs.delivers
      refine ⟨⟨processed, held, ?_, ?_, hheld.trans hpending.symm, ?_⟩, ?_, ?_⟩
      · rwa [hadvance]
      · rwa [hadvance]
      · rwa [hadvance]
      · rw [hadvance]
        rintro _ ⟨⟩
      · rw [hpending, hadvance]
        exact hs.resp

/-! ### Runs -/

variable (cgCommunicationInterruptQueueSize) in
/-- The frames are all copied behind a step. -/
def Meets (s : CANLayer) (st : Step) : Prop :=
  Delivers (next cgCommunicationInterruptQueueSize s st)

theorem meets_iff {s : CANLayer} (hs : s.Good) (st : Step) :
    Meets cgCommunicationInterruptQueueSize s st ↔
      Cond cgCommunicationInterruptQueueSize s st := by
  rcases st with frame | -
  · exact recvData_iff hs frame
  · exact iff_of_true (good_advance hs).delivers trivial

theorem good_next {s : CANLayer} (hs : s.Good) (st : Step)
    (h : Meets cgCommunicationInterruptQueueSize s st) :
    Good (next cgCommunicationInterruptQueueSize s st) := by
  rcases st with frame | -
  · exact good_recvData hs frame h
  · exact good_advance hs

theorem each_reports_iff (mFrame : CanFrame) (mEInterruptResp : ComInfra.EComResponse)
    (apoRDs : List UInt8) (steps : List Step) :
    Runs.Each (next cgCommunicationInterruptQueueSize)
        (Meets cgCommunicationInterruptQueueSize) (opened mFrame mEInterruptResp apoRDs) steps ↔
      Runs.Each (next cgCommunicationInterruptQueueSize)
        (Cond cgCommunicationInterruptQueueSize) (opened mFrame mEInterruptResp apoRDs) steps := by
  refine Runs.each_congr (fun s st (hs : Good s) => ?_) (fun s st hs => ?_)
    (good_opened mFrame mEInterruptResp apoRDs) steps
  · exact good_next hs st
  · exact meets_iff hs st

variable (cgCommunicationInterruptQueueSize) in
/-- **The transport by CAN frames**: what is sent is right exactly if no frame is refused, and
all frames of a run are copied exactly if each one finds the place of the frames free. -/
theorem transports_iff (accepts : ℕ → Bool) (apoSDs : List UInt8) (mFrame : CanFrame)
    (mEInterruptResp : ComInfra.EComResponse) (apoRDs : List UInt8) (steps : List Step) :
    (Sent accepts apoSDs (sendData accepts apoSDs) ↔
        ∀ k < frameCount apoSDs.length, accepts k = true) ∧
      (Runs.Each (next cgCommunicationInterruptQueueSize)
          (Meets cgCommunicationInterruptQueueSize) (opened mFrame mEInterruptResp apoRDs) steps ↔
        Runs.Each (next cgCommunicationInterruptQueueSize)
          (Cond cgCommunicationInterruptQueueSize) (opened mFrame mEInterruptResp apoRDs)
          steps) :=
  ⟨sendData_correct_iff accepts apoSDs, each_reports_iff mFrame mEInterruptResp apoRDs steps⟩

/-- Nine bytes are sent in two frames, and the second is refused. -/
def sentSample : List UInt8 := [0, 1, 2, 3, 4, 5, 6, 7, 8]

/-- Two frames arrive before the block has processed an interrupt. -/
def receivedSample : List Step :=
  [.recvData (chunk [1] 0), .recvData (chunk [2] 0), .receiveData, .receiveData, .receiveData]

/-- The error of the second frame is not returned, and the second of two frames is copied twice. -/
theorem not_transports_sample :
    ¬ Sent (· == 0) sentSample (sendData (· == 0) sentSample) ∧
      ¬ Runs.Each (next 10) (Meets 10) (opened (chunk [] 0) .nothing [0, 0]) receivedSample := by
  constructor
  · rw [sendData_correct_iff]
    decide
  · rw [each_reports_iff]
    decide +kernel

end CANLayer

end Forte
