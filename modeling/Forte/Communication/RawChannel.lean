import Forte.Datatypes.AnyVariant
import Forte.Datatypes.Numbers
import Forte.Lib.Runs
import Forte.Lib.Words

/-!
# Messages of a raw channel

A `RawChannel` hands what arrives at the socket below it to its function block, as a string. With
a size in its configuration, the socket channel collects that many bytes before it hands them on,
and without one it hands on what has arrived in a poll.

The polls of a connection cut the stream into blocks of the size, whatever arrives when
(`Forte.RawChannel.handed_run`). But a string takes 65534 bytes only, and what is behind them in a
block is lost; the size that is asked for is not compared with that. So all is as it should be
exactly if no larger size is accepted (`Forte.RawChannel.messages_iff`).
-/

namespace Forte

/-- `ComResult`. -/
inductive ComResult
  | ok | unknown | invalidId | terminated | invalidObject | dataTypeError | inhibited | noSocket
  | sendFailed | recvFailed | async | more | overflow
  deriving DecidableEq

/-- `CIEC_ANY::getDataTypeID`, which a `CIEC_ANY_VARIANT` does not override. -/
def AnyVariant.getDataTypeID (_ : AnyVariant) : EDataTypeID := .any

namespace RawChannel

/-- `CIEC_ANY_STRING::scmMaxStringLen`. -/
def scmMaxStringLen : ℕ := 65534

/-! ### The socket channel -/

/-- A `SocketChannel` with its `ComBuffer`. -/
structure SocketChannel where
  /-- The first `size` bytes of the buffer. -/
  mBuffer : List UInt8
  /-- `mCapacity` of the buffer. -/
  mCapacity : ℕ
  mMinReceiveSize : ℕ
  mMaxReceiveSize : ℕ

namespace SocketChannel

/-- A channel that has been constructed. -/
def initial : SocketChannel where
  mBuffer := []
  mCapacity := 0
  mMinReceiveSize := 0
  mMaxReceiveSize := 0

/-- `setMaxReceiveSize`; `realloc` says for which sizes there is memory. -/
def setMaxReceiveSize (realloc : ℕ → Bool) (c : SocketChannel) (paSize : ℕ) :
    ComResult × SocketChannel :=
  if paSize > c.mCapacity then
    if realloc paSize then
      (.ok, { c with mCapacity := paSize, mMaxReceiveSize := paSize })
    else (.overflow, c)
  else (.ok, { c with mMaxReceiveSize := paSize })

/-- `setMinReceiveSize`. -/
def setMinReceiveSize (c : SocketChannel) (paSize : ℕ) : ComResult × SocketChannel :=
  (.ok, { c with mMinReceiveSize := paSize })

/-- The number of bytes `recv` asks for, a `size_t`. -/
def requested (c : SocketChannel) : ℕ :=
  (((c.mMaxReceiveSize : ℤ) - c.mBuffer.length) % 2 ^ 64).toNat

end SocketChannel

/-! ### Opening -/

/-- `parseSize`: `std::from_chars` of a `size_t`, which has to take the whole text. The largest
value is the one that stands for an error. -/
def parseSize (paConfigString : Text) : Option ℕ :=
  if paConfigString ≠ [] && paConfigString.all isDigit then
    let result := paConfigString.foldl (fun value c => 10 * value + charHexDigitToInt c) 0
    if result < 2 ^ 64 - 1 then some result else none
  else none

/-- What opening a channel depends on beside its configuration. -/
structure Surroundings where
  /-- There is a descriptor, and the factory has a channel for it. -/
  created : Bool
  /-- The sizes for which there is memory. -/
  realloc : ℕ → Bool
  /-- `SocketChannel::open`. -/
  openSocket : ComResult

/-- The sizes of a channel are set by its configuration. -/
def configure (env : Surroundings) (paConfigString : Text) : ComResult × SocketChannel :=
  if paConfigString = [] then
    SocketChannel.initial.setMaxReceiveSize env.realloc scmMaxStringLen
  else
    match parseSize paConfigString with
    | none => (.invalidId, .initial)
    | some size =>
      match SocketChannel.initial.setMaxReceiveSize env.realloc size with
      | (.ok, mChannel) => mChannel.setMinReceiveSize size
      | (result, mChannel) => (result, mChannel)

/-- `RawChannel::open`, with the channel it leaves. -/
def openChannel (env : Surroundings) (paConfigString : Text) :
    ComResult × Option SocketChannel :=
  if !env.created then (.invalidId, none)
  else
    match configure env paConfigString with
    | (.ok, mChannel) => (env.openSocket, some mChannel)
    | (result, mChannel) => (result, some mChannel)

/-! ### Receiving -/

theorem isAlternative_string (storage : Text) : IsAlternative (.string none storage) := rfl

/-- A variable that holds a string. -/
def holding (storage : Text) : AnyVariant := ⟨.string none storage, isAlternative_string storage⟩

/-- A `CIEC_STRING` that is constructed from characters and their number. -/
def string (paValue : List UInt8) : AnyVariant := holding (paValue.take scmMaxStringLen)

/-- A `CommunicationFB`. -/
structure CommunicationFB where
  mGenDOs : List AnyVariant
  /-- What has been handed to `receive`. -/
  handed : List (List AnyVariant)

/-- `CommunicationFB::receive`. -/
def CommunicationFB.receive (fb : CommunicationFB) (paData : List AnyVariant) :
    ComResult × CommunicationFB :=
  if paData.length = fb.mGenDOs.length then
    (.ok, ⟨paData.map fun x => .setValue x.held, fb.handed ++ [paData]⟩)
  else (.dataTypeError, { fb with handed := fb.handed ++ [paData] })

/-- `RawChannel::receive`. -/
def receive (fb : CommunicationFB) (paData : List UInt8) : ComResult × CommunicationFB :=
  match fb.mGenDOs with
  | [receiveBuffer] =>
    if receiveBuffer.getDataTypeID = .string then
      -- `assign` takes a length of 16 bits
      let assigned := holding (paData.take (paData.length % 65536))
      { fb with mGenDOs := [assigned] }.receive [assigned]
    else fb.receive [string paData]
  | _ => fb.receive [string paData]

/-- A connection: the channel, its function block, and what has still to come. -/
structure State where
  mChannel : SocketChannel
  fb : CommunicationFB
  pending : List UInt8

namespace State

/-- What a poll receives when a number of bytes is there: not more than it asks for. -/
def arriving (s : State) (ready : ℕ) : List UInt8 :=
  s.pending.take (min ready s.mChannel.requested)

/-- `poll`. -/
def poll (s : State) (ready : ℕ) : ComResult × State :=
  let bytes := s.arriving ready
  if bytes = [] then (.recvFailed, s)
  else
    let mChannel := { s.mChannel with mBuffer := s.mChannel.mBuffer ++ bytes }
    let pending := s.pending.drop bytes.length
    if mChannel.mBuffer.length < mChannel.mMinReceiveSize then (.more, { s with mChannel, pending })
    else
      let (result, fb) := receive s.fb mChannel.mBuffer
      if result ≠ .more then (.async, ⟨{ mChannel with mBuffer := [] }, fb, pending⟩)
      else (.async, ⟨mChannel, fb, pending⟩)

/-- The connection after a poll. -/
def next (s : State) (ready : ℕ) : State := (s.poll ready).2

/-- What is received by the polls, one after the other. -/
def chunks (s : State) : List ℕ → List (List UInt8)
  | [] => []
  | ready :: polls =>
    if s.arriving ready = [] then (s.next ready).chunks polls
    else s.arriving ready :: (s.next ready).chunks polls

/-- A poll does not ask for more than the buffer has room for. -/
def Fits (s : State) : Prop :=
  s.mChannel.mBuffer.length + s.mChannel.requested ≤ s.mChannel.mCapacity

end State

/-- A connection over a channel that has been opened, with the stream that will arrive. -/
def connected (mChannel : SocketChannel) (mGenDOs : List AnyVariant) (stream : List UInt8) :
    State :=
  ⟨mChannel, ⟨mGenDOs, []⟩, stream⟩

/-- **What is asked of the messages**: a size that a string cannot hold is rejected; no poll asks
for more bytes than there is room for; with a size, what has been handed on are the consecutive
blocks of the stream, and the buffer has less than one; without, what has been received. -/
def Meets (env : Surroundings) (paConfigString : Text) : Prop :=
  ∀ mChannel, openChannel env paConfigString = (.ok, some mChannel) →
    (∀ size, parseSize paConfigString = some size → size ≤ scmMaxStringLen) ∧
    ∀ mGenDOs stream polls,
      let s := Runs.run State.next (connected mChannel mGenDOs stream) polls
      s.Fits ∧
      (∀ size, parseSize paConfigString = some size → 1 ≤ size →
        ∃ blocks : List (List UInt8),
          s.fb.handed = blocks.map (fun block => [holding block]) ∧
          (∀ block ∈ blocks, block.length = size) ∧
          blocks.flatten ++ s.mChannel.mBuffer ++ s.pending = stream ∧
          s.mChannel.mBuffer.length < size) ∧
      (paConfigString = [] → s.fb.handed =
        ((connected mChannel mGenDOs stream).chunks polls).map fun chunk => [holding chunk])

/-- Memory and a socket are there for a size. -/
def Surroundings.Accepts (env : Surroundings) (size : ℕ) : Prop :=
  env.created = true ∧ env.realloc size = true ∧ env.openSocket = .ok

/-! ### One poll -/

/-- What is in the string that is handed on; the answer is not that there should be more. -/
theorem receive_spec (fb : CommunicationFB) (paData : List UInt8) :
    (receive fb paData).1 ≠ .more ∧
      (receive fb paData).2.handed = fb.handed ++ [[string paData]] := by
  have hfb : (fb.receive [string paData]).1 ≠ .more ∧
      (fb.receive [string paData]).2.handed = fb.handed ++ [[string paData]] := by
    rw [CommunicationFB.receive]
    split
    · exact ⟨nofun, rfl⟩
    · exact ⟨nofun, rfl⟩
  rw [receive]
  split
  · rw [if_neg (show AnyVariant.getDataTypeID _ ≠ .string from nofun)]
    exact hfb
  · exact hfb

namespace State

/-- What a poll can do: nothing, if nothing has come; add what has come to the buffer; or hand
all of it on. -/
theorem next_cases (s : State) (ready : ℕ) :
    (s.arriving ready = [] ∧ s.next ready = s) ∨
    (s.arriving ready ≠ [] ∧
      (s.mChannel.mBuffer ++ s.arriving ready).length < s.mChannel.mMinReceiveSize ∧
      s.next ready = { s with
        mChannel := { s.mChannel with mBuffer := s.mChannel.mBuffer ++ s.arriving ready }
        pending := s.pending.drop (s.arriving ready).length }) ∨
    (s.arriving ready ≠ [] ∧
      s.mChannel.mMinReceiveSize ≤ (s.mChannel.mBuffer ++ s.arriving ready).length ∧
      ∃ fb : CommunicationFB,
        fb.handed = s.fb.handed ++ [[string (s.mChannel.mBuffer ++ s.arriving ready)]] ∧
        s.next ready = ⟨{ s.mChannel with mBuffer := [] }, fb,
          s.pending.drop (s.arriving ready).length⟩) := by
  rw [next, poll]
  dsimp only
  split
  · rename_i hnone
    exact .inl ⟨hnone, rfl⟩
  · rename_i hsome
    split
    · rename_i hmin
      exact .inr (.inl ⟨hsome, hmin, rfl⟩)
    · rename_i hmin
      obtain ⟨hmore, hhanded⟩ := receive_spec s.fb (s.mChannel.mBuffer ++ s.arriving ready)
      rw [if_pos hmore]
      exact .inr (.inr ⟨hsome, not_lt.mp hmin, _, hhanded, rfl⟩)

theorem arriving_append_drop (s : State) (ready : ℕ) :
    s.arriving ready ++ s.pending.drop (s.arriving ready).length = s.pending :=
  List.prefix_iff_eq_append.mp (List.take_prefix _ _)

theorem length_arriving_le (s : State) (ready : ℕ) :
    (s.arriving ready).length ≤ s.mChannel.requested := by
  rw [arriving, List.length_take]
  omega

/-! ### The state of an open channel -/

/-- A channel with its sizes set, between two polls. -/
structure Sized (least most : ℕ) (s : State) : Prop where
  least_eq : s.mChannel.mMinReceiveSize = least
  most_eq : s.mChannel.mMaxReceiveSize = most
  room : most ≤ s.mChannel.mCapacity
  below : s.mChannel.mBuffer.length ≤ most

variable {least most : ℕ} {s : State}

theorem Sized.requested_eq (h : s.Sized least most) (hmost : most < 2 ^ 64) :
    s.mChannel.requested = most - s.mChannel.mBuffer.length := by
  obtain ⟨-, hmax, -, hbelow⟩ := h
  rw [SocketChannel.requested, hmax, Int.emod_eq_of_lt (by omega) (by omega)]
  omega

theorem Sized.fits (h : s.Sized least most) (hmost : most < 2 ^ 64) : s.Fits := by
  rw [Fits, h.requested_eq hmost]
  have hroom := h.room
  have hbelow := h.below
  omega

/-- A poll does not fill the buffer beyond the size. -/
theorem Sized.length_append_le (h : s.Sized least most) (hmost : most < 2 ^ 64) (ready : ℕ) :
    (s.mChannel.mBuffer ++ s.arriving ready).length ≤ most := by
  have hle := s.length_arriving_le ready
  rw [h.requested_eq hmost] at hle
  have hbelow := h.below
  rw [List.length_append]
  omega

theorem Sized.next (h : s.Sized least most) (hmost : most < 2 ^ 64) (ready : ℕ) :
    (s.next ready).Sized least most := by
  have hle := h.length_append_le hmost ready
  obtain ⟨hmin, hmax, hroom, hbelow⟩ := h
  obtain ⟨-, hnext⟩ | ⟨-, -, hnext⟩ | ⟨-, -, fb, -, hnext⟩ := s.next_cases ready
  · rw [hnext]
    exact ⟨hmin, hmax, hroom, hbelow⟩
  · rw [hnext]
    exact ⟨hmin, hmax, hroom, hle⟩
  · rw [hnext]
    exact ⟨hmin, hmax, hroom, Nat.zero_le _⟩

theorem Sized.run (h : s.Sized least most) (hmost : most < 2 ^ 64) (polls : List ℕ) :
    (Runs.run State.next s polls).Sized least most := by
  induction polls generalizing s with
  | nil => exact h
  | cons ready polls ih => exact ih (h.next hmost ready)

/-! ### The blocks -/

/-- What has been handed on are blocks of the stream, as far as a string holds them, and what is
behind them is in the buffer or has not come. -/
def Framed (size : ℕ) (stream : List UInt8) (s : State) : Prop :=
  ∃ blocks : List (List UInt8),
    s.fb.handed = blocks.map (fun block => [string block]) ∧
    (∀ block ∈ blocks, block.length = size) ∧
    blocks.flatten ++ s.mChannel.mBuffer ++ s.pending = stream ∧
    s.mChannel.mBuffer.length < size

/-- **A poll keeps the blocks**: it adds to the buffer, and completes at most one block. -/
theorem Framed.next {size : ℕ} {stream : List UInt8} (h : s.Framed size stream)
    (hsized : s.Sized size size) (hsize : size < 2 ^ 64) (ready : ℕ) :
    (s.next ready).Framed size stream := by
  obtain ⟨blocks, hhanded, hblocks, hstream, hbelow⟩ := h
  have hpending := s.arriving_append_drop ready
  have hle := hsized.length_append_le hsize ready
  obtain ⟨-, hnext⟩ | ⟨-, hmin, hnext⟩ | ⟨-, hmin, fb, hfb, hnext⟩ := s.next_cases ready
  · rw [hnext]
    exact ⟨blocks, hhanded, hblocks, hstream, hbelow⟩
  · rw [hsized.least_eq] at hmin
    rw [hnext]
    refine ⟨blocks, hhanded, hblocks, ?_, hmin⟩
    dsimp only
    rw [← hstream]
    conv_rhs => rw [← hpending]
    simp only [List.append_assoc]
  · rw [hsized.least_eq] at hmin
    rw [hnext]
    refine ⟨blocks ++ [s.mChannel.mBuffer ++ s.arriving ready], ?_, ?_, ?_, ?_⟩
    · rw [hfb, hhanded, List.map_append]
      rfl
    · intro block hblock
      rcases List.mem_append.mp hblock with hblock | hblock
      · exact hblocks block hblock
      · rw [List.mem_singleton.mp hblock]
        exact le_antisymm hle hmin
    · dsimp only
      rw [← hstream]
      conv_rhs => rw [← hpending]
      simp only [List.flatten_append, List.flatten_singleton, List.append_assoc, List.nil_append]
    · exact (Nat.zero_le _).trans_lt hbelow

theorem Framed.run {size : ℕ} {stream : List UInt8} (h : s.Framed size stream)
    (hsized : s.Sized size size) (hsize : size < 2 ^ 64) (polls : List ℕ) :
    (Runs.run State.next s polls).Framed size stream := by
  induction polls generalizing s with
  | nil => exact h
  | cons ready polls ih => exact ih (h.next hsized hsize ready) (hsized.next hsize ready)

/-- Without a size everything is handed on at once. -/
theorem next_unsized (h : s.Sized 0 most) (hempty : s.mChannel.mBuffer = []) (ready : ℕ) :
    (s.next ready).mChannel.mBuffer = [] ∧
      (s.next ready).fb.handed = s.fb.handed ++
        if s.arriving ready = [] then [] else [[string (s.arriving ready)]] := by
  obtain ⟨hnone, hnext⟩ | ⟨-, hmin, -⟩ | ⟨hsome, -, fb, hfb, hnext⟩ := s.next_cases ready
  · rw [hnext, if_pos hnone, List.append_nil]
    exact ⟨hempty, rfl⟩
  · rw [h.least_eq] at hmin
    exact absurd hmin (Nat.not_lt_zero _)
  · rw [hnext, if_neg hsome, hfb, hempty]
    exact ⟨rfl, rfl⟩

theorem handed_run_unsized (h : s.Sized 0 most) (hmost : most < 2 ^ 64)
    (hempty : s.mChannel.mBuffer = []) (polls : List ℕ) :
    (Runs.run State.next s polls).fb.handed =
      s.fb.handed ++ (s.chunks polls).map fun chunk => [string chunk] := by
  induction polls generalizing s with
  | nil => exact (List.append_nil _).symm
  | cons ready polls ih =>
    obtain ⟨hempty', hhanded⟩ := next_unsized h hempty ready
    have hrest := ih (h.next hmost ready) hempty'
    rw [hhanded, List.append_assoc] at hrest
    refine hrest.trans (congrArg (s.fb.handed ++ ·) ?_)
    rw [chunks]
    split
    · rfl
    · rfl

/-- What is received is not more than the size. -/
theorem length_le_of_mem_chunks (h : s.Sized least most) (hmost : most < 2 ^ 64)
    {polls : List ℕ} {chunk : List UInt8} (hchunk : chunk ∈ s.chunks polls) :
    chunk.length ≤ most := by
  induction polls generalizing s with
  | nil => exact absurd hchunk List.not_mem_nil
  | cons ready polls ih =>
    have hnext := h.next hmost ready
    have hle := h.length_append_le hmost ready
    rw [List.length_append] at hle
    rw [chunks] at hchunk
    split at hchunk
    · exact ih hnext hchunk
    · rcases List.mem_cons.mp hchunk with rfl | hchunk
      · omega
      · exact ih hnext hchunk

end State

/-! ### Opening and receiving -/

theorem parseSize_lt {paConfigString : Text} {size : ℕ} (h : parseSize paConfigString = some size) :
    size < 2 ^ 64 := by
  rw [parseSize] at h
  split at h
  · dsimp only at h
    split at h
    · rename_i hlt
      rw [← Option.some.inj h]
      exact lt_of_lt_of_le hlt (Nat.sub_le _ _)
    · cases h
  · cases h

theorem ne_nil_of_parseSize {paConfigString : Text} {size : ℕ}
    (h : parseSize paConfigString = some size) : paConfigString ≠ [] := by
  rintro rfl
  cases h

/-- A new channel is given its largest size, unless there is no memory for it. -/
theorem setMaxReceiveSize_initial (realloc : ℕ → Bool) (size : ℕ) :
    SocketChannel.initial.setMaxReceiveSize realloc size =
      if 0 < size && !realloc size then (.overflow, .initial)
      else (.ok, ⟨[], size, 0, size⟩) := by
  rw [SocketChannel.setMaxReceiveSize]
  rcases Nat.eq_zero_or_pos size with rfl | hpos
  · rfl
  · rw [if_pos (show size > SocketChannel.initial.mCapacity from hpos), decide_eq_true hpos]
    cases realloc size <;> rfl

/-- What a channel is like whose sizes could be set. -/
theorem configure_ok {env : Surroundings} {paConfigString : Text} {mChannel : SocketChannel}
    (h : configure env paConfigString = (.ok, mChannel)) :
    (paConfigString = [] ∧ mChannel = ⟨[], scmMaxStringLen, 0, scmMaxStringLen⟩) ∨
      ∃ size, parseSize paConfigString = some size ∧ mChannel = ⟨[], size, size, size⟩ ∧
        (0 < size → env.realloc size = true) := by
  rw [configure] at h
  split at h
  · rename_i hnil
    rw [setMaxReceiveSize_initial] at h
    split at h
    · cases h
    · exact .inl ⟨hnil, (Prod.mk.inj h).2.symm⟩
  · cases hsize : parseSize paConfigString with
    | none =>
      rw [hsize] at h
      cases h
    | some size =>
      rw [hsize] at h
      dsimp only at h
      rw [setMaxReceiveSize_initial] at h
      split_ifs at h with hmemory
      · cases h
      · refine .inr ⟨size, rfl, (Prod.mk.inj h).2.symm, fun hpos => ?_⟩
        simpa [hpos] using hmemory

theorem openChannel_ok {env : Surroundings} {paConfigString : Text} {mChannel : SocketChannel}
    (h : openChannel env paConfigString = (.ok, some mChannel)) :
    (paConfigString = [] ∧ mChannel = ⟨[], scmMaxStringLen, 0, scmMaxStringLen⟩) ∨
      ∃ size, parseSize paConfigString = some size ∧ mChannel = ⟨[], size, size, size⟩ ∧
        (0 < size → env.Accepts size) := by
  rw [openChannel] at h
  cases hcreated : env.created with
  | false =>
    rw [hcreated] at h
    cases h
  | true =>
    rw [hcreated] at h
    rcases hconfigure : configure env paConfigString with ⟨result, mChannel'⟩
    rw [hconfigure] at h
    cases result with
    | ok =>
      obtain ⟨hopen, heq⟩ := Prod.mk.inj h
      obtain rfl : mChannel' = mChannel := Option.some.inj heq
      rcases configure_ok hconfigure with hunsized | ⟨size, hsize, hmChannel, hrealloc⟩
      · exact .inl hunsized
      · exact .inr ⟨size, hsize, hmChannel, fun hpos => ⟨hcreated, hrealloc hpos, hopen⟩⟩
    | _ => cases h

theorem openChannel_of_accepts {env : Surroundings} {paConfigString : Text} {size : ℕ}
    (hsize : parseSize paConfigString = some size) (h : env.Accepts size) :
    openChannel env paConfigString = (.ok, some ⟨[], size, size, size⟩) := by
  obtain ⟨hcreated, hrealloc, hopen⟩ := h
  have hconfigure : configure env paConfigString = (.ok, ⟨[], size, size, size⟩) := by
    rw [configure, if_neg (ne_nil_of_parseSize hsize), hsize]
    dsimp only
    rw [setMaxReceiveSize_initial, hrealloc, Bool.not_true, Bool.and_false]
    rfl
  rw [openChannel, hcreated, hconfigure]
  dsimp only
  rw [hopen]
  rfl

/-- An open channel before the first poll. -/
theorem sized_connected (least most : ℕ) (mGenDOs : List AnyVariant) (stream : List UInt8) :
    (connected ⟨[], most, least, most⟩ mGenDOs stream).Sized least most :=
  ⟨rfl, rfl, le_rfl, Nat.zero_le _⟩

/-- **The polls cut the stream into blocks of the size**, and a string has as much of a block as it
can hold. -/
theorem handed_run {size : ℕ} (hpos : 1 ≤ size) (hsize : size < 2 ^ 64)
    (mGenDOs : List AnyVariant) (stream : List UInt8) (polls : List ℕ) :
    (Runs.run State.next (connected ⟨[], size, size, size⟩ mGenDOs stream) polls).Framed
      size stream :=
  State.Framed.run ⟨[], rfl, fun _ h => absurd h List.not_mem_nil, rfl, hpos⟩
    (sized_connected size size mGenDOs stream) hsize polls

/-- A string has all of a block that is not too long. -/
theorem string_eq {block : List UInt8} (h : block.length ≤ scmMaxStringLen) :
    string block = holding block := by
  rw [string, List.take_of_length_le h]

/-- **The messages are as they should be exactly if no size beyond that of a string is
accepted.** -/
theorem messages_iff (env : Surroundings) (paConfigString : Text) :
    Meets env paConfigString ↔
      ∀ size, parseSize paConfigString = some size → scmMaxStringLen < size →
        ¬env.Accepts size := by
  constructor
  · intro h size hsize hlt haccepts
    have hopen := openChannel_of_accepts hsize haccepts
    exact absurd ((h _ hopen).1 size hsize) (not_le.mpr hlt)
  · intro h mChannel hopen
    rcases openChannel_ok hopen with ⟨rfl, rfl⟩ | ⟨size, hsize, rfl, haccepts⟩
    · have hmost : scmMaxStringLen < 2 ^ 64 := by decide
      refine ⟨fun _ hsize => absurd hsize nofun, fun mGenDOs stream polls => ?_⟩
      have hsized := sized_connected 0 scmMaxStringLen mGenDOs stream
      refine ⟨(hsized.run hmost polls).fits hmost, fun _ hsize => absurd hsize nofun, fun _ => ?_⟩
      rw [State.handed_run_unsized hsized hmost rfl]
      refine List.map_congr_left fun chunk hchunk => ?_
      rw [string_eq (State.length_le_of_mem_chunks hsized hmost hchunk)]
    · have hlt := parseSize_lt hsize
      have hle : size ≤ scmMaxStringLen := by
        by_contra hbeyond
        exact h size hsize (not_le.mp hbeyond) (haccepts (by omega))
      refine ⟨?_, fun mGenDOs stream polls => ⟨?_, ?_, fun hnil => ?_⟩⟩
      · rintro size' hsize'
        rw [hsize] at hsize'
        rwa [← Option.some.inj hsize']
      · exact ((sized_connected size size mGenDOs stream).run hlt polls).fits hlt
      · rintro size' hsize' hpos
        obtain rfl : size = size' := Option.some.inj (hsize.symm.trans hsize')
        obtain ⟨blocks, hhanded, hblocks, hrest⟩ := handed_run hpos hlt mGenDOs stream polls
        refine ⟨blocks, hhanded.trans (List.map_congr_left fun block hblock => ?_), hblocks, hrest⟩
        rw [string_eq ((hblocks block hblock).le.trans hle)]
      · exact absurd hnil (ne_nil_of_parseSize hsize)

/-- **A size of 65535 is accepted**, one more than a string can hold. -/
theorem not_meets_beyond : ¬Meets ⟨true, fun _ => true, .ok⟩ (text "65535") := by
  intro h
  have hopen : openChannel ⟨true, fun _ => true, .ok⟩ (text "65535") =
      (.ok, some ⟨[], 65535, 65535, 65535⟩) := rfl
  exact absurd ((h _ hopen).1 65535 rfl) (by decide)

end RawChannel

end Forte
