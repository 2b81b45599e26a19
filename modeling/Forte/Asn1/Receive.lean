import Forte.Asn1.Reading
import Forte.Lib.InTurn

/-!
# Receiving

`recvData` is handed packets as they come from the network and fills in the data points of
the function block, its RDs, one after the other. A packet may hold less than one sample
of them, or more; the position `mDOPos` and the buffer `mDeserBuf` carry what has been
received from one packet to the next. This file follows the function, and says what it
does with the bytes of a stream of samples.

## The shape of the model

`mDeserBufPos` is the length of the bytes kept, so that the buffer is modelled by these
bytes. Where bytes are kept again after data points have been read from the buffer, the
source copies within the buffer; the model takes the bytes to be moved.

The number of bytes at hand is an `unsigned int`. `Forte.Receiver.recvData` has no result
where the sum of the bytes kept and of the new ones overflows, since the source then
writes beyond the buffer.

Every pass of the loop uses up one byte at least; the fuel counts the passes
(`Forte.Receiver.recvLoop`).
-/

namespace Forte

/-- `EComResponse`, as far as `recvData` answers with it. -/
inductive EComResponse
  | nothing | processDataOk | processDataDataTypeError
  deriving DecidableEq, Repr

/-- The receiving half of the layer, with the RDs of its function block. -/
structure Receiver where
  /-- The RDs. -/
  rds : List Value
  /-- `mDOPos`, the position of the RD that is received next. -/
  doPos : ℕ
  /-- The first `mDeserBufPos` bytes of `mDeserBuf`. -/
  deserBuf : List UInt8

namespace Receiver

/-! ### `recvData` -/

/-- Try to receive the next RD: the number of bytes used, and the RDs afterwards. -/
def deserializeNext (behind : UInt8) (s : Receiver) (usedBuffer : List UInt8) :
    Option (ℤ × List Value) :=
  if s.rds.length = 0 then some (1, s.rds)
  else
    match s.rds[s.doPos]? with
    | none => none
    | some rd => (deserializeDataPoint behind rd (sizedAsInt usedBuffer)).map fun r =>
        (r.1, s.rds.set s.doPos r.2)

/-- Keep the bytes at hand for the next packet. -/
def keep (s : Receiver) (usedBuffer : List UInt8) : Receiver :=
  if s.deserBuf = [] then { s with deserBuf := usedBuffer } else s

/-- Go on to the next RD. -/
def advance (s : Receiver) : Receiver := { s with doPos := s.doPos + 1, deserBuf := [] }

/-- The end of a pass: behind the last RD, a sample is complete. -/
def endPass (s : Receiver) (eRetVal : EComResponse) : EComResponse × Receiver :=
  if s.rds.length ≤ s.doPos then (.processDataOk, { s with doPos := 0 }) else (eRetVal, s)

/-- The loop of `recvData`. -/
def recvLoop (behind : UInt8) :
    ℕ → Receiver → List UInt8 → EComResponse → Option (EComResponse × Receiver)
  | 0, s, _, eRetVal => some (eRetVal, s)
  | passes + 1, s, usedBuffer, eRetVal =>
    if usedBuffer = [] then some (eRetVal, s)
    else do
      let (nBuf, rds) ← s.deserializeNext behind usedBuffer
      let s := { s with rds }
      if nBuf = -2 then some (.processDataDataTypeError, s)
      else if nBuf ≤ 0 then
        let (eRetVal, s) := (s.keep usedBuffer).endPass eRetVal
        recvLoop behind passes s [] eRetVal
      else
        let (eRetVal, s) := s.advance.endPass eRetVal
        recvLoop behind passes s (usedBuffer.drop nBuf.toNat) eRetVal

/-- `recvData`. -/
def recvData (behind : UInt8) (s : Receiver) (packet : List UInt8) :
    Option (EComResponse × Receiver) :=
  let usedBuffer := s.deserBuf ++ packet
  if 4294967296 ≤ usedBuffer.length then none
  else if s.deserBuf = [] then recvLoop behind packet.length s packet .nothing
  else recvLoop behind usedBuffer.length { s with deserBuf := usedBuffer } usedBuffer .nothing

/-- One packet after the other, each with the byte behind it: the responses, and the state
in the end. -/
def recvAll (s : Receiver) : List (UInt8 × List UInt8) → Option (List EComResponse × Receiver)
  | [] => some ([], s)
  | (behind, packet) :: packets => do
    let (response, s') ← s.recvData behind packet
    let (responses, s'') ← s'.recvAll packets
    some (response :: responses, s'')

/-! ### One pass -/

/-- RDs whose encodings the deserializer reads. -/
def Receivable (rds : List Value) : Prop := ∀ v ∈ rds, v.WellTyped ∧ v.ItemsTakeBytes

theorem sameType_of_pointEncoding {v w : Value} {bs : List UInt8} (h : v.pointEncoding bs w) :
    Value.SameType v w := by
  obtain ⟨tag, body, u, rfl, -, -, hbody, rfl⟩ := h
  exact (Value.encoding_again hbody).2.trans (Value.sameType_storeTag tag u)

theorem Receivable.set {rds : List Value} (h : Receivable rds) {k : ℕ} {v w : Value}
    (hv : rds[k]? = some v) (hsame : Value.SameType v w) : Receivable (rds.set k w) := by
  intro u hu
  rcases List.mem_or_eq_of_mem_set hu with hmem | rfl
  · exact h u hmem
  · obtain ⟨hw, hi⟩ := h v (List.mem_of_getElem? hv)
    exact ⟨hsame.wellTyped_iff.mp hw, hsame.itemsTakeBytes_iff.mp hi⟩

variable {behind : UInt8}

theorem recvLoop_nil (passes : ℕ) (s : Receiver) (eRetVal : EComResponse) :
    recvLoop behind passes s [] eRetVal = some (eRetVal, s) := by
  cases passes <;> rfl

theorem deserializeNext_eq {rds : List Value} {k : ℕ} {v : Value} (hv : rds[k]? = some v)
    (deserBuf usedBuffer : List UInt8) :
    deserializeNext behind ⟨rds, k, deserBuf⟩ usedBuffer =
      (deserializeDataPoint behind v (sizedAsInt usedBuffer)).map
        fun r => (r.1, rds.set k r.2) := by
  have hpos : 0 < rds.length := List.length_pos_of_mem (List.mem_of_getElem? hv)
  simp only [deserializeNext, hv]
  exact if_neg (by omega)

/-- Behind the RD at position `k`, it is the turn of the next one, or of the first one
again. -/
theorem endPass_advance {rds : List Value} {n k : ℕ} (hn : 0 < n) (hlen : rds.length = n)
    (deserBuf : List UInt8) (eRetVal : EComResponse) :
    (advance ⟨rds, k % n, deserBuf⟩).endPass eRetVal =
      (if n ∣ k + 1 then .processDataOk else eRetVal, ⟨rds, (k + 1) % n, []⟩) := by
  have hlt : k % n < n := Nat.mod_lt k hn
  have hdvd : n ∣ k + 1 ↔ n ≤ k % n + 1 := by
    rw [Nat.dvd_iff_mod_eq_zero, ← Nat.mod_add_mod]
    rcases Nat.lt_or_ge (k % n + 1) n with h | h
    · rw [Nat.mod_eq_of_lt h]
      omega
    · rw [show k % n + 1 = n by omega, Nat.mod_self]
      exact iff_of_true rfl le_rfl
  rw [endPass, advance, hlen]
  by_cases h : n ∣ k + 1
  · rw [if_pos (hdvd.mp h), if_pos h, Nat.mod_eq_zero_of_dvd h]
  · have hlt' : k % n + 1 < n := not_le.mp (mt hdvd.mpr h)
    rw [if_neg (mt hdvd.mpr h), if_neg h, ← Nat.mod_add_mod, Nat.mod_eq_of_lt hlt']

/-- A pass over the encoding of the next RD. -/
theorem recvLoop_point {rds : List Value} (hrds : Receivable rds) {k : ℕ} {v w : Value}
    (hv : rds[k % rds.length]? = some v) {word : List UInt8} (hword : v.pointEncoding word w)
    (more : List UInt8) (hlen : (word ++ more).length ≤ intMax) (passes : ℕ)
    (deserBuf : List UInt8) (eRetVal : EComResponse) :
    recvLoop behind (passes + 1) ⟨rds, k % rds.length, deserBuf⟩ (word ++ more) eRetVal =
      recvLoop behind passes ⟨rds.set (k % rds.length) w, (k + 1) % rds.length, []⟩ more
        (if rds.length ∣ k + 1 then .processDataOk else eRetVal) := by
  obtain ⟨hw, hi⟩ := hrds v (List.mem_of_getElem? hv)
  have hpos : 0 < rds.length := List.length_pos_of_mem (List.mem_of_getElem? hv)
  have hne : word ≠ [] := by
    obtain ⟨tag, body, u, rfl, -⟩ := hword
    exact List.cons_ne_nil _ _
  have hread := Value.complete_deserializeDataPoint
    (Value.complete_deserializeValue behind hw hi) more hword
  have hnext : deserializeNext behind ⟨rds, k % rds.length, deserBuf⟩ (word ++ more) =
      some ((word.length : ℤ), rds.set (k % rds.length) w) := by
    rw [deserializeNext_eq hv, sizedAsInt_eq hlen, hread]
    rfl
  have hwpos : 0 < word.length := List.length_pos_iff.mpr hne
  rw [recvLoop, if_neg (by simp [hne]), hnext]
  simp only [Option.bind_eq_bind, Option.bind_some]
  rw [if_neg (by omega), if_neg (by omega), endPass_advance hpos List.length_set]
  simp only [Int.toNat_natCast, List.drop_left]

/-- A pass over the encoding of the next RD that has not arrived completely: what is there is
kept, and the RD can be received from the start. -/
theorem recvLoop_pending (behind : UInt8) {rds : List Value} (hrds : Receivable rds) {k : ℕ}
    {v a : Value} (hv : rds[k % rds.length]? = some v) {part missing : List UInt8}
    (hword : v.pointEncoding (part ++ missing) a) (hpart : part ≠ []) (hmissing : missing ≠ [])
    (hlen : part.length ≤ intMax) (passes : ℕ) {deserBuf : List UInt8}
    (hbuf : deserBuf = [] ∨ deserBuf = part) (eRetVal : EComResponse) :
    ∃ w, recvLoop behind (passes + 1) ⟨rds, k % rds.length, deserBuf⟩ part eRetVal =
        some (eRetVal, ⟨rds.set (k % rds.length) w, k % rds.length, part⟩) ∧
      w.pointEncoding (part ++ missing) a ∧ Value.SameType v w := by
  obtain ⟨hw, hi⟩ := hrds v (List.mem_of_getElem? hv)
  have hpos : 0 < rds.length := List.length_pos_of_mem (List.mem_of_getElem? hv)
  have hlt := Nat.mod_lt k hpos
  obtain ⟨w, hread, hagain, hsame⟩ :=
    Value.pending_deserializeDataPoint behind hw hi hword hpart hmissing
  refine ⟨w, ?_, hagain, hsame⟩
  have hnext : deserializeNext behind ⟨rds, k % rds.length, deserBuf⟩ part =
      some (0, rds.set (k % rds.length) w) := by
    rw [deserializeNext_eq hv, sizedAsInt_eq hlen, hread]
    rfl
  have hkeep : keep ⟨rds.set (k % rds.length) w, k % rds.length, deserBuf⟩ part =
      ⟨rds.set (k % rds.length) w, k % rds.length, part⟩ := by
    rcases hbuf with rfl | rfl
    · rfl
    · exact if_neg hpart
  rw [recvLoop, if_neg hpart, hnext]
  simp only [Option.bind_eq_bind, Option.bind_some]
  rw [if_neg (by omega), if_pos le_rfl, hkeep, endPass, if_neg (by simpa using hlt), recvLoop_nil]

/-! ### The loop -/

/-- **Encodings that have arrived completely** are received, whatever follows them. A sample
is completed where the position passes a multiple of the number of RDs. -/
theorem recvLoop_inTurn (behind : UInt8) {rds after : List Value} (hrds : Receivable rds) {k m : ℕ}
    {word : List UInt8} (h : InTurn Value.pointEncoding rds k m word after) (more : List UInt8)
    (hlen : (word ++ more).length ≤ intMax) {passes : ℕ} (hpasses : (word ++ more).length ≤ passes)
    (deserBuf : List UInt8) (eRetVal : EComResponse) :
    ∃ passes', more.length ≤ passes' ∧
      recvLoop behind passes ⟨rds, k % rds.length, deserBuf⟩ (word ++ more) eRetVal =
        recvLoop behind passes'
          ⟨after, (k + m) % rds.length, if m = 0 then deserBuf else []⟩ more
          (if (k + m) / rds.length = k / rds.length then eRetVal else .processDataOk) := by
  induction m generalizing rds k word passes deserBuf eRetVal with
  | zero =>
    obtain ⟨rfl, rfl⟩ := h
    exact ⟨passes, hpasses, by simp⟩
  | succ m ih =>
    obtain ⟨v, bs₁, bs₂, w, hv, rfl, hword, hrest⟩ := h
    have hne : 0 < bs₁.length := by
      obtain ⟨tag, body, u, rfl, -⟩ := hword
      exact Nat.succ_pos _
    rw [List.append_assoc] at hlen hpasses ⊢
    rw [List.length_append] at hpasses
    obtain ⟨p, rfl⟩ : ∃ p, passes = p + 1 := ⟨passes - 1, by omega⟩
    rw [recvLoop_point hrds hv hword (bs₂ ++ more) hlen]
    rw [List.length_append] at hlen
    push_cast at hlen
    obtain ⟨passes', hpasses', hloop⟩ := ih (hrds.set hv (sameType_of_pointEncoding hword)) hrest
      (by omega) (by omega : (bs₂ ++ more).length ≤ p) []
      (if rds.length ∣ k + 1 then .processDataOk else eRetVal)
    rw [List.length_set] at hloop
    refine ⟨passes', hpasses', ?_⟩
    have hsum : k + 1 + m = k + (m + 1) := by omega
    have hresponse : (if (k + (m + 1)) / rds.length = (k + 1) / rds.length then
          (if rds.length ∣ k + 1 then EComResponse.processDataOk else eRetVal)
          else .processDataOk) =
        if (k + (m + 1)) / rds.length = k / rds.length then eRetVal else .processDataOk := by
      have hmono : (k + 1) / rds.length ≤ (k + (m + 1)) / rds.length :=
        Nat.div_le_div_right (by omega)
      have hsucc : (k + 1) / rds.length = k / rds.length + if rds.length ∣ k + 1 then 1 else 0 :=
        Nat.succ_div
      split_ifs at hsucc ⊢ <;> first | rfl | omega
    rw [hloop, hsum, hresponse, if_neg (Nat.succ_ne_zero m), ite_self]

theorem Receivable.inTurn {rds after : List Value} (hrds : Receivable rds) {k m : ℕ}
    {word : List UInt8} (h : InTurn Value.pointEncoding rds k m word after) :
    Receivable after := by
  induction m generalizing rds k word with
  | zero => rwa [h.2]
  | succ m ih =>
    obtain ⟨v, bs₁, bs₂, w, hv, -, hword, hrest⟩ := h
    exact ih (hrds.set hv (sameType_of_pointEncoding hword)) hrest

/-- What is kept at position `k`: nothing, or the beginning of an encoding of the RD there. -/
def Begun (rds : List Value) (k : ℕ) (kept : List UInt8) : Prop :=
  kept = [] ∨ ∃ v missing a, rds[k]? = some v ∧ missing ≠ [] ∧ v.pointEncoding (kept ++ missing) a

/-- **The beginning of a stream of encodings** is received as far as it goes: the RDs that are
complete, and of the one that is not the bytes are kept. Those together with the rest of the
stream are what is received next. -/
theorem recvLoop_prefix (behind : UInt8) {rds after : List Value} (hrds : Receivable rds) {k m : ℕ}
    {used post : List UInt8} (h : InTurn Value.pointEncoding rds k m (used ++ post) after)
    (hlen : used.length ≤ intMax) {passes : ℕ} (hpasses : used.length ≤ passes)
    {deserBuf : List UInt8} (hbuf : deserBuf = [] ∨ deserBuf = used) (eRetVal : EComResponse) :
    ∃ j m' rds' kept, m = j + m' ∧
      recvLoop behind passes ⟨rds, k % rds.length, deserBuf⟩ used eRetVal =
        some (if (k + j) / rds.length = k / rds.length then eRetVal else .processDataOk,
          ⟨rds', (k + j) % rds.length, kept⟩) ∧
      rds'.length = rds.length ∧ Receivable rds' ∧ kept <:+ used ∧ (kept ≠ [] → post ≠ []) ∧
      Begun rds' ((k + j) % rds.length) kept ∧
      InTurn Value.pointEncoding rds' (k + j) m' (kept ++ post) after := by
  obtain ⟨j, word, mid, hword, hcut⟩ := h.cut
  have hmid : mid.length = rds.length := hword.length_eq
  have hmids := hrds.inTurn hword
  rcases hcut with ⟨rfl, m', rfl, hpost⟩ |
    ⟨m', v, part, missing, rest, a, rfl, rfl, rfl, hpart, hmissing, hv, hnext, hlast⟩
  · obtain ⟨passes', -, hloop⟩ := recvLoop_inTurn behind hrds hword [] (by simpa)
      (by simpa : (used ++ []).length ≤ passes) deserBuf eRetVal
    have hempty : (if j = 0 then deserBuf else []) = [] := by
      split_ifs with hj
      · subst hj
        rcases hbuf with rfl | rfl
        · rfl
        · exact hword.1
      · rfl
    rw [List.append_nil, recvLoop_nil, hempty] at hloop
    exact ⟨j, m', mid, [], rfl, hloop, hmid, hmids, List.nil_suffix, fun h => absurd rfl h,
      .inl rfl, hpost⟩
  · obtain ⟨passes', hpasses', hloop⟩ := recvLoop_inTurn behind hrds hword part hlen
      hpasses deserBuf eRetVal
    obtain ⟨p, rfl⟩ : ∃ p, passes' = p + 1 :=
      ⟨passes' - 1, by have := List.length_pos_iff.mpr hpart; omega⟩
    have hbuf' : (if j = 0 then deserBuf else []) = [] ∨
        (if j = 0 then deserBuf else []) = part := by
      split_ifs with hj
      · subst hj
        rwa [hword.1, List.nil_append] at hbuf
      · exact .inl rfl
    have hlen' : part.length ≤ intMax := by
      rw [List.length_append] at hlen
      push_cast at hlen
      omega
    obtain ⟨w, hpending, hagain, hsame⟩ := recvLoop_pending behind hmids hv hnext hpart
      hmissing hlen' p hbuf' (if (k + j) / rds.length = k / rds.length then eRetVal
        else .processDataOk)
    rw [hmid] at hv hlast hpending
    have hlt : (k + j) % rds.length < mid.length := (List.getElem?_eq_some_iff.mp hv).1
    have hw : (mid.set ((k + j) % rds.length) w)[(k + j) % rds.length]? = some w := by
      rw [List.getElem?_set_self hlt]
    refine ⟨j, m' + 1, mid.set ((k + j) % rds.length) w, part, rfl, hloop.trans hpending,
      by rw [List.length_set, hmid], hmids.set hv hsame, List.suffix_append word part,
      fun _ => by simp [hmissing], .inr ⟨w, missing, a, hw, hmissing, hagain⟩, ?_⟩
    refine ⟨w, part ++ missing, rest, a, ?_, by rw [List.append_assoc], hagain, ?_⟩
    · rwa [List.length_set, hmid]
    · rwa [List.length_set, hmid, List.set_set]

/-! ### Samples -/

/-- The words of a sample: the encodings of the RDs one after the other, or the Null tag where
there are none. -/
def sampleEncoding (rds : List Value) : Language UInt8 (List Value) := fun bs after =>
  if rds = [] then bs = [nullTag] ∧ after = [] else Spells (rds.map Value.pointEncoding) bs after

/-- The state in which the first RD is next, and nothing has been kept. -/
def initial (rds : List Value) : Receiver := ⟨rds, 0, []⟩

theorem pointEncoding_ne_nil (v : Value) (bs : List UInt8) (w : Value)
    (h : v.pointEncoding bs w) : bs ≠ [] := by
  obtain ⟨tag, body, u, rfl, -⟩ := h
  exact List.cons_ne_nil _ _

/-- The loop runs over the bytes kept and the packet together, and clears the buffer only where
it was empty before. -/
theorem recvData_eq {s : Receiver} {packet : List UInt8}
    (hlen : (s.deserBuf ++ packet).length < 4294967296) :
    recvData behind s packet = recvLoop behind (s.deserBuf ++ packet).length
      ⟨s.rds, s.doPos, if s.deserBuf = [] then [] else s.deserBuf ++ packet⟩
      (s.deserBuf ++ packet) .nothing := by
  obtain ⟨rds, doPos, deserBuf⟩ := s
  rw [recvData, if_neg (not_le.mpr hlen)]
  by_cases h : deserBuf = []
  · subst h
    exact if_pos rfl
  · simp only [if_neg h]

theorem usedBuffer_cases (s : Receiver) (packet : List UInt8) :
    (if s.deserBuf = [] then [] else s.deserBuf ++ packet) = [] ∨
      (if s.deserBuf = [] then [] else s.deserBuf ++ packet) = s.deserBuf ++ packet := by
  split_ifs
  · exact .inl rfl
  · exact .inr rfl

theorem lt_of_le_intMax {n : ℕ} (h : n ≤ intMax) : n < 4294967296 := by
  rw [intMax] at h
  omega

end Receiver

end Forte
