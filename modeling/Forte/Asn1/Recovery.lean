import Forte.Asn1.Fragments

/-!
# Malformed bytes

Bytes that cannot be extended to samples of the RDs should be reported as
`e_ProcessDataDataTypeError`, and afterwards the layer should be ready for a new sample.
This is so only where the first wrong byte is met at the start of a sample, and is a tag of
the class `APPLICATION` that the first RD refuses (`Forte.Receiver.recovers_iff`).
Everywhere else one of two things goes wrong. A byte of another class where a tag should
be, or a value that cannot be read, is taken for a sample that has not arrived completely:
the bytes are kept, and no later packet brings the layer out of that. A refused tag of a
later RD is reported, but the position stays where it is (`Forte.Receiver.secondTag_refused`).

The proof needs both directions of what the loop does: that it receives what can be received
(`Forte.Receiver.recvLoop_prefix`), and that what it has received are encodings, up to the
point where it stopped (`Forte.Receiver.recvLoop_sound`).
-/

namespace Forte

namespace Receiver

/-! ### What the loop has received -/

/-- A data point that returns `-2` has refused the tag, and is left as it was. -/
theorem eq_of_deserializeDataPoint_eq_neg_two {behind : UInt8} {v w : Value} {bs : List UInt8}
    (hw : v.WellTyped) (h : deserializeDataPoint behind v bs = some (-2, w)) :
    w = v ∧ ∃ tag body, bs = tag :: body ∧ tag &&& eApplication = eApplication ∧
      tagMatches tag v = false := by
  cases bs with
  | nil => exact absurd (Prod.mk.inj (Option.some.inj h)).1 (by decide)
  | cons tag body =>
    rw [deserializeDataPoint, deserializeDataPointWith] at h
    split_ifs at h with happ htag
    · obtain ⟨⟨n, u⟩, hvalue, heq⟩ := Option.map_eq_some_iff.mp h
      have hn := Value.neg_two_le_deserializeValue hw body n u hvalue
      have hsum : n + 1 = -2 := (Prod.mk.inj heq).1
      omega
    · exact ⟨(Prod.mk.inj (Option.some.inj h)).2.symm, tag, body, rfl, happ, by simpa using htag⟩
    · exact absurd (Prod.mk.inj (Option.some.inj h)).1 (by decide)

/-- A pass that meets a tag the RD refuses. -/
theorem recvLoop_refused (behind : UInt8) {rds : List Value} {k : ℕ} {v : Value}
    (hv : rds[k]? = some v) {tag : UInt8} (happ : tag &&& eApplication = eApplication)
    (htag : tagMatches tag v = false) {body : List UInt8} (hlen : (tag :: body).length ≤ intMax)
    {passes : ℕ} (hpasses : (tag :: body).length ≤ passes) (deserBuf : List UInt8)
    (eRetVal : EComResponse) :
    recvLoop behind passes ⟨rds, k, deserBuf⟩ (tag :: body) eRetVal =
      some (.processDataDataTypeError, ⟨rds, k, deserBuf⟩) := by
  obtain ⟨p, rfl⟩ : ∃ p, passes = p + 1 := ⟨passes - 1, by rw [List.length_cons] at hpasses; omega⟩
  have hrun : deserializeDataPoint behind v (tag :: body) = some (-2, v) := by
    rw [deserializeDataPoint, deserializeDataPointWith, if_pos happ, htag]
    rfl
  have hsame : rds.set k v = rds := by
    obtain ⟨hk, rfl⟩ := List.getElem?_eq_some_iff.mp hv
    exact List.set_getElem_self hk
  rw [recvLoop, if_neg (List.cons_ne_nil _ _), deserializeNext_eq hv, sizedAsInt_eq hlen, hrun]
  simp only [Option.map_some, Option.bind_eq_bind, Option.bind_some, if_true, hsame]

theorem endPass_fst_ne (s : Receiver) {eRetVal : EComResponse}
    (h : eRetVal ≠ .processDataDataTypeError) :
    (s.endPass eRetVal).1 ≠ .processDataDataTypeError := by
  rw [endPass]
  split_ifs
  · rintro ⟨⟩
  · exact h

/-- **What the loop has received are encodings**, up to the point where it was through or
stopped; and where it answers that there is a wrong tag, there is one at this point. -/
theorem recvLoop_sound {behind : UInt8} {rds : List Value} (hrds : Receivable rds)
    (hne : rds ≠ []) {k : ℕ} {used : List UInt8} (hlen : used.length ≤ intMax) {passes : ℕ}
    {deserBuf : List UInt8} {eRetVal eRetVal' : EComResponse} {s' : Receiver}
    (heRetVal : eRetVal ≠ .processDataDataTypeError)
    (h : recvLoop behind passes ⟨rds, k % rds.length, deserBuf⟩ used eRetVal =
      some (eRetVal', s')) (herror : eRetVal' = .processDataDataTypeError) :
    ∃ m word tag body after v, used = word ++ tag :: body ∧
      InTurn Value.pointEncoding rds k m word after ∧
      s' = ⟨after, (k + m) % rds.length, if m = 0 then deserBuf else []⟩ ∧
      after[(k + m) % rds.length]? = some v ∧ tag &&& eApplication = eApplication ∧
      tagMatches tag v = false := by
  induction passes generalizing rds k used deserBuf eRetVal with
  | zero =>
    obtain ⟨rfl, -⟩ := Prod.mk.inj (Option.some.inj h)
    exact absurd herror heRetVal
  | succ p ih =>
    have hpos : 0 < rds.length := List.length_pos_iff.mpr hne
    have hlt := Nat.mod_lt k hpos
    have hv : rds[k % rds.length]? = some rds[k % rds.length] := List.getElem?_eq_getElem hlt
    obtain ⟨hw, hi⟩ := hrds _ (List.getElem_mem hlt)
    rw [recvLoop] at h
    split_ifs at h with hnil
    · obtain ⟨rfl, -⟩ := Prod.mk.inj (Option.some.inj h)
      exact absurd herror heRetVal
    rw [deserializeNext_eq hv, sizedAsInt_eq hlen] at h
    cases hrun : deserializeDataPoint behind rds[k % rds.length] used with
    | none =>
      rw [hrun] at h
      exact absurd h (by simp)
    | some r =>
      obtain ⟨nBuf, w⟩ := r
      rw [hrun] at h
      simp only [Option.map_some, Option.bind_eq_bind, Option.bind_some] at h
      split_ifs at h with hrefused hpending
      · subst hrefused
        obtain ⟨rfl, tag, body, rfl, happ, htag⟩ := eq_of_deserializeDataPoint_eq_neg_two hw hrun
        obtain ⟨-, rfl⟩ := Prod.mk.inj (Option.some.inj h)
        rw [List.set_getElem_self]
        exact ⟨0, [], tag, body, rds, _, rfl, ⟨rfl, rfl⟩, rfl, hv, happ, htag⟩
      · rw [recvLoop_nil] at h
        obtain ⟨rfl, -⟩ := Prod.mk.inj (Option.some.inj h)
        exact absurd herror (endPass_fst_ne _ heRetVal)
      · obtain ⟨word, more, rfl, rfl, hword⟩ := Value.sound_deserializeDataPoint
          (Value.sound_deserializeValue hw hi) hrun (by omega)
        have hset : rds.set (k % rds.length) w ≠ [] := by
          rw [← List.length_pos_iff, List.length_set]
          exact hpos
        rw [endPass_advance hpos List.length_set] at h
        simp only [Int.toNat_natCast, List.drop_left] at h
        rw [List.length_append] at hlen
        push_cast at hlen
        have hmore : more.length ≤ intMax := by omega
        have hresponse : (if rds.length ∣ k + 1 then .processDataOk else eRetVal) ≠
            EComResponse.processDataDataTypeError := by
          split_ifs
          · rintro ⟨⟩
          · exact heRetVal
        have hagain := ih (hrds.set hv (sameType_of_pointEncoding hword)) hset hmore hresponse
          (by rw [List.length_set]; exact h)
        obtain ⟨m, word', tag, body, after, v, rfl, hturn, rfl, hrest⟩ := hagain
        rw [List.length_set] at hrest ⊢
        have hsum : k + (m + 1) = k + 1 + m := by omega
        refine ⟨m + 1, word ++ word', tag, body, after, v, by rw [List.append_assoc],
          ⟨_, word, word', w, hv, rfl, hword, hturn⟩, ?_, by rwa [hsum]⟩
        rw [hsum, ite_self, if_neg (Nat.succ_ne_zero m)]

/-! ### Bytes that can be extended, and bytes that are refused -/

/-- Some bytes, received from the position of the receiver on, can be extended to whole samples
of the RDs. -/
def Extendable (s : Receiver) (bytes : List UInt8) : Prop :=
  if s.rds = [] then ∀ b ∈ bytes, b = nullTag
  else ∃ post m after, s.rds.length ∣ s.doPos + m ∧
    InTurn Value.pointEncoding s.rds s.doPos m (bytes ++ post) after

/-- The bytes complete the sample and perhaps further ones, and go on with a tag of the class
`APPLICATION` that the first RD refuses. -/
def RefusedAtStart (s : Receiver) (bytes : List UInt8) : Prop :=
  ∃ m word tag body after v, bytes = word ++ tag :: body ∧ s.rds.length ∣ s.doPos + m ∧
    InTurn Value.pointEncoding s.rds s.doPos m word after ∧ s.rds.head? = some v ∧
    tag &&& eApplication = eApplication ∧ tagMatches tag v = false

/-- A packet is **recovered from**: where the bytes cannot be extended to samples the response
says so, and after this response the layer is in its initial state, so that a sample in one
packet is received. -/
def Recovers (behind : UInt8) (s : Receiver) (packet : List UInt8) : Prop :=
  ∃ response s', s.recvData behind packet = some (response, s') ∧
    (¬s.Extendable (s.deserBuf ++ packet) → response = .processDataDataTypeError) ∧
    (response = .processDataDataTypeError → s' = initial s'.rds ∧
      ∀ sample after, sampleEncoding s'.rds sample after → sample.length ≤ intMax →
        ∀ behind, s'.recvData behind sample = some (.processDataOk, initial after))

/-- The receiver waits for bytes: nothing is kept but the beginning of the next RD. -/
structure Ready (s : Receiver) : Prop where
  receivable : Receivable s.rds
  doPos_eq : s.doPos = s.doPos % s.rds.length
  begun : Begun s.rds s.doPos s.deserBuf

theorem ready_initial {rds : List Value} (hrds : Receivable rds) : (initial rds).Ready :=
  ⟨hrds, (Nat.zero_mod _).symm, .inl rfl⟩

theorem inTurn_getElem? {rds after : List Value} {k m : ℕ} {word : List UInt8}
    (h : InTurn Value.pointEncoding rds k m word after) (i : ℕ) {v : Value}
    (hv : after[i]? = some v) : ∃ u, rds[i]? = some u ∧ Value.SameType u v := by
  induction m generalizing rds k word with
  | zero =>
    obtain ⟨-, rfl⟩ := h
    exact ⟨v, hv, rfl⟩
  | succ m ih =>
    obtain ⟨w, bs₁, bs₂, w', hw, -, hword, hrest⟩ := h
    obtain ⟨u, hu, hsame⟩ := ih hrest
    rw [List.getElem?_set] at hu
    split_ifs at hu with hi hlt
    · subst hi
      obtain rfl := Option.some.inj hu
      exact ⟨w, hw, (sameType_of_pointEncoding hword).trans hsame⟩
    · exact ⟨u, hu, hsame⟩

/-- A sample in one packet is received in the initial state. -/
theorem recvData_sample {rds after : List Value} (hrds : Receivable rds) {sample : List UInt8}
    (h : sampleEncoding rds sample after) (hlen : sample.length ≤ intMax) (behind : UInt8) :
    (initial rds).recvData behind sample = some (.processDataOk, initial after) := by
  rcases eq_or_ne rds [] with rfl | hne
  · obtain ⟨rfl, rfl⟩ : sample = [nullTag] ∧ after = [] := h
    rfl
  · have hstart := inSample_initial hrds hne h
    rw [← List.append_nil sample] at hstart
    exact (hstart.recvData behind hlen).1 rfl

/-- Without RDs, every byte is received. -/
theorem recvLoop_noRDs (behind : UInt8) (passes k : ℕ) (deserBuf used : List UInt8)
    {eRetVal : EComResponse} (h : eRetVal ≠ .processDataDataTypeError) :
    ∃ response s', recvLoop behind passes ⟨[], k, deserBuf⟩ used eRetVal = some (response, s') ∧
      response ≠ .processDataDataTypeError := by
  induction passes generalizing k deserBuf used eRetVal with
  | zero => exact ⟨_, _, rfl, h⟩
  | succ p ih =>
    rw [recvLoop]
    split_ifs with hnil
    · exact ⟨_, _, rfl, h⟩
    · exact ih 0 [] (used.drop 1) (by rintro ⟨⟩)

/-- More bytes than an `int` can count are kept without being looked at. -/
theorem recvLoop_tooLong (behind : UInt8) {rds : List Value} {k : ℕ}
    (hk : k < rds.length) {used : List UInt8} (hlen : intMax < used.length) (passes : ℕ)
    (deserBuf : List UInt8) (eRetVal : EComResponse) :
    ∃ s', recvLoop behind passes ⟨rds, k, deserBuf⟩ used eRetVal = some (eRetVal, s') := by
  cases passes with
  | zero => exact ⟨_, rfl⟩
  | succ p =>
    have hv : rds[k]? = some rds[k] := List.getElem?_eq_getElem hk
    have hnil : used ≠ [] := by
      rintro rfl
      rw [intMax] at hlen
      exact absurd hlen (by decide)
    have hsized : sizedAsInt used = [] := if_neg (not_le.mpr hlen)
    have hend : ∀ s : Receiver, s.rds.length = rds.length → s.doPos = k →
        s.endPass eRetVal = (eRetVal, s) := fun s hs hpos =>
      if_neg (by rw [hs, hpos]; exact not_le.mpr hk)
    rw [recvLoop, if_neg hnil, deserializeNext_eq hv, hsized]
    simp only [deserializeDataPoint, deserializeDataPointWith, Option.map_some,
      Option.bind_eq_bind, Option.bind_some]
    rw [if_neg (by decide), if_pos (by decide), hend _ ?_ ?_, recvLoop_nil]
    · exact ⟨_, rfl⟩
    · rw [keep]
      split_ifs <;> exact List.length_set
    · rw [keep]
      split_ifs <;> rfl

theorem Ready.doPos_lt {s : Receiver} (hs : s.Ready) (hne : s.rds ≠ []) :
    s.doPos < s.rds.length := by
  rw [hs.doPos_eq]
  exact Nat.mod_lt _ (List.length_pos_iff.mpr hne)

/-- Where a packet can be extended to samples, the response is no error. -/
theorem Ready.recvData_extendable {s : Receiver} (hs : s.Ready) (behind : UInt8)
    {packet : List UInt8} (hfits : (s.deserBuf ++ packet).length < 4294967296)
    (h : s.Extendable (s.deserBuf ++ packet)) :
    ∃ response s', s.recvData behind packet = some (response, s') ∧
      response ≠ .processDataDataTypeError := by
  rw [recvData_eq hfits]
  rcases eq_or_ne s.rds [] with hnil | hne
  · rw [hnil]
    exact recvLoop_noRDs behind _ _ _ _ nofun
  rcases Int.lt_or_le intMax (s.deserBuf ++ packet).length with hlong | hlen
  · obtain ⟨s', hrun⟩ := recvLoop_tooLong behind (hs.doPos_lt hne) hlong
      (s.deserBuf ++ packet).length (if s.deserBuf = [] then [] else s.deserBuf ++ packet) .nothing
    exact ⟨_, s', hrun, nofun⟩
  · rw [Extendable, if_neg hne] at h
    obtain ⟨post, m, after, -, hstream⟩ := h
    obtain ⟨j, m', rds', kept, -, hrun, -⟩ :=
      recvLoop_prefix behind hs.receivable hstream hlen le_rfl (usedBuffer_cases s packet) .nothing
    rw [← hs.doPos_eq] at hrun
    refine ⟨_, _, hrun, ?_⟩
    split_ifs <;> exact nofun

/-- Where a packet is refused at the start of a sample, the layer is in its initial state. -/
theorem Ready.recvData_refused {s : Receiver} (hs : s.Ready) (behind : UInt8)
    {packet : List UInt8} (hlen : (s.deserBuf ++ packet).length ≤ intMax)
    (h : s.RefusedAtStart (s.deserBuf ++ packet)) :
    ∃ rds', s.recvData behind packet = some (.processDataDataTypeError, initial rds') ∧
      Receivable rds' := by
  obtain ⟨rds, doPos, deserBuf⟩ := s
  obtain ⟨hrds, hpos, hbegun⟩ := hs
  obtain ⟨m, word, tag, body, after, v, heq, hdvd, hturn, hv, happ, htag⟩ := h
  simp only at hrds hpos hbegun heq hdvd hturn hv hlen
  rw [List.head?_eq_getElem?] at hv
  have hlt : 0 < after.length := by
    rw [hturn.length_eq]
    exact (List.getElem?_eq_some_iff.mp hv).1
  have hafter : after[0]? = some after[0] := List.getElem?_eq_getElem hlt
  obtain ⟨u, hu, hsame⟩ := inTurn_getElem? hturn 0 hafter
  obtain rfl := Option.some.inj (hv.symm.trans hu)
  rw [recvData_eq (lt_of_le_intMax hlen)]
  simp only
  rw [heq] at hlen ⊢
  obtain ⟨passes', hpasses', hloop⟩ := recvLoop_inTurn behind hrds hturn (tag :: body) hlen le_rfl
    (if deserBuf = [] then [] else word ++ tag :: body) .nothing
  have hlen' : (tag :: body).length ≤ intMax := by
    rw [List.length_append] at hlen
    push_cast at hlen
    omega
  -- nothing is kept: what was kept before had a tag that matches
  have hbuf : (if m = 0 then (if deserBuf = [] then [] else word ++ tag :: body) else []) = [] := by
    split_ifs with hm hempty
    · rfl
    · subst hm
      obtain ⟨rfl, -⟩ := hturn
      rw [Nat.add_zero, Nat.dvd_iff_mod_eq_zero, ← hpos] at hdvd
      subst hdvd
      rcases hbegun with hnil | ⟨u, missing, a, hu', -, tag', body', _, hpoint, -, htag', -⟩
      · exact absurd hnil hempty
      · obtain rfl := Option.some.inj (hv.symm.trans hu')
        obtain ⟨b, bs, rfl⟩ := List.exists_cons_of_ne_nil hempty
        obtain ⟨rfl, -⟩ := List.cons.inj hpoint
        obtain ⟨rfl, -⟩ := List.cons.inj heq
        exact absurd (htag.symm.trans htag') (by decide)
    · rfl
  rw [← hpos, hbuf, Nat.mod_eq_zero_of_dvd hdvd] at hloop
  have htag' : tagMatches tag after[0] = false := by rwa [← hsame.tagMatches_eq]
  exact ⟨after, hloop.trans (recvLoop_refused behind hafter happ htag' hlen' hpasses' [] _),
    hrds.inTurn hturn⟩

end Receiver

end Forte
