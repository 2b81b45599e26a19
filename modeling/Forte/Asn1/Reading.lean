import Forte.Asn1.Encoding

/-!
# The deserializer reads the encodings

For a data point whose items all take bytes, `Forte.deserializeValue` is a reader of
`Forte.Value.encoding` in the three senses of `Forte.Complete`, `Forte.Pending` and
`Forte.Sound`:

* a valid encoding is read, whatever follows it;
* on a proper prefix of one it returns `-1`, and the part of the data point it has stored
  already does no harm to a second attempt from the start;
* what it reads is a valid encoding.

Each is proved along the data point, with the loops over elements and members taken from
`Forte.readEach`. The same holds of a data point with its tag, except that a proper prefix
makes it return `0` where the tag has arrived.
-/

namespace Forte

namespace Value

variable {behind : UInt8}

/-! ### Items take bytes -/

theorem valueSize_pos {id : EDataTypeID} (h : id ≠ .bool) : 0 < valueSize id := by
  cases id <;> first | decide | exact absurd rfl h

theorem itemEncoding_ne_nil {v : Value}
    (hv : v.TakesBytes → ∀ bs v', v.encoding bs v' → bs ≠ []) (h : v.IsBool ∨ v.TakesBytes)
    {bs : List UInt8} {v' : Value} (hbs : v.itemEncoding bs v') : bs ≠ [] := by
  rw [itemEncoding, itemEncodingWith] at hbs
  split_ifs at hbs with hb
  · obtain ⟨tag, body, u, rfl, -⟩ := hbs
    exact List.cons_ne_nil _ _
  · exact hv (h.resolve_left hb) bs v' hbs

/-- The words of a value that takes bytes are not empty. -/
theorem encoding_ne_nil {v : Value} (hi : v.ItemsTakeBytes) (ht : v.TakesBytes)
    {bs : List UInt8} {v' : Value} (h : v.encoding bs v') : bs ≠ [] := by
  have hfield : ∀ n body, beBytes 2 n ++ body ≠ [] := fun n body hnil => by
    simpa using congrArg List.length hnil
  induction v generalizing bs v' with
  | elementary id d =>
    obtain ⟨stored, -, hlen, -⟩ := h
    have hpos := valueSize_pos ht
    exact List.length_pos_iff.mp (by omega)
  | string b st =>
    obtain ⟨text, -, rfl, -⟩ := h
    exact hfield _ _
  | wstring st =>
    obtain ⟨n, words, text, -, -, rfl, -⟩ := h
    exact hfield _ _
  | any w ih =>
    obtain ⟨w', hw', -⟩ := h
    exact ih hi ht hw'
  | array t es ih =>
    obtain ⟨n, body, -, rfl, -⟩ := h
    exact hfield _ _
  | struct t ms ih =>
    have hall := (allItemsTakeBytes_iff ms).mp hi
    obtain ⟨after, hspells, -⟩ := encoding_struct.mp h
    obtain ⟨m, ms', rfl⟩ := List.exists_cons_of_ne_nil ht
    obtain ⟨bs₁, bs₂, m', after', rfl, -, hm, -⟩ := hspells
    obtain ⟨hitem, hinner⟩ := hall m List.mem_cons_self
    have hne := itemEncoding_ne_nil
      (fun ht' _ _ h' => ih m List.mem_cons_self hinner ht' h') hitem hm
    exact fun hnil => hne (List.append_eq_nil_iff.mp hnil).1

/-- An item, with what is known of the items of a data point. -/
def IsItem (v : Value) : Prop := (v.IsBool ∨ v.TakesBytes) ∧ v.ItemsTakeBytes

theorem IsItem.encoding_ne_nil {v : Value} (h : v.IsItem) (bs : List UInt8) (v' : Value)
    (hbs : v.itemEncoding bs v') : bs ≠ [] :=
  itemEncoding_ne_nil (fun ht _ _ => Value.encoding_ne_nil h.2 ht) h.1 hbs

theorem item_again (v : Value) (bs : List UInt8) (v' : Value) (h : v.itemEncoding bs v') :
    v'.itemEncoding bs v' ∧ SameType v v' :=
  itemEncoding_again (fun _ _ => encoding_again) h

/-- Only a `BOOL`, possibly held in an `ANY`, has its value stored with the tag. -/
theorem storeTag_eq {v : Value} (h : ¬v.HoldsBool) (tag : UInt8) : storeTag tag v = v := by
  induction v with
  | elementary id d => cases id <;> first | rfl | exact absurd rfl h
  | any w ih => rw [storeTag, ih h]
  | _ => rfl

/-- So the tag of an array whose elements take bytes stores nothing. -/
theorem TakesBytes.storeTagHead_eq {v : Value} {vs ws : List Value} (h : v.TakesBytes)
    (hsame : List.Forall₂ SameType (v :: vs) ws) (tag : UInt8) : storeTagHead tag ws = ws := by
  cases hsame with
  | cons hv _ => rw [storeTagHead, storeTag_eq (hv.takesBytes_iff.mp h).not_holdsBool]

/-! ### Completeness -/

theorem complete_deserializeDataPoint {v : Value}
    (h : Complete (deserializeValue behind v) v.encoding) :
    Complete (deserializeDataPoint behind v) v.pointEncoding := by
  rintro _ _ rest ⟨tag, body, w, rfl, happ, htag, hbody, rfl⟩
  rw [deserializeDataPoint, List.cons_append, deserializeDataPointWith, if_pos happ, if_pos htag,
    h rest hbody]
  simp

theorem complete_deserializeItem {v : Value}
    (h : Complete (deserializeValue behind v) v.encoding) :
    Complete (deserializeItem behind v) v.itemEncoding := by
  rw [deserializeItem, itemEncoding, itemEncodingWith]
  split_ifs
  · exact complete_deserializeDataPoint h
  · exact h

theorem complete_elementary (id : EDataTypeID) (d : BitVec 64) :
    Complete (deserializeElementary id d) (elementaryEncoding id d) := by
  rintro bs _ rest ⟨stored, hstored, hlen, rfl⟩
  rw [deserializeElementary, hstored]
  simp only [List.length_append, ← hlen, List.take_left, Nat.le_add_right, if_true]

theorem complete_string (b : Option ℕ) (st : List UInt8) :
    Complete (deserializeValueString b st) (stringEncoding b) := by
  rintro _ _ rest ⟨text, htext, rfl, rfl⟩
  rw [List.append_assoc, deserializeValueString, lengthField_append htext, drop_two_append,
    List.take_left, if_pos]
  · simp
  · simp only [List.length_append, length_beBytes]
    omega

theorem complete_wstring (st : List UInt8) :
    Complete (deserializeValueWString st) wstringEncoding := by
  rintro _ _ rest ⟨n, words, text, hn, hlen, rfl, htext, rfl⟩
  rw [List.append_assoc, deserializeValueWString, lengthField_append hn, drop_two_append, ← hlen,
    List.take_left, if_pos, htext]
  · simp [hlen, Int.add_comm]
  · simp only [List.length_append, length_beBytes]
    omega

/-- **A valid encoding is read**, whatever follows it. -/
theorem complete_deserializeValue (behind : UInt8) {v : Value} (hw : v.WellTyped)
    (hi : v.ItemsTakeBytes) : Complete (deserializeValue behind v) v.encoding := by
  induction v with
  | elementary id d => exact complete_elementary id d
  | string b st => exact complete_string b st
  | wstring st => exact complete_wstring st
  | any w ih =>
    rintro bs _ rest ⟨w', hw', rfl⟩
    rw [deserializeValue_any, ih hw hi rest hw']
    rfl
  | struct t ms ih =>
    have hwell := (allWellTyped_iff ms).mp hw.2
    have hitems := (allItemsTakeBytes_iff ms).mp hi
    intro bs v' rest h
    obtain ⟨after, hspells, rfl⟩ := encoding_struct.mp h
    rw [deserializeValue_struct, readEach_complete
      (fun m hm => complete_deserializeItem (ih m hm (hwell m hm) (hitems m hm).2))
      (fun m hm => IsItem.encoding_ne_nil (hitems m hm)) 0 rest hspells]
    simp
  | array t es ih =>
    have hwell := (allWellTyped_iff es).mp hw.2
    have hitems := (allItemsTakeBytes_iff es).mp hi
    intro bs v' rest h
    cases es with
    | nil =>
      obtain ⟨n, body, hn, rfl, ⟨rfl, rfl, rfl⟩ | ⟨-, _, _, _, _, hhead, -⟩⟩ := h
      · rw [List.append_nil, deserializeValue_array_zero]
        rfl
      · exact absurd hhead (by simp [withEncodings])
    | cons first tail =>
      have hmem : ∀ {n e}, e ∈ visited n (first :: tail) first → e ∈ first :: tail :=
        mem_of_mem_visited List.mem_cons_self
      obtain ⟨n, body, hn, rfl, hcase⟩ := encoding_array.mp h
      rcases hcase with ⟨rfl, rfl, rfl⟩ | ⟨hpos, header, word, after, rfl, hheader, hspells, rfl⟩
      · rw [List.append_nil, deserializeValue_array_zero]
        rfl
      · have hitem : ∀ e ∈ visited n (first :: tail) first,
            Complete (deserializeItem behind e) e.itemEncoding := fun e he =>
          complete_deserializeItem (ih e (hmem he) (hwell e (hmem he)) (hitems e (hmem he)).2)
        have hread := fun total => readEach_complete hitem
          (fun e he => IsItem.encoding_ne_nil (hitems e (hmem he))) total rest hspells
        rw [List.append_assoc, List.append_assoc]
        by_cases hb : first.IsBool
        · rw [if_pos hb] at hheader
          subst hheader
          rw [deserializeValue_array_bool hw hb hpos hn, List.nil_append, hread]
          simp
        · rw [if_neg hb] at hheader
          obtain ⟨tag, rfl, htag⟩ := hheader
          have htakes : first.TakesBytes := (hitems first List.mem_cons_self).1.resolve_left hb
          have hsame := forall₂_overwritten (hspells.again fun e _ => item_again e).2
          rw [deserializeValue_array hw hb hpos hn, List.singleton_append, List.headD_cons,
            if_pos htag, List.tail_cons, hread]
          simp only [Option.map_some, htakes.storeTagHead_eq hsame, List.length_append,
            length_beBytes, List.length_cons, List.length_nil]
          push_cast
          congr 2
          omega

/-! ### Proper prefixes -/

theorem pending_deserializeItem {v : Value}
    (h : Pending (deserializeValue behind v) v.encoding (SameType v) encoding) :
    Pending (deserializeItem behind v) v.itemEncoding (SameType v) itemEncoding := by
  intro pre post v' hbs hpost
  rw [itemEncoding, itemEncodingWith] at hbs
  rw [deserializeItem]
  split_ifs at hbs ⊢ with hb
  · -- the word of a `BOOL` is its tag, so nothing has arrived
    have hwhole : v.itemEncoding (pre ++ post) v' := by
      rw [itemEncoding, itemEncodingWith, if_pos hb]
      exact hbs
    obtain ⟨tag, body, u, heq, -, -, hbody, -⟩ := hbs
    obtain ⟨d, rfl⟩ := hb.exists_eq
    obtain ⟨_, _, hlen, -⟩ := hbody
    have hbody : body = [] := List.eq_nil_of_length_eq_zero hlen
    cases pre with
    | nil => exact ⟨_, rfl, hwhole, rfl⟩
    | cons b pre =>
      rw [hbody, List.cons_append] at heq
      exact absurd (List.append_eq_nil_iff.mp (List.cons.inj heq).2).2 hpost
  · obtain ⟨w, hw, hnext, hsame⟩ := h hbs hpost
    refine ⟨w, hw, ?_, hsame⟩
    rw [itemEncoding, itemEncodingWith, if_neg (mt hsame.isBool_iff.mpr hb)]
    exact hnext

theorem pending_elementary (id : EDataTypeID) (d : BitVec 64) :
    Pending (deserializeElementary id d) (elementaryEncoding id d) (SameType (.elementary id d))
      encoding := by
  rintro pre post v' ⟨stored, hstored, hlen, rfl⟩ hpost
  have hpos := List.length_pos_iff.mpr hpost
  rw [List.length_append] at hlen
  refine ⟨.elementary id d, ?_, ⟨stored, hstored, by simpa using hlen, rfl⟩, rfl⟩
  rw [deserializeElementary, hstored]
  exact if_neg (by omega)

/-- With less than what the length field announces, a string is not touched. -/
theorem pending_string (b : Option ℕ) (st : List UInt8) :
    Pending (deserializeValueString b st) (stringEncoding b) (SameType (.string b st))
      encoding := by
  rintro pre post v' ⟨text, htext, heq, rfl⟩ hpost
  have hpos := List.length_pos_iff.mpr hpost
  have hlen := congrArg List.length heq
  simp only [List.length_append, length_beBytes] at hlen
  refine ⟨.string b st, ?_, ⟨text, htext, heq, rfl⟩, rfl⟩
  rw [deserializeValueString, if_neg]
  rintro ⟨htwo, hle⟩
  obtain ⟨rest, rfl⟩ : beBytes 2 text.length <+: pre :=
    List.prefix_of_prefix_length_le (heq ▸ List.prefix_append _ text)
      (List.prefix_append pre post) (by simpa using htwo)
  rw [lengthField_append htext] at hle
  omega

theorem pending_wstring (st : List UInt8) :
    Pending (deserializeValueWString st) wstringEncoding (SameType (.wstring st)) encoding := by
  rintro pre post v' ⟨n, words, text, hn, hwords, heq, htext, rfl⟩ hpost
  have hpos := List.length_pos_iff.mpr hpost
  have hlen := congrArg List.length heq
  simp only [List.length_append, length_beBytes] at hlen
  refine ⟨.wstring st, ?_, ⟨n, words, text, hn, hwords, heq, htext, rfl⟩, rfl⟩
  rw [deserializeValueWString, if_neg]
  rintro ⟨htwo, hle⟩
  obtain ⟨rest, rfl⟩ : beBytes 2 n <+: pre :=
    List.prefix_of_prefix_length_le (heq ▸ List.prefix_append _ words)
      (List.prefix_append pre post) (by simpa using htwo)
  rw [lengthField_append hn] at hle
  omega

/-- **A proper prefix of a valid encoding** makes the deserializer return `-1`, and it leaves
a data point that the whole encoding still brings to the same end. -/
theorem pending_deserializeValue (behind : UInt8) {v : Value} (hw : v.WellTyped)
    (hi : v.ItemsTakeBytes) :
    Pending (deserializeValue behind v) v.encoding (SameType v) encoding := by
  induction v with
  | elementary id d => exact pending_elementary id d
  | string b st => exact pending_string b st
  | wstring st => exact pending_wstring st
  | any w ih =>
    rintro pre post _ ⟨w', hw', rfl⟩ hpost
    obtain ⟨u, hu, hnext, hsame⟩ := ih hw hi hw' hpost
    refine ⟨.any u, ?_, ⟨w', hnext, rfl⟩, sameType_any_iff.mpr ⟨u, rfl, hsame⟩⟩
    rw [deserializeValue_any, hu]
    rfl
  | struct t ms ih =>
    have hwell := (allWellTyped_iff ms).mp hw.2
    have hitems := (allItemsTakeBytes_iff ms).mp hi
    intro pre post v' h hpost
    obtain ⟨after, hspells, rfl⟩ := encoding_struct.mp h
    obtain ⟨ws, hws, hnext, hsame⟩ := readEach_pending
      (fun m hm => complete_deserializeItem
        (complete_deserializeValue behind (hwell m hm) (hitems m hm).2))
      (fun m hm => pending_deserializeItem (ih m hm (hwell m hm) (hitems m hm).2))
      (fun m _ => item_again m) (fun m hm => IsItem.encoding_ne_nil (hitems m hm)) 0 hspells hpost
    refine ⟨.struct t ws, ?_, encoding_struct.mpr ⟨after, hnext, rfl⟩,
      sameType_struct_iff.mpr ⟨ws, rfl, hsame⟩⟩
    rw [deserializeValue_struct, hws]
    rfl
  | array t es ih =>
    have hwell := (allWellTyped_iff es).mp hw.2
    have hitems := (allItemsTakeBytes_iff es).mp hi
    intro pre post v' h hpost
    by_cases hshort : pre.length < 2
    · exact ⟨_, deserializeValue_array_short es pre hshort, h, rfl⟩
    have hfield : ∀ {n : ℕ} {body : List UInt8}, pre ++ post = beBytes 2 n ++ body →
        ∃ pre', pre = beBytes 2 n ++ pre' ∧ pre' ++ post = body := by
      intro n body heq
      obtain ⟨pre', rfl⟩ : beBytes 2 n <+: pre :=
        List.prefix_of_prefix_length_le (heq ▸ List.prefix_append _ body)
          (List.prefix_append pre post) (by rw [length_beBytes]; exact Nat.le_of_not_lt hshort)
      rw [List.append_assoc] at heq
      exact ⟨pre', rfl, List.append_cancel_left heq⟩
    cases es with
    | nil =>
      obtain ⟨n, body, -, heq, ⟨-, rfl, -⟩ | ⟨-, _, _, _, _, hhead, -⟩⟩ := h
      · obtain ⟨pre', -, hnil⟩ := hfield heq
        exact absurd (List.append_eq_nil_iff.mp hnil).2 hpost
      · exact absurd hhead (by simp [withEncodings])
    | cons first tail =>
      have hmem : ∀ {n e}, e ∈ visited n (first :: tail) first → e ∈ first :: tail :=
        mem_of_mem_visited List.mem_cons_self
      obtain ⟨n, body, hn, heq, hcase⟩ := encoding_array.mp h
      obtain ⟨pre', rfl, rfl⟩ := hfield heq
      rcases hcase with ⟨-, hnil, -⟩ | ⟨hpos, header, word, after, hbody, hheader, hspells, rfl⟩
      · exact absurd (List.append_eq_nil_iff.mp hnil).2 hpost
      · -- however the loop is cut off, what it leaves is brought to the same end
        have hloop : ∀ (total : ℤ) {pre₁ post₁ : List UInt8}, pre₁ ++ post₁ = word → post₁ ≠ [] →
            ∃ ws, readEach ((visited n (first :: tail) first).map fun e =>
                (e, deserializeItem behind e)) total pre₁ = some (-1, ws) ∧
              List.Forall₂ SameType (visited n (first :: tail) first) ws ∧
              (array t (overwritten n (first :: tail) ws)).encoding
                (beBytes 2 n ++ (header ++ word))
                (.array t (overwritten n (first :: tail) after)) ∧
              SameType (array t (first :: tail)) (array t (overwritten n (first :: tail) ws)) := by
          rintro total pre₁ post₁ rfl hpost₁
          obtain ⟨ws, hws, hnext, hsame⟩ := readEach_pending
            (fun e he => complete_deserializeItem (complete_deserializeValue behind
              (hwell e (hmem he)) (hitems e (hmem he)).2))
            (fun e he => pending_deserializeItem (ih e (hmem he) (hwell e (hmem he))
              (hitems e (hmem he)).2))
            (fun e _ => item_again e)
            (fun e he => IsItem.encoding_ne_nil (hitems e (hmem he))) total hspells hpost₁
          obtain ⟨henc, htype⟩ := encoding_array_overwritten hpos hn hheader hsame hnext
          exact ⟨ws, hws, hsame, henc, htype⟩
        rw [List.append_assoc, hbody] at h ⊢
        by_cases hb : first.IsBool
        · rw [if_pos hb] at hheader
          subst hheader
          obtain ⟨ws, hws, -, henc, htype⟩ := hloop 0 hbody hpost
          refine ⟨_, ?_, henc, htype⟩
          rw [deserializeValue_array_bool hw hb hpos hn, hws]
          rfl
        · rw [if_neg hb] at hheader
          obtain ⟨tag, rfl, htag⟩ := hheader
          have htakes : first.TakesBytes := (hitems first List.mem_cons_self).1.resolve_left hb
          cases pre' with
          | nil =>
            -- the tag has not arrived, and the byte behind stands in for it
            have hne : word ≠ [] := by
              refine hspells.ne_nil (fun hnil => ?_) ?_
              · have hlen := congrArg List.length hnil
                rw [List.length_map, length_visited, List.length_nil] at hlen
                omega
              · intro L hL
                obtain ⟨e, he, rfl⟩ := List.mem_map.mp hL
                exact IsItem.encoding_ne_nil (hitems e (hmem he))
            rw [deserializeValue_array hw hb hpos hn, List.headD_nil]
            split_ifs
            · obtain ⟨ws, hws, hsame, henc, htype⟩ := hloop 3 (List.nil_append word) hne
              refine ⟨_, ?_, henc, htype⟩
              rw [List.tail_nil, hws]
              simp only [Option.map_some, htakes.storeTagHead_eq (forall₂_overwritten hsame)]
            · exact ⟨_, rfl, h, rfl⟩
          | cons b pre' =>
            obtain ⟨rfl, hword⟩ := List.cons.inj hbody
            obtain ⟨ws, hws, hsame, henc, htype⟩ := hloop 3 hword hpost
            refine ⟨_, ?_, henc, htype⟩
            rw [deserializeValue_array hw hb hpos hn, List.headD_cons, if_pos htag,
              List.tail_cons, hws]
            simp only [Option.map_some, htakes.storeTagHead_eq (forall₂_overwritten hsame)]

theorem HoldsBool.encoding_eq_nil {v : Value} (h : v.HoldsBool) {bs : List UInt8} {v' : Value}
    (hbs : v.encoding bs v') : bs = [] := by
  induction v generalizing v' with
  | elementary id d =>
    obtain rfl : id = .bool := h
    obtain ⟨stored, -, hlen, -⟩ := hbs
    exact List.eq_nil_of_length_eq_zero hlen
  | any w ih =>
    obtain ⟨w', hw', -⟩ := hbs
    exact ih h hw'
  | _ => exact absurd h id

/-- **A data point that is cut off** behind its tag returns `0`, and can be read again from
the start. -/
theorem pending_deserializeDataPoint (behind : UInt8) {v : Value} (hw : v.WellTyped)
    (hi : v.ItemsTakeBytes) {pre post : List UInt8} {v' : Value}
    (h : v.pointEncoding (pre ++ post) v') (hpre : pre ≠ []) (hpost : post ≠ []) :
    ∃ w, deserializeDataPoint behind v pre = some (0, w) ∧ w.pointEncoding (pre ++ post) v' ∧
      SameType v w := by
  obtain ⟨tag, pre, rfl⟩ := List.exists_cons_of_ne_nil hpre
  obtain ⟨_, _, u, hbs, happ, htag, hbody, rfl⟩ := h
  obtain ⟨rfl, rfl⟩ := List.cons.inj hbs
  obtain ⟨w, hrun, hnext, hsame⟩ := pending_deserializeValue behind hw hi hbody hpost
  -- a `BOOL` is complete with its tag
  have hbool : ¬w.HoldsBool := fun hb =>
    hpost (List.append_eq_nil_iff.mp ((hsame.holdsBool_iff.mpr hb).encoding_eq_nil hbody)).2
  refine ⟨w, ?_, ⟨tag, _, u, rfl, happ, hsame.tagMatches_eq tag ▸ htag, hnext, rfl⟩, hsame⟩
  rw [deserializeDataPoint, deserializeDataPointWith, if_pos happ, if_pos htag, hrun]
  simp [storeTag_eq hbool]

/-! ### Soundness -/

/-- A data point that is read is spelled by what has been used. -/
theorem sound_deserializeDataPoint {v : Value} (h : Sound (deserializeValue behind v) v.encoding)
    {bs : List UInt8} {n : ℤ} {v' : Value}
    (hrun : deserializeDataPoint behind v bs = some (n, v')) (hn : 0 < n) :
    ∃ used rest, bs = used ++ rest ∧ n = used.length ∧ v.pointEncoding used v' := by
  cases bs with
  | nil =>
    obtain ⟨rfl, -⟩ := Prod.mk.inj (Option.some.inj hrun)
    exact absurd hn (by omega)
  | cons b bs =>
    rw [deserializeDataPoint, deserializeDataPointWith] at hrun
    split_ifs at hrun with happ htag
    · obtain ⟨⟨m, w⟩, hw, heq⟩ := Option.map_eq_some_iff.mp hrun
      simp only [Prod.mk.injEq] at heq
      obtain ⟨rfl, rfl⟩ := heq
      obtain ⟨used, rest, rfl, rfl, henc⟩ := h hw (by omega)
      exact ⟨b :: used, rest, rfl, by simp, b, used, w, rfl, happ, htag, henc, rfl⟩
    · obtain ⟨rfl, -⟩ := Prod.mk.inj (Option.some.inj hrun)
      exact absurd hn (by omega)
    · obtain ⟨rfl, -⟩ := Prod.mk.inj (Option.some.inj hrun)
      exact absurd hn (by omega)

/-- The data point of a `BOOL` never returns zero. -/
theorem IsBool.ret_ne_zero {v : Value} (hb : v.IsBool) {bs : List UInt8} {n : ℤ} {v' : Value}
    (h : deserializeDataPoint behind v bs = some (n, v')) : n ≠ 0 ∧ -2 ≤ n := by
  obtain ⟨d, rfl⟩ := hb.exists_eq
  cases bs with
  | nil =>
    obtain ⟨rfl, -⟩ := Prod.mk.inj (Option.some.inj h)
    decide
  | cons b bs =>
    rw [deserializeDataPoint, deserializeDataPointWith] at h
    have hsize : valueSize .bool = 0 := rfl
    split_ifs at h <;> obtain ⟨rfl, -⟩ := Prod.mk.inj (Option.some.inj h) <;> simp [hsize]

theorem sound_deserializeItem {v : Value} (h : Sound (deserializeValue behind v) v.encoding) :
    Sound (deserializeItem behind v) v.itemEncoding := by
  intro bs n v' hrun hn
  rw [deserializeItem] at hrun
  rw [itemEncoding, itemEncodingWith]
  split_ifs at hrun ⊢ with hb
  · have hne := (hb.ret_ne_zero hrun).1
    exact sound_deserializeDataPoint h hrun (by omega)
  · exact h hrun hn

theorem sound_elementary (id : EDataTypeID) (d : BitVec 64) :
    Sound (deserializeElementary id d) (elementaryEncoding id d) := by
  intro bs n v' hrun hn
  rw [deserializeElementary] at hrun
  cases hstored : storedElementary id d with
  | none =>
    rw [hstored] at hrun
    obtain ⟨rfl, -⟩ := Prod.mk.inj (Option.some.inj hrun)
    exact absurd hn (by omega)
  | some stored =>
    simp only [hstored] at hrun
    split_ifs at hrun with hlen
    · obtain ⟨rfl, rfl⟩ := Prod.mk.inj (Option.some.inj hrun)
      have htake := List.length_take_of_le hlen
      exact ⟨bs.take (valueSize id), bs.drop (valueSize id), (List.take_append_drop _ bs).symm,
        by rw [htake], stored, hstored, htake, rfl⟩
    · obtain ⟨rfl, -⟩ := Prod.mk.inj (Option.some.inj hrun)
      exact absurd hn (by omega)

theorem sound_string (b : Option ℕ) (st : List UInt8) :
    Sound (deserializeValueString b st) (stringEncoding b) := by
  intro bs n v' hrun hn
  rw [deserializeValueString] at hrun
  split_ifs at hrun with hlen
  · obtain ⟨rfl, rfl⟩ := Prod.mk.inj (Option.some.inj hrun)
    have htake : ((bs.drop 2).take (lengthField bs)).length = lengthField bs :=
      List.length_take_of_le (by rw [List.length_drop]; omega)
    refine ⟨beBytes 2 (lengthField bs) ++ (bs.drop 2).take (lengthField bs),
      (bs.drop 2).drop (lengthField bs), ?_, by simp [htake], _, ?_, by rw [htake], rfl⟩
    · rw [List.append_assoc, List.take_append_drop]
      exact eq_lengthField_append hlen.1
    · rw [htake]
      exact lengthField_lt bs
  · obtain ⟨rfl, -⟩ := Prod.mk.inj (Option.some.inj hrun)
    exact absurd hn (by omega)

theorem sound_wstring (st : List UInt8) : Sound (deserializeValueWString st) wstringEncoding := by
  intro bs n v' hrun hn
  rw [deserializeValueWString] at hrun
  split_ifs at hrun with hlen
  · have htake : ((bs.drop 2).take (lengthField bs * 2)).length = lengthField bs * 2 :=
      List.length_take_of_le (by rw [List.length_drop]; omega)
    split at hrun
    · next text htext =>
      obtain ⟨rfl, rfl⟩ := Prod.mk.inj (Option.some.inj hrun)
      refine ⟨beBytes 2 (lengthField bs) ++ (bs.drop 2).take (lengthField bs * 2),
        (bs.drop 2).drop (lengthField bs * 2), ?_, by simp [htake, Int.add_comm], _, _, text,
        lengthField_lt bs, htake, rfl, htext, rfl⟩
      rw [List.append_assoc, List.take_append_drop]
      exact eq_lengthField_append hlen.1
    · obtain ⟨rfl, -⟩ := Prod.mk.inj (Option.some.inj hrun)
      exact absurd hn (by omega)
  · obtain ⟨rfl, -⟩ := Prod.mk.inj (Option.some.inj hrun)
    exact absurd hn (by omega)

/-- **What is read is a valid encoding.** -/
theorem sound_deserializeValue {v : Value} (hw : v.WellTyped) (hi : v.ItemsTakeBytes) :
    Sound (deserializeValue behind v) v.encoding := by
  induction v with
  | elementary id d => exact sound_elementary id d
  | string b st => exact sound_string b st
  | wstring st => exact sound_wstring st
  | any w ih =>
    intro bs n v' hrun hn
    rw [deserializeValue_any] at hrun
    obtain ⟨⟨m, w'⟩, hw', heq⟩ := Option.map_eq_some_iff.mp hrun
    obtain ⟨rfl, rfl⟩ := Prod.mk.inj heq
    obtain ⟨used, rest, hbs, hm, henc⟩ := ih hw hi hw' hn
    exact ⟨used, rest, hbs, hm, w', henc, rfl⟩
  | struct t ms ih =>
    have hwell := (allWellTyped_iff ms).mp hw.2
    have hitems := (allItemsTakeBytes_iff ms).mp hi
    intro bs n v' hrun hn
    rw [deserializeValue_struct] at hrun
    obtain ⟨⟨m, after⟩, hread, heq⟩ := Option.map_eq_some_iff.mp hrun
    obtain ⟨rfl, rfl⟩ := Prod.mk.inj heq
    obtain ⟨used, rest, hbs, hm, hspells⟩ := readEach_sound
      (fun m hm => sound_deserializeItem (ih m hm (hwell m hm) (hitems m hm).2))
      (fun m hm => IsItem.encoding_ne_nil (hitems m hm)) hread hn
    exact ⟨used, rest, hbs, by omega, encoding_struct.mpr ⟨after, hspells, rfl⟩⟩
  | array t es ih =>
    have hwell := (allWellTyped_iff es).mp hw.2
    have hitems := (allItemsTakeBytes_iff es).mp hi
    intro bs k v' hrun hk
    by_cases hshort : bs.length < 2
    · rw [deserializeValue_array_short es bs hshort] at hrun
      obtain ⟨rfl, -⟩ := Prod.mk.inj (Option.some.inj hrun)
      exact absurd hk (by omega)
    have hn := lengthField_lt bs
    have hbs := eq_lengthField_append (not_lt.mp hshort)
    generalize lengthField bs = n at hn hbs
    generalize bs.drop 2 = body at hbs
    subst hbs
    rcases Nat.eq_zero_or_pos n with rfl | hpos
    · rw [deserializeValue_array_zero] at hrun
      obtain ⟨rfl, rfl⟩ := Prod.mk.inj (Option.some.inj hrun)
      refine ⟨beBytes 2 0, body, rfl, by simp, 0, [], hn, (List.append_nil _).symm,
        Or.inl ⟨rfl, rfl, ?_⟩⟩
      rw [withEncodings_eq_map, List.map_map]
      simp [Function.comp_def]
    · cases es with
      | nil => exact absurd hrun (by rw [deserializeValue_array_nil hpos hn]; nofun)
      | cons first tail =>
        have hmem : ∀ {e}, e ∈ visited n (first :: tail) first → e ∈ first :: tail :=
          mem_of_mem_visited List.mem_cons_self
        have hne : ∀ e ∈ visited n (first :: tail) first, ∀ bs v', e.itemEncoding bs v' →
            bs ≠ [] := fun e he => IsItem.encoding_ne_nil (hitems e (hmem he))
        have hloop : ∀ {total m : ℤ} {bs' : List UInt8} {after : List Value},
            readEach ((visited n (first :: tail) first).map fun e => (e, deserializeItem behind e))
              total bs' = some (m, after) → 0 ≤ m →
            ∃ used rest, bs' = used ++ rest ∧ m = total + used.length ∧
              Spells ((visited n (first :: tail) first).map itemEncoding) used after :=
          readEach_sound (fun e he => sound_deserializeItem (ih e (hmem he) (hwell e (hmem he))
            (hitems e (hmem he)).2)) hne
        by_cases hb : first.IsBool
        · rw [deserializeValue_array_bool hw hb hpos hn] at hrun
          obtain ⟨⟨m, after⟩, hread, heq⟩ := Option.map_eq_some_iff.mp hrun
          obtain ⟨rfl, rfl⟩ := Prod.mk.inj heq
          have hm : 0 ≤ m := by
            by_contra hneg
            rw [if_neg hneg] at hk
            exact hneg hk
          obtain ⟨used, rest, rfl, hused, hspells⟩ := hloop hread hm
          refine ⟨beBytes 2 n ++ used, rest, by rw [List.append_assoc], ?_, encoding_array.mpr
            ⟨n, used, hn, rfl, Or.inr ⟨hpos, [], used, after, rfl, by rw [if_pos hb],
              hspells, rfl⟩⟩⟩
          rw [if_pos hm, List.length_append, length_beBytes]
          push_cast
          omega
        · rw [deserializeValue_array hw hb hpos hn] at hrun
          split_ifs at hrun with htag
          · obtain ⟨⟨m, after⟩, hread, heq⟩ := Option.map_eq_some_iff.mp hrun
            obtain ⟨rfl, rfl⟩ := Prod.mk.inj heq
            obtain ⟨used, rest, hbody, hused, hspells⟩ := hloop hread hk
            have hword : used ≠ [] := by
              refine hspells.ne_nil (fun hnil => ?_) fun L hL => ?_
              · have hlen := congrArg List.length hnil
                rw [List.length_map, length_visited, List.length_nil] at hlen
                omega
              · obtain ⟨e, he, rfl⟩ := List.mem_map.mp hL
                exact hne e he
            have htakes : first.TakesBytes := (hitems first List.mem_cons_self).1.resolve_left hb
            have hsame := forall₂_overwritten (hspells.again fun e _ => item_again e).2
            cases body with
            | nil => exact absurd (List.append_eq_nil_iff.mp hbody.symm).1 hword
            | cons tag body =>
              rw [List.tail_cons] at hbody
              subst hbody
              refine ⟨beBytes 2 n ++ (tag :: used), rest, by simp, ?_, encoding_array.mpr
                ⟨n, tag :: used, hn, rfl, Or.inr ⟨hpos, [tag], used, after, rfl, ?_, hspells, ?_⟩⟩⟩
              · rw [hused, List.length_append, length_beBytes, List.length_cons]
                push_cast
                omega
              · rw [if_neg hb]
                exact ⟨tag, rfl, htag⟩
              · exact congrArg (Value.array t) (htakes.storeTagHead_eq hsame tag)
          · obtain ⟨rfl, -⟩ := Prod.mk.inj (Option.some.inj hrun)
            exact absurd hk (by omega)

/-! ### How little a value can return -/

theorem neg_two_le_deserializeItem {v : Value}
    (h : ∀ bs n v', deserializeValue behind v bs = some (n, v') → -2 ≤ n) (bs : List UInt8)
    (n : ℤ) (v' : Value) (hrun : deserializeItem behind v bs = some (n, v')) : -2 ≤ n := by
  rw [deserializeItem] at hrun
  split_ifs at hrun with hb
  · exact (hb.ret_ne_zero hrun).2
  · exact h bs n v' hrun

/-- **No value returns less than** `-2`. A data point returns one more than its value, so
where it returns `-2` itself, its tag has been refused. -/
theorem neg_two_le_deserializeValue {v : Value} (hw : v.WellTyped) (bs : List UInt8) (n : ℤ)
    (v' : Value) (h : deserializeValue behind v bs = some (n, v')) : -2 ≤ n := by
  induction v generalizing bs n v' with
  | elementary id d =>
    rw [deserializeValue, deserializeElementary] at h
    cases hstored : storedElementary id d with
    | none =>
      rw [hstored] at h
      obtain ⟨rfl, -⟩ := Prod.mk.inj (Option.some.inj h)
      omega
    | some stored =>
      simp only [hstored] at h
      split_ifs at h <;> obtain ⟨rfl, -⟩ := Prod.mk.inj (Option.some.inj h) <;> omega
  | string b st =>
    rw [deserializeValue, deserializeValueString] at h
    split_ifs at h <;> obtain ⟨rfl, -⟩ := Prod.mk.inj (Option.some.inj h) <;> omega
  | wstring st =>
    rw [deserializeValue, deserializeValueWString] at h
    split_ifs at h
    · split at h <;> obtain ⟨rfl, -⟩ := Prod.mk.inj (Option.some.inj h) <;> omega
    · obtain ⟨rfl, -⟩ := Prod.mk.inj (Option.some.inj h)
      omega
  | any w ih =>
    rw [deserializeValue_any] at h
    obtain ⟨⟨m, w'⟩, hw', heq⟩ := Option.map_eq_some_iff.mp h
    obtain ⟨rfl, -⟩ := Prod.mk.inj heq
    exact ih hw bs m w' hw'
  | struct t ms ih =>
    have hwell := (allWellTyped_iff ms).mp hw.2
    rw [deserializeValue_struct] at h
    obtain ⟨⟨m, after⟩, hread, heq⟩ := Option.map_eq_some_iff.mp h
    obtain ⟨rfl, -⟩ := Prod.mk.inj heq
    exact le_readEach (fun m hm => neg_two_le_deserializeItem (ih m hm (hwell m hm))) (by omega)
      hread
  | array t es ih =>
    have hwell := (allWellTyped_iff es).mp hw.2
    by_cases hshort : bs.length < 2
    · rw [deserializeValue_array_short es bs hshort] at h
      obtain ⟨rfl, -⟩ := Prod.mk.inj (Option.some.inj h)
      omega
    have hn := lengthField_lt bs
    have hbs := eq_lengthField_append (not_lt.mp hshort)
    generalize lengthField bs = size at hn hbs
    generalize bs.drop 2 = body at hbs
    subst hbs
    rcases Nat.eq_zero_or_pos size with rfl | hpos
    · rw [deserializeValue_array_zero] at h
      obtain ⟨rfl, -⟩ := Prod.mk.inj (Option.some.inj h)
      omega
    cases es with
    | nil => exact absurd h (by rw [deserializeValue_array_nil hpos hn]; rintro ⟨⟩)
    | cons first tail =>
      have hitem : ∀ e ∈ visited size (first :: tail) first, ∀ bs n v',
          deserializeItem behind e bs = some (n, v') → -2 ≤ n := fun e he =>
        have hmem := mem_of_mem_visited List.mem_cons_self he
        neg_two_le_deserializeItem (ih e hmem (hwell e hmem))
      by_cases hb : first.IsBool
      · rw [deserializeValue_array_bool hw hb hpos hn] at h
        obtain ⟨⟨m, after⟩, hread, heq⟩ := Option.map_eq_some_iff.mp h
        obtain ⟨rfl, -⟩ := Prod.mk.inj heq
        have hm := le_readEach hitem (by omega) hread
        split_ifs <;> omega
      · rw [deserializeValue_array hw hb hpos hn] at h
        split_ifs at h
        · obtain ⟨⟨m, after⟩, hread, heq⟩ := Option.map_eq_some_iff.mp h
          obtain ⟨rfl, -⟩ := Prod.mk.inj heq
          exact le_readEach hitem (by omega) hread
        · obtain ⟨rfl, -⟩ := Prod.mk.inj (Option.some.inj h)
          omega

end Value

end Forte
