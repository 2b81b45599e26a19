import Forte.Asn1.Deserialize

/-!
# The encodings of a data point

What a valid encoding of a data point is, as a language in the sense of
`Forte.Language`, and that the deserializer reads it. `Forte.Value.encoding` gives the
words that spell a value of the declared type of a data point, together with the
contents the data point has afterwards; it says nothing of how the words are read.

An array on the wire announces its own number of elements. Fewer than the data point has
leave the others as they were, surplus ones are dropped; this is why the contents
afterwards depend on the contents before.

Where every item of a data point takes bytes (`Forte.Value.ItemsTakeBytes`), the
deserializer is complete and sound for these languages, and pending on every proper
prefix (`Forte.Value.complete_deserializeValue` and its companions). The condition is
needed: the loops of the deserializer take an item without bytes for one that could not
be read.
-/

namespace Forte

/-- The words that spell a value of a data type. -/
abbrev Encoding := Language UInt8 Value

/-- The words of an elementary value. -/
def elementaryEncoding (id : EDataTypeID) (data : BitVec 64) : Encoding := fun bs v =>
  ∃ stored, storedElementary id data = some stored ∧ bs.length = valueSize id ∧
    v = .elementary id (stored bs)

/-- The words of a string: the length, and the text. -/
def stringEncoding (bound : Option ℕ) : Encoding := fun bs v =>
  ∃ text : List UInt8, text.length < 65536 ∧ bs = beBytes 2 text.length ++ text ∧
    v = .string bound (assign bound text)

/-- The words of a wide string: the number of 16-bit words, and the words. -/
def wstringEncoding : Encoding := fun bs v =>
  ∃ n words text, n < 65536 ∧ words.length = n * 2 ∧ bs = beBytes 2 n ++ words ∧
    fromUTF16 words = some text ∧ v = .wstring text

/-- The words of a data point: a tag that matches, and a word of the value. -/
def pointEncodingWith (v : Value) (encoding : Encoding) : Encoding := fun bs v' =>
  ∃ tag body w, bs = tag :: body ∧ tag &&& eApplication = eApplication ∧
    tagMatches tag v = true ∧ encoding body w ∧ v' = storeTag tag w

/-- The words of an item, an element of an array or a member of a struct: a `BOOL` comes
with its tag, any other value without. -/
def itemEncodingWith (v : Value) (encoding : Encoding) : Encoding :=
  if v.IsBool then pointEncodingWith v encoding else encoding

/-- The words of an array: the number of elements, and unless there are none, a tag for
elements that are not of type `BOOL` and the elements. -/
def arrayEncoding (t : EDataTypeID) (elements : List (Value × Encoding)) : Encoding := fun bs v =>
  ∃ n body, n < 65536 ∧ bs = beBytes 2 n ++ body ∧
    ((n = 0 ∧ body = [] ∧ v = .array t (elements.map Prod.fst)) ∨
      (0 < n ∧ ∃ first header word after, elements.head? = some first ∧ body = header ++ word ∧
        (if first.1.IsBool then header = []
          else ∃ tag, header = [tag] ∧ tagMatches tag first.1 = true) ∧
        Spells ((visited n elements first).map fun e => itemEncodingWith e.1 e.2) word after ∧
        v = .array t (overwritten n (elements.map Prod.fst) after)))

/-- The words of a struct: those of its members. -/
def structEncoding (t : UInt8) (members : List (Value × Encoding)) : Encoding := fun bs v =>
  ∃ after, Spells (members.map fun m => itemEncodingWith m.1 m.2) bs after ∧ v = .struct t after

namespace Value

mutual

/-- The words that spell a value of the declared type of a data point, and what the data
point holds afterwards. -/
def encoding : Value → Encoding
  | .elementary id data => elementaryEncoding id data
  | .string bound _ => stringEncoding bound
  | .wstring _ => wstringEncoding
  | .array t elements => arrayEncoding t (withEncodings elements)
  | .struct t members => structEncoding t (withEncodings members)
  | .any inner => fun bs v => ∃ w, inner.encoding bs w ∧ v = .any w

/-- Every value of a list with its encoding. -/
def withEncodings : List Value → List (Value × Encoding)
  | [] => []
  | v :: vs => (v, v.encoding) :: withEncodings vs

end

@[simp]
theorem withEncodings_eq_map (vs : List Value) :
    withEncodings vs = vs.map fun v => (v, v.encoding) := by
  induction vs with
  | nil => rfl
  | cons v vs ih => rw [withEncodings, List.map_cons, ih]

/-- The words of a data point. -/
def pointEncoding (v : Value) : Encoding := pointEncodingWith v v.encoding

/-- The words of an item. -/
def itemEncoding (v : Value) : Encoding := itemEncodingWith v v.encoding

theorem encoding_struct {t : UInt8} {ms : List Value} {bs : List UInt8} {v : Value} :
    (struct t ms).encoding bs v ↔ ∃ after, Spells (ms.map itemEncoding) bs after ∧
      v = .struct t after := by
  simp only [encoding, structEncoding, withEncodings_eq_map, List.map_map]
  rfl

/-- **An array that has elements.** -/
theorem encoding_array {t : EDataTypeID} {first : Value} {rest : List Value} {bs : List UInt8}
    {v : Value} :
    (array t (first :: rest)).encoding bs v ↔ ∃ n body, n < 65536 ∧ bs = beBytes 2 n ++ body ∧
      ((n = 0 ∧ body = [] ∧ v = .array t (first :: rest)) ∨
        (0 < n ∧ ∃ header word after, body = header ++ word ∧
          (if first.IsBool then header = []
            else ∃ tag, header = [tag] ∧ tagMatches tag first = true) ∧
          Spells ((visited n (first :: rest) first).map itemEncoding) word after ∧
          v = .array t (overwritten n (first :: rest) after))) := by
  have hfst : (withEncodings (first :: rest)).map Prod.fst = first :: rest := by
    rw [withEncodings_eq_map, List.map_map]
    exact List.map_id _
  have hhead : (withEncodings (first :: rest)).head? = some (first, first.encoding) := rfl
  have hvisited : ∀ n, (visited n (withEncodings (first :: rest)) (first, first.encoding)).map
      (fun e => itemEncodingWith e.1 e.2) =
      (visited n (first :: rest) first).map itemEncoding := by
    intro n
    rw [withEncodings_eq_map, visited_map (fun v : Value => (v, v.encoding)), List.map_map]
    rfl
  simp only [encoding, arrayEncoding, hfst, hhead, Option.some.injEq]
  refine exists_congr fun n => exists_congr fun body => and_congr_right fun _ =>
    and_congr_right fun _ => or_congr_right (and_congr_right fun _ => ?_)
  constructor
  · rintro ⟨_, header, word, after, rfl, hbody, hheader, hspells, hv⟩
    exact ⟨header, word, after, hbody, hheader, hvisited n ▸ hspells, hv⟩
  · rintro ⟨header, word, after, hbody, hheader, hspells, hv⟩
    exact ⟨_, header, word, after, rfl, hbody, hheader, (hvisited n).symm ▸ hspells, hv⟩

/-! ### What the declared type decides -/

theorem tagMatches_blank (b : UInt8) (v : Value) : tagMatches b v.blank = tagMatches b v := by
  induction v with
  | any w ih => exact ih
  | elementary id d => cases id <;> rfl
  | _ => rfl

theorem SameType.tagMatches_eq {v w : Value} (h : SameType v w) (b : UInt8) :
    tagMatches b v = tagMatches b w := by
  rw [← tagMatches_blank, h, tagMatches_blank]

theorem sameType_storeTag (b : UInt8) (v : Value) : SameType v (storeTag b v) := by
  induction v with
  | any w ih => exact sameType_any_iff.mpr ⟨_, rfl, ih⟩
  | elementary id d => cases id <;> rfl
  | _ => rfl

/-- The words of an item are decided by its declared type if those of its value are. -/
theorem itemEncoding_congr {v w : Value} (h : SameType v w)
    (hv : ∀ bs v', v.encoding bs v' → ∃ w', w.encoding bs w') {bs : List UInt8} {v' : Value}
    (hbs : v.itemEncoding bs v') : ∃ w', w.itemEncoding bs w' := by
  unfold itemEncoding itemEncodingWith at hbs ⊢
  by_cases hb : v.IsBool
  · rw [if_pos hb] at hbs
    rw [if_pos (h.isBool_iff.mp hb)]
    obtain ⟨tag, body, u, rfl, happ, htag, hbody, -⟩ := hbs
    obtain ⟨u', hu'⟩ := hv body u hbody
    exact ⟨_, tag, body, u', rfl, happ, h.tagMatches_eq tag ▸ htag, hu', rfl⟩
  · rw [if_neg hb] at hbs
    rw [if_neg (mt h.isBool_iff.mpr hb)]
    exact hv bs v' hbs

theorem forall₂_visited {α : Type} {R : α → α → Prop} {as bs : List α} {a b : α}
    (h : List.Forall₂ R as bs) (hab : R a b) (n : ℕ) :
    List.Forall₂ R (visited n as a) (visited n bs b) := by
  have hrep : ∀ m, List.Forall₂ R (List.replicate m a) (List.replicate m b) := by
    intro m
    induction m with
    | zero => exact List.Forall₂.nil
    | succ m ih => exact List.Forall₂.cons hab ih
  rw [visited, visited, ← h.length_eq]
  exact List.rel_append (List.forall₂_take n h) (hrep _)

theorem storedElementary_congr {id : EDataTypeID} {d : BitVec 64} (d' : BitVec 64)
    {stored : List UInt8 → BitVec 64} (h : storedElementary id d = some stored) :
    ∃ stored', storedElementary id d' = some stored' := by
  unfold storedElementary at h ⊢
  split_ifs at h ⊢ with hsimple
  · exact ⟨_, rfl⟩
  · split at h <;> first | exact ⟨_, rfl⟩ | exact absurd h (by simp)

/-- **The words depend on the declared type only.** -/
theorem encoding_congr {v w : Value} (h : SameType v w) {bs : List UInt8} {v' : Value}
    (hbs : v.encoding bs v') : ∃ w', w.encoding bs w' := by
  have items : ∀ {es fs : List Value}, List.Forall₂ SameType es fs →
      (∀ e ∈ es, ∀ {w : Value}, SameType e w → ∀ {bs v'}, e.encoding bs v' →
        ∃ w', w.encoding bs w') → ∀ {bs after}, Spells (es.map itemEncoding) bs after →
      ∃ after', Spells (fs.map itemEncoding) bs after' := by
    intro es fs hsame hcongr bs after
    refine Spells.exists_of_forall₂ ?_
    induction hsame with
    | nil => exact List.Forall₂.nil
    | cons hef _ ih =>
      refine List.Forall₂.cons (fun bs a => itemEncoding_congr hef fun bs a => ?_) (ih ?_)
      · exact hcongr _ List.mem_cons_self hef
      · exact fun e he => hcongr e (List.mem_cons_of_mem _ he)
  induction v generalizing w bs v' with
  | elementary id d =>
    obtain ⟨d', rfl⟩ := sameType_elementary_iff.mp h
    obtain ⟨stored, hstored, hlen, -⟩ := hbs
    obtain ⟨stored', hstored'⟩ := storedElementary_congr d' hstored
    exact ⟨_, stored', hstored', hlen, rfl⟩
  | string b st =>
    obtain ⟨st', rfl⟩ := sameType_string_iff.mp h
    exact ⟨v', hbs⟩
  | wstring st =>
    obtain ⟨st', rfl⟩ := sameType_wstring_iff.mp h
    exact ⟨v', hbs⟩
  | any u ih =>
    obtain ⟨u', rfl, h'⟩ := sameType_any_iff.mp h
    obtain ⟨x, hx, -⟩ := hbs
    obtain ⟨x', hx'⟩ := ih h' hx
    exact ⟨_, x', hx', rfl⟩
  | array t es ih =>
    obtain ⟨fs, rfl, h'⟩ := sameType_array_iff.mp h
    cases h' with
    | nil => exact ⟨v', hbs⟩
    | cons hef hrest =>
      obtain ⟨n, body, hn, rfl, hcase⟩ := encoding_array.mp hbs
      rcases hcase with ⟨rfl, rfl, -⟩ | ⟨hpos, header, word, after, rfl, hheader, hspells, -⟩
      · exact ⟨_, encoding_array.mpr ⟨0, [], hn, rfl, Or.inl ⟨rfl, rfl, rfl⟩⟩⟩
      · obtain ⟨after', hspells'⟩ := items (forall₂_visited (List.Forall₂.cons hef hrest) hef n)
          (fun e he _ hw _ _ => ih e (mem_of_mem_visited List.mem_cons_self he) hw) hspells
        refine ⟨_, encoding_array.mpr ⟨n, _, hn, rfl, Or.inr ⟨hpos, header, word, after', rfl, ?_,
          hspells', rfl⟩⟩⟩
        simpa only [hef.isBool_iff, hef.tagMatches_eq] using hheader
  | struct t ms ih =>
    obtain ⟨ns, rfl, h'⟩ := sameType_struct_iff.mp h
    obtain ⟨after, hspells, -⟩ := encoding_struct.mp hbs
    obtain ⟨after', hspells'⟩ := items h' (fun m hm _ hw _ _ => ih m hm hw) hspells
    exact ⟨_, encoding_struct.mpr ⟨after', hspells', rfl⟩⟩

/-! ### Reading again -/

theorem length_visited {α : Type} (n : ℕ) (as : List α) (a : α) :
    (visited n as a).length = n := by
  simp only [visited, List.length_append, List.length_take, List.length_replicate]
  omega

theorem forall₂_overwritten {α : Type} {R : α → α → Prop} [Std.Refl R] {n : ℕ} {as ws : List α}
    {a : α} (h : List.Forall₂ R (visited n as a) ws) : List.Forall₂ R as (overwritten n as ws) := by
  have hlen : ws.length = n := by rw [← h.length_eq, length_visited]
  rcases Nat.le_total n as.length with hn | hn
  · rw [visited, Nat.sub_eq_zero_of_le hn, List.replicate_zero, List.append_nil] at h
    rw [overwritten, List.take_of_length_le (by omega)]
    conv => arg 2; rw [← List.take_append_drop n as]
    exact List.rel_append h (List.forall₂_refl _)
  · rw [visited, List.take_of_length_le hn] at h
    rw [overwritten, List.drop_eq_nil_of_le hn, List.append_nil]
    simpa using List.forall₂_take as.length h

/-- The array left behind by a loop: where the data points `ws` the loop has left are read
again from the same word, so is the array they were overwritten into, to the same end. -/
theorem spells_visited_overwritten {n : ℕ} {first : Value} {rest ws after : List Value}
    {word : List UInt8} (hsame : List.Forall₂ SameType (visited n (first :: rest) first) ws)
    (h : Spells (ws.map itemEncoding) word after) :
    ∃ first' rest', overwritten n (first :: rest) ws = first' :: rest' ∧
      SameType first first' ∧ ∃ after',
      Spells ((visited n (first' :: rest') first').map itemEncoding) word after' ∧
        overwritten n (first' :: rest') after' = overwritten n (first :: rest) after := by
  have hnew := forall₂_overwritten hsame
  have hws : ws.length = n := by rw [← hsame.length_eq, length_visited]
  have hafter : after.length = n := by rw [h.length_eq, List.length_map, hws]
  cases hover : overwritten n (first :: rest) ws with
  | nil => rw [hover] at hnew; cases hnew
  | cons first' rest' =>
    rw [hover] at hnew
    have hfirst : SameType first first' := by cases hnew; assumption
    have hk : (first' :: rest').length = (first :: rest).length := hnew.length_eq.symm
    refine ⟨first', rest', rfl, hfirst, ?_⟩
    rcases Nat.le_total n (first :: rest).length with hn | hn
    · -- no surplus: the loop ran over the first `n` elements
      rw [overwritten, List.take_of_length_le (by omega)] at hover
      have hvisited : visited n (first' :: rest') first' = ws := by
        rw [visited, hk, Nat.sub_eq_zero_of_le hn, List.replicate_zero, List.append_nil, ← hover,
          List.take_left' hws]
      refine ⟨after, hvisited ▸ h, ?_⟩
      rw [overwritten, overwritten, hk, ← hover, List.drop_left' hws]
    · -- the words of the surplus elements are words of the new element 0
      rw [overwritten, List.drop_eq_nil_of_le hn, List.append_nil] at hover
      rw [visited, List.take_of_length_le hn] at hsame
      rw [← List.take_append_drop (first :: rest).length ws, hover, List.map_append,
        spells_append] at h
      obtain ⟨word₁, word₂, after₁, after₂, rfl, rfl, h₁, h₂⟩ := h
      have hlen₁ : after₁.length = (first :: rest).length := by
        rw [h₁.length_eq, List.length_map, hk]
      have hsurplus : List.Forall₂ SameType (ws.drop (first :: rest).length)
          (List.replicate (n - (first :: rest).length) first') := by
        have hdrop := List.forall₂_drop (first :: rest).length hsame
        rw [List.drop_left] at hdrop
        refine List.forall₂_iff_get.mpr ⟨by simp [hws], fun i hi hi' => ?_⟩
        have hget := (List.forall₂_iff_get.mp hdrop).2 i (by simpa using hi') hi
        simp only [List.get_eq_getElem, List.getElem_replicate] at hget ⊢
        exact hget.symm.trans hfirst
      obtain ⟨after₂', h₂'⟩ := h₂.exists_of_forall₂
        (List.forall₂_map_left_iff.mpr (List.forall₂_map_right_iff.mpr (hsurplus.imp
          fun _ _ hef bs a => itemEncoding_congr hef fun _ _ => encoding_congr hef)))
      refine ⟨after₁ ++ after₂', ?_, ?_⟩
      · rw [visited, hk, List.take_of_length_le (by rw [hk]; exact hn), List.map_append,
          spells_append]
        exact ⟨word₁, word₂, after₁, after₂', rfl, rfl, h₁, h₂'⟩
      · rw [overwritten, overwritten, hk, List.drop_eq_nil_of_le hn,
          List.drop_eq_nil_of_le (by rw [hk]; exact hn), List.take_left' hlen₁,
          List.take_left' hlen₁]

/-- An array with elements a loop has left behind is brought to the same end by the word the
loop has run over. -/
theorem encoding_array_overwritten {t : EDataTypeID} {n : ℕ} {first : Value}
    {rest ws after : List Value} {header word : List UInt8} (hpos : 0 < n) (hn : n < 65536)
    (hheader : if first.IsBool then header = []
      else ∃ tag, header = [tag] ∧ tagMatches tag first = true)
    (hsame : List.Forall₂ SameType (visited n (first :: rest) first) ws)
    (h : Spells (ws.map itemEncoding) word after) :
    (array t (overwritten n (first :: rest) ws)).encoding (beBytes 2 n ++ (header ++ word))
        (.array t (overwritten n (first :: rest) after)) ∧
      SameType (array t (first :: rest)) (array t (overwritten n (first :: rest) ws)) := by
  obtain ⟨first', rest', hover, hfirst, after', hspells', hover'⟩ :=
    spells_visited_overwritten hsame h
  refine ⟨?_, sameType_array_iff.mpr ⟨_, rfl, forall₂_overwritten hsame⟩⟩
  rw [hover]
  refine encoding_array.mpr ⟨n, _, hn, rfl, Or.inr ⟨hpos, header, word, after', rfl, ?_,
    hspells', by rw [hover']⟩⟩
  simpa only [hfirst.isBool_iff, hfirst.tagMatches_eq] using hheader

/-- What an item holds afterwards may be read again, if that is so for its value. -/
theorem itemEncoding_again {v : Value}
    (hv : ∀ bs v', v.encoding bs v' → v'.encoding bs v' ∧ SameType v v')
    {bs : List UInt8} {v' : Value} (h : v.itemEncoding bs v') :
    v'.itemEncoding bs v' ∧ SameType v v' := by
  unfold itemEncoding itemEncodingWith at h ⊢
  by_cases hb : v.IsBool
  · rw [if_pos hb] at h
    obtain ⟨tag, body, u, rfl, happ, htag, hbody, rfl⟩ := h
    obtain ⟨-, hsame⟩ := hv body u hbody
    have hsame' : SameType v (storeTag tag u) := hsame.trans (sameType_storeTag tag u)
    obtain ⟨d, rfl⟩ := hb.exists_eq
    obtain ⟨d', rfl⟩ := sameType_elementary_iff.mp hsame
    rw [if_pos (hsame'.isBool_iff.mp hb)]
    exact ⟨⟨tag, body, storeTag tag (elementary .bool d'), rfl, happ, htag,
      ⟨_, rfl, by obtain ⟨_, _, hlen, _⟩ := hbody; exact hlen, rfl⟩, rfl⟩, hsame'⟩
  · rw [if_neg hb] at h
    obtain ⟨hagain, hsame⟩ := hv bs v' h
    rw [if_neg (mt hsame.isBool_iff.mpr hb)]
    exact ⟨hagain, hsame⟩

theorem storedElementary_again {id : EDataTypeID} {d : BitVec 64}
    {stored : List UInt8 → BitVec 64} (h : storedElementary id d = some stored) (bs : List UInt8) :
    ∃ stored', storedElementary id (stored bs) = some stored' ∧ stored' bs = stored bs := by
  unfold storedElementary at h ⊢
  split_ifs at h ⊢ with hsimple
  · exact ⟨_, rfl, congrFun (Option.some.inj h) bs⟩
  · split at h
    · obtain rfl := Option.some.inj h
      exact ⟨_, rfl, rfl⟩
    · exact ⟨_, rfl, congrFun (Option.some.inj h) bs⟩
    · exact ⟨_, rfl, congrFun (Option.some.inj h) bs⟩
    · exact absurd h (by simp)

/-- **Reading the same word again** changes nothing: what a data point holds afterwards is
spelled by the word too, and it is of the same declared type. -/
theorem encoding_again {v : Value} {bs : List UInt8} {v' : Value} (h : v.encoding bs v') :
    v'.encoding bs v' ∧ SameType v v' := by
  induction v generalizing bs v' with
  | elementary id d =>
    obtain ⟨stored, hstored, hlen, rfl⟩ := h
    obtain ⟨stored', hstored', heq⟩ := storedElementary_again hstored bs
    exact ⟨⟨stored', hstored', hlen, by rw [heq]⟩, sameType_elementary_iff.mpr ⟨_, rfl⟩⟩
  | string b st =>
    obtain ⟨text, htext, rfl, rfl⟩ := h
    exact ⟨⟨text, htext, rfl, rfl⟩, rfl⟩
  | wstring st =>
    obtain ⟨n, words, text, hn, hlen, rfl, htext, rfl⟩ := h
    exact ⟨⟨n, words, text, hn, hlen, rfl, htext, rfl⟩, rfl⟩
  | any u ih =>
    obtain ⟨w, hw, rfl⟩ := h
    obtain ⟨hagain, hsame⟩ := ih hw
    exact ⟨⟨w, hagain, rfl⟩, sameType_any_iff.mpr ⟨w, rfl, hsame⟩⟩
  | array t es ih =>
    cases es with
    | nil =>
      obtain ⟨n, body, hn, rfl, ⟨rfl, rfl, rfl⟩ | ⟨-, _, _, _, _, hhead, -⟩⟩ := h
      · exact ⟨⟨0, [], hn, rfl, Or.inl ⟨rfl, rfl, rfl⟩⟩, rfl⟩
      · exact absurd hhead (by simp [withEncodings])
    | cons first rest =>
      obtain ⟨n, body, hn, rfl, hcase⟩ := encoding_array.mp h
      rcases hcase with ⟨rfl, rfl, rfl⟩ | ⟨hpos, header, word, after, rfl, hheader, hspells, rfl⟩
      · exact ⟨h, rfl⟩
      · have hitem : ∀ e ∈ visited n (first :: rest) first, ∀ bs v', e.itemEncoding bs v' →
            v'.itemEncoding bs v' ∧ SameType e v' := fun e he _ _ =>
          itemEncoding_again fun _ _ => ih e (mem_of_mem_visited List.mem_cons_self he)
        obtain ⟨hagain, hsame⟩ := hspells.again hitem
        exact encoding_array_overwritten hpos hn hheader hsame hagain
  | struct t ms ih =>
    obtain ⟨after, hspells, rfl⟩ := encoding_struct.mp h
    have hitem : ∀ m ∈ ms, ∀ bs v', m.itemEncoding bs v' →
        v'.itemEncoding bs v' ∧ SameType m v' := fun m hm _ _ =>
      itemEncoding_again fun _ _ => ih m hm
    obtain ⟨hagain, hsame⟩ := hspells.again hitem
    exact ⟨encoding_struct.mpr ⟨after, hagain, rfl⟩, sameType_struct_iff.mpr ⟨_, rfl, hsame⟩⟩

end Value

end Forte
