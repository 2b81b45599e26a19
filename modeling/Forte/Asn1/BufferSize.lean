import Mathlib.Algebra.BigOperators.Group.List.Basic
import Mathlib.Tactic.Linarith
import Forte.Asn1.Serialize

/-!
# Is the send buffer large enough?

`sendData` adds up `getRequiredSerializationSize` over the data points, provides a buffer
of that size and lets `serializeDataPointArray` write into it. The two are independent
recursions over the same trees, and some of the writing functions never ask for the
room. This file compares them.

The comparison goes through one number, `Forte.Value.wireLength`, the bytes a value takes
without its tag.

* **What the serializer writes.** From any room, a serializing function stores at most
  the wire length, and stores exactly that where it does not fail
  (`Forte.Value.bounded_serializeValue`). With the wire length as its room it does not
  fail on a value it can write at all (`Forte.Value.fits_serializeValue`), and it
  succeeds on no other (`Forte.Value.serializable_of_ret_ne`).
* **What the size function computes.** It is the wire length with the tag, except that
  every struct counts 255 bytes whatever it holds. `Forte.Value.structOverrun` adds up by
  how much the structs exceed that.

So the buffer is large enough exactly when the structs do not exceed their 255 bytes in
total (`Forte.sendBuffer_sufficient_iff`). Arrays must have between 1 and 65535 elements for
the serializer to have a result.
-/

namespace Forte

namespace Value

/-! ### The bytes of a value -/

mutual

/-- The number of bytes a value takes without its tag. A text that is no UTF-8 is never
written; it counts one byte, as it does for `getRequiredSerializationSize`. -/
def wireLength : Value → ℕ
  | .elementary id _ => valueSize id
  | .string _ storage => stringLength storage + 2
  | .wstring storage =>
    match toUTF16 storage with
    | some words => words.length + 2
    | none => 1
  | .array elementDataTypeID elements =>
    if elementDataTypeID = .bool then 2 + ((wireLengths elements).map (· + 1)).sum
    else 3 + (wireLengths elements).sum
  | .struct _ members => memberLengths members
  | .any inner => inner.wireLength

/-- The wire lengths of a list of values. -/
def wireLengths : List Value → List ℕ
  | [] => []
  | v :: vs => v.wireLength :: wireLengths vs

/-- The bytes the members of a struct take: a `BOOL` comes with its tag. -/
def memberLengths : List Value → ℕ
  | [] => 0
  | v :: vs => (if v.IsBool then v.wireLength + 1 else v.wireLength) + memberLengths vs

end

@[simp]
theorem wireLengths_eq_map (vs : List Value) : wireLengths vs = vs.map wireLength := by
  induction vs with
  | nil => rfl
  | cons v vs ih => rw [wireLengths, List.map_cons, ih]

/-- The bytes one member of a struct takes. -/
def memberLength (v : Value) : ℕ := if v.IsBool then v.wireLength + 1 else v.wireLength

@[simp]
theorem memberLengths_eq_sum (vs : List Value) : memberLengths vs = (vs.map memberLength).sum := by
  induction vs with
  | nil => rfl
  | cons v vs ih => rw [memberLengths, List.map_cons, List.sum_cons, ih, memberLength]

theorem IsBool.wireLength_eq {v : Value} (h : v.IsBool) : v.wireLength = 0 := by
  obtain ⟨d, rfl⟩ := h.exists_eq
  rfl

/-! ### What the serializer can write -/

mutual

/-- Every array in the value has between 1 and 65535 elements. -/
def SizedArrays : Value → Prop
  | .array _ es => 0 < es.length ∧ es.length < 65536 ∧ AllSizedArrays es
  | .struct _ ms => AllSizedArrays ms
  | .any w => w.SizedArrays
  | _ => True

/-- Every value of a list has its arrays sized so. -/
def AllSizedArrays : List Value → Prop
  | [] => True
  | v :: vs => v.SizedArrays ∧ AllSizedArrays vs

end

@[simp]
theorem allSizedArrays_iff (vs : List Value) :
    AllSizedArrays vs ↔ ∀ v ∈ vs, v.SizedArrays := by
  induction vs with
  | nil => simp [AllSizedArrays]
  | cons v vs ih => simp [AllSizedArrays, ih]

mutual

/-- The values the serializer can write, given the room: its data types, texts that are
UTF-8, and arrays of between 1 and 65535 elements. -/
def Serializable : Value → Prop
  | .elementary id _ => SimpleForSerializer id ∨ id = .bool ∨ id = .time
  | .string _ _ => True
  | .wstring storage => ∃ words, toUTF16 storage = some words ∧ words.length ≤ 131070
  | .array _ es => 0 < es.length ∧ es.length < 65536 ∧ AllSerializable es
  | .struct _ ms => AllSerializable ms
  | .any w => w.Serializable

/-- Every value of a list can be written. -/
def AllSerializable : List Value → Prop
  | [] => True
  | v :: vs => v.Serializable ∧ AllSerializable vs

end

@[simp]
theorem allSerializable_iff (vs : List Value) :
    AllSerializable vs ↔ ∀ v ∈ vs, v.Serializable := by
  induction vs with
  | nil => simp [AllSerializable]
  | cons v vs ih => simp [AllSerializable, ih]

theorem Serializable.sizedArrays {v : Value} : v.Serializable → v.SizedArrays := by
  induction v with
  | elementary id d => exact fun _ => trivial
  | string b s => exact fun _ => trivial
  | wstring s => exact fun _ => trivial
  | array t es ih =>
    simp only [Serializable, SizedArrays, allSerializable_iff, allSizedArrays_iff]
    exact fun ⟨hpos, hlt, h⟩ => ⟨hpos, hlt, fun e he => ih e he (h e he)⟩
  | struct t ms ih =>
    simp only [Serializable, SizedArrays, allSerializable_iff, allSizedArrays_iff]
    exact fun h m hm => ih m hm (h m hm)
  | any w ih => exact ih

@[simp]
theorem withSerializers_eq_map (vs : List Value) :
    withSerializers vs = vs.map fun v => (v, serializeValue v) := by
  induction vs with
  | nil => rfl
  | cons v vs ih => rw [withSerializers, List.map_cons, ih]

end Value

/-! ### Serializing functions that keep to a length -/

/-- A run that started behind `out` and was to store `n` bytes: it has stored them and
returns `ret`, or it failed having stored no more. -/
def KeptTo (out : List UInt8) (ret n : ℕ) (r : Ser) : Prop :=
  (r.ret = ret ∧ r.out.length = out.length + n) ∨
    (r.ret = -1 ∧ out.length ≤ r.out.length ∧ r.out.length ≤ out.length + n)

theorem KeptTo.le {out : List UInt8} {ret n : ℕ} {r : Ser} (h : KeptTo out ret n r) :
    out.length ≤ r.out.length ∧ r.out.length ≤ out.length + n := by
  rcases h with ⟨-, hlen⟩ | ⟨-, hle, hlen⟩ <;> omega

/-- A serializing function **keeps to the length** `n`: it stores exactly `n` bytes
and says so, or it fails having stored no more than that. -/
def Bounded (s : Serializer) (n : ℕ) : Prop :=
  ∀ room out, ∃ r, s room out = some r ∧ KeptTo out n n r

/-- A serializing function **fits into** `n` bytes: given that room, it returns `n`. -/
def Fits (s : Serializer) (n : ℕ) : Prop :=
  ∀ (room : ℤ) out, n ≤ room → ∃ r, s room out = some r ∧ r.ret = n

section Loops

variable (good : ℤ → Bool) {ι : Type} {s : ι → Serializer} {n : ι → ℕ}

/-- A loop keeps to the sum of the lengths, whatever makes it give up. -/
theorem keptTo_serializeEach (hbad : good (-1) = false) :
    ∀ {is : List ι}, (∀ i ∈ is, Bounded (s i) (n i)) → ∀ (acc : ℕ) room out,
      ∃ r, serializeEach good (is.map s) acc room out = some r ∧
        KeptTo out (acc + (is.map n).sum) (is.map n).sum r := by
  intro is
  induction is with
  | nil => intro _ acc room out; exact ⟨_, rfl, Or.inl ⟨by simp, by simp⟩⟩
  | cons i is ih =>
    intro h acc room out
    obtain ⟨r, hr, hkept⟩ := h i List.mem_cons_self room out
    simp only [List.map_cons, serializeEach, hr, Option.bind_eq_bind, Option.bind_some,
      List.sum_cons]
    by_cases hgood : good r.ret
    · obtain ⟨hret, hlen⟩ : r.ret = n i ∧ r.out.length = out.length + n i := by
        rcases hkept with hok | ⟨hret, -⟩
        · exact hok
        · rw [hret, hbad] at hgood
          exact absurd hgood (by simp)
      obtain ⟨r', hr', hkept'⟩ := ih (fun j hj => h j (List.mem_cons_of_mem _ hj)) (acc + n i)
        (room - r.ret) r.out
      refine ⟨r', by rw [if_pos hgood, ← hr', hret]; push_cast; rfl, ?_⟩
      rcases hkept' with ⟨hret', hlen'⟩ | ⟨hret', hle', hlen'⟩
      · exact Or.inl ⟨by rw [hret']; push_cast; ring, by omega⟩
      · exact Or.inr ⟨hret', by omega, by omega⟩
    · have hle := hkept.le
      refine ⟨⟨-1, r.out⟩, by rw [if_neg hgood], Or.inr ⟨rfl, ?_, ?_⟩⟩
      · exact hle.1
      · exact hle.2.trans (by omega)

/-- A loop fits into the sum of the lengths, if it lets every one of them pass. -/
theorem fits_serializeEach :
    ∀ {is : List ι}, (∀ i ∈ is, Fits (s i) (n i)) → (∀ i ∈ is, good (n i) = true) →
      ∀ (acc : ℕ) (room : ℤ) out, ((is.map n).sum : ℕ) ≤ room →
        ∃ r, serializeEach good (is.map s) acc room out = some r ∧
          r.ret = (acc + (is.map n).sum : ℕ) := by
  intro is
  induction is with
  | nil => intro _ _ acc room out _; exact ⟨_, rfl, by simp⟩
  | cons i is ih =>
    intro h hgood acc room out hroom
    simp only [List.map_cons, List.sum_cons] at hroom ⊢
    obtain ⟨r, hr, hret⟩ := h i List.mem_cons_self room out (by omega)
    obtain ⟨r', hr', hret'⟩ := ih (fun j hj => h j (List.mem_cons_of_mem _ hj))
      (fun j hj => hgood j (List.mem_cons_of_mem _ hj)) (acc + n i) (room - n i) r.out (by omega)
    refine ⟨r', ?_, by rw [hret']; push_cast; ring⟩
    simp only [serializeEach, hr, Option.bind_eq_bind, Option.bind_some, hret,
      hgood i List.mem_cons_self, if_true, ← hr']
    push_cast
    rfl

/-- Where a loop succeeds, every step of it has. -/
theorem forall_of_serializeEach_ret_ne {P : ι → Prop} :
    ∀ {is : List ι} {acc room : ℤ} {out : List UInt8} {r : Ser},
      (∀ i ∈ is, ∀ room out r, s i room out = some r → good r.ret = true → P i) →
      serializeEach good (is.map s) acc room out = some r → r.ret ≠ -1 → ∀ i ∈ is, P i := by
  intro is
  induction is with
  | nil => intro _ _ _ _ _ _ _ i hi; exact absurd hi List.not_mem_nil
  | cons i is ih =>
    intro acc room out r h hrun hret
    simp only [List.map_cons, serializeEach, Option.bind_eq_bind, Option.bind_eq_some_iff] at hrun
    obtain ⟨r₁, hr₁, hrun⟩ := hrun
    by_cases hgood : good r₁.ret
    · rw [if_pos hgood] at hrun
      have hrest := ih (fun j hj => h j (List.mem_cons_of_mem _ hj)) hrun hret
      exact List.forall_mem_cons.mpr ⟨h i List.mem_cons_self room out r₁ hr₁ hgood, hrest⟩
    · rw [if_neg hgood] at hrun
      obtain rfl := Option.some.inj hrun
      exact absurd rfl hret

end Loops

/-- The loop over too many elements never succeeds. -/
theorem serializeWrapped_ret {good : ℤ → Bool} {ss : List Serializer} :
    ∀ {passes : ℕ} {acc room : ℤ} {out : List UInt8} {r : Ser},
      serializeWrapped good ss passes acc room out = some r → r.ret = -1 := by
  intro passes
  induction passes with
  | zero => intro _ _ _ _ h; exact absurd h (by simp [serializeWrapped])
  | succ passes ih =>
    intro acc room out r hrun
    simp only [serializeWrapped, Option.bind_eq_bind, Option.bind_eq_some_iff] at hrun
    obtain ⟨r₁, -, hrun⟩ := hrun
    by_cases hfail : r₁.ret = -1
    · rw [if_pos hfail] at hrun
      exact (Option.some.inj hrun) ▸ hfail
    · rw [if_neg hfail] at hrun
      exact ih hrun

theorem serializeElements_ret {good : ℤ → Bool} {ss : List Serializer} {acc room : ℤ}
    {out : List UInt8} {r : Ser} (hlen : ¬ss.length < 65536)
    (h : serializeElements good ss acc room out = some r) : r.ret = -1 := by
  rw [serializeElements, if_neg hlen] at h
  exact serializeWrapped_ret h

section DataPoints

variable {v : Value} {s : Serializer} {n : ℕ}

/-- A data point takes one byte more than its value. -/
theorem Bounded.dataPoint (h : Bounded s n) : Bounded (serializeDataPointWith v s) (n + 1) := by
  intro room out
  by_cases hroom : 0 < room
  · obtain ⟨r, hr, hkept⟩ := h (room - 1) (out ++ [serializeTag v])
    have hle := hkept.le
    simp only [List.length_append, List.length_singleton] at hle
    simp only [serializeDataPointWith, if_pos hroom, hr, Option.bind_eq_bind, Option.bind_some]
    rcases hkept with ⟨hret, hlen⟩ | ⟨hret, -⟩
    · refine ⟨_, by rw [if_pos (by omega)], Or.inl ⟨by simp [hret], ?_⟩⟩
      simpa [Nat.add_assoc, Nat.add_comm 1] using hlen
    · exact ⟨r, by rw [if_neg (by omega)], Or.inr ⟨hret, by omega, by omega⟩⟩
  · refine ⟨⟨-1, out⟩, by rw [serializeDataPointWith, if_neg hroom], Or.inr ⟨rfl, le_rfl, ?_⟩⟩
    exact Nat.le_add_right _ _

theorem Fits.dataPoint (h : Fits s n) : Fits (serializeDataPointWith v s) (n + 1) := by
  intro room out hroom
  push_cast at hroom
  obtain ⟨r, hr, hret⟩ := h (room - 1) (out ++ [serializeTag v]) (by omega)
  refine ⟨{ r with ret := r.ret + 1 }, ?_, by simp [hret]⟩
  simp only [serializeDataPointWith, if_pos (show 0 < room by omega), hr, Option.bind_eq_bind,
    Option.bind_some, if_pos (show 0 ≤ r.ret by omega)]

/-- A data point that is written has a value that is. -/
theorem ret_ne_of_serializeDataPointWith {room : ℤ} {out : List UInt8} {r : Ser}
    (h : serializeDataPointWith v s room out = some r) (hret : r.ret ≠ -1) :
    ∃ room' out' r', s room' out' = some r' ∧ r'.ret ≠ -1 := by
  unfold serializeDataPointWith at h
  by_cases hroom : 0 < room
  · rw [if_pos hroom, Option.bind_eq_bind, Option.bind_eq_some_iff] at h
    obtain ⟨r₁, hr₁, h⟩ := h
    refine ⟨_, _, r₁, hr₁, fun hfail => ?_⟩
    rw [if_neg (by omega)] at h
    exact hret (Option.some.inj h ▸ hfail)
  · rw [if_neg hroom] at h
    exact absurd (Option.some.inj h ▸ rfl) hret

end DataPoints

/-! ### The single kinds of values keep to their length -/

theorem bounded_simpleDataType (id : EDataTypeID) (d : BitVec 64) :
    Bounded (serializeValueSimpleDataType id d) (valueSize id) := by
  intro room out
  unfold serializeValueSimpleDataType
  split_ifs with hroom
  · exact ⟨_, rfl, Or.inl ⟨rfl, by simp⟩⟩
  · exact ⟨_, rfl, Or.inr ⟨rfl, le_rfl, Nat.le_add_right _ _⟩⟩

theorem bounded_bool (d : BitVec 64) : Bounded (serializeValueBool d) 0 := by
  intro room out
  unfold serializeValueBool
  split_ifs with hd
  · exact ⟨_, rfl, Or.inl ⟨rfl, by simp⟩⟩
  · exact ⟨_, rfl, Or.inl ⟨rfl, rfl⟩⟩

theorem bounded_time (d : BitVec 64) : Bounded (serializeValueTime d) 8 := by
  intro room out
  unfold serializeValueTime
  split_ifs with hroom
  · exact ⟨_, rfl, Or.inl ⟨rfl, by simp⟩⟩
  · exact ⟨_, rfl, Or.inr ⟨rfl, le_rfl, Nat.le_add_right _ _⟩⟩

theorem bounded_elementary (id : EDataTypeID) (d : BitVec 64) :
    Bounded (serializeElementary id d) (valueSize id) := by
  unfold serializeElementary
  split_ifs with hsimple
  · exact bounded_simpleDataType id d
  · split
    · exact bounded_bool d
    · exact bounded_time d
    · exact fun room out => ⟨_, rfl, Or.inr ⟨rfl, le_rfl, Nat.le_add_right _ _⟩⟩

theorem bounded_string (st : List UInt8) :
    Bounded (serializeValueString st) (stringLength st + 2) := by
  intro room out
  have hlen : (st.take (stringLength st)).length = stringLength st := by
    rw [List.length_take, stringLength]
    exact Nat.min_eq_left (Nat.mod_le _ _)
  unfold serializeValueString
  dsimp only
  split_ifs with hroom
  · refine ⟨_, rfl, Or.inl ⟨by push_cast; rfl, ?_⟩⟩
    simp only [List.length_append, length_beBytes, hlen]
    omega
  · exact ⟨_, rfl, Or.inr ⟨rfl, le_rfl, Nat.le_add_right _ _⟩⟩

theorem bounded_wstring (st : List UInt8) :
    Bounded (serializeValueWString st) (Value.wireLength (.wstring st)) := by
  intro room out
  have hfail : KeptTo out (Value.wireLength (.wstring st)) (Value.wireLength (.wstring st))
      ⟨-1, out⟩ := Or.inr ⟨rfl, le_rfl, Nat.le_add_right _ _⟩
  unfold serializeValueWString
  split_ifs with hroom
  · exact ⟨_, rfl, hfail⟩
  · cases hw : toUTF16 st with
    | none => exact ⟨_, rfl, hfail⟩
    | some words =>
      dsimp only
      split_ifs with hsmall hlarge
      · exact ⟨_, rfl, hfail⟩
      · exact ⟨_, rfl, hfail⟩
      · refine ⟨_, rfl, Or.inl ⟨?_, ?_⟩⟩
        · simp [Value.wireLength, hw]
        · simp only [Value.wireLength, hw, List.length_append, length_beBytes]
          omega

/-! ### What the serializer writes -/

theorem KeptTo.of_append {out header : List UInt8} {n : ℕ} {r : Ser}
    (h : KeptTo (out ++ header) (header.length + n) n r) :
    KeptTo out (header.length + n) (header.length + n) r := by
  simp only [KeptTo, List.length_append] at h
  rcases h with ⟨hret, hlen⟩ | ⟨hret, hle, hlen⟩
  · exact Or.inl ⟨hret, by omega⟩
  · exact Or.inr ⟨hret, by omega, by omega⟩

namespace Value

/-- The header of an array: its number of elements, and the tag of the elements unless
they are of type `BOOL`. -/
def arrayHeader (first : Value) (size : ℕ) : List UInt8 :=
  if first.IsBool then beBytes 2 size else beBytes 2 size ++ [serializeTag first]

/-- The serializer of an element of an array. -/
def serializeElement (first e : Value) : Serializer :=
  if first.IsBool then serializeDataPoint e else serializeValue e

/-- What the loop over the elements lets pass. -/
def goodElement (first : Value) : ℤ → Bool :=
  if first.IsBool then goodPoint else goodValue

/-- **An array** is its header and the loop over its elements. -/
theorem serializeValue_array (t : EDataTypeID) (first : Value) (rest : List Value) (room : ℤ)
    (out : List UInt8) (h : (first :: rest).length < 65536) :
    serializeValue (.array t (first :: rest)) room out =
      serializeEach (goodElement first) ((first :: rest).map (serializeElement first))
        (arrayHeader first (first :: rest).length).length
        (room - (arrayHeader first (first :: rest).length).length)
        (out ++ arrayHeader first (first :: rest).length) := by
  simp only [serializeValue, serializeArray, withSerializers_eq_map, List.map_cons,
    serializeElements, List.length_cons, List.length_map, List.map_map] at h ⊢
  by_cases hb : first.IsBool
  · have helem : serializeElement first = serializeDataPoint := by
      funext e; simp [serializeElement, hb]
    simp only [if_pos hb, if_pos h, goodElement, arrayHeader, helem, length_beBytes]
    rfl
  · have helem : serializeElement first = serializeValue := by
      funext e; simp [serializeElement, hb]
    simp only [if_neg hb, if_pos h, goodElement, arrayHeader, helem, List.length_append,
      length_beBytes, List.length_singleton]
    rfl

/-- The serializer of a member of a struct. -/
def serializeMember (m : Value) : Serializer :=
  if m.IsBool then serializeDataPoint m else serializeValue m

/-- **A struct** is the loop over its members. -/
theorem serializeValue_struct (t : UInt8) (ms : List Value) :
    serializeValue (.struct t ms) = serializeEach goodValue (ms.map serializeMember) 0 := by
  simp only [serializeValue, serializeValueStruct, withSerializers_eq_map, List.map_map]
  rfl

/-- The bytes an element of an array takes. -/
def elementLength (first e : Value) : ℕ :=
  if first.IsBool then e.wireLength + 1 else e.wireLength

theorem wireLength_array {t : EDataTypeID} {first : Value} {rest : List Value}
    (hw : (array t (first :: rest)).WellTyped) :
    (array t (first :: rest)).wireLength =
      (arrayHeader first (first :: rest).length).length +
        ((first :: rest).map (elementLength first)).sum := by
  have hb := isBool_iff_of_wellTyped hw List.mem_cons_self
  by_cases hbool : first.IsBool
  · have hlen : elementLength first = fun e => e.wireLength + 1 := by
      funext e; simp [elementLength, hbool]
    simp [wireLength, arrayHeader, hlen, hbool, hb.mp hbool, Function.comp_def]
  · have hlen : elementLength first = wireLength := by
      funext e; simp [elementLength, hbool]
    simp [wireLength, arrayHeader, hlen, hbool, mt hb.mpr hbool]

/-- **No writing function leaves its length.** A value is written with exactly its wire
length, or the attempt fails having stored no more. -/
theorem bounded_serializeValue {v : Value} (hw : v.WellTyped) (hs : v.SizedArrays) :
    Bounded (serializeValue v) v.wireLength := by
  induction v with
  | elementary id d => exact bounded_elementary id d
  | string b st => exact bounded_string st
  | wstring st => exact bounded_wstring st
  | any w ih => exact ih hw hs
  | array t es ih =>
    obtain ⟨hpos, hlt, hall⟩ := hs
    rw [allSizedArrays_iff] at hall
    have hwell := (allWellTyped_iff es).mp hw.2
    obtain ⟨first, rest, rfl⟩ := List.exists_cons_of_length_pos hpos
    have helem : ∀ e ∈ first :: rest,
        Bounded (serializeElement first e) (elementLength first e) := by
      intro e he
      have hvalue := ih e he (hwell e he) (hall e he)
      unfold serializeElement elementLength
      split_ifs
      · exact hvalue.dataPoint
      · exact hvalue
    have hbad : goodElement first (-1) = false := by
      unfold goodElement; split_ifs <;> rfl
    intro room out
    obtain ⟨r, hr, hkept⟩ := keptTo_serializeEach _ hbad helem
      (arrayHeader first (first :: rest).length).length
      (room - (arrayHeader first (first :: rest).length).length)
      (out ++ arrayHeader first (first :: rest).length)
    refine ⟨r, by rw [serializeValue_array t first rest room out hlt, hr], ?_⟩
    rw [wireLength_array hw]
    exact hkept.of_append
  | struct t ms ih =>
    have hall := (allSizedArrays_iff ms).mp hs
    have hwell := (allWellTyped_iff ms).mp hw.2
    have hmember : ∀ m ∈ ms, Bounded (serializeMember m) m.memberLength := by
      intro m hm
      have hvalue := ih m hm (hwell m hm) (hall m hm)
      unfold serializeMember memberLength
      split_ifs
      · exact hvalue.dataPoint
      · exact hvalue
    intro room out
    obtain ⟨r, hr, hkept⟩ := keptTo_serializeEach goodValue rfl hmember 0 room out
    refine ⟨r, by rw [serializeValue_struct, ← hr]; rfl, ?_⟩
    simpa [wireLength] using hkept

theorem fits_elementary {id : EDataTypeID} {d : BitVec 64}
    (h : (elementary id d).Serializable) :
    Fits (serializeElementary id d) (valueSize id) := by
  intro room out hroom
  unfold serializeElementary
  split_ifs with hsimple
  · exact ⟨_, by rw [serializeValueSimpleDataType, if_pos hroom], rfl⟩
  · rcases h with hs | rfl | rfl
    · exact absurd hs hsimple
    · dsimp only [serializeValueBool]
      split_ifs <;> exact ⟨_, rfl, rfl⟩
    · exact ⟨_, if_pos hroom, rfl⟩

/-- **Given its wire length as room, a value is written** if it can be written at all. -/
theorem fits_serializeValue {v : Value} (hw : v.WellTyped) (hs : v.Serializable) :
    Fits (serializeValue v) v.wireLength := by
  induction v with
  | elementary id d => exact fits_elementary hs
  | string b st =>
    intro room out hroom
    rw [wireLength] at hroom ⊢
    push_cast at hroom
    exact ⟨_, by rw [serializeValue, serializeValueString, if_pos hroom], rfl⟩
  | wstring st =>
    intro room out hroom
    obtain ⟨words, hwords, hle⟩ := hs
    simp only [wireLength, hwords] at hroom ⊢
    push_cast at hroom
    refine ⟨⟨words.length + 2, out ++ (beBytes 2 (words.length / 2) ++ words)⟩, ?_,
      by push_cast; rfl⟩
    simp only [serializeValue, serializeValueWString, hwords]
    rw [if_neg (by omega), if_neg (by omega), if_neg (by omega)]
  | any w ih => exact ih hw hs
  | array t es ih =>
    obtain ⟨hpos, hlt, hall⟩ := hs
    rw [allSerializable_iff] at hall
    have hwell := (allWellTyped_iff es).mp hw.2
    obtain ⟨first, rest, rfl⟩ := List.exists_cons_of_length_pos hpos
    have helem : ∀ e ∈ first :: rest, Fits (serializeElement first e) (elementLength first e) := by
      intro e he
      have hvalue := ih e he (hwell e he) (hall e he)
      unfold serializeElement elementLength
      split_ifs
      · exact hvalue.dataPoint
      · exact hvalue
    have hgood : ∀ e ∈ first :: rest, goodElement first (elementLength first e) = true := by
      intro e _
      unfold goodElement elementLength
      split_ifs <;> simp [goodPoint, goodValue]
    intro room out hroom
    rw [wireLength_array hw] at hroom ⊢
    obtain ⟨r, hr, hret⟩ := fits_serializeEach _ helem hgood
      (arrayHeader first (first :: rest).length).length
      (room - (arrayHeader first (first :: rest).length).length)
      (out ++ arrayHeader first (first :: rest).length) (by omega)
    exact ⟨r, by rw [serializeValue_array t first rest room out hlt, hr], hret⟩
  | struct t ms ih =>
    have hall := (allSerializable_iff ms).mp hs
    have hwell := (allWellTyped_iff ms).mp hw.2
    have hmember : ∀ m ∈ ms, Fits (serializeMember m) m.memberLength := by
      intro m hm
      have hvalue := ih m hm (hwell m hm) (hall m hm)
      unfold serializeMember memberLength
      split_ifs
      · exact hvalue.dataPoint
      · exact hvalue
    have hgood : ∀ m ∈ ms, goodValue m.memberLength = true := by
      intro m _
      simp only [goodValue, decide_eq_true_eq]
      omega
    intro room out hroom
    rw [wireLength, memberLengths_eq_sum] at hroom ⊢
    obtain ⟨r, hr, hret⟩ := fits_serializeEach _ hmember hgood 0 room out hroom
    exact ⟨r, by rw [serializeValue_struct, ← hr]; rfl, by simpa using hret⟩

theorem serializable_of_elementary {id : EDataTypeID} {d : BitVec 64} {room : ℤ}
    {out : List UInt8} {r : Ser} (h : serializeElementary id d room out = some r)
    (hret : r.ret ≠ -1) : (elementary id d).Serializable := by
  unfold serializeElementary at h
  split_ifs at h with hsimple
  · exact Or.inl hsimple
  · split at h
    · exact Or.inr (Or.inl rfl)
    · exact Or.inr (Or.inr rfl)
    · exact absurd (Option.some.inj h ▸ rfl) hret

theorem serializable_of_wstring {st : List UInt8} {room : ℤ} {out : List UInt8} {r : Ser}
    (h : serializeValueWString st room out = some r) (hret : r.ret ≠ -1) :
    (wstring st).Serializable := by
  unfold serializeValueWString at h
  split_ifs at h
  · exact absurd (Option.some.inj h ▸ rfl) hret
  · cases hwords : toUTF16 st with
    | none =>
      rw [hwords] at h
      exact absurd (Option.some.inj h ▸ rfl) hret
    | some words =>
      simp only [hwords] at h
      split_ifs at h with hsmall hlarge
      · exact absurd (Option.some.inj h ▸ rfl) hret
      · exact absurd (Option.some.inj h ▸ rfl) hret
      · exact ⟨words, hwords, by omega⟩

/-- **Nothing else is written**: a value on which the serializer succeeds once, with
whatever room, is one it can write. -/
theorem serializable_of_ret_ne {v : Value} {room : ℤ} {out : List UInt8} {r : Ser}
    (h : serializeValue v room out = some r) (hret : r.ret ≠ -1) : v.Serializable := by
  induction v generalizing room out r with
  | elementary id d => exact serializable_of_elementary h hret
  | string b st => trivial
  | wstring st => exact serializable_of_wstring h hret
  | any w ih => exact ih h hret
  | array t es ih =>
    cases es with
    | nil => exact absurd h (by simp [serializeValue, serializeArray, withSerializers])
    | cons first rest =>
      by_cases hlt : (first :: rest).length < 65536
      · refine ⟨by simp, hlt, (allSerializable_iff _).mpr ?_⟩
        rw [serializeValue_array t first rest room out hlt] at h
        refine forall_of_serializeEach_ret_ne (goodElement first)
          (fun e he room out r hr hgood => ?_)
          h hret
        unfold serializeElement at hr
        unfold goodElement at hgood
        split_ifs at hr hgood
        · simp only [goodPoint, decide_eq_true_eq] at hgood
          obtain ⟨_, _, _, hr', hret'⟩ := ret_ne_of_serializeDataPointWith hr (by omega)
          exact ih e he hr' hret'
        · simp only [goodValue, decide_eq_true_eq] at hgood
          exact ih e he hr hgood
      · -- the loop over too many elements can only end with `-1`
        simp only [serializeValue, serializeArray, withSerializers_eq_map, List.map_cons] at h
        refine absurd ?_ hret
        split_ifs at h <;> exact serializeElements_ret (by simpa using hlt) h
  | struct t ms ih =>
    refine (allSerializable_iff _).mpr ?_
    rw [serializeValue_struct] at h
    refine forall_of_serializeEach_ret_ne goodValue (fun m hm room out r hr hgood => ?_) h hret
    simp only [goodValue, decide_eq_true_eq] at hgood
    unfold serializeMember at hr
    split_ifs at hr
    · obtain ⟨_, _, _, hr', hret'⟩ := ret_ne_of_serializeDataPointWith hr hgood
      exact ih m hm hr' hret'
    · exact ih m hm hr hgood

/-! ### What the size function computes -/

mutual

/-- By how much the structs of a value exceed the 255 bytes that
`getRequiredSerializationSize` counts for each. Only the outermost structs are counted
there, and what an array of `BOOL` holds is counted as it is. -/
def structOverrun : Value → ℤ
  | .struct t members => ((Value.struct t members).wireLength + 1 : ℤ) - 255
  | .array elementDataTypeID elements =>
    if elementDataTypeID = .bool then 0 else structOverruns elements
  | .any inner => inner.structOverrun
  | _ => 0

/-- The overruns of a list of values, added up. -/
def structOverruns : List Value → ℤ
  | [] => 0
  | v :: vs => v.structOverrun + structOverruns vs

end

theorem valueSize_add_one (id : EDataTypeID) : valueSize id + 1 = (csmDataTags id).2 := by
  cases id <;> rfl

theorem requiredSizes_eq_map (vs : List Value) :
    requiredSizes vs = vs.map getRequiredSerializationSize := by
  induction vs with
  | nil => rfl
  | cons v vs ih => rw [requiredSizes, List.map_cons, ih]

/-- What the size function is to return for a value: the bytes with the tag, less what its
structs exceed the 255 bytes counted for each. -/
def RequiredSize (v : Value) : Prop :=
  ∃ n : ℕ, getRequiredSerializationSize v = some n ∧ 1 ≤ n ∧
    (n : ℤ) + v.structOverrun = v.wireLength + 1

/-- The sum of the required sizes, given what each of them is. -/
theorem sum_requiredSizes {vs : List Value} (h : ∀ v ∈ vs, v.RequiredSize) (base : ℕ) :
    ∃ n : ℕ, (requiredSizes vs).foldr (fun s acc => do pure ((← s) + (← acc))) (some base)
        = some n ∧ vs.length ≤ n ∧
      (n : ℤ) + structOverruns vs = base + ((vs.map (wireLength · + 1)).sum : ℕ) := by
  induction vs with
  | nil => exact ⟨base, rfl, Nat.zero_le _, by simp [structOverruns]⟩
  | cons v vs ih =>
    obtain ⟨m, hm, hlen, hsum⟩ := ih fun w hw => h w (List.mem_cons_of_mem _ hw)
    obtain ⟨n, hn, hpos, hov⟩ := h v List.mem_cons_self
    refine ⟨n + m, ?_, ?_, ?_⟩
    · rw [requiredSizes, List.foldr_cons, hm, hn]
      rfl
    · rw [List.length_cons]
      omega
    · simp only [structOverruns, List.map_cons, List.sum_cons]
      push_cast at hsum ⊢
      linarith

/-- **The size function**: the bytes of the value with its tag, but 255 for every
struct. -/
theorem requiredSize {v : Value} (hw : v.WellTyped) (hs : v.SizedArrays) : v.RequiredSize := by
  induction v with
  | elementary id d =>
    refine ⟨_, rfl, ?_, ?_⟩ <;> simp [structOverrun, wireLength, getDataTypeID, ← valueSize_add_one]
  | string b st => exact ⟨_, rfl, by omega, by simp [structOverrun, wireLength]; ring⟩
  | wstring st =>
    cases hwords : toUTF16 st with
    | none =>
      refine ⟨2, by rw [getRequiredSerializationSize, hwords], by omega, ?_⟩
      simp [structOverrun, wireLength, hwords]
    | some words =>
      refine ⟨words.length + 3, by rw [getRequiredSerializationSize, hwords], by omega, ?_⟩
      simp [structOverrun, wireLength, hwords]
      ring
  | any w ih => exact ih hw hs
  | struct t ms ih => exact ⟨255, rfl, by omega, by simp [structOverrun]⟩
  | array t es ih =>
    obtain ⟨hpos, hlt, hall⟩ := hs
    rw [allSizedArrays_iff] at hall
    have hwell := (allWellTyped_iff es).mp hw.2
    by_cases ht : t = .bool
    · -- a `BOOL` takes no bytes besides its tag
      have hzero : es.map (wireLength · + 1) = es.map fun _ => 1 :=
        List.map_congr_left fun e he => by
          rw [IsBool.wireLength_eq ((isBool_iff_of_wellTyped hw he).mpr ht)]
      have hsum : (es.map (wireLength · + 1)).sum = es.length := by rw [hzero]; simp
      refine ⟨3 + es.length, by rw [getRequiredSerializationSize, if_pos ht], by omega, ?_⟩
      simp only [structOverrun, wireLength, ht, if_true, wireLengths_eq_map, List.map_map,
        Function.comp_def, hsum]
      push_cast
      ring
    · obtain ⟨n, hn, hlen, hsum⟩ :=
        sum_requiredSizes (fun e he => ih e he (hwell e he) (hall e he)) 0
      have hmap : (es.map (wireLength · + 1)).sum = (es.map wireLength).sum + es.length := by
        rw [List.sum_map_add]
        simp
      refine ⟨3 + n + 1 - es.length, ?_, by omega, ?_⟩
      · rw [getRequiredSerializationSize, if_neg ht, sumRequired,
          if_pos (by simpa [requiredSizes_eq_map] using hlt), hn]
        rfl
      · have hle : es.length ≤ 3 + n + 1 := by omega
        simp only [structOverrun, wireLength, ht, if_false, wireLengths_eq_map]
        rw [hmap] at hsum
        push_cast [Nat.cast_sub hle] at hsum ⊢
        linarith

end Value

/-! ### The send buffer -/

/-- The structs of the data points take no more than 255 bytes each on average, and their
arrays have between 1 and 65535 elements. -/
structure StructsFit (data : List Value) : Prop where
  /-- The arrays have between 1 and 65535 elements. -/
  sizedArrays : ∀ v ∈ data, v.SizedArrays
  /-- The structs do not exceed in total what is counted for them. -/
  overrun : Value.structOverruns data ≤ 0

/-- A buffer of `size` bytes is large enough for the data points. -/
structure SendBufferSuffices (data : List Value) (size : ℕ) : Prop where
  /-- The size is at least the number of bytes the serializer produces. -/
  produced : ∀ streamSize r, serializeDataPointArray streamSize data = some r → r.ret ≤ size
  /-- No write falls outside the buffer. -/
  inside : ∃ r, serializeDataPointArray size data = some r ∧ r.out.length ≤ size
  /-- No function fails for lack of room: a larger buffer would not have helped. -/
  room : ∀ streamSize r, size ≤ streamSize → serializeDataPointArray streamSize data = some r →
    r.ret ≠ -1 → ∃ r', serializeDataPointArray size data = some r' ∧ r'.ret ≠ -1

theorem serializeDataPointArray_cons (streamSize : ℕ) (v : Value) (vs : List Value) :
    serializeDataPointArray streamSize (v :: vs) =
      if intMax < streamSize then some ⟨-1, []⟩
      else serializeEach goodPoint ((v :: vs).map serializeDataPoint) 0 streamSize [] := rfl

variable {data : List Value}

/-- The bytes of the data points with their tags. -/
def pointsLength (data : List Value) : ℕ := (data.map (Value.wireLength · + 1)).sum

/-- Into a buffer of any size, the serializer writes the bytes of the data points, or it
fails having written no more. -/
theorem keptTo_serializeDataPointArray (hne : data ≠ []) (hw : ∀ v ∈ data, v.WellTyped)
    (hs : ∀ v ∈ data, v.SizedArrays) (streamSize : ℕ) :
    ∃ r, serializeDataPointArray streamSize data = some r ∧
      KeptTo [] (pointsLength data) (pointsLength data) r := by
  obtain ⟨v, vs, rfl⟩ := List.exists_cons_of_ne_nil hne
  rw [serializeDataPointArray_cons]
  split_ifs
  · exact ⟨_, rfl, Or.inr ⟨rfl, by simp, by simp⟩⟩
  · have hpoint : ∀ w ∈ v :: vs, Bounded (serializeDataPoint w) (w.wireLength + 1) :=
      fun w hmem => (Value.bounded_serializeValue (hw w hmem) (hs w hmem)).dataPoint
    obtain ⟨r, hr, hkept⟩ := keptTo_serializeEach goodPoint rfl hpoint 0 streamSize []
    exact ⟨r, hr, by simpa only [pointsLength, Nat.zero_add] using hkept⟩

/-- Given a buffer of the bytes of the data points, the serializer succeeds. -/
theorem fits_serializeDataPointArray (hne : data ≠ []) (hw : ∀ v ∈ data, v.WellTyped)
    (hs : ∀ v ∈ data, v.Serializable) {streamSize : ℕ} (hmax : streamSize ≤ intMax)
    (hle : pointsLength data ≤ streamSize) :
    ∃ r, serializeDataPointArray streamSize data = some r ∧ r.ret = pointsLength data := by
  obtain ⟨v, vs, rfl⟩ := List.exists_cons_of_ne_nil hne
  rw [serializeDataPointArray_cons, if_neg (by omega)]
  have hpoint : ∀ w ∈ v :: vs, Fits (serializeDataPoint w) (w.wireLength + 1) :=
    fun w hmem => (Value.fits_serializeValue (hw w hmem) (hs w hmem)).dataPoint
  obtain ⟨r, hr, hret⟩ := fits_serializeEach goodPoint hpoint
    (fun w _ => by simp [goodPoint]) 0 streamSize [] (by exact_mod_cast hle)
  exact ⟨r, hr, by simpa only [pointsLength, Nat.zero_add] using hret⟩

/-- Data points that are written into some buffer are of values the serializer can
write. -/
theorem serializable_of_serializeDataPointArray (hne : data ≠ []) {streamSize : ℕ} {r : Ser}
    (h : serializeDataPointArray streamSize data = some r) (hret : r.ret ≠ -1) :
    streamSize ≤ intMax ∧ ∀ v ∈ data, v.Serializable := by
  obtain ⟨v, vs, rfl⟩ := List.exists_cons_of_ne_nil hne
  rw [serializeDataPointArray_cons] at h
  split_ifs at h with hmax
  · exact absurd (Option.some.inj h ▸ rfl) hret
  · refine ⟨by omega, forall_of_serializeEach_ret_ne goodPoint ?_ h hret⟩
    intro w _ room out r₁ hr₁ hgood
    simp only [goodPoint, decide_eq_true_eq] at hgood
    obtain ⟨_, _, _, hr₂, hret₂⟩ := ret_ne_of_serializeDataPointWith hr₁ (by omega)
    exact Value.serializable_of_ret_ne hr₂ hret₂

/-- **The size of the buffer** is the bytes of the data points, less what their structs
exceed. -/
theorem sendBufferSize_eq (hne : data ≠ []) (hw : ∀ v ∈ data, v.WellTyped)
    (hs : ∀ v ∈ data, v.SizedArrays) :
    ∃ size : ℕ, sendBufferSize data = some size ∧
      (size : ℤ) + Value.structOverruns data = pointsLength data := by
  obtain ⟨n, hn, -, hsum⟩ := Value.sum_requiredSizes
    (fun v hv => Value.requiredSize (hw v hv) (hs v hv)) 0
  refine ⟨n, ?_, by simpa [pointsLength] using hsum⟩
  rw [sendBufferSize, if_neg (by simpa using hne), hn]

/-- **When the send buffer is large enough.** It is for every list of data points whose
structs stay within the 255 bytes counted for each in total; and where some buffer holds
the data points, it is only then. -/
theorem sendBuffer_sufficient_iff (hw : ∀ v ∈ data, v.WellTyped) :
    (StructsFit data → ∃ size, sendBufferSize data = some size ∧ SendBufferSuffices data size) ∧
    ((∃ streamSize r, serializeDataPointArray streamSize data = some r ∧ r.ret ≠ -1) →
      (∃ size, sendBufferSize data = some size ∧ SendBufferSuffices data size) →
      StructsFit data) := by
  by_cases hne : data = []
  · subst hne
    refine ⟨fun _ => ⟨1, rfl, ?_⟩, fun _ _ => ⟨by simp, le_rfl⟩⟩
    refine ⟨fun streamSize r hr => ?_, ⟨⟨1, [nullTag]⟩, rfl, le_rfl⟩, fun _ _ _ _ _ => ?_⟩
    · rw [serializeDataPointArray, if_pos (by rfl)] at hr
      split_ifs at hr <;> simp [← Option.some.inj hr]
    · exact ⟨⟨1, [nullTag]⟩, rfl, by simp⟩
  refine ⟨fun ⟨hs, hover⟩ => ?_, fun ⟨streamSize, r, hr, hret⟩ ⟨size, hsize, hsuff⟩ => ?_⟩
  · obtain ⟨size, hsize, hsum⟩ := sendBufferSize_eq hne hw hs
    have hle : pointsLength data ≤ size := by omega
    refine ⟨size, hsize, ⟨fun streamSize r hr => ?_, ?_, fun streamSize r hsz hr hret => ?_⟩⟩
    · obtain ⟨r', hr', hkept⟩ := keptTo_serializeDataPointArray hne hw hs streamSize
      obtain rfl := Option.some.inj (hr.symm.trans hr')
      rcases hkept with ⟨hret, -⟩ | ⟨hret, -⟩ <;> omega
    · obtain ⟨r, hr, hkept⟩ := keptTo_serializeDataPointArray hne hw hs size
      exact ⟨r, hr, by have := hkept.le.2; simp only [List.length_nil] at this; omega⟩
    · obtain ⟨hmax, hser⟩ := serializable_of_serializeDataPointArray hne hr hret
      obtain ⟨r', hr', hret'⟩ :=
        fits_serializeDataPointArray hne hw hser (show (size : ℤ) ≤ intMax by omega) hle
      exact ⟨r', hr', by omega⟩
  · obtain ⟨-, hser⟩ := serializable_of_serializeDataPointArray hne hr hret
    have hs : ∀ v ∈ data, v.SizedArrays := fun v hv => (hser v hv).sizedArrays
    obtain ⟨size', hsize', hsum⟩ := sendBufferSize_eq hne hw hs
    obtain rfl := Option.some.inj (hsize.symm.trans hsize')
    obtain ⟨r', hr', hkept⟩ := keptTo_serializeDataPointArray hne hw hs streamSize
    obtain rfl := Option.some.inj (hr.symm.trans hr')
    have hproduced := hsuff.produced streamSize r hr
    refine ⟨hs, ?_⟩
    rcases hkept with ⟨hok, -⟩ | ⟨hfail, -⟩
    · omega
    · exact absurd hfail hret

/-- A struct with a text of `n` characters. -/
def textStruct (n : ℕ) : Value := .struct 97 [.string none (List.replicate n 65)]

theorem textStruct_wellTyped (n : ℕ) : (textStruct n).WellTyped := by
  simp only [textStruct, Value.WellTyped, Value.AllWellTyped, and_true]
  decide

/-- A struct with a short text is sent in a buffer that is large enough. -/
theorem shortText_sent :
    ∃ size, sendBufferSize [textStruct 3] = some size ∧ SendBufferSuffices [textStruct 3] size :=
  (sendBuffer_sufficient_iff (by simpa using textStruct_wellTyped 3)).1
    ⟨by simp [textStruct, Value.SizedArrays, Value.AllSizedArrays], by decide⟩

/-- **A struct with a long text is not sent**: 255 bytes are provided for it, whatever it
holds. With the 303 bytes it takes, it would have been. -/
theorem longText_not_sent :
    sendBufferSize [textStruct 300] = some 255 ∧
      (serializeDataPointArray 255 [textStruct 300]).map Ser.ret = some (-1) ∧
      (serializeDataPointArray 303 [textStruct 300]).map Ser.ret = some 303 ∧
      ¬SendBufferSuffices [textStruct 300] 255 := by
  have hlarge : (serializeDataPointArray 303 [textStruct 300]).map Ser.ret = some 303 := by
    decide +kernel
  refine ⟨by decide +kernel, by decide +kernel, hlarge, fun h => ?_⟩
  obtain ⟨r, hr, hret⟩ := Option.map_eq_some_iff.mp hlarge
  have := h.produced 303 r hr
  omega

end Forte
