import Forte.Lib.Logged
import Forte.Asn1.BufferSize
import Forte.Asn1.Deserialize

/-!
# The elements of an array by their index

The other files of the ASN.1 layer have the elements of an array as a list. In the source the
loops run over numbers from 0 on and hand them to `operator[]`, which takes an index between the
bounds of the array; the three kinds of arrays subtract their own lower bound from it. This file
follows the indices.

Every access is logged with its index and with the number of the element on the wire that it is
for. All of them are as they should be exactly for the arrays whose lower bound is 0 and that are
not empty (`Forte.IndexedArray.indexed_iff`): other arrays are read and written beside their
elements (`Forte.IndexedArray.not_indexed_from_one`). For the ones from 0 on, the serializer is the
one of the other files (`Forte.IndexedArray.result_serializeArray`).

What the layer does with a single element is a parameter, for the element may be an array again.
-/

namespace Forte

/-- A `CIEC_ARRAY` with its bounds; the upper one is where the elements end. -/
structure IndexedArray (α : Type) where
  /-- `getLowerBound`. -/
  lowerBound : ℤ
  /-- `getElementDataTypeID`. -/
  elementDataTypeID : EDataTypeID
  /-- The `data`. -/
  elements : List α

/-- What the layer does with one element. -/
structure ElementOps (α : Type) where
  getDataTypeID : α → EDataTypeID
  serializeTag : α → UInt8
  serializeDataPoint : α → Serializer
  serializeValue : α → Serializer
  /-- `deserializeTag`, with what it stores if the tag matches. -/
  deserializeTag : UInt8 → α → Option α
  deserializeDataPoint : α → Reader UInt8 α
  deserializeValue : α → Reader UInt8 α
  getRequiredSerializationSize : α → Option ℕ
  /-- A `CIEC_BOOL`. -/
  oBoolVal : α
  /-- The layer knows its own tags. -/
  deserializeTag_serializeTag : ∀ e, (deserializeTag (serializeTag e) e).isSome

/-- An access to an element by `operator[]`. -/
structure ElementAccess where
  /-- The number of the element on the wire that is written from the element or stored in it. -/
  wire : Option ℕ
  /-- The argument of `operator[]`. -/
  index : ℤ

namespace IndexedArray

variable {α : Type}

/-- `size`. -/
def size (a : IndexedArray α) : ℕ := a.elements.length

/-- `getUpperBound`. -/
def upperBound (a : IndexedArray α) : ℤ := a.lowerBound + a.size - 1

/-- `getDataArrayIndex`. -/
def getDataArrayIndex (a : IndexedArray α) (index : ℤ) : ℤ := index - a.lowerBound

/-- `operator[]`, which does not look at the bounds. What is read beside the elements is not an
element, and the run has no result from there on. -/
def get (a : IndexedArray α) (wire : Option ℕ) (index : ℤ) : Logged ElementAccess α :=
  ⟨[⟨wire, index⟩],
    if 0 ≤ a.getDataArrayIndex index then a.elements[(a.getDataArrayIndex index).toNat]? else none⟩

/-- Store into the element of an index. -/
def set (a : IndexedArray α) (index : ℤ) (e : α) : IndexedArray α :=
  { a with elements := a.elements.set (a.getDataArrayIndex index).toNat e }

variable (ops : ElementOps α)

/-! ### The functions of the layer -/

/-- The loops of `serializeArray`, with their 16-bit counter, which does not come to an end in an
array of more than 65535 elements. They stop after a number of passes. -/
def serializeElements (good : ℤ → Bool) (serialize : α → Serializer) (a : IndexedArray α) :
    ℕ → ℕ → ℤ → ℤ → List UInt8 → Logged ElementAccess Ser
  | 0, _, _, _, _ => .stop
  | passes + 1, k, nRetVal, room, out =>
    if k % 65536 < a.size then do
      let e ← a.get (some k) ↑(k % 65536)
      let r ← .ofOption (serialize e room out)
      if good r.ret then
        serializeElements good serialize a passes (k + 1) (nRetVal + r.ret) (room - r.ret) r.out
      else pure ⟨-1, r.out⟩
    else pure ⟨nRetVal, out⟩

/-- `serializeArray`. -/
def serializeArray (a : IndexedArray α) (passes : ℕ) (room : ℤ) (out : List UInt8) :
    Logged ElementAccess Ser := do
  let size := beBytes 2 a.size
  let first ← a.get none 0
  if ops.getDataTypeID first = .bool then
    serializeElements goodPoint ops.serializeDataPoint a passes 0 2 (room - 2) (out ++ size)
  else
    let first ← a.get none 0
    serializeElements goodValue ops.serializeValue a passes 0 3 (room - 3)
      (out ++ (size ++ [ops.serializeTag first]))

/-- The buffer for elements that the array does not have, a clone of the first element unless there
is one already. -/
def buffer (a : IndexedArray α) : Option α → Logged ElementAccess α
  | some bufVal => pure bufVal
  | none => a.get none 0

/-- The loops of `deserializeArray` and `deserializeValueBoolArray`. -/
def deserializeElements (decode : α → Reader UInt8 α) :
    ℕ → ℕ → Option α → ℤ → List UInt8 → IndexedArray α → Logged ElementAccess (ℤ × IndexedArray α)
  | 0, _, _, nRetVal, _, a => pure (nRetVal, a)
  | left + 1, i, poBufVal, nRetVal, bs, a =>
    if i < a.size then do
      let e ← a.get (some i) i
      let (nValueLen, e) ← .ofOption (decode e bs)
      let a := a.set i e
      if nValueLen ≤ 0 then pure (nValueLen, a)
      else
        deserializeElements decode left (i + 1) poBufVal (nRetVal + nValueLen)
          (bs.drop nValueLen.toNat) a
    else do
      let bufVal ← a.buffer poBufVal
      let (nValueLen, bufVal) ← .ofOption (decode bufVal bs)
      if nValueLen ≤ 0 then pure (nValueLen, a)
      else
        deserializeElements decode left (i + 1) (some bufVal) (nRetVal + nValueLen)
          (bs.drop nValueLen.toNat) a

/-- `deserializeArray`. -/
def deserializeArray (behind : UInt8) (bs : List UInt8) (a : IndexedArray α) :
    Logged ElementAccess (ℤ × IndexedArray α) :=
  let nSize := lengthField bs
  if bs.length < 2 then pure (-1, a)
  else if nSize = 0 then pure (2, a)
  else do
    let first ← a.get none 0
    if ops.getDataTypeID first = .bool then do
      let (nValueLen, a) ← deserializeElements ops.deserializeDataPoint nSize 0
        (some ops.oBoolVal) 0 (bs.drop 2) a
      pure (if 0 ≤ nValueLen then 2 + nValueLen else nValueLen, a)
    else
      let first ← a.get none 0
      match ops.deserializeTag ((bs.drop 2).headD behind) first with
      | none => pure (-1, a)
      | some first =>
        deserializeElements ops.deserializeValue nSize 0 none 3 (bs.drop 3) (a.set 0 first)

/-- The loop of `getRequiredSerializationSize`, with its 16-bit counter. -/
def sumRequired (a : IndexedArray α) : ℕ → ℕ → ℕ → Logged ElementAccess ℕ
  | 0, _, _ => .stop
  | passes + 1, j, unRetVal =>
    if j % 65536 < a.size then do
      let e ← a.get none ↑(j % 65536)
      let size ← .ofOption (ops.getRequiredSerializationSize e)
      sumRequired a passes (j + 1) (unRetVal + size)
    else pure unRetVal

/-- `getRequiredSerializationSize` of an array. -/
def getRequiredSerializationSize (a : IndexedArray α) (passes : ℕ) : Logged ElementAccess ℕ :=
  if a.elementDataTypeID = .bool then pure (3 + a.size)
  else do
    let unRetVal ← a.sumRequired ops passes 0 3
    pure (unRetVal + 1 - a.size)

/-! ### What is asked of the accesses -/

/-- The index is within the bounds. -/
def InBounds (a : IndexedArray α) (x : ElementAccess) : Prop :=
  a.lowerBound ≤ x.index ∧ x.index ≤ a.upperBound

/-- The element on the wire is the one of the array: the `k`th is `lowerBound + k`. -/
def Corresponds (a : IndexedArray α) (x : ElementAccess) : Prop :=
  ∀ k, x.wire = some k → x.index = a.lowerBound + k

/-- **What is asked of the array**: whenever the layer runs over it, all indices are within the
bounds; what has been serialized are the elements from the lower bound on, each of them; and what
is received is stored in the elements from the lower bound on. -/
structure Indexed (a : IndexedArray α) : Prop where
  required : ∀ passes, (a.getRequiredSerializationSize ops passes).Each a.InBounds
  serialize : ∀ passes room out, (a.serializeArray ops passes room out).Each a.InBounds
  serialized : ∀ passes room out r, (a.serializeArray ops passes room out).result = some r →
    r.ret ≠ -1 → (a.serializeArray ops passes room out).Each a.Corresponds ∧
      ∀ k < a.size, (⟨some k, a.lowerBound + k⟩ : ElementAccess) ∈
        (a.serializeArray ops passes room out).log
  deserialize : ∀ behind bs,
    (deserializeArray ops behind bs a).Each fun x => a.InBounds x ∧ a.Corresponds x

/-! ### Arrays from 0 on -/

section

variable {a : IndexedArray α} {ops}

theorem each_get {P : ElementAccess → Prop} {wire : Option ℕ} {index : ℤ} :
    (a.get wire index).Each P ↔ P ⟨wire, index⟩ :=
  List.forall_mem_singleton

/-- In an array from 0 on an index below the size is within the bounds. -/
theorem inBounds_of_lt (h : a.lowerBound = 0) {wire : Option ℕ} {i : ℕ} (hi : i < a.size) :
    a.InBounds ⟨wire, i⟩ := by
  rw [InBounds, upperBound, h]
  dsimp only
  omega

theorem result_get (h : a.lowerBound = 0) (wire : Option ℕ) (i : ℕ) :
    (a.get wire i).result = a.elements[i]? := by
  rw [get, getDataArrayIndex, h, Int.sub_zero]
  dsimp only
  rw [if_pos (Int.natCast_nonneg i), Int.toNat_natCast]

theorem each_inBounds_serializeElements (h : a.lowerBound = 0) (good : ℤ → Bool)
    (serialize : α → Serializer) (passes k : ℕ) (nRetVal room : ℤ) (out : List UInt8) :
    (serializeElements good serialize a passes k nRetVal room out).Each a.InBounds := by
  induction passes generalizing k nRetVal room out with
  | zero => exact Logged.each_stop
  | succ passes ih =>
    rw [serializeElements]
    split
    · rename_i hlt
      refine Logged.each_bind.mpr ⟨each_get.mpr (inBounds_of_lt h hlt), fun e _ => ?_⟩
      refine Logged.each_bind.mpr ⟨Logged.each_ofOption _, fun r _ => ?_⟩
      split
      · exact ih _ _ _ _
      · exact Logged.each_pure _
    · exact Logged.each_pure _

theorem each_inBounds_serializeArray (h : a.lowerBound = 0) (hne : a.elements ≠ []) (passes : ℕ)
    (room : ℤ) (out : List UInt8) : (a.serializeArray ops passes room out).Each a.InBounds := by
  have hget : (a.get none 0).Each a.InBounds :=
    each_get.mpr (@inBounds_of_lt _ a h none 0 (List.length_pos_iff.mpr hne))
  refine Logged.each_bind.mpr ⟨hget, fun first _ => ?_⟩
  split
  · exact each_inBounds_serializeElements h _ _ _ _ _ _ _
  · exact Logged.each_bind.mpr ⟨hget, fun first _ =>
      each_inBounds_serializeElements h _ _ _ _ _ _ _⟩

theorem each_inBounds_sumRequired (h : a.lowerBound = 0) (passes j unRetVal : ℕ) :
    (a.sumRequired ops passes j unRetVal).Each a.InBounds := by
  induction passes generalizing j unRetVal with
  | zero => exact Logged.each_stop
  | succ passes ih =>
    rw [sumRequired]
    split
    · rename_i hlt
      refine Logged.each_bind.mpr ⟨each_get.mpr (inBounds_of_lt h hlt), fun e _ => ?_⟩
      exact Logged.each_bind.mpr ⟨Logged.each_ofOption _, fun size _ => ih _ _⟩
    · exact Logged.each_pure _

/-- In an array that the counter cannot count the loop does not end well. -/
theorem serializeElements_wrapped (hsize : 65536 ≤ a.size) {good : ℤ → Bool}
    {serialize : α → Serializer} {passes k : ℕ} {nRetVal room : ℤ} {out : List UInt8} {r : Ser}
    (h : (serializeElements good serialize a passes k nRetVal room out).result = some r) :
    r.ret = -1 := by
  induction passes generalizing k nRetVal room out with
  | zero => cases h
  | succ passes ih =>
    rw [serializeElements, if_pos ((Nat.mod_lt k (by omega)).trans_le hsize), Logged.result_bind,
      Option.bind_eq_some_iff] at h
    obtain ⟨e, -, h⟩ := h
    rw [Logged.result_bind, Option.bind_eq_some_iff] at h
    obtain ⟨r', -, h⟩ := h
    split at h
    · exact ih h
    · cases h
      rfl

section

variable {good : ℤ → Bool} {serialize : α → Serializer} {k : ℕ}

/-- In the others the counter is the number of the element. -/
theorem mod_lt_size_iff (hsize : a.size < 65536) (hk : k ≤ a.size) :
    k % 65536 < a.size ↔ k < a.size := by
  rw [Nat.mod_eq_of_lt (hk.trans_lt hsize)]

theorem each_corresponds_serializeElements (h : a.lowerBound = 0) (hsize : a.size < 65536)
    (hk : k ≤ a.size) (passes : ℕ) (nRetVal room : ℤ) (out : List UInt8) :
    (serializeElements good serialize a passes k nRetVal room out).Each a.Corresponds := by
  induction passes generalizing k nRetVal room out with
  | zero => exact Logged.each_stop
  | succ passes ih =>
    rw [serializeElements]
    split
    · rename_i hlt
      rw [mod_lt_size_iff hsize hk] at hlt
      refine Logged.each_bind.mpr ⟨each_get.mpr ?_, fun e _ => ?_⟩
      · rintro i hi
        rw [← Option.some.inj hi, h, Nat.mod_eq_of_lt (hlt.trans hsize), Int.zero_add]
      · refine Logged.each_bind.mpr ⟨Logged.each_ofOption _, fun r _ => ?_⟩
        split
        · exact ih hlt _ _ _
        · exact Logged.each_pure _
    · exact Logged.each_pure _

/-- **When the loop ends well it has been at every element.** -/
theorem mem_log_serializeElements (h : a.lowerBound = 0) (hsize : a.size < 65536) (hk : k ≤ a.size)
    {passes : ℕ} {nRetVal room : ℤ} {out : List UInt8} {r : Ser}
    (hresult : (serializeElements good serialize a passes k nRetVal room out).result = some r)
    (hret : r.ret ≠ -1) {i : ℕ} (hki : k ≤ i) (hi : i < a.size) :
    (⟨some i, a.lowerBound + i⟩ : ElementAccess) ∈
      (serializeElements good serialize a passes k nRetVal room out).log := by
  induction passes generalizing k nRetVal room out with
  | zero => cases hresult
  | succ passes ih =>
    have hlt : k < a.size := hki.trans_lt hi
    rw [serializeElements, if_pos ((mod_lt_size_iff hsize hk).mpr hlt)] at hresult ⊢
    rw [Logged.result_bind, Option.bind_eq_some_iff] at hresult
    obtain ⟨e, he, hresult⟩ := hresult
    rw [Logged.result_bind, Option.bind_eq_some_iff] at hresult
    obtain ⟨r', hr', hresult⟩ := hresult
    rw [Logged.mem_log_bind]
    rcases hki.eq_or_lt with rfl | hki
    · rw [h, Nat.mod_eq_of_lt (hlt.trans hsize), Int.zero_add]
      exact .inl List.mem_cons_self
    · refine .inr ⟨e, he, Logged.mem_log_bind.mpr (.inr ⟨r', hr', ?_⟩)⟩
      split at hresult
      · rename_i hgood
        rw [if_pos hgood]
        exact ih hlt hresult hki
      · cases hresult
        exact absurd rfl hret

end

/-- **What has been serialized** are the elements in their order. -/
theorem serializeArray_serialized (h : a.lowerBound = 0) {passes : ℕ} {room : ℤ} {out : List UInt8}
    {r : Ser} (hresult : (a.serializeArray ops passes room out).result = some r)
    (hret : r.ret ≠ -1) :
    (a.serializeArray ops passes room out).Each a.Corresponds ∧
      ∀ k < a.size, (⟨some k, a.lowerBound + k⟩ : ElementAccess) ∈
        (a.serializeArray ops passes room out).log := by
  have hnone (index : ℤ) : (a.get none index).Each a.Corresponds := each_get.mpr nofun
  rw [serializeArray, Logged.result_bind, Option.bind_eq_some_iff] at hresult
  obtain ⟨first, hfirst, hresult⟩ := hresult
  rcases lt_or_ge a.size 65536 with hsize | hsize
  · constructor
    · refine Logged.each_bind.mpr ⟨hnone 0, fun first _ => ?_⟩
      split
      · exact each_corresponds_serializeElements h hsize (Nat.zero_le _) _ _ _ _
      · exact Logged.each_bind.mpr ⟨hnone 0, fun first _ =>
          each_corresponds_serializeElements h hsize (Nat.zero_le _) _ _ _ _⟩
    · intro k hk
      refine Logged.mem_log_bind.mpr (.inr ⟨first, hfirst, ?_⟩)
      split at hresult
      · rename_i hbool
        rw [if_pos hbool]
        exact mem_log_serializeElements h hsize (Nat.zero_le _) hresult hret (Nat.zero_le _) hk
      · rename_i hbool
        rw [if_neg hbool]
        rw [Logged.result_bind, Option.bind_eq_some_iff] at hresult
        obtain ⟨first', hfirst', hresult⟩ := hresult
        exact Logged.mem_log_bind.mpr (.inr ⟨first', hfirst',
          mem_log_serializeElements h hsize (Nat.zero_le _) hresult hret (Nat.zero_le _) hk⟩)
  · split at hresult
    · exact absurd (serializeElements_wrapped hsize hresult) hret
    · rw [Logged.result_bind, Option.bind_eq_some_iff] at hresult
      obtain ⟨first', -, hresult⟩ := hresult
      exact absurd (serializeElements_wrapped hsize hresult) hret

/-! ### Receiving -/

@[simp]
theorem size_set (a : IndexedArray α) (index : ℤ) (e : α) : (a.set index e).size = a.size :=
  List.length_set

theorem inBounds_set (a : IndexedArray α) (index : ℤ) (e : α) :
    (a.set index e).InBounds = a.InBounds := by
  funext x
  rw [InBounds, InBounds, upperBound, upperBound, size_set]
  rfl

/-- The element `i` on the wire goes to the element `i` of an array from 0 on. -/
theorem each_deserializeElements (h : a.lowerBound = 0) (hne : 0 < a.size)
    (decode : α → Reader UInt8 α) (left i : ℕ) (poBufVal : Option α) (nRetVal : ℤ)
    (bs : List UInt8) :
    (deserializeElements decode left i poBufVal nRetVal bs a).Each
      fun x => a.InBounds x ∧ a.Corresponds x := by
  induction left generalizing i poBufVal nRetVal bs a with
  | zero => exact Logged.each_pure _
  | succ left ih =>
    rw [deserializeElements]
    split
    · rename_i hlt
      refine Logged.each_bind.mpr ⟨each_get.mpr ⟨inBounds_of_lt h hlt, ?_⟩, fun e _ => ?_⟩
      · rintro k hk
        rw [← Option.some.inj hk, h, Int.zero_add]
      · refine Logged.each_bind.mpr ⟨Logged.each_ofOption _, fun r _ => ?_⟩
        dsimp only
        split
        · exact Logged.each_pure _
        · have hrest := @ih (a.set i r.2) h (by rwa [size_set])
          rw [inBounds_set] at hrest
          exact hrest _ _ _ _
    · refine Logged.each_bind.mpr ⟨?_, fun bufVal _ => ?_⟩
      · cases poBufVal with
        | some bufVal => exact Logged.each_pure _
        | none => exact each_get.mpr ⟨@inBounds_of_lt _ a h none 0 hne, nofun⟩
      · refine Logged.each_bind.mpr ⟨Logged.each_ofOption _, fun r _ => ?_⟩
        dsimp only
        split
        · exact Logged.each_pure _
        · exact ih h hne _ _ _ _

theorem each_deserializeArray (h : a.lowerBound = 0) (hne : 0 < a.size) (behind : UInt8)
    (bs : List UInt8) :
    (deserializeArray ops behind bs a).Each fun x => a.InBounds x ∧ a.Corresponds x := by
  have hget : (a.get none 0).Each fun x => a.InBounds x ∧ a.Corresponds x :=
    each_get.mpr ⟨@inBounds_of_lt _ a h none 0 hne, nofun⟩
  rw [deserializeArray]
  dsimp only
  split
  · exact Logged.each_pure _
  · split
    · exact Logged.each_pure _
    · refine Logged.each_bind.mpr ⟨hget, fun first _ => ?_⟩
      split
      · exact Logged.each_bind.mpr ⟨each_deserializeElements h hne _ _ _ _ _ _,
          fun r _ => Logged.each_pure _⟩
      · refine Logged.each_bind.mpr ⟨hget, fun first _ => ?_⟩
        split
        · exact Logged.each_pure _
        · rename_i first _
          have hrest := @each_deserializeElements _ (a.set 0 first) h (by rwa [size_set])
          rw [inBounds_set] at hrest
          exact hrest _ _ _ _ _ _

/-- **The array is indexed as it should be exactly if its lower bound is 0 and it is not
empty.** Another array is read beside its elements when it is serialized, or the first element on
the wire is stored in another one than the first. -/
theorem indexed_iff (a : IndexedArray α) :
    a.Indexed ops ↔ a.lowerBound = 0 ∧ a.elements ≠ [] := by
  constructor
  · intro hindexed
    -- the type of the elements is asked of the element at index 0
    obtain ⟨hlower, hupper⟩ : a.InBounds ⟨none, 0⟩ :=
      (Logged.each_bind.mp (hindexed.serialize 0 0 [])).1 _ List.mem_cons_self
    rw [upperBound] at hupper
    dsimp only at hlower hupper
    have hlt : (-a.lowerBound).toNat < a.elements.length := by
      have hsize : a.size = a.elements.length := rfl
      omega
    have hget (wire : Option ℕ) :
        (a.get wire 0).result = some (a.elements.get ⟨(-a.lowerBound).toNat, hlt⟩) := by
      rw [get, getDataArrayIndex, Int.zero_sub]
      dsimp only
      rw [if_pos (by omega)]
      exact List.getElem?_eq_getElem hlt
    refine ⟨?_, List.length_pos_iff.mp ((Nat.zero_le _).trans_lt hlt)⟩
    -- one element is received
    generalize hfirst : a.elements.get ⟨(-a.lowerBound).toNat, hlt⟩ = first at hget
    obtain ⟨stored, hstored⟩ := Option.isSome_iff_exists.mp (ops.deserializeTag_serializeTag first)
    have hreceived := hindexed.deserialize 0 (beBytes 2 1 ++ [ops.serializeTag first])
    rw [deserializeArray] at hreceived
    dsimp only at hreceived
    rw [lengthField_append (by omega), drop_two_append, if_neg (not_length_lt _ _),
      if_neg (by omega), Logged.each_bind] at hreceived
    replace hreceived := hreceived.2 first (hget none)
    have hwire (decode : α → Reader UInt8 α) (poBufVal : Option α) (nRetVal : ℤ) (bs : List UInt8)
        {b : IndexedArray α} (hb : b.size = a.size)
        (h : (deserializeElements decode 1 0 poBufVal nRetVal bs b).Each
          fun x => a.InBounds x ∧ a.Corresponds x) : a.lowerBound = 0 := by
      rw [deserializeElements, if_pos (by rw [hb]; exact (Nat.zero_le _).trans_lt hlt),
        Logged.each_bind, each_get] at h
      have hindex := h.1.2 0 rfl
      dsimp only at hindex
      omega
    split at hreceived
    · exact hwire _ _ _ _ rfl (Logged.each_bind.mp hreceived).1
    · replace hreceived := (Logged.each_bind.mp hreceived).2 first (hget none)
      rw [List.headD_cons, hstored] at hreceived
      exact hwire _ _ _ _ (size_set _ _ _) hreceived
  · rintro ⟨h, hne⟩
    have hpos : 0 < a.size := List.length_pos_iff.mpr hne
    refine ⟨fun passes => ?_, fun _ _ _ => each_inBounds_serializeArray h hne _ _ _,
      fun _ _ _ _ => serializeArray_serialized h, fun _ _ => each_deserializeArray h hpos _ _⟩
    rw [getRequiredSerializationSize]
    split
    · exact Logged.each_pure _
    · exact Logged.each_bind.mpr ⟨each_inBounds_sumRequired h _ _ _, fun _ _ => Logged.each_pure _⟩

end

/-! ### The elements of the other files -/

/-- The tag of a data point is its own tag. -/
theorem tagMatches_serializeTag (v : Value) : tagMatches (serializeTag v) v = true := by
  induction v with
  | elementary id data =>
    rcases eq_or_ne id .bool with rfl | hbool
    · rfl
    · rw [tagMatches]
      · exact decide_eq_true rfl
      all_goals simp_all
  | any w ih => exact ih
  | _ => exact decide_eq_true rfl

/-- What the layer does with a data point. -/
def valueOps (behind : UInt8) : ElementOps Value where
  getDataTypeID := Value.getDataTypeID
  serializeTag := Forte.serializeTag
  serializeDataPoint := Forte.serializeDataPoint
  serializeValue := Forte.serializeValue
  deserializeTag b v := if tagMatches b v then some (storeTag b v) else none
  deserializeDataPoint := Forte.deserializeDataPoint behind
  deserializeValue := Forte.deserializeValue behind
  getRequiredSerializationSize := Forte.getRequiredSerializationSize
  oBoolVal := .elementary .bool 0
  deserializeTag_serializeTag v := by rw [if_pos (tagMatches_serializeTag v)]; rfl

/-- **An array of two `INT`s from 1 to 2**: its type is asked of the element in front of it. -/
theorem not_indexed_from_one :
    ¬(⟨1, .int, [.elementary .int 10, .elementary .int 20]⟩ : IndexedArray Value).Indexed
      (valueOps 0) := by
  intro h
  obtain ⟨hlower, -⟩ := h.serialize 0 10 [] ⟨none, 0⟩ List.mem_cons_self
  exact absurd hlower (by decide)

theorem result_serializeElements {a : IndexedArray Value} (h : a.lowerBound = 0)
    (hsize : a.size < 65536) (good : ℤ → Bool) (serialize : Value → Serializer) {passes k : ℕ}
    (hk : k ≤ a.size) (hpasses : a.size - k < passes) (nRetVal room : ℤ) (out : List UInt8) :
    (serializeElements good serialize a passes k nRetVal room out).result =
      serializeEach good ((a.elements.drop k).map serialize) nRetVal room out := by
  induction passes generalizing k nRetVal room out with
  | zero => omega
  | succ passes ih =>
    rw [serializeElements]
    rcases hk.eq_or_lt with rfl | hlt
    · rw [if_neg (mt (mod_lt_size_iff hsize hk).mp (lt_irrefl _)), size, List.drop_length]
      rfl
    · rw [if_pos ((mod_lt_size_iff hsize hk).mpr hlt), Logged.result_bind,
        Nat.mod_eq_of_lt (hlt.trans hsize), result_get h, List.getElem?_eq_getElem hlt,
        List.drop_eq_getElem_cons hlt, List.map_cons, serializeEach, Option.bind_some,
        Logged.result_bind, Logged.result_ofOption]
      refine congrArg (Option.bind (serialize _ room out)) (funext fun r => ?_)
      split
      · exact ih hlt (by omega) _ _ _
      · rfl

/-- **From 0 on, the serializer by indices is the one on the list of the elements.** -/
theorem result_serializeArray (behind : UInt8) {a : IndexedArray Value} (h : a.lowerBound = 0)
    (hsize : a.size < 65536) (room : ℤ) (out : List UInt8) :
    (a.serializeArray (valueOps behind) (a.size + 1) room out).result =
      Forte.serializeValue (.array a.elementDataTypeID a.elements) room out := by
  have hloop (good : ℤ → Bool) (serialize : Value → Serializer) (nRetVal room : ℤ)
      (out : List UInt8) :
      (serializeElements good serialize a (a.size + 1) 0 nRetVal room out).result =
        serializeEach good (a.elements.map serialize) nRetVal room out :=
    result_serializeElements h hsize good serialize (Nat.zero_le _) (Nat.lt_succ_self _) _ _ _
  have hget : (a.get none 0).result = a.elements[0]? := result_get h none 0
  obtain ⟨lowerBound, t, es⟩ := a
  cases es with
  | nil =>
    rw [serializeArray, Logged.result_bind, hget]
    rfl
  | cons first rest =>
    rw [Value.serializeValue_array t first rest room out hsize, serializeArray, Logged.result_bind,
      hget, List.getElem?_cons_zero, Option.bind_some]
    by_cases hbool : first.IsBool
    · rw [if_pos (show (valueOps behind).getDataTypeID first = .bool from hbool), hloop,
        Value.goodElement, if_pos hbool, Value.arrayHeader, if_pos hbool, length_beBytes]
      refine congrArg (serializeEach goodPoint · _ _ _) (List.map_congr_left fun e _ => ?_)
      rw [Value.serializeElement, if_pos hbool]
      rfl
    · rw [if_neg (show (valueOps behind).getDataTypeID first ≠ .bool from hbool),
        Logged.result_bind, hget, List.getElem?_cons_zero, Option.bind_some, hloop,
        Value.goodElement, if_neg hbool, Value.arrayHeader, if_neg hbool, List.length_append,
        length_beBytes, List.length_singleton]
      refine congrArg (serializeEach goodValue · _ _ _) (List.map_congr_left fun e _ => ?_)
      rw [Value.serializeElement, if_neg hbool]
      rfl

end IndexedArray

end Forte
