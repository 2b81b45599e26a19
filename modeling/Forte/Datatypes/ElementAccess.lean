import Mathlib.Data.List.GetD
import Forte.Datatypes.IntValues
import Forte.Datatypes.StringFixed

/-!
# Elements of strings

`s[i]` makes a `CIEC_STRING::PARTIAL_ACCESS_TYPE`. It takes the character at the index, is a
`CIEC_CHAR` from then on, and when it goes it puts its character back, whether one was assigned to
it or not.

* **The last element is never written**: the index has to be below the maximum length.
* **A zero behind the end is compared with what is there**, which is the end of the text if the
  index is the next one, and no part of the storage if it is not.
* **What was read is written back**, also over what another accessor of the same element has left.

`Forte.ElementAccess.elementAccess_iff` says when nothing comes of that.
-/

namespace Forte.ElementAccess

open StringFixed (length resize)

/-! ### The accessor -/

/-- The index of the accessor that `at` returns. -/
def mIndex (paIndex : ℤ) : ℕ := if paIndex < 1 then 0 else paIndex.toNat

/-- The same for a `CIEC_ANY_INT`. -/
def mIndexOf (paIndex : CIEC_ANY_INT) : ℕ := mIndex paIndex.getSignedValue

/-- The constructor: the character that the accessor has. -/
def construct (storage : Text) (paIndex : ℕ) : UInt8 :=
  if length storage ≥ paIndex ∧ paIndex > 0 then storage.getD (paIndex - 1) 0 else 0

/-- `std::string::operator[]`, which has a zero at the end and nothing behind it. -/
def charAt (storage : Text) (pos : ℕ) : Option UInt8 :=
  if pos = storage.length then some 0 else storage[pos]?

/-- What the destructor leaves in the storage, and whether all it looked at were characters of the
text. -/
structure Outcome where
  storage : Text
  inside : Bool

/-- The destructor; `none` is undefined behaviour. A signed `char` is not compared as an unsigned
one, but where that makes a difference the same character is written. -/
def destroy (maximumLength : ℕ) (storage : Text) (index : ℕ) (value : UInt8) : Option Outcome :=
  if index > 0 ∧ index < maximumLength then
    if length storage < index ∧ value ≠ 0 then
      some { storage := (resize storage index).set (index - 1) value, inside := true }
    else do
      let c ← charAt storage (index - 1)
      pure { storage := if c ≠ value then storage.set (index - 1) value else storage
             inside := decide (index - 1 < storage.length) }
  else some { storage := storage, inside := true }

/-- The destructors of accessors that were read from, and made when the text was `initial`. -/
def destroyReaders (maximumLength : ℕ) (initial : Text) (readers : List ℕ) (storage : Text) :
    Option Text :=
  readers.foldlM (fun storage index =>
    (destroy maximumLength storage index (construct initial index)).map Outcome.storage) storage

/-- A statement that reads elements and assigns to one. The accessors go in any order: those of
`before`, the one that was assigned to, and those of `after`. -/
def statement (maximumLength : ℕ) (storage : Text) (before : List ℤ) (index : ℤ) (c : UInt8)
    (after : List ℤ) : Option Text := do
  let initial := storage
  let storage ← destroyReaders maximumLength initial (before.map mIndex) storage
  let outcome ← destroy maximumLength storage (mIndex index) c
  destroyReaders maximumLength initial (after.map mIndex) outcome.storage

/-! ### What a destructor does -/

/-- The text with a character at an index: a shorter text is filled up with zeros, unless the
character is one itself. -/
def assigned (s : Text) (i : ℕ) (c : UInt8) : Text :=
  if s.length < i then if c = 0 then s else s ++ List.replicate (i - 1 - s.length) 0 ++ [c]
  else s.set (i - 1) c

section Destroy

variable {m i : ℕ} {s : Text}

theorem resize_set {c : UInt8} (h : s.length < i) :
    (resize s i).set (i - 1) c = s ++ List.replicate (i - 1 - s.length) 0 ++ [c] := by
  obtain ⟨k, rfl⟩ := Nat.exists_eq_add_of_lt h
  have hfill : s.length + k + 1 - s.length = k + 1 := by omega
  have hlast : s.length + k + 1 - 1 = (s ++ List.replicate k 0).length := by
    rw [List.length_append, List.length_replicate]
    omega
  have hbelow : s.length + k + 1 - 1 - s.length = k := by omega
  rw [resize, List.take_of_length_le (by omega), hfill, List.replicate_succ', ← List.append_assoc,
    hbelow, hlast, List.set_append_right _ _ le_rfl, Nat.sub_self, List.set_cons_zero]

theorem destroy_of_not_mem (h : ¬(0 < i ∧ i < m)) (s : Text) (c : UInt8) :
    destroy m s i c = some { storage := s, inside := true } := if_neg h

/-- **The destructor** assigns, but for a zero further behind the end than the next index. -/
theorem destroy_eq (hs : s.length < 65536) (hi : 0 < i) (him : i < m) (c : UInt8) :
    destroy m s i c = if c = 0 ∧ s.length + 1 < i then none
      else some { storage := assigned s i c, inside := decide (i ≤ s.length ∨ c ≠ 0) } := by
  rw [destroy, if_pos ⟨hi, him⟩, StringFixed.length_of_lt hs, assigned]
  by_cases hlt : s.length < i
  · by_cases hc : c = 0
    · subst hc
      by_cases hnext : s.length + 1 < i
      · have hbehind : s.length ≤ i - 1 ∧ i - 1 ≠ s.length := by omega
        rw [if_neg (by simp), if_pos ⟨rfl, hnext⟩, charAt, if_neg hbehind.2,
          List.getElem?_eq_none hbehind.1]
        rfl
      · have hend : i - 1 = s.length := by omega
        rw [if_neg (by simp), if_neg (by simp [hnext]), charAt, if_pos hend]
        simp [hlt, hend, Nat.not_le.mpr hlt]
    · rw [if_pos ⟨hlt, hc⟩, if_neg (by simp [hc]), if_pos hlt, if_neg hc, resize_set hlt]
      simp [hc]
  · have hle : i ≤ s.length := Nat.not_lt.mp hlt
    have hin : i - 1 < s.length := by omega
    rw [if_neg (by simp [hlt]), if_neg (by omega), if_neg hlt, charAt, if_neg (by omega),
      List.getElem?_eq_getElem hin]
    by_cases hsame : s[i - 1] = c
    · subst hsame
      simp [hin, hle]
    · simp [hsame, hin, hle]

theorem length_assigned (s : Text) (i : ℕ) (c : UInt8) :
    (assigned s i c).length = if s.length < i ∧ c ≠ 0 then i else s.length := by
  rw [assigned]
  by_cases hlt : s.length < i
  · by_cases hc : c = 0
    · simp [hlt, hc]
    · simp only [hlt, hc, if_true, if_false, List.length_append, List.length_replicate,
        List.length_singleton, ne_eq, not_false_eq_true, and_self]
      omega
  · simp [hlt]

/-- The position that is assigned to. -/
theorem assigned_getElem?_self {c : UInt8} (hi : 0 < i) (h : i ≤ s.length ∨ c ≠ 0) :
    (assigned s i c)[i - 1]? = some c := by
  rw [assigned]
  split_ifs with hlt hc
  · exact absurd (h.resolve_left (Nat.not_le.mpr hlt)) (not_not_intro hc)
  · have hend : i - 1 = (s ++ List.replicate (i - 1 - s.length) 0).length := by
      rw [List.length_append, List.length_replicate]
      omega
    rw [List.getElem?_append_right hend.ge, ← hend, Nat.sub_self]
    rfl
  · exact List.getElem?_set_self (by omega)

/-- The other positions keep their characters; the new ones have zeros. -/
theorem assigned_getElem?_of_ne {c : UInt8} {p : ℕ} (hne : p ≠ i - 1)
    (hp : p < (assigned s i c).length) : (assigned s i c)[p]? = some (s.getD p 0) := by
  have hlength := length_assigned s i c
  rw [hlength] at hp
  have hkept : p < s.length → s[p]? = some (s.getD p 0) := fun h => by
    rw [List.getElem?_eq_getElem h, List.getD_eq_getElem _ _ h]
  rw [assigned]
  split_ifs with hlt hc
  · exact hkept (by simpa [hc] using hp)
  · rw [if_pos ⟨hlt, hc⟩] at hp
    rw [List.append_assoc]
    rcases Nat.lt_or_ge p s.length with hbelow | hbehind
    · rw [List.getElem?_append_left hbelow, hkept hbelow]
    · rw [List.getElem?_append_right hbehind, List.getElem?_append_left (by simp; omega),
        List.getElem?_replicate_of_lt (by omega), List.getD_eq_default _ _ hbehind]
  · rw [List.getElem?_set_ne (Ne.symm hne), hkept (by simpa [hlt] using hp)]

end Destroy

/-! ### Accessors that were read from -/

section Readers

variable {m : ℕ} {s cur : Text}

theorem construct_eq (hs : s.length < 65536) {i : ℕ} (hi : 0 < i) :
    construct s i = s.getD (i - 1) 0 := by
  rw [construct, StringFixed.length_of_lt hs]
  split_ifs with h
  · rfl
  · exact (List.getD_eq_default _ _ (by omega)).symm

/-- The index is within the text or the next one, or no element is touched. -/
def Reachable (m length i : ℕ) : Prop := ¬(length + 1 < i ∧ i < m)

instance (m length i : ℕ) : Decidable (Reachable m length i) :=
  inferInstanceAs (Decidable (¬_))

/-- What such an accessor puts back. -/
def putBack (m : ℕ) (s cur : Text) (i : ℕ) : Text :=
  if 0 < i ∧ i < m ∧ i ≤ cur.length then cur.set (i - 1) (s.getD (i - 1) 0) else cur

theorem length_putBack (m : ℕ) (s cur : Text) (i : ℕ) :
    (putBack m s cur i).length = cur.length := by
  rw [putBack]
  split_ifs
  · exact List.length_set
  · rfl

theorem destroy_construct (hle : s.length ≤ cur.length) (hcur : cur.length < 65536) (i : ℕ) :
    (destroy m cur i (construct s i)).map Outcome.storage =
      if Reachable m cur.length i then some (putBack m s cur i) else none := by
  by_cases hin : 0 < i ∧ i < m
  · rw [destroy_eq hcur hin.1 hin.2, construct_eq (hle.trans_lt hcur) hin.1, putBack]
    by_cases hlen : i ≤ cur.length
    · have hreach : Reachable m cur.length i := fun h => by omega
      rw [if_neg (by omega), if_pos hreach, if_pos ⟨hin.1, hin.2, hlen⟩, assigned,
        if_neg (Nat.not_lt.mpr hlen)]
      rfl
    · have hzero : s.getD (i - 1) 0 = 0 := List.getD_eq_default _ _ (by omega)
      have hreach : Reachable m cur.length i ↔ ¬(cur.length + 1 < i) := by
        rw [Reachable]
        omega
      rw [hzero, if_neg (by omega : ¬(0 < i ∧ i < m ∧ i ≤ cur.length)), assigned,
        if_pos (Nat.not_le.mp hlen), if_pos rfl]
      by_cases hnext : cur.length + 1 < i
      · rw [if_pos ⟨rfl, hnext⟩, if_neg (fun h => hreach.mp h hnext)]
        rfl
      · rw [if_neg (by simp [hnext]), if_pos (hreach.mpr hnext)]
        rfl
  · have hreach : Reachable m cur.length i := fun h => hin (by omega)
    rw [destroy_of_not_mem hin, if_pos hreach, putBack, if_neg fun h => hin ⟨h.1, h.2.1⟩]
    rfl

/-- **A row of them**: all elements have to be reachable, and those that are put back are the ones
that were read. -/
theorem destroyReaders_spec (readers : List ℕ) (hle : s.length ≤ cur.length)
    (hcur : cur.length < 65536) :
    destroyReaders m s readers cur = if ∀ i ∈ readers, Reachable m cur.length i then
      some (readers.foldl (putBack m s) cur) else none := by
  induction readers generalizing cur with
  | nil => exact (if_pos (by simp)).symm
  | cons i readers ih =>
    have hlength := length_putBack m s cur i
    rw [destroyReaders, List.foldlM_cons, destroy_construct hle hcur, List.foldl_cons]
    by_cases hreach : Reachable m cur.length i
    · rw [if_pos hreach]
      refine (ih (by rw [hlength]; exact hle) (by rw [hlength]; exact hcur)).trans ?_
      simp [hlength, hreach]
    · simp [hreach]

theorem length_foldl_putBack (readers : List ℕ) :
    (readers.foldl (putBack m s) cur).length = cur.length := by
  induction readers generalizing cur with
  | nil => rfl
  | cons i readers ih => rw [List.foldl_cons, ih, length_putBack]

theorem putBack_getElem? (i : ℕ) {p : ℕ} (hp : p < cur.length) : (putBack m s cur i)[p]? =
    if i = p + 1 ∧ p + 1 < m then some (s.getD p 0) else cur[p]? := by
  rw [putBack]
  by_cases hsame : i = p + 1
  · subst hsame
    by_cases him : p + 1 < m
    · rw [if_pos ⟨by omega, him, hp⟩, if_pos ⟨rfl, him⟩]
      exact List.getElem?_set_self hp
    · rw [if_neg (by omega), if_neg (by omega)]
  · have hnot : ¬(i = p + 1 ∧ p + 1 < m) := fun h => hsame h.1
    rw [if_neg hnot]
    split_ifs
    · exact List.getElem?_set_ne (by omega)
    · rfl

/-- Each position has what was read there, if there is an accessor of it. -/
theorem foldl_putBack_getElem? (readers : List ℕ) {p : ℕ} (hp : p < cur.length) :
    (readers.foldl (putBack m s) cur)[p]? =
      if p + 1 ∈ readers ∧ p + 1 < m then some (s.getD p 0) else cur[p]? := by
  induction readers generalizing cur with
  | nil => simp
  | cons i readers ih =>
    rw [List.foldl_cons, ih (by rw [length_putBack]; exact hp), putBack_getElem? i hp]
    by_cases hm : p + 1 < m
    · by_cases hrest : p + 1 ∈ readers
      · simp [hrest, hm]
      · simp only [hrest, hm, List.mem_cons, if_false, and_true, or_false, eq_comm]
    · simp [hm]

/-- **A text is left alone** if what is put back is what it has. -/
theorem foldl_putBack_eq_iff (readers : List ℕ) : readers.foldl (putBack m s) cur = cur ↔
    ∀ p < cur.length, p + 1 ∈ readers → p + 1 < m → cur[p]? = some (s.getD p 0) := by
  constructor
  · intro h p hp hmem hm
    have hback := foldl_putBack_getElem? (m := m) (s := s) readers hp
    rwa [h, if_pos ⟨hmem, hm⟩] at hback
  · intro h
    refine List.ext_getElem? fun p => ?_
    rcases Nat.lt_or_ge p cur.length with hp | hp
    · rw [foldl_putBack_getElem? readers hp]
      split_ifs with hread
      · exact (h p hp hread.1 hread.2).symm
      · rfl
    · rw [List.getElem?_eq_none hp, List.getElem?_eq_none (by rw [length_foldl_putBack]; exact hp)]

end Readers

/-! ### Statements -/

section Statements

variable {m : ℕ} {s : Text}

/-- What an accessor leaves that was assigned to. -/
def written (m : ℕ) (s : Text) (i : ℕ) (c : UInt8) : Text :=
  if 0 < i ∧ i < m then assigned s i c else s

theorem destroy_storage (hs : s.length < 65536) (i : ℕ) (c : UInt8) :
    (destroy m s i c).map Outcome.storage =
      if c = 0 → Reachable m s.length i then some (written m s i c) else none := by
  rw [written]
  by_cases hin : 0 < i ∧ i < m
  · have hdefined : (c = 0 → Reachable m s.length i) ↔ ¬(c = 0 ∧ s.length + 1 < i) := by
      rw [not_and]
      exact imp_congr_right fun _ => not_congr ⟨And.left, fun h => ⟨h, hin.2⟩⟩
    rw [destroy_eq hs hin.1 hin.2, if_pos hin]
    by_cases hzero : c = 0 ∧ s.length + 1 < i
    · rw [if_pos hzero, if_neg (fun h => hdefined.mp h hzero)]
      rfl
    · rw [if_neg hzero, if_pos (hdefined.mpr hzero)]
      rfl
  · have hreach : Reachable m s.length i := fun h => hin (by omega)
    rw [destroy_of_not_mem hin, if_neg hin, if_pos fun _ => hreach]
    rfl

/-- The length of the text behind the assignment. -/
def lengthAfter (m : ℕ) (s : Text) (i : ℕ) (c : UInt8) : ℕ :=
  if s.length < i ∧ i < m ∧ c ≠ 0 then i else s.length

theorem length_written (i : ℕ) (c : UInt8) :
    (written m s i c).length = lengthAfter m s i c := by
  rw [written, lengthAfter]
  by_cases hin : 0 < i ∧ i < m
  · rw [if_pos hin, length_assigned]
    simp [hin.2]
  · rw [if_neg hin, if_neg fun h => hin (by omega)]

/-- **What the readers behind the assignment put back** is what is there, unless they have read the
element before it was assigned to. -/
theorem written_getElem?_iff {i : ℕ} {c : UInt8} {p : ℕ} (hp : p < lengthAfter m s i c) :
    (written m s i c)[p]? = some (s.getD p 0) ↔ (p + 1 = i → i < m → c = s.getD p 0) := by
  rw [written]
  by_cases hin : 0 < i ∧ i < m
  · have hlen : p < (assigned s i c).length := by
      have h := length_written (m := m) (s := s) i c
      rw [written, if_pos hin] at h
      omega
    rw [if_pos hin]
    by_cases hsame : p + 1 = i
    · obtain rfl : p = i - 1 := by omega
      have hassigned : i ≤ s.length ∨ c ≠ 0 := by
        by_contra hnot
        rw [lengthAfter, if_neg fun h => hnot (.inr h.2.2)] at hp
        omega
      rw [assigned_getElem?_self hin.1 hassigned, Option.some_inj]
      exact ⟨fun h _ _ => h, fun h => h hsame hin.2⟩
    · rw [assigned_getElem?_of_ne (by omega) hlen]
      exact iff_of_true rfl fun h => absurd h hsame
  · rw [if_neg hin]
    rw [lengthAfter, if_neg fun h => hin (by omega)] at hp
    rw [List.getElem?_eq_getElem hp, List.getD_eq_getElem _ _ hp]
    exact iff_of_true rfl fun h him => absurd ⟨by omega, him⟩ hin

theorem foldl_putBack_written_eq_iff (after : List ℕ) (i : ℕ) (c : UInt8) :
    after.foldl (putBack m s) (written m s i c) = written m s i c ↔
      (i ∈ after → 0 < i → i < m → c = s.getD (i - 1) 0) := by
  rw [foldl_putBack_eq_iff, length_written]
  constructor
  · intro h hmem hpos hlt
    by_cases hlen : i - 1 < lengthAfter m s i c
    · have hread := h _ hlen (by rwa [Nat.sub_add_cancel hpos]) (by rwa [Nat.sub_add_cancel hpos])
      exact (written_getElem?_iff hlen).mp hread (Nat.sub_add_cancel hpos) hlt
    · -- a zero behind the end is not written
      rw [lengthAfter] at hlen
      have hbehind : s.length < i := by
        split_ifs at hlen <;> omega
      have hzero : c = 0 := by
        by_contra hc
        rw [if_pos ⟨hbehind, hlt, hc⟩] at hlen
        omega
      rw [hzero, List.getD_eq_default _ _ (by omega)]
  · intro h p hp hmem hlt
    refine (written_getElem?_iff hp).mpr fun hindex _ => ?_
    rw [← hindex] at h
    exact h hmem (Nat.succ_pos p) hlt

/-- **Nothing comes of the readers**: all elements are within the text or next to it when their
accessors go, and if the element that was assigned to has one that goes later, the character is the
one it had. -/
def Undisturbed (m : ℕ) (s : Text) (before : List ℕ) (i : ℕ) (c : UInt8) (after : List ℕ) : Prop :=
  (∀ j ∈ before, Reachable m s.length j) ∧ (c = 0 → Reachable m s.length i) ∧
    (∀ j ∈ after, Reachable m (lengthAfter m s i c) j) ∧
    (i ∈ after → 0 < i → i < m → c = s.getD (i - 1) 0)

/-- **A statement** that reads elements and assigns to one. -/
theorem statement_eq_iff (hm : m ≤ 65534) (hs : s.length ≤ m) (before : List ℤ) (index : ℤ)
    (c : UInt8) (after : List ℤ) :
    (∃ o, destroy m s (mIndex index) c = some o ∧
      statement m s before index c after = some o.storage) ↔
        Undisturbed m s (before.map mIndex) (mIndex index) c (after.map mIndex) := by
  have hs' : s.length < 65536 := by omega
  have hafter : s.length ≤ lengthAfter m s (mIndex index) c ∧
      lengthAfter m s (mIndex index) c < 65536 := by
    rw [lengthAfter]
    split_ifs <;> omega
  have hsame : (before.map mIndex).foldl (putBack m s) s = s := by
    refine (foldl_putBack_eq_iff _).mpr fun p hp _ _ => ?_
    rw [List.getElem?_eq_getElem hp, List.getD_eq_getElem _ _ hp]
  have hdestroy := destroy_storage hs' (m := m) (mIndex index) c
  have hbefore := destroyReaders_spec (m := m) (before.map mIndex) le_rfl hs'
  have hlength : (written m s (mIndex index) c).length = lengthAfter m s (mIndex index) c :=
    length_written (mIndex index) c
  have hreaders := destroyReaders_spec (m := m) (after.map mIndex) (hlength.symm ▸ hafter.1)
    (hlength.symm ▸ hafter.2)
  rw [hsame] at hbefore
  rw [hlength] at hreaders
  rw [statement, Undisturbed]
  simp only [hbefore]
  by_cases h₁ : ∀ j ∈ before.map mIndex, Reachable m s.length j
  · rw [if_pos h₁, Option.bind_eq_bind, Option.bind_some]
    by_cases h₂ : c = 0 → Reachable m s.length (mIndex index)
    · rw [if_pos h₂] at hdestroy
      obtain ⟨o, ho, hstorage⟩ := Option.map_eq_some_iff.mp hdestroy
      rw [ho, Option.bind_eq_bind, Option.bind_some, hstorage, hreaders]
      simp only [Option.some.injEq, exists_eq_left', hstorage]
      by_cases h₃ : ∀ j ∈ after.map mIndex, Reachable m (lengthAfter m s (mIndex index) c) j
      · rw [if_pos h₃, Option.some_inj, foldl_putBack_written_eq_iff]
        exact ⟨fun h => ⟨h₁, h₂, h₃, h⟩, fun h => h.2.2.2⟩
      · rw [if_neg h₃]
        exact iff_of_false (by simp) fun h => h₃ h.2.2.1
    · rw [if_neg h₂] at hdestroy
      rw [Option.map_eq_none_iff.mp hdestroy]
      exact iff_of_false (by simp) fun h => h₂ h.2.1
  · rw [if_neg h₁]
    exact iff_of_false (by simp) fun h => h₁ h.1

end Statements

/-! ### One accessor -/

section Single

variable {m : ℕ} {s : Text}

theorem mIndex_eq {i : ℤ} (h : 1 ≤ i) : mIndex i = i.toNat := if_neg (by omega)

theorem not_mem_of_outside {i : ℤ} (h : i < 1 ∨ m < i) : ¬(0 < mIndex i ∧ mIndex i ≤ m) := by
  rw [mIndex]
  split_ifs <;> omega

/-- An accessor that is only read from. -/
theorem read_iff (hm : m ≤ 65534) (hs : s.length ≤ m) (i : ℤ) :
    (∃ o, destroy m s (mIndex i) (construct s (mIndex i)) = some o ∧ o.storage = s ∧
      o.inside = true) ↔ ¬(s.length < i ∧ i < m) := by
  have hs' : s.length < 65536 := by omega
  by_cases hin : 0 < mIndex i ∧ mIndex i < m
  · have hi : 1 ≤ i := by
      by_contra hnot
      rw [mIndex, if_pos (by omega)] at hin
      exact absurd hin.1 (Nat.lt_irrefl 0)
    rw [destroy_eq hs' hin.1 hin.2, construct_eq hs' hin.1]
    rw [mIndex_eq hi] at hin ⊢
    by_cases hlen : i.toNat ≤ s.length
    · have hkept : assigned s i.toNat (s.getD (i.toNat - 1) 0) = s := by
        rw [assigned, if_neg (Nat.not_lt.mpr hlen),
          List.getD_eq_getElem _ _ (by omega : i.toNat - 1 < s.length), List.set_getElem_self]
      rw [if_neg (by omega), hkept]
      exact iff_of_true ⟨_, rfl, rfl, decide_eq_true (.inl hlen)⟩ (by omega)
    · rw [List.getD_eq_default _ _ (by omega)]
      refine iff_of_false ?_ (not_not_intro (by omega))
      rintro ⟨o, ho, -, hinside⟩
      split_ifs at ho with hnext
      obtain rfl := Option.some.inj ho
      simp [hlen] at hinside
  · rw [destroy_of_not_mem hin]
    refine iff_of_true ⟨_, rfl, rfl, rfl⟩ fun h => hin ?_
    rw [mIndex_eq (by omega)]
    omega

/-- An accessor of an element that is assigned to. -/
theorem assign_iff (hm : m ≤ 65534) (hs : s.length ≤ m) {i : ℤ} (hi : 1 ≤ i) (him : i ≤ m)
    (c : UInt8) : (∃ o, destroy m s (mIndex i) c = some o ∧ o.storage = assigned s i.toNat c) ↔
      i < m ∧ (c = 0 → i ≤ s.length + 1) ∨
        i = m ∧ if s.length < m then c = 0 else s[m - 1]? = some c := by
  rw [mIndex_eq hi]
  rcases Int.lt_or_eq_of_le him with hlt | rfl
  · rw [destroy_eq (by omega) (by omega) (by omega)]
    by_cases hzero : c = 0 ∧ s.length + 1 < i.toNat
    · rw [if_pos hzero]
      refine iff_of_false (by simp) ?_
      rintro (⟨-, h⟩ | ⟨h, -⟩)
      · have := h hzero.1
        omega
      · omega
    · rw [if_neg hzero]
      refine iff_of_true ⟨_, rfl, rfl⟩ (.inl ⟨hlt, fun hc => ?_⟩)
      have := not_and.mp hzero hc
      omega
  · -- the last element is not written
    rw [Int.toNat_natCast, destroy_of_not_mem (by omega)]
    simp only [Option.some.injEq, exists_eq_left', lt_self_iff_false, false_and, true_and, false_or]
    by_cases hlen : s.length < m
    · rw [if_pos hlen]
      constructor
      · intro h
        by_contra hc
        have hlonger := congrArg List.length h
        rw [length_assigned, if_pos ⟨hlen, hc⟩] at hlonger
        omega
      · rintro rfl
        rw [assigned, if_pos hlen, if_pos rfl]
    · have hlast : m - 1 < s.length := by omega
      rw [if_neg hlen, assigned, if_neg hlen, List.getElem?_eq_getElem hlast, Option.some_inj]
      constructor
      · intro h
        have hset := List.getElem_set_self (a := c) (h := by rw [List.length_set]; exact hlast)
        rw [← hset]
        congr 1
      · rintro rfl
        rw [List.set_getElem_self]

/-- An index of any integer type is the number, or there is no element either way. -/
theorem mIndexOf_ofValue (hm : m ≤ 65534) (hs : s.length ≤ m) {t : AnyInt} (N : t.native.Value) :
    construct s (mIndexOf (.ofValue N)) = construct s (mIndex N) ∧
      ∀ c, destroy m s (mIndexOf (.ofValue N)) c = destroy m s (mIndex N) c := by
  rcases Int.lt_or_le N.val (2 ^ 63) with hlt | hge
  · rw [mIndexOf, CIEC_ANY_INT.getSignedValue_ofValue N hlt]
    exact ⟨rfl, fun _ => rfl⟩
  · -- huge numbers come out as negative ones
    have hzero : mIndexOf (.ofValue N) = 0 := by
      have hle := CIEC_ANY_INT.val_lt N
      have hsigned : (CIEC_ANY_INT.ofValue N).getSignedValue = N.val - 2 ^ 64 := by
        rw [CIEC_ANY_INT.getSignedValue, CIEC_ANY_INT.mAnyData_ofValue, BitVec.toInt_ofInt]
        rw [Int.bmod_def]
        omega
      rw [mIndexOf, hsigned]
      exact if_pos (by omega)
    have hindex : mIndex N = N.val.toNat := mIndex_eq (by omega)
    have hbehind : m < mIndex N := by omega
    refine ⟨?_, fun c => ?_⟩
    · rw [hzero, construct, construct, if_neg (by simp), if_neg]
      rw [StringFixed.length_of_lt (by omega)]
      omega
    · rw [hzero, destroy_of_not_mem (by omega), destroy_of_not_mem (by omega)]

end Single

/-- **Access to the elements** of a string `s` of at most `m` characters.

An accessor that is read from leaves the text, and looks at nothing else, if and only if its index
is within the text or not below `m`. One that is assigned to assigns if and only if the index is
below `m` and a zero is not put further behind the end than next to it, or the index is `m` and there
is nothing to be done. Any other index does nothing. In a statement the accessors that are read from
leave what was assigned if and only if `Undisturbed` says so. An index of any integer type is the
number. -/
theorem elementAccess_iff {m : ℕ} (hm : m ≤ 65534) {s : Text} (hs : s.length ≤ m) :
    (∀ i : ℤ, (∃ o, destroy m s (mIndex i) (construct s (mIndex i)) = some o ∧ o.storage = s ∧
      o.inside = true) ↔ ¬(s.length < i ∧ i < m)) ∧
    (∀ (i : ℤ) (c : UInt8), 1 ≤ i → i ≤ m →
      ((∃ o, destroy m s (mIndex i) c = some o ∧ o.storage = assigned s i.toNat c) ↔
        i < m ∧ (c = 0 → i ≤ s.length + 1) ∨
          i = m ∧ if s.length < m then c = 0 else s[m - 1]? = some c)) ∧
    (∀ (i : ℤ) (c : UInt8), i < 1 ∨ m < i →
      destroy m s (mIndex i) c = some { storage := s, inside := true }) ∧
    (∀ (before : List ℤ) (i : ℤ) (c : UInt8) (after : List ℤ),
      (∃ o, destroy m s (mIndex i) c = some o ∧
        statement m s before i c after = some o.storage) ↔
          Undisturbed m s (before.map mIndex) (mIndex i) c (after.map mIndex)) ∧
    ∀ (t : AnyInt) (N : t.native.Value),
      construct s (mIndexOf (.ofValue N)) = construct s (mIndex N) ∧
        ∀ c, destroy m s (mIndexOf (.ofValue N)) c = destroy m s (mIndex N) c := by
  refine ⟨read_iff hm hs, fun i c hi him => assign_iff hm hs hi him c, fun i c hi => ?_,
    statement_eq_iff hm hs, fun t N => mIndexOf_ofValue hm hs N⟩
  have hout := not_mem_of_outside hi
  exact destroy_of_not_mem (fun h => hout ⟨h.1, h.2.le⟩) s c

/-- The third of four characters is assigned to while the second one is read. -/
theorem elementAccess_abc :
    ∃ o, destroy 4 [97, 98, 99] (mIndex 3) 120 = some o ∧
      statement 4 [97, 98, 99] [2] 3 120 [] = some o.storage :=
  ((elementAccess_iff (m := 4) (by decide) (s := [97, 98, 99]) (by decide)).2.2.2.1
    [2] 3 120 []).mpr ⟨by decide, by decide, by decide, by decide⟩

/-- A read far behind the end, an assignment to the last element, and one to an element that is read
in the same statement. -/
theorem elementAccess_fails :
    (destroy 4 [97] (mIndex 3) (construct [97] (mIndex 3))).isNone = true ∧
    (destroy 2 [97, 98] (mIndex 2) 120).map Outcome.storage = some [97, 98] ∧
    statement 4 [97, 98, 99] [] 1 120 [1] = some [97, 98, 99] := by
  decide

end Forte.ElementAccess
