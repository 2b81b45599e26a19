import Mathlib.Logic.Function.Basic
import Forte.Asn1.Deserialize
import Forte.Datatypes.Literal
import Forte.Lib.Runs

/-!
# The bound of fixed strings

A `CIEC_STRING_FIXED<maxLength>` keeps its text in the storage of the `CIEC_STRING` it is
derived from, and each of its own operations cuts off what is too long. The model has any
number of such variables, of any bounds, that are constructed, copied and moved between each
other and written from outside.

* **Two writers are inherited.** `fromString` and `setValue` are virtual functions of
  `CIEC_STRING` that the class does not override, and they store a text as it is.
* **`length` has 16 bits.** A `CIEC_STRING` that is moved in is cut off at its `length`, and
  `append` of a character pointer appends as many characters as 16 bits of `strlen` say.
* **A write to an element is done when the accessor goes**, and only for an index below
  `getMaximumLength`. Behind the end of the text the byte that is compared with a zero is not
  part of the text, and neither is the one written.

`Forte.StringFixed.each_meets_iff` says which steps keep every variable within its bound and store
as much of a text as fits: those that do not write a longer text through one of the inherited
writers, and do not hand over a text that 16 bits cannot count.
-/

namespace Forte

/-- The `maxLength` of a `CIEC_STRING_FIXED`, with its two assertions. -/
structure FixedLength where
  maxLength : ℕ
  pos : 0 < maxLength
  /-- `CIEC_ANY_STRING::scmMaxStringLen`. -/
  le : maxLength ≤ 65534

namespace StringFixed

/-! ### The operations on the storage -/

/-- `CIEC_STRING::length`. -/
def length (storage : Text) : ℕ := storage.length % 65536

/-- `std::string::resize`. -/
def resize (storage : Text) (count : ℕ) : Text :=
  storage.take count ++ List.replicate (count - storage.length) 0

/-- What is left of a storage that has been moved in: it is resized to its `length`, and to
`maxLength` if that is less. -/
def moveIn (maxLength : ℕ) (storage : Text) : Text :=
  resize storage (min (length storage) maxLength)

/-- `append`, of arbitrary data and of a `std::string_view`. -/
def append (maxLength : ℕ) (storage data : Text) : Text :=
  let currentLength := length storage
  if currentLength < maxLength then storage ++ data.take (maxLength - currentLength) else storage

/-- The characters `strlen` counts. -/
def cString (data : Text) : Text := data.takeWhile (· ≠ 0)

/-- `CIEC_STRING::append` of a character pointer. -/
def appendChars (maxLength : ℕ) (storage data : Text) : Text :=
  append maxLength storage ((cString data).take ((cString data).length % 65536))

/-- The text with a character at an index that is counted from one; it grows for a character
behind its end, unless that is a zero. -/
def putChar (storage : Text) (index : ℕ) (value : UInt8) : Text :=
  if length storage < index ∧ value ≠ 0 then (resize storage index).set (index - 1) value
  else storage.set (index - 1) value

/-- The destructor of `PARTIAL_ACCESS_TYPE`, for the access that `at` has returned. -/
def writeElement (maxLength : ℕ) (storage : Text) (paIndex : ℤ) (value : UInt8) : Text :=
  let mIndex := paIndex.toNat
  if 0 < mIndex ∧ mIndex < maxLength then putChar storage mIndex value else storage

/-- `CIEC_STRING::setValue`. -/
def setValue (storage : Text) : Datum → Text
  | .string _ text => text
  | .char data => [UInt8.ofNat data.toNat]
  | _ => storage

/-- What `CFBDKASN1ComLayer::deserializeValueString` leaves in the storage. -/
def deserialize (maxLength : ℕ) (storage : Text) (bytes : List UInt8) : Text :=
  match deserializeValueString (some maxLength) storage bytes with
  | some (_, .string _ text) => text
  | _ => storage

/-! ### Variables and their operations -/

/-- An operation on a variable, of those of which `ι` is the type. -/
inductive Operation (ι : Type)
  | construct
  | constructChar (paValue : UInt8)
  /-- From a `const CIEC_STRING &` and from a `std::string`. -/
  | constructString (paValue : Text)
  | constructChars (paValue : Text) (paLength : ℕ)
  | constructCopy (paValue : ι)
  | constructMove (paValue : ι)
  | assignChar (paValue : UInt8)
  /-- `operator=(const CIEC_STRING &)`. -/
  | assignString (paValue : Text)
  /-- `operator=(CIEC_STRING &&)`. -/
  | moveString (paValue : Text)
  /-- The assignment of another fixed string. -/
  | assignCopy (paValue : ι)
  | assignMove (paValue : ι)
  | assign (paData : Text) (paLen : UInt16)
  | append (paData : Text) (paLen : UInt16)
  | appendChars (paData : Text)
  /-- `append` of a `CIEC_STRING` and of a `std::string_view`. -/
  | appendString (paValue : Text)
  | appendFixed (paValue : ι)
  | reserve (paRequestedSize : UInt16)
  /-- `clear` and `reset`. -/
  | clear
  | fromString (paValue : Text)
  | setValue (paValue : Datum)
  | setValueFixed (paValue : ι)
  | writeElement (paIndex : ℤ) (value : UInt8)
  | deserialize (bytes : List UInt8)

variable {ι : Type} (type : ι → FixedLength)

/-- The storage of the variables. -/
abbrev State (ι : Type) : Type := ι → Text

/-- The text in the storage of a variable after an operation on it. A fixed string of the same
type is copied and moved as it is. -/
def stored (s : State ι) (x : ι) : Operation ι → Text
  | .construct => []
  | .constructChar paValue => [paValue]
  | .constructString paValue => paValue.take (type x).maxLength
  | .constructChars paValue paLength => paValue.take (min paLength (type x).maxLength)
  | .constructCopy y =>
    if (type y).maxLength = (type x).maxLength then s y
    else (s y).take (min (type x).maxLength (type y).maxLength)
  | .constructMove y =>
    if (type y).maxLength = (type x).maxLength then s y else moveIn (type x).maxLength (s y)
  | .assignChar paValue => [paValue]
  | .assignString paValue => paValue.take (type x).maxLength
  | .moveString paValue => moveIn (type x).maxLength paValue
  | .assignCopy y =>
    if (type y).maxLength = (type x).maxLength then s y else (s y).take (type x).maxLength
  | .assignMove y =>
    if (type y).maxLength = (type x).maxLength then s y else moveIn (type x).maxLength (s y)
  | .assign paData paLen => Forte.assign (some (type x).maxLength) (paData.take paLen.toNat)
  | .append paData paLen => StringFixed.append (type x).maxLength (s x) (paData.take paLen.toNat)
  | .appendChars paData => StringFixed.appendChars (type x).maxLength (s x) paData
  | .appendString paValue => StringFixed.append (type x).maxLength (s x) paValue
  | .appendFixed y => StringFixed.append (type x).maxLength (s x) (s y)
  | .reserve _ => s x
  | .clear => []
  | .fromString paValue => (stringFromString paValue).2
  | .setValue paValue => StringFixed.setValue (s x) paValue
  | .setValueFixed y => StringFixed.setValue (s x) (.string (some (type y).maxLength) (s y))
  | .writeElement paIndex value =>
    StringFixed.writeElement (type x).maxLength (s x) paIndex value
  | .deserialize bytes => StringFixed.deserialize (type x).maxLength (s x) bytes

/-- The variable an operation moves from, which it leaves empty. -/
def movedFrom : Operation ι → Option ι
  | .constructMove y => some y
  | .assignMove y => some y
  | _ => none

variable [DecidableEq ι]

/-- An operation on a variable. -/
def step (s : State ι) (op : ι × Operation ι) : State ι :=
  let after := Function.update s op.1 (stored type s op.1 op.2)
  match movedFrom op.2 with
  | some y => Function.update after y []
  | none => after

/-- Before anything has happened every text is empty. -/
def initial : State ι := fun _ => []

/-! ### What the operations are for -/

omit [DecidableEq ι] in
/-- The text an operation would leave if there was no bound. An access to an element that is
not one of the `maxLength` elements is refused. -/
def unbounded (s : State ι) (x : ι) : Operation ι → Text
  | .construct => []
  | .constructChar c => [c]
  | .constructString t => t
  | .constructChars t paLength => t.take paLength
  | .constructCopy y => s y
  | .constructMove y => s y
  | .assignChar c => [c]
  | .assignString t => t
  | .moveString t => t
  | .assignCopy y => s y
  | .assignMove y => s y
  | .assign t paLen => t.take paLen.toNat
  | .append t paLen => s x ++ t.take paLen.toNat
  | .appendChars t => s x ++ cString t
  | .appendString t => s x ++ t
  | .appendFixed y => s x ++ s y
  | .reserve _ => s x
  | .clear => []
  | .fromString t => (stringFromString t).2
  | .setValue v => StringFixed.setValue (s x) v
  | .setValueFixed y => s y
  | .writeElement index c =>
    if 1 ≤ index ∧ index ≤ (type x).maxLength then putChar (s x) index.toNat c else s x
  | .deserialize bytes =>
    if 2 ≤ bytes.length ∧ lengthField bytes + 2 ≤ bytes.length then
      (bytes.drop 2).take (lengthField bytes)
    else s x

/-- Every variable is within its bound. -/
def Bounded (s : State ι) : Prop := ∀ y, (s y).length ≤ (type y).maxLength

/-- **What is asked of a step**: all variables are within their bounds behind it, and of a text
that is longer the variable has exactly the first `maxLength` bytes. -/
def Meets (s : State ι) (op : ι × Operation ι) : Prop :=
  Bounded type (step type s op) ∧
    ((type op.1).maxLength < (unbounded type s op.1 op.2).length →
      step type s op op.1 = (unbounded type s op.1 op.2).take (type op.1).maxLength)

omit [DecidableEq ι] in
/-- **When a step is as it should be**: a literal quotes no more than `maxLength` characters,
and `setValue` gets a text that is no longer. What is moved in, or appended up to its zero, can
be counted in 16 bits, or what 16 bits count is already enough to fill the variable. -/
def Fits (s : State ι) (op : ι × Operation ι) : Prop :=
  match op.2 with
  | .fromString literal => ∀ read rest,
      unescapeString ((literal.dropWhile (· ≠ '\''.toUInt8)).drop 1) = some (read, rest) →
        read.length ≤ (type op.1).maxLength
  | .setValue (.string _ t) => t.length ≤ (type op.1).maxLength
  | .setValueFixed y => (s y).length ≤ (type op.1).maxLength
  | .moveString t => t.length < 65536 ∨ (type op.1).maxLength ≤ t.length % 65536
  | .appendChars t => (cString t).length < 65536 ∨
      (type op.1).maxLength - (s op.1).length ≤ (cString t).length % 65536
  | _ => True

/-! ### What the operations store -/

section

omit [DecidableEq ι]

/-- What is stored of a text: no more than `count` bytes, and the first of them if there are
more. -/
def Cuts (count : ℕ) (t u : Text) : Prop :=
  u.length ≤ count ∧ (count < t.length → u = t.take count)

theorem cuts_take (count : ℕ) (t : Text) : Cuts count t (t.take count) :=
  ⟨List.length_take_le count t, fun _ => rfl⟩

theorem cuts_self_iff {count : ℕ} {t : Text} : Cuts count t t ↔ t.length ≤ count :=
  ⟨And.left, fun h => ⟨h, fun hlt => absurd hlt (by omega)⟩⟩

/-- A text that is cut off earlier than at the bound is not long enough to be missed. -/
theorem cuts_take_min_iff {count k : ℕ} {t : Text} :
    Cuts count t (t.take (min k count)) ↔ (count < t.length → count ≤ k) := by
  refine ⟨fun h hlt => ?_, fun h => ⟨by simp, fun hlt => ?_⟩⟩
  · have hlen := congrArg List.length (h.2 hlt)
    rw [List.length_take, List.length_take] at hlen
    omega
  · rw [min_eq_right (h hlt)]

theorem length_of_lt {t : Text} (h : t.length < 65536) : length t = t.length :=
  Nat.mod_eq_of_lt h

theorem length_resize (t : Text) (count : ℕ) : (resize t count).length = count := by
  rw [resize, List.length_append, List.length_take, List.length_replicate]
  omega

theorem moveIn_eq (count : ℕ) (t : Text) :
    moveIn count t = t.take (min (length t) count) := by
  have hlength : length t ≤ t.length := Nat.mod_le t.length 65536
  have hle : min (length t) count - t.length = 0 := by omega
  rw [moveIn, resize, hle, List.replicate_zero, List.append_nil]

/-- **A text is appended as far as there is room.** -/
theorem append_eq {count : ℕ} {s : Text} (hcount : count < 65536) (hs : s.length ≤ count)
    (data : Text) : append count s data = (s ++ data).take count := by
  have hlength : length s = s.length := length_of_lt (by omega)
  rw [append, hlength]
  split_ifs with hlt
  · rw [List.take_append, List.take_of_length_le hs]
  · have hfull : count = s.length := by omega
    rw [hfull, List.take_left]

theorem length_putChar {count index : ℕ} {s : Text} (hs : s.length ≤ count)
    (hindex : index ≤ count) (c : UInt8) : (putChar s index c).length ≤ count := by
  rw [putChar]
  split_ifs with hgrow
  · rw [List.length_set, length_resize]
    exact hindex
  · rw [List.length_set]
    exact hs

theorem deserialize_eq (count : ℕ) (s : Text) (bytes : List UInt8) :
    deserialize count s bytes =
      if 2 ≤ bytes.length ∧ lengthField bytes + 2 ≤ bytes.length then
        ((bytes.drop 2).take (lengthField bytes)).take count
      else s := by
  rw [deserialize, deserializeValueString]
  split_ifs
  · rfl
  · rfl

/-- A prefix of the type has no quote, so that the literal starts at the first one. -/
theorem stringFromString_eq (literal : Text) :
    (stringFromString literal).2 =
      match unescapeString ((literal.dropWhile (· ≠ '\''.toUInt8)).drop 1) with
      | some (read, _) => read
      | none => [] := by
  have hquoted : ∀ stringStart, stringStart = 7 → (text "STRING#").isPrefixOf literal = true →
      (literal.drop stringStart).dropWhile (· ≠ '\''.toUInt8) =
        literal.dropWhile (· ≠ '\''.toUInt8) := by
    rintro stringStart rfl hleading
    obtain ⟨rest, rfl⟩ := List.isPrefixOf_iff_prefix.mp hleading
    rfl
  rw [stringFromString]
  split_ifs with hleading
  · rw [Bool.and_eq_true] at hleading
    rw [hquoted 7 rfl hleading.1]
    cases unescapeString ((literal.dropWhile (· ≠ '\''.toUInt8)).drop 1) <;> rfl
  · rw [List.drop_zero]
    cases unescapeString ((literal.dropWhile (· ≠ '\''.toUInt8)).drop 1) <;> rfl

end

variable {type} {s : State ι}

omit [DecidableEq ι] in
theorem cuts_moveIn_iff (n : FixedLength) (t : Text) :
    Cuts n.maxLength t (moveIn n.maxLength t) ↔
      t.length < 65536 ∨ n.maxLength ≤ t.length % 65536 := by
  have hle := n.le
  rw [moveIn_eq, cuts_take_min_iff, length]
  omega

omit [DecidableEq ι] in
theorem cuts_appendChars_iff (n : FixedLength) {s : Text} (hs : s.length ≤ n.maxLength)
    (t : Text) :
    Cuts n.maxLength (s ++ cString t) (appendChars n.maxLength s t) ↔
      (cString t).length < 65536 ∨
        n.maxLength - s.length ≤ (cString t).length % 65536 := by
  have hle := n.le
  rw [appendChars, append_eq (by omega) hs]
  generalize cString t = cs
  rcases Nat.lt_or_ge cs.length 65536 with hlt | hge
  · rw [Nat.mod_eq_of_lt hlt, List.take_length]
    exact iff_of_true (cuts_take _ _) (Or.inl hlt)
  · refine ⟨fun h => Or.inr ?_, fun h => ⟨List.length_take_le _ _, fun _ => ?_⟩⟩
    · have hlen := congrArg List.length (h.2 (by rw [List.length_append]; omega))
      simp only [List.length_take, List.length_append] at hlen
      omega
    · rcases h with hlt | hroom
      · exact absurd hlt (by omega)
      · rw [List.take_append, List.take_append, List.take_take, min_eq_left hroom]

/-! ### Every step of every run -/

omit [DecidableEq ι] in
/-- **One operation**: it stores as much of its text as there is room for if and only if it
fits. -/
theorem cuts_stored_iff (hs : Bounded type s) (x : ι) (op : Operation ι) :
    Cuts (type x).maxLength (unbounded type s x op) (stored type s x op) ↔
      Fits type s (x, op) := by
  have hle := (type x).le
  have hpos := (type x).pos
  cases op with
  | construct => exact iff_of_true (cuts_self_iff.mpr (Nat.zero_le _)) trivial
  | constructChar c => exact iff_of_true (cuts_self_iff.mpr hpos) trivial
  | constructString t => exact iff_of_true (cuts_take _ t) trivial
  | constructChars t paLength =>
    refine iff_of_true ?_ trivial
    rw [unbounded, stored, min_comm, ← List.take_take]
    exact cuts_take _ _
  | constructCopy y =>
    refine iff_of_true ?_ trivial
    have hy := hs y
    rw [unbounded, stored]
    split_ifs with hsame
    · exact cuts_self_iff.mpr (hsame ▸ hy)
    · rw [min_comm, cuts_take_min_iff]
      omega
  | constructMove y =>
    refine iff_of_true ?_ trivial
    have hy := hs y
    have hyle := (type y).le
    rw [unbounded, stored]
    split_ifs with hsame
    · exact cuts_self_iff.mpr (hsame ▸ hy)
    · exact (cuts_moveIn_iff _ _).mpr (Or.inl (by omega))
  | assignChar c => exact iff_of_true (cuts_self_iff.mpr hpos) trivial
  | assignString t => exact iff_of_true (cuts_take _ t) trivial
  | moveString t => exact cuts_moveIn_iff _ t
  | assignCopy y =>
    refine iff_of_true ?_ trivial
    rw [unbounded, stored]
    split_ifs with hsame
    · exact cuts_self_iff.mpr (hsame ▸ hs y)
    · exact cuts_take _ _
  | assignMove y =>
    refine iff_of_true ?_ trivial
    have hy := hs y
    have hyle := (type y).le
    rw [unbounded, stored]
    split_ifs with hsame
    · exact cuts_self_iff.mpr (hsame ▸ hy)
    · exact (cuts_moveIn_iff _ _).mpr (Or.inl (by omega))
  | assign t paLen => exact iff_of_true (cuts_take _ _) trivial
  | append t paLen =>
    refine iff_of_true ?_ trivial
    rw [unbounded, stored, append_eq (by omega) (hs x)]
    exact cuts_take _ _
  | appendChars t => exact cuts_appendChars_iff (type x) (hs x) t
  | appendString t =>
    refine iff_of_true ?_ trivial
    rw [unbounded, stored, append_eq (by omega) (hs x)]
    exact cuts_take _ _
  | appendFixed y =>
    refine iff_of_true ?_ trivial
    rw [unbounded, stored, append_eq (by omega) (hs x)]
    exact cuts_take _ _
  | reserve _ => exact iff_of_true (cuts_self_iff.mpr (hs x)) trivial
  | clear => exact iff_of_true (cuts_self_iff.mpr (Nat.zero_le _)) trivial
  | fromString literal =>
    rw [unbounded, stored, cuts_self_iff, stringFromString_eq, Fits]
    dsimp only
    cases unescapeString ((literal.dropWhile (· ≠ '\''.toUInt8)).drop 1) with
    | none => exact iff_of_true (Nat.zero_le _) fun _ _ h => absurd h (by simp)
    | some read =>
      refine ⟨fun h text rest hread => ?_, fun h => h read.1 read.2 rfl⟩
      obtain rfl := Option.some.inj hread
      exact h
  | setValue v =>
    rw [unbounded, stored, cuts_self_iff, Fits]
    cases v with
    | string bound t => exact Iff.rfl
    | char data => exact iff_of_true hpos trivial
    | _ => exact iff_of_true (hs x) trivial
  | setValueFixed y => exact cuts_self_iff
  | writeElement index c =>
    refine iff_of_true ?_ trivial
    have hput : ∀ i, i ≤ (type x).maxLength → (putChar (s x) i c).length ≤ (type x).maxLength :=
      fun i hi => length_putChar (hs x) hi c
    -- the access to the last element is refused, and no longer text comes from it either
    refine ⟨?_, fun hlong => absurd hlong (Nat.not_lt.mpr ?_)⟩
    · rw [stored, writeElement]
      split_ifs with hindex
      · exact hput _ (by omega)
      · exact hs x
    · rw [unbounded]
      split_ifs with hindex
      · exact hput _ (by omega)
      · exact hs x
  | deserialize bytes =>
    refine iff_of_true ?_ trivial
    rw [unbounded, stored, deserialize_eq]
    split_ifs
    · exact cuts_take _ _
    · exact cuts_self_iff.mpr (hs x)

theorem step_self_of_none (x : ι) {op : Operation ι} (h : movedFrom op = none) :
    step type s (x, op) = Function.update s x (stored type s x op) := by
  rw [step, h]

theorem step_of_some {y : ι} (x : ι) {op : Operation ι} (h : movedFrom op = some y) :
    step type s (x, op) = Function.update (Function.update s x (stored type s x op)) y [] := by
  rw [step, h]

omit [DecidableEq ι] in
/-- A variable that is moved from itself has had no text that is too long. -/
theorem unbounded_of_movedFrom {y : ι} (x : ι) {op : Operation ι} (h : movedFrom op = some y) :
    unbounded type s x op = s y := by
  cases op with
  | constructMove z => exact congrArg s (Option.some.inj h)
  | assignMove z => exact congrArg s (Option.some.inj h)
  | _ => exact absurd h (by simp [movedFrom])

theorem bounded_update {x : ι} {t : Text} (hs : Bounded type s)
    (ht : t.length ≤ (type x).maxLength) : Bounded type (Function.update s x t) := by
  intro z
  rcases eq_or_ne z x with rfl | hne
  · rw [Function.update_self]
    exact ht
  · rw [Function.update_of_ne hne]
    exact hs z

/-- **One step**: where every variable is within its bound, it is as it should be if and only if
it fits. -/
theorem meets_step_iff (hs : Bounded type s) (op : ι × Operation ι) :
    Meets type s op ↔ Fits type s op := by
  obtain ⟨x, op⟩ := op
  have hstored := cuts_stored_iff hs x op
  rw [← hstored]
  cases hfrom : movedFrom op with
  | none =>
    rw [Meets, step_self_of_none x hfrom]
    refine ⟨fun h => ?_, fun h => ⟨bounded_update hs h.1, fun hlong => ?_⟩⟩
    · have hx := h.1 x
      rw [Function.update_self] at hx
      refine ⟨hx, fun hlong => ?_⟩
      have hcut := h.2 hlong
      rwa [Function.update_self] at hcut
    · rw [Function.update_self]
      exact h.2 hlong
  | some y =>
    -- what is moved comes from another variable, and is therefore within 16 bits
    have hfits : Fits type s (x, op) := by
      cases op with
      | constructMove _ => trivial
      | assignMove _ => trivial
      | _ => exact absurd hfrom (by simp [movedFrom])
    have hcuts := hstored.mpr hfits
    refine iff_of_true ⟨?_, fun hlong => ?_⟩ hcuts
    · rw [step_of_some x hfrom]
      exact bounded_update (bounded_update hs hcuts.1) (Nat.zero_le _)
    · have hlong' : (type x).maxLength < (s y).length := by
        rwa [unbounded_of_movedFrom x hfrom] at hlong
      have hne : x ≠ y := by
        rintro rfl
        exact absurd (hs x) (Nat.not_le.mpr hlong')
      rw [step_of_some x hfrom]
      dsimp only
      rw [Function.update_of_ne hne, Function.update_self]
      exact hcuts.2 hlong

/-- **Every run**: all steps are as they should be if and only if all of them fit. -/
theorem each_meets_iff (type : ι → FixedLength) (steps : List (ι × Operation ι)) :
    Runs.Each (step type) (Meets type) initial steps ↔
      Runs.Each (step type) (Fits type) initial steps :=
  have hbounded : ∀ (s : State ι) (op : ι × Operation ι), Bounded type s → Meets type s op →
      Bounded type (step type s op) := fun _ _ _ h => h.1
  have hstep : ∀ (s : State ι) (op : ι × Operation ι), Bounded type s →
      (Meets type s op ↔ Fits type s op) := fun _ op hs => meets_step_iff hs op
  have hinitial : Bounded type initial := fun y => Nat.zero_le (type y).maxLength
  Runs.each_congr hbounded hstep hinitial steps

/-- A literal of two characters in a string of one. -/
theorem not_each_meets_literal :
    ¬∀ (type : Unit → FixedLength) (steps : List (Unit × Operation Unit)),
      Runs.Each (step type) (Meets type) initial steps := by
  intro h
  have hliteral := h (fun _ => ⟨1, by decide, by decide⟩) [((), .fromString (text "'ab'"))] 0 _ rfl
  have hbound := hliteral.1 ()
  revert hbound
  decide

end StringFixed

end Forte
