import Forte.Datatypes.WideEscapes
import Forte.Datatypes.WideText
import Forte.Lib.Overwriting

/-!
# The memory of wide strings

A `CIEC_ANY_STRING` has no memory, or a block with two counters of 16 bits, its length and its
capacity, and behind them the text with a byte more than the capacity for the terminator. The
operations of a `WSTRING` write into this block, and have no result in the model where they write
outside of it.

What holds of a storage that has been written within bounds is said by the text it holds
(`Forte.AnyString.Holds`), and each operation has one lemma that says which text it holds behind
it. Unescaping is done in the block that is read: it never writes behind the place it reads from,
so that it comes to what it would in another block (`Forte.AnyString.unescapeLoop_eq`).

An operation is given memory of its own, but for `assign`, which looks whether it is given the
text of the object. What memory holds that has not been written is a parameter, `fresh`.
-/

namespace Forte.AnyString

open StringFixed (cString resize)

/-- The memory of a `CIEC_ANY_STRING`. -/
inductive Storage
  /-- There is none, and the text is the `smNullString` of all objects. -/
  | null
  /-- The two counters, and the memory from the text on. -/
  | block (length capacity : ℕ) (value : List UInt8)
  deriving DecidableEq, Repr

namespace Storage

/-- `CIEC_ANY_STRING::length`. -/
def length : Storage → ℕ
  | null => 0
  | block length _ _ => length

/-- `CIEC_ANY_STRING::getCapacity`. -/
def getCapacity : Storage → ℕ
  | null => 0
  | block _ capacity _ => capacity

/-- The memory that `CIEC_ANY_STRING::getValue` points to. -/
def getValue : Storage → List UInt8
  | null => [0]
  | block _ _ value => value

/-- `CIEC_ANY_STRING::setLength`. -/
def setLength (paVal : ℕ) : Storage → Storage
  | null => null
  | block _ capacity value => block (paVal % 65536) capacity value

/-- The storage with other bytes in its memory. -/
def withValue (value : List UInt8) : Storage → Storage
  | null => null
  | block length capacity _ => block length capacity value

/-- The text. -/
def content (s : Storage) : Text := s.getValue.take s.length

/-- A write to the memory of the text. The `smNullString` may only be written a zero to. -/
def write (pos : ℕ) (bytes : List UInt8) : Storage → Option Storage
  | null => if pos + bytes.length ≤ 1 ∧ bytes.all (· == 0) then some null else none
  | block length capacity value => (overwrite value pos bytes).map (block length capacity)

/-- `setLength`, and the terminator at an index. -/
def terminate (length index : ℕ) (s : Storage) : Option Storage :=
  (s.setLength length).write index [0]

end Storage

/-- The bytes behind a pointer; behind what is there, there are zeros. -/
def readable (paData : Text) (paLen : ℕ) : List UInt8 := resize paData paLen

/-- What `assign` is given. -/
inductive Source
  | nullptr
  /-- The `getValue` of the object itself. -/
  | self
  | memory (paData : Text)
  deriving DecidableEq, Repr

variable (fresh : ℕ → UInt8)

/-- `CIEC_ANY_STRING::reserve`. -/
def reserve (paRequestedSize : ℕ) (s : Storage) : Option Storage :=
  if s.getCapacity < paRequestedSize + 1 then
    let nNewLength := s.getCapacity * 3 / 2 % 65536
    let nNewLength := if nNewLength < paRequestedSize then paRequestedSize else nNewLength
    let newMemory := (List.range (nNewLength + 1)).map fresh
    match s with
    | .null => (Storage.block 0 nNewLength newMemory).terminate 0 0
    | .block length _ value => (Storage.block length nNewLength newMemory).write 0 value
  else some s

/-- `CIEC_ANY_STRING::assign`. -/
def assign (paData : Source) (paLen : ℕ) (s : Storage) : Option Storage :=
  match paData with
  | .nullptr => some s
  | .self => s.terminate paLen paLen
  | .memory paData =>
    if paLen = 0 then s.terminate paLen paLen
    else
      (reserve fresh paLen s).bind fun s =>
        (s.write 0 (readable paData paLen)).bind (Storage.terminate paLen paLen)

/-- `CIEC_ANY_STRING::append`; for a null pointer there is nothing to do. -/
def append (paData : Text) (paLen : ℕ) (s : Storage) : Option Storage :=
  let nLen := s.length
  if paLen = 0 then some s
  else
    let reserved : Option Storage :=
      if (s.getCapacity : ℤ) - nLen < paLen then reserve fresh ((nLen + paLen) % 65536) s
      else some s
    reserved.bind fun s =>
      (s.write nLen (readable paData paLen)).bind (Storage.terminate (nLen + paLen) (nLen + paLen))

/-- `CIEC_ANY_STRING::append` of a character pointer. -/
def appendChars (paData : Text) (s : Storage) : Option Storage :=
  append fresh paData ((cString paData).length % 65536) s

/-- `CIEC_WSTRING::fromCharString`. -/
def fromCharString (paValue : Text) (s : Storage) : Option Storage :=
  assign fresh (.memory paValue) (min (cString paValue).length scmMaxStringLen) s

/-- `func_CONCAT` of two wide strings, in the memory of a new one. -/
def concat (paIn1 paIn2 : Storage) : Option Storage :=
  (assign fresh (.memory paIn1.getValue) paIn1.length .null).bind fun temp =>
    (reserve fresh ((paIn1.length + paIn2.length) % 65536) temp).bind
      (append fresh paIn2.getValue paIn2.length)

/-! ### From UTF-8 and UTF-16 -/

/-- The width `CUnicodeUtilities::checkUTF8` knows of, with one more code point. -/
def maxWidth (paMaxWidth nCodepoint : ℕ) : ℕ :=
  if nCodepoint = scmBOMMarker then paMaxWidth
  else if 0x10000 ≤ nCodepoint then 21
  else if 0x100 ≤ nCodepoint ∧ paMaxWidth < 16 then 16
  else if 0x80 ≤ nCodepoint ∧ paMaxWidth < 8 then 8
  else paMaxWidth

/-- The loop of `checkUTF8`, over the bytes behind a pointer of which so many are left: the width.
Every code point takes a byte at least. -/
def checkUTF8Loop : ℕ → Text → ℕ → ℕ → Option ℕ
  | _, _, 0, paMaxWidth => some paMaxWidth
  | 0, _, _ + 1, _ => none
  | fuel + 1, pRunner, nRemLen + 1, paMaxWidth =>
    match parseUTF8Codepoint pRunner with
    | none => none
    | some (nRes, nCodepoint) =>
      if nRemLen + 1 < nRes then none
      else
        checkUTF8Loop fuel (pRunner.drop nRes) (nRemLen + 1 - nRes) (maxWidth paMaxWidth nCodepoint)

/-- `CUnicodeUtilities::checkUTF8`: the width, if the bytes are UTF-8. -/
def checkUTF8 (paValue : Text) (paLength : ℕ) : Option ℕ :=
  checkUTF8Loop paLength paValue paLength 7

/-- The loop of `fromUTF8` that leaves out byte order marks and writes a question mark for what is
outside of the basic plane, with the memory, and how much of it has been written. -/
def encodeLoop (nSrcCappedLength : ℕ) : ℕ → Text → ℕ → List UInt8 → ℕ → Option (List UInt8 × ℕ)
  | 0, _, _, _, _ => none
  | fuel + 1, pRunner, nRemLen, value, written =>
    if pRunner.at 0 = 0 ∨ nRemLen = 0 then some (value, written)
    else
      match parseUTF8Codepoint pRunner with
      -- the bytes have been checked
      | none => none
      | some (nRes, nCodepoint) =>
        let next := encodeLoop nSrcCappedLength fuel (pRunner.drop nRes) (nRemLen - nRes)
        if nCodepoint = scmBOMMarker then next value written
        else
          match encodeUTF8Into (nSrcCappedLength - written)
            (if 0x10000 ≤ nCodepoint then '?'.toNat else nCodepoint) with
          | none => some (value, written)
          | some bytes =>
            (overwrite value written bytes).bind fun value => next value (written + bytes.length)

/-- What `fromUTF8` stores of bytes of a width. -/
def storeUTF8 (paValue : Text) (nSrcCappedLength nMaxWidth : ℕ) (s : Storage) : Option Storage :=
  if nMaxWidth ≤ 16 then assign fresh (.memory paValue) nSrcCappedLength s
  else
    (encodeLoop nSrcCappedLength (nSrcCappedLength + 1) paValue nSrcCappedLength s.getValue 0).bind
      fun (value, written) => (s.withValue value).terminate written written

/-- The loop of `unescapeFromString`, with the memory, the place that is read and the one that is
written. The length is missing if an escape is refused. -/
def unescapeLoop (paDelimiter : UInt8) :
    ℕ → List UInt8 → ℕ → ℕ → Option (List UInt8 × Option ℕ)
  | 0, _, _, _ => none
  | fuel + 1, value, runner, nLen =>
    match value[runner]? with
    | none => none
    | some c =>
      if c = 0 ∨ nLen = scmMaxStringLen then some (value, some nLen)
      else if c = '$'.toUInt8 then
        let paSymbol := value.drop (runner + 1)
        if Text.at paSymbol 0 = 0 then some (value, some nLen)
        else
          let bWide := paDelimiter = '"'.toUInt8
          match handleDollarEscapedChar bWide paSymbol with
          | none => some (value, none)
          | some (used, nValue) =>
            match if bWide then encodeUTF8Into 3 nValue else some [UInt8.ofNat nValue] with
            | none => some (value, none)
            | some bytes =>
              (overwrite value nLen bytes).bind fun value =>
                unescapeLoop paDelimiter fuel value (runner + 1 + used)
                  ((nLen + bytes.length) % 65536)
      else if c = paDelimiter then some (value, some nLen)
      else
        (overwrite value nLen [c]).bind fun value =>
          unescapeLoop paDelimiter fuel value (runner + 1) ((nLen + 1) % 65536)

/-- `CIEC_ANY_STRING::unescapeFromString`, of the text of the object itself: whether there is no
error. -/
def unescapeFromString (paDelimiter : UInt8) (s : Storage) : Option (Bool × Storage) :=
  let paValue := s.getValue
  let runner := if Text.at paValue 0 = paDelimiter then 1 else 0
  (unescapeLoop paDelimiter (paValue.length + 1) paValue runner 0).bind fun (value, nLen) =>
    match nLen with
    | none => some (false, s.withValue value)
    | some nLen => ((s.withValue value).terminate nLen nLen).map (true, ·)

/-- `CIEC_WSTRING::fromUTF8`; a null pointer is taken for an empty text. -/
def fromUTF8 (paValue : Text) (paLen : ℤ) (paUnescape : Bool) (s : Storage) :
    Option (ℤ × Storage) :=
  let nSrcLen :=
    if 0 ≤ paLen then paLen
    else if paUnescape then determineEscapedStringLength paValue '"'.toUInt8
    else asInt (cString paValue).length
  if nSrcLen < 0 then some (nSrcLen, s)
  else if paValue.at 0 = 0 ∨ nSrcLen = 0 then (assign fresh (.memory []) 0 s).map (0, ·)
  else
    let nSrcCappedLength := min nSrcLen.toNat scmMaxStringLen
    (reserve fresh nSrcCappedLength s).bind fun s =>
      match checkUTF8 paValue nSrcCappedLength with
      | none => (fromCharString fresh (text "***INVALID UTF-8***") s).map (-1, ·)
      | some nMaxWidth =>
        (storeUTF8 fresh paValue nSrcCappedLength nMaxWidth s).bind fun s =>
          if paUnescape then
            (unescapeFromString '"'.toUInt8 s).map fun (done, s) =>
              (if done then nSrcLen else -1, s)
          else some (nSrcLen, s)

/-- `CIEC_WSTRING::fromString`. -/
def fromString (paValue : Text) (s : Storage) : Option (ℤ × Storage) :=
  let leading := (text "WSTRING#").isPrefixOf paValue
  let nRetVal := if leading then 8 else 0
  let paValue : Text := if leading then paValue.drop 8 else paValue
  (fromUTF8 fresh paValue (-1) (paValue.at 0 = '"'.toUInt8) s).map fun (nUTF8Result, s) =>
    (if nUTF8Result = -1 then -1 else nRetVal + nUTF8Result, s)

/-- `CIEC_WSTRING::fromUTF16`. The passes read a buffer behind its end only to refuse it. Where
their count of the bytes has wrapped, the second one writes in front of the text. -/
def fromUTF16 (paBuffer : List UInt8) (s : Storage) : Option (Bool × Storage) :=
  if paBuffer.length = 0 then (assign fresh (.memory []) 0 s).map (true, ·)
  else
    match fromUTF16Passes paBuffer with
    | .ok bytes =>
      ((reserve fresh bytes.length s).bind fun s =>
        (s.write 0 bytes).bind (Storage.terminate bytes.length bytes.length)).map (true, ·)
    | .error .noRoom => none
    | .error _ => some (false, s)

/-! ### The text a storage holds -/

namespace Storage

/-- **A storage that holds a text**: it has the room its capacity says, the length is that of the
text, and there is the terminator behind it. -/
def Holds : Storage → Text → Prop
  | null, t => t = []
  | block length capacity value, t =>
    ∃ rest, value = t ++ 0 :: rest ∧ length = t.length ∧ capacity = t.length + rest.length ∧
      capacity < 65536

variable {s : Storage} {t : Text} {length capacity : ℕ} {value : List UInt8}

namespace Holds

theorem length_eq (h : s.Holds t) : s.length = t.length := by
  cases s with
  | null => exact congrArg List.length h.symm
  | block length capacity value =>
    obtain ⟨rest, -, hlength, -, -⟩ := h
    exact hlength

theorem length_le (h : s.Holds t) : t.length ≤ s.getCapacity := by
  cases s with
  | null =>
    cases h
    exact le_rfl
  | block length capacity value =>
    obtain ⟨rest, -, -, rfl, -⟩ := h
    exact Nat.le_add_right _ _

theorem content_eq (h : s.Holds t) : s.content = t := by
  cases s with
  | null =>
    cases h
    rfl
  | block length capacity value =>
    obtain ⟨rest, rfl, rfl, -, -⟩ := h
    exact List.take_left

/-- There is a byte more than the capacity. -/
theorem sized (h : (block length capacity value).Holds t) :
    value.length = capacity + 1 ∧ capacity < 65536 ∧ length = t.length ∧
      value.take length = t := by
  obtain ⟨rest, rfl, rfl, hcapacity, hlt⟩ := h
  refine ⟨?_, hlt, rfl, List.take_left⟩
  rw [List.length_append, List.length_cons]
  omega

end Holds

/-- **What has been terminated is held.** -/
theorem terminate_holds (length : ℕ) {k : ℕ} (hvalue : value.length = capacity + 1)
    (hcapacity : capacity < 65536) (hk : k ≤ capacity) :
    ∃ s', (block length capacity value).terminate k k = some s' ∧ s'.Holds (value.take k) ∧
      s'.getCapacity = capacity := by
  have hk' : k % 65536 = k := Nat.mod_eq_of_lt (by omega)
  have hroom : k + ([0] : List UInt8).length ≤ value.length := by
    rw [hvalue]
    exact Nat.succ_le_succ hk
  refine ⟨block k capacity (value.take k ++ [0] ++ value.drop (k + 1)), ?_, ?_, rfl⟩
  · rw [terminate, setLength, write, hk', overwrite_of_le hroom]
    rfl
  · refine ⟨value.drop (k + 1), List.append_assoc _ _ _, ?_, ?_, hcapacity⟩
    · rw [List.length_take, min_eq_left (by omega)]
    · rw [List.length_take, List.length_drop, min_eq_left (by omega)]
      omega

/-- **What has been written within the capacity is held**, behind what was in front of it. -/
theorem write_holds (length pos : ℕ) (bytes : List UInt8)
    (hvalue : value.length = capacity + 1) (hcapacity : capacity < 65536)
    (hroom : pos + bytes.length ≤ capacity) :
    ∃ s', ((block length capacity value).write pos bytes).bind
        (terminate (pos + bytes.length) (pos + bytes.length)) = some s' ∧
      s'.Holds (value.take pos ++ bytes) ∧ s'.getCapacity = capacity := by
  obtain ⟨v, hv⟩ : ∃ v, overwrite value pos bytes = some v :=
    ⟨_, overwrite_of_le (by omega)⟩
  have hlength := length_of_overwrite hv
  rw [write, hv, Option.map_some, Option.bind_some, ← take_of_overwrite hv]
  exact terminate_holds length (hlength.trans hvalue) hcapacity hroom

end Storage

/-! ### Assigning and appending -/

section Specs

variable {s : Storage} {t : Text}

theorem length_readable (paData : Text) (paLen : ℕ) : (readable paData paLen).length = paLen :=
  StringFixed.length_resize paData paLen

/-- A text that is held can be read. -/
theorem Storage.Holds.readable_eq (h : s.Holds t) : readable s.getValue t.length = t := by
  have hcontent := h.content_eq
  have hle : t.length ≤ s.getValue.length := by
    have hlength := congrArg List.length hcontent
    rw [Storage.content, List.length_take, h.length_eq] at hlength
    omega
  rw [Storage.content, h.length_eq] at hcontent
  rw [readable, resize, Nat.sub_eq_zero_of_le hle, List.replicate_zero, List.append_nil, hcontent]

theorem readable_zero (paData : Text) : readable paData 0 = [] :=
  List.length_eq_zero_iff.mp (length_readable paData 0)

theorem readable_of_le {paData : Text} {paLen : ℕ} (h : paLen ≤ paData.length) :
    readable paData paLen = paData.take paLen := by
  rw [readable, resize, Nat.sub_eq_zero_of_le h, List.replicate_zero, List.append_nil]

/-- How much memory `reserve` asks for. -/
theorem newLength_bounds (capacity : ℕ) {k : ℕ} (hk : k < 65536) :
    k ≤ (if capacity * 3 / 2 % 65536 < k then k else capacity * 3 / 2 % 65536) ∧
      (if capacity * 3 / 2 % 65536 < k then k else capacity * 3 / 2 % 65536) < 65536 := by
  split <;> omega

/-- **There is room behind `reserve`**, and the text is the same. -/
theorem reserve_spec (h : s.Holds t) {k : ℕ} (hk : k < 65536) :
    ∃ capacity value, reserve fresh k s = some (.block t.length capacity value) ∧
      (Storage.block t.length capacity value).Holds t ∧ k ≤ capacity := by
  obtain ⟨hle, hlt⟩ := newLength_bounds s.getCapacity hk
  rw [reserve]
  generalize hnew : (if s.getCapacity * 3 / 2 % 65536 < k then k
    else s.getCapacity * 3 / 2 % 65536) = nNewLength at hle hlt
  have hlength : ((List.range (nNewLength + 1)).map fresh).length = nNewLength + 1 := by simp
  dsimp only
  rw [hnew]
  split_ifs with hsmall
  · cases s with
    | null =>
      cases h
      have hnil : ([0] : List UInt8).length ≤ ((List.range (nNewLength + 1)).map fresh).length := by
        rw [hlength]
        exact Nat.succ_le_succ (Nat.zero_le _)
      refine ⟨nNewLength, [0] ++ ((List.range (nNewLength + 1)).map fresh).drop 1, ?_, ?_, hle⟩
      · dsimp only
        rw [Storage.terminate, Storage.setLength, Storage.write, overwrite_zero hnil]
        rfl
      · refine ⟨((List.range (nNewLength + 1)).map fresh).drop 1, rfl, rfl, ?_, hlt⟩
        rw [List.length_drop, hlength]
        exact (Nat.zero_add _).symm
    | block length capacity value =>
      obtain ⟨hvalue, -, rfl, -⟩ := h.sized
      obtain ⟨rest, rfl, -, hcapacity, -⟩ := h
      have hcap : capacity < k + 1 := hsmall
      have hroom : (t ++ 0 :: rest).length ≤ ((List.range (nNewLength + 1)).map fresh).length := by
        rw [hlength, hvalue]
        omega
      refine ⟨nNewLength, (t ++ 0 :: rest) ++
        ((List.range (nNewLength + 1)).map fresh).drop (t ++ 0 :: rest).length, ?_, ?_, hle⟩
      · dsimp only
        rw [Storage.write, overwrite_zero hroom]
        rfl
      · refine ⟨rest ++ ((List.range (nNewLength + 1)).map fresh).drop (t ++ 0 :: rest).length,
          ?_, rfl, ?_, hlt⟩
        · rw [List.append_assoc, List.cons_append]
        · rw [List.length_append, List.length_drop, hlength, hvalue]
          omega
  · cases s with
    | null => exact absurd (Nat.succ_pos k) hsmall
    | block length capacity value =>
      obtain ⟨-, -, rfl, -⟩ := h.sized
      have hcap : ¬capacity < k + 1 := hsmall
      exact ⟨capacity, value, rfl, h, by omega⟩

/-- **What is assigned is held.** -/
theorem assign_spec (h : s.Holds t) (paData : Text) {paLen : ℕ} (hlen : paLen < 65536) :
    ∃ s', assign fresh (.memory paData) paLen s = some s' ∧
      s'.Holds (readable paData paLen) := by
  rw [assign]
  split_ifs with hzero
  · subst hzero
    rw [readable_zero]
    cases s with
    | null => exact ⟨.null, rfl, rfl⟩
    | block length capacity value =>
      obtain ⟨hvalue, hcapacity, -, -⟩ := h.sized
      obtain ⟨s', hs', hholds, -⟩ :=
        Storage.terminate_holds length hvalue hcapacity (Nat.zero_le _)
      exact ⟨s', hs', hholds⟩
  · obtain ⟨capacity, value, hreserve, hblock, hroom⟩ := reserve_spec fresh h hlen
    obtain ⟨hvalue, hcapacity, -, -⟩ := hblock.sized
    have hbytes := length_readable paData paLen
    obtain ⟨s', hs', hholds, -⟩ := Storage.write_holds t.length 0
      (readable paData paLen) hvalue hcapacity (by rw [hbytes, Nat.zero_add]; exact hroom)
    rw [hbytes, Nat.zero_add] at hs'
    rw [hreserve, Option.bind_some]
    exact ⟨s', hs', hholds⟩

/-- The object's own text, or a part of its memory. -/
theorem assign_self_spec (h : s.Holds t) {paLen : ℕ} (hlen : paLen ≤ s.getCapacity) :
    ∃ s', assign fresh .self paLen s = some s' ∧ s'.Holds (s.getValue.take paLen) := by
  cases s with
  | null =>
    obtain rfl : paLen = 0 := Nat.le_zero.mp hlen
    exact ⟨.null, rfl, rfl⟩
  | block length capacity value =>
    obtain ⟨hvalue, hcapacity, -, -⟩ := h.sized
    obtain ⟨s', hs', hholds, -⟩ :=
      Storage.terminate_holds length hvalue hcapacity hlen
    exact ⟨s', hs', hholds⟩

/-- **What is appended is held** behind the text, if 16 bits can say how long it is then. -/
theorem append_spec (h : s.Holds t) (paData : Text) {paLen : ℕ}
    (hlen : t.length + paLen < 65536) :
    ∃ s', append fresh paData paLen s = some s' ∧ s'.Holds (t ++ readable paData paLen) := by
  have hbytes := length_readable paData paLen
  rw [append]
  dsimp only
  split_ifs with hzero hroom
  · subst hzero
    rw [readable_zero, List.append_nil]
    exact ⟨s, rfl, h⟩
  · obtain ⟨capacity, value, hreserve, hblock, hle⟩ := reserve_spec fresh h hlen
    obtain ⟨hvalue, hcapacity, -, htake⟩ := hblock.sized
    obtain ⟨s', hs', hholds, -⟩ := Storage.write_holds t.length t.length
      (readable paData paLen) hvalue hcapacity (by rw [hbytes]; exact hle)
    rw [hbytes] at hs'
    rw [h.length_eq, Nat.mod_eq_of_lt hlen, hreserve, Option.bind_some]
    exact ⟨s', hs', htake ▸ hholds⟩
  · cases s with
    | null =>
      have hgap : ¬((0 : ℕ) : ℤ) - ((0 : ℕ) : ℤ) < paLen := hroom
      exact absurd (by omega) hgap
    | block length capacity value =>
      obtain ⟨hvalue, hcapacity, rfl, htake⟩ := h.sized
      have hgap : ¬(capacity : ℤ) - (t.length : ℤ) < paLen := hroom
      obtain ⟨s', hs', hholds, -⟩ := Storage.write_holds t.length t.length
        (readable paData paLen) hvalue hcapacity (by rw [hbytes]; omega)
      rw [hbytes] at hs'
      exact ⟨s', hs', htake ▸ hholds⟩

end Specs

/-! ### Unescaping in place -/

section Unescaping

variable {fuel runner nLen : ℕ} {value : List UInt8}

/-- What the loop has done to the memory where it has read a text. -/
structure Unescaped (value value' : List UInt8) (runner nLen : ℕ) (t : Text) : Prop where
  length_eq : value'.length = value.length
  behind : value'.drop (runner + t.length) = value.drop (runner + t.length)
  written : ∀ u, unescape t = some u → value'.take (nLen + u.length) = value.take nLen ++ u

/-- One round of the loop that writes. -/
theorem unescapeLoop_step {t rest : Text} (bytes : List UInt8) (taken : ℕ)
    (hvalue : value.drop runner = t ++ 0 :: rest) (htaken : taken ≤ t.length)
    (hbytes : bytes.length ≤ taken) (hwritten : nLen ≤ runner)
    (hlong : runner + t.length ≤ scmMaxStringLen)
    (hunescape : unescape t = (unescape (t.drop taken)).map (bytes ++ ·))
    (ih : ∀ {v : List UInt8} {nLen' : ℕ}, v.drop (runner + taken) = t.drop taken ++ 0 :: rest →
      nLen' ≤ runner + taken → ∃ value',
        unescapeLoop '"'.toUInt8 fuel v (runner + taken) nLen' =
            some (value', (unescape (t.drop taken)).map (nLen' + ·.length)) ∧
          Unescaped v value' (runner + taken) nLen' (t.drop taken)) :
    ∃ value',
      ((overwrite value nLen bytes).bind fun value =>
        unescapeLoop '"'.toUInt8 fuel value (runner + taken) ((nLen + bytes.length) % 65536)) =
          some (value', (unescape t).map (nLen + ·.length)) ∧
        Unescaped value value' runner nLen t := by
  rw [scmMaxStringLen] at hlong
  have hend := congrArg List.length hvalue
  rw [List.length_drop, List.length_append, List.length_cons] at hend
  obtain ⟨v, hv⟩ : ∃ v, overwrite value nLen bytes = some v :=
    ⟨_, overwrite_of_le (by omega)⟩
  have hnext : v.drop (runner + taken) = t.drop taken ++ 0 :: rest := by
    rw [drop_of_overwrite hv (by omega), ← List.drop_drop, hvalue,
      List.drop_append_of_le_length htaken]
  have hmod : (nLen + bytes.length) % 65536 = nLen + bytes.length := Nat.mod_eq_of_lt (by omega)
  obtain ⟨value', hloop, hdone⟩ := ih hnext (by omega : nLen + bytes.length ≤ runner + taken)
  have hlast : runner + taken + (t.drop taken).length = runner + t.length := by
    rw [List.length_drop]
    omega
  refine ⟨value', ?_, hdone.length_eq.trans (length_of_overwrite hv), ?_, fun w hw => ?_⟩
  · rw [hv, Option.bind_some, hmod, hloop, hunescape, Option.map_map]
    refine congrArg (fun n => some (value', n)) (congrArg (Option.map · _) (funext fun w => ?_))
    rw [Function.comp_apply, List.length_append, Nat.add_assoc]
  · rw [← hlast, hdone.behind, drop_of_overwrite hv (by omega)]
  · rw [hunescape] at hw
    obtain ⟨w', hw', rfl⟩ := Option.map_eq_some_iff.mp hw
    rw [List.length_append, ← Nat.add_assoc, hdone.written w' hw', take_of_overwrite hv,
      List.append_assoc]

/-- Where nothing is unescaped, nothing has been written. -/
theorem Unescaped.refl {t : Text} (h : ∀ u, unescape t = some u → u = []) :
    Unescaped value value runner nLen t := by
  refine ⟨rfl, rfl, fun u hu => ?_⟩
  rw [h u hu, List.append_nil]
  rfl

/-- The character that is read. -/
theorem getElem?_of_drop {c : UInt8} {s : List UInt8} (h : value.drop runner = c :: s) :
    value[runner]? = some c ∧ value.drop (runner + 1) = s := by
  refine ⟨?_, ?_⟩
  · rw [← List.head?_drop, h]
    rfl
  · rw [← List.drop_drop, h]
    rfl

/-- The loop does not end at a character that is no zero: less has been written than there is. -/
theorem goes_on {c : UInt8} {s : Text} (hc : c ≠ 0) (hwritten : nLen ≤ runner)
    (hlong : runner + (c :: s).length ≤ scmMaxStringLen) :
    ¬(c = 0 ∨ nLen = scmMaxStringLen) := by
  rw [List.length_cons] at hlong
  rintro (h | h)
  · exact hc h
  · omega

/-- **Unescaping in place**: what has been written is what the text in front of the terminator is
unescaped to, and never reaches behind what has been read. -/
theorem unescapeLoop_eq (fuel nLen : ℕ) (t : Text) {rest : Text}
    (hvalue : value.drop runner = t ++ 0 :: rest)
    (hwritten : nLen ≤ runner) (hlong : runner + t.length ≤ scmMaxStringLen)
    (hfuel : t.length < fuel) :
    ∃ value', unescapeLoop '"'.toUInt8 fuel value runner nLen =
        some (value', (unescape t).map (nLen + ·.length)) ∧
      Unescaped value value' runner nLen t := by
  induction t using unescape_induction generalizing fuel value runner nLen with
  | nil =>
    obtain ⟨fuel, rfl⟩ := Nat.exists_eq_succ_of_ne_zero (by omega : fuel ≠ 0)
    obtain ⟨hread, -⟩ := getElem?_of_drop hvalue
    refine ⟨value, ?_, Unescaped.refl fun u hu => ?_⟩
    · rw [unescapeLoop, hread, unescape_nil]
      exact if_pos (.inl rfl)
    · rw [unescape_nil] at hu
      exact (Option.some.inj hu).symm
  | stop c s hstop =>
    obtain ⟨fuel, rfl⟩ := Nat.exists_eq_succ_of_ne_zero (by omega : fuel ≠ 0)
    obtain ⟨hread, -⟩ := getElem?_of_drop hvalue
    have hunescape := unescape_stop hstop s
    refine ⟨value, ?_, Unescaped.refl fun u hu => ?_⟩
    · rw [unescapeLoop, hread, hunescape]
      dsimp only
      by_cases hnul : c = 0
      · exact if_pos (.inl hnul)
      · have hquote : c = '"'.toUInt8 := hstop.resolve_left hnul
        have hdollar : ¬c = '$'.toUInt8 := fun h => absurd (h.symm.trans hquote) (by decide)
        rw [if_neg (goes_on hnul hwritten hlong), if_neg hdollar, if_pos hquote]
        rfl
    · rw [hunescape] at hu
      exact (Option.some.inj hu).symm
  | dollarEnd s hfirst =>
    obtain ⟨fuel, rfl⟩ := Nat.exists_eq_succ_of_ne_zero (by omega : fuel ≠ 0)
    obtain ⟨hread, hnext⟩ := getElem?_of_drop (s := s ++ 0 :: rest) hvalue
    have hunescape := unescape_dollar_end hfirst
    have hat := (at_append_zero s rest 0 (Nat.zero_le _)).trans hfirst
    refine ⟨value, ?_, Unescaped.refl fun u hu => ?_⟩
    · rw [unescapeLoop, hread, hunescape]
      dsimp only
      rw [if_neg (goes_on (by decide) hwritten hlong), if_pos rfl, hnext, if_pos hat]
      rfl
    · rw [hunescape] at hu
      exact (Option.some.inj hu).symm
  | refused s hfirst hescape =>
    obtain ⟨fuel, rfl⟩ := Nat.exists_eq_succ_of_ne_zero (by omega : fuel ≠ 0)
    obtain ⟨hread, hnext⟩ := getElem?_of_drop (s := s ++ 0 :: rest) hvalue
    have hunescape := unescape_refused hfirst hescape
    have hat : ¬Text.at (s ++ 0 :: rest) 0 = 0 := by
      rwa [at_append_zero s rest 0 (Nat.zero_le _)]
    have hhandle := (handleDollarEscapedChar_append_zero true s rest).trans hescape
    refine ⟨value, ?_, Unescaped.refl fun u hu => ?_⟩
    · rw [unescapeLoop, hread, hunescape]
      dsimp only
      rw [if_neg (goes_on (by decide) hwritten hlong), if_pos rfl, hnext, if_neg hat,
        decide_eq_true rfl, hhandle]
      rfl
    · rw [hunescape] at hu
      cases hu
  | escape s used nValue hfirst hescape ih =>
    obtain ⟨fuel, rfl⟩ := Nat.exists_eq_succ_of_ne_zero (by omega : fuel ≠ 0)
    obtain ⟨hread, hnext⟩ := getElem?_of_drop (s := s ++ 0 :: rest) hvalue
    obtain ⟨hpos, hused, hnValue, hbytes⟩ := escape_shrinks hescape
    have hat : ¬Text.at (s ++ 0 :: rest) 0 = 0 := by
      rwa [at_append_zero s rest 0 (Nat.zero_le _)]
    have hhandle := (handleDollarEscapedChar_append_zero true s rest).trans hescape
    have hencode : encodeUTF8Into 3 nValue = some (utf8Of nValue) := by
      rw [encodeUTF8Into_of_lt (by omega)]
      refine if_pos ?_
      rw [utf8Of, encodeUTF8Codepoint]
      split_ifs
      all_goals exact Nat.le_of_ble_eq_true rfl
    rw [unescapeLoop, hread]
    dsimp only
    rw [if_neg (goes_on (by decide) hwritten hlong), if_pos rfl, hnext, if_neg hat,
      decide_eq_true rfl, hhandle]
    dsimp only
    rw [if_pos rfl, hencode]
    dsimp only
    rw [Nat.add_assoc runner 1 used]
    refine unescapeLoop_step _ (1 + used) hvalue ?_ (by omega) hwritten hlong ?_ ?_
    · rw [List.length_cons]
      omega
    · rw [unescape_escape hescape, Nat.add_comm 1 used, List.drop_succ_cons]
    · intro v nLen' hv hnLen'
      rw [Nat.add_comm 1 used, List.drop_succ_cons] at hv ⊢
      rw [List.length_cons] at hlong hfuel
      refine ih _ _ hv (by omega) ?_ ?_
      · rw [List.length_drop]
        omega
      · rw [List.length_drop]
        omega
  | plain c s hstop hdollar ih =>
    obtain ⟨fuel, rfl⟩ := Nat.exists_eq_succ_of_ne_zero (by omega : fuel ≠ 0)
    obtain ⟨hread, hnext⟩ := getElem?_of_drop (s := s ++ 0 :: rest) hvalue
    obtain ⟨hnul, hquote⟩ := not_or.mp hstop
    rw [unescapeLoop, hread]
    dsimp only
    rw [if_neg (goes_on hnul hwritten hlong), if_neg hdollar, if_neg hquote]
    refine unescapeLoop_step [c] 1 hvalue ?_ le_rfl hwritten hlong ?_ ?_
    · rw [List.length_cons]
      omega
    · exact unescape_plain hstop hdollar s
    · intro v nLen' hv hnLen'
      rw [List.length_cons] at hlong hfuel
      exact ih _ _ hv hnLen' (by omega) (by omega)

/-- A literal without its opening quote. -/
def behindQuote (t : Text) : Text := if t.at 0 = '"'.toUInt8 then t.drop 1 else t

/-- **What is held behind `unescapeFromString`**: what the text is unescaped to, and where an
escape is refused some text that is no longer. -/
theorem unescapeFromString_spec {s : Storage} {t : Text} (h : s.Holds t)
    (hlong : t.length ≤ scmMaxStringLen) :
    ∃ s' t', unescapeFromString '"'.toUInt8 s =
        some ((unescape (behindQuote t)).isSome, s') ∧
      s'.Holds t' ∧ t'.length ≤ t.length ∧ ∀ u, unescape (behindQuote t) = some u → t' = u := by
  cases s with
  | null =>
    cases h
    have hnil : unescape (behindQuote []) = some [] := unescape_nil
    rw [hnil]
    exact ⟨.null, [], rfl, rfl, le_rfl, fun u hu => Option.some.inj hu⟩
  | block length capacity value =>
    obtain ⟨hvalue, hcapacity, hlength, -⟩ := h.sized
    obtain ⟨rest, rfl, -, hcap, -⟩ := h
    -- the loop begins behind the opening quote, if there is one
    obtain ⟨first, hfirst, hbody, hdrop⟩ : ∃ first,
        (if Text.at (t ++ 0 :: rest) 0 = '"'.toUInt8 then 1 else 0) = first ∧
          first + (behindQuote t).length = t.length ∧
            (t ++ 0 :: rest).drop first = behindQuote t ++ 0 :: rest := by
      rw [at_append_zero t rest 0 (Nat.zero_le _), behindQuote]
      split_ifs with hquote
      · cases t with
        | nil => exact absurd hquote (by decide)
        | cons c t =>
          refine ⟨1, rfl, ?_, rfl⟩
          rw [List.drop_one, List.tail_cons, List.length_cons]
          omega
      · exact ⟨0, rfl, Nat.zero_add _, rfl⟩
    obtain ⟨value', hloop, hdone⟩ := unescapeLoop_eq ((t ++ 0 :: rest).length + 1) 0
      (behindQuote t) hdrop (Nat.zero_le _) (by omega) (by rw [hvalue]; omega)
    have hvalue' : value'.length = capacity + 1 := hdone.length_eq.trans hvalue
    have hread : unescapeFromString '"'.toUInt8 (.block length capacity (t ++ 0 :: rest)) =
        (match (unescape (behindQuote t)).map (0 + ·.length) with
        | none => some (false, .block length capacity value')
        | some nLen =>
          ((Storage.block length capacity value').terminate nLen nLen).map (true, ·)) := by
      change (unescapeLoop '"'.toUInt8 ((t ++ 0 :: rest).length + 1) (t ++ 0 :: rest)
        (if Text.at (t ++ 0 :: rest) 0 = '"'.toUInt8 then 1 else 0) 0).bind _ = _
      rw [hfirst, hloop]
      rfl
    rw [hread]
    cases hunescape : unescape (behindQuote t) with
    | none =>
      have hbehind := hdone.behind
      rw [hbody, List.drop_left] at hbehind
      refine ⟨_, value'.take t.length, rfl, ⟨rest, ?_, ?_, ?_, hcapacity⟩, ?_, ?_⟩
      · nth_rewrite 1 [← List.take_append_drop t.length value']
        rw [hbehind]
      · rw [hlength, List.length_take, min_eq_left (by omega)]
      · rw [hcap, List.length_take, min_eq_left (by omega)]
      · exact List.length_take_le _ _
      · exact fun u hu => absurd hu nofun
    | some u =>
      have hu := length_unescape_le hunescape
      have hwritten := hdone.written u hunescape
      rw [Nat.zero_add, List.take_zero, List.nil_append] at hwritten
      obtain ⟨s', hs', hholds, -⟩ := Storage.terminate_holds length (k := u.length) hvalue'
        hcapacity (by omega)
      refine ⟨s', u, ?_, hwritten ▸ hholds, by omega, fun v hv => Option.some.inj hv⟩
      rw [Option.map_some, Nat.zero_add]
      dsimp only
      rw [hs']
      rfl

end Unescaping

end Forte.AnyString
