import Forte.Lib.CString
import Forte.Management.Identifiers

/-!
# Names of generic ports

The ports of a configured generic function block get their names from a prefix and the numbers
from one on. The digits of a name are written over those of the one before, in a buffer of the
size of an identifier, and only the places that change.

There are places for three digits: up to 999 the buffer holds the name of each port, and behind
it zeros (`Forte.GenericNames.Holds`), so that the names are right. The thousandth port is `:00`
and not `1000` (`Forte.GenericNames.generates_iff`).
-/

namespace Forte

namespace GenericNames

/-- `cgIdentifierLength`. -/
def cgIdentifierLength : ℕ := 32

/-- A `TIdentifier`. -/
abbrev TIdentifier := {acBuffer : Text // acBuffer.length = cgIdentifierLength + 1}

/-- A C string, without the terminator. -/
abbrev Prefix := {paPrefix : Text // (0 : UInt8) ∉ paPrefix}

/-- The loop that counts the digits. -/
def noOfDigits : ℕ → ℕ
  | 0 => 0
  | tempNum + 1 => noOfDigits ((tempNum + 1) / 10) + 1
decreasing_by omega

/-- What a round of the loop writes to the buffer. -/
def writeDigits (len i : ℕ) : Mem UInt8 Unit :=
  if i < 10 then Mem.write len (UInt8.ofNat (0x30 + i))
  else if i < 100 then do
    if i % 10 = 0 then Mem.write len (UInt8.ofNat (0x30 + i % 100 / 10))
    Mem.write (len + 1) (UInt8.ofNat (0x30 + i % 10))
  else do
    if i % 100 = 0 then Mem.write len (UInt8.ofNat (0x30 + i / 100))
    if i % 10 = 0 then Mem.write (len + 1) (UInt8.ofNat (0x30 + i % 100 / 10))
    Mem.write (len + 2) (UInt8.ofNat (0x30 + i % 10))

/-- The rounds that are left from `i` on, with the names they append. -/
def rounds (len : ℕ) : ℕ → ℕ → Mem UInt8 (List StringId)
  | 0, _ => pure []
  | left + 1, i => do
    writeDigits len i
    let name ← Mem.scan (CString.string 0) 0
    let names ← rounds len left (i + 1)
    pure (StringId.insert name :: names)

/-- `generateGenericInterfacePointNameArray`, with what the buffer holds at first; nothing if it
leaves the buffer. -/
def generateGenericInterfacePointNameArray (acBuffer : TIdentifier) (paPrefix : Prefix)
    (paNamesArayStart : List StringId) (paNumGenericDataPoints : ℕ) : Option (List StringId) :=
  let len := paPrefix.val.length
  let digits := noOfDigits paNumGenericDataPoints
  if len + digits ≤ cgIdentifierLength then
    let acBuffer := paPrefix.val ++ List.replicate (digits + 1) 0 ++
      acBuffer.val.drop (len + digits + 1)
    ((rounds len paNumGenericDataPoints 1).run acBuffer).map fun result =>
      paNamesArayStart ++ result.1
  else some paNamesArayStart

/-! ### What the names should be -/

/-- The name of the `i`-th port. -/
def portName (paPrefix : Text) (i : ℕ) : StringId := StringId.insert (paPrefix ++ decimalDigits i)

/-- The names of the ports from `i` on. -/
def portNames (paPrefix : Text) (count i : ℕ) : List StringId :=
  (List.range' i count).map (portName paPrefix)

/-- All names fit an identifier. -/
def Fits (paPrefix : Text) (n : ℕ) : Prop :=
  ∀ i, 0 < i → i ≤ n → (paPrefix ++ decimalDigits i).length ≤ cgIdentifierLength

/-- **The names are appended**, all different, or none if one is too long. -/
def Meets (acBuffer : TIdentifier) (paPrefix : Prefix) (paNamesArayStart : List StringId) (n : ℕ) :
    Prop :=
  ∃ appended : List StringId,
    generateGenericInterfacePointNameArray acBuffer paPrefix paNamesArayStart n =
      some (paNamesArayStart ++ appended) ∧
    (Fits paPrefix n → appended = portNames paPrefix n 1) ∧ (¬Fits paPrefix n → appended = []) ∧
    appended.Nodup

/-! ### Digits -/

theorem digitChar_eq (d : ℕ) : digitChar d = UInt8.ofNat (0x30 + d) := by
  rw [digitChar, Nat.add_comm, UInt8.ofNat_add]
  rfl

/-- The digits of a number are read back. -/
theorem decimalDigits_injective : Function.Injective decimalDigits := by
  have hdigit : ∀ d < 10, (digitChar d - '0'.toUInt8).toNat = d := by decide
  have hread (i : ℕ) : (decimalDigits i).map (fun c => (c - '0'.toUInt8).toNat) =
      Places.digits 10 i := by
    rw [decimalDigits, List.map_map]
    refine (List.map_congr_left fun d hd => ?_).trans (List.map_id _)
    exact hdigit d (Places.lt_of_mem_digits (by omega) hd)
  intro i j heq
  have hsame := (hread i).symm.trans ((congrArg _ heq).trans (hread j))
  rw [← Places.foldl_digits (b := 10) i, hsame, Places.foldl_digits]

theorem portName_injective (paPrefix : Text) : Function.Injective (portName paPrefix) := by
  intro i j heq
  have htext := congrArg text heq
  rw [portName, portName, text_insert, text_insert, List.append_cancel_left_eq] at htext
  exact decimalDigits_injective htext

theorem nodup_portNames (paPrefix : Text) (n i : ℕ) : (portNames paPrefix n i).Nodup :=
  (List.nodup_range').map (portName_injective paPrefix)

theorem noOfDigits_eq (n : ℕ) : noOfDigits n = (Nat.digits 10 n).length := by
  fun_induction noOfDigits n with
  | case1 => rfl
  | case2 tempNum ih => rw [Nat.digits_def' (by omega) (Nat.succ_pos tempNum), List.length_cons, ih]

theorem length_decimalDigits {i : ℕ} (h : 0 < i) :
    (decimalDigits i).length = noOfDigits i := by
  rw [decimalDigits, List.length_map, Places.digits, if_neg h.ne', List.length_reverse,
    noOfDigits_eq]

theorem fits_iff {paPrefix : Text} {n : ℕ} (h : 0 < n) :
    Fits paPrefix n ↔ paPrefix.length + noOfDigits n ≤ cgIdentifierLength := by
  constructor
  · intro hfits
    have hlength := hfits n h (le_refl n)
    rwa [List.length_append, length_decimalDigits h] at hlength
  · intro hle i hpos hi
    have hdigits := Nat.le_length_digits_le 10 i n hi
    rw [List.length_append, length_decimalDigits hpos]
    rw [noOfDigits_eq] at hle ⊢
    omega

theorem decimalDigits_of_lt_ten {i : ℕ} (h : i < 10) :
    decimalDigits i = [UInt8.ofNat (0x30 + i)] := by
  rw [decimalDigits, Places.digits, ← digitChar_eq]
  split
  · rename_i hzero
    rw [hzero]
    rfl
  · rename_i hne
    rw [Nat.digits_of_lt 10 i hne h]
    rfl

/-- The last digit stands behind the others. -/
theorem decimalDigits_of_ten_le {i : ℕ} (h : 10 ≤ i) :
    decimalDigits i = decimalDigits (i / 10) ++ [UInt8.ofNat (0x30 + i % 10)] := by
  have hten : i / 10 ≠ 0 := (Nat.div_pos h (by omega)).ne'
  rw [decimalDigits, Places.digits, if_neg (by omega), Nat.digits_def' (by omega) (by omega),
    List.reverse_cons, List.map_append, decimalDigits, Places.digits, if_neg hten, ← digitChar_eq]
  rfl

theorem decimalDigits_of_lt_hundred {i : ℕ} (hle : 10 ≤ i) (h : i < 100) :
    decimalDigits i = [UInt8.ofNat (0x30 + i / 10), UInt8.ofNat (0x30 + i % 10)] := by
  rw [decimalDigits_of_ten_le hle, decimalDigits_of_lt_ten (by omega)]
  rfl

theorem decimalDigits_of_lt_thousand {i : ℕ} (hle : 100 ≤ i) (h : i < 1000) :
    decimalDigits i = [UInt8.ofNat (0x30 + i / 100), UInt8.ofNat (0x30 + i % 100 / 10),
      UInt8.ofNat (0x30 + i % 10)] := by
  have hhundred : i / 10 / 10 = i / 100 := by omega
  have hten : i / 10 % 10 = i % 100 / 10 := by omega
  rw [decimalDigits_of_ten_le (by omega), decimalDigits_of_lt_hundred (by omega) (by omega),
    hhundred, hten]
  rfl

theorem zero_notMem_decimalDigits (i : ℕ) : (0 : UInt8) ∉ decimalDigits i := by
  have hdigit : ∀ d < 10, digitChar d ≠ 0 := by decide
  intro hmem
  obtain ⟨d, hd, heq⟩ := List.mem_map.mp hmem
  exact hdigit d (Places.lt_of_mem_digits (by omega) hd) heq

/-! ### The buffer -/

/-- The name that is in the buffer behind the prefix, nothing at first. -/
def shown (i : ℕ) : Text := if i = 0 then [] else decimalDigits i

/-- **What the buffer holds** after the `i`-th round, with places for so many digits: the prefix
and the number, and zeros up to behind the places. -/
def Holds (paPrefix : Text) (digits i : ℕ) (acBuffer : Text) : Prop :=
  ∃ zeros junk, acBuffer = paPrefix ++ (shown i ++ (List.replicate (zeros + 1) 0 ++ junk)) ∧
    (shown i).length + zeros = digits

theorem run_write_append (u : Text) {t : Text} {k : ℕ} (h : k < t.length) (c : UInt8) :
    (Mem.write (u.length + k) c).run (u ++ t) = some ((), u ++ t.set k c) := by
  rw [Mem.run_write (by rw [List.length_append]; omega), List.set_append_right _ _ (by omega),
    Nat.add_sub_cancel_left]

/-- The name is read up to the zeros. -/
theorem Holds.string {u : Text} (hu : (0 : UInt8) ∉ u) {digits i : ℕ} {m : Text}
    (h : Holds u digits i m) (hi : 0 < i) :
    CString.string 0 m = some (u ++ decimalDigits i) := by
  obtain ⟨zeros, junk, rfl, -⟩ := h
  rw [shown, if_neg hi.ne', List.replicate_succ, List.cons_append, ← List.append_assoc]
  refine CString.string_append_cons ?_ _
  rw [List.mem_append, not_or]
  exact ⟨hu, zero_notMem_decimalDigits i⟩

section

variable (u t : Text) {x y z : UInt8} {i : ℕ}

theorem run_write_cons (c : UInt8) :
    (Mem.write u.length c).run (u ++ x :: t) = some ((), u ++ c :: t) :=
  run_write_append u (t := x :: t) (k := 0) (Nat.succ_pos t.length) c

/-- A round with one digit. -/
theorem run_writeDigits_of_lt_ten (h : i < 10) :
    (writeDigits u.length i).run (u ++ x :: t) = some ((), u ++ (decimalDigits i ++ t)) := by
  rw [writeDigits, if_pos h, decimalDigits_of_lt_ten h]
  exact run_write_cons u t _

/-- A round with two digits, the first of which is in its place unless it changes. -/
theorem run_writeDigits_of_lt_hundred (hle : 10 ≤ i) (h : i < 100)
    (hx : i % 10 ≠ 0 → x = UInt8.ofNat (0x30 + i / 10)) :
    (writeDigits u.length i).run (u ++ x :: y :: t) =
      some ((), u ++ (decimalDigits i ++ t)) := by
  have hsecond (x : UInt8) : (Mem.write (u.length + 1) (UInt8.ofNat (0x30 + i % 10))).run
      (u ++ x :: y :: t) = some ((), u ++ x :: UInt8.ofNat (0x30 + i % 10) :: t) :=
    run_write_append u (k := 1) (by simp) _
  rw [writeDigits, if_neg (by omega), if_pos h, decimalDigits_of_lt_hundred hle h]
  by_cases hten : i % 10 = 0
  · rw [if_pos hten, Mem.run_bind_of_eq_some (run_write_cons u _ _), hsecond, Nat.mod_eq_of_lt h]
    rfl
  · rw [if_neg hten, hx hten]
    exact hsecond _

/-- A round with three digits, or with more of them. -/
theorem run_writeDigits_of_hundred_le (hle : 100 ≤ i)
    (hx : i % 100 ≠ 0 → x = UInt8.ofNat (0x30 + i / 100))
    (hy : i % 10 ≠ 0 → y = UInt8.ofNat (0x30 + i % 100 / 10)) :
    (writeDigits u.length i).run (u ++ x :: y :: z :: t) =
      some ((), u ++ ([UInt8.ofNat (0x30 + i / 100), UInt8.ofNat (0x30 + i % 100 / 10),
        UInt8.ofNat (0x30 + i % 10)] ++ t)) := by
  have hsecond (x : UInt8) : (Mem.write (u.length + 1) (UInt8.ofNat (0x30 + i % 100 / 10))).run
      (u ++ x :: y :: z :: t) = some ((), u ++ x :: UInt8.ofNat (0x30 + i % 100 / 10) :: z :: t) :=
    run_write_append u (k := 1) (by simp) _
  have hthird (x y : UInt8) : (Mem.write (u.length + 2) (UInt8.ofNat (0x30 + i % 10))).run
      (u ++ x :: y :: z :: t) = some ((), u ++ x :: y :: UInt8.ofNat (0x30 + i % 10) :: t) :=
    run_write_append u (k := 2) (by simp) _
  rw [writeDigits, if_neg (by omega), if_neg (by omega)]
  -- a digit that is not written has to be there already, which is what the hypotheses say
  by_cases hhundred : i % 100 = 0
  · have hten : i % 10 = 0 := by omega
    rw [if_pos hhundred, Mem.run_bind_of_eq_some (run_write_cons u _ _), if_pos hten,
      Mem.run_bind_of_eq_some (hsecond _), hthird]
    rfl
  · rw [if_neg hhundred, hx hhundred]
    by_cases hten : i % 10 = 0
    · rw [if_pos hten, Mem.run_bind_of_eq_some (hsecond _), hthird]
      rfl
    · rw [if_neg hten, hy hten]
      exact hthird _ _

end

theorem shown_of_pos {i : ℕ} (h : 0 < i) : shown i = decimalDigits i := if_neg h.ne'

theorem holds_of_pos {u : Text} {digits i zeros : ℕ} (hpos : 0 < i) (junk : Text)
    (hdigits : (decimalDigits i).length + zeros = digits) :
    Holds u digits i (u ++ (decimalDigits i ++ (List.replicate (zeros + 1) 0 ++ junk))) :=
  ⟨zeros, junk, by rw [shown_of_pos hpos], by rwa [shown_of_pos hpos]⟩

/-- A number with one digit more is written over one of the zeros. -/
theorem exists_zero_left {shown new zeros digits : ℕ} (hdigits : shown + zeros = digits)
    (hnew : new = shown + 1) (hfits : new ≤ digits) :
    ∃ rest, zeros = rest + 1 ∧ new + rest = digits :=
  ⟨zeros - 1, by omega, by omega⟩

theorem Holds.writeDigits_of_lt_ten {u : Text} {digits i : ℕ} {m : Text} (h : Holds u digits i m)
    (hi : i + 1 < 10) (hfits : (decimalDigits (i + 1)).length ≤ digits) :
    ∃ m', (GenericNames.writeDigits u.length (i + 1)).run m = some ((), m') ∧
      Holds u digits (i + 1) m' := by
  obtain ⟨zeros, junk, rfl, hdigits⟩ := h
  have hnew := decimalDigits_of_lt_ten hi
  rcases Nat.eq_zero_or_pos i with rfl | hpos
  · -- the first digit of all
    have hlength : (decimalDigits (0 + 1)).length = (shown 0).length + 1 := by
      rw [hnew]
      rfl
    obtain ⟨rest, rfl, hrest⟩ := exists_zero_left hdigits hlength hfits
    exact ⟨_, run_writeDigits_of_lt_ten u _ hi, holds_of_pos (Nat.succ_pos _) junk hrest⟩
  · rw [shown_of_pos hpos, decimalDigits_of_lt_ten (by omega)] at hdigits ⊢
    refine ⟨_, run_writeDigits_of_lt_ten u _ hi, holds_of_pos (Nat.succ_pos _) junk ?_⟩
    rwa [hnew]

theorem Holds.writeDigits_of_lt_hundred {u : Text} {digits i : ℕ} {m : Text}
    (h : Holds u digits i m) (hle : 10 ≤ i + 1) (hi : i + 1 < 100)
    (hfits : (decimalDigits (i + 1)).length ≤ digits) :
    ∃ m', (GenericNames.writeDigits u.length (i + 1)).run m = some ((), m') ∧
      Holds u digits (i + 1) m' := by
  obtain ⟨zeros, junk, rfl, hdigits⟩ := h
  have hnew := decimalDigits_of_lt_hundred hle hi
  rw [shown_of_pos (by omega)] at hdigits ⊢
  rcases Nat.lt_or_ge i 10 with hless | hmore
  · -- from 9 to 10
    rw [decimalDigits_of_lt_ten hless] at hdigits ⊢
    have hlength : (decimalDigits (i + 1)).length = 1 + 1 := by
      rw [hnew]
      rfl
    obtain ⟨rest, rfl, hrest⟩ := exists_zero_left hdigits hlength hfits
    exact ⟨_, run_writeDigits_of_lt_hundred u _ hle hi (fun hne => by omega),
      holds_of_pos (Nat.succ_pos _) junk hrest⟩
  · -- the first digit stays, unless the second one is a zero again
    rw [decimalDigits_of_lt_hundred hmore (by omega)] at hdigits ⊢
    refine ⟨_, run_writeDigits_of_lt_hundred u _ hle hi (fun hne => ?_),
      holds_of_pos (Nat.succ_pos _) junk ?_⟩
    · rw [show (i + 1) / 10 = i / 10 by omega]
    · rwa [hnew]

theorem Holds.writeDigits_of_lt_thousand {u : Text} {digits i : ℕ} {m : Text}
    (h : Holds u digits i m) (hle : 100 ≤ i + 1) (hi : i + 1 < 1000)
    (hfits : (decimalDigits (i + 1)).length ≤ digits) :
    ∃ m', (GenericNames.writeDigits u.length (i + 1)).run m = some ((), m') ∧
      Holds u digits (i + 1) m' := by
  obtain ⟨zeros, junk, rfl, hdigits⟩ := h
  have hnew := decimalDigits_of_lt_thousand hle hi
  rw [shown_of_pos (by omega)] at hdigits ⊢
  have hround {x y z : UInt8} (t : Text)
      (hx : (i + 1) % 100 ≠ 0 → x = UInt8.ofNat (0x30 + (i + 1) / 100))
      (hy : (i + 1) % 10 ≠ 0 → y = UInt8.ofNat (0x30 + (i + 1) % 100 / 10)) :
      (GenericNames.writeDigits u.length (i + 1)).run (u ++ x :: y :: z :: t) =
        some ((), u ++ (decimalDigits (i + 1) ++ t)) := by
    rw [run_writeDigits_of_hundred_le u t hle hx hy, hnew]
  rcases Nat.lt_or_ge i 100 with hless | hmore
  · -- from 99 to 100
    rw [decimalDigits_of_lt_hundred (by omega) hless] at hdigits ⊢
    have hlength : (decimalDigits (i + 1)).length = 2 + 1 := by
      rw [hnew]
      rfl
    obtain ⟨rest, rfl, hrest⟩ := exists_zero_left hdigits hlength hfits
    exact ⟨_, hround _ (fun hne => by omega) (fun hne => by omega),
      holds_of_pos (Nat.succ_pos _) junk hrest⟩
  · -- the digits that stay are those of the number before
    rw [decimalDigits_of_lt_thousand hmore (by omega)] at hdigits ⊢
    refine ⟨_, hround _ (fun hne => ?_) (fun hne => ?_), holds_of_pos (Nat.succ_pos _) junk ?_⟩
    · rw [show (i + 1) / 100 = i / 100 by omega]
    · rw [show (i + 1) % 100 / 10 = i % 100 / 10 by omega]
    · rwa [hnew]

/-- **A round**, as long as there are not more than three digits. -/
theorem Holds.writeDigits {u : Text} {digits i : ℕ} {m : Text} (h : Holds u digits i m)
    (hi : i + 1 < 1000) (hfits : (decimalDigits (i + 1)).length ≤ digits) :
    ∃ m', (writeDigits u.length (i + 1)).run m = some ((), m') ∧ Holds u digits (i + 1) m' := by
  rcases Nat.lt_or_ge (i + 1) 10 with hten | hten
  · exact h.writeDigits_of_lt_ten hten hfits
  rcases Nat.lt_or_ge (i + 1) 100 with hhundred | hhundred
  · exact h.writeDigits_of_lt_hundred hten hhundred hfits
  · exact h.writeDigits_of_lt_thousand hhundred hi hfits

/-! ### The rounds -/

/-- **Up to 999** the rounds append the names. -/
theorem Holds.rounds {u : Text} (hu : (0 : UInt8) ∉ u) {digits i : ℕ} {m : Text}
    (h : Holds u digits i m) (left : ℕ) (hi : i + left < 1000)
    (hfits : ∀ k ≤ i + left, 0 < k → (decimalDigits k).length ≤ digits) :
    ∃ m', (rounds u.length left (i + 1)).run m = some (portNames u left (i + 1), m') ∧
      Holds u digits (i + left) m' := by
  induction left generalizing i m with
  | zero => exact ⟨m, rfl, h⟩
  | succ left ih =>
    obtain ⟨m₁, hwrite, h₁⟩ := h.writeDigits (by omega) (hfits (i + 1) (by omega) (by omega))
    obtain ⟨m₂, hrounds, h₂⟩ := ih h₁ (by omega) fun k hk => hfits k (by omega)
    refine ⟨m₂, ?_, by rwa [Nat.add_right_comm, Nat.add_assoc] at h₂⟩
    rw [GenericNames.rounds, Mem.run_bind_of_eq_some hwrite,
      Mem.run_scan_zero_bind (h₁.string hu (Nat.succ_pos i)), Mem.run_bind_of_eq_some hrounds,
      portNames, portNames, List.range'_succ, List.map_cons]
    rfl

/-- The name of the thousandth port. -/
theorem Holds.thousandth {u : Text} (hu : (0 : UInt8) ∉ u) {digits : ℕ} {m : Text}
    (h : Holds u digits 999 m) :
    ∃ m', (GenericNames.writeDigits u.length 1000).run m = some ((), m') ∧
      CString.string 0 m' = some (u ++ text ":00") := by
  obtain ⟨zeros, junk, rfl, -⟩ := h
  rw [shown_of_pos (by omega), decimalDigits_of_lt_thousand (by omega) (by omega)]
  refine ⟨u ++ (text ":00" ++ 0 :: (List.replicate zeros 0 ++ junk)), ?_, ?_⟩
  · exact run_writeDigits_of_hundred_le u _ (by omega) (fun hne => by omega)
      (fun hne => by omega)
  · rw [← List.append_assoc]
    refine CString.string_append_cons ?_ _
    rw [List.mem_append, not_or]
    exact ⟨hu, by decide⟩

/-- **Behind 999** the rounds go on with another name. -/
theorem Holds.rounds_of_thousand_le {u : Text} (hu : (0 : UInt8) ∉ u) {digits left i : ℕ}
    {m m' : Text} {names : List StringId} (h : Holds u digits i m) (hi : i < 1000)
    (hleft : 1000 ≤ i + left) (hfits : ∀ k ≤ i + left, 0 < k → (decimalDigits k).length ≤ digits)
    (hrun : (GenericNames.rounds u.length left (i + 1)).run m = some (names, m')) :
    names[999 - i]? = some (StringId.insert (u ++ text ":00")) := by
  induction left generalizing i m names with
  | zero => omega
  | succ left ih =>
    rw [GenericNames.rounds] at hrun
    rcases Nat.lt_or_ge (i + 1) 1000 with hless | hmore
    · obtain ⟨m₁, hwrite, h₁⟩ := h.writeDigits hless (hfits (i + 1) (by omega) (by omega))
      rw [Mem.run_bind_of_eq_some hwrite,
        Mem.run_scan_zero_bind (h₁.string hu (Nat.succ_pos i)), StateT.run_bind] at hrun
      obtain ⟨⟨names', m₂⟩, hrest, hnames⟩ := Option.bind_eq_some_iff.mp hrun
      obtain ⟨rfl, rfl⟩ := Prod.mk.inj (Option.some.inj hnames)
      rw [show 999 - i = 999 - (i + 1) + 1 by omega, List.getElem?_cons_succ]
      exact ih h₁ hless (by omega) (fun k hk => hfits k (by omega)) hrest
    · obtain rfl : i = 999 := by omega
      obtain ⟨m₁, hwrite, hname⟩ := h.thousandth hu
      rw [Mem.run_bind_of_eq_some hwrite, Mem.run_scan_zero_bind hname, StateT.run_bind] at hrun
      obtain ⟨⟨names', m₂⟩, -, hnames⟩ := Option.bind_eq_some_iff.mp hrun
      obtain ⟨rfl, rfl⟩ := Prod.mk.inj (Option.some.inj hnames)
      rfl

/-! ### The names -/

variable {acBuffer : TIdentifier} {paPrefix : Prefix} {paNamesArayStart : List StringId} {n : ℕ}

/-- A prefix that is too long gets no names. -/
theorem meets_of_not_fits (h : ¬Fits paPrefix n) : Meets acBuffer paPrefix paNamesArayStart n := by
  have hpos : 0 < n := by
    by_contra hzero
    exact h fun i hi hle => absurd hle (by omega)
  refine ⟨[], ?_, fun hfits => absurd hfits h, fun _ => rfl, List.nodup_nil⟩
  rw [fits_iff hpos] at h
  rw [generateGenericInterfacePointNameArray, if_neg h, List.append_nil]

/-- The buffer before the first round. -/
theorem holds_zero (u junk : Text) (digits : ℕ) :
    Holds u digits 0 (u ++ List.replicate (digits + 1) 0 ++ junk) :=
  ⟨digits, junk, List.append_assoc _ _ _, Nat.zero_add digits⟩

theorem length_decimalDigits_le {k : ℕ} (hpos : 0 < k) (hle : k ≤ n) :
    (decimalDigits k).length ≤ noOfDigits n := by
  rw [length_decimalDigits hpos, noOfDigits_eq, noOfDigits_eq]
  exact Nat.le_length_digits_le 10 k n hle

theorem meets_of_lt_thousand (hfits : Fits paPrefix n) (h : n < 1000) :
    Meets acBuffer paPrefix paNamesArayStart n := by
  rcases Nat.eq_zero_or_pos n with rfl | hpos
  · refine ⟨[], ?_, fun _ => rfl, fun _ => rfl, List.nodup_nil⟩
    rw [generateGenericInterfacePointNameArray, List.append_nil]
    split <;> simp [rounds]
  · obtain ⟨m', hrun, -⟩ := (holds_zero paPrefix.val
      (acBuffer.val.drop (paPrefix.val.length + noOfDigits n + 1)) (noOfDigits n)).rounds
      paPrefix.2 n (by omega) (fun k hk hk' => length_decimalDigits_le hk' (by omega))
    refine ⟨portNames paPrefix n 1, ?_, fun _ => rfl, fun hnot => absurd hfits hnot,
      nodup_portNames _ _ _⟩
    rw [generateGenericInterfacePointNameArray, if_pos ((fits_iff hpos).mp hfits)]
    exact congrArg (Option.map fun result => paNamesArayStart ++ result.1) hrun

/-- The thousandth name is another one. -/
theorem not_meets_of_thousand_le (hfits : Fits paPrefix n) (h : 1000 ≤ n) :
    ¬Meets acBuffer paPrefix paNamesArayStart n := by
  rintro ⟨appended, hrun, hnames, -⟩
  rw [generateGenericInterfacePointNameArray, if_pos ((fits_iff (by omega)).mp hfits)] at hrun
  obtain ⟨⟨names, m'⟩, hrounds, heq⟩ := Option.map_eq_some_iff.mp hrun
  obtain rfl : names = appended := List.append_cancel_left heq
  have hcode := (holds_zero paPrefix.val (acBuffer.val.drop
    (paPrefix.val.length + noOfDigits n + 1)) (noOfDigits n)).rounds_of_thousand_le paPrefix.2
    (by omega) (by omega) (fun k hk hk' => length_decimalDigits_le hk' (by omega)) hrounds
  rw [hnames hfits, portNames, List.getElem?_map, List.getElem?_range' (by omega)] at hcode
  have htext := congrArg text (Option.some.inj hcode)
  rw [portName, text_insert, text_insert, List.append_cancel_left_eq] at htext
  exact absurd htext (by decide)

/-- A thousand ports called `IN_`. -/
theorem not_generates_sample :
    ¬Meets ⟨List.replicate 33 0, rfl⟩ ⟨text "IN_", by decide⟩ [] 1000 := by
  refine not_meets_of_thousand_le ((fits_iff (by omega)).mpr ?_) (le_refl _)
  rw [noOfDigits_eq, Nat.digits_of_two_le_of_pos (by omega) (by omega)]
  simp [text, cgIdentifierLength]

/-- **The names are right** up to 999 ports, and where they do not fit an identifier. -/
theorem generates_iff (acBuffer : TIdentifier) (paPrefix : Prefix)
    (paNamesArayStart : List StringId) (n : ℕ) :
    Meets acBuffer paPrefix paNamesArayStart n ↔ n ≤ 999 ∨ ¬Fits paPrefix n := by
  by_cases hfits : Fits paPrefix n
  · rcases Nat.lt_or_ge n 1000 with hless | hmore
    · exact iff_of_true (meets_of_lt_thousand hfits hless) (.inl (by omega))
    · exact iff_of_false (not_meets_of_thousand_le hfits hmore) (by
        rintro (hle | hnot)
        · omega
        · exact hnot hfits)
  · exact iff_of_true (meets_of_not_fits hfits) (.inr hfits)

end GenericNames

end Forte
