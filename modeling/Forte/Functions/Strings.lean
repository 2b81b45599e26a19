import Forte.Datatypes.IntValues
import Forte.Datatypes.WideRuns

/-!
# The functions of strings

`func_LEFT`, `func_RIGHT`, `func_MID`, `func_INSERT`, `func_DELETE`, `func_REPLACE` and
`func_CONCAT`. They are templates of one text for `STRING` and `WSTRING`, over what is different
for the two: taking the first or the last characters, and concatenating
(`Forte.Strings.StringType`). The storage of a `STRING` is a `std::string`, and grows; that of a
`WSTRING` is the block of `Forte.AnyString.Storage`, whose characters are bytes here as they are for
its `length`.

All of them come down to `func_LEFT` and `func_RIGHT`, which return the string as it is if they are
given a negative length or one that is greater than the string's: they take a number of characters
that is *cut* to the length (`Forte.Strings.cut`). The lengths they are given by the other functions
have been converted to a type of 16 bits before.
-/

namespace Forte.Strings

open AnyString (Storage readable)

/-- **A type of strings**: its operations, and which text its values hold. -/
structure StringType (T : Type) where
  Holds : T → Text → Prop
  /-- `length`. -/
  length : T → ℕ
  /-- What `func_LEFT` takes of a string that is long enough. -/
  first : ℕ → T → Option T
  /-- What `func_RIGHT` takes of a string that is long enough. -/
  last : ℕ → T → Option T
  /-- `func_CONCAT`. -/
  concat : T → T → Option T
  /-- The length of a text has to be one of 16 bits. -/
  bounded : Bool
  length_eq : ∀ {x s}, Holds x s → s.length < 65536 → length x = s.length
  first_spec : ∀ {x s n}, Holds x s → s.length < 65536 → n ≤ s.length →
    ∃ y, first n x = some y ∧ Holds y (s.take n)
  last_spec : ∀ {x s n}, Holds x s → s.length < 65536 → n ≤ s.length →
    ∃ y, last n x = some y ∧ Holds y (s.drop (s.length - n))
  concat_spec : ∀ {x y s t}, Holds x s → Holds y t →
    (bounded = true → s.length + t.length < 65536) → ∃ z, concat x y = some z ∧ Holds z (s ++ t)
  concat_eq_none : ∀ {x y s t}, Holds x s → Holds y t →
    bounded = true → 65536 ≤ s.length + t.length → concat x y = none
  unique : ∀ {x s t}, Holds x s → Holds x t → s = t

/-- A conversion to a type. -/
def cast (t : AnyInt) (x : ℤ) : CIEC_ANY_INT := .ofValue (t.native.convert x)

/-- A number of type `CIEC_ANY::TLargestUIntValueType`. -/
def largestUInt (x : ℤ) : ℤ := AnyInt.ulint.native.wrap x

/-- The number that `func_INSERT`, `func_DELETE` and `func_REPLACE` look at, with zero for a
negative one. -/
def atLeastZero (x : CIEC_ANY_INT) : ℤ :=
  if x.isSigned then largestUInt (max 0 x.getSignedValue) else x.getUnsignedValue

section Functions

variable {T : Type} (S : StringType T)

/-- `func_LEFT`. -/
def func_LEFT (paIn : T) (paL : CIEC_ANY_INT) : Option T :=
  if paL.isSigned = true ∧ paL.getSignedValue < 0 then some paIn
  else if S.length paIn < paL.getUnsignedValue then some paIn
  else S.first paL.getUnsignedValue paIn

/-- `func_RIGHT`. -/
def func_RIGHT (paIn : T) (paL : CIEC_ANY_INT) : Option T :=
  if paL.isSigned = true ∧ paL.getSignedValue < 0 then some paIn
  else if S.length paIn < paL.getUnsignedValue then some paIn
  else S.last paL.getUnsignedValue paIn

/-- `func_MID`. -/
def func_MID (paIn : T) (paL paP : CIEC_ANY_INT) : Option T :=
  if paP.isSigned = true ∧ paP.getSignedValue < 0 then some paIn
  else
    let lenRight := cast .int (largestUInt (S.length paIn - paP.getUnsignedValue + 1))
    let lenLeft := cast .int paL.getUnsignedValue
    (func_RIGHT S paIn lenRight).bind fun right => func_LEFT S right lenLeft

/-- `func_CONCAT`. -/
def func_CONCAT (paIn1 paIn2 : T) : Option T := S.concat paIn1 paIn2

/-- `func_INSERT`. -/
def func_INSERT (paIn1 paIn2 : T) (paP : CIEC_ANY_INT) : Option T :=
  if 65535 < S.length paIn1 + S.length paIn2 then some paIn1
  else
    let P := atLeastZero paP
    if P = 0 then some paIn1
    else if S.length paIn1 < P then some paIn1
    else
      let positionRight := cast .int (S.length paIn1 - paP.getSignedValue)
      (func_LEFT S paIn1 paP).bind fun left =>
        (func_CONCAT S left paIn2).bind fun front =>
          (func_RIGHT S paIn1 positionRight).bind fun right => func_CONCAT S front right

/-- `func_DELETE`. -/
def func_DELETE (paIn : T) (paL paP : CIEC_ANY_INT) : Option T :=
  let L := atLeastZero paL
  let P := atLeastZero paP
  if L = 0 then some paIn
  else if P = 0 then some paIn
  else if S.length paIn < largestUInt (P + L) then some paIn
  else
    let positionRight := cast .uint (largestUInt (S.length paIn - (L + P - 1)))
    let positionLeft := cast .uint (largestUInt (P - 1))
    (func_LEFT S paIn positionLeft).bind fun left =>
      (func_RIGHT S paIn positionRight).bind fun right => func_CONCAT S left right

/-- `func_REPLACE`. A result that exceeds the length of a string is only logged. -/
def func_REPLACE (paIn1 paIn2 : T) (paL paP : CIEC_ANY_INT) : Option T :=
  let L := atLeastZero paL
  let P := atLeastZero paP
  if L = 0 then some paIn1
  else if P = 0 then some paIn1
  else if S.length paIn1 < largestUInt (P + L - 1) then some paIn1
  else
    let positionRight := cast .int (largestUInt (S.length paIn1 - (L + P - 1)))
    let positionLeft := cast .int (largestUInt (P - 1))
    (func_LEFT S paIn1 positionLeft).bind fun left =>
      (func_CONCAT S left paIn2).bind fun front =>
        (func_RIGHT S paIn1 positionRight).bind fun right => func_CONCAT S front right

end Functions

/-! ### The two types -/

/-- `STRING`, whose functions use `substr` and `append` of the storage. -/
def STRING : StringType Text where
  Holds x s := x = s
  length := StringFixed.length
  first n x := some (x.take n)
  last n x := some (x.drop (x.length - n))
  concat x y := some (x ++ y)
  bounded := false
  length_eq := by
    rintro x _ rfl hlength
    exact Nat.mod_eq_of_lt hlength
  first_spec := by
    rintro x _ n rfl - -
    exact ⟨_, rfl, rfl⟩
  last_spec := by
    rintro x _ n rfl - -
    exact ⟨_, rfl, rfl⟩
  concat_spec := by
    rintro x y _ _ rfl rfl -
    exact ⟨_, rfl, rfl⟩
  concat_eq_none := by
    rintro x y s t - - hbounded -
    cases hbounded
  unique := by
    rintro x _ _ rfl rfl
    rfl

section Wide

variable (fresh : ℕ → UInt8)

/-- A part of a wide string, copied into the memory of a new one. -/
def widePart (paIn : Storage) (offset n : ℕ) : Option Storage :=
  (AnyString.reserve fresh (n % 65536) .null).bind fun temp =>
    (temp.write 0 (readable (paIn.getValue.drop offset) (n % 65536))).bind fun temp =>
      (temp.write n [0]).bind fun temp =>
        AnyString.assign fresh .self (n % 65536) temp

variable {fresh} {x y : Storage} {s t : Text} {offset n : ℕ}

/-- A part of a text that is held can be read. -/
theorem readable_drop (h : x.Holds s) (hn : offset + n ≤ s.length) :
    readable (x.getValue.drop offset) n = (s.drop offset).take n := by
  have hcontent := h.content_eq
  rw [Storage.content, h.length_eq] at hcontent
  have hlength := congrArg List.length hcontent
  rw [List.length_take] at hlength
  have hle : n ≤ (x.getValue.drop offset).length := by
    rw [List.length_drop]
    omega
  rw [AnyString.readable_of_le hle]
  conv_rhs => rw [← hcontent, List.drop_take, List.take_take, min_eq_left (by omega)]

/-- **The part that was copied is held.** -/
theorem widePart_spec (fresh : ℕ → UInt8) (offset n : ℕ) (h : x.Holds s) (hs : s.length < 65536)
    (hn : offset + n ≤ s.length) : ∃ y, widePart fresh x offset n = some y ∧
      y.Holds ((s.drop offset).take n) := by
  have hmod : n % 65536 = n := Nat.mod_eq_of_lt (by omega)
  obtain ⟨capacity, value, hreserve, hblock, hroom⟩ :=
    AnyString.reserve_spec fresh (s := .null) (t := []) rfl (k := n) (by omega)
  obtain ⟨hvalue, hcapacity, -, -⟩ := hblock.sized
  have hbytes := AnyString.length_readable (x.getValue.drop offset) n
  obtain ⟨v, hv⟩ : ∃ v, overwrite value 0 (readable (x.getValue.drop offset) n) = some v :=
    ⟨_, overwrite_of_le (by omega)⟩
  have hlength := length_of_overwrite hv
  have htake := take_of_overwrite hv
  rw [hbytes, Nat.zero_add, List.take_zero, List.nil_append, readable_drop h hn] at htake
  obtain ⟨w, hw⟩ : ∃ w, overwrite v n [0] = some w := by
    refine ⟨_, overwrite_of_le ?_⟩
    rw [List.length_singleton]
    omega
  -- the terminator is behind what has been copied
  have hfront : w.take n = v.take n := by
    obtain ⟨-, rfl⟩ := overwrite_eq_some_iff.mp hw
    rw [List.append_assoc]
    refine List.take_left' ?_
    rw [List.length_take, min_eq_left (by omega)]
  obtain ⟨y, hy, hholds, -⟩ := Storage.terminate_holds ([] : Text).length (k := n)
    ((length_of_overwrite hw).trans (hlength.trans hvalue)) hcapacity hroom
  refine ⟨y, ?_, ?_⟩
  · rw [widePart, hmod, hreserve, Option.bind_some, Storage.write, hv, Option.map_some,
      Option.bind_some, Storage.write, hw, Option.map_some, Option.bind_some]
    exact hy
  · rwa [hfront, htake] at hholds

/-- What is concatenated to more than 16 bits can say the length of is written outside. -/
theorem wideConcat_eq_none (hx : x.Holds s) (hy : y.Holds t) (hs : s.length < 65536)
    (ht : t.length < 65536) (hsum : 65536 ≤ s.length + t.length) :
    AnyString.concat fresh x y = none := by
  obtain ⟨temp, htemp, hholds⟩ :=
    AnyString.assign_spec fresh (s := .null) (t := []) rfl x.getValue hs
  rw [hx.readable_eq] at hholds
  obtain ⟨capacity, value, hreserve, hblock, -⟩ := AnyString.reserve_spec fresh hholds
    (Nat.mod_lt (s.length + t.length) (by decide : 0 < 65536))
  rw [AnyString.concat, hx.length_eq, hy.length_eq, htemp, Option.bind_some, hreserve,
    Option.bind_some]
  exact AnyString.append_eq_none fresh hblock y.getValue ht hsum

end Wide

/-- What is held has a length of 16 bits. -/
theorem length_lt_of_holds {x : Storage} {s : Text} (h : x.Holds s) : s.length < 65536 := by
  cases x with
  | null =>
    cases h
    decide
  | block length capacity value =>
    obtain ⟨-, hcapacity, -, -⟩ := h.sized
    exact h.length_le.trans_lt hcapacity

/-- `WSTRING`. -/
def WSTRING (fresh : ℕ → UInt8) : StringType Storage where
  Holds := Storage.Holds
  length := Storage.length
  first n x := widePart fresh x 0 n
  last n x := widePart fresh x (x.length - n % 65536) n
  concat := AnyString.concat fresh
  bounded := true
  length_eq h _ := h.length_eq
  first_spec {x s n} h hs hn := by
    have hpart := widePart_spec fresh 0 n h hs (by rwa [Nat.zero_add])
    rwa [List.drop_zero] at hpart
  last_spec {x s n} h hs hn := by
    obtain ⟨y, hy, hholds⟩ := widePart_spec fresh (s.length - n) n h hs (by omega)
    have hall : ((s.drop (s.length - n)).take n) = s.drop (s.length - n) := by
      refine List.take_of_length_le ?_
      rw [List.length_drop]
      omega
    refine ⟨y, ?_, hall ▸ hholds⟩
    rw [h.length_eq, Nat.mod_eq_of_lt (by omega)]
    exact hy
  concat_spec hx hy hsum := AnyString.concat_spec fresh hx hy (hsum rfl)
  concat_eq_none hx hy _ hsum :=
    wideConcat_eq_none hx hy (length_lt_of_holds hx) (length_lt_of_holds hy) hsum
  unique h h' := h.content_eq.symm.trans h'.content_eq

/-! ### Parts of a text -/

/-- How many characters `func_LEFT` and `func_RIGHT` take of so many. -/
def cut (n : ℕ) (k : ℤ) : ℕ := if 0 ≤ k ∧ k ≤ n then k.toNat else n

theorem cut_le (n : ℕ) (k : ℤ) : cut n k ≤ n := by
  rw [cut]
  split <;> omega

theorem cut_of_mem {n : ℕ} {k : ℤ} (h : 0 ≤ k) (hk : k ≤ n) : cut n k = k.toNat := if_pos ⟨h, hk⟩

theorem cut_of_not_mem {n : ℕ} {k : ℤ} (h : ¬(0 ≤ k ∧ k ≤ n)) : cut n k = n := if_neg h

/-- The characters in front, others, and the characters at the end. -/
def splice (s : Text) (a : ℕ) (m : Text) (b : ℕ) : Text := s.take a ++ m ++ s.drop (s.length - b)

theorem length_splice {s : Text} {a b : ℕ} (m : Text) (ha : a ≤ s.length) (hb : b ≤ s.length) :
    (splice s a m b).length = a + m.length + b := by
  rw [splice, List.length_append, List.length_append, List.length_take, List.length_drop,
    min_eq_left ha]
  omega

/-- **A text that is left as it is** by a splice: what is put in has been there. -/
theorem splice_eq_self_iff {s : Text} {a b : ℕ} (m : Text) (ha : a ≤ s.length)
    (hb : b ≤ s.length) :
    splice s a m b = s ↔ a + m.length + b = s.length ∧ m = (s.drop a).take m.length := by
  constructor
  · intro h
    have hlength := congrArg List.length h
    rw [length_splice m ha hb] at hlength
    refine ⟨hlength, ?_⟩
    have hdrop := congrArg (List.drop a) h
    have htake : (s.take a).length = a := by rw [List.length_take, min_eq_left ha]
    rw [splice, List.append_assoc, List.drop_left' htake] at hdrop
    rw [← hdrop, List.take_left]
  · rintro ⟨hlength, hm⟩
    have hback : s.length - b = a + m.length := by omega
    rw [splice, hback, hm, List.length_take, List.length_drop, min_eq_left (by omega),
      ← List.take_add, List.take_append_drop]

/-! ### What the functions return -/

namespace StringType

variable {T : Type} (S : StringType T)

/-- What is returned holds a text. -/
def Returns (r : Option T) (s : Text) : Prop := ∃ y, r = some y ∧ S.Holds y s

/-- There may be a text of this length. -/
def Fits (n : ℕ) : Prop := S.bounded = true → n < 65536

variable {S} {x y : T} {l r : Option T} {s a b m : Text}

theorem Fits.of_le {n k : ℕ} (h : S.Fits n) (hk : k ≤ n) : S.Fits k :=
  fun hbounded => hk.trans_lt (h hbounded)

theorem returns_some_iff (h : S.Holds x s) : S.Returns (some x) a ↔ a = s := by
  constructor
  · rintro ⟨y, hy, hholds⟩
    obtain rfl := Option.some.inj hy
    exact S.unique hholds h
  · rintro rfl
    exact ⟨x, rfl, h⟩

/-- A result is known by the text it holds. -/
theorem Returns.iff (h : S.Returns r s) : S.Returns r a ↔ a = s := by
  obtain ⟨y, rfl, hy⟩ := h
  exact returns_some_iff hy

theorem concat_returns_iff (hx : S.Holds x a) (hy : S.Holds y b) :
    S.Returns (func_CONCAT S x y) s ↔ S.Fits (a.length + b.length) ∧ s = a ++ b := by
  by_cases hfits : S.Fits (a.length + b.length)
  · obtain ⟨z, hz, hholds⟩ := S.concat_spec hx hy hfits
    rw [func_CONCAT, hz, returns_some_iff hholds, and_iff_right hfits]
  · obtain ⟨hbounded, hlong⟩ := Classical.not_imp.mp hfits
    rw [func_CONCAT, S.concat_eq_none hx hy hbounded (Nat.not_lt.mp hlong)]
    refine iff_of_false ?_ fun h => hfits h.1
    rintro ⟨y, hy, -⟩
    cases hy

/-- Two parts that are concatenated. -/
theorem concat_two_iff (hl : S.Returns l a) (hr : S.Returns r b) :
    S.Returns (l.bind fun left => r.bind fun right => func_CONCAT S left right) s ↔
      S.Fits (a.length + b.length) ∧ s = a ++ b := by
  obtain ⟨left, rfl, hleft⟩ := hl
  obtain ⟨right, rfl, hright⟩ := hr
  exact concat_returns_iff hleft hright

/-- Two parts with a text between them. -/
theorem concat_three_iff (hl : S.Returns l a) (hm : S.Holds y m) (hr : S.Returns r b) :
    S.Returns (l.bind fun left => (func_CONCAT S left y).bind fun front =>
        r.bind fun right => func_CONCAT S front right) s ↔
      S.Fits (a.length + m.length + b.length) ∧ s = a ++ m ++ b := by
  obtain ⟨left, rfl, hleft⟩ := hl
  obtain ⟨right, rfl, hright⟩ := hr
  rw [Option.bind_some]
  by_cases hfits : S.Fits (a.length + m.length)
  · obtain ⟨front, hfront, hholds⟩ := (concat_returns_iff hleft hm).mpr ⟨hfits, rfl⟩
    rw [hfront, Option.bind_some, Option.bind_some, concat_returns_iff hholds hright,
      List.length_append]
  · obtain ⟨hbounded, hlong⟩ := Classical.not_imp.mp hfits
    have hnone : func_CONCAT S left y = none :=
      S.concat_eq_none hleft hm hbounded (Nat.not_lt.mp hlong)
    rw [hnone]
    refine iff_of_false ?_ fun h => hfits (h.1.of_le (Nat.le_add_right _ _))
    rintro ⟨y, hy, -⟩
    cases hy

end StringType

section Parts

variable {T : Type} {S : StringType T} {x : T} {s : Text} {t : AnyInt} (L : t.native.Value)

/-- The test for a negative number in front of the functions. -/
theorem negative_iff : ((CIEC_ANY_INT.ofValue L).isSigned = true ∧
    (CIEC_ANY_INT.ofValue L).getSignedValue < 0) ↔ L.val < 0 := by
  have hnot := CIEC_ANY_INT.not_negative_iff L
  cases hsigned : (CIEC_ANY_INT.ofValue L).isSigned with
  | true =>
    rw [hsigned] at hnot
    simp only [true_and, Bool.true_eq_false, or_false] at hnot ⊢
    omega
  | false =>
    rw [hsigned] at hnot
    simp only [Bool.false_eq_true, false_and, false_or, true_iff, false_iff] at hnot ⊢
    omega

/-- **The two tests of a length** let those pass that are inside. -/
theorem tests_eq {α : Type} {n : ℕ} (hn : n < 65536) (whole : α) (part : ℕ → α) :
    (if (CIEC_ANY_INT.ofValue L).isSigned = true ∧ (CIEC_ANY_INT.ofValue L).getSignedValue < 0 then
      whole
    else if n < (CIEC_ANY_INT.ofValue L).getUnsignedValue then whole
    else part (CIEC_ANY_INT.ofValue L).getUnsignedValue) =
      if 0 ≤ L.val ∧ L.val ≤ n then part L.val.toNat else whole := by
  have hle := CIEC_ANY_INT.getUnsignedValue_le_iff L (n := n) (by omega)
  have hneg := negative_iff L
  by_cases hin : 0 ≤ L.val ∧ L.val ≤ n
  · have hvalue := CIEC_ANY_INT.getUnsignedValue_ofValue L hin.1
    have heq : (CIEC_ANY_INT.ofValue L).getUnsignedValue = L.val.toNat := by omega
    rw [if_neg fun h => not_lt.mpr hin.1 (hneg.mp h), if_neg (Nat.not_lt.mpr (hle.mpr hin)),
      if_pos hin, heq]
  · rw [if_neg hin]
    split_ifs with hsign hlong
    · rfl
    · rfl
    · exact absurd (hle.mp (Nat.not_lt.mp hlong)) hin

theorem func_LEFT_returns (h : S.Holds x s) (hs : s.length < 65536) :
    S.Returns (func_LEFT S x (.ofValue L)) (s.take (cut s.length L)) := by
  have htests := tests_eq L hs (some x) fun n => S.first n x
  rw [func_LEFT, S.length_eq h hs, htests, cut]
  split_ifs with hin
  · exact S.first_spec h hs (by omega)
  · exact ⟨x, rfl, s.take_length.symm ▸ h⟩

theorem func_RIGHT_returns (h : S.Holds x s) (hs : s.length < 65536) :
    S.Returns (func_RIGHT S x (.ofValue L)) (s.drop (s.length - cut s.length L)) := by
  have htests := tests_eq L hs (some x) fun n => S.last n x
  rw [func_RIGHT, S.length_eq h hs, htests, cut]
  split_ifs with hin
  · exact S.last_spec h hs (by omega)
  · rw [Nat.sub_self]
    exact ⟨x, rfl, h⟩

/-- A number of 64 bits, with zero for a negative one. -/
theorem atLeastZero_ofValue : atLeastZero (.ofValue L) = max 0 L.val := by
  have hlt := CIEC_ANY_INT.val_lt L
  have hfits {z : ℤ} (h : 0 ≤ z) (hz : z < 2 ^ 64) : AnyInt.ulint.native.Fits z :=
    ⟨h, Int.le_sub_one_of_lt hz⟩
  rw [atLeastZero]
  cases hsigned : (CIEC_ANY_INT.ofValue L).isSigned with
  | true =>
    rw [CIEC_ANY_INT.getSignedValue_ofValue L (CIEC_ANY_INT.val_lt_of_isSigned L hsigned)]
    exact (hfits (by omega) (by omega)).wrap_eq
  | false =>
    have hnonneg : 0 ≤ L.val := (CIEC_ANY_INT.not_negative_iff L).mp (.inr hsigned)
    have hvalue := CIEC_ANY_INT.getUnsignedValue_ofValue L hnonneg
    rw [if_neg Bool.false_ne_true, hvalue]
    omega

end Parts

end Forte.Strings
