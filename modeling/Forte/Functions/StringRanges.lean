import Forte.Functions.Strings

/-!
# Ranges of strings

What the functions of strings are to return, as lists with positions that are counted from 1
(`Forte.Strings.intended`), and when they do (`Forte.Strings.Exact`, `Forte.Strings.functions_iff`).
`func_LEFT` and `func_RIGHT` always do.

* **`func_DELETE` compares `P + L`** with the length, where `func_REPLACE` compares `P + L - 1`: the
  last character is not deleted.
* **The sum is one of 64 bits** in both, so that a huge one is taken for a range of the string.
* **Parts of more than 32767 characters** are asked for by a negative number, except by
  `func_DELETE`, so that they are the whole string.
* **A result that is too long** is only logged by `func_REPLACE`, and `func_INSERT` lets through one
  of 65535 characters.
* **`func_MID` has no test for `L`**, and none for a position behind the end: the whole string is
  the right part of a negative length.
* **`func_CONCAT` of two `WSTRING`s** writes outside of the memory if there are more than 65535
  characters.
-/

namespace Forte.Strings

open AnyString (Storage)

/-- The functions. -/
inductive StringFunction
  | left | right | mid | insert | delete | replace | concat
  deriving DecidableEq, Repr

section Statement

variable {T : Type}

/-- A function of two strings, of which some only take the first one, and of two numbers. -/
def run (S : StringType T) (paIn1 paIn2 : T) (paL paP : CIEC_ANY_INT) :
    StringFunction → Option T
  | .left => func_LEFT S paIn1 paL
  | .right => func_RIGHT S paIn1 paL
  | .mid => func_MID S paIn1 paL paP
  | .insert => func_INSERT S paIn1 paIn2 paP
  | .delete => func_DELETE S paIn1 paL paP
  | .replace => func_REPLACE S paIn1 paIn2 paL paP
  | .concat => func_CONCAT S paIn1 paIn2

/-- There are characters in a range, and they are in the string. -/
def Inside (n : ℕ) (l p : ℤ) : Prop := 1 ≤ l ∧ 1 ≤ p ∧ p + l - 1 ≤ n

instance (n : ℕ) (l p : ℤ) : Decidable (Inside n l p) := inferInstanceAs (Decidable (_ ∧ _ ∧ _))

/-- **What is asked of the functions**, of two texts and of the values of `L` and `P`. Nothing is
asked of `func_MID` for the position zero. -/
def intended (s₁ s₂ : Text) (l p : ℤ) : StringFunction → Option Text
  | .left => some (if 0 ≤ l ∧ l ≤ s₁.length then s₁.take l.toNat else s₁)
  | .right => some (if 0 ≤ l ∧ l ≤ s₁.length then s₁.drop (s₁.length - l.toNat) else s₁)
  | .mid =>
    if l < 0 ∨ p < 0 then some s₁
    else if p = 0 then none
    else some ((s₁.drop (p.toNat - 1)).take l.toNat)
  | .insert =>
    some (if 1 ≤ p ∧ p ≤ s₁.length ∧ s₁.length + s₂.length ≤ scmMaxStringLen then
      s₁.take p.toNat ++ s₂ ++ s₁.drop p.toNat else s₁)
  | .delete =>
    some (if Inside s₁.length l p then
      s₁.take (p.toNat - 1) ++ s₁.drop (p.toNat - 1 + l.toNat) else s₁)
  | .replace =>
    some (if Inside s₁.length l p ∧ s₁.length - l.toNat + s₂.length ≤ scmMaxStringLen then
      s₁.take (p.toNat - 1) ++ s₂ ++ s₁.drop (p.toNat - 1 + l.toNat) else s₁)
  | .concat => some (s₁ ++ s₂)

/-- A number that was converted to `CIEC_INT::TValueType`. -/
def int16 (x : ℤ) : ℤ := AnyInt.int.native.wrap x

/-- When `func_MID` does what is asked of it. -/
def MidExact (s : Text) (l p : ℤ) : Prop :=
  -- the whole string has to be the right part, and the left part of that
  (l < 0 → 0 ≤ p → cut s.length (int16 (s.length + 1 - p)) = s.length ∧
    cut s.length (int16 l) = s.length) ∧
  -- there is nothing behind the end
  (0 ≤ l → s.length + 1 < p → cut (cut s.length (int16 (s.length + 1 - p))) (int16 l) = 0) ∧
  -- a length of 16 bits, or one that is taken for the whole right part as well
  (0 ≤ l → 1 ≤ p → p ≤ s.length + 1 → s.length + 1 - p ≤ 32767 →
    l ≤ 32767 ∨ int16 l < 0 ∨ s.length + 1 - p ≤ int16 l) ∧
  -- the string is taken from its beginning
  (0 ≤ l → 1 ≤ p → 32767 < s.length + 1 - p →
    (s.drop (p.toNat - 1)).take l.toNat = s.take (cut s.length (int16 l)))

/-- When `func_INSERT` does. -/
def InsertExact (n₁ n₂ : ℕ) (p : ℤ) : Prop :=
  1 ≤ p → p ≤ n₁ → n₁ + n₂ ≠ 65535 ∧ (n₁ + n₂ ≤ 65534 → n₁ - p ≤ 32767)

/-- When `func_DELETE` does: the range does not end with the string, and if the sum of the two
numbers has wrapped, the two parts make up the string. -/
def DeleteExact (n : ℕ) (l p : ℤ) : Prop :=
  1 ≤ l → 1 ≤ p →
    p + l ≠ n + 1 ∧
    (2 ^ 64 ≤ p + l → p + l - 2 ^ 64 ≤ n →
      (cut n ((p - 1) % 65536) : ℤ) = max 0 (p + l - 2 ^ 64 - 1))

/-- When `func_REPLACE` does: the result is not too long and neither of the parts is, and if the
sum of the two numbers has wrapped, what is put in has been there. -/
def ReplaceExact (s₁ s₂ : Text) (l p : ℤ) : Prop :=
  1 ≤ l → 1 ≤ p →
    (p + l - 1 ≤ s₁.length →
      s₁.length - l + s₂.length ≤ 65534 ∧ p - 1 ≤ 32767 ∧ s₁.length - (p + l - 1) ≤ 32767) ∧
    (2 ^ 64 ≤ p + l - 1 → p + l - 1 - 2 ^ 64 ≤ s₁.length →
      cut s₁.length (int16 (p - 1)) + s₂.length +
        cut s₁.length (int16 (s₁.length - (p + l - 1))) = s₁.length ∧
      s₂ = (s₁.drop (cut s₁.length (int16 (p - 1)))).take s₂.length)

/-- **When a function does what is asked of it.** -/
def Exact (bounded : Bool) (s₁ s₂ : Text) (l p : ℤ) : StringFunction → Prop
  | .left => True
  | .right => True
  | .mid => MidExact s₁ l p
  | .insert => InsertExact s₁.length s₂.length p
  | .delete => DeleteExact s₁.length l p
  | .replace => ReplaceExact s₁ s₂ l p
  | .concat => bounded = true → s₁.length + s₂.length < 65536

end Statement

/-! ### Numbers of 16 bits -/

theorem int16_eq (x : ℤ) : int16 x = (x + 32768) % 65536 - 32768 := rfl

theorem int16_largestUInt (x : ℤ) : AnyInt.int.native.wrap (largestUInt x) = int16 x :=
  NativeType.wrap_wrap (by decide) x

theorem uint_largestUInt (x : ℤ) : AnyInt.uint.native.wrap (largestUInt x) = x % 65536 := by
  refine (NativeType.wrap_wrap (by decide) x).trans ?_
  change (x - 0) % 65536 + 0 = x % 65536
  rw [Int.sub_zero, Int.add_zero]

theorem largestUInt_eq (x : ℤ) : largestUInt x = x % 2 ^ 64 := by
  change (x - 0) % 2 ^ 64 + 0 = x % 2 ^ 64
  rw [Int.sub_zero, Int.add_zero]

theorem int16_getUnsignedValue {t : AnyInt} (L : t.native.Value) :
    int16 (CIEC_ANY_INT.ofValue L).getUnsignedValue = int16 L := by
  rw [int16_eq, int16_eq]
  rcases Int.lt_or_le L.val 0 with hneg | hnonneg
  · rw [CIEC_ANY_INT.getUnsignedValue_ofValue_of_neg L hneg]
    omega
  · rw [CIEC_ANY_INT.getUnsignedValue_ofValue L hnonneg]

/-- A length of the string is converted to itself or to a negative number, and then the whole
string is taken. -/
theorem cut_int16 {n : ℕ} (hn : n ≤ 65534) {k : ℤ} (h : 0 ≤ k) (hk : k ≤ n) :
    k ≤ 32767 ∧ (cut n (int16 k) : ℤ) = k ∨ 32767 < k ∧ cut n (int16 k) = n := by
  rw [int16_eq]
  rcases Int.lt_or_le 32767 k with hlt | hle
  · exact .inr ⟨hlt, cut_of_not_mem (by omega)⟩
  · have hsame : (k + 32768) % 65536 - 32768 = k := by omega
    rw [hsame, cut_of_mem h hk]
    exact .inl ⟨hle, Int.toNat_of_nonneg h⟩

/-! ### The ranges -/

section Ranges

variable {T : Type} {S : StringType T} {x x₁ x₂ : T} {s s₁ s₂ w : Text} {t u : AnyInt}
variable (L : t.native.Value) (P : u.native.Value)

theorem func_LEFT_int16 (h : S.Holds x s) (hs : s.length < 65536) (k : ℤ) :
    S.Returns (func_LEFT S x (cast .int k)) (s.take (cut s.length (int16 k))) :=
  func_LEFT_returns (AnyInt.int.native.convert k) h hs

theorem func_RIGHT_int16 (h : S.Holds x s) (hs : s.length < 65536) (k : ℤ) :
    S.Returns (func_RIGHT S x (cast .int k)) (s.drop (s.length - cut s.length (int16 k))) :=
  func_RIGHT_returns (AnyInt.int.native.convert k) h hs

/-- What `func_MID` returns, where the position is not negative. -/
theorem func_MID_returns (h : S.Holds x s) (hs : s.length < 65536) (hP : 0 ≤ P.val) :
    S.Returns (func_MID S x (.ofValue L) (.ofValue P))
      ((s.drop (s.length - cut s.length (int16 (s.length + 1 - P)))).take
        (cut (cut s.length (int16 (s.length + 1 - P))) (int16 L))) := by
  have hvalue := CIEC_ANY_INT.getUnsignedValue_ofValue P hP
  have hle := cut_le s.length (int16 (s.length + 1 - P))
  have harg : (s.length : ℤ) - P + 1 = s.length + 1 - P := by omega
  obtain ⟨right, hright, hholds⟩ :=
    func_RIGHT_int16 h hs (largestUInt (s.length - P + 1))
  rw [harg, int16, int16_largestUInt] at hholds
  have hlength : (s.drop (s.length - cut s.length (int16 (s.length + 1 - P)))).length =
      cut s.length (int16 (s.length + 1 - P)) := by
    rw [List.length_drop]
    omega
  have hleft := func_LEFT_int16 hholds (by omega) (CIEC_ANY_INT.ofValue L).getUnsignedValue
  rw [hlength, int16_getUnsignedValue] at hleft
  rw [func_MID, if_neg fun hneg => not_lt.mpr hP ((negative_iff P).mp hneg), S.length_eq h hs,
    hvalue]
  dsimp only
  rw [hright, Option.bind_some]
  exact hleft

/-- What `func_INSERT` returns, where the tests let it. -/
theorem func_INSERT_iff (h₁ : S.Holds x₁ s₁) (h₂ : S.Holds x₂ s₂) (hs₁ : s₁.length < 65536)
    (hs₂ : s₂.length < 65536) (hsum : s₁.length + s₂.length ≤ 65535) (hP : 1 ≤ P.val)
    (hle : P.val ≤ s₁.length) :
    S.Returns (func_INSERT S x₁ x₂ (.ofValue P)) w ↔
      S.Fits (P.val.toNat + s₂.length + cut s₁.length (int16 (s₁.length - P))) ∧
        w = splice s₁ P.val.toNat s₂ (cut s₁.length (int16 (s₁.length - P))) := by
  have hleft := func_LEFT_returns P h₁ hs₁
  rw [cut_of_mem (by omega) hle] at hleft
  have hright := func_RIGHT_int16 h₁ hs₁ (s₁.length - P)
  have hcut := cut_le s₁.length (int16 (s₁.length - P))
  have hparts := StringType.concat_three_iff (s := w) hleft h₂ hright
  rw [List.length_take, min_eq_left (by omega), List.length_drop, Nat.sub_sub_self hcut] at hparts
  rw [func_INSERT, S.length_eq h₁ hs₁, S.length_eq h₂ hs₂, atLeastZero_ofValue,
    CIEC_ANY_INT.getSignedValue_ofValue P (by omega), max_eq_right (by omega),
    if_neg (by omega)]
  dsimp only
  rw [if_neg (by omega), if_neg (by omega)]
  exact hparts

/-- What `func_DELETE` returns, where the tests let it. -/
theorem func_DELETE_iff (h : S.Holds x s) (hs : s.length < 65536) (hL : 1 ≤ L.val)
    (hP : 1 ≤ P.val) (hle : (P.val + L) % 2 ^ 64 ≤ s.length) :
    S.Returns (func_DELETE S x (.ofValue L) (.ofValue P)) w ↔
      S.Fits (cut s.length ((P - 1) % 65536) +
          cut s.length ((s.length - (L + P.val - 1)) % 65536)) ∧
        w = splice s (cut s.length ((P - 1) % 65536)) []
          (cut s.length ((s.length - (L + P.val - 1)) % 65536)) := by
  have hleft := func_LEFT_returns (AnyInt.uint.native.convert (largestUInt (P - 1))) h hs
  have hright := func_RIGHT_returns
    (AnyInt.uint.native.convert (largestUInt (s.length - (L + P.val - 1)))) h hs
  have hparts := StringType.concat_two_iff (s := w) hleft hright
  change _ ↔ S.Fits ((s.take (cut s.length (AnyInt.uint.native.wrap _))).length +
    (s.drop (s.length - cut s.length (AnyInt.uint.native.wrap _))).length) ∧
      w = s.take (cut s.length (AnyInt.uint.native.wrap _)) ++
        s.drop (s.length - cut s.length (AnyInt.uint.native.wrap _)) at hparts
  rw [uint_largestUInt, uint_largestUInt, List.length_take, List.length_drop,
    min_eq_left (cut_le _ _), Nat.sub_sub_self (cut_le _ _)] at hparts
  rw [func_DELETE, S.length_eq h hs, atLeastZero_ofValue, atLeastZero_ofValue,
    max_eq_right (by omega), max_eq_right (by omega), largestUInt_eq (P.val + L)]
  dsimp only
  rw [if_neg (by omega), if_neg (by omega), if_neg (by omega), splice, List.append_nil]
  exact hparts

/-- What `func_REPLACE` returns, where the tests let it. -/
theorem func_REPLACE_iff (h₁ : S.Holds x₁ s₁) (h₂ : S.Holds x₂ s₂) (hs₁ : s₁.length < 65536)
    (hL : 1 ≤ L.val) (hP : 1 ≤ P.val) (hle : (P.val + L - 1) % 2 ^ 64 ≤ s₁.length) :
    S.Returns (func_REPLACE S x₁ x₂ (.ofValue L) (.ofValue P)) w ↔
      S.Fits (cut s₁.length (int16 (P - 1)) + s₂.length +
          cut s₁.length (int16 (s₁.length - (L + P.val - 1)))) ∧
        w = splice s₁ (cut s₁.length (int16 (P - 1))) s₂
          (cut s₁.length (int16 (s₁.length - (L + P.val - 1)))) := by
  have hleft := func_LEFT_int16 h₁ hs₁ (largestUInt (P - 1))
  have hright := func_RIGHT_int16 h₁ hs₁ (largestUInt (s₁.length - (L + P.val - 1)))
  have hparts := StringType.concat_three_iff (s := w) hleft h₂ hright
  rw [int16, int16, int16_largestUInt, int16_largestUInt, List.length_take, List.length_drop,
    min_eq_left (cut_le _ _), Nat.sub_sub_self (cut_le _ _)] at hparts
  rw [func_REPLACE, S.length_eq h₁ hs₁, atLeastZero_ofValue, atLeastZero_ofValue,
    max_eq_right (by omega), max_eq_right (by omega), largestUInt_eq (P.val + L - 1)]
  dsimp only
  rw [if_neg (by omega), if_neg (by omega), if_neg (by omega)]
  exact hparts

end Ranges

/-! ### What is met -/

section Meets

variable {T : Type} (S : StringType T)

/-- **A function does what is asked of it.** -/
def Meets (x₁ x₂ : T) (s₁ s₂ : Text) {t u : AnyInt} (L : t.native.Value) (P : u.native.Value)
    (f : StringFunction) : Prop :=
  ∀ w, intended s₁ s₂ L P f = some w → S.Returns (run S x₁ x₂ (.ofValue L) (.ofValue P) f) w

variable {S} {x₁ x₂ : T} {s₁ s₂ : Text} {t u : AnyInt} {L : t.native.Value} {P : u.native.Value}

/-- Where something is asked. -/
theorem meets_of_intended {f : StringFunction} {w : Text} (h : intended s₁ s₂ L P f = some w) :
    Meets S x₁ x₂ s₁ s₂ L P f ↔ S.Returns (run S x₁ x₂ (.ofValue L) (.ofValue P) f) w := by
  rw [Meets, h]
  simp

theorem meets_left (h₁ : S.Holds x₁ s₁) (hs₁ : s₁.length < 65536) :
    Meets S x₁ x₂ s₁ s₂ L P .left := by
  refine (meets_of_intended rfl).mpr ?_
  have hleft := func_LEFT_returns L h₁ hs₁
  rw [cut] at hleft
  split_ifs at hleft ⊢
  · exact hleft
  · rwa [List.take_length] at hleft

theorem meets_right (h₁ : S.Holds x₁ s₁) (hs₁ : s₁.length < 65536) :
    Meets S x₁ x₂ s₁ s₂ L P .right := by
  refine (meets_of_intended rfl).mpr ?_
  have hright := func_RIGHT_returns L h₁ hs₁
  rw [cut] at hright
  split_ifs at hright ⊢
  · exact hright
  · rwa [Nat.sub_self] at hright

theorem meets_concat_iff (h₁ : S.Holds x₁ s₁) (h₂ : S.Holds x₂ s₂) :
    Meets S x₁ x₂ s₁ s₂ L P .concat ↔ Exact S.bounded s₁ s₂ L P .concat := by
  refine (meets_of_intended rfl).trans ?_
  exact (StringType.concat_returns_iff h₁ h₂).trans (and_iff_left rfl)

theorem meets_insert_iff (h₁ : S.Holds x₁ s₁) (h₂ : S.Holds x₂ s₂)
    (hs₁ : s₁.length ≤ scmMaxStringLen) (hs₂ : s₂.length ≤ scmMaxStringLen) :
    Meets S x₁ x₂ s₁ s₂ L P .insert ↔ Exact S.bounded s₁ s₂ L P .insert := by
  rw [scmMaxStringLen] at hs₁ hs₂
  refine (meets_of_intended rfl).trans ?_
  rw [run, Exact, InsertExact, scmMaxStringLen]
  by_cases hin : 1 ≤ P.val ∧ P.val ≤ s₁.length ∧ s₁.length + s₂.length ≤ 65535
  · obtain ⟨hP, hle, hsum⟩ := hin
    rw [func_INSERT_iff P h₁ h₂ (by omega) (by omega) hsum hP hle]
    have hcut := cut_int16 hs₁ (k := s₁.length - P) (by omega) (by omega)
    have hb := cut_le s₁.length (int16 (s₁.length - P))
    generalize cut s₁.length (int16 (s₁.length - P)) = b at hcut hb ⊢
    have hlength := length_splice s₂ (by omega : P.val.toNat ≤ s₁.length) hb
    split_ifs with hmax
    · -- the right part is what is behind the position, or everything
      have hbehind : s₁.length - (s₁.length - P.val.toNat) = P.val.toNat := by omega
      have hasked : s₁.take P.val.toNat ++ s₂ ++ s₁.drop P.val.toNat =
          splice s₁ P.val.toNat s₂ (s₁.length - P.val.toNat) := by
        rw [splice, hbehind]
      rw [hasked]
      constructor
      · rintro ⟨-, heq⟩ - -
        have hsame := congrArg List.length heq
        rw [hlength, length_splice s₂ (by omega) (by omega)] at hsame
        omega
      · intro h
        obtain ⟨-, hright⟩ := h hP hle
        obtain rfl : b = s₁.length - P.val.toNat := by omega
        exact ⟨fun _ => by omega, rfl⟩
    · refine iff_of_false ?_ fun h => (h hP hle).1 (by omega)
      rintro ⟨-, heq⟩
      have hsame := congrArg List.length heq
      rw [hlength] at hsame
      omega
  · have hasked : ¬(1 ≤ P.val ∧ P.val ≤ s₁.length ∧ s₁.length + s₂.length ≤ 65534) := by omega
    have hsame : func_INSERT S x₁ x₂ (.ofValue P) = some x₁ := by
      rw [func_INSERT, S.length_eq h₁ (by omega), S.length_eq h₂ (by omega), atLeastZero_ofValue]
      dsimp only
      split_ifs
      · rfl
      · rfl
      · rfl
      · omega
    rw [if_neg hasked, hsame, StringType.returns_some_iff h₁]
    refine iff_of_true rfl fun hP hle => ?_
    omega

/-- A text of which a range has been taken out, and another one put in. -/
theorem splice_of_inside {s m : Text} {l p : ℤ} (h : Inside s.length l p) :
    s.take (p.toNat - 1) ++ m ++ s.drop (p.toNat - 1 + l.toNat) =
      splice s (p.toNat - 1) m (s.length - (p.toNat - 1 + l.toNat)) := by
  obtain ⟨hl, hp, hle⟩ := h
  have hbehind : s.length - (s.length - (p.toNat - 1 + l.toNat)) = p.toNat - 1 + l.toNat := by omega
  rw [splice, hbehind]

theorem meets_delete_iff (h₁ : S.Holds x₁ s₁) (hs₁ : s₁.length ≤ scmMaxStringLen) :
    Meets S x₁ x₂ s₁ s₂ L P .delete ↔ Exact S.bounded s₁ s₂ L P .delete := by
  rw [scmMaxStringLen] at hs₁
  have hltL := CIEC_ANY_INT.val_lt L
  have hltP := CIEC_ANY_INT.val_lt P
  refine (meets_of_intended rfl).trans ?_
  rw [run, Exact, DeleteExact]
  by_cases hin : 1 ≤ L.val ∧ 1 ≤ P.val ∧ (P.val + L) % 2 ^ 64 ≤ s₁.length
  · obtain ⟨hL, hP, hle⟩ := hin
    rw [func_DELETE_iff L P h₁ (by omega) hL hP hle]
    have ha := cut_le s₁.length ((P.val - 1) % 65536)
    rcases Int.lt_or_le (P.val + L) (2 ^ 64) with hlt | hwrap
    · -- the two parts are what they are to be
      have hinside : Inside s₁.length L P := ⟨hL, hP, by omega⟩
      have hleft : cut s₁.length ((P.val - 1) % 65536) = P.val.toNat - 1 := by
        rw [cut_of_mem (by omega) (by omega)]
        omega
      have hright : cut s₁.length ((s₁.length - (L + P.val - 1)) % 65536) =
          s₁.length - (P.val.toNat - 1 + L.val.toNat) := by
        rw [cut_of_mem (by omega) (by omega)]
        omega
      have hasked := splice_of_inside (m := []) hinside
      rw [List.append_nil] at hasked
      rw [if_pos hinside, hasked, hleft, hright]
      exact iff_of_true ⟨fun _ => by omega, rfl⟩ fun _ _ => ⟨by omega, fun _ _ => by omega⟩
    · have hout : ¬Inside s₁.length L P := fun h => by
        have := h.2.2
        omega
      have hright : (cut s₁.length ((s₁.length - (L + P.val - 1)) % 65536) : ℤ) =
          s₁.length - max 0 (P.val + L - 2 ^ 64 - 1) := by
        by_cases hzero : P.val + L = 2 ^ 64
        · rw [cut_of_not_mem (by omega)]
          omega
        · rw [cut_of_mem (by omega) (by omega)]
          omega
      have hb := cut_le s₁.length ((s₁.length - (L + P.val - 1)) % 65536)
      rw [if_neg hout, eq_comm (a := s₁), splice_eq_self_iff [] ha hb]
      generalize cut s₁.length ((P.val - 1) % 65536) = a at ha ⊢
      generalize cut s₁.length ((s₁.length - (L + P.val - 1)) % 65536) = b at hright hb ⊢
      constructor
      · rintro ⟨-, hlength, -⟩ - -
        rw [List.length_nil] at hlength
        exact ⟨by omega, fun _ _ => by omega⟩
      · intro h
        obtain ⟨-, hback⟩ := h hL hP
        have ha' := hback hwrap (by omega)
        exact ⟨fun _ => by omega, by rw [List.length_nil]; omega, rfl⟩
  · have hsame : func_DELETE S x₁ (.ofValue L) (.ofValue P) = some x₁ := by
      rw [func_DELETE, S.length_eq h₁ (by omega), atLeastZero_ofValue, atLeastZero_ofValue,
        largestUInt_eq (_ + _)]
      dsimp only
      split_ifs
      · rfl
      · rfl
      · rfl
      · omega
    rw [hsame, StringType.returns_some_iff h₁]
    split_ifs with hinside
    · -- the range ends with the string
      obtain ⟨hL, hP, hle⟩ := hinside
      rw [← List.append_nil (s₁.take _), splice_of_inside ⟨hL, hP, hle⟩]
      refine iff_of_false (fun heq => ?_) fun h => (h hL hP).1 (by omega)
      have hlength := congrArg List.length heq
      rw [length_splice [] (by omega) (by omega), List.length_nil] at hlength
      omega
    · refine iff_of_true rfl fun hL hP => ?_
      rw [Inside] at hinside
      exact ⟨by omega, fun _ _ => by omega⟩

theorem meets_replace_iff (h₁ : S.Holds x₁ s₁) (h₂ : S.Holds x₂ s₂)
    (hs₁ : s₁.length ≤ scmMaxStringLen) :
    Meets S x₁ x₂ s₁ s₂ L P .replace ↔ Exact S.bounded s₁ s₂ L P .replace := by
  rw [scmMaxStringLen] at hs₁
  have hltL := CIEC_ANY_INT.val_lt L
  have hltP := CIEC_ANY_INT.val_lt P
  refine (meets_of_intended rfl).trans ?_
  rw [run, Exact, ReplaceExact, scmMaxStringLen]
  by_cases hin : 1 ≤ L.val ∧ 1 ≤ P.val ∧ (P.val + L - 1) % 2 ^ 64 ≤ s₁.length
  · obtain ⟨hL, hP, hle⟩ := hin
    rw [func_REPLACE_iff L P h₁ h₂ (by omega) hL hP hle, add_comm L.val P.val]
    have ha := cut_le s₁.length (int16 (P.val - 1))
    have hb := cut_le s₁.length (int16 (s₁.length - (P.val + L - 1)))
    rcases Int.lt_or_le (P.val + L - 1) (2 ^ 64) with hlt | hwrap
    · have hinside : Inside s₁.length L P := ⟨hL, hP, by omega⟩
      have hleft := cut_int16 hs₁ (k := P.val - 1) (by omega) (by omega)
      have hright := cut_int16 hs₁ (k := s₁.length - (P.val + L - 1)) (by omega) (by omega)
      generalize cut s₁.length (int16 (P.val - 1)) = a at ha hleft ⊢
      generalize cut s₁.length (int16 (s₁.length - (P.val + L - 1))) = b at hb hright ⊢
      have hlength := length_splice s₂ ha hb
      rw [splice_of_inside hinside]
      constructor
      · rintro ⟨-, heq⟩ - -
        have hsame := congrArg List.length heq
        rw [hlength] at hsame
        refine ⟨fun _ => ?_, fun h => by omega⟩
        split_ifs at hsame with hmax
        · rw [length_splice s₂ (by omega) (by omega)] at hsame
          omega
        · rw [not_and] at hmax
          have := hmax hinside
          omega
      · intro h
        obtain ⟨hmax, hleft', hright'⟩ := (h hL hP).1 (by omega)
        obtain rfl : a = P.val.toNat - 1 := by omega
        obtain rfl : b = s₁.length - (P.val.toNat - 1 + L.val.toNat) := by omega
        rw [if_pos ⟨hinside, by omega⟩]
        exact ⟨fun _ => by omega, rfl⟩
    · have hout : ¬Inside s₁.length L P := fun h => by
        have := h.2.2
        omega
      rw [if_neg fun h => hout h.1, eq_comm (a := s₁), splice_eq_self_iff s₂ ha hb]
      constructor
      · rintro ⟨-, hsame⟩ - -
        exact ⟨fun h => by omega, fun _ _ => hsame⟩
      · intro h
        have hsame := (h hL hP).2 hwrap (by omega)
        exact ⟨fun _ => by omega, hsame⟩
  · have hsame : func_REPLACE S x₁ x₂ (.ofValue L) (.ofValue P) = some x₁ := by
      rw [func_REPLACE, S.length_eq h₁ (by omega), atLeastZero_ofValue, atLeastZero_ofValue,
        largestUInt_eq (_ + _ - _)]
      dsimp only
      split_ifs
      · rfl
      · rfl
      · rfl
      · omega
    have hout : ¬Inside s₁.length L P := by
      rintro ⟨hL, hP, hle⟩
      exact hin ⟨hL, hP, by omega⟩
    rw [hsame, StringType.returns_some_iff h₁, if_neg fun h => hout h.1]
    refine iff_of_true rfl fun hL hP => ⟨fun h => ?_, fun h hle => ?_⟩
    · exact absurd ⟨hL, hP, h⟩ hout
    · omega

/-- What is asked of `func_MID` where the right part is that from a position on. -/
theorem take_cut_iff {s : Text} {l d : ℕ} (hs : s.length = d) (hd : d ≤ 32767) :
    s.take l = s.take (cut d (int16 l)) ↔
      (l : ℤ) ≤ 32767 ∨ int16 l < 0 ∨ (d : ℤ) ≤ int16 l := by
  rw [List.take_eq_take_iff, hs]
  by_cases hin : 0 ≤ int16 l ∧ int16 l ≤ d
  · rw [cut_of_mem hin.1 hin.2]
    rw [int16_eq] at hin ⊢
    omega
  · rw [cut_of_not_mem hin]
    rw [int16_eq] at hin ⊢
    omega

theorem meets_mid_iff (h₁ : S.Holds x₁ s₁) (hs₁ : s₁.length ≤ scmMaxStringLen) :
    Meets S x₁ x₂ s₁ s₂ L P .mid ↔ Exact S.bounded s₁ s₂ L P .mid := by
  rw [scmMaxStringLen] at hs₁
  rw [Exact, MidExact]
  have hasked (h : L.val < 0 ∨ P.val < 0) : intended s₁ s₂ L P .mid = some s₁ := if_pos h
  rcases Int.lt_or_le P.val 0 with hneg | hP
  · rw [meets_of_intended (hasked (.inr hneg)), run, func_MID, if_pos ((negative_iff P).mpr hneg),
      StringType.returns_some_iff h₁]
    refine iff_of_true rfl ⟨fun _ h => ?_, fun _ h => ?_, fun _ h => ?_, fun _ h => ?_⟩
    all_goals omega
  have hreturns := func_MID_returns L P h₁ (by omega) hP
  have hv := cut_le s₁.length (int16 (s₁.length + 1 - P))
  have hw := cut_le (cut s₁.length (int16 (s₁.length + 1 - P))) (int16 L)
  -- the length of what is returned
  have hlength : ((s₁.drop (s₁.length - cut s₁.length (int16 (s₁.length + 1 - P)))).take
      (cut (cut s₁.length (int16 (s₁.length + 1 - P))) (int16 L))).length =
        cut (cut s₁.length (int16 (s₁.length + 1 - P))) (int16 L) := by
    rw [List.length_take, List.length_drop]
    omega
  rcases Int.lt_or_le L.val 0 with hnegL | hL
  · rw [meets_of_intended (hasked (.inl hnegL)), run, StringType.Returns.iff hreturns]
    constructor
    · intro heq
      have hall := congrArg List.length heq
      rw [hlength] at hall
      have hright : cut s₁.length (int16 (s₁.length + 1 - P)) = s₁.length := by omega
      rw [hright] at hall
      refine ⟨fun _ _ => ⟨hright, hall.symm⟩, fun h => ?_, fun h => ?_, fun h => ?_⟩
      all_goals omega
    · rintro ⟨hwhole, -⟩
      obtain ⟨hright, hleft⟩ := hwhole hnegL hP
      rw [hright, hleft, Nat.sub_self, List.drop_zero, List.take_length]
  rcases Int.lt_or_eq_of_le hP with hpos | hzero
  · have hintended : intended s₁ s₂ L P .mid =
        some ((s₁.drop (P.val.toNat - 1)).take L.val.toNat) :=
      (if_neg (by omega)).trans (if_neg (by omega))
    rw [meets_of_intended hintended, run, StringType.Returns.iff hreturns]
    rcases Int.lt_or_le (s₁.length + 1) P.val with hbehind | hle
    · -- there is nothing behind the end
      have hnil : s₁.drop (P.val.toNat - 1) = [] := List.drop_eq_nil_of_le (by omega)
      rw [hnil, List.take_nil, eq_comm, ← List.length_eq_zero_iff, hlength]
      refine ⟨fun h => ⟨fun _ => ?_, fun _ _ => h, fun _ _ _ => ?_, fun _ _ _ => ?_⟩,
        fun h => h.2.1 hL hbehind⟩
      all_goals omega
    rcases Int.lt_or_le 32767 (s₁.length + 1 - P) with hlong | hshort
    · -- the right part is the whole string
      have hright : cut s₁.length (int16 (s₁.length + 1 - P)) = s₁.length := by
        rw [int16_eq]
        exact cut_of_not_mem (by omega)
      rw [hright, Nat.sub_self, List.drop_zero]
      refine ⟨fun h => ⟨fun _ => ?_, fun _ _ => ?_, fun _ _ _ => ?_, fun _ _ _ => h⟩,
        fun h => h.2.2.2 hL hpos hlong⟩
      all_goals omega
    · -- the right part begins at the position
      have hright : cut s₁.length (int16 (s₁.length + 1 - P)) = s₁.length + 1 - P.val.toNat := by
        have hsame : int16 (s₁.length + 1 - P) = s₁.length + 1 - P := by
          rw [int16_eq]
          omega
        rw [hsame, cut_of_mem (by omega) (by omega)]
        omega
      have hback : s₁.length - (s₁.length + 1 - P.val.toNat) = P.val.toNat - 1 := by omega
      have hrest : (s₁.drop (P.val.toNat - 1)).length = s₁.length + 1 - P.val.toNat := by
        rw [List.length_drop]
        omega
      have htake := take_cut_iff (l := L.val.toNat) hrest (by omega)
      rw [Int.toNat_of_nonneg hL] at htake
      rw [hright, hback, htake]
      refine ⟨fun h => ⟨fun _ => ?_, fun _ _ => ?_, fun _ _ _ _ => ?_, fun _ _ _ => ?_⟩,
        fun h => ?_⟩
      · omega
      · omega
      · omega
      · omega
      · have := h.2.2.1 hL hpos hle hshort
        omega
  · have hnone : intended s₁ s₂ L P .mid = none :=
      (if_neg (by omega)).trans (if_pos hzero.symm)
    refine iff_of_true (fun w hasked => ?_)
      ⟨fun _ => ?_, fun _ _ => ?_, fun _ _ => ?_, fun _ _ => ?_⟩
    · rw [hnone] at hasked
      cases hasked
    all_goals omega

/-- **When each of the functions does what is asked of it**, of texts that are not too long and of
numbers of any integer type. -/
theorem meets_iff_exact (h₁ : S.Holds x₁ s₁) (h₂ : S.Holds x₂ s₂)
    (hs₁ : s₁.length ≤ scmMaxStringLen) (hs₂ : s₂.length ≤ scmMaxStringLen)
    (f : StringFunction) :
    Meets S x₁ x₂ s₁ s₂ L P f ↔ Exact S.bounded s₁ s₂ L P f := by
  have hlt : scmMaxStringLen < 65536 := by decide
  cases f with
  | left => exact iff_of_true (meets_left h₁ (hs₁.trans_lt hlt)) trivial
  | right => exact iff_of_true (meets_right h₁ (hs₁.trans_lt hlt)) trivial
  | mid => exact meets_mid_iff h₁ hs₁
  | insert => exact meets_insert_iff h₁ h₂ hs₁ hs₂
  | delete => exact meets_delete_iff h₁ hs₁
  | replace => exact meets_replace_iff h₁ h₂ hs₁
  | concat => exact meets_concat_iff h₁ h₂

end Meets

/-! ### `STRING` and `WSTRING` -/

/-- The two types. -/
inductive StringKind
  | string | wstring
  deriving DecidableEq, Repr

/-- The storage of a type. -/
abbrev StringKind.Value : StringKind → Type
  | string => Text
  | wstring => Storage

/-- Its operations, with what is in the memory they get. -/
def StringKind.type (fresh : ℕ → UInt8) : (k : StringKind) → StringType k.Value
  | string => STRING
  | wstring => WSTRING fresh

end Forte.Strings
