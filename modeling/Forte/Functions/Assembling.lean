import Mathlib.Data.List.FinRange
import Forte.Datatypes.PartialAccess
import Forte.Functions.Shifts

/-!
# Assembling and splitting bit strings

The functions `ASSEMBLE_…` put a bit string together from its bits, bytes, words or pairs of bits,
and the functions `SPLIT_…` take it apart. For bits, bytes and words both go through partial access
(`Forte.Assembling.assemble`, `Forte.Assembling.split`), and for pairs of bits, the quarters of a
byte, through shifts and masks.

Both ways are inverse to each other (`Forte.Assembling.assemble_iff`,
`Forte.Assembling.assembleQuarters_iff`), for quarters as far as these have values below four. It
is `SPLIT_DWORD_INTO_WORDS` that does not fit: what it takes for the high word is a bit of the low
one (`Forte.Assembling.assemble_dword_iff`).
-/

namespace Forte

/-! ### Slices of a whole -/

namespace Slice

variable {w p n : ℕ}

theorem disjoint_of_ne {i j : ℕ} (h : i ≠ j) : Disjoint p i p j := by
  rintro k ⟨⟨hi, hi'⟩, hj, hj'⟩
  rcases Nat.lt_or_gt_of_ne h with hlt | hlt
  · have hmul := Nat.mul_le_mul_right p (show i + 1 ≤ j from hlt)
    rw [Nat.succ_mul] at hmul
    omega
  · have hmul := Nat.mul_le_mul_right p (show j + 1 ≤ i from hlt)
    rw [Nat.succ_mul] at hmul
    omega

theorem le_of_lt (h : n * p = w) {i : ℕ} (hi : i < n) : i * p + p ≤ w := by
  have hmul := Nat.mul_le_mul_right p (show i + 1 ≤ n from hi)
  rw [Nat.succ_mul, h] at hmul
  exact hmul

/-- A bit vector is known from its slices. -/
theorem ext_get (h : n * p = w) {x y : BitVec w} (hget : ∀ i < n, get p x i = get p y i) :
    x = y := by
  refine BitVec.eq_of_getLsbD_eq fun k hk => ?_
  have hp : 0 < p := Nat.pos_of_ne_zero (by rintro rfl; omega)
  have hi : k / p < n := Nat.div_lt_of_lt_mul (by rw [Nat.mul_comm, h]; exact hk)
  have hbit := congrArg (fun v => v.getLsbD (k % p)) (hget _ hi)
  simpa [getLsbD_get _ (Nat.mod_lt k hp), Nat.div_add_mod'] using hbit

/-- Slices are written one after the other. -/
theorem get_foldl_put (h : n * p = w) (parts : Fin n → BitVec p) {l : List (Fin n)} {i : Fin n}
    (hi : i ∈ l) (x : BitVec w) :
    get p (l.foldl (fun x (i : Fin n) => put x i (parts i)) x) i = parts i := by
  induction l using List.reverseRecOn with
  | nil => cases hi
  | append_singleton l j ih =>
    rw [List.foldl_concat]
    by_cases heq : i = j
    · rw [heq, get_put (le_of_lt h j.isLt)]
    · rw [get_put_of_disjoint (le_of_lt h i.isLt) (disjoint_of_ne fun hval => heq (Fin.ext hval))]
      exact ih (by simpa [heq] using hi)

end Slice

namespace Assembling

open AnyBit

variable {n : ℕ} {partialType source : AnyBit}

/-! ### Partial access -/

/-- One assignment to `partial` after the other, in a return value that is zero at first. -/
def assemble (source : AnyBit) (parts : Fin n → partialType.Value) : Option source.Value :=
  (List.finRange n).foldlM (fun x (i : Fin n) => BitPartial.destruct x i (parts i)) 0

/-- One `cpartial` for each part. -/
def split (partialType : AnyBit) (x : source.Value) (i : Fin n) : Option partialType.Value :=
  BitPartial.partialValue partialType x i

section PartialAccess

variable (hwhole : n * partialType.digits = source.digits) (hpos : 0 < n)
include hwhole hpos

theorem le_scmMaxIndex (i : Fin n) : (i : ℕ) ≤ BitPartial.scmMaxIndex partialType source := by
  have hdigits : 0 < partialType.digits := by cases partialType <;> decide
  rw [BitPartial.scmMaxIndex, ← hwhole, Nat.mul_div_cancel _ hdigits]
  omega

theorem digits_le : partialType.digits ≤ source.digits := by
  rw [← hwhole]
  exact Nat.le_mul_of_pos_left _ hpos

theorem split_eq (x : source.Value) (i : Fin n) :
    split partialType x i = some (Slice.get partialType.digits x i) :=
  BitPartial.partialValue_eq (digits_le hwhole hpos) (le_scmMaxIndex hwhole hpos i) x

theorem assemble_eq (parts : Fin n → partialType.Value) :
    assemble source parts =
      some ((List.finRange n).foldl (fun x (i : Fin n) => Slice.put x i (parts i)) 0) := by
  rw [assemble]
  generalize List.finRange n = l
  generalize (0 : source.Value) = x
  induction l generalizing x with
  | nil => rfl
  | cons i l ih =>
    rw [List.foldlM_cons, BitPartial.destruct_eq (digits_le hwhole hpos)
      (le_scmMaxIndex hwhole hpos i)]
    exact ih _

/-- **To assemble and to split** are inverse to each other, where the parts make up the whole: a
bit string is assembled from parts if and only if it is split into them. -/
theorem assemble_iff (parts : Fin n → partialType.Value) (x : source.Value) :
    assemble source parts = some x ↔ ∀ i, split partialType x i = some (parts i) := by
  rw [assemble_eq hwhole hpos, Option.some_inj]
  simp only [split_eq hwhole hpos, Option.some_inj]
  constructor
  · rintro rfl i
    exact Slice.get_foldl_put hwhole parts (List.mem_finRange i) 0
  · intro hparts
    refine Slice.ext_get hwhole fun i hi => ?_
    rw [hparts ⟨i, hi⟩]
    exact Slice.get_foldl_put hwhole parts (List.mem_finRange ⟨i, hi⟩) 0

end PartialAccess

/-- `func_ASSEMBLE_BYTE_FROM_BOOLS`. -/
def func_ASSEMBLE_BYTE_FROM_BOOLS (bits : Fin 8 → bool.Value) := assemble byte bits

/-- `func_ASSEMBLE_WORD_FROM_BOOLS`. -/
def func_ASSEMBLE_WORD_FROM_BOOLS (bits : Fin 16 → bool.Value) := assemble word bits

/-- `func_ASSEMBLE_DWORD_FROM_BOOLS`. -/
def func_ASSEMBLE_DWORD_FROM_BOOLS (bits : Fin 32 → bool.Value) := assemble dword bits

/-- `func_ASSEMBLE_LWORD_FROM_BOOLS`. -/
def func_ASSEMBLE_LWORD_FROM_BOOLS (bits : Fin 64 → bool.Value) := assemble lword bits

/-- `func_ASSEMBLE_WORD_FROM_BYTES`. -/
def func_ASSEMBLE_WORD_FROM_BYTES (bytes : Fin 2 → byte.Value) := assemble word bytes

/-- `func_ASSEMBLE_DWORD_FROM_BYTES`. -/
def func_ASSEMBLE_DWORD_FROM_BYTES (bytes : Fin 4 → byte.Value) := assemble dword bytes

/-- `func_ASSEMBLE_DWORD_FROM_WORDS`. -/
def func_ASSEMBLE_DWORD_FROM_WORDS (words : Fin 2 → word.Value) := assemble dword words

/-- `func_SPLIT_BYTE_INTO_BOOLS`. -/
def func_SPLIT_BYTE_INTO_BOOLS (x : byte.Value) : Fin 8 → Option bool.Value := split bool x

/-- `func_SPLIT_WORD_INTO_BOOLS`. -/
def func_SPLIT_WORD_INTO_BOOLS (x : word.Value) : Fin 16 → Option bool.Value := split bool x

/-- `func_SPLIT_DWORD_INTO_BOOLS`. -/
def func_SPLIT_DWORD_INTO_BOOLS (x : dword.Value) : Fin 32 → Option bool.Value := split bool x

/-- `func_SPLIT_LWORD_INTO_BOOLS`. -/
def func_SPLIT_LWORD_INTO_BOOLS (x : lword.Value) : Fin 64 → Option bool.Value := split bool x

/-- `func_SPLIT_WORD_INTO_BYTES`. -/
def func_SPLIT_WORD_INTO_BYTES (x : word.Value) : Fin 2 → Option byte.Value := split byte x

/-- `func_SPLIT_DWORD_INTO_BYTES`. -/
def func_SPLIT_DWORD_INTO_BYTES (x : dword.Value) : Fin 4 → Option byte.Value := split byte x

/-- `func_SPLIT_DWORD_INTO_WORDS`. The high word is a `cpartial<CIEC_BOOL>`, which becomes a
`CIEC_WORD` in the assignment. -/
def func_SPLIT_DWORD_INTO_WORDS (x : dword.Value) (i : Fin 2) : Option word.Value :=
  if i = 0 then BitPartial.partialValue word x 0
  else (BitPartial.partialValue bool x 1).map word.convert

theorem partialValue_dword {t : AnyBit} {i : ℕ} {x : dword.Value} (hcast : t.digits ≤ 32)
    (hi : i ≤ BitPartial.scmMaxIndex t dword) :
    BitPartial.partialValue t x i = some (Slice.get t.digits x i) :=
  BitPartial.partialValue_eq hcast hi x

/-- **The words of a `DWORD`** give it back if and only if its high word is its bit `1`. -/
theorem assemble_dword_iff {words : Fin 2 → word.Value} {x : dword.Value}
    (hwords : ∀ i, func_SPLIT_DWORD_INTO_WORDS x i = some (words i)) :
    func_ASSEMBLE_DWORD_FROM_WORDS words = some x ↔
      Slice.get 16 x 1 = (Slice.get 1 x 1).setWidth 16 := by
  have hlow : Slice.get 16 x 0 = words 0 := by
    have h := hwords 0
    rw [func_SPLIT_DWORD_INTO_WORDS, if_pos rfl,
      partialValue_dword (by decide) (by decide)] at h
    exact Option.some.inj h
  have hbit : word.convert (Slice.get 1 x 1) = words 1 := by
    have h := hwords 1
    rw [func_SPLIT_DWORD_INTO_WORDS, if_neg (by decide),
      partialValue_dword (by decide) (by decide)] at h
    exact Option.some.inj h
  rw [convert_eq (.inl (by decide))] at hbit
  rw [func_ASSEMBLE_DWORD_FROM_WORDS, assemble_iff rfl (by decide), Fin.forall_fin_two,
    split_eq rfl (by decide), split_eq rfl (by decide), Option.some_inj, Option.some_inj, ← hlow,
    ← hbit]
  exact ⟨fun h => h.2, fun h => ⟨rfl, h⟩⟩

/-- **Round trips**: each of the functions `ASSEMBLE_…` for bits, bytes and words gives a bit
string if and only if the function `SPLIT_…` takes it apart into the same parts; but the words
of a `DWORD` give it back only if its high word is its bit `1`. -/
theorem assemble_iff_split :
    (∀ bits x, func_ASSEMBLE_BYTE_FROM_BOOLS bits = some x ↔
      ∀ i, func_SPLIT_BYTE_INTO_BOOLS x i = some (bits i)) ∧
    (∀ bits x, func_ASSEMBLE_WORD_FROM_BOOLS bits = some x ↔
      ∀ i, func_SPLIT_WORD_INTO_BOOLS x i = some (bits i)) ∧
    (∀ bits x, func_ASSEMBLE_DWORD_FROM_BOOLS bits = some x ↔
      ∀ i, func_SPLIT_DWORD_INTO_BOOLS x i = some (bits i)) ∧
    (∀ bits x, func_ASSEMBLE_LWORD_FROM_BOOLS bits = some x ↔
      ∀ i, func_SPLIT_LWORD_INTO_BOOLS x i = some (bits i)) ∧
    (∀ bytes x, func_ASSEMBLE_WORD_FROM_BYTES bytes = some x ↔
      ∀ i, func_SPLIT_WORD_INTO_BYTES x i = some (bytes i)) ∧
    (∀ bytes x, func_ASSEMBLE_DWORD_FROM_BYTES bytes = some x ↔
      ∀ i, func_SPLIT_DWORD_INTO_BYTES x i = some (bytes i)) ∧
    ∀ words x, (∀ i, func_SPLIT_DWORD_INTO_WORDS x i = some (words i)) →
      (func_ASSEMBLE_DWORD_FROM_WORDS words = some x ↔
        Slice.get 16 x 1 = (Slice.get 1 x 1).setWidth 16) :=
  ⟨assemble_iff rfl (by decide), assemble_iff rfl (by decide), assemble_iff rfl (by decide),
    assemble_iff rfl (by decide), assemble_iff rfl (by decide), assemble_iff rfl (by decide),
    fun _ _ => assemble_dword_iff⟩

/-! ### Quarters -/

/-- `var_SHIFT_QUARTER_…`. -/
def shiftQuarter (i : ℕ) : CIEC_ANY_INT := .ofValue ((AnyInt.native .sint).convert (2 * i))

/-- `var_BYTE_QUARTER_…`, and so for the other types. -/
def quarterMask (T : AnyBit) (i : ℕ) : T.Value := BitVec.ofNat T.digits (3 * 4 ^ i)

/-- A quarter is shifted to its place and comes to the others. -/
def addQuarter {T : AnyBit} (quarters : Fin n → byte.Value) (x : T.Value) (i : Fin n) :
    Option T.Value := do
  let shifted ← Shifts.func_SHL (T.convert (quarters i)) (shiftQuarter i)
  pure (x ||| shifted)

/-- The quarters come into the return value from the last one on. -/
def assembleQuarters (T : AnyBit) (quarters : Fin n → byte.Value) : Option T.Value :=
  (List.finRange n).reverse.foldlM (addQuarter quarters) 0

/-- One mask and shift for each quarter. -/
def splitQuarters {T : AnyBit} (x : T.Value) (i : Fin n) : Option byte.Value := do
  let shifted ← Shifts.func_SHR (x &&& quarterMask T i) (shiftQuarter i)
  pure (byte.convert shifted)

section Quarters

variable {T : AnyBit} (hT : T ≠ bool) (hwhole : n * 2 = T.digits)

theorem shiftQuarter_val : ∀ i : Fin 32, ((AnyInt.native .sint).convert (2 * i)).val = 2 * i := by
  decide

theorem getLsbD_quarterMask {i k : ℕ} (hk : k < T.digits) :
    (quarterMask T i).getLsbD k = decide (Slice.Has 2 i k) := by
  have hpow : 3 * 4 ^ i = 3 * 2 ^ (2 * i) := by
    rw [pow_mul]
    rfl
  have hthree (m : ℕ) : Nat.testBit 3 m = decide (m < 2) := by
    match m with
    | 0 | 1 => rfl
    | m + 2 =>
      rw [Nat.testBit_lt_two_pow (Nat.lt_of_lt_of_le (by decide : 3 < 2 ^ 2)
        (Nat.pow_le_pow_right (by decide) (by omega)))]
      simp
  rw [quarterMask, BitVec.getLsbD_ofNat, hpow, Nat.testBit_mul_two_pow, hthree, decide_eq_true hk,
    Bool.true_and, ← Bool.decide_and]
  refine decide_eq_decide.mpr ?_
  rw [Slice.Has]
  omega

include hT hwhole

theorem func_SHL_quarter (hn : n ≤ 32) (x : T.Value) (i : Fin n) :
    Shifts.func_SHL x (shiftQuarter i) = some (x <<< (2 * (i : ℕ))) := by
  have hval := shiftQuarter_val (i.castLE hn)
  have hlt : 2 * (i : ℕ) < T.promoted := by
    have := T.digits_le_promoted
    omega
  rw [Fin.val_castLE] at hval
  rw [shiftQuarter, Shifts.func_SHL_eq hT x (by omega), hval]
  exact if_pos hlt

theorem func_SHR_quarter (hn : n ≤ 32) (x : T.Value) (i : Fin n) :
    Shifts.func_SHR x (shiftQuarter i) = some (x >>> (2 * (i : ℕ))) := by
  have hval := shiftQuarter_val (i.castLE hn)
  have hlt : 2 * (i : ℕ) < T.promoted := by
    have := T.digits_le_promoted
    omega
  rw [Fin.val_castLE] at hval
  rw [shiftQuarter, Shifts.func_SHR_eq hT x (by omega), hval]
  exact if_pos hlt

/-- **A quarter is a slice of two bits.** -/
theorem splitQuarters_eq (hn : n ≤ 32) (x : T.Value) (i : Fin n) :
    splitQuarters x i = some ((Slice.get 2 x i).setWidth byte.digits) := by
  rw [splitQuarters, func_SHR_quarter hT hwhole hn]
  refine congrArg some ((convert_eq (.inl (by decide))).trans ?_)
  refine BitVec.eq_of_getLsbD_eq fun k hk => ?_
  rw [BitVec.getLsbD_setWidth, BitVec.getLsbD_setWidth, BitVec.getLsbD_ushiftRight,
    BitVec.getLsbD_and]
  by_cases hlt : k < 2
  · have hhas : Slice.Has 2 i (2 * i + k) := ⟨by omega, by omega⟩
    rw [Slice.getLsbD_get x hlt, getLsbD_quarterMask (by omega), decide_eq_true hhas,
      Bool.and_true, Nat.mul_comm]
  · -- the mask leaves nothing above the quarter
    rw [BitVec.getLsbD_of_ge (Slice.get 2 x i) k (by omega)]
    by_cases hin : 2 * (i : ℕ) + k < T.digits
    · have hhas : ¬Slice.Has 2 i (2 * i + k) := fun h => hlt (by have := h.2; omega)
      rw [getLsbD_quarterMask hin, decide_eq_false hhas, Bool.and_false]
    · rw [BitVec.getLsbD_of_ge x _ (by omega), Bool.false_and]

omit hT hwhole in
theorem getLsbD_foldl_or {α : Type} {w : ℕ} (f : α → BitVec w) (l : List α) (x : BitVec w)
    (k : ℕ) :
    (l.foldl (fun x a => x ||| f a) x).getLsbD k =
      (x.getLsbD k || l.any fun a => (f a).getLsbD k) := by
  induction l generalizing x with
  | nil => simp
  | cons a l ih => rw [List.foldl_cons, ih, BitVec.getLsbD_or, List.any_cons, Bool.or_assoc]

/-- The quarters where they come to. -/
def placed (T : AnyBit) (quarters : Fin n → byte.Value) (i : Fin n) : T.Value :=
  T.convert (quarters i) <<< (2 * (i : ℕ))

theorem foldlM_addQuarter (hn : n ≤ 32) (quarters : Fin n → byte.Value) (l : List (Fin n))
    (x : T.Value) :
    l.foldlM (addQuarter quarters) x =
      some (l.foldl (fun x i => x ||| placed T quarters i) x) := by
  induction l generalizing x with
  | nil => rfl
  | cons i l ih =>
    rw [List.foldlM_cons, addQuarter, func_SHL_quarter hT hwhole hn]
    exact ih _

omit hT hwhole in
theorem getLsbD_of_lt_four {q : byte.Value} (hq : q < 4#8) {m : ℕ} (hm : 2 ≤ m) :
    q.getLsbD m = false := by
  have hlt : q.toNat < 2 ^ m :=
    lt_of_lt_of_le (show q.toNat < 2 ^ 2 from hq) (Nat.pow_le_pow_right (by decide) hm)
  exact Nat.testBit_lt_two_pow hlt

/-- A quarter below four has come to its place, if all of them are. -/
theorem get_placed {quarters : Fin n → byte.Value} (hquarters : ∀ i, quarters i < 4#8)
    (i : Fin n) :
    Slice.get 2 ((List.finRange n).reverse.foldl
      (fun x i => x ||| placed T quarters i) (0 : T.Value)) i = (quarters i).setWidth 2 := by
  refine BitVec.eq_of_getLsbD_eq fun k hk => ?_
  have hwide : (i : ℕ) * 2 + k < T.digits := by omega
  have hbit (j : Fin n) : (placed T quarters j).getLsbD (i * 2 + k) =
      (decide (j = i) && (quarters i).getLsbD k) := by
    rw [placed, convert_eq (.inl hT), BitVec.getLsbD_shiftLeft, BitVec.getLsbD_setWidth,
      decide_eq_true hwide, Bool.true_and]
    rcases lt_trichotomy j i with hlt | rfl | hlt
    · -- the quarter is below, and does not come as far as this
      have hval : (j : ℕ) < i := hlt
      rw [getLsbD_of_lt_four (hquarters j) (by omega), decide_eq_false (Fin.ne_of_lt hlt)]
      simp
    · have hsub : (j : ℕ) * 2 + k - 2 * j = k := by omega
      have hle : ¬(j : ℕ) * 2 + k < 2 * j := by omega
      rw [hsub, decide_eq_false hle, decide_eq_true rfl, decide_eq_true (by omega : k < T.digits)]
      rfl
    · have hval : (i : ℕ) < j := hlt
      rw [decide_eq_true (by omega : (i : ℕ) * 2 + k < 2 * j), decide_eq_false (Fin.ne_of_gt hlt)]
      rfl
  rw [Slice.getLsbD_get _ hk, getLsbD_foldl_or, BitVec.getLsbD_setWidth]
  simp only [hbit, List.any_reverse]
  rw [decide_eq_true hk, Bool.true_and]
  have hany : ((List.finRange n).any fun j => decide (j = i) && (quarters i).getLsbD k) =
      (quarters i).getLsbD k := by
    cases hq : (quarters i).getLsbD k with
    | false => simp
    | true => simp
  rw [hany]
  simp

omit hT hwhole in
theorem setWidth_lt_four (v : BitVec 2) : v.setWidth byte.digits < 4#8 := by
  revert v
  decide

/-- **To assemble and to split** are inverse to each other for quarters below four, and these are
what a bit string is split into. -/
theorem assembleQuarters_iff (hn : n ≤ 32) (quarters : Fin n → byte.Value) (x : T.Value) :
    (∀ i, splitQuarters x i = some (quarters i)) ↔
      assembleQuarters T quarters = some x ∧ ∀ i, quarters i < 4#8 := by
  rw [assembleQuarters, foldlM_addQuarter hT hwhole hn, Option.some_inj]
  simp only [splitQuarters_eq hT hwhole hn, Option.some_inj]
  constructor
  · intro hsplit
    have hlt (i : Fin n) : quarters i < 4#8 := by
      rw [← hsplit i]
      exact setWidth_lt_four _
    refine ⟨Slice.ext_get hwhole fun i hi => ?_, hlt⟩
    have hget := get_placed hT hwhole hlt ⟨i, hi⟩
    rw [← hsplit ⟨i, hi⟩] at hget
    refine hget.trans ?_
    exact BitVec.setWidth_setWidth_of_le _ (by decide)
  · rintro ⟨rfl, hlt⟩ i
    rw [get_placed hT hwhole hlt i]
    have hq : (quarters i).toNat < 4 := hlt i
    refine BitVec.eq_of_toNat_eq ?_
    rw [BitVec.toNat_setWidth, BitVec.toNat_setWidth, Nat.mod_eq_of_lt hq,
      Nat.mod_eq_of_lt (quarters i).isLt]

end Quarters

/-- `func_ASSEMBLE_BYTE_FROM_QUARTERS`. -/
def func_ASSEMBLE_BYTE_FROM_QUARTERS (quarters : Fin 4 → byte.Value) :=
  assembleQuarters byte quarters

/-- `func_ASSEMBLE_WORD_FROM_QUARTERS`. -/
def func_ASSEMBLE_WORD_FROM_QUARTERS (quarters : Fin 8 → byte.Value) :=
  assembleQuarters word quarters

/-- `func_ASSEMBLE_DWORD_FROM_QUARTERS`, which begins with the last quarter instead of zero. -/
def func_ASSEMBLE_DWORD_FROM_QUARTERS (quarters : Fin 16 → byte.Value) : Option dword.Value := do
  let last ← Shifts.func_SHL (dword.convert (quarters 15)) (shiftQuarter 15)
  (List.finRange 15).reverse.foldlM (fun x i => addQuarter quarters x i.castSucc) last

/-- `func_ASSEMBLE_LWORD_FROM_QUARTERS`. -/
def func_ASSEMBLE_LWORD_FROM_QUARTERS (quarters : Fin 32 → byte.Value) :=
  assembleQuarters lword quarters

/-- `func_SPLIT_BYTE_INTO_QUARTERS`. -/
def func_SPLIT_BYTE_INTO_QUARTERS (x : byte.Value) : Fin 4 → Option byte.Value := splitQuarters x

/-- `func_SPLIT_WORD_INTO_QUARTERS`. -/
def func_SPLIT_WORD_INTO_QUARTERS (x : word.Value) : Fin 8 → Option byte.Value := splitQuarters x

/-- `func_SPLIT_DWORD_INTO_QUARTERS`. -/
def func_SPLIT_DWORD_INTO_QUARTERS (x : dword.Value) : Fin 16 → Option byte.Value :=
  splitQuarters x

/-- `func_SPLIT_LWORD_INTO_QUARTERS`. -/
def func_SPLIT_LWORD_INTO_QUARTERS (x : lword.Value) : Fin 32 → Option byte.Value :=
  splitQuarters x

/-- The last quarter is the first one to come into the return value. -/
theorem assembleQuarters_succ {T : AnyBit} (quarters : Fin (n + 1) → byte.Value) :
    assembleQuarters T quarters =
      (Shifts.func_SHL (T.convert (quarters (Fin.last n))) (shiftQuarter n)).bind fun last =>
        (List.finRange n).reverse.foldlM (fun x i => addQuarter quarters x i.castSucc) last := by
  rw [assembleQuarters, List.finRange_succ_last, List.reverse_append, List.reverse_singleton,
    List.singleton_append, List.foldlM_cons, ← List.map_reverse, addQuarter, Fin.val_last]
  cases Shifts.func_SHL (T.convert (quarters (Fin.last n))) (shiftQuarter n) with
  | none => rfl
  | some last =>
    simp only [Option.bind_eq_bind, Option.bind_some, Option.pure_def, List.foldlM_map,
      BitVec.ofNat_eq_ofNat, BitVec.zero_or]

theorem func_ASSEMBLE_DWORD_FROM_QUARTERS_eq (quarters : Fin 16 → byte.Value) :
    func_ASSEMBLE_DWORD_FROM_QUARTERS quarters = assembleQuarters dword quarters :=
  (assembleQuarters_succ (T := dword) quarters).symm

/-- **Round trips with quarters**: each of the functions `SPLIT_…` takes a bit string apart into
some quarters if and only if these are below four and the function `ASSEMBLE_…` gives the bit
string back. -/
theorem splitQuarters_iff :
    (∀ quarters x, (∀ i, func_SPLIT_BYTE_INTO_QUARTERS x i = some (quarters i)) ↔
      func_ASSEMBLE_BYTE_FROM_QUARTERS quarters = some x ∧ ∀ i, quarters i < 4#8) ∧
    (∀ quarters x, (∀ i, func_SPLIT_WORD_INTO_QUARTERS x i = some (quarters i)) ↔
      func_ASSEMBLE_WORD_FROM_QUARTERS quarters = some x ∧ ∀ i, quarters i < 4#8) ∧
    (∀ quarters x, (∀ i, func_SPLIT_DWORD_INTO_QUARTERS x i = some (quarters i)) ↔
      func_ASSEMBLE_DWORD_FROM_QUARTERS quarters = some x ∧ ∀ i, quarters i < 4#8) ∧
    ∀ quarters x, (∀ i, func_SPLIT_LWORD_INTO_QUARTERS x i = some (quarters i)) ↔
      func_ASSEMBLE_LWORD_FROM_QUARTERS quarters = some x ∧ ∀ i, quarters i < 4#8 := by
  refine ⟨assembleQuarters_iff (by decide) rfl (by decide),
    assembleQuarters_iff (by decide) rfl (by decide), fun quarters x => ?_,
    assembleQuarters_iff (by decide) rfl (by decide)⟩
  rw [func_ASSEMBLE_DWORD_FROM_QUARTERS_eq]
  exact assembleQuarters_iff (by decide) rfl (by decide) quarters x

end Assembling

end Forte
