import Forte.Datatypes.AnyInt
import Forte.Datatypes.Storage

/-!
# Integer arithmetic

`func_ADD`, `func_SUB`, `func_MUL` and `func_DIV` calculate with the native types of their
operands and convert what comes out to the type of the result, which is the operand type the
other one may be cast to. `func_MOD` casts the operands first. Durations are 64-bit integers that
are divided by an integer of any type.

All values of the operands are values of the type of the result, and these are values of the type
the compiler calculates in (`Forte.IntegerArithmetic.within_of_castableType`), so that the results
are right unless an operator overflows there, or a quotient is too large for its type. Dividing a
negative duration by a `ULINT` is different: the duration is made unsigned.
`Forte.IntegerArithmetic.correct_iff` says when each function does what it should.
-/

namespace Forte

namespace AnyInt

/-- `mpl::is_implicitly_castable`, for these types. -/
def implicitCast (t u : AnyInt) : Bool := t = u || IntegralType.implicitCast t.type u.type

/-- `mpl::get_castable_type`. -/
def castableType (t u : AnyInt) : Option AnyInt :=
  if implicitCast t u then some u else if implicitCast u t then some t else none

end AnyInt

namespace IntegerArithmetic

/-- Operands of types with a common type, which is that of the result. -/
structure Operands where
  T : AnyInt
  U : AnyInt
  R : AnyInt
  castable : T.castableType U = some R
  paIN1 : T.native.Value
  paIN2 : U.native.Value

/-! ### The functions -/

section

variable {T U : AnyInt} (R : AnyInt) (paIN1 : T.native.Value) (paIN2 : U.native.Value)

/-- `func_ADD`. -/
def funcADD : Option R.native.Value :=
  (NativeType.add paIN1 paIN2).map fun r => R.native.convert r.val

/-- `func_SUB`. -/
def funcSUB : Option R.native.Value :=
  (NativeType.sub paIN1 paIN2).map fun r => R.native.convert r.val

/-- `func_MUL`. -/
def funcMUL : Option R.native.Value :=
  (NativeType.mul paIN1 paIN2).map fun r => R.native.convert r.val

/-- `func_DIV`. -/
def funcDIV : Option R.native.Value :=
  if paIN2.val ≠ 0 then (NativeType.div paIN1 paIN2).map fun r => R.native.convert r.val
  else some (R.native.convert 0)

/-- `func_MOD` of operands of one type. -/
def modOperation (paIN1 paIN2 : R.native.Value) : Option R.native.Value :=
  if paIN2.val = 0 then some (R.native.convert 0)
  else (NativeType.mod paIN1 paIN2).map fun r => R.native.convert r.val

/-- `func_MOD`, by `APPLY`. -/
def funcMOD : Option R.native.Value :=
  modOperation R (R.native.convert paIN1) (R.native.convert paIN2)

end

/-- The `TValueType` of a duration. -/
def duration : NativeType := ⟨true, 64, by decide⟩

section

variable {U : AnyInt} (paIN1 : duration.Value) (paIN2 : U.native.Value)

/-- A duration divided by an integer. -/
def divDuration : Option duration.Value :=
  if paIN2.val ≠ 0 then (NativeType.div paIN1 paIN2).map fun r => duration.convert r.val
  else some (duration.convert 0)

/-- `func_DIV_TIME`. -/
def funcDIVTIME : Option duration.Value := divDuration paIN1 paIN2

/-- `func_DIV_LTIME`. -/
def funcDIVLTIME : Option duration.Value := divDuration paIN1 paIN2

end

/-- `func_ABS`. -/
def funcABS {T : AnyInt} (paIN : T.native.Value) : Option T.native.Value :=
  if 0 > paIN.val then
    (NativeType.mul paIN (T.native.convert (-1))).map fun r => T.native.convert r.val
  else some paIN

/-! ### What they should do -/

/-- A use of one of the functions. -/
inductive Call
  | add (o : Operands)
  | sub (o : Operands)
  | mul (o : Operands)
  | div (o : Operands)
  | mod (o : Operands)
  /-- The quotient, multiplied by the divisor again, and the remainder added. -/
  | restore (o : Operands)
  | divTime (U : AnyInt) (paIN1 : duration.Value) (paIN2 : U.native.Value)
  | divLTime (U : AnyInt) (paIN1 : duration.Value) (paIN2 : U.native.Value)
  | abs (T : AnyInt) (paIN : T.native.Value)

/-- **The result is right**: sums, differences, products and absolute values modulo `2 ^ w`,
quotients truncated towards zero with their remainders, zero for a division by zero, and nothing
undefined. -/
def Call.Correct : Call → Prop
  | add o => ∃ r, funcADD o.R o.paIN1 o.paIN2 = some r ∧
      r.val ≡ o.paIN1.val + o.paIN2.val [ZMOD o.R.native.modulus]
  | sub o => ∃ r, funcSUB o.R o.paIN1 o.paIN2 = some r ∧
      r.val ≡ o.paIN1.val - o.paIN2.val [ZMOD o.R.native.modulus]
  | mul o => ∃ r, funcMUL o.R o.paIN1 o.paIN2 = some r ∧
      r.val ≡ o.paIN1.val * o.paIN2.val [ZMOD o.R.native.modulus]
  | div o => ∃ r, funcDIV o.R o.paIN1 o.paIN2 = some r ∧
      r.val = if o.paIN2.val = 0 then 0 else o.paIN1.val.tdiv o.paIN2.val
  | mod o => ∃ r, funcMOD o.R o.paIN1 o.paIN2 = some r ∧
      r.val = if o.paIN2.val = 0 then 0 else o.paIN1.val.tmod o.paIN2.val
  | restore o => o.paIN2.val ≠ 0 → ∃ q p m r, funcDIV o.R o.paIN1 o.paIN2 = some q ∧
      funcMUL o.R q o.paIN2 = some p ∧ funcMOD o.R o.paIN1 o.paIN2 = some m ∧
      funcADD o.R p m = some r ∧ r.val = o.paIN1.val
  | divTime _ paIN1 paIN2 => ∃ r, funcDIVTIME paIN1 paIN2 = some r ∧
      r.val = if paIN2.val = 0 then 0 else paIN1.val.tdiv paIN2.val
  | divLTime _ paIN1 paIN2 => ∃ r, funcDIVLTIME paIN1 paIN2 = some r ∧
      r.val = if paIN2.val = 0 then 0 else paIN1.val.tdiv paIN2.val
  | abs T paIN => ∃ r, funcABS paIN = some r ∧ r.val ≡ |paIN.val| [ZMOD T.native.modulus]

/-- The operators calculate in an unsigned type, or the number fits the type. -/
def Operands.Calculable (o : Operands) (number : ℤ) : Prop :=
  (o.T.native.common o.U.native).signed = false ∨ (o.T.native.common o.U.native).Fits number

/-- A duration can be divided by the number: it is not the least one divided by -1; a `ULINT`
divides only durations that are not negative, or it is so large that the duration as an unsigned
number is less. -/
def DividesDuration (U : AnyInt) (duration divisor : ℤ) : Prop :=
  if U = .ulint then 0 ≤ duration ∨ divisor = 0 ∨ divisor = 1 ∨ 2 ^ 64 < divisor + |duration|
  else ¬(duration = -2 ^ 63 ∧ divisor = -1)

/-- When the result is right. -/
def Call.HoldsWhen : Call → Prop
  | add o => o.Calculable (o.paIN1.val + o.paIN2.val)
  | sub o => o.Calculable (o.paIN1.val - o.paIN2.val)
  | mul o => o.Calculable (o.paIN1.val * o.paIN2.val)
  | div o => ¬(o.paIN1.val = o.R.native.min ∧ o.paIN2.val = -1)
  | mod o => ¬(o.R.Wide ∧ o.paIN1.val = o.R.native.min ∧ o.paIN2.val = -1)
  | restore o => ¬(o.R.Wide ∧ o.paIN1.val = o.R.native.min ∧ o.paIN2.val = -1)
  | divTime U paIN1 paIN2 => DividesDuration U paIN1.val paIN2.val
  | divLTime U paIN1 paIN2 => DividesDuration U paIN1.val paIN2.val
  | abs T paIN => ¬(T.Wide ∧ paIN.val = T.native.min)

/-! ### The type of the result -/

section

variable {t u r : AnyInt}

/-- The type of the result is not wider than the one the compiler calculates in, which has all
its values, and it has all values of the operands. -/
theorem within_of_castableType (h : t.castableType u = some r) :
    r.native.width ≤ (t.native.common u.native).width ∧
      r.native.Within (t.native.common u.native) ∧ t.native.Within r.native ∧
      u.native.Within r.native := by
  have hall : ∀ r ∈ t.castableType u, r.native.width ≤ (t.native.common u.native).width ∧
      r.native.Within (t.native.common u.native) ∧ t.native.Within r.native ∧
      u.native.Within r.native := by
    cases t <;> cases u <;> decide
  exact hall r h

/-- It can be combined with the second operand again. -/
theorem castableType_of_castableType (h : t.castableType u = some r) :
    r.castableType u = some r := by
  have hall : ∀ r ∈ t.castableType u, r.castableType u = some r := by
    cases t <;> cases u <;> decide
  exact hall r h

theorem castableType_self (r : AnyInt) : r.castableType r = some r := by
  cases r <;> decide

end

/-! ### Sums, differences and products -/

section

variable {s t r : NativeType} {z : ℤ}

/-- What is calculated and converted behind it is right, if it is defined. -/
theorem result_correct_iff (hwidth : r.width ≤ t.width) :
    (∃ v, ((t.result z).map fun n => r.convert n.val) = some v ∧ v.val ≡ z [ZMOD r.modulus]) ↔
      t.signed = false ∨ t.Fits z := by
  rw [NativeType.map_convert_val_result hwidth]
  by_cases hundefined : t.signed = true ∧ ¬t.Fits z
  · rw [if_pos hundefined]
    refine iff_of_false ?_ ?_
    · rintro ⟨v, hv, -⟩
      exact Option.some_ne_none v hv.symm
    · rintro (hunsigned | hfits)
      · exact Bool.false_ne_true (hunsigned.symm.trans hundefined.1)
      · exact hundefined.2 hfits
  · rw [if_neg hundefined]
    refine iff_of_true ⟨_, rfl, r.wrap_modEq z⟩ ?_
    rcases hsigned : t.signed with - | -
    · exact .inl rfl
    · exact .inr (not_not.mp fun hnot => hundefined ⟨hsigned, hnot⟩)

/-- What fits the type of the result comes out as it is. -/
theorem map_convert_of_fits (hz : r.Fits z) (hr : r.Within t) :
    ((t.result z).map fun n => r.convert n.val) = some ⟨z, hz⟩ := by
  have hfits := hz.of_within hr
  rw [hfits.result_eq, Option.map_some]
  refine congrArg some (Subtype.ext ?_)
  change r.wrap (t.wrap z) = z
  rw [hfits.wrap_eq, hz.wrap_eq]

/-! ### Quotients -/

/-- A quotient that fits. -/
theorem map_convert_div (hr : r.Within (s.common t)) {x : s.Value} {y : t.Value}
    (hx : r.Fits x.val) (hy : r.Fits y.val) (hne : y.val ≠ 0)
    (hmin : ¬(x.val = r.min ∧ y.val = -1)) :
    ((NativeType.div x y).map fun n => r.convert n.val) =
      some ⟨x.val.tdiv y.val, hx.tdiv hy hmin⟩ := by
  rw [NativeType.div_eq x y (hx.of_within hr) (hy.of_within hr) hne]
  exact map_convert_of_fits (hx.tdiv hy hmin) hr

/-- **A division** whose operands are values of the type of the result. -/
theorem div_correct_iff (hr : r.Within (s.common t)) (hs : s.Within r) (ht : t.Within r)
    (x : s.Value) (y : t.Value) :
    (∃ v, (if y.val ≠ 0 then (NativeType.div x y).map fun n => r.convert n.val
        else some (r.convert 0)) = some v ∧
      v.val = if y.val = 0 then 0 else x.val.tdiv y.val) ↔
      ¬(x.val = r.min ∧ y.val = -1) := by
  have hx : r.Fits x.val := x.2.of_within hs
  have hy : r.Fits y.val := y.2.of_within ht
  by_cases hzero : y.val = 0
  · rw [if_neg (not_not.mpr hzero), if_pos hzero]
    refine iff_of_true ⟨_, rfl, ?_⟩ fun hmin => ?_
    · exact NativeType.Fits.wrap_eq ⟨r.range.2.1, r.range.2.2⟩
    · have := hmin.2
      omega
  · rw [if_pos hzero, if_neg hzero]
    by_cases hmin : x.val = r.min ∧ y.val = -1
    · -- the quotient is one more than the type has
      refine iff_of_false ?_ (not_not.mpr hmin)
      rintro ⟨v, -, hv⟩
      have hsigned : r.signed = true := by
        by_contra hunsigned
        have := NativeType.min_of_unsigned (Bool.eq_false_of_not_eq_true hunsigned)
        have := hy.1
        omega
      refine NativeType.not_fits_tdiv_min hsigned ?_
      rw [← hmin.1, ← hmin.2, ← hv]
      exact v.2
    · exact iff_of_true ⟨_, map_convert_div hr hx hy hzero hmin, rfl⟩ hmin

end

/-! ### Remainders -/

theorem abs_le_modulus {t : NativeType} {z : ℤ} (h : t.Fits z) : |z| ≤ t.modulus := by
  obtain ⟨hmin, hmax⟩ := h
  obtain ⟨hsize, hzero, hzero'⟩ := t.range
  exact abs_le.mpr ⟨by omega, by omega⟩

/-- A quotient does not fit the type of its operands. -/
theorem not_fits_tdiv_iff {t : NativeType} (ht : t.signed = true) {x y : ℤ} (hx : t.Fits x)
    (hy : t.Fits y) : ¬t.Fits (x.tdiv y) ↔ x = t.min ∧ y = -1 := by
  constructor
  · intro hnot
    by_contra hmin
    exact hnot (hx.tdiv hy hmin)
  · rintro ⟨rfl, rfl⟩
    exact NativeType.not_fits_tdiv_min ht

section

variable {R : AnyInt} (x y : R.native.Value)

/-- The division that belongs to a remainder is undefined. -/
theorem overflows_tdiv_iff : ((R.native.common R.native).signed = true ∧
      ¬(R.native.common R.native).Fits (x.val.tdiv y.val)) ↔
    R.Wide ∧ x.val = R.native.min ∧ y.val = -1 := by
  have hle : |x.val.tdiv y.val| ≤ 2 * R.native.modulus := by
    have habs : |x.val.tdiv y.val| ≤ |x.val| := by
      rw [Int.abs_eq_natAbs, Int.abs_eq_natAbs]
      exact_mod_cast Int.natAbs_tdiv_le_natAbs x.val y.val
    have := abs_le_modulus x.2
    have := R.native.modulus_pos
    omega
  rw [AnyInt.overflows_iff hle]
  exact and_congr_right fun hwide => not_fits_tdiv_iff hwide.signed x.2 y.2

/-- **A remainder** is right, but undefined where the quotient is. -/
theorem modOperation_eq : modOperation R x y =
    if R.Wide ∧ x.val = R.native.min ∧ y.val = -1 then none
    else some (R.native.convert (if y.val = 0 then 0 else x.val.tmod y.val)) := by
  obtain ⟨-, hr, -, -⟩ := within_of_castableType (castableType_self R)
  rw [modOperation]
  by_cases hzero : y.val = 0
  · rw [if_pos hzero, if_pos hzero, if_neg fun h => ?_]
    have := h.2.2
    omega
  · rw [if_neg hzero, if_neg hzero,
      NativeType.mod_eq x y (x.2.of_within hr) (y.2.of_within hr) hzero, NativeType.result]
    by_cases hmin : R.Wide ∧ x.val = R.native.min ∧ y.val = -1
    · rw [if_pos ((overflows_tdiv_iff x y).mpr hmin), if_pos hmin]
      rfl
    · rw [if_neg fun h => hmin ((overflows_tdiv_iff x y).mp h), if_neg hmin]
      refine congrArg some (Subtype.ext ?_)
      have hfits : R.native.Fits (x.val.tmod y.val) := x.2.tmod y.val
      change R.native.wrap ((R.native.common R.native).wrap _) = R.native.wrap _
      rw [(hfits.of_within hr).wrap_eq]

end

section

variable (o : Operands)

theorem Operands.fits₁ : o.R.native.Fits o.paIN1.val :=
  o.paIN1.2.of_within (within_of_castableType o.castable).2.2.1

theorem Operands.fits₂ : o.R.native.Fits o.paIN2.val :=
  o.paIN2.2.of_within (within_of_castableType o.castable).2.2.2

/-- A conversion of a value to a type that has it. -/
theorem convert_of_fits {t : NativeType} {z : ℤ} (h : t.Fits z) : t.convert z = ⟨z, h⟩ :=
  Subtype.ext h.wrap_eq

theorem funcMOD_eq : funcMOD o.R o.paIN1 o.paIN2 =
    if o.R.Wide ∧ o.paIN1.val = o.R.native.min ∧ o.paIN2.val = -1 then none
    else some (o.R.native.convert
      (if o.paIN2.val = 0 then 0 else o.paIN1.val.tmod o.paIN2.val)) := by
  rw [funcMOD, convert_of_fits o.fits₁, convert_of_fits o.fits₂, modOperation_eq]

/-- The remainder is a value of the type of the result. -/
theorem Operands.fits_tmod : o.R.native.Fits
    (if o.paIN2.val = 0 then 0 else o.paIN1.val.tmod o.paIN2.val) := by
  split_ifs
  · exact ⟨o.R.native.range.2.1, o.R.native.range.2.2⟩
  · exact o.fits₁.tmod _

theorem mod_correct_iff : (Call.mod o).Correct ↔ (Call.mod o).HoldsWhen := by
  rw [Call.Correct, Call.HoldsWhen, funcMOD_eq]
  by_cases hmin : o.R.Wide ∧ o.paIN1.val = o.R.native.min ∧ o.paIN2.val = -1
  · rw [if_pos hmin]
    refine iff_of_false ?_ (not_not.mpr hmin)
    rintro ⟨r, hr, -⟩
    exact Option.some_ne_none r hr.symm
  · rw [if_neg hmin]
    exact iff_of_true ⟨_, rfl, o.fits_tmod.wrap_eq⟩ hmin

/-! ### Quotients and remainders together -/

/-- Where the quotient fits, the dividend is restored. -/
theorem restore_correct_of_fits (hmin : ¬(o.paIN1.val = o.R.native.min ∧ o.paIN2.val = -1)) :
    (Call.restore o).Correct := by
  intro hne
  obtain ⟨-, hr, -, -⟩ := within_of_castableType o.castable
  obtain ⟨-, hmul, -, -⟩ := within_of_castableType (castableType_of_castableType o.castable)
  obtain ⟨-, hadd, -, -⟩ := within_of_castableType (castableType_self o.R)
  have hsum := Int.tmod_add_tdiv_mul o.paIN1.val o.paIN2.val
  have hproduct := NativeType.Fits.tdiv_mul o.fits₁ o.paIN2.val
  refine ⟨⟨_, o.fits₁.tdiv o.fits₂ hmin⟩, ⟨_, hproduct⟩, ⟨_, o.fits₁.tmod o.paIN2.val⟩,
    ⟨_, o.fits₁⟩, ?_, ?_, ?_, ?_, rfl⟩
  · rw [funcDIV, if_pos hne]
    exact map_convert_div hr o.fits₁ o.fits₂ hne hmin
  · rw [funcMUL, NativeType.mul_eq]
    exact map_convert_of_fits hproduct hmul
  · rw [funcMOD_eq, if_neg fun h => hmin h.2, if_neg hne]
    exact congrArg some (convert_of_fits _)
  · rw [funcADD, NativeType.add_eq]
    dsimp only
    rw [Int.add_comm, hsum]
    exact map_convert_of_fits o.fits₁ hadd

/-- The types of operands of which the first one is the least value and the second one -1. -/
theorem operands_of_min {T U R : AnyInt} (castable : T.castableType U = some R) (hwide : ¬R.Wide)
    (hx : T.native.Fits R.native.min) (hy : U.native.Fits (-1)) :
    T = .sint ∧ U = .sint ∧ R = .sint ∨ T = .int ∧ U = .sint ∧ R = .int ∨
      T = .int ∧ U = .int ∧ R = .int := by
  have hall : ∀ R ∈ T.castableType U, ¬R.Wide → T.native.Fits R.native.min → U.native.Fits (-1) →
      T = .sint ∧ U = .sint ∧ R = .sint ∨ T = .int ∧ U = .sint ∧ R = .int ∨
        T = .int ∧ U = .int ∧ R = .int := by
    cases T <;> cases U <;> decide
  exact hall R castable hwide hx hy

/-- The least value of a type that is promoted, divided by -1, is restored although the quotient
does not fit. -/
theorem restore_correct_of_min (hwide : ¬o.R.Wide)
    (hmin : o.paIN1.val = o.R.native.min ∧ o.paIN2.val = -1) : (Call.restore o).Correct := by
  intro hne
  obtain ⟨T, U, R, castable, ⟨x, hx⟩, ⟨y, hy⟩⟩ := o
  obtain ⟨hx', hy'⟩ := hmin
  dsimp only at hx' hy' hwide
  subst hx' hy'
  -- only `INT` and `SINT` are signed and promoted, and they divide only by `INT` and `SINT`
  have hmin : R.native.Fits R.native.min :=
    ⟨le_refl _, R.native.range.2.1.trans R.native.range.2.2⟩
  refine ⟨⟨_, hmin⟩, ⟨_, hmin⟩, ⟨0, R.native.range.2⟩, ⟨_, hmin⟩, ?_⟩
  rcases operands_of_min castable hwide hx hy with
    ⟨rfl, rfl, rfl⟩ | ⟨rfl, rfl, rfl⟩ | ⟨rfl, rfl, rfl⟩
  · decide +kernel +revert
  · decide +kernel +revert
  · decide +kernel +revert

theorem restore_correct_iff : (Call.restore o).Correct ↔ (Call.restore o).HoldsWhen := by
  rw [Call.HoldsWhen]
  constructor
  · intro h hmin
    obtain ⟨q, p, m, r, -, -, hmod, -⟩ := h (by rw [hmin.2.2]; decide)
    rw [funcMOD_eq, if_pos hmin] at hmod
    exact Option.some_ne_none m hmod.symm
  · intro h
    by_cases hmin : o.paIN1.val = o.R.native.min ∧ o.paIN2.val = -1
    · exact restore_correct_of_min o (fun hwide => h ⟨hwide, hmin⟩) hmin
    · exact restore_correct_of_fits o hmin

end

/-! ### Durations -/

section

variable {U : AnyInt} (paIN1 : duration.Value) (paIN2 : U.native.Value)

/-- A negative duration is made unsigned before it is divided by a `ULINT`. -/
theorem wrap_tdiv_wrap_iff {x y : ℤ} (hx : duration.Fits x) (hy : AnyInt.ulint.native.Fits y)
    (hne : y ≠ 0) : duration.wrap ((AnyInt.ulint.native.wrap x).tdiv y) = x.tdiv y ↔
      0 ≤ x ∨ y = 1 ∨ 2 ^ 64 < y + |x| := by
  have hmodulus : AnyInt.ulint.native.modulus = 2 ^ 64 ∧ duration.modulus = 2 ^ 64 := by decide
  have hsize : duration.min = -2 ^ 63 ∧ duration.max = 2 ^ 63 - 1 := by decide
  have hsize' : AnyInt.ulint.native.min = 0 ∧ AnyInt.ulint.native.max = 2 ^ 64 - 1 := by decide
  obtain ⟨hmin, hmax⟩ := hx
  obtain ⟨hmin', hmax'⟩ := hy
  have hpos : 0 < y := by omega
  rcases Int.lt_or_le x 0 with hneg | hnonneg
  · rw [NativeType.wrap_of_lt (t := AnyInt.ulint.native) (by omega) (by omega), hmodulus.1]
    by_cases hone : y = 1
    · rw [hone, Int.tdiv_one, Int.tdiv_one, NativeType.wrap_of_gt (by omega) (by omega),
        hmodulus.2, Int.add_sub_cancel]
      exact iff_of_true rfl (.inr (.inl rfl))
    · -- the quotient of the unsigned number is not negative, so both quotients have to be zero
      have hquotient : x.tdiv y = -((-x) / y) := by
        rw [← Int.tdiv_eq_ediv_of_nonneg (by omega), Int.neg_tdiv, Int.neg_neg]
      have hquotient' : 0 ≤ (-x) / y := Int.ediv_nonneg (by omega) hpos.le
      rw [Int.tdiv_eq_ediv_of_nonneg (by omega), hquotient, abs_of_neg hneg]
      have hq : 0 ≤ (x + 2 ^ 64) / y := Int.ediv_nonneg (by omega) hpos.le
      have hle : (x + 2 ^ 64) / y * y ≤ x + 2 ^ 64 := Int.ediv_mul_le _ hne
      have htwo : (x + 2 ^ 64) / y * 2 ≤ (x + 2 ^ 64) / y * y :=
        Int.mul_le_mul_of_nonneg_left (by omega) hq
      rw [NativeType.Fits.wrap_eq ⟨by omega, by omega⟩]
      constructor
      · intro heq
        have hzero : (x + 2 ^ 64) / y = 0 := by omega
        have hlt := Int.lt_ediv_add_one_mul_self (x + 2 ^ 64) hpos
        rw [hzero, Int.zero_add, Int.one_mul] at hlt
        exact .inr (.inr (by omega))
      · rintro (hnonneg | hone' | hlt)
        · omega
        · exact absurd hone' hone
        · rw [Int.ediv_eq_zero_of_lt (by omega) (by omega),
            Int.ediv_eq_zero_of_lt (by omega) (by omega), Int.neg_zero]
  · -- a duration that is not negative is its own unsigned value
    have hq := Int.tdiv_nonneg hnonneg hpos.le
    have hle := Int.tdiv_le_self y hnonneg
    rw [NativeType.Fits.wrap_eq (t := AnyInt.ulint.native) ⟨by omega, by omega⟩,
      NativeType.Fits.wrap_eq ⟨by omega, by omega⟩]
    exact iff_of_true rfl (.inl hnonneg)

theorem divDuration_ulint_correct_iff (paIN2 : AnyInt.ulint.native.Value) :
    (∃ r, divDuration paIN1 paIN2 = some r ∧
      r.val = if paIN2.val = 0 then 0 else paIN1.val.tdiv paIN2.val) ↔
    DividesDuration .ulint paIN1.val paIN2.val := by
  rw [DividesDuration, if_pos rfl, divDuration]
  by_cases hzero : paIN2.val = 0
  · rw [if_neg (not_not.mpr hzero), if_pos hzero]
    exact iff_of_true ⟨_, rfl, rfl⟩ (.inr (.inl hzero))
  · -- the division is one of unsigned numbers, and the quotient is read as signed again
    have hresult : NativeType.div paIN1 paIN2 = some (AnyInt.ulint.native.convert
        ((AnyInt.ulint.native.wrap paIN1.val).tdiv paIN2.val)) := by
      have hsame := paIN2.2.wrap_eq
      refine (if_neg (hsame.symm ▸ hzero)).trans ?_
      rw [NativeType.result_of_unsigned rfl]
      exact congrArg (fun y => some (AnyInt.ulint.native.convert
        ((AnyInt.ulint.native.wrap paIN1.val).tdiv y))) hsame
    have hmap : ((NativeType.div paIN1 paIN2).map fun r => duration.convert r.val) =
        some (duration.convert ((AnyInt.ulint.native.wrap paIN1.val).tdiv paIN2.val)) := by
      rw [hresult]
      exact congrArg some (Subtype.ext (NativeType.wrap_wrap (s := duration)
        (t := AnyInt.ulint.native) (le_refl 64) _))
    rw [if_pos hzero, if_neg hzero, hmap, or_iff_right hzero,
      ← wrap_tdiv_wrap_iff paIN1.2 paIN2.2 hzero]
    constructor
    · rintro ⟨r, hr, hvalue⟩
      rw [← hvalue, ← Option.some.inj hr]
      rfl
    · exact fun heq => ⟨_, rfl, heq⟩

theorem divDuration_correct_iff : (∃ r, divDuration paIN1 paIN2 = some r ∧
      r.val = if paIN2.val = 0 then 0 else paIN1.val.tdiv paIN2.val) ↔
    DividesDuration U paIN1.val paIN2.val := by
  by_cases hulint : U = .ulint
  · subst hulint
    exact divDuration_ulint_correct_iff paIN1 paIN2
  · have hwithin : duration.Within (duration.common U.native) ∧ U.native.Within duration := by
      cases U with
      | ulint => exact absurd rfl hulint
      | _ => decide
    rw [DividesDuration, if_neg hulint]
    exact div_correct_iff hwithin.1 ⟨le_refl _, le_refl _⟩ hwithin.2 paIN1 paIN2

end

/-! ### Absolute values -/

theorem abs_correct_iff (T : AnyInt) (paIN : T.native.Value) :
    (Call.abs T paIN).Correct ↔ (Call.abs T paIN).HoldsWhen := by
  rw [Call.Correct, Call.HoldsWhen, funcABS]
  obtain ⟨hsize, hzero, hzero'⟩ := T.native.range
  rcases Int.lt_or_le paIN.val 0 with hneg | hnonneg
  · have hsigned : T.native.signed = true := by
      by_contra hunsigned
      have := NativeType.min_of_unsigned (Bool.eq_false_of_not_eq_true hunsigned)
      have := paIN.2.1
      omega
    have hmax := NativeType.max_of_signed hsigned
    have hone : T.native.Fits (-1) := ⟨by have := paIN.2.1; omega, by omega⟩
    rw [if_pos hneg, NativeType.mul_eq, convert_of_fits hone, abs_of_neg hneg]
    dsimp only
    rw [Int.mul_neg_one, NativeType.map_convert_val_result T.width_le_common]
    have habs : |-paIN.val| ≤ 2 * T.native.modulus := by
      rw [abs_neg]
      have := abs_le_modulus paIN.2
      have := T.native.modulus_pos
      omega
    -- only the least value has no negation in the type
    have hfits : ¬T.native.Fits (-paIN.val) ↔ paIN.val = T.native.min := by
      have := paIN.2.1
      constructor
      · intro hnot
        by_contra hne
        exact hnot ⟨by omega, by omega⟩
      · rintro heq ⟨-, hle⟩
        omega
    rw [if_congr ((AnyInt.overflows_iff habs).trans (and_congr_right fun _ => hfits)) rfl rfl]
    by_cases hmin : T.Wide ∧ paIN.val = T.native.min
    · rw [if_pos hmin]
      refine iff_of_false ?_ (not_not.mpr hmin)
      rintro ⟨r, hr, -⟩
      exact Option.some_ne_none r hr.symm
    · rw [if_neg hmin]
      exact iff_of_true ⟨_, rfl, T.native.wrap_modEq _⟩ hmin
  · rw [if_neg (by omega), abs_of_nonneg hnonneg]
    refine iff_of_true ⟨paIN, rfl, rfl⟩ fun hmin => ?_
    have := NativeType.max_of_signed hmin.1.signed
    omega

end IntegerArithmetic

end Forte
