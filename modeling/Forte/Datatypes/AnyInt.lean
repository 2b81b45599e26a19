import Forte.Datatypes.Elementary
import Forte.Lib.NativeInt

/-!
# The integer types and their native types

The types under `CIEC_ANY_INT`, and the `TValueType` of each.
-/

namespace Forte

/-- The types under `CIEC_ANY_INT`. -/
inductive AnyInt
  | sint | int | dint | lint | usint | uint | udint | ulint
  deriving DecidableEq, Repr

namespace AnyInt

/-- The type among those whose values are in the 64 bits of a `CIEC_ANY`. -/
def type : AnyInt → IntegralType
  | sint => .sint
  | int => .int
  | dint => .dint
  | lint => .lint
  | usint => .usint
  | uint => .uint
  | udint => .udint
  | ulint => .ulint

/-- `TValueType`. -/
def native (t : AnyInt) : NativeType where
  signed := t.type.isSigned
  width := t.type.bitLength
  pos := by cases t <;> decide

/-- The signed types that are not promoted, in which operators can overflow. -/
def Wide (t : AnyInt) : Prop := t = dint ∨ t = lint

instance (t : AnyInt) : Decidable t.Wide := inferInstanceAs (Decidable (t = dint ∨ t = lint))

variable {t : AnyInt}

theorem Wide.signed (h : t.Wide) : t.native.signed = true := by
  rcases h with rfl | rfl <;> rfl

theorem width_le_common (t : AnyInt) : t.native.width ≤ (t.native.common t.native).width := by
  cases t <;> decide

/-- The wide types are not promoted. -/
theorem Wide.common_eq (h : t.Wide) : t.native.common t.native = t.native := by
  rcases h with rfl | rfl <;> rfl

/-- The others are unsigned afterwards, or have less than half of the values of `int`. -/
theorem common_of_not_wide (h : ¬t.Wide) : (t.native.common t.native).signed = false ∨
    t.native.common t.native = .int ∧ t.native.modulus ≤ 2 ^ 16 := by
  cases t with
  | dint => exact absurd (.inl rfl) h
  | lint => exact absurd (.inr rfl) h
  | udint => exact .inl rfl
  | ulint => exact .inl rfl
  | _ => exact .inr ⟨rfl, by decide⟩

/-- **An operator on two values of one type** overflows only where the result does not fit a
type that is not promoted. -/
theorem overflows_iff {z : ℤ} (hz : |z| ≤ 2 * t.native.modulus) :
    ((t.native.common t.native).signed = true ∧ ¬(t.native.common t.native).Fits z) ↔
      t.Wide ∧ ¬t.native.Fits z := by
  obtain ⟨hlower, hupper⟩ := abs_le.mp hz
  by_cases hwide : t.Wide
  · rw [hwide.common_eq, hwide.signed]
    simp only [hwide, true_and]
  · refine iff_of_false ?_ fun hnot => hwide hnot.1
    rintro ⟨hsigned, hnot⟩
    rcases common_of_not_wide hwide with hunsigned | ⟨hint, hsmall⟩
    · rw [hunsigned] at hsigned
      exact Bool.false_ne_true hsigned
    · rw [hint] at hnot
      refine hnot ⟨le_trans ?_ hlower, hupper.trans ?_⟩
      · exact le_trans (by decide : NativeType.int.min ≤ -(2 * 2 ^ 16)) (by omega)
      · exact le_trans (by omega) (by decide : (2 * 2 ^ 16 : ℤ) ≤ NativeType.int.max)

/-- The same with the conversion back. -/
theorem map_convert_result {z : ℤ} (hz : |z| ≤ 2 * t.native.modulus) :
    (((t.native.common t.native).result z).map fun r => t.native.convert r) =
      if t.Wide ∧ ¬t.native.Fits z then none else some (t.native.convert z) := by
  rw [NativeType.map_convert_result t.width_le_common]
  exact if_congr (overflows_iff hz) rfl rfl

end AnyInt

end Forte
