import Forte.Datatypes.Datum

/-!
# Variables of any type

A `CIEC_ANY_VARIANT` holds a value of one of the alternatives of its variant, and a write to it
replaces the value together with its type. It is what the generic data inputs and outputs of
the communication blocks are.
-/

namespace Forte

/-- The alternatives of `TIecAnyVariantType`. A fixed string is held as a `CIEC_STRING`. -/
def IsAlternative : Datum → Prop
  | .any _ => False
  | .string bound _ => bound = none
  | _ => True

/-- A `CIEC_ANY_VARIANT`. -/
@[ext]
structure AnyVariant where
  held : Datum
  isAlternative : IsAlternative held

/-- `CIEC_ANY_VARIANT::setValue`, after which nothing is left of what was held before. -/
def AnyVariant.setValue : Datum → AnyVariant
  | .any w => setValue w
  | .string _ storage => ⟨.string none storage, rfl⟩
  | .number t data => ⟨.number t data, trivial⟩
  | .duration t data => ⟨.duration t data, trivial⟩
  | .date t data => ⟨.date t data, trivial⟩
  | .real t data => ⟨.real t data, trivial⟩
  | .char data => ⟨.char data, trivial⟩
  | .wchar data => ⟨.wchar data, trivial⟩
  | .wstring storage => ⟨.wstring storage, trivial⟩
  | .array lowerBound elements => ⟨.array lowerBound elements, trivial⟩
  | .struct structTypeName elementNames members =>
    ⟨.struct structTypeName elementNames members, trivial⟩

/-- A variable that has been constructed holds the first alternative, a `CIEC_SINT`. -/
def AnyVariant.initial : AnyVariant := ⟨.number .sint 0, trivial⟩

namespace AnyVariant

theorem held_setValue {v : Datum} (h : IsAlternative v) : (setValue v).held = v := by
  cases v with
  | any w => exact h.elim
  | string bound storage =>
    obtain rfl : bound = none := h
    rfl
  | _ => rfl

/-- A variable that is written to another one is the same there. -/
theorem setValue_held (x : AnyVariant) : setValue x.held = x :=
  AnyVariant.ext (held_setValue x.isAlternative)

end AnyVariant

end Forte
