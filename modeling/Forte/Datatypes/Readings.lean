import Forte.Datatypes.DurationText
import Forte.Datatypes.VariableType

/-!
# What is read of numbers and durations

What is left of a text behind a number or a duration is an end of it, so the length of what was
read is a length in the text. A number is stored if it is in the range of the type, whatever
follows it, and where there is no digit, the number is zero (`Forte.IntegralType.reading`).
-/

namespace Forte

/-! ### What is left of a text -/

theorem strtoLoop_suffix (base : ℕ) (exceeds : BitVec 64 → ℕ → Bool) (value : BitVec 64)
    (t : Text) : (strtoLoop base exceeds value t).rest <:+ t := by
  induction t generalizing value with
  | nil => exact List.suffix_rfl
  | cons c t ih =>
    rw [strtoLoop]
    split
    · split
      · exact List.suffix_rfl
      · exact (ih _).trans (List.suffix_cons c t)
    · exact List.suffix_rfl

theorem skipHexPrefix_suffix (base : ℕ) (t : Text) : skipHexPrefix base t <:+ t := by
  rw [skipHexPrefix]
  split
  · exact List.drop_suffix 2 t
  · exact List.suffix_rfl

theorem strtoull_suffix (base : ℕ) (t : Text) : (strtoull base t).rest <:+ t :=
  (strtoLoop_suffix _ _ _ _).trans (skipHexPrefix_suffix base t)

theorem strtoSigned_suffix (bits base : ℕ) (t : Text) : (strtoSigned bits base t).rest <:+ t := by
  have hloop : ∀ exceeds u, u <:+ t →
      (strtoLoop base exceeds 0 (skipHexPrefix base u)).rest <:+ t := fun exceeds u hu =>
    (strtoLoop_suffix _ _ _ _).trans ((skipHexPrefix_suffix base u).trans hu)
  rw [strtoSigned]
  split
  · split
    · exact hloop _ _ (List.drop_suffix 1 t)
    · exact hloop _ _ (List.drop_suffix 1 t)
  · split
    · exact hloop _ _ List.suffix_rfl
    · exact hloop _ _ List.suffix_rfl

/-! ### Numbers -/

theorem literalBase_suffix {t digits : Text} {base : ℕ} (h : literalBase t = some (base, digits)) :
    digits <:+ t := by
  have hdrop : ∀ n, t.drop n <:+ t := fun n => List.drop_suffix n t
  rw [literalBase] at h
  grind

theorem skipTypeSpecifier_suffix {t rest : Text} (h : skipTypeSpecifier t = some rest) :
    rest <:+ t := by
  rw [skipTypeSpecifier] at h
  split at h
  · split at h
    · rw [← Option.some.inj h]
      exact (List.drop_suffix 1 _).trans (List.dropWhile_suffix _)
    · cases h
  · exact (Option.some.inj h) ▸ List.suffix_rfl

namespace IntegralType

theorem readNumber_suffix {t : IntegralType} {base : ℕ} {digits rest : Text} {number : BitVec 64}
    (h : t.readNumber base digits = some (number, rest)) : rest <:+ digits := by
  rw [readNumber] at h
  split at h
  · dsimp only at h
    split at h
    · rw [← (Prod.mk.inj (Option.some.inj h)).2]
      exact strtoSigned_suffix 64 base digits
    · cases h
  · split at h
    · dsimp only at h
      split at h
      · rw [← (Prod.mk.inj (Option.some.inj h)).2]
        exact strtoull_suffix base digits
      · cases h
    · cases h

/-- What `CIEC_ANY_ELEMENTARY::fromString` and `CIEC_BOOL::fromString` do. -/
def reading (t : IntegralType) (value : Text) : Reading :=
  if t = bool then
    let read := boolFromString 0 value
    if read.1 < 0 then ⟨none, none⟩ else ⟨some read.1.toNat, some (.number t read.2)⟩
  else if value = [] then ⟨none, none⟩
  else
    match (skipTypeSpecifier value).bind literalBase with
    | none => ⟨none, none⟩
    | some (base, digits) =>
      match t.readNumber base digits with
      | none => ⟨none, none⟩
      | some (number, rest) =>
        let length := value.length - rest.length
        ⟨if asInt length = 0 then none else some length, some (.number t number)⟩

/-- A struct is written up to the member that is wrong, and that one becomes zero. -/
example :
    (VariableType.struct "P" ["a", "b"]
      [.elementary int.reading, .elementary int.reading]).fromString
      (.struct "P" ["a", "b"] [.number .int 7, .number .int 7]) (text "(a:=5,b:=x)") =
        (-1, .struct "P" ["a", "b"] [.number .int 5, .number .int 0]) := rfl

end IntegralType

/-! ### Durations -/

theorem readDuration_suffix {stops : UInt8 → Bool} {nTimeSignFactor : BitVec 64} {rounds : ℕ}
    {nIntVal number : BitVec 64} {nTimeFactor : ℕ} {t rest : Text}
    (h : readDuration stops nTimeSignFactor rounds nIntVal nTimeFactor t = some (number, rest)) :
    rest <:+ t := by
  induction rounds generalizing nIntVal nTimeFactor t with
  | zero => cases h
  | succ rounds ih =>
    have hend : (strtol 10 t).rest <:+ t := strtoSigned_suffix 32 10 t
    rw [readDuration] at h
    dsimp only at h
    split at h
    · cases h
    · split at h
      · cases h
      · exact (Prod.mk.inj (Option.some.inj h)).2 ▸ hend
    · rename_i nTimeFactor length _
      have hrest := (List.drop_suffix length (strtol 10 t).rest).trans hend
      split at h
      · exact (Prod.mk.inj (Option.some.inj h)).2 ▸ hrest
      · exact (ih h).trans hrest

end Forte
