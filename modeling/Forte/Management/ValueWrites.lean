import Forte.Datatypes.Readings
import Forte.Management.InitialValues

/-!
# Writing a variable

`writeValue` reads the text straight into the variable, and only then looks whether all of it was
a literal and whether there is a port to be forced. If one of these is not so the write is
refused, but what has been read of the text is in the variable already: `5x` makes a 5 of an
`INT`, a text without digits a 0, and a struct is written up to the member where the text is
wrong.

So a write is all or nothing (`Forte.TypedResource.Atomic`) in two cases only: the text is a
literal from its first to its last character and nothing else is wrong; or all that can be read
of it is there already (`Forte.VariableType.Gives`). There is a third condition, on texts of some
gigabytes, as the lengths are compared as `int`s (`Forte.TypedResource.Wraps`).
-/

namespace Forte

/-- A resource whose variables have types. -/
structure TypedResource extends Resource where
  /-- The type of the variables that have a value. -/
  typeOf : Datum → VariableType
  fits : ∀ v, (typeOf v).Fits v
  fromString_eq : ∀ v value, fromString v value = (typeOf v).fromString v value

namespace TypedResource

variable (R : TypedResource)

/-- The whole text is a literal of the type of a value. -/
def Whole (v : Datum) (value : Text) : Prop :=
  (R.typeOf v).literal (cString value) = some value.length

/-- The literal at the front of a text is not the whole text, but has the same length as an
`int`. -/
def Wraps (v : Datum) (value : Text) : Prop :=
  ¬R.Whole v value ∧ returned ((R.typeOf v).literal (cString value)) = asInt value.length

/-- **A write is all or nothing**: if it is refused, the variable, the forces and the table of
the initial values are as before, and if it is not, the whole text was a literal. -/
structure Atomic (s : ResourceState) (names : List StringId) (value : Text) (force : Bool) :
    Prop where
  refused : (R.writeValue s names value force).1 ≠ .ready →
    (∀ x v, R.getVar s names = some (x, v) →
      (R.writeValue s names value force).2.valueAt x = some v) ∧
    (R.writeValue s names value force).2.forced = s.forced ∧
    (R.writeValue s names value force).2.initialValues = s.initialValues
  ready : (R.writeValue s names value force).1 = .ready →
    ∃ x v, R.getVar s names = some (x, v) ∧ R.Whole v value

/-- **What a write has to keep to**, if it finds a variable and has a text: the whole text is a
literal, and if it has to be forced the names are those of a data port; or all that can be read
of the text gives to the variable the value that it has, and the lengths are not mistaken for
each other. -/
def Harmless (s : ResourceState) (names : List StringId) (value : Text) (force : Bool) : Prop :=
  ∀ x v, R.getVar s names = some (x, v) → value ≠ [] →
    R.Whole v value ∧ (force → R.setForced s.tree [] names) ∨
      (R.typeOf v).Gives v [cString value] v ∧
        ¬(R.Wraps v value ∧ (force → R.setForced s.tree [] names))

variable {R} {s : ResourceState} {names : List StringId} {value : Text} {force : Bool}
variable {x : VariablePath} {v : Datum}

/-- **What a write does** with a text that is not empty. -/
theorem writeValue_eq (hvar : R.getVar s names = some (x, v)) (hne : value ≠ []) :
    R.writeValue s names value force =
      let s' := s.setAt x ((R.typeOf v).readAll v [cString value])
      if returned ((R.typeOf v).literal (cString value)) ≠ asInt value.length then (.badParams, s')
      else if force ∧ ¬R.setForced s.tree [] names then (.noSuchObject, s')
      else
        (.ready, { s' with
          forced := if force then names :: s.forced else s.forced
          initialValues :=
            if s.getState = some .idle then Resource.emplace names value s.initialValues
            else s.initialValues }) := by
  have hlength := ((R.typeOf v).sound v (cString value) (R.fits v)).1
  simp only [Resource.writeValue, hvar, if_neg hne, R.fromString_eq, hlength]
  rfl

/-- A variable that is found has the value that is found. -/
theorem valueAt_of_getVar (hvar : R.getVar s names = some (x, v)) : s.valueAt x = some v := by
  rw [Resource.getVar] at hvar
  obtain ⟨y, -, hy⟩ := Option.bind_eq_some_iff.mp hvar
  obtain ⟨w, hw, heq⟩ := Option.map_eq_some_iff.mp hy
  obtain ⟨rfl, rfl⟩ := Prod.mk.inj heq
  exact hw

/-- A write that is refused with a text is all or nothing, if and only if the text gives to the
variable the value that it has. -/
theorem atomic_refused (hvar : R.getVar s names = some (x, v)) (response : EMGMResponse)
    (hresponse : response ≠ .ready)
    (heq : R.writeValue s names value force =
      (response, s.setAt x ((R.typeOf v).readAll v [cString value]))) :
    R.Atomic s names value force ↔ (R.typeOf v).Gives v [cString value] v := by
  have hsome : (valueIn s.values x).isSome := by
    rw [show valueIn s.values x = some v from valueAt_of_getVar hvar]
    rfl
  have hnew : (R.writeValue s names value force).2.valueAt x =
      some ((R.typeOf v).readAll v [cString value]) := by
    rw [heq]
    exact valueIn_setIn hsome _
  rw [VariableType.gives_iff (R.fits v) (R.fits v)]
  constructor
  · rintro ⟨hrefused, -⟩
    have hold := (hrefused (by rw [heq]; exact hresponse)).1 x v hvar
    exact Option.some.inj (hnew.symm.trans hold)
  · intro hsame
    refine ⟨fun _ => ⟨fun x' v' hvar' => ?_, by rw [heq]; rfl, by rw [heq]; rfl⟩, fun hready => ?_⟩
    · obtain ⟨rfl, rfl⟩ := Prod.mk.inj (Option.some.inj (hvar'.symm.trans hvar))
      rw [hnew, hsame]
    · rw [heq] at hready
      exact absurd hready hresponse

/-- A write that succeeds is all or nothing, if and only if the whole text is a literal. -/
theorem atomic_ready (hvar : R.getVar s names = some (x, v))
    (hready : (R.writeValue s names value force).1 = .ready) :
    R.Atomic s names value force ↔ R.Whole v value := by
  constructor
  · rintro ⟨-, hwhole⟩
    obtain ⟨x', v', hvar', hv'⟩ := hwhole hready
    obtain ⟨rfl, rfl⟩ := Prod.mk.inj (Option.some.inj (hvar'.symm.trans hvar))
    exact hv'
  · exact fun hwhole => ⟨fun hne => absurd hready hne, fun _ => ⟨x, v, hvar, hwhole⟩⟩

/-- A write that changes nothing is all or nothing. -/
theorem atomic_unchanged (response : EMGMResponse) (hresponse : response ≠ .ready)
    (heq : R.writeValue s names value force = (response, s)) : R.Atomic s names value force := by
  refine ⟨fun _ => ⟨fun x v hvar => ?_, by rw [heq], by rw [heq]⟩, fun hready => ?_⟩
  · rw [heq]
    exact valueAt_of_getVar hvar
  · rw [heq] at hready
    exact absurd hready hresponse

/-- **A write is all or nothing** if and only if it is harmless. -/
theorem writeValue_atomic : R.Atomic s names value force ↔ R.Harmless s names value force := by
  rcases hvar : R.getVar s names with _ | ⟨x, v⟩
  · refine iff_of_true (atomic_unchanged .noSuchObject (by decide) ?_) ?_
    · simp only [Resource.writeValue, hvar]
    · intro x v hsome
      cases hvar.symm.trans hsome
  rcases eq_or_ne value [] with hempty | hne
  · refine iff_of_true (atomic_unchanged .badParams (by decide) ?_) ?_
    · simp only [Resource.writeValue, hvar, if_pos hempty]
    · exact fun _ _ _ hne => absurd hempty hne
  -- a variable is found, and has a text
  have hharmless : R.Harmless s names value force ↔
      R.Whole v value ∧ (force → R.setForced s.tree [] names) ∨
        (R.typeOf v).Gives v [cString value] v ∧
          ¬(R.Wraps v value ∧ (force → R.setForced s.tree [] names)) := by
    refine ⟨fun h => h x v hvar hne, fun h x' v' hvar' _ => ?_⟩
    obtain ⟨rfl, rfl⟩ := Prod.mk.inj (Option.some.inj (hvar'.symm.trans hvar))
    exact h
  have heq := @writeValue_eq R s names value force x v hvar hne
  have htaken : R.Whole v value →
      returned ((R.typeOf v).literal (cString value)) = asInt value.length := by
    intro hwhole
    rw [hwhole]
    rfl
  rw [hharmless]
  by_cases hsame : returned ((R.typeOf v).literal (cString value)) = asInt value.length
  · by_cases hport : force → R.setForced s.tree [] names
    · have hready : (R.writeValue s names value force).1 = .ready := by
        rw [heq]
        simp only [hsame, ne_eq, not_true_eq_false, if_false]
        rw [if_neg fun hrefused => hrefused.2 (hport hrefused.1)]
      rw [atomic_ready hvar hready, Wraps]
      constructor
      · exact fun hwhole => .inl ⟨hwhole, hport⟩
      · rintro (⟨hwhole, -⟩ | ⟨-, hnot⟩)
        · exact hwhole
        · by_contra hwhole
          exact hnot ⟨⟨hwhole, hsame⟩, hport⟩
    · rw [atomic_refused hvar .noSuchObject (by decide)]
      · constructor
        · exact fun hgives => .inr ⟨hgives, fun h => hport h.2⟩
        · rintro (⟨-, hp⟩ | ⟨hgives, -⟩)
          · exact absurd hp hport
          · exact hgives
      · rw [heq]
        simp only [hsame, ne_eq, not_true_eq_false, if_false]
        rw [if_pos (Classical.not_imp.mp hport)]
  · rw [atomic_refused hvar .badParams (by decide)]
    · have hwhole : ¬R.Whole v value := fun hwhole => hsame (htaken hwhole)
      simp only [Wraps, hwhole, hsame, false_and, and_false, not_false_eq_true, and_true, false_or]
    · rw [heq]
      simp only [hsame, ne_eq, not_false_eq_true, if_true]

/-! ### Runs -/

variable (R)

/-- Every write of a run is all or nothing. -/
def AtomicAll (s : ResourceState) : List Resource.Event → Prop
  | [] => True
  | .writeValue names value force :: es =>
    R.Atomic s names value force ∧ AtomicAll (R.step s (.writeValue names value force)) es
  | e :: es => AtomicAll (R.step s e) es

/-- Every write of a run is harmless. -/
def HarmlessAll (s : ResourceState) : List Resource.Event → Prop
  | [] => True
  | .writeValue names value force :: es =>
    R.Harmless s names value force ∧ HarmlessAll (R.step s (.writeValue names value force)) es
  | e :: es => HarmlessAll (R.step s e) es

/-- **The writes of a run** of the resource, among commands and execution, are all or nothing if
and only if they are harmless. -/
theorem writes_iff (es : List Resource.Event) :
    R.AtomicAll R.fresh es ↔ R.HarmlessAll R.fresh es := by
  generalize R.fresh = s
  induction es generalizing s with
  | nil => exact Iff.rfl
  | cons e es ih =>
    cases e with
    | writeValue names value force => exact and_congr writeValue_atomic (ih _)
    | command cmd => exact ih _
    | execute values => exact ih _

/-! ### A resource with a number -/

/-- The type of the variables with a value: of the numbers what is read of numbers, and nothing
is read of other values. -/
def numberType : Datum → VariableType
  | .number t _ => .elementary t.reading
  | _ => .elementary fun _ => ⟨none, none⟩

/-- A resource with one function block, which has an `INT`. -/
def oneNumber : TypedResource where
  toResource := { Resource.oneVariable with fromString := fun v => (numberType v).fromString v }
  typeOf := numberType
  fits := by
    intro v
    cases v <;> exact trivial
  fromString_eq := fun _ _ => rfl

/-- **A write of `5x` is refused, and the variable is 5 afterwards**, which was 0. -/
theorem not_atomic_number :
    ¬oneNumber.AtomicAll oneNumber.fresh [.writeValue ["A", "X"] (text "5x") false] := by
  rintro ⟨⟨hrefused, -⟩, -⟩
  have hold := (hrefused (by decide)).1 Resource.pathX (.number .int 0) rfl
  have hnew : (oneNumber.writeValue oneNumber.fresh ["A", "X"] (text "5x") false).2.valueAt
      Resource.pathX = some (.number .int 5) := rfl
  have heq := Option.some.inj (hold.symm.trans hnew)
  exact absurd (Datum.number.inj heq).2 (by decide)

end TypedResource

end Forte
