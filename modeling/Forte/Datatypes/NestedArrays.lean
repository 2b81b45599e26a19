import Forte.Datatypes.ArrayRuns

/-!
# Arrays of arrays

Arrays are elements of arrays themselves, beside scalars (`Forte.IecArray.nested`): an element
that is an array is whole if it is sound, and the operations of arrays keep it so. With arrays of
scalars for the elements this gives arrays of arrays, and with these the next dimension.
-/

namespace Forte

/-- The types of elements. -/
inductive NestedType (P Ty : Type) where
  | scalar (t : P)
  | array (t : ArrayType Ty)
  deriving DecidableEq

/-- The elements: scalars, and arrays over other elements. -/
inductive NestedElement (V Ty E : Type) where
  | scalar (v : V)
  | array (x : IecArray Ty E)

namespace IecArray

variable {Ty E : Type} {el : ElementClass Ty E} {x y : IecArray Ty E}

def arrayType : IecArray Ty E → ArrayType Ty
  | ofFixed x => .fixed x.elementType x.lowerBound x.upperBound
  | ofVariable x => .ofVariable x.elementType
  | ofDynamic _ => .dynamic

variable (el) in
/-- The default constructors; no `CIEC_ARRAY_FIXED` has fewer than no elements. -/
def createArray : ArrayType Ty → IecArray Ty E
  | .fixed t lowerBound upperBound =>
    (createFixed el t lowerBound upperBound).getD (.ofDynamic emptyDynamic)
  | .ofVariable t => .ofVariable ⟨t, 0, -1, 0, []⟩
  | .dynamic => .ofDynamic emptyDynamic

theorem sound_createArray (t : ArrayType Ty) : Sound el (createArray el t) := by
  cases t with
  | fixed t lowerBound upperBound =>
    rw [createArray]
    rcases h : createFixed el t lowerBound upperBound with - | x
    · exact (sound_iff_of_empty rfl).mpr rfl
    · exact sound_createFixed h
  | ofVariable t => exact (sound_iff_of_empty rfl).mpr rfl
  | dynamic => exact (sound_iff_of_empty rfl).mpr rfl

variable [DecidableEq Ty]

variable (el) in
/-- The overload that is called for objects of two array types. -/
def overload (t u : Option Ty) : Overload := if typesAssignable el t u then .typed else .dynamic

variable (el) in
/-- The assignment that is called for two arrays whose types are known. -/
def assignKnown (x y : IecArray Ty E) : Option (IecArray Ty E × IecArray Ty E) :=
  assignBy el (overload el x.elementType y.elementType) x y

variable (el) in
/-- The same where the source is moved. -/
def assignMoveKnown (x y : IecArray Ty E) : Option (IecArray Ty E × IecArray Ty E) :=
  if applies el .move x y then assignMove el x y else assignKnown el x y

variable (el) in
/-- The constructor that is called for a type. -/
def constructKnown (t : ArrayType Ty) (y : IecArray Ty E) : Option (IecArray Ty E) :=
  if t = y.arrayType then copy el y
  else
    match t with
    | .fixed u _ _ => construct el t y (overload el (some u) y.elementType)
    | .ofVariable u => construct el t y (overload el (some u) y.elementType)
    | .dynamic => construct el t y .dynamic

theorem applies_overload :
    applies el (overload el x.elementType y.elementType) x y := by
  rw [overload]
  split_ifs with h
  · exact h
  · rfl

theorem overload_ne_move {t u : Option Ty} : overload el t u ≠ .move := by
  rw [overload]
  split_ifs <;> decide

theorem exists_assignKnown (hx : Sound el x) (hy : Sound el y) :
    ∃ r, assignKnown el x y = some r := by
  obtain ⟨r, hr, -⟩ := exists_assignBy hx hy applies_overload
  exact ⟨r, hr⟩

theorem exists_assignMoveKnown (hx : Sound el x) (hy : Sound el y) :
    ∃ r, assignMoveKnown el x y = some r := by
  rw [assignMoveKnown]
  split_ifs with h
  · obtain ⟨r, hr, -⟩ := exists_assignBy hx hy h
    exact ⟨r, hr⟩
  · exact exists_assignKnown hx hy

theorem sound_assignMoveKnown {r : IecArray Ty E × IecArray Ty E}
    (h : assignMoveKnown el x y = some r) (hx : Sound el x) (hy : Sound el y) :
    Sound el r.1 ∧ Sound el r.2 := by
  rw [assignMoveKnown] at h
  split_ifs at h
  · exact sound_assignBy (k := .move) h hx hy
  · exact sound_assignBy h hx hy

variable {P V : Type}

/-- **Scalars and arrays as elements.** The type entry of every array is that of
`CIEC_ARRAY_DYNAMIC`, for `getTypeNameID` of an array is its name. -/
def nested (S : Scalars P V) (el : ElementClass Ty E) :
    ElementClass (NestedType P Ty) (NestedElement V Ty E) where
  create
    | .scalar t => .scalar (S.create t)
    | .array t => .array (createArray el t)
  assignable
    | .scalar t, .scalar u => S.assignable t u
    | .array _, .array _ => true
    | _, _ => false
  convert
    | .scalar t, .scalar v => some (.scalar (S.convert t v))
    | .array t, .array y => (constructKnown el t y).map .array
    | _, _ => none
  copy
    | .scalar v => some (.scalar v)
    | .array x => (copy el x).map .array
  moved
    | .scalar v => .scalar (S.moved v)
    | .array x => .array (moved el x)
  assign
    | .scalar v, .scalar w => some (.scalar (S.assign v w))
    | .array x, .array y => (assignKnown el x y).map fun r => .array r.1
    -- there is no such assignment
    | e, _ => some e
  assignMove
    | .scalar v, .scalar w => some (.scalar (S.assign v w), .scalar (S.moved w))
    | .array x, .array y => (assignMoveKnown el x y).map fun r => (.array r.1, .array r.2)
    | e, s => some (e, s)
  setValue
    | .scalar v, .scalar w => some (.scalar (S.setValue v w))
    | .scalar v, .array _ => some (.scalar (S.setArray v))
    | .array x, .array y => (assignDynamic el x y).map fun r => .array r.1
    -- an array only takes arrays
    | .array x, .scalar _ => some (.array x)
  isArrayType
    | .scalar _ => false
    | .array _ => true
  isArray
    | .scalar _ => false
    | .array _ => true
  setBounds
    | .array x, .array y => (setBoundsOf el x y).map .array
    | _, _ => none
  entry
    | .scalar v => (S.entry v).map .scalar
    | .array _ => some (.array .dynamic)
  Whole
    | .scalar _ => True
    | .array x => Sound el x
  whole_create t := by
    cases t with
    | scalar t => trivial
    | array t => exact sound_createArray t
  whole_copy {e e'} h he := by
    rcases e with v | x
    · obtain rfl := Option.some.inj h
      trivial
    · obtain ⟨x', hx', rfl⟩ := Option.map_eq_some_iff.mp h
      exact sound_copy he hx'
  whole_assign {e s e'} h he := by
    rcases e with v | x <;> rcases s with w | y
    · obtain rfl := Option.some.inj h
      trivial
    · obtain rfl := Option.some.inj h
      trivial
    · obtain rfl := Option.some.inj h
      exact he
    · obtain ⟨r, hr, rfl⟩ := Option.map_eq_some_iff.mp h
      exact (sound_target overload_ne_move hr he).1
  whole_assignMove {e s p} h he hs := by
    rcases e with v | x <;> rcases s with w | y
    · obtain rfl := Option.some.inj h
      exact ⟨trivial, trivial⟩
    · obtain rfl := Option.some.inj h
      exact ⟨trivial, hs⟩
    · obtain rfl := Option.some.inj h
      exact ⟨he, trivial⟩
    · obtain ⟨r, hr, rfl⟩ := Option.map_eq_some_iff.mp h
      exact sound_assignMoveKnown hr he hs
  whole_setValue {e s e'} h he := by
    rcases e with v | x <;> rcases s with w | y
    · obtain rfl := Option.some.inj h
      trivial
    · obtain rfl := Option.some.inj h
      trivial
    · obtain rfl := Option.some.inj h
      exact he
    · obtain ⟨r, hr, rfl⟩ := Option.map_eq_some_iff.mp h
      exact (sound_target (k := .dynamic) (by decide) hr he).1
  whole_setBounds {e s e'} h he := by
    rcases e with v | x <;> rcases s with w | y
    · exact absurd h (by simp)
    · exact absurd h (by simp)
    · exact absurd h (by simp)
    · obtain ⟨x', hx', rfl⟩ := Option.map_eq_some_iff.mp h
      exact sound_setBoundsOf he hx'
  exists_assign {e s} he hs := by
    rcases e with v | x <;> rcases s with w | y
    · exact ⟨_, rfl⟩
    · exact ⟨_, rfl⟩
    · exact ⟨_, rfl⟩
    · obtain ⟨r, hr⟩ := exists_assignKnown he hs
      exact ⟨_, Option.map_eq_some_iff.mpr ⟨r, hr, rfl⟩⟩
  exists_assignMove {e s} he hs := by
    rcases e with v | x <;> rcases s with w | y
    · exact ⟨_, rfl⟩
    · exact ⟨_, rfl⟩
    · exact ⟨_, rfl⟩
    · obtain ⟨r, hr⟩ := exists_assignMoveKnown he hs
      exact ⟨_, Option.map_eq_some_iff.mpr ⟨r, hr, rfl⟩⟩
  exists_setValue {e s} he hs := by
    rcases e with v | x <;> rcases s with w | y
    · exact ⟨_, rfl⟩
    · exact ⟨_, rfl⟩
    · exact ⟨_, rfl⟩
    · obtain ⟨r, hr, -⟩ := exists_assignBy (k := .dynamic) he hs rfl
      exact ⟨_, Option.map_eq_some_iff.mpr ⟨r, hr, rfl⟩⟩

/-- An array that is moved leaves its elements as their own move constructors do, and so without
what they stored. -/
example : ¬Movable (nested sampleScalars sampleScalars.elementClass)
    (.ofFixed ⟨.array (.ofVariable ()), 0, 0, [.array (.ofVariable ⟨(), 0, 0, 1, [7]⟩)], rfl⟩) := by
  intro h
  have hwhole := (h _ List.mem_cons_self).length_stored (by decide)
  exact absurd hwhole (by decide)

end IecArray

end Forte
