import Forte.Lib.Cells
import Mathlib.Algebra.Ring.Int.Defs

/-!
# The three implementations of arrays

`CIEC_ARRAY_FIXED` has its bounds in its type and an element for each index; `CIEC_ARRAY_VARIABLE`
keeps bounds beside a vector and computes its size from the bounds; `CIEC_ARRAY_DYNAMIC` keeps
bounds, a size and a memory that it has when it is initialized. What the elements are is left
open (`Forte.ElementClass`): they may be arrays themselves (`Forte.IecArray.nested`).

An operation gives nothing if it reads an element that is not there, goes through a null pointer
or throws, as for more elements than a vector can have. Neither memory that runs out nor the
bounds of the integers are modelled.
-/

namespace Forte

/-- The classes of the elements of arrays; `Ty` are the types, `E` the objects. -/
structure ElementClass (Ty E : Type) where
  /-- `T()`, and `createDataTypeInstance` of a type entry. -/
  create : Ty → E
  /-- `std::is_assignable_v<T &, const U &>`. -/
  assignable : Ty → Ty → Bool
  /-- The constructor of a type from an object of another one. -/
  convert : Ty → E → Option E
  /-- The copy constructor, and `clone`. -/
  copy : E → Option E
  /-- What the move constructor leaves of an object. -/
  moved : E → E
  /-- `operator=` with an object of a type that is assignable. -/
  assign : E → E → Option E
  /-- `operator=` with an object that is moved, and what is left of this. -/
  assignMove : E → E → Option (E × E)
  setValue : E → E → Option E
  /-- `std::is_base_of_v<CIEC_ARRAY, T>`. -/
  isArrayType : Ty → Bool
  /-- Whether `getDataTypeID` is `e_ARRAY`. -/
  isArray : E → Bool
  setBounds : E → E → Option E
  /-- The type entry under the name of an object's type. -/
  entry : E → Option Ty
  /-- The objects that have everything their operations use. -/
  Whole : E → Prop
  whole_create : ∀ t, Whole (create t)
  whole_copy : ∀ {e e'}, copy e = some e' → Whole e → Whole e'
  whole_assign : ∀ {e s e'}, assign e s = some e' → Whole e → Whole e'
  whole_assignMove : ∀ {e s p}, assignMove e s = some p → Whole e → Whole s → Whole p.1 ∧ Whole p.2
  whole_setValue : ∀ {e s e'}, setValue e s = some e' → Whole e → Whole e'
  whole_setBounds : ∀ {e s e'}, setBounds e s = some e' → Whole e → Whole e'
  exists_assign : ∀ {e s}, Whole e → Whole s → ∃ e', assign e s = some e'
  exists_assignMove : ∀ {e s}, Whole e → Whole s → ∃ p, assignMove e s = some p
  exists_setValue : ∀ {e s}, Whole e → Whole s → ∃ e', setValue e s = some e'

/-- Elements that hold a value and no array, with what their operations make of it. -/
structure Scalars (Ty V : Type) where
  create : Ty → V
  assignable : Ty → Ty → Bool
  convert : Ty → V → V
  moved : V → V
  assign : V → V → V
  setValue : V → V → V
  /-- `setValue` with an array. -/
  setArray : V → V
  entry : V → Option Ty

/-- Scalars have all they need. -/
def Scalars.elementClass {Ty V : Type} (S : Scalars Ty V) : ElementClass Ty V where
  create := S.create
  assignable := S.assignable
  convert t v := some (S.convert t v)
  copy v := some v
  moved := S.moved
  assign v w := some (S.assign v w)
  assignMove v w := some (S.assign v w, S.moved w)
  setValue v w := some (S.setValue v w)
  isArrayType _ := false
  isArray _ := false
  setBounds _ _ := none
  entry := S.entry
  Whole _ := True
  whole_create _ := trivial
  whole_copy _ _ := trivial
  whole_assign _ _ := trivial
  whole_assignMove _ _ _ := ⟨trivial, trivial⟩
  whole_setValue _ _ := trivial
  whole_setBounds _ _ := trivial
  exists_assign _ _ := ⟨_, rfl⟩
  exists_assignMove _ _ := ⟨_, rfl⟩
  exists_setValue _ _ := ⟨_, rfl⟩

/-- The types of arrays; `CIEC_ARRAY_DYNAMIC` is one type for all elements. -/
inductive ArrayType (Ty : Type) where
  | fixed (elementType : Ty) (lowerBound upperBound : ℤ)
  | ofVariable (elementType : Ty)
  | dynamic
  deriving DecidableEq

/-- `CIEC_ARRAY_FIXED`, whose `std::array` has an element for each index. -/
structure ArrayFixed (Ty E : Type) where
  elementType : Ty
  lowerBound : ℤ
  upperBound : ℤ
  data : List E
  cmSize : (data.length : ℤ) = upperBound - lowerBound + 1

/-- `CIEC_ARRAY_VARIABLE`. -/
structure ArrayVariable (Ty E : Type) where
  elementType : Ty
  mLowerBound : ℤ
  mUpperBound : ℤ
  mSize : ℕ
  data : List E

/-- `CIEC_ARRAY_DYNAMIC`; the size of the elements is known if their type is. -/
structure ArrayDynamic (Ty E : Type) where
  mSize : ℕ
  mLowerBound : ℤ
  mUpperBound : ℤ
  mData : Option (List E)
  mElementDataTypeEntry : Option Ty

/-- `CIEC_ARRAY`, the common supertype. -/
inductive IecArray (Ty E : Type) where
  | ofFixed (x : ArrayFixed Ty E)
  | ofVariable (x : ArrayVariable Ty E)
  | ofDynamic (x : ArrayDynamic Ty E)

namespace IecArray

variable {Ty E : Type}

/-! ### Bounds, size and elements -/

def getLowerBound : IecArray Ty E → ℤ
  | ofFixed x => x.lowerBound
  | ofVariable x => x.mLowerBound
  | ofDynamic x => x.mLowerBound

def getUpperBound : IecArray Ty E → ℤ
  | ofFixed x => x.upperBound
  | ofVariable x => x.mUpperBound
  | ofDynamic x => x.mUpperBound

/-- `static_cast<size_t>(upperBound - lowerBound + 1)`. -/
def sizeBetween (lowerBound upperBound : ℤ) : ℕ :=
  if 0 ≤ upperBound - lowerBound + 1 then (upperBound - lowerBound + 1).toNat
  else ((upperBound - lowerBound + 1) % 2 ^ 64).toNat

def size : IecArray Ty E → ℕ
  | ofFixed x => x.data.length
  | ofVariable x => sizeBetween x.mLowerBound x.mUpperBound
  | ofDynamic x => x.mSize

/-- The elements that are stored. -/
def stored : IecArray Ty E → List E
  | ofFixed x => x.data
  | ofVariable x => x.data
  | ofDynamic x => x.mData.getD []

/-- The static type of the elements, which `CIEC_ARRAY_DYNAMIC` has not. -/
def elementType : IecArray Ty E → Option Ty
  | ofFixed x => some x.elementType
  | ofVariable x => some x.elementType
  | ofDynamic _ => none

/-- The array with other elements in the places of those it has. -/
def overwrite (g : List E → List E) (hg : ∀ l, (g l).length = l.length) :
    IecArray Ty E → IecArray Ty E
  | ofFixed x => ofFixed { x with data := g x.data, cmSize := by rw [hg]; exact x.cmSize }
  | ofVariable x => ofVariable { x with data := g x.data }
  | ofDynamic x => ofDynamic { x with mData := x.mData.map g }

variable {g : List E → List E} {hg : ∀ l, (g l).length = l.length}

@[simp]
theorem getLowerBound_overwrite (x : IecArray Ty E) :
    (x.overwrite g hg).getLowerBound = x.getLowerBound := by
  cases x <;> rfl

@[simp]
theorem getUpperBound_overwrite (x : IecArray Ty E) :
    (x.overwrite g hg).getUpperBound = x.getUpperBound := by
  cases x <;> rfl

@[simp]
theorem size_overwrite (x : IecArray Ty E) : (x.overwrite g hg).size = x.size := by
  rcases x with x | x | x
  · exact hg x.data
  · rfl
  · rfl

@[simp]
theorem stored_overwrite (x : IecArray Ty E) : (x.overwrite g hg).stored = g x.stored := by
  rcases x with x | x | ⟨mSize, lowerBound, upperBound, mData, entry⟩
  · rfl
  · rfl
  · rcases mData with - | l
    · exact (List.eq_nil_of_length_eq_zero (hg [])).symm
    · rfl

/-- `operator[]`; the position of an index below the lower bound is one no memory has. -/
def cell (x : IecArray Ty E) (i : ℤ) : Option E :=
  if x.getLowerBound ≤ i then x.stored[(i - x.getLowerBound).toNat]? else none

/-- The array behind a change of the element that `operator[]` gives. -/
def put (x : IecArray Ty E) (i : ℤ) (e : E) : IecArray Ty E :=
  if x.getLowerBound ≤ i then
    x.overwrite (·.set (i - x.getLowerBound).toNat e) fun _ => List.length_set
  else x

@[simp]
theorem getLowerBound_put (x : IecArray Ty E) (i : ℤ) (e : E) :
    (x.put i e).getLowerBound = x.getLowerBound := by
  rw [put]
  split <;> simp

@[simp]
theorem getUpperBound_put (x : IecArray Ty E) (i : ℤ) (e : E) :
    (x.put i e).getUpperBound = x.getUpperBound := by
  rw [put]
  split <;> simp

@[simp]
theorem size_put (x : IecArray Ty E) (i : ℤ) (e : E) : (x.put i e).size = x.size := by
  rw [put]
  split <;> simp

theorem stored_put (x : IecArray Ty E) {i : ℤ} (h : x.getLowerBound ≤ i) (e : E) :
    (x.put i e).stored = x.stored.set (i - x.getLowerBound).toNat e := by
  rw [put, if_pos h, stored_overwrite]

theorem cell_eq_some {x : IecArray Ty E} {i : ℤ} {e : E} : x.cell i = some e ↔
    x.getLowerBound ≤ i ∧ x.stored[(i - x.getLowerBound).toNat]? = some e := by
  simp [cell]

/-- An element that is written is the one that was there: nothing changes. -/
theorem put_cell {x : IecArray Ty E} {i : ℤ} {e : E} (h : x.cell i = some e) : x.put i e = x := by
  obtain ⟨hle, hget⟩ := cell_eq_some.mp h
  have hset : x.stored.set (i - x.getLowerBound).toNat e = x.stored := by
    obtain ⟨hlt, rfl⟩ := List.getElem?_eq_some_iff.mp hget
    exact List.set_getElem_self hlt
  rw [put, if_pos hle]
  rcases x with x | x | ⟨mSize, lowerBound, upperBound, mData, entry⟩
  · exact congrArg ofFixed (by cases x; congr)
  · exact congrArg ofVariable (by cases x; congr)
  · rcases mData with - | l
    · rfl
    · exact congrArg (fun l => ofDynamic ⟨mSize, lowerBound, upperBound, some l, entry⟩) hset

theorem cell_put_self {x : IecArray Ty E} {i : ℤ} {e : E} (e' : E) (h : x.cell i = some e) :
    (x.put i e').cell i = some e' := by
  obtain ⟨hle, hget⟩ := cell_eq_some.mp h
  obtain ⟨hlt, -⟩ := List.getElem?_eq_some_iff.mp hget
  rw [cell_eq_some, getLowerBound_put, stored_put x hle]
  exact ⟨hle, List.getElem?_set_self hlt⟩

theorem cell_put_of_ne (x : IecArray Ty E) (e : E) {i j : ℤ} (h : j ≠ i) :
    (x.put i e).cell j = x.cell j := by
  by_cases hle : x.getLowerBound ≤ i
  · rw [cell, cell, getLowerBound_put, stored_put x hle]
    split_ifs with hj
    · exact List.getElem?_set_ne (by omega)
    · rfl
  · rw [put, if_neg hle]

instance : Cells (IecArray Ty E) E where
  cell := cell
  put := put
  put_cell := put_cell
  cell_put_self := cell_put_self
  cell_put_of_ne := cell_put_of_ne

/-! ### Assignment -/

/-- Which assignment a statement calls: with types that are known and assignable, the same with
a source that is moved, or the one of the common supertype. -/
inductive Overload where
  | typed
  | move
  | dynamic
  deriving DecidableEq

section

variable (el : ElementClass Ty E)

/-- What an assignment does to a pair of elements. -/
def operation : Overload → E → E → Option (E × E)
  | .typed => Cells.reading el.assign
  | .move => el.assignMove
  | .dynamic => Cells.reading el.setValue

/-- The loop over the indices in both ranges. -/
def assignRange (f : E → E → Option (E × E)) (x y : IecArray Ty E) :
    Option (IecArray Ty E × IecArray Ty E) :=
  let begin := max x.getLowerBound y.getLowerBound
  let «end» := min x.getUpperBound y.getUpperBound
  Cells.transfer f («end» - begin + 1).toNat begin x y

/-- `assign`; the copy assignment of a `std::array` goes through the same elements. -/
def assign (x y : IecArray Ty E) : Option (IecArray Ty E × IecArray Ty E) :=
  assignRange (operation el .typed) x y

/-- `assignMove`, also for the move assignment of a `std::array`. -/
def assignMove (x y : IecArray Ty E) : Option (IecArray Ty E × IecArray Ty E) :=
  assignRange (operation el .move) x y

/-- `assignDynamic` of `CIEC_ARRAY` and of `CIEC_ARRAY_DYNAMIC`. -/
def assignDynamic (x y : IecArray Ty E) : Option (IecArray Ty E × IecArray Ty E) :=
  if x.size ≠ 0 ∧ y.size ≠ 0 then assignRange (operation el .dynamic) x y else some (x, y)

/-- `assignDynamic` of `CIEC_ARRAY_FIXED` and `CIEC_ARRAY_VARIABLE`, which only their
constructors call. -/
def constructDynamic (x y : IecArray Ty E) : Option (IecArray Ty E × IecArray Ty E) :=
  if y.size ≠ 0 then assignRange (operation el .dynamic) x y else some (x, y)

variable [DecidableEq Ty]

/-- Whether there is a constructor or an assignment for the types of the elements. -/
def typesAssignable (t u : Option Ty) : Bool :=
  match t, u with
  | some t, some u => t = u || el.assignable t u
  | _, _ => false

/-- The assignments there are for two arrays. -/
def applies : Overload → IecArray Ty E → IecArray Ty E → Bool
  | .typed, x, y => typesAssignable el x.elementType y.elementType
  | .move, .ofFixed x, .ofFixed y =>
    x.elementType = y.elementType && x.lowerBound = y.lowerBound && x.upperBound = y.upperBound
  | .move, .ofVariable x, .ofVariable y => x.elementType = y.elementType
  | .move, _, _ => false
  | .dynamic, _, _ => true

/-- `operator=` with the array `y`, and what is behind it in `x` and in `y`. -/
def assignBy : Overload → IecArray Ty E → IecArray Ty E → Option (IecArray Ty E × IecArray Ty E)
  | .typed, x, y => assign el x y
  | .move, x, y => assignMove el x y
  | .dynamic, x, y => assignDynamic el x y

/-! ### Construction -/

/-- The default constructor of `CIEC_ARRAY_FIXED`; there is no type with fewer than no
elements. -/
def createFixed (t : Ty) (lowerBound upperBound : ℤ) : Option (IecArray Ty E) :=
  if h : 0 ≤ upperBound - lowerBound + 1 then
    some <| .ofFixed
      { elementType := t
        lowerBound := lowerBound
        upperBound := upperBound
        data := List.replicate (upperBound - lowerBound + 1).toNat (el.create t)
        cmSize := by rw [List.length_replicate, Int.toNat_of_nonneg h] }
  else none

/-- An initializer list, with the bounds its elements get in a `CIEC_ARRAY_FIXED`. -/
def initializerList (t : Ty) (lowerBound : ℤ) (init : List E) : IecArray Ty E :=
  .ofVariable ⟨t, lowerBound, lowerBound + init.length - 1, init.length, init⟩

/-- `CIEC_ARRAY_FIXED` from an initializer list, which may be empty. -/
def createFixedFrom (t : Ty) (lowerBound upperBound : ℤ) (init : List E) :
    Option (IecArray Ty E) := do
  let x ← createFixed el t lowerBound upperBound
  let r ← assign el x (initializerList t lowerBound init)
  return r.1

/-- `CIEC_ARRAY_VARIABLE` from bounds; the vector throws if the size is negative. -/
def createVariable (t : Ty) (lowerBound upperBound : ℤ) : Option (IecArray Ty E) :=
  if 0 ≤ upperBound - lowerBound + 1 then
    let mSize := (upperBound - lowerBound + 1).toNat
    some (.ofVariable ⟨t, lowerBound, upperBound, mSize, List.replicate mSize (el.create t)⟩)
  else none

/-- `CIEC_ARRAY_VARIABLE` from an initializer list; from an empty one it is what the default
constructor makes. -/
def createVariableFrom (t : Ty) (init : List E) : Option (IecArray Ty E) := do
  let data ← init.mapM el.copy
  return .ofVariable ⟨t, 0, init.length - 1, init.length, data⟩

/-- The default constructor of `CIEC_ARRAY_DYNAMIC`. -/
def emptyDynamic : ArrayDynamic Ty E := ⟨0, 0, 0, none, none⟩

/-- `setup` with bounds, where `entry` is the type entry that the name has. -/
def setupBounds (x : ArrayDynamic Ty E) (lowerBound upperBound : ℤ) (entry : Option Ty) :
    Option (ArrayDynamic Ty E) :=
  let x := { x with
    mSize := 0, mData := none, mLowerBound := lowerBound, mUpperBound := upperBound
    mElementDataTypeEntry := entry }
  match entry with
  | none => some x
  | some t =>
    if 0 ≤ upperBound - lowerBound + 1 then
      let size := (upperBound - lowerBound + 1).toNat
      some { x with mSize := size, mData := some (List.replicate size (el.create t)) }
    else none

/-- `setup` with a length. -/
def setupLength (x : ArrayDynamic Ty E) (paLength : ℕ) (entry : Option Ty) :
    Option (ArrayDynamic Ty E) :=
  if paLength = 0 then some { x with mSize := 0, mData := none }
  else setupBounds el x 0 (paLength - 1) entry

/-- `setup` with an array to copy. -/
def setupFrom (y : IecArray Ty E) (entry : Option Ty) : Option (IecArray Ty E) :=
  match entry with
  | none => some (.ofDynamic ⟨0, y.getLowerBound, y.getUpperBound, none, none⟩)
  | some t => do
    let mSize := (y.getUpperBound - y.getLowerBound + 1).toNat
    let data ← (List.range mSize).mapM fun n : ℕ => y.cell (y.getLowerBound + n) >>= el.copy
    return .ofDynamic ⟨mSize, y.getLowerBound, y.getUpperBound, some data, some t⟩

/-- The array with the elements that `f` makes of its elements. -/
def mapFixed (f : E → Option E) (x : ArrayFixed Ty E) : Option (ArrayFixed Ty E) :=
  match h : x.data.mapM f with
  | none => none
  | some data => some { x with data := data, cmSize := by rw [length_of_mapM h]; exact x.cmSize }

/-- The copy constructors. -/
def copy : IecArray Ty E → Option (IecArray Ty E)
  | ofFixed x => (mapFixed el.copy x).map .ofFixed
  | ofVariable x => do
    let data ← x.data.mapM el.copy
    return .ofVariable { x with data := data }
  | ofDynamic x => setupFrom el (.ofDynamic x) x.mElementDataTypeEntry

/-- What the move constructors leave; the array that is constructed is as the source was. -/
def moved : IecArray Ty E → IecArray Ty E
  | ofFixed x => (ofFixed x).overwrite (·.map el.moved) fun _ => List.length_map _
  | ofVariable x => .ofVariable { x with data := [] }
  | ofDynamic x => .ofDynamic { x with mData := none }

/-- The size that a `CIEC_ARRAY_VARIABLE` takes over: that of a `CIEC_ARRAY_VARIABLE` is read
from the field. -/
def mSize : IecArray Ty E → ℕ
  | ofVariable x => x.mSize
  | x => x.size

/-- The elements of a `CIEC_ARRAY_VARIABLE` that is constructed from elements of another type. -/
def convertAll (t : Ty) (y : IecArray Ty E) : Option (List E) :=
  if typesAssignable el (some t) y.elementType then y.stored.mapM (el.convert t) else none

/-- The constructors from an array of another type. -/
def construct : ArrayType Ty → IecArray Ty E → Overload → Option (IecArray Ty E)
  | .fixed t lowerBound upperBound, y, .dynamic => do
    let x ← createFixed el t lowerBound upperBound
    let r ← constructDynamic el x y
    return r.1
  | .fixed t lowerBound upperBound, y, _ =>
    if typesAssignable el (some t) y.elementType then do
      let x ← createFixed el t lowerBound upperBound
      let r ← assign el x y
      return r.1
    else none
  | .ofVariable t, y, .dynamic => do
    let data := List.replicate y.size (el.create t)
    let x := .ofVariable ⟨t, y.getLowerBound, y.getUpperBound, y.size, data⟩
    let r ← constructDynamic el x y
    return r.1
  | .ofVariable t, y, _ => do
    let data ← convertAll el t y
    return .ofVariable ⟨t, y.getLowerBound, y.getUpperBound, y.mSize, data⟩
  | .dynamic, .ofDynamic _, _ => none
  | .dynamic, y, _ => do
    let first ← y.cell y.getLowerBound
    setupFrom el y (el.entry first)

/-! ### Bounds that are set -/

/-- `resize` of a vector. -/
def resize (t : Ty) (data : List E) (size : ℕ) : List E :=
  data.take size ++ List.replicate (size - data.length) (el.create t)

/-- `setBounds` with bounds. -/
def setBounds : IecArray Ty E → ℤ → ℤ → Option (IecArray Ty E)
  | ofFixed x, _, _ => some (.ofFixed x)
  | ofVariable x, lowerBound, upperBound =>
    if lowerBound ≠ x.mLowerBound ∨ upperBound ≠ x.mUpperBound then
      if 0 ≤ upperBound - lowerBound + 1 then
        let mSize := (upperBound - lowerBound + 1).toNat
        some <| .ofVariable { x with
          mLowerBound := lowerBound, mUpperBound := upperBound, mSize := mSize
          data := resize el x.elementType x.data mSize }
      else none
    else some (.ofVariable x)
  | ofDynamic x, lowerBound, upperBound =>
    if lowerBound ≠ x.mLowerBound ∨ upperBound ≠ x.mUpperBound then do
      let t ← x.mElementDataTypeEntry
      let x ← setupBounds el x lowerBound upperBound (some t)
      return .ofDynamic x
    else some (.ofDynamic x)

/-- Whether `getElementDataTypeID` is `e_ARRAY`, where it can be read. -/
def hasArrays : IecArray Ty E → Option Bool
  | ofDynamic ⟨_, _, _, none, _⟩ => some false
  | x => x.stored.head?.map el.isArray

/-- Whether `setBounds` with an array goes on with the elements. -/
def nestedBounds (x y : IecArray Ty E) : Option Bool :=
  match x with
  | ofFixed _ => some false
  | ofVariable x => if el.isArrayType x.elementType then hasArrays el y else some false
  | ofDynamic x => do
    let b ← hasArrays el (.ofDynamic x)
    if b then hasArrays el y else return false

/-- `setBounds` with the bounds of an array, and those of its elements. -/
def setBoundsOf (x y : IecArray Ty E) : Option (IecArray Ty E) := do
  let x ← setBounds el x y.getLowerBound y.getUpperBound
  let b ← nestedBounds el x y
  if b then
    let r ← Cells.transfer (Cells.reading el.setBounds)
      (x.getUpperBound - x.getLowerBound + 1).toNat x.getLowerBound x y
    return r.1
  else return x

end

end IecArray

end Forte
