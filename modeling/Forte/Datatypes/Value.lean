import Mathlib.Data.List.Forall2
import Forte.Datatypes.Unicode

/-!
# Data points

The values a communication function block sends and receives, as trees. A
`Forte.Value` is what the source reaches through a `CIEC_ANY &`: an elementary value
with its 64 bits of storage, a string, an array, a struct, or another value held in a
variable of type `ANY`.

The *declared type* of a data point is what its contents leave out:
`Forte.Value.blank` empties every leaf and keeps the data type identifiers, the bounds
of the strings, the lengths of the arrays and the members of the structs. Two data
points are of the same declared type when their blanks are equal.

`Forte.Value.WellTyped` holds of every value the C++ types admit: the storage of an
elementary value is only used for the elementary types, the elements of an array share
the array's element type, and the tag a struct returns is of the ASN.1 class
`APPLICATION`, as the one implementation of `getASN1StructType` has it.
-/

namespace Forte

/-- `CIEC_ANY::EDataTypeID`, in the order of the source, which the serializer compares
by. -/
inductive EDataTypeID
  | any | bool | sint | int | dint | lint | usint | uint | udint | ulint
  | byte | word | dword | lword | date | timeOfDay | dateAndTime | time
  | char | wchar | ldate | ltimeOfDay | ldateAndTime | ltime | real | lreal
  | string | wstring
  | derivedData | directlyDerivedData | enumeratedData | subrangeData
  | array | struct
  deriving DecidableEq, Repr

namespace EDataTypeID

/-- The place of an identifier in the enumeration. -/
def toNat (id : EDataTypeID) : ℕ := id.ctorIdx

/-- The types whose value is the 64 bits of storage of a `CIEC_ANY`. -/
def IsElementary (id : EDataTypeID) : Prop := 1 ≤ id.toNat ∧ id.toNat ≤ 25

instance (id : EDataTypeID) : Decidable id.IsElementary := inferInstanceAs (Decidable (_ ∧ _))

end EDataTypeID

/-- A data point, with its contents. -/
inductive Value
  /-- An elementary value and its storage `mAnyData`. -/
  | elementary (id : EDataTypeID) (data : BitVec 64)
  /-- A `CIEC_STRING`; the bound is the `maxLength` of a `CIEC_STRING_FIXED`. -/
  | string (bound : Option ℕ) (storage : List UInt8)
  /-- A `CIEC_WSTRING`, stored as UTF-8. -/
  | wstring (storage : List UInt8)
  /-- A `CIEC_ARRAY` with its `getElementDataTypeID`. -/
  | array (elementDataTypeID : EDataTypeID) (elements : List Value)
  /-- A `CIEC_STRUCT` with its `getASN1StructType`. -/
  | struct (asn1StructType : UInt8) (members : List Value)
  /-- A value held in a variable of type `ANY`. -/
  | any (inner : Value)

namespace Value

/-- Induction over a data point; an array and a struct have the statement for each of
their elements and members. -/
@[elab_as_elim, induction_eliminator]
theorem inductionOn {P : Value → Prop}
    (elementary : ∀ id data, P (.elementary id data))
    (string : ∀ bound storage, P (.string bound storage))
    (wstring : ∀ storage, P (.wstring storage))
    (array : ∀ t es, (∀ e ∈ es, P e) → P (.array t es))
    (struct : ∀ t ms, (∀ m ∈ ms, P m) → P (.struct t ms))
    (any : ∀ w, P w → P (.any w)) : ∀ v, P v :=
  @Value.rec P (fun es => ∀ e ∈ es, P e) elementary string wstring array struct any
    (fun _ h => absurd h List.not_mem_nil)
    (fun _ _ hv hvs _ hmem => (List.mem_cons.mp hmem).elim (fun h => h ▸ hv) (hvs _))

/-- `CIEC_ANY::getDataTypeID`. -/
def getDataTypeID : Value → EDataTypeID
  | .elementary id _ => id
  | .string _ _ => .string
  | .wstring _ => .wstring
  | .array _ _ => .array
  | .struct _ _ => .struct
  | .any _ => .any

/-- A variable of type `BOOL` itself; a `BOOL` held in an `ANY` is none. -/
def IsBool (v : Value) : Prop := v.getDataTypeID = .bool

instance (v : Value) : Decidable v.IsBool := inferInstanceAs (Decidable (_ = _))

@[simp]
theorem isBool_elementary (id : EDataTypeID) (d : BitVec 64) :
    (elementary id d).IsBool ↔ id = .bool := Iff.rfl

@[simp]
theorem not_isBool_string (b : Option ℕ) (s : List UInt8) : ¬(string b s).IsBool := nofun

@[simp]
theorem not_isBool_wstring (s : List UInt8) : ¬(wstring s).IsBool := nofun

@[simp]
theorem not_isBool_array (t : EDataTypeID) (es : List Value) : ¬(array t es).IsBool := nofun

@[simp]
theorem not_isBool_struct (t : UInt8) (ms : List Value) : ¬(struct t ms).IsBool := nofun

@[simp]
theorem not_isBool_any (w : Value) : ¬(any w).IsBool := nofun

theorem IsBool.exists_eq {v : Value} (h : v.IsBool) : ∃ d, v = .elementary .bool d := by
  cases v with
  | elementary id d => exact ⟨d, by rw [show id = .bool from h]⟩
  | _ => exact absurd h (by simp)

/-! ### The declared type -/

mutual

/-- The data point of the same declared type with empty contents. -/
def blank : Value → Value
  | .elementary id _ => .elementary id 0
  | .string bound _ => .string bound []
  | .wstring _ => .wstring []
  | .array t es => .array t (blanks es)
  | .struct t ms => .struct t (blanks ms)
  | .any w => .any w.blank

/-- The blanks of the elements of an array, or of the members of a struct. -/
def blanks : List Value → List Value
  | [] => []
  | v :: vs => v.blank :: blanks vs

end

@[simp]
theorem blanks_eq_map (vs : List Value) : blanks vs = vs.map blank := by
  induction vs with
  | nil => rfl
  | cons v vs ih => rw [blanks, List.map_cons, ih]

/-- Two data points of the same declared type. -/
def SameType (v w : Value) : Prop := v.blank = w.blank

theorem SameType.refl (v : Value) : SameType v v := rfl

theorem SameType.symm {v w : Value} (h : SameType v w) : SameType w v := Eq.symm h

theorem SameType.trans {u v w : Value} (h : SameType u v) (h' : SameType v w) : SameType u w :=
  Eq.trans h h'

theorem blank_blank (v : Value) : v.blank.blank = v.blank := by
  induction v with
  | any w ih => rw [blank, blank, ih]
  | array t es ih =>
    simp only [blank, blanks_eq_map, List.map_map, array.injEq, true_and]
    exact List.map_congr_left ih
  | struct t ms ih =>
    simp only [blank, blanks_eq_map, List.map_map, struct.injEq, true_and]
    exact List.map_congr_left ih
  | _ => rfl

instance : Std.Refl SameType := ⟨SameType.refl⟩

/-- The data type identifier belongs to the declared type. -/
theorem SameType.getDataTypeID_eq {v w : Value} (h : SameType v w) :
    v.getDataTypeID = w.getDataTypeID := by
  cases v <;> cases w <;> simp_all [SameType, blank, getDataTypeID]

theorem SameType.isBool_iff {v w : Value} (h : SameType v w) : v.IsBool ↔ w.IsBool := by
  rw [IsBool, IsBool, h.getDataTypeID_eq]

/-- The declared types of the values of two lists, one by one. -/
theorem forall₂_sameType_iff {vs ws : List Value} :
    List.Forall₂ SameType vs ws ↔ vs.map blank = ws.map blank := by
  induction vs generalizing ws with
  | nil => cases ws <;> simp
  | cons v vs ih => cases ws <;> simp [SameType, ih]

theorem sameType_elementary_iff {id : EDataTypeID} {d : BitVec 64} {w : Value} :
    SameType (elementary id d) w ↔ ∃ d', w = elementary id d' := by
  rw [SameType]
  cases w <;> simp [blank, eq_comm]

theorem sameType_string_iff {bound : Option ℕ} {st : List UInt8} {w : Value} :
    SameType (string bound st) w ↔ ∃ st', w = string bound st' := by
  rw [SameType]
  cases w <;> simp [blank, eq_comm]

theorem sameType_wstring_iff {st : List UInt8} {w : Value} :
    SameType (wstring st) w ↔ ∃ st', w = wstring st' := by
  rw [SameType]
  cases w <;> simp [blank]

theorem sameType_array_iff {t : EDataTypeID} {es : List Value} {w : Value} :
    SameType (array t es) w ↔ ∃ fs, w = array t fs ∧ List.Forall₂ SameType es fs := by
  rw [SameType]
  constructor
  · intro h
    cases w <;> simp only [blank, blanks_eq_map, reduceCtorEq, array.injEq] at h
    obtain ⟨rfl, h⟩ := h
    exact ⟨_, rfl, forall₂_sameType_iff.mpr h⟩
  · rintro ⟨fs, rfl, h⟩
    rw [blank, blank, blanks_eq_map, blanks_eq_map, forall₂_sameType_iff.mp h]

theorem sameType_struct_iff {t : UInt8} {ms : List Value} {w : Value} :
    SameType (struct t ms) w ↔ ∃ ns, w = struct t ns ∧ List.Forall₂ SameType ms ns := by
  rw [SameType]
  constructor
  · intro h
    cases w <;> simp only [blank, blanks_eq_map, reduceCtorEq, struct.injEq] at h
    obtain ⟨rfl, h⟩ := h
    exact ⟨_, rfl, forall₂_sameType_iff.mpr h⟩
  · rintro ⟨fs, rfl, h⟩
    rw [blank, blank, blanks_eq_map, blanks_eq_map, forall₂_sameType_iff.mp h]

theorem sameType_any_iff {v w : Value} :
    SameType (any v) w ↔ ∃ u, w = any u ∧ SameType v u := by
  rw [SameType]
  cases w <;> simp [blank, SameType]

/-! ### Well-typed values -/

mutual

/-- What the C++ types guarantee of every value. -/
def WellTyped : Value → Prop
  | .elementary id _ => id.IsElementary
  | .string _ _ => True
  | .wstring _ => True
  | .array t es => (∀ e ∈ es, e.getDataTypeID = t) ∧ AllWellTyped es
  | .struct asn1StructType ms => asn1StructType &&& 64 = 64 ∧ AllWellTyped ms
  | .any w => w.WellTyped

/-- Every value of a list is well typed. -/
def AllWellTyped : List Value → Prop
  | [] => True
  | v :: vs => v.WellTyped ∧ AllWellTyped vs

end

@[simp]
theorem allWellTyped_iff (vs : List Value) : AllWellTyped vs ↔ ∀ v ∈ vs, v.WellTyped := by
  induction vs with
  | nil => simp [AllWellTyped]
  | cons v vs ih => simp [AllWellTyped, ih]

/-- The elements of an array are of type `BOOL` exactly when the array is declared so. -/
theorem isBool_iff_of_wellTyped {t : EDataTypeID} {es : List Value}
    (h : (array t es).WellTyped) {e : Value} (he : e ∈ es) : e.IsBool ↔ t = .bool := by
  rw [IsBool, h.1 e he]

theorem wellTyped_blank (v : Value) : v.blank.WellTyped ↔ v.WellTyped := by
  have items : ∀ vs : List Value, (∀ v ∈ vs, v.blank.WellTyped ↔ v.WellTyped) →
      (AllWellTyped (vs.map blank) ↔ AllWellTyped vs) := by
    intro vs h
    rw [allWellTyped_iff, allWellTyped_iff, List.forall_mem_map]
    exact forall₂_congr h
  induction v with
  | any w ih => exact ih
  | array t es ih =>
    simp only [blank, blanks_eq_map, WellTyped, items es ih, List.forall_mem_map]
    refine and_congr_left fun _ => forall₂_congr fun e _ => ?_
    rw [(show SameType e.blank e from blank_blank e).getDataTypeID_eq]
  | struct t ms ih =>
    simpa only [blank, blanks_eq_map, WellTyped] using and_congr_right fun _ => items ms ih
  | _ => exact Iff.rfl

theorem SameType.wellTyped_iff {v w : Value} (h : SameType v w) : v.WellTyped ↔ w.WellTyped := by
  rw [← wellTyped_blank v, h, wellTyped_blank]

/-! ### Values that take bytes -/

/-- A value that takes at least one byte on the wire, without its tag, when the items in it
do: it is no `BOOL`, and no struct without members. -/
def TakesBytes : Value → Prop
  | .elementary id _ => id ≠ .bool
  | .struct _ ms => ms ≠ []
  | .any w => w.TakesBytes
  | _ => True

/-- A `BOOL`, possibly held in an `ANY`: the values that are folded into their tags. -/
def HoldsBool : Value → Prop
  | .elementary id _ => id = .bool
  | .any w => w.HoldsBool
  | _ => False

theorem TakesBytes.not_holdsBool {v : Value} (h : v.TakesBytes) : ¬v.HoldsBool := by
  induction v with
  | any w ih => exact ih h
  | elementary id d => exact h
  | _ => exact id

/-- An item that is no `BOOL` itself holds none. -/
theorem not_holdsBool_of_item {v : Value} (h : v.IsBool ∨ v.TakesBytes) (hb : ¬v.IsBool) :
    ¬v.HoldsBool := (h.resolve_left hb).not_holdsBool

theorem holdsBool_blank (v : Value) : v.blank.HoldsBool ↔ v.HoldsBool := by
  induction v with
  | any w ih => exact ih
  | _ => exact Iff.rfl

theorem SameType.holdsBool_iff {v w : Value} (h : SameType v w) : v.HoldsBool ↔ w.HoldsBool := by
  rw [← holdsBool_blank v, h, holdsBool_blank]

mutual

/-- Every item in the value, an element of an array or a member of a struct, is a `BOOL`,
which comes with its tag, or takes bytes. -/
def ItemsTakeBytes : Value → Prop
  | .array _ es => AllItemsTakeBytes es
  | .struct _ ms => AllItemsTakeBytes ms
  | .any w => w.ItemsTakeBytes
  | _ => True

/-- Every value of a list is such an item, down to the items in it. -/
def AllItemsTakeBytes : List Value → Prop
  | [] => True
  | v :: vs => ((v.IsBool ∨ v.TakesBytes) ∧ v.ItemsTakeBytes) ∧ AllItemsTakeBytes vs

end

theorem takesBytes_blank (v : Value) : v.blank.TakesBytes ↔ v.TakesBytes := by
  induction v with
  | any w ih => exact ih
  | struct t ms ih => simp [blank, TakesBytes]
  | _ => exact Iff.rfl

theorem SameType.takesBytes_iff {v w : Value} (h : SameType v w) :
    v.TakesBytes ↔ w.TakesBytes := by
  rw [← takesBytes_blank v, h, takesBytes_blank]

@[simp]
theorem allItemsTakeBytes_iff (vs : List Value) :
    AllItemsTakeBytes vs ↔ ∀ v ∈ vs, (v.IsBool ∨ v.TakesBytes) ∧ v.ItemsTakeBytes := by
  induction vs with
  | nil => simp [AllItemsTakeBytes]
  | cons v vs ih => simp [AllItemsTakeBytes, ih]

theorem itemsTakeBytes_blank (v : Value) : v.blank.ItemsTakeBytes ↔ v.ItemsTakeBytes := by
  have items : ∀ vs : List Value, (∀ v ∈ vs, v.blank.ItemsTakeBytes ↔ v.ItemsTakeBytes) →
      (AllItemsTakeBytes (vs.map blank) ↔ AllItemsTakeBytes vs) := by
    intro vs h
    rw [allItemsTakeBytes_iff, allItemsTakeBytes_iff, List.forall_mem_map]
    refine forall₂_congr fun v hv => and_congr (or_congr ?_ (takesBytes_blank v)) (h v hv)
    exact SameType.isBool_iff (blank_blank v)
  induction v with
  | any w ih => exact ih
  | array t es ih => simpa only [blank, blanks_eq_map, ItemsTakeBytes] using items es ih
  | struct t ms ih => simpa only [blank, blanks_eq_map, ItemsTakeBytes] using items ms ih
  | _ => exact Iff.rfl

theorem SameType.itemsTakeBytes_iff {v w : Value} (h : SameType v w) :
    v.ItemsTakeBytes ↔ w.ItemsTakeBytes := by
  rw [← itemsTakeBytes_blank v, h, itemsTakeBytes_blank]

end Value

end Forte
