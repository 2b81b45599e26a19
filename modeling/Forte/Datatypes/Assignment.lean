import Forte.Datatypes.AnyVariant
import Forte.Datatypes.StringFixed

/-!
# Assignment of values

The `setValue` of a value writes another value into the storage there is. A number takes over
the bits of the other one, whatever they mean there; an array takes the elements at the indices
both have, and a struct the members of a struct of the same type name. So a value keeps its type
(`Forte.Datum.typeOf_setValue`), and is the other one behind the assignment if that is of the
same type (`Forte.Datum.plain_setValue`).
-/

namespace Forte

/-- What an assignment of values of different types depends on. -/
structure Conversions where
  /-- The pointer in the `mAnyData` of a `CIEC_WSTRING`. -/
  genData : Text → BitVec 64
  /-- `setValue` of a `CIEC_REAL` or a `CIEC_LREAL` with a value of another type. -/
  toReal : RealType → BitVec 64 → Datum → BitVec 64

namespace Datum

/-- `mAnyData`, which only the elementary types use. -/
def mAnyData (C : Conversions) : Datum → BitVec 64
  | .number _ data => data
  | .duration _ data => data
  | .date _ data => data
  | .real _ data => data
  | .char data => data
  | .wchar data => data
  | .string _ _ => 0
  | .wstring storage => C.genData storage
  | .array _ _ => 0
  | .struct _ _ _ => 0
  | .any _ => 0

mutual

/-- `setValue`. -/
def setValue (C : Conversions) : Datum → Datum → Datum
  | .number t _, v => .number t (v.mAnyData C)
  | .duration t _, v => .duration t (v.mAnyData C)
  | .date t _, v => .date t (v.mAnyData C)
  | .real t data, v =>
    match v with
    | .real t' data' => .real t (if t = t' then data' else C.toReal t data (.real t' data'))
    | v => .real t (C.toReal t data v)
  | .char _, v => .char (v.mAnyData C)
  | .wchar _, v => .wchar (v.mAnyData C)
  | .string bound storage, v => .string bound (StringFixed.setValue storage v)
  | .wstring storage, v =>
    match v with
    | .wstring storage' => .wstring storage'
    | _ => .wstring storage
  | .array lowerBound es, v =>
    match v with
    | .array lowerBound' es' =>
      .array lowerBound
        (assignAll C (lowerBound' - lowerBound).toNat es
          (es'.drop (lowerBound - lowerBound').toNat))
    | _ => .array lowerBound es
  | .struct name names ms, v =>
    match v with
    | .struct name' _ ms' => .struct name names (if name = name' then assignAll C 0 ms ms' else ms)
    | _ => .struct name names ms
  | .any _, v => .any (AnyVariant.setValue v).held

/-- `setValue` of the elements of an array from its so manieth one on, as long as there are
values, and of the members of a struct. -/
def assignAll (C : Conversions) : ℕ → List Datum → List Datum → List Datum
  | _, [], _ => []
  | n + 1, e :: es, vs => e :: assignAll C n es vs
  | 0, e :: es, vs =>
    match vs with
    | [] => e :: es
    | v :: vs => e.setValue C v :: assignAll C 0 es vs

end

mutual

/-- The type of a value, as the value of this type with nothing in it. The bound of a string
does not belong to it. -/
def typeOf : Datum → Datum
  | .number t _ => .number t 0
  | .duration t _ => .duration t 0
  | .date t _ => .date t 0
  | .real t _ => .real t 0
  | .char _ => .char 0
  | .wchar _ => .wchar 0
  | .string _ _ => .string none []
  | .wstring _ => .wstring []
  | .array lowerBound es => .array lowerBound (typesOf es)
  | .struct name names ms => .struct name names (typesOf ms)
  | .any _ => .any (.number .sint 0)

/-- The types of elements or members. -/
def typesOf : List Datum → List Datum
  | [] => []
  | v :: vs => v.typeOf :: typesOf vs

end

/-- A variable of type `ANY` with a value, or with what another such variable holds. -/
def held : Datum → Datum
  | .any w => .any w
  | v => .any v

mutual

/-- The value without the bounds of its strings, where a variable of type `ANY` holds no other
one. -/
def plain : Datum → Datum
  | .number t data => .number t data
  | .duration t data => .duration t data
  | .date t data => .date t data
  | .real t data => .real t data
  | .char data => .char data
  | .wchar data => .wchar data
  | .string _ storage => .string none storage
  | .wstring storage => .wstring storage
  | .array lowerBound es => .array lowerBound (plains es)
  | .struct name names ms => .struct name names (plains ms)
  | .any w => w.plain.held

/-- `plain`, of elements or members. -/
def plains : List Datum → List Datum
  | [] => []
  | v :: vs => v.plain :: plains vs

end

theorem typesOf_eq_map (vs : List Datum) : typesOf vs = vs.map typeOf := by
  induction vs with
  | nil => rfl
  | cons v vs ih => rw [typesOf, ih, List.map_cons]

theorem plains_eq_map (vs : List Datum) : plains vs = vs.map plain := by
  induction vs with
  | nil => rfl
  | cons v vs ih => rw [plains, ih, List.map_cons]

/-! ### The type is kept -/

theorem typesOf_assignAll (C : Conversions) {es : List Datum}
    (ih : ∀ e ∈ es, ∀ v, typeOf (e.setValue C v) = e.typeOf) (n : ℕ) (vs : List Datum) :
    typesOf (assignAll C n es vs) = typesOf es := by
  induction es generalizing n vs with
  | nil => rw [assignAll]
  | cons e es hes =>
    have hrest := hes fun e' he' => ih e' (List.mem_cons_of_mem e he')
    rcases n with - | n
    · rcases vs with - | ⟨v, vs⟩
      · rw [assignAll]
      · rw [assignAll, typesOf, typesOf, ih e List.mem_cons_self v, hrest 0 vs]
    · rw [assignAll, typesOf, typesOf, hrest n vs]

/-- **An assignment does not change the type.** -/
theorem typeOf_setValue (C : Conversions) (m v : Datum) : typeOf (m.setValue C v) = m.typeOf := by
  induction m generalizing v with
  | array lowerBound es ih =>
    rcases v with _ | _ | _ | _ | _ | _ | _ | _ | ⟨lowerBound', es'⟩ | _ | _
    case array => rw [setValue, typeOf, typeOf, typesOf_assignAll C ih]
    all_goals rfl
  | struct name names ms ih =>
    rcases v with _ | _ | _ | _ | _ | _ | _ | _ | _ | ⟨name', names', ms'⟩ | _
    case struct =>
      rw [setValue, typeOf, typeOf]
      split_ifs
      · rw [typesOf_assignAll C ih]
      · rfl
    all_goals rfl
  | real t data => cases v <;> rfl
  | wstring storage => cases v <;> rfl
  | _ => rfl

/-! ### The value is taken over -/

theorem held_held (v : Datum) : v.held.held = v.held := by
  cases v <;> rfl

theorem held_plain_setValue (v : Datum) :
    (AnyVariant.setValue v).held.plain.held = v.plain.held := by
  induction v with
  | any w ih => rw [AnyVariant.setValue, ih, plain, held_held]
  | _ => rfl

theorem plains_assignAll (C : Conversions) {es vs : List Datum}
    (ih : ∀ e ∈ es, ∀ v, typeOf e = typeOf v → plain (e.setValue C v) = v.plain)
    (h : typesOf es = typesOf vs) : plains (assignAll C 0 es vs) = plains vs := by
  induction es generalizing vs with
  | nil =>
    rcases vs with - | ⟨v, vs⟩
    · rw [assignAll]
    · rw [typesOf, typesOf] at h
      exact absurd h (List.cons_ne_nil _ _).symm
  | cons e es hes =>
    rcases vs with - | ⟨v, vs⟩
    · rw [typesOf, typesOf] at h
      exact absurd h (List.cons_ne_nil _ _)
    · rw [typesOf, typesOf] at h
      obtain ⟨hhead, htail⟩ := List.cons.inj h
      rw [assignAll, plains, plains, ih e List.mem_cons_self v hhead,
        hes (fun e' he' => ih e' (List.mem_cons_of_mem e he')) htail]

/-- **A value of the same type is taken over** completely. -/
theorem plain_setValue (C : Conversions) {m v : Datum} (h : typeOf m = typeOf v) :
    plain (m.setValue C v) = v.plain := by
  induction m generalizing v with
  | array lowerBound es ih =>
    -- an `ANY` takes over what the other one holds
    rcases v with _ | _ | _ | _ | _ | _ | _ | _ | ⟨lowerBound', es'⟩ | _ | _
    case array =>
      rw [typeOf, typeOf] at h
      obtain ⟨rfl, htypes⟩ := Datum.array.inj h
      rw [setValue, plain, plain, sub_self, Int.toNat_zero, List.drop_zero,
        plains_assignAll C ih htypes]
    all_goals exact absurd h (by simp [typeOf])
  | struct name names ms ih =>
    rcases v with _ | _ | _ | _ | _ | _ | _ | _ | _ | ⟨name', names', ms'⟩ | _
    case struct =>
      rw [typeOf, typeOf] at h
      obtain ⟨rfl, rfl, htypes⟩ := Datum.struct.inj h
      rw [setValue, plain, plain, if_pos rfl, plains_assignAll C ih htypes]
    all_goals exact absurd h (by simp [typeOf])
  | any w =>
    cases v with
    | any w' => rw [setValue, plain, plain, AnyVariant.setValue, held_plain_setValue]
    | _ => exact absurd h (by simp [typeOf])
  | real t data =>
    rcases v with _ | _ | _ | ⟨t', data'⟩ | _ | _ | _ | _ | _ | _ | _
    case real =>
      obtain ⟨rfl, -⟩ := Datum.real.inj h
      rw [setValue, if_pos rfl]
    all_goals exact absurd h (by simp [typeOf])
  | _ =>
    cases v <;> simp [typeOf, setValue, plain, mAnyData, StringFixed.setValue] at h ⊢ <;> exact h

theorem held_plain_unwrap (v : Datum) : v.unwrap.plain.held = v.plain.held := by
  induction v with
  | any w ih => rw [unwrap, ih, plain, held_held]
  | _ => rfl

/-- The value of a variable of type `ANY` is taken over as what it holds. -/
theorem plain_setValue_unwrap (C : Conversions) {m v : Datum} (h : typeOf m = typeOf v) :
    plain (m.setValue C v.unwrap) = v.plain := by
  cases v with
  | any w =>
    cases m with
    | any w' => rw [setValue, plain, held_plain_setValue, held_plain_unwrap, plain, held_held]
    | _ => exact absurd h (by simp [typeOf])
  | _ => exact plain_setValue C h

/-! ### Assignments that change nothing -/

mutual

/-- There is nothing that the assignment of a value changes: arrays have only elements for which
this holds at the indices both have, structs are of different types or have only such members,
and any other value is what it becomes. -/
def unaffected (C : Conversions) : Datum → Datum → Prop
  | .array lowerBound es, v =>
    match v with
    | .array lowerBound' es' =>
      unaffectedAll C (lowerBound' - lowerBound).toNat es
        (es'.drop (lowerBound - lowerBound').toNat)
    | _ => True
  | .struct name _ ms, v =>
    match v with
    | .struct name' _ ms' => name = name' → unaffectedAll C 0 ms ms'
    | _ => True
  | m, v => m.setValue C v = m

/-- `unaffected`, for the elements from the so manieth one on. -/
def unaffectedAll (C : Conversions) : ℕ → List Datum → List Datum → Prop
  | _, [], _ => True
  | n + 1, _ :: es, vs => unaffectedAll C n es vs
  | 0, e :: es, vs =>
    match vs with
    | [] => True
    | v :: vs => e.unaffected C v ∧ unaffectedAll C 0 es vs

end

theorem assignAll_eq_self_iff (C : Conversions) {es : List Datum}
    (ih : ∀ e ∈ es, ∀ v, e.setValue C v = e ↔ e.unaffected C v) (n : ℕ) (vs : List Datum) :
    assignAll C n es vs = es ↔ unaffectedAll C n es vs := by
  induction es generalizing n vs with
  | nil => rw [assignAll, unaffectedAll, eq_self]
  | cons e es hes =>
    have hrest := hes fun e' he' => ih e' (List.mem_cons_of_mem e he')
    rcases n with - | n
    · rcases vs with - | ⟨v, vs⟩
      · rw [assignAll, unaffectedAll, eq_self]
      · rw [assignAll, unaffectedAll, List.cons.injEq, ih e List.mem_cons_self v, hrest 0 vs]
    · rw [assignAll, unaffectedAll, List.cons.injEq, hrest n vs, and_iff_right rfl]

/-- **An assignment changes nothing** exactly if there is nothing to change. -/
theorem setValue_eq_self_iff (C : Conversions) (m v : Datum) :
    m.setValue C v = m ↔ m.unaffected C v := by
  induction m generalizing v with
  | array lowerBound es ih =>
    rcases v with _ | _ | _ | _ | _ | _ | _ | _ | ⟨lowerBound', es'⟩ | _ | _
    case array =>
      rw [setValue, unaffected, Datum.array.injEq, and_iff_right rfl, assignAll_eq_self_iff C ih]
    all_goals exact iff_of_true rfl trivial
  | struct name names ms ih =>
    rcases v with _ | _ | _ | _ | _ | _ | _ | _ | _ | ⟨name', names', ms'⟩ | _
    case struct =>
      rw [setValue, unaffected, Datum.struct.injEq, and_iff_right rfl, and_iff_right rfl]
      split_ifs with hname
      · rw [assignAll_eq_self_iff C ih]
        exact ⟨fun h _ => h, fun h => h hname⟩
      · exact iff_of_true rfl fun h => absurd h hname
    all_goals exact iff_of_true rfl trivial
  | _ => exact Iff.rfl

/-- Values of the same type have the same data type id. -/
theorem getDataTypeID_of_typeOf {v w : Datum} (h : typeOf v = typeOf w) :
    v.getDataTypeID = w.getDataTypeID := by
  have htypeOf : ∀ u : Datum, u.typeOf.getDataTypeID = u.getDataTypeID := by
    intro u
    cases u <;> rfl
  rw [← htypeOf v, h, htypeOf w]

end Datum

end Forte
