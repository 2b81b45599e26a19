import Forte.Datatypes.Assignment
import Forte.Datatypes.Members

/-!
# Pointers to members

A pointer to a member of a struct, however deep, is the list of the indices that lead to it. It
stays valid as long as the struct keeps its type, whatever is assigned to it
(`Forte.Datum.memberAt_of_typeOf`).
-/

namespace Forte

/-- A pointer to a member, by the indices that lead to it. -/
abbrev Pointer : Type := List ℕ

namespace Datum

/-- The member that a pointer into a value points to. -/
def memberAt : Datum → Pointer → Option Datum
  | v, [] => some v
  | v, i :: pointer =>
    match v with
    | .struct _ _ members =>
      match members[i]? with
      | some m => m.memberAt pointer
      | none => none
    | _ => none

/-- `getMemberNamed`: the index of the member and the member. -/
def getMemberNamed (elementNames : List StringId) (members : List Datum)
    (paMemberNameId : StringId) : Option (ℕ × Datum) :=
  match elementNames.idxOf? paMemberNameId with
  | some i =>
    match members[i]? with
    | some m => some (i, m)
    | none => none
  | none => none

/-- Where a path of names leads. -/
def pointerTo : Datum → List StringId → Option Pointer
  | _, [] => some []
  | v, name :: names =>
    match v with
    | .struct _ elementNames members =>
      match getMemberNamed elementNames members name with
      | some (i, m) => (m.pointerTo names).map (i :: ·)
      | none => none
    | _ => none

theorem getMemberNamed_eq_some {elementNames : List StringId} {members : List Datum}
    {name : StringId} {i : ℕ} {m : Datum}
    (h : getMemberNamed elementNames members name = some (i, m)) :
    elementNames.idxOf? name = some i ∧ members[i]? = some m := by
  rw [getMemberNamed] at h
  split at h
  · rename_i j hj
    split at h
    · rename_i m' hm'
      obtain ⟨rfl, rfl⟩ := Prod.mk.inj (Option.some.inj h)
      exact ⟨hj, hm'⟩
    · exact absurd h.symm (Option.some_ne_none _)
  · exact absurd h.symm (Option.some_ne_none _)

/-- The walk of a path that begins with a name. -/
theorem getVar_struct_cons (t : StringId) (elementNames : List StringId) (members : List Datum)
    (name : StringId) (names : List StringId) :
    (Datum.struct t elementNames members).getVar (name :: names) =
      (getMemberNamed elementNames members name).bind fun member => member.2.getVar names := by
  rw [getVar, getMemberNamed]
  rcases elementNames.idxOf? name with - | i
  · rfl
  · simp only [Option.bind_some]
    rcases members[i]? with - | m <;> rfl

/-- **A path leads to a member that exists.** -/
theorem memberAt_pointerTo {v : Datum} {names : List StringId} {pointer : Pointer}
    (h : v.pointerTo names = some pointer) : ∃ m, v.memberAt pointer = some m ∧
      v.getVar names = some m := by
  -- down the path, one member at a time
  induction names generalizing v pointer with
  | nil =>
    obtain rfl := Option.some.inj h
    exact ⟨v, rfl, rfl⟩
  | cons name names ih =>
    cases v with
    | struct t elementNames members =>
      simp only [pointerTo] at h
      rcases hnamed : getMemberNamed elementNames members name with - | ⟨i, m⟩
      · rw [hnamed] at h
        exact absurd h.symm (Option.some_ne_none _)
      · obtain ⟨hi, hm⟩ := getMemberNamed_eq_some hnamed
        rw [hnamed] at h
        obtain ⟨rest, hrest, rfl⟩ := Option.map_eq_some_iff.mp h
        obtain ⟨m', hat, hvar⟩ := ih hrest
        refine ⟨m', ?_, ?_⟩
        · simp only [memberAt, hm, hat]
        · simp only [getVar, hi, Option.bind_some, hm, hvar]
    | _ => exact absurd h (by simp [pointerTo])

theorem pointerTo_append (v : Datum) (names : List StringId) (rest : List StringId) :
    v.pointerTo (names ++ rest) = (v.pointerTo names).bind fun pointer =>
      (v.memberAt pointer).bind fun m => (m.pointerTo rest).map (pointer ++ ·) := by
  induction names generalizing v with
  | nil => simp [pointerTo, memberAt]
  | cons name names ih =>
    rw [List.cons_append]
    cases v with
    | struct t elementNames members =>
      simp only [pointerTo]
      rcases hnamed : getMemberNamed elementNames members name with - | ⟨i, m⟩
      · rfl
      · obtain ⟨-, hm⟩ := getMemberNamed_eq_some hnamed
        dsimp only
        rw [ih m]
        rcases m.pointerTo names with - | pointer
        · rfl
        · simp only [Option.bind_some, Option.map_some, memberAt, hm]
          rcases m.memberAt pointer with - | m'
          · rfl
          · simp only [Option.bind_some, Option.map_map]
            rfl
    | _ => simp [pointerTo]

/-! ### Pointers and assignments -/

theorem memberAt_typeOf (v : Datum) (pointer : Pointer) :
    v.typeOf.memberAt pointer = (v.memberAt pointer).map typeOf := by
  induction pointer generalizing v with
  | nil => rw [memberAt, memberAt, Option.map_some]
  | cons i pointer ih =>
    cases v with
    | struct t elementNames members =>
      simp only [typeOf, memberAt, typesOf_eq_map, List.getElem?_map]
      rcases members[i]? with - | m
      · rfl
      · exact ih m
    | _ => rfl

/-- **A pointer stays valid** as long as the type is the same, and so does the type of what it
points to. -/
theorem memberAt_of_typeOf {v w : Datum} (h : typeOf v = typeOf w) {pointer : Pointer} {m : Datum}
    (hm : v.memberAt pointer = some m) :
    ∃ m', w.memberAt pointer = some m' ∧ typeOf m' = typeOf m := by
  have hw := memberAt_typeOf w pointer
  rw [← h, memberAt_typeOf, hm, Option.map_some] at hw
  obtain ⟨m', hm', htype⟩ := Option.map_eq_some_iff.mp hw.symm
  exact ⟨m', hm', htype⟩

theorem held_ne_struct (v : Datum) (pointer : Pointer) (i : ℕ) :
    v.held.memberAt (i :: pointer) = none := by
  cases v <;> rfl

theorem memberAt_plain (v : Datum) (pointer : Pointer) :
    v.plain.memberAt pointer = (v.memberAt pointer).map plain := by
  induction pointer generalizing v with
  | nil => rw [memberAt, memberAt, Option.map_some]
  | cons i pointer ih =>
    cases v with
    | struct t elementNames members =>
      simp only [plain, memberAt, plains_eq_map, List.getElem?_map]
      rcases members[i]? with - | m
      · rfl
      · exact ih m
    | any w =>
      rw [plain, held_ne_struct]
      rfl
    | _ => rfl

theorem held_setVar (v new : Datum) {names : List StringId} (h : names ≠ []) :
    v.held.setVar new names = v.held := by
  obtain ⟨name, names, rfl⟩ := List.exists_cons_of_ne_nil h
  cases v <;> rfl

/-- A value that is put in a place takes it over completely. -/
theorem plain_setVar (v new : Datum) (names : List StringId) :
    (v.setVar new names).plain = v.plain.setVar new.plain names := by
  induction names generalizing v with
  | nil => rw [setVar, setVar]
  | cons name names ih =>
    cases v with
    | struct t elementNames members =>
      rw [setVar, plain, setVar]
      rcases elementNames.idxOf? name with - | i
      · rw [plain]
      · simp only [plains_eq_map, List.getElem?_map]
        rcases members[i]? with - | m
        · simp only [plain, plains_eq_map, Option.map_none]
        · simp only [plain, plains_eq_map, List.map_set, ih m, Option.map_some]
    | any w =>
      rw [setVar, plain, held_setVar _ _ (List.cons_ne_nil _ _)]
      rintro _ _ _ ⟨⟩
    | _ => rfl

end Datum

end Forte
