import Forte.Datatypes.Datum

/-!
# Members of structs

`getVar` and `getMemberNamed` lead from a value to a member of it, through structs only. What
is changed at one member is seen there and in everything that contains it, and nowhere else
(`Forte.Datum.getVar_setVar_of_not`).
-/

namespace Forte

namespace Datum

/-- `CIEC_ANY::getVar`, by the names of members. -/
def getVar (v : Datum) : List StringId → Option Datum
  | [] => some v
  | name :: names =>
    match v with
    | .struct _ elementNames members =>
      match (elementNames.idxOf? name).bind (members[·]?) with
      | some m => m.getVar names
      | none => none
    | _ => none

/-- The value with another value in the place that `getVar` finds. -/
def setVar (v : Datum) (new : Datum) : List StringId → Datum
  | [] => new
  | name :: names =>
    match v with
    | .struct structTypeName elementNames members =>
      match elementNames.idxOf? name with
      | some i =>
        match members[i]? with
        | some m => .struct structTypeName elementNames (members.set i (m.setVar new names))
        | none => v
      | none => v
    | _ => v

/-- **What is put in a place is found there.** -/
theorem getVar_setVar {v : Datum} {names : List StringId} (h : (v.getVar names).isSome)
    (new : Datum) : (v.setVar new names).getVar names = some new := by
  induction names generalizing v with
  | nil => rfl
  | cons name names ih =>
    cases v with
    | struct t elementNames members =>
      rw [getVar] at h
      rw [setVar]
      cases hi : elementNames.idxOf? name with
      | none => simp [hi] at h
      | some i =>
        cases hm : members[i]? with
        | none => simp [hi, hm] at h
        | some m =>
          have hlt : i < members.length := (List.getElem?_eq_some_iff.mp hm).1
          simp only [hi, hm, Option.bind_some] at h
          simp only [hm, getVar, hi, Option.bind_some, List.getElem?_set_self hlt]
          exact ih h
    | _ => exact absurd h (by simp [getVar])

/-- There is one name at an index. -/
theorem name_unique {elementNames : List StringId} {name name' : StringId} {i : ℕ}
    (h : elementNames.idxOf? name = some i) (h' : elementNames.idxOf? name' = some i) :
    name = name' := by
  obtain ⟨_, hname, -⟩ := List.idxOf?_eq_some_iff.mp h
  obtain ⟨_, hname', -⟩ := List.idxOf?_eq_some_iff.mp h'
  exact hname.symm.trans hname'

/-- **What is changed at one place is not seen at another one**, unless one of them lies in the
other. -/
theorem getVar_setVar_of_not (v new : Datum) {names other : List StringId}
    (h : ¬names <+: other) (h' : ¬other <+: names) :
    (v.setVar new names).getVar other = v.getVar other := by
  induction names generalizing v other with
  | nil => exact absurd List.nil_prefix h
  | cons name names ih =>
    cases other with
    | nil => exact absurd List.nil_prefix h'
    | cons name' other =>
      cases v with
      | struct t elementNames members =>
        rw [setVar]
        cases hi : elementNames.idxOf? name with
        | none => rfl
        | some i =>
          cases hm : members[i]? with
          | none => simp only [hm]
          | some m =>
            have hlt : i < members.length := (List.getElem?_eq_some_iff.mp hm).1
            simp only [hm, getVar]
            cases hj : elementNames.idxOf? name' with
            | none => rfl
            | some j =>
              simp only [Option.bind_some]
              by_cases hij : i = j
              · subst hij
                -- the same member: the places part further down
                obtain rfl := name_unique hi hj
                rw [List.getElem?_set_self hlt, hm]
                exact ih m (fun hp => h (List.prefix_cons_inj name |>.mpr hp))
                  (fun hp => h' (List.prefix_cons_inj name |>.mpr hp))
              · rw [List.getElem?_set_ne hij]
      | _ => rfl

/-- A value put in its own place changes nothing. -/
theorem setVar_getVar {v w : Datum} {names : List StringId} (h : v.getVar names = some w) :
    v.setVar w names = v := by
  induction names generalizing v with
  | nil => exact (Option.some.inj h).symm
  | cons name names ih =>
    cases v with
    | struct t elementNames members =>
      rw [getVar] at h
      rw [setVar]
      cases hi : elementNames.idxOf? name with
      | none => rfl
      | some i =>
        cases hm : members[i]? with
        | none => simp only [hm]
        | some m =>
          simp only [hi, hm, Option.bind_some] at h
          obtain ⟨hlt, rfl⟩ := List.getElem?_eq_some_iff.mp hm
          simp only [hm, ih h, List.set_getElem_self]
    | _ => rfl

/-- The walk of a path that begins with the name of a member. -/
theorem setVar_struct_cons {t : StringId} {elementNames : List StringId} {members : List Datum}
    {name : StringId} {i : ℕ} {m : Datum} (hi : elementNames.idxOf? name = some i)
    (hm : members[i]? = some m) (new : Datum) (names : List StringId) :
    (Datum.struct t elementNames members).setVar new (name :: names) =
      .struct t elementNames (members.set i (m.setVar new names)) := by
  rw [setVar]
  simp only [hi, hm]

/-- A path that begins with the name of no member leads nowhere. -/
theorem setVar_struct_of_absent {elementNames : List StringId} {members : List Datum}
    {name : StringId} (h : ∀ i m, elementNames.idxOf? name = some i → members[i]? ≠ some m)
    (t : StringId) (new : Datum) (names : List StringId) :
    (Datum.struct t elementNames members).setVar new (name :: names) =
      .struct t elementNames members := by
  rw [setVar]
  rcases hi : elementNames.idxOf? name with - | i
  · rfl
  · rcases hm : members[i]? with - | m
    · simp only [hm]
    · exact absurd hm (h i m hi)

/-- A value in a member does not make another one appear. -/
theorem absent_set {elementNames : List StringId} {members : List Datum} {name : StringId}
    (h : ∀ i m, elementNames.idxOf? name = some i → members[i]? ≠ some m) (j : ℕ) (w : Datum) :
    ∀ i m, elementNames.idxOf? name = some i → (members.set j w)[i]? ≠ some m := by
  intro i m hi hm
  have hlt := (List.getElem?_eq_some_iff.mp hm).1
  rw [List.length_set] at hlt
  exact h i _ hi (List.getElem?_eq_getElem hlt)

/-- **What is put in two places** may be put there in any order, unless one of them lies in the
other. -/
theorem setVar_comm (v new new' : Datum) {names other : List StringId}
    (h : ¬names <+: other) (h' : ¬other <+: names) :
    (v.setVar new names).setVar new' other = (v.setVar new' other).setVar new names := by
  induction names generalizing v other with
  | nil => exact absurd List.nil_prefix h
  | cons name names ih =>
    rcases other with - | ⟨name', other⟩
    · exact absurd List.nil_prefix h'
    cases v with
    | struct t elementNames members =>
      by_cases hp : ∀ i m, elementNames.idxOf? name = some i → members[i]? ≠ some m
      · rw [setVar_struct_of_absent hp]
        by_cases hq : ∀ i m, elementNames.idxOf? name' = some i → members[i]? ≠ some m
        · rw [setVar_struct_of_absent hq, setVar_struct_of_absent hp]
        · push Not at hq
          obtain ⟨j, m', hj, hm'⟩ := hq
          rw [setVar_struct_cons hj hm', setVar_struct_of_absent (absent_set hp j _)]
      push Not at hp
      obtain ⟨i, m, hi, hm⟩ := hp
      rw [setVar_struct_cons hi hm]
      by_cases hq : ∀ i m, elementNames.idxOf? name' = some i → members[i]? ≠ some m
      · rw [setVar_struct_of_absent hq, setVar_struct_of_absent (absent_set hq i _),
          setVar_struct_cons hi hm]
      push Not at hq
      obtain ⟨j, m', hj, hm'⟩ := hq
      rw [setVar_struct_cons hj hm']
      have hlt := (List.getElem?_eq_some_iff.mp hm).1
      by_cases hij : i = j
      · -- the same member: the places part further down
        subst hij
        obtain rfl := Option.some.inj (hm.symm.trans hm')
        obtain rfl := name_unique hi hj
        rw [setVar_struct_cons hi (List.getElem?_set_self hlt),
          setVar_struct_cons hi (List.getElem?_set_self hlt), List.set_set, List.set_set,
          ih m (fun hp => h (List.prefix_cons_inj name |>.mpr hp))
            (fun hp => h' (List.prefix_cons_inj name |>.mpr hp))]
      · rw [setVar_struct_cons hj (by rw [List.getElem?_set_ne hij, hm']),
          setVar_struct_cons hi (by rw [List.getElem?_set_ne (Ne.symm hij), hm]),
          List.set_comm _ _ hij]
    | _ => rfl

end Datum

end Forte
