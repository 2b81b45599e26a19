import Forte.Datatypes.Pointers
import Forte.Lib.Separated
import Forte.Management.Command

/-!
# Members of structs by their names

`SET_STRUCT_VALUE` copies a struct and writes a value to one member of the copy;
`GET_STRUCT_VALUE` reads a member. The member is given by a text, the names of the members on
the way with dots between them. The text is cut at its first zero and at its dots, and the walk
ends where a name is unknown or something else than a struct is found. A name that is not interned
is the name of no member.

A value is only written if its data type id is that of the member. All arrays have one id, and all
structs: an array of other bounds or elements is written as far as it goes.
`Forte.StructValue.meets_iff` says when the member is replaced by a value of its type and left
alone otherwise; all the rest that is expected of the two blocks holds then.
-/

namespace Forte

/-- A `SET_STRUCT_VALUE`. -/
structure SetStructValue where
  var_in_struct : AnyVariant
  var_member : Text
  var_element_value : AnyVariant
  var_out_struct : AnyVariant

/-- A `GET_STRUCT_VALUE`. -/
structure GetStructValue where
  var_in_struct : AnyVariant
  var_member : Text
  var_QO : Bool
  var_output : AnyVariant

namespace StructValue

/-- The dot between two names. -/
def nameSeparator : UInt8 := 46

/-- `lookForMember`, of both blocks. A pointer to a member is given by the names that lead to
it. -/
def lookForMember (paWhereToLook : Datum) (paMemberName : Text) : Option (List StringId) :=
  match paWhereToLook with
  | .struct _ elementNames members =>
    match _h : paMemberName.idxOf? nameSeparator with
    | some index =>
      let name := StringId.insert (paMemberName.take index)
      match Datum.getMemberNamed elementNames members name with
      | some (_, member) =>
        if member.getDataTypeID = .struct then
          (lookForMember member (paMemberName.drop (index + 1))).map (name :: ·)
        else none
      | none => none
    | none =>
      let name := StringId.insert paMemberName
      (Datum.getMemberNamed elementNames members name).map fun _ => [name]
  | _ => none
termination_by paMemberName.length
decreasing_by
  have := Separated.lt_length _h
  rw [List.length_drop]
  omega

end StructValue

open StructValue (lookForMember)

/-- What `executeEvent` makes of the struct it has copied. -/
def SetStructValue.outStruct (C : Conversions) (outStruct : Datum) (memberName : Text)
    (elementValue : Datum) : Datum :=
  match lookForMember outStruct (StringFixed.cString memberName) with
  | some names =>
    match outStruct.getVar names with
    | some member =>
      if member.getDataTypeID = elementValue.getDataTypeID then
        outStruct.setVar (member.setValue C elementValue) names
      else outStruct
    | none => outStruct
  | none => outStruct

/-- `SET_STRUCT_VALUE::executeEvent`. -/
def SetStructValue.executeEvent (C : Conversions) (fb : SetStructValue) : SetStructValue :=
  { fb with
    var_out_struct :=
      match fb.var_in_struct.held with
      | .struct structTypeName elementNames members =>
        AnyVariant.setValue (outStruct C (.struct structTypeName elementNames members)
          fb.var_member fb.var_element_value.held)
      | _ => fb.var_in_struct }

/-- `SET_STRUCT_VALUE::evt_REQ`. -/
def SetStructValue.evtREQ (C : Conversions) (fb : SetStructValue) (in_struct : AnyVariant)
    (member : Text) (element_value : AnyVariant) : SetStructValue :=
  executeEvent C
    { fb with
      var_in_struct := in_struct
      var_member := member
      var_element_value := element_value }

/-- `GET_STRUCT_VALUE::executeEvent`. -/
def GetStructValue.executeEvent (fb : GetStructValue) : GetStructValue :=
  match fb.var_in_struct.held with
  | .struct structTypeName elementNames members =>
    let inStruct := Datum.struct structTypeName elementNames members
    match (lookForMember inStruct (StringFixed.cString fb.var_member)).bind inStruct.getVar with
    | some member => { fb with var_output := AnyVariant.setValue member, var_QO := true }
    | none => { fb with var_QO := false }
  | _ => { fb with var_QO := false }

/-- `GET_STRUCT_VALUE::evt_REQ`. -/
def GetStructValue.evtREQ (fb : GetStructValue) (in_struct : AnyVariant) (member : Text) :
    GetStructValue :=
  executeEvent { fb with var_in_struct := in_struct, var_member := member }

namespace StructValue

/-! ### What is expected -/

/-- The names of the members on the way, by the text of a path. -/
def names (path : Text) : List StringId :=
  ((StringFixed.cString path).splitOn nameSeparator).map StringId.insert

/-- None of two paths leads to the other one or to a place in it. -/
def Apart (path path' : Text) : Prop :=
  ¬names path <+: names path' ∧ ¬names path' <+: names path

/-- **The member is replaced** by a value of its type, and everything else is as it was. -/
structure Replaces (C : Conversions) (set : SetStructValue) (get : GetStructValue)
    (s : AnyVariant) (path : Text) (v : AnyVariant) : Prop where
  input : (set.evtREQ C s path v).var_in_struct = s
  replaced : ∀ m, s.held.getVar (names path) = some m → m.typeOf = v.held.typeOf →
    (set.evtREQ C s path v).var_out_struct.held.plain =
      (s.held.setVar v.held (names path)).plain
  otherwise : (∀ m, s.held.getVar (names path) = some m → m.typeOf ≠ v.held.typeOf) →
    (set.evtREQ C s path v).var_out_struct = s
  get_same : ∀ m, s.held.getVar (names path) = some m → m.typeOf = v.held.typeOf →
    let got := get.evtREQ (set.evtREQ C s path v).var_out_struct path
    got.var_QO = true ∧ got.var_output.held.plain = v.held.plain
  get_other : ∀ path', Apart path path' →
    let got := get.evtREQ (set.evtREQ C s path v).var_out_struct path'
    got.var_QO = (get.evtREQ s path').var_QO ∧ got.var_output = (get.evtREQ s path').var_output
  get_QO : ∀ path', (get.evtREQ (set.evtREQ C s path v).var_out_struct path').var_QO = false ↔
    (set.evtREQ C s path v).var_out_struct.held.getVar (names path') = none
  commute : ∀ path' v', Apart path path' →
    (set.evtREQ C (set.evtREQ C s path v).var_out_struct path' v').var_out_struct =
      (set.evtREQ C (set.evtREQ C s path' v').var_out_struct path v).var_out_struct

/-- A member with the data type id of the value is of the type of the value, or there is nothing
that the assignment changes. -/
def Cond (C : Conversions) (s : AnyVariant) (path : Text) (v : AnyVariant) : Prop :=
  ∀ m, s.held.getVar (names path) = some m → m.getDataTypeID = v.held.getDataTypeID →
    m.typeOf = v.held.typeOf ∨ m.unaffected C v.held

/-! ### The walk -/

theorem names_ne_nil (path : Text) : (path.splitOn nameSeparator).map StringId.insert ≠ [] := by
  rw [Ne, List.map_eq_nil_iff]
  exact List.splitOn_ne_nil _ _

theorem getDataTypeID_eq_struct_iff (v : Datum) :
    v.getDataTypeID = .struct ↔ ∃ t ns ms, v = .struct t ns ms := by
  constructor
  · intro h
    cases v with
    | struct t ns ms => exact ⟨t, ns, ms, rfl⟩
    | number t _ => cases t <;> exact EDataTypeID.noConfusion h
    | duration t _ => cases t <;> exact EDataTypeID.noConfusion h
    | date t _ => cases t <;> exact EDataTypeID.noConfusion h
    | real t _ => cases t <;> exact EDataTypeID.noConfusion h
    | _ => exact EDataTypeID.noConfusion h
  · rintro ⟨t, ns, ms, rfl⟩
    rfl

theorem getVar_of_not_struct {v : Datum} (h : v.getDataTypeID ≠ .struct) {names : List StringId}
    (hne : names ≠ []) : v.getVar names = none := by
  obtain ⟨name, names, rfl⟩ := List.exists_cons_of_ne_nil hne
  cases v with
  | struct t ns ms => exact absurd rfl h
  | _ => rfl

/-- **The walk** finds what the path denotes. -/
theorem lookForMember_eq_some_iff (v : Datum) (path : Text) (found : List StringId) :
    lookForMember v path = some found ↔
      found = (path.splitOn nameSeparator).map StringId.insert ∧ (v.getVar found).isSome := by
  -- one case for each return of the search
  fun_induction lookForMember v path generalizing found with
  | case1 path t elementNames members index h name i m hm hstruct ih =>
    rw [Separated.splitOn_of_some h, List.map_cons, Option.map_eq_some_iff]
    constructor
    · rintro ⟨rest, hrest, rfl⟩
      obtain ⟨rfl, hsome⟩ := (ih rest).mp hrest
      rw [Datum.getVar_struct_cons, hm]
      exact ⟨rfl, hsome⟩
    · rintro ⟨rfl, hsome⟩
      rw [Datum.getVar_struct_cons, hm] at hsome
      exact ⟨_, (ih _).mpr ⟨rfl, hsome⟩, rfl⟩
  | case2 path t elementNames members index h name i m hm hstruct =>
    refine iff_of_false (Option.some_ne_none _).symm ?_
    rintro ⟨rfl, hsome⟩
    rw [Separated.splitOn_of_some h, List.map_cons, Datum.getVar_struct_cons, hm, Option.bind_some,
      getVar_of_not_struct hstruct (names_ne_nil _)] at hsome
    exact Bool.false_ne_true hsome
  | case3 path t elementNames members index h name hm =>
    refine iff_of_false (Option.some_ne_none _).symm ?_
    rintro ⟨rfl, hsome⟩
    rw [Separated.splitOn_of_some h, List.map_cons, Datum.getVar_struct_cons, hm] at hsome
    exact Bool.false_ne_true hsome
  | case4 path t elementNames members h name =>
    rw [Separated.splitOn_of_none h, List.map_singleton, Option.map_eq_some_iff]
    constructor
    · rintro ⟨member, hmember, rfl⟩
      rw [Datum.getVar_struct_cons, hmember]
      exact ⟨rfl, rfl⟩
    · rintro ⟨rfl, hsome⟩
      rw [Datum.getVar_struct_cons] at hsome
      rcases hmember : Datum.getMemberNamed elementNames members name with - | member
      · rw [hmember] at hsome
        exact absurd hsome Bool.false_ne_true
      · exact ⟨member, rfl, rfl⟩
  | case5 v path hv =>
    refine iff_of_false (Option.some_ne_none _).symm ?_
    rintro ⟨rfl, hsome⟩
    have hnot : v.getDataTypeID ≠ .struct := fun h => by
      obtain ⟨t, ns, ms, rfl⟩ := (getDataTypeID_eq_struct_iff v).mp h
      exact hv t ns ms rfl
    rw [getVar_of_not_struct hnot (names_ne_nil _)] at hsome
    exact Bool.false_ne_true hsome

theorem lookForMember_bind_getVar (v : Datum) (path : Text) :
    (lookForMember v (StringFixed.cString path)).bind v.getVar = v.getVar (names path) := by
  rcases hfound : lookForMember v (StringFixed.cString path) with - | found
  · rcases hvar : v.getVar (names path) with - | m
    · rfl
    · have hsome := (lookForMember_eq_some_iff v (StringFixed.cString path) (names path)).mpr
        ⟨rfl, by rw [hvar]; rfl⟩
      exact absurd (hfound.symm.trans hsome) (Option.some_ne_none _).symm
  · obtain ⟨rfl, -⟩ := (lookForMember_eq_some_iff v _ found).mp hfound
    rfl

/-! ### The struct behind a `SET_STRUCT_VALUE` -/

/-- The struct with a value in the place of a member with the same data type id. -/
def written (C : Conversions) (s : Datum) (names : List StringId) (v : Datum) : Datum :=
  match s.getVar names with
  | some m => if m.getDataTypeID = v.getDataTypeID then s.setVar (m.setValue C v) names else s
  | none => s

theorem outStruct_eq (C : Conversions) (s : Datum) (path : Text) (v : Datum) :
    SetStructValue.outStruct C s path v = written C s (names path) v := by
  have hvar := lookForMember_bind_getVar s path
  rw [SetStructValue.outStruct, written]
  rcases hfound : lookForMember s (StringFixed.cString path) with - | found
  · rw [hfound, Option.bind_none] at hvar
    rw [← hvar]
  · obtain ⟨rfl, -⟩ := (lookForMember_eq_some_iff s _ found).mp hfound
    rfl

theorem written_of_none {C : Conversions} {s v : Datum} {names : List StringId}
    (h : s.getVar names = none) : written C s names v = s := by
  rw [written, h]

theorem written_of_some {C : Conversions} {s v m : Datum} {names : List StringId}
    (h : s.getVar names = some m) :
    written C s names v =
      if m.getDataTypeID = v.getDataTypeID then s.setVar (m.setValue C v) names else s := by
  rw [written, h]

/-- A struct remains a struct. -/
theorem setVar_struct (t : StringId) (ns : List StringId) (ms : List Datum) (new : Datum)
    {names : List StringId} (h : names ≠ []) :
    ∃ ms', (Datum.struct t ns ms).setVar new names = .struct t ns ms' := by
  obtain ⟨name, names, rfl⟩ := List.exists_cons_of_ne_nil h
  rw [Datum.setVar]
  rcases ns.idxOf? name with - | i
  · exact ⟨ms, rfl⟩
  · rcases hm : ms[i]? with - | m
    · exact ⟨ms, by simp only [hm]⟩
    · exact ⟨ms.set i (m.setVar new names), by simp only [hm]⟩

theorem written_struct (C : Conversions) (t : StringId) (ns : List StringId) (ms : List Datum)
    (path : Text) (v : Datum) :
    ∃ ms', written C (.struct t ns ms) (names path) v = .struct t ns ms' := by
  rcases hm : (Datum.struct t ns ms).getVar (names path) with - | m
  · exact ⟨ms, written_of_none hm⟩
  · rw [written_of_some hm]
    split_ifs
    · exact setVar_struct t ns ms _ (names_ne_nil _)
    · exact ⟨ms, rfl⟩

/-- A variable with a struct. -/
def structVariant (t : StringId) (ns : List StringId) (ms : List Datum) : AnyVariant :=
  ⟨.struct t ns ms, trivial⟩

/-- **What `SET_STRUCT_VALUE` does** with a struct. -/
theorem evtREQ_set (C : Conversions) (set : SetStructValue) (t : StringId) (ns : List StringId)
    (ms : List Datum) (path : Text) (v : AnyVariant) :
    ∃ ms', (set.evtREQ C (structVariant t ns ms) path v).var_out_struct = structVariant t ns ms' ∧
      written C (.struct t ns ms) (names path) v.held = .struct t ns ms' := by
  obtain ⟨ms', hms'⟩ := written_struct C t ns ms path v.held
  refine ⟨ms', ?_, hms'⟩
  rw [SetStructValue.evtREQ, SetStructValue.executeEvent, structVariant]
  dsimp only
  rw [outStruct_eq, hms']
  rfl

/-- **What `GET_STRUCT_VALUE` does** with a struct. -/
theorem evtREQ_get (get : GetStructValue) (t : StringId) (ns : List StringId) (ms : List Datum)
    (path : Text) :
    (get.evtREQ (structVariant t ns ms) path).var_QO =
        ((Datum.struct t ns ms).getVar (names path)).isSome ∧
      (get.evtREQ (structVariant t ns ms) path).var_output =
        (((Datum.struct t ns ms).getVar (names path)).map AnyVariant.setValue).getD
          get.var_output := by
  rw [GetStructValue.evtREQ, GetStructValue.executeEvent, structVariant]
  dsimp only
  rw [lookForMember_bind_getVar]
  rcases (Datum.struct t ns ms).getVar (names path) with - | m
  · exact ⟨rfl, rfl⟩
  · exact ⟨rfl, rfl⟩

/-- Two places that are apart are written in any order. -/
theorem written_comm (C : Conversions) (s v v' : Datum) {names other : List StringId}
    (h : ¬names <+: other) (h' : ¬other <+: names) :
    written C (written C s names v) other v' = written C (written C s other v') names v := by
  have hother : ∀ new, (s.setVar new names).getVar other = s.getVar other :=
    fun new => Datum.getVar_setVar_of_not s new h h'
  have hnames : ∀ new, (s.setVar new other).getVar names = s.getVar names :=
    fun new => Datum.getVar_setVar_of_not s new h' h
  -- neither write changes what the other one tests, the member and its type
  rcases hm : s.getVar names with - | m
  · rw [written_of_none hm]
    rcases hm' : s.getVar other with - | m'
    · rw [written_of_none hm', written_of_none hm]
    · rw [written_of_some hm']
      split_ifs
      · rw [written_of_none ((hnames _).trans hm)]
      · rw [written_of_none hm]
  · rw [written_of_some hm]
    rcases hm' : s.getVar other with - | m'
    · rw [written_of_none hm', written_of_some hm]
      split_ifs
      · rw [written_of_none ((hother _).trans hm')]
      · rw [written_of_none hm']
    · rw [written_of_some hm']
      by_cases hid : m.getDataTypeID = v.getDataTypeID
      · rw [if_pos hid, written_of_some ((hother _).trans hm')]
        by_cases hid' : m'.getDataTypeID = v'.getDataTypeID
        · rw [if_pos hid', if_pos hid', written_of_some ((hnames _).trans hm), if_pos hid,
            Datum.setVar_comm s _ _ h h']
        · rw [if_neg hid', if_neg hid', written_of_some hm, if_pos hid]
      · rw [if_neg hid, written_of_some hm']
        split_ifs
        · rw [written_of_some ((hnames _).trans hm), if_neg hid]
        · rw [written_of_some hm, if_neg hid]

theorem plain_held_setValue {w : Datum} (h : w.getDataTypeID ≠ .any) :
    (AnyVariant.setValue w).held.plain = w.plain := by
  cases w with
  | any u => exact absurd rfl h
  | _ => rfl

theorem getDataTypeID_ne_any (v : AnyVariant) : v.held.getDataTypeID ≠ .any := by
  obtain ⟨held, halternative⟩ := v
  cases held with
  | any w => exact halternative.elim
  | number t _ => cases t <;> exact EDataTypeID.noConfusion
  | duration t _ => cases t <;> exact EDataTypeID.noConfusion
  | date t _ => cases t <;> exact EDataTypeID.noConfusion
  | real t _ => cases t <;> exact EDataTypeID.noConfusion
  | _ => exact EDataTypeID.noConfusion

/-! ### The property -/

/-- **A member of the type of the value** is replaced by it. -/
theorem written_of_typeOf {C : Conversions} {s v m : Datum} {names : List StringId}
    (hm : s.getVar names = some m) (h : m.typeOf = v.typeOf) :
    (written C s names v).plain = (s.setVar v names).plain ∧
      ∃ w, (written C s names v).getVar names = some w ∧ w.plain = v.plain ∧
        w.getDataTypeID = v.getDataTypeID := by
  have hsome : (s.getVar names).isSome := by
    rw [hm]
    rfl
  rw [written_of_some hm, if_pos (Datum.getDataTypeID_of_typeOf h)]
  refine ⟨?_, m.setValue C v, Datum.getVar_setVar hsome _, Datum.plain_setValue C h, ?_⟩
  · rw [Datum.plain_setVar, Datum.plain_setVar, Datum.plain_setValue C h]
  · exact Datum.getDataTypeID_of_typeOf ((Datum.typeOf_setValue C m v).trans h)

/-- **The struct stays as it is** for a member of another type, if there is nothing that the
assignment changes. -/
theorem written_eq_self_iff {C : Conversions} {s v m : Datum} {names : List StringId}
    (hm : s.getVar names = some m) :
    written C s names v = s ↔ (m.getDataTypeID = v.getDataTypeID → m.unaffected C v) := by
  have hsome : (s.getVar names).isSome := by
    rw [hm]
    rfl
  rw [written_of_some hm]
  split_ifs with hid
  · constructor
    · intro h _
      have hget := Datum.getVar_setVar hsome (m.setValue C v)
      rw [h, hm] at hget
      exact (Datum.setValue_eq_self_iff C m v).mp (Option.some.inj hget).symm
    · intro h
      rw [(Datum.setValue_eq_self_iff C m v).mpr (h hid), Datum.setVar_getVar hm]
  · exact iff_of_true rfl fun h => absurd h hid

section

variable (C : Conversions) (set : SetStructValue) (get : GetStructValue) (t : StringId)
  (ns : List StringId) (ms : List Datum) (path : Text) (v : AnyVariant)

theorem cond_of_replaces (h : Replaces C set get (structVariant t ns ms) path v) :
    Cond C (structVariant t ns ms) path v := by
  intro m hm hid
  by_cases htype : m.typeOf = v.held.typeOf
  · exact .inl htype
  · obtain ⟨ms', hset, hwritten⟩ := evtREQ_set C set t ns ms path v
    have hsame := h.otherwise fun m' hm' => by
      rwa [← Option.some.inj (hm.symm.trans hm')]
    rw [hset] at hsame
    obtain rfl : ms' = ms := (Datum.struct.inj (congrArg AnyVariant.held hsame)).2.2
    exact .inr ((written_eq_self_iff hm).mp hwritten hid)

/-- **The two blocks** replace and read members as they should exactly if the value is of the
type of the member that has its data type id, or there is nothing to change. -/
theorem replaces_iff :
    Replaces C set get (structVariant t ns ms) path v ↔ Cond C (structVariant t ns ms) path v := by
  refine ⟨cond_of_replaces C set get t ns ms path v, fun h => ?_⟩
  obtain ⟨ms', hset, hwritten⟩ := evtREQ_set C set t ns ms path v
  refine ⟨rfl, ?_, ?_, ?_, ?_, ?_, ?_⟩
  · -- a value of the member's type replaces the member, and nothing else
    intro m hm htype
    rw [hset]
    exact (congrArg Datum.plain hwritten.symm).trans (written_of_typeOf hm htype).1
  · -- a value of another type leaves the struct as it is
    intro hother
    rw [hset]
    rcases hm : (Datum.struct t ns ms).getVar (names path) with - | m
    · rw [written_of_none hm] at hwritten
      obtain ⟨-, -, rfl⟩ := Datum.struct.inj hwritten
      rfl
    · rw [(written_eq_self_iff hm).mpr fun hid =>
        (h m hm hid).resolve_left (hother m hm)] at hwritten
      obtain ⟨-, -, rfl⟩ := Datum.struct.inj hwritten
      rfl
  · -- and the member read back is that value
    intro m hm htype
    obtain ⟨-, w, hw, hplain, hid⟩ := written_of_typeOf (C := C) hm htype
    have hw' : (Datum.struct t ns ms').getVar (names path) = some w := by
      rw [← hwritten]
      exact hw
    obtain ⟨hQO, houtput⟩ := evtREQ_get get t ns ms' path
    dsimp only
    rw [hset, hQO, houtput, hw']
    refine ⟨rfl, ?_⟩
    rw [Option.map_some, Option.getD_some, plain_held_setValue, hplain]
    rw [hid]
    exact getDataTypeID_ne_any v
  · -- the frame: a path apart from the written one reads the same
    rintro path' ⟨happart, happart'⟩
    have hsame : (Datum.struct t ns ms').getVar (names path') =
        (Datum.struct t ns ms).getVar (names path') := by
      rw [← hwritten, written]
      split
      · split_ifs
        · exact Datum.getVar_setVar_of_not _ _ happart happart'
        · rfl
      · rfl
    obtain ⟨hQO, houtput⟩ := evtREQ_get get t ns ms' path'
    obtain ⟨hQO', houtput'⟩ := evtREQ_get get t ns ms path'
    dsimp only
    rw [hset, hQO, houtput, hQO', houtput', hsame]
    exact ⟨rfl, rfl⟩
  · intro path'
    obtain ⟨hQO, -⟩ := evtREQ_get get t ns ms' path'
    rw [hset, hQO, Option.isSome_eq_false_iff, Option.isNone_iff_eq_none]
    rfl
  · -- two writes at paths apart commute
    rintro path' v' ⟨happart, happart'⟩
    obtain ⟨ms₁, hset₁, hwritten₁⟩ := evtREQ_set C set t ns ms path' v'
    obtain ⟨ms₂, hset₂, hwritten₂⟩ := evtREQ_set C set t ns ms' path' v'
    obtain ⟨ms₃, hset₃, hwritten₃⟩ := evtREQ_set C set t ns ms₁ path v
    have hcomm := written_comm C (Datum.struct t ns ms) v.held v'.held happart happart'
    rw [hwritten, hwritten₁, hwritten₂, hwritten₃] at hcomm
    obtain ⟨-, -, rfl⟩ := Datum.struct.inj hcomm
    rw [hset, hset₂, hset₁, hset₃]

end

/-- An array from 0 to 1. -/
def sampleArray : Datum := .array 0 [.number .int 1, .number .int 2]

/-- An array from 1 to 2. -/
def sampleValue : AnyVariant := ⟨.array 1 [.number .int 7, .number .int 8], trivial⟩

/-- An array of other bounds is not refused, and changes the element at the index both have. -/
theorem not_replaces_sample :
    ¬Replaces ⟨fun _ => 0, fun _ _ _ => 0⟩ ⟨.initial, [], .initial, .initial⟩
      ⟨.initial, [], false, .initial⟩ (structVariant "S" ["a"] [sampleArray]) (text "a")
        sampleValue := by
  intro h
  have hnames : names (text "a") = ["a"] := by decide +kernel
  have hmember : (structVariant "S" ["a"] [sampleArray]).held.getVar (names (text "a")) =
      some sampleArray := by
    rw [hnames]
    rfl
  rcases cond_of_replaces _ _ _ _ _ _ _ _ h sampleArray hmember rfl with htype | hunaffected
  · have hbounds := (Datum.array.inj htype).1
    omega
  · exact absurd (Datum.number.inj hunaffected.1).2 (by decide)

end StructValue

end Forte
