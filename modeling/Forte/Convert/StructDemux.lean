import Forte.Datatypes.Pointers
import Forte.Lib.Cells
import Forte.Lib.Runs
import Forte.Lib.Separated

/-!
# The demultiplexer of structs

The name of the type of a `GEN_STRUCT_DEMUX` says which struct is taken apart and, behind four
underscores, which members of it are the data outputs: paths of names with a `%` between the
names and a comma between the paths. Each output is a pointer to a member of the input, so that
there is nothing to copy when the input has been read.

A path is walked without a look at what is found. If a name on the way is unknown or is not a
struct, the walk goes on through a null pointer or through something that is no struct; if only
the last name is unknown, the output is a null pointer and the interface is built with it. A name
that is not interned is the name of no type and of no member. No port is forced.
`Forte.StructDemux.demultiplexes_iff` says for which names the block is what it should be.
-/

namespace Forte

/-- A `GEN_STRUCT_DEMUX`: its outputs are pointers into `var_IN`, or null pointers, and the
connections at them have values of their own. -/
structure StructDemux where
  var_IN : Datum
  mDoNames : List StringId
  mConfiguredDOPorts : List (Option Pointer)
  mGenDOConns : List Datum

namespace StructDemux

/-- `NESTED_VAR_SEPARATOR`. -/
def nestedVarSeparator : Char := '%'

/-- `STRUCT_NAME_SEPARATOR`. -/
def structNameSeparator : List Char := ['_', '_', '_', '_']

/-- `cgInvalidPortId`. -/
def cgInvalidPortId : ℕ := 65535

/-! ### The name of the type -/

/-- `std::string_view::find` of a text. -/
def find (what : List Char) : List Char → Option ℕ
  | [] => if what = [] then some 0 else none
  | c :: s => if what.isPrefixOf (c :: s) then some 0 else (find what s).map (· + 1)

/-- The part of the name before the list of members. -/
def structPart (paConfigString : List Char) : List Char :=
  match find structNameSeparator paConfigString with
  | some endIndex => paConfigString.take endIndex
  | none => paConfigString

/-- The list of members, if there is one. -/
def memberPart (paConfigString : List Char) : Option (List Char) :=
  match find structNameSeparator paConfigString with
  | some endIndex => some (paConfigString.drop (endIndex + structNameSeparator.length))
  | none => none

/-- `GEN_STRUCT_MUX::getStructNameId`; nothing if it throws `std::out_of_range`. -/
def getStructNameId (paConfigString : List Char) : Option (Option StringId) :=
  match paConfigString.idxOf? '_' with
  | some index =>
    let nameId := paConfigString.drop (index + 1)
    match nameId.idxOf? '_' with
    | some index =>
      -- one character more, which is the number that separates
      if index + 2 ≤ nameId.length then some (some (String.ofList (nameId.drop (index + 2))))
      else none
    | none => some none
  | none => some none

/-- `getConfiguredMemberNames`. -/
def getConfiguredMemberNames (paMemberNameString : List Char) : List (List Char) :=
  match _h : paMemberNameString.idxOf? ',' with
  | some nextIndex =>
    paMemberNameString.take nextIndex ::
      getConfiguredMemberNames (paMemberNameString.drop (nextIndex + 1))
  | none => if paMemberNameString = [] then [] else [paMemberNameString]
termination_by paMemberNameString.length
decreasing_by
  have := Separated.lt_length _h
  rw [List.length_drop]
  omega

/-- `getNestedMember`; nothing if it goes on through what is not there or is no struct. -/
def getNestedMember (structType : Datum) (memberName : List Char) : Option (Option Pointer) :=
  match structType with
  | .struct _ elementNames members =>
    match _h : memberName.idxOf? nestedVarSeparator with
    | some index =>
      match Datum.getMemberNamed elementNames members (String.ofList (memberName.take index)) with
      | some (i, m) =>
        (getNestedMember m (memberName.drop (index + 1))).map fun member => member.map (i :: ·)
      | none => none
    | none =>
      some ((Datum.getMemberNamed elementNames members (String.ofList memberName)).map
        fun member => [member.1])
  | _ => none
termination_by memberName.length
decreasing_by
  have := Separated.lt_length _h
  rw [List.length_drop]
  omega

/-! ### The interface -/

/-- `fillConfiguredInterfaceSpec`: the pointers to the members, or nothing. -/
def fillConfiguredInterfaceSpec (var_IN : Datum) (paConfiguredMemberNames : List (List Char)) :
    Option (List (Option Pointer)) :=
  paConfiguredMemberNames.mapM (getNestedMember var_IN)

/-- `createInterfaceSpec`, with the values `createDataTypeInstance` makes; nothing if it does not
return, `some none` if it fails. -/
def createInterfaceSpec (createDataTypeInstance : StringId → Option Datum)
    (paConfigString : List Char) : Option (Option StructDemux) :=
  (getStructNameId (structPart paConfigString)).bind fun structTypeNameId =>
    match structTypeNameId.bind createDataTypeInstance with
    | some (.struct structTypeName elementNames members) =>
      let var_IN := Datum.struct structTypeName elementNames members
      match memberPart paConfigString with
      | some configuredMemberNamesStr =>
        let configuredMemberNames := getConfiguredMemberNames configuredMemberNamesStr
        (fillConfiguredInterfaceSpec var_IN configuredMemberNames).map fun ports =>
          if configuredMemberNames.length = 0 ∨ cgInvalidPortId ≤ configuredMemberNames.length then
            none
          else
            some
              { var_IN := var_IN
                mDoNames := configuredMemberNames.map String.ofList
                mConfiguredDOPorts := ports
                mGenDOConns := [] }
      | none =>
        if members.length = 0 ∨ cgInvalidPortId ≤ members.length then some none
        else
          some (some
            { var_IN := var_IN
              mDoNames := elementNames
              mConfiguredDOPorts := (List.range members.length).map fun i => some [i]
              mGenDOConns := [] })
    | _ => some none

/-- `getDO`; nothing for a null pointer. -/
def getDO (fb : StructDemux) (port : Option Pointer) : Option Datum :=
  port.bind fb.var_IN.memberAt

/-- `createGenDOCons`: each connection begins with a copy of its output. -/
def createGenDOCons (fb : StructDemux) : Option StructDemux :=
  (fb.mConfiguredDOPorts.mapM fb.getDO).map fun values => { fb with mGenDOConns := values }

/-- `configureFB`. -/
def configureFB (createDataTypeInstance : StringId → Option Datum) (paConfigString : List Char) :
    Option (Option StructDemux) :=
  match createInterfaceSpec createDataTypeInstance paConfigString with
  | some (some fb) => fb.createGenDOCons.map some
  | some none => some none
  | none => none

/-! ### Events -/

/-- `readInputData`, with the value of the connection if there is one. -/
def readInputData (C : Conversions) (fb : StructDemux) (conn_IN : Option Datum) : StructDemux :=
  match conn_IN with
  | some value => { fb with var_IN := fb.var_IN.setValue C value.unwrap }
  | none => fb

/-- `writeOutputData`. -/
def writeOutputData (C : Conversions) (fb : StructDemux) : StructDemux :=
  { fb with
    mGenDOConns := List.zipWith (fun conn port =>
      match fb.getDO port with
      | some value => conn.setValue C value.unwrap
      | none => conn) fb.mGenDOConns fb.mConfiguredDOPorts }

/-- A `REQ` with the value at the input, or a value that is written to the input from outside. -/
inductive Step
  | req (conn_IN : Option Datum)
  | write (value : Datum)

/-- The block behind a step. -/
def next (C : Conversions) (fb : StructDemux) : Step → StructDemux
  | .req conn_IN => (fb.readInputData C conn_IN).writeOutputData C
  | .write value => { fb with var_IN := value }

/-! ### What the name of the type says -/

/-- The names of a path. -/
def segments (path : List Char) : List StringId :=
  (path.splitOn nestedVarSeparator).map String.ofList

/-- The paths of a list of members; a comma at its end belongs to the last one. -/
def paths (memberNames : List Char) : List (List Char) :=
  let pieces := memberNames.splitOn ','
  if pieces.getLast? = some [] then pieces.dropLast else pieces

/-- The struct that the name of the type says. -/
def Says (createDataTypeInstance : StringId → Option Datum) (paConfigString : List Char)
    (structTypeName : StringId) (elementNames : List StringId) (members : List Datum) : Prop :=
  ∃ name, getStructNameId (structPart paConfigString) = some (some name) ∧
    createDataTypeInstance name = some (.struct structTypeName elementNames members)

/-- The outputs and their connections have the values that the members of a struct have. -/
def OutputsOf (fb : StructDemux) (input : Datum) : Prop :=
  ∀ (i : ℕ) (port : Option Pointer), fb.mConfiguredDOPorts[i]? = some port →
    ∃ (pointer : Pointer) (m value conn : Datum), port = some pointer ∧
      input.memberAt pointer = some m ∧ fb.getDO port = some value ∧
        fb.mGenDOConns[i]? = some conn ∧ value.plain = m.plain ∧ conn.plain = m.plain

/-- A step that leaves the input a value of its type. -/
def Step.Keeps (var_IN : Datum) : Step → Prop
  | .req _ => True
  | .write value => value.typeOf = var_IN.typeOf

/-- **The block takes the struct apart**: its outputs are the members that the paths denote, or
all members, and every `REQ` brings their values to the outputs. -/
structure Demultiplexes (C : Conversions) (createDataTypeInstance : StringId → Option Datum)
    (paConfigString : List Char) (fb : StructDemux) : Prop where
  denoted : ∃ structTypeName elementNames members,
    Says createDataTypeInstance paConfigString structTypeName elementNames members ∧
      fb.var_IN = .struct structTypeName elementNames members ∧
        fb.mConfiguredDOPorts =
          match memberPart paConfigString with
          | some memberNames =>
            (paths memberNames).map fun path => fb.var_IN.pointerTo (segments path)
          | none => (List.range members.length).map fun i => some [i]
  exist : ∀ port ∈ fb.mConfiguredDOPorts, ∃ pointer m,
    port = some pointer ∧ fb.var_IN.memberAt pointer = some m
  requests : ∀ steps : List Step, (∀ st ∈ steps, st.Keeps fb.var_IN) → ∀ conn_IN : Option Datum,
    let fb' := next C (Runs.run (next C) fb steps) (.req conn_IN)
    fb'.OutputsOf fb'.var_IN ∧
      ∀ value ∈ conn_IN, value.unwrap.typeOf = fb.var_IN.typeOf → fb'.OutputsOf value.unwrap

/-- The configuration fails or leads to a block that takes the struct apart. -/
def Meets (C : Conversions) (createDataTypeInstance : StringId → Option Datum)
    (paConfigString : List Char) : Prop :=
  ∃ result, configureFB createDataTypeInstance paConfigString = some result ∧
    ∀ fb ∈ result, Demultiplexes C createDataTypeInstance paConfigString fb

/-- The part before the list of members does not end with its second underscore, and each path
denotes a member, or there are too many paths and all names but the last one lead to a struct. -/
def Cond (createDataTypeInstance : StringId → Option Datum) (paConfigString : List Char) : Prop :=
  ((structPart paConfigString).count '_' = 2 →
      (structPart paConfigString).getLast? ≠ some '_') ∧
    ∀ structTypeName elementNames members memberNames,
      Says createDataTypeInstance paConfigString structTypeName elementNames members →
        memberPart paConfigString = some memberNames → ∀ path ∈ paths memberNames,
          ((Datum.struct structTypeName elementNames members).pointerTo (segments path)).isSome ∨
            cgInvalidPortId ≤ (paths memberNames).length ∧
              ∃ t ns ms, (Datum.struct structTypeName elementNames members).getVar
                (segments path).dropLast = some (.struct t ns ms)

/-! ### The texts -/

theorem getConfiguredMemberNames_eq (s : List Char) : getConfiguredMemberNames s = paths s := by
  fun_induction getConfiguredMemberNames s with
  | case1 s nextIndex h ih =>
    rw [ih, paths, paths, Separated.splitOn_of_some h]
    have hne : (s.drop (nextIndex + 1)).splitOn ',' ≠ [] := List.splitOn_ne_nil _ _
    rw [List.getLast?_cons_of_ne_nil hne, List.dropLast_cons_of_ne_nil hne]
    split_ifs <;> rfl
  | case2 h => decide
  | case3 s h hs =>
    rw [paths, Separated.splitOn_of_none h]
    rw [List.getLast?_singleton, if_neg (fun heq => hs (Option.some.inj heq))]

/-- **The name of a struct** cannot be read exactly if the text ends with its second
underscore. -/
theorem getStructNameId_eq_none_iff (s : List Char) :
    getStructNameId s = none ↔ s.count '_' = 2 ∧ s.getLast? = some '_' := by
  rw [getStructNameId]
  -- without two underscores the search returns before it looks further
  rcases hi : s.idxOf? '_' with - | i
  · have hnot := List.idxOf?_eq_none_iff.mp hi
    simp [List.count_eq_zero.mpr hnot]
  obtain ⟨hs, hnot⟩ := Separated.cut_of_idxOf? hi
  dsimp only
  rcases hj : (s.drop (i + 1)).idxOf? '_' with - | j
  · have hnot' := List.idxOf?_eq_none_iff.mp hj
    have hcount : s.count '_' = 1 := by
      rw [hs, List.count_append, List.count_cons_self, List.count_eq_zero.mpr hnot,
        List.count_eq_zero.mpr hnot']
    simp [hcount]
  obtain ⟨hs', hnot'⟩ := Separated.cut_of_idxOf? hj
  set rest := ((s.drop (i + 1)).drop (j + 1)) with hrest
  have hlt := Separated.lt_length hj
  have hcount : s.count '_' = rest.count '_' + 2 := by
    rw [hs, hs', List.count_append, List.count_cons_self, List.count_append, List.count_cons_self,
      List.count_eq_zero.mpr hnot, List.count_eq_zero.mpr hnot']
    omega
  have hlast : s.getLast? = (('_' : Char) :: rest).getLast? := by
    rw [hs, List.getLast?_append_of_ne_nil _ (List.cons_ne_nil _ _), hs',
      ← List.cons_append, List.getLast?_append_of_ne_nil _ (List.cons_ne_nil _ _)]
  have hlength : rest.length = (s.drop (i + 1)).length - (j + 1) := by
    rw [hrest, List.length_drop]
  dsimp only
  rw [hcount, hlast]
  split_ifs with h
  · -- an underscore that ends the text would be a third one here
    refine iff_of_false id ?_
    rintro ⟨hzero, hend⟩
    have hne : rest ≠ [] := fun hnil => by
      rw [hnil, List.length_nil] at hlength
      omega
    rw [List.getLast?_cons_of_ne_nil hne] at hend
    have hmem := List.mem_of_getLast? hend
    have := List.count_pos_iff.mpr hmem
    omega
  · -- nothing follows the second underscore, and the search looks past it
    have hnil : rest = [] := List.eq_nil_of_length_eq_zero (by omega)
    rw [hnil]
    exact iff_of_true rfl ⟨rfl, rfl⟩

/-! ### The walk -/

theorem segments_ne_nil (path : List Char) : segments path ≠ [] := by
  rw [segments, Ne, List.map_eq_nil_iff]
  exact List.splitOn_ne_nil _ _

theorem segments_of_some {path : List Char} {index : ℕ}
    (h : path.idxOf? nestedVarSeparator = some index) :
    segments path = String.ofList (path.take index) :: segments (path.drop (index + 1)) := by
  rw [segments, Separated.splitOn_of_some h, List.map_cons, segments]

theorem segments_of_none {path : List Char} (h : path.idxOf? nestedVarSeparator = none) :
    segments path = [String.ofList path] := by
  rw [segments, Separated.splitOn_of_none h, List.map_singleton]

/-- **The walk along a path** ends, exactly if all names but the last one lead to a struct, at
what the path denotes. -/
theorem getNestedMember_eq_some_iff (v : Datum) (path : List Char) (member : Option Pointer) :
    getNestedMember v path = some member ↔
      (∃ t ns ms, v.getVar (segments path).dropLast = some (.struct t ns ms)) ∧
        member = v.pointerTo (segments path) := by
  fun_induction getNestedMember v path generalizing member with
  | case1 path t elementNames members index h i m hm ih =>
    rw [segments_of_some h, List.dropLast_cons_of_ne_nil (segments_ne_nil _),
      Datum.getVar_struct_cons, hm,
      Option.bind_some, Datum.pointerTo, hm, Option.map_eq_some_iff]
    constructor
    · rintro ⟨member', hmember', rfl⟩
      obtain ⟨hstruct, rfl⟩ := (ih member').mp hmember'
      exact ⟨hstruct, rfl⟩
    · rintro ⟨hstruct, rfl⟩
      exact ⟨_, (ih _).mpr ⟨hstruct, rfl⟩, rfl⟩
  | case2 path t elementNames members index h hm =>
    rw [segments_of_some h, List.dropLast_cons_of_ne_nil (segments_ne_nil _),
      Datum.getVar_struct_cons, hm]
    refine iff_of_false (Option.some_ne_none _).symm ?_
    rintro ⟨⟨t', ns, ms, hnone⟩, -⟩
    exact Option.some_ne_none _ hnone.symm
  | case3 path t elementNames members h =>
    rw [segments_of_none h, Option.some_inj, Datum.pointerTo]
    constructor
    · rintro rfl
      refine ⟨⟨t, elementNames, members, rfl⟩, ?_⟩
      rcases Datum.getMemberNamed elementNames members (String.ofList path) with - | ⟨i, m⟩ <;> rfl
    · rintro ⟨-, rfl⟩
      rcases Datum.getMemberNamed elementNames members (String.ofList path) with - | ⟨i, m⟩ <;> rfl
  | case4 v path hv =>
    refine iff_of_false (Option.some_ne_none _).symm ?_
    rintro ⟨⟨t, ns, ms, hvar⟩, -⟩
    -- the way leads on only from a struct
    generalize (segments path).dropLast = names at hvar
    rcases names with - | ⟨name, names⟩
    · exact hv t ns ms (Option.some.inj hvar)
    · cases v with
      | struct t ns ms => exact hv t ns ms rfl
      | _ => exact Option.some_ne_none _ hvar.symm

/-! ### Events -/

/-- The block between two events, compared with the one that was configured. -/
structure Good (fb s : StructDemux) : Prop where
  type : s.var_IN.typeOf = fb.var_IN.typeOf
  ports : s.mConfiguredDOPorts = fb.mConfiguredDOPorts
  conns : ∀ (i : ℕ) (port : Option Pointer), fb.mConfiguredDOPorts[i]? = some port →
    ∃ (conn m : Datum), s.mGenDOConns[i]? = some conn ∧ fb.getDO port = some m ∧
      conn.typeOf = m.typeOf

variable {C : Conversions} {fb s : StructDemux}

/-- An output is of the type that it had. -/
theorem Good.getDO (hs : Good fb s) {port : Option Pointer} {m : Datum}
    (h : fb.getDO port = some m) :
    ∃ pointer value, port = some pointer ∧ s.var_IN.memberAt pointer = some value ∧
      s.getDO port = some value ∧ value.typeOf = m.typeOf := by
  obtain ⟨pointer, rfl, hm⟩ := Option.bind_eq_some_iff.mp h
  obtain ⟨value, hvalue, htype⟩ := Datum.memberAt_of_typeOf hs.type.symm hm
  exact ⟨pointer, value, rfl, hvalue, hvalue, htype⟩

theorem good_readInputData (hs : Good fb s) (conn_IN : Option Datum) :
    Good fb (s.readInputData C conn_IN) := by
  rcases conn_IN with - | value
  · exact hs
  · exact ⟨(Datum.typeOf_setValue C _ _).trans hs.type, hs.ports, hs.conns⟩

/-- **The outputs are written** to the connections. -/
theorem writeOutputData_spec (hs : Good fb s) {i : ℕ} {port : Option Pointer}
    (h : fb.mConfiguredDOPorts[i]? = some port) :
    ∃ pointer value m conn, port = some pointer ∧ s.var_IN.memberAt pointer = some value ∧
      fb.getDO port = some m ∧ (s.writeOutputData C).mGenDOConns[i]? = some conn ∧
        conn.typeOf = m.typeOf ∧ conn.plain = value.plain := by
  obtain ⟨conn, m, hconn, hm, htype⟩ := hs.conns i port h
  obtain ⟨pointer, value, hport, hvalue, hDO, hvaluetype⟩ := hs.getDO hm
  refine ⟨pointer, value, m, conn.setValue C value.unwrap, hport, hvalue, hm, ?_, ?_, ?_⟩
  · rw [writeOutputData, List.getElem?_zipWith, hconn, hs.ports, h]
    simp only [hDO]
  · rw [Datum.typeOf_setValue, htype]
  · exact Datum.plain_setValue_unwrap C (htype.trans hvaluetype.symm)

theorem good_writeOutputData (hs : Good fb s) : Good fb (s.writeOutputData C) where
  type := hs.type
  ports := hs.ports
  conns i port h := by
    obtain ⟨-, -, m, conn, -, -, hm, hconn, htype, -⟩ := writeOutputData_spec (C := C) hs h
    exact ⟨conn, m, hconn, hm, htype⟩

theorem good_next (hs : Good fb s) (st : Step) (h : st.Keeps fb.var_IN) :
    Good fb (next C s st) := by
  rcases st with conn_IN | value
  · exact good_writeOutputData (good_readInputData hs conn_IN)
  · exact ⟨h, hs.ports, hs.conns⟩

theorem good_run (hs : Good fb s) {steps : List Step} (h : ∀ st ∈ steps, st.Keeps fb.var_IN) :
    Good fb (Runs.run (next C) s steps) := by
  have hkeeps : Runs.Each (next C) (fun _ st => st.Keeps fb.var_IN) s steps :=
    fun _ st hst => h st (List.mem_of_getElem? hst)
  exact Runs.good_run (fun s st (hs : Good fb s) hst => good_next hs st hst) hs hkeeps

/-- **Behind a `REQ`** the outputs have the values of the members of the input. -/
theorem outputsOf_req (hs : Good fb s) (conn_IN : Option Datum) {input : Datum}
    (h : input.plain = (s.readInputData C conn_IN).var_IN.plain) :
    (next C s (.req conn_IN)).OutputsOf input := by
  intro i port hport
  have hread := good_readInputData (C := C) hs conn_IN
  rw [next, writeOutputData] at hport
  dsimp only at hport
  rw [hread.ports] at hport
  obtain ⟨pointer, value, m, conn, hpointer, hvalue, -, hconn, -, hplain⟩ :=
    writeOutputData_spec (C := C) hread hport
  have hinput := Datum.memberAt_plain input pointer
  rw [h, Datum.memberAt_plain, hvalue, Option.map_some] at hinput
  obtain ⟨m', hm', hplain'⟩ := Option.map_eq_some_iff.mp hinput.symm
  refine ⟨pointer, m', value, conn, hpointer, hm', ?_, hconn, hplain'.symm,
    hplain.trans hplain'.symm⟩
  rw [hpointer]
  exact hvalue

/-! ### The configuration -/

/-- The block that was configured can take events. -/
theorem good_createGenDOCons (h : fb.createGenDOCons = some s) :
    Good s s ∧ s.var_IN = fb.var_IN ∧ s.mConfiguredDOPorts = fb.mConfiguredDOPorts := by
  obtain ⟨values, hvalues, rfl⟩ := Option.map_eq_some_iff.mp h
  refine ⟨⟨rfl, rfl, fun i port hport => ?_⟩, rfl, rfl⟩
  have hget := congrArg (·[i]?) (mapM_eq_some_iff.mp hvalues)
  simp only [List.getElem?_map] at hget
  rw [hport, Option.map_some] at hget
  obtain ⟨m, hm, hDO⟩ := Option.map_eq_some_iff.mp hget.symm
  exact ⟨m, m, hm, hDO.symm, rfl⟩

/-- **Every `REQ` brings the members to the outputs**, in a block that has outputs. -/
theorem requests_of_good (hs : Good fb fb) {steps : List Step}
    (h : ∀ st ∈ steps, st.Keeps fb.var_IN) (conn_IN : Option Datum) :
    let fb' := next C (Runs.run (next C) fb steps) (.req conn_IN)
    fb'.OutputsOf fb'.var_IN ∧
      ∀ value ∈ conn_IN, value.unwrap.typeOf = fb.var_IN.typeOf → fb'.OutputsOf value.unwrap := by
  have hrun := good_run (C := C) hs h
  refine ⟨outputsOf_req hrun conn_IN rfl, ?_⟩
  rintro value rfl htype
  refine outputsOf_req hrun (some value) ?_
  exact (Datum.plain_setValue C (hrun.type.trans htype.symm)).symm

theorem exist_of_good (hs : Good fb fb) :
    ∀ port ∈ fb.mConfiguredDOPorts, ∃ pointer m,
      port = some pointer ∧ fb.var_IN.memberAt pointer = some m := by
  intro port hport
  obtain ⟨i, hi⟩ := List.mem_iff_getElem?.mp hport
  obtain ⟨-, m, -, hm, -⟩ := hs.conns i port hi
  obtain ⟨pointer, rfl, hat⟩ := Option.bind_eq_some_iff.mp hm
  exact ⟨pointer, m, rfl, hat⟩

/-- **The pointers to the configured members** are made exactly if every walk comes to its
end. -/
theorem fillConfiguredInterfaceSpec_eq_some_iff (v : Datum) (names : List (List Char))
    (ports : List (Option Pointer)) :
    fillConfiguredInterfaceSpec v names = some ports ↔
      (∀ path ∈ names, ∃ t ns ms,
        v.getVar (segments path).dropLast = some (.struct t ns ms)) ∧
          ports = names.map fun path => v.pointerTo (segments path) := by
  rw [fillConfiguredInterfaceSpec, mapM_eq_some_iff]
  constructor
  · intro h
    -- the walk down each path succeeded, position by position
    have hwalk : ∀ (i : ℕ) (path : List Char), names[i]? = some path →
        ∃ member, ports[i]? = some member ∧ getNestedMember v path = some member := by
      intro i path hpath
      have hget := congrArg (·[i]?) h
      simp only [List.getElem?_map] at hget
      rw [hpath, Option.map_some] at hget
      obtain ⟨member, hmember, heq⟩ := Option.map_eq_some_iff.mp hget.symm
      exact ⟨member, hmember, heq.symm⟩
    constructor
    · intro path hpath
      obtain ⟨i, hi⟩ := List.mem_iff_getElem?.mp hpath
      obtain ⟨member, -, hwalked⟩ := hwalk i path hi
      exact ((getNestedMember_eq_some_iff v path member).mp hwalked).1
    · have hlength : ports.length = names.length := by
        have := congrArg List.length h
        rwa [List.length_map, List.length_map, eq_comm] at this
      refine List.ext_getElem? fun i => ?_
      rw [List.getElem?_map]
      rcases hi : names[i]? with - | path
      · rw [List.getElem?_eq_none_iff] at hi
        exact List.getElem?_eq_none (hlength.trans_le hi)
      · obtain ⟨member, hmember, hwalked⟩ := hwalk i path hi
        rw [hmember, ((getNestedMember_eq_some_iff v path member).mp hwalked).2]
        rfl
  · rintro ⟨hstructs, rfl⟩
    rw [List.map_map]
    refine List.map_congr_left fun path hpath => ?_
    exact (getNestedMember_eq_some_iff v path _).mpr ⟨hstructs path hpath, rfl⟩

/-- A path that denotes a member leads there through structs. -/
theorem walked_of_denoted {v : Datum} {path : List Char} {pointer : Pointer}
    (h : v.pointerTo (segments path) = some pointer) :
    ∃ t ns ms, v.getVar (segments path).dropLast = some (.struct t ns ms) := by
  have hcut := List.dropLast_append_getLast (segments_ne_nil path)
  rw [← hcut, Datum.pointerTo_append] at h
  obtain ⟨start, hstart, h⟩ := Option.bind_eq_some_iff.mp h
  obtain ⟨m, hm, h⟩ := Option.bind_eq_some_iff.mp h
  obtain ⟨m', hat, hvar⟩ := Datum.memberAt_pointerTo hstart
  obtain rfl := Option.some.inj (hm.symm.trans hat)
  cases m with
  | struct t ns ms => exact ⟨t, ns, ms, hvar⟩
  | _ => exact absurd h (by simp [Datum.pointerTo])

section

variable {createDataTypeInstance : StringId → Option Datum} {paConfigString : List Char}
  {structTypeName : StringId} {elementNames : List StringId} {members : List Datum}

theorem createInterfaceSpec_of_list
    (h : Says createDataTypeInstance paConfigString structTypeName elementNames members)
    {memberNames : List Char} (hlist : memberPart paConfigString = some memberNames) :
    createInterfaceSpec createDataTypeInstance paConfigString =
      (fillConfiguredInterfaceSpec (.struct structTypeName elementNames members)
        (paths memberNames)).map fun ports =>
          if (paths memberNames).length = 0 ∨ cgInvalidPortId ≤ (paths memberNames).length then none
          else some
            { var_IN := .struct structTypeName elementNames members
              mDoNames := (paths memberNames).map String.ofList
              mConfiguredDOPorts := ports
              mGenDOConns := [] } := by
  obtain ⟨name, hname, htype⟩ := h
  rw [createInterfaceSpec, hname, Option.bind_some, Option.bind_some, htype, hlist]
  dsimp only
  rw [getConfiguredMemberNames_eq]

theorem createInterfaceSpec_of_all
    (h : Says createDataTypeInstance paConfigString structTypeName elementNames members)
    (hlist : memberPart paConfigString = none) :
    createInterfaceSpec createDataTypeInstance paConfigString =
      if members.length = 0 ∨ cgInvalidPortId ≤ members.length then some none
      else some (some
        { var_IN := .struct structTypeName elementNames members
          mDoNames := elementNames
          mConfiguredDOPorts := (List.range members.length).map fun i => some [i]
          mGenDOConns := [] }) := by
  obtain ⟨name, hname, htype⟩ := h
  rw [createInterfaceSpec, hname, Option.bind_some, Option.bind_some, htype, hlist]

/-- Without a struct the configuration fails. -/
theorem createInterfaceSpec_of_not
    (hname : getStructNameId (structPart paConfigString) ≠ none)
    (h : ∀ t ns ms, ¬Says createDataTypeInstance paConfigString t ns ms) :
    createInterfaceSpec createDataTypeInstance paConfigString = some none := by
  obtain ⟨structTypeNameId, hid⟩ := Option.ne_none_iff_exists'.mp hname
  rw [createInterfaceSpec, hid, Option.bind_some]
  rcases hdata : structTypeNameId.bind createDataTypeInstance with - | data
  · rfl
  · cases data with
    | struct t ns ms =>
      obtain ⟨name, rfl, htype⟩ := Option.bind_eq_some_iff.mp hdata
      exact absurd ⟨name, hid, htype⟩ (h t ns ms)
    | _ => rfl

end

/-! ### The property -/

theorem configureFB_eq_some_iff {createDataTypeInstance : StringId → Option Datum}
    {paConfigString : List Char} {fb : StructDemux}
    (h : createInterfaceSpec createDataTypeInstance paConfigString = some (some fb))
    (result : Option StructDemux) :
    configureFB createDataTypeInstance paConfigString = some result ↔
      ∃ s, fb.createGenDOCons = some s ∧ result = some s := by
  rw [configureFB, h]
  dsimp only
  rw [Option.map_eq_some_iff]
  simp only [eq_comm (a := some _)]

/-- The connections can be made exactly if every output is there. -/
theorem createGenDOCons_isSome_iff (fb : StructDemux) :
    (∃ s, fb.createGenDOCons = some s) ↔
      ∀ port ∈ fb.mConfiguredDOPorts, ∃ m, fb.getDO port = some m := by
  constructor
  · rintro ⟨s, hs⟩ port hport
    obtain ⟨hgood, hIN, hports⟩ := good_createGenDOCons hs
    rw [← hports] at hport
    obtain ⟨pointer, m, rfl, hm⟩ := exist_of_good hgood port hport
    exact ⟨m, by rw [getDO, Option.bind_some, ← hIN, hm]⟩
  · intro h
    have hvalues : ∃ values, fb.mConfiguredDOPorts.mapM fb.getDO = some values := by
      generalize fb.mConfiguredDOPorts = ports at h
      induction ports with
      | nil => exact ⟨[], rfl⟩
      | cons port ports ih =>
        obtain ⟨m, hm⟩ := h port List.mem_cons_self
        obtain ⟨values, hvalues⟩ :=
          ih fun port' hport' => h port' (List.mem_cons_of_mem port hport')
        exact ⟨m :: values, by rw [List.mapM_cons, hm, hvalues]; rfl⟩
    obtain ⟨values, hvalues⟩ := hvalues
    exact ⟨{ fb with mGenDOConns := values }, by rw [createGenDOCons, hvalues]; rfl⟩

/-- A block that is configured as the name says, with outputs that are there, takes the struct
apart. -/
theorem meets_of_configured {C : Conversions}
    {createDataTypeInstance : StringId → Option Datum} {paConfigString : List Char}
    {fb : StructDemux}
    (hspec : createInterfaceSpec createDataTypeInstance paConfigString = some (some fb))
    (hDO : ∀ port ∈ fb.mConfiguredDOPorts, ∃ m, fb.getDO port = some m)
    (h : ∃ structTypeName elementNames members,
      Says createDataTypeInstance paConfigString structTypeName elementNames members ∧
        fb.var_IN = .struct structTypeName elementNames members ∧
          fb.mConfiguredDOPorts =
            match memberPart paConfigString with
            | some memberNames =>
              (paths memberNames).map fun path => fb.var_IN.pointerTo (segments path)
            | none => (List.range members.length).map fun i => some [i]) :
    Meets C createDataTypeInstance paConfigString := by
  obtain ⟨s, hs⟩ := (createGenDOCons_isSome_iff fb).mpr hDO
  obtain ⟨hgood, hIN, hports⟩ := good_createGenDOCons hs
  refine ⟨some s, (configureFB_eq_some_iff hspec _).mpr ⟨s, hs, rfl⟩, fun fb' hfb' => ?_⟩
  obtain rfl := Option.some.inj hfb'
  refine ⟨?_, exist_of_good hgood, fun steps hsteps => requests_of_good hgood hsteps⟩
  rw [hIN, hports]
  exact h

section

variable {C : Conversions} {createDataTypeInstance : StringId → Option Datum}
  {paConfigString : List Char} {structTypeName : StringId} {elementNames : List StringId}
  {members : List Datum}

/-- A name without a list of members. -/
theorem meets_of_all
    (h : Says createDataTypeInstance paConfigString structTypeName elementNames members)
    (hlist : memberPart paConfigString = none) : Meets C createDataTypeInstance paConfigString := by
  have hspec := createInterfaceSpec_of_all h hlist
  split_ifs at hspec with hsize
  · refine ⟨none, ?_, fun fb h => absurd h (Option.not_mem_none fb)⟩
    rw [configureFB, hspec]
  · refine meets_of_configured hspec (fun port hport => ?_)
      ⟨structTypeName, elementNames, members, h, rfl, by rw [hlist]⟩
    obtain ⟨i, hi, rfl⟩ := List.mem_map.mp hport
    have hget := List.getElem?_eq_getElem (List.mem_range.mp hi)
    exact ⟨_, by rw [getDO, Option.bind_some, Datum.memberAt, hget]; rfl⟩

/-- A name with a list of members. -/
theorem meets_iff_of_list
    (h : Says createDataTypeInstance paConfigString structTypeName elementNames members)
    {memberNames : List Char} (hlist : memberPart paConfigString = some memberNames) :
    Meets C createDataTypeInstance paConfigString ↔ ∀ path ∈ paths memberNames,
      ((Datum.struct structTypeName elementNames members).pointerTo (segments path)).isSome ∨
        cgInvalidPortId ≤ (paths memberNames).length ∧
          ∃ t ns ms, (Datum.struct structTypeName elementNames members).getVar
            (segments path).dropLast = some (.struct t ns ms) := by
  have hspec := createInterfaceSpec_of_list h hlist
  constructor
  · rintro ⟨result, hresult, -⟩ path hpath
    rcases hports : fillConfiguredInterfaceSpec (.struct structTypeName elementNames members)
      (paths memberNames) with - | ports
    · rw [configureFB, hspec, hports] at hresult
      exact absurd hresult.symm (Option.some_ne_none _)
    rw [hports, Option.map_some] at hspec
    obtain ⟨hstructs, rfl⟩ := (fillConfiguredInterfaceSpec_eq_some_iff _ _ _).mp hports
    by_cases hmany : cgInvalidPortId ≤ (paths memberNames).length
    · -- too many ports: only the walk of the names is known to have succeeded
      exact .inr ⟨hmany, hstructs path hpath⟩
    · have hsome : (paths memberNames).length ≠ 0 :=
        fun hzero => List.ne_nil_of_mem hpath (List.eq_nil_of_length_eq_zero hzero)
      rw [if_neg (by tauto)] at hspec
      obtain ⟨s, hs, -⟩ := (configureFB_eq_some_iff hspec result).mp hresult
      obtain ⟨m, hm⟩ := (createGenDOCons_isSome_iff _).mp ⟨s, hs⟩ _ (List.mem_map_of_mem hpath)
      obtain ⟨pointer, hpointer, -⟩ := Option.bind_eq_some_iff.mp hm
      exact .inl (Option.isSome_iff_exists.mpr ⟨pointer, hpointer⟩)
  · intro hpaths
    have hports := (fillConfiguredInterfaceSpec_eq_some_iff
      (.struct structTypeName elementNames members) (paths memberNames) _).mpr
      ⟨fun path hpath => by
        rcases hpaths path hpath with hdenoted | ⟨-, hstruct⟩
        · obtain ⟨pointer, hpointer⟩ := Option.isSome_iff_exists.mp hdenoted
          exact walked_of_denoted hpointer
        · exact hstruct, rfl⟩
    rw [hports, Option.map_some] at hspec
    split_ifs at hspec with hsize
    · -- no port or too many: no block is configured, which the property allows
      refine ⟨none, ?_, fun fb h => absurd h (Option.not_mem_none fb)⟩
      rw [configureFB, hspec]
    · refine meets_of_configured hspec (fun port hport => ?_)
        ⟨structTypeName, elementNames, members, h, rfl, by rw [hlist]⟩
      obtain ⟨path, hpath, rfl⟩ := List.mem_map.mp hport
      have hdenoted := (hpaths path hpath).resolve_right fun h => hsize (.inr h.1)
      obtain ⟨pointer, hpointer⟩ := Option.isSome_iff_exists.mp hdenoted
      obtain ⟨m, hm, -⟩ := Datum.memberAt_pointerTo hpointer
      refine ⟨m, ?_⟩
      rw [getDO, hpointer, Option.bind_some, hm]

end

theorem says_unique {createDataTypeInstance : StringId → Option Datum} {paConfigString : List Char}
    {t t' : StringId} {ns ns' : List StringId} {ms ms' : List Datum}
    (h : Says createDataTypeInstance paConfigString t ns ms)
    (h' : Says createDataTypeInstance paConfigString t' ns' ms') :
    t' = t ∧ ns' = ns ∧ ms' = ms := by
  obtain ⟨name, hname, htype⟩ := h
  obtain ⟨name', hname', htype'⟩ := h'
  obtain rfl := Option.some.inj (Option.some.inj (hname.symm.trans hname'))
  exact Datum.struct.inj (Option.some.inj (htype'.symm.trans htype))

/-- **The demultiplexer of structs** is not configured, or takes apart the struct that its name
says, exactly for the names that satisfy the condition. -/
theorem demultiplexes_iff (C : Conversions) (createDataTypeInstance : StringId → Option Datum)
    (paConfigString : List Char) :
    Meets C createDataTypeInstance paConfigString ↔
      Cond createDataTypeInstance paConfigString := by
  by_cases hname : getStructNameId (structPart paConfigString) = none
  · refine iff_of_false ?_ fun h => ?_
    · rintro ⟨result, hresult, -⟩
      rw [configureFB, createInterfaceSpec, hname] at hresult
      exact Option.some_ne_none _ hresult.symm
    · obtain ⟨hcount, hlast⟩ := (getStructNameId_eq_none_iff _).mp hname
      exact h.1 hcount hlast
  rw [Cond, and_iff_right fun hcount hlast =>
    hname ((getStructNameId_eq_none_iff _).mpr ⟨hcount, hlast⟩)]
  by_cases hsays : ∃ t ns ms, Says createDataTypeInstance paConfigString t ns ms
  · obtain ⟨t, ns, ms, hsays⟩ := hsays
    rcases hlist : memberPart paConfigString with - | memberNames
    · exact iff_of_true (meets_of_all hsays hlist) (by simp)
    · rw [meets_iff_of_list hsays hlist]
      constructor
      · rintro h t' ns' ms' _ hsays' ⟨⟩
        obtain ⟨rfl, rfl, rfl⟩ := says_unique hsays hsays'
        exact h
      · intro h
        exact h t ns ms memberNames hsays rfl
  · -- there is no such struct, and the configuration fails
    have hnot : ∀ t ns ms, ¬Says createDataTypeInstance paConfigString t ns ms :=
      fun t ns ms h => hsays ⟨t, ns, ms, h⟩
    refine iff_of_true ⟨none, ?_, fun fb h => absurd h (Option.not_mem_none fb)⟩
      fun t ns ms _ h => absurd h (hnot t ns ms)
    rw [configureFB, createInterfaceSpec_of_not hname hnot]

/-- A struct with a number `x` and a struct `p` of two numbers. -/
def sampleTypes : StringId → Option Datum := fun name =>
  if name = "S" then
    some (.struct "S" ["x", "p"]
      [.number .int 0, .struct "P" ["a", "b"] [.number .int 0, .number .int 0]])
  else none

example : (configureFB sampleTypes "STRUCT_DEMUX_1S____p%b,x".toList).map
    (·.map (·.mConfiguredDOPorts)) = some (some [some [1, 1], some [0]]) := by decide +kernel

/-- The second path asks for a member that the struct does not have, and the connection is made
for a null pointer. -/
theorem not_demultiplexes_sample :
    ¬Meets ⟨fun _ => 0, fun _ _ _ => 0⟩ sampleTypes "STRUCT_DEMUX_1S____x,y".toList := by
  rintro ⟨result, hresult, -⟩
  have hnone : (configureFB sampleTypes "STRUCT_DEMUX_1S____x,y".toList).isNone = true := by
    decide +kernel
  rw [hresult] at hnone
  exact Bool.false_ne_true hnone

end StructDemux

end Forte
