import Forte.Datatypes.Literal
import Mathlib.Data.List.Forall2

/-!
# What a text gives to a variable

`fromString` reads straight into the variable. A value without parts is stored as soon as it has
been read, before anything is known of the text behind it, and an array or a struct is read into
its elements and members one after the other. What is stored there stays, also where the reading
breaks off.

Nothing in this depends on what the variable holds. A type of a variable
(`Forte.VariableType`) says of a text where the literal at its front ends
(`Forte.VariableType.literal`), and which texts each part of the variable reads
(`Forte.arrayLiteral`, `Forte.structLiteral`). So it can be said of a text what it gives to every
value without parts that is reached in this way (`Forte.VariableType.Gives`): the last literal
that is stored there.

The values without parts are all those whose `fromString` does not look at the value that is
there, which are the elementary ones, the strings, and the variables of type `ANY`.
-/

namespace Forte

/-- What `fromString` of a value without parts makes of a text. -/
structure Reading where
  /-- The number of characters of the literal, if there is one. -/
  length : Option ℕ
  /-- The value that is stored, if one is. -/
  stored : Option Datum

/-- What `fromString` returns for a literal of that length. -/
def returned : Option ℕ → ℤ
  | some length => asInt length
  | none => -1

/-- The types of variables. -/
inductive VariableType
  /-- A type of values without parts, with what its `fromString` does. -/
  | elementary (read : Text → Reading)
  /-- Arrays, with the value that the constructor gives to an element. -/
  | array (lowerBound : ℤ) (initial : Datum) (element : VariableType)
  | struct (structTypeName : StringId) (elementNames : List StringId)
      (members : List VariableType)

/-- The elements of an array, or the members of a struct. -/
def Datum.parts : Datum → List Datum
  | .array _ elements => elements
  | .struct _ _ members => members
  | _ => []

/-! ### The texts of the parts -/

/-- Where the value of an element comes from: from the value that one of the elements had
before, or from that of a new element, and from the texts that were read into it. -/
structure ElementSource where
  element : Option ℕ
  texts : List Text

/-- Another text is read into an element. -/
def ElementSource.read (o : ElementSource) (value : Text) : ElementSource :=
  { o with texts := o.texts ++ [value] }

/-- The value that an element starts with. -/
def ElementSource.start (initial : Datum) (elements : List Datum) (o : ElementSource) : Datum :=
  match o.element with
  | some i => elements[i]?.getD initial
  | none => initial

/-- The value of an element. -/
def ElementSource.value (read : Datum → Text → Datum) (initial : Datum) (elements : List Datum)
    (o : ElementSource) : Datum :=
  o.texts.foldl read (o.start initial elements)

/-- An array that is being read, as a `Filling` is: the sources of the elements in front of the
iterator, and of those from it on. -/
structure Plan where
  written : List ElementSource
  rest : List ElementSource

namespace Plan

/-- A text is read into the next element, or past the end of the array. -/
def readElement (length : Text → ℤ) (value : Text) (p : Plan) : ℤ × Plan :=
  match p.rest with
  | o :: rest => (length value, ⟨p.written ++ [o.read value], rest⟩)
  | [] => (length value, p)

/-- The elements from `initialPosition` on are written `count` times more. -/
def copies (p : Plan) (initialPosition count : ℕ) : Plan :=
  let sequence := p.written.drop initialPosition
  let copied := ((List.replicate (min count p.rest.length) sequence).flatten).take p.rest.length
  ⟨p.written ++ copied, p.rest.drop copied.length⟩

/-- The repeat syntax, or one element. -/
def readElements (length : Text → ℤ) (value : Text) (p : Plan) : ℤ × Plan :=
  let read := IntegralType.ulint.fromString 0 value
  let repeatLength := asInt read.1
  let start : Text := structListing.skipBlanks (value.drop repeatLength.toNat)
  if 0 < repeatLength ∧ start.at 0 = '('.toUInt8 then
    let elements := structListing.items (readElement length) start.length (start.drop 1) p
    if Text.at elements.1 0 = ')'.toUInt8 then
      (asInt (value.length - elements.1.length + 1),
        elements.2.copies p.written.length (read.2.toNat - 1))
    else (-1, elements.2)
  else readElement length value p

end Plan

/-- **The literal of an array** at the front of a text, from the lengths of the literals of its
elements, and the sources of the elements after it was read. -/
def arrayLiteral (length : Text → ℤ) (value : Text) (sources : List ElementSource) :
    Option ℕ × List ElementSource :=
  if value.at 0 = '['.toUInt8 then
    let read := arrayListing.items (Plan.readElements length) value.length (value.drop 1)
      ⟨[], sources⟩
    if Text.at read.1 0 = ']'.toUInt8 then
      (some (value.length + 1 - read.1.length),
        read.2.written ++ List.replicate read.2.rest.length ⟨none, []⟩)
    else (none, read.2.written ++ read.2.rest)
  else (none, sources)

/-- The sources of the elements after several texts. -/
def arraySources (length : Text → ℤ) (size : ℕ) (texts : List Text) : List ElementSource :=
  texts.foldl (fun sources value => (arrayLiteral length value sources).2)
    ((List.range size).map fun i => ⟨some i, []⟩)

/-- A member of a struct with its value, from the lengths of the literals of the members, and
the texts that the members have read. -/
def memberLiteral (elementNames : List StringId) (lengths : List (Text → ℤ)) (value : Text)
    (parts : List (List Text)) : ℤ × List (List Text) :=
  match parseNextElementId value with
  | none => (-1, parts)
  | some (name, rest) =>
    let rest : Text := structListing.skipBlanks rest
    if rest.at 0 = ':'.toUInt8 ∧ rest.at 1 = '='.toUInt8 then
      let start := structListing.skipBlanks (rest.drop 2)
      match elementNames.findIdx? (text · = name) with
      | none => (-1, parts)
      | some i =>
        match lengths[i]?, parts[i]? with
        | some length, some texts =>
          (if 0 ≤ length start then asInt (value.length - start.length + length start) else -1,
            parts.set i (texts ++ [start]))
        | _, _ => (-1, parts)
    else (-1, parts)

/-- **The literal of a struct** at the front of a text, and the texts that the members have read
after it. -/
def structLiteral (elementNames : List StringId) (lengths : List (Text → ℤ)) (value : Text)
    (parts : List (List Text)) : Option ℕ × List (List Text) :=
  if value.at 0 = '('.toUInt8 then
    let read := structListing.items (memberLiteral elementNames lengths) value.length
      (value.drop 1) parts
    if Text.at read.1 0 = ')'.toUInt8 then (some (value.length + 1 - read.1.length), read.2)
    else (none, read.2)
  else (none, parts)

/-- The texts that the members read in several texts. -/
def structParts (elementNames : List StringId) (lengths : List (Text → ℤ)) (texts : List Text) :
    List (List Text) :=
  texts.foldl (fun parts value => (structLiteral elementNames lengths value parts).2)
    (List.replicate lengths.length [])

namespace VariableType

mutual

/-- `fromString` of a variable: what it returns, and the value afterwards. -/
def fromString : VariableType → Datum → Text → ℤ × Datum
  | .elementary read, v, value => (returned (read value).length, (read value).stored.getD v)
  | .array lowerBound initial element, v, value =>
    match v with
    | .array _ elements =>
      let read := arrayFromString element.fromString initial elements value
      (read.1, .array lowerBound read.2)
    | _ => (-1, v)
  | .struct name elementNames types, v, value =>
    match v with
    | .struct _ _ members =>
      let read := structFromString elementNames (fromStrings types) members value
      (read.1, .struct name elementNames read.2)
    | _ => (-1, v)

/-- `fromString` of the members of a struct. -/
def fromStrings : List VariableType → List (Datum → Text → ℤ × Datum)
  | [] => []
  | t :: types => t.fromString :: fromStrings types

end

mutual

/-- The value is one of a variable of the type. -/
def Fits : VariableType → Datum → Prop
  | .elementary _, _ => True
  | .array lowerBound initial element, v =>
    element.Fits initial ∧
      ∃ elements, v = .array lowerBound elements ∧ ∀ d ∈ elements, element.Fits d
  | .struct name elementNames types, v =>
    ∃ members, v = .struct name elementNames members ∧ FitAll types members

/-- The values are those of the members of a struct. -/
def FitAll : List VariableType → List Datum → Prop
  | [], members => members = []
  | t :: types, members => ∃ v rest, members = v :: rest ∧ t.Fits v ∧ FitAll types rest

end

mutual

/-- The number of characters of the literal of the type at the front of a text. -/
def literal : VariableType → Text → Option ℕ
  | .elementary read, value => (read value).length
  | .array _ _ element, value => (arrayLiteral (fun t => returned (element.literal t)) value []).1
  | .struct _ elementNames types, value =>
    (structLiteral elementNames (lengths types) value (List.replicate types.length [])).1

/-- What `fromString` of the members of a struct returns. -/
def lengths : List VariableType → List (Text → ℤ)
  | [] => []
  | t :: types => (fun value => returned (t.literal value)) :: lengths types

end

mutual

/-- **What texts give to a value** that reads them one after the other: the last literal that is
stored, where one is. Each element of an array has what the texts for it give to the value that
it starts with, and so has each member of a struct. -/
def Gives : VariableType → Datum → List Text → Datum → Prop
  | .elementary read, v, texts, w =>
    ((texts.filterMap fun value => (read value).stored).getLast?).getD v = w
  | .array _ initial element, v, texts, w =>
    List.Forall₂ (fun o w' => element.Gives (o.start initial v.parts) o.texts w')
      (arraySources (fun value => returned (element.literal value)) v.parts.length texts) w.parts
  | .struct _ elementNames types, v, texts, w =>
    GiveAll types v.parts (structParts elementNames (lengths types) texts) w.parts

/-- What texts give to the members of a struct. -/
def GiveAll : List VariableType → List Datum → List (List Text) → List Datum → Prop
  | [], _, _, _ => True
  | t :: types, v :: members, texts :: parts, w :: members' =>
    t.Gives v texts w ∧ GiveAll types members parts members'
  | _ :: _, _, _, _ => False

end

/-- Induction over a type; a struct has the statement for each of its members. -/
@[elab_as_elim]
theorem inductionOn {P : VariableType → Prop} (elementary : ∀ read, P (.elementary read))
    (array : ∀ lowerBound initial element, P element → P (.array lowerBound initial element))
    (struct : ∀ name elementNames types, (∀ t ∈ types, P t) → P (.struct name elementNames types))
    (t : VariableType) : P t := by
  refine @VariableType.rec P (fun types => ∀ t ∈ types, P t) elementary array struct ?_ ?_ t
  · rintro t ⟨⟩
  · intro t types ht htypes t' hmem
    rcases List.mem_cons.mp hmem with rfl | hmem
    · exact ht
    · exact htypes t' hmem

theorem fromStrings_eq_map (types : List VariableType) :
    fromStrings types = types.map fromString := by
  induction types with
  | nil => rfl
  | cons t types ih => rw [fromStrings, ih, List.map_cons]

theorem lengths_eq_map (types : List VariableType) :
    lengths types = types.map fun t value => returned (t.literal value) := by
  induction types with
  | nil => rfl
  | cons t types ih => rw [lengths, ih, List.map_cons]

theorem fitAll_iff {types : List VariableType} {members : List Datum} :
    FitAll types members ↔ members.length = types.length ∧
      ∀ (i : ℕ) (t : VariableType) (m : Datum), types[i]? = some t → members[i]? = some m →
        t.Fits m := by
  induction types generalizing members with
  | nil => simp [FitAll]
  | cons t types ih =>
    rw [FitAll]
    constructor
    · rintro ⟨v, rest, rfl, hv, hrest⟩
      obtain ⟨hlength, hfits⟩ := ih.mp hrest
      refine ⟨congrArg Nat.succ hlength, fun i t' m ht' hm => ?_⟩
      cases i with
      | zero => rwa [← Option.some.inj ht', ← Option.some.inj hm]
      | succ i => exact hfits i t' m ht' hm
    · rintro ⟨hlength, hfits⟩
      cases members with
      | nil => exact absurd hlength (by simp)
      | cons v rest =>
        exact ⟨v, rest, rfl, hfits 0 t v rfl rfl,
          ih.mpr ⟨Nat.succ.inj hlength, fun i => hfits (i + 1)⟩⟩

end VariableType

/-! ### Reading an array -/

/-- The elements of an array before it is read, and what is known of their `fromString`. -/
structure Elements where
  fromString : Datum → Text → ℤ × Datum
  /-- What `fromString` returns. -/
  length : Text → ℤ
  /-- The values of elements. -/
  Fits : Datum → Prop
  initial : Datum
  before : List Datum
  fits_initial : Fits initial
  fits_before : ∀ d ∈ before, Fits d
  length_eq : ∀ v value, Fits v → (fromString v value).1 = length value
  fits_fromString : ∀ v value, Fits v → Fits (fromString v value).2

namespace Elements

variable (E : Elements)

/-- The value of an element. -/
def value (o : ElementSource) : Datum :=
  o.value (fun v value => (E.fromString v value).2) E.initial E.before

theorem value_read (o : ElementSource) (value : Text) :
    E.value (o.read value) = (E.fromString (E.value o) value).2 := by
  rw [Elements.value, ElementSource.value, ElementSource.read, List.foldl_append]
  rfl

theorem fits_start (o : ElementSource) : E.Fits (o.start E.initial E.before) := by
  rw [ElementSource.start]
  split
  · rename_i i hi
    cases hget : E.before[i]? with
    | none => exact E.fits_initial
    | some d => exact E.fits_before d (List.mem_of_getElem? hget)
  · exact E.fits_initial

theorem fits_value (o : ElementSource) : E.Fits (E.value o) := by
  have hall : ∀ (texts : List Text) v, E.Fits v →
      E.Fits (texts.foldl (fun v value => (E.fromString v value).2) v) := by
    intro texts
    induction texts with
    | nil => exact fun v hv => hv
    | cons value texts ih => exact fun v hv => ih _ (E.fits_fromString v value hv)
  exact hall o.texts _ (E.fits_start o)

/-- **The array has what the plan says**: the elements have the values of their sources. -/
structure Describes (p : Plan) (s : Filling) : Prop where
  written : s.written = p.written.map E.value
  rest : s.rest = p.rest.map E.value
  bufVal : E.Fits s.bufVal

variable {E} {p : Plan} {s : Filling}

theorem Describes.readElement (h : E.Describes p s) (value : Text) :
    (s.initializeSimpleFromString E.fromString value).1 = (p.readElement E.length value).1 ∧
      E.Describes (p.readElement E.length value).2
        (s.initializeSimpleFromString E.fromString value).2 := by
  obtain ⟨hwritten, hrest, hbuf⟩ := h
  rw [Filling.initializeSimpleFromString, Plan.readElement, hrest]
  cases hp : p.rest with
  | nil =>
    refine ⟨E.length_eq _ value hbuf, hwritten, ?_, E.fits_fromString _ value hbuf⟩
    exact congrArg (List.map E.value) hp.symm
  | cons o rest =>
    refine ⟨E.length_eq _ value (E.fits_value o), ?_, rfl, hbuf⟩
    rw [List.map_append, List.map_singleton, E.value_read, ← hwritten]
    rfl

theorem Describes.copies (h : E.Describes p s) (initialPosition count : ℕ) :
    E.Describes (p.copies initialPosition count) (s.copies initialPosition count) := by
  obtain ⟨hwritten, hrest, hbuf⟩ := h
  have hlength : s.rest.length = p.rest.length := by rw [hrest, List.length_map]
  refine ⟨?_, ?_, hbuf⟩
  · simp only [Filling.copies, Plan.copies, hwritten, hlength, List.map_append, List.map_take,
      List.map_flatten, List.map_replicate, List.map_drop]
  · simp only [Filling.copies, Plan.copies, hwritten, hrest, List.map_drop, List.length_take,
      List.length_flatten, List.map_replicate, List.length_drop, List.length_map]

theorem Describes.readElements (h : E.Describes p s) (value : Text) :
    (s.initializeFromString E.fromString value).1 = (p.readElements E.length value).1 ∧
      E.Describes (p.readElements E.length value).2
        (s.initializeFromString E.fromString value).2 := by
  rw [Filling.initializeFromString, Plan.readElements]
  dsimp only
  split
  · obtain ⟨hend, hitems⟩ := Listing.items_rel (fun s p => E.Describes p s)
      (fun t s p h => Describes.readElement h t) _ _ h
    have hlength : s.written.length = p.written.length := by rw [h.written, List.length_map]
    rw [hend]
    split
    · rw [hlength]
      exact ⟨rfl, hitems.copies _ _⟩
    · exact ⟨rfl, hitems⟩
  · exact h.readElement value

/-- What is returned does not depend on the array. -/
theorem readElement_fst (length : Text → ℤ) (value : Text) (p p' : Plan) :
    (p.readElement length value).1 = (p'.readElement length value).1 := by
  have hone : ∀ p : Plan, (p.readElement length value).1 = length value := by
    intro p
    rw [Plan.readElement]
    split <;> rfl
  rw [hone, hone]

theorem readElements_fst (length : Text → ℤ) (value : Text) (p p' : Plan) :
    (p.readElements length value).1 = (p'.readElements length value).1 := by
  rw [Plan.readElements, Plan.readElements]
  dsimp only
  split
  · rw [Listing.items_fst_eq (L := structListing) (readElement_fst length) _ _ p p']
    split <;> rfl
  · exact readElement_fst length value p p'

theorem arrayLiteral_fst (length : Text → ℤ) (value : Text)
    (sources sources' : List ElementSource) :
    (arrayLiteral length value sources).1 = (arrayLiteral length value sources').1 := by
  rw [arrayLiteral, arrayLiteral]
  split
  · dsimp only
    rw [Listing.items_fst_eq (L := arrayListing) (readElements_fst length) value.length
      (value.drop 1) ⟨[], sources⟩ ⟨[], sources'⟩]
    split <;> rfl
  · rfl

/-- `fromString` of an array returns the length of the literal, and leaves the elements with the
values that the literal says. -/
theorem arrayFromString_eq (value : Text) (sources : List ElementSource) :
    (arrayFromString E.fromString E.initial (sources.map E.value) value).1 =
        returned (arrayLiteral E.length value sources).1 ∧
      (arrayFromString E.fromString E.initial (sources.map E.value) value).2 =
        (arrayLiteral E.length value sources).2.map E.value := by
  rw [arrayFromString, arrayLiteral]
  split
  · have hstart : E.Describes ⟨[], sources⟩ ⟨[], sources.map E.value, E.initial⟩ :=
      ⟨rfl, rfl, E.fits_initial⟩
    obtain ⟨hend, hread⟩ := Listing.items_rel (L := arrayListing) (fun s p => E.Describes p s)
      (fun t s p h => Describes.readElements h t) value.length (value.drop 1) hstart
    dsimp only
    rw [hend]
    have hle : (arrayListing.items (Plan.readElements E.length) value.length (value.drop 1)
        ⟨[], sources⟩).1.length ≤ value.length :=
      (Listing.length_items_le _ _ _).trans (List.drop_sublist _ _).length_le
    split
    · refine ⟨congrArg asInt (by omega), ?_⟩
      rw [hread.written, hread.rest, List.map_append, List.map_replicate, List.length_map]
      rfl
    · refine ⟨rfl, ?_⟩
      rw [hread.written, hread.rest, List.map_append]
  · exact ⟨rfl, rfl⟩

/-- The sources that an array is read from at first. -/
theorem map_value_range :
    ((List.range E.before.length).map fun i => (⟨some i, []⟩ : ElementSource)).map E.value =
      E.before := by
  refine List.ext_getElem (by simp) fun i hi hi' => ?_
  simp [Elements.value, ElementSource.value, ElementSource.start, hi']

/-- **Texts that are read one after the other** leave the elements with the values that the
texts say. -/
theorem foldl_arrayFromString (texts : List Text) :
    texts.foldl (fun elements value =>
        (arrayFromString E.fromString E.initial elements value).2) E.before =
      (arraySources E.length E.before.length texts).map E.value := by
  have hall : ∀ (texts : List Text) (sources : List ElementSource),
      texts.foldl (fun elements value =>
          (arrayFromString E.fromString E.initial elements value).2) (sources.map E.value) =
        (texts.foldl (fun sources value => (arrayLiteral E.length value sources).2)
          sources).map E.value := by
    intro texts
    induction texts with
    | nil => exact fun _ => rfl
    | cons value texts ih =>
      intro sources
      rw [List.foldl_cons, List.foldl_cons, (arrayFromString_eq value sources).2]
      exact ih _
  rw [arraySources, ← hall, map_value_range]

theorem arrayFromString_fst (value : Text) :
    (arrayFromString E.fromString E.initial E.before value).1 =
      returned (arrayLiteral E.length value []).1 := by
  rw [← map_value_range (E := E), (arrayFromString_eq value _).1, arrayLiteral_fst]

theorem fits_arrayFromString (value : Text) :
    ∀ d ∈ (arrayFromString E.fromString E.initial E.before value).2, E.Fits d := by
  rw [← map_value_range (E := E), (arrayFromString_eq value _).2]
  rintro d hd
  obtain ⟨o, -, rfl⟩ := List.mem_map.mp hd
  exact E.fits_value o

end Elements

/-! ### Reading a struct -/

namespace VariableType

/-- `fromString` of a variable returns the length of the literal, and leaves a value of the
type. -/
def Sound (t : VariableType) : Prop :=
  ∀ v value, t.Fits v →
    (t.fromString v value).1 = returned (t.literal value) ∧ t.Fits (t.fromString v value).2

/-- The value that texts leave when they are read one after the other. -/
def readAll (t : VariableType) (v : Datum) (texts : List Text) : Datum :=
  texts.foldl (fun v value => (t.fromString v value).2) v

theorem readAll_append (t : VariableType) (v : Datum) (texts : List Text) (value : Text) :
    t.readAll v (texts ++ [value]) = (t.fromString (t.readAll v texts) value).2 := by
  rw [readAll, List.foldl_append]
  rfl

/-- **The members have what the texts say** that they have read. -/
structure Describes (types : List VariableType) (before : List Datum) (members : List Datum)
    (parts : List (List Text)) : Prop where
  length_members : members.length = types.length
  length_parts : parts.length = types.length
  fits : ∀ (i : ℕ) (t : VariableType) (m : Datum), types[i]? = some t → members[i]? = some m →
    t.Fits m
  member : ∀ (i : ℕ) (t : VariableType) (v : Datum) (texts : List Text) (m : Datum),
    types[i]? = some t → before[i]? = some v → parts[i]? = some texts → members[i]? = some m →
      m = t.readAll v texts

variable {types : List VariableType} {before members : List Datum} {parts : List (List Text)}

/-- One member reads a text. -/
theorem Describes.set (h : Describes types before members parts) {i : ℕ} {t : VariableType}
    {m : Datum} {texts : List Text} {value : Text} (ht : types[i]? = some t)
    (hm : members[i]? = some m) (htexts : parts[i]? = some texts)
    (hfits : t.Fits (t.fromString m value).2) :
    Describes types before (members.set i (t.fromString m value).2)
      (parts.set i (texts ++ [value])) := by
  have hmi := (List.getElem?_eq_some_iff.mp hm).1
  have hti := (List.getElem?_eq_some_iff.mp htexts).1
  refine ⟨by rw [List.length_set, h.length_members], by rw [List.length_set, h.length_parts],
    fun j t' m' ht' hm' => ?_, fun j t' v texts' m' ht' hv htexts' hm' => ?_⟩
  · by_cases hij : i = j
    · subst hij
      rw [List.getElem?_set_self hmi] at hm'
      rw [← Option.some.inj hm', Option.some.inj (ht'.symm.trans ht)]
      exact hfits
    · rw [List.getElem?_set_ne hij] at hm'
      exact h.fits j t' m' ht' hm'
  · by_cases hij : i = j
    · subst hij
      rw [List.getElem?_set_self hmi] at hm'
      rw [List.getElem?_set_self hti] at htexts'
      obtain rfl := Option.some.inj (ht'.symm.trans ht)
      rw [← Option.some.inj hm', ← Option.some.inj htexts', readAll_append,
        ← h.member i t' v texts m ht hv htexts hm]
    · rw [List.getElem?_set_ne hij] at hm' htexts'
      exact h.member j t' v texts' m' ht' hv htexts' hm'

theorem Describes.memberFromString (hsound : ∀ t ∈ types, t.Sound)
    (h : Describes types before members parts) (elementNames : List StringId) (value : Text) :
    (memberFromString elementNames (fromStrings types) value members).1 =
        (memberLiteral elementNames (lengths types) value parts).1 ∧
      Describes types before (memberFromString elementNames (fromStrings types) value members).2
        (memberLiteral elementNames (lengths types) value parts).2 := by
  rw [Forte.memberFromString, memberLiteral, fromStrings_eq_map, lengths_eq_map]
  cases parseNextElementId value with
  | none => exact ⟨rfl, h⟩
  | some r =>
    obtain ⟨name, rest⟩ := r
    dsimp only
    split
    · cases elementNames.findIdx? (text · = name) with
      | none => exact ⟨rfl, h⟩
      | some i =>
        cases ht : types[i]? with
        | none =>
          simp only [List.getElem?_map, ht, Option.map_none]
          exact ⟨trivial, h⟩
        | some t =>
          have hi := (List.getElem?_eq_some_iff.mp ht).1
          obtain ⟨m, hm⟩ : ∃ m, members[i]? = some m :=
            ⟨_, List.getElem?_eq_getElem (h.length_members ▸ hi)⟩
          obtain ⟨texts, htexts⟩ : ∃ texts, parts[i]? = some texts :=
            ⟨_, List.getElem?_eq_getElem (h.length_parts ▸ hi)⟩
          obtain ⟨hlength, hfits⟩ := hsound t (List.mem_of_getElem? ht) m
            (structListing.skipBlanks ((structListing.skipBlanks rest).drop 2)) (h.fits i t m ht hm)
          simp only [List.getElem?_map, ht, hm, htexts, Option.map_some, hlength]
          split
          · exact ⟨rfl, h.set ht hm htexts hfits⟩
          · exact ⟨rfl, h.set ht hm htexts hfits⟩
    · exact ⟨rfl, h⟩

/-- `fromString` of a struct returns the length of the literal, and leaves the members with what
the literal says. -/
theorem Describes.structFromString (hsound : ∀ t ∈ types, t.Sound)
    (h : Describes types before members parts) (elementNames : List StringId) (value : Text) :
    (structFromString elementNames (fromStrings types) members value).1 =
        returned (structLiteral elementNames (lengths types) value parts).1 ∧
      Describes types before (structFromString elementNames (fromStrings types) members value).2
        (structLiteral elementNames (lengths types) value parts).2 := by
  rw [Forte.structFromString, structLiteral]
  split
  · obtain ⟨hend, hread⟩ := Listing.items_rel (L := structListing)
      (fun members parts => Describes types before members parts)
      (fun t members parts h => h.memberFromString hsound elementNames t) value.length
      (value.drop 1) h
    have hle : (structListing.items (memberLiteral elementNames (lengths types)) value.length
        (value.drop 1) parts).1.length ≤ value.length :=
      (Listing.length_items_le _ _ _).trans (List.drop_sublist _ _).length_le
    dsimp only
    rw [hend]
    split
    · exact ⟨congrArg asInt (by omega), hread⟩
    · exact ⟨rfl, hread⟩
  · exact ⟨rfl, h⟩

/-- Before anything is read the members have their values. -/
theorem describes_before (h : FitAll types before) :
    Describes types before before (List.replicate types.length []) := by
  obtain ⟨hlength, hfits⟩ := fitAll_iff.mp h
  refine ⟨hlength, List.length_replicate, hfits, fun i t v texts m _ hv htexts hm => ?_⟩
  obtain rfl := (List.mem_replicate.mp (List.mem_of_getElem? htexts)).2
  exact Option.some.inj (hm.symm.trans hv)

theorem Describes.fitAll (h : Describes types before members parts) : FitAll types members :=
  fitAll_iff.mpr ⟨h.length_members, h.fits⟩

/-- The elements of an array of a type. -/
def elementsOf (initial : Datum) (element : VariableType) (before : List Datum)
    (hsound : element.Sound) (hinitial : element.Fits initial)
    (hbefore : ∀ d ∈ before, element.Fits d) : Elements where
  fromString := element.fromString
  length := fun value => returned (element.literal value)
  Fits := element.Fits
  initial := initial
  before := before
  fits_initial := hinitial
  fits_before := hbefore
  length_eq := fun v value hv => (hsound v value hv).1
  fits_fromString := fun v value hv => (hsound v value hv).2

/-- **Every type is sound.** -/
theorem sound (t : VariableType) : t.Sound := by
  induction t using inductionOn with
  | elementary read => exact fun v value _ => ⟨rfl, trivial⟩
  | array lowerBound initial element ih =>
    rintro v value ⟨hinitial, elements, rfl, helements⟩
    exact ⟨Elements.arrayFromString_fst (E := elementsOf initial element elements ih hinitial
        helements) value,
      hinitial, _, rfl, Elements.fits_arrayFromString (E := elementsOf initial element elements ih
        hinitial helements) value⟩
  | struct name elementNames types ih =>
    rintro v value ⟨members, rfl, hmembers⟩
    obtain ⟨hlength, hread⟩ :=
      (describes_before hmembers).structFromString ih elementNames value
    exact ⟨hlength, _, rfl, hread.fitAll⟩

/-! ### What texts give -/

/-- An array after several texts. -/
theorem readAll_array {lowerBound : ℤ} {initial : Datum} {element : VariableType}
    {elements : List Datum} (hinitial : element.Fits initial)
    (helements : ∀ d ∈ elements, element.Fits d) (texts : List Text) :
    (array lowerBound initial element).readAll (.array lowerBound elements) texts =
      .array lowerBound
        ((arraySources (fun value => returned (element.literal value)) elements.length texts).map
          (Elements.value (elementsOf initial element elements element.sound hinitial
            helements))) := by
  have hall : ∀ (texts : List Text) (elements : List Datum),
      (array lowerBound initial element).readAll (.array lowerBound elements) texts =
        .array lowerBound (texts.foldl (fun elements value =>
          (arrayFromString element.fromString initial elements value).2) elements) := by
    intro texts
    induction texts with
    | nil => exact fun _ => rfl
    | cons value texts ih => exact fun elements => ih _
  exact (hall texts elements).trans (congrArg (Datum.array lowerBound)
    (Elements.foldl_arrayFromString (E := elementsOf initial element elements element.sound hinitial
      helements) texts))

/-- A struct after several texts. -/
theorem readAll_struct (name : StringId) (elementNames : List StringId)
    (h : FitAll types before) (texts : List Text) :
    ∃ members, (struct name elementNames types).readAll (.struct name elementNames before) texts =
        .struct name elementNames members ∧
      Describes types before members (structParts elementNames (lengths types) texts) := by
  have hall : ∀ (texts : List Text) (members : List Datum) (parts : List (List Text)),
      Describes types before members parts →
        ∃ members', (struct name elementNames types).readAll
            (.struct name elementNames members) texts = .struct name elementNames members' ∧
          Describes types before members' (texts.foldl (fun parts value =>
            (structLiteral elementNames (lengths types) value parts).2) parts) := by
    intro texts
    induction texts with
    | nil => exact fun members parts h => ⟨members, rfl, h⟩
    | cons value texts ih =>
      intro members parts h
      exact ih _ _ (h.structFromString (fun t _ => t.sound) elementNames value).2
  have hlength : (lengths types).length = types.length := by rw [lengths_eq_map, List.length_map]
  rw [structParts, hlength]
  exact hall texts before _ (describes_before h)

theorem giveAll_iff {types : List VariableType} {before members : List Datum}
    {parts : List (List Text)} (hbefore : before.length = types.length)
    (hparts : parts.length = types.length) (hmembers : members.length = types.length) :
    GiveAll types before parts members ↔
      ∀ (i : ℕ) (t : VariableType) (v : Datum) (texts : List Text) (m : Datum),
        types[i]? = some t → before[i]? = some v → parts[i]? = some texts →
          members[i]? = some m → t.Gives v texts m := by
  induction types generalizing before parts members with
  | nil => simp [GiveAll]
  | cons t types ih =>
    obtain ⟨v, before, rfl⟩ := List.exists_cons_of_length_eq_add_one hbefore
    obtain ⟨texts, parts, rfl⟩ := List.exists_cons_of_length_eq_add_one hparts
    obtain ⟨m, members, rfl⟩ := List.exists_cons_of_length_eq_add_one hmembers
    rw [GiveAll, ih (Nat.succ.inj hbefore) (Nat.succ.inj hparts) (Nat.succ.inj hmembers)]
    constructor
    · rintro ⟨hgives, hall⟩ i t' v' texts' m' ht hv htexts hm
      cases i with
      | zero =>
        rw [← Option.some.inj ht, ← Option.some.inj hv, ← Option.some.inj htexts,
          ← Option.some.inj hm]
        exact hgives
      | succ i => exact hall i t' v' texts' m' ht hv htexts hm
    · exact fun hall => ⟨hall 0 t v texts m rfl rfl rfl rfl, fun i => hall (i + 1)⟩

/-- The last value that is stored stays. -/
theorem readAll_elementary (read : Text → Reading) (v : Datum) (texts : List Text) :
    (elementary read).readAll v texts =
      ((texts.filterMap fun value => (read value).stored).getLast?).getD v := by
  induction texts using List.reverseRecOn with
  | nil => rfl
  | append_singleton texts value ih =>
    rw [readAll_append, fromString, ih, List.filterMap_append]
    cases hstored : (read value).stored with
    | none => simp [hstored]
    | some d => simp [hstored]

theorem forall₂_iff_map_eq {α β : Type} {R : α → β → Prop} {f : α → β} {l : List α} {l' : List β}
    (h : ∀ x, ∀ y ∈ l', R x y ↔ f x = y) : List.Forall₂ R l l' ↔ l.map f = l' := by
  induction l generalizing l' with
  | nil => rw [List.forall₂_nil_left_iff, List.map_nil, eq_comm]
  | cons x l ih =>
    cases l' with
    | nil => simp
    | cons y l' =>
      rw [List.forall₂_cons, List.map_cons, List.cons.injEq, h x y List.mem_cons_self,
        ih fun x y hy => h x y (List.mem_cons_of_mem _ hy)]

/-- **What the texts give is what they leave**: a value of the type is the one that is there after
the texts have been read one after the other, if and only if the texts give it. -/
theorem gives_iff {t : VariableType} {v w : Datum} (hv : t.Fits v) (hw : t.Fits w)
    (texts : List Text) : t.Gives v texts w ↔ t.readAll v texts = w := by
  induction t using inductionOn generalizing v w texts with
  | elementary read => rw [Gives, readAll_elementary]
  | array lowerBound initial element ih =>
    obtain ⟨hinitial, elements, rfl, helements⟩ := hv
    obtain ⟨-, elements', rfl, helements'⟩ := hw
    rw [readAll_array hinitial helements, Gives, Datum.array.injEq, eq_self, true_and]
    exact forall₂_iff_map_eq fun o w' hw' =>
      ih (Elements.fits_start (elementsOf initial element elements element.sound hinitial
        helements) o) (helements' w' hw') o.texts
  | struct name elementNames types ih =>
    obtain ⟨before, rfl, hbefore⟩ := hv
    obtain ⟨members', rfl, hmembers'⟩ := hw
    obtain ⟨members, heq, hread⟩ := readAll_struct name elementNames hbefore texts
    obtain ⟨hlengthBefore, hfitsBefore⟩ := fitAll_iff.mp hbefore
    obtain ⟨hlength', hfits'⟩ := fitAll_iff.mp hmembers'
    rw [heq, Gives, Datum.struct.injEq, eq_self, eq_self, true_and, true_and]
    rw [Datum.parts, Datum.parts, giveAll_iff hlengthBefore hread.length_parts hlength']
    constructor
    · intro hall
      refine List.ext_getElem (hread.length_members.trans hlength'.symm) fun i hi hi' => ?_
      -- the type, the value and the texts of the member
      have ht := List.getElem?_eq_getElem (hread.length_members ▸ hi)
      have hv := List.getElem?_eq_getElem (hlengthBefore ▸ hread.length_members ▸ hi)
      have htexts := List.getElem?_eq_getElem (hread.length_parts ▸ hread.length_members ▸ hi)
      have hm := List.getElem?_eq_getElem hi
      have hm' := List.getElem?_eq_getElem hi'
      have hgives := hall i _ _ _ _ ht hv htexts hm'
      rw [ih _ (List.mem_of_getElem? ht) (hfitsBefore i _ _ ht hv) (hfits' i _ _ ht hm')] at hgives
      exact (hread.member i _ _ _ _ ht hv htexts hm).trans hgives
    · rintro rfl i t v texts' m ht hv htexts hm
      exact (ih t (List.mem_of_getElem? ht) (hfitsBefore i t v ht hv) (hfits' i t m ht hm)
        texts').mpr (hread.member i t v texts' m ht hv htexts hm).symm

end VariableType

end Forte
