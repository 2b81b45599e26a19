import Forte.Communication.ParameterParser
import Forte.Datatypes.AnyInt
import Forte.Datatypes.Datum
import Forte.Datatypes.NumberText

/-!
# Members of structs by path

A `CStructMemberLocalComLayer` writes to a member of a struct that is given by a text of names with
points between them, in which an array has an index behind it. `buildIndexList` looks the names up
and stores positions, and `getTargetByIndex` walks them later.

A struct is seen here as its type has it, with the bounds of its arrays, and a pointer into it is
the place it points to: the positions on the way there. The names of members are identifiers.
-/

namespace Forte.StructMember

/-- A character of an identifier. -/
def isIdentifierChar (c : UInt8) : Bool := isalpha c || isDigit c || c = '_'.toUInt8

/-- A name of `elementNames`. -/
abbrev ElementName := {name : Text // ∀ c ∈ name, isIdentifierChar c = true}

/-- What a member is: a struct has its members with their names, and an array its bounds. -/
inductive Member
  | elementary
  | array (lowerBound upperBound : ℤ) (element : Member)
  | struct (members : List (ElementName × Member))

/-- The members of a struct. -/
abbrev Members := List (ElementName × Member)

/-- A number as `TForteInt16`. -/
def toInt16 (x : ℤ) : ℤ := AnyInt.int.native.wrap x

/-- A number as `size_t`. -/
def toSize (x : ℤ) : ℕ := (x % 2 ^ 64).toNat

/-- `CIEC_STRUCT::getMemberIndex`; `none` is `csmNIndex`. -/
def getMemberIndex (paRoot : Members) (paMemberNameId : Text) : Option ℕ :=
  paRoot.findIdx? fun member => member.1.val = paMemberNameId

/-! ### `buildIndexList` -/

/-- `parseArrayIndexFromString`. The number is read behind the first opening bracket, whatever is
behind it then. -/
def parseArrayIndexFromString (paNestedStructString : Text) : Option ℤ :=
  match paNestedStructString.idxOf? '['.toUInt8, paNestedStructString.idxOf? ']'.toUInt8 with
  | some start, some _ =>
    let index := strtol 10 (paNestedStructString.drop (start + 1))
    if index.erange then none else some (toInt16 index.value.toInt)
  | _, _ => none

/-- The name that is looked up for a segment. -/
def segmentName (segment : Text) : Text :=
  if (parseArrayIndexFromString segment).isSome then segment.takeWhile (· ≠ '['.toUInt8)
  else segment

/-- The struct in which the next segment is looked up. -/
def nextRoot (paRoot : Members) : Member → Members
  | .struct members => members
  | _ => paRoot

/-- A round of the loop of `buildIndexList`: the struct for the next one, and what is stored. -/
def buildSegment (paRoot : Members) (segment : Text) : Option (Members × List ℤ) := do
  let memberIndex ← getMemberIndex paRoot (segmentName segment)
  let (_, member) ← paRoot[memberIndex]?
  match member, parseArrayIndexFromString segment with
  | .array lowerBound upperBound element, some arrayIndex =>
    if lowerBound ≤ arrayIndex ∧ arrayIndex ≤ upperBound then
      pure (nextRoot paRoot element, [toInt16 memberIndex, arrayIndex])
    else none
  | member, _ => pure (nextRoot paRoot member, [toInt16 memberIndex])

/-- The loop of `buildIndexList`, over the numbers of the segments. There is a list if all of them
can be read, and an empty one if there is an error. -/
def buildLoop (parser : ParameterParser) : List ℕ → Members → List ℤ → Option (List ℤ)
  | [], _, resultList => some resultList
  | i :: rest, paRoot, resultList => do
    let segment ← (parser.get i).bind parser.textAt
    match buildSegment paRoot segment with
    | none => some []
    | some (paRoot, indices) => buildLoop parser rest paRoot (resultList ++ indices)

/-- `buildIndexList`. -/
def buildIndexList (paRoot : Members) (paNestedStructString : Text) : Option (List ℤ) := do
  let (numNestedStructs, parser) ←
    (ParameterParser.create (some paNestedStructString) '.'.toUInt8).parseParameters
  buildLoop parser (List.range numNestedStructs) paRoot []

/-! ### `getTargetByIndex` -/

/-- What a pointer points to: the place, and the member that is there. -/
structure Target where
  place : List ℕ
  member : Member

/-- The loop of `getTargetByIndex`. A null pointer is returned, but not followed, and an index that
is out of range is an exception. -/
def walk : Target → List ℤ → Option (Option Target)
  | target, [] => some (some target)
  | ⟨place, .struct members⟩, index :: rest =>
    match members[toSize index]? with
    | some (_, member) => walk ⟨place ++ [toSize index], member⟩ rest
    | none => if rest = [] then some none else none
  | ⟨place, .array lowerBound upperBound element⟩, index :: rest =>
    if lowerBound ≤ index ∧ index ≤ upperBound then
      walk ⟨place ++ [(index - lowerBound).toNat], element⟩ rest
    else none
  | ⟨_, .elementary⟩, _ :: _ => some none

/-- `getTargetByIndex`; the inner `none` is the null pointer. -/
def getTargetByIndex (paRoot : Members) (paIndexList : List ℤ) : Option (Option Target) :=
  if paIndexList = [] then some none else walk ⟨[], .struct paRoot⟩ paIndexList

/-! ### What a path denotes -/

/-- Indices in brackets, one behind the other. -/
inductive Indices : Text → List ℤ → Prop
  | nil : Indices [] []
  | cons {negative : Bool} {ds : List ℕ} {rest : Text} {indices : List ℤ}
      (hds : ∀ d ∈ ds, d < 10) (hne : ds ≠ []) (h : Indices rest indices) :
      Indices ('['.toUInt8 :: (signed negative ds ++ ']'.toUInt8 :: rest))
        (signedValue negative ds :: indices)

/-- What indices lead to: each is applied to an array, and inside its bounds. -/
inductive Reaches : Member → List ℤ → List ℕ → Member → Prop
  | here {member : Member} : Reaches member [] [] member
  | element {lowerBound upperBound index : ℤ} {element member : Member} {indices : List ℤ}
      {place : List ℕ} (hle : lowerBound ≤ index) (hle' : index ≤ upperBound)
      (h : Reaches element indices place member) :
      Reaches (.array lowerBound upperBound element) (index :: indices)
        ((index - lowerBound).toNat :: place) member

/-- **What a segment leads to** from a struct: a member of it that is named, or an element of that.
Segments may be asked for more, of the position of the member and of the indices. -/
inductive Leads (allowed : ℕ → List ℤ → Prop) (members : Members) :
    Text → List ℕ → Member → Prop
  | intro {name brackets : Text} {indices : List ℤ} {i : ℕ} {elementName : ElementName}
      {named member : Member} {place : List ℕ} (hbrackets : Indices brackets indices)
      (hi : getMemberIndex members name = some i) (he : members[i]? = some (elementName, named))
      (hreaches : Reaches named indices place member) (hallowed : allowed i indices) :
      Leads allowed members (name ++ brackets) (i :: place) member

/-- **What segments lead to**, one after the other through structs. -/
inductive Denotes (allowed : ℕ → List ℤ → Prop) : Members → List Text → List ℕ → Member → Prop
  | last {members : Members} {segment : Text} {place : List ℕ} {member : Member}
      (h : Leads allowed members segment place member) :
      Denotes allowed members [segment] place member
  | through {members inner : Members} {segment : Text} {segments : List Text}
      {place place' : List ℕ} {member : Member}
      (h : Leads allowed members segment place (.struct inner))
      (hrest : Denotes allowed inner segments place' member) :
      Denotes allowed members (segment :: segments) (place ++ place') member

/-- The segments of a path, without the white space at their ends. -/
def segments (path : Text) : List Text :=
  ((ParameterParser.given (some path)).splitOn '.'.toUInt8).map trim

/-- Nothing more is asked of a segment. -/
def anySegment (_ : ℕ) (_ : List ℤ) : Prop := True

/-- The position and the index are the same after they have been kept in 16 bits, and there is one
index at most. -/
def PlainSegment (i : ℕ) (indices : List ℤ) : Prop :=
  toSize (toInt16 i) = i ∧ indices.length ≤ 1 ∧ ∀ index ∈ indices, toInt16 index = index

instance (i : ℕ) (indices : List ℤ) : Decidable (PlainSegment i indices) :=
  inferInstanceAs (Decidable (_ ∧ _ ∧ _))

/-- The member itself, or the element of an array if an index is read. -/
def addressed : Member → Option ℤ → Member
  | .array _ _ element, some _ => element
  | member, _ => member

/-- **Refused segments**: in the struct of the last struct member there is no member of that name,
or the number that is read of an index is out of the bounds of the array. -/
inductive Refused : Members → List Text → Prop
  | unnamed {members : Members} {segment : Text} {segments : List Text}
      (h : getMemberIndex members (segmentName segment) = none) :
      Refused members (segment :: segments)
  | outside {members : Members} {segment : Text} {segments : List Text} {i : ℕ}
      {name : ElementName} {lowerBound upperBound index : ℤ} {element : Member}
      (hi : getMemberIndex members (segmentName segment) = some i)
      (he : members[i]? = some (name, .array lowerBound upperBound element))
      (hindex : parseArrayIndexFromString segment = some index)
      (hout : ¬(lowerBound ≤ index ∧ index ≤ upperBound)) :
      Refused members (segment :: segments)
  | later {members : Members} {segment : Text} {segments : List Text} {i : ℕ}
      {e : ElementName × Member} (hi : getMemberIndex members (segmentName segment) = some i)
      (he : members[i]? = some e)
      (h : Refused (nextRoot members (addressed e.2 (parseArrayIndexFromString segment)))
        segments) :
      Refused members (segment :: segments)

/-- **What is asked of a path**: a list is built exactly if it denotes a member, and the list leads
to that member. -/
def Meets (paRoot : Members) (path : Text) : Prop :=
  ∃ paIndexList, buildIndexList paRoot path = some paIndexList ∧
    (paIndexList ≠ [] ↔ ∃ place member, Denotes anySegment paRoot (segments path) place member) ∧
    ∀ place member, Denotes anySegment paRoot (segments path) place member →
      getTargetByIndex paRoot paIndexList = some (some ⟨place, member⟩)

end Forte.StructMember
