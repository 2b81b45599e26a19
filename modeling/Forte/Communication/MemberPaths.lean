import Forte.Communication.StructMember

/-!
# Paths to members of structs

What `buildIndexList` accepts of a path, what is walked by `getTargetByIndex` afterwards, and when
the two are right about what the path denotes (`Forte.StructMember.paths_iff`).
-/

namespace Forte.StructMember

/-! ### The list that is built -/

/-- What is stored for segments, if none of them is refused. -/
def positions : Members → List Text → Option (List ℤ)
  | _, [] => some []
  | paRoot, segment :: segments =>
    (buildSegment paRoot segment).bind fun (next, stored) =>
      (positions next segments).map (stored ++ ·)

theorem buildLoop_eq {parser : ParameterParser} {n : ℕ} {segments : List Text}
    (h : ∀ i, (parser.get (n + i)).map parser.textAt = segments[i]?.map some) (paRoot : Members)
    (resultList : List ℤ) :
    buildLoop parser (List.range' n segments.length) paRoot resultList =
      some (((positions paRoot segments).map (resultList ++ ·)).getD []) := by
  induction segments generalizing n paRoot resultList with
  | nil => rw [buildLoop.eq_def, positions]; simp
  | cons segment segments ih =>
    have hsegment : (parser.get n).bind parser.textAt = some segment := by
      have hfirst := h 0
      cases hget : parser.get n with
      | none =>
        rw [Nat.add_zero, hget] at hfirst
        cases hfirst
      | some location =>
        rw [Nat.add_zero, hget] at hfirst
        exact Option.some.inj hfirst
    have hrest : ∀ i, (parser.get (n + 1 + i)).map parser.textAt = segments[i]?.map some := by
      intro i
      rw [Nat.add_assoc, Nat.add_comm 1 i]
      exact h (i + 1)
    rw [List.length_cons, List.range'_succ, buildLoop, hsegment, positions]
    cases hbuild : buildSegment paRoot segment with
    | none => simp [hbuild]
    | some next =>
      simp only [Option.bind_eq_bind, Option.bind_some, hbuild, ih hrest, Option.map_map]
      congr 3
      funext l
      simp

theorem positions_cons {members : Members} {segment : Text} {segments : List Text}
    {paIndexList : List ℤ} (h : positions members (segment :: segments) = some paIndexList) :
    ∃ next stored rest, buildSegment members segment = some (next, stored) ∧
      positions next segments = some rest ∧ paIndexList = stored ++ rest := by
  obtain ⟨⟨next, stored⟩, hbuild, hrest⟩ := Option.bind_eq_some_iff.mp h
  obtain ⟨rest, hpositions, rfl⟩ := Option.map_eq_some_iff.mp hrest
  exact ⟨next, stored, rest, hbuild, hpositions, rfl⟩

theorem segments_ne_nil (path : Text) : segments path ≠ [] := by
  refine List.ne_nil_of_length_pos ?_
  rw [segments, List.length_map, ParameterParser.length_splitOn]
  exact Nat.succ_pos _

/-- **What `buildIndexList` builds.** -/
theorem buildIndexList_eq (paRoot : Members) (path : Text) :
    buildIndexList paRoot path = some ((positions paRoot (segments path)).getD []) := by
  obtain ⟨parser, hparse, hpieces⟩ :=
    ParameterParser.parses (some path) (by decide : isspace '.'.toUInt8 = false)
  have hlength : (ParameterParser.given (some path)).count '.'.toUInt8 + 1 =
      (segments path).length := by
    rw [segments, List.length_map, ParameterParser.length_splitOn]
  rw [buildIndexList, hparse, Option.bind_eq_bind, Option.bind_some, hlength]
  dsimp only
  rw [List.range_eq_range', buildLoop_eq (n := 0) (fun i => by rw [Nat.zero_add]; exact hpieces i)]
  simp

/-! ### Segments -/

section Segments

variable {members : Members} {segment name brackets : Text} {i : ℕ} {e : ElementName × Member}

/-- The member of a name. -/
theorem getElem?_of_getMemberIndex (h : getMemberIndex members name = some i) :
    ∃ e, members[i]? = some e ∧ e.1.val = name := by
  obtain ⟨hlt, hname, -⟩ := List.findIdx?_eq_some_iff_getElem.mp h
  exact ⟨members[i], List.getElem?_eq_getElem hlt, of_decide_eq_true hname⟩

/-- The names of members have no brackets. -/
theorem notMem_of_getMemberIndex (h : getMemberIndex members name = some i) {c : UInt8}
    (hc : isIdentifierChar c = false) : c ∉ name := by
  obtain ⟨e, -, rfl⟩ := getElem?_of_getMemberIndex h
  intro hmem
  exact Bool.false_ne_true (hc.symm.trans (e.1.2 c hmem))

/-- What is stored for a segment of which the member is known. -/
theorem buildSegment_eq (hi : getMemberIndex members (segmentName segment) = some i)
    (he : members[i]? = some e) :
    buildSegment members segment =
      match e.2, parseArrayIndexFromString segment with
      | .array lowerBound upperBound element, some arrayIndex =>
        if lowerBound ≤ arrayIndex ∧ arrayIndex ≤ upperBound then
          some (nextRoot members element, [toInt16 i, arrayIndex])
        else none
      | member, _ => some (nextRoot members member, [toInt16 i]) := by
  rw [buildSegment, hi, Option.bind_eq_bind, Option.bind_some, he, Option.bind_eq_bind,
    Option.bind_some]
  rfl

/-- Without an index it is only the position. -/
theorem buildSegment_of_parse_eq_none (hi : getMemberIndex members (segmentName segment) = some i)
    (he : members[i]? = some e) (hindex : parseArrayIndexFromString segment = none) :
    buildSegment members segment = some (nextRoot members e.2, [toInt16 i]) := by
  rw [buildSegment_eq hi he, hindex]
  cases e.2 <;> rfl

/-- **What is done for a segment** that is not refused. -/
theorem buildSegment_cases {next : Members} {stored : List ℤ}
    (h : buildSegment members segment = some (next, stored)) :
    ∃ i e, getMemberIndex members (segmentName segment) = some i ∧ members[i]? = some e ∧
      next = nextRoot members (addressed e.2 (parseArrayIndexFromString segment)) ∧
      (stored = [toInt16 i] ∨
        ∃ arrayIndex, parseArrayIndexFromString segment = some arrayIndex ∧
          stored = [toInt16 i, arrayIndex]) := by
  cases hi : getMemberIndex members (segmentName segment) with
  | none =>
    rw [buildSegment, hi] at h
    cases h
  | some i =>
    obtain ⟨e, he, -⟩ := getElem?_of_getMemberIndex hi
    refine ⟨i, e, rfl, he, ?_⟩
    rw [buildSegment_eq hi he] at h
    generalize parseArrayIndexFromString segment = index at h ⊢
    obtain ⟨name, member⟩ := e
    -- there is an index for an array only
    have hplain (h : some (nextRoot members member, [toInt16 i]) = some (next, stored))
        (haddressed : addressed member index = member) :
        next = nextRoot members (addressed member index) ∧ (stored = [toInt16 i] ∨
          ∃ arrayIndex, index = some arrayIndex ∧ stored = [toInt16 i, arrayIndex]) := by
      obtain ⟨rfl, rfl⟩ := Prod.mk.inj (Option.some.inj h)
      exact ⟨haddressed.symm ▸ rfl, .inl rfl⟩
    cases member with
    | elementary => exact hplain h rfl
    | struct inner => exact hplain h rfl
    | array lowerBound upperBound element =>
      cases index with
      | none => exact hplain h rfl
      | some arrayIndex =>
        dsimp only at h
        split at h
        · obtain ⟨rfl, rfl⟩ := Prod.mk.inj (Option.some.inj h)
          exact ⟨rfl, .inr ⟨arrayIndex, rfl, rfl⟩⟩
        · cases h

/-- A segment is refused for its name or for its index. -/
theorem buildSegment_eq_none_iff : buildSegment members segment = none ↔
    getMemberIndex members (segmentName segment) = none ∨
      ∃ i name lowerBound upperBound element arrayIndex,
        getMemberIndex members (segmentName segment) = some i ∧
        members[i]? = some (name, .array lowerBound upperBound element) ∧
        parseArrayIndexFromString segment = some arrayIndex ∧
        ¬(lowerBound ≤ arrayIndex ∧ arrayIndex ≤ upperBound) := by
  cases hi : getMemberIndex members (segmentName segment) with
  | none =>
    rw [buildSegment, hi]
    exact iff_of_true rfl (.inl rfl)
  | some i =>
    obtain ⟨⟨name, member⟩, he, -⟩ := getElem?_of_getMemberIndex hi
    rw [buildSegment_eq hi he]
    constructor
    · intro h
      split at h
      · rename_i lowerBound upperBound element arrayIndex hmember hindex
        split at h
        · cases h
        · rename_i hout
          obtain rfl : member = .array lowerBound upperBound element := hmember
          exact .inr ⟨i, name, _, _, _, _, rfl, he, hindex, hout⟩
      · cases h
    · rintro (h | ⟨j, name', lowerBound, upperBound, element, arrayIndex, hj, he', hindex, hout⟩)
      · cases h
      · obtain rfl := Option.some.inj hj
        obtain ⟨-, rfl⟩ := Prod.mk.inj (Option.some.inj (he.symm.trans he'))
        rw [hindex]
        exact if_neg hout

end Segments

/-- **Nothing is built of refused segments**, and of no others. -/
theorem positions_eq_none_iff {members : Members} {segments : List Text} :
    positions members segments = none ↔ Refused members segments := by
  constructor
  · intro h
    induction segments generalizing members with
    | nil => cases h
    | cons segment segments ih =>
      rw [positions] at h
      cases hbuild : buildSegment members segment with
      | none =>
        rcases buildSegment_eq_none_iff.mp hbuild with
          hname | ⟨i, name, _, _, _, _, hi, he, hindex, hout⟩
        · exact .unnamed hname
        · exact .outside hi he hindex hout
      | some next =>
        obtain ⟨next, stored⟩ := next
        obtain ⟨i, e, hi, he, hnext, -⟩ := buildSegment_cases hbuild
        rw [hbuild, Option.bind_some, Option.map_eq_none_iff] at h
        exact .later hi he (hnext ▸ ih h)
  · intro h
    induction h with
    | unnamed h =>
      rw [positions, buildSegment_eq_none_iff.mpr (.inl h)]
      rfl
    | outside hi he hindex hout =>
      rw [positions, buildSegment_eq_none_iff.mpr
        (.inr ⟨_, _, _, _, _, _, hi, he, hindex, hout⟩)]
      rfl
    | @later members segment segments i e hi he h ih =>
      rw [positions]
      cases hbuild : buildSegment members segment with
      | none => rfl
      | some next =>
        obtain ⟨next, stored⟩ := next
        obtain ⟨j, e', hj, he', hnext, -⟩ := buildSegment_cases hbuild
        obtain rfl := Option.some.inj (hi.symm.trans hj)
        obtain rfl := Option.some.inj (he.symm.trans he')
        rw [Option.bind_some, Option.map_eq_none_iff, hnext]
        exact ih

/-- Something is stored for every segment. -/
theorem ne_nil_of_positions {members : Members} {segments : List Text} {paIndexList : List ℤ}
    (h : positions members segments = some paIndexList) (hne : segments ≠ []) :
    paIndexList ≠ [] := by
  obtain ⟨segment, segments, rfl⟩ := List.exists_cons_of_ne_nil hne
  obtain ⟨next, stored, rest, hbuild, -, rfl⟩ := positions_cons h
  obtain ⟨i, e, -, -, -, rfl | ⟨index, -, rfl⟩⟩ := buildSegment_cases hbuild
  · exact List.cons_ne_nil _ _
  · exact List.cons_ne_nil _ _

/-! ### Indices that are read -/

section Reading

variable {name brackets : Text} {index : ℤ} {indices indices' : List ℤ}

theorem toInt16_eq (x : ℤ) : toInt16 x = (x + 32768) % 65536 - 32768 := rfl

/-- A text without an opening bracket has no index. -/
theorem parse_of_notMem (h : '['.toUInt8 ∉ name) : parseArrayIndexFromString name = none := by
  rw [parseArrayIndexFromString, List.idxOf?_eq_none_iff.mpr h]

theorem segmentName_of_notMem (h : '['.toUInt8 ∉ name) : segmentName name = name := by
  rw [segmentName, parse_of_notMem h]
  rfl

/-- A text up to a character. -/
theorem takeWhile_append_cons {c : UInt8} (h : c ∉ name) (rest : Text) :
    (name ++ c :: rest).takeWhile (· ≠ c) = name := by
  rw [List.takeWhile_append_of_pos, List.takeWhile_cons_of_neg (by simp), List.append_nil]
  intro d hd
  exact decide_eq_true (ne_of_mem_of_not_mem hd h)

/-- **The number of the first index is read**, up to the closing bracket, unless it has more than
32 bits; all but 16 of them are lost. -/
theorem parse_append (hname : '['.toUInt8 ∉ name) (h : Indices brackets (index :: indices)) :
    (parseArrayIndexFromString (name ++ brackets) = none ∨
      parseArrayIndexFromString (name ++ brackets) = some (toInt16 index)) ∧
    (toInt16 index = index → parseArrayIndexFromString (name ++ brackets) = some index) ∧
    (name ++ brackets).takeWhile (· ≠ '['.toUInt8) = name := by
  cases h with
  | @cons negative ds rest _ hds hne h =>
    have hfirst : (name ++ '['.toUInt8 :: (signed negative ds ++ ']'.toUInt8 :: rest)).idxOf?
        '['.toUInt8 = some name.length := by
      refine List.idxOf?_eq_some_iff.mpr ⟨by simp, by simp, fun j hj heq => hname ?_⟩
      rw [List.getElem_append_left hj] at heq
      exact heq ▸ List.getElem_mem hj
    obtain ⟨stop, hstop⟩ : ∃ stop, (name ++ '['.toUInt8 :: (signed negative ds ++
        ']'.toUInt8 :: rest)).idxOf? ']'.toUInt8 = some stop := by
      refine Option.ne_none_iff_exists'.mp fun hnone => ?_
      exact List.idxOf?_eq_none_iff.mp hnone (by simp)
    have hdrop : (name ++ '['.toUInt8 :: (signed negative ds ++ ']'.toUInt8 :: rest)).drop
        (name.length + 1) = signed negative ds ++ ']'.toUInt8 :: rest := by
      rw [← List.drop_drop, List.drop_left]
      rfl
    have hrest : isDigit (Text.at (']'.toUInt8 :: rest) 0) = false :=
      (by decide : isDigit ']'.toUInt8 = false)
    -- the 16 bits are the same before and after the conversion to 64 bits
    have hwrap : toInt16 (BitVec.ofInt 64 (signedValue negative ds)).toInt =
        toInt16 (signedValue negative ds) := by
      rw [toInt16_eq, toInt16_eq, BitVec.toInt_ofInt, Int.bmod_def]
      split <;> omega
    rw [parseArrayIndexFromString, hfirst, hstop]
    dsimp only
    rw [hdrop]
    refine ⟨?_, fun hsame => ?_, takeWhile_append_cons hname _⟩
    · rcases strtoSigned_eq negative (by decide : 32 ≤ 64) hds hne hrest with hread | hread
      · left
        rw [strtol, hread]
        rfl
      · right
        rw [strtol, hread]
        exact congrArg some hwrap
    · have hlimit : digitsValue 0 ds ≤ signedLimit 32 negative := by
        rw [toInt16_eq] at hsame
        cases negative with
        | true =>
          have hvalue : signedValue true ds = -(digitsValue 0 ds : ℤ) := rfl
          have hmax : signedLimit 32 true = 2 ^ 31 := rfl
          omega
        | false =>
          have hvalue : signedValue false ds = (digitsValue 0 ds : ℤ) := rfl
          have hmax : signedLimit 32 false = 2 ^ 31 - 1 := rfl
          omega
      have hread := strtoSigned_of_le (by decide : 32 ≤ 64) hds hne hrest hlimit
      rw [strtol, hread]
      exact congrArg some (hwrap.trans hsame)

end Reading

/-! ### The walk -/

/-- **Every index leads one step further** from where the walk is. -/
theorem walk_append {target target' : Target} {paIndexList : List ℤ}
    (h : walk target paIndexList = some (some target')) :
    ∃ q, target'.place = target.place ++ q ∧ q.length = paIndexList.length := by
  induction paIndexList generalizing target with
  | nil =>
    rw [walk] at h
    obtain rfl := Option.some.inj (Option.some.inj h)
    exact ⟨[], (List.append_nil _).symm, rfl⟩
  | cons index rest ih =>
    obtain ⟨place, member⟩ := target
    cases member with
    | elementary =>
      rw [walk] at h
      cases h
    | array lowerBound upperBound element =>
      rw [walk] at h
      split at h
      · obtain ⟨q, hq, hlength⟩ := ih h
        exact ⟨_ :: q, by rw [hq, List.append_assoc]; rfl, congrArg (· + 1) hlength⟩
      · cases h
    | struct members =>
      rw [walk] at h
      split at h
      · obtain ⟨q, hq, hlength⟩ := ih h
        exact ⟨_ :: q, by rw [hq, List.append_assoc]; rfl, congrArg (· + 1) hlength⟩
      · split at h
        · cases h
        · cases h

section Walk

variable {members : Members} {p q : List ℕ} {k : ℕ} {index lowerBound upperBound : ℤ}
variable {rest : List ℤ} {member element : Member}

/-- From a struct to the member at a position. -/
theorem walk_struct
    (h : walk ⟨p, .struct members⟩ (index :: rest) = some (some ⟨p ++ k :: q, member⟩)) :
    toSize index = k ∧ ∃ e, members[k]? = some e ∧
      walk ⟨p ++ [k], e.2⟩ rest = some (some ⟨p ++ [k] ++ q, member⟩) := by
  rw [walk] at h
  split at h
  · rename_i name inner he
    obtain ⟨q', hq', -⟩ := walk_append h
    have hplace : p ++ k :: q = p ++ [toSize index] ++ q' := hq'
    rw [List.append_assoc] at hplace
    obtain ⟨rfl, rfl⟩ := List.cons.inj (List.append_cancel_left hplace)
    refine ⟨rfl, ⟨name, inner⟩, he, ?_⟩
    rw [List.append_assoc]
    exact h
  · split at h
    · cases h
    · cases h

/-- From an array to the element at a position. -/
theorem walk_array (h : walk ⟨p, .array lowerBound upperBound element⟩ (index :: rest) =
      some (some ⟨p ++ k :: q, member⟩)) :
    lowerBound ≤ index ∧ (index - lowerBound).toNat = k ∧
      walk ⟨p ++ [k], element⟩ rest = some (some ⟨p ++ [k] ++ q, member⟩) := by
  rw [walk] at h
  split at h
  · rename_i hin
    obtain ⟨q', hq', -⟩ := walk_append h
    have hplace : p ++ k :: q = p ++ [(index - lowerBound).toNat] ++ q' := hq'
    rw [List.append_assoc] at hplace
    obtain ⟨rfl, rfl⟩ := List.cons.inj (List.append_cancel_left hplace)
    refine ⟨hin.1, rfl, ?_⟩
    rw [List.append_assoc]
    exact h
  · cases h

end Walk

/-! ### Paths that denote a member -/

theorem notMem_bracket {members : Members} {name : Text} {i : ℕ}
    (h : getMemberIndex members name = some i) : '['.toUInt8 ∉ name :=
  notMem_of_getMemberIndex h (by decide)

theorem Reaches.eq_nil {member member' : Member} {indices : List ℤ}
    (h : Reaches member indices [] member') : indices = [] ∧ member = member' := by
  cases h
  exact ⟨rfl, rfl⟩

/-- What is read of a segment with an index, if something is built of it. -/
theorem parse_of_buildSegment {members next : Members} {name brackets : Text} {index : ℤ}
    {indices stored : List ℤ} (hname : '['.toUInt8 ∉ name)
    (hbrackets : Indices brackets (index :: indices))
    (hbuild : buildSegment members (name ++ brackets) = some (next, stored)) :
    parseArrayIndexFromString (name ++ brackets) = some (toInt16 index) ∧
      segmentName (name ++ brackets) = name := by
  obtain ⟨hparse, -, htake⟩ := parse_append hname hbrackets
  rcases hparse with hnone | hsome
  · -- there is no such name
    obtain ⟨i, e, hi, -, -, -⟩ := buildSegment_cases hbuild
    rw [segmentName, hnone] at hi
    cases hbrackets
    exact absurd (List.mem_append_right _ List.mem_cons_self) (notMem_bracket hi)
  · refine ⟨hsome, ?_⟩
    rw [segmentName, hsome]
    exact htake

/-- **A segment that is walked to where it leads** is a plain one, if the segments behind it are
walked no further than they lead. -/
theorem Leads.plain {members next : Members} {segment : Text} {place p q : List ℕ}
    {member target : Member} {stored rest : List ℤ}
    (h : Leads anySegment members segment place member)
    (hbuild : buildSegment members segment = some (next, stored))
    (hlength : rest.length ≤ q.length)
    (hwalk : walk ⟨p, .struct members⟩ (stored ++ rest) = some (some ⟨p ++ (place ++ q), target⟩)) :
    Leads PlainSegment members segment place member ∧ next = nextRoot members member ∧
      walk ⟨p ++ place, member⟩ rest = some (some ⟨p ++ place ++ q, target⟩) := by
  obtain ⟨hbrackets, hi, he, hreaches, -⟩ := h
  rename_i name brackets indices i elementName named place
  have hname := notMem_bracket hi
  cases indices with
  | nil =>
    cases hbrackets
    cases hreaches
    rw [List.append_nil] at hbuild
    rw [buildSegment_of_parse_eq_none ((segmentName_of_notMem hname).symm ▸ hi) he
      (parse_of_notMem hname)] at hbuild
    obtain ⟨rfl, rfl⟩ := Prod.mk.inj (Option.some.inj hbuild)
    obtain ⟨hsame, e', he', hrest⟩ := walk_struct hwalk
    obtain rfl := Option.some.inj (he.symm.trans he')
    exact ⟨.intro .nil hi he .here ⟨hsame, Nat.zero_le _, fun index h => by cases h⟩, rfl, hrest⟩
  | cons index indices =>
    obtain ⟨hparse, hsegment⟩ := parse_of_buildSegment hname hbrackets hbuild
    rw [buildSegment_eq (hsegment.symm ▸ hi) he, hparse] at hbuild
    cases hreaches with
    | @element lowerBound upperBound _ element _ _ place hle hle' hreaches =>
      dsimp only at hbuild
      split at hbuild
      · obtain ⟨rfl, rfl⟩ := Prod.mk.inj (Option.some.inj hbuild)
        obtain ⟨hsame, e', he', hrest⟩ := walk_struct hwalk
        obtain rfl := Option.some.inj (he.symm.trans he')
        obtain ⟨hle'', hindex, hrest⟩ := walk_array hrest
        obtain ⟨q', hq', hlength'⟩ := walk_append hrest
        obtain rfl := List.append_cancel_left hq'
        have hsum : (place ++ q).length = rest.length := hlength'
        rw [List.length_append] at hsum
        obtain rfl : place = [] := List.length_eq_zero_iff.mp (by omega)
        obtain ⟨rfl, rfl⟩ := hreaches.eq_nil
        have hkept : toInt16 index = index := by omega
        refine ⟨.intro hbrackets hi he (.element hle hle' .here)
          ⟨hsame, le_rfl, fun v hv => ?_⟩, rfl, ?_⟩
        · rw [List.mem_singleton.mp hv]
          exact hkept
        · rw [List.append_assoc p] at hrest
          exact hrest
      · cases hbuild

/-- No more is stored for a segment than it has positions. -/
theorem Leads.length_stored_le {members members' next : Members} {segment : Text} {place : List ℕ}
    {member : Member} {stored : List ℤ} (h : Leads anySegment members segment place member)
    (hbuild : buildSegment members' segment = some (next, stored)) :
    stored.length ≤ place.length := by
  obtain ⟨hbrackets, hi, -, hreaches, -⟩ := h
  obtain ⟨j, e, -, -, -, rfl | ⟨arrayIndex, hparse, rfl⟩⟩ := buildSegment_cases hbuild
  · exact Nat.succ_le_succ (Nat.zero_le _)
  · cases hbrackets with
    | nil =>
      rw [List.append_nil, parse_of_notMem (notMem_bracket hi)] at hparse
      cases hparse
    | cons hds hne h =>
      cases hreaches
      exact Nat.succ_le_succ (Nat.succ_le_succ (Nat.zero_le _))

theorem Denotes.length_positions_le {members members' : Members} {segments : List Text}
    {place : List ℕ} {member : Member} {paIndexList : List ℤ}
    (h : Denotes anySegment members segments place member)
    (hpositions : positions members' segments = some paIndexList) :
    paIndexList.length ≤ place.length := by
  induction h generalizing members' paIndexList with
  | last h =>
    obtain ⟨next, stored, rest, hbuild, hrest, rfl⟩ := positions_cons hpositions
    obtain rfl := Option.some.inj hrest
    rw [List.append_nil]
    exact h.length_stored_le hbuild
  | through h hdenotes ih =>
    obtain ⟨next, stored, rest, hbuild, hrest, rfl⟩ := positions_cons hpositions
    rw [List.length_append, List.length_append]
    exact Nat.add_le_add (h.length_stored_le hbuild) (ih hrest)

/-- **A path that is walked to what it denotes** has plain segments. -/
theorem Denotes.plain {members : Members} {segments : List Text} {place p : List ℕ}
    {member : Member} {paIndexList : List ℤ}
    (h : Denotes anySegment members segments place member)
    (hpositions : positions members segments = some paIndexList)
    (hwalk : walk ⟨p, .struct members⟩ paIndexList = some (some ⟨p ++ place, member⟩)) :
    Denotes PlainSegment members segments place member := by
  induction h generalizing p paIndexList with
  | @last members segment place member h =>
    obtain ⟨next, stored, rest, hbuild, hrest, rfl⟩ := positions_cons hpositions
    obtain rfl := Option.some.inj hrest
    have hlength : ([] : List ℤ).length ≤ ([] : List ℕ).length := le_rfl
    have hend : p ++ place = p ++ (place ++ []) := by rw [List.append_nil]
    rw [hend] at hwalk
    exact .last (h.plain hbuild hlength hwalk).1
  | through h hdenotes ih =>
    obtain ⟨next, stored, rest, hbuild, hrest, rfl⟩ := positions_cons hpositions
    obtain ⟨hplain, rfl, hwalk⟩ := h.plain hbuild (hdenotes.length_positions_le hrest) hwalk
    exact .through hplain (ih hrest hwalk)

/-! ### Paths of plain segments -/

/-- **A plain segment** is walked to where it leads. -/
theorem Leads.built {members : Members} {segment : Text} {place : List ℕ} {member : Member}
    (h : Leads PlainSegment members segment place member) :
    ∃ stored, buildSegment members segment = some (nextRoot members member, stored) ∧
      ∀ p rest, walk ⟨p, .struct members⟩ (stored ++ rest) = walk ⟨p ++ place, member⟩ rest := by
  obtain ⟨hbrackets, hi, he, hreaches, hsame, hlength, hkept⟩ := h
  rename_i name brackets indices i elementName named place
  have hname := notMem_bracket hi
  have hstep (p : List ℕ) (rest : List ℤ) : walk ⟨p, .struct members⟩ (toInt16 i :: rest) =
      walk ⟨p ++ [i], named⟩ rest := by
    rw [walk, hsame, he]
  cases indices with
  | nil =>
    cases hbrackets
    cases hreaches
    rw [List.append_nil]
    exact ⟨_, buildSegment_of_parse_eq_none ((segmentName_of_notMem hname).symm ▸ hi) he
      (parse_of_notMem hname), hstep⟩
  | cons index indices =>
    obtain rfl : indices = [] := by
      rw [List.length_cons] at hlength
      exact List.length_eq_zero_iff.mp (by omega)
    have hindex := hkept index (List.mem_singleton_self index)
    obtain ⟨-, hparse, htake⟩ := parse_append hname hbrackets
    have hparse := hparse hindex
    have hsegment : segmentName (name ++ brackets) = name := by
      rw [segmentName, hparse]
      exact htake
    cases hreaches with
    | @element lowerBound upperBound _ element _ _ place hle hle' hreaches =>
      cases hreaches
      refine ⟨[toInt16 i, index], ?_, fun p rest => ?_⟩
      · rw [buildSegment_eq (hsegment.symm ▸ hi) he, hparse]
        exact if_pos ⟨hle, hle'⟩
      · refine (hstep p (index :: rest)).trans ?_
        rw [walk, if_pos ⟨hle, hle'⟩, List.append_assoc]
        rfl

/-- **A path of plain segments** is built, and walked to what it denotes. -/
theorem Denotes.built {members : Members} {segments : List Text} {place : List ℕ}
    {member : Member} (h : Denotes PlainSegment members segments place member) :
    ∃ paIndexList, positions members segments = some paIndexList ∧
      ∀ p, walk ⟨p, .struct members⟩ paIndexList = some (some ⟨p ++ place, member⟩) := by
  induction h with
  | last h =>
    obtain ⟨stored, hbuild, hwalk⟩ := h.built
    refine ⟨stored ++ [], ?_, fun p => ?_⟩
    · rw [positions, hbuild]
      rfl
    · rw [hwalk, walk]
  | through h hdenotes ih =>
    obtain ⟨stored, hbuild, hwalk⟩ := h.built
    obtain ⟨rest, hpositions, hrest⟩ := ih
    refine ⟨stored ++ rest, ?_, fun p => ?_⟩
    · rw [positions, hbuild, Option.bind_some]
      exact Option.map_eq_some_iff.mpr ⟨rest, hpositions, rfl⟩
    · rw [hwalk, hrest, List.append_assoc]

/-! ### There is one reading of a path -/

/-- The digits that are spelled, and the sign. -/
theorem signed_inj {negative negative' : Bool} {ds ds' : List ℕ} (hds : ∀ d ∈ ds, d < 10)
    (hds' : ∀ d ∈ ds', d < 10) (hne : ds ≠ []) (hne' : ds' ≠ [])
    (h : signed negative ds = signed negative' ds') : negative = negative' ∧ ds = ds' := by
  have hdigits {es : List ℕ} (hes : ∀ d ∈ es, d < 10) :
      (es.map digitChar).map charHexDigitToInt = es := by
    rw [List.map_map]
    exact (List.map_congr_left fun d hd => charHexDigitToInt_digitChar (hes d hd)).trans es.map_id
  have hhead {es : List ℕ} (hes : ∀ d ∈ es, d < 10) (hes' : es ≠ []) (rest : Text) :
      es.map digitChar ≠ '-'.toUInt8 :: rest := by
    obtain ⟨d, es, rfl⟩ := List.exists_cons_of_ne_nil hes'
    intro heq
    exact ne_of_isDigit (isDigit_digitChar (hes d List.mem_cons_self)) (by decide)
      (List.cons.inj heq).1
  cases negative with
  | true =>
    cases negative' with
    | true =>
      refine ⟨rfl, ?_⟩
      have hmap : ds.map digitChar = ds'.map digitChar := (List.cons.inj h).2
      rw [← hdigits hds, ← hdigits hds', hmap]
    | false => exact absurd h.symm (hhead hds' hne' _)
  | false =>
    cases negative' with
    | true => exact absurd h (hhead hds hne _)
    | false =>
      refine ⟨rfl, ?_⟩
      have hmap : ds.map digitChar = ds'.map digitChar := h
      rw [← hdigits hds, ← hdigits hds', hmap]

/-- A number up to the closing bracket. -/
theorem notMem_signed {negative : Bool} {ds : List ℕ} (hds : ∀ d ∈ ds, d < 10) :
    ']'.toUInt8 ∉ signed negative ds := by
  intro hmem
  rw [signed, List.mem_append, List.mem_map] at hmem
  rcases hmem with hsign | ⟨d, hd, heq⟩
  · cases negative
    · cases hsign
    · exact absurd hsign (by decide)
  · exact ne_of_isDigit (isDigit_digitChar (hds d hd)) (by decide) heq

theorem Indices.unique {brackets : Text} {indices indices' : List ℤ} (h : Indices brackets indices)
    (h' : Indices brackets indices') : indices = indices' := by
  induction h generalizing indices' with
  | nil =>
    cases h'
    rfl
  | @cons negative ds rest indices hds hne h ih =>
    generalize hbrackets :
      '['.toUInt8 :: (signed negative ds ++ ']'.toUInt8 :: rest) = brackets at h'
    cases h' with
    | nil => cases hbrackets
    | @cons negative' ds' rest' indices' hds' hne' h' =>
      have htail := (List.cons.inj hbrackets).2
      have hsigned := congrArg (List.takeWhile (· ≠ ']'.toUInt8)) htail
      rw [takeWhile_append_cons (notMem_signed hds), takeWhile_append_cons (notMem_signed hds')]
        at hsigned
      obtain ⟨rfl, rfl⟩ := signed_inj hds hds' hne hne' hsigned
      obtain rfl := (List.cons.inj (List.append_cancel_left htail)).2
      rw [ih h']

theorem Reaches.unique {member target target' : Member} {indices : List ℤ} {place place' : List ℕ}
    (h : Reaches member indices place target) (h' : Reaches member indices place' target') :
    place = place' ∧ target = target' := by
  induction h generalizing place' with
  | here =>
    cases h'
    exact ⟨rfl, rfl⟩
  | element hle hle' h ih =>
    cases h' with
    | element hle hle' h' =>
      obtain ⟨rfl, rfl⟩ := ih h'
      exact ⟨rfl, rfl⟩

theorem Leads.unique {allowed allowed' : ℕ → List ℤ → Prop} {members : Members} {segment : Text}
    {place place' : List ℕ} {member member' : Member}
    (h : Leads allowed members segment place member)
    (h' : Leads allowed' members segment place' member') : place = place' ∧ member = member' := by
  obtain ⟨hbrackets, hi, he, hreaches, -⟩ := h
  rename_i name brackets indices i elementName named place
  generalize hsegment : name ++ brackets = segment at h'
  obtain ⟨hbrackets', hi', he', hreaches', -⟩ := h'
  rename_i name' brackets' indices' i' elementName' named' place'
  have hname := notMem_bracket hi
  have hname' := notMem_bracket hi'
  -- the name is what is in front of the first bracket
  have htake {name brackets : Text} {indices : List ℤ} (hname : '['.toUInt8 ∉ name)
      (h : Indices brackets indices) :
      (name ++ brackets).takeWhile (· ≠ '['.toUInt8) = name := by
    cases h with
    | nil =>
      rw [List.append_nil, List.takeWhile_eq_self_iff]
      exact fun c hc => decide_eq_true (ne_of_mem_of_not_mem hc hname)
    | cons hds hne h => exact takeWhile_append_cons hname _
  have heq := congrArg (List.takeWhile (· ≠ '['.toUInt8)) hsegment
  rw [htake hname hbrackets, htake hname' hbrackets'] at heq
  subst heq
  obtain rfl := List.append_cancel_left hsegment
  obtain rfl := hbrackets.unique hbrackets'
  obtain rfl := Option.some.inj (hi.symm.trans hi')
  obtain ⟨-, rfl⟩ := Prod.mk.inj (Option.some.inj (he.symm.trans he'))
  obtain ⟨rfl, rfl⟩ := hreaches.unique hreaches'
  exact ⟨rfl, rfl⟩

/-- **A path denotes one member.** -/
theorem Denotes.unique {allowed allowed' : ℕ → List ℤ → Prop} {members : Members}
    {segments : List Text} {place place' : List ℕ} {member member' : Member}
    (h : Denotes allowed members segments place member)
    (h' : Denotes allowed' members segments place' member') :
    place = place' ∧ member = member' := by
  induction h generalizing place' with
  | last h =>
    cases h' with
    | last h' => exact h.unique h'
    | through h' hrest => cases hrest
  | through h hdenotes ih =>
    cases h' with
    | last h' => cases hdenotes
    | through h' hrest =>
      obtain ⟨rfl, hinner⟩ := h.unique h'
      obtain rfl := Member.struct.inj hinner
      obtain ⟨rfl, rfl⟩ := ih hrest
      exact ⟨rfl, rfl⟩

/-- More may be allowed of segments. -/
theorem Denotes.of_plain {members : Members} {segments : List Text} {place : List ℕ}
    {member : Member} (h : Denotes PlainSegment members segments place member) :
    Denotes anySegment members segments place member := by
  have hleads {members : Members} {segment : Text} {place : List ℕ} {member : Member} :
      Leads PlainSegment members segment place member →
        Leads anySegment members segment place member := by
    rintro ⟨hbrackets, hi, he, hreaches, -⟩
    exact .intro hbrackets hi he hreaches trivial
  induction h with
  | last h => exact .last (hleads h)
  | through h _ ih => exact .through (hleads h) ih

/-! ### What is met -/

/-- **When a path is dealt with as it is to be**: it denotes a member with plain segments, or it
denotes none and is refused. -/
def Exact (paRoot : Members) (path : Text) : Prop :=
  (∃ place member, Denotes PlainSegment paRoot (segments path) place member) ∨
    Refused paRoot (segments path) ∧
      ¬∃ place member, Denotes anySegment paRoot (segments path) place member

/-- **Addressing members of structs**, for every struct and every path. -/
theorem paths_iff (paRoot : Members) (path : Text) : Meets paRoot path ↔ Exact paRoot path := by
  have hbuild := buildIndexList_eq paRoot path
  constructor
  · rintro ⟨paIndexList, hlist, hiff, htarget⟩
    rw [hbuild] at hlist
    by_cases hdenotes : ∃ place member, Denotes anySegment paRoot (segments path) place member
    · obtain ⟨place, member, h⟩ := hdenotes
      have hne := hiff.mpr ⟨place, member, h⟩
      cases hpositions : positions paRoot (segments path) with
      | none =>
        rw [hpositions] at hlist
        exact absurd (Option.some.inj hlist).symm hne
      | some l =>
        rw [hpositions] at hlist
        obtain rfl : l = paIndexList := Option.some.inj hlist
        have hwalk := htarget place member h
        rw [getTargetByIndex, if_neg hne] at hwalk
        exact .inl ⟨place, member, h.plain (p := []) hpositions hwalk⟩
    · refine .inr ⟨positions_eq_none_iff.mp ?_, hdenotes⟩
      have hnil : paIndexList = [] := not_not.mp (mt hiff.mp hdenotes)
      cases hpositions : positions paRoot (segments path) with
      | none => rfl
      | some l =>
        rw [hpositions] at hlist
        obtain rfl : l = paIndexList := Option.some.inj hlist
        exact absurd hnil (ne_nil_of_positions hpositions (segments_ne_nil path))
  · rintro (⟨place, member, h⟩ | ⟨hrefused, hnot⟩)
    · obtain ⟨paIndexList, hpositions, hwalk⟩ := h.built
      have hne := ne_nil_of_positions hpositions (segments_ne_nil path)
      rw [hpositions] at hbuild
      refine ⟨paIndexList, hbuild, iff_of_true hne ⟨place, member, h.of_plain⟩, ?_⟩
      intro place' member' h'
      obtain ⟨rfl, rfl⟩ := h.unique h'
      rw [getTargetByIndex, if_neg hne]
      exact hwalk []
    · rw [positions_eq_none_iff.mpr hrefused] at hbuild
      refine ⟨[], hbuild, iff_of_false (fun h => h rfl) hnot, fun place member h => ?_⟩
      exact absurd ⟨place, member, h⟩ hnot

/-- Two elementary members. -/
def twoMembers : Members :=
  [(⟨text "x", List.all_eq_true.mp rfl⟩, .elementary),
    (⟨text "y", List.all_eq_true.mp rfl⟩, .elementary)]

/-- An element of an array of structs, of which a member is addressed. -/
def withArray : Members :=
  [(⟨text "list", List.all_eq_true.mp rfl⟩, .array (-1) 3 (.struct twoMembers))]

/-- The second member of an element. -/
theorem paths_withArray : Meets withArray (text "list[-1]. y") := by
  have hfirst : Leads PlainSegment withArray (text "list" ++ text "[-1]") [0, 0]
      (.struct twoMembers) :=
    .intro (@Indices.cons true [1] _ _ (by decide) (by decide) .nil) rfl rfl
      (.element (by decide) (by decide) .here) (by decide)
  have hsecond : Leads PlainSegment twoMembers (text "y" ++ []) [1] .elementary :=
    .intro .nil rfl rfl .here (by decide)
  have hpath : Denotes PlainSegment withArray [text "list[-1]", text "y"] _ _ :=
    .through hfirst (.last hsecond)
  exact (paths_iff withArray (text "list[-1]. y")).mpr (.inl ⟨_, _, hpath⟩)

/-- The path goes on behind an elementary member. -/
theorem not_paths_elementary : ¬∀ (paRoot : Members) (path : Text), Meets paRoot path := by
  intro h
  obtain ⟨paIndexList, hlist, hiff, -⟩ := h twoMembers (text "x.y")
  have hbuild : buildIndexList twoMembers (text "x.y") = some [0, 1] := by decide
  obtain rfl := Option.some.inj (hbuild.symm.trans hlist)
  obtain ⟨place, member, hdenotes⟩ := hiff.mp (List.cons_ne_nil _ _)
  have hsegments : segments (text "x.y") = [text "x", text "y"] := by decide
  rw [hsegments] at hdenotes
  cases hdenotes with
  | through hleads hrest =>
    generalize hinner : Member.struct _ = inner at hleads
    generalize text "x" = segment at hleads
    obtain ⟨hbrackets, hi, he, hreaches, -⟩ := hleads
    rename_i named _
    -- there is no struct in the struct
    have hnamed : named = .elementary := by
      have hmem := List.mem_of_getElem? he
      rw [twoMembers] at hmem
      simp only [List.mem_cons, List.not_mem_nil, or_false] at hmem
      rcases hmem with hmem | hmem
      · exact (Prod.mk.inj hmem).2
      · exact (Prod.mk.inj hmem).2
    subst hnamed
    cases hreaches
    cases hinner

end Forte.StructMember
