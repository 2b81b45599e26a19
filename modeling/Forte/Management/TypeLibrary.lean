import Forte.Management.Creation

/-!
# Looking up types

The type library is filled by static initializers in any order and kept sorted by the ids of the
names, which are addresses. A type that is not in it may be a configuration of a generic one: its
name then goes on with an underscore and a digit, and what is looked up is the name up to there,
with `GEN_` between the package and the rest.

The underscore is searched for in the whole name, from its second character on, and the package
only up to the underscore. A package with an underscore and a digit in it, or a name without a
package that begins with them, therefore leads to another name. Behind an underscore at the end
the search reads one character more than the name has. `Forte.Firmware.lookup_iff` says for which
names the right type is found in every library.
-/

namespace Forte

namespace Firmware

/-! ### The type library -/

/-- The library after these types have been registered, one after the other, by
`sortedTypeEntryInsert`. Their names are interned. -/
def registered (f : Firmware) (entries : List {e : CFBTypeEntry // f.address e.mTypeNameId ≠ 0}) :
    Firmware :=
  { f with
    fbTypeLib := entries.foldl (fun paTypeLib paTypeEntry =>
      Table.insertAbsent (fun e => f.address e.mTypeNameId) paTypeEntry.val paTypeLib) [] }

/-- The loop of `getFirstNonTypeNameUnderscorePos`, with a bound on its rounds: the position it
ends with, or nothing if it reads behind the name. -/
def underscoreLoop (paTypeName : List Char) : ℕ → ℕ → Option (Option ℕ)
  | 0, _ => none
  | bound + 1, result =>
    match (List.range paTypeName.length).find? fun i =>
        result + 1 ≤ i && paTypeName[i]? = some '_' with
    | none => some none
    | some result =>
      match paTypeName[result + 1]? with
      | none => none
      | some c => if c.isDigit then some (some result) else underscoreLoop paTypeName bound result

/-- The `genFBName` that is made of a name and the position of the underscore. -/
def genFBNameAt (name : List Char) (underScore : Option ℕ) : List Char :=
  let underScore := underScore.getD name.length
  match lastPackageSeparator name underScore with
  | some pos => name.take (pos + 2) ++ "GEN_".toList ++ (name.take underScore).drop (pos + 2)
  | none => "GEN_".toList ++ name.take underScore

theorem genFBName_eq (name : StringId) : genFBName name =
    String.ofList (genFBNameAt name.toList (getFirstNonTypeNameUnderscorePos name.toList)) := by
  rcases hpos : lastPackageSeparator name.toList
    ((getFirstNonTypeNameUnderscorePos name.toList).getD name.toList.length) with - | pos
  · simp only [genFBName, genFBNameAt, hpos]
  · simp only [genFBName, genFBNameAt, hpos]

/-- `getFBTypeEntry`; nothing if it reads behind the name. -/
def getFBTypeEntry (f : Firmware) (paTypeNameId : StringId) : Option (Option CFBTypeEntry) :=
  match f.findTypeEntry paTypeNameId with
  | some entry => some (some entry)
  | none =>
    let name := paTypeNameId.toList
    (underscoreLoop name (name.length + 1) 0).map fun underScore =>
      f.findTypeEntry (String.ofList (genFBNameAt name underScore))

/-! ### What is looked for -/

/-- There is an underscore with a digit behind it. -/
def Marked (name : List Char) (i : ℕ) : Prop :=
  name[i]? = some '_' ∧ name[i + 1]?.any Char.isDigit = true

instance (name : List Char) (i : ℕ) : Decidable (Marked name i) :=
  inferInstanceAs (Decidable (name[i]? = some '_' ∧ name[i + 1]?.any Char.isDigit = true))

/-- The part of an unqualified name before the first underscore that is directly followed by a
digit, or all of it. -/
def base : List Char → List Char
  | [] => []
  | c :: rest => if c = '_' ∧ rest.head?.any Char.isDigit then [] else c :: base rest

/-- The name of the generic type: `GEN_` and the base, behind the package if there is one. -/
def genericName (name : List Char) : List Char :=
  match lastPackageSeparator name name.length with
  | some pos => name.take (pos + 2) ++ "GEN_".toList ++ base (name.drop (pos + 2))
  | none => "GEN_".toList ++ base name

/-- **The entry for a name**: the first one that was registered with it, otherwise the first one
that was registered with the name of the generic type. -/
def entryFor (entries : List CFBTypeEntry) (name : StringId) : Option CFBTypeEntry :=
  (entries.find? fun e => e.mTypeNameId = name).or
    (entries.find? fun e => e.mTypeNameId = String.ofList (genericName name.toList))

/-- The search does not come to an underscore at the end of the name. -/
def Readable (name : List Char) : Prop :=
  name.length ≤ 1 ∨ name.getLast? ≠ some '_' ∨ ∃ i < name.length, 0 < i ∧ Marked name i

/-- The package has no underscore with a digit behind it, its first character aside; a name
without a package does not begin with them. -/
def Delimited (name : List Char) : Prop :=
  match lastPackageSeparator name name.length with
  | some pos => ∀ i < pos, 0 < i → ¬Marked name i
  | none => ¬Marked name 0

/-! ### The library as a list -/

theorem findTypeEntry_registered (f : Firmware)
    (entries : List {e : CFBTypeEntry // f.address e.mTypeNameId ≠ 0}) (name : StringId) :
    (f.registered entries).findTypeEntry name =
      (entries.map Subtype.val).find? fun e => e.mTypeNameId = name := by
  -- the induction needs the library the registrations start from
  have hfold (lib : List CFBTypeEntry)
      (hlib : Table.Sorted (fun e : CFBTypeEntry => f.address e.mTypeNameId) lib) :
      Table.find? (fun e : CFBTypeEntry => f.address e.mTypeNameId) (f.address name)
          (entries.foldl (fun paTypeLib paTypeEntry => Table.insertAbsent
            (fun e => f.address e.mTypeNameId) paTypeEntry.val paTypeLib) lib) =
        (Table.find? (fun e : CFBTypeEntry => f.address e.mTypeNameId) (f.address name) lib).or
          ((entries.map Subtype.val).find? fun e => e.mTypeNameId = name) := by
    induction entries generalizing lib with
    | nil => exact (Option.or_none).symm
    | cons entry entries ih =>
      rw [List.foldl_cons, ih _ (hlib.insertAbsent entry.val), Table.find?_insertAbsent hlib,
        Option.or_assoc, List.map_cons, List.find?_cons]
      congr 1
      by_cases hname : entry.val.mTypeNameId = name
      · rw [if_pos (congrArg f.address hname), decide_eq_true hname]
        rfl
      · have hne : f.address entry.val.mTypeNameId ≠ f.address name := fun heq =>
          hname (f.address_inj heq entry.2)
        rw [if_neg hne, decide_eq_false hname]
        rfl
  exact hfold [] List.Pairwise.nil

/-! ### The underscore -/

section

variable {name : List Char}

theorem Marked.lt_length {i : ℕ} (h : Marked name i) : i + 1 < name.length := by
  by_contra hge
  have hnone : name[i + 1]? = none := List.getElem?_eq_none (by omega)
  have hdigit := h.2
  rw [hnone] at hdigit
  exact Bool.false_ne_true hdigit

theorem getFirstNonTypeNameUnderscorePos_eq_some_iff {i : ℕ} :
    getFirstNonTypeNameUnderscorePos name = some i ↔
      0 < i ∧ Marked name i ∧ ∀ j < i, 0 < j → ¬Marked name j := by
  rw [getFirstNonTypeNameUnderscorePos, List.find?_range_eq_some]
  simp only [Bool.and_eq_true, decide_eq_true_eq, List.mem_range, Bool.not_eq_true',
    Bool.eq_false_iff, ne_eq, not_and, and_imp]
  constructor
  · rintro ⟨⟨⟨hpos, hunder⟩, hdigit⟩, -, hfirst⟩
    exact ⟨hpos, ⟨hunder, hdigit⟩, fun j hj hj' hmarked => hfirst j hj hj' hmarked.1 hmarked.2⟩
  · rintro ⟨hpos, hmarked, hfirst⟩
    exact ⟨⟨⟨hpos, hmarked.1⟩, hmarked.2⟩, by have := hmarked.lt_length; omega,
      fun j hj hj' hunder hdigit => hfirst j hj hj' ⟨hunder, hdigit⟩⟩

theorem getFirstNonTypeNameUnderscorePos_eq_none_iff :
    getFirstNonTypeNameUnderscorePos name = none ↔ ∀ i, 0 < i → ¬Marked name i := by
  rw [getFirstNonTypeNameUnderscorePos, List.find?_range_eq_none]
  simp only [Bool.and_eq_true, decide_eq_true_eq, Bool.not_eq_true', Bool.eq_false_iff, ne_eq,
    not_and, and_imp]
  constructor
  · intro h i hpos hmarked
    exact h i (by have := hmarked.lt_length; omega) hpos hmarked.1 hmarked.2
  · intro h i _ hpos hunder hdigit
    exact h i hpos ⟨hunder, hdigit⟩

/-- A name whose underscores are not behind some place can be read, unless this is its last. -/
theorem readable_of_last {result : ℕ} (hresult : result = 0 ∨ result + 1 < name.length)
    (hleft : ∀ i, result < i → name[i]? ≠ some '_') : Readable name := by
  rcases Nat.lt_or_ge 1 name.length with hlong | hshort
  · refine .inr (.inl ?_)
    rw [List.getLast?_eq_getElem?]
    exact hleft _ (by omega)
  · exact .inl hshort

/-- A name that ends with an underscore cannot be read if no other one has a digit behind it. -/
theorem not_readable_of_last {r : ℕ} (hend : r + 1 = name.length) (hpos : 0 < r)
    (hunder : name[r]? = some '_') (hbefore : ∀ i < r, 0 < i → ¬Marked name i) :
    ¬Readable name := by
  rintro (hshort | hlast | ⟨i, -, hpos', hmarked⟩)
  · omega
  · rw [List.getLast?_eq_getElem?, ← hend, Nat.add_sub_cancel] at hlast
    exact hlast hunder
  · exact hbefore i (by have := hmarked.lt_length; omega) hpos' hmarked

/-- **The search** finds the first underscore with a digit behind it, unless it reads behind the
name. -/
theorem underscoreLoop_eq (bound result : ℕ) (hbound : name.length < bound + result)
    (hresult : result = 0 ∨ result + 1 < name.length)
    (hbefore : ∀ i ≤ result, 0 < i → ¬Marked name i) :
    (Readable name → underscoreLoop name bound result =
      some (getFirstNonTypeNameUnderscorePos name)) ∧
    (¬Readable name → underscoreLoop name bound result = none) := by
  induction bound generalizing result with
  | zero => omega
  | succ bound ih =>
    rw [underscoreLoop]
    split
    · -- no underscore is left, and the last character is none
      rename_i hnone
      simp only [List.find?_range_eq_none, Bool.not_eq_true', Bool.and_eq_false_iff,
        decide_eq_false_iff_not, not_le] at hnone
      have hleft (i : ℕ) (hi : result < i) : name[i]? ≠ some '_' := by
        intro hunder
        have hlt := (List.getElem?_eq_some_iff.mp hunder).1
        rcases hnone i hlt with hle | hne
        · omega
        · exact hne hunder
      have hreadable := readable_of_last hresult hleft
      refine ⟨fun _ => ?_, fun hnot => absurd hreadable hnot⟩
      refine congrArg some (getFirstNonTypeNameUnderscorePos_eq_none_iff.mpr ?_).symm
      intro i hpos hmarked
      rcases Nat.lt_or_ge result i with hlt | hle
      · exact hleft i hlt hmarked.1
      · exact hbefore i hle hpos hmarked
    · rename_i r hsome
      simp only [List.find?_range_eq_some, Bool.and_eq_true, decide_eq_true_eq, List.mem_range,
        Bool.not_eq_true', Bool.and_eq_false_iff, decide_eq_false_iff_not, not_le] at hsome
      obtain ⟨⟨hle, hunder⟩, hlt, hfirst⟩ := hsome
      -- there is no other one up to this one
      have hnew (i : ℕ) (hi : i < r) (hpos : 0 < i) : ¬Marked name i := by
        intro hmarked
        rcases Nat.lt_or_ge result i with hbehind | hle'
        · rcases hfirst i hi with hless | hne
          · omega
          · exact hne hmarked.1
        · exact hbefore i hle' hpos hmarked
      rcases hnext : name[r + 1]? with - | c
      · have hend : r + 1 = name.length := by
          have := List.getElem?_eq_none_iff.mp hnext
          omega
        exact ⟨fun hreadable => absurd hreadable
          (not_readable_of_last hend (by omega) hunder hnew), fun _ => rfl⟩
      · by_cases hdigit : c.isDigit = true
        · have hmarked : Marked name r := ⟨hunder, by rw [hnext]; exact hdigit⟩
          have hreadable : Readable name := .inr (.inr ⟨r, hlt, by omega, hmarked⟩)
          refine ⟨fun _ => ?_, fun hnot => absurd hreadable hnot⟩
          rw [getFirstNonTypeNameUnderscorePos_eq_some_iff.mpr ⟨by omega, hmarked, hnew⟩]
          exact if_pos hdigit
        · have hnot : ¬Marked name r := by
            intro hmarked
            have h := hmarked.2
            rw [hnext] at h
            exact hdigit h
          have hlong := (List.getElem?_eq_some_iff.mp hnext).1
          dsimp only
          rw [if_neg hdigit]
          refine ih r (by omega) (.inr hlong) fun i hi hpos => ?_
          rcases Nat.lt_or_eq_of_le hi with hless | rfl
          · exact hnew i hless hpos
          · exact hnot

/-! ### The package -/

/-- There is a separator of packages. -/
def Separates (name : List Char) (i : ℕ) : Prop := name[i]? = some ':' ∧ name[i + 1]? = some ':'

theorem Separates.lt_length {i : ℕ} (h : Separates name i) : i + 1 < name.length :=
  (List.getElem?_eq_some_iff.mp h.2).1

theorem Separates.not_marked {i : ℕ} (h : Separates name i) :
    ¬Marked name i ∧ ¬Marked name (i + 1) := by
  constructor
  · intro hmarked
    exact absurd (Option.some.inj (h.1.symm.trans hmarked.1)) (by decide)
  · intro hmarked
    exact absurd (Option.some.inj (h.2.symm.trans hmarked.1)) (by decide)

theorem lastPackageSeparator_eq_some_iff {pos i : ℕ} :
    lastPackageSeparator name pos = some i ↔
      i ≤ pos ∧ Separates name i ∧ ∀ j ≤ pos, i < j → ¬Separates name j := by
  -- induction on the number of positions still to be looked at
  have hlast (n : ℕ) : ((List.range n).reverse.find? fun i =>
      name[i]? = some ':' && name[i + 1]? = some ':') = some i ↔
        i < n ∧ Separates name i ∧ ∀ j < n, i < j → ¬Separates name j := by
    induction n with
    | zero => simp
    | succ n ih =>
      rw [List.range_succ, List.reverse_append, List.reverse_singleton, List.singleton_append,
        List.find?_cons]
      by_cases hsep : Separates name n
      · rw [show (decide (name[n]? = some ':') && decide (name[n + 1]? = some ':')) = true by
          simpa [Separates] using hsep]
        constructor
        · rintro ⟨⟩
          exact ⟨Nat.lt_succ_self _, hsep, fun j hj hlt => by omega⟩
        · rintro ⟨hlt, -, hnone⟩
          rcases Nat.lt_succ_iff_lt_or_eq.mp hlt with hless | rfl
          · exact absurd hsep (hnone n (Nat.lt_succ_self n) hless)
          · rfl
      · rw [show (decide (name[n]? = some ':') && decide (name[n + 1]? = some ':')) = false by
          simpa [Separates] using hsep]
        refine ih.trans ⟨?_, ?_⟩
        · rintro ⟨hlt, hi, hnone⟩
          refine ⟨hlt.trans (Nat.lt_succ_self n), hi, fun j hj hij => ?_⟩
          rcases Nat.lt_succ_iff_lt_or_eq.mp hj with hless | rfl
          · exact hnone j hless hij
          · exact hsep
        · rintro ⟨hlt, hi, hnone⟩
          refine ⟨?_, hi, fun j hj => hnone j (hj.trans (Nat.lt_succ_self n))⟩
          rcases Nat.lt_succ_iff_lt_or_eq.mp hlt with hless | rfl
          · exact hless
          · exact absurd hi hsep
  simp only [lastPackageSeparator, hlast, Nat.lt_succ_iff]

theorem lastPackageSeparator_eq_none_iff {pos : ℕ} :
    lastPackageSeparator name pos = none ↔ ∀ i ≤ pos, ¬Separates name i := by
  simp [lastPackageSeparator, Separates, Nat.lt_succ_iff]

/-! ### The name of the generic type -/

theorem base_eq_take {n : ℕ} (hbefore : ∀ i < n, ¬Marked name i)
    (hend : n = name.length ∨ Marked name n) : base name = name.take n := by
  induction name generalizing n with
  | nil => simp [base]
  | cons c rest ih =>
    have hfirst : Marked (c :: rest) 0 ↔ c = '_' ∧ rest.head?.any Char.isDigit = true := by
      rw [Marked, List.getElem?_cons_zero, List.getElem?_cons_succ, ← List.head?_eq_getElem?,
        Option.some_inj]
    rcases n with - | n
    · have hmarked := hend.resolve_left (by simp)
      rw [base, if_pos (hfirst.mp hmarked), List.take_zero]
    · have hnot : ¬Marked (c :: rest) 0 := hbefore 0 (Nat.succ_pos n)
      rw [base, if_neg fun h => hnot (hfirst.mpr h), List.take_succ_cons]
      refine congrArg (c :: ·) (ih (fun i hi => hbefore (i + 1) (Nat.succ_lt_succ hi)) ?_)
      exact hend.imp_left Nat.succ.inj

theorem marked_drop {k i : ℕ} : Marked (name.drop k) i ↔ Marked name (k + i) := by
  rw [Marked, List.getElem?_drop, List.getElem?_drop, Marked, Nat.add_assoc]

/-- Where the name of the generic type ends. -/
structure Stops (name : List Char) (u : ℕ) : Prop where
  le : u ≤ name.length
  pos : name ≠ [] → 0 < u
  last : u = name.length ∨ Marked name u
  first : ∀ i < u, 0 < i → ¬Marked name i

theorem stops_underscorePos (name : List Char) :
    Stops name ((getFirstNonTypeNameUnderscorePos name).getD name.length) := by
  rcases hpos : getFirstNonTypeNameUnderscorePos name with - | u
  · exact ⟨le_refl _, List.length_pos_iff.mpr, .inl rfl,
      fun i _ => getFirstNonTypeNameUnderscorePos_eq_none_iff.mp hpos i⟩
  · obtain ⟨hu, hmarked, hfirst⟩ := getFirstNonTypeNameUnderscorePos_eq_some_iff.mp hpos
    exact ⟨by have := hmarked.lt_length; simp only [Option.getD_some]; omega, fun _ => hu,
      .inr hmarked, hfirst⟩

/-- A separator up to there ends before. -/
theorem Stops.of_separates {u i : ℕ} (h : Stops name u) (hi : Separates name i) (hle : i ≤ u) :
    i + 2 ≤ u := by
  obtain ⟨hnot, hnot'⟩ := hi.not_marked
  rcases h.last with rfl | hmarked
  · exact hi.lt_length
  · by_contra hlt
    rcases Nat.eq_or_lt_of_le hle with rfl | hless
    · exact hnot hmarked
    · obtain rfl : u = i + 1 := by omega
      exact hnot' hmarked

theorem length_genFBNameAt (name : List Char) :
    (genFBNameAt name (getFirstNonTypeNameUnderscorePos name)).length =
      (getFirstNonTypeNameUnderscorePos name).getD name.length + 4 := by
  have hstops := stops_underscorePos name
  rw [genFBNameAt]
  set u := (getFirstNonTypeNameUnderscorePos name).getD name.length
  have hgen : "GEN_".toList.length = 4 := rfl
  split
  · rename_i pos hpos
    obtain ⟨hle, hsep, -⟩ := lastPackageSeparator_eq_some_iff.mp hpos
    have htwo := hstops.of_separates hsep hle
    have hlength := hstops.le
    rw [List.length_append, List.length_append, List.length_take, List.length_drop,
      List.length_take, hgen]
    omega
  · have hlength := hstops.le
    rw [List.length_append, List.length_take, hgen]
    omega

/-- **The generic type is looked for under its name** if the package and the rest are delimited. -/
theorem genFBNameAt_eq (h : Delimited name) :
    genFBNameAt name (getFirstNonTypeNameUnderscorePos name) = genericName name := by
  have hstops := stops_underscorePos name
  rw [genFBNameAt, genericName]
  rw [Delimited] at h
  set u := (getFirstNonTypeNameUnderscorePos name).getD name.length
  rcases hpos : lastPackageSeparator name name.length with - | pos
  · rw [hpos] at h
    have hnone : lastPackageSeparator name u = none :=
      lastPackageSeparator_eq_none_iff.mpr fun i hi =>
        lastPackageSeparator_eq_none_iff.mp hpos i (hi.trans hstops.le)
    have hbase : base name = name.take u := base_eq_take (fun i hi => by
      rcases Nat.eq_zero_or_pos i with rfl | hpos'
      · exact h
      · exact hstops.first i hi hpos') hstops.last
    rw [hnone, hbase]
  · rw [hpos] at h
    obtain ⟨-, hsep, hlast⟩ := lastPackageSeparator_eq_some_iff.mp hpos
    -- the underscore search stops behind the last package
    have hle : pos ≤ u := by
      by_contra hlt
      rcases hstops.last with heq | hmarked
      · have := hsep.lt_length
        omega
      · refine h u (by omega) (hstops.pos ?_) hmarked
        rintro hnil
        rw [hnil] at hsep
        exact absurd hsep.lt_length (by simp)
    have htwo := hstops.of_separates hsep hle
    have hsame : lastPackageSeparator name u = some pos := lastPackageSeparator_eq_some_iff.mpr
      ⟨hle, hsep, fun j hj => hlast j (hj.trans hstops.le)⟩
    -- behind the package the same underscore ends the name, counted from there
    have hbase : base (name.drop (pos + 2)) = (name.drop (pos + 2)).take (u - (pos + 2)) := by
      refine base_eq_take (fun i hi => ?_) ?_
      · rw [marked_drop]
        exact hstops.first _ (by omega) (by omega)
      · rw [marked_drop, List.length_drop]
        rcases hstops.last with heq | hmarked
        · exact .inl (by omega)
        · exact .inr (by rwa [Nat.add_sub_cancel' htwo])
    rw [hsame]
    dsimp only
    rw [hbase, List.drop_take]

/-- **Otherwise it is another name.** -/
theorem genFBNameAt_ne (h : ¬Delimited name) :
    genFBNameAt name (getFirstNonTypeNameUnderscorePos name) ≠ genericName name := by
  intro heq
  have hlength := congrArg List.length heq
  have hstops := stops_underscorePos name
  have hgen : "GEN_".toList.length = 4 := rfl
  rw [length_genFBNameAt, genericName] at hlength
  rw [Delimited] at h
  set u := (getFirstNonTypeNameUnderscorePos name).getD name.length
  rcases hpos : lastPackageSeparator name name.length with - | pos
  · rw [hpos] at h hlength
    have hmarked := not_not.mp h
    -- the underscore starts the name, and the search for one begins behind it
    have hnil : base name = [] := base_eq_take (fun i hi => absurd hi (Nat.not_lt_zero i))
      (.inr hmarked)
    have hu := hstops.pos fun hnil' => by
      rw [hnil'] at hmarked
      exact absurd hmarked.lt_length (by simp)
    dsimp only at hlength
    rw [hnil, List.append_nil, hgen] at hlength
    omega
  · rw [hpos] at h hlength
    obtain ⟨-, hsep, -⟩ := lastPackageSeparator_eq_some_iff.mp hpos
    have hlt := hsep.lt_length
    dsimp only at h hlength
    obtain ⟨i, hi⟩ := not_forall.mp h
    rw [Classical.not_imp, Classical.not_imp, not_not] at hi
    obtain ⟨hi, hpos', hmarked⟩ := hi
    -- an underscore inside the package already ends the search, so the lengths differ
    have hu : u ≤ i := by
      by_contra hless
      exact hstops.first i (by omega) hpos' hmarked
    rw [List.length_append, List.length_append, List.length_take, hgen] at hlength
    omega

end

/-! ### Looking up a type -/

/-- The library finds the right entry. -/
def LooksUp (f : Firmware) (entries : List {e : CFBTypeEntry // f.address e.mTypeNameId ≠ 0})
    (name : StringId) : Prop :=
  (f.registered entries).getFBTypeEntry name = some (entryFor (entries.map Subtype.val) name)

/-- An entry with exactly the name is found. -/
theorem looksUp_of_mem {f : Firmware}
    {entries : List {e : CFBTypeEntry // f.address e.mTypeNameId ≠ 0}} {name : StringId}
    (h : ∃ e ∈ entries, e.val.mTypeNameId = name) : f.LooksUp entries name := by
  obtain ⟨e, he, rfl⟩ := h
  rcases hfind : (entries.map Subtype.val).find? fun e' => e'.mTypeNameId = e.val.mTypeNameId with
    - | first
  · have hnone := List.find?_eq_none.mp hfind e.val (List.mem_map_of_mem he)
    exact absurd (decide_eq_true rfl) hnone
  · rw [LooksUp, getFBTypeEntry, findTypeEntry_registered, entryFor, hfind]
    rfl

/-- What is returned where there is none. -/
theorem getFBTypeEntry_of_not_mem {f : Firmware}
    {entries : List {e : CFBTypeEntry // f.address e.mTypeNameId ≠ 0}} {name : StringId}
    (h : ∀ e ∈ entries, e.val.mTypeNameId ≠ name) :
    entryFor (entries.map Subtype.val) name = ((entries.map Subtype.val).find? fun e =>
        e.mTypeNameId = String.ofList (genericName name.toList)) ∧
      (Readable name.toList → (f.registered entries).getFBTypeEntry name =
        some ((entries.map Subtype.val).find? fun e => e.mTypeNameId = genFBName name)) ∧
      (¬Readable name.toList → (f.registered entries).getFBTypeEntry name = none) := by
  have hnone : ((entries.map Subtype.val).find? fun e => e.mTypeNameId = name) = none := by
    refine List.find?_eq_none.mpr fun e he => ?_
    obtain ⟨e', he', rfl⟩ := List.mem_map.mp he
    simpa using h e' he'
  obtain ⟨hsome, hbehind⟩ := @underscoreLoop_eq name.toList (name.toList.length + 1) 0
    (by omega) (.inl rfl) (by omega)
  refine ⟨by rw [entryFor, hnone, Option.none_or], fun hreadable => ?_, fun hnot => ?_⟩
  · rw [getFBTypeEntry, findTypeEntry_registered, hnone]
    dsimp only
    rw [hsome hreadable, Option.map_some, findTypeEntry_registered, genFBName_eq]
  · rw [getFBTypeEntry, findTypeEntry_registered, hnone]
    dsimp only
    rw [hbehind hnot, Option.map_none]

/-- A library with a single entry of this name. -/
def single (name : StringId) : Firmware where
  address name' := if name' = name then 1 else 0
  address_inj {a b} heq hne := by
    split_ifs at heq hne with ha hb
    · exact ha.trans hb.symm
    · exact absurd rfl hne
  fbTypeLib := []
  isResource _ := false

def entryNamed (name : StringId) : CFBTypeEntry where
  mTypeNameId := name
  mTypeHash := ""
  createFBInstance _ := none
  configureFB _ _ := none
  initialized _ := none

theorem address_single (name : StringId) :
    (single name).address (entryNamed name).mTypeNameId ≠ 0 := by
  rw [single]
  simp [entryNamed]

/-- What is found where this is the only entry. -/
theorem find?_entryNamed (name name' : StringId) :
    ([(⟨entryNamed name, address_single name⟩ :
        {e : CFBTypeEntry // (single name).address e.mTypeNameId ≠ 0})].map Subtype.val).find?
        (fun e => e.mTypeNameId = name') =
      if name = name' then some (entryNamed name) else none := by
  rw [List.map_singleton, List.find?_singleton]
  exact if_congr decide_eq_true_iff rfl rfl

/-- The generic type of a package with an underscore and a digit is not found. -/
theorem not_looksUp_sample :
    ¬LooksUp (single "util_1::GEN_MUX")
      [⟨entryNamed "util_1::GEN_MUX", address_single "util_1::GEN_MUX"⟩] "util_1::MUX_2" := by
  intro h
  have hgeneric : "util_1::GEN_MUX" = String.ofList (genericName "util_1::MUX_2".toList) := by
    decide +kernel
  have hcode : "util_1::GEN_MUX" ≠ genFBName "util_1::MUX_2" := by decide +kernel
  have hreadable : Readable "util_1::MUX_2".toList := .inr (.inl (by decide +kernel))
  obtain ⟨hspec, hread, -⟩ := @getFBTypeEntry_of_not_mem (single "util_1::GEN_MUX")
    [⟨entryNamed "util_1::GEN_MUX", address_single "util_1::GEN_MUX"⟩] "util_1::MUX_2" (by
      rintro e he
      rw [List.mem_singleton.mp he]
      exact fun heq => absurd (congrArg String.toList heq) (by decide +kernel))
  rw [LooksUp, hread hreadable, hspec, find?_entryNamed, find?_entryNamed, if_neg hcode,
    if_pos hgeneric] at h
  exact Option.some_ne_none _ (Option.some.inj h).symm

/-- A name that is looked up in every library is searched without reading behind it, and the
generic type is looked for under its name. -/
theorem readable_of_looksUp {name : StringId} (h : ∀ f entries, LooksUp f entries name) :
    Readable name.toList ∧ Delimited name.toList := by
  have hreadable : Readable name.toList := by
    by_contra hnot
    obtain ⟨-, -, hnone⟩ := @getFBTypeEntry_of_not_mem (single name) [] name
      (fun e he => absurd he List.not_mem_nil)
    exact Option.some_ne_none _ ((h (single name) []).symm.trans (hnone hnot))
  refine ⟨hreadable, ?_⟩
  by_contra hnot
  have hname : genFBName name ≠ String.ofList (genericName name.toList) := fun heq =>
    genFBNameAt_ne hnot (String.ofList_injective ((genFBName_eq name).symm.trans heq))
  -- one of both names is none of an entry with exactly the name
  have hfound (name' : StringId) (hother : name' ≠ name) :
      (if name' = genFBName name then some (entryNamed name') else none) =
        if name' = String.ofList (genericName name.toList) then some (entryNamed name')
        else none := by
    have hentries := h (single name') [⟨entryNamed name', address_single name'⟩]
    obtain ⟨hspec, hread, -⟩ := @getFBTypeEntry_of_not_mem (single name')
      [⟨entryNamed name', address_single name'⟩] name (by
        rintro e he
        rw [List.mem_singleton.mp he]
        exact hother)
    rw [LooksUp, hread hreadable, hspec, find?_entryNamed, find?_entryNamed] at hentries
    exact Option.some.inj hentries
  by_cases hgeneric : String.ofList (genericName name.toList) = name
  · have hfound' := hfound (genFBName name) fun heq => hname (heq.trans hgeneric.symm)
    rw [if_pos rfl, if_neg hname] at hfound'
    exact Option.some_ne_none _ hfound'
  · have hfound' := hfound (String.ofList (genericName name.toList)) hgeneric
    rw [if_pos rfl, if_neg hname.symm] at hfound'
    exact Option.some_ne_none _ hfound'.symm

theorem looksUp_of_readable {f : Firmware}
    {entries : List {e : CFBTypeEntry // f.address e.mTypeNameId ≠ 0}} {name : StringId}
    (hreadable : Readable name.toList) (hdelimited : Delimited name.toList) :
    f.LooksUp entries name := by
  by_cases hmem : ∃ e ∈ entries, e.val.mTypeNameId = name
  · exact looksUp_of_mem hmem
  · obtain ⟨hspec, hread, -⟩ := @getFBTypeEntry_of_not_mem f entries name
      (fun e he heq => hmem ⟨e, he, heq⟩)
    rw [LooksUp, hread hreadable, hspec, genFBName_eq, genFBNameAt_eq hdelimited]

/-- **The right type is found in every library** exactly where the name can be searched without
reading behind it and is delimited. An entry with exactly the name is always found. -/
theorem lookup_iff (name : StringId) :
    ((∀ f entries, LooksUp f entries name) ↔
        Readable name.toList ∧ Delimited name.toList) ∧
      ∀ f entries, (∃ e ∈ entries, e.val.mTypeNameId = name) → LooksUp f entries name :=
  ⟨⟨readable_of_looksUp, fun h _ _ => looksUp_of_readable h.1 h.2⟩,
    fun _ _ => looksUp_of_mem⟩

end Firmware

end Forte
