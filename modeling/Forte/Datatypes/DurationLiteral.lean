import Forte.Datatypes.NumberLiteral

/-!
# The language of the duration literals

What the loop of `CIEC_TIME::fromString` and `CIEC_LTIME::fromString` reads to the end of a text is
a list of parts (`Forte.Reads`): numbers with a unit, and underscores, each with a sign and digits
or without. The sum is computed in 64 bits, with the number in front of an underscore counted in
the unit of the part before it.

A literal has components, numbers directly in front of a unit, and underscores between them; there
is no order of the units, and any of them may come again. If such a text is read to its end, and
its value fits into 64 bits, then the value is stored (`Forte.durationLiteral_exact`).
-/

namespace Forte

/-! ### Units -/

/-- The units of a duration. -/
inductive TimeUnit
  | day | hour | minute | second | millisecond | microsecond | nanosecond
  deriving DecidableEq, Repr

namespace TimeUnit

/-- The nanoseconds of a unit. -/
def nanoseconds : TimeUnit → ℕ
  | day => 86400000000000
  | hour => 3600000000000
  | minute => 60000000000
  | second => 1000000000
  | millisecond => 1000000
  | microsecond => 1000
  | nanosecond => 1

/-- The name of a unit, in lower case. -/
def name : TimeUnit → Text
  | day => text "d"
  | hour => text "h"
  | minute => text "m"
  | second => text "s"
  | millisecond => text "ms"
  | microsecond => text "us"
  | nanosecond => text "ns"

end TimeUnit

/-! ### Parts -/

/-- A part of a duration: a sign or none, digits, and the name of a unit or an underscore. -/
structure TimePart where
  negative : Bool
  digits : List ℕ
  unit : Option TimeUnit
  name : Text

namespace TimePart

/-- The text of a part. -/
def render (p : TimePart) : Text := signed p.negative p.digits ++ p.name

/-- The digits are digits, and the name is that of the unit in any case of letters. -/
structure WellFormed (p : TimePart) : Prop where
  digits : ∀ d ∈ p.digits, d < 10
  name : p.name.map tolower = p.unit.elim (text "_") TimeUnit.name

/-- The factor of a part; an underscore leaves the one that was. -/
def factor (nTimeFactor : ℕ) (p : TimePart) : ℕ := p.unit.elim nTimeFactor TimeUnit.nanoseconds

/-- A component, which is a number with a unit, or an underscore without a number. -/
structure Proper (p : TimePart) : Prop extends WellFormed p where
  negative : p.negative = false
  unit : p.unit = none ↔ p.digits = []

/-- The nanoseconds of a component. -/
def nanoseconds (p : TimePart) : ℤ :=
  digitsValue 0 p.digits * p.unit.elim 0 TimeUnit.nanoseconds

end TimePart

/-- **How a text is read**: part for part, where an `m` in front of an `s` is no minute. -/
inductive Reads : List TimePart → Text → Prop
  | nil : Reads [] []
  | cons {p : TimePart} {ps : List TimePart} {rest : Text} (hp : p.WellFormed)
      (hminute : p.unit = some .minute → tolower (rest.at 0) ≠ 's'.toUInt8) (h : Reads ps rest) :
      Reads (p :: ps) (p.render ++ rest)

/-- What the loop adds up. -/
def sumOfParts (nTimeFactor : ℕ) : List TimePart → ℤ
  | [] => 0
  | p :: ps =>
    signedValue p.negative p.digits * p.factor nTimeFactor + sumOfParts (p.factor nTimeFactor) ps

/-! ### What `strtol` reads -/

/-- Characters that are digits. -/
theorem exists_map_digitChar {cs : Text} (h : ∀ c ∈ cs, isDigit c = true) :
    ∃ ds : List ℕ, (∀ d ∈ ds, d < 10) ∧ cs = ds.map digitChar := by
  refine ⟨cs.map charHexDigitToInt, ?_, ?_⟩
  · intro d hd
    obtain ⟨c, hc, rfl⟩ := List.mem_map.mp hd
    exact lt_of_isDigit c (h c hc)
  · have hchar : ∀ c : UInt8, isDigit c = true → digitChar (charHexDigitToInt c) = c :=
      forall_byte (by decide +kernel)
    rw [List.map_map]
    exact ((List.map_congr_left fun c hc => hchar c (h c hc)).trans (List.map_id cs)).symm

/-- An overflow is noticed at a digit. -/
theorem isDigit_of_erange {exceeds : BitVec 64 → ℕ → Bool} {value : BitVec 64} {t : Text}
    (h : (strtoLoop 10 exceeds value t).erange = true) :
    isDigit ((strtoLoop 10 exceeds value t).rest.at 0) = true := by
  induction t generalizing value with
  | nil => cases h
  | cons c t ih =>
    rw [strtoLoop] at h ⊢
    split at h
    · rename_i hdigit
      rw [if_pos hdigit]
      split at h
      · rename_i hlarge
        rw [if_pos hlarge]
        exact (Bool.or_eq_true _ _ ▸ hdigit).resolve_right fun hand =>
          absurd (Bool.and_eq_true _ _ ▸ hand).1 (by decide)
      · rename_i hfit
        rw [if_neg hfit]
        exact ih h
    · cases h

section Strtol

variable {negative : Bool} {ds : List ℕ} {rest : Text}

theorem isDigit_rest_of_erange (hds : ∀ d ∈ ds, d < 10) (hne : ds ≠ [])
    (h : (strtol 10 (signed negative ds ++ rest)).erange = true) :
    isDigit ((strtol 10 (signed negative ds ++ rest)).rest.at 0) = true := by
  obtain ⟨exceeds, -, heq⟩ := strtoSigned_signed negative rest (by decide : 32 ≤ 64) hds hne
  rw [strtol, heq] at h ⊢
  dsimp only at h ⊢
  split at h
  · rename_i hok
    exact absurd h hok.2
  · rename_i hok
    rw [if_neg hok]
    exact isDigit_of_erange h

/-- A sign without digits. -/
theorem strtol_of_not_isDigit (hrest : isDigit (rest.at 0) = false)
    (hsign : negative = false → rest.at 0 ≠ '-'.toUInt8) :
    strtol 10 (signed negative [] ++ rest) = ⟨0, rest, false⟩ := by
  have hskip : ∀ u : Text, skipHexPrefix 10 u = u := fun u => if_neg fun h => by cases h.1
  cases negative with
  | true =>
    have hat : Text.at (signed true [] ++ rest) 0 = '-'.toUInt8 := rfl
    have hdrop : (signed true [] ++ rest).drop 1 = rest := rfl
    rw [strtol, strtoSigned]
    simp only [hat, hdrop, hskip, if_true, strtoLoop_rest hrest]
    rfl
  | false =>
    have hat : Text.at (signed false [] ++ rest) 0 ≠ '-'.toUInt8 := hsign rfl
    have happ : signed false [] ++ rest = rest := rfl
    rw [strtol, strtoSigned]
    simp only [hat, hskip, if_false, false_and]
    rw [happ, strtoLoop_rest hrest]

end Strtol

/-- A text begins with a sign or none, and digits. -/
theorem exists_signed (t : Text) :
    ∃ negative ds rest, (∀ d ∈ ds, d < 10) ∧ t = signed negative ds ++ rest ∧
      isDigit (rest.at 0) = false ∧
      (ds = [] → negative = false → rest.at 0 ≠ '-'.toUInt8) := by
  obtain ⟨negative, u, rfl, hu⟩ : ∃ negative u, t = signed negative [] ++ u ∧
      (negative = false → u.at 0 ≠ '-'.toUInt8) := by
    by_cases hsign : t.at 0 = '-'.toUInt8
    · cases t with
      | nil => exact absurd hsign (by decide)
      | cons c t =>
        obtain rfl : c = '-'.toUInt8 := hsign
        exact ⟨true, t, rfl, fun h => absurd h (by decide)⟩
    · exact ⟨false, t, rfl, fun _ => hsign⟩
  obtain ⟨ds, hds, htake⟩ := exists_map_digitChar
    (fun c hc => List.mem_takeWhile_imp hc : ∀ c ∈ u.takeWhile isDigit, isDigit c = true)
  refine ⟨negative, ds, u.dropWhile isDigit, hds, ?_, ?_, ?_⟩
  · rw [signed, signed, List.map_nil, List.append_nil, List.append_assoc, ← htake,
      List.takeWhile_append_dropWhile]
  · cases hdrop : u.dropWhile isDigit with
    | nil => rfl
    | cons c rest =>
      have hne : u.dropWhile isDigit ≠ [] := by
        rw [hdrop]
        exact List.cons_ne_nil c rest
      have hhead := List.head_dropWhile_not isDigit hne
      simp only [hdrop, List.head_cons] at hhead
      exact hhead
  · rintro rfl hpositive
    rw [List.map_nil] at htake
    have hsame : u.dropWhile isDigit = u := by
      conv_rhs => rw [← List.takeWhile_append_dropWhile (p := isDigit) (l := u), htake]
      rfl
    rw [hsame]
    exact hu hpositive

/-- **The digits in front are read**, if they are not too many; then the reading ends at a
digit. -/
theorem strtol_cases (t : Text) :
    isDigit ((strtol 10 t).rest.at 0) = true ∨
      ∃ negative ds, (∀ d ∈ ds, d < 10) ∧ t = signed negative ds ++ (strtol 10 t).rest ∧
        isDigit ((strtol 10 t).rest.at 0) = false ∧
        strtolValue t = BitVec.ofInt 64 (signedValue negative ds) := by
  obtain ⟨negative, ds, rest, hds, rfl, hrest, hsign⟩ := exists_signed t
  by_cases hne : ds = []
  · subst hne
    have hread := strtol_of_not_isDigit hrest (hsign rfl)
    rw [strtolValue, hread]
    refine .inr ⟨negative, [], hds, rfl, hrest, ?_⟩
    cases negative <;> rfl
  · rcases strtoSigned_eq negative (by decide : 32 ≤ 64) hds hne hrest with herange | heq
    · exact .inl (isDigit_rest_of_erange hds hne herange)
    · have hread : strtol 10 (signed negative ds ++ rest) = _ := heq
      rw [strtolValue, hread]
      exact .inr ⟨negative, ds, hds, rfl, hrest, rfl⟩

/-! ### What is read to the end -/

theorem exists_cons_of_tolower {e : Text} {c : UInt8} (h : tolower (e.at 0) = c)
    (hc : tolower 0 ≠ c) : ∃ x rest, e = x :: rest ∧ tolower x = c := by
  cases e with
  | nil => exact absurd h hc
  | cons x rest => exact ⟨x, rest, rfl, h⟩

theorem exists_cons_cons_of_tolower {e : Text} {c c' : UInt8} (h : tolower (e.at 0) = c)
    (h' : tolower (e.at 1) = c') (hc : tolower 0 ≠ c) (hc' : tolower 0 ≠ c') :
    ∃ x y rest, e = x :: y :: rest ∧ tolower x = c ∧ tolower y = c' := by
  obtain ⟨x, rest, rfl, hx⟩ := exists_cons_of_tolower h hc
  obtain ⟨y, rest, rfl, hy⟩ :=
    exists_cons_of_tolower (show tolower (Text.at rest 0) = c' from h') hc'
  exact ⟨x, y, rest, rfl, hx, hy⟩

/-- The unit that is found. -/
theorem exists_unit {nTimeFactor nTimeFactor' length : ℕ} {e : Text}
    (h : durationUnit nTimeFactor e = .unit nTimeFactor' length) :
    ∃ (unit : Option TimeUnit) (name rest : Text), e = name ++ rest ∧ length = name.length ∧
      name.map tolower = unit.elim (text "_") TimeUnit.name ∧
      nTimeFactor' = unit.elim nTimeFactor TimeUnit.nanoseconds ∧
      (unit = some .minute → tolower (rest.at 0) ≠ 's'.toUInt8) := by
  -- a name of one letter, and one of two letters
  have hone : ∀ (unit : Option TimeUnit) (c : UInt8), tolower (e.at 0) = c → tolower 0 ≠ c →
      [c] = unit.elim (text "_") TimeUnit.name →
      (unit = some .minute → tolower (e.at 1) ≠ 's'.toUInt8) →
      ∃ name rest : Text, e = name ++ rest ∧ 1 = name.length ∧
        name.map tolower = unit.elim (text "_") TimeUnit.name ∧
        (unit = some .minute → tolower (rest.at 0) ≠ 's'.toUInt8) := by
    intro unit c hc hzero hname hminute
    obtain ⟨x, rest, rfl, rfl⟩ := exists_cons_of_tolower hc hzero
    exact ⟨[x], rest, rfl, rfl, hname, hminute⟩
  have htwo : ∀ (unit : TimeUnit) (c : UInt8), tolower (e.at 0) = c → tolower 0 ≠ c →
      tolower (e.at 1) = 's'.toUInt8 → [c, 's'.toUInt8] = unit.name → unit ≠ .minute →
      ∃ name rest : Text, e = name ++ rest ∧ 2 = name.length ∧ name.map tolower = unit.name ∧
        (some unit = some .minute → tolower (rest.at 0) ≠ 's'.toUInt8) := by
    intro unit c hc hzero hs hname hne
    obtain ⟨x, y, rest, rfl, rfl, hy⟩ := exists_cons_cons_of_tolower hc hs hzero (by decide)
    refine ⟨[x, y], rest, rfl, rfl, ?_, fun h => absurd (Option.some.inj h) hne⟩
    rw [← hname, ← hy]
    rfl
  rw [durationUnit] at h
  split_ifs at h with hd hh hm hms hn hns hs hu hus hunderscore
  · cases h
    obtain ⟨name, rest, he, hlen, hname, hminute⟩ :=
      hone (some .day) _ hd (by decide) rfl (by rintro ⟨⟩)
    exact ⟨_, name, rest, he, hlen, hname, rfl, hminute⟩
  · cases h
    obtain ⟨name, rest, he, hlen, hname, hminute⟩ :=
      hone (some .hour) _ hh (by decide) rfl (by rintro ⟨⟩)
    exact ⟨_, name, rest, he, hlen, hname, rfl, hminute⟩
  · cases h
    obtain ⟨name, rest, he, hlen, hname, hminute⟩ :=
      htwo .millisecond _ hm (by decide) hms rfl (by rintro ⟨⟩)
    exact ⟨some .millisecond, name, rest, he, hlen, hname, rfl, hminute⟩
  · cases h
    obtain ⟨name, rest, he, hlen, hname, hminute⟩ :=
      hone (some .minute) _ hm (by decide) rfl fun _ => hms
    exact ⟨_, name, rest, he, hlen, hname, rfl, hminute⟩
  · cases h
    obtain ⟨name, rest, he, hlen, hname, hminute⟩ :=
      htwo .nanosecond _ hn (by decide) hns rfl (by rintro ⟨⟩)
    exact ⟨some .nanosecond, name, rest, he, hlen, hname, rfl, hminute⟩
  · cases h
    obtain ⟨name, rest, he, hlen, hname, hminute⟩ :=
      hone (some .second) _ hs (by decide) rfl (by rintro ⟨⟩)
    exact ⟨_, name, rest, he, hlen, hname, rfl, hminute⟩
  · cases h
    obtain ⟨name, rest, he, hlen, hname, hminute⟩ :=
      htwo .microsecond _ hu (by decide) hus rfl (by rintro ⟨⟩)
    exact ⟨some .microsecond, name, rest, he, hlen, hname, rfl, hminute⟩
  · cases h
    obtain ⟨name, rest, he, hlen, hname, hminute⟩ :=
      hone none _ hunderscore (by decide) rfl (by rintro ⟨⟩)
    exact ⟨_, name, rest, he, hlen, hname, rfl, hminute⟩

/-- A digit is no unit. -/
theorem durationUnit_of_isDigit {nTimeFactor : ℕ} {e : Text} (h : isDigit (e.at 0) = true) :
    durationUnit nTimeFactor e = .noUnit := by
  have hne : ∀ c, isDigit c = false → tolower (e.at 0) ≠ c := fun c hc => by
    rw [tolower_of_isDigit h]
    exact ne_of_isDigit h hc
  rw [durationUnit]
  simp only [if_neg (hne 'd'.toUInt8 (by decide)), if_neg (hne 'h'.toUInt8 (by decide)),
    if_neg (hne 'm'.toUInt8 (by decide)), if_neg (hne 's'.toUInt8 (by decide)),
    if_neg (hne 'u'.toUInt8 (by decide)), if_neg (hne 'n'.toUInt8 (by decide)),
    if_neg (hne '_'.toUInt8 (by decide))]

/-- **What the loop reads to the end** are parts, and it returns what they add up to. -/
theorem reads_of_readDuration {stops : UInt8 → Bool} (hstops : stops 0 = true) {sign : ℤ}
    {rounds : ℕ} {v v' : BitVec 64} {nTimeFactor : ℕ} {t : Text} (hne : t ≠ [] ∨ v = 0)
    (h : readDuration stops (BitVec.ofInt 64 sign) rounds v nTimeFactor t = some (v', [])) :
    ∃ ps, Reads ps t ∧ v' = v + BitVec.ofInt 64 (sumOfParts nTimeFactor ps * sign) := by
  induction rounds generalizing v nTimeFactor t with
  | zero => cases h
  | succ rounds ih =>
    rw [readDuration] at h
    dsimp only at h
    split at h
    · cases h
    · split at h
      · cases h
      · rename_i hnone
        obtain ⟨hsame, hzero⟩ := not_or.mp hnone
        obtain ⟨-, hnil⟩ := Prod.mk.inj (Option.some.inj h)
        exact absurd ((not_not.mp hsame).symm.trans hnil) (hne.resolve_right hzero)
    · rename_i nTimeFactor' length hunit
      rcases strtol_cases t with hdigit | ⟨negative, ds, hds, ht, hend, hvalue⟩
      · rw [durationUnit_of_isDigit hdigit] at hunit
        cases hunit
      obtain ⟨unit, name, rest, he, rfl, hname, rfl, hminute⟩ := exists_unit hunit
      let p : TimePart := ⟨negative, ds, unit, name⟩
      have hp : p.WellFormed := ⟨hds, hname⟩
      have htext : t = p.render ++ rest := by
        rw [TimePart.render, List.append_assoc, ← he]
        exact ht
      have hsum : v + strtolValue t * BitVec.ofNat 64 (unit.elim nTimeFactor TimeUnit.nanoseconds) *
          BitVec.ofInt 64 sign =
            v + BitVec.ofInt 64 (signedValue negative ds * p.factor nTimeFactor * sign) := by
        rw [hvalue, ← BitVec.ofInt_natCast, ← BitVec.ofInt_mul, ← BitVec.ofInt_mul]
        rfl
      rw [he, List.drop_left, hsum] at h
      split at h
      · obtain ⟨rfl, rfl⟩ := Prod.mk.inj (Option.some.inj h)
        refine ⟨[p], ?_, ?_⟩
        · rw [htext]
          exact .cons hp hminute .nil
        · rw [sumOfParts, sumOfParts, add_zero]
      · rename_i hgo
        have hrest : rest ≠ [] := by
          rintro rfl
          exact hgo hstops
        obtain ⟨ps, hps, rfl⟩ := ih (.inl hrest) h
        refine ⟨p :: ps, ?_, ?_⟩
        · rw [htext]
          exact .cons hp hminute hps
        · rw [sumOfParts, BitVec.add_assoc, ← BitVec.ofInt_add]
          have hfactor : p.factor nTimeFactor = unit.elim nTimeFactor TimeUnit.nanoseconds := rfl
          rw [hfactor]
          refine congrArg (fun n => v + BitVec.ofInt 64 n) ?_
          ring

/-! ### What is read of a literal -/

theorem tolower_tolower (c : UInt8) : tolower (tolower c) = tolower c := by
  revert c
  exact forall_byte (by decide +kernel)

theorem isDigit_tolower (c : UInt8) : isDigit (tolower c) = isDigit c := by
  revert c
  exact forall_byte (by decide +kernel)

/-- The case of the letters of a name does not matter. -/
theorem tolower_at_map (name rest : Text) (i : ℕ) :
    tolower (Text.at (name.map tolower ++ rest) i) = tolower (Text.at (name ++ rest) i) := by
  induction name generalizing i with
  | nil => rfl
  | cons c name ih =>
    cases i with
    | zero => exact tolower_tolower c
    | succ i => exact ih i

theorem durationUnit_map (nTimeFactor : ℕ) (name rest : Text) :
    durationUnit nTimeFactor (name.map tolower ++ rest) =
      durationUnit nTimeFactor (name ++ rest) := by
  rw [durationUnit, durationUnit, tolower_at_map, tolower_at_map]

namespace TimePart

variable {p : TimePart}

/-- The name of a part is found. -/
theorem durationUnit_name (hp : p.WellFormed) (nTimeFactor : ℕ) {rest : Text}
    (hminute : p.unit = some .minute → tolower (rest.at 0) ≠ 's'.toUInt8) :
    durationUnit nTimeFactor (p.name ++ rest) =
      .unit (p.factor nTimeFactor) p.name.length := by
  have hlen : p.name.length = (p.unit.elim (text "_") TimeUnit.name).length := by
    rw [← hp.name, List.length_map]
  rw [← durationUnit_map, hp.name, hlen, factor]
  cases hunit : p.unit with
  | none => rfl
  | some u =>
    cases u with
    | minute => exact durationUnit_minutes nTimeFactor rest (hminute hunit)
    | _ => rfl

/-- A name does not begin with a digit. -/
theorem isDigit_name (hp : p.WellFormed) (rest : Text) :
    isDigit (Text.at (p.name ++ rest) 0) = false := by
  rw [← isDigit_tolower, ← tolower_at_map, isDigit_tolower, hp.name]
  cases p.unit with
  | none => rfl
  | some u => cases u <;> rfl

/-- What a part that is no slip begins with. -/
theorem Proper.at_render (hp : p.Proper) (rest : Text) :
    isDigit (Text.at (p.render ++ rest) 0) = true ∨
      Text.at (p.render ++ rest) 0 = '_'.toUInt8 := by
  have hrender : p.render ++ rest = p.digits.map digitChar ++ (p.name ++ rest) := by
    rw [render, hp.negative, List.append_assoc]
    rfl
  rw [hrender]
  by_cases hds : p.digits = []
  · right
    have hname := hp.name
    rw [hp.unit.mpr hds] at hname
    obtain ⟨c, hc, hlower⟩ := List.map_eq_singleton_iff.mp hname
    have hunderscore : ∀ c : UInt8, tolower c = '_'.toUInt8 → c = '_'.toUInt8 :=
      forall_byte (by decide +kernel)
    rw [hds, hc]
    exact hunderscore c hlower
  · left
    rcases at_digits_append p.digits hp.digits (p.name ++ rest) 0 with h | ⟨hle, -⟩
    · exact h
    · exact absurd (List.length_pos_iff.mpr hds) (Nat.not_lt.mpr hle)

/-- The number of a part is read, if it is not too large. -/
theorem Proper.strtol_cases (hp : p.Proper) (rest : Text) :
    (isDigit ((strtol 10 (p.render ++ rest)).rest.at 0) = true ∧
        ¬digitsValue 0 p.digits < 2 ^ 31) ∨
      (strtol 10 (p.render ++ rest)).rest = p.name ++ rest ∧
        strtolValue (p.render ++ rest) = BitVec.ofInt 64 (digitsValue 0 p.digits : ℕ) := by
  have hend := isDigit_name hp.toWellFormed rest
  have hrender : p.render ++ rest = signed false p.digits ++ (p.name ++ rest) := by
    rw [render, hp.negative, List.append_assoc]
  rw [hrender]
  by_cases hds : p.digits = []
  · have hsign : Text.at (p.name ++ rest) 0 ≠ '-'.toUInt8 := by
      have hat := hp.at_render rest
      rw [hrender, hds] at hat
      rcases hat with h | h
      · exact ne_of_isDigit h (by decide)
      · exact fun heq => absurd (h.symm.trans heq) (by decide)
    have hread := strtol_of_not_isDigit hend (fun _ => hsign : false = false → _)
    rw [hds, strtolValue, hread]
    exact .inr ⟨rfl, rfl⟩
  · rcases strtoSigned_eq false (by decide : 32 ≤ 64) hp.digits hds hend with herange | heq
    · refine .inl ⟨isDigit_rest_of_erange hp.digits hds herange, fun hlt => ?_⟩
      have hfit : digitsValue 0 p.digits ≤ signedLimit 32 false := Nat.le_sub_one_of_lt hlt
      rw [strtoSigned_of_le (by decide) hp.digits hds hend hfit] at herange
      cases herange
    · have hread : strtol 10 (signed false p.digits ++ (p.name ++ rest)) = _ := heq
      rw [strtolValue, hread]
      exact .inr ⟨rfl, rfl⟩

end TimePart

/-- The factor matters only where there is a number. -/
theorem TimePart.Proper.value_mul_factor {p : TimePart} (hp : p.Proper) (nTimeFactor : ℕ) :
    (digitsValue 0 p.digits : ℤ) * p.factor nTimeFactor = p.nanoseconds := by
  rw [TimePart.nanoseconds, TimePart.factor]
  cases hunit : p.unit with
  | none =>
    have hzero : (digitsValue 0 [] : ℤ) = 0 := rfl
    rw [hp.unit.mp hunit, hzero, zero_mul, zero_mul]
  | some u => rfl

/-- The nanoseconds of a literal, without its sign. -/
def nanosecondsOfParts (ps : List TimePart) : ℤ := (ps.map TimePart.nanoseconds).sum

section Literals

variable {stops : UInt8 → Bool} {sign : ℤ} {ps : List TimePart} {t : Text}

/-- A text of parts that are no slips. -/
theorem reads_of_proper (hps : ∀ p ∈ ps, p.Proper) : Reads ps (ps.flatMap TimePart.render) := by
  induction ps with
  | nil => exact .nil
  | cons p ps ih =>
    have hrest := ih fun q hq => hps q (List.mem_cons_of_mem p hq)
    rw [List.flatMap_cons]
    refine .cons (hps p List.mem_cons_self).toWellFormed (fun _ => ?_) hrest
    cases ps with
    | nil => decide
    | cons q ps =>
      rw [List.flatMap_cons] at hrest ⊢
      rcases (hps q (List.mem_cons_of_mem p List.mem_cons_self)).at_render
        (ps.flatMap TimePart.render) with h | h
      · rw [tolower_of_isDigit h]
        exact ne_of_isDigit h (by decide)
      · rw [h]
        decide

variable (sign) in
/-- **What the loop makes of a literal**: it refuses it, or stops in the middle, or returns the
nanoseconds. If the numbers are not too large, it returns the nanoseconds. -/
theorem readDuration_of_reads (hzero : stops 0 = true)
    (hstops : ∀ c, isDigit c = true ∨ c = '_'.toUInt8 → stops c = false)
    (hps : ∀ p ∈ ps, p.Proper) (h : Reads ps t) (hne : ps ≠ []) {rounds : ℕ}
    (hrounds : ps.length < rounds + 1) (v : BitVec 64) (nTimeFactor : ℕ) :
    (∀ v', readDuration stops (BitVec.ofInt 64 sign) rounds v nTimeFactor t = some (v', []) →
      v' = v + BitVec.ofInt 64 (nanosecondsOfParts ps * sign)) ∧
    ((∀ p ∈ ps, digitsValue 0 p.digits < 2 ^ 31) →
      readDuration stops (BitVec.ofInt 64 sign) rounds v nTimeFactor t =
        some (v + BitVec.ofInt 64 (nanosecondsOfParts ps * sign), [])) := by
  induction h generalizing rounds v nTimeFactor with
  | nil => exact absurd rfl hne
  | @cons p ps rest hp hminute h ih =>
    have hproper := hps p List.mem_cons_self
    obtain ⟨rounds, rfl⟩ := Nat.exists_eq_succ_of_ne_zero
      (Nat.ne_of_gt (Nat.lt_of_lt_of_le (Nat.succ_pos ps.length) (Nat.le_of_lt_succ hrounds)))
    rw [readDuration]
    dsimp only
    rcases hproper.strtol_cases rest with ⟨hdigit, hlarge⟩ | ⟨hread, hvalue⟩
    · -- a number that is too large ends the reading in front of a digit
      rw [durationUnit_of_isDigit hdigit]
      dsimp only
      refine ⟨fun v' hread => ?_, fun hfit => absurd (hfit p List.mem_cons_self) hlarge⟩
      split at hread
      · cases hread
      · rw [(Prod.mk.inj (Option.some.inj hread)).2] at hdigit
        cases hdigit
    · have hsum : v + strtolValue (p.render ++ rest) * BitVec.ofNat 64 (p.factor nTimeFactor) *
          BitVec.ofInt 64 sign = v + BitVec.ofInt 64 (p.nanoseconds * sign) := by
        rw [hvalue, ← BitVec.ofInt_natCast, ← BitVec.ofInt_mul, ← BitVec.ofInt_mul,
          hproper.value_mul_factor]
      have hparts : nanosecondsOfParts (p :: ps) * sign =
          p.nanoseconds * sign + nanosecondsOfParts ps * sign := by
        rw [nanosecondsOfParts, List.map_cons, List.sum_cons, add_mul]
        rfl
      rw [hread, TimePart.durationUnit_name hp nTimeFactor hminute]
      dsimp only
      rw [List.drop_left, hsum, hparts, BitVec.ofInt_add, ← BitVec.add_assoc]
      cases h with
      | nil =>
        have hend : BitVec.ofInt 64 (nanosecondsOfParts [] * sign) = 0#64 := by
          rw [nanosecondsOfParts, List.map_nil, List.sum_nil, zero_mul]
          rfl
        have hstop : stops (Text.at [] 0) = true := hzero
        rw [if_pos hstop, hend, BitVec.add_zero]
        exact ⟨fun v' hread => (Prod.mk.inj (Option.some.inj hread)).1.symm, fun _ => rfl⟩
      | @cons q qs rest hq hminute' h =>
        have hat := (hps q (List.mem_cons_of_mem p List.mem_cons_self)).at_render rest
        have hgo : ¬stops (Text.at (q.render ++ rest) 0) = true := by
          rw [hstops _ hat]
          exact Bool.false_ne_true
        rw [if_neg hgo]
        obtain ⟨hresult, hfits⟩ := ih (fun r hr => hps r (List.mem_cons_of_mem p hr))
          (List.cons_ne_nil q qs) (Nat.lt_of_succ_lt_succ hrounds)
          (v + BitVec.ofInt 64 (p.nanoseconds * sign)) (p.factor nTimeFactor)
        exact ⟨hresult, fun hfit => hfits fun r hr => hfit r (List.mem_cons_of_mem p hr)⟩

end Literals

/-! ### Literals -/

/-- A literal of a duration. -/
inductive DurationLiteral
  /-- A number of nanoseconds. -/
  | plain (negative : Bool) (digits : List ℕ)
  /-- The parts behind a type specifier, the hash and a sign or none. -/
  | typed (specifier : Text) (sign : Option Bool) (parts : List TimePart)

/-- The sign behind the hash, which is a minus or a plus, or none. -/
def durationSign : Option Bool → Text
  | none => []
  | some true => ['-'.toUInt8]
  | some false => ['+'.toUInt8]

namespace DurationLiteral

/-- The text of a literal. -/
def render : DurationLiteral → Text
  | plain negative digits => signed negative digits
  | typed specifier sign parts =>
    specifier ++ '#'.toUInt8 :: (durationSign sign ++ parts.flatMap TimePart.render)

/-- The nanoseconds of a literal: the signed sum of its components. -/
def value : DurationLiteral → ℤ
  | plain negative digits => signedValue negative digits
  | typed _ sign parts => nanosecondsOfParts parts * signFactor (sign = some true)

/-- The numbers fit into the 31 bits that `strtol` reads. -/
def NumbersFit : DurationLiteral → Prop
  | plain negative digits => digitsValue 0 digits ≤ signedLimit 32 negative
  | typed _ _ parts => ∀ p ∈ parts, digitsValue 0 p.digits < 2 ^ 31

end DurationLiteral

/-- The type specifiers of a duration, in any case of letters. -/
def IsSpecifier (t : DurationType) (specifier : Text) : Prop :=
  specifier.map tolower = text t.typePrefix ∨
    specifier.map tolower = text t.typePrefix ++ text "ime"

/-- A literal of a type: digits, or components, in any order, one at least. -/
def DurationLiteral.Proper (t : DurationType) : DurationLiteral → Prop
  | .plain _ digits => digits ≠ [] ∧ ∀ d ∈ digits, d < 10
  | .typed specifier _ parts =>
    IsSpecifier t specifier ∧ (∀ p ∈ parts, p.Proper) ∧ ∃ p ∈ parts, p.unit ≠ none

/-- **Texts that are not read as they should be**: there is no number, or a unit without a number,
or a number in front of an underscore, or a sign in front of a later number. -/
inductive MisreadDuration (t : DurationType) : Text → Prop
  | noDigits (negative : Bool) : MisreadDuration t (signed negative [])
  | noComponent {specifier : Text} {sign : Option Bool} {body : Text} {ps : List TimePart}
      (hspecifier : IsSpecifier t specifier) (h : Reads ps body) (hps : ∀ p ∈ ps, p.unit = none) :
      MisreadDuration t (specifier ++ '#'.toUInt8 :: (durationSign sign ++ body))
  | slip {specifier : Text} {sign : Option Bool} {body : Text} {ps : List TimePart} {p : TimePart}
      (hspecifier : IsSpecifier t specifier) (h : Reads ps body) (hp : p ∈ ps)
      (hslip : ¬p.Proper) :
      MisreadDuration t (specifier ++ '#'.toUInt8 :: (durationSign sign ++ body))

namespace DurationType

variable {t : DurationType}

theorem stops_zero (t : DurationType) : t.stops 0 = true := by
  cases t <;> rfl

theorem stops_of_part (t : DurationType) (c : UInt8)
    (h : isDigit c = true ∨ c = '_'.toUInt8) : t.stops c = false := by
  revert c
  cases t
  · exact forall_byte (by decide +kernel)
  · exact forall_byte (by decide +kernel)

/-- What is read behind a type specifier. -/
theorem fromString_typed {specifier : Text} (h : IsSpecifier t specifier) (data : BitVec 64)
    (body : Text) :
    t.fromString data (specifier ++ '#'.toUInt8 :: body) =
      match t.readSigned body with
      | none => (-1, data)
      | some (nIntVal, rest) =>
        (asInt ((specifier ++ '#'.toUInt8 :: body).length - rest.length), nIntVal) := by
  have hprefix : (text t.typePrefix).length = t.typePrefix.length := by
    rw [text, List.length_map]
    rfl
  rcases h with hname | hname
  · have hlen : specifier.length = t.typePrefix.length := by
      rw [← hprefix, ← hname, List.length_map]
    have hread := fromString_of_hash t data
      (show ((specifier ++ '#'.toUInt8 :: body).take t.typePrefix.length).map tolower =
        text t.typePrefix by rw [List.take_left' hlen, hname])
      (show (specifier ++ '#'.toUInt8 :: body).drop t.typePrefix.length =
        '#'.toUInt8 :: body by rw [List.drop_left' hlen])
    refine hread.trans ?_
    rcases t.readSigned body with _ | ⟨nIntVal, rest⟩
    · rfl
    · rfl
  · obtain ⟨a, b, rfl, ha, hb⟩ := List.map_eq_append_iff.mp hname
    have hlen : a.length = t.typePrefix.length := by
      rw [← hprefix, ← ha, List.length_map]
    have hlenb : b.length = 3 := by
      rw [← List.length_map (f := tolower), hb]
      rfl
    have hlong : ((b ++ '#'.toUInt8 :: body).take 3).map tolower = text "ime" := by
      rw [List.take_left' hlenb, hb]
    have hhash : Text.at ('#'.toUInt8 :: body) 0 = '#'.toUInt8 := rfl
    rw [List.append_assoc, fromString, List.take_left' hlen, if_pos ha, List.drop_left' hlen]
    dsimp only
    rewrite [if_pos hlong, List.drop_left' hlenb, if_pos hhash, List.drop_succ_cons,
      List.drop_zero]
    rcases t.readSigned body with _ | ⟨nIntVal, rest⟩
    · rfl
    · rfl

/-- A text is behind a type specifier, or is refused, or is a number of nanoseconds. -/
theorem exists_specifier_or (data : BitVec 64) (value : Text) :
    (∃ specifier body, IsSpecifier t specifier ∧ value = specifier ++ '#'.toUInt8 :: body) ∨
      t.fromString data value = (-1, data) ∨
      t.fromString data value =
        (asInt (value.length - (strtol 10 value).rest.length), strtolValue value) := by
  have hhash : ∀ u : Text, u.at 0 = '#'.toUInt8 → u = '#'.toUInt8 :: u.drop 1 := by
    intro u hu
    cases u with
    | nil => exact absurd hu (by decide)
    | cons c u =>
      obtain rfl : c = '#'.toUInt8 := hu
      rfl
  rw [fromString]
  split
  · rename_i htype
    dsimp only
    by_cases hlong : ((value.drop t.typePrefix.length).take 3).map tolower = text "ime"
    · rw [if_pos hlong]
      split
      · rename_i hat
        refine .inl ⟨value.take t.typePrefix.length ++ (value.drop t.typePrefix.length).take 3,
          ((value.drop t.typePrefix.length).drop 3).drop 1, .inr ?_, ?_⟩
        · rw [List.map_append, htype, hlong]
        · rw [List.append_assoc, ← hhash _ hat, List.take_append_drop, List.take_append_drop]
      · exact .inr (.inl rfl)
    · rw [if_neg hlong]
      split
      · rename_i hat
        refine .inl ⟨value.take t.typePrefix.length, (value.drop t.typePrefix.length).drop 1,
          .inl htype, ?_⟩
        rw [← hhash _ hat, List.take_append_drop]
      · exact .inr (.inl rfl)
  · exact .inr (.inr rfl)

/-- Digits are no type specifier. -/
theorem fromString_signed {negative : Bool} {ds : List ℕ} (hds : ∀ d ∈ ds, d < 10)
    (hne : ds ≠ []) (data : BitVec 64) :
    t.fromString data (signed negative ds) =
      (asInt ((signed negative ds).length - (strtol 10 (signed negative ds)).rest.length),
        strtolValue (signed negative ds)) := by
  rw [fromString]
  obtain ⟨c, rest, hc, hsigned⟩ : ∃ c rest, tolower c = c ∧ c ≠ 't'.toUInt8 ∧ c ≠ 'l'.toUInt8 ∧
      signed negative ds = c :: rest := by
    cases negative with
    | true => exact ⟨'-'.toUInt8, ds.map digitChar, by decide, by decide, by decide, rfl⟩
    | false =>
      obtain ⟨d, ds, rfl⟩ := List.exists_cons_of_ne_nil hne
      have hdigit := isDigit_digitChar (hds d List.mem_cons_self)
      exact ⟨digitChar d, ds.map digitChar, tolower_of_isDigit hdigit,
        ne_of_isDigit hdigit (by decide), ne_of_isDigit hdigit (by decide), rfl⟩
  obtain ⟨ht, hl, hsigned⟩ := hsigned
  refine if_neg fun htype => ?_
  rw [hsigned] at htype
  cases t with
  | time => exact ht (hc.symm.trans (List.cons.inj htype).1)
  | ltime => exact hl (hc.symm.trans (List.cons.inj htype).1)

/-- What is behind the hash begins with a sign or does not. -/
theorem exists_sign (body : Text) :
    ∃ sign u, body = durationSign sign ++ u ∧
      (sign = none → u.at 0 ≠ '+'.toUInt8 ∧ u.at 0 ≠ '-'.toUInt8) := by
  have hfirst : ∀ c : UInt8, c ≠ 0 → body.at 0 = c → body = [c] ++ body.drop 1 := by
    intro c hc hat
    cases body with
    | nil => exact absurd hat.symm hc
    | cons d body => exact congrArg (· :: body) hat
  by_cases hminus : body.at 0 = '-'.toUInt8
  · exact ⟨some true, body.drop 1, hfirst _ (by decide) hminus, nofun⟩
  · by_cases hplus : body.at 0 = '+'.toUInt8
    · exact ⟨some false, body.drop 1, hfirst _ (by decide) hplus, nofun⟩
    · exact ⟨none, body, rfl, fun _ => ⟨hplus, hminus⟩⟩

/-- The sign is a factor. -/
theorem readSigned_sign (t : DurationType) {sign : Option Bool} {u : Text}
    (hu : sign = none → u.at 0 ≠ '+'.toUInt8 ∧ u.at 0 ≠ '-'.toUInt8) :
    t.readSigned (durationSign sign ++ u) =
      readDuration t.stops (BitVec.ofInt 64 (signFactor (sign = some true))) (u.length + 1) 0 1
        u := by
  cases sign with
  | none =>
    obtain ⟨hplus, hminus⟩ := hu rfl
    have happ : durationSign none ++ u = u := rfl
    rw [happ, readSigned]
    simp only [hplus, hminus, or_self, if_false]
    rfl
  | some negative => cases negative <;> rfl

/-- What was read to the end. -/
theorem asInt_length_sub_eq {s rest : Text} (hlen : s.length < 2 ^ 31)
    (hle : rest.length ≤ s.length) (h : asInt ((s.length : ℤ) - rest.length) = s.length) :
    rest = [] := by
  rw [asInt_of_lt (by omega) (by omega)] at h
  exact List.eq_nil_of_length_eq_zero (by omega)

/-- **What is read to the end behind a type specifier** is what the loop reads to the end. -/
theorem fromString_typed_of_read {specifier u : Text} {sign : Option Bool}
    (hspecifier : IsSpecifier t specifier)
    (hu : sign = none → u.at 0 ≠ '+'.toUInt8 ∧ u.at 0 ≠ '-'.toUInt8) (data : BitVec 64) {s : Text}
    (hs : s = specifier ++ '#'.toUInt8 :: (durationSign sign ++ u)) (hlen : s.length < 2 ^ 31) :
    (∀ v, readDuration t.stops (BitVec.ofInt 64 (signFactor (sign = some true))) (u.length + 1) 0 1
        u = some (v, []) → t.fromString data s = ((s.length : ℤ), v)) ∧
    ((t.fromString data s).1 = s.length → ∃ v,
      readDuration t.stops (BitVec.ofInt 64 (signFactor (sign = some true))) (u.length + 1) 0 1
        u = some (v, [])) := by
  have htyped := t.fromString_typed hspecifier data (durationSign sign ++ u)
  rw [← hs, readSigned_sign t hu] at htyped
  rw [htyped]
  cases hread : readDuration t.stops (BitVec.ofInt 64 (signFactor (sign = some true)))
      (u.length + 1) 0 1 u with
  | none =>
    refine ⟨fun v hv => absurd hv.symm (Option.some_ne_none _), fun h => ?_⟩
    have hminus : (-1 : ℤ) = s.length := h
    omega
  | some read =>
    obtain ⟨v, rest⟩ := read
    dsimp only
    have hle : rest.length ≤ s.length := by
      have hsuffix := (readDuration_suffix hread).length_le
      rw [hs, List.length_append, List.length_cons, List.length_append]
      omega
    constructor
    · intro v' hv'
      obtain ⟨rfl, rfl⟩ := Prod.mk.inj (Option.some.inj hv')
      rw [List.length_nil, Nat.cast_zero, Int.sub_zero,
        asInt_of_lt (Int.natCast_nonneg _) (by omega)]
    · intro h
      obtain rfl := asInt_length_sub_eq hlen hle h
      exact ⟨v, rfl⟩

end DurationType

/-- The parts make up the text. -/
theorem Reads.flatMap_render {ps : List TimePart} {s : Text} (h : Reads ps s) :
    s = ps.flatMap TimePart.render := by
  induction h with
  | nil => rfl
  | cons _ _ _ ih => rw [List.flatMap_cons, ← ih]

theorem Reads.length_le {ps : List TimePart} {s : Text} (h : Reads ps s) :
    ps.length ≤ s.length := by
  induction h with
  | nil => exact Nat.le_refl _
  | @cons p ps rest hp _ _ ih =>
    have hname : 0 < p.name.length := by
      rw [← List.length_map (f := tolower), hp.name]
      cases p.unit with
      | none => decide
      | some u => cases u <;> decide
    rw [TimePart.render, List.length_cons, List.length_append, List.length_append]
    omega

namespace DurationLiteral

variable {t : DurationType}

/-- **A text that is read to its end** is a literal, unless it is misread. -/
theorem exists_proper {data : BitVec 64} {s : Text} (hlen : s.length < 2 ^ 31)
    (h : (t.fromString data s).1 = s.length) (hmisread : ¬MisreadDuration t s) :
    ∃ l : DurationLiteral, l.render = s ∧ l.Proper t := by
  rcases DurationType.exists_specifier_or data s with
    ⟨specifier, body, hspecifier, rfl⟩ | hrefused | hplain
  · obtain ⟨sign, u, rfl, hu⟩ := DurationType.exists_sign body
    obtain ⟨v, hread⟩ :=
      (DurationType.fromString_typed_of_read hspecifier hu data rfl hlen).2 h
    obtain ⟨ps, hps, -⟩ := reads_of_readDuration t.stops_zero (.inr rfl) hread
    have hrender := hps.flatMap_render
    refine ⟨.typed specifier sign ps, ?_, hspecifier, fun p hp => ?_, ?_⟩
    · rw [render, hrender]
    · by_contra hslip
      exact hmisread (.slip hspecifier hps hp hslip)
    · by_contra hnone
      refine hmisread (.noComponent hspecifier hps fun p hp => ?_)
      by_contra hunit
      exact hnone ⟨p, hp, hunit⟩
  · rw [hrefused] at h
    have hminus : (-1 : ℤ) = s.length := h
    omega
  · rw [hplain] at h
    have hnil := DurationType.asInt_length_sub_eq hlen (strtoSigned_suffix 32 10 s).length_le h
    have hrest : (strtol 10 s).rest = [] := hnil
    rcases strtol_cases s with hdigit | ⟨negative, ds, hds, hs, -, -⟩
    · rw [hrest] at hdigit
      cases hdigit
    · rw [hrest, List.append_nil] at hs
      refine ⟨.plain negative ds, hs.symm, ?_, hds⟩
      rintro rfl
      exact hmisread (hs ▸ .noDigits negative)

/-- **A number of nanoseconds**: read to its end if it fits, and stored then. -/
theorem fromString_plain {negative : Bool} {ds : List ℕ} (hds : ∀ d ∈ ds, d < 10) (hne : ds ≠ [])
    (data : BitVec 64) (hlen : (signed negative ds).length < 2 ^ 31) :
    (digitsValue 0 ds ≤ signedLimit 32 negative →
      (t.fromString data (signed negative ds)).1 = (signed negative ds).length) ∧
    ((t.fromString data (signed negative ds)).1 = (signed negative ds).length →
      (t.fromString data (signed negative ds)).2 = BitVec.ofInt 64 (signedValue negative ds)) := by
  have happ : signed negative ds ++ [] = signed negative ds := List.append_nil _
  have hend : isDigit (Text.at [] 0) = false := rfl
  have hfull : asInt (((signed negative ds).length : ℤ) - ([] : Text).length) =
      (signed negative ds).length := by
    rw [List.length_nil, Nat.cast_zero, Int.sub_zero]
    exact asInt_of_lt (Int.natCast_nonneg _) (by omega)
  rw [DurationType.fromString_signed hds hne]
  dsimp only
  constructor
  · intro hfit
    have hread : strtol 10 (signed negative ds ++ []) = _ :=
      strtoSigned_of_le (by decide) hds hne hend hfit
    rw [happ] at hread
    rw [hread]
    exact hfull
  · intro h
    have hnil := DurationType.asInt_length_sub_eq hlen
      (strtoSigned_suffix 32 10 (signed negative ds)).length_le h
    rcases strtoSigned_eq negative (by decide : 32 ≤ 64) hds hne hend with herange | heq
    · have hdigit := isDigit_rest_of_erange hds hne herange
      rw [happ] at hdigit
      have hrest : (strtol 10 (signed negative ds)).rest = [] := hnil
      rw [hrest] at hdigit
      cases hdigit
    · have hread : strtol 10 (signed negative ds ++ []) = _ := heq
      rw [happ] at hread
      rw [strtolValue, hread]
      rfl

/-- **Components behind a type specifier**: read to their end if the numbers fit, and the
nanoseconds are stored then, as far as they fit. -/
theorem fromString_components {specifier : Text} {sign : Option Bool} {ps : List TimePart}
    (hspecifier : IsSpecifier t specifier) (hps : ∀ p ∈ ps, p.Proper) (hne : ps ≠ [])
    (data : BitVec 64) {s : Text}
    (hs : s = specifier ++ '#'.toUInt8 :: (durationSign sign ++ ps.flatMap TimePart.render))
    (hlen : s.length < 2 ^ 31) :
    ((∀ p ∈ ps, digitsValue 0 p.digits < 2 ^ 31) → (t.fromString data s).1 = s.length) ∧
    ((t.fromString data s).1 = s.length → (t.fromString data s).2 =
      BitVec.ofInt 64 (nanosecondsOfParts ps * signFactor (sign = some true))) := by
  have hreads := reads_of_proper hps
  have hu : sign = none → Text.at (ps.flatMap TimePart.render) 0 ≠ '+'.toUInt8 ∧
      Text.at (ps.flatMap TimePart.render) 0 ≠ '-'.toUInt8 := by
    intro _
    obtain ⟨p, ps, rfl⟩ := List.exists_cons_of_ne_nil hne
    rw [List.flatMap_cons]
    rcases (hps p List.mem_cons_self).at_render (ps.flatMap TimePart.render) with h | h
    · exact ⟨ne_of_isDigit h (by decide), ne_of_isDigit h (by decide)⟩
    · rw [h]
      decide
  have hrounds : ps.length < (ps.flatMap TimePart.render).length + 1 + 1 := by
    have hle := hreads.length_le
    omega
  obtain ⟨hresult, hfits⟩ := readDuration_of_reads (signFactor (sign = some true)) t.stops_zero
    t.stops_of_part hps hreads hne hrounds 0 1
  obtain ⟨htyped, hread⟩ := DurationType.fromString_typed_of_read hspecifier hu data hs hlen
  constructor
  · intro hfit
    rw [htyped _ (hfits hfit)]
  · intro h
    obtain ⟨v, hv⟩ := hread h
    rw [htyped v hv, hresult v hv]
    exact BitVec.zero_add _

end DurationLiteral

/-- **The durations that are read.** A text that is read to its end is a literal, unless it is
misread: a number of nanoseconds, or components in any order, any of them as often as may be,
behind a type specifier and a sign. A literal whose numbers fit into 31 bits is read to its end.
And what is stored then is the signed sum of the components, if it fits into 64 bits. -/
theorem durationLiteral_exact (t : DurationType) (data : BitVec 64) {s : Text}
    (hlen : s.length < 2 ^ 31) :
    ((t.fromString data s).1 = s.length → ¬MisreadDuration t s →
      ∃ l : DurationLiteral, l.render = s ∧ l.Proper t) ∧
    ∀ l : DurationLiteral, l.render = s → l.Proper t →
      (l.NumbersFit → (t.fromString data s).1 = s.length) ∧
      ((t.fromString data s).1 = s.length → -2 ^ 63 ≤ l.value → l.value < 2 ^ 63 →
        (t.fromString data s).2.toInt = l.value) := by
  refine ⟨DurationLiteral.exists_proper hlen, fun l hrender hl => ?_⟩
  have hstored : (l.NumbersFit → (t.fromString data s).1 = s.length) ∧
      ((t.fromString data s).1 = s.length →
        (t.fromString data s).2 = BitVec.ofInt 64 l.value) := by
    subst hrender
    cases l with
    | plain negative ds => exact DurationLiteral.fromString_plain hl.2 hl.1 data hlen
    | typed specifier sign ps =>
      obtain ⟨hspecifier, hps, p, hp, -⟩ := hl
      exact DurationLiteral.fromString_components hspecifier hps (List.ne_nil_of_mem hp) data rfl
        hlen
  refine ⟨hstored.1, fun h hmin hmax => ?_⟩
  rw [hstored.2 h]
  exact BitVec.toInt_ofInt_eq_self (by decide) hmin (by omega)

/-- A day and two hours, less than zero. -/
theorem durationLiteral_exact_days :
    (text "T#-1d_2h").length < 2 ^ 31 ∧
      (DurationType.time.fromString 0 (text "T#-1d_2h")).1 = (text "T#-1d_2h").length ∧
      (DurationType.time.fromString 0 (text "T#-1d_2h")).2.toInt = -93600000000000 := by
  have hlen : (text "T#-1d_2h").length < 2 ^ 31 := by decide
  have hproper : ∀ p ∈ [⟨false, [1], some .day, text "d"⟩, ⟨false, [], none, text "_"⟩,
      ⟨false, [2], some .hour, text "h"⟩], TimePart.Proper p := by
    intro p hp
    simp only [List.mem_cons, List.not_mem_nil, or_false] at hp
    rcases hp with rfl | rfl | rfl
    · exact ⟨⟨by decide, by decide⟩, rfl, by decide⟩
    · exact ⟨⟨by decide, by decide⟩, rfl, by decide⟩
    · exact ⟨⟨by decide, by decide⟩, rfl, by decide⟩
  obtain ⟨hread, hvalue⟩ := (durationLiteral_exact .time 0 hlen).2
    (.typed (text "T") (some true) [⟨false, [1], some .day, text "d"⟩,
      ⟨false, [], none, text "_"⟩, ⟨false, [2], some .hour, text "h"⟩]) (by decide)
    ⟨.inl (by decide), hproper, _, List.mem_cons_self, by rintro ⟨⟩⟩
  have hfull := hread (by
    intro p hp
    simp only [List.mem_cons, List.not_mem_nil, or_false] at hp
    rcases hp with rfl | rfl | rfl <;> decide)
  exact ⟨hlen, hfull, hvalue hfull (by decide) (by decide)⟩

/-- **Components in any order**, and one that comes again, are read to the end. -/
theorem fromString_unordered_components :
    DurationType.time.fromString 0 (text "T#1s1d") = (6, 86401000000000) ∧
      DurationType.ltime.fromString 0 (text "LT#1s1s") = (7, 2000000000) := by
  decide

end Forte
