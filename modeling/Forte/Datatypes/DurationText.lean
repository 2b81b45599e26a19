import Forte.Datatypes.NumberText

/-!
# Durations, read as they are printed

A printed duration is a sum of elements, numbers with a unit, and the loop of `fromString` adds
them up. At the end of the last element the loop goes on unless it finds one of the characters
at which it stops; if it has added up to zero by then, it takes this for a literal without a
number. So the duration zero is read only in front of these characters, and any other duration
in front of all that cannot be part of it (`Forte.DurationType.fromString_toString`).
-/

namespace Forte

/-! ### Lengths -/

theorem asInt_of_lt {n : ℤ} (hnonneg : 0 ≤ n) (hlt : n < 2 ^ 31) : asInt n = n := by
  rw [asInt, Int.bmod_def]
  omega

/-- The length of what was read, which is short enough. -/
theorem asInt_length_sub {t : Text} (rest : Text) (hlen : t.length < 2 ^ 31) :
    asInt (((t ++ rest).length : ℤ) - rest.length) = t.length := by
  rw [List.length_append, asInt_of_lt]
  · omega
  · omega
  · omega

/-! ### The elements of a duration -/

/-- An element of a duration: a number, the name of its unit and the nanoseconds of it. -/
structure TimeElement where
  count : ℕ
  name : String
  nanoseconds : ℕ

namespace TimeElement

/-- How an element is printed. -/
def text (e : TimeElement) : Text := decimalDigits e.count ++ Forte.text e.name

/-- The unit is one that is read, and the number one that `strtol` takes. -/
structure Readable (e : TimeElement) : Prop where
  count_lt : e.count < 2 ^ 31
  unit : ∀ (nTimeFactor : ℕ) (rest : Text), tolower (rest.at 0) ≠ 's'.toUInt8 →
    durationUnit nTimeFactor (Forte.text e.name ++ rest) =
      .unit e.nanoseconds (Forte.text e.name).length

end TimeElement

/-- What comes behind a duration: nothing that could be part of it. -/
structure DurationEnd (rest : Text) : Prop where
  digit : isDigit (rest.at 0) = false
  sign : rest.at 0 ≠ '-'.toUInt8
  unit : ∀ c ∈ text "dhmsun_", tolower (rest.at 0) ≠ c

namespace DurationEnd

variable {rest : Text}

theorem durationUnit_eq (h : DurationEnd rest) (nTimeFactor : ℕ) :
    durationUnit nTimeFactor rest = .noUnit := by
  have hne : ∀ c ∈ text "dhmsun_", tolower (rest.at 0) ≠ c := h.unit
  rw [durationUnit]
  simp only [if_neg (hne 'd'.toUInt8 (by decide)), if_neg (hne 'h'.toUInt8 (by decide)),
    if_neg (hne 'm'.toUInt8 (by decide)), if_neg (hne 's'.toUInt8 (by decide)),
    if_neg (hne 'u'.toUInt8 (by decide)), if_neg (hne 'n'.toUInt8 (by decide)),
    if_neg (hne '_'.toUInt8 (by decide))]

theorem strtol_eq (h : DurationEnd rest) : strtol 10 rest = ⟨0, rest, false⟩ := by
  rw [strtol, strtoSigned]
  simp only [h.sign, if_false, false_and]
  exact strtoLoop_rest h.digit _

end DurationEnd

theorem tolower_of_isDigit {c : UInt8} (h : isDigit c = true) : tolower c = c := by
  rw [isDigit, Bool.and_eq_true, decide_eq_true_eq, decide_eq_true_eq] at h
  rw [tolower, if_neg]
  rintro ⟨hupper, -⟩
  exact absurd (UInt8.le_trans hupper h.2) (by decide)

/-! ### The loop -/

section Loop

variable {stops : UInt8 → Bool} {negative : Bool} {rest : Text}

theorem strtol_decimalDigits {count : ℕ} (hcount : count < 2 ^ 31)
    (hrest : isDigit (rest.at 0) = false) :
    strtol 10 (decimalDigits count ++ rest) = ⟨BitVec.ofNat 64 count, rest, false⟩ := by
  have hds : ∀ d ∈ Places.digits 10 count, d < 10 :=
    fun d hd => Places.lt_of_mem_digits (by decide) hd
  have hread : strtol 10 (signed false (Places.digits 10 count) ++ rest) = _ :=
    strtoSigned_of_le (by decide) hds (Places.digits_ne_nil count) hrest
      (by rw [digitsValue_digits]; exact Nat.le_sub_one_of_lt hcount)
  rw [signedValue, if_neg Bool.false_ne_true, digitsValue_digits, BitVec.ofInt_natCast] at hread
  exact hread

/-- The sign of a duration, as a factor. -/
def signFactor (negative : Bool) : ℤ := if negative then -1 else 1

/-- One round of the loop, at an element. -/
theorem readDuration_element {e : TimeElement} (he : e.Readable) {u : Text}
    (hs : tolower (u.at 0) ≠ 's'.toUInt8) (hname : isDigit ((text e.name ++ u : Text).at 0) = false)
    (rounds nTimeFactor : ℕ) (sum : ℤ) :
    readDuration stops (BitVec.ofInt 64 (signFactor negative)) (rounds + 1) (BitVec.ofInt 64 sum)
        nTimeFactor (e.text ++ u) =
      if stops (u.at 0) then
        some (BitVec.ofInt 64 (sum + e.count * e.nanoseconds * signFactor negative), u)
      else
        readDuration stops (BitVec.ofInt 64 (signFactor negative)) rounds
          (BitVec.ofInt 64 (sum + e.count * e.nanoseconds * signFactor negative))
          e.nanoseconds u := by
  have hread := strtol_decimalDigits he.count_lt hname
  have htext : e.text ++ u = decimalDigits e.count ++ (text e.name ++ u) :=
    List.append_assoc _ _ _
  have hvalue : strtolValue (decimalDigits e.count ++ (text e.name ++ u)) =
      BitVec.ofInt 64 e.count := by
    rw [strtolValue, hread, BitVec.ofInt_natCast]
    rfl
  rw [htext, readDuration]
  simp only [hread, he.unit nTimeFactor u hs, hvalue, List.drop_left]
  rw [← BitVec.ofInt_natCast, ← BitVec.ofInt_mul, ← BitVec.ofInt_mul, ← BitVec.ofInt_add]

/-- What the loop returns behind the last element. -/
def endOfDuration (stops : UInt8 → Bool) (sum : ℤ) (rest : Text) : Option (BitVec 64 × Text) :=
  if stops (rest.at 0) = false ∧ BitVec.ofInt 64 sum = 0 then none
  else some (BitVec.ofInt 64 sum, rest)

/-- The nanoseconds of elements. -/
def nanoseconds : List TimeElement → ℕ
  | [] => 0
  | e :: es => e.count * e.nanoseconds + nanoseconds es

theorem isDigit_elements {es : List TimeElement} (hne : es ≠ []) (rest : Text) :
    isDigit (Text.at (es.flatMap TimeElement.text ++ rest) 0) = true := by
  obtain ⟨e, es, rfl⟩ := List.exists_cons_of_ne_nil hne
  have hds : ∀ d ∈ Places.digits 10 e.count, d < 10 :=
    fun d hd => Places.lt_of_mem_digits (by decide) hd
  have htext : (e :: es).flatMap TimeElement.text ++ rest =
      (Places.digits 10 e.count).map digitChar ++
      (text e.name ++ (es.flatMap TimeElement.text ++ rest)) := by
    rw [List.flatMap_cons, TimeElement.text, decimalDigits, List.append_assoc, List.append_assoc]
  rw [htext]
  rcases at_digits_append _ hds (text e.name ++ (es.flatMap TimeElement.text ++ rest)) 0 with h | h
  · exact h
  · exact absurd (List.length_pos_iff.mpr (Places.digits_ne_nil (b := 10) e.count))
      (Nat.not_lt.mpr h.1)

variable (negative) in
/-- **The loop adds up the elements.** -/
theorem readDuration_elements {es : List TimeElement} (hes : ∀ e ∈ es, e.Readable)
    (hnames : ∀ e ∈ es, ∀ u : Text, isDigit (Text.at (text e.name ++ u) 0) = false)
    (hne : es ≠ []) (hrest : DurationEnd rest) (hstops : ∀ c, isDigit c = true → stops c = false)
    {rounds : ℕ} (hrounds : es.length < rounds) (nTimeFactor : ℕ) (sum : ℤ) :
    readDuration stops (BitVec.ofInt 64 (signFactor negative)) rounds (BitVec.ofInt 64 sum)
        nTimeFactor (es.flatMap TimeElement.text ++ rest) =
      endOfDuration stops (sum + nanoseconds es * signFactor negative) rest := by
  induction es generalizing rounds nTimeFactor sum with
  | nil => exact absurd rfl hne
  | cons e es ih =>
    obtain ⟨rounds, rfl⟩ := Nat.exists_eq_succ_of_ne_zero (Nat.ne_of_gt
      (Nat.lt_of_le_of_lt (Nat.zero_le _) hrounds))
    have he := hes e List.mem_cons_self
    have hname := hnames e List.mem_cons_self
    have happ : (e :: es).flatMap TimeElement.text ++ rest =
        e.text ++ (es.flatMap TimeElement.text ++ rest) := by
      rw [List.flatMap_cons, List.append_assoc]
    have hsum : sum + nanoseconds (e :: es) * signFactor negative =
        sum + e.count * e.nanoseconds * signFactor negative +
          nanoseconds es * signFactor negative := by
      rw [nanoseconds]
      push_cast
      ring
    rw [happ, hsum]
    by_cases hnil : es = []
    · subst hnil
      have hlast : sum + e.count * e.nanoseconds * signFactor negative +
          nanoseconds [] * signFactor negative =
            sum + e.count * e.nanoseconds * signFactor negative := by
        rw [nanoseconds, Nat.cast_zero, zero_mul, add_zero]
      rw [hlast, List.flatMap_nil, List.nil_append,
        readDuration_element he (hrest.unit _ (by decide)) (hname rest), endOfDuration]
      cases hstop : stops (rest.at 0) with
      | true => rfl
      | false =>
        -- one more round, which finds neither a number nor a unit
        obtain ⟨rounds, rfl⟩ := Nat.exists_eq_succ_of_ne_zero
          (Nat.ne_of_gt (Nat.lt_of_succ_lt_succ hrounds))
        rw [if_neg Bool.false_ne_true, readDuration]
        simp only [hrest.strtol_eq, hrest.durationUnit_eq, ne_eq, not_true_eq_false, false_or,
          true_and]
    · have hdigit := isDigit_elements hnil rest
      have hs : tolower (Text.at (es.flatMap TimeElement.text ++ rest) 0) ≠ 's'.toUInt8 := by
        rw [tolower_of_isDigit hdigit]
        exact ne_of_isDigit hdigit (by decide)
      rw [readDuration_element he hs (hname _), hstops _ hdigit, if_neg Bool.false_ne_true]
      exact ih (fun f hf => hes f (List.mem_cons_of_mem e hf))
        (fun f hf => hnames f (List.mem_cons_of_mem e hf)) hnil (Nat.lt_of_succ_lt_succ hrounds) _ _

end Loop

/-! ### Printed durations -/

/-- The elements of a duration in nanoseconds, of which those that are not zero are printed. -/
def elementsOf (n : ℕ) : List TimeElement :=
  [⟨n / 86400000000000, "d", 86400000000000⟩, ⟨n / 3600000000000 % 24, "h", 3600000000000⟩,
    ⟨n / 60000000000 % 60, "m", 60000000000⟩, ⟨n / 1000000000 % 60, "s", 1000000000⟩,
    ⟨n / 1000000 % 1000, "ms", 1000000⟩, ⟨n / 1000 % 1000, "us", 1000⟩, ⟨n % 1000, "ns", 1⟩]

/-- The elements that are printed; zero is zero nanoseconds. -/
def printedElements (n : ℕ) : List TimeElement :=
  if n = 0 then [⟨0, "ns", 1⟩] else (elementsOf n).filter fun e => e.count ≠ 0

theorem flatMap_filter_count (es : List TimeElement) :
    (es.filter fun e => e.count ≠ 0).flatMap TimeElement.text =
      es.flatMap fun e => timeElementsToString e.count e.name := by
  induction es with
  | nil => rfl
  | cons e es ih =>
    rw [List.flatMap_cons, timeElementsToString, ← ih]
    by_cases h : e.count = 0
    · rw [List.filter_cons_of_neg (by simp [h]), if_neg (not_not_intro h), List.nil_append]
    · rw [List.filter_cons_of_pos (by simp [h]), if_pos h, List.flatMap_cons, TimeElement.text]

theorem nanoseconds_filter_count (es : List TimeElement) :
    nanoseconds (es.filter fun e => e.count ≠ 0) = nanoseconds es := by
  induction es with
  | nil => rfl
  | cons e es ih =>
    by_cases h : e.count = 0
    · rw [List.filter_cons_of_neg (by simp [h]), ih, nanoseconds, h, Nat.zero_mul, Nat.zero_add]
    · rw [List.filter_cons_of_pos (by simp [h]), nanoseconds, ih, nanoseconds]

theorem nanoseconds_elementsOf (n : ℕ) : nanoseconds (elementsOf n) = n := by
  simp only [nanoseconds, elementsOf]
  omega

theorem nanoseconds_printedElements (n : ℕ) : nanoseconds (printedElements n) = n := by
  rw [printedElements]
  split
  · rename_i hzero
    rw [hzero]
    rfl
  · rw [nanoseconds_filter_count, nanoseconds_elementsOf]

theorem printedElements_ne_nil (n : ℕ) : printedElements n ≠ [] := by
  intro hnil
  have hsum := nanoseconds_printedElements n
  rw [hnil] at hsum
  -- no elements add up to zero, and zero has an element
  obtain rfl : n = 0 := hsum.symm
  exact absurd hnil (List.cons_ne_nil _ _)

theorem flatMap_printedElements (n : ℕ) :
    (printedElements n).flatMap TimeElement.text =
      if n = 0 then text "0ns" else timeElements n := by
  rw [printedElements]
  split
  · rfl
  · rw [flatMap_filter_count]
    simp only [elementsOf, List.flatMap_cons, List.flatMap_nil, List.append_nil, timeElements,
      List.append_assoc]

/-- An element with a unit that is read whatever comes behind it. -/
theorem readable_of_unit {count nanoseconds : ℕ} {name : String} (hcount : count < 2 ^ 31)
    (hunit : ∀ (nTimeFactor : ℕ) (rest : Text), tolower (rest.at 0) ≠ 's'.toUInt8 →
      durationUnit nTimeFactor (text name ++ rest) = .unit nanoseconds (text name).length)
    (hdigit : ∀ u : Text, isDigit (Text.at (text name ++ u) 0) = false) :
    (TimeElement.mk count name nanoseconds).Readable ∧
      ∀ u : Text, isDigit (Text.at (text name ++ u) 0) = false :=
  ⟨⟨hcount, hunit⟩, hdigit⟩

theorem durationUnit_minutes (nTimeFactor : ℕ) (rest : Text)
    (hs : tolower (rest.at 0) ≠ 's'.toUInt8) :
    durationUnit nTimeFactor (text "m" ++ rest) = .unit 60000000000 (text "m").length := by
  have hfirst : tolower (Text.at (text "m" ++ rest) 0) = 'm'.toUInt8 := rfl
  have hsecond : tolower (Text.at (text "m" ++ rest) 1) = tolower (rest.at 0) := rfl
  rw [durationUnit, hfirst, hsecond]
  exact if_neg hs

/-- What is printed can be read. -/
theorem readable_of_mem {n : ℕ} (hn : n ≤ 2 ^ 63) {e : TimeElement} (he : e ∈ printedElements n) :
    e.Readable ∧ ∀ u : Text, isDigit (Text.at (text e.name ++ u) 0) = false := by
  rw [printedElements] at he
  split at he
  · rw [List.mem_singleton.mp he]
    exact readable_of_unit (by decide) (fun _ _ _ => rfl) fun _ => rfl
  · have he := (List.mem_filter.mp he).1
    simp only [elementsOf, List.mem_cons, List.not_mem_nil, or_false] at he
    rcases he with rfl | rfl | rfl | rfl | rfl | rfl | rfl
    · exact readable_of_unit (by omega) (fun _ _ _ => rfl) fun _ => rfl
    · exact readable_of_unit (by omega) (fun _ _ _ => rfl) fun _ => rfl
    · exact readable_of_unit (by omega) durationUnit_minutes fun _ => rfl
    · exact readable_of_unit (by omega) (fun _ _ _ => rfl) fun _ => rfl
    · exact readable_of_unit (by omega) (fun _ _ _ => rfl) fun _ => rfl
    · exact readable_of_unit (by omega) (fun _ _ _ => rfl) fun _ => rfl
    · exact readable_of_unit (by omega) (fun _ _ _ => rfl) fun _ => rfl

/-- There are characters enough for a round to each element. -/
theorem length_le_flatMap_text (es : List TimeElement) :
    es.length ≤ (es.flatMap TimeElement.text).length := by
  induction es with
  | nil => exact Nat.le_refl _
  | cons e es ih =>
    have hpos : 0 < (decimalDigits e.count).length := by
      rw [decimalDigits, List.length_map]
      exact List.length_pos_iff.mpr (Places.digits_ne_nil _)
    rw [List.flatMap_cons, List.length_append, List.length_cons, TimeElement.text,
      List.length_append]
    omega

/-- The smallest duration is printed like any other. -/
theorem timeElements_min :
    text "-106751d23h47m16s854ms775us808ns" = text "-" ++ timeElements (2 ^ 63) := by
  have hdigits : ∀ k < 10 ^ 6, decimalDigits k = (Places.write 10 5 k true).map digitChar :=
    fun k hk => congrArg (List.map digitChar) (Places.write_eq (by decide) hk).symm
  have helement : ∀ k < 10 ^ 6, ∀ name, k ≠ 0 → timeElementsToString k name =
      (Places.write 10 5 k true).map digitChar ++ text name := by
    intro k hk name hne
    rw [timeElementsToString, if_pos hne, hdigits k hk]
  rw [timeElements, helement _ (by decide) _ (by decide), helement _ (by decide) _ (by decide),
    helement _ (by decide) _ (by decide), helement _ (by decide) _ (by decide),
    helement _ (by decide) _ (by decide), helement _ (by decide) _ (by decide),
    helement _ (by decide) _ (by decide)]
  decide +kernel

/-- **A duration is printed as a sign and the elements of its nanoseconds.** -/
theorem durationToString_eq (typePrefix : Text) (data : BitVec 64) :
    durationToString typePrefix data = typePrefix ++
      ((if decide (data.toInt < 0) then text "-" else []) ++
        (printedElements data.toInt.natAbs).flatMap TimeElement.text) := by
  rw [durationToString, flatMap_printedElements]
  split
  · rename_i hmin
    rw [hmin, timeElements_min]
    rfl
  · split
    · rename_i hzero
      rw [hzero]
      rfl
    · rename_i hne
      rw [if_neg (Int.natAbs_ne_zero.mpr hne), List.append_assoc]
      simp only [decide_eq_true_eq]

namespace DurationType

variable (t : DurationType)

/-- The prefix that is printed. -/
def printedPrefix : DurationType → Text
  | time => text "T#"
  | ltime => text "LT#"

theorem toString_eq (data : BitVec 64) :
    t.toString data = durationToString t.printedPrefix data := by
  cases t with
  | time => rfl
  | ltime => rfl

theorem stops_digit {c : UInt8} (hc : isDigit c = true) : t.stops c = false := by
  have hne : ∀ e : UInt8, isDigit e = false → decide (c = e) = false :=
    fun e he => decide_eq_false (ne_of_isDigit hc he)
  cases t with
  | time =>
    rw [stops, hne 0 rfl, hne ','.toUInt8 rfl, hne ')'.toUInt8 rfl]
    rfl
  | ltime => exact hne 0 rfl

theorem fromString_of_hash (data : BitVec 64) {value body : Text}
    (htype : (value.take t.typePrefix.length).map tolower = text t.typePrefix)
    (hbody : value.drop t.typePrefix.length = '#'.toUInt8 :: body) :
    t.fromString data value =
      match t.readSigned body with
      | none => (-1, data)
      | some (nIntVal, rest) => (asInt (value.length - rest.length), nIntVal) := by
  have hshort : ((('#'.toUInt8 :: body).take 3).map tolower = text "ime") = False := by
    refine eq_false fun heq => ?_
    have hfirst := congrArg List.head? heq
    have hne : some (tolower '#'.toUInt8) ≠ (text "ime").head? := by decide
    exact hne hfirst
  have hhash : Text.at ('#'.toUInt8 :: body) 0 = '#'.toUInt8 := rfl
  rw [fromString, if_pos htype, hbody]
  simp only [hshort, if_false, hhash, if_true, List.drop_succ_cons, List.drop_zero]
  all_goals rcases t.readSigned body with _ | ⟨nIntVal, rest⟩ <;> rfl

/-- What `fromString` does behind its prefix. -/
theorem fromString_prefix (data : BitVec 64) (body : Text) :
    t.fromString data (t.printedPrefix ++ body) =
      match t.readSigned body with
      | none => (-1, data)
      | some (nIntVal, rest) =>
        (asInt ((t.printedPrefix ++ body).length - rest.length), nIntVal) := by
  have htype : ((t.printedPrefix ++ body).take t.typePrefix.length).map tolower =
      text t.typePrefix := by
    cases t <;> rfl
  have hbody : (t.printedPrefix ++ body).drop t.typePrefix.length = '#'.toUInt8 :: body := by
    cases t <;> rfl
  rw [fromString_of_hash t data htype hbody]

/-- A sign is read as a factor. -/
theorem readSigned_eq (negative : Bool) {u : Text} (hu : isDigit (u.at 0) = true) :
    t.readSigned ((if negative then text "-" else []) ++ u) =
      readDuration t.stops (BitVec.ofInt 64 (signFactor negative)) (u.length + 1)
        (BitVec.ofInt 64 0) 1 u := by
  cases negative with
  | true => rfl
  | false =>
    have hplus : ¬u.at 0 = '+'.toUInt8 := ne_of_isDigit hu (by decide)
    have hminus : ¬u.at 0 = '-'.toUInt8 := ne_of_isDigit hu (by decide)
    have happ : (if false = true then text "-" else []) ++ u = u := rfl
    rw [happ, readSigned]
    simp only [hplus, hminus, or_self, if_false]
    rfl

/-- The nanoseconds with the sign are the duration. -/
theorem natAbs_mul_signFactor (v : ℤ) : v.natAbs * signFactor (decide (v < 0)) = v := by
  rw [signFactor]
  split
  · rename_i h
    have := of_decide_eq_true h
    omega
  · rename_i h
    have : ¬v < 0 := fun hneg => h (decide_eq_true hneg)
    omega

/-- **A printed duration is read back**, and the duration zero only in front of a character at
which the loop stops. -/
theorem fromString_toString (data data' : BitVec 64) {rest : Text} (hrest : DurationEnd rest)
    (hlen : (t.toString data').length < 2 ^ 31) :
    t.fromString data (t.toString data' ++ rest) =
      if data' = 0 ∧ t.stops (rest.at 0) = false then (-1, data)
      else (((t.toString data').length : ℤ), data') := by
  have hbound : data'.toInt.natAbs ≤ 2 ^ 63 := by
    have := BitVec.le_toInt data'
    have := BitVec.toInt_lt (x := data')
    omega
  have hne := printedElements_ne_nil data'.toInt.natAbs
  have hdigit := isDigit_elements hne rest
  have hrounds : (printedElements data'.toInt.natAbs).length <
      ((printedElements data'.toInt.natAbs).flatMap TimeElement.text ++ rest).length + 1 := by
    have := length_le_flatMap_text (printedElements data'.toInt.natAbs)
    rw [List.length_append]
    omega
  have hread := readDuration_elements (decide (data'.toInt < 0))
    (fun e he => (readable_of_mem hbound he).1) (fun e he => (readable_of_mem hbound he).2) hne
    hrest (fun c hc => t.stops_digit hc) hrounds 1 0
  rw [toString_eq, durationToString_eq] at hlen ⊢
  rw [List.append_assoc, List.append_assoc, fromString_prefix, readSigned_eq t _ hdigit, hread,
    nanoseconds_printedElements, natAbs_mul_signFactor, endOfDuration, zero_add,
    BitVec.ofInt_toInt]
  by_cases h : data' = 0 ∧ t.stops (rest.at 0) = false
  · rw [if_pos ⟨h.2, h.1⟩, if_pos h]
  · rw [if_neg fun hand => h ⟨hand.2, hand.1⟩, if_neg h]
    have hassoc (u v w : Text) : u ++ (v ++ (w ++ rest)) = u ++ (v ++ w) ++ rest := by
      simp only [List.append_assoc]
    rw [hassoc]
    exact congrArg (·, data') (asInt_length_sub rest hlen)

end DurationType

/-! ### A printed duration alone -/

/-- Nothing is behind the end of a text. -/
theorem durationEnd_nil : DurationEnd [] :=
  ⟨by decide +kernel, by decide +kernel, by decide +kernel⟩

/-- A number of nanoseconds has no more than twenty digits. -/
theorem length_decimalDigits_le {v : ℕ} (hv : v ≤ 2 ^ 63) : (decimalDigits v).length ≤ 20 := by
  rw [decimalDigits, List.length_map, Places.digits]
  split
  · decide
  · rw [List.length_reverse, Nat.digits_length_le_iff (by decide)]
    exact Nat.lt_of_le_of_lt hv (by decide)

/-- An element is a number of no more than twenty digits, and a unit of one or two letters. -/
theorem length_text_le {n : ℕ} (hn : n ≤ 2 ^ 63) {e : TimeElement} (he : e ∈ printedElements n) :
    e.text.length ≤ 22 := by
  have hle (count : ℕ) (name : String) (nanoseconds : ℕ) (hcount : count ≤ 2 ^ 63)
      (hname : (text name).length ≤ 2) :
      (TimeElement.mk count name nanoseconds).text.length ≤ 22 := by
    have hdigits := length_decimalDigits_le hcount
    have htext : (TimeElement.mk count name nanoseconds).text = decimalDigits count ++ text name :=
      rfl
    rw [htext, List.length_append]
    omega
  rw [printedElements] at he
  split at he
  · rw [List.mem_singleton.mp he]
    exact hle _ _ _ (Nat.zero_le _) (by decide)
  · have he := (List.mem_filter.mp he).1
    simp only [elementsOf, List.mem_cons, List.not_mem_nil, or_false] at he
    rcases he with rfl | rfl | rfl | rfl | rfl | rfl | rfl
    all_goals exact hle _ _ _ (by omega) (by decide)

theorem length_printedElements_le (n : ℕ) : (printedElements n).length ≤ 7 := by
  rw [printedElements]
  split
  · decide
  · exact List.length_filter_le _ (elementsOf n)

theorem length_flatMap_le {es : List TimeElement} {bound : ℕ}
    (hes : ∀ e ∈ es, e.text.length ≤ bound) :
    (es.flatMap TimeElement.text).length ≤ es.length * bound := by
  induction es with
  | nil => exact Nat.zero_le _
  | cons e es ih =>
    have he := hes e List.mem_cons_self
    have hrest := ih fun f hf => hes f (List.mem_cons_of_mem e hf)
    rw [List.flatMap_cons, List.length_append, List.length_cons, Nat.succ_mul]
    omega

namespace DurationType

variable (t : DurationType)

/-- A printed duration is not long. -/
theorem length_toString_le (data : BitVec 64) : (t.toString data).length ≤ 158 := by
  have hbound : data.toInt.natAbs ≤ 2 ^ 63 := by
    have := BitVec.le_toInt data
    have := BitVec.toInt_lt (x := data)
    omega
  have helements := length_flatMap_le fun e he => length_text_le hbound he
  have hcount := length_printedElements_le data.toInt.natAbs
  have hsign : (if decide (data.toInt < 0) then text "-" else []).length ≤ 1 := by
    split <;> decide
  have hprefix : t.printedPrefix.length ≤ 3 := by cases t <;> decide
  rw [toString_eq, durationToString_eq, List.length_append, List.length_append]
  omega

/-- **Every duration is restored from its text**, which is read to its end. -/
theorem fromString_toString_self (data data' : BitVec 64) :
    t.fromString data (t.toString data') = (((t.toString data').length : ℤ), data') := by
  have hlen : (t.toString data').length < 2 ^ 31 :=
    Nat.lt_of_le_of_lt (t.length_toString_le data') (by decide)
  have hstops : t.stops (Text.at [] 0) = true := by cases t <;> rfl
  have hread := t.fromString_toString data data' durationEnd_nil hlen
  rw [List.append_nil, hstops] at hread
  exact hread.trans (if_neg fun h => Bool.noConfusion h.2)

end DurationType

end Forte
