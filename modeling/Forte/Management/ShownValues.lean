import Mathlib.Data.Bool.AllAny
import Forte.Datatypes.Datum
import Forte.Datatypes.Storage
import Forte.Datatypes.XmlText

/-!
# Values in responses

Two commands put the text of a variable into an attribute of their response: `readValue`, the
command `READ`, and the command that reads the watches (`Forte.appendDataWatch`). Each of them
decides by the data type of the variable whether the text has to be escaped.

The text of a type that is not escaped has no markup in it (`Forte.Datum.toString_plain`):
numbers, truth values, durations, dates and floating-point numbers. So every watch shows the
text of its variable (`Forte.Datum.responses_show`). A read shows the contents of a string as
UTF-8, without quotes and dollar signs, and the text of every other variable, except that it
does not escape a variable of type `ANY` (`Forte.Datum.readValue_any_iff`).
-/

namespace Forte

/-! ### The commands -/

/-- What `readValue` and `appendDataWatch` do with the text behind `start`. -/
def escapeFrom (start : ℕ) (t : Text) : Text :=
  if start ≠ t.length then transformNonEscapedToEscapedXMLText t start else t

namespace Datum

/-- `toUTF8` of a `CIEC_ANY_STRING`, unescaped. -/
def toUTF8 : Datum → Text
  | .string _ storage => stringToUTF8 storage
  | .wstring storage => storage
  | _ => []

end Datum

/-- `CResource::readValue`, of the variable that `getVar` finds. -/
def readValue (P : Platform) (var : Option Datum) (value : Text) : EMGMResponse × Text :=
  match var with
  | none => (.noSuchObject, value)
  | some var =>
    let start := value.length
    match var.getDataTypeID with
    | .string => (.ready, escapeFrom start (value ++ var.toUTF8))
    | .wstring => (.ready, escapeFrom start (value ++ var.toUTF8))
    | .char => (.ready, escapeFrom start (value ++ var.toString P))
    | .wchar => (.ready, escapeFrom start (value ++ var.toString P))
    | .array => (.ready, escapeFrom start (value ++ var.toString P))
    | .struct => (.ready, escapeFrom start (value ++ var.toString P))
    | _ => (.ready, value ++ var.toString P)

/-- `appendPortTag`. -/
def appendPortTag (response : Text) (portId : List StringId) : Text :=
  response ++ text "<Port name=\"" ++ (text ".").intercalate (portId.map text) ++ text "\">"

/-- The value in `appendDataWatch`, behind the response up to the attribute. -/
def appendValue (P : Platform) (response : Text) (dataBuffer : Datum) : Text :=
  let start := response.length
  let response := response ++ dataBuffer.toString P
  match dataBuffer.getDataTypeID with
  | .any => escapeFrom start response
  | .wstring => escapeFrom start response
  | .string => escapeFrom start response
  | .char => escapeFrom start response
  | .wchar => escapeFrom start response
  | .array => escapeFrom start response
  | .struct => escapeFrom start response
  | _ => response

/-- `appendDataWatch`. -/
def appendDataWatch (P : Platform) (response : Text) (portId : List StringId) (dataBuffer : Datum)
    (forced : Bool) : Text :=
  appendValue P (appendPortTag response portId ++ text "<Data value=\"") dataBuffer ++
    text "\" forced=\"" ++ (if forced then text "true" else text "false") ++ text "\"/></Port>"

/-! ### Texts without markup -/

/-- A text without markup. -/
def Plain (t : Text) : Prop := ∀ c ∈ t, ¬IsMarkup c

instance (t : Text) : Decidable (Plain t) := List.decidableBAll _ t

@[simp]
theorem plain_append {s t : Text} : Plain (s ++ t) ↔ Plain s ∧ Plain t := List.forall_mem_append

theorem Plain.of_subset {s t : Text} (ht : Plain t) (h : s ⊆ t) : Plain s := fun c hc => ht c (h hc)

/-- The characters of a kind are no markup if the four characters of markup are not of that
kind. -/
theorem not_isMarkup_of {kind : UInt8 → Bool} (hkind : ∀ c ∈ text "\"<>&", kind c = false)
    {c : UInt8} (hc : kind c) : ¬IsMarkup c := by
  intro hmarkup
  rw [hkind c hmarkup] at hc
  exact absurd hc (by decide)

/-- The characters around the digits are no markup. -/
theorem not_isMarkup_ofNat : ∀ n < 58, 39 ≤ n → ¬IsMarkup (UInt8.ofNat n) := by
  decide

theorem plain_decimalDigits (v : ℕ) : Plain (decimalDigits v) := by
  intro c hc
  obtain ⟨d, hd, rfl⟩ := List.mem_map.mp hc
  have hten : d < 10 := Places.lt_of_mem_digits (by decide) hd
  have hchar : digitChar d = UInt8.ofNat (d + 48) := by
    rw [digitChar, UInt8.ofNat_add]
    rfl
  rw [hchar]
  exact not_isMarkup_ofNat _ (by omega) (by omega)

theorem plain_decimal (v : ℤ) : Plain (decimal v) := by
  rw [decimal]
  split
  · exact List.forall_mem_cons.mpr ⟨by decide, plain_decimalDigits _⟩
  · exact plain_decimalDigits _

/-- **A number of fixed width has no markup**, even if it is negative. -/
@[simp]
theorem plain_appendInt (n : ℕ) (value : ℤ) : Plain (appendInt n value) := by
  induction n generalizing value with
  | zero => exact fun c hc => absurd hc List.not_mem_nil
  | succ n ih =>
    refine plain_append.mpr ⟨ih _, fun c hc => ?_⟩
    rw [List.mem_singleton.mp hc]
    have hlt := Int.tmod_lt_of_pos value (by decide : (0 : ℤ) < 10)
    have hgt := Int.lt_tmod_of_pos value (by decide : (0 : ℤ) < 10)
    have hzero : '0'.toNat = 48 := rfl
    exact not_isMarkup_ofNat _ (by omega) (by omega)

theorem plain_timeElementsToString (timeElement : ℕ) {unit : String} (h : Plain (text unit)) :
    Plain (timeElementsToString timeElement unit) := by
  rw [timeElementsToString]
  split
  · exact plain_append.mpr ⟨plain_decimalDigits _, h⟩
  · exact fun c hc => absurd hc List.not_mem_nil

theorem plain_timeElements (nanoseconds : ℕ) : Plain (timeElements nanoseconds) := by
  have helement : ∀ n, ∀ unit ∈ ["d", "h", "m", "s", "ms", "us", "ns"],
      Plain (timeElementsToString n unit) := by
    intro n unit hunit
    refine plain_timeElementsToString n ?_
    revert unit
    decide
  simp [timeElements, helement]

theorem plain_durationToString {typePrefix : Text} (h : Plain typePrefix) (data : BitVec 64) :
    Plain (durationToString typePrefix data) := by
  rw [durationToString]
  split
  · exact plain_append.mpr ⟨h, by decide⟩
  · split
    · exact plain_append.mpr ⟨h, by decide⟩
    · refine plain_append.mpr ⟨plain_append.mpr ⟨h, ?_⟩, plain_timeElements _⟩
      split <;> decide

theorem plain_dayToString (tm : Tm) : Plain (dayToString tm) := by
  have hseparator : Plain (text "-") := by decide
  simp [dayToString, hseparator]

theorem plain_clockToString (hour min sec : ℤ) (milliseconds : ℕ) :
    Plain (clockToString hour min sec milliseconds) := by
  have hseparators : Plain (text ":") ∧ Plain (text ".") := by decide
  simp [clockToString, hseparators]

theorem plain_normalizeToStringRepresentation {t : Text} (h : Plain t) :
    Plain (normalizeToStringRepresentation t) := by
  rw [normalizeToStringRepresentation]
  split
  · exact h.of_subset (List.takeWhile_subset _)
  · split
    · exact h
    · refine plain_append.mpr ⟨plain_append.mpr ⟨?_, by decide⟩, ?_⟩
      · exact h.of_subset (List.takeWhile_subset _)
      · exact h.of_subset (List.dropWhile_subset _)

/-! ### Types that are not escaped -/

theorem IntegralType.toString_plain (t : IntegralType) (data : BitVec 64) :
    Plain (t.toString data) := by
  rw [IntegralType.toString]
  split
  · rw [IntegralType.boolToString]
    split <;> decide
  · rename_i hbool
    rw [IntegralType.numberToString_eq hbool]
    exact plain_decimal _

theorem DurationType.toString_plain (t : DurationType) (data : BitVec 64) :
    Plain (t.toString data) := by
  cases t with
  | time => exact plain_durationToString (by decide) data
  | ltime => exact plain_durationToString (by decide) data

section

variable (P : Platform)

theorem DateType.dateToString_plain {typePrefix : Text} (h : Plain typePrefix)
    (data : BitVec 64) : Plain (DateType.dateToString P typePrefix data) := by
  rw [DateType.dateToString]
  split
  · exact plain_append.mpr ⟨h, plain_dayToString _⟩
  · exact fun c hc => absurd hc List.not_mem_nil

theorem DateType.dateAndTimeToString_plain {typePrefix : Text} (h : Plain typePrefix)
    (data : BitVec 64) : Plain (DateType.dateAndTimeToString P typePrefix data) := by
  rw [DateType.dateAndTimeToString]
  split
  · rw [plain_append, plain_append, plain_append]
    exact ⟨⟨⟨h, plain_dayToString _⟩, by decide⟩, plain_clockToString _ _ _ _⟩
  · exact fun c hc => absurd hc List.not_mem_nil

theorem DateType.toString_plain (t : DateType) (data : BitVec 64) :
    Plain (t.toString P data) := by
  cases t with
  | date => exact DateType.dateToString_plain P (by decide) data
  | timeOfDay => exact plain_append.mpr ⟨by decide, plain_clockToString _ _ _ _⟩
  | dateAndTime => exact DateType.dateAndTimeToString_plain P (by decide) data
  | ldate => exact DateType.dateToString_plain P (by decide) data
  | ltimeOfDay => exact plain_append.mpr ⟨by decide, plain_clockToString _ _ _ _⟩
  | ldateAndTime => exact DateType.dateAndTimeToString_plain P (by decide) data

theorem RealType.toString_plain (t : RealType) (data : BitVec 64) :
    Plain (t.toString P data) := by
  have hkind : ∀ c ∈ text "\"<>&", isFloatChar c = false :=
    List.all_iff_forall_prop.mp (by decide)
  cases t with
  | real =>
    refine plain_normalizeToStringRepresentation fun c hc => ?_
    exact not_isMarkup_of hkind (P.printFloat_chars _ c hc)
  | lreal =>
    refine plain_normalizeToStringRepresentation fun c hc => ?_
    exact not_isMarkup_of hkind (P.printDFloat_chars _ c hc)

namespace Datum

/-- The types whose text `appendDataWatch` escapes. -/
def IsEscaped (v : Datum) : Prop :=
  v.getDataTypeID ∈ [.any, .wstring, .string, .char, .wchar, .array, .struct]

instance (v : Datum) : Decidable v.IsEscaped := inferInstanceAs (Decidable (_ ∈ _))

/-- **What is not escaped has no markup in its text.** -/
theorem toString_plain {v : Datum} (h : ¬v.IsEscaped) : Plain (v.toString P) := by
  cases v with
  | number t data => exact t.toString_plain data
  | duration t data => exact t.toString_plain data
  | date t data => exact t.toString_plain P data
  | real t data => exact t.toString_plain P data
  | _ => exact absurd (show _ ∈ _ by simp [getDataTypeID]) h

end Datum

end

/-! ### What the responses show -/

/-- **A text in an attribute shows a value** if it has no markup and is the value again once its
sequences are read. -/
def ShowsText (shown value : Text) : Prop :=
  AttributeText shown ∧ transformEscapedXMLToNonEscapedText shown [] = value

theorem showsText_escape (value : Text) : ShowsText (scEscapeMap.escape value) value :=
  ⟨attributeText_escape value, scEscapeMap.unescape_escape value⟩

/-- What is put into an attribute as it is shows itself exactly if it has no markup. -/
theorem showsText_self_iff (value : Text) : ShowsText value value ↔ Plain value :=
  attributeText_iff value

theorem escapeFrom_append (t s : Text) :
    escapeFrom t.length (t ++ s) = t ++ scEscapeMap.escape s := by
  rw [escapeFrom]
  split
  · exact transformNonEscapedToEscapedXMLText_eq t s
  · rename_i hlen
    -- nothing was appended
    obtain rfl : s = [] := by
      rw [not_not, List.length_append] at hlen
      exact List.length_eq_zero_iff.mp (by omega)
    rfl

namespace Datum

variable (P : Platform) (v : Datum)

/-- What a read shows of a variable: the contents of a string, and the text of any other. -/
def contents : Text :=
  match v with
  | .string _ storage => stringToUTF8 storage
  | .wstring storage => storage
  | v => v.toString P

/-- **A read** escapes the contents of the variable, unless they are of a type that is not
escaped or of type `ANY`. -/
theorem readValue_eq (value : Text) :
    readValue P (some v) value =
      (.ready, value ++
        if v.IsEscaped ∧ v.getDataTypeID ≠ .any then scEscapeMap.escape (v.contents P)
        else v.contents P) := by
  have hescape : ∀ s, escapeFrom value.length (value ++ s) = value ++ scEscapeMap.escape s :=
    escapeFrom_append value
  cases v with
  | string bound storage => exact congrArg _ (hescape _)
  | wstring storage => exact congrArg _ (hescape _)
  | char data => exact congrArg _ (hescape _)
  | wchar data => exact congrArg _ (hescape _)
  | array lowerBound es => exact congrArg _ (hescape _)
  | struct name names ms => exact congrArg _ (hescape _)
  | any w => rfl
  | number t data => cases t <;> rfl
  | duration t data => cases t <;> rfl
  | date t data => cases t <;> rfl
  | real t data => cases t <;> rfl

/-- **A watch** escapes the text of the variable, unless it is of a type that is not escaped. -/
theorem appendValue_eq (response : Text) :
    appendValue P response v =
      response ++ if v.IsEscaped then scEscapeMap.escape (v.toString P) else v.toString P := by
  have hescape : ∀ s, escapeFrom response.length (response ++ s) =
      response ++ scEscapeMap.escape s := escapeFrom_append response
  cases v with
  | string bound storage => exact hescape _
  | wstring storage => exact hescape _
  | char data => exact hescape _
  | wchar data => exact hescape _
  | array lowerBound es => exact hescape _
  | struct name names ms => exact hescape _
  | any w => exact hescape _
  | number t data => cases t <;> rfl
  | duration t data => cases t <;> rfl
  | date t data => cases t <;> rfl
  | real t data => cases t <;> rfl

/-- What is not escaped has its text for its contents. -/
theorem contents_eq (h : ¬v.IsEscaped) : v.contents P = v.toString P := by
  cases v with
  | string bound storage => exact absurd (show _ ∈ _ by simp [getDataTypeID]) h
  | wstring storage => exact absurd (show _ ∈ _ by simp [getDataTypeID]) h
  | _ => rfl

/-- **The response of a watch shows the text of the variable.** -/
theorem appendDataWatch_shows (response : Text) (portId : List StringId) (forced : Bool) :
    ∃ shown, appendDataWatch P response portId v forced =
        appendPortTag response portId ++ text "<Data value=\"" ++ shown ++
          text "\" forced=\"" ++ (if forced then text "true" else text "false") ++
          text "\"/></Port>" ∧
      ShowsText shown (v.toString P) := by
  refine ⟨_, congrArg (· ++ _ ++ _ ++ _) (appendValue_eq P v _), ?_⟩
  split
  · exact showsText_escape _
  · rename_i hplain
    exact (showsText_self_iff _).mpr (toString_plain P hplain)

/-- **A read shows the contents of a variable** that is not of type `ANY`. -/
theorem readValue_shows (h : v.getDataTypeID ≠ .any) (value : Text) :
    ∃ shown, readValue P (some v) value = (.ready, value ++ shown) ∧
      ShowsText shown (v.contents P) := by
  refine ⟨_, readValue_eq P v value, ?_⟩
  split
  · exact showsText_escape _
  · rename_i hplain
    have hescaped : ¬v.IsEscaped := fun hescaped => hplain ⟨hescaped, h⟩
    rw [contents_eq P v hescaped]
    exact (showsText_self_iff _).mpr (toString_plain P hescaped)

/-- **A variable of type `ANY` is read without escaping**: what is read shows its text exactly
if there is no markup in it. -/
theorem readValue_any_iff (w : Datum) (value : Text) :
    (∃ shown, readValue P (some (.any w)) value = (.ready, value ++ shown) ∧
      ShowsText shown ((Datum.any w).toString P)) ↔ Plain ((Datum.any w).toString P) := by
  constructor
  · rintro ⟨shown, heq, hshown⟩
    obtain rfl : (Datum.any w).toString P = shown :=
      List.append_cancel_left (congrArg Prod.snd heq)
    exact (showsText_self_iff _).mp hshown
  · intro hplain
    exact ⟨_, rfl, (showsText_self_iff _).mpr hplain⟩

/-- **What the responses show**: a watch the text of its variable; a read of a variable that is
not of type `ANY` its text, and for a string its contents. -/
theorem responses_show (response value : Text) (portId : List StringId) (forced : Bool) :
    (∃ shown, appendDataWatch P response portId v forced =
        appendPortTag response portId ++ text "<Data value=\"" ++ shown ++
          text "\" forced=\"" ++ (if forced then text "true" else text "false") ++
          text "\"/></Port>" ∧
      ShowsText shown (v.toString P)) ∧
    (v.getDataTypeID = .any ∨
      ∃ shown, readValue P (some v) value = (.ready, value ++ shown) ∧
        ShowsText shown (v.contents P)) := by
  refine ⟨appendDataWatch_shows P v response portId forced, ?_⟩
  by_cases h : v.getDataTypeID = .any
  · exact .inl h
  · exact .inr (readValue_shows P v h value)

/-- A platform that prints no number and knows no day. -/
def noNumbers : Platform where
  printFloat := fun _ => text "nan"
  printDFloat := fun _ => text "nan"
  gmtime := fun _ => none
  printFloat_chars := fun _ => List.all_iff_forall_prop.mp (by decide)
  printDFloat_chars := fun _ => List.all_iff_forall_prop.mp (by decide)

/-- **A read of a `STRING` shows its contents, not its text**: the quotes are missing. -/
theorem readValue_string_not_text :
    ¬∃ shown, readValue noNumbers (some (.string none (text "a"))) [] = (.ready, shown) ∧
      ShowsText shown ((Datum.string none (text "a")).toString noNumbers) := by
  rintro ⟨shown, heq, -, hshown⟩
  obtain rfl : text "a" = shown := congrArg Prod.snd heq
  have hself : transformEscapedXMLToNonEscapedText (text "a") [] = text "a" :=
    ((showsText_self_iff _).mpr (by decide)).2
  exact absurd (hself.symm.trans hshown) (by decide)

end Datum

end Forte
