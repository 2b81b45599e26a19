import Forte.Functions.TimeOfDay
import Forte.Lib.NativeBits

/-!
# Dates and times and their parts

`func_CONCAT_DT`, `func_SPLIT_LDT`, `func_LDT_TO_LDATE` and `func_LDT_TO_LTOD`. A date and time is a
number of nanoseconds in 64 bits that is not negative; the calendar is that of the C library, which
`forte_gmtime` and `forte_timegm` hand over to. What is relied on is `Forte.DateTime.BrokenDown`.
-/

namespace Forte.DateTime

open NativeType

/-! ### The C library -/

/-- `struct tm`. -/
structure Tm where
  tm_sec : NativeType.int.Value
  tm_min : NativeType.int.Value
  tm_hour : NativeType.int.Value
  tm_mday : NativeType.int.Value
  tm_mon : NativeType.int.Value
  tm_year : NativeType.int.Value
  tm_wday : NativeType.int.Value
  tm_yday : NativeType.int.Value
  tm_isdst : NativeType.int.Value

/-- `tm{}`. -/
def Tm.zero : Tm :=
  let zero := NativeType.int.convert 0
  ⟨zero, zero, zero, zero, zero, zero, zero, zero, zero⟩

/-- The same instant, whatever else is known of it. -/
def Tm.SameTime (tm tm' : Tm) : Prop :=
  tm.tm_sec = tm'.tm_sec ∧ tm.tm_min = tm'.tm_min ∧ tm.tm_hour = tm'.tm_hour ∧
    tm.tm_mday = tm'.tm_mday ∧ tm.tm_mon = tm'.tm_mon ∧ tm.tm_year = tm'.tm_year

/-- The functions of the C library; `none` is a null pointer, and a `time_t` has 64 bits. -/
structure CLibrary where
  gmtime : ℤ → Option Tm
  timegm : Tm → ℤ

/-- The seconds that a number of nanoseconds in 64 bits can reach. -/
def InRange (t : ℤ) : Prop := 0 ≤ t ∧ t ≤ 18446744073

/-- **Broken-down times** in UTC, where every day has 86400 seconds: each second of the range has
one, with the time of day in it and a date that is the same for the whole day, and `timegm` is the
inverse, which looks at nothing else. -/
structure BrokenDown (lib : CLibrary) : Prop where
  exists_gmtime : ∀ t, InRange t → ∃ tm, lib.gmtime t = some tm
  timegm_gmtime : ∀ t tm, InRange t → lib.gmtime t = some tm →
    ∀ tm' : Tm, tm'.SameTime tm → lib.timegm tm' = t
  time : ∀ t tm, InRange t → lib.gmtime t = some tm →
    tm.tm_hour.val = t % 86400 / 3600 ∧ tm.tm_min.val = t % 3600 / 60 ∧ tm.tm_sec.val = t % 60
  date : ∀ t tm t' tm', InRange t → InRange t' → lib.gmtime t = some tm →
    lib.gmtime t' = some tm' → t / 86400 = t' / 86400 →
      tm.tm_year = tm'.tm_year ∧ tm.tm_mon = tm'.tm_mon ∧ tm.tm_mday = tm'.tm_mday
  month : ∀ t tm, InRange t → lib.gmtime t = some tm → 0 ≤ tm.tm_mon.val ∧ tm.tm_mon.val ≤ 11
  year : ∀ t tm, InRange t → lib.gmtime t = some tm → 70 ≤ tm.tm_year.val ∧ tm.tm_year.val ≤ 655

/-! ### `CIEC_ANY_DATE` -/

variable (lib : CLibrary)

/-- `setDateAndTime`: what it returns and leaves in the variable. -/
def setDateAndTime (mAnyData : BitVec 64) (paTM : Tm) (paMilliSec : BitVec 32) : Bool × BitVec 64 :=
  let nTime := lib.timegm { paTM with tm_isdst := NativeType.int.convert (-1) }
  if nTime = -1 then (false, mAnyData)
  else (true, (BitVec.ofInt 64 nTime * 1000 + paMilliSec.setWidth 64) * 1000000)

/-- `getTimeStruct`. -/
def getTimeStruct (mAnyData : BitVec 64) : Option Tm :=
  lib.gmtime (mAnyData / (1000 * 1000000)).toInt

/-- `getMilliSeconds`. -/
def getMilliSeconds (mAnyData : BitVec 64) : BitVec 32 :=
  (mAnyData / 1000000 % 1000).setWidth 32

/-! ### Parts -/

/-- The parts of a date and time. -/
structure Parts where
  YEAR : CIEC_ANY_INT
  MONTH : CIEC_ANY_INT
  DAY : CIEC_ANY_INT
  HOUR : CIEC_ANY_INT
  MINUTE : CIEC_ANY_INT
  SECOND : CIEC_ANY_INT
  MILLISECOND : CIEC_ANY_INT

/-- A part as an `int`. -/
def toTm (part : CIEC_ANY_INT) : NativeType.int.Value :=
  if part.isSigned then NativeType.int.convert part.getSignedValue
  else NativeType.int.convert part.getUnsignedValue

/-- A part that is counted from another number on, subtracted in 64 bits. -/
def toTmFrom (first : ℤ) (part : CIEC_ANY_INT) : Option NativeType.int.Value :=
  if part.isSigned then
    (sub (AnyInt.lint.native.convert part.getSignedValue) (NativeType.int.convert first)).map
      fun r => NativeType.int.convert r.val
  else
    (sub (AnyInt.ulint.native.convert part.getUnsignedValue) (NativeType.int.convert first)).map
      fun r => NativeType.int.convert r.val

/-- The milliseconds as an `unsigned int`. -/
def toMilliSec (part : CIEC_ANY_INT) : BitVec 32 :=
  if part.isSigned then BitVec.ofInt 32 part.getSignedValue
  else BitVec.ofNat 32 part.getUnsignedValue

/-- `func_CONCAT_DT`; `none` is undefined behaviour. -/
def func_CONCAT_DT (parts : Parts) : Option (BitVec 64) := do
  let tm_year ← toTmFrom 1900 parts.YEAR
  let tm_mon ← toTmFrom 1 parts.MONTH
  let concatTime : Tm :=
    { Tm.zero with
      tm_year := tm_year
      tm_mon := tm_mon
      tm_mday := toTm parts.DAY
      tm_hour := toTm parts.HOUR
      tm_min := toTm parts.MINUTE
      tm_sec := toTm parts.SECOND }
  pure (setDateAndTime lib 0 concatTime (toMilliSec parts.MILLISECOND)).2

/-- `func_SPLIT_LDT`, with the variables that it writes to; `none` is undefined behaviour, as
reading what `getTimeStruct` has not set. -/
def func_SPLIT_LDT (paValue : BitVec 64) (parts : Parts) : Option Parts := do
  let timeStruct ← getTimeStruct lib paValue
  let year ← add timeStruct.tm_year (NativeType.int.convert 1900)
  let month ← add timeStruct.tm_mon (NativeType.int.convert 1)
  pure
    { YEAR := parts.YEAR.setUnsignedValue year
      MONTH := parts.MONTH.setUnsignedValue month
      DAY := parts.DAY.setUnsignedValue timeStruct.tm_mday
      HOUR := parts.HOUR.setUnsignedValue timeStruct.tm_hour
      MINUTE := parts.MINUTE.setUnsignedValue timeStruct.tm_min
      SECOND := parts.SECOND.setUnsignedValue timeStruct.tm_sec
      MILLISECOND := parts.MILLISECOND.setUnsignedValue (getMilliSeconds paValue).toNat }

/-! ### Date and time of day -/

/-- `func_LDT_TO_LDATE`. -/
def func_LDT_TO_LDATE (nBuffer : BitVec 64) : BitVec 64 :=
  match lib.gmtime (nBuffer / 1000000000).toInt with
  | none => 0
  | some ptm =>
    let zero := NativeType.int.convert 0
    let t := lib.timegm { ptm with tm_hour := zero, tm_min := zero, tm_sec := zero }
    if t = -1 then 0 else BitVec.ofInt 64 t * 1000000000

/-- `func_LDT_TO_LTOD`. -/
def func_LDT_TO_LTOD (nBuffer : BitVec 64) : BitVec 64 :=
  match lib.gmtime (nBuffer / 1000000000).toInt with
  | none => 0
  | some ptm =>
    (BitVec.ofInt 64 ptm.tm_hour * 3600 + BitVec.ofInt 64 ptm.tm_min * 60 +
      BitVec.ofInt 64 ptm.tm_sec) * 1000000000 + nBuffer % 1000000000

/-! ### Parts that were set -/

section Parts

variable (x : CIEC_ANY_INT) {z : ℤ}

/-- The difference of two numbers that a type of 64 bits has. -/
theorem map_convert_sub {t : NativeType} (ht : t.width = 64) {first : ℤ} (hz : 0 ≤ z)
    (hfirst : 0 ≤ first) (hfits : t.Fits (z + first)) (hint : NativeType.int.Fits first) :
    ((sub (t.convert (z + first)) (NativeType.int.convert first)).map fun r =>
      NativeType.int.convert r.val) = some (NativeType.int.convert z) := by
  have hcommon : t.common .int = t := by
    have hpromote : t.promote = t := if_neg (by omega)
    rw [NativeType.common, hpromote]
    refine if_neg ?_
    change ¬(t.width < 32 ∨ t.width = 32 ∧ t.signed = true)
    omega
  have hz' : t.Fits z := ⟨t.range.2.1.trans hz, by have := hfits.2; omega⟩
  obtain ⟨r, hr, hwrap⟩ := exists_result (t := t.common .int) (x := z) fun _ => hcommon.symm ▸ hz'
  rw [sub_eq, hfits.convert_val, hint.convert_val, Int.add_sub_cancel, hr, Option.map_some]
  refine congrArg some (Subtype.ext (hwrap _ ?_))
  exact width_le_common_right t .int

theorem toTmFrom_setUnsignedValue {first : ℤ} (hz : 0 ≤ z) (hlt : z < 2 ^ 30) (hfirst : 0 ≤ first)
    (hlt' : first < 2 ^ 30) :
    toTmFrom first (x.setUnsignedValue (z + first)) = some (NativeType.int.convert z) := by
  obtain ⟨hunsigned, hsigned, -⟩ :=
    x.holds_setUnsignedValue (n := z + first) (by omega) (by omega)
  have hint : NativeType.int.Fits first :=
    ⟨(by decide : NativeType.int.min ≤ 0).trans hfirst,
      hlt'.le.trans (by decide : 2 ^ 30 ≤ NativeType.int.max)⟩
  have hfits : ∀ t : AnyInt, 2 ^ 31 ≤ t.native.max → t.native.Fits (z + first) := fun t ht =>
    ⟨t.native.range.2.1.trans (by omega), le_trans (by omega) ht⟩
  rw [toTmFrom, hsigned, hunsigned]
  split_ifs
  · exact map_convert_sub rfl hz hfirst (hfits .lint (by decide)) hint
  · exact map_convert_sub rfl hz hfirst (hfits .ulint (by decide)) hint

theorem toTm_setUnsignedValue (v : NativeType.int.Value) : toTm (x.setUnsignedValue v) = v := by
  have hmin : -2 ^ 31 ≤ v.val := v.2.1
  have hmax : v.val ≤ 2 ^ 31 - 1 := v.2.2
  have hsigned : (x.setUnsignedValue v).getSignedValue = v :=
    BitVec.toInt_ofInt_eq_self (by decide) (by omega) (by omega)
  have hunsigned : ((x.setUnsignedValue v).getUnsignedValue : ℤ) = v.val % (2 ^ 64 : ℕ) := by
    rw [CIEC_ANY_INT.getUnsignedValue, CIEC_ANY_INT.setUnsignedValue, BitVec.toNat_ofInt,
      Int.toNat_of_nonneg (Int.emod_nonneg _ (by decide))]
  rw [toTm, hsigned, hunsigned]
  split_ifs
  · exact Subtype.ext v.2.convert_val
  · refine Subtype.ext (Eq.trans ?_ v.2.convert_val)
    exact wrap_eq_wrap_iff.mpr ((Int.mod_modEq v.val _).of_dvd (by decide))

theorem toMilliSec_setUnsignedValue (m : BitVec 32) :
    toMilliSec (x.setUnsignedValue m.toNat) = m := by
  have hlt : (m.toNat : ℤ) < 2 ^ 63 := by
    have := m.isLt
    omega
  obtain ⟨hunsigned, hsigned, -⟩ := x.holds_setUnsignedValue (Int.natCast_nonneg m.toNat) hlt
  rw [toMilliSec, hsigned, Int.natCast_inj.mp hunsigned, BitVec.ofInt_natCast, ite_self,
    BitVec.ofNat_toNat, BitVec.setWidth_eq]

end Parts

/-! ### Seconds -/

section Seconds

variable (v : BitVec 64)

/-- The seconds of a date and time. -/
def seconds : ℤ := (v.toNat / 1000000000 : ℕ)

theorem inRange_seconds : InRange (seconds v) := by
  have hlt : v.toNat < 18446744073709551616 := v.isLt
  rw [InRange, seconds]
  omega

theorem toInt_udiv : (v / 1000000000).toInt = seconds v := by
  have hdiv : (v / 1000000000).toNat = v.toNat / 1000000000 := BitVec.toNat_udiv
  have hlt : v.toNat < 18446744073709551616 := v.isLt
  rw [BitVec.toInt_eq_toNat_of_lt (by rw [hdiv]; omega), hdiv, seconds]

variable {lib} {v}

theorem setDateAndTime_seconds (h : BrokenDown lib) {tm tm' : Tm}
    (hgmtime : lib.gmtime (seconds v) = some tm) (hsame : tm'.SameTime tm) (mAnyData : BitVec 64) :
    setDateAndTime lib mAnyData tm' (getMilliSeconds v) =
      (true, BitVec.ofNat 64 (v.toNat / 1000000 * 1000000)) := by
  have htimegm : lib.timegm { tm' with tm_isdst := NativeType.int.convert (-1) } = seconds v :=
    h.timegm_gmtime _ _ (inRange_seconds v) hgmtime _ hsame
  have hne : seconds v ≠ -1 := by
    have := (inRange_seconds v).1
    omega
  rw [setDateAndTime, htimegm, if_neg hne]
  have hmilli : (getMilliSeconds v).setWidth 64 = BitVec.ofNat 64 (v.toNat / 1000000 % 1000) := by
    refine BitVec.eq_of_toNat_eq ?_
    have hrest : (v / 1000000 % 1000).toNat = v.toNat / 1000000 % 1000 := by
      rw [BitVec.toNat_umod, BitVec.toNat_udiv]
      rfl
    rw [getMilliSeconds, BitVec.toNat_setWidth, BitVec.toNat_setWidth, hrest, BitVec.toNat_ofNat]
    omega
  have hnumber : v.toNat / 1000000 * 1000000 =
      (v.toNat / 1000000000 * 1000 + v.toNat / 1000000 % 1000) * 1000000 := by omega
  rw [hmilli, hnumber, seconds, BitVec.ofInt_natCast, BitVec.ofNat_mul, BitVec.ofNat_add,
    BitVec.ofNat_mul]
  rfl

theorem getTimeStruct_eq (h : BrokenDown lib) (v : BitVec 64) :
    ∃ tm, getTimeStruct lib v = some tm ∧ lib.gmtime (seconds v) = some tm := by
  obtain ⟨tm, htm⟩ := h.exists_gmtime _ (inRange_seconds v)
  refine ⟨tm, ?_, htm⟩
  rw [← htm, ← toInt_udiv]
  rfl

/-- **Parts of a date and time** make the same instant again, without what is below the
milliseconds. -/
theorem concat_split (h : BrokenDown lib) (v : BitVec 64) (parts : Parts) :
    ∃ parts', func_SPLIT_LDT lib v parts = some parts' ∧
      func_CONCAT_DT lib parts' = some (BitVec.ofNat 64 (v.toNat / 1000000 * 1000000)) := by
  obtain ⟨tm, hget, htm⟩ := getTimeStruct_eq h v
  obtain ⟨hyear, hyear'⟩ := h.year _ tm (inRange_seconds v) htm
  obtain ⟨hmonth, hmonth'⟩ := h.month _ tm (inRange_seconds v) htm
  have hmax : (2 : ℤ) ^ 30 ≤ NativeType.int.max := by decide
  have hzero : NativeType.int.min ≤ 0 := by decide
  have hfirst : (NativeType.int.convert 1900).val = 1900 ∧ (NativeType.int.convert 1).val = 1 := by
    decide
  -- the sums for the year and the month do not overflow
  obtain ⟨year, hadd, hsum⟩ := exists_add tm.tm_year (NativeType.int.convert 1900)
    ⟨by rw [hfirst.1]; omega, by rw [hfirst.1]; omega⟩ (by rw [hfirst.1]; omega)
  obtain ⟨month, hadd', hsum'⟩ := exists_add tm.tm_mon (NativeType.int.convert 1)
    ⟨by rw [hfirst.2]; omega, by rw [hfirst.2]; omega⟩ (by rw [hfirst.2]; omega)
  rw [hfirst.1] at hsum
  rw [hfirst.2] at hsum'
  refine ⟨_, by rw [func_SPLIT_LDT, hget, Option.bind_eq_bind, Option.bind_some, hadd,
    Option.bind_eq_bind, Option.bind_some, hadd']; rfl, ?_⟩
  have hyearBack := toTmFrom_setUnsignedValue parts.YEAR (z := tm.tm_year)
    (by omega) (by omega) (by decide : (0 : ℤ) ≤ 1900) (by decide)
  have hmonthBack := toTmFrom_setUnsignedValue parts.MONTH (z := tm.tm_mon)
    (by omega) (by omega) (by decide : (0 : ℤ) ≤ 1) (by decide)
  rw [func_CONCAT_DT, hsum, hsum', hyearBack, hmonthBack]
  simp only [Option.bind_eq_bind, Option.bind_some, toTm_setUnsignedValue,
    toMilliSec_setUnsignedValue]
  have hsame : ({ Tm.zero with
      tm_year := NativeType.int.convert tm.tm_year.val
      tm_mon := NativeType.int.convert tm.tm_mon.val
      tm_mday := tm.tm_mday
      tm_hour := tm.tm_hour
      tm_min := tm.tm_min
      tm_sec := tm.tm_sec } : Tm).SameTime tm :=
    ⟨rfl, rfl, rfl, rfl, Subtype.ext tm.tm_mon.2.convert_val, Subtype.ext tm.tm_year.2.convert_val⟩
  exact congrArg (fun r => some (Prod.snd r)) (setDateAndTime_seconds h htm hsame 0)

/-- The first second of a day. -/
theorem timegm_midnight (h : BrokenDown lib) {t : ℤ} (ht : InRange t) {tm : Tm} (tm' : Tm)
    (htm : lib.gmtime t = some tm) (hhour : tm'.tm_hour.val = 0) (hmin : tm'.tm_min.val = 0)
    (hsec : tm'.tm_sec.val = 0) (hyear : tm'.tm_year = tm.tm_year) (hmon : tm'.tm_mon = tm.tm_mon)
    (hmday : tm'.tm_mday = tm.tm_mday) : lib.timegm tm' = t - t % 86400 := by
  have hrange : InRange (t - t % 86400) := by
    rw [InRange] at ht ⊢
    omega
  obtain ⟨first, hfirst⟩ := h.exists_gmtime _ hrange
  obtain ⟨hyear', hmon', hmday'⟩ := h.date _ _ _ _ hrange ht hfirst htm (by omega)
  obtain ⟨hhour', hmin', hsec'⟩ := h.time _ _ hrange hfirst
  refine h.timegm_gmtime _ _ hrange hfirst tm' ⟨Subtype.ext ?_, Subtype.ext ?_, Subtype.ext ?_,
    hmday.trans hmday'.symm, hmon.trans hmon'.symm, hyear.trans hyear'.symm⟩
  · omega
  · omega
  · omega

/-- **The date** is the midnight before. -/
theorem ldate_eq (h : BrokenDown lib) (v : BitVec 64) : func_LDT_TO_LDATE lib v =
    BitVec.ofNat 64 (v.toNat / 86400000000000 * 86400000000000) := by
  obtain ⟨tm, htm⟩ := h.exists_gmtime _ (inRange_seconds v)
  have hzero : (NativeType.int.convert 0).val = 0 := by decide
  have hmidnight := timegm_midnight h (inRange_seconds v) { tm with
    tm_hour := NativeType.int.convert 0
    tm_min := NativeType.int.convert 0
    tm_sec := NativeType.int.convert 0 } htm hzero hzero hzero rfl rfl rfl
  have hnumber : seconds v - seconds v % 86400 = (v.toNat / 86400000000000 * 86400 : ℕ) := by
    rw [seconds]
    omega
  have hne : ((v.toNat / 86400000000000 * 86400 : ℕ) : ℤ) ≠ -1 := by omega
  have hnanos : v.toNat / 86400000000000 * 86400000000000 =
      v.toNat / 86400000000000 * 86400 * 1000000000 := by omega
  rw [func_LDT_TO_LDATE, toInt_udiv, htm]
  simp only [hmidnight, hnumber]
  rw [if_neg hne, BitVec.ofInt_natCast, hnanos]
  exact (BitVec.ofNat_mul _ _).symm

/-- **The time of day** is what is left of the day. -/
theorem ltod_eq (h : BrokenDown lib) (v : BitVec 64) : func_LDT_TO_LTOD lib v =
    BitVec.ofNat 64 (v.toNat % 86400000000000) := by
  obtain ⟨tm, htm⟩ := h.exists_gmtime _ (inRange_seconds v)
  obtain ⟨hhour, hmin, hsec⟩ := h.time _ _ (inRange_seconds v) htm
  obtain ⟨n, hn⟩ : ∃ n, n = v.toNat / 1000000000 := ⟨_, rfl⟩
  have hhour : tm.tm_hour.val = (n % 86400 / 3600 : ℕ) := by
    rw [hhour, seconds, ← hn]
    rfl
  have hmin : tm.tm_min.val = (n % 3600 / 60 : ℕ) := by
    rw [hmin, seconds, ← hn]
    rfl
  have hsec : tm.tm_sec.val = (n % 60 : ℕ) := by
    rw [hsec, seconds, ← hn]
    rfl
  have hrest : v % 1000000000 = BitVec.ofNat 64 (v.toNat % 1000000000) := BitVec.umod_def
  have hnumber : v.toNat % 86400000000000 = (n % 86400 / 3600 * 3600 + n % 3600 / 60 * 60 +
      n % 60) * 1000000000 + v.toNat % 1000000000 := by omega
  rw [func_LDT_TO_LTOD, toInt_udiv, htm]
  simp only [hhour, hmin, hsec, BitVec.ofInt_natCast]
  rw [hrest, hnumber, BitVec.ofNat_add, BitVec.ofNat_mul, BitVec.ofNat_add, BitVec.ofNat_add,
    BitVec.ofNat_mul, BitVec.ofNat_mul]
  rfl

/-- **Date and time of day** add up. -/
theorem date_add_time (h : BrokenDown lib) (v : BitVec 64) :
    (func_LDT_TO_LDATE lib v).toNat + (func_LDT_TO_LTOD lib v).toNat = v.toNat := by
  have hlt : v.toNat < 18446744073709551616 := v.isLt
  rw [ldate_eq h, ltod_eq h, BitVec.toNat_ofNat, BitVec.toNat_ofNat]
  omega

end Seconds

/-! ### Composition -/

/-- A calendar that does not get beyond the first month, which is enough for times in it. -/
def january : CLibrary where
  gmtime t := some
    { tm_sec := NativeType.int.convert (t % 60)
      tm_min := NativeType.int.convert (t % 3600 / 60)
      tm_hour := NativeType.int.convert (t % 86400 / 3600)
      tm_mday := NativeType.int.convert (t / 86400 + 1)
      tm_mon := NativeType.int.convert 0
      tm_year := NativeType.int.convert 70
      tm_wday := NativeType.int.convert ((t / 86400 + 4) % 7)
      tm_yday := NativeType.int.convert (t / 86400)
      tm_isdst := NativeType.int.convert 0 }
  timegm tm := (tm.tm_mday.val - 1) * 86400 + tm.tm_hour.val * 3600 + tm.tm_min.val * 60 +
    tm.tm_sec.val

theorem brokenDown_january : BrokenDown january := by
  have hfits : ∀ z : ℤ, 0 ≤ z → z < 2 ^ 31 → (NativeType.int.convert z).val = z := fun z hz hlt =>
    Fits.convert_val ⟨(by decide : NativeType.int.min ≤ 0).trans hz,
      (by omega : z ≤ 2 ^ 31 - 1).trans (by decide)⟩
  have htime : ∀ t, InRange t → (NativeType.int.convert (t % 86400 / 3600)).val = t % 86400 / 3600 ∧
      (NativeType.int.convert (t % 3600 / 60)).val = t % 3600 / 60 ∧
      (NativeType.int.convert (t % 60)).val = t % 60 := fun t ht =>
    ⟨hfits _ (by omega) (by omega), hfits _ (by omega) (by omega), hfits _ (by omega) (by omega)⟩
  constructor
  · exact fun t _ => ⟨_, rfl⟩
  · rintro t _ ht ⟨⟩ tm' ⟨hsec, hmin, hhour, hmday, -, -⟩
    obtain ⟨hhour', hmin', hsec'⟩ := htime t ht
    obtain ⟨hlower, hupper⟩ := ht
    have hday := hfits (t / 86400 + 1) (by omega) (by omega)
    change (tm'.tm_mday.val - 1) * 86400 + tm'.tm_hour.val * 3600 + tm'.tm_min.val * 60 +
      tm'.tm_sec.val = t
    rw [hsec, hmin, hhour, hmday, hhour', hmin', hsec', hday]
    omega
  · rintro t _ ht ⟨⟩
    exact htime t ht
  · rintro t _ t' _ - - ⟨⟩ ⟨⟩ h
    exact ⟨rfl, rfl, by rw [h]⟩
  · rintro t _ - ⟨⟩
    exact (by decide : 0 ≤ (NativeType.int.convert 0).val ∧ (NativeType.int.convert 0).val ≤ 11)
  · rintro t _ - ⟨⟩
    exact (by decide :
      70 ≤ (NativeType.int.convert 70).val ∧ (NativeType.int.convert 70).val ≤ 655)

end Forte.DateTime
