import Mathlib.Order.SuccPred.IntervalSucc
import RustyTime.Infra.Calendar
import RustyTime.Nts.Dates

/-!
# Certificate dates convert to the right second

The code's year starts in March, so the leap day ends it. `monthStart` is the day on which a month
starts; a month's length is the way to the next one's start.

* `monthStart_succ`, `monthStart_december` — the months have the calendar's lengths
* `dayNumber_next`, `dayNumber_lt` — the next day is the next number, a later one is greater
* `daysFromCivil_eq` — the code computes the number wherever an `i64` holds it
* `time_of_encoded` — a date and time of day, written in either format, is its Unix second
* `unixSecond_lt_or_eq` — a later instant has a later one, except right after a leap second
* `dates_convert` — all of it
-/

namespace RustyTime

open Infra.Calendar

/-! ## The day number -/

/-- The year the code counts with. -/
def yearFromMarch (year month : ℤ) : ℤ := if month ≤ 2 then year - 1 else year

/-- The days of the March-based years before `y`. -/
def daysBefore (y : ℤ) : ℤ := 365 * y + y / 4 - y / 100 + y / 400

/-- The days from 0000-03-01 to the first of a month. -/
def monthStart (year month : ℤ) : ℤ :=
  daysBefore (yearFromMarch year month) + (153 * ((month + 9) % 12) + 2) / 5

/-- Days from 1970-01-01, over all the integers. -/
def dayNumber (d : Date) : ℤ := monthStart d.year d.month + (d.day - 1) - 719468

theorem isLeap_iff (year : ℤ) :
    IsLeap year ↔ year % 4 = 0 ∧ (year % 100 ≠ 0 ∨ year % 400 = 0) := by
  unfold IsLeap
  omega

/-- February ends the March-based year: it takes what the others leave of it. -/
theorem daysBefore_succ (year : ℤ) :
    daysBefore year = daysBefore (year - 1) + 337 + daysInMonth year 2 := by
  unfold daysBefore daysInMonth
  rw [if_pos rfl]
  split
  · next hleap =>
    rw [isLeap_iff] at hleap
    omega
  · next hleap =>
    rw [isLeap_iff] at hleap
    omega

theorem monthStart_succ (year : ℤ) {month : ℤ} (hone : 1 ≤ month) (hlt : month < 12) :
    monthStart year (month + 1) = monthStart year month + daysInMonth year month := by
  by_cases hfeb : month = 2
  · subst hfeb
    have hyear := daysBefore_succ year
    unfold monthStart yearFromMarch
    rw [if_neg (by decide), if_pos (by decide)]
    omega
  · have hyear : yearFromMarch year (month + 1) = yearFromMarch year month := by
      unfold yearFromMarch
      split <;> split <;> omega
    unfold monthStart daysInMonth
    rw [hyear, if_neg hfeb]
    split
    · next hshort => rcases hshort with rfl | rfl | rfl | rfl <;> omega
    · next hlong =>
      have hmonth : month = 1 ∨ month = 3 ∨ month = 5 ∨ month = 7 ∨ month = 8 ∨ month = 10 := by
        omega
      rcases hmonth with rfl | rfl | rfl | rfl | rfl | rfl <;> omega

theorem monthStart_december (year : ℤ) :
    monthStart (year + 1) 1 = monthStart year 12 + daysInMonth year 12 := by
  unfold monthStart yearFromMarch daysInMonth
  rw [if_pos (by decide), if_neg (by decide), if_neg (by decide), if_neg (by decide),
    add_sub_cancel_right]
  omega

/-- **The next calendar day is the next number**, over month ends, leap days, centuries and eras. -/
theorem dayNumber_next (d : Date) : dayNumber d.next = dayNumber d + 1 := by
  have hle := d.day_le
  unfold Date.next
  split
  · unfold dayNumber
    dsimp only
    ring
  · next hlast =>
    have hday : d.day = daysInMonth d.year d.month := by omega
    split
    · next hmonth =>
      have hstart := monthStart_succ d.year d.one_le_month hmonth
      unfold dayNumber Date.firstOf
      dsimp only
      omega
    · next hmonth =>
      have hdecember : d.month = 12 := by have := d.month_le; omega
      have hstart := monthStart_december d.year
      unfold dayNumber Date.firstOf
      dsimp only
      rw [hdecember] at hday ⊢
      omega

/-! ## Order -/

/-- The start of the month `t`, the months counted from January of the year 0. -/
def startOf (t : ℤ) : ℤ := monthStart (t / 12) (t % 12 + 1)

theorem startOf_succ (t : ℤ) : startOf (t + 1) = startOf t + daysInMonth (t / 12) (t % 12 + 1) := by
  unfold startOf
  by_cases hdecember : t % 12 = 11
  · have hstart := monthStart_december (t / 12)
    rw [show (t + 1) / 12 = t / 12 + 1 by omega, show (t + 1) % 12 + 1 = 1 by omega, hdecember]
    exact hstart
  · rw [show (t + 1) / 12 = t / 12 by omega, show (t + 1) % 12 + 1 = t % 12 + 1 + 1 by omega]
    exact monthStart_succ (t / 12) (by omega) (by omega)

theorem startOf_mono {t u : ℤ} (h : t ≤ u) : startOf t ≤ startOf u := by
  have hmono : Monotone startOf := monotone_int_of_le_succ fun t => by
    have hlen := one_le_daysInMonth (t / 12) (t % 12 + 1)
    have hsucc := startOf_succ t
    omega
  exact hmono h

theorem dayNumber_eq_startOf (d : Date) :
    dayNumber d = startOf (12 * d.year + (d.month - 1)) + (d.day - 1) - 719468 := by
  have hone := d.one_le_month
  have hle := d.month_le
  have hyear : (12 * d.year + (d.month - 1)) / 12 = d.year := by omega
  have hmonth : (12 * d.year + (d.month - 1)) % 12 + 1 = d.month := by omega
  rw [dayNumber, startOf, hyear, hmonth]

/-- **A later date has a greater number.** -/
theorem dayNumber_lt {d e : Date} (h : d.Before e) : dayNumber d < dayNumber e := by
  have hd := d.day_le
  have he := e.one_le_day
  have hd1 := d.one_le_month
  have hd12 := d.month_le
  have he1 := e.one_le_month
  have he12 := e.month_le
  rw [dayNumber_eq_startOf, dayNumber_eq_startOf]
  unfold Date.Before at h
  by_cases hmonth : d.year = e.year ∧ d.month = e.month
  · rw [hmonth.1, hmonth.2]
    omega
  · -- the month of the earlier date ends before the later one's starts
    have hyear : (12 * d.year + (d.month - 1)) / 12 = d.year := by omega
    have hmonth : (12 * d.year + (d.month - 1)) % 12 + 1 = d.month := by omega
    have hend := startOf_succ (12 * d.year + (d.month - 1))
    rw [hyear, hmonth] at hend
    have hstart := startOf_mono
      (show 12 * d.year + (d.month - 1) + 1 ≤ 12 * e.year + (e.month - 1) by omega)
    omega

theorem dayNumber_injective : Function.Injective dayNumber := by
  intro d e hsame
  rcases d.before_or_eq_or_before e with h | h | h
  · exact absurd hsame (dayNumber_lt h).ne
  · exact h
  · exact absurd hsame (dayNumber_lt h).ne'

theorem one_le_january : (1 : ℤ) ≤ 1 := by decide

theorem one_le_december : (1 : ℤ) ≤ 12 := by decide

def newYear (year : ℤ) : Date := .firstOf year 1 one_le_january one_le_december

/-- 1970-01-01. -/
def epoch : Date := newYear 1970

theorem dayNumber_epoch : dayNumber epoch = 0 := by decide

/-- The number of a date is how many days it is after the epoch. -/
theorem stepsAfter_epoch_iff (d : Date) (n : ℤ) :
    StepsAfter Date.next n epoch d ↔ dayNumber d = n := by
  constructor
  · intro h
    have hn := eq_add_of_stepsAfter dayNumber_next h
    rwa [dayNumber_epoch, zero_add] at hn
  · rintro rfl
    have h := stepsAfter_of_injective dayNumber_next dayNumber_injective epoch d
    rwa [dayNumber_epoch, sub_zero] at h

/-! ## What the code computes -/

theorem i64_eq_some_iff {x n : ℤ} :
    i64 x = some n ↔ (-9223372036854775808 ≤ x ∧ x ≤ 9223372036854775807) ∧ x = n := by
  unfold i64
  rw [Option.ite_none_right_eq_some, Option.some.injEq]

/-- The code's two ways of counting agree: eras, years of the era and days of the year. -/
theorem daysBefore_eras (y : ℤ) :
    daysBefore y =
      y / 400 * 146097 + ((y - y / 400 * 400) * 365 + (y - y / 400 * 400).tdiv 4
        - (y - y / 400 * 400).tdiv 100) := by
  have hpos : 0 ≤ y - y / 400 * 400 := by omega
  rw [Int.tdiv_eq_ediv_of_nonneg hpos, Int.tdiv_eq_ediv_of_nonneg hpos]
  unfold daysBefore
  omega

/-- The days from the start of the era that the code adds to the eras' own. -/
def dayOfEra (d : Date) : ℤ :=
  let y := yearFromMarch d.year d.month
  (y - y / 400 * 400) * 365 + (y - y / 400 * 400).tdiv 4 - (y - y / 400 * 400).tdiv 100 +
    ((153 * (d.month + 9).tmod 12 + 2).tdiv 5 + d.day - 1)

theorem dayNumber_eq_eras (d : Date) :
    dayNumber d = yearFromMarch d.year d.month / 400 * 146097 + dayOfEra d - 719468 := by
  have hone := d.one_le_month
  rw [dayNumber, monthStart, daysBefore_eras, dayOfEra, Int.tmod_eq_emod_of_nonneg (by omega),
    Int.tdiv_eq_ediv_of_nonneg (show 0 ≤ 153 * ((d.month + 9) % 12) + 2 by omega)]
  ring

/-- The day of the year and of the era are small. -/
theorem dayOfEra_bounds (d : Date) :
    0 ≤ (153 * (d.month + 9).tmod 12 + 2).tdiv 5 ∧
      (153 * (d.month + 9).tmod 12 + 2).tdiv 5 ≤ 337 ∧ 0 ≤ dayOfEra d ∧ dayOfEra d ≤ 146499 := by
  have hone := d.one_le_month
  have hday := d.one_le_day
  have hlast := d.day_le.trans (daysInMonth_le d.year d.month)
  have hyoe : 0 ≤ yearFromMarch d.year d.month - yearFromMarch d.year d.month / 400 * 400 ∧
      yearFromMarch d.year d.month - yearFromMarch d.year d.month / 400 * 400 ≤ 399 := by omega
  rw [dayOfEra, Int.tmod_eq_emod_of_nonneg (by omega),
    Int.tdiv_eq_ediv_of_nonneg (show 0 ≤ 153 * ((d.month + 9) % 12) + 2 by omega),
    Int.tdiv_eq_ediv_of_nonneg hyoe.1, Int.tdiv_eq_ediv_of_nonneg hyoe.1]
  omega

theorem marchYear_eq_some_iff (d : Date) {y : ℤ} :
    marchYear d.year d.month = some y ↔
      (d.month ≤ 2 → -9223372036854775807 ≤ d.year ∧ d.year ≤ 9223372036854775808) ∧
        yearFromMarch d.year d.month = y := by
  unfold marchYear yearFromMarch
  split
  · rw [i64_eq_some_iff]
    omega
  · simp
    omega

/-- Where the code returns, it returns the day number; and it does where an `i64` holds the number
and the sum it takes 719468 from. -/
theorem daysFromCivil_eq_some_iff (d : Date) {n : ℤ} :
    daysFromCivil d.year d.month d.day = some n ↔
      (-9223372036854775808 ≤ dayNumber d ∧ dayNumber d + 719468 ≤ 9223372036854775807) ∧
        dayNumber d = n := by
  have hone := d.one_le_month
  have hle := d.month_le
  have hday := d.one_le_day
  have hlast := d.day_le.trans (daysInMonth_le d.year d.month)
  obtain ⟨hmonth0, hmonth, hera0, hera⟩ := dayOfEra_bounds d
  have hyear : yearFromMarch d.year d.month = d.year - 1 ∧ d.month ≤ 2 ∨
      yearFromMarch d.year d.month = d.year ∧ ¬d.month ≤ 2 := by
    unfold yearFromMarch
    split
    · next h => exact .inl ⟨rfl, h⟩
    · next h => exact .inr ⟨rfl, h⟩
  rw [dayNumber_eq_eras]
  unfold daysFromCivil
  simp only [Option.bind_eq_bind, Option.bind_eq_some_iff, i64_eq_some_iff, marchYear_eq_some_iff,
    ↓existsAndEq, and_true]
  have hera' : (yearFromMarch d.year d.month - yearFromMarch d.year d.month / 400 * 400) * 365 +
        (yearFromMarch d.year d.month - yearFromMarch d.year d.month / 400 * 400).tdiv 4 -
        (yearFromMarch d.year d.month - yearFromMarch d.year d.month / 400 * 400).tdiv 100 +
      ((153 * (d.month + 9).tmod 12 + 2).tdiv 5 + d.day - 1) = dayOfEra d := rfl
  rw [hera']
  omega

theorem daysFromCivil_eq (d : Date) :
    daysFromCivil d.year d.month d.day =
      if -9223372036854775808 ≤ dayNumber d ∧ dayNumber d + 719468 ≤ 9223372036854775807 then
        some (dayNumber d)
      else none := by
  refine Option.ext fun n => ?_
  rw [daysFromCivil_eq_some_iff, Option.ite_none_right_eq_some, Option.some.injEq]

/-- The years that a certificate can write. -/
theorem daysFromCivil_of_written (d : Date) (hzero : 0 ≤ d.year) (hyear : d.year ≤ 9999) :
    daysFromCivil d.year d.month d.day = some (dayNumber d) := by
  have hone := d.one_le_month
  have hle := d.month_le
  have hday := d.one_le_day
  have hlast := d.day_le.trans (daysInMonth_le d.year d.month)
  have hmarch : -1 ≤ yearFromMarch d.year d.month ∧ yearFromMarch d.year d.month ≤ 9999 := by
    unfold yearFromMarch
    split <;> omega
  refine (daysFromCivil_eq_some_iff d).2 ⟨?_, rfl⟩
  unfold dayNumber monthStart daysBefore
  omega

/-! ## What a certificate writes -/

/-- A date and a time of day. The second 60 is a leap second's. -/
structure Stamp where
  date : Date
  hour : ℕ
  minute : ℕ
  second : ℕ
  hour_le : hour ≤ 23
  minute_le : minute ≤ 59
  second_le : second ≤ 60

namespace Stamp

/-- Earlier, as the instants are. -/
def Before (x y : Stamp) : Prop :=
  x.date.Before y.date ∨ x.date = y.date ∧ (x.hour < y.hour ∨
    x.hour = y.hour ∧ (x.minute < y.minute ∨ x.minute = y.minute ∧ x.second < y.second))

/-- Seconds since the epoch, every day counted as 86400. -/
def unixSecond (x : Stamp) : ℤ :=
  dayNumber x.date * 86400 + x.hour * 3600 + x.minute * 60 + x.second

end Stamp

def twoDigits (n : ℕ) : List Char := [Nat.digitChar (n / 10 % 10), Nat.digitChar (n % 10)]

def fourDigits (n : ℕ) : List Char := twoDigits (n / 100) ++ twoDigits n

/-- Month, day, hour, minute and second: what both formats write after the year. -/
def Stamp.fields (x : Stamp) : List Char :=
  twoDigits x.date.month.toNat ++ twoDigits x.date.day.toNat ++ twoDigits x.hour ++
    twoDigits x.minute ++ twoDigits x.second

def zulu (digits : List Char) : List UInt8 := asBytes (String.ofList (digits ++ ['Z']))

/-- `value` is the time `x`, as a UTCTime or a GeneralizedTime. -/
inductive Encoded (x : Stamp) : UInt8 → List UInt8 → Prop
  | utc (hfrom : 1950 ≤ x.date.year) (hto : x.date.year ≤ 2049) :
    Encoded x 0x17 (zulu (twoDigits x.date.year.toNat ++ x.fields))
  | generalized (hfrom : 0 ≤ x.date.year) (hto : x.date.year ≤ 9999) :
    Encoded x 0x18 (zulu (fourDigits x.date.year.toNat ++ x.fields))

/-! ## Reading it back -/

theorem ofDigitChars_twoDigits (n acc : ℕ) :
    Nat.ofDigitChars 10 (twoDigits n) acc = 100 * acc + n % 100 := by
  rw [twoDigits, Nat.ofDigitChars_cons_digitChar_of_lt_ten (by omega),
    Nat.ofDigitChars_cons_digitChar_of_lt_ten (by omega), Nat.ofDigitChars_nil]
  omega

theorem parse_twoDigits {n : ℕ} (h : n ≤ 99) : Dates.parse (twoDigits n) = n := by
  rw [Dates.parse, ofDigitChars_twoDigits]
  omega

theorem parse_fourDigits {n : ℕ} (h : n ≤ 9999) : Dates.parse (fourDigits n) = n := by
  rw [Dates.parse, fourDigits, Nat.ofDigitChars_append, ofDigitChars_twoDigits,
    ofDigitChars_twoDigits]
  omega

theorem twoDigits_all (n : ℕ) : (twoDigits n).all Char.isDigit = true := by
  have htens : n / 10 % 10 < 10 := by omega
  have hunits : n % 10 < 10 := by omega
  simp [twoDigits, htens, hunits]

theorem Stamp.fields_all (x : Stamp) : x.fields.all Char.isDigit = true := by
  simp [Stamp.fields, twoDigits_all]

@[simp] theorem stripZ_append (digits : List Char) :
    Dates.stripZ (digits ++ ['Z']) = some digits := by
  simp [Dates.stripZ]

/-- Both formats are read alike once the year is. -/
theorem time_of_yearOf (x : Stamp) {tag : UInt8} {digits : List Char}
    (hdigits : digits.all Char.isDigit = true)
    (hyear : Dates.yearOf tag digits = some (x.date.year, x.fields))
    (hzero : 0 ≤ x.date.year) (hle : x.date.year ≤ 9999) :
    Dates.time tag (zulu digits) = some x.unixSecond := by
  have hone := x.date.one_le_month
  have hmonth := x.date.month_le
  have hday1 := x.date.one_le_day
  have hday := x.date.day_le.trans (daysInMonth_le x.date.year x.date.month)
  have hhour := x.hour_le
  have hminute := x.minute_le
  have hsecond := x.second_le
  have h0 : Dates.parse ((x.fields.drop 0).take 2) = x.date.month := by
    refine (parse_twoDigits (show x.date.month.toNat ≤ 99 by omega)).trans ?_
    omega
  have h2 : Dates.parse ((x.fields.drop 2).take 2) = x.date.day := by
    refine (parse_twoDigits (show x.date.day.toNat ≤ 99 by omega)).trans ?_
    omega
  have h4 : Dates.parse ((x.fields.drop 4).take 2) = x.hour := parse_twoDigits (by omega)
  have h6 : Dates.parse ((x.fields.drop 6).take 2) = x.minute := parse_twoDigits (by omega)
  have h8 : Dates.parse ((x.fields.drop 8).take 2) = x.second := parse_twoDigits (by omega)
  unfold Dates.time zulu
  rw [fromUtf8_asBytes]
  simp only [Option.bind_eq_bind, Option.bind_some, String.toList_ofList, stripZ_append, hdigits,
    hyear, h0, h2, h4, h6, h8, Bool.not_true, Bool.false_eq_true, if_false]
  rw [if_neg (by omega), daysFromCivil_of_written x.date hzero hle]
  rfl

/-- **What is written is read**: in either format, the Unix second of the date and time of day. -/
theorem time_of_encoded {x : Stamp} {tag : UInt8} {value : List UInt8}
    (h : Encoded x tag value) : Dates.time tag value = some x.unixSecond := by
  cases h with
  | utc hfrom hto =>
    refine time_of_yearOf x ?_ ?_ (by omega) (by omega)
    · rw [List.all_append, twoDigits_all, x.fields_all, Bool.and_self]
    · -- the years from 1950 on are those whose two digits are at least 50
      have hyy := ofDigitChars_twoDigits x.date.year.toNat 0
      have hyear : Dates.parse ((twoDigits x.date.year.toNat ++ x.fields).take 2)
          = x.date.year % 100 := by
        change ((Nat.ofDigitChars 10 (twoDigits x.date.year.toNat) 0 : ℕ) : ℤ) = _
        omega
      have hlen : (twoDigits x.date.year.toNat ++ x.fields).length = 12 := rfl
      unfold Dates.yearOf
      rw [if_pos ⟨rfl, hlen⟩]
      dsimp only
      rw [hyear]
      congr 2
      split <;> omega
  | generalized hfrom hto =>
    refine time_of_yearOf x ?_ ?_ hfrom hto
    · rw [List.all_append, fourDigits, List.all_append, twoDigits_all, twoDigits_all, x.fields_all]
      rfl
    · have hyear : Dates.parse ((fourDigits x.date.year.toNat ++ x.fields).take 4)
          = x.date.year := by
        refine (parse_fourDigits (show x.date.year.toNat ≤ 9999 by omega)).trans ?_
        omega
      have hlen : (fourDigits x.date.year.toNat ++ x.fields).length = 14 := rfl
      unfold Dates.yearOf
      rw [if_neg fun h => absurd h.1 (by decide), if_pos ⟨rfl, hlen⟩, hyear]
      rfl

/-! ## The order of the instants -/

/-- A later instant has a later second, the one after a leap second excepted: they share theirs. -/
theorem unixSecond_lt_or_eq {x y : Stamp} (h : x.Before y) :
    x.unixSecond < y.unixSecond ∨
      x.second = 60 ∧ y.second = 0 ∧ x.unixSecond = y.unixSecond := by
  have hhour := x.hour_le
  have hminute := x.minute_le
  have hsecond := x.second_le
  have hminute' := y.minute_le
  unfold Stamp.Before at h
  unfold Stamp.unixSecond
  rcases h with hdate | ⟨hdate, h⟩
  · have hlt := dayNumber_lt hdate
    omega
  · rw [hdate]
    omega

/-! ## Certificate dates -/

theorem newYearsEve : (12 : ℤ) ≤ 12 ∧ (1 : ℤ) ≤ 31 ∧ (31 : ℤ) ≤ daysInMonth 2016 12 := by
  decide

/-- The last second of 2016, which was a leap second. -/
def leapSecond2016 : Stamp :=
  ⟨⟨2016, 12, 31, one_le_december, newYearsEve.1, newYearsEve.2.1, newYearsEve.2.2⟩,
    23, 59, 60, le_refl 23, le_refl 59, le_refl 60⟩

/-- The second after it. -/
def newYear2017 : Stamp :=
  ⟨newYear 2017, 0, 0, 0, Nat.zero_le 23, Nat.zero_le 59, Nat.zero_le 60⟩

/-- A date whose day number is beyond an `i64`, though its year is not. -/
def farDate : Date := newYear 100000000000000000

/-- **Certificate dates convert to the right second.** The day count is the calendar's: it is the
number of days from 1970-01-01 wherever that and the sum it is taken from are an `i64`, and the
code overflows elsewhere. A date and time of day in either format is read as its Unix second, and
a later instant as a later one; only the instant after a leap second is read as the same one. -/
theorem dates_convert :
    (∀ d : Date, ∃ n, StepsAfter Date.next n epoch d ∧
      daysFromCivil d.year d.month d.day =
        if -9223372036854775808 ≤ n ∧ n + 719468 ≤ 9223372036854775807 then some n else none) ∧
    (∀ (d : Date) (n m : ℤ), daysFromCivil d.year d.month d.day = some n →
      daysFromCivil d.next.year d.next.month d.next.day = some m → m = n + 1) ∧
    daysFromCivil 1970 1 1 = some 0 ∧
    (∀ (x : Stamp) (tag : UInt8) (value : List UInt8), Encoded x tag value →
      ∃ n, StepsAfter Date.next n epoch x.date ∧
        Dates.time tag value = some (n * 86400 + x.hour * 3600 + x.minute * 60 + x.second)) ∧
    ∀ (x y : Stamp) (tag tag' : UInt8) (value value' : List UInt8), Encoded x tag value →
      Encoded y tag' value' → x.Before y →
      ∃ t u, Dates.time tag value = some t ∧ Dates.time tag' value' = some u ∧
        (t < u ∨ x.second = 60 ∧ y.second = 0 ∧ t = u) := by
  refine ⟨fun d => ?_, fun d n m hn hm => ?_, by decide, fun x tag value h => ?_,
    fun x y tag tag' value value' hx hy hbefore => ?_⟩
  · exact ⟨dayNumber d, (stepsAfter_epoch_iff d _).2 rfl, daysFromCivil_eq d⟩
  · have hn := ((daysFromCivil_eq_some_iff d).1 hn).2
    have hm := ((daysFromCivil_eq_some_iff d.next).1 hm).2
    rw [dayNumber_next] at hm
    omega
  · exact ⟨dayNumber x.date, (stepsAfter_epoch_iff x.date _).2 rfl, time_of_encoded h⟩
  · exact ⟨_, _, time_of_encoded hx, time_of_encoded hy, unixSecond_lt_or_eq hbefore⟩

/-- A leap second and the second after it are different instants with one Unix second; and the
days of a year that is an `i64` may overflow one. -/
theorem leap_second_shares_its_second :
    (∃ value value', Encoded leapSecond2016 0x17 value ∧ Encoded newYear2017 0x17 value' ∧
      leapSecond2016.Before newYear2017 ∧
      Dates.time 0x17 value = some 1483228800 ∧ Dates.time 0x17 value' = some 1483228800) ∧
    daysFromCivil farDate.year farDate.month farDate.day = none := by
  have hleap := Encoded.utc (x := leapSecond2016) (by decide) (by decide)
  have hyear := Encoded.utc (x := newYear2017) (by decide) (by decide)
  refine ⟨⟨_, _, hleap, hyear, .inl (by decide), ?_, ?_⟩, ?_⟩
  · exact (time_of_encoded hleap).trans (by decide)
  · exact (time_of_encoded hyear).trans (by decide)
  · decide

end RustyTime
