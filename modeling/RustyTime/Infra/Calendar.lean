import Mathlib.Logic.Function.Iterate
import Mathlib.Tactic.Ring

/-!
# The proleptic Gregorian calendar

A `Date` carries the proof that it is one, for years of any sign. The calendar is a succession:
every date has a next one, and `StepsAfter next n d e` says that `e` is `n` days after `d`, before
it when `n` is negative. A day count is any numbering that the succession steps by one.

* `eq_add_of_stepsAfter` — a day count is determined by its value at one date
* `stepsAfter_of_injective` — and it says which date comes when, if it tells dates apart
-/

namespace Infra.Calendar

/-! ## Dates -/

def IsLeap (year : ℤ) : Prop := 4 ∣ year ∧ (¬100 ∣ year ∨ 400 ∣ year)

instance (year : ℤ) : Decidable (IsLeap year) := inferInstanceAs (Decidable (_ ∧ _))

def daysInMonth (year month : ℤ) : ℤ :=
  if month = 2 then (if IsLeap year then 29 else 28)
  else if month = 4 ∨ month = 6 ∨ month = 9 ∨ month = 11 then 30
  else 31

theorem one_le_daysInMonth (year month : ℤ) : 1 ≤ daysInMonth year month := by
  unfold daysInMonth
  split
  · split <;> decide
  · split <;> decide

theorem daysInMonth_le (year month : ℤ) : daysInMonth year month ≤ 31 := by
  unfold daysInMonth
  split
  · split <;> decide
  · split <;> decide

@[ext] structure Date where
  year : ℤ
  month : ℤ
  day : ℤ
  one_le_month : 1 ≤ month
  month_le : month ≤ 12
  one_le_day : 1 ≤ day
  day_le : day ≤ daysInMonth year month

namespace Date

/-- The first of a month. -/
def firstOf (year month : ℤ) (hone : 1 ≤ month) (hle : month ≤ 12) : Date :=
  ⟨year, month, 1, hone, hle, le_refl 1, one_le_daysInMonth year month⟩

/-- The calendar day after this one. -/
def next (d : Date) : Date :=
  if hday : d.day < daysInMonth d.year d.month then
    ⟨d.year, d.month, d.day + 1, d.one_le_month, d.month_le, by have := d.one_le_day; omega, hday⟩
  else if hmonth : d.month < 12 then
    firstOf d.year (d.month + 1) (by have := d.one_le_month; omega) hmonth
  else firstOf (d.year + 1) 1 (le_refl 1) (by decide)

/-- Earlier in the calendar: by year, then month, then day. -/
def Before (d e : Date) : Prop :=
  d.year < e.year ∨ d.year = e.year ∧ (d.month < e.month ∨ d.month = e.month ∧ d.day < e.day)

instance (d e : Date) : Decidable (d.Before e) := inferInstanceAs (Decidable (_ ∨ _))

theorem before_or_eq_or_before (d e : Date) : d.Before e ∨ d = e ∨ e.Before d := by
  by_cases hsame : d.year = e.year ∧ d.month = e.month ∧ d.day = e.day
  · exact .inr (.inl (Date.ext hsame.1 hsame.2.1 hsame.2.2))
  · have hapart : d.Before e ∨ e.Before d := by
      unfold Before
      omega
    exact hapart.imp_right .inr

end Date

/-! ## Succession -/

section Succession

variable {α : Type*} {next : α → α} {count : α → ℤ}

/-- `e` is `n` steps after `d`; before it when `n` is negative. -/
def StepsAfter (next : α → α) (n : ℤ) (d e : α) : Prop :=
  (∃ k : ℕ, n = k ∧ next^[k] d = e) ∨ ∃ k : ℕ, n = -(k : ℤ) ∧ next^[k] e = d

theorem count_iterate (hnext : ∀ d, count (next d) = count d + 1) (k : ℕ) (d : α) :
    count (next^[k] d) = count d + k := by
  induction k generalizing d with
  | zero => simp
  | succ k ih =>
    rw [Function.iterate_succ_apply, ih, hnext]
    push_cast
    ring

/-- A count is determined by its value at one place. -/
theorem eq_add_of_stepsAfter (hnext : ∀ d, count (next d) = count d + 1) {n : ℤ} {d e : α}
    (h : StepsAfter next n d e) : count e = count d + n := by
  rcases h with ⟨k, rfl, rfl⟩ | ⟨k, rfl, rfl⟩
  · exact count_iterate hnext k d
  · rw [count_iterate hnext k e]
    ring

/-- A count that tells places apart says how far one is after the other. -/
theorem stepsAfter_of_injective (hnext : ∀ d, count (next d) = count d + 1)
    (hinj : Function.Injective count) (d e : α) : StepsAfter next (count e - count d) d e := by
  rcases le_total (count d) (count e) with hle | hle
  · refine .inl ⟨(count e - count d).toNat, by omega, hinj ?_⟩
    rw [count_iterate hnext]
    omega
  · refine .inr ⟨(count d - count e).toNat, by omega, hinj ?_⟩
    rw [count_iterate hnext]
    omega

end Succession

end Infra.Calendar
