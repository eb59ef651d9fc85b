/-!
# The Gregorian calendar

Dates of the proleptic Gregorian calendar, with a year zero and negative years before it, and the
number of days from the first of January 1970 to a date.

## Main definitions

* `Date` and `Date.valid` — the dates that exist.
* `Date.days` — the day number of a date.
* `Date.ofDays` — the date of a day number.

## Main results

* `Calendar.daysBeforeYear_yearOf` — the year of a day starts by that day, and the next one after
  it.
-/

namespace SealedLedger

namespace Calendar

/-! ### Years -/

/-- The year has a twenty-ninth of February. -/
def isLeap (y : Int) : Bool :=
  y % 4 == 0 && (y % 100 != 0 || y % 400 == 0)

/-- The days from the first day of year one to the first day of a year. -/
def daysBeforeYear (y : Int) : Int :=
  365 * (y - 1) + (y - 1) / 4 - (y - 1) / 100 + (y - 1) / 400

/-- The year that a day falls in, counted from the first day of year one. Four hundred years have
146097 days, so the proportion misses the year by one at most. -/
def yearOf (n : Int) : Int :=
  let y := 400 * n / 146097 + 1
  if n < daysBeforeYear y then y - 1
  else if daysBeforeYear (y + 1) ≤ n then y + 1
  else y

/-- The year of a day starts by that day, and the next year starts after it. -/
theorem daysBeforeYear_yearOf (n : Int) :
    daysBeforeYear (yearOf n) ≤ n ∧ n < daysBeforeYear (yearOf n + 1) := by
  unfold yearOf
  simp only
  split
  · next h =>
    constructor
    · simp only [daysBeforeYear] at h ⊢
      omega
    · simpa using h
  · next h =>
    split
    · next h' =>
      refine ⟨h', ?_⟩
      simp only [daysBeforeYear] at h h' ⊢
      omega
    · next h' => exact ⟨by omega, by omega⟩

/-! ### Months -/

/-- The days of a year before each month, and before the next year. -/
def daysBeforeMonth (leap : Bool) : List Nat :=
  if leap then [0, 31, 60, 91, 121, 152, 182, 213, 244, 274, 305, 335, 366]
  else [0, 31, 59, 90, 120, 151, 181, 212, 243, 273, 304, 334, 365]

/-- The days of a year before a month, the first month being one. -/
def monthStart (leap : Bool) (m : Nat) : Nat :=
  (daysBeforeMonth leap).getD (m - 1) 0

/-- The number of days of a month. -/
def monthLength (leap : Bool) (m : Nat) : Nat :=
  monthStart leap (m + 1) - monthStart leap m

/-- The month that a day of a year falls in: as many months as have begun by that day. -/
def monthOf (leap : Bool) (dayOfYear : Nat) : Nat :=
  ((daysBeforeMonth leap).takeWhile (· ≤ dayOfYear)).length

/-- The days from the first day of year one to the first of January 1970. -/
def epoch : Int := 719162

end Calendar

/-- A date: its year, and its month and day from one. -/
structure Date where
  year : Int
  month : Nat
  day : Nat
  deriving DecidableEq

namespace Date

open Calendar

/-- The date exists. -/
def valid (d : Date) : Bool :=
  1 ≤ d.month && d.month ≤ 12 && 1 ≤ d.day && d.day ≤ monthLength (isLeap d.year) d.month

/-- The days from the first of January 1970 to a date. -/
def days (d : Date) : Int :=
  daysBeforeYear d.year + (monthStart (isLeap d.year) d.month + (d.day - 1) : Nat) - epoch

/-- The date that is so many days after the first of January 1970. -/
def ofDays (n : Int) : Date :=
  let y := yearOf (n + epoch)
  let dayOfYear := (n + epoch - daysBeforeYear y).toNat
  let m := monthOf (isLeap y) dayOfYear
  ⟨y, m, dayOfYear - monthStart (isLeap y) m + 1⟩

end Date

end SealedLedger
