import Mathlib.Logic.Function.Basic
import SealedLedger.Calendar

/-!
# Days and dates correspond

Every day number is the number of the date it stands for. The year of a day is settled by the law
of `yearOf`; the day within the year then lies between the starts of two months, one of which is
the month of the date.

## Main results

* `Calendar.daysBeforeYear_succ` — the length of a year
* `Calendar.monthStart_monthOf` — a day falls between the start of its month and the next one's
* `Date.days_ofDays` — the date of a day number has that number
* `Date.valid_ofDays` — and it exists
-/

namespace SealedLedger

namespace Calendar

/-- A year has 366 days when it is a leap year, and 365 otherwise. -/
theorem daysBeforeYear_succ (y : Int) :
    daysBeforeYear (y + 1) = daysBeforeYear y + if isLeap y then 366 else 365 := by
  have hleap : isLeap y = true ↔ y % 4 = 0 ∧ (y % 100 ≠ 0 ∨ y % 400 = 0) := by
    simp [isLeap]
  split
  · next h =>
    rw [hleap] at h
    simp only [daysBeforeYear]
    omega
  · next h =>
    rw [hleap] at h
    simp only [daysBeforeYear]
    omega

/-- **A day falls between the start of its month and the next one's**, in one of twelve months. -/
theorem monthStart_monthOf {leap : Bool} {d : Nat} (h : d < if leap then 366 else 365) :
    1 ≤ monthOf leap d ∧ monthOf leap d ≤ 12 ∧ monthStart leap (monthOf leap d) ≤ d ∧
      d < monthStart leap (monthOf leap d + 1) := by
  have key : ∀ leap : Bool, ∀ d < if leap then 366 else 365,
      1 ≤ monthOf leap d ∧ monthOf leap d ≤ 12 ∧ monthStart leap (monthOf leap d) ≤ d ∧
        d < monthStart leap (monthOf leap d + 1) := by
    decide +kernel
  exact key leap d h

/-- No month is longer than thirty-one days. -/
theorem monthLength_le {leap : Bool} {m : Nat} (hm : 1 ≤ m ∧ m ≤ 12) : monthLength leap m ≤ 31 := by
  have key : ∀ leap : Bool, ∀ m < 13, monthLength leap m ≤ 31 := by decide
  exact key leap m (by omega)

end Calendar

namespace Date

open Calendar

/-- The day of the year, counted from zero, that a day number falls on. -/
def dayOfYear (n : Int) : Nat :=
  (n + epoch - daysBeforeYear (yearOf (n + epoch))).toNat

theorem cast_dayOfYear (n : Int) :
    (dayOfYear n : Int) = n + epoch - daysBeforeYear (yearOf (n + epoch)) := by
  have := (daysBeforeYear_yearOf (n + epoch)).1
  exact Int.toNat_of_nonneg (by omega)

theorem dayOfYear_lt (n : Int) :
    dayOfYear n < if isLeap (yearOf (n + epoch)) then 366 else 365 := by
  have hnext := (daysBeforeYear_yearOf (n + epoch)).2
  have hday := cast_dayOfYear n
  rw [daysBeforeYear_succ] at hnext
  split
  · next h =>
    rw [if_pos h] at hnext
    omega
  · next h =>
    rw [if_neg h] at hnext
    omega

/-- What the date of a day number is made of: a month and a day in the bounds of the calendar. -/
theorem exists_ofDays_eq (n : Int) :
    ∃ m, ofDays n = ⟨yearOf (n + epoch), m,
        dayOfYear n - monthStart (isLeap (yearOf (n + epoch))) m + 1⟩ ∧
      (1 ≤ m ∧ m ≤ 12) ∧ monthStart (isLeap (yearOf (n + epoch))) m ≤ dayOfYear n ∧
      dayOfYear n < monthStart (isLeap (yearOf (n + epoch))) (m + 1) := by
  obtain ⟨hone, htwelve, hstart, hnext⟩ := monthStart_monthOf (dayOfYear_lt n)
  exact ⟨_, rfl, ⟨hone, htwelve⟩, hstart, hnext⟩

/-- **The date of a day number has that number.** -/
theorem days_ofDays (n : Int) : (ofDays n).days = n := by
  obtain ⟨m, hdate, -, hstart, -⟩ := exists_ofDays_eq n
  have hday := cast_dayOfYear n
  rw [hdate, days]
  dsimp only
  rw [Nat.add_sub_cancel, Nat.add_sub_cancel' hstart, hday]
  omega

theorem ofDays_injective : Function.Injective ofDays :=
  Function.LeftInverse.injective days_ofDays

/-- **The date of a day number exists.** -/
theorem valid_ofDays (n : Int) : (ofDays n).valid = true := by
  obtain ⟨m, hdate, ⟨hone, htwelve⟩, hstart, hnext⟩ := exists_ofDays_eq n
  rw [hdate]
  simp only [valid, Bool.and_eq_true, decide_eq_true_iff]
  refine ⟨⟨⟨hone, htwelve⟩, Nat.le_add_left ..⟩, ?_⟩
  rw [monthLength]
  omega

/-- The month and the day of a date that exists have at most two digits. -/
theorem lt_hundred_of_valid {d : Date} (h : d.valid = true) : d.month < 100 ∧ d.day < 100 := by
  simp only [valid, Bool.and_eq_true, decide_eq_true_iff] at h
  obtain ⟨⟨⟨hone, htwelve⟩, -⟩, hday⟩ := h
  have := @monthLength_le (isLeap d.year) d.month ⟨hone, htwelve⟩
  exact ⟨by omega, by omega⟩

end Date

end SealedLedger
