import SealedLedger.Proofs.Timestamp.Stored
import SealedLedger.Timestamp.Internet

/-!
# A text names one second

A timestamp is had in three ways: it is the second that an instant falls in, it is converted from an
Internet timestamp, or it is read from a stored text. Whichever way it was had, it is read back from
its own text, so two timestamps have the same text only when they are the same.

The timestamps are the seconds of the years -262143 to 262142. An Internet timestamp has a year of
four digits, but its offset may carry it over the end of that range by less than a day: the years of
what is converted are -1 to 10000, written `-0001` and `+10000` at the ends.

## Main results

* `Timestamp.inRange_iff` — the range of timestamps in years
* `Instant.exists_iff`, `Instant.ofUnix?_eq_some_iff` — the instants, and those that are counted
* `Timestamp.year_ofInternet?` — the years of Internet timestamps
* `Timestamp.text_names_second` — however it was had, a timestamp is read back from its text
-/

namespace SealedLedger

/-! ### Years and days -/

namespace Calendar

/-- A year that has begun by the first day of a later one is an earlier year. -/
theorem lt_of_daysBeforeYear_lt {y z : Int} (h : daysBeforeYear y < daysBeforeYear z) : y < z := by
  simp only [daysBeforeYear] at h
  omega

theorem daysBeforeYear_mono {y z : Int} (h : y ≤ z) : daysBeforeYear y ≤ daysBeforeYear z :=
  not_lt.mp fun hlt => absurd (lt_of_daysBeforeYear_lt hlt) (not_lt.mpr h)

/-- **The year of a day** is not before a given one when the day is not. -/
theorem le_yearOf_iff {y n : Int} : y ≤ yearOf n ↔ daysBeforeYear y ≤ n := by
  obtain ⟨hbegins, hends⟩ := daysBeforeYear_yearOf n
  constructor
  · intro h
    exact (daysBeforeYear_mono h).trans hbegins
  · intro h
    have := lt_of_daysBeforeYear_lt (h.trans_lt hends)
    omega

theorem yearOf_le_iff {y n : Int} : yearOf n ≤ y ↔ n < daysBeforeYear (y + 1) := by
  rw [← Int.lt_add_one_iff, ← not_le, le_yearOf_iff, not_le]

end Calendar

namespace Date

open Calendar

theorem year_ofDays (n : Int) : (ofDays n).year = yearOf (n + epoch) :=
  rfl

/-- A date that exists falls in its year. -/
theorem days_bounds {d : Date} (h : d.valid = true) :
    daysBeforeYear d.year ≤ d.days + epoch ∧ d.days + epoch < daysBeforeYear d.year + 366 := by
  have hstart : ∀ leap : Bool, ∀ m < 14, monthStart leap m ≤ 366 := by decide
  simp only [valid, Bool.and_eq_true, decide_eq_true_iff] at h
  obtain ⟨⟨⟨hone, htwelve⟩, hday⟩, hlength⟩ := h
  have hnext := hstart (isLeap d.year) (d.month + 1) (by omega)
  rw [monthLength] at hlength
  rw [days]
  omega

end Date

namespace Timestamp

/-! ### Instants -/

/-- **The range of timestamps in years.** -/
theorem inRange_iff {unix : Int} : (-8334601228800 ≤ unix ∧ unix ≤ 8210266876799) ↔
    -262143 ≤ (Date.ofDays (unix / 86400)).year ∧ (Date.ofDays (unix / 86400)).year ≤ 262142 := by
  rw [Date.year_ofDays, Calendar.le_yearOf_iff, Calendar.yearOf_le_iff]
  simp only [Calendar.daysBeforeYear, Calendar.epoch]
  omega

theorem ofUnix?_eq_some_iff {unix : Int} {leap : Bool} {t : Timestamp} :
    ofUnix? unix leap = some t ↔ t.unix = unix ∧ t.leap = leap := by
  rw [ofUnix?]
  constructor
  · intro h
    split at h
    · rw [← Option.some.inj h]
      exact ⟨rfl, rfl⟩
    · cases h
  · rintro ⟨rfl, rfl⟩
    rw [dif_pos ⟨t.inRange, t.endsMinute⟩]

end Timestamp

namespace Instant

variable {seconds : Int} {nanoseconds : Nat} {i : Instant}

/-- **The instants** are those of the years in the range, with the nanoseconds of two seconds. -/
theorem exists_iff : (∃ i : Instant, i.seconds = seconds ∧ i.nanoseconds = nanoseconds) ↔
    (-262143 ≤ (Date.ofDays (seconds / 86400)).year ∧
      (Date.ofDays (seconds / 86400)).year ≤ 262142) ∧ nanoseconds < 2000000000 := by
  rw [← Timestamp.inRange_iff]
  constructor
  · rintro ⟨i, rfl, rfl⟩
    exact ⟨i.inRange, i.nanoseconds_lt⟩
  · exact fun h => ⟨⟨seconds, nanoseconds, h.1, h.2⟩, rfl, rfl⟩

/-- A count is that of an instant, unless it has the nanoseconds of two seconds inside a minute. -/
theorem ofUnix?_eq_some_iff : ofUnix? seconds nanoseconds = some i ↔
    i.seconds = seconds ∧ i.nanoseconds = nanoseconds ∧
      (nanoseconds < 1000000000 ∨ seconds % 60 = 59) := by
  rw [ofUnix?]
  constructor
  · intro h
    split at h
    · split at h
      · next hcount =>
        rw [← Option.some.inj h]
        exact ⟨rfl, rfl, hcount⟩
      · cases h
    · cases h
  · rintro ⟨rfl, rfl, hcount⟩
    rw [dif_pos ⟨i.inRange, i.nanoseconds_lt⟩, if_pos hcount]

end Instant

namespace Timestamp

/-! ### Internet timestamps -/

namespace Internet

variable {α β : Type} {bytes rest : List UInt8}

theorem exists_of_bind {x : Scan α} {f : α → Scan β} {b : β}
    (h : (x >>= f) bytes = .ok (b, rest)) :
    ∃ a left, x bytes = .ok (a, left) ∧ f a left = .ok (b, rest) := by
  change (x bytes).bind _ = _ at h
  cases hx : x bytes with
  | error cause =>
    rw [hx] at h
    cases h
  | ok p =>
    rw [hx] at h
    exact ⟨p.1, p.2, rfl, h⟩

theorem eq_of_pure {a b : α} (h : (pure a : Scan α) bytes = .ok (b, rest)) : a = b :=
  (Prod.mk.inj (Except.ok.inj h)).1

theorem digit?_lt {b : UInt8} {d : Nat} (h : digit? b = some d) : d < 10 := by
  rw [digit?] at h
  split at h
  · next hb =>
    obtain rfl := Option.some.inj h
    have hle : b.toNat ≤ 0x39 := hb.2
    omega
  · cases h

/-- Digits make a number below the power of ten of their width. -/
theorem digitsFrom_lt {width n m : Nat} (h : digitsFrom width n bytes = .ok (m, rest)) :
    m < (n + 1) * 10 ^ width := by
  induction width generalizing n bytes with
  | zero =>
    rw [digitsFrom] at h
    obtain ⟨rfl, -⟩ := Prod.mk.inj (Except.ok.inj h)
    omega
  | succ width ih =>
    cases bytes with
    | nil => cases h
    | cons b bytes =>
      rw [digitsFrom] at h
      split at h
      · cases h
      · next d hd =>
        have hdigit := digit?_lt hd
        calc m < (n * 10 + d + 1) * 10 ^ width := ih h
          _ ≤ (n + 1) * 10 * 10 ^ width := Nat.mul_le_mul_right _ (by omega)
          _ = (n + 1) * 10 ^ (width + 1) := by ring

/-- A date that was read exists, and its year has four digits. -/
theorem date_bounds {d : Date} (h : date bytes = .ok (d, rest)) :
    d.valid = true ∧ 0 ≤ d.year ∧ d.year ≤ 9999 := by
  obtain ⟨y, _, hy, h⟩ := exists_of_bind h
  obtain ⟨_, _, -, h⟩ := exists_of_bind h
  obtain ⟨m, _, -, h⟩ := exists_of_bind h
  obtain ⟨_, _, -, h⟩ := exists_of_bind h
  obtain ⟨day, _, -, h⟩ := exists_of_bind h
  have hyear := digitsFrom_lt hy
  dsimp only at h
  split at h
  · next hvalid =>
    obtain rfl := eq_of_pure h
    exact ⟨hvalid, Int.natCast_nonneg y, by dsimp only; omega⟩
  · cases h

/-- A time that was read is one of a day. -/
theorem time_bounds {hour minute second : Nat}
    (h : time bytes = .ok ((hour, minute, second), rest)) :
    hour * 3600 + minute * 60 + second < 86400 := by
  obtain ⟨_, _, -, h⟩ := exists_of_bind h
  obtain ⟨_, _, -, h⟩ := exists_of_bind h
  obtain ⟨_, _, -, h⟩ := exists_of_bind h
  obtain ⟨_, _, -, h⟩ := exists_of_bind h
  obtain ⟨_, _, -, h⟩ := exists_of_bind h
  obtain ⟨_, _, -, h⟩ := exists_of_bind h
  split at h
  · next hbounds =>
    have heq := eq_of_pure h
    simp only [Prod.mk.injEq] at heq
    omega
  · cases h

/-- **What is read of bytes**: an instant, with an offset of less than a day, and nothing behind
it. -/
theorem parse?_eq_ok_iff {t : Timestamp} : parse? bytes = .ok t ↔
    19 ≤ bytes.length ∧ ∃ o : Int, instant bytes = .ok ((t.unix, o), []) ∧ o.natAbs < 86400 ∧
      t.leap = false := by
  rw [parse?]
  constructor
  · intro h
    split at h
    · cases h
    next hlength =>
    split at h
    · cases h
    · cases h
    next seconds o hread =>
    split at h
    next hoffset =>
      split at h
      next t' hunix =>
        obtain rfl := Except.ok.inj h
        obtain ⟨rfl, hleap⟩ := ofUnix?_eq_some_iff.mp hunix
        exact ⟨by omega, o, hread, hoffset, hleap⟩
      · cases h
    · cases h
  · rintro ⟨hlength, o, hread, hoffset, hleap⟩
    rw [if_neg (by omega), hread]
    simp only [hoffset, if_true, ofUnix?_eq_some_iff.mpr ⟨rfl, hleap⟩]

/-- **An Internet timestamp is a local time of a year of four digits, less its offset.** -/
theorem exists_local_of_parse? {t : Timestamp} (h : parse? bytes = .ok t) :
    ∃ (d : Date) (second : Nat) (o : Int), d.valid = true ∧ (0 ≤ d.year ∧ d.year ≤ 9999) ∧
      second < 86400 ∧ o.natAbs < 86400 ∧ t.unix = d.days * 86400 + second - o := by
  obtain ⟨-, o, hread, hoffset, -⟩ := parse?_eq_ok_iff.mp h
  obtain ⟨d, _, hd, hread⟩ := exists_of_bind hread
  obtain ⟨_, _, -, hread⟩ := exists_of_bind hread
  obtain ⟨⟨hour, minute, second⟩, _, htime, hread⟩ := exists_of_bind hread
  obtain ⟨_, _, -, hread⟩ := exists_of_bind hread
  obtain ⟨hvalid, hyear⟩ := date_bounds hd
  obtain ⟨hseconds, rfl⟩ := Prod.mk.inj (eq_of_pure hread)
  refine ⟨d, hour * 3600 + minute * 60 + second, _, hvalid, hyear, time_bounds htime, hoffset, ?_⟩
  rw [← hseconds, secondsOf]

end Internet

/-- **The years of Internet timestamps**: the offset may carry the last day of a year of four digits
into the next year, and the first one into the year before. -/
theorem year_ofInternet? {s : String} {t : Timestamp} (h : ofInternet? s = .ok t) :
    -1 ≤ t.date.year ∧ t.date.year ≤ 10000 := by
  rw [ofInternet?] at h
  split at h
  · cases h
  · next hparse =>
    obtain rfl := Except.ok.inj h
    obtain ⟨d, second, o, hvalid, hyear, hsecond, ho, hunix⟩ :=
      Internet.exists_local_of_parse? hparse
    obtain ⟨hbegins, hends⟩ := Date.days_bounds hvalid
    have hfirst := Calendar.daysBeforeYear_mono hyear.1
    have hlast := Calendar.daysBeforeYear_mono hyear.2
    rw [date, Date.year_ofDays, Calendar.le_yearOf_iff, Calendar.yearOf_le_iff]
    rw [show Calendar.daysBeforeYear 0 = -366 from rfl] at hfirst
    rw [show Calendar.daysBeforeYear 9999 = 3651694 from rfl] at hlast
    rw [show Calendar.daysBeforeYear (-1) = -731 from rfl,
      show Calendar.daysBeforeYear (10000 + 1) = 3652425 from rfl]
    omega

/-! ### Names -/

/-- **A text names one second.** An instant of the years -262143 to 262142, with the nanoseconds of
two seconds, falls in the timestamp of its second, which is read back from its text; a count of
seconds and nanoseconds is that of an instant unless it has more than a second's nanoseconds inside
a minute. A timestamp that was converted from an Internet timestamp, whose year is -1 to 10000, is
read back from its text too, and so is one that was read from a stored text, which is the text it
has. Timestamps have the same text only when they are the same. -/
theorem text_names_second :
    (∀ seconds nanoseconds,
      ((∃ i : Instant, i.seconds = seconds ∧ i.nanoseconds = nanoseconds) ↔
        (-262143 ≤ (Date.ofDays (seconds / 86400)).year ∧
          (Date.ofDays (seconds / 86400)).year ≤ 262142) ∧ nanoseconds < 2000000000) ∧
      ∀ i, Instant.ofUnix? seconds nanoseconds = some i ↔
        i.seconds = seconds ∧ i.nanoseconds = nanoseconds ∧
          (nanoseconds < 1000000000 ∨ seconds % 60 = 59)) ∧
    (∀ i, (ofInstant i).unix = i.seconds ∧ parse? (ofInstant i).text = .ok (ofInstant i)) ∧
    (∀ s t, ofInternet? s = .ok t →
      (-1 ≤ t.date.year ∧ t.date.year ≤ 10000) ∧ parse? t.text = .ok t) ∧
    (∀ s t, parse? s = .ok t → t.text = s ∧ parse? t.text = .ok t) ∧
    ∀ t u : Timestamp, t.text = u.text ↔ t = u := by
  refine ⟨fun seconds nanoseconds => ⟨Instant.exists_iff, fun i => Instant.ofUnix?_eq_some_iff⟩,
    fun i => ⟨rfl, parse?_text _⟩, fun s t h => ?_, fun s t h => ?_, fun t u => ?_⟩
  · exact ⟨year_ofInternet? h, parse?_text t⟩
  · exact ⟨text_of_parse? h, parse?_text t⟩
  · exact text_injective.eq_iff

/-- The first instant of all, one with the nanoseconds of two seconds inside a minute, a local time
whose offset carries it out of the years of four digits at either end, and a leap second. -/
theorem text_names_second_at_the_ends :
    (∃ i, Instant.ofUnix? (-8334601228800) 999999999 = some i ∧
      (ofInstant i).text = "-262143-01-01T00:00:00Z" ∧
      parse? (ofInstant i).text = .ok (ofInstant i)) ∧
    (∃ i : Instant, i.seconds = 0 ∧ i.nanoseconds = 1500000000 ∧
      Instant.ofUnix? 0 1500000000 ≠ some i ∧
      (ofInstant i).text = "1970-01-01T00:00:00Z" ∧
      parse? (ofInstant i).text = .ok (ofInstant i)) ∧
    (∃ t, ofInternet? "9999-12-31T23:59:60.5-23:59" = .ok t ∧ t.text = "+10000-01-01T23:58:59Z" ∧
      parse? t.text = .ok t) ∧
    (∃ t, ofInternet? "0000-01-01T00:00:00+23:59" = .ok t ∧ t.text = "-0001-12-31T00:01:00Z" ∧
      parse? t.text = .ok t) ∧
    ∃ t, parse? "2016-12-31T23:59:60Z" = .ok t ∧ t.leap = true ∧ parse? t.text = .ok t := by
  obtain ⟨hcounts, hinstant, hinternet, hstored, -⟩ := text_names_second
  refine ⟨?_, ?_, ?_, ?_, ?_⟩
  · have hfirst : ofInstant ⟨-8334601228800, 999999999, by decide, by omega⟩
        = ⟨-8334601228800, false, by decide, by decide⟩ := rfl
    refine ⟨⟨-8334601228800, 999999999, by decide, by omega⟩,
      ((hcounts _ _).2 _).mpr ⟨rfl, rfl, by omega⟩, ?_, (hinstant _).2⟩
    rw [hfirst]
    rfl
  · have hlong : ofInstant ⟨0, 1500000000, by decide, by omega⟩ = epoch := rfl
    refine ⟨⟨0, 1500000000, by decide, by omega⟩, rfl, rfl, fun h => ?_, ?_, (hinstant _).2⟩
    · obtain ⟨-, -, hcount⟩ := ((hcounts _ _).2 _).mp h
      omega
    · rw [hlong]
      rfl
  · have h : ofInternet? "9999-12-31T23:59:60.5-23:59"
        = .ok ⟨253402387139, false, by decide, by decide⟩ := rfl
    exact ⟨_, h, rfl, (hinternet _ _ h).2⟩
  · have h : ofInternet? "0000-01-01T00:00:00+23:59"
        = .ok ⟨-62167305540, false, by decide, by decide⟩ := rfl
    exact ⟨_, h, rfl, (hinternet _ _ h).2⟩
  · have h : parse? "2016-12-31T23:59:60Z"
        = .ok ⟨1483228799, true, by decide, by decide⟩ := rfl
    exact ⟨_, h, rfl, (hstored _ _ h).2⟩

end Timestamp

end SealedLedger
