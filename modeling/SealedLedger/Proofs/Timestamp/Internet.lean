import SealedLedger.Proofs.Text.Utf8
import SealedLedger.Proofs.Timestamp.Naming

/-!
# An Internet timestamp is read as it is spelled

RFC 3339 leaves a choice in how an instant is spelled: the offset of the local time, the mark
between date and time, and any number of digits of a fraction. The reader finds the local time that
was spelled, drops the fraction and takes the offset off, so the choice makes no difference to the
second that it arrives at. A second number of 60 is read as 59.

## Main definitions

* `Internet.localText` — a date and a time of day
* `Internet.IsFraction`, `Internet.SpellsOffset` — what may stand behind them
* `Internet.Spells` — a text spells a local time and its offset

## Main results

* `Internet.parse?_localText` — the timestamp that is read
* `Internet.exists_timestamp` — every local time of a year of four digits is in range
* `Internet.ofInternet?_of_spells` — a spelling is read as its second
-/

namespace SealedLedger

namespace Timestamp

namespace Internet

/-! ### Spellings -/

/-- A mark between date and time. -/
def IsSeparator (c : Char) : Prop :=
  c = 'T' ∨ c = 't' ∨ c = ' '

/-- A date and a time of day, with a mark between them. -/
def localText (d : Date) (hour minute second : Nat) (separator : Char) : List Char :=
  Decimal.padded 4 d.year.natAbs ++ '-' :: Decimal.padded 2 d.month ++
    '-' :: Decimal.padded 2 d.day ++ separator :: Decimal.padded 2 hour ++
    ':' :: Decimal.padded 2 minute ++ ':' :: Decimal.padded 2 second

/-- A fraction of a second, if any: a point and at least one digit. -/
def IsFraction (cs : List Char) : Prop :=
  cs = [] ∨ ∃ ds : List Nat, ds ≠ [] ∧ (∀ d ∈ ds, d < 10) ∧ cs = '.' :: ds.map Decimal.digitChar

/-- The text spells an offset in minutes: its hours and minutes with a sign, which may be either for
no offset, or a single letter for no offset. -/
def SpellsOffset (o : Int) (cs : List Char) : Prop :=
  (o = 0 ∧ (cs = ['Z'] ∨ cs = ['z'])) ∨
    ∃ sign, (sign = '+' ∧ 0 ≤ o ∨ sign = '-' ∧ o ≤ 0) ∧
      cs = sign :: (Decimal.padded 2 (o.natAbs / 60) ++ ':' :: Decimal.padded 2 (o.natAbs % 60))

/-- The text spells a local time, counted in seconds from the start of 1970, and its offset in
minutes. -/
def Spells (s : String) (localTime o : Int) : Prop :=
  ∃ separator fraction zone, IsSeparator separator ∧ IsFraction fraction ∧ SpellsOffset o zone ∧
    s.toList = localText (.ofDays (localTime / 86400)) ((localTime % 86400).toNat / 3600)
      ((localTime % 86400).toNat / 60 % 60) ((localTime % 86400).toNat % 60) separator ++
        (fraction ++ zone)

/-- Every local time can be spelled with any offset. -/
theorem exists_spells (localTime o : Int) : ∃ s, Spells s localTime o := by
  have hsign : ∃ sign, sign = '+' ∧ 0 ≤ o ∨ sign = '-' ∧ o ≤ 0 := by
    rcases le_total 0 o with h | h
    · exact ⟨'+', .inl ⟨rfl, h⟩⟩
    · exact ⟨'-', .inr ⟨rfl, h⟩⟩
  obtain ⟨sign, hsign⟩ := hsign
  exact ⟨String.ofList _, 'T', [], _, .inl rfl, .inl rfl, .inr ⟨sign, hsign, rfl⟩,
    String.toList_ofList⟩

/-! ### Digits and marks -/

theorem toNat_digitChar_lt {d : Nat} (h : d < 10) : (Decimal.digitChar d).toNat < 0x80 := by
  have key : ∀ d : Fin 10, (Decimal.digitChar d).toNat < 0x80 := by decide
  exact key ⟨d, h⟩

theorem digit?_digitChar {d : Nat} (h : d < 10) :
    digit? (UInt8.ofNat (Decimal.digitChar d).toNat) = some d := by
  have key : ∀ d : Fin 10, digit? (UInt8.ofNat (Decimal.digitChar d).toNat) = some (d : Nat) := by
    decide
  exact key ⟨d, h⟩

theorem digitsFrom_encode {ds : List Nat} (hds : ∀ d ∈ ds, d < 10) (n : Nat) (rest : List Char) :
    digitsFrom ds.length n (Utf8.encode (ds.map Decimal.digitChar ++ rest))
      = .ok (n * 10 ^ ds.length + Decimal.ofDigits ds, Utf8.encode rest) := by
  induction ds generalizing n with
  | nil => simp [digitsFrom, Decimal.ofDigits]
  | cons d ds ih =>
    obtain ⟨hd, hds⟩ := List.forall_mem_cons.mp hds
    have hvalue : n * 10 ^ (ds.length + 1) + Decimal.ofDigits (d :: ds)
        = (n * 10 + d) * 10 ^ ds.length + Decimal.ofDigits ds := by
      rw [Decimal.ofDigits_cons]
      ring
    rw [List.map_cons, List.cons_append, Utf8.encode_cons_of_lt (toNat_digitChar_lt hd),
      List.length_cons, digitsFrom, digit?_digitChar hd, hvalue]
    exact ih hds _

/-- The digits of a number that is filled up to a width. -/
theorem exists_padded_eq_of_lt {w n : Nat} (hw : 0 < w) (hn : n < 10 ^ w) :
    ∃ ds : List Nat, Decimal.padded w n = ds.map Decimal.digitChar ∧ ds.length = w ∧
      (∀ d ∈ ds, d < 10) ∧ Decimal.ofDigits ds = n := by
  obtain ⟨ds, htext, -, hds, hvalue⟩ := exists_padded_eq w n
  have hlength := Decimal.length_padded hw hn
  rw [htext, List.length_map] at hlength
  exact ⟨ds, htext, hlength, hds, hvalue⟩

/-- **A number is read back** in the width that it was written with. -/
theorem digits_encode {w n : Nat} (hw : 0 < w) (hn : n < 10 ^ w) (rest : List Char) :
    digits w (Utf8.encode (Decimal.padded w n ++ rest)) = .ok (n, Utf8.encode rest) := by
  obtain ⟨ds, htext, rfl, hds, hvalue⟩ := exists_padded_eq_of_lt hw hn
  rw [htext, digits, digitsFrom_encode hds, hvalue, Nat.zero_mul, Nat.zero_add]

/-- Two digits are read back as a pair. -/
theorem pair_encode {n : Nat} (hn : n < 100) (rest : List Char) :
    pair (Utf8.encode (Decimal.padded 2 n ++ rest)) = .ok ((n / 10, n % 10), Utf8.encode rest) := by
  obtain ⟨ds, htext, hlength, hds, hvalue⟩ := exists_padded_eq_of_lt Nat.two_pos hn
  obtain ⟨a, b, rfl⟩ := List.length_eq_two.mp hlength
  have ha : a < 10 := hds a (by simp)
  have hb : b < 10 := hds b (by simp)
  obtain rfl : a * 10 + b = n := by simpa [Decimal.ofDigits] using hvalue
  rw [htext]
  simp only [List.map_cons, List.map_nil, List.cons_append, List.nil_append,
    Utf8.encode_cons_of_lt (toNat_digitChar_lt ha), Utf8.encode_cons_of_lt (toNat_digitChar_lt hb),
    pair, digit?_digitChar ha, digit?_digitChar hb]
  rw [show (a * 10 + b) / 10 = a by omega, show (a * 10 + b) % 10 = b by omega]

theorem mark_encode {test : UInt8 → Bool} {c : Char} (hc : c.toNat < 0x80)
    (htest : test (UInt8.ofNat c.toNat) = true) (cs : List Char) :
    mark test (Utf8.encode (c :: cs)) = .ok ((), Utf8.encode cs) := by
  rw [Utf8.encode_cons_of_lt hc, mark, if_pos htest]

/-! ### Fractions and offsets -/

/-- What follows goes on with neither a digit nor a point. -/
def EndsTime (bytes : List UInt8) : Prop :=
  ∀ b more, bytes = b :: more → digit? b = none ∧ b ≠ 0x2E

theorem skipDigits_encode {ds : List Nat} {rest : List Char} (hds : ∀ d ∈ ds, d < 10)
    (hrest : EndsTime (Utf8.encode rest)) :
    skipDigits (Utf8.encode (ds.map Decimal.digitChar ++ rest)) = Utf8.encode rest := by
  induction ds with
  | nil =>
    rw [List.map_nil, List.nil_append, skipDigits]
    cases hbytes : Utf8.encode rest with
    | nil => rfl
    | cons b more => rw [List.dropWhile_cons_of_neg (by simp [(hrest b more hbytes).1])]
  | cons d ds ih =>
    obtain ⟨hd, hds⟩ := List.forall_mem_cons.mp hds
    rw [List.map_cons, List.cons_append, Utf8.encode_cons_of_lt (toNat_digitChar_lt hd), skipDigits,
      List.dropWhile_cons_of_pos (by simp [digit?_digitChar hd])]
    exact ih hds

/-- **A fraction is passed over.** -/
theorem fraction_encode {cs rest : List Char} (h : IsFraction cs)
    (hrest : EndsTime (Utf8.encode rest)) :
    fraction (Utf8.encode (cs ++ rest)) = .ok ((), Utf8.encode rest) := by
  rcases h with rfl | ⟨ds, hne, hds, rfl⟩
  · rw [List.nil_append]
    cases hbytes : Utf8.encode rest with
    | nil => rfl
    | cons b more => simp [fraction, (hrest b more hbytes).2]
  · obtain ⟨d, ds, rfl⟩ := List.exists_cons_of_ne_nil hne
    obtain ⟨hd, hds⟩ := List.forall_mem_cons.mp hds
    rw [List.cons_append, Utf8.encode_cons_of_lt (by decide), List.map_cons, List.cons_append,
      Utf8.encode_cons_of_lt (toNat_digitChar_lt hd)]
    simpa [fraction, digit?_digitChar hd] using skipDigits_encode hds hrest

variable {o : Int} {zone : List Char}

/-- An offset begins with a letter or a sign. -/
theorem SpellsOffset.endsTime (h : SpellsOffset o zone) : EndsTime (Utf8.encode zone) := by
  have hfirst : ∃ c cs, zone = c :: cs ∧ (c = 'Z' ∨ c = 'z' ∨ c = '+' ∨ c = '-') := by
    rcases h with ⟨-, rfl | rfl⟩ | ⟨sign, ⟨rfl, -⟩ | ⟨rfl, -⟩, rfl⟩ <;> simp
  obtain ⟨c, cs, rfl, hc⟩ := hfirst
  rcases hc with rfl | rfl | rfl | rfl <;>
  · rw [Utf8.encode_cons_of_lt (by decide)]
    rintro b more hbytes
    rw [← (List.cons.inj hbytes).1]
    decide

theorem offsetSign_encode {sign : Char} (h : sign = '+' ∨ sign = '-') (cs : List Char) :
    offsetSign (Utf8.encode (sign :: cs)) = .ok (decide (sign = '-'), Utf8.encode cs) := by
  rcases h with rfl | rfl <;>
  · rw [Utf8.encode_cons_of_lt (by decide)]
    simp [offsetSign]

/-- **An offset is read in seconds.** -/
theorem offset_encode (h : SpellsOffset o zone) (ho : o.natAbs < 1440) :
    offset (Utf8.encode zone) = .ok (60 * o, []) := by
  rcases h with ⟨rfl, rfl | rfl⟩ | ⟨sign, hsign, rfl⟩
  · rfl
  · rfl
  · have hchar : sign = '+' ∨ sign = '-' := hsign.imp And.left And.left
    have hascii : sign.toNat < 0x80 := by rcases hchar with rfl | rfl <;> decide
    have hletter : ¬(UInt8.ofNat sign.toNat = 0x5A ∨ UInt8.ofNat sign.toNat = 0x7A) := by
      rcases hchar with rfl | rfl <;> decide
    have hminutes := pair_encode (n := o.natAbs % 60) (by omega) []
    rw [List.append_nil, Utf8.encode_nil] at hminutes
    rw [Utf8.encode_cons_of_lt hascii, offset, if_neg hletter, ← Utf8.encode_cons_of_lt hascii,
      bind_of_ok (offsetSign_encode hchar _), bind_of_ok (pair_encode (by omega) _)]
    dsimp only
    rw [bind_of_ok (mark_encode (by decide) (by decide) _), bind_of_ok hminutes]
    dsimp only
    rw [if_neg (by omega)]
    have hvalue : (if decide (sign = '-') = true then
        -(((o.natAbs / 60 / 10 * 10 + o.natAbs / 60 % 10) * 3600 +
          (o.natAbs % 60 / 10 * 10 + o.natAbs % 60 % 10) * 60 : Nat) : Int)
      else ((o.natAbs / 60 / 10 * 10 + o.natAbs / 60 % 10) * 3600 +
          (o.natAbs % 60 / 10 * 10 + o.natAbs % 60 % 10) * 60 : Nat)) = 60 * o := by
      rcases hsign with ⟨rfl, hsign⟩ | ⟨rfl, hsign⟩
      · rw [if_neg (by decide)]
        omega
      · rw [if_pos (by decide)]
        omega
    rw [hvalue]
    rfl

/-! ### Dates and times -/

/-- **A date is read back.** -/
theorem date_encode {d : Date} (hd : d.valid = true) (hy : 0 ≤ d.year ∧ d.year ≤ 9999)
    (rest : List Char) :
    date (Utf8.encode (Decimal.padded 4 d.year.natAbs ++ '-' :: (Decimal.padded 2 d.month ++
      '-' :: (Decimal.padded 2 d.day ++ rest)))) = .ok (d, Utf8.encode rest) := by
  obtain ⟨hmonth, hday⟩ := Date.lt_hundred_of_valid hd
  rw [date, bind_of_ok (digits_encode (by decide) (by omega) _),
    bind_of_ok (mark_encode (by decide) (by decide) _),
    bind_of_ok (digits_encode (by decide) hmonth _),
    bind_of_ok (mark_encode (by decide) (by decide) _),
    bind_of_ok (digits_encode (by decide) hday _)]
  have hdate : (⟨(d.year.natAbs : Int), d.month, d.day⟩ : Date) = d := by
    rw [Int.natAbs_of_nonneg hy.1]
  simp only [hdate, hd, if_true]
  rfl

/-- **A time of day is read back**, without its fraction. A second number of 60 is read as 59. -/
theorem time_encode {hour minute second : Nat} (hh : hour ≤ 23) (hm : minute ≤ 59)
    (hs : second ≤ 60) {fraction rest : List Char} (hfraction : IsFraction fraction)
    (hrest : EndsTime (Utf8.encode rest)) :
    time (Utf8.encode (Decimal.padded 2 hour ++ ':' :: (Decimal.padded 2 minute ++
      ':' :: (Decimal.padded 2 second ++ (fraction ++ rest)))))
      = .ok ((hour, minute, min second 59), Utf8.encode rest) := by
  rw [time, bind_of_ok (digits_encode (by decide) (by omega) _),
    bind_of_ok (mark_encode (by decide) (by decide) _),
    bind_of_ok (digits_encode (by decide) (by omega) _),
    bind_of_ok (mark_encode (by decide) (by decide) _),
    bind_of_ok (digits_encode (by decide) (by omega) _),
    bind_of_ok (fraction_encode hfraction hrest), if_pos ⟨hh, hm, hs⟩]
  rfl

/-- **What is read of a local time and its offset.** -/
theorem instant_encode {d : Date} {hour minute second : Nat} {separator : Char}
    {fraction : List Char} (hd : d.valid = true) (hy : 0 ≤ d.year ∧ d.year ≤ 9999) (hh : hour ≤ 23)
    (hm : minute ≤ 59) (hs : second ≤ 60) (hseparator : IsSeparator separator)
    (hfraction : IsFraction fraction) (hzone : SpellsOffset o zone) (ho : o.natAbs < 1440) :
    instant (Utf8.encode (localText d hour minute second separator ++ (fraction ++ zone)))
      = .ok ((secondsOf d hour minute (min second 59) - 60 * o, 60 * o), []) := by
  have hascii : separator.toNat < 0x80 := by
    rcases hseparator with rfl | rfl | rfl <;> decide
  have hmark : (UInt8.ofNat separator.toNat == 0x54 || UInt8.ofNat separator.toNat == 0x74 ||
      UInt8.ofNat separator.toNat == 0x20) = true := by
    rcases hseparator with rfl | rfl | rfl <;> decide
  simp only [localText, List.append_assoc, List.cons_append]
  rw [instant, bind_of_ok (date_encode hd hy _), bind_of_ok (mark_encode hascii hmark _),
    bind_of_ok (time_encode hh hm hs hfraction hzone.endsTime)]
  dsimp only
  rw [bind_of_ok (offset_encode hzone ho)]
  rfl

/-! ### Whole texts -/

theorem length_localText {d : Date} {hour minute second : Nat} (hd : d.valid = true)
    (hy : 0 ≤ d.year ∧ d.year ≤ 9999) (hh : hour ≤ 23) (hm : minute ≤ 59) (hs : second ≤ 60)
    (separator : Char) : (localText d hour minute second separator).length = 19 := by
  obtain ⟨hmonth, hday⟩ := Date.lt_hundred_of_valid hd
  have hyear : d.year.natAbs < 10 ^ 4 := by omega
  have htwo : ∀ {n : Nat}, n < 100 → (Decimal.padded 2 n).length = 2 := fun h =>
    Decimal.length_padded (by decide) h
  simp [localText, Decimal.length_padded _ hyear, htwo hmonth, htwo hday,
    htwo (show hour < 100 by omega), htwo (show minute < 100 by omega),
    htwo (show second < 100 by omega)]

/-- **A local time is read as the second that its offset makes of it.** -/
theorem parse?_localText {d : Date} {hour minute second : Nat} {separator : Char}
    {fraction : List Char} (hd : d.valid = true) (hy : 0 ≤ d.year ∧ d.year ≤ 9999) (hh : hour ≤ 23)
    (hm : minute ≤ 59) (hs : second ≤ 60) (hseparator : IsSeparator separator)
    (hfraction : IsFraction fraction) (hzone : SpellsOffset o zone) (ho : o.natAbs < 1440)
    {t : Timestamp} (hunix : t.unix = secondsOf d hour minute (min second 59) - 60 * o)
    (hleap : t.leap = false) :
    parse? (Utf8.encode (localText d hour minute second separator ++ (fraction ++ zone)))
      = .ok t := by
  have hlength := Utf8.length_le_length_encode
    (localText d hour minute second separator ++ (fraction ++ zone))
  rw [List.length_append, length_localText hd hy hh hm hs] at hlength
  refine parse?_eq_ok_iff.mpr ⟨by omega, 60 * o, ?_, by omega, hleap⟩
  rw [hunix]
  exact instant_encode hd hy hh hm hs hseparator hfraction hzone ho

/-- **Every local time of a year of four digits is in range**, whatever its offset. -/
theorem exists_timestamp {u o : Int} (ho : o.natAbs < 1440)
    (hy : 0 ≤ (Date.ofDays ((u + 60 * o) / 86400)).year ∧
      (Date.ofDays ((u + 60 * o) / 86400)).year ≤ 9999) :
    ∃ t : Timestamp, t.unix = u ∧ t.leap = false := by
  rw [Date.year_ofDays, Calendar.le_yearOf_iff, Calendar.yearOf_le_iff,
    show Calendar.daysBeforeYear 0 = -366 from rfl,
    show Calendar.daysBeforeYear (9999 + 1) = 3652059 from rfl,
    show Calendar.epoch = 719162 from rfl] at hy
  exact ⟨⟨u, false, by omega, by simp⟩, rfl, rfl⟩

/-- **A spelling is read as its second.** -/
theorem ofInternet?_of_spells {s : String} {t : Timestamp} (hleap : t.leap = false)
    (ho : o.natAbs < 1440)
    (hy : 0 ≤ (Date.ofDays ((t.unix + 60 * o) / 86400)).year ∧
      (Date.ofDays ((t.unix + 60 * o) / 86400)).year ≤ 9999)
    (hs : Spells s (t.unix + 60 * o) o) : ofInternet? s = .ok t := by
  obtain ⟨separator, fraction, zone, hseparator, hfraction, hzone, htext⟩ := hs
  have hday : (((t.unix + 60 * o) % 86400).toNat : Int) = (t.unix + 60 * o) % 86400 :=
    Int.toNat_of_nonneg (by omega)
  generalize ((t.unix + 60 * o) % 86400).toNat = n at hday htext
  have hunix : t.unix = secondsOf (.ofDays ((t.unix + 60 * o) / 86400)) (n / 3600) (n / 60 % 60)
      (min (n % 60) 59) - 60 * o := by
    rw [secondsOf, Date.days_ofDays]
    omega
  rw [ofInternet?, utf8, htext, parse?_localText (Date.valid_ofDays _) hy (by omega) (by omega)
    (by omega) hseparator hfraction hzone ho hunix hleap]

end Internet

end Timestamp

end SealedLedger
