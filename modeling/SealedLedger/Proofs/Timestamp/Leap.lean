import SealedLedger.Proofs.Ledger.Stored
import SealedLedger.Proofs.Timestamp.Internet

/-!
# Leap seconds

A timestamp is a whole second but for one case: a leap second counts as the second before it and a
thousand million nanoseconds. An instant is cut off to its whole second, and so is an Internet
timestamp, so neither of them is ever a leap second. A stored text is not cut off. Where its second
number is 60 it is read as the leap second, which is written with that number again, and the same
text taken as an Internet timestamp is the second before. Two timestamps that share their count of
seconds are therefore the same, and have the same text, only when both or neither are leap seconds.

## Main definitions

* `Timestamp.nanoseconds` — what a timestamp has behind its whole seconds
* `Timestamp.wholeSecond` — the timestamp without them

## Main results

* `Timestamp.ofInternet?_text` — a stored text of a year of four digits, as an Internet timestamp
* `Timestamp.suffix_text_iff` — the texts of leap seconds
* `Timestamp.stored_second_whole_iff` — which timestamps are whole seconds
* `Timestamp.leap_second_not_whole` — a stored text that is read as two different timestamps
-/

namespace SealedLedger

namespace Timestamp

variable {t : Timestamp}

/-- What a timestamp has behind its whole seconds. -/
def nanoseconds (t : Timestamp) : Nat :=
  if t.leap then 1000000000 else 0

/-- The timestamp without what it has behind its whole seconds. -/
def wholeSecond (t : Timestamp) : Timestamp :=
  ⟨t.unix, false, t.inRange, by simp⟩

@[simp] theorem unix_wholeSecond (t : Timestamp) : t.wholeSecond.unix = t.unix := rfl

@[simp] theorem leap_wholeSecond (t : Timestamp) : t.wholeSecond.leap = false := rfl

theorem nanoseconds_eq_zero_iff : t.nanoseconds = 0 ↔ t.leap = false := by
  by_cases h : t.leap = true <;> simp [nanoseconds, h]

theorem nanoseconds_eq_iff {t u : Timestamp} : t.nanoseconds = u.nanoseconds ↔ t.leap = u.leap := by
  by_cases ht : t.leap = true <;> by_cases hu : u.leap = true <;> simp [nanoseconds, ht, hu]

/-- A timestamp is its count of seconds and what it has behind them. -/
theorem eq_iff_of_unix_eq {t u : Timestamp} (h : t.unix = u.unix) :
    t = u ↔ t.nanoseconds = u.nanoseconds := by
  rw [nanoseconds_eq_iff, Timestamp.mk.injEq]
  simp [h]

theorem wholeSecond_eq_iff : t.wholeSecond = t ↔ t.nanoseconds = 0 := by
  rw [eq_iff_of_unix_eq (unix_wholeSecond t), eq_comm,
    nanoseconds_eq_zero_iff.mpr (leap_wholeSecond t)]

theorem secondOfDay_lt (t : Timestamp) : t.secondOfDay < 86400 := by
  have := t.cast_secondOfDay
  omega

/-! ### Stored texts as Internet timestamps -/

/-- A stored text of a year of four digits is a local time without an offset. -/
theorem toList_text (hy : 0 ≤ t.date.year ∧ t.date.year ≤ 9999) :
    t.text.toList = Internet.localText t.date (t.secondOfDay / 3600) (t.secondOfDay / 60 % 60)
      (t.secondOfDay % 60 + if t.leap then 1 else 0) 'T' ++ ([] ++ ['Z']) := by
  rw [text, String.toList_ofList, characters, yearText, if_pos hy, Internet.localText,
    List.nil_append]

/-- **A stored text of a year of four digits is an Internet timestamp**, of the whole second. -/
theorem ofInternet?_text (hy : 0 ≤ t.date.year ∧ t.date.year ≤ 9999) :
    ofInternet? t.text = .ok t.wholeSecond := by
  have hlt := t.secondOfDay_lt
  have hleap : (if t.leap then 1 else 0) ≤ 1 := by split <;> decide
  have hsecond : min (t.secondOfDay % 60 + if t.leap then 1 else 0) 59 = t.secondOfDay % 60 := by
    split
    · next h =>
      have hsixty := t.leap_iff.mp h
      rw [if_pos h] at hsixty
      omega
    · omega
  have hunix : t.wholeSecond.unix = secondsOf t.date (t.secondOfDay / 3600)
      (t.secondOfDay / 60 % 60) (min (t.secondOfDay % 60 + if t.leap then 1 else 0) 59)
        - 60 * 0 := by
    rw [hsecond, secondsOf_date]
    simp
  have hvalid : t.date.valid = true := Date.valid_ofDays _
  rw [ofInternet?, utf8, toList_text hy, Internet.parse?_localText hvalid hy (by omega) (by omega)
    (by omega) (.inl rfl) (.inl rfl) (.inl ⟨rfl, .inl rfl⟩) (by decide) hunix rfl]

theorem Internet.parse?_ne_of_digit? {b : UInt8} (hb : digit? b = none) (bytes : List UInt8)
    (u : Timestamp) : parse? (b :: bytes) ≠ .ok u := by
  intro h
  obtain ⟨-, o, hread, -⟩ := parse?_eq_ok_iff.mp h
  obtain ⟨d, rest, hdate, -⟩ := exists_of_bind hread
  obtain ⟨y, rest, hyear, -⟩ := exists_of_bind hdate
  rw [digits, digitsFrom, hb] at hyear
  cases hyear

/-- **No other stored text is an Internet timestamp**: the year begins with a sign. -/
theorem ofInternet?_text_ne (hy : ¬(0 ≤ t.date.year ∧ t.date.year ≤ 9999)) (u : Timestamp) :
    ofInternet? t.text ≠ .ok u := by
  obtain ⟨sign, cs, htext, hsign⟩ : ∃ sign cs, t.text.toList = sign :: cs ∧
      (sign = '-' ∨ sign = '+') := by
    rw [text, String.toList_ofList, characters, yearText, if_neg hy]
    exact ⟨_, _, rfl, by split <;> simp⟩
  have hdigit : Internet.digit? (UInt8.ofNat sign.toNat) = none := by
    rcases hsign with rfl | rfl <;> decide
  have hascii : sign.toNat < 0x80 := by rcases hsign with rfl | rfl <;> decide
  intro h
  rw [ofInternet?, utf8, htext, Utf8.encode_cons_of_lt hascii] at h
  split at h
  · cases h
  · next v hv => exact Internet.parse?_ne_of_digit? hdigit _ v hv

/-! ### Second numbers -/

/-- **The texts of leap seconds** are those that end with the second number 60. -/
theorem suffix_text_iff : [':', '6', '0', 'Z'] <:+ t.text.toList ↔ t.leap = true := by
  set second := t.secondOfDay % 60 + if t.leap then 1 else 0 with hsecond
  have hlt : second < 100 := by
    have : (if t.leap then 1 else 0) ≤ 1 := by split <;> decide
    omega
  have hends : ':' :: (Decimal.padded 2 second ++ ['Z']) <:+ t.text.toList := by
    rw [text, String.toList_ofList]
    exact ⟨yearText t.date.year ++ '-' :: Decimal.padded 2 t.date.month ++
      '-' :: Decimal.padded 2 t.date.day ++ 'T' :: Decimal.padded 2 (t.secondOfDay / 3600) ++
      ':' :: Decimal.padded 2 (t.secondOfDay / 60 % 60), by simp [characters, hsecond]⟩
  have hlength : (Decimal.padded 2 second).length = 2 := Decimal.length_padded (by decide) hlt
  rw [t.leap_iff, ← hsecond]
  constructor
  · intro h
    have heq := (List.suffix_of_suffix_length_le h hends (by simp [hlength])).eq_of_length
      (by simp [hlength])
    have hpadded : Decimal.padded 2 60 = Decimal.padded 2 second :=
      (List.append_inj' (List.cons.inj heq).2 rfl).1
    exact (Decimal.padded_injective 2 hpadded).symm
  · intro h
    rw [h] at hends
    exact hends

/-! ### Which timestamps are whole seconds -/

theorem nanoseconds_ofInstant (i : Instant) : (ofInstant i).nanoseconds = 0 :=
  nanoseconds_eq_zero_iff.mpr rfl

/-- What is read as an Internet timestamp is read of its bytes. -/
theorem ofInternet?_eq_ok_iff {s : String} :
    ofInternet? s = .ok t ↔ Internet.parse? (utf8 s) = .ok t := by
  rw [ofInternet?]
  split <;> simp [*]

theorem nanoseconds_ofInternet? {s : String} (h : ofInternet? s = .ok t) : t.nanoseconds = 0 := by
  obtain ⟨-, o, -, -, hleap⟩ := Internet.parse?_eq_ok_iff.mp (ofInternet?_eq_ok_iff.mp h)
  exact nanoseconds_eq_zero_iff.mpr hleap

/-- A stored text is an Internet timestamp when its year has four digits. -/
theorem exists_ofInternet?_text_iff :
    (∃ u, ofInternet? t.text = .ok u) ↔ 0 ≤ t.date.year ∧ t.date.year ≤ 9999 := by
  constructor
  · rintro ⟨u, hu⟩
    by_contra hy
    exact ofInternet?_text_ne hy u hu
  · intro hy
    exact ⟨_, ofInternet?_text hy⟩

/-- Any timestamp, a leap second too, is that of an entry of some stored ledger. -/
theorem exists_stored_ledger (t : Timestamp) : ∃ bytes l, Ledger.ofJson? bytes .system = .ok l ∧
    ∃ e ∈ l.entries, e.timestamp = t := by
  let l : Ledger := ⟨[.genesis ⟨0⟩ t], .system, List.cons_ne_nil _ _⟩
  obtain ⟨text, htext⟩ : ∃ text, l.json? = .ok text := ⟨_, rfl⟩
  have hkeys : ∀ e ∈ l.entries, e.payload.HasDistinctKeys := List.forall_mem_singleton.mpr
    (Value.hasDistinctKeys_of_canonicalize Canonical.exists_canonicalize_emptyObject)
  have hdepth : ∀ e ∈ l.entries, e.payload.NestsWithin 125 :=
    List.forall_mem_singleton.mpr fun m hm => by cases hm
  exact ⟨_, _, Ledger.ofJson?_json? htext hkeys hdepth .system, _, List.mem_singleton_self _, rfl⟩

/-- **A timestamp is a whole second unless it was read from a stored text with the second number
60.** The same text taken as an Internet timestamp is of the same second, and is that timestamp when
it is whole. A timestamp of the same second is that timestamp, and has its text, when both or
neither are whole. Instants and Internet timestamps always are; and what is read from a stored text
is the timestamp of an entry of some stored ledger. -/
theorem stored_second_whole_iff {s : String} (h : parse? s = .ok t) :
    (t.nanoseconds = 0 ↔ ¬[':', '6', '0', 'Z'] <:+ s.toList) ∧
    ((∃ u, ofInternet? s = .ok u) ↔ 0 ≤ t.date.year ∧ t.date.year ≤ 9999) ∧
    (∀ u, ofInternet? s = .ok u →
      u.unix = t.unix ∧ u.nanoseconds = 0 ∧ (u = t ↔ t.nanoseconds = 0)) ∧
    (∀ u : Timestamp, u.unix = t.unix → (u = t ↔ u.nanoseconds = t.nanoseconds) ∧
      (u.text = t.text ↔ u.nanoseconds = t.nanoseconds)) ∧
    (∀ i, (ofInstant i).nanoseconds = 0) ∧
    (∀ text u, ofInternet? text = .ok u → u.nanoseconds = 0) ∧
    ∃ bytes l, Ledger.ofJson? bytes .system = .ok l ∧ ∃ e ∈ l.entries, e.timestamp = t := by
  obtain rfl := text_of_parse? h
  refine ⟨?_, exists_ofInternet?_text_iff, fun u hu => ?_, fun u hu => ?_,
    nanoseconds_ofInstant, fun _ _ => nanoseconds_ofInternet?, exists_stored_ledger t⟩
  · rw [suffix_text_iff, nanoseconds_eq_zero_iff, Bool.not_eq_true]
  · have hy := exists_ofInternet?_text_iff.mp ⟨u, hu⟩
    obtain rfl := Except.ok.inj (hu.symm.trans (ofInternet?_text hy))
    exact ⟨rfl, rfl, wholeSecond_eq_iff⟩
  · rw [text_injective.eq_iff, eq_iff_of_unix_eq hu]
    exact ⟨Iff.rfl, Iff.rfl⟩

/-- The last second of 2016 before the leap second, which its stored text and the same text taken as
an Internet timestamp both name. -/
theorem stored_second_whole_iff_before_leap_second :
    ∃ t u : Timestamp, parse? "2016-12-31T23:59:59Z" = .ok t ∧ t.nanoseconds = 0 ∧
      ofInternet? "2016-12-31T23:59:59Z" = .ok u ∧ u = t := by
  have hstored : parse? "2016-12-31T23:59:59Z"
      = .ok ⟨1483228799, false, by decide, by decide⟩ := rfl
  obtain ⟨hwhole, hinternet, hsame, -⟩ := stored_second_whole_iff hstored
  have hzero := hwhole.mpr (by decide)
  obtain ⟨u, hu⟩ := hinternet.mpr ⟨by decide, by decide⟩
  exact ⟨_, u, hstored, hzero, hu, (hsame u hu).2.2.mpr hzero⟩

/-- **A stored text may be read as a second that is not whole.** The leap second at the end of 2016
has a thousand million nanoseconds, and the same text taken as an Internet timestamp is the second
before, with the same count of seconds and with another text. -/
theorem leap_second_not_whole :
    ∃ t u : Timestamp, parse? "2016-12-31T23:59:60Z" = .ok t ∧ t.nanoseconds = 1000000000 ∧
      ofInternet? "2016-12-31T23:59:60Z" = .ok u ∧ u.unix = t.unix ∧ u ≠ t ∧
      u.text = "2016-12-31T23:59:59Z" ∧ t.text = "2016-12-31T23:59:60Z" := by
  have hstored : parse? "2016-12-31T23:59:60Z"
      = .ok ⟨1483228799, true, by decide, by decide⟩ := rfl
  have hinternet : ofInternet? "2016-12-31T23:59:60Z"
      = .ok ⟨1483228799, false, by decide, by decide⟩ := rfl
  exact ⟨_, _, hstored, rfl, hinternet, rfl, by decide, rfl, rfl⟩

end Timestamp

end SealedLedger
