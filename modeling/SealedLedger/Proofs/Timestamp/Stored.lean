import SealedLedger.Proofs.Timestamp
import SealedLedger.Timestamp.Stored

/-!
# A stored timestamp is read back

Reading a text field by field finds what it was written from: a number with its leading zeros is
cut off by its width, or by the mark behind it, and the year of any timestamp is far from the limits
of the reader.

## Main results

* `Timestamp.fields_characters` — the fields of a text are read back
* `Timestamp.parse?_text` — a timestamp is read back from its text
-/

namespace SealedLedger

namespace Timestamp

/-! ### Steps -/

/-- A step that succeeds hands its result and what is left to the next one. -/
theorem bind_of_ok {σ α β : Type} {x : StateT σ (Except Cause) α}
    {f : α → StateT σ (Except Cause) β} {a : α} {unread rest : σ}
    (h : x unread = .ok (a, rest)) : (x >>= f) unread = f a rest := by
  show (x unread).bind _ = _
  rw [h]
  rfl

theorem mark_cons (c : Char) (cs : List Char) : mark c (c :: cs) = .ok ((), cs) := by
  rw [mark, if_pos rfl]

/-! ### Numbers -/

/-- A digit is neither a blank nor a sign, so that a number begins with it. -/
theorem digitChar_begins {d : Nat} (h : d < 10) :
    Printable.isBlank (Decimal.digitChar d) = false ∧
      Decimal.digitChar d ≠ '-' ∧ Decimal.digitChar d ≠ '+' := by
  have key : ∀ d : Fin 10, Printable.isBlank (Decimal.digitChar d) = false ∧
      Decimal.digitChar d ≠ '-' ∧ Decimal.digitChar d ≠ '+' := by decide
  exact key ⟨d, h⟩

/-- Digits are cut off by their number, or by what follows them. -/
def EndsField (width : Nat) (ds : List Nat) (rest : List Char) : Prop :=
  ds.length = width ∨ ds.length < width ∧ ∀ c cs, rest = c :: cs → Decimal.digit? c = none

theorem digitsFrom_append {ds : List Nat} {rest : List Char} {width n : Nat}
    (hds : ∀ d ∈ ds, d < 10) (hend : EndsField width ds rest)
    (hlt : n * 10 ^ ds.length + Decimal.ofDigits ds < 0x8000000000000000) :
    digitsFrom width n (ds.map Decimal.digitChar ++ rest)
      = .ok (n * 10 ^ ds.length + Decimal.ofDigits ds, rest) := by
  induction ds generalizing width n with
  | nil =>
    have hvalue : n * 10 ^ ([] : List Nat).length + Decimal.ofDigits [] = n := by
      simp [Decimal.ofDigits]
    rw [hvalue, List.map_nil, List.nil_append]
    rcases hend with hwidth | ⟨hwidth, hrest⟩
    · obtain rfl : 0 = width := hwidth
      rw [digitsFrom]
    · obtain ⟨k, rfl⟩ := Nat.exists_eq_add_of_lt hwidth
      cases rest with
      | nil => rw [digitsFrom]
      | cons c cs => rw [digitsFrom, hrest c cs rfl]
  | cons d ds ih =>
    obtain ⟨hd, hds⟩ := List.forall_mem_cons.mp hds
    have hvalue : n * 10 ^ (d :: ds).length + Decimal.ofDigits (d :: ds)
        = (n * 10 + d) * 10 ^ ds.length + Decimal.ofDigits ds := by
      rw [Decimal.ofDigits_cons, List.length_cons]
      ring
    have hword : n * 10 + d < 0x8000000000000000 := by
      have : (n * 10 + d) * 1 ≤ (n * 10 + d) * 10 ^ ds.length :=
        Nat.mul_le_mul_left _ (Nat.pow_pos (by decide))
      omega
    obtain ⟨width, rfl⟩ : ∃ k, width = k + 1 := by
      rcases hend with h | ⟨h, -⟩
      · exact ⟨ds.length, h.symm⟩
      · exact ⟨width - 1, by rw [List.length_cons] at h; omega⟩
    have hend' : EndsField width ds rest :=
      hend.imp (fun h => by simpa using h) fun h => ⟨by simpa using h.1, h.2⟩
    rw [hvalue] at hlt ⊢
    rw [List.map_cons, List.cons_append, digitsFrom, Decimal.digit?_digitChar hd]
    simp only [if_pos hword]
    exact ih hds hend' hlt

theorem digits_append {ds : List Nat} {rest : List Char} {width : Nat} (hne : ds ≠ [])
    (hds : ∀ d ∈ ds, d < 10) (hend : EndsField width ds rest)
    (hlt : Decimal.ofDigits ds < 0x8000000000000000) :
    digits width (ds.map Decimal.digitChar ++ rest) = .ok (Decimal.ofDigits ds, rest) := by
  obtain ⟨d, more, rfl⟩ := List.exists_cons_of_ne_nil hne
  have hread := digitsFrom_append (n := 0) hds hend (by simpa using hlt)
  rw [Nat.zero_mul, Nat.zero_add] at hread
  rw [List.map_cons, List.cons_append] at hread ⊢
  rw [digits, if_pos (Decimal.isDigit_digitChar (hds d (List.mem_cons_self ..))), hread]

/-- The digits of a number that is filled up with zeros. -/
theorem exists_padded_eq (w n : Nat) :
    ∃ ds, Decimal.padded w n = ds.map Decimal.digitChar ∧ ds ≠ [] ∧ (∀ d ∈ ds, d < 10) ∧
      Decimal.ofDigits ds = n := by
  refine ⟨_, Decimal.padded_eq w n, ?_, fun d hd => ?_, ?_⟩
  · exact List.append_ne_nil_of_right_ne_nil _ (Decimal.digits_ne_nil n)
  · rcases List.mem_append.mp hd with hd | hd
    · rw [List.eq_of_mem_replicate hd]
      decide
    · exact Decimal.lt_of_mem_digits hd
  · rw [Decimal.ofDigits_append, Decimal.ofDigits_replicate_zero, Nat.zero_mul, Nat.zero_add,
      Decimal.ofDigits_digits]

/-- **A number is read back from its padded text**, with the width it was written with. -/
theorem digits_padded {w n : Nat} (hw : 0 < w) (hn : n < 10 ^ w) (hlt : n < 0x8000000000000000)
    (rest : List Char) : digits w (Decimal.padded w n ++ rest) = .ok (n, rest) := by
  have hlength := Decimal.length_padded hw hn
  obtain ⟨ds, htext, hne, hds, hvalue⟩ := exists_padded_eq w n
  rw [htext, List.length_map] at hlength
  rw [htext, digits_append hne hds (.inl hlength) (by rwa [hvalue]), hvalue]

/-- White space is not skipped in front of a padded number. -/
theorem dropWhile_padded (w n : Nat) (rest : List Char) :
    (Decimal.padded w n ++ rest).dropWhile Printable.isBlank = Decimal.padded w n ++ rest := by
  obtain ⟨ds, htext, hne, hds, -⟩ := exists_padded_eq w n
  obtain ⟨d, more, rfl⟩ := List.exists_cons_of_ne_nil hne
  rw [htext, List.map_cons, List.cons_append, List.dropWhile_cons_of_neg]
  rw [(digitChar_begins (hds d (List.mem_cons_self ..))).1]
  exact Bool.false_ne_true

/-- **A field is read back.** -/
theorem field_padded {least greatest n : Nat} (h : least ≤ n ∧ n ≤ greatest) (hn : n < 100)
    (rest : List Char) : field least greatest (Decimal.padded 2 n ++ rest) = .ok (n, rest) := by
  rw [field, dropWhile_padded, digits_padded (by decide) hn (by omega)]
  simp only [if_pos h]

/-- **A year is read back** in front of a hyphen. -/
theorem year_yearText {y : Int} (hy : -0x80000000 ≤ y ∧ y < 0x80000000) (rest : List Char) :
    year (yearText y ++ '-' :: rest) = .ok (y, '-' :: rest) := by
  have hcheck : checkYear y = .ok y := by rw [checkYear, if_pos hy]
  obtain ⟨ds, htext, hne, hds, hvalue⟩ := exists_padded_eq 4 y.natAbs
  rw [yearText]
  split
  · next hrange =>
    have hread := digits_padded (w := 4) (n := y.natAbs) (by decide) (by omega) (by omega)
      ('-' :: rest)
    rw [year, dropWhile_padded]
    obtain ⟨d, more, rfl⟩ := List.exists_cons_of_ne_nil hne
    obtain ⟨-, hminus, hplus⟩ := digitChar_begins (hds d (List.mem_cons_self ..))
    rw [htext, List.map_cons, List.cons_append] at hread ⊢
    simp only [if_neg hminus, if_neg hplus, hread, Except.map,
      show (y.natAbs : Int) = y by omega, hcheck]
  · next hrange =>
    have hread : digits (Decimal.padded 4 y.natAbs ++ '-' :: rest).length
        (Decimal.padded 4 y.natAbs ++ '-' :: rest) = .ok (y.natAbs, '-' :: rest) := by
      rw [htext]
      rw [digits_append hne hds (.inr ⟨by simp, ?_⟩) (by omega), hvalue]
      rintro c cs h
      rw [← (List.cons.inj h).1]
      decide
    rw [year, List.cons_append, List.dropWhile_cons_of_neg (by split <;> decide)]
    by_cases hneg : y < 0
    · simp only [if_pos hneg, if_true, hread, Except.map, show -(y.natAbs : Int) = y by omega,
        hcheck]
    · simp only [if_neg hneg, show ('+' : Char) ≠ '-' by decide, if_false, if_true, hread,
        Except.map, show (y.natAbs : Int) = y by omega, hcheck]

/-! ### Whole texts -/

/-- **The fields of a text are read back.** -/
theorem fields_characters {d : Date} {hour minute second : Nat} (hd : d.valid = true)
    (hy : -0x80000000 ≤ d.year ∧ d.year < 0x80000000) (hh : hour ≤ 23) (hm : minute ≤ 59)
    (hs : second ≤ 60) :
    fields (characters d hour minute second) = .ok ((d, hour, minute, second), []) := by
  obtain ⟨hmonth, hday⟩ := Date.lt_hundred_of_valid hd
  have hvalid := hd
  simp only [Date.valid, Bool.and_eq_true, decide_eq_true_iff] at hvalid
  obtain ⟨⟨⟨hmonth1, hmonth12⟩, hday1⟩, hdays⟩ := hvalid
  have hday31 := @Calendar.monthLength_le (Calendar.isLeap d.year) d.month ⟨hmonth1, hmonth12⟩
  simp only [characters, List.append_assoc, List.cons_append]
  rw [fields, bind_of_ok (year_yearText hy _), bind_of_ok (mark_cons ..),
    bind_of_ok (field_padded ⟨hmonth1, hmonth12⟩ hmonth _), bind_of_ok (mark_cons ..),
    bind_of_ok (field_padded ⟨hday1, hdays.trans hday31⟩ hday _), bind_of_ok (mark_cons ..),
    bind_of_ok (field_padded ⟨Nat.zero_le _, hh⟩ (by omega) _), bind_of_ok (mark_cons ..),
    bind_of_ok (field_padded ⟨Nat.zero_le _, hm⟩ (by omega) _), bind_of_ok (mark_cons ..),
    bind_of_ok (field_padded ⟨Nat.zero_le _, hs⟩ (by omega) _), bind_of_ok (mark_cons ..)]
  rfl

/-- The year of a timestamp is within the limits of the reader. -/
theorem year_date (t : Timestamp) :
    -0x80000000 ≤ t.date.year ∧ t.date.year < 0x80000000 := by
  have hrange := t.inRange
  have hyear := Calendar.daysBeforeYear_yearOf (t.unix / 86400 + Calendar.epoch)
  have hepoch : Calendar.epoch = 719162 := rfl
  rw [Calendar.daysBeforeYear, Calendar.daysBeforeYear] at hyear
  show _ ≤ Calendar.yearOf (t.unix / 86400 + Calendar.epoch) ∧
    Calendar.yearOf (t.unix / 86400 + Calendar.epoch) < _
  omega

/-- The count of seconds is that of the date and the time of day. -/
theorem secondsOf_date (t : Timestamp) :
    secondsOf t.date (t.secondOfDay / 3600) (t.secondOfDay / 60 % 60) (t.secondOfDay % 60)
      = t.unix := by
  have hday := t.cast_secondOfDay
  rw [secondsOf, date, Date.days_ofDays]
  omega

/-- **A timestamp is read back from its text.** -/
theorem parse?_text (t : Timestamp) : parse? t.text = .ok t := by
  have hday := t.cast_secondOfDay
  have hbound : (if t.leap then 1 else 0) ≤ 1 := by split <;> decide
  have hsecond : (if t.leap then 59 else t.secondOfDay % 60 + if t.leap then 1 else 0)
      = t.secondOfDay % 60 := by
    split
    · next hleap =>
      have := t.leap_iff.mp hleap
      rw [if_pos hleap] at this
      omega
    · rfl
  have hleap : (t.secondOfDay % 60 + (if t.leap then 1 else 0) == 60) = t.leap := by
    rw [Bool.eq_iff_iff, beq_iff_eq, ← t.leap_iff]
  have hunix : ofUnix? t.unix t.leap = some t := dif_pos ⟨t.inRange, t.endsMinute⟩
  have hvalid : t.date.valid = true := Date.valid_ofDays _
  have hfields : ofFields? t.text.toList = .ok t := by
    rw [text, String.toList_ofList, ofFields?, fields_characters hvalid t.year_date (by omega)
      (by omega) (by omega)]
    simp only [hvalid, if_true, hleap, hsecond, secondsOf_date, hunix]
  rw [parse?, hfields]
  simp only [if_true]

/-- **A timestamp is read from its own text only.** -/
theorem text_of_parse? {s : String} {t : Timestamp} (h : parse? s = .ok t) : t.text = s := by
  rw [parse?] at h
  split at h
  · cases h
  · split at h
    · next htext => rw [← Except.ok.inj h, htext]
    · cases h

end Timestamp

end SealedLedger
