import SealedLedger.ClockSetting
import SealedLedger.Proofs.Timestamp.Internet

/-!
# A clock setting fixes the second that it spells

The environment fixes the clock with an Internet timestamp, which may be spelled as the local time
of any offset. The clock is fixed at the second that was meant: carrying the offset over the end of
an hour, a day, a month or a year loses nothing, and neither the fraction nor the mark between date
and time is looked at. White space around the setting is trimmed off, and there is none within a
spelling that trimming could take away.

## Main results

* `Timestamp.Internet.trimmed_of_spells` — trimming leaves a spelling as it is
* `ClockSetting.fixed_offset_independent` — the clock is fixed at the second that was meant
-/

namespace SealedLedger

/-- Trimming leaves a text as it is when no white space stands at its ends. -/
theorem Printable.trim_eq_self {c d : Char} {text more init : List Char}
    (hbegins : text = c :: more) (hends : text = init ++ [d]) (hfirst : isBlank c = false)
    (hlast : isBlank d = false) : trim text = text := by
  have hfront : text.dropWhile isBlank = text := by
    rw [hbegins, List.dropWhile_cons_of_neg (by simp [hfirst])]
  have hback : text.reverse.dropWhile isBlank = text.reverse := by
    rw [hends, List.reverse_append, List.reverse_singleton, List.singleton_append,
      List.dropWhile_cons_of_neg (by simp [hlast])]
  rw [trim, hfront, hback, List.reverse_reverse]

namespace Timestamp

namespace Internet

variable {o : Int}

/-- An offset ends with a letter or a digit. -/
theorem SpellsOffset.exists_last {zone : List Char} (h : SpellsOffset o zone) :
    ∃ init c, zone = init ++ [c] ∧ Printable.isBlank c = false := by
  rcases h with ⟨-, rfl | rfl⟩ | ⟨sign, -, rfl⟩
  · exact ⟨[], 'Z', rfl, rfl⟩
  · exact ⟨[], 'z', rfl, rfl⟩
  · obtain ⟨ds, htext, hne, hds, -⟩ := exists_padded_eq 2 (o.natAbs % 60)
    obtain ⟨init, d, hconcat⟩ := (List.eq_nil_or_concat ds).resolve_left hne
    rw [List.concat_eq_append] at hconcat
    subst hconcat
    have hd : d < 10 := hds d (by simp)
    exact ⟨sign :: (Decimal.padded 2 (o.natAbs / 60) ++ ':' :: init.map Decimal.digitChar),
      Decimal.digitChar d, by simp [htext], (digitChar_begins hd).1⟩

theorem exists_first_localText (d : Date) (hour minute second : Nat) (separator : Char) :
    ∃ c cs, localText d hour minute second separator = c :: cs ∧ Printable.isBlank c = false := by
  obtain ⟨ds, htext, hne, hds, -⟩ := exists_padded_eq 4 d.year.natAbs
  obtain ⟨e, ds, rfl⟩ := List.exists_cons_of_ne_nil hne
  simp only [localText, htext, List.map_cons, List.cons_append]
  exact ⟨_, _, rfl, (digitChar_begins (hds e (List.mem_cons_self ..))).1⟩

/-- **Trimming leaves a spelling as it is.** -/
theorem trimmed_of_spells {s : String} {localTime : Int} (h : Spells s localTime o) :
    ClockSetting.trimmed s = s ∧ s ≠ "" := by
  obtain ⟨separator, fraction, zone, -, -, hzone, htext⟩ := h
  obtain ⟨init, d, rfl, hlast⟩ := hzone.exists_last
  obtain ⟨c, cs, hcs, hfirst⟩ := exists_first_localText (.ofDays (localTime / 86400))
    ((localTime % 86400).toNat / 3600) ((localTime % 86400).toNat / 60 % 60)
    ((localTime % 86400).toNat % 60) separator
  have hbegins : s.toList = c :: (cs ++ (fraction ++ (init ++ [d]))) := by rw [htext, hcs]; rfl
  have hends : s.toList = (c :: cs ++ fraction ++ init) ++ [d] := by rw [hbegins]; simp
  constructor
  · rw [ClockSetting.trimmed, Printable.trim_eq_self hbegins hends hfirst hlast,
      String.ofList_toList]
  · rintro rfl
    cases hbegins

end Internet

end Timestamp

namespace ClockSetting

open Timestamp.Internet (Spells)

/-- **A clock setting fixes the second that it spells.** Take any second, and any offset of less
than a day in whole minutes whose local time has a year of four digits. There are spellings of that
local time, and each of them is read as the second, which does not depend on the offset, on the
fraction or on the mark between date and time. So the clock is fixed at that second, whatever white
space stands around the spelling and whether the clock must be fixed or not. -/
theorem fixed_offset_independent {u o : Int} (ho : o.natAbs < 1440)
    (hy : 0 ≤ (Date.ofDays ((u + 60 * o) / 86400)).year ∧
      (Date.ofDays ((u + 60 * o) / 86400)).year ≤ 9999) :
    (∃ s, Spells s (u + 60 * o) o) ∧
    ∃ t : Timestamp, t.unix = u ∧ t.leap = false ∧ ∀ s, Spells s (u + 60 * o) o →
      Timestamp.ofInternet? s = .ok t ∧ trimmed s = s ∧
      ∀ raw strictness, trimmed raw = s → ofEnvironment? (some raw) strictness
        = .ok ⟨some t, strictness.any fun s => trimmed s == "1"⟩ := by
  obtain ⟨t, rfl, hleap⟩ := Timestamp.Internet.exists_timestamp ho hy
  refine ⟨Timestamp.Internet.exists_spells _ o, t, rfl, hleap, fun s hs => ?_⟩
  have hread := Timestamp.Internet.ofInternet?_of_spells hleap ho hy hs
  obtain ⟨htrim, hne⟩ := Timestamp.Internet.trimmed_of_spells hs
  refine ⟨hread, htrim, fun raw strictness hraw => ?_⟩
  have htime : time? (some raw) = .ok (some t) := by
    rw [time?, hraw, if_neg hne, hread]
  rw [ofEnvironment?, htime]
  simp

/-- The last local time of a year of four digits, whose offset carries it into the next year. White
space stands around the spelling, and the clock must be fixed. -/
theorem fixed_offset_independent_into_the_next_year :
    ∃ t : Timestamp, t.text = "+10000-01-01T23:58:59Z" ∧
      Timestamp.ofInternet? "9999-12-31t23:59:59.999-23:59" = .ok t ∧
      ofEnvironment? (some "  9999-12-31t23:59:59.999-23:59\n") (some "1")
        = .ok ⟨some t, true⟩ := by
  have hy : 0 ≤ (Date.ofDays ((253402387139 + 60 * -1439) / 86400)).year ∧
      (Date.ofDays ((253402387139 + 60 * -1439) / 86400)).year ≤ 9999 := by decide
  obtain ⟨-, t, hunix, hleap, hread⟩ := fixed_offset_independent (by decide) hy
  have hspells : Spells "9999-12-31t23:59:59.999-23:59" (253402387139 + 60 * -1439) (-1439) :=
    ⟨'t', ".999".toList, "-23:59".toList, .inr (.inl rfl),
      .inr ⟨[9, 9, 9], by decide, by decide, rfl⟩, .inr ⟨'-', .inr ⟨rfl, by decide⟩, rfl⟩, rfl⟩
  obtain ⟨hinternet, -, hsetting⟩ := hread _ hspells
  have ht : t = ⟨253402387139, false, by decide, by decide⟩ := by
    rw [Timestamp.mk.injEq]
    exact ⟨hunix, hleap⟩
  refine ⟨t, by rw [ht]; rfl, hinternet, hsetting _ (some "1") ?_⟩
  rfl

end ClockSetting

end SealedLedger
