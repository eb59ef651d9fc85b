import SealedLedger.Proofs.Calendar
import SealedLedger.Proofs.Decimal.Digits
import SealedLedger.Timestamp.Basic

/-!
# Timestamps are determined by their text

Everything after the year has a fixed width, so it can be cut off from the end, field by field.
A leap second has the second number 60, which no other second has.

## Main results

* `Timestamp.characters_inj` — the fields are determined by the text
* `Timestamp.text_injective`
-/

namespace SealedLedger

namespace Timestamp

/-! ### Years -/

/-- A year with a sign is not a year of four digits. -/
theorem padded_ne_cons {w n : Nat} {c : Char} {cs : List Char} (hc : Decimal.isDigit c = false) :
    Decimal.padded w n ≠ c :: cs := by
  intro h
  have : Decimal.isDigit c = true := Decimal.isDigit_of_mem_padded (h ▸ List.mem_cons_self ..)
  rw [hc] at this
  cases this

theorem yearText_injective : Function.Injective yearText := by
  have hsign : ∀ y : Int, Decimal.isDigit (if y < 0 then '-' else '+') = false := by
    intro y
    split <;> decide
  intro y z h
  rw [yearText, yearText] at h
  by_cases hy : 0 ≤ y ∧ y ≤ 9999
  · by_cases hz : 0 ≤ z ∧ z ≤ 9999
    · rw [if_pos hy, if_pos hz] at h
      have := Decimal.padded_injective 4 h
      omega
    · rw [if_pos hy, if_neg hz] at h
      exact absurd h (padded_ne_cons (hsign z))
  · by_cases hz : 0 ≤ z ∧ z ≤ 9999
    · rw [if_neg hy, if_pos hz] at h
      exact absurd h.symm (padded_ne_cons (hsign y))
    · rw [if_neg hy, if_neg hz] at h
      obtain ⟨hs, hp⟩ := List.cons.inj h
      have habs := Decimal.padded_injective 4 hp
      have hside : y < 0 ↔ z < 0 := by
        by_cases hy : y < 0 <;> by_cases hz : z < 0 <;> simp [hy, hz] at hs ⊢
      omega

/-! ### Fields -/

/-- A field of two digits at the end of a text, behind its mark. -/
theorem field_inj {xs ys : List Char} {c : Char} {m n : Nat} (hm : m < 100) (hn : n < 100)
    (h : xs ++ c :: Decimal.padded 2 m = ys ++ c :: Decimal.padded 2 n) : xs = ys ∧ m = n := by
  have hlen : (c :: Decimal.padded 2 m).length = (c :: Decimal.padded 2 n).length := by
    rw [List.length_cons, List.length_cons, Decimal.length_padded (by decide) hm,
      Decimal.length_padded (by decide) hn]
  obtain ⟨hxs, hfield⟩ := List.append_inj' h hlen
  exact ⟨hxs, Decimal.padded_injective 2 (List.cons.inj hfield).2⟩

/-- **The fields of a timestamp are determined by its text.** -/
theorem characters_inj {d d' : Date} {h h' m m' s s' : Nat} (hd : d.valid = true)
    (hd' : d'.valid = true) (hh : h < 100 ∧ h' < 100) (hm : m < 100 ∧ m' < 100)
    (hs : s < 100 ∧ s' < 100) (heq : characters d h m s = characters d' h' m' s') :
    d = d' ∧ h = h' ∧ m = m' ∧ s = s' := by
  obtain ⟨hmonth, hday⟩ := Date.lt_hundred_of_valid hd
  obtain ⟨hmonth', hday'⟩ := Date.lt_hundred_of_valid hd'
  obtain ⟨heq, -⟩ := List.append_inj' heq rfl
  obtain ⟨heq, hsecond⟩ := field_inj hs.1 hs.2 heq
  obtain ⟨heq, hminute⟩ := field_inj hm.1 hm.2 heq
  obtain ⟨heq, hhour⟩ := field_inj hh.1 hh.2 heq
  obtain ⟨heq, hdays⟩ := field_inj hday hday' heq
  obtain ⟨hyear, hmonths⟩ := field_inj hmonth hmonth' heq
  refine ⟨?_, hhour, hminute, hsecond⟩
  rw [Date.mk.injEq]
  exact ⟨yearText_injective hyear, hmonths, hdays⟩

theorem cast_secondOfDay (t : Timestamp) : (t.secondOfDay : Int) = t.unix % 86400 :=
  Int.toNat_of_nonneg (by omega)

/-- A leap second alone has the second number 60. -/
theorem leap_iff (t : Timestamp) :
    t.leap = true ↔ t.secondOfDay % 60 + (if t.leap then 1 else 0) = 60 := by
  have hday := t.cast_secondOfDay
  have hends := t.endsMinute
  cases hleap : t.leap with
  | false =>
    simp only [Bool.false_eq_true, if_false, false_iff]
    omega
  | true =>
    have := hends hleap
    simp only [if_true, true_iff]
    omega

/-- **Timestamps are determined by their text.** -/
theorem text_injective : Function.Injective text := by
  intro a b h
  have ha := a.cast_secondOfDay
  have hb := b.cast_secondOfDay
  have hbound : ∀ t : Timestamp, (if t.leap then 1 else 0) ≤ 1 := by
    intro t
    split <;> decide
  have hla := hbound a
  have hlb := hbound b
  obtain ⟨hdate, hhour, hminute, hsecond⟩ := characters_inj (Date.valid_ofDays _)
    (Date.valid_ofDays _) ⟨by omega, by omega⟩ ⟨by omega, by omega⟩ ⟨by omega, by omega⟩
    (String.ofList_injective h)
  have hdays := Date.ofDays_injective hdate
  have hleap : a.leap = b.leap := by
    rw [Bool.eq_iff_iff, leap_iff a, leap_iff b, hsecond]
  rw [Timestamp.mk.injEq]
  refine ⟨?_, hleap⟩
  rw [hleap] at hsecond
  omega

end Timestamp

end SealedLedger
