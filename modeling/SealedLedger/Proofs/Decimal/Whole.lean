import SealedLedger.Proofs.Decimal.Shortest

/-!
# The shortest decimals of whole numbers

A whole number of up to `2 ^ 54` that is the value of a magnitude is the value of its shortest
decimal, too. A decimal with fewer digits than the number is a multiple of ten, so it is even; and
the even numbers in this range are values themselves, so each of them rounds to itself. Further up
the gaps between values are wider than two, and a multiple of ten may lie between two values and be
the shortest decimal of one of them.

## Main results

* `Decimal.value_ofScaled` — the value of a decimal in its own digits
* `Decimal.not_dvd_shortest` — the last figure of a shortest decimal is not zero
* `Decimal.value_shortest_of_nat`, `Decimal.value_shortest_eq_iff` — whole numbers
-/

namespace SealedLedger

namespace Decimal

/-! ### Figures -/

/-- **The value of a decimal in its own digits.** -/
theorem value_ofScaled {n : Nat} (hn : n ≠ 0) (e : Int) : (ofScaled n e).value = n * 10 ^ e := by
  obtain ⟨k, hval, hpoint, -⟩ := exists_ofScaled hn e
  have hcast : (n : ℚ) = ofDigits (ofScaled n e).figures * 10 ^ k := by exact_mod_cast hval
  rw [value, hpoint, add_sub_cancel_left, zpow_add₀ (by norm_num), zpow_natCast, ← mul_assoc, hcast]

theorem not_dvd_ofScaled {n : Nat} (hn : n ≠ 0) (e : Int) :
    ¬ 10 ∣ ofDigits (ofScaled n e).figures := by
  have hreduced := isReduced_ofScaled hn e
  have hlast : (ofScaled n e).figures.getLast hreduced.ne_nil ≠ 0 := fun hzero =>
    List.rdropWhile_last_not (· == 0) (digits n) hreduced.ne_nil (beq_iff_eq.mpr hzero)
  have hlt := hreduced.lt _ (List.getLast_mem hreduced.ne_nil)
  have hsplit : ofDigits (ofScaled n e).figures =
      ofDigits (ofScaled n e).figures.dropLast * 10
        + (ofScaled n e).figures.getLast hreduced.ne_nil := by
    conv_lhs => rw [← List.dropLast_append_getLast hreduced.ne_nil, ofDigits_append]
    simp [ofDigits]
  omega

/-- **The last figure of a shortest decimal is not zero.** -/
theorem not_dvd_shortest {m : Nat} (hm : m ≠ 0) : ¬ 10 ∣ ofDigits (shortest m).figures := by
  obtain ⟨n, e, hn, -, -, h⟩ := shortest_cases hm
  rw [h]
  exact not_dvd_ofScaled hn e

/-! ### Whole numbers -/

theorem readsBack_zero_iff {m n : Nat} : readsBack m n 0 = true ↔ Binary64.nearest n 1 = m := by
  rw [readsBack_iff]
  simp [scale10]

/-- A whole number that is the value of a shortest decimal rounds to the magnitude. -/
theorem nearest_of_value_shortest_eq {m n : Nat} (hm : m ≠ 0) (h : (shortest m).value = n) :
    Binary64.nearest n 1 = m :=
  nearest_eq_of_eq_value hm Nat.one_pos (by rw [h, Nat.cast_one, div_one])

/-- **A multiple of ten that rounds to a value of up to `2 ^ 54` is that value.** -/
theorem value_eq_of_dvd {m n : Nat} (hm : Binary64.value m ≤ 2 ^ 54) (hn : 10 ∣ n)
    (h : Binary64.nearest n 1 = m) : Binary64.value m = n := by
  have hle : n ≤ 2 ^ 54 := by
    by_contra hgt
    -- `2 ^ 54 + 4` is the next value
    have hnext : Binary64.value (Binary64.nearest ((2 ^ 52 + 1) * 2 ^ 2) 1)
        = (2 ^ 52 + 1) * 2 ^ 2 := by
      exact_mod_cast Binary64.value_nearest_shift (n := 2 ^ 52 + 1) (by norm_num) 2
    have hmono : Binary64.nearest ((2 ^ 52 + 1) * 2 ^ 2) 1 ≤ Binary64.nearest n 1 := by
      refine Binary64.nearest_mono Nat.one_pos Nat.one_pos ?_
      rw [Nat.cast_one, div_one, div_one, Nat.cast_le]
      omega
    rw [h, ← Binary64.value_le_value_iff, hnext] at hmono
    norm_num at hmono hm
    linarith
  obtain ⟨k, rfl⟩ := hn
  have hshift := Binary64.value_nearest_shift (n := 5 * k) (by omega) 1
  rw [show 5 * k * 2 ^ 1 = 10 * k by ring, h] at hshift
  rw [hshift]
  push_cast
  ring

section

variable {m n num den k : Nat} {p : Int} {d : Decimal}

/-- A round of fewer digits than the point has places tries multiples of ten. -/
theorem value_of_withDigits?_few (hm : m ≠ 0) (hle : Binary64.value m ≤ 2 ^ 54) (hden : 0 < den)
    (hlt : (num : ℚ) / den < 10 ^ p) (hk : k < p) (h : withDigits? m num den p k = some d) :
    d.value = Binary64.value m := by
  obtain ⟨c, -, hback, rfl⟩ := exists_of_withDigits? hden hlt h
  obtain ⟨j, hj⟩ : ∃ j : Nat, p - k = (j + 1 : Nat) := ⟨(p - k - 1).toNat, by omega⟩
  rw [value_ofScaled (ne_zero_of_readsBack hm hback), hj]
  rw [hj, ← add_zero ((j + 1 : Nat) : Int), ← readsBack_mul_pow, readsBack_zero_iff] at hback
  rw [value_eq_of_dvd hle (Dvd.dvd.mul_left (dvd_pow_self 10 j.succ_ne_zero) c) hback, zpow_natCast]
  push_cast
  rfl

/-- A round of at least as many digits tries a whole number itself, which is the nearer one of its
two candidates. -/
theorem value_of_withDigits?_many (hm : m ≠ 0) (hn : Binary64.value m = n) (hden : 0 < den)
    (hdiv : (num : ℚ) / den = n) (hk : p ≤ k) (h : withDigits? m num den p k = some d) :
    d.value = n := by
  obtain ⟨j, hj⟩ := Int.eq_ofNat_of_zero_le (by omega : 0 ≤ k - p)
  obtain hj : p - k = -(j : ℤ) := by omega
  have hn0 : n ≠ 0 := by
    rintro rfl
    exact (Binary64.value_pos hm).ne' (hn.trans Nat.cast_zero)
  -- the quotient is a whole number of units of the last digit
  set q := scale10 num den (p - k) with hq
  have hpos : 0 < q.2 := scale10_snd_pos num hden (p - k)
  have hscaled : (q.1 : ℚ) / q.2 = (n * 10 ^ j : Nat) := by
    rw [hq, scale10_div num hden, hdiv, hj, zpow_neg, zpow_natCast, div_inv_eq_mul]
    push_cast
    rfl
  have hexact : q.1 = n * 10 ^ j * q.2 := by
    rw [div_eq_iff (by exact_mod_cast hpos.ne')] at hscaled
    exact_mod_cast hscaled
  have hunits : wholeUnits num den (p - k) = n * 10 ^ j := by
    rw [wholeUnits, ← hq, hexact, Nat.mul_div_cancel _ hpos]
  have hnear : Binary64.divRound q.1 q.2 = n * 10 ^ j := by
    refine Binary64.divRound_eq hpos ?_
    rw [hscaled, sub_self, abs_zero]
    norm_num
  have hback : readsBack m (n * 10 ^ j) (p - k) = true := by
    rw [readsBack_mul_pow, hj, add_neg_cancel, readsBack_zero_iff]
    exact Binary64.nearest_of_div_eq_value Nat.one_pos (by rw [hn, Nat.cast_one, div_one])
  have hd : d = ofScaled (n * 10 ^ j) (p - k) := by
    obtain ⟨c, hd, -, ⟨hc, -⟩ | ⟨-, hnot⟩ | ⟨-, hc⟩⟩ := withDigits?_cases h
    · rw [hd, hc, hunits]
    · rw [hunits, hback] at hnot
      cases hnot
    · rw [hd, hc, ← hq, hnear]
  rw [hd, value_ofScaled (Nat.mul_ne_zero hn0 (Nat.pow_pos (by decide)).ne'), hj, zpow_neg,
    zpow_natCast]
  push_cast
  rw [mul_assoc, mul_inv_cancel₀ (by positivity), mul_one]

/-- **A whole number of up to `2 ^ 54` that is a value is that of its shortest decimal.** -/
theorem value_shortest_of_nat (hm : m ≠ 0) (hn : Binary64.value m = n) (hle : n ≤ 2 ^ 54) :
    (shortest m).value = n := by
  have hden := Binary64.ratioOf_snd_pos m
  obtain ⟨k, -, -, hk, -⟩ := exists_withDigits? hm
  rcases lt_or_ge (k : Int) (pointOf (Binary64.ratioOf m).1 (Binary64.ratioOf m).2)
    with hfew | hmany
  · have hle' : Binary64.value m ≤ 2 ^ 54 := by
      rw [hn]
      exact_mod_cast hle
    rw [← hn]
    exact value_of_withDigits?_few hm hle' hden
      (div_lt_pointOf (Binary64.ratioOf_fst_ne_zero hm) hden) hfew hk
  · exact value_of_withDigits?_many hm hn hden ((Binary64.ratioOf_div m).trans hn) hmany hk

/-- **A value of up to `2 ^ 54` is a whole number exactly when its shortest decimal is**, and then
both are the same number. -/
theorem value_shortest_eq_iff (hm : m ≠ 0) (hle : Binary64.value m ≤ 2 ^ 54) :
    (shortest m).value = n ↔ Binary64.value m = n := by
  have hbound : ∀ i : Nat, Binary64.value m = i → i ≤ 2 ^ 54 := fun i hi => by
    rw [hi] at hle
    exact_mod_cast hle
  constructor
  · intro h
    have hnear := nearest_of_value_shortest_eq hm h
    rcases lt_or_ge n (2 ^ 53) with hlt | hge
    · rw [← hnear, Binary64.value_nearest_of_lt hlt]
    · -- a larger number rounds to a value that is whole
      have hmono : Binary64.nearest (1 * 2 ^ 53) 1 ≤ Binary64.nearest n 1 := by
        refine Binary64.nearest_mono Nat.one_pos Nat.one_pos ?_
        rw [Nat.cast_one, div_one, div_one, Nat.cast_le]
        omega
      rw [hnear, ← Binary64.value_le_value_iff, Binary64.value_nearest_shift (by norm_num)] at hmono
      obtain ⟨i, hi⟩ := Binary64.exists_nat_of_le_value (by simpa using hmono)
      rw [hi, ← h, value_shortest_of_nat hm hi (hbound i hi)]
  · exact fun h => value_shortest_of_nat hm h (hbound n h)

/-- The same for a whole number of up to `2 ^ 54`, however large the value. -/
theorem value_shortest_eq_iff_of_le (hm : m ≠ 0) (hn : n ≤ 2 ^ 54) :
    (shortest m).value = n ↔ Binary64.value m = n := by
  have hcast : (n : ℚ) ≤ 2 ^ 54 := by exact_mod_cast hn
  constructor
  · intro h
    have hmono : Binary64.nearest n 1 ≤ Binary64.nearest (1 * 2 ^ 54) 1 := by
      refine Binary64.nearest_mono Nat.one_pos Nat.one_pos ?_
      rw [Nat.cast_one, div_one, div_one, Nat.cast_le]
      omega
    rw [nearest_of_value_shortest_eq hm h, ← Binary64.value_le_value_iff,
      Binary64.value_nearest_shift (by norm_num)] at hmono
    exact (value_shortest_eq_iff hm (by simpa using hmono)).mp h
  · exact fun h => (value_shortest_eq_iff hm (h ▸ hcast)).mpr h

end

end Decimal

end SealedLedger
