import SealedLedger.Decimal.Reading
import SealedLedger.Proofs.Decimal.Shortest
import SealedLedger.Proofs.Json.Scaling

/-!
# A decimal is rounded once

No power of ten is formed for a decimal that is certainly too large or too small for a double. There
every quotient of its value rounds to infinity, or to zero. So the double of a decimal is what the
quotient rounds to, whatever its exponent.

## Main results

* `Decimal.nearest_eq_ofRatio` — the double of a decimal is what its value rounds to
-/

namespace SealedLedger

namespace Decimal

variable {n num den : Nat} {e : Int} {negative : Bool}

/-- What is at least `2 ^ 1024` rounds to infinity. -/
theorem ofRatio_eq_infinity (hden : 0 < den) (h : (2 : ℚ) ^ 1024 ≤ num / den) :
    Binary64.ofRatio negative num den = .infinity negative := by
  have hlarge : ((Json.Numeral.overflow : Nat) : ℚ) / (1 : Nat) ≤ num / den := by
    refine le_trans ?_ h
    rw [Nat.cast_one, div_one]
    exact_mod_cast Nat.sub_le _ _
  have hnearest := Binary64.nearest_mono Nat.one_pos hden hlarge
  rw [Json.Numeral.nearest_overflow] at hnearest
  simp only [Binary64.ofRatio, Binary64.capped, min_eq_right hnearest]
  rfl

/-- One part in this many is half the least double. -/
def underflow : Nat := 2 ^ 1075

theorem nearest_underflow : Binary64.nearest 1 underflow = 0 := by
  decide +kernel

/-- What is at most half the least double rounds to zero. -/
theorem ofRatio_eq_zero (hden : 0 < den) (h : (num : ℚ) / den ≤ 1 / 2 ^ 1075) :
    Binary64.ofRatio negative num den = .zero negative := by
  have hsmall : (num : ℚ) / den ≤ (1 : Nat) / (underflow : Nat) := by
    rwa [underflow, Nat.cast_one, Nat.cast_pow, Nat.cast_ofNat]
  have hpos : 0 < underflow := by
    rw [underflow]
    positivity
  have hnearest := Binary64.nearest_mono hden hpos hsmall
  rw [nearest_underflow, Nat.le_zero] at hnearest
  rw [Binary64.ofRatio, hnearest]
  rfl

/-- Beyond the greatest exponent a decimal is too large. -/
theorem two_pow_le_mul (hn : n ≠ 0) (he : 400 < e) : (2 : ℚ) ^ 1024 ≤ n * 10 ^ e := by
  have hone : (1 : ℚ) ≤ n := by exact_mod_cast Nat.pos_of_ne_zero hn
  calc (2 : ℚ) ^ 1024 ≤ 2 ^ (3 * 400) := pow_le_pow_right₀ one_le_two (by decide)
    _ ≤ 10 ^ (400 : ℤ) := by
        rw [pow_mul]
        exact_mod_cast pow_le_pow_left₀ (by norm_num) (by norm_num : (2 : ℚ) ^ 3 ≤ 10) 400
    _ ≤ 10 ^ e := zpow_le_zpow_right₀ (by norm_num) he.le
    _ ≤ n * 10 ^ e := le_mul_of_one_le_left (by positivity) hone

/-- Below the least one it is too small, even with the largest digits of its length. -/
theorem mul_le_two_pow (he : e + n.log2 < -400) : (n : ℚ) * 10 ^ e ≤ 1 / 2 ^ 1075 := by
  obtain ⟨k, hk⟩ := Int.eq_ofNat_of_zero_le (show 0 ≤ -(e + n.log2) by omega)
  have hexp : e = -(n.log2 : ℤ) - k := by omega
  have hpow : (2 : ℚ) * 2 ^ 1075 ≤ 10 ^ k := by
    calc (2 : ℚ) * 2 ^ 1075 = 2 ^ 1076 := (pow_succ' 2 1075).symm
      _ ≤ 2 ^ (3 * 400) := pow_le_pow_right₀ one_le_two (by decide)
      _ ≤ 10 ^ 400 := by
          rw [pow_mul]
          exact pow_le_pow_left₀ (by norm_num) (by norm_num) 400
      _ ≤ 10 ^ k := pow_le_pow_right₀ (by norm_num) (by omega)
  calc (n : ℚ) * 10 ^ e ≤ 2 ^ ((n.log2 : ℤ) + 1) * 10 ^ e :=
        mul_le_mul_of_nonneg_right (Binary64.lt_two_pow_log2 n).le (by positivity)
    _ ≤ 2 * 10 ^ (n.log2 : ℤ) * 10 ^ e := by
        rw [zpow_add_one₀ two_ne_zero, mul_comm _ (2 : ℚ), zpow_natCast, zpow_natCast]
        gcongr
        norm_num
    _ = 2 / 10 ^ k := by
        rw [mul_assoc, ← zpow_add₀ (by norm_num), hexp, add_sub_assoc', add_neg_cancel, zero_sub,
          zpow_neg, zpow_natCast, div_eq_mul_inv]
    _ ≤ 2 / (2 * 2 ^ 1075) := div_le_div_of_nonneg_left two_pos.le (by positivity) hpow
    _ = 1 / 2 ^ 1075 := by rw [← div_div, div_self two_ne_zero]

/-- Quotients of one value round to one double. -/
theorem ofRatio_congr {a b c d : Nat} (hb : 0 < b) (hd : 0 < d) (h : (a : ℚ) / b = c / d) :
    Binary64.ofRatio negative a b = Binary64.ofRatio negative c d := by
  rw [Binary64.ofRatio, Binary64.ofRatio, Binary64.nearest_congr hb hd h]

/-- **The double of a decimal is what its value rounds to.** -/
theorem nearest_eq_ofRatio (negative : Bool) (hden : 0 < den) (h : (num : ℚ) / den = n * 10 ^ e) :
    nearest negative n e = Binary64.ofRatio negative num den := by
  rw [nearest]
  split
  · next hn =>
    rw [hn, Nat.cast_zero, zero_mul] at h
    exact (ofRatio_eq_zero hden (h ▸ by positivity)).symm
  split
  · next hn he => exact (ofRatio_eq_infinity hden (h ▸ two_pow_le_mul hn he)).symm
  split
  · next he => exact (ofRatio_eq_zero hden (h ▸ mul_le_two_pow he)).symm
  split
  · next he =>
    obtain ⟨k, rfl⟩ := Int.eq_ofNat_of_zero_le he
    refine ofRatio_congr Nat.one_pos hden ?_
    rw [h, Int.toNat_natCast, Nat.pow_eq, zpow_natCast]
    push_cast
    rw [div_one]
  · next he =>
    obtain ⟨k, hk⟩ := Int.eq_ofNat_of_zero_le (show 0 ≤ -e by omega)
    refine ofRatio_congr (Nat.pow_pos (by decide)) hden ?_
    rw [h, hk, Int.toNat_natCast, Nat.pow_eq, show e = -(k : ℤ) by omega, zpow_neg, zpow_natCast]
    push_cast
    rw [div_eq_mul_inv]

theorem nearest_negative (negative : Bool) (n : Nat) (e : Int) :
    (nearest negative n e).negative = negative := by
  rw [nearest_eq_ofRatio negative (scale10_snd_pos n Nat.one_pos (-e)) (scale10_neg_div n e)]
  rfl

end Decimal

end SealedLedger
