import Mathlib.Algebra.Order.Field.Power
import Mathlib.Data.Rat.Cast.Order
import Mathlib.Tactic.FieldSimp
import Mathlib.Tactic.Linarith
import Mathlib.Tactic.NormNum
import Mathlib.Tactic.Positivity
import Mathlib.Tactic.Ring
import SealedLedger.Binary64

/-!
# Rounding is monotone and exact

A magnitude stands for a rational number, `value`. Rounding a quotient to a magnitude never
reverses the order of quotients, and a quotient that is the value of a magnitude rounds to it.
These two facts are all that is needed to bound the result of a floating-point operation: a bound
on the exact result is carried over to the rounded one by rounding the bound itself, which is a
computation on two closed numbers.

## Main definitions

* `Binary64.value` — the rational number of a magnitude

## Main results

* `Binary64.two_zpow_floorLog2_le`, `Binary64.lt_two_zpow_floorLog2` — the binary order of a
  quotient
* `Binary64.nearest_mono` — rounding is monotone
* `Binary64.nearest_eq_of_near` — what is near a value rounds to it
* `Binary64.nearest_ratioOf` — rounding is exact on values
* `Binary64.value_nearest_shift` — which natural numbers are values
* `Binary64.value_le_value_iff` — magnitudes are ordered as their values
-/

namespace SealedLedger

namespace Binary64

/-! ### Rounding to an integer -/

/-- The rounded quotient is the floor or the next integer. -/
theorem divRound_bounds (num den : Nat) :
    num / den ≤ divRound num den ∧ divRound num den ≤ num / den + 1 := by
  simp only [divRound]
  split
  · omega
  · split <;> omega

theorem divRound_mono {a b c d : Nat} (hb : 0 < b) (hd : 0 < d) (h : a * d ≤ c * b) :
    divRound a b ≤ divRound c d := by
  have hfloor : a / b ≤ c / d := by
    rw [Nat.le_div_iff_mul_le hd]
    refine Nat.le_of_mul_le_mul_right ?_ hb
    calc a / b * d * b = a / b * b * d := by ring
      _ ≤ a * d := Nat.mul_le_mul_right _ (Nat.div_mul_le_self a b)
      _ ≤ c * b := h
  rcases Nat.lt_or_eq_of_le hfloor with hlt | heq
  · have := (divRound_bounds a b).2
    have := (divRound_bounds c d).1
    omega
  · -- the floors agree, so the remainders are compared
    have hrem : a % b * d ≤ c % d * b := by
      have ha : a * d = a / b * (b * d) + a % b * d := by
        conv_lhs => rw [← Nat.div_add_mod a b]
        ring
      have hc : c * b = c / d * (b * d) + c % d * b := by
        conv_lhs => rw [← Nat.div_add_mod c d]
        ring
      rw [ha, hc, heq] at h
      omega
    have hlow : d < 2 * (c % d) ∨ 2 * (c % d) ≤ d := by omega
    simp only [divRound, heq]
    by_cases h1 : 2 * (a % b) < b
    · rw [if_pos h1]
      split
      · exact Nat.le_refl _
      · split <;> omega
    · have h2 : ¬ 2 * (c % d) < d := by
        intro hlt
        have : 2 * (c % d) * b < d * b := Nat.mul_lt_mul_of_pos_right hlt hb
        have : b * d ≤ 2 * (a % b) * d := Nat.mul_le_mul_right _ (Nat.not_lt.mp h1)
        nlinarith
      rw [if_neg h1, if_neg h2]
      by_cases h3 : b < 2 * (a % b)
      · have h4 : d < 2 * (c % d) := by
          by_contra hle
          have : 2 * (c % d) * b ≤ d * b := Nat.mul_le_mul_right _ (Nat.not_lt.mp hle)
          have : b * d < 2 * (a % b) * d := Nat.mul_lt_mul_of_pos_right h3 hd
          nlinarith
        rw [if_pos h3, if_pos h4]
      · rw [if_neg h3]
        split <;> omega

/-- A quotient less than one half away from an integer is rounded to it. -/
theorem divRound_eq {num den s : Nat} (hden : 0 < den) (h : |(num : ℚ) / den - s| < 1 / 2) :
    divRound num den = s := by
  have hd : (0 : ℚ) < den := by exact_mod_cast hden
  obtain ⟨hlow, hhigh⟩ := abs_lt.mp h
  have hhigh' : (num : ℚ) / den < (2 * s + 1) / 2 := by linarith
  have hlow' : (2 * (s : ℚ) - 1) / 2 < num / den := by linarith
  rw [div_lt_div_iff₀ hd two_pos] at hhigh'
  rw [div_lt_div_iff₀ two_pos hd] at hlow'
  have hup : num * 2 < (2 * s + 1) * den := by exact_mod_cast hhigh'
  have hdown : 2 * s * den < num * 2 + den := by
    have : (2 * (s : ℚ)) * den < num * 2 + den := by linarith
    exact_mod_cast this
  have hdiv := Nat.div_add_mod num den
  have hmod := Nat.mod_lt num hden
  set q := num / den with hq
  set r := num % den with hr
  -- the floor is the integer or the one before it
  have hle : q ≤ s := by
    by_contra hgt
    have : (s + 1) * den ≤ q * den := Nat.mul_le_mul_right _ (not_le.mp hgt)
    nlinarith
  have hge : s ≤ q + 1 := by
    by_contra hgt
    have : (q + 2) * den ≤ s * den := Nat.mul_le_mul_right _ (by omega)
    nlinarith
  simp only [divRound, ← hq, ← hr]
  rcases Nat.lt_or_eq_of_le hle with hlt | rfl
  · obtain rfl : s = q + 1 := by omega
    have hfar : den < 2 * r := by nlinarith
    rw [if_neg (by omega), if_pos hfar]
  · rw [if_pos (by nlinarith)]

/-! ### Quotients scaled by powers of two -/

theorem scale_snd_pos (num : Nat) {den : Nat} (hden : 0 < den) (e : Int) :
    0 < (scale num den e).2 := by
  rw [scale]
  split
  · exact Nat.mul_pos hden (Nat.pow_pos (by decide))
  · exact hden

theorem scale_div (num : Nat) {den : Nat} (hden : 0 < den) (e : Int) :
    ((scale num den e).1 : ℚ) / (scale num den e).2 = num / den / 2 ^ e := by
  have hd : (den : ℚ) ≠ 0 := by positivity
  rw [scale]
  split
  · next he =>
    obtain ⟨k, rfl⟩ := Int.eq_ofNat_of_zero_le he
    simp only [Int.toNat_natCast, Nat.pow_eq, zpow_natCast]
    push_cast
    field_simp
  · next he =>
    obtain ⟨k, hk⟩ := Int.eq_ofNat_of_zero_le (by omega : 0 ≤ -e)
    obtain rfl : e = -(k : ℤ) := by omega
    simp only [neg_neg, Int.toNat_natCast, Nat.pow_eq, zpow_neg, zpow_natCast]
    push_cast
    field_simp

/-- A quotient is at least one exactly when its numerator is at least its denominator. -/
theorem scale_le_iff (num : Nat) {den : Nat} (hden : 0 < den) (e : Int) :
    (scale num den e).2 ≤ (scale num den e).1 ↔ (2 : ℚ) ^ e ≤ num / den := by
  have hpos : (0 : ℚ) < (scale num den e).2 := by exact_mod_cast scale_snd_pos num hden e
  have h2 : (0 : ℚ) < 2 ^ e := by positivity
  rw [← @Nat.cast_le ℚ, ← one_le_div hpos, scale_div num hden e, one_le_div h2]

theorem two_pow_log2_le {n : Nat} (hn : n ≠ 0) : ((2 : ℚ) ^ (n.log2 : ℤ)) ≤ n := by
  rw [zpow_natCast]
  exact_mod_cast Nat.log2_self_le hn

theorem lt_two_pow_log2 (n : Nat) : (n : ℚ) < 2 ^ ((n.log2 : ℤ) + 1) := by
  rw [← Int.natCast_succ, zpow_natCast]
  exact_mod_cast Nat.lt_log2_self

theorem two_zpow_floorLog2_le {num den : Nat} (hnum : num ≠ 0) (hden : 0 < den) :
    (2 : ℚ) ^ floorLog2 num den ≤ num / den := by
  have hd : (0 : ℚ) < den := by exact_mod_cast hden
  simp only [floorLog2]
  split
  · next h => exact (scale_le_iff num hden _).mp h
  · -- one less than the difference of the orders is always low enough
    rw [le_div_iff₀ hd]
    calc (2 : ℚ) ^ ((num.log2 : ℤ) - den.log2 - 1) * den
        ≤ 2 ^ ((num.log2 : ℤ) - den.log2 - 1) * 2 ^ ((den.log2 : ℤ) + 1) :=
          mul_le_mul_of_nonneg_left (lt_two_pow_log2 den).le (by positivity)
      _ = 2 ^ (num.log2 : ℤ) := by rw [← zpow_add₀ two_ne_zero]; congr 1; ring
      _ ≤ num := two_pow_log2_le hnum

theorem lt_two_zpow_floorLog2 {num den : Nat} (hden : 0 < den) :
    (num : ℚ) / den < 2 ^ (floorLog2 num den + 1) := by
  have hd : (0 : ℚ) < den := by exact_mod_cast hden
  simp only [floorLog2]
  split
  · rw [div_lt_iff₀ hd]
    calc (num : ℚ) < 2 ^ ((num.log2 : ℤ) + 1) := lt_two_pow_log2 num
      _ = 2 ^ ((num.log2 : ℤ) - den.log2 + 1) * 2 ^ (den.log2 : ℤ) := by
          rw [← zpow_add₀ two_ne_zero]; congr 1; ring
      _ ≤ 2 ^ ((num.log2 : ℤ) - den.log2 + 1) * den :=
          mul_le_mul_of_nonneg_left (two_pow_log2_le hden.ne') (by positivity)
  · next h =>
    rw [scale_le_iff num hden, not_le] at h
    simpa using h

/-- A larger quotient has no smaller binary order. -/
theorem floorLog2_mono {a b c d : Nat} (ha : a ≠ 0) (hb : 0 < b) (hd : 0 < d)
    (h : (a : ℚ) / b ≤ c / d) : floorLog2 a b ≤ floorLog2 c d := by
  have hlt : (2 : ℚ) ^ floorLog2 a b < 2 ^ (floorLog2 c d + 1) :=
    (two_zpow_floorLog2_le ha hb).trans_lt (h.trans_lt (lt_two_zpow_floorLog2 hd))
  have := (zpow_lt_zpow_iff_right₀ (one_lt_two : (1 : ℚ) < 2)).mp hlt
  omega

/-! ### Rounding to a magnitude -/

/-- The integer that the significand of a quotient is rounded to. -/
def rounded (num den : Nat) : Nat :=
  divRound (scale num den (targetExponent num den)).1 (scale num den (targetExponent num den)).2

theorem nearest_of_ne_zero {num : Nat} (den : Nat) (hnum : num ≠ 0) :
    nearest num den = rounded num den + (targetExponent num den + 1074).toNat * binade := by
  rw [nearest, if_neg hnum]
  rfl

theorem rounded_le (num : Nat) {den : Nat} (hden : 0 < den) : rounded num den ≤ 2 * binade := by
  set e := targetExponent num den with he
  have hpos := scale_snd_pos num hden e
  have hlt : ((scale num den e).1 : ℚ) / (scale num den e).2 < 2 ^ (53 : ℤ) := by
    rw [scale_div num hden e, div_lt_iff₀ (by positivity), ← zpow_add₀ two_ne_zero]
    refine (lt_two_zpow_floorLog2 hden).trans_le (zpow_le_zpow_right₀ one_le_two ?_)
    rw [he, targetExponent]
    omega
  have hnat : (scale num den e).1 < 2 * binade * (scale num den e).2 := by
    rw [div_lt_iff₀ (by exact_mod_cast hpos)] at hlt
    have : ((2 : ℚ) ^ (53 : ℤ)) = (2 * binade : Nat) := by norm_num [binade]
    rw [this] at hlt
    exact_mod_cast hlt
  have := (divRound_bounds (scale num den e).1 (scale num den e).2).2
  have hdiv := (Nat.div_lt_iff_lt_mul hpos).mpr hnat
  show divRound (scale num den e).1 (scale num den e).2 ≤ 2 * binade
  omega

theorem binade_le_rounded {num den : Nat} (hnum : num ≠ 0) (hden : 0 < den)
    (he : -1074 < targetExponent num den) : binade ≤ rounded num den := by
  set e := targetExponent num den with hdef
  have hpos := scale_snd_pos num hden e
  have hle : (2 : ℚ) ^ (52 : ℤ) ≤ ((scale num den e).1 : ℚ) / (scale num den e).2 := by
    rw [scale_div num hden e, le_div_iff₀ (by positivity), ← zpow_add₀ two_ne_zero]
    refine le_trans (zpow_le_zpow_right₀ one_le_two ?_) (two_zpow_floorLog2_le hnum hden)
    rw [hdef, targetExponent] at he ⊢
    omega
  have hnat : binade * (scale num den e).2 ≤ (scale num den e).1 := by
    rw [le_div_iff₀ (by exact_mod_cast hpos)] at hle
    have : ((2 : ℚ) ^ (52 : ℤ)) = (binade : Nat) := by norm_num [binade]
    rw [this] at hle
    exact_mod_cast hle
  have := (divRound_bounds (scale num den e).1 (scale num den e).2).1
  have hdiv := (Nat.le_div_iff_mul_le hpos).mpr hnat
  show binade ≤ divRound (scale num den e).1 (scale num den e).2
  omega

/-- **Rounding is monotone.** Quotients of one exponent are compared by their significands. Where
the exponents differ, the significand of the larger one is full, and that of the smaller one is at
most the next power of two, which is where the next exponent begins. -/
theorem nearest_mono {a b c d : Nat} (hb : 0 < b) (hd : 0 < d) (h : (a : ℚ) / b ≤ c / d) :
    nearest a b ≤ nearest c d := by
  rcases eq_or_ne a 0 with rfl | ha
  · simp [nearest]
  have hc : c ≠ 0 := by
    rintro rfl
    have hpos : (0 : ℚ) < a / b :=
      div_pos (by exact_mod_cast Nat.pos_of_ne_zero ha) (by exact_mod_cast hb)
    rw [Nat.cast_zero, zero_div] at h
    exact absurd hpos h.not_gt
  have hlog := floorLog2_mono ha hb hd h
  have he : targetExponent a b ≤ targetExponent c d := by
    simp only [targetExponent]
    omega
  rw [nearest_of_ne_zero b ha, nearest_of_ne_zero d hc]
  rcases eq_or_lt_of_le he with heq | hlt
  · rw [heq]
    refine Nat.add_le_add_right ?_ _
    rw [rounded, rounded, heq]
    have hsb := scale_snd_pos a hb (targetExponent c d)
    have hsd := scale_snd_pos c hd (targetExponent c d)
    refine divRound_mono hsb hsd ?_
    have hdiv : ((scale a b (targetExponent c d)).1 : ℚ) / (scale a b (targetExponent c d)).2
        ≤ (scale c d (targetExponent c d)).1 / (scale c d (targetExponent c d)).2 := by
      rw [scale_div a hb, scale_div c hd]
      exact div_le_div_of_nonneg_right h (by positivity)
    rw [div_le_div_iff₀ (by exact_mod_cast hsb) (by exact_mod_cast hsd)] at hdiv
    exact_mod_cast hdiv
  · have hlow : -1074 ≤ targetExponent a b := le_max_right _ _
    have h1 := rounded_le a hb
    have h2 := binade_le_rounded hc hd (by omega)
    have h3 : (targetExponent a b + 1074).toNat + 1 ≤ (targetExponent c d + 1074).toNat := by omega
    calc rounded a b + (targetExponent a b + 1074).toNat * binade
        ≤ binade + ((targetExponent a b + 1074).toNat + 1) * binade := by linarith
      _ ≤ rounded c d + (targetExponent c d + 1074).toNat * binade :=
          Nat.add_le_add h2 (Nat.mul_le_mul_right _ h3)

/-- Quotients of one value round alike. -/
theorem nearest_congr {a b c d : Nat} (hb : 0 < b) (hd : 0 < d) (h : (a : ℚ) / b = c / d) :
    nearest a b = nearest c d :=
  Nat.le_antisymm (nearest_mono hb hd h.le) (nearest_mono hd hb h.ge)

/-! ### The value of a magnitude -/

/-- The rational number that a magnitude stands for. -/
def value (magnitude : Nat) : ℚ :=
  significandOf magnitude * 2 ^ exponentOf magnitude

theorem ratioOf_snd_pos (m : Nat) : 0 < (ratioOf m).2 := by
  simp only [ratioOf]
  split
  · exact Nat.one_pos
  · exact Nat.pow_pos (by decide)

/-- The denominator of a value is a power of two. -/
theorem exists_ratioOf_snd_eq (m : Nat) : ∃ i : Nat, (ratioOf m).2 = 2 ^ i := by
  simp only [ratioOf]
  split
  · exact ⟨0, rfl⟩
  · exact ⟨_, rfl⟩

theorem ratioOf_div (m : Nat) : ((ratioOf m).1 : ℚ) / (ratioOf m).2 = value m := by
  simp only [ratioOf, value]
  split
  · next he =>
    obtain ⟨k, hk⟩ := Int.eq_ofNat_of_zero_le he
    rw [hk]
    simp only [Int.toNat_natCast, Nat.pow_eq, zpow_natCast]
    push_cast
    rw [div_one]
  · next he =>
    obtain ⟨k, hk⟩ := Int.eq_ofNat_of_zero_le (by omega : 0 ≤ -exponentOf m)
    obtain hk' : exponentOf m = -(k : ℤ) := by omega
    rw [hk, hk']
    simp only [Int.toNat_natCast, Nat.pow_eq, zpow_neg, zpow_natCast]
    push_cast
    rw [div_eq_mul_inv]

theorem value_zero : value 0 = 0 := by
  simp [value, significandOf, binade]

theorem value_nonneg (m : Nat) : 0 ≤ value m := by
  rw [value]
  positivity

theorem significandOf_pos {m : Nat} (hm : m ≠ 0) : 0 < significandOf m := by
  rw [significandOf, binade]
  split <;> omega

theorem ratioOf_fst_ne_zero {m : Nat} (hm : m ≠ 0) : (ratioOf m).1 ≠ 0 := by
  have hs := significandOf_pos hm
  simp only [ratioOf]
  split
  · exact Nat.mul_ne_zero hs.ne' (Nat.pow_pos (by decide)).ne'
  · exact hs.ne'

theorem value_pos {m : Nat} (hm : m ≠ 0) : 0 < value m := by
  have hs : (0 : ℚ) < significandOf m := by exact_mod_cast significandOf_pos hm
  rw [value]
  positivity

/-! ### The significand and the exponent of a magnitude -/

theorem exponentOf_ge (m : Nat) : -1074 ≤ exponentOf m := by
  rw [exponentOf, binade]
  split <;> omega

theorem significandOf_lt (m : Nat) : significandOf m < 2 * binade := by
  rw [significandOf, binade]
  split <;> omega

theorem binade_le_significandOf {m : Nat} (h : -1074 < exponentOf m) :
    binade ≤ significandOf m := by
  rw [exponentOf] at h
  split at h
  · omega
  · next hsub =>
    rw [significandOf, if_neg hsub]
    exact Nat.le_add_right _ _

/-- A magnitude counts its significand up from the first one of its exponent. -/
theorem significandOf_add (m : Nat) :
    significandOf m + (exponentOf m + 1074).toNat * binade = m := by
  rw [significandOf, exponentOf]
  split
  · simp
  · next hsub =>
    have hpos : 0 < m / binade := Nat.div_pos (Nat.not_lt.mp hsub) (by decide)
    have hunits : ((m / binade : Nat) - 1075 + 1074 : ℤ).toNat = m / binade - 1 := by omega
    rw [hunits, Nat.sub_mul, Nat.one_mul, Nat.mul_comm (m / binade)]
    have := Nat.div_add_mod m binade
    have := Nat.le_mul_of_pos_right binade hpos
    omega

/-! ### Rounding near a value -/

/-- A quotient less than half a unit of its last place away from an integer number of units is
rounded to that number. -/
theorem rounded_eq {num den s : Nat} (hden : 0 < den)
    (h : |(num : ℚ) / den - s * 2 ^ targetExponent num den|
      < 2 ^ targetExponent num den / 2) : rounded num den = s := by
  have hpow : (0 : ℚ) < 2 ^ targetExponent num den := by positivity
  refine divRound_eq (scale_snd_pos num hden _) ?_
  rw [scale_div num hden, ← mul_lt_mul_iff_of_pos_right hpow, ← abs_of_pos hpow, ← abs_mul,
    abs_of_pos hpow, sub_mul, div_mul_cancel₀ _ hpow.ne']
  linarith

theorem cast_binade : (binade : ℚ) = 2 ^ 52 := by
  norm_num [binade]

theorem cast_significandOf_le (m : Nat) : (significandOf m : ℚ) ≤ 2 ^ 53 - 1 := by
  have : (significandOf m : ℚ) + 1 ≤ 2 * binade := by exact_mod_cast significandOf_lt m
  rw [cast_binade] at this
  linarith

section

variable {m num den : Nat}

theorem ne_zero_of_near (hm : m ≠ 0) (h : |(num : ℚ) / den - value m| < value m / 2 ^ 54) :
    num ≠ 0 := by
  rintro rfl
  have hpos := value_pos hm
  obtain ⟨hlow, -⟩ := abs_lt.mp h
  rw [Nat.cast_zero, zero_div] at hlow
  linarith

/-- The last place of a quotient near a value is that of the value, or that of the magnitude
before it, when the value is a power of two. -/
theorem targetExponent_of_near (hden : 0 < den) (hm : m ≠ 0)
    (h : |(num : ℚ) / den - value m| < value m / 2 ^ 54) :
    targetExponent num den = exponentOf m ∨
      significandOf m = binade ∧ targetExponent num den = exponentOf m - 1 := by
  have hpos : (0 : ℚ) < 2 ^ exponentOf m := by positivity
  have hpow : ∀ k : ℤ, (2 : ℚ) ^ (exponentOf m + k) = 2 ^ k * 2 ^ exponentOf m := fun k => by
    rw [zpow_add₀ two_ne_zero, mul_comm]
  have hge := exponentOf_ge m
  have hnum := ne_zero_of_near hm h
  have hnext := @lt_two_zpow_floorLog2 num _ hden
  rw [value] at h
  obtain ⟨hlow, hhigh⟩ := abs_lt.mp h
  -- the quotient is below the next power of two
  have hbelow : floorLog2 num den < exponentOf m + 53 := by
    refine (zpow_lt_zpow_iff_right₀ (one_lt_two : (1 : ℚ) < 2)).mp
      ((two_zpow_floorLog2_le hnum hden).trans_lt ?_)
    have := mul_le_mul_of_nonneg_right (cast_significandOf_le m) hpos.le
    rw [hpow]
    norm_num at this ⊢
    linarith
  -- and it is above the power of two before it, unless the value is that power
  have habove : ∀ (s : ℚ) (k : ℤ), s ≤ significandOf m → 2 ^ k < s - s / 2 ^ 54 →
      exponentOf m + k ≤ floorLog2 num den := by
    intro s k hs hk
    have hlt : (2 : ℚ) ^ (exponentOf m + k) < 2 ^ (floorLog2 num den + 1) := by
      refine lt_trans ?_ hnext
      rw [hpow]
      have h1 := mul_le_mul_of_nonneg_right hs hpos.le
      have h2 := mul_lt_mul_of_pos_right hk hpos
      linarith
    have := (zpow_lt_zpow_iff_right₀ (one_lt_two : (1 : ℚ) < 2)).mp hlt
    omega
  rcases eq_or_ne (targetExponent num den) (exponentOf m) with heq | hne
  · exact .inl heq
  · rw [targetExponent] at hne ⊢
    have hfull := binade_le_significandOf (m := m) (by omega)
    have hhalf := habove (2 ^ 52) 51 (by rw [← cast_binade]; exact_mod_cast hfull) (by norm_num)
    refine .inr ⟨?_, by omega⟩
    by_contra hother
    have hmore : (2 ^ 52 : ℚ) + 1 ≤ significandOf m := by
      rw [← cast_binade]
      exact_mod_cast Nat.lt_of_le_of_ne hfull (Ne.symm hother)
    have := habove _ 52 hmore (by norm_num)
    omega

/-- **What is near a value rounds to it**: a difference of less than one part in `2 ^ 54` is less
than half the gap on either side of the value, also where the gap below is the smaller one. -/
theorem nearest_eq_of_near (hden : 0 < den) (hm : m ≠ 0)
    (h : |(num : ℚ) / den - value m| < value m / 2 ^ 54) : nearest num den = m := by
  have hpos : (0 : ℚ) < 2 ^ exponentOf m := by positivity
  have hadd := significandOf_add m
  rw [nearest_of_ne_zero den (ne_zero_of_near hm h)]
  rcases targetExponent_of_near hden hm h with heq | ⟨hsig, heq⟩
  · rw [value] at h
    have hclose : (significandOf m : ℚ) * 2 ^ exponentOf m / 2 ^ 54 < 2 ^ exponentOf m / 2 := by
      have := mul_le_mul_of_nonneg_right (cast_significandOf_le m) hpos.le
      linarith
    rw [rounded_eq (s := significandOf m) hden (by rw [heq]; exact h.trans hclose), heq, hadd]
  · rw [value, hsig, cast_binade] at h
    have hround : rounded num den = 2 * binade := by
      refine rounded_eq hden ?_
      have hunit : (2 : ℚ) ^ (exponentOf m - 1) = 2 ^ exponentOf m / 2 := by
        rw [zpow_sub₀ two_ne_zero, zpow_one]
      have hmid : 2 * (2 : ℚ) ^ 52 * (2 ^ exponentOf m / 2) = 2 ^ 52 * 2 ^ exponentOf m := by ring
      have hgap : (2 : ℚ) ^ exponentOf m / 2 / 2 = 2 ^ 52 * 2 ^ exponentOf m / 2 ^ 54 := by ring
      rw [heq, hunit, Nat.cast_mul, Nat.cast_ofNat, cast_binade, hmid, hgap]
      exact h
    have hfull : -1074 < exponentOf m := by
      have hmin : -1074 ≤ targetExponent num den := le_max_right _ _
      omega
    have hunits : (exponentOf m + 1074).toNat = (exponentOf m - 1 + 1074).toNat + 1 := by omega
    rw [hsig, hunits, Nat.add_mul] at hadd
    rw [hround, heq]
    omega

end

/-- **Rounding is exact on values.** -/
theorem nearest_ratioOf (m : Nat) : nearest (ratioOf m).1 (ratioOf m).2 = m := by
  rcases eq_or_ne m 0 with rfl | hm
  · rfl
  · refine nearest_eq_of_near (ratioOf_snd_pos m) hm ?_
    have := value_pos hm
    rw [ratioOf_div, sub_self, abs_zero]
    positivity

/-- Rounding a quotient that is a value returns its magnitude. -/
theorem nearest_of_div_eq_value {num den m : Nat} (hden : 0 < den)
    (h : (num : ℚ) / den = value m) : nearest num den = m := by
  rw [nearest_congr hden (ratioOf_snd_pos m) (h.trans (ratioOf_div m).symm), nearest_ratioOf]

/-- A full significand at one of the exponents. -/
theorem value_add_mul_binade {s : Nat} (k : Nat) (hlow : binade ≤ s) (hhigh : s < 2 * binade) :
    value (s + k * binade) = s * 2 ^ ((k : ℤ) - 1074) := by
  have hbinade : 0 < binade := by decide
  have hquot : (s + k * binade) / binade = k + 1 := by
    rw [Nat.add_mul_div_right _ _ hbinade, Nat.div_eq_of_lt_le (k := 1) (by omega) (by omega),
      Nat.add_comm]
  have hmod : (s + k * binade) % binade = s - binade := by
    rw [Nat.add_mul_mod_self_right, Nat.mod_eq_sub_mod hlow, Nat.mod_eq_of_lt (by omega)]
  have hfull : ¬ s + k * binade < binade := by omega
  rw [value, significandOf, exponentOf, if_neg hfull, if_neg hfull, hquot, hmod,
    Nat.add_sub_cancel' hlow]
  congr 2
  push_cast
  ring

/-- **Natural numbers of at most 53 bits, followed by zeros, are values.** -/
theorem value_nearest_shift {n : Nat} (h : n < 2 ^ 53) (j : Nat) :
    value (nearest (n * 2 ^ j) 1) = n * 2 ^ j := by
  rcases eq_or_ne n 0 with rfl | hn
  · rw [Nat.zero_mul, Nat.cast_zero, zero_mul]
    exact value_zero
  have hlog : n.log2 ≤ 52 := Nat.le_of_lt_succ ((Nat.log2_lt hn).mpr h)
  obtain ⟨k, hk⟩ := Nat.exists_eq_add_of_le hlog
  -- shifted to the full width, the number is a significand
  have hvalue : value (n * 2 ^ k + (n.log2 + 1022 + j) * binade) = n * 2 ^ j := by
    have hlow : binade ≤ n * 2 ^ k := by
      calc binade = 2 ^ n.log2 * 2 ^ k := by rw [← pow_add, ← hk]; rfl
        _ ≤ n * 2 ^ k := Nat.mul_le_mul_right _ (Nat.log2_self_le hn)
    have hhigh : n * 2 ^ k < 2 * binade := by
      calc n * 2 ^ k < 2 ^ (n.log2 + 1) * 2 ^ k :=
            Nat.mul_lt_mul_of_pos_right Nat.lt_log2_self (Nat.pow_pos (by decide))
        _ = 2 * 2 ^ (n.log2 + k) := by ring
        _ = 2 * binade := by rw [← hk]; rfl
    rw [value_add_mul_binade _ hlow hhigh, Nat.cast_mul, Nat.cast_pow, Nat.cast_ofNat, mul_assoc,
      ← zpow_natCast (2 : ℚ) k, ← zpow_add₀ two_ne_zero]
    rw [show (k : ℤ) + ((n.log2 + 1022 + j : Nat) - 1074) = j by omega, zpow_natCast]
  rw [nearest_of_div_eq_value (m := n * 2 ^ k + (n.log2 + 1022 + j) * binade) Nat.one_pos
    (by rw [hvalue, Nat.cast_one, div_one]; push_cast; rfl), hvalue]

/-- Natural numbers of at most 53 bits are values. -/
theorem value_nearest_of_lt {n : Nat} (h : n < 2 ^ 53) : value (nearest n 1) = n := by
  have hshift := value_nearest_shift h 0
  rwa [pow_zero, Nat.mul_one, pow_zero, mul_one] at hshift

/-- A value too large for the fraction bits is a natural number. -/
theorem exists_nat_of_le_value {m : Nat} (h : 2 ^ 53 ≤ value m) : ∃ n : Nat, value m = n := by
  have hexp : 0 ≤ exponentOf m := by
    by_contra hneg
    have hpow : (2 : ℚ) ^ exponentOf m ≤ 1 := zpow_le_one_of_nonpos₀ one_le_two (by omega)
    have := mul_le_mul (cast_significandOf_le m) hpow (by positivity) (by norm_num)
    rw [value] at h
    linarith
  obtain ⟨k, hk⟩ := Int.eq_ofNat_of_zero_le hexp
  refine ⟨significandOf m * 2 ^ k, ?_⟩
  rw [value, hk, zpow_natCast]
  push_cast
  rfl

/-- **Magnitudes are ordered as their values.** -/
theorem value_le_value_iff {m n : Nat} : value m ≤ value n ↔ m ≤ n := by
  have key : ∀ {m n : Nat}, value m ≤ value n → m ≤ n := by
    intro m n h
    rw [← ratioOf_div, ← ratioOf_div] at h
    have := nearest_mono (ratioOf_snd_pos m) (ratioOf_snd_pos n) h
    rwa [nearest_ratioOf, nearest_ratioOf] at this
  refine ⟨key, fun h => ?_⟩
  by_contra hlt
  have hnm := key (not_le.mp hlt).le
  obtain rfl : m = n := Nat.le_antisymm h hnm
  exact hlt le_rfl

end Binary64

end SealedLedger
