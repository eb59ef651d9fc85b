import SealedLedger.Proofs.Binary64.Nearest
import SealedLedger.Proofs.Decimal.Whole

/-!
# The shortest decimal is the best one

A round of the search tries two decimals only, the neighbours of the value in units of its last
digit. No other decimal of as many digits lies between them, whatever its exponent: with a larger
exponent it is a whole number of the same units, and with a smaller one it is less than the value's
first digit. So if any decimal of as many digits rounds to the magnitude, the neighbour on its side
does, which lies between it and the value. For this reason a round fails only when there is no such
decimal, and what it returns is the nearest of all.

Of two neighbours that are equally near, the even one is returned. It would not be even in its own
digits if it were `10`, in the round of one digit; but the value would then be nine and a half
units, and nine units do not round to it.

## Main results

* `Decimal.readsBack_eq_false_of_withDigits?` — a round fails only when there is no such decimal
* `Decimal.preferred_of_withDigits?` — what a round returns is preferred to all other such decimals
* `Decimal.shortest_best` — and so is what the search returns, with the fewest digits
-/

namespace SealedLedger

namespace Decimal

open Binary64 (Preferred IsNearest)

variable {m n num den k : Nat} {p e : Int} {d : Decimal}

/-! ### What rounds to a magnitude -/

/-- A decimal reads back as a magnitude when its value is the nearest one. -/
theorem readsBack_iff_isNearest :
    readsBack m n e = true ↔ IsNearest Binary64.value (n * 10 ^ e) m := by
  rw [readsBack_iff, Binary64.nearest_eq_iff (scale10_snd_pos n Nat.one_pos (-e)), scale10_neg_div]

/-- Whatever lies between a value and a decimal that rounds to it rounds to it. -/
theorem readsBack_of_between {n' : Nat} {e' : Int} (h : readsBack m n e = true)
    (hbetween : (n : ℚ) * 10 ^ e ≤ n' * 10 ^ e' ∧ (n' : ℚ) * 10 ^ e' ≤ Binary64.value m ∨
      Binary64.value m ≤ n' * 10 ^ e' ∧ (n' : ℚ) * 10 ^ e' ≤ n * 10 ^ e) :
    readsBack m n' e' = true := by
  refine readsBack_iff.mpr (Binary64.nearest_eq_of_between (scale10_snd_pos n Nat.one_pos (-e))
    (scale10_snd_pos n' Nat.one_pos (-e')) (readsBack_iff.mp h) ?_)
  rwa [scale10_neg_div, scale10_neg_div]

/-- A decimal of at least one that rounds to a value differs from it by less than one part in
`2 ^ 52`. -/
theorem abs_sub_value_le_of_readsBack (h : readsBack m n e = true) (hone : (1 : ℚ) ≤ n * 10 ^ e) :
    |(n : ℚ) * 10 ^ e - Binary64.value m| ≤ n * 10 ^ e / 2 ^ 53 := by
  have hpos := scale10_snd_pos n Nat.one_pos (-e)
  have hdiv := scale10_neg_div n e
  have hnum : (scale10 n 1 (-e)).1 ≠ 0 := by
    intro hzero
    rw [hzero, Nat.cast_zero, zero_div] at hdiv
    linarith
  have herror := Binary64.abs_sub_value_nearest_le hnum hpos
  have hplace : -1074 < Binary64.targetExponent (scale10 n 1 (-e)).1 (scale10 n 1 (-e)).2 := by
    have hlog : (0 : ℤ) < Binary64.floorLog2 (scale10 n 1 (-e)).1 (scale10 n 1 (-e)).2 + 1 := by
      refine (zpow_lt_zpow_iff_right₀ (one_lt_two : (1 : ℚ) < 2)).mp ?_
      rw [zpow_zero]
      exact (hone.trans_eq hdiv.symm).trans_lt (Binary64.lt_two_zpow_floorLog2 hpos)
    rw [Binary64.targetExponent]
    omega
  have hfull := Binary64.binade_mul_le hnum hpos hplace
  rw [readsBack_iff.mp h, hdiv] at herror
  rw [hdiv, Binary64.cast_binade] at hfull
  norm_num at hfull ⊢
  linarith

/-- **Nine units do not round to a value of nine and a half.** Where the units are fractions, the
value would have a factor five in its denominator; and where they are not, the difference is too
large. -/
theorem readsBack_nine_eq_false (h : 2 * Binary64.value m = 19 * 10 ^ e) :
    readsBack m 9 e = false := by
  rcases lt_or_ge e 0 with hneg | hpos
  · obtain ⟨j, hj⟩ : ∃ j : Nat, e = -((j + 1 : Nat) : ℤ) := ⟨(-e - 1).toNat, by omega⟩
    obtain ⟨i, hi⟩ := Binary64.exists_ratioOf_snd_eq m
    rw [hj, zpow_neg, zpow_natCast, ← Binary64.ratioOf_div, hi, ← div_eq_mul_inv, mul_div_assoc',
      div_eq_div_iff (by positivity) (by positivity)] at h
    have hnat : 2 * (Binary64.ratioOf m).1 * 10 ^ (j + 1) = 19 * 2 ^ i := by exact_mod_cast h
    have hfive : 5 ∣ 19 * 2 ^ i := by
      rw [← hnat]
      exact Dvd.dvd.mul_left (Dvd.dvd.trans (by decide) (dvd_pow_self 10 j.succ_ne_zero)) _
    have hcoprime : Nat.Coprime 5 (2 ^ i) := Nat.Coprime.pow_right i (by decide)
    exact absurd (hcoprime.dvd_of_dvd_mul_right hfive) (by decide)
  · by_contra hback
    have hunit : (1 : ℚ) ≤ 10 ^ e := one_le_zpow₀ (by norm_num) hpos
    have hnear := abs_sub_value_le_of_readsBack (Bool.not_eq_false _ ▸ hback)
      (show (1 : ℚ) ≤ (9 : Nat) * 10 ^ e by push_cast; linarith)
    have hfar := neg_le_of_abs_le hnear
    norm_num at hfar
    linarith

/-! ### One round of the search -/

/-- **No decimal of as many digits lies between the two neighbours.** -/
theorem le_or_le_of_lt_pow {num : Nat} (hden : 0 < den) (hle : (10 : ℚ) ^ (p - 1) ≤ num / den)
    (hn : n < 10 ^ k) (e : Int) :
    (n : ℚ) * 10 ^ e ≤ wholeUnits num den (p - k) * 10 ^ (p - k) ∨
      ((wholeUnits num den (p - k) + 1 : Nat) : ℚ) * 10 ^ (p - k) ≤ n * 10 ^ e := by
  rcases Nat.eq_zero_or_pos k with rfl | hk
  · obtain rfl : n = 0 := by omega
    left
    rw [Nat.cast_zero, zero_mul]
    positivity
  rcases lt_or_ge e (p - k) with hlt | hge
  · -- it is less than the first digit of the quotient
    left
    have hcast : (n : ℚ) ≤ 10 ^ k := by exact_mod_cast hn.le
    have hfirst : (10 : ℚ) ^ (k - 1) ≤ wholeUnits num den (p - k) := by
      exact_mod_cast pow_le_wholeUnits hden hle hk
    calc (n : ℚ) * 10 ^ e ≤ 10 ^ k * 10 ^ (p - k - 1) :=
          mul_le_mul hcast (zpow_le_zpow_right₀ (by norm_num) (by omega)) (by positivity)
            (by positivity)
      _ = 10 ^ (k - 1) * 10 ^ (p - k) := by
          rw [← zpow_natCast, ← zpow_natCast, ← zpow_add₀ (by norm_num),
            ← zpow_add₀ (by norm_num)]
          congr 1
          omega
      _ ≤ wholeUnits num den (p - k) * 10 ^ (p - k) :=
          mul_le_mul_of_nonneg_right hfirst (by positivity)
  · -- it is a whole number of the same units
    obtain ⟨j, hj⟩ := Int.eq_ofNat_of_zero_le (Int.sub_nonneg_of_le hge)
    have hunits : (n : ℚ) * 10 ^ e = (n * 10 ^ j : Nat) * 10 ^ (p - k) := by
      rw [show e = j + (p - k) by omega, zpow_add₀ (by norm_num), zpow_natCast]
      push_cast
      ring
    rw [hunits]
    rcases Nat.lt_or_ge (wholeUnits num den (p - k)) (n * 10 ^ j) with hlt | hle
    · exact .inr (mul_le_mul_of_nonneg_right (by exact_mod_cast hlt) (by positivity))
    · exact .inl (mul_le_mul_of_nonneg_right (by exact_mod_cast hle) (by positivity))

section

variable (hden : 0 < den) (hvalue : (num : ℚ) / den = Binary64.value m)
  (hle : (10 : ℚ) ^ (p - 1) ≤ Binary64.value m)

include hden hvalue hle

/-- If a decimal of as many digits rounds to the magnitude, so does the neighbour on its side. -/
theorem le_or_le_of_readsBack (hn : n < 10 ^ k) (h : readsBack m n e = true) :
    (n : ℚ) * 10 ^ e ≤ wholeUnits num den (p - k) * 10 ^ (p - k) ∧
        readsBack m (wholeUnits num den (p - k)) (p - k) = true ∨
      ((wholeUnits num den (p - k) + 1 : Nat) : ℚ) * 10 ^ (p - k) ≤ n * 10 ^ e ∧
        readsBack m (wholeUnits num den (p - k) + 1) (p - k) = true := by
  have hlow := wholeUnits_mul_le num hden (p - k)
  have hhigh := lt_wholeUnits_add_one_mul num hden (p - k)
  rw [hvalue] at hlow hhigh
  refine (le_or_le_of_lt_pow hden (hvalue ▸ hle) hn e).imp (fun hside => ⟨hside, ?_⟩)
    fun hside => ⟨hside, ?_⟩
  · exact readsBack_of_between h (.inl ⟨hside, hlow⟩)
  · exact readsBack_of_between h (.inr ⟨hhigh.le, hside⟩)

/-- **A round fails only when no decimal of as many digits rounds to the magnitude.** -/
theorem readsBack_eq_false_of_withDigits? (h : withDigits? m num den p k = none)
    (hn : n < 10 ^ k) (e : Int) : readsBack m n e = false := by
  obtain ⟨hlow, hhigh⟩ := withDigits?_eq_none_iff.mp h
  by_contra hback
  rw [Bool.not_eq_false] at hback
  rcases le_or_le_of_readsBack hden hvalue hle hn hback with ⟨-, h⟩ | ⟨-, h⟩
  · exact absurd (hlow.symm.trans h) Bool.false_ne_true
  · exact absurd (hhigh.symm.trans h) Bool.false_ne_true

/-- **What a round returns is preferred to all other decimals of as many digits** that round to the
magnitude, by the parity `c'` of its last digit. In the round of one digit there may be a ten, whose
own digit is another one; but ten is never as near as nine. -/
theorem preferred_of_withDigits? (hlt : Binary64.value m < 10 ^ p)
    (h : withDigits? m num den p k = some d) :
    ∃ c, d = ofScaled c (p - k) ∧ readsBack m c (p - k) = true ∧
      wholeUnits num den (p - k) ≤ c ∧ c ≤ wholeUnits num den (p - k) + 1 ∧
      ∀ c' n e, c' = c ∨ c = 10 ∧ k = 1 → n < 10 ^ k → readsBack m n e = true →
        Preferred (Binary64.value m) (c * 10 ^ (p - k)) c' (n * 10 ^ e) := by
  obtain ⟨c, hd, hback, hcases⟩ := withDigits?_cases h
  have hdigits := wholeUnits_lt hden (hvalue ▸ hlt) k
  have hlow := wholeUnits_mul_le num hden (p - k)
  have hhigh := lt_wholeUnits_add_one_mul num hden (p - k)
  rw [hvalue] at hlow hhigh
  refine ⟨c, hd, hback, by omega, by omega, fun c' n e hc' hn h => ?_⟩
  have hside := le_or_le_of_readsBack hden hvalue hle hn h
  rcases hcases with ⟨rfl, hother⟩ | ⟨rfl, hother⟩ | ⟨hc, hround⟩
  · obtain ⟨hside, -⟩ := hside.resolve_right fun h => absurd (hother.symm.trans h.2) (by simp)
    exact .of_between (.inl ⟨hside, hlow⟩) _
  · obtain ⟨hside, -⟩ := hside.resolve_left fun h => absurd (hother.symm.trans h.2) (by simp)
    exact .of_between (.inr ⟨hhigh.le, hside⟩) _
  · -- both neighbours round to the magnitude, and the nearer one has been returned
    have hunit : (0 : ℚ) < 10 ^ (p - k) := by positivity
    obtain ⟨-, hnearest⟩ := Binary64.isNearest_divRound (scale10 num den (p - k)).1
      (scale10_snd_pos num hden (p - k))
    rw [scale10_div num hden, hvalue, ← hround] at hnearest
    have hneighbour : ∀ t : Nat,
        Preferred (Binary64.value m) (c * 10 ^ (p - k)) c (t * 10 ^ (p - k)) :=
      fun t => (Binary64.preferred_mul_iff hunit).mpr (hnearest t)
    rcases hc' with rfl | ⟨rfl, rfl⟩
    · rcases hside with ⟨hside, -⟩ | ⟨hside, -⟩
      · exact (hneighbour _).trans (.of_between (.inl ⟨hside, hlow⟩) _)
      · exact (hneighbour _).trans (.of_between (.inr ⟨hhigh.le, hside⟩) _)
    · have hnine : wholeUnits num den (p - (1 : Nat)) = 9 := by omega
      rw [hnine] at hside hlow hhigh
      rcases hside with ⟨hside, hback⟩ | ⟨hside, -⟩
      · refine .trans ?_ (.of_between (.inl ⟨hside, hlow⟩) _)
        refine (hneighbour 9).imp_right fun ⟨htie, _⟩ => ?_
        rw [abs_of_neg (sub_neg.mpr hhigh), abs_of_nonneg (sub_nonneg.mpr hlow)] at htie
        have hfalse := readsBack_nine_eq_false (m := m) (e := p - (1 : Nat)) (by
          push_cast at htie ⊢
          linarith)
        exact absurd (hfalse.symm.trans hback) Bool.false_ne_true
      · exact .of_between (.inr ⟨hhigh.le, hside⟩) _

end

/-! ### The figures of the shortest decimal -/

theorem IsReduced.pow_le_ofDigits (hd : d.IsReduced) :
    10 ^ (d.figures.length - 1) ≤ ofDigits d.figures := by
  have hdigits : digits (ofDigits d.figures) = d.figures :=
    digits_ofDigits hd.ne_nil hd.lt fun f rest h _ => hd.head_ne_zero f rest h
  have hne : ofDigits d.figures ≠ 0 := by
    intro hzero
    rw [hzero, digits_zero] at hdigits
    exact hd.head_ne_zero 0 [] hdigits.symm rfl
  have hwidth := pow_width_le hne
  have hlength : 1 ≤ d.figures.length := List.length_pos_iff.mpr hd.ne_nil
  rw [width, hdigits, ← Nat.sub_add_cancel hlength, Nat.pow_succ] at hwidth
  omega

/-- A number of `k` digits in its own figures. -/
theorem IsReduced.length_eq (hd : d.IsReduced) (hk : 0 < k)
    (hle : 10 ^ (k - 1) ≤ ofDigits d.figures) (hlt : ofDigits d.figures < 10 ^ k) :
    d.figures.length = k := by
  have hup : d.figures.length - 1 < k :=
    (Nat.pow_lt_pow_iff_right (a := 10) (by decide)).mp (hd.pow_le_ofDigits.trans_lt hlt)
  have hdown : k - 1 < d.figures.length :=
    (Nat.pow_lt_pow_iff_right (a := 10) (by decide)).mp (hle.trans_lt (ofDigits_lt hd.lt))
  have hlength := List.length_pos_iff.mpr hd.ne_nil
  omega

/-- The round of the search that the shortest decimal comes from. -/
theorem shortest_round (hm : m ≠ 0) : ∃ c k e, 0 < k ∧ shortest m = ofScaled c e ∧
    readsBack m c e = true ∧ 10 ^ (k - 1) ≤ c ∧ c ≤ 10 ^ k ∧
    (∀ n e', n < 10 ^ (k - 1) → readsBack m n e' = false) ∧
    ∀ c' n e', c' = c ∨ c = 10 ∧ k = 1 → n < 10 ^ k → readsBack m n e' = true →
      Preferred (Binary64.value m) (c * 10 ^ e) c' (n * 10 ^ e') := by
  have hnum := Binary64.ratioOf_fst_ne_zero hm
  have hden := Binary64.ratioOf_snd_pos m
  have hvalue := Binary64.ratioOf_div m
  have hle := pointOf_le_div hnum hden
  have hlt := div_lt_pointOf hnum hden
  obtain ⟨k, -, hk, hround, hfirst⟩ := exists_withDigits? hm
  obtain ⟨c, hd, hback, hlow, hhigh, hpreferred⟩ :=
    preferred_of_withDigits? hden hvalue (hvalue ▸ hle) (hvalue ▸ hlt) hround
  have hunits := wholeUnits_lt hden hlt k
  refine ⟨c, k, _, hk, hd, hback, (pow_le_wholeUnits hden hle hk).trans hlow, by omega,
    fun n e' hn => ?_, hpreferred⟩
  rcases Nat.eq_zero_or_pos (k - 1) with hone | hmore
  · rw [hone, Nat.pow_zero, Nat.lt_one_iff] at hn
    by_contra hback
    exact ne_zero_of_readsBack hm (Bool.not_eq_false _ ▸ hback) hn
  · exact readsBack_eq_false_of_withDigits? hden hvalue (hvalue ▸ hle)
      (hfirst (k - 1) hmore (by omega)) hn e'

/-- **The shortest decimal is the best one.** A decimal with fewer digits does not round to the
magnitude; and to all others with as many digits that do, it is preferred. It has as many figures as
its round has digits, since zeros at the end would leave a decimal with fewer digits. -/
theorem shortest_best (hm : m ≠ 0) :
    (∀ n e, n < 10 ^ ((shortest m).figures.length - 1) → readsBack m n e = false) ∧
      ∀ n e, n < 10 ^ (shortest m).figures.length → readsBack m n e = true →
        Preferred (Binary64.value m) (shortest m).value (ofDigits (shortest m).figures)
          (n * 10 ^ e) := by
  obtain ⟨c, k, e, hk, hshortest, hback, hlow, hhigh, hfewer, hpreferred⟩ := shortest_round hm
  have hreduced := isReduced_shortest hm
  have hlast := not_dvd_shortest hm
  have hc := ne_zero_of_readsBack hm hback
  obtain ⟨j, hvalue, -, -⟩ := exists_ofScaled hc e
  rw [← value_ofScaled hc, ← hshortest] at hpreferred
  rw [← hshortest] at hvalue
  set figures := ofDigits (shortest m).figures with hfigures
  rcases Nat.eq_zero_or_pos j with rfl | hj
  · rw [Nat.pow_zero, Nat.mul_one] at hvalue
    subst hvalue
    have hne : figures ≠ 10 ^ k := fun heq => hlast (heq ▸ dvd_pow_self 10 hk.ne')
    rw [hreduced.length_eq hk hlow (by omega)]
    exact ⟨hfewer, fun n e' => hpreferred _ n e' (.inl rfl)⟩
  · have hten : figures * 10 ≤ c := by
      rw [hvalue]
      exact Nat.mul_le_mul_left _ (Nat.le_self_pow hj.ne' 10)
    have hfew : 10 ^ (k - 1) ≤ figures := by
      by_contra hlt
      have hfalse := hfewer figures (j + e) (not_le.mp hlt)
      rw [← readsBack_mul_pow, ← hvalue, hback] at hfalse
      cases hfalse
    have hsplit : 10 ^ k = 10 ^ (k - 1) * 10 := by
      rw [← Nat.pow_succ, Nat.succ_eq_add_one, Nat.sub_add_cancel hk]
    have hexact : figures = 10 ^ (k - 1) := by omega
    have hone : k = 1 := by
      by_contra hne
      exact hlast (hexact ▸ dvd_pow_self 10 (by omega))
    subst hone
    rw [hreduced.length_eq hk hfew (by omega)]
    exact ⟨hfewer, fun n e' => hpreferred _ n e' (.inr ⟨by omega, rfl⟩)⟩

end Decimal

end SealedLedger
