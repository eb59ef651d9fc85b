import Mathlib.Algebra.Group.Nat.Even
import Mathlib.Algebra.Order.Group.Abs
import SealedLedger.Proofs.Binary64.Rounding

/-!
# What rounding to the nearest number means

Rounding is computed on a quotient of natural numbers, by a floor and a comparison of remainders.
Here it is compared with the definition of the standard: of all values, the one with the least
distance to the quotient, and of two with the same distance the one with an even magnitude. There
is exactly one such value, because an odd magnitude stands between any two even ones, and so its
value is nearer to everything that is as far from the one as from the other.

The magnitudes go on beyond the infinities here. So the infinities stand for `2 ^ 1024`, the value
that would come next, and a quotient rounds to them where it would round to this value.

## Main definitions

* `Binary64.Preferred` — nearer, or equally near and even
* `Binary64.IsNearest` — the index of the point of a row that is preferred to all others

## Main results

* `Binary64.IsNearest.unique` — in a row that ascends there is at most one
* `Binary64.isNearest_divRound`, `Binary64.isNearest_nearest` — rounding to an integer and to a
  value find it
* `Binary64.nearest_eq_iff` — rounding is characterised by it
* `Binary64.nearest_eq_of_between` — what lies between a value and what rounds to it rounds to it
* `Binary64.abs_sub_value_nearest_le` — the error of rounding
-/

namespace SealedLedger

namespace Binary64

variable {f : Nat → ℚ} {q : ℚ} {m n s num den : Nat}

/-- The number `r` is preferred to `s` for `q`: it is nearer, or as near when its last place `c` is
even. -/
def Preferred (q r : ℚ) (c : Nat) (s : ℚ) : Prop :=
  |q - r| < |q - s| ∨ |q - r| = |q - s| ∧ (r = s ∨ Even c)

theorem Preferred.le {r t : ℚ} {c : Nat} (h : Preferred q r c t) : |q - r| ≤ |q - t| :=
  h.elim le_of_lt fun heq => heq.1.le

/-- A number is preferred to what is further away on the same side. -/
theorem Preferred.of_between {r t : ℚ} (h : t ≤ r ∧ r ≤ q ∨ q ≤ r ∧ r ≤ t) (c : Nat) :
    Preferred q r c t := by
  rcases eq_or_ne r t with rfl | hne
  · exact .inr ⟨rfl, .inl rfl⟩
  · left
    rcases h with ⟨htr, hrq⟩ | ⟨hqr, hrt⟩
    · have hlt := lt_of_le_of_ne htr hne.symm
      rw [abs_of_nonneg (by linarith), abs_of_nonneg (by linarith)]
      linarith
    · have hlt := lt_of_le_of_ne hrt hne
      rw [abs_of_nonpos (by linarith), abs_of_nonpos (by linarith)]
      linarith

theorem Preferred.trans {r t t' : ℚ} {c : Nat} (h : Preferred q r c t) (h' : Preferred q t c t') :
    Preferred q r c t' := by
  rcases h with hlt | ⟨heq, rfl | heven⟩
  · exact .inl (hlt.trans_le h'.le)
  · exact h'
  · exact (heq.le.trans h'.le).lt_or_eq.imp_right fun hsame => ⟨hsame, .inr heven⟩

/-- Distances may be measured in units of any size. -/
theorem preferred_mul_iff {r t u : ℚ} {c : Nat} (hu : 0 < u) :
    Preferred q (r * u) c (t * u) ↔ Preferred (q / u) r c t := by
  have hunits : ∀ t, |q - t * u| = |q / u - t| * u := fun t => by
    rw [← abs_of_pos hu, ← abs_mul, abs_of_pos hu, sub_mul, div_mul_cancel₀ _ hu.ne']
  rw [Preferred, Preferred, hunits, hunits, mul_lt_mul_iff_of_pos_right hu, mul_left_inj' hu.ne',
    mul_left_inj' hu.ne']

/-- The point with the index `m` is the one of the row `f` that is nearest to `q`; of two equally
near ones it is the one with the even index. -/
def IsNearest (f : Nat → ℚ) (q : ℚ) (m : Nat) : Prop :=
  ∀ n, Preferred q (f m) m (f n)

/-- **In a row that ascends there is at most one nearest point.** Two of them would both be even,
and the point after the first one would be nearer. -/
theorem IsNearest.unique (hf : StrictMono f) (hm : IsNearest f q m) (hn : IsNearest f q n) :
    m = n := by
  by_contra hne
  wlog hlt : m < n generalizing m n
  · exact this hn hm (Ne.symm hne) (by omega)
  have hsame : |q - f m| = |q - f n| := le_antisymm (hm n).le (hn m).le
  have hpoint : f m ≠ f n := hf.injective.ne hne
  have hm2 : Even m := ((hm n).resolve_left hsame.not_lt).2.resolve_left hpoint
  have hn2 : Even n := ((hn m).resolve_left hsame.symm.not_lt).2.resolve_left hpoint.symm
  have hnext : m + 1 < n := by
    rw [Nat.even_iff] at hm2 hn2
    omega
  -- the point after the first one is nearer than both
  have hleft : f m < f (m + 1) := hf (Nat.lt_succ_self m)
  have hright : f (m + 1) < f n := hf hnext
  have hmiddle : q - f m = f n - q := by
    rcases abs_eq_abs.mp hsame with h | h <;> linarith
  have hnear : |q - f (m + 1)| < q - f m := abs_lt.mpr ⟨by linarith, by linarith⟩
  exact absurd (hm (m + 1)).le (not_le.mpr (hnear.trans_le (le_abs_self _)))

/-! ### Rounding to an integer -/

/-- An integer at most one half away is the nearest one, if it is even when it is exactly one half
away. -/
theorem isNearest_cast (hle : |q - s| ≤ 1 / 2) (heven : |q - s| = 1 / 2 → Even s) :
    IsNearest Nat.cast q s := by
  intro n
  rcases eq_or_ne s n with rfl | hne
  · exact .inr ⟨rfl, .inl rfl⟩
  · -- another integer is at least one away from this one
    have hgap : (1 : ℚ) ≤ |(n : ℚ) - s| := by
      have : (1 : ℤ) ≤ |(n : ℤ) - s| := Int.one_le_abs (by omega)
      exact_mod_cast this
    have htriangle : |(n : ℚ) - s| ≤ |q - n| + |q - s| := by
      rw [abs_sub_comm q n]
      simpa using abs_sub_le (n : ℚ) q s
    rcases hle.lt_or_eq with hlt | heq
    · exact .inl (by linarith)
    · rcases (show |q - s| ≤ |q - n| by linarith).lt_or_eq with hlt | hsame
      · exact .inl hlt
      · exact .inr ⟨hsame, .inr (heven heq)⟩

/-- **The rounded quotient is the nearest integer.** -/
theorem isNearest_divRound (num : Nat) (hden : 0 < den) :
    |(num : ℚ) / den - divRound num den| ≤ 1 / 2 ∧
      IsNearest Nat.cast ((num : ℚ) / den) (divRound num den) := by
  have hd : (0 : ℚ) < den := by exact_mod_cast hden
  have hsplit : (num : ℚ) / den = (num / den : Nat) + (num % den : Nat) / den := by
    rw [div_eq_iff hd.ne', add_mul, div_mul_cancel₀ _ hd.ne']
    exact_mod_cast (Nat.div_add_mod' num den).symm
  set t := num / den with ht
  set r := num % den with hr
  have hrem : (0 : ℚ) ≤ r / den := by positivity
  have hrem1 : (r : ℚ) / den < 1 := by
    rw [div_lt_one hd]
    exact_mod_cast Nat.mod_lt num hden
  have key : |(num : ℚ) / den - divRound num den| ≤ 1 / 2 ∧
      (|(num : ℚ) / den - divRound num den| = 1 / 2 → Even (divRound num den)) := by
    rw [hsplit, divRound, ← ht, ← hr]
    split
    · next hlow =>
      have : (r : ℚ) / den < 1 / 2 := by
        rw [div_lt_div_iff₀ hd two_pos]
        exact_mod_cast (by omega : r * 2 < 1 * den)
      rw [add_sub_cancel_left, abs_of_nonneg hrem]
      exact ⟨this.le, fun heq => absurd heq this.ne⟩
    · split
      · next hhigh =>
        have : 1 / 2 < (r : ℚ) / den := by
          rw [div_lt_div_iff₀ two_pos hd]
          exact_mod_cast (by omega : 1 * den < r * 2)
        rw [Nat.cast_succ, add_sub_add_left_eq_sub, abs_of_neg (by linarith)]
        exact ⟨by linarith, fun heq => absurd heq (by linarith)⟩
      · have hhalf : (r : ℚ) / den = 1 / 2 := by
          rw [div_eq_div_iff hd.ne' two_ne_zero]
          exact_mod_cast (by omega : r * 2 = 1 * den)
        refine ⟨?_, fun _ => ?_⟩
        · rw [hhalf]
          rcases Nat.mod_two_eq_zero_or_one t with h | h <;> rw [h] <;> push_cast <;>
            rw [add_sub_add_left_eq_sub] <;> norm_num [abs_of_neg]
        · rw [Nat.even_iff]
          omega
  exact ⟨key.1, isNearest_cast key.1 key.2⟩

/-! ### Rounding to a value -/

theorem strictMono_value : StrictMono value :=
  strictMono_of_le_iff_le fun _ _ => value_le_value_iff.symm

/-- The value that a quotient is rounded to, in units of its last place. -/
theorem value_nearest (hnum : num ≠ 0) (hden : 0 < den) :
    value (nearest num den) = rounded num den * 2 ^ targetExponent num den := by
  have hge : -1074 ≤ targetExponent num den := le_max_right _ _
  obtain ⟨k, hk⟩ := Int.eq_ofNat_of_zero_le (show 0 ≤ targetExponent num den + 1074 by omega)
  have he : targetExponent num den = (k : ℤ) - 1074 := by omega
  rw [nearest_of_ne_zero den hnum, hk, Int.toNat_natCast, he]
  rcases lt_or_ge (rounded num den) binade with hlow | hfull
  · obtain rfl : k = 0 := by
      by_contra hpos
      have := binade_le_rounded hnum hden (by omega)
      omega
    rw [Nat.zero_mul, Nat.add_zero, value, significandOf, exponentOf, if_pos hlow, if_pos hlow]
    rfl
  · rcases Nat.lt_or_eq_of_le (rounded_le num hden) with hlt | heq
    · exact value_add_mul_binade k hfull hlt
    · -- the significand has been rounded up to the next power of two
      rw [heq, show 2 * binade + k * binade = binade + (k + 1) * binade by ring,
        value_add_mul_binade (k + 1) le_rfl (by decide)]
      push_cast
      rw [show (k : ℤ) + 1 - 1074 = (k - 1074) + 1 by ring, zpow_add_one₀ two_ne_zero]
      ring

/-- A value is a whole number of units of a last place that is no larger than its own. -/
theorem exists_value_eq_mul {e : Int} (h : e ≤ exponentOf n) : ∃ t : Nat, value n = t * 2 ^ e := by
  obtain ⟨k, hk⟩ := Int.eq_ofNat_of_zero_le (Int.sub_nonneg_of_le h)
  refine ⟨significandOf n * 2 ^ k, ?_⟩
  rw [value, show exponentOf n = k + e by omega, zpow_add₀ two_ne_zero, zpow_natCast]
  push_cast
  ring

/-- A value with a smaller last place is below the quotients whose significand is full. -/
theorem value_lt_of_exponentOf_lt {e : Int} (h : exponentOf n < e) :
    value n < (binade : Nat) * 2 ^ e := by
  have hpow : (2 : ℚ) ^ exponentOf n ≤ 2 ^ (e - 1) := zpow_le_zpow_right₀ one_le_two (by omega)
  have hsig : (significandOf n : ℚ) < 2 * binade := by exact_mod_cast significandOf_lt n
  calc value n ≤ significandOf n * 2 ^ (e - 1) := mul_le_mul_of_nonneg_left hpow (by positivity)
    _ < 2 * binade * 2 ^ (e - 1) := mul_lt_mul_of_pos_right hsig (by positivity)
    _ = (binade : Nat) * 2 ^ e := by
        rw [zpow_sub_one₀ two_ne_zero]
        ring

/-- A quotient whose last place is not the least one has a full significand. -/
theorem binade_mul_le (hnum : num ≠ 0) (hden : 0 < den) (h : -1074 < targetExponent num den) :
    (binade : Nat) * 2 ^ targetExponent num den ≤ (num : ℚ) / den := by
  rw [cast_binade, ← zpow_natCast, ← zpow_add₀ two_ne_zero]
  refine le_trans (zpow_le_zpow_right₀ one_le_two ?_) (two_zpow_floorLog2_le hnum hden)
  rw [targetExponent] at h ⊢
  push_cast
  omega

/-- **The error of rounding** is at most half a unit of the last place. -/
theorem abs_sub_value_nearest_le (hnum : num ≠ 0) (hden : 0 < den) :
    |(num : ℚ) / den - value (nearest num den)| ≤ 2 ^ targetExponent num den / 2 := by
  have hpow : (0 : ℚ) < 2 ^ targetExponent num den := by positivity
  obtain ⟨hle, -⟩ := isNearest_divRound (scale num den (targetExponent num den)).1
    (scale_snd_pos num hden (targetExponent num den))
  rw [scale_div num hden] at hle
  rw [value_nearest hnum hden, ← div_mul_cancel₀ ((num : ℚ) / den) hpow.ne', ← sub_mul, abs_mul,
    abs_of_pos hpow]
  have := mul_le_mul_of_nonneg_right hle hpow.le
  rw [rounded]
  linarith

/-- The parity of a magnitude is that of its significand. -/
theorem even_nearest (hnum : num ≠ 0) : Even (nearest num den) ↔ Even (rounded num den) := by
  rw [nearest_of_ne_zero den hnum, Nat.even_add,
    iff_true_right ((show Even binade by decide).mul_left _)]

/-- **Rounding finds the nearest value.** Against the values that are whole numbers of units of the
last place, the significand is the nearest integer. The other values are below all quotients of
this last place. -/
theorem isNearest_nearest (num : Nat) (hden : 0 < den) :
    IsNearest value ((num : ℚ) / den) (nearest num den) := by
  rcases eq_or_ne num 0 with rfl | hnum
  · intro n
    rcases eq_or_ne n 0 with rfl | hn
    · exact .inr ⟨rfl, .inl rfl⟩
    · have hpos := value_pos hn
      refine .inl ?_
      rw [nearest, if_pos rfl, value_zero, Nat.cast_zero, zero_div, sub_self, abs_zero, zero_sub,
        abs_neg, abs_of_pos hpos]
      exact hpos
  set e := targetExponent num den with he
  have hpow : (0 : ℚ) < 2 ^ e := by positivity
  obtain ⟨-, hint⟩ := isNearest_divRound (scale num den e).1 (scale_snd_pos num hden e)
  rw [scale_div num hden e] at hint
  have hgrid : ∀ t : Nat, Preferred ((num : ℚ) / den) (value (nearest num den)) (nearest num den)
      (t * 2 ^ e) := fun t => by
    have hscaled := (preferred_mul_iff hpow).mpr (hint t)
    rwa [Preferred, even_nearest hnum, value_nearest hnum hden]
  intro n
  rcases lt_or_ge (exponentOf n) e with hlt | hge
  · left
    have hbelow := value_lt_of_exponentOf_lt hlt
    have habove := binade_mul_le hnum hden (lt_of_le_of_lt (exponentOf_ge n) hlt)
    calc |(num : ℚ) / den - value (nearest num den)|
        ≤ |(num : ℚ) / den - (binade : Nat) * 2 ^ e| := (hgrid binade).le
      _ < |(num : ℚ) / den - value n| := by
          rw [abs_of_nonneg (sub_nonneg.mpr habove), abs_of_nonneg (by linarith)]
          linarith
  · obtain ⟨t, ht⟩ := exists_value_eq_mul hge
    rw [ht]
    exact hgrid t

/-- **Rounding is characterised by distances.** -/
theorem nearest_eq_iff (hden : 0 < den) :
    nearest num den = m ↔ IsNearest value ((num : ℚ) / den) m :=
  ⟨fun h => h ▸ isNearest_nearest num hden,
    fun h => (isNearest_nearest num hden).unique strictMono_value h⟩

/-- What lies between a value and what rounds to it rounds to it. -/
theorem nearest_eq_of_between {a b c d : Nat} (hb : 0 < b) (hd : 0 < d)
    (h : nearest a b = m)
    (hbetween : (a : ℚ) / b ≤ c / d ∧ (c : ℚ) / d ≤ value m ∨
      value m ≤ (c : ℚ) / d ∧ (c : ℚ) / d ≤ a / b) : nearest c d = m := by
  have hm := nearest_ratioOf m
  rcases hbetween with ⟨hlow, hhigh⟩ | ⟨hlow, hhigh⟩
  · rw [← ratioOf_div] at hhigh
    have h1 := nearest_mono hb hd hlow
    have h2 := nearest_mono hd (ratioOf_snd_pos m) hhigh
    omega
  · rw [← ratioOf_div] at hlow
    have h1 := nearest_mono (ratioOf_snd_pos m) hd hlow
    have h2 := nearest_mono hd hb hhigh
    omega

end Binary64

end SealedLedger
