import Mathlib.Data.List.DropRight
import Mathlib.Data.Nat.Cast.Order.Field
import SealedLedger.Decimal.Shortest
import SealedLedger.Proofs.Binary64.Rounding
import SealedLedger.Proofs.Decimal.Digits

/-!
# What the search for the shortest decimal returns

The search tries the two neighbours of a magnitude among the decimals of one digit, of two digits,
and so on, up to seventeen, where one of the two always rounds to the magnitude. What the search
returns has been seen to round to the magnitude. Its figures are digits, the first of them is not
zero, and they spell a number of at most `10 ^ 17`.

## Main definitions

* `Decimal.IsReduced` — what every decimal of the search is like
* `Decimal.wholeUnits` — how many units of a power of ten a quotient has
* `Decimal.value` — the rational number of a decimal

## Main results

* `Decimal.div_lt_pointOf`, `Decimal.pointOf_le_div` — where the point of a quotient stands
* `Decimal.isSome_withDigits?_seventeen` — seventeen digits always suffice
* `Decimal.isReduced_shortest` — the figures of a shortest decimal are digits without leading zeros
* `Decimal.shortest_readsBack` — a shortest decimal rounds to its magnitude
* `Decimal.nearest_eq_of_eq_value` — so does every quotient of its value
-/

namespace SealedLedger

namespace Decimal

/-! ### Quotients scaled by powers of ten -/

theorem scale10_snd_pos (num : Nat) {den : Nat} (hden : 0 < den) (e : Int) :
    0 < (scale10 num den e).2 := by
  rw [scale10]
  split
  · exact Nat.mul_pos hden (Nat.pow_pos (by decide))
  · exact hden

theorem scale10_div (num : Nat) {den : Nat} (hden : 0 < den) (e : Int) :
    ((scale10 num den e).1 : ℚ) / (scale10 num den e).2 = num / den / 10 ^ e := by
  have hd : (den : ℚ) ≠ 0 := by positivity
  rw [scale10]
  split
  · next he =>
    obtain ⟨k, rfl⟩ := Int.eq_ofNat_of_zero_le he
    simp only [Int.toNat_natCast, Nat.pow_eq, zpow_natCast]
    push_cast
    rw [div_div]
  · next he =>
    obtain ⟨k, hk⟩ := Int.eq_ofNat_of_zero_le (by omega : 0 ≤ -e)
    obtain rfl : e = -(k : ℤ) := by omega
    simp only [neg_neg, Int.toNat_natCast, Nat.pow_eq, zpow_neg, zpow_natCast]
    push_cast
    field_simp

/-- The decimal `n * 10 ^ e` as the quotient that is rounded when it is read back. -/
theorem scale10_neg_div (n : Nat) (e : Int) :
    ((scale10 n 1 (-e)).1 : ℚ) / (scale10 n 1 (-e)).2 = n * 10 ^ e := by
  rw [scale10_div n Nat.one_pos, Nat.cast_one, div_one, zpow_neg, div_inv_eq_mul]

/-! ### Whole units -/

section

variable {num den k : Nat} {p : Int}

/-- How many whole units `10 ^ e` a quotient has. -/
def wholeUnits (num den : Nat) (e : Int) : Nat :=
  (scale10 num den e).1 / (scale10 num den e).2

theorem wholeUnits_mul_le (num : Nat) (hden : 0 < den) (e : Int) :
    (wholeUnits num den e : ℚ) * 10 ^ e ≤ num / den := by
  rw [← le_div_iff₀ (by positivity), ← scale10_div num hden e]
  exact Nat.cast_div_le

theorem lt_wholeUnits_add_one_mul (num : Nat) (hden : 0 < den) (e : Int) :
    (num : ℚ) / den < (wholeUnits num den e + 1 : Nat) * 10 ^ e := by
  have hpos := scale10_snd_pos num hden e
  rw [← div_lt_iff₀ (by positivity), ← scale10_div num hden e,
    div_lt_iff₀ (by exact_mod_cast hpos)]
  exact_mod_cast Nat.lt_mul_of_div_lt (Nat.lt_succ_self _) hpos

/-- A quotient below `10 ^ p` has a number of `k` digits of units `10 ^ (p - k)`. -/
theorem wholeUnits_lt (hden : 0 < den) (hlt : (num : ℚ) / den < 10 ^ p) (k : Nat) :
    wholeUnits num den (p - k) < 10 ^ k := by
  have hunits := (wholeUnits_mul_le num hden (p - k)).trans_lt hlt
  have hsplit : (10 : ℚ) ^ p = 10 ^ k * 10 ^ (p - k) := by
    rw [← zpow_natCast, ← zpow_add₀ (by norm_num), add_sub_cancel]
  rw [hsplit, mul_lt_mul_iff_of_pos_right (by positivity)] at hunits
  exact_mod_cast hunits

/-- The first one of these digits is not zero when the point stands at `p`. -/
theorem pow_le_wholeUnits (hden : 0 < den) (hle : (10 : ℚ) ^ (p - 1) ≤ num / den) (hk : 0 < k) :
    10 ^ (k - 1) ≤ wholeUnits num den (p - k) := by
  have hunits := hle.trans_lt (lt_wholeUnits_add_one_mul num hden (p - k))
  have hsplit : (10 : ℚ) ^ (p - 1) = 10 ^ (k - 1) * 10 ^ (p - k) := by
    rw [← zpow_natCast, ← zpow_add₀ (by norm_num)]
    congr 1
    omega
  rw [hsplit, mul_lt_mul_iff_of_pos_right (by positivity)] at hunits
  exact Nat.lt_succ_iff.mp (by exact_mod_cast hunits)

end

/-! ### The place of the point -/

/-- **A quotient is below the power of ten of its point.** -/
theorem div_lt_pointOf {num den : Nat} (hnum : num ≠ 0) (hden : 0 < den) :
    (num : ℚ) / den < 10 ^ pointOf num den := by
  have hd : (0 : ℚ) < den := by exact_mod_cast hden
  rw [pointOf]
  split
  · have hlt : num < 10 ^ width (num / den) * den :=
      (Nat.div_lt_iff_lt_mul hden).mp (lt_pow_width (num / den))
    rw [div_lt_iff₀ hd, zpow_natCast]
    exact_mod_cast hlt
  · next hlt =>
    have hpos : 0 < num := Nat.pos_of_ne_zero hnum
    have hq : (den - 1) / num ≠ 0 := (Nat.div_pos (by omega) hpos).ne'
    have hn : (num : ℚ) * 10 ^ (width ((den - 1) / num)) < 10 * den := by
      have hw := pow_width_le hq
      have hm := Nat.div_mul_le_self (den - 1) num
      have : num * 10 ^ width ((den - 1) / num) < 10 * den := by
        calc num * 10 ^ width ((den - 1) / num)
            ≤ num * (10 * ((den - 1) / num)) := Nat.mul_le_mul_left _ hw
          _ = 10 * ((den - 1) / num * num) := by ring
          _ < 10 * den := by omega
      exact_mod_cast this
    rw [zpow_sub₀ (by norm_num), zpow_one, zpow_natCast, div_lt_div_iff₀ hd (by positivity)]
    exact hn

/-- A quotient is at least the power of ten before its point. -/
theorem pointOf_le_div {num den : Nat} (hnum : num ≠ 0) (hden : 0 < den) :
    (10 : ℚ) ^ (pointOf num den - 1) ≤ num / den := by
  have hd : (0 : ℚ) < den := by exact_mod_cast hden
  rw [pointOf]
  split
  · next hle =>
    have hq : num / den ≠ 0 := (Nat.div_pos hle hden).ne'
    have hw : 10 ^ width (num / den) * den ≤ 10 * num := by
      calc 10 ^ width (num / den) * den
          ≤ 10 * (num / den) * den := Nat.mul_le_mul_right _ (pow_width_le hq)
        _ = 10 * (num / den * den) := by ring
        _ ≤ 10 * num := Nat.mul_le_mul_left _ (Nat.div_mul_le_self num den)
    have hw' : (10 : ℚ) ^ width (num / den) * den ≤ 10 * num := by exact_mod_cast hw
    rw [zpow_sub₀ (by norm_num), zpow_one, zpow_natCast, div_le_div_iff₀ (by norm_num) hd]
    linarith
  · have hlt : den - 1 < 10 ^ width ((den - 1) / num) * num :=
      (Nat.div_lt_iff_lt_mul (Nat.pos_of_ne_zero hnum)).mp (lt_pow_width _)
    have hle : (den : ℚ) ≤ 10 ^ width ((den - 1) / num) * num := by
      have : den ≤ 10 ^ width ((den - 1) / num) * num := by omega
      exact_mod_cast this
    rw [show (1 : ℤ) - width ((den - 1) / num) - 1 = -(width ((den - 1) / num) : ℤ) by ring,
      zpow_neg, zpow_natCast, inv_le_comm₀ (by positivity) (by positivity), inv_div,
      div_le_iff₀ (by exact_mod_cast Nat.pos_of_ne_zero hnum)]
    exact hle

/-! ### Reading back -/

theorem readsBack_iff {m n : Nat} {e : Int} :
    readsBack m n e = true ↔
      Binary64.nearest (scale10 n 1 (-e)).1 (scale10 n 1 (-e)).2 = m := by
  simp only [readsBack, beq_iff_eq]

/-- Zeros at the end of the digits change the exponent only. -/
theorem readsBack_mul_pow (m n k : Nat) (e : Int) :
    readsBack m (n * 10 ^ k) e = readsBack m n (k + e) := by
  rw [Bool.eq_iff_iff, readsBack_iff, readsBack_iff,
    Binary64.nearest_congr (scale10_snd_pos (n * 10 ^ k) Nat.one_pos (-e))
      (scale10_snd_pos n Nat.one_pos (-(k + e)))]
  rw [scale10_neg_div, scale10_neg_div, zpow_add₀ (by norm_num), zpow_natCast]
  push_cast
  ring

/-- Only zero reads as zero. -/
theorem ne_zero_of_readsBack {m n : Nat} {e : Int} (hm : m ≠ 0) (h : readsBack m n e = true) :
    n ≠ 0 := by
  rintro rfl
  have hzero : (scale10 0 1 (-e)).1 = 0 := by
    rw [scale10]
    split <;> simp
  rw [readsBack_iff, hzero, Binary64.nearest, if_pos rfl] at h
  exact hm h.symm

/-! ### The digits without the zeros at their end -/

theorem exists_trimZeros (ds : List Nat) : ∃ k, ds = trimZeros ds ++ List.replicate k 0 := by
  have hzeros : ∀ d ∈ ds.rtakeWhile (· == 0), d = 0 := fun d hd => by
    simpa using List.mem_rtakeWhile_imp hd
  refine ⟨(ds.rtakeWhile (· == 0)).length, ?_⟩
  rw [← List.eq_replicate_of_mem hzeros]
  exact List.rdropWhile_append_rtakeWhile.symm

/-- A positive number in its own digits: the figures are its digits up to zeros at the end, and
the point stands as many places after them as there are such zeros, moved by the exponent. -/
theorem exists_ofScaled {n : Nat} (hn : n ≠ 0) (e : Int) :
    ∃ k : Nat, n = ofDigits (ofScaled n e).figures * 10 ^ k ∧
      (ofScaled n e).point = (ofScaled n e).figures.length + (k + e) ∧
      (ofScaled n e).figures ≠ [] := by
  obtain ⟨k, hk⟩ := exists_trimZeros (digits n)
  have hval : n = ofDigits (trimZeros (digits n)) * 10 ^ k := by
    conv_lhs => rw [← ofDigits_digits n, hk]
    rw [ofDigits_append, ofDigits_replicate_zero, List.length_replicate, Nat.add_zero]
  have hwidth : width n = (trimZeros (digits n)).length + k := by
    rw [width]
    conv_lhs => rw [hk]
    rw [List.length_append, List.length_replicate]
  refine ⟨k, hval, ?_, ?_⟩
  · simp only [ofScaled, hwidth]
    push_cast
    ring
  · intro hnil
    have hnil : trimZeros (digits n) = [] := hnil
    rw [hnil] at hval
    exact hn (by simpa [ofDigits] using hval)

/-- What every decimal of the search is like: it has figures, these are digits, and the first of
them is not zero. -/
structure IsReduced (d : Decimal) : Prop where
  lt : ∀ f ∈ d.figures, f < 10
  head_ne_zero : ∀ f rest, d.figures = f :: rest → f ≠ 0
  ne_nil : d.figures ≠ []

theorem isReduced_ofScaled {n : Nat} (hn : n ≠ 0) (e : Int) : IsReduced (ofScaled n e) := by
  obtain ⟨k, hk⟩ := exists_trimZeros (digits n)
  refine ⟨fun d hd => ?_, fun d rest h => ?_, ?_⟩
  · refine lt_of_mem_digits (n := n) ?_
    rw [hk]
    exact List.mem_append_left _ hd
  · have hdigits : digits n = d :: (rest ++ List.replicate k 0) := by
      rw [hk, show trimZeros (digits n) = d :: rest from h, List.cons_append]
    exact head_digits_ne_zero hn hdigits
  · obtain ⟨_, -, -, hne⟩ := exists_ofScaled hn e
    exact hne

/-! ### The search -/

/-- The nearer one of the neighbours of a quotient is the integer that it is rounded to. -/
theorem nearer_div (num den : Nat) : nearer num den (num / den) = Binary64.divRound num den := by
  rw [nearer, Binary64.divRound, ← Nat.mod_eq_sub_div_mul]

section

variable {m num den k : Nat} {p : Int} {d : Decimal}

/-- A round of the search fails when neither neighbour rounds to the magnitude. -/
theorem withDigits?_eq_none_iff : withDigits? m num den p k = none ↔
    readsBack m (wholeUnits num den (p - k)) (p - k) = false ∧
      readsBack m (wholeUnits num den (p - k) + 1) (p - k) = false := by
  simp only [withDigits?, wholeUnits]
  split <;> simp_all

/-- What a round of the search returns: the only neighbour that rounds to the magnitude, or the
nearer one when both do. -/
theorem withDigits?_cases (h : withDigits? m num den p k = some d) :
    ∃ c, d = ofScaled c (p - k) ∧ readsBack m c (p - k) = true ∧
      (c = wholeUnits num den (p - k) ∧
          readsBack m (wholeUnits num den (p - k) + 1) (p - k) = false ∨
        c = wholeUnits num den (p - k) + 1 ∧
          readsBack m (wholeUnits num den (p - k)) (p - k) = false ∨
        (c = wholeUnits num den (p - k) ∨ c = wholeUnits num den (p - k) + 1) ∧
          c = Binary64.divRound (scale10 num den (p - k)).1 (scale10 num den (p - k)).2) := by
  simp only [withDigits?, nearer_div] at h
  simp only [wholeUnits]
  split at h
  · next hlow hhigh =>
    -- the rounded quotient is one of the two neighbours
    obtain ⟨hge, hle⟩ := Binary64.divRound_bounds (scale10 num den (p - k)).1
      (scale10 num den (p - k)).2
    have hnear := (Nat.eq_or_lt_of_le hge).imp Eq.symm (fun hlt => Nat.le_antisymm hle hlt)
    refine ⟨_, (Option.some.inj h).symm, ?_, .inr (.inr ⟨hnear, rfl⟩)⟩
    rcases hnear with heq | heq
    · rwa [heq]
    · rwa [heq]
  · next hlow hhigh => exact ⟨_, (Option.some.inj h).symm, hlow, .inl ⟨rfl, hhigh⟩⟩
  · next hlow hhigh => exact ⟨_, (Option.some.inj h).symm, hhigh, .inr (.inl ⟨rfl, hlow⟩)⟩
  · cases h

/-- One round of the search returns a decimal that it has seen to round to the magnitude. -/
theorem exists_of_withDigits? (hden : 0 < den) (hlt : (num : ℚ) / den < 10 ^ p)
    (h : withDigits? m num den p k = some d) :
    ∃ n, n ≤ 10 ^ k ∧ readsBack m n (p - k) = true ∧ d = ofScaled n (p - k) := by
  have hlow := wholeUnits_lt hden hlt k
  obtain ⟨c, hd, hback, hcases⟩ := withDigits?_cases h
  exact ⟨c, by omega, hback, hd⟩

end

/-- A decimal near a value rounds to it. -/
theorem readsBack_of_near {m n : Nat} (hm : m ≠ 0) {e : Int}
    (h : |(n : ℚ) * 10 ^ e - Binary64.value m| < Binary64.value m / 2 ^ 54) :
    readsBack m n e = true := by
  refine readsBack_iff.mpr
    (Binary64.nearest_eq_of_near (scale10_snd_pos n Nat.one_pos (-e)) hm ?_)
  rwa [scale10_neg_div]

/-- **Seventeen digits always suffice**: the nearer one of the two neighbours of seventeen digits
is at most half a unit of the last digit away, and that is less than one part in `2 ^ 54`. -/
theorem isSome_withDigits?_seventeen {m : Nat} (hm : m ≠ 0) :
    (withDigits? m (Binary64.ratioOf m).1 (Binary64.ratioOf m).2
      (pointOf (Binary64.ratioOf m).1 (Binary64.ratioOf m).2) 17).isSome = true := by
  have hnum := Binary64.ratioOf_fst_ne_zero hm
  have hden := Binary64.ratioOf_snd_pos m
  have hpoint := pointOf_le_div hnum hden
  rw [Binary64.ratioOf_div] at hpoint
  set p := pointOf (Binary64.ratioOf m).1 (Binary64.ratioOf m).2
  have hlow := wholeUnits_mul_le (Binary64.ratioOf m).1 hden (p - (17 : Nat))
  have hhigh := lt_wholeUnits_add_one_mul (Binary64.ratioOf m).1 hden (p - (17 : Nat))
  rw [Binary64.ratioOf_div] at hlow hhigh
  set u : ℚ := 10 ^ (p - (17 : Nat)) with hu
  -- half a unit of the seventeenth digit is less than one part in `2 ^ 54`
  have hhalf : u / 2 < Binary64.value m / 2 ^ 54 := by
    have hunit : 0 < u := by positivity
    have h16 : (10 : ℚ) ^ (p - 1) = 10 ^ 16 * u := by
      rw [hu, ← zpow_natCast (10 : ℚ) 16, ← zpow_add₀ (by norm_num)]
      congr 1
      push_cast
      ring
    rw [h16] at hpoint
    norm_num at hpoint ⊢
    linarith
  set low := wholeUnits (Binary64.ratioOf m).1 (Binary64.ratioOf m).2 (p - (17 : Nat))
  have hone : readsBack m low (p - (17 : Nat)) = true ∨
      readsBack m (low + 1) (p - (17 : Nat)) = true := by
    rcases le_total (Binary64.value m - low * u) (u / 2) with hnear | hfar
    · refine .inl (readsBack_of_near hm (lt_of_le_of_lt ?_ hhalf))
      rw [abs_sub_comm, abs_of_nonneg (sub_nonneg.mpr hlow)]
      exact hnear
    · refine .inr (readsBack_of_near hm (lt_of_le_of_lt ?_ hhalf))
      rw [abs_of_nonneg (sub_nonneg.mpr hhigh.le), Nat.cast_succ, add_mul, one_mul]
      linarith
  rw [← Option.ne_none_iff_isSome, ne_eq, withDigits?_eq_none_iff]
  rintro ⟨hlow0, hhigh0⟩
  rcases hone with h | h
  · exact absurd (hlow0.symm.trans h) Bool.false_ne_true
  · exact absurd (hhigh0.symm.trans h) Bool.false_ne_true

/-- What the search returns comes from the first one of its rounds that does not fail. -/
theorem exists_withDigits? {m : Nat} (hm : m ≠ 0) :
    ∃ k ≤ 17, 0 < k ∧
      withDigits? m (Binary64.ratioOf m).1 (Binary64.ratioOf m).2
        (pointOf (Binary64.ratioOf m).1 (Binary64.ratioOf m).2) k = some (shortest m) ∧
      ∀ j, 0 < j → j < k → withDigits? m (Binary64.ratioOf m).1 (Binary64.ratioOf m).2
        (pointOf (Binary64.ratioOf m).1 (Binary64.ratioOf m).2) j = none := by
  simp only [shortest]
  split
  · next d h =>
    obtain ⟨before, k, after, hsplit, hk, hnone⟩ := List.findSome?_eq_some_iff.mp h
    obtain ⟨i, hi, rfl, hrest⟩ := List.range'_eq_append_iff.mp hsplit
    have hhead : k = 1 + i := by
      have := congrArg List.head? hrest
      rw [List.head?_range', Nat.mul_one] at this
      split at this
      · cases this
      · exact Option.some.inj this
    have hmem : k ∈ List.range' 1 17 := hsplit ▸ List.mem_append_right _ (List.mem_cons_self ..)
    rw [List.mem_range'_1] at hmem
    refine ⟨k, by omega, by omega, hk, fun j hpos hj => hnone j ?_⟩
    rw [List.mem_range'_1]
    omega
  · next h =>
    have hnone := List.findSome?_eq_none_iff.mp h 17 (by decide)
    have hsome := isSome_withDigits?_seventeen hm
    rw [hnone] at hsome
    cases hsome

/-- What the search returns: a decimal that has been seen to round to the magnitude. -/
theorem shortest_cases {m : Nat} (hm : m ≠ 0) :
    ∃ n e, n ≠ 0 ∧ n ≤ 10 ^ 17 ∧ readsBack m n e = true ∧ shortest m = ofScaled n e := by
  have hden := Binary64.ratioOf_snd_pos m
  obtain ⟨k, hk17, -, hk, -⟩ := exists_withDigits? hm
  obtain ⟨n, hle, hback, heq⟩ :=
    exists_of_withDigits? hden (div_lt_pointOf (Binary64.ratioOf_fst_ne_zero hm) hden) hk
  exact ⟨n, _, ne_zero_of_readsBack hm hback,
    hle.trans (Nat.pow_le_pow_right (by decide) hk17), hback, heq⟩

/-- A shortest decimal has figures, these are digits, and the first of them is not zero. -/
theorem isReduced_shortest {m : Nat} (hm : m ≠ 0) : IsReduced (shortest m) := by
  obtain ⟨n, e, hn, -, -, h⟩ := shortest_cases hm
  rw [h]
  exact isReduced_ofScaled hn e

/-- **A shortest decimal rounds to its magnitude**, and its figures spell a number of at most
seventeen digits. -/
theorem shortest_readsBack {m : Nat} (hm : m ≠ 0) :
    ofDigits (shortest m).figures ≤ 10 ^ 17 ∧
      readsBack m (ofDigits (shortest m).figures)
        ((shortest m).point - (shortest m).figures.length) = true := by
  obtain ⟨n, e, hn, hle, hback, h⟩ := shortest_cases hm
  rw [h]
  obtain ⟨k, hval, hpoint, -⟩ := exists_ofScaled hn e
  constructor
  · calc ofDigits (ofScaled n e).figures
        ≤ ofDigits (ofScaled n e).figures * 10 ^ k :=
          Nat.le_mul_of_pos_right _ (Nat.pow_pos (by decide))
      _ = n := hval.symm
      _ ≤ 10 ^ 17 := hle
  · rw [hpoint, Int.add_comm, Int.add_sub_cancel, ← readsBack_mul_pow, ← hval]
    exact hback

/-! ### The value of a decimal -/

/-- The rational number of a decimal. -/
def value (d : Decimal) : ℚ :=
  ofDigits d.figures * 10 ^ (d.point - d.figures.length)

/-- **The shortest decimal of a magnitude rounds to it**, whatever quotient it is given as. -/
theorem nearest_eq_of_eq_value {m num den : Nat} (hm : m ≠ 0) (hden : 0 < den)
    (h : (num : ℚ) / den = (shortest m).value) : Binary64.nearest num den = m := by
  obtain ⟨-, hback⟩ := shortest_readsBack hm
  rw [← readsBack_iff.mp hback]
  exact Binary64.nearest_congr hden (scale10_snd_pos _ Nat.one_pos _)
    (h.trans (scale10_neg_div _ _).symm)

theorem value_shortest_ne_zero {m : Nat} (hm : m ≠ 0) : (shortest m).value ≠ 0 := by
  obtain ⟨-, hback⟩ := shortest_readsBack hm
  have hn := ne_zero_of_readsBack hm hback
  rw [value]
  positivity

/-- Magnitudes whose shortest decimals have one value are the same. -/
theorem eq_of_value_shortest_eq {m n : Nat} (hm : m ≠ 0) (hn : n ≠ 0)
    (h : (shortest m).value = (shortest n).value) : m = n := by
  have hvalue := scale10_neg_div (ofDigits (shortest m).figures)
    ((shortest m).point - (shortest m).figures.length)
  rw [← nearest_eq_of_eq_value hm (scale10_snd_pos _ Nat.one_pos _) hvalue]
  exact nearest_eq_of_eq_value hn (scale10_snd_pos _ Nat.one_pos _) (hvalue.trans h)

end Decimal

end SealedLedger
