import SealedLedger.Proofs.Binary64.Rounding

/-!
# Floating-point arithmetic

A product grows with its factors, and a quotient by a number of at least one is no larger than
its dividend. So a product is finite when one with larger factors is, and dividing a finite number
by a power of ten leaves it finite. Natural numbers of at most 53 bits and the powers of ten up to
the twenty-second are doubles themselves, so nothing is lost where only these are divided.

## Main results

* `Binary64.isFinite_mul_of_le` — a product with smaller factors is finite
* `Binary64.isFinite_div` — a finite number divided by one of at least one is finite
* `Binary64.magnitude_ofNat_mono` — the double of a natural number grows with it
* `Binary64.value_ofNat_of_lt`, `Binary64.value_ofNat_pow_ten` — numbers that are doubles
-/

namespace SealedLedger

namespace Binary64

theorem isFinite_iff {x : Binary64} : x.isFinite = true ↔ x.magnitude < infinityMagnitude := by
  rw [isFinite, decide_eq_true_iff]

theorem isFinite_of_le {x y : Binary64} (h : x.magnitude ≤ y.magnitude) (hy : y.isFinite = true) :
    x.isFinite = true :=
  isFinite_iff.mpr (h.trans_lt (isFinite_iff.mp hy))

theorem isZero_iff {x : Binary64} : x.isZero = true ↔ x.magnitude = 0 := by
  rw [isZero, beq_iff_eq]

theorem magnitude_ne_zero {x : Binary64} (h : x.isZero = false) : x.magnitude ≠ 0 :=
  mt isZero_iff.mpr (by simp [h])

@[simp] theorem isFinite_zero (negative : Bool) : (zero negative).isFinite = true := rfl

theorem magnitude_ofRatio (negative : Bool) (num den : Nat) :
    (ofRatio negative num den).magnitude = min (nearest num den) infinityMagnitude := rfl

theorem magnitude_ofRatio_mono {s t : Bool} {a b c d : Nat} (hb : 0 < b) (hd : 0 < d)
    (h : (a : ℚ) / b ≤ c / d) : (ofRatio s a b).magnitude ≤ (ofRatio t c d).magnitude := by
  rw [magnitude_ofRatio, magnitude_ofRatio]
  exact min_le_min_right _ (nearest_mono hb hd h)

/-- The double of a natural number grows with it. -/
theorem magnitude_ofNat_mono {m n : Nat} (h : m ≤ n) :
    (ofNat m).magnitude ≤ (ofNat n).magnitude :=
  magnitude_ofRatio_mono Nat.one_pos Nat.one_pos (by simpa using h)

/-! ### Products -/

theorem mul_ratio (x y : Binary64) :
    ((x.ratio.1 * y.ratio.1 : Nat) : ℚ) / (x.ratio.2 * y.ratio.2 : Nat)
      = value x.magnitude * value y.magnitude := by
  rw [← ratioOf_div, ← ratioOf_div, div_mul_div_comm]
  push_cast
  rfl

/-- A product is the product of the values, rounded. -/
theorem exists_mul_eq_ofRatio (x y : Binary64) :
    ∃ num den : Nat, 0 < den ∧ (num : ℚ) / den = value x.magnitude * value y.magnitude ∧
      x.mul y = ofRatio (x.negative != y.negative) num den :=
  ⟨_, _, Nat.mul_pos (ratioOf_snd_pos _) (ratioOf_snd_pos _), mul_ratio x y, rfl⟩

theorem magnitude_mul_mono {x y x' y' : Binary64} (hx : x.magnitude ≤ x'.magnitude)
    (hy : y.magnitude ≤ y'.magnitude) : (x.mul y).magnitude ≤ (x'.mul y').magnitude := by
  refine magnitude_ofRatio_mono (Nat.mul_pos (ratioOf_snd_pos _) (ratioOf_snd_pos _))
    (Nat.mul_pos (ratioOf_snd_pos _) (ratioOf_snd_pos _)) ?_
  rw [mul_ratio, mul_ratio]
  exact mul_le_mul (value_le_value_iff.mpr hx) (value_le_value_iff.mpr hy) (value_nonneg _)
    (value_nonneg _)

/-- **A product with smaller factors is finite.** -/
theorem isFinite_mul_of_le {x y x' y' : Binary64} (hx : x.magnitude ≤ x'.magnitude)
    (hy : y.magnitude ≤ y'.magnitude) (h : (x'.mul y').isFinite = true) :
    (x.mul y).isFinite = true :=
  isFinite_of_le (magnitude_mul_mono hx hy) h

/-! ### Quotients -/

theorem div_ratio (x y : Binary64) :
    ((x.ratio.1 * y.ratio.2 : Nat) : ℚ) / (x.ratio.2 * y.ratio.1 : Nat)
      = value x.magnitude / value y.magnitude := by
  rw [← ratioOf_div, ← ratioOf_div, div_div_div_eq]
  push_cast
  rfl

/-- A quotient is the quotient of the values, rounded. -/
theorem exists_div_eq_ofRatio (x : Binary64) {y : Binary64} (hy : y.magnitude ≠ 0) :
    ∃ num den : Nat, 0 < den ∧ (num : ℚ) / den = value x.magnitude / value y.magnitude ∧
      x.div y = ofRatio (x.negative != y.negative) num den :=
  ⟨_, _, Nat.mul_pos (ratioOf_snd_pos _) (Nat.pos_of_ne_zero (ratioOf_fst_ne_zero hy)),
    div_ratio x y, rfl⟩

/-- **A finite number divided by one of at least one is finite.** -/
theorem isFinite_div {x y : Binary64} (hx : x.isFinite = true)
    (hy : (ofNat 1).magnitude ≤ y.magnitude) : (x.div y).isFinite = true := by
  have hone : value (ofNat 1).magnitude = 1 := by
    norm_num [value, show (ofNat 1).magnitude = 1023 * binade by decide, significandOf, exponentOf,
      binade]
  have hvalue : 1 ≤ value y.magnitude := hone ▸ value_le_value_iff.mpr hy
  have hne : y.magnitude ≠ 0 := by
    intro hzero
    rw [hzero] at hy
    exact absurd hy (by decide)
  have hden : 0 < x.ratio.2 * y.ratio.1 :=
    Nat.mul_pos (ratioOf_snd_pos _) (Nat.pos_of_ne_zero (ratioOf_fst_ne_zero hne))
  have hle : ((x.ratio.1 * y.ratio.2 : Nat) : ℚ) / (x.ratio.2 * y.ratio.1 : Nat)
      ≤ x.ratio.1 / x.ratio.2 := by
    rw [div_ratio, show (x.ratio.1 : ℚ) / x.ratio.2 = value x.magnitude from ratioOf_div _]
    exact div_le_self (value_nonneg _) hvalue
  have hnearest := nearest_mono hden (ratioOf_snd_pos x.magnitude) hle
  rw [ratio, nearest_ratioOf] at hnearest
  refine isFinite_iff.mpr ?_
  rw [div, magnitude_ofRatio]
  exact (min_le_left _ _).trans_lt (hnearest.trans_lt (isFinite_iff.mp hx))

/-! ### Exact results -/

/-- **A natural number of at most 53 bits is a double.** -/
theorem value_ofNat_of_lt {n : Nat} (h : n < 2 ^ 53) : value (ofNat n).magnitude = n := by
  have hle : (n : ℚ) / (1 : Nat) ≤ (2 ^ 53 : Nat) / (1 : Nat) := by
    rw [Nat.cast_one, div_one, div_one]
    exact_mod_cast h.le
  have hfinite : nearest n 1 ≤ infinityMagnitude :=
    (nearest_mono Nat.one_pos Nat.one_pos hle).trans (by decide +kernel)
  rw [ofNat, magnitude_ofRatio, min_eq_left hfinite, value_nearest_of_lt h]

/-- **The powers of ten up to the twenty-second are doubles.** -/
theorem value_ofNat_pow_ten {k : Nat} (h : k ≤ 22) : value (ofNat (10 ^ k)).magnitude = 10 ^ k := by
  have key : ∀ i : Fin 23, (ratioOf (ofNat (10 ^ (i : Nat))).magnitude).1
      = 10 ^ (i : Nat) * (ratioOf (ofNat (10 ^ (i : Nat))).magnitude).2 := by
    decide +kernel
  have hden : ((ratioOf (ofNat (10 ^ k)).magnitude).2 : ℚ) ≠ 0 :=
    Nat.cast_ne_zero.mpr (ratioOf_snd_pos _).ne'
  rw [← ratioOf_div, div_eq_iff hden]
  exact_mod_cast key ⟨k, by omega⟩

theorem magnitude_ofNat_pow_ten_ne_zero {k : Nat} (h : k ≤ 22) :
    (ofNat (10 ^ k)).magnitude ≠ 0 := by
  intro hzero
  have hvalue := value_ofNat_pow_ten h
  rw [hzero, value_zero] at hvalue
  exact absurd hvalue (by positivity)

end Binary64

end SealedLedger
