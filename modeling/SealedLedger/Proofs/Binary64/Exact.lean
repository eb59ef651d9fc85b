import SealedLedger.Proofs.Binary64.Arithmetic
import SealedLedger.Proofs.Binary64.Nearest

/-!
# The rational numbers of doubles

A finite double is a rational number, and it determines the double up to the sign of zero. A
rational number rounds to the double that is nearest to it, to the one with an even significand
when two are equally near. The infinities take part in this as `2 ^ 1024` and its negative, the
next numbers that doubles with more exponents would have, so that what is too large rounds to them.
A number rounds to a double other than zero when it has its sign and its absolute value rounds to
its magnitude.

## Main definitions

* `Binary64.signed`, `Binary64.exact` — the rational number of a double
* `Binary64.RoundsTo` — rounding to nearest, ties to even

## Main results

* `Binary64.eq_of_exact_eq` — doubles are determined by their rational number
* `Binary64.roundsTo_iff_isNearest`, `Binary64.roundsTo_iff` — rounding as rounding of magnitudes
* `Binary64.roundsTo_iff_ofRatio` — and as a computation
-/

namespace SealedLedger

attribute [ext] Binary64

namespace Binary64

/-- A rational number with the sign of a double. -/
def signed (x : Binary64) (q : ℚ) : ℚ := if x.negative then -q else q

/-- The rational number that the bits of a finite double stand for. -/
def exact (x : Binary64) : ℚ := x.signed (value x.magnitude)

variable {x : Binary64} {q : ℚ} {z : Int}

theorem abs_signed (hq : 0 ≤ q) : |x.signed q| = q := by
  rw [signed]
  split
  · rw [abs_neg, abs_of_nonneg hq]
  · exact abs_of_nonneg hq

theorem negative_eq_decide (hq : 0 < q) : x.negative = decide (x.signed q < 0) := by
  rw [signed]
  cases x.negative with
  | true => exact (decide_eq_true (neg_lt_zero.mpr hq)).symm
  | false => exact (decide_eq_false (not_lt.mpr hq.le)).symm

/-- A signed number is an integer when it has the sign and the absolute value of it. -/
theorem signed_eq_iff (hq : 0 < q) :
    x.signed q = z ↔ q = (z.natAbs : Nat) ∧ x.negative = decide (z < 0) := by
  rw [Nat.cast_natAbs, Int.cast_abs]
  constructor
  · intro h
    have habs := abs_signed (x := x) hq.le
    have hsign := negative_eq_decide (x := x) hq
    rw [h] at habs hsign
    exact ⟨habs.symm, by simpa using hsign⟩
  · rintro ⟨rfl, hsign⟩
    rw [signed, hsign]
    rcases lt_or_ge z 0 with hz | hz
    · rw [if_pos (decide_eq_true hz), abs_of_neg (by exact_mod_cast hz), neg_neg]
    · rw [if_neg (by simpa using hz), abs_of_nonneg (by exact_mod_cast hz)]

/-- Preferences are the same on both sides of zero. -/
theorem preferred_signed_iff {r t : ℚ} {c : Nat} :
    Preferred q (x.signed r) c (x.signed t) ↔ Preferred (x.signed q) r c t := by
  simp only [signed]
  cases x.negative with
  | false => rfl
  | true =>
    have hflip : ∀ s : ℚ, |q - -s| = |-q - s| := fun s => by
      rw [← abs_neg]
      congr 1
      ring
    simp only [if_true, Preferred, hflip, neg_inj]

theorem abs_exact (x : Binary64) : |x.exact| = value x.magnitude := abs_signed (value_nonneg _)

theorem exact_of_isZero (hx : x.isZero = true) : x.exact = 0 := by
  rw [← abs_eq_zero, abs_exact, isZero_iff.mp hx, value_zero]

theorem exact_eq_iff (hx : x.isZero = false) :
    x.exact = z ↔ value x.magnitude = (z.natAbs : Nat) ∧ x.negative = decide (z < 0) :=
  signed_eq_iff (value_pos (magnitude_ne_zero hx))

/-- Doubles of one sign are determined by their rational number. -/
theorem eq_of_exact_eq_of_negative {y : Binary64} (hsign : x.negative = y.negative)
    (h : x.exact = y.exact) : x = y := by
  have hvalue : value x.magnitude = value y.magnitude := by rw [← abs_exact, h, abs_exact]
  exact Binary64.ext hsign
    (Nat.le_antisymm (value_le_value_iff.mp hvalue.le) (value_le_value_iff.mp hvalue.ge))

/-- Doubles are determined by their rational number, up to the sign of zero. -/
theorem eq_of_exact_eq {y : Binary64} (hx : x.isZero = false) (h : x.exact = y.exact) : x = y := by
  have hpos := value_pos (magnitude_ne_zero hx)
  have hvalue : value x.magnitude = value y.magnitude := by rw [← abs_exact, h, abs_exact]
  have hsign : x.negative = decide (x.exact < 0) := negative_eq_decide hpos
  have hsign' : y.negative = decide (y.exact < 0) := negative_eq_decide (hvalue ▸ hpos)
  exact eq_of_exact_eq_of_negative (by rw [hsign, h, hsign']) h

/-! ### Rounding -/

/-- **Rounding to nearest, ties to even**: the double is preferred to all others. The parity of a
magnitude is that of the significand, and the magnitude of the infinities has the value
`2 ^ 1024`. -/
def RoundsTo (q : ℚ) (x : Binary64) : Prop :=
  ∀ y : Binary64, y.isNaN = false → Preferred q x.exact x.magnitude y.exact

/-- **Rounding to a double of the same sign** is rounding to its magnitude. -/
theorem roundsTo_iff_isNearest (hx : x.isFinite = true) (hsign : 0 ≤ x.signed q) :
    RoundsTo q x ↔ IsNearest value (x.signed q) x.magnitude := by
  constructor
  · intro h n
    -- the doubles of the same sign
    have hsame : ∀ n ≤ infinityMagnitude,
        Preferred (x.signed q) (value x.magnitude) x.magnitude (value n) := fun n hn => by
      refine preferred_signed_iff.mp (h ⟨x.negative, n, hn.trans_lt (by decide)⟩ ?_)
      rw [isNaN, decide_eq_false_iff_not]
      exact not_lt.mpr hn
    rcases le_or_gt n infinityMagnitude with hle | hgt
    · exact hsame n hle
    · -- what lies beyond infinity is further away
      have hinfinity := hsame infinityMagnitude le_rfl
      refine hinfinity.trans (.of_between (.inr ⟨?_, (strictMono_value hgt).le⟩) _)
      by_contra hlt
      have hbelow := strictMono_value (isFinite_iff.mp hx)
      have hle := hinfinity.le
      rw [abs_of_pos (by linarith), abs_of_pos (by linarith)] at hle
      linarith
  · intro h y _
    by_cases hnegative : y.negative = x.negative
    · have hexact : y.exact = x.signed (value y.magnitude) := by
        rw [exact, signed, signed, hnegative]
      rw [hexact]
      exact preferred_signed_iff.mpr (h y.magnitude)
    · -- a double of the other sign lies beyond zero
      have hexact : y.exact = x.signed (-value y.magnitude) := by
        rw [exact, signed, signed]
        cases hx : x.negative <;> cases hy : y.negative <;> simp_all
      have hbeyond := h 0
      rw [value_zero] at hbeyond
      rw [hexact]
      refine preferred_signed_iff.mpr (hbeyond.trans (.of_between (.inl ⟨?_, hsign⟩) _))
      exact neg_nonpos.mpr (value_nonneg _)

/-- What rounds to a double other than zero has its sign. -/
theorem RoundsTo.sign (h : RoundsTo q x) (hzero : x.isZero = false) : 0 ≤ x.signed q := by
  have hpos := value_pos (magnitude_ne_zero hzero)
  by_contra hneg
  have hle := (preferred_signed_iff.mp (h ⟨x.negative, 0, by decide⟩ rfl)).le
  rw [value_zero, abs_of_neg (by linarith), abs_of_neg (by linarith)] at hle
  linarith

/-- **Rounding to a double other than zero** is having its sign and rounding to its magnitude. -/
theorem roundsTo_iff (hx : x.isFinite = true) (hzero : x.isZero = false) :
    RoundsTo q x ↔ 0 ≤ x.signed q ∧ IsNearest value (x.signed q) x.magnitude :=
  ⟨fun h => ⟨h.sign hzero, (roundsTo_iff_isNearest hx (h.sign hzero)).mp h⟩,
    fun h => (roundsTo_iff_isNearest hx h.1).mpr h.2⟩

/-- Nothing is lost where the rational number of a double is rounded. -/
theorem roundsTo_exact (x : Binary64) : RoundsTo x.exact x := by
  intro y _
  rcases le_total y.exact x.exact with h | h
  · exact .of_between (.inl ⟨h, le_rfl⟩) _
  · exact .of_between (.inr ⟨le_rfl, h⟩) _

/-- **Rounding a quotient to a double of its sign** is computed. -/
theorem roundsTo_iff_ofRatio {num den : Nat} (hx : x.isFinite = true) (hden : 0 < den)
    (h : x.signed q = num / den) : RoundsTo q x ↔ ofRatio x.negative num den = x := by
  have hfinite := isFinite_iff.mp hx
  rw [roundsTo_iff_isNearest hx (h ▸ by positivity), h, ← nearest_eq_iff hden]
  constructor
  · intro heq
    ext
    · rfl
    · rw [magnitude_ofRatio, heq]
      exact min_eq_left hfinite.le
  · intro heq
    have hmagnitude := congrArg magnitude heq
    rw [magnitude_ofRatio] at hmagnitude
    omega

end Binary64

end SealedLedger
