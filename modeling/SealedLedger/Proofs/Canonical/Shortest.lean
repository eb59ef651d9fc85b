import SealedLedger.Proofs.Canonical.Integers
import SealedLedger.Proofs.Decimal.Closest

/-!
# The text of a double is the shortest decimal that rounds to it

The canonical text of a finite double spells a decimal that rounds to the double. No decimal with
fewer significant digits does, and of those with as many digits that do, it is the nearest one to
the double, with an even last digit when another one is as near. So a reader that rounds correctly
reads the double from its text, and only equal doubles share a text.

## Main definitions

* `Json.Numeral.signedValue` — the rational number of a numeral, with its sign
* `Binary64.IsShortest` — the shortest decimal that rounds to a double, and the best one of its
  length

## Main results

* `Canonical.number_float_isShortest` — what the text of a double spells
-/

namespace SealedLedger

open Json (Numeral)

/-- The rational number that a numeral spells, with its sign. -/
def Json.Numeral.signedValue (t : Numeral) : ℚ :=
  if t.negative then -t.value else t.value

namespace Binary64

/-- `z * 10 ^ e` is the shortest decimal that rounds to the double, and the best one of its length:
it has `k` significant digits and rounds to the double, no decimal with fewer digits does, and it is
preferred to all others of at most `k` digits that do. -/
structure IsShortest (x : Binary64) (k : Nat) (z e : Int) : Prop where
  pow_le : 10 ^ (k - 1) ≤ |z|
  lt_pow : |z| < 10 ^ k
  not_dvd : ¬ 10 ∣ z
  roundsTo : RoundsTo (z * 10 ^ e) x
  fewest : ∀ z' e' : Int, |z'| < 10 ^ (k - 1) → ¬ RoundsTo (z' * 10 ^ e') x
  preferred : ∀ z' e' : Int, |z'| < 10 ^ k → RoundsTo (z' * 10 ^ e') x →
    Preferred x.exact (z * 10 ^ e) z.natAbs (z' * 10 ^ e')

variable {x : Binary64}

theorem signed_signed (x : Binary64) (q : ℚ) : x.signed (x.signed q) = q := by
  simp only [signed]
  split
  · exact neg_neg q
  · rfl

/-- A decimal that rounds to a double has the sign of the double. -/
theorem eq_signed_of_roundsTo (hx : x.isFinite = true) (hzero : x.isZero = false) {z e : Int}
    (h : RoundsTo (z * 10 ^ e) x) : (z : ℚ) * 10 ^ e = x.signed (z.natAbs * 10 ^ e) := by
  obtain ⟨hsign, -⟩ := (roundsTo_iff hx hzero).mp h
  have hpow : (0 : ℚ) < 10 ^ e := by positivity
  have habs := abs_signed (x := x) hsign
  rw [signed_signed, abs_mul, abs_of_pos hpow] at habs
  rw [Nat.cast_natAbs, Int.cast_abs, habs, signed_signed]

/-- **A decimal rounds to a double** when it has the sign of the double and reads back. -/
theorem roundsTo_decimal_iff (hx : x.isFinite = true) (hzero : x.isZero = false) {n : Nat}
    {e : Int} : RoundsTo (x.signed (n * 10 ^ e)) x ↔ Decimal.readsBack x.magnitude n e = true := by
  have hnonneg : (0 : ℚ) ≤ n * 10 ^ e := by positivity
  rw [roundsTo_iff hx hzero, signed_signed, Decimal.readsBack_iff_isNearest]
  exact and_iff_right hnonneg

/-- **The shortest decimal of the magnitude, with the sign of the double.** -/
theorem isShortest_shortest (hx : x.isFinite = true) (hzero : x.isZero = false) :
    ∃ z : Int, (z : ℚ) * 10 ^ ((Decimal.shortest x.magnitude).point
        - (Decimal.shortest x.magnitude).figures.length)
        = x.signed (Decimal.shortest x.magnitude).value ∧
      x.IsShortest (Decimal.shortest x.magnitude).figures.length z
        ((Decimal.shortest x.magnitude).point
          - (Decimal.shortest x.magnitude).figures.length) := by
  have hm := magnitude_ne_zero hzero
  have hreduced := Decimal.isReduced_shortest hm
  have hlast := Decimal.not_dvd_shortest hm
  obtain ⟨-, hback⟩ := Decimal.shortest_readsBack hm
  obtain ⟨hfewest, hpreferred⟩ := Decimal.shortest_best hm
  have hlow := hreduced.pow_le_ofDigits
  have hhigh := Decimal.ofDigits_lt hreduced.lt
  set d := Decimal.shortest x.magnitude
  set e := d.point - d.figures.length
  set n := Decimal.ofDigits d.figures
  have hvalue : d.value = n * 10 ^ e := rfl
  obtain ⟨z, habs, hz⟩ : ∃ z : Int, z.natAbs = n ∧ (z : ℚ) * 10 ^ e = x.signed d.value := by
    refine ⟨if x.negative then -n else n, ?_, ?_⟩
    · split <;> simp
    · rw [hvalue, signed]
      split <;> push_cast
      · rw [neg_mul]
      · rfl
  refine ⟨z, hz, ?_⟩
  have hcast : |z| = (n : Int) := by rw [Int.abs_eq_natAbs, habs]
  exact {
    pow_le := by
      rw [hcast]
      exact_mod_cast hlow
    lt_pow := by
      rw [hcast]
      exact_mod_cast hhigh
    not_dvd := fun hdvd => hlast (by rw [← habs]; exact Int.natAbs_dvd_natAbs.mpr hdvd)
    roundsTo := by
      rw [hz, hvalue]
      exact (roundsTo_decimal_iff hx hzero).mpr hback
    fewest := fun z' e' hlt h => by
      rw [eq_signed_of_roundsTo hx hzero h, roundsTo_decimal_iff hx hzero] at h
      rw [Int.abs_eq_natAbs] at hlt
      rw [hfewest z'.natAbs e' (by exact_mod_cast hlt)] at h
      cases h
    preferred := fun z' e' hlt h => by
      have hsigned := eq_signed_of_roundsTo hx hzero h
      rw [hsigned, roundsTo_decimal_iff hx hzero] at h
      rw [Int.abs_eq_natAbs] at hlt
      rw [hz, hsigned, habs, exact]
      refine preferred_signed_iff.mpr ?_
      rw [signed_signed]
      exact hpreferred z'.natAbs e' (by exact_mod_cast hlt) h }

end Binary64

namespace Canonical

/-- **The text of a double is the shortest decimal that rounds to it.** A finite double other than
zero is written as a numeral whose value is the shortest decimal that rounds to the double, the best
one of its length. So two finite doubles have one text exactly when they are equal as numbers; both
zeros are written alike. -/
theorem number_float_isShortest {x : Binary64} (hx : x.isFinite = true) :
    (x.isZero = false → ∃ (t : Numeral) (k : Nat) (z e : Int), number (.float x) = .ok t.text ∧
      t.IsProper ∧ t.signedValue = z * 10 ^ e ∧ x.IsShortest k z e) ∧
    (x.isZero = true → number (.float x) = .ok ['0']) ∧
    ∀ y : Binary64, y.isFinite = true →
      (number (.float x) = number (.float y) ↔ x.exact = y.exact) := by
  refine ⟨fun hzero => ?_, fun hzero => ?_, fun y hy => number_eq_float_iff hx hy⟩
  · obtain ⟨z, hz, hshortest⟩ := Binary64.isShortest_shortest hx hzero
    refine ⟨_, _, z, _, number_of_isFinite (n := .float x) hx, Number.isProper_numeral _, ?_,
      hshortest⟩
    rw [hz, Numeral.signedValue, Binary64.negative_numeral hzero, Binary64.value_numeral hzero,
      Binary64.signed]
  · rw [number_of_isFinite (n := .float x) hx, Number.numeral, if_pos hzero]
    rfl

/-- A double half-way between two decimals of seventeen digits, and none of sixteen. -/
theorem number_float_isShortest_tie :
    number (.float (.ofBits 0x431809C01FE06B19)) = .ok "1691530053556934.2".toList ∧
      ∃ (t : Numeral) (k : Nat) (z e : Int),
        number (.float (.ofBits 0x431809C01FE06B19)) = .ok t.text ∧ t.IsProper ∧
          t.signedValue = z * 10 ^ e ∧ (Binary64.ofBits 0x431809C01FE06B19).IsShortest k z e :=
  ⟨by decide +kernel, (number_float_isShortest rfl).1 rfl⟩

end Canonical

end SealedLedger
