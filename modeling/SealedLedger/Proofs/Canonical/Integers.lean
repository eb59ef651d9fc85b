import SealedLedger.Proofs.Canonical.Doubles
import SealedLedger.Proofs.Decimal.Whole

/-!
# Integers and doubles of one text

An integer is written in its digits, and a double in those of its shortest decimal. So the two have
one text when the shortest decimal of the double is the integer. For integers and doubles of up to
`2 ^ 54` this is so exactly when the double is the integer. Further up the shortest decimal of a
double may be another whole number: the double of an integer may be written otherwise than the
integer, and an integer that is no double may be written as one.

## Main definitions

* `Number.integer?` — the integer of a word
* `Binary64.spelled` — the rational number of the text of a double

## Main results

* `Layout.numeral_of_nat` — the numeral of a whole number below `10 ^ 21`
* `Number.numeral_eq_float_iff` — when an integer and a double have one text
* `Canonical.number_eq_iff_exact` — and when this is equality of numbers
-/

namespace SealedLedger

open Json (Numeral)

/-! ### Whole numbers -/

/-- **A whole number below `10 ^ 21` is written in its digits.** -/
theorem Layout.numeral_of_nat {d : Decimal} (hd : d.IsReduced)
    (hlast : ¬ 10 ∣ Decimal.ofDigits d.figures) {n : Nat} (hvalue : d.value = n)
    (hn : n < 10 ^ 21) (negative : Bool) :
    Layout.canonical.numeral [] negative d = ⟨negative, Decimal.digits n, [], none⟩ := by
  have hlength : 0 < d.figures.length := List.length_pos_iff.mpr hd.ne_nil
  -- a point among the figures would leave a zero at their end
  have hpoint : (d.figures.length : Int) ≤ d.point := by
    by_contra hlt
    obtain ⟨j, hj⟩ : ∃ j : Nat, d.point - d.figures.length = -(j + 1 : Nat) :=
      ⟨(d.figures.length - d.point - 1).toNat, by omega⟩
    rw [Decimal.value, hj, zpow_neg, zpow_natCast, ← div_eq_mul_inv,
      div_eq_iff (by positivity)] at hvalue
    have hfigures : Decimal.ofDigits d.figures = n * 10 ^ (j + 1) := by exact_mod_cast hvalue
    rw [hfigures] at hlast
    exact hlast (Dvd.dvd.mul_left (dvd_pow_self 10 j.succ_ne_zero) n)
  obtain ⟨k, hk⟩ := Int.eq_ofNat_of_zero_le (Int.sub_nonneg_of_le hpoint)
  have hproduct : Decimal.ofDigits d.figures * 10 ^ k = n := by
    rw [Decimal.value, hk, zpow_natCast] at hvalue
    exact_mod_cast hvalue
  have hdigits : Decimal.digits n = d.figures ++ List.replicate k 0 := by
    have hspelled : Decimal.ofDigits (d.figures ++ List.replicate k 0) = n := by
      rw [Decimal.ofDigits_append, Decimal.ofDigits_replicate_zero, List.length_replicate,
        Nat.add_zero, hproduct]
    rw [← hspelled]
    refine Decimal.digits_ofDigits (List.append_ne_nil_of_left_ne_nil hd.ne_nil _) ?_ ?_
    · intro f hf
      rcases List.mem_append.mp hf with hf | hf
      · exact hd.lt f hf
      · rw [List.eq_of_mem_replicate hf]
        decide
    · intro f fs h _
      obtain ⟨g, gs, hfigures⟩ := List.exists_cons_of_ne_nil hd.ne_nil
      rw [hfigures, List.cons_append] at h
      rw [← (List.cons.inj h).1]
      exact hd.head_ne_zero g gs hfigures
  have hwidth : d.figures.length + k ≤ 21 := by
    have hne : n ≠ 0 := by
      rw [← hproduct]
      exact Nat.mul_ne_zero (fun hzero => hlast (hzero ▸ dvd_zero 10)) (by positivity)
    have hpow : 10 ^ Decimal.width n < 10 ^ 22 := by
      calc 10 ^ Decimal.width n ≤ 10 * n := Decimal.pow_width_le hne
        _ < 10 ^ 22 := by omega
    rw [Decimal.width, hdigits, List.length_append, List.length_replicate] at hpow
    exact Nat.lt_succ_iff.mp ((Nat.pow_lt_pow_iff_right (by decide)).mp hpow)
  have hrange : canonical.leastPoint ≤ d.point ∧ d.point ≤ canonical.greatestPoint :=
    ⟨show -5 ≤ d.point by omega, show d.point ≤ 21 by omega⟩
  rw [numeral, if_pos hrange, if_neg (by omega), if_pos (by omega), hdigits,
    show d.point.toNat - d.figures.length = k by omega]

/-! ### The integer of a number and the rational number of a text -/

/-- The integer of a signed or an unsigned word. -/
def Number.integer? : Number → Option Int
  | .int i => some i.toInt
  | .uint u => some u.toNat
  | .float _ => none

namespace Binary64

/-- The rational number that the text of a finite double spells. -/
def spelled (x : Binary64) : ℚ :=
  if x.isZero then 0 else x.signed (Decimal.shortest x.magnitude).value

variable {x : Binary64} {q : ℚ} {z : Int}

theorem spelled_of_isZero (hx : x.isZero = true) : x.spelled = 0 := if_pos hx

theorem spelled_eq_iff (hx : x.isZero = false) : x.spelled = z ↔
    (Decimal.shortest x.magnitude).value = (z.natAbs : Nat) ∧ x.negative = decide (z < 0) := by
  have hpos : 0 < (Decimal.shortest x.magnitude).value := by
    refine lt_of_le_of_ne ?_ (Decimal.value_shortest_ne_zero (magnitude_ne_zero hx)).symm
    rw [Decimal.value]
    positivity
  rw [spelled, hx, if_neg Bool.false_ne_true, signed_eq_iff hpos]

/-- **An integer or a double of up to `2 ^ 54` is spelled exactly.** -/
theorem spelled_eq_iff_exact_eq (h : |z| ≤ 2 ^ 54 ∨ |x.exact| ≤ 2 ^ 54) :
    x.spelled = z ↔ x.exact = z := by
  cases hx : x.isZero with
  | true => rw [spelled_of_isZero hx, exact_of_isZero hx]
  | false =>
    rw [spelled_eq_iff hx, exact_eq_iff hx]
    refine and_congr_left fun _ => ?_
    rcases h with hz | hexact
    · rw [Int.abs_eq_natAbs] at hz
      exact Decimal.value_shortest_eq_iff_of_le (magnitude_ne_zero hx) (by exact_mod_cast hz)
    · rw [abs_exact] at hexact
      exact Decimal.value_shortest_eq_iff (magnitude_ne_zero hx) hexact

/-- An integer that a double is written as rounds to it. -/
theorem nearest_of_spelled_eq (h : x.spelled = z) : nearest z.natAbs 1 = x.magnitude := by
  cases hx : x.isZero with
  | true =>
    rw [spelled_of_isZero hx] at h
    obtain rfl : z = 0 := by exact_mod_cast h.symm
    exact (isZero_iff.mp hx).symm
  | false =>
    obtain ⟨hvalue, -⟩ := (spelled_eq_iff hx).mp h
    exact Decimal.nearest_of_value_shortest_eq (magnitude_ne_zero hx) hvalue

end Binary64

/-! ### The text of an integer -/

namespace Number

variable {n : Number} {z : Int} {x : Binary64}

theorem isFinite_of_integer? (hn : n.integer? = some z) : n.isFinite = true := by
  cases n with
  | int i => rfl
  | uint u => rfl
  | float x => cases hn

theorem numeral_of_integer? (hn : n.integer? = some z) :
    n.numeral = ⟨decide (z < 0), Decimal.digits z.natAbs, [], none⟩ := by
  cases n with
  | int i => rw [← Option.some.inj hn, numeral]
  | uint u =>
    have hneg : decide ((u.toNat : Int) < 0) = false := decide_eq_false (by omega)
    rw [← Option.some.inj hn, numeral, Int.natAbs_natCast, hneg]
  | float x => cases hn

theorem natAbs_lt_of_integer? (hn : n.integer? = some z) : z.natAbs < 10 ^ 21 := by
  cases n with
  | int i =>
    have := Int64.le_toInt i
    have := Int64.toInt_lt i
    rw [← Option.some.inj hn]
    omega
  | uint u =>
    have := u.toNat_lt
    rw [← Option.some.inj hn]
    omega
  | float x => cases hn

/-- **An integer and a double are written as one numeral when the text of the double spells the
integer.** -/
theorem numeral_eq_float_iff (hn : n.integer? = some z) :
    n.numeral = (Number.float x).numeral ↔ x.spelled = z := by
  rw [numeral_of_integer? hn]
  cases hx : x.isZero with
  | true =>
    rw [Binary64.spelled_of_isZero hx, numeral, if_pos hx]
    constructor
    · intro h
      have hdigits : Decimal.digits z.natAbs = Decimal.digits 0 := congrArg Numeral.whole h
      rw [Int.natAbs_eq_zero.mp (Decimal.digits_injective hdigits), Int.cast_zero]
    · intro h
      obtain rfl : z = 0 := by exact_mod_cast h.symm
      rfl
  | false =>
    rw [Binary64.spelled_eq_iff hx]
    constructor
    · intro h
      have hvalue := Binary64.value_numeral hx
      have hsign := Binary64.negative_numeral hx
      rw [← h] at hvalue hsign
      refine ⟨?_, hsign.symm⟩
      rw [← hvalue]
      simp [Numeral.value, Numeral.writtenExponent, Decimal.ofDigits_digits]
    · rintro ⟨hvalue, hsign⟩
      have hm := Binary64.magnitude_ne_zero hx
      rw [numeral_float hx, hsign, Layout.numeral_of_nat (Decimal.isReduced_shortest hm)
        (Decimal.not_dvd_shortest hm) hvalue (natAbs_lt_of_integer? hn)]

end Number

namespace Canonical

variable {m n : Number} {w z : Int} {x y : Binary64}

/-- Finite numbers have one text when they are written as one numeral. -/
theorem number_eq_number_iff (hm : m.isFinite = true) (hn : n.isFinite = true) :
    number m = number n ↔ m.numeral = n.numeral := by
  rw [number_of_isFinite hm, number_of_isFinite hn]
  constructor
  · exact fun h => Numeral.text_inj m.isProper_numeral n.isProper_numeral (Except.ok.inj h)
  · exact fun h => by rw [h]

/-- Integers have one text when they are equal. -/
theorem number_eq_integer_iff (hm : m.integer? = some w) (hn : n.integer? = some z) :
    number m = number n ↔ w = z := by
  rw [number_eq_number_iff (Number.isFinite_of_integer? hm) (Number.isFinite_of_integer? hn),
    Number.numeral_of_integer? hm, Number.numeral_of_integer? hn]
  constructor
  · intro h
    have habs := Decimal.digits_injective (congrArg Numeral.whole h)
    have hsign : decide (w < 0) = decide (z < 0) := congrArg Numeral.negative h
    rw [decide_eq_decide] at hsign
    omega
  · rintro rfl
    rfl

/-- Doubles have one text when they are equal as numbers. -/
theorem number_eq_float_iff (hx : x.isFinite = true) (hy : y.isFinite = true) :
    number (.float x) = number (.float y) ↔ x.exact = y.exact := by
  constructor
  · intro h
    cases hx0 : x.isZero with
    | false => rw [eq_of_number_eq hx hy hx0 h]
    | true =>
      cases hy0 : y.isZero with
      | false => rw [eq_of_number_eq hy hx hy0 h.symm]
      | true => rw [Binary64.exact_of_isZero hx0, Binary64.exact_of_isZero hy0]
  · intro h
    cases hx0 : x.isZero with
    | false => rw [Binary64.eq_of_exact_eq hx0 h]
    | true =>
      have hy0 : y.isZero = true := by
        by_contra hne
        rw [Binary64.eq_of_exact_eq (by simpa using hne) h.symm] at hne
        exact hne hx0
      rw [number_eq_number_iff (m := .float x) (n := .float y) hx hy, Number.numeral,
        Number.numeral, if_pos hx0, if_pos hy0]

/-- **When two numbers have one canonical text.** An integer and a double have one text when the
text of the double spells the integer. If the integer or the double is at most `2 ^ 54`, this is so
exactly when the double is the integer; and in any case the integer rounds to the double. Two
integers have one text when they are equal, and so have two doubles. -/
theorem number_eq_iff_exact (hn : n.integer? = some z) (hx : x.isFinite = true) :
    (number n = number (.float x) ↔ x.spelled = z) ∧
      (|z| ≤ 2 ^ 54 ∨ |x.exact| ≤ 2 ^ 54 → (number n = number (.float x) ↔ x.exact = z)) ∧
      (number n = number (.float x) → Binary64.nearest z.natAbs 1 = x.magnitude) ∧
      (∀ m w, m.integer? = some w → (number n = number m ↔ z = w)) ∧
      ∀ y, y.isFinite = true → (number (.float x) = number (.float y) ↔ x.exact = y.exact) := by
  have htext : number n = number (.float x) ↔ x.spelled = z := by
    rw [number_eq_number_iff (n := .float x) (Number.isFinite_of_integer? hn) hx,
      Number.numeral_eq_float_iff hn]
  refine ⟨htext, fun h => ?_, fun h => ?_, fun m w hm => number_eq_integer_iff hn hm,
    fun y hy => number_eq_float_iff hx hy⟩
  · rw [htext, Binary64.spelled_eq_iff_exact_eq h]
  · exact Binary64.nearest_of_spelled_eq (htext.mp h)

/-- The integer `2 ^ 54` and the double of the same value. -/
theorem number_eq_iff_exact_two_pow :
    number (.uint 0x40000000000000) = number (.float (.ofBits 0x4350000000000000)) := by
  have hvalue : Binary64.value 0x4350000000000000 = 0x40000000000000 := by
    rw [Binary64.value, show Binary64.significandOf 0x4350000000000000 = 2 ^ 52 from rfl,
      show Binary64.exponentOf 0x4350000000000000 = 2 from rfl]
    norm_num
  have hexact : (Binary64.ofBits 0x4350000000000000).exact = (0x40000000000000 : Int) := by
    rw [show (Binary64.ofBits 0x4350000000000000).exact = Binary64.value 0x4350000000000000
      from rfl, hvalue]
    norm_num
  obtain ⟨-, hsmall, -⟩ := number_eq_iff_exact (n := .uint 0x40000000000000)
    (z := 0x40000000000000) (x := .ofBits 0x4350000000000000) rfl rfl
  exact (hsmall (.inl (by norm_num))).mpr hexact

/-- **Above `2 ^ 54` the text depends on the kind of number.** The least signed word and the double
of the same value are written differently. And the double of `2 ^ 63` is written as an unsigned word
of another value. -/
theorem number_ne_of_exact_eq :
    ((Number.int (.ofInt (-0x8000000000000000))).integer? = some (-0x8000000000000000) ∧
      (Binary64.ofBits 0xC3E0000000000000).exact = (-0x8000000000000000 : Int) ∧
      number (.int (.ofInt (-0x8000000000000000))) ≠ number (.float (.ofBits 0xC3E0000000000000))) ∧
    (Number.uint 9223372036854776000).integer? = some 9223372036854776000 ∧
      (Binary64.ofBits 0x43E0000000000000).exact ≠ (9223372036854776000 : Int) ∧
      number (.uint 9223372036854776000) = number (.float (.ofBits 0x43E0000000000000)) := by
  have hvalue : Binary64.value 0x43E0000000000000 = 0x8000000000000000 := by
    rw [Binary64.value, show Binary64.significandOf 0x43E0000000000000 = 2 ^ 52 from rfl,
      show Binary64.exponentOf 0x43E0000000000000 = 11 from rfl]
    norm_num
  refine ⟨⟨rfl, ?_, by decide +kernel⟩, rfl, ?_, by decide +kernel⟩
  · rw [show (Binary64.ofBits 0xC3E0000000000000).exact = -Binary64.value 0x43E0000000000000
      from rfl, hvalue]
    norm_num
  · rw [show (Binary64.ofBits 0x43E0000000000000).exact = Binary64.value 0x43E0000000000000
      from rfl, hvalue]
    norm_num

end Canonical

end SealedLedger
