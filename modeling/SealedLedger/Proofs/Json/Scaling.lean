import SealedLedger.Json.Token
import SealedLedger.Proofs.Binary64.Arithmetic
import SealedLedger.Proofs.Decimal.Shortest

/-!
# The double of a numeral

The digits of a numeral are gathered into a word, and the word is multiplied or divided by a power
of ten. A division never leaves the finite numbers. A product may, and then the numeral is refused;
but the digits and the exponent of a shortest decimal are never refused. Among all words and powers
of ten whose exact product is below the infinities, only one product could round up to them, and
the number that it stands for has another shortest decimal.

## Main results

* `Json.Numeral.gather_of_lt` — digits that fit a word are gathered whole
* `Json.Numeral.isFinite_of_number?` — the number of a numeral is finite
* `Json.Numeral.exists_scale?_eq_ofRatio` — nothing is lost on short decimals
* `Json.Numeral.isSome_scale?_shortest` — a shortest decimal is never out of range
-/

namespace SealedLedger

namespace Json

namespace Numeral

/-! ### Gathering digits -/

/-- **Digits that fit a word are gathered whole.** -/
theorem gather_of_lt {ds : List Nat} {n : Nat}
    (h : n * 10 ^ ds.length + Decimal.ofDigits ds < UInt64.size) :
    gather n ds = (n * 10 ^ ds.length + Decimal.ofDigits ds, []) := by
  induction ds generalizing n with
  | nil => simp [gather, Decimal.ofDigits]
  | cons d ds ih =>
    have hsplit : n * 10 ^ (d :: ds).length + Decimal.ofDigits (d :: ds)
        = (n * 10 + d) * 10 ^ ds.length + Decimal.ofDigits ds := by
      rw [Decimal.ofDigits_cons, List.length_cons, pow_succ]
      ring
    rw [hsplit] at h ⊢
    have hstep : n * 10 + d < UInt64.size := by
      refine lt_of_le_of_lt ?_ h
      exact (Nat.le_mul_of_pos_right _ (Nat.pow_pos (by decide))).trans (Nat.le_add_right _ _)
    rw [gather, if_pos hstep, ih h]

/-- When no digit is left, the word is the number of all digits. -/
theorem eq_of_gather_eq {ds : List Nat} {n m : Nat} (h : gather n ds = (m, [])) :
    m = n * 10 ^ ds.length + Decimal.ofDigits ds := by
  induction ds generalizing n with
  | nil =>
    obtain ⟨rfl, -⟩ := Prod.mk.inj h
    simp [Decimal.ofDigits]
  | cons d ds ih =>
    rw [gather] at h
    split at h
    · rw [ih h, Decimal.ofDigits_cons, List.length_cons, pow_succ]
      ring
    · cases (Prod.mk.inj h).2

theorem gather_fst_lt {ds : List Nat} {n : Nat} (h : n < UInt64.size) :
    (gather n ds).1 < UInt64.size := by
  induction ds generalizing n with
  | nil => exact h
  | cons d ds ih =>
    rw [gather]
    split
    · next hstep => exact ih hstep
    · exact h

theorem length_gather_snd_le (ds : List Nat) (n : Nat) : (gather n ds).2.length ≤ ds.length := by
  induction ds generalizing n with
  | nil => exact Nat.le_refl _
  | cons d ds ih =>
    rw [gather]
    split
    · exact (ih _).trans (Nat.le_succ _)
    · exact Nat.le_refl _

/-- A numeral is a word when it is an integer whose digits are gathered whole. -/
theorem word?_eq_some_iff {t : Numeral} {n : Nat} :
    t.word? = some n ↔ t.fraction = [] ∧ t.exponent = none ∧ gather 0 t.whole = (n, []) := by
  rw [word?]
  split
  · next hinteger =>
    rcases gather 0 t.whole with ⟨m, _ | ⟨d, ds⟩⟩
    · simp [hinteger]
    · simp
  · next hinteger =>
    constructor
    · intro h
      cases h
    · exact fun h => absurd ⟨h.1, h.2.1⟩ hinteger

theorem word?_lt {t : Numeral} {n : Nat} (h : t.word? = some n) : n < UInt64.size := by
  obtain ⟨-, -, hgather⟩ := word?_eq_some_iff.mp h
  have hlt : (gather 0 t.whole).1 < UInt64.size := gather_fst_lt (by decide)
  rwa [hgather] at hlt

theorem scaled_fst_lt (t : Numeral) : t.scaled.1 < UInt64.size :=
  gather_fst_lt (gather_fst_lt (by decide))

/-! ### Finite results -/

theorem isFinite_ofNat {n : Nat} (h : n ≤ UInt64.size) : (Binary64.ofNat n).isFinite = true :=
  Binary64.isFinite_of_le (Binary64.magnitude_ofNat_mono h) (by decide)

theorem isFinite_divideDown {fuel k : Nat} {x : Binary64} (hx : x.isFinite = true) :
    (divideDown fuel x k).isFinite = true := by
  have hone : ∀ j, (Binary64.ofNat 1).magnitude ≤ (Binary64.ofNat (Nat.pow 10 j)).magnitude :=
    fun j => Binary64.magnitude_ofNat_mono (Nat.pow_pos (by decide))
  induction fuel generalizing x k with
  | zero => exact hx
  | succ fuel ih =>
    rw [divideDown]
    split
    · exact Binary64.isFinite_div hx (hone k)
    · split
      · exact hx
      · exact ih (Binary64.isFinite_div hx (hone 308))

theorem isFinite_of_scale? {n : Nat} {e : Int} {x : Binary64} (hn : n < UInt64.size)
    (h : scale? n e = some x) : x.isFinite = true := by
  rw [scale?] at h
  split at h
  · exact Option.some.inj h ▸ isFinite_divideDown (isFinite_ofNat hn.le)
  split at h
  · simp only at h
    split at h
    · next hfinite => exact Option.some.inj h ▸ hfinite
    · simp at h
  split at h
  · exact Option.some.inj h ▸ Binary64.isFinite_zero _
  · simp at h

/-- **The number of a numeral is finite.** -/
theorem isFinite_of_number? {t : Numeral} {n : Number} (h : t.number? = some n) :
    n.isFinite = true := by
  rw [number?] at h
  split at h
  · next k hk =>
    split at h
    · split at h
      · exact Option.some.inj h ▸ rfl
      · obtain rfl := Option.some.inj h
        exact isFinite_ofNat (word?_lt hk).le
    · obtain rfl := Option.some.inj h
      rw [Number.ofUInt64]
      split <;> rfl
  · obtain ⟨y, hy, rfl⟩ := Option.map_eq_some_iff.mp h
    obtain ⟨x, hx, rfl⟩ := Option.map_eq_some_iff.mp hy
    show x.isFinite = true
    exact isFinite_of_scale? (scaled_fst_lt t) hx

/-! ### Exact arithmetic -/

/-- **Nothing is lost between a word of 53 bits and a power of ten that is a double.** The quotient
or the product of the two is rounded once. -/
theorem exists_scale?_eq_ofRatio {n : Nat} {e : Int} {x : Binary64} (hn : n < 2 ^ 53)
    (he : e.natAbs ≤ 22) (h : scale? n e = some x) :
    ∃ num den : Nat, 0 < den ∧ (num : ℚ) / den = n * 10 ^ e ∧
      x = Binary64.ofRatio false num den := by
  have hpow := Binary64.value_ofNat_pow_ten he
  have hword := Binary64.value_ofNat_of_lt hn
  rw [scale?] at h
  split at h
  · next hneg =>
    rw [divideDown, if_pos (by omega)] at h
    obtain ⟨num, den, hden, hvalue, hdiv⟩ := Binary64.exists_div_eq_ofRatio (.ofNat n)
      (Binary64.magnitude_ofNat_pow_ten_ne_zero he)
    refine ⟨num, den, hden, ?_, (Option.some.inj h).symm.trans hdiv⟩
    rw [hvalue, hword, hpow, ← zpow_natCast, Int.natCast_natAbs, abs_of_neg hneg, zpow_neg,
      div_inv_eq_mul]
  · next hneg =>
    obtain ⟨k, rfl⟩ := Int.eq_ofNat_of_zero_le (Int.not_lt.mp hneg)
    rw [Int.natAbs_natCast] at he hpow
    rw [if_pos (by omega), Int.toNat_natCast] at h
    simp only at h
    split at h
    · obtain ⟨num, den, hden, hvalue, hmul⟩ :=
        Binary64.exists_mul_eq_ofRatio (.ofNat n) (.ofNat (10 ^ k))
      refine ⟨num, den, hden, ?_, (Option.some.inj h).symm.trans hmul⟩
      rw [hvalue, hword, hpow, zpow_natCast]
    · cases h

/-! ### Decimals in range -/

/-- A product of a word and a power of ten is in range when one of larger factors is. -/
theorem isSome_scale?_of_le {n m k : Nat} {e : Int} (hn : n ≤ m) (he : e ≤ k) (hk : k ≤ 308)
    (h : ((Binary64.ofNat m).mul (.ofNat (10 ^ k))).isFinite = true) :
    (scale? n e).isSome = true := by
  have hpow : Nat.pow 10 e.toNat ≤ 10 ^ k := Nat.pow_le_pow_right (by decide) (by omega)
  have hfinite := Binary64.isFinite_mul_of_le (Binary64.magnitude_ofNat_mono hn)
    (Binary64.magnitude_ofNat_mono hpow) h
  rw [scale?]
  split
  · rfl
  · rw [if_pos (by omega)]
    simp only [hfinite, if_true, Option.isSome_some]

/-- The least natural number that rounds to infinity. -/
def overflow : Nat := 2 ^ 1024 - 2 ^ 970

theorem nearest_overflow : Binary64.nearest overflow 1 = Binary64.infinityMagnitude := by
  decide +kernel

theorem overflow_le_pow {k : Nat} (h : 308 < k) : overflow ≤ 10 ^ k := by
  calc overflow ≤ 2 ^ 1024 := Nat.sub_le _ _
    _ = (2 ^ 93) ^ 11 * 2 := by rw [← pow_mul, ← pow_succ]
    _ ≤ (10 ^ 28) ^ 11 * 10 ^ (k - 28 * 11) := Nat.mul_le_mul
      (Nat.pow_le_pow_left (by norm_num) 11) (Nat.one_lt_pow (by omega) (by decide))
    _ = 10 ^ k := by rw [← pow_mul, ← pow_add, Nat.add_sub_cancel' h.le]

/-- The greatest number whose product with a power of ten is below `overflow`. The one product
that is taken for infinity although it is below is left out. -/
def greatestWord (k : Nat) : Nat :=
  if k = 292 then (overflow - 1) / 10 ^ k - 1 else (overflow - 1) / 10 ^ k

theorem isFinite_greatestWord {k : Nat} (h : 292 ≤ k) (hk : k ≤ 308) :
    ((Binary64.ofNat (greatestWord k)).mul (.ofNat (10 ^ k))).isFinite = true := by
  have key : ∀ i : Fin 17, ((Binary64.ofNat (greatestWord (292 + i))).mul
      (.ofNat (10 ^ (292 + i : Nat)))).isFinite = true := by
    decide +kernel
  have := key ⟨k - 292, by omega⟩
  rwa [show 292 + (k - 292) = k by omega] at this

/-- The product left out stands for the largest finite number, whose shortest decimal has another
last figure. -/
theorem nearest_left_out :
    Binary64.nearest ((overflow - 1) / 10 ^ 292 * 10 ^ 292) 1 = Binary64.infinityMagnitude - 1 ∧
      Decimal.ofDigits (Decimal.shortest (Binary64.infinityMagnitude - 1)).figures + 1
        = (overflow - 1) / 10 ^ 292 := by
  decide +kernel

/-- **A shortest decimal is never out of range.** -/
theorem isSome_scale?_shortest {m : Nat} (hm : m ≠ 0) (hfinite : m < Binary64.infinityMagnitude) :
    (scale? (Decimal.ofDigits (Decimal.shortest m).figures)
      ((Decimal.shortest m).point - (Decimal.shortest m).figures.length)).isSome = true := by
  obtain ⟨hle, hback⟩ := Decimal.shortest_readsBack hm
  set n := Decimal.ofDigits (Decimal.shortest m).figures with hn
  set e := (Decimal.shortest m).point - (Decimal.shortest m).figures.length with he
  rcases lt_or_ge e 292 with hlow | hhigh
  · exact isSome_scale?_of_le hle (k := 291) (by omega) (by decide) (by decide +kernel)
  obtain ⟨k, hk⟩ := Int.eq_ofNat_of_zero_le (show 0 ≤ e by omega)
  -- the exact product rounds to a finite number, so it is below the least one that does not
  have hnearest : Binary64.nearest (n * 10 ^ k) 1 = m := by
    refine Decimal.nearest_eq_of_eq_value hm Nat.one_pos ?_
    rw [Decimal.value, ← hn, ← he, hk, zpow_natCast, Nat.cast_one, div_one]
    push_cast
    rfl
  have hlt : n * 10 ^ k < overflow := by
    by_contra hge
    have hmono := Binary64.nearest_mono (a := overflow) (c := n * 10 ^ k) Nat.one_pos Nat.one_pos
      (by exact_mod_cast div_le_div_of_nonneg_right (Nat.cast_le.mpr (not_lt.mp hge)) zero_le_one)
    rw [nearest_overflow, hnearest] at hmono
    omega
  have hpos : 0 < n := Nat.pos_of_ne_zero (Decimal.ne_zero_of_readsBack hm hback)
  have hk308 : k ≤ 308 := by
    by_contra hgt
    have hpow := overflow_le_pow (not_le.mp hgt)
    have hprod : 10 ^ k ≤ n * 10 ^ k := Nat.le_mul_of_pos_left _ hpos
    omega
  have hword : n ≤ (overflow - 1) / 10 ^ k :=
    (Nat.le_div_iff_mul_le (Nat.pow_pos (by decide))).mpr (Nat.le_sub_one_of_lt hlt)
  refine isSome_scale?_of_le (m := greatestWord k) ?_ hk.le hk308
    (isFinite_greatestWord (by omega) hk308)
  rw [greatestWord]
  split
  · next h292 =>
    subst h292
    rcases Nat.lt_or_eq_of_le hword with hless | heq
    · exact Nat.le_sub_one_of_lt hless
    · obtain ⟨hgreatest, hshortest⟩ := nearest_left_out
      rw [heq, hgreatest] at hnearest
      rw [hnearest] at hshortest
      omega
  · exact hword

end Numeral

end Json

end SealedLedger
