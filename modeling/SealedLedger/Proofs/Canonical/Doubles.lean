import SealedLedger.Proofs.Binary64.Exact
import SealedLedger.Proofs.Canonical.Numbers

/-!
# Doubles that are read back

The canonical text of a double rounds to the double, so two doubles other than zero never share a
text, and a reader that rounds correctly would return the double from its text. The reader does not
round correctly: it multiplies or divides the double of a word by the double of a power of ten. A
double is read back exactly when this arithmetic has the double for its result, or its text is that
of an integer that fits a word. Nothing is lost where the word and the power of ten are doubles
themselves, so short fractions are always read back.

## Main definitions

* `Json.Numeral.value` — the rational number of a numeral
* `Binary64.ReadsBack` — the reader returns the double from its text
* `Binary64.IsShort` — the double is written as a short fraction
* `Canonical.ComesBack` — a number that is written alike after it has been read

## Main results

* `Layout.value_numeral` — a decimal is written as a numeral of its value
* `Canonical.eq_of_number_eq` — doubles other than zero are determined by their text
* `Binary64.IsShort.readsBack` — short fractions are read back
* `Canonical.comesBack_float_iff` — when a double comes back
-/

namespace SealedLedger

open Json (Numeral)

/-! ### The value of a text -/

/-- The rational number that a numeral spells, without its sign. -/
def Json.Numeral.value (t : Numeral) : ℚ :=
  Decimal.ofDigits (t.whole ++ t.fraction) * 10 ^ (-(t.fraction.length : Int) + t.writtenExponent)

/-- **A decimal is written as a numeral of its value.** -/
theorem Layout.value_numeral (l : Layout) (negative : Bool) {d : Decimal} (hd : d.figures ≠ []) :
    (l.numeral [] negative d).value = d.value := by
  rcases l.numeral_cases [] negative hd with ⟨k, hpoint, -, hnumeral⟩ | ⟨hvalue, hexponent⟩
  · rw [hnumeral, Numeral.value, Decimal.value, List.append_nil, Decimal.ofDigits_append,
      Decimal.ofDigits_replicate_zero, List.length_replicate, hpoint, add_sub_cancel_left,
      zpow_natCast]
    simp [Numeral.writtenExponent]
  · rw [Numeral.value, Decimal.value, hvalue, hexponent]

/-! ### Doubles are determined by their text -/

/-- A double other than zero is written as a numeral of its shortest decimal. -/
theorem Number.numeral_float {x : Binary64} (hx : x.isZero = false) :
    (Number.float x).numeral =
      Layout.canonical.numeral [] x.negative (Decimal.shortest x.magnitude) := by
  rw [numeral, hx, if_neg Bool.false_ne_true]

namespace Binary64

theorem value_numeral {x : Binary64} (hx : x.isZero = false) :
    (Number.float x).numeral.value = (Decimal.shortest x.magnitude).value := by
  rw [Number.numeral_float hx]
  exact Layout.value_numeral _ _ (Decimal.isReduced_shortest (magnitude_ne_zero hx)).ne_nil

theorem value_numeral_ne_zero {x : Binary64} (hx : x.isZero = false) :
    (Number.float x).numeral.value ≠ 0 := by
  rw [value_numeral hx]
  exact Decimal.value_shortest_ne_zero (magnitude_ne_zero hx)

theorem value_numeral_of_isZero {x : Binary64} (hx : x.isZero = true) :
    (Number.float x).numeral.value = 0 := by
  rw [Number.numeral, hx, if_pos rfl]
  simp [Numeral.value, Decimal.ofDigits]

theorem negative_numeral {x : Binary64} (hx : x.isZero = false) :
    (Number.float x).numeral.negative = x.negative := by
  rw [Number.numeral_float hx, Layout.negative_numeral]

end Binary64

/-- **Doubles other than zero are determined by their canonical text.** -/
theorem Canonical.eq_of_number_eq {x y : Binary64} (hx : x.isFinite = true)
    (hy : y.isFinite = true) (hzero : x.isZero = false)
    (h : number (.float x) = number (.float y)) : x = y := by
  rw [number_of_isFinite (n := .float x) hx, number_of_isFinite (n := .float y) hy] at h
  have heq := Numeral.text_inj (Number.isProper_numeral _) (Number.isProper_numeral _)
    (Except.ok.inj h)
  have hvalue := Binary64.value_numeral_ne_zero hzero
  have hy0 : y.isZero = false := by
    by_contra hne
    rw [heq, Binary64.value_numeral_of_isZero (by simpa using hne)] at hvalue
    exact hvalue rfl
  have hmagnitude : x.magnitude = y.magnitude := by
    refine Decimal.eq_of_value_shortest_eq (Binary64.magnitude_ne_zero hzero)
      (Binary64.magnitude_ne_zero hy0) ?_
    rw [← Binary64.value_numeral hzero, ← Binary64.value_numeral hy0, heq]
  have hnegative : x.negative = y.negative := by
    rw [← Binary64.negative_numeral hzero, ← Binary64.negative_numeral hy0, heq]
  exact Binary64.ext hnegative hmagnitude

/-! ### Integers that fit a word -/

/-- The numeral of a word has the digits of that word and nothing else. -/
theorem Json.Numeral.eq_of_word? {t : Numeral} (ht : t.IsProper) {n : Nat}
    (h : t.word? = some n) : t = ⟨t.negative, Decimal.digits n, [], none⟩ := by
  obtain ⟨hfraction, hexponent, hgather⟩ := word?_eq_some_iff.mp h
  have hn := eq_of_gather_eq hgather
  rw [Nat.zero_mul, Nat.zero_add] at hn
  have hwhole := Decimal.digits_ofDigits ht.whole_ne_nil ht.whole_lt ht.whole_head
  rcases t with ⟨s, ds, fs, e⟩
  simp only at hfraction hexponent hn hwhole
  rw [hfraction, hexponent, hn, hwhole]

/-- The numeral is that of an integer that fits a word. -/
theorem Number.eq_numeral_uint {t : Numeral} (ht : t.IsProper) {n : Nat} (h : t.word? = some n)
    (hsign : t.negative = false) : t = (Number.uint (.ofNat n)).numeral := by
  have hvalue : (UInt64.ofNat n).toNat = n := UInt64.toNat_ofNat_of_lt (Numeral.word?_lt h)
  rw [numeral, hvalue, ← hsign]
  exact Numeral.eq_of_word? ht h

theorem Number.eq_numeral_int {t : Numeral} (ht : t.IsProper) {n : Nat} (h : t.word? = some n)
    (hsign : t.negative = true) (hpos : 0 < n) (hle : n ≤ 0x8000000000000000) :
    t = (Number.int (.ofInt (-n))).numeral := by
  have hvalue : (Int64.ofInt (-n)).toInt = -n := Int64.toInt_ofInt_of_le (by omega) (by omega)
  have hneg : decide (-(n : Int) < 0) = true := decide_eq_true (by omega)
  rw [numeral, hvalue, hneg, Int.natAbs_neg, Int.natAbs_natCast, ← hsign]
  exact Numeral.eq_of_word? ht h

/-! ### When a double comes back -/

namespace Binary64

/-- The reader returns the double from its canonical text: the text is an integer that fits a
word, or the arithmetic on the word and the power of ten of its figures has this very result. -/
def ReadsBack (x : Binary64) : Prop :=
  (Number.float x).numeral.word?.isSome = true ∨ (Number.float x).numeral.float? = some x

instance (x : Binary64) : Decidable x.ReadsBack :=
  inferInstanceAs (Decidable (_ ∨ _))

/-- The shortest decimal of the double is a fraction of at most 22 digits after the point, with
figures of at most 53 bits. -/
structure IsShort (x : Binary64) : Prop where
  figures_lt : Decimal.ofDigits (Decimal.shortest x.magnitude).figures < 2 ^ 53
  point_lt : (Decimal.shortest x.magnitude).point < (Decimal.shortest x.magnitude).figures.length
  length_le : (Decimal.shortest x.magnitude).figures.length ≤
    (Decimal.shortest x.magnitude).point + 22

/-- **Short fractions are read back**: the figures are divided by a power of ten, and both are
doubles. -/
theorem IsShort.readsBack {x : Binary64} (hshort : x.IsShort) (hx : x.isFinite = true) :
    x.ReadsBack := by
  obtain ⟨hfigures, hpoint, hlength⟩ := hshort
  rcases hzero : x.isZero with _ | _
  · have hm := magnitude_ne_zero hzero
    set d := Decimal.shortest x.magnitude with hd
    have hne : d.figures ≠ [] := (Decimal.isReduced_shortest hm).ne_nil
    rcases Layout.canonical.numeral_cases [] x.negative hne with ⟨j, hwhole, -, -⟩ | ⟨hdigits, hexp⟩
    · omega
    have hword : Decimal.ofDigits d.figures < UInt64.size := hfigures.trans (by decide)
    obtain ⟨y, hy⟩ : ∃ y, Numeral.scale? (Decimal.ofDigits d.figures)
        (d.point - d.figures.length) = some y := by
      rw [Numeral.scale?, if_pos (by omega)]
      exact ⟨_, rfl⟩
    obtain ⟨num, den, hden, hvalue, rfl⟩ :=
      Numeral.exists_scale?_eq_ofRatio hfigures (by omega) hy
    have hnearest := Decimal.nearest_eq_of_eq_value hm hden hvalue
    have hback : (ofRatio false num den).withSign x.negative = x := by
      ext
      · rfl
      · show min (nearest num den) infinityMagnitude = x.magnitude
        rw [hnearest]
        exact min_eq_left (isFinite_iff.mp hx).le
    right
    rw [Number.numeral_float hzero, ← hd, Number.float?_of_lt (hdigits ▸ hword), hdigits, hexp, hy,
      Layout.negative_numeral, Option.map_some, hback]
  · left
    rw [Number.numeral, hzero]
    rfl

end Binary64

namespace Canonical

/-- The number is written alike after it has been read from its text. -/
def ComesBack (n : Number) : Prop :=
  number n.reread = number n

theorem number_eq_of_numeral_eq {m n : Number} (hm : m.isFinite = true) (hn : n.isFinite = true)
    (h : m.numeral = n.numeral) : number m = number n := by
  rw [number_of_isFinite hm, number_of_isFinite hn, h]

/-- **A double that is written as an integer that fits a word comes back.** -/
theorem comesBack_of_word? {x : Binary64} (hx : x.isFinite = true) {n : Nat}
    (h : (Number.float x).numeral.word? = some n) : ComesBack (.float x) := by
  have hproper := Number.isProper_numeral (.float x)
  rw [ComesBack, Number.reread, Numeral.number?, h]
  by_cases hsign : (Number.float x).numeral.negative = true
  · have hzero : x.isZero = false := by
      by_contra hne
      rw [Number.numeral, if_pos (by simpa using hne)] at hsign
      cases hsign
    have hvalue : ((n : Nat) : ℚ) / (1 : Nat) = (Decimal.shortest x.magnitude).value := by
      rw [← Binary64.value_numeral hzero, Numeral.eq_of_word? hproper h]
      simp [Numeral.value, Numeral.writtenExponent, Decimal.ofDigits_digits]
    have hn : n ≠ 0 := by
      rintro rfl
      rw [Nat.cast_zero, zero_div] at hvalue
      exact Decimal.value_shortest_ne_zero (Binary64.magnitude_ne_zero hzero) hvalue.symm
    simp only [hsign, if_true]
    split
    · next hrange =>
      exact (number_eq_of_numeral_eq (m := .float x) (n := .int _) hx rfl
        (Number.eq_numeral_int hproper h hsign hrange.1 hrange.2)).symm
    · -- below the signed words the integer is taken for a double, the nearest one
      have hback : (Binary64.ofNat n).withSign true = x := by
        ext
        · rw [← Binary64.negative_numeral hzero, hsign]
          rfl
        · show min (Binary64.nearest n 1) Binary64.infinityMagnitude = x.magnitude
          rw [Decimal.nearest_eq_of_eq_value (Binary64.magnitude_ne_zero hzero) Nat.one_pos hvalue]
          exact min_eq_left (Binary64.isFinite_iff.mp hx).le
      rw [Option.getD_some, hback]
  · simp only [hsign]
    rw [Bool.not_eq_true] at hsign
    rw [if_neg Bool.false_ne_true, Option.getD_some, number_ofUInt64]
    exact (number_eq_of_numeral_eq (m := .float x) (n := .uint _) hx rfl
      (Number.eq_numeral_uint hproper h hsign)).symm

/-- **A double comes back exactly when the reader returns it from its text**, or the text is that
of a word. -/
theorem comesBack_float_iff {x : Binary64} (hx : x.isFinite = true) :
    ComesBack (.float x) ↔ x.ReadsBack := by
  rcases hword : (Number.float x).numeral.word? with _ | n
  · have hzero : x.isZero = false := by
      by_contra hne
      rw [Number.numeral, if_pos (by simpa using hne)] at hword
      cases hword
    have hread := Number.number?_numeral (n := .float x) hx
    rw [Numeral.number?, hword] at hread
    obtain ⟨y, hy, hreread⟩ := Option.map_eq_some_iff.mp hread
    have hfinite : y.isFinite = true := by
      have := Number.isFinite_reread (n := .float x) hx
      rwa [← hreread] at this
    rw [ComesBack, ← hreread, Binary64.ReadsBack, hword, hy]
    constructor
    · intro h
      rw [eq_of_number_eq hx hfinite hzero h.symm]
      exact .inr rfl
    · rintro (h | h)
      · cases h
      · rw [Option.some.inj h]
  · refine ⟨fun _ => .inl ?_, fun _ => comesBack_of_word? hx hword⟩
    rw [hword, Option.isSome_some]

end Canonical

end SealedLedger
