import SealedLedger.Canonical
import SealedLedger.Proofs.Json.Numerals
import SealedLedger.Proofs.Json.Scaling

/-!
# The canonical text of a number is a numeral

Whatever its kind, a finite number is written as the text of a proper numeral. So its text is not
empty, is made of a few characters that stand nowhere else outside strings, and is read back as
that numeral. The numeral always stands for a number again: an integer for itself, and the numeral
of a double for a word or for a double, never for one that is out of range.

## Main definitions

* `Layout.numeral`, `Number.numeral` — the numeral that a number is written as
* `Canonical.isNumeric` — the characters of numerals
* `Number.reread` — the number that is read from a canonical text

## Main results

* `Canonical.number_eq_ok_iff` — the canonical text of a number is the text of its numeral
* `Number.isProper_numeral` — that numeral is proper
* `Number.number?_numeral` — it stands for a number
* `Number.number_reread_int`, `Number.number_reread_uint` — integers are read back with their text
-/

namespace SealedLedger

open Json (Numeral)

/-! ### The numeral of a decimal -/

namespace Layout

/-- The numeral that a decimal is written as. A whole number takes the digits `tail` for its
fraction. -/
def numeral (l : Layout) (tail : List Nat) (negative : Bool) (d : Decimal) : Numeral :=
  if l.leastPoint ≤ d.point ∧ d.point ≤ l.greatestPoint then
    if d.point ≤ 0 then
      ⟨negative, [0], List.replicate (-d.point).toNat 0 ++ d.figures, none⟩
    else if d.figures.length ≤ d.point.toNat then
      ⟨negative, d.figures ++ List.replicate (d.point.toNat - d.figures.length) 0, tail, none⟩
    else ⟨negative, d.figures.take d.point.toNat, d.figures.drop d.point.toNat, none⟩
  else
    ⟨negative, d.figures.take 1, d.figures.drop 1,
      some (decide (d.point - 1 < 0), Decimal.digits (d.point - 1).natAbs)⟩

theorem negative_numeral (l : Layout) (tail : List Nat) (negative : Bool) (d : Decimal) :
    (l.numeral tail negative d).negative = negative := by
  rw [numeral]
  split
  · split
    · rfl
    · split <;> rfl
  · rfl

theorem fractionText_of_ne_nil {ds : List Nat} (h : ds ≠ []) :
    Numeral.fractionText ds = '.' :: ds.map Decimal.digitChar := by
  obtain ⟨d, ds, rfl⟩ := List.exists_cons_of_ne_nil h
  rfl

theorem fractionText_drop_one (ds : List Nat) :
    Numeral.fractionText (ds.drop 1) =
      if ds.length ≤ 1 then [] else '.' :: (ds.map Decimal.digitChar).drop 1 := by
  rcases ds with _ | ⟨d, _ | ⟨e, ds⟩⟩
  · rfl
  · rfl
  · rw [if_neg (by simp)]
    rfl

/-- A decimal is written as its numeral. -/
theorem text_numeral {l : Layout} {tail : List Nat}
    (htail : l.integralTail = Numeral.fractionText tail) (negative : Bool) {d : Decimal}
    (hd : d.IsReduced) :
    (l.numeral tail negative d).text =
      (if negative then ['-'] else []) ++ l.writeDecimal d := by
  have hzero : Decimal.digitChar 0 = '0' := rfl
  rw [numeral, writeDecimal]
  split
  · rw [positional]
    split
    · next hpoint =>
      have hne : List.replicate (-d.point).toNat 0 ++ d.figures ≠ [] := fun hnil =>
        hd.ne_nil (List.append_eq_nil_iff.mp hnil).2
      simp [Numeral.text, fractionText_of_ne_nil hne, Numeral.exponentText, hzero]
    · rw [List.length_map]
      split
      · simp [Numeral.text, htail, Numeral.exponentText, hzero]
      · next hlen =>
        have hne : d.figures.drop d.point.toNat ≠ [] := by
          rw [ne_eq, List.drop_eq_nil_iff]
          exact hlen
        simp [Numeral.text, fractionText_of_ne_nil hne, Numeral.exponentText]
  · simp only [Numeral.text, scientific, Numeral.exponentText, fractionText_drop_one,
      List.length_map]
    simp [Decimal.natText]

theorem isProper_numeral {l : Layout} {tail : List Nat} (htail : ∀ d ∈ tail, d < 10)
    (negative : Bool) {d : Decimal} (hd : d.IsReduced) :
    (l.numeral tail negative d).IsProper := by
  obtain ⟨g, gs, hfigures⟩ := List.exists_cons_of_ne_nil hd.ne_nil
  have hzeros : ∀ k, ∀ f ∈ List.replicate k 0, f < 10 := fun k f hf => by
    rw [List.eq_of_mem_replicate hf]
    decide
  have hnone : ∀ (s : Bool) (ds : List Nat), (none : Option (Bool × List Nat)) = some (s, ds) →
      False := fun _ _ h => by cases h
  rw [numeral]
  split
  · split
    · exact {
        whole_ne_nil := List.cons_ne_nil _ _
        whole_lt := fun f hf => by
          rw [List.mem_singleton.mp hf]
          decide
        whole_head := fun f fs h hne => absurd (List.cons.inj h).2.symm hne
        fraction_lt := fun f hf => (List.mem_append.mp hf).elim (hzeros _ f) (hd.lt f)
        exponent_ne_nil := fun s ds h => (hnone s ds h).elim
        exponent_lt := fun s ds h => (hnone s ds h).elim }
    · next hpos =>
      split
      · exact {
          whole_ne_nil := List.append_ne_nil_of_left_ne_nil hd.ne_nil _
          whole_lt := fun f hf => (List.mem_append.mp hf).elim (hd.lt f) (hzeros _ f)
          whole_head := fun f fs h _ => by
            rw [hfigures, List.cons_append] at h
            rw [← (List.cons.inj h).1]
            exact hd.head_ne_zero g gs hfigures
          fraction_lt := htail
          exponent_ne_nil := fun s ds h => (hnone s ds h).elim
          exponent_lt := fun s ds h => (hnone s ds h).elim }
      · next hlen =>
        have htake : d.figures.take d.point.toNat = g :: gs.take (d.point.toNat - 1) := by
          rw [hfigures, List.take_cons (by omega)]
        exact {
          whole_ne_nil := by
            rw [htake]
            exact List.cons_ne_nil _ _
          whole_lt := fun f hf => hd.lt f (List.mem_of_mem_take hf)
          whole_head := fun f fs h _ => by
            rw [← (List.cons.inj (htake.symm.trans h)).1]
            exact hd.head_ne_zero g gs hfigures
          fraction_lt := fun f hf => hd.lt f (List.mem_of_mem_drop hf)
          exponent_ne_nil := fun s ds h => (hnone s ds h).elim
          exponent_lt := fun s ds h => (hnone s ds h).elim }
  · exact {
      whole_ne_nil := by
        rw [hfigures]
        exact List.cons_ne_nil _ _
      whole_lt := fun f hf => hd.lt f (List.mem_of_mem_take hf)
      whole_head := fun f fs h hmore => by
        rw [hfigures] at h
        exact absurd (List.cons.inj h).2.symm hmore
      fraction_lt := fun f hf => hd.lt f (List.mem_of_mem_drop hf)
      exponent_ne_nil := fun s ds h => by
        rw [← (Prod.mk.inj (Option.some.inj h)).2]
        exact Decimal.digits_ne_nil _
      exponent_lt := fun s ds h => by
        rw [← (Prod.mk.inj (Option.some.inj h)).2]
        exact fun f hf => Decimal.lt_of_mem_digits hf }

/-- A decimal is written as a whole number, its figures with zeros behind them, or in its figures
alone, scaled by its exponent. -/
theorem numeral_cases (l : Layout) (tail : List Nat) (negative : Bool) {d : Decimal}
    (hd : d.figures ≠ []) :
    (∃ k : Nat, d.point = d.figures.length + k ∧ d.point ≤ l.greatestPoint ∧
      l.numeral tail negative d = ⟨negative, d.figures ++ List.replicate k 0, tail, none⟩) ∨
    Decimal.ofDigits ((l.numeral tail negative d).whole ++ (l.numeral tail negative d).fraction)
        = Decimal.ofDigits d.figures ∧
      -((l.numeral tail negative d).fraction.length : Int)
        + (l.numeral tail negative d).writtenExponent = d.point - d.figures.length := by
  have hlength : 0 < d.figures.length := List.length_pos_iff.mpr hd
  rw [numeral]
  split
  · next hrange =>
    split
    · right
      constructor
      · rw [Decimal.ofDigits_append, Decimal.ofDigits_append, Decimal.ofDigits_replicate_zero]
        simp [Decimal.ofDigits]
      · simp only [Numeral.writtenExponent, List.length_append, List.length_replicate]
        omega
    · split
      · next hlen =>
        exact .inl ⟨d.point.toNat - d.figures.length, by omega, hrange.2, rfl⟩
      · right
        constructor
        · rw [List.take_append_drop]
        · simp only [Numeral.writtenExponent, List.length_drop]
          omega
  · right
    constructor
    · rw [List.take_append_drop]
    · by_cases he : d.point - 1 < 0
      · simp only [Numeral.writtenExponent, he, decide_true, Decimal.ofDigits_digits,
          List.length_drop]
        omega
      · simp only [Numeral.writtenExponent, he, decide_false, Decimal.ofDigits_digits,
          List.length_drop]
        omega

end Layout

/-! ### The numeral of a number -/

namespace Number

/-- The numeral that a finite number is written as in canonical text. -/
def numeral : Number → Numeral
  | .int i => ⟨decide (i.toInt < 0), Decimal.digits i.toInt.natAbs, [], none⟩
  | .uint u => ⟨false, Decimal.digits u.toNat, [], none⟩
  | .float x =>
    if x.isZero then ⟨false, [0], [], none⟩
    else Layout.canonical.numeral [] x.negative (Decimal.shortest x.magnitude)

theorem isProper_digits (negative : Bool) (n : Nat) :
    Numeral.IsProper ⟨negative, Decimal.digits n, [], none⟩ where
  whole_ne_nil := Decimal.digits_ne_nil n
  whole_lt _ := Decimal.lt_of_mem_digits
  whole_head d ds h hne := by
    refine Decimal.head_digits_ne_zero ?_ h
    rintro rfl
    exact hne (List.cons.inj h).2.symm
  fraction_lt _ h := by cases h
  exponent_ne_nil _ _ h := by cases h
  exponent_lt _ _ h := by cases h

/-- **The numeral of a number is proper.** -/
theorem isProper_numeral (n : Number) : n.numeral.IsProper := by
  cases n with
  | int i => exact isProper_digits _ _
  | uint u => exact isProper_digits _ _
  | float x =>
    rw [numeral]
    split
    · exact isProper_digits false 0
    · next hzero =>
      have hm := mt Binary64.isZero_iff.mpr hzero
      exact Layout.isProper_numeral (by simp) _ (Decimal.isReduced_shortest hm)

theorem text_numeral_float (x : Binary64) :
    (Number.float x).numeral.text = Layout.canonical.write x := by
  rw [numeral, Layout.write]
  split
  · rfl
  · next hzero =>
    have hm := mt Binary64.isZero_iff.mpr hzero
    exact Layout.text_numeral rfl _ (Decimal.isReduced_shortest hm)

end Number

namespace Canonical

/-- **The canonical text of a number is the text of its numeral**, and a number has one when it is
finite. -/
theorem number_eq_ok_iff {n : Number} {t : List Char} :
    number n = .ok t ↔ n.isFinite = true ∧ t = n.numeral.text := by
  cases n with
  | int i =>
    have htext : (Number.int i).numeral.text = Decimal.intText i.toInt := by
      rw [Number.numeral, Decimal.intText]
      by_cases hneg : i.toInt < 0 <;>
        simp [Numeral.text, hneg, Numeral.fractionText, Numeral.exponentText, Decimal.natText]
    rw [htext]
    exact ⟨fun h => ⟨rfl, (Except.ok.inj h).symm⟩, fun h => h.2 ▸ rfl⟩
  | uint u =>
    have htext : (Number.uint u).numeral.text = Decimal.natText u.toNat := by
      simp [Number.numeral, Numeral.text, Numeral.fractionText, Numeral.exponentText,
        Decimal.natText]
    rw [htext]
    exact ⟨fun h => ⟨rfl, (Except.ok.inj h).symm⟩, fun h => h.2 ▸ rfl⟩
  | float x =>
    rw [Number.text_numeral_float, number, numberIn]
    split
    · next hfinite =>
      exact ⟨fun h => ⟨hfinite, (Except.ok.inj h).symm⟩, fun h => h.2 ▸ rfl⟩
    · next hfinite => exact ⟨fun h => (by cases h), fun h => absurd h.1 hfinite⟩

/-- The text of a finite number. -/
theorem number_of_isFinite {n : Number} (h : n.isFinite = true) :
    number n = .ok n.numeral.text :=
  number_eq_ok_iff.mpr ⟨h, rfl⟩

/-- A word is written in its digits, whichever kind of number it is kept as. -/
theorem number_ofUInt64 (u : UInt64) :
    number (.ofUInt64 u) = .ok (Decimal.natText u.toNat) := by
  rw [Number.ofUInt64]
  split
  · next h =>
    rw [number, numberIn, Int64.toInt_ofNat_of_lt h, Decimal.intText, if_neg (by omega),
      Int.natAbs_natCast]
  · rfl

/-! ### The letters of a number -/

/-- The character may stand in the text of a number. -/
def isNumeric (c : Char) : Bool :=
  Decimal.isDigit c || c == '-' || c == '+' || c == '.' || c == 'e'

theorem isNumeric_digitChar {d : Nat} (h : d < 10) : isNumeric (Decimal.digitChar d) = true := by
  simp [isNumeric, Decimal.isDigit_digitChar h]

theorem isNumeric_of_mem_map {ds : List Nat} (hds : ∀ d ∈ ds, d < 10) {c : Char}
    (h : c ∈ ds.map Decimal.digitChar) : isNumeric c = true := by
  obtain ⟨d, hd, rfl⟩ := List.mem_map.mp h
  exact isNumeric_digitChar (hds d hd)

theorem isNumeric_of_mem_text {t : Numeral} (ht : t.IsProper) {c : Char} (hc : c ∈ t.text) :
    isNumeric c = true := by
  rw [Numeral.text] at hc
  rcases List.mem_append.mp hc with hc | hc
  · split at hc
    · rw [List.mem_singleton.mp hc]
      decide
    · simp at hc
  rcases List.mem_append.mp hc with hc | hc
  · exact isNumeric_of_mem_map ht.whole_lt hc
  rcases List.mem_append.mp hc with hc | hc
  · rcases hfraction : t.fraction with _ | ⟨d, ds⟩
    · rw [hfraction] at hc
      cases hc
    · rw [hfraction] at hc
      rcases List.mem_cons.mp hc with rfl | hc
      · decide
      · exact isNumeric_of_mem_map (hfraction ▸ ht.fraction_lt) hc
  · rcases hexponent : t.exponent with _ | ⟨s, ds⟩
    · rw [hexponent] at hc
      cases hc
    · rw [hexponent, Numeral.exponentText] at hc
      rcases List.mem_cons.mp hc with rfl | hc
      · decide
      rcases List.mem_cons.mp hc with rfl | hc
      · split <;> decide
      · exact isNumeric_of_mem_map (ht.exponent_lt s ds hexponent) hc

theorem text_ne_nil {t : Numeral} (ht : t.IsProper) : t.text ≠ [] := by
  have := ht.whole_ne_nil
  simp [Numeral.text, this]

/-- Every character of a number is one that stands in numbers. -/
theorem isNumeric_of_mem_number {n : Number} {t : List Char} (h : number n = .ok t) {c : Char}
    (hc : c ∈ t) : isNumeric c = true := by
  obtain ⟨-, rfl⟩ := number_eq_ok_iff.mp h
  exact isNumeric_of_mem_text n.isProper_numeral hc

theorem ne_nil_of_number {n : Number} {t : List Char} (h : number n = .ok t) : t ≠ [] := by
  obtain ⟨-, rfl⟩ := number_eq_ok_iff.mp h
  exact text_ne_nil n.isProper_numeral

end Canonical

/-! ### Reading the text again -/

namespace Number

/-- The digits of a number that fits a word are that word. -/
theorem word?_digits (negative : Bool) {n : Nat} (h : n < UInt64.size) :
    Numeral.word? ⟨negative, Decimal.digits n, [], none⟩ = some n := by
  have hgather : Numeral.gather 0 (Decimal.digits n)
      = (0 * 10 ^ (Decimal.digits n).length + Decimal.ofDigits (Decimal.digits n), []) :=
    Numeral.gather_of_lt (by simpa [Decimal.ofDigits_digits] using h)
  rw [Numeral.word?, if_pos ⟨rfl, rfl⟩, hgather, Nat.zero_mul, Nat.zero_add,
    Decimal.ofDigits_digits]

theorem number?_int (i : Int64) : (Number.int i).numeral.number? = some (.int i) := by
  have hlow := Int64.le_toInt i
  have hhigh := Int64.toInt_lt i
  have hword : i.toInt.natAbs < UInt64.size := by
    have : UInt64.size = 2 ^ 64 := rfl
    omega
  rw [numeral, Numeral.number?, word?_digits _ hword]
  by_cases hneg : i.toInt < 0
  · have hrange : 0 < i.toInt.natAbs ∧ i.toInt.natAbs ≤ 0x8000000000000000 := by omega
    have hvalue : -(i.toInt.natAbs : Int) = i.toInt := by omega
    simp only [hneg, decide_true, if_true, hrange, and_self, hvalue, Int64.ofInt_toInt]
  · have hvalue : i.toInt.natAbs < 0x8000000000000000 := by omega
    have hnat : (UInt64.ofNat i.toInt.natAbs).toNat = i.toInt.natAbs :=
      UInt64.toNat_ofNat_of_lt hword
    have hint : Int64.ofNat i.toInt.natAbs = i := by
      rw [← Int64.ofInt_eq_ofNat, show (i.toInt.natAbs : Int) = i.toInt by omega, Int64.ofInt_toInt]
    simp only [hneg, decide_false, Bool.false_eq_true, if_false, ofUInt64, hnat, hvalue, if_true,
      hint]

theorem number?_uint (u : UInt64) : (Number.uint u).numeral.number? = some (.ofUInt64 u) := by
  rw [numeral, Numeral.number?, word?_digits _ u.toNat_lt_size]
  simp

/-- A numeral with a fraction or an exponent is a double, in range when its scaled word is. -/
theorem isSome_number?_of_isSome_scale? {t : Numeral}
    (h : (Numeral.scale? t.scaled.1 (t.scaled.2 + t.writtenExponent)).isSome = true) :
    t.number?.isSome = true := by
  rw [Numeral.number?]
  split
  · split
    · split <;> rfl
    · rfl
  · rw [Option.isSome_map, Numeral.float?, Option.isSome_map]
    exact h

/-- Digits that fit a word together are gathered whole and scaled by the digits after the point. -/
theorem scaled_of_lt {t : Numeral} (h : Decimal.ofDigits (t.whole ++ t.fraction) < UInt64.size) :
    t.scaled = (Decimal.ofDigits (t.whole ++ t.fraction), -(t.fraction.length : Int)) := by
  rw [Decimal.ofDigits_append] at h ⊢
  have hwhole : Decimal.ofDigits t.whole < UInt64.size :=
    ((Nat.le_mul_of_pos_right _ (Nat.pow_pos (by decide))).trans (Nat.le_add_right _ _)).trans_lt h
  rw [Numeral.scaled, Numeral.gather_of_lt (n := 0) (by simpa using hwhole)]
  simp only [Nat.zero_mul, Nat.zero_add, Numeral.gather_of_lt h]
  simp

theorem float?_of_lt {t : Numeral} (h : Decimal.ofDigits (t.whole ++ t.fraction) < UInt64.size) :
    t.float? = (Numeral.scale? (Decimal.ofDigits (t.whole ++ t.fraction))
      (-(t.fraction.length : Int) + t.writtenExponent)).map (·.withSign t.negative) := by
  simp only [Numeral.float?, scaled_of_lt h]

/-- The numeral of a shortest decimal is in range, in a layout that gives up positional notation
soon enough. -/
theorem isSome_number?_shortest {l : Layout} (hl : l.greatestPoint ≤ 21) (tail : List Nat) {m : Nat}
    (hm : m ≠ 0) (hfinite : m < Binary64.infinityMagnitude) (negative : Bool) :
    (l.numeral tail negative (Decimal.shortest m)).number?.isSome = true := by
  have hle := (Decimal.shortest_readsBack hm).1
  refine isSome_number?_of_isSome_scale? ?_
  rcases l.numeral_cases tail negative (Decimal.isReduced_shortest hm).ne_nil with
    ⟨k, hpoint, hrange, hnumeral⟩ | ⟨hvalue, hexponent⟩
  · -- a whole number may have more digits than fit a word
    rw [hnumeral]
    refine Numeral.isSome_scale?_of_le (Numeral.scaled_fst_lt _).le (k := 21) ?_ (by decide)
      (by decide +kernel)
    have hwhole := Numeral.length_gather_snd_le
      ((Decimal.shortest m).figures ++ List.replicate k 0) 0
    rw [List.length_append, List.length_replicate] at hwhole
    simp only [Numeral.scaled, Numeral.writtenExponent]
    push_cast
    omega
  · rw [scaled_of_lt (hvalue ▸ hle.trans_lt (by decide)), hvalue, hexponent]
    exact Numeral.isSome_scale?_shortest hm hfinite

/-- **The numeral of a finite number stands for a number.** -/
theorem isSome_number?_numeral {n : Number} (h : n.isFinite = true) :
    n.numeral.number?.isSome = true := by
  cases n with
  | int i => rw [number?_int, Option.isSome_some]
  | uint u => rw [number?_uint, Option.isSome_some]
  | float x =>
    rw [numeral]
    split
    · rfl
    · next hzero =>
      have hm := mt Binary64.isZero_iff.mpr hzero
      exact isSome_number?_shortest (by decide) [] hm (Binary64.isFinite_iff.mp h) _

/-- The number that is read from the canonical text of a number. -/
def reread (n : Number) : Number :=
  n.numeral.number?.getD n

theorem number?_numeral {n : Number} (h : n.isFinite = true) :
    n.numeral.number? = some n.reread := by
  obtain ⟨m, hm⟩ := Option.isSome_iff_exists.mp (isSome_number?_numeral h)
  rw [reread, hm, Option.getD_some]

theorem isFinite_reread {n : Number} (h : n.isFinite = true) : n.reread.isFinite = true :=
  Numeral.isFinite_of_number? (number?_numeral h)

/-- A signed word is read as itself. -/
@[simp] theorem reread_int (i : Int64) : (Number.int i).reread = .int i := by
  rw [reread, number?_int, Option.getD_some]

/-- An unsigned word is read as a word of the same text. -/
theorem number_reread_uint (u : UInt64) :
    Canonical.number (Number.uint u).reread = Canonical.number (.uint u) := by
  rw [reread, number?_uint, Option.getD_some, Canonical.number_ofUInt64]
  rfl

end Number

end SealedLedger
