import SealedLedger.Document
import SealedLedger.Proofs.Canonical.Shortest
import SealedLedger.Proofs.Decimal.Reading
import SealedLedger.Proofs.Yaml.Numbers

/-!
# A number in the two formats

A numeral is a text of both formats, and it should be the same document in both: the digest of a
document should not depend on the name of its file. The readers agree on the integers that fit a
word, and they differ in two ways on other numerals. An integer that fits 128 bits but no word is a
double in JSON and not accepted in YAML. Any other numeral is a double in both formats, but only
the YAML reader takes the nearest one. The JSON reader multiplies or divides the double of a word by
the double of a power of ten. So the canonical bytes are the same exactly when this arithmetic gives
the nearest double, as it does where the word and the power of ten are doubles themselves.

## Main definitions

* `Number.RoundsTo` — the number is what a rational number should be read as
* `Json.Numeral.IsWide` — an integer between a word and 128 bits
* `Json.Numeral.IsShort` — few digits and a small exponent

## Main results

* `Json.Numeral.roundsTo_signedValue_iff` — the YAML reader rounds correctly
* `Document.exists_read?_spelling_iff` — which numerals it accepts
* `Document.read?_numeral_agrees` — when a numeral is the same document in both formats
-/

namespace SealedLedger

open Json (Numeral IsMark)

/-- The number is an integer that is this rational number, or a double that it rounds to. -/
def Number.RoundsTo (q : ℚ) : Number → Prop
  | .int i => q = i.toInt
  | .uint u => q = u.toNat
  | .float x => Binary64.RoundsTo q x

theorem Number.roundsTo_of_integer? {n : Number} {z : Int} (h : n.integer? = some z) :
    n.RoundsTo z := by
  cases n with
  | int i => exact congrArg Int.cast (Option.some.inj h).symm
  | uint u =>
    rw [← Option.some.inj h]
    exact Int.cast_natCast _
  | float x => cases h

theorem Number.integer?_ofUInt64 (u : UInt64) : (ofUInt64 u).integer? = some (u.toNat : Int) := by
  rw [ofUInt64]
  split
  · next h => rw [integer?, Int64.toInt_ofNat_of_lt h]
  · rfl

/-! ### Numerals that are integers -/

/-- The integer fits a signed or an unsigned word. -/
def FitsWord (z : Int) : Prop := -2 ^ 63 ≤ z ∧ z < 2 ^ 64

/-- The integer fits 128 bits, signed or unsigned. -/
def FitsDoubleWord (z : Int) : Prop := -2 ^ 127 ≤ z ∧ z < 2 ^ 128

/-- **How integers fit.** -/
theorem Yaml.Fit.of_cases (z : Int) :
    (FitsWord z ∧ ∃ m : Number, Fit.of z = .word (.number m) ∧ m.integer? = some z) ∨
      (¬ FitsWord z ∧ FitsDoubleWord z ∧ Fit.of z = .tooWide) ∨
      ¬ FitsWord z ∧ ¬ FitsDoubleWord z ∧ Fit.of z = .beyond := by
  have hsize : (UInt64.size : Int) = 2 ^ 64 := rfl
  rw [Fit.of, hsize, FitsWord, FitsDoubleWord]
  split
  · next h =>
    refine .inl ⟨by omega, _, rfl, ?_⟩
    have hlt : z.toNat < UInt64.size := by omega
    rw [Number.integer?_ofUInt64, UInt64.toNat_ofNat_of_lt' hlt, Int.toNat_of_nonneg h.1]
  split
  · next h =>
    refine .inl ⟨by omega, _, rfl, ?_⟩
    rw [Number.integer?, Int64.toInt_ofInt_of_le (by omega) (by omega)]
  split
  · exact .inr (.inl ⟨by omega, by omega, rfl⟩)
  · exact .inr (.inr ⟨by omega, by omega, rfl⟩)

namespace Json.Numeral

variable {t : Numeral} {n : Number} {x : Binary64} {z : Int}

/-- The numeral is an integer that fits 128 bits, but no word. -/
def IsWide (t : Numeral) : Prop :=
  ∃ z, t.integer? = some z ∧ ¬ FitsWord z ∧ FitsDoubleWord z

theorem integer?_eq_some_iff : t.integer? = some z ↔ t.fraction = [] ∧ t.exponent = none ∧
    (if t.negative then -(Decimal.ofDigits t.whole : Int) else Decimal.ofDigits t.whole) = z := by
  rw [integer?]
  split
  · next h => simp [h]
  · next h =>
    constructor
    · intro heq
      cases heq
    · exact fun h' => absurd ⟨h'.1, h'.2.1⟩ h

/-- An integer is its own value. -/
theorem signedValue_of_integer? (h : t.integer? = some z) : t.signedValue = z := by
  obtain ⟨hfraction, hexponent, rfl⟩ := integer?_eq_some_iff.mp h
  have hvalue : t.value = Decimal.ofDigits t.whole := by
    simp [value, writtenExponent, hfraction, hexponent]
  rw [signedValue, hvalue]
  split
  · push_cast
    rfl
  · rfl

/-- The word of an integer numeral is its absolute value. -/
theorem word?_of_integer? (h : t.integer? = some z) (hz : FitsWord z) :
    t.word? = some (Decimal.ofDigits t.whole) := by
  obtain ⟨hfraction, hexponent, rfl⟩ := integer?_eq_some_iff.mp h
  have hlt : Decimal.ofDigits t.whole < UInt64.size := by
    have hsize : UInt64.size = 2 ^ 64 := rfl
    rw [FitsWord] at hz
    split at hz <;> omega
  refine word?_eq_some_iff.mpr ⟨hfraction, hexponent, ?_⟩
  rw [gather_of_lt (by simpa using hlt), Nat.zero_mul, Nat.zero_add]

/-- **An integer that fits a word is read as itself**, or as a double when it is minus zero. -/
theorem number?_of_fitsWord (h : t.integer? = some z) (hz : FitsWord z)
    (hn : t.number? = some n) : n.integer? = some z ∨ z = 0 ∧ n = .float (.zero true) := by
  rw [number?, word?_of_integer? h hz] at hn
  obtain ⟨-, -, rfl⟩ := integer?_eq_some_iff.mp h
  obtain ⟨hlow, hhigh⟩ := hz
  cases hnegative : t.negative with
  | true =>
    simp only [hnegative, if_true] at hn hlow hhigh ⊢
    split at hn
    · left
      rw [← Option.some.inj hn, Number.integer?, Int64.toInt_ofInt_of_le (by omega) (by omega)]
    · right
      have hzero : Decimal.ofDigits t.whole = 0 := by omega
      rw [hzero] at hn ⊢
      exact ⟨rfl, (Option.some.inj hn).symm⟩
  | false =>
    simp only [hnegative, Bool.false_eq_true, if_false] at hn hlow hhigh ⊢
    left
    have hlt : Decimal.ofDigits t.whole < UInt64.size := by
      have hsize : UInt64.size = 2 ^ 64 := rfl
      omega
    rw [← Option.some.inj hn, Number.integer?_ofUInt64, UInt64.toNat_ofNat_of_lt' hlt]

/-- So it has the text of its word, and nothing is lost. -/
theorem number_of_fitsWord (h : t.integer? = some z) (hz : FitsWord z)
    (hn : t.number? = some n) {m : Number} (hm : m.integer? = some z) :
    Canonical.number m = Canonical.number n ∧ n.RoundsTo t.signedValue := by
  rw [signedValue_of_integer? h]
  rcases number?_of_fitsWord h hz hn with hinteger | ⟨rfl, rfl⟩
  · exact ⟨(Canonical.number_eq_integer_iff hm hinteger).mpr rfl,
      Number.roundsTo_of_integer? hinteger⟩
  · have hexact : (Binary64.zero true).exact = ((0 : Int) : ℚ) :=
      (Binary64.exact_of_isZero rfl).trans Int.cast_zero.symm
    constructor
    · refine (Canonical.number_eq_number_iff (n := .float (.zero true))
        (Number.isFinite_of_integer? hm) rfl).mpr ((Number.numeral_eq_float_iff hm).mpr ?_)
      exact (Binary64.spelled_of_isZero rfl).trans Int.cast_zero.symm
    · rw [← hexact]
      exact Binary64.roundsTo_exact _

/-! ### Numerals that are doubles -/

/-- **What is no word is a double**, with the sign of the numeral. -/
theorem float_of_number? (hn : t.number? = some n)
    (hword : ∀ z, t.integer? = some z → ¬ FitsWord z) :
    ∃ x, n = .float x ∧ x.isFinite = true ∧ x.negative = t.negative := by
  have hfinite := isFinite_of_number? hn
  rw [number?] at hn
  split at hn
  · next k hk =>
    obtain ⟨hfraction, hexponent, hgather⟩ := word?_eq_some_iff.mp hk
    have hvalue := eq_of_gather_eq hgather
    rw [Nat.zero_mul, Nat.zero_add] at hvalue
    have hfits := hword _ (integer?_eq_some_iff.mpr ⟨hfraction, hexponent, rfl⟩)
    have hlt := word?_lt hk
    have hsize : UInt64.size = 2 ^ 64 := rfl
    rw [← hvalue, FitsWord] at hfits
    cases hnegative : t.negative with
    | true =>
      simp only [hnegative, if_true] at hn hfits
      rw [if_neg (by omega)] at hn
      obtain rfl := Option.some.inj hn
      exact ⟨_, rfl, hfinite, rfl⟩
    | false =>
      simp only [hnegative, Bool.false_eq_true, if_false] at hfits
      omega
  · obtain ⟨x, hx, rfl⟩ := Option.map_eq_some_iff.mp hn
    refine ⟨x, rfl, hfinite, ?_⟩
    obtain ⟨y, -, rfl⟩ := Option.map_eq_some_iff.mp hx
    rfl

/-- The double nearest to a numeral is what its value rounds to. -/
theorem exists_nearest_eq_ofRatio (t : Numeral) : ∃ num den : Nat, 0 < den ∧
    (num : ℚ) / den = t.value ∧ t.nearest = Binary64.ofRatio t.negative num den := by
  have hden := Decimal.scale10_snd_pos (Decimal.ofDigits (t.whole ++ t.fraction)) Nat.one_pos
    (-(t.writtenExponent - t.fraction.length))
  have hvalue := Decimal.scale10_neg_div (Decimal.ofDigits (t.whole ++ t.fraction))
    (t.writtenExponent - t.fraction.length)
  refine ⟨_, _, hden, ?_, Decimal.nearest_eq_ofRatio t.negative hden hvalue⟩
  rw [hvalue, value, neg_add_eq_sub]

theorem signed_signedValue (hsign : x.negative = t.negative) :
    x.signed t.signedValue = t.value := by
  rw [Binary64.signed, signedValue, hsign]
  split
  · exact neg_neg _
  · rfl

/-- **A numeral rounds to the double nearest to it**, and to no other of its sign. -/
theorem roundsTo_signedValue_iff (hx : x.isFinite = true) (hsign : x.negative = t.negative) :
    Binary64.RoundsTo t.signedValue x ↔ t.nearest = x := by
  obtain ⟨num, den, hden, hvalue, hnearest⟩ := t.exists_nearest_eq_ofRatio
  rw [Binary64.roundsTo_iff_ofRatio hx hden ((signed_signedValue hsign).trans hvalue.symm), hsign,
    hnearest]

theorem nearest_negative (t : Numeral) : t.nearest.negative = t.negative :=
  Decimal.nearest_negative _ _ _

/-- A numeral of few digits with a small exponent: the number of its digits has at most 53 bits, and
it is scaled by at most the twenty-second power of ten. -/
structure IsShort (t : Numeral) : Prop where
  digits_lt : Decimal.ofDigits (t.whole ++ t.fraction) < 2 ^ 53
  exponent_le : (t.writtenExponent - t.fraction.length).natAbs ≤ 22

/-- **The arithmetic of the reader is exact on short numerals.** -/
theorem IsShort.float?_eq (h : t.IsShort) (hx : t.float? = some x) : t.nearest = x := by
  have hlt : Decimal.ofDigits (t.whole ++ t.fraction) < UInt64.size :=
    h.digits_lt.trans (by decide)
  rw [Number.float?_of_lt hlt, neg_add_eq_sub] at hx
  obtain ⟨y, hy, rfl⟩ := Option.map_eq_some_iff.mp hx
  obtain ⟨num, den, hden, hvalue, rfl⟩ := exists_scale?_eq_ofRatio h.digits_lt h.exponent_le hy
  exact Decimal.nearest_eq_ofRatio t.negative hden hvalue

/-- A short integer fits a word. -/
theorem IsShort.fitsWord (h : t.IsShort) (hz : t.integer? = some z) : FitsWord z := by
  obtain ⟨hfraction, -, rfl⟩ := integer?_eq_some_iff.mp hz
  have hlt := h.digits_lt
  rw [hfraction, List.append_nil] at hlt
  rw [FitsWord]
  split <;> omega

/-- **A short numeral is read as what it rounds to.** -/
theorem IsShort.roundsTo (h : t.IsShort) (hn : t.number? = some n) : n.RoundsTo t.signedValue := by
  rcases hinteger : t.integer? with _ | z
  · obtain ⟨x, rfl, hfinite, hsign⟩ := float_of_number? hn fun z hz => by
      rw [hinteger] at hz
      cases hz
    have hword : t.word? = none := by
      rw [word?, if_neg]
      intro hparts
      rw [integer?, if_pos hparts] at hinteger
      cases hinteger
    rw [number?, hword] at hn
    obtain ⟨y, hy, heq⟩ := Option.map_eq_some_iff.mp hn
    obtain rfl := Number.float.inj heq
    exact (roundsTo_signedValue_iff hfinite hsign).mpr (h.float?_eq hy)
  · obtain ⟨-, m, -, hm⟩ | ⟨hfits, -⟩ | ⟨hfits, -⟩ := Yaml.Fit.of_cases z
    · exact (number_of_fitsWord hinteger (h.fitsWord hinteger) hn hm).2
    · exact absurd (h.fitsWord hinteger) hfits
    · exact absurd (h.fitsWord hinteger) hfits

theorem IsShort.not_isWide (h : t.IsShort) : ¬ t.IsWide := by
  rintro ⟨z, hz, hfits, -⟩
  exact hfits (h.fitsWord hz)

end Json.Numeral

/-! ### Canonical bytes -/

namespace Canonical

variable {m n : Number} {c : List UInt8}

/-- Numbers have one text when they have the same canonical bytes. -/
theorem canonicalize_number_iff (hn : canonicalize (.number n) = .ok c) :
    canonicalize (.number m) = .ok c ↔ number m = number n := by
  obtain ⟨u, hu, rfl⟩ := canonicalize_eq_ok_iff.mp hn
  have hnumber : number n = .ok u := hu
  rw [canonicalize_eq_ok_iff, hnumber]
  constructor
  · rintro ⟨s, hs, heq⟩
    rw [Utf8.encode_injective heq]
    exact hs
  · exact fun h => ⟨u, h, rfl⟩

/-- No text has the canonical bytes of a number. -/
theorem canonicalize_string_ne (hn : canonicalize (.number n) = .ok c) (s : String) :
    canonicalize (.string s) ≠ .ok c := by
  intro hs
  cases equivalent_of_canonicalize_eq hs hn

/-- **A double has the bytes of the value of a numeral exactly when the numeral rounds to it.** -/
theorem canonicalize_nearest_iff {t : Numeral} {x : Binary64} (hx : x.isFinite = true)
    (hsign : x.negative = t.negative) (hc : canonicalize (.number (.float x)) = .ok c)
    (s : String) :
    canonicalize (if t.nearest.isFinite then .number (.float t.nearest) else .string s) = .ok c ↔
      Binary64.RoundsTo t.signedValue x := by
  rw [Numeral.roundsTo_signedValue_iff hx hsign]
  split
  · next hfinite =>
    rw [canonicalize_number_iff hc, number_eq_float_iff hfinite hx]
    constructor
    · exact Binary64.eq_of_exact_eq_of_negative (t.nearest_negative.trans hsign.symm)
    · exact fun h => h ▸ rfl
  · next hinfinite =>
    constructor
    · exact fun h => absurd h (canonicalize_string_ne hc s)
    · intro h
      rw [h] at hinfinite
      exact absurd hx hinfinite

end Canonical

/-! ### The YAML reader -/

namespace Yaml

variable {t : Numeral} {mark : Char}

/-- An integer that fits a word is read as a word. -/
theorem read?_of_fitsWord (ht : t.IsProper) (hmark : IsMark mark) (plus : Bool) {z : Int}
    (hz : t.integer? = some z) (hfits : FitsWord z) :
    ∃ m : Number, read? (t.spelling mark plus) = .ok (.number m) ∧ m.integer? = some z := by
  obtain ⟨-, m, hword, hm⟩ | ⟨hwide, -⟩ | ⟨hwide, -⟩ := Fit.of_cases z
  · refine ⟨m, ?_, hm⟩
    rw [read?_spelling ht hmark, hz, Option.bind_some, Fit.value?, hword]
    rfl
  · exact absurd hfits hwide
  · exact absurd hfits hwide

/-- A wide integer is refused as one. -/
theorem read?_of_isWide (ht : t.IsProper) (hmark : IsMark mark) (plus : Bool) (h : t.IsWide)
    {z : Int} (hz : t.integer? = some z) :
    read? (t.spelling mark plus) = .error (.refused (.wideInteger z) .root .start) := by
  obtain ⟨z', hz', hword, hfits⟩ := h
  obtain rfl := Option.some.inj (hz.symm.trans hz')
  obtain ⟨hfits', -⟩ | ⟨-, -, hwide⟩ | ⟨-, hbeyond, -⟩ := Fit.of_cases z
  · exact absurd hfits' hword
  · rw [read?_spelling ht hmark, hz, Option.bind_some, Fit.value?, hwide]
    rfl
  · exact absurd hfits hbeyond

/-- Any other numeral is read as the nearest double, or as a text when that is infinite. -/
theorem read?_of_not_fitsWord (ht : t.IsProper) (hmark : IsMark mark) (plus : Bool)
    (hword : ∀ z, t.integer? = some z → ¬ FitsWord z) (hwide : ¬ t.IsWide) :
    read? (t.spelling mark plus) = .ok (if t.nearest.isFinite then .number (.float t.nearest)
      else .string (String.ofList (t.spelling mark plus))) := by
  rw [read?_spelling ht hmark]
  rcases hinteger : t.integer? with _ | z
  · rfl
  · obtain ⟨hfits, -⟩ | ⟨hnot, hfits, -⟩ | ⟨-, -, hbeyond⟩ := Fit.of_cases z
    · exact absurd hfits (hword z hinteger)
    · exact absurd ⟨z, hinteger, hnot, hfits⟩ hwide
    · rw [Option.bind_some, Fit.value?, hbeyond]

end Yaml

/-! ### Both readers -/

namespace Document

variable {p q : String} {text : List Char} {v : Value}

theorem read?_of_isYaml_eq_false (hp : isYaml p = false) :
    read? p text = .ok v ↔ Json.read? (Utf8.encode text) = .ok v := by
  rw [read?, hp, if_neg Bool.false_ne_true]
  cases Json.read? (Utf8.encode text) <;> simp [Except.mapError]

theorem read?_of_isYaml (hq : isYaml q = true) :
    read? q text = (Yaml.read? text).mapError .yaml := by
  rw [read?, if_pos hq]

theorem read?_of_isYaml_eq_ok_iff (hq : isYaml q = true) :
    read? q text = .ok v ↔ Yaml.read? text = .ok v := by
  rw [read?_of_isYaml hq]
  cases Yaml.read? text <;> simp [Except.mapError]

section

variable {t : Numeral} {mark : Char} {plus : Bool}

/-- A numeral is accepted in YAML unless it is a wide integer. -/
theorem exists_read?_spelling_iff (ht : t.IsProper) (hmark : IsMark mark) (plus : Bool)
    (hq : isYaml q = true) :
    (∃ w, read? q (t.spelling mark plus) = .ok w) ↔ ¬ t.IsWide := by
  simp only [read?_of_isYaml_eq_ok_iff hq]
  constructor
  · rintro ⟨w, hw⟩ ⟨z, hz, hfits⟩
    rw [Yaml.read?_of_isWide ht hmark plus ⟨z, hz, hfits⟩ hz] at hw
    cases hw
  · intro hwide
    by_cases hword : ∃ z, t.integer? = some z ∧ FitsWord z
    · obtain ⟨z, hz, hfits⟩ := hword
      obtain ⟨m, hm, -⟩ := Yaml.read?_of_fitsWord ht hmark plus hz hfits
      exact ⟨_, hm⟩
    · exact ⟨_, Yaml.read?_of_not_fitsWord ht hmark plus
        (fun z hz hfits => hword ⟨z, hz, hfits⟩) hwide⟩

/-- What it is read as there has the bytes of its JSON number when the numeral rounds to that
number. -/
theorem canonicalize_eq_ok_iff_roundsTo (ht : t.IsProper) (hmark : IsMark mark)
    (hq : isYaml q = true) {n : Number} (hn : t.number? = some n) {c : List UInt8}
    (hc : canonicalize (.number n) = .ok c) {w : Value}
    (hw : read? q (t.spelling mark plus) = .ok w) :
    canonicalize w = .ok c ↔ n.RoundsTo t.signedValue := by
  have hwide := (exists_read?_spelling_iff ht hmark plus hq).mp ⟨w, hw⟩
  rw [read?_of_isYaml_eq_ok_iff hq] at hw
  by_cases hword : ∃ z, t.integer? = some z ∧ FitsWord z
  · obtain ⟨z, hz, hfits⟩ := hword
    obtain ⟨m, hm, hinteger⟩ := Yaml.read?_of_fitsWord ht hmark plus hz hfits
    obtain ⟨htext, hrounds⟩ := Numeral.number_of_fitsWord hz hfits hn hinteger
    rw [← Except.ok.inj (hm.symm.trans hw), Canonical.canonicalize_number_iff hc]
    exact ⟨fun _ => hrounds, fun _ => htext⟩
  · have hnone : ∀ z, t.integer? = some z → ¬ FitsWord z :=
      fun z hz hfits => hword ⟨z, hz, hfits⟩
    obtain ⟨x, rfl, hfinite, hsign⟩ := Numeral.float_of_number? hn hnone
    have hdouble := Yaml.read?_of_not_fitsWord ht hmark plus hnone hwide
    rw [← Except.ok.inj (hdouble.symm.trans hw)]
    exact Canonical.canonicalize_nearest_iff hfinite hsign hc _

end

/-- **When a numeral is the same document in both formats.** A text that is taken as a numeral and
accepted as a JSON text is a number with canonical bytes. As a YAML text it is accepted too, unless
it is an integer that fits 128 bits but no word; such an integer is refused at the start of the
text. Where it is accepted, it has the same canonical bytes exactly when the JSON reader has taken
the number that the numeral rounds to; and this it does for all numerals of few digits with a small
exponent, however they are spelled. -/
theorem read?_numeral_agrees {atEnd : Json.Fault} {t : Numeral}
    (ht : Json.numeral atEnd (Utf8.encode text) = .ok (t, [])) (hp : isYaml p = false)
    (hq : isYaml q = true) (hv : read? p text = .ok v) :
    ∃ (n : Number) (c : List UInt8), v = .number n ∧ canonicalize v = .ok c ∧
      ((∃ w, read? q text = .ok w) ↔ ¬ t.IsWide) ∧
      (∀ z, t.IsWide → t.integer? = some z →
        read? q text = .error (.yaml (.refused (.wideInteger z) .root .start))) ∧
      (∀ w, read? q text = .ok w → (canonicalize w = .ok c ↔ n.RoundsTo t.signedValue)) ∧
      (t.IsShort → n.RoundsTo t.signedValue ∧
        ∃ w, read? q text = .ok w ∧ canonicalize w = .ok c) := by
  obtain ⟨hproper, mark, plus, hmark, rfl⟩ := Json.numeral_eq_ok_iff.mp ht
  obtain ⟨n, hn, rfl⟩ :=
    (Json.read?_spelling hproper hmark).mp ((read?_of_isYaml_eq_false hp).mp hv)
  have hc : canonicalize (.number n) = .ok (Utf8.encode n.numeral.text) :=
    Canonical.canonicalize_eq_ok_iff.mpr
      ⟨_, Canonical.number_of_isFinite (Numeral.isFinite_of_number? hn), rfl⟩
  have haccepted := exists_read?_spelling_iff hproper hmark plus hq
  refine ⟨n, _, rfl, hc, haccepted, fun z hwide hz => ?_,
    fun w => canonicalize_eq_ok_iff_roundsTo hproper hmark hq hn hc, fun hshort => ?_⟩
  · rw [read?_of_isYaml hq, Yaml.read?_of_isWide hproper hmark plus hwide hz]
    rfl
  · have hrounds := hshort.roundsTo hn
    obtain ⟨w, hw⟩ := haccepted.mpr hshort.not_isWide
    exact ⟨hrounds, w, hw,
      (canonicalize_eq_ok_iff_roundsTo hproper hmark hq hn hc hw).mpr hrounds⟩

/-- The fraction `2.5` is the same document in both formats, and the integer `2 ^ 64` is one in JSON
only. -/
theorem read?_numeral_agrees_five_halves :
    (∃ (t : Numeral) (n : Number) (w : Value) (c : List UInt8),
      Json.numeral .endInValue (utf8 "2.5") = .ok (t, []) ∧
      read? "a.json" "2.5".toList = .ok (.number n) ∧ n.RoundsTo t.signedValue ∧
      read? "a.yaml" "2.5".toList = .ok w ∧
      canonicalize (.number n) = .ok c ∧ canonicalize w = .ok c) ∧
    (∃ v, read? "a.json" "18446744073709551616".toList = .ok v) ∧
      ¬ ∃ w, read? "a.yaml" "18446744073709551616".toList = .ok w := by
  constructor
  · have hread : read? "a.json" "2.5".toList
        = .ok (.number (.float (.ofBits 0x4004000000000000))) := rfl
    have ht : Json.numeral .endInValue (Utf8.encode "2.5".toList)
        = .ok (⟨false, [2], [5], none⟩, []) := rfl
    obtain ⟨n, c, hn, hc, -, -, -, hshort⟩ :=
      read?_numeral_agrees (p := "a.json") (q := "a.yaml") ht rfl rfl hread
    obtain ⟨hrounds, w, hw, hbytes⟩ := hshort ⟨by decide +kernel, by decide +kernel⟩
    rw [hn] at hread hc
    exact ⟨_, n, w, c, ht, hread, hrounds, hw, hc, hbytes⟩
  · have hread : read? "a.json" "18446744073709551616".toList
        = .ok (.number (.float (.ofBits 0x43F0000000000000))) := rfl
    have ht : Json.numeral .endInValue (Utf8.encode "18446744073709551616".toList)
        = .ok (⟨false, Decimal.digits (2 ^ 64), [], none⟩, []) := rfl
    obtain ⟨n, c, -, -, haccepted, -⟩ :=
      read?_numeral_agrees (p := "a.json") (q := "a.yaml") ht rfl rfl hread
    refine ⟨⟨_, hread⟩, fun h => haccepted.mp h ⟨2 ^ 64, rfl, ?_, ?_⟩⟩
    · rw [FitsWord]
      omega
    · rw [FitsDoubleWord]
      omega

/-- **Not every numeral is the same document in both formats.** The integer `2 ^ 64` is accepted in
JSON only. And `1e-24` is accepted in both formats with different bytes. -/
theorem number_documents_differ :
    (∃ v, read? "a.json" "18446744073709551616".toList = .ok v ∧
      canonicalize v = .ok (utf8 "18446744073709552000") ∧
      read? "a.yaml" "18446744073709551616".toList =
        .error (.yaml (.refused (.wideInteger (2 ^ 64)) .root .start))) ∧
    ∃ v w, read? "a.json" "1e-24".toList = .ok v ∧
      canonicalize v = .ok (utf8 "1.0000000000000001e-24") ∧
      read? "a.yaml" "1e-24".toList = .ok w ∧ canonicalize w = .ok (utf8 "1e-24") := by
  have hwide : read? "a.json" "18446744073709551616".toList
      = .ok (.number (.float ⟨false, 0x43F0000000000000, by decide⟩)) := rfl
  have hrefused : read? "a.yaml" "18446744073709551616".toList
      = .error (.yaml (.refused (.wideInteger (2 ^ 64)) .root .start)) := by
    have ht : Numeral.IsWide ⟨false, Decimal.digits (2 ^ 64), [], none⟩ :=
      ⟨2 ^ 64, rfl, by rw [FitsWord]; omega, by rw [FitsDoubleWord]; omega⟩
    have hspelling : "18446744073709551616".toList
        = Numeral.spelling ⟨false, Decimal.digits (2 ^ 64), [], none⟩ 'e' false := rfl
    rw [hspelling, read?_of_isYaml rfl,
      Yaml.read?_of_isWide (Number.isProper_digits _ _) (.inl rfl) false ht rfl]
    rfl
  have hjson : read? "a.json" "1e-24".toList
      = .ok (.number (.float ⟨false, 0x3AF357C299A88EA8, by decide⟩)) := rfl
  have hyaml : read? "a.yaml" "1e-24".toList
      = .ok (.number (.float ⟨false, 0x3AF357C299A88EA7, by decide⟩)) := by
    have ht : Json.numeral .endInValue (Utf8.encode "1e-24".toList)
        = .ok (⟨false, [1], [], some (true, [2, 4])⟩, []) := rfl
    have hspelling : "1e-24".toList
        = Numeral.spelling ⟨false, [1], [], some (true, [2, 4])⟩ 'e' false := rfl
    rw [hspelling, read?_of_isYaml rfl,
      Yaml.read?_spelling (Json.numeral_eq_ok_iff.mp ht).1 (.inl rfl)]
    rfl
  refine ⟨⟨_, hwide, ?_, hrefused⟩, _, _, hjson, ?_, hyaml, ?_⟩ <;> decide +kernel

end Document

end SealedLedger
