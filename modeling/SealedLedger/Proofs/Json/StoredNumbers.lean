import SealedLedger.Json.Writer
import SealedLedger.Proofs.Canonical.Doubles
import SealedLedger.Proofs.Json.Reading
import SealedLedger.Proofs.Value.Numbers

/-!
# Stored numbers

A number is stored as a numeral, too, and that of a double always has a fraction or an exponent. So
an integer is read back as the word it stands for and a double as a double, though not always as the
same one: a double is kept by its text when the reader's arithmetic happens to lead back to it.

## Main definitions

* `Number.storedNumeral` — the numeral that a number is stored as
* `Number.stored` — the number that is read from a stored text
* `Number.settled` — an unsigned word as the signed word it fits
* `Binary64.KeptByText` — a double that is read back from its stored text

## Main results

* `Json.numberText_eq_ok_iff` — the stored text of a number is the text of its numeral
* `Number.number?_storedNumeral` — that numeral stands for a number
* `Number.stored_eq_settled` — integers are read back, and so are doubles that their text keeps
* `Number.stored_eq_of_number_eq` — a double that keeps its canonical text is the same double
-/

namespace SealedLedger

open Json (Numeral)

/-! ### The stored numeral -/

namespace Layout

/-- A numeral with a fraction behind its whole numbers is never that of a word. -/
theorem word?_numeral (l : Layout) {tail : List Nat} (htail : tail ≠ []) (negative : Bool)
    {d : Decimal} (hd : d.figures ≠ []) : (l.numeral tail negative d).word? = none := by
  have hparts : ¬((l.numeral tail negative d).fraction = [] ∧
      (l.numeral tail negative d).exponent = none) := by
    rintro ⟨hfraction, hexponent⟩
    rw [numeral] at hfraction hexponent
    split at hfraction
    · next hrange =>
      split at hfraction
      · exact hd (List.append_eq_nil_iff.mp hfraction).2
      · split at hfraction
        · exact htail hfraction
        · next hlength => exact hlength (List.drop_eq_nil_iff.mp hfraction)
    · next hrange =>
      rw [if_neg hrange] at hexponent
      cases hexponent
  rw [Numeral.word?, if_neg hparts]

end Layout

namespace Number

/-- The numeral that a finite number is stored as. -/
def storedNumeral : Number → Numeral
  | .int i => numeral (.int i)
  | .uint u => numeral (.uint u)
  | .float x =>
    if x.isZero then ⟨x.negative, [0], [0], none⟩
    else Layout.plain.numeral [0] x.negative (Decimal.shortest x.magnitude)

/-- **The numeral that a number is stored as is proper.** -/
theorem isProper_storedNumeral (n : Number) : n.storedNumeral.IsProper := by
  cases n with
  | int i => exact isProper_numeral (.int i)
  | uint u => exact isProper_numeral (.uint u)
  | float x =>
    rw [storedNumeral]
    split
    · exact {
        whole_ne_nil := List.cons_ne_nil _ _
        whole_lt := by simp
        whole_head := fun d ds h hne => absurd (List.cons.inj h).2.symm hne
        fraction_lt := by simp
        exponent_ne_nil := fun _ _ h => by cases h
        exponent_lt := fun _ _ h => by cases h }
    · next hzero =>
      exact Layout.isProper_numeral (by decide) _
        (Decimal.isReduced_shortest (mt Binary64.isZero_iff.mpr hzero))

theorem text_storedNumeral_float (x : Binary64) :
    (Number.float x).storedNumeral.text = Layout.plain.write x := by
  rw [storedNumeral, Layout.write]
  split
  · cases x.negative <;> rfl
  · next hzero =>
    exact Layout.text_numeral rfl _
      (Decimal.isReduced_shortest (mt Binary64.isZero_iff.mpr hzero))

end Number

/-- **The stored text of a number is the text of its numeral**, and a number has one when it is
finite. -/
theorem Json.numberText_eq_ok_iff {n : Number} {t : List Char} :
    numberText n = .ok t ↔ n.isFinite = true ∧ t = n.storedNumeral.text := by
  cases n with
  | int i => exact Canonical.number_eq_ok_iff (n := .int i)
  | uint u => exact Canonical.number_eq_ok_iff (n := .uint u)
  | float x =>
    rw [Number.text_storedNumeral_float, numberText, Canonical.numberIn]
    split
    · next hfinite =>
      exact ⟨fun h => ⟨hfinite, (Except.ok.inj h).symm⟩, fun h => h.2 ▸ rfl⟩
    · next hfinite => exact ⟨fun h => (by cases h), fun h => absurd h.1 hfinite⟩

/-! ### Reading it -/

namespace Number

theorem isSome_number?_storedNumeral {n : Number} (h : n.isFinite = true) :
    n.storedNumeral.number?.isSome = true := by
  cases n with
  | int i => exact isSome_number?_numeral h
  | uint u => exact isSome_number?_numeral h
  | float x =>
    rw [storedNumeral]
    split
    · rfl
    · next hzero =>
      exact isSome_number?_shortest (by decide) [0] (mt Binary64.isZero_iff.mpr hzero)
        (Binary64.isFinite_iff.mp h) _

/-- The number that is read from the stored text of a number. -/
def stored (n : Number) : Number :=
  n.storedNumeral.number?.getD n

/-- **The numeral that a finite number is stored as stands for a number.** -/
theorem number?_storedNumeral {n : Number} (h : n.isFinite = true) :
    n.storedNumeral.number? = some n.stored := by
  obtain ⟨m, hm⟩ := Option.isSome_iff_exists.mp (isSome_number?_storedNumeral h)
  rw [stored, hm, Option.getD_some]

theorem isFinite_stored {n : Number} (h : n.isFinite = true) : n.stored.isFinite = true :=
  Numeral.isFinite_of_number? (number?_storedNumeral h)

/-- A signed word is read as itself. -/
@[simp] theorem stored_int (i : Int64) : (Number.int i).stored = .int i := by
  rw [stored, storedNumeral, number?_int, Option.getD_some]

/-- An unsigned word is read as the signed word it fits, or as itself. -/
@[simp] theorem stored_uint (u : UInt64) : (Number.uint u).stored = .ofUInt64 u := by
  rw [stored, storedNumeral, number?_uint, Option.getD_some]

/-- A word as it is read is read as itself. -/
theorem stored_ofUInt64 (u : UInt64) : (ofUInt64 u).stored = ofUInt64 u := by
  rw [ofUInt64]
  split
  · exact stored_int _
  · next h => rw [stored_uint, ofUInt64, if_neg h]

/-- A zero is read with its sign. -/
theorem stored_float_of_isZero {x : Binary64} (h : x.isZero = true) :
    (Number.float x).stored = .float x := by
  have key : ∀ negative : Bool,
      Numeral.number? ⟨negative, [0], [0], none⟩ = some (.float (.zero negative)) := by
    decide +kernel
  have hx : x = .zero x.negative := Binary64.ext rfl (Binary64.isZero_iff.mp h)
  rw [stored, storedNumeral, if_pos h, key, Option.getD_some, ← hx]

/-- A double is read as a double. -/
theorem exists_stored_float {x : Binary64} (h : x.isFinite = true) :
    ∃ y, (Number.float x).stored = .float y ∧ y.isFinite = true := by
  by_cases hzero : x.isZero = true
  · exact ⟨x, stored_float_of_isZero hzero, h⟩
  · have hread := number?_storedNumeral (n := .float x) h
    have hfinite := isFinite_stored (n := .float x) h
    rw [storedNumeral, if_neg hzero, Numeral.number?, Layout.word?_numeral _ (by decide) _
      (Decimal.isReduced_shortest (mt Binary64.isZero_iff.mpr hzero)).ne_nil] at hread
    obtain ⟨y, -, hy⟩ := Option.map_eq_some_iff.mp hread
    rw [← hy] at hfinite ⊢
    exact ⟨y, rfl, hfinite⟩

/-! ### What is kept -/

/-- The number with an unsigned word as the signed word it fits. -/
def settled : Number → Number
  | .int i => .int i
  | .uint u => .ofUInt64 u
  | .float x => .float x

/-- A settled number has the same canonical text. -/
theorem number_settled (n : Number) : Canonical.number n.settled = Canonical.number n := by
  cases n with
  | int i => rfl
  | uint u =>
    rw [settled, Canonical.number_ofUInt64]
    rfl
  | float x => rfl

/-- **A double that keeps its canonical text is the same double.** -/
theorem stored_eq_of_number_eq {x : Binary64} (h : x.isFinite = true)
    (heq : Canonical.number (Number.float x).stored = Canonical.number (.float x)) :
    (Number.float x).stored = .float x := by
  by_cases hzero : x.isZero = true
  · exact stored_float_of_isZero hzero
  · obtain ⟨y, hy, hfinite⟩ := exists_stored_float h
    rw [hy] at heq ⊢
    rw [Canonical.eq_of_number_eq h hfinite (by simpa using hzero) heq.symm]

end Number

/-- The double is finite, and its stored text is read as the same double. -/
def Binary64.KeptByText (x : Binary64) : Prop :=
  x.isFinite = true ∧ Json.read? (Utf8.encode (Layout.plain.write x)) = .ok (.number (.float x))

/-- A double is kept by its text when the number of its stored numeral is that double. -/
theorem Binary64.keptByText_iff {x : Binary64} :
    x.KeptByText ↔ x.isFinite = true ∧ (Number.float x).stored = .float x := by
  refine and_congr_right fun h => ?_
  have hread : Json.read? (Utf8.encode (Layout.plain.write x))
      = .ok (.number (Number.float x).stored) := by
    rw [← Number.text_storedNumeral_float]
    exact (Json.reads_numeral (Number.isProper_storedNumeral _)
      (Number.number?_storedNumeral (n := .float x) h)).whole
  rw [hread]
  constructor
  · exact fun h => Value.number.inj (Except.ok.inj h)
  · exact fun h => congrArg (fun n => Except.ok (Value.number n)) h

/-- **Integers are read back, and so are doubles that their text keeps.** -/
theorem Number.stored_eq_settled {n : Number} (h : ∀ x, n = .float x → x.KeptByText) :
    n.stored = n.settled := by
  cases n with
  | int i => exact stored_int i
  | uint u => exact stored_uint u
  | float x => exact (Binary64.keptByText_iff.mp (h x rfl)).2

end SealedLedger
