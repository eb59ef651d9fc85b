/-!
# Binary64 numbers

The double-precision numbers of IEEE 754 as sign and magnitude. The magnitude is the number's bit
pattern without its sign, so that consecutive magnitudes are consecutive numbers and the order of
magnitudes is the order of absolute values. Every operation rounds an exact quotient of natural
numbers once, to the nearest number, a tie to the even magnitude.

## Main definitions

* `Binary64`, with `ofBits` and `toBits`.
* `Binary64.significandOf` and `Binary64.exponentOf` — a finite magnitude `m` stands for
  `significandOf m * 2 ^ exponentOf m`.
* `Binary64.nearest` — the magnitude nearest to a quotient.
* `Binary64.mul`, `Binary64.div`, `Binary64.ofNat` — exact arithmetic, rounded once.
-/

namespace SealedLedger

/-- A double-precision number: its sign, and its bit pattern without the sign. -/
structure Binary64 where
  negative : Bool
  magnitude : Nat
  magnitude_lt : magnitude < 0x8000000000000000
  deriving DecidableEq

namespace Binary64

/-! ### Bit patterns -/

/-- The number of a bit pattern. -/
def ofBits (bits : UInt64) : Binary64 :=
  ⟨0x8000000000000000 ≤ bits.toNat, bits.toNat % 0x8000000000000000, Nat.mod_lt _ (by decide)⟩

/-- The bit pattern of a number. -/
def toBits (x : Binary64) : UInt64 :=
  UInt64.ofNat ((if x.negative then 0x8000000000000000 else 0) + x.magnitude)

/-! ### Kinds of number -/

/-- The magnitude of the infinities; above it stand the patterns that are no number. -/
def infinityMagnitude : Nat := 0x7FF0000000000000

/-- The number is finite. -/
def isFinite (x : Binary64) : Bool := x.magnitude < infinityMagnitude

/-- The pattern is no number. -/
def isNaN (x : Binary64) : Bool := infinityMagnitude < x.magnitude

/-- The number is zero, of either sign. -/
def isZero (x : Binary64) : Bool := x.magnitude == 0

/-- A number of given sign whose magnitude is capped at infinity. -/
def capped (negative : Bool) (magnitude : Nat) : Binary64 :=
  ⟨negative, min magnitude infinityMagnitude,
    Nat.lt_of_le_of_lt (Nat.min_le_right _ _) (by decide)⟩

/-- Zero of a given sign. -/
def zero (negative : Bool) : Binary64 := ⟨negative, 0, by decide⟩

/-- Infinity of a given sign. -/
def infinity (negative : Bool) : Binary64 := ⟨negative, infinityMagnitude, by decide⟩

/-- A pattern that is no number. -/
def nan : Binary64 := ⟨false, 0x7FF8000000000000, by decide⟩

/-- Equality as numbers: the two zeros are equal, and nothing equals a pattern that is no
number. -/
def eqv (x y : Binary64) : Bool :=
  !x.isNaN && !y.isNaN &&
    ((x.isZero && y.isZero) || (x.negative == y.negative && x.magnitude == y.magnitude))

/-! ### The value of a finite number -/

/-- How many magnitudes share an exponent: one for each pattern of the fraction bits. -/
def binade : Nat := 0x10000000000000

/-- The integer that the fraction bits, with the leading one where there is one, spell. -/
def significandOf (magnitude : Nat) : Nat :=
  if magnitude < binade then magnitude else binade + magnitude % binade

/-- The power of two that the significand is scaled by. -/
def exponentOf (magnitude : Nat) : Int :=
  if magnitude < binade then -1074 else (magnitude / binade : Nat) - 1075

/-- The absolute value of a finite magnitude, as numerator and denominator. -/
def ratioOf (magnitude : Nat) : Nat × Nat :=
  let e := exponentOf magnitude
  if 0 ≤ e then (significandOf magnitude * Nat.pow 2 e.toNat, 1)
  else (significandOf magnitude, Nat.pow 2 (-e).toNat)

/-- The absolute value of a finite number, as numerator and denominator. -/
def ratio (x : Binary64) : Nat × Nat := ratioOf x.magnitude

/-! ### Rounding -/

/-- The natural number nearest to a quotient, a tie to the even one. -/
def divRound (num den : Nat) : Nat :=
  let q := num / den
  let r := num % den
  if 2 * r < den then q else if den < 2 * r then q + 1 else q + q % 2

/-- Numerator and denominator of a quotient divided by a power of two. -/
def scale (num den : Nat) (e : Int) : Nat × Nat :=
  if 0 ≤ e then (num, den * Nat.pow 2 e.toNat) else (num * Nat.pow 2 (-e).toNat, den)

/-- The exponent of the largest power of two that is at most a positive quotient. -/
def floorLog2 (num den : Nat) : Int :=
  let e := (num.log2 : Int) - den.log2
  let (n, d) := scale num den e
  if d ≤ n then e else e - 1

/-- The exponent at which a quotient has a significand of the full width, or the least one. -/
def targetExponent (num den : Nat) : Int :=
  max (floorLog2 num den - 52) (-1074)

/-- The magnitude nearest to a quotient, a tie to the even one, uncapped. A significand that
rounds up to the next power of two carries into the exponent by itself. -/
def nearest (num den : Nat) : Nat :=
  if num = 0 then 0
  else
    let e := targetExponent num den
    let (n, d) := scale num den e
    divRound n d + (e + 1074).toNat * binade

/-- The number of given sign nearest to a quotient. -/
def ofRatio (negative : Bool) (num den : Nat) : Binary64 :=
  capped negative (nearest num den)

/-! ### Arithmetic -/

/-- The number nearest to a natural number. -/
def ofNat (n : Nat) : Binary64 := ofRatio false n 1

/-- The product of two finite numbers. -/
def mul (x y : Binary64) : Binary64 :=
  ofRatio (x.negative != y.negative) (x.ratio.1 * y.ratio.1) (x.ratio.2 * y.ratio.2)

/-- The quotient of two finite numbers, the second not zero. -/
def div (x y : Binary64) : Binary64 :=
  ofRatio (x.negative != y.negative) (x.ratio.1 * y.ratio.2) (x.ratio.2 * y.ratio.1)

/-- The number with its sign set. -/
def withSign (negative : Bool) (x : Binary64) : Binary64 :=
  ⟨negative, x.magnitude, x.magnitude_lt⟩

end Binary64

end SealedLedger
