import SealedLedger.Binary64
import SealedLedger.Decimal.Digits

/-!
# The shortest decimal of a number

A finite double has many decimals that round to it. The one that stands for it in text has the
fewest significant digits; among those it is the nearest to the number, and of two equally near
ones the one whose last digit is even.

For one to seventeen digits, the two neighbours of the number among the decimals of that many
digits are tried: if any decimal of that many digits rounds to the number, one of the two does.

## Main definitions

* `Decimal` — digits and the place of the point.
* `Decimal.shortest` — the decimal of a magnitude.
-/

namespace SealedLedger

/-- The decimal `0.d₁d₂… * 10 ^ point` with the figures `d₁d₂…`. -/
structure Decimal where
  figures : List Nat
  point : Int
  deriving DecidableEq

namespace Decimal

/-- The place of the point of a positive quotient: the least `p` with the quotient below
`10 ^ p`. -/
def pointOf (num den : Nat) : Int :=
  if den ≤ num then width (num / den) else 1 - width ((den - 1) / num)

/-- Numerator and denominator of a quotient divided by a power of ten. -/
def scale10 (num den : Nat) (e : Int) : Nat × Nat :=
  if 0 ≤ e then (num, den * Nat.pow 10 e.toNat) else (num * Nat.pow 10 (-e).toNat, den)

/-- The decimal `n * 10 ^ e` rounds to the magnitude. -/
def readsBack (magnitude n : Nat) (e : Int) : Bool :=
  let (num, den) := scale10 n 1 (-e)
  Binary64.nearest num den == magnitude

/-- Digits without the zeros at their end. -/
def trimZeros (ds : List Nat) : List Nat :=
  (ds.reverse.dropWhile (· == 0)).reverse

/-- The decimal `n * 10 ^ e` in its own digits. -/
def ofScaled (n : Nat) (e : Int) : Decimal :=
  ⟨trimZeros (Decimal.digits n), width n + e⟩

/-- Of the neighbours `n` and `n + 1` of the quotient `num / den`, the nearer one, the even one
when they are equally near. -/
def nearer (num den n : Nat) : Nat :=
  if 2 * (num - n * den) < den then n
  else if den < 2 * (num - n * den) then n + 1
  else n + n % 2

/-- The decimal of `k` significant digits nearest to the magnitude among those that round to it,
where the magnitude is the quotient `num / den` with its point at `p`. -/
def withDigits? (magnitude num den : Nat) (p : Int) (k : Nat) : Option Decimal :=
  let e := p - k
  let (n, d) := scale10 num den e
  let low := n / d
  match readsBack magnitude low e, readsBack magnitude (low + 1) e with
  | true, true => some (ofScaled (nearer n d low) e)
  | true, false => some (ofScaled low e)
  | false, true => some (ofScaled (low + 1) e)
  | false, false => none

/-- The shortest decimal that rounds to a finite magnitude other than zero. Seventeen digits
always suffice. -/
def shortest (magnitude : Nat) : Decimal :=
  let (num, den) := Binary64.ratioOf magnitude
  let p := pointOf num den
  match (List.range' 1 17).findSome? (withDigits? magnitude num den p) with
  | some d => d
  | none => ofScaled 0 0

end Decimal

end SealedLedger
