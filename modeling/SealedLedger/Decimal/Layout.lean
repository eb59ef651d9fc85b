import SealedLedger.Decimal.Shortest

/-!
# Layouts of a decimal

A decimal is written in positional notation while its point stands close enough to its digits, and
with an exponent otherwise. The two formats that this library writes differ in where positional
notation ends, in whether an integral number keeps a fraction, and in the text of zero.

## Main definitions

* `Layout` — the decisions of a format.
* `Layout.canonical` — the format of ECMAScript, as canonical JSON requires it.
* `Layout.plain` — the format of stored documents.
* `Layout.write` — the text of a finite number.
-/

namespace SealedLedger

/-- The decisions of a number format. -/
structure Layout where
  /-- The least place of the point written positionally. -/
  leastPoint : Int
  /-- The greatest place of the point written positionally. -/
  greatestPoint : Int
  /-- What follows the digits of an integral number written positionally. -/
  integralTail : List Char
  /-- The text of zero, by sign. -/
  zeroText : Bool → List Char

namespace Layout

/-- Positional from `0.000001` to just below `10 ^ 21`, integral numbers without a fraction, and
one zero. -/
def canonical : Layout :=
  ⟨-5, 21, [], fun _ => ['0']⟩

/-- Positional from `0.00001` to just below `10 ^ 16`, always with a fraction, and zero with its
sign. -/
def plain : Layout :=
  ⟨-4, 16, ['.', '0'], fun negative => if negative then ['-', '0', '.', '0'] else ['0', '.', '0']⟩

/-- Digits with the point at its place. -/
def positional (tail : List Char) (ds : List Char) (point : Int) : List Char :=
  if point ≤ 0 then '0' :: '.' :: List.replicate (-point).toNat '0' ++ ds
  else if ds.length ≤ point.toNat then
    ds ++ List.replicate (point.toNat - ds.length) '0' ++ tail
  else ds.take point.toNat ++ '.' :: ds.drop point.toNat

/-- Digits with the point after the first one, and an exponent with its sign. -/
def scientific (ds : List Char) (point : Int) : List Char :=
  let e := point - 1
  ds.take 1 ++ (if ds.length ≤ 1 then [] else '.' :: ds.drop 1) ++
    'e' :: (if e < 0 then '-' else '+') :: Decimal.natText e.natAbs

/-- The text of a decimal. -/
def writeDecimal (l : Layout) (d : Decimal) : List Char :=
  let ds := d.figures.map Decimal.digitChar
  if l.leastPoint ≤ d.point ∧ d.point ≤ l.greatestPoint then
    positional l.integralTail ds d.point
  else scientific ds d.point

/-- The text of a finite number. -/
def write (l : Layout) (x : Binary64) : List Char :=
  if x.isZero then l.zeroText x.negative
  else (if x.negative then ['-'] else []) ++ l.writeDecimal (Decimal.shortest x.magnitude)

end Layout

/-- The name of a number that is not finite. -/
def Binary64.nonFiniteName (x : Binary64) : String :=
  if x.isNaN then "NaN" else if x.negative then "-inf" else "inf"

end SealedLedger
