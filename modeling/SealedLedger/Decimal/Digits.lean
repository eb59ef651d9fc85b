/-!
# Decimal digits

Natural numbers and their decimal digits, most significant first.

## Main definitions

* `Decimal.digits` — the digits of a number, at least one.
* `Decimal.ofDigits` — the number of a list of digits.
* `Decimal.natText`, `Decimal.intText` — the text of an integer.
* `Decimal.shown` — a number in a message.
* `Decimal.padded` — digits filled up with zeros to a width.
-/

namespace SealedLedger

namespace Decimal

/-- `digits` with an allowance of steps. -/
def digitsWithin : Nat → Nat → List Nat
  | 0, n => [n % 10]
  | fuel + 1, n => if n < 10 then [n] else digitsWithin fuel (n / 10) ++ [n % 10]

/-- The decimal digits of a number, most significant first. A number has at most as many decimal
digits as binary ones. -/
def digits (n : Nat) : List Nat :=
  digitsWithin n.log2 n

/-- The number of decimal digits of a number. -/
def width (n : Nat) : Nat :=
  (digits n).length

/-- The number that digits spell. -/
def ofDigits (ds : List Nat) : Nat :=
  ds.foldl (fun n d => n * 10 + d) 0

/-- The character of a digit. -/
def digitChar (d : Nat) : Char :=
  Char.ofNat (d + '0'.toNat)

/-- A natural number in decimal. -/
def natText (n : Nat) : List Char :=
  (digits n).map digitChar

/-- A natural number as it stands in a message. -/
def shown (n : Nat) : String :=
  String.ofList (natText n)

/-- An integer in decimal, with a sign only below zero. -/
def intText (i : Int) : List Char :=
  if i < 0 then '-' :: natText i.natAbs else natText i.natAbs

/-- A natural number in decimal, filled up with zeros to a width. -/
def padded (w n : Nat) : List Char :=
  List.replicate (w - width n) '0' ++ natText n

/-- The value of a digit character. -/
def digit? (c : Char) : Option Nat :=
  if '0' ≤ c ∧ c ≤ '9' then some (c.toNat - '0'.toNat) else none

/-- The character is a digit. -/
def isDigit (c : Char) : Bool :=
  '0' ≤ c && c ≤ '9'

end Decimal

end SealedLedger
