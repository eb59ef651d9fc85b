import SealedLedger.Binary64
import SealedLedger.Decimal.Digits

/-!
# Reading a decimal

The double nearest to a decimal, a tie to the even magnitude: the decimal is a quotient of natural
numbers, and the quotient is rounded once.

## Main definitions

* `Decimal.nearest` — the double nearest to `n * 10 ^ e`.
-/

namespace SealedLedger

namespace Decimal

/-- The double of given sign nearest to `n * 10 ^ e`. Beyond the exponents at which every positive
number rounds to infinity or to zero, no power of ten is formed. -/
def nearest (negative : Bool) (n : Nat) (e : Int) : Binary64 :=
  if n = 0 then .zero negative
  else if 400 < e then .infinity negative
  else if e + n.log2 < -400 then .zero negative
  else if 0 ≤ e then .ofRatio negative (n * Nat.pow 10 e.toNat) 1
  else .ofRatio negative n (Nat.pow 10 (-e).toNat)

end Decimal

end SealedLedger
