/-!
# Hexadecimal text

Bytes as pairs of lower-case digits, and the value of a digit.

## Main definitions

* `Hex.digit` and `Hex.encode` — writing, always in lower case.
* `Hex.lowerDigit?` — the value of a lower-case digit, as a digest admits it.
* `Hex.digit?` and `Hex.charDigit?` — the value of a digit in either case, read from a byte or from
  a character.
-/

namespace SealedLedger

namespace Hex

/-! ### Writing -/

/-- The lower-case digit of a value below sixteen. -/
def digit (n : Nat) : Char :=
  if n < 10 then Char.ofNat (n + '0'.toNat) else Char.ofNat (n - 10 + 'a'.toNat)

/-- The two digits of a byte. -/
def encodeByte (b : UInt8) : List Char :=
  [digit (b.toNat / 16), digit (b.toNat % 16)]

/-- The digits of bytes, two a byte. -/
def encode (bytes : List UInt8) : List Char :=
  bytes.flatMap encodeByte

@[simp] theorem encode_nil : encode [] = [] := rfl

@[simp] theorem encode_cons (b : UInt8) (bytes : List UInt8) :
    encode (b :: bytes) = encodeByte b ++ encode bytes := rfl

theorem length_encode (bytes : List UInt8) : (encode bytes).length = 2 * bytes.length := by
  induction bytes with
  | nil => rfl
  | cons b bytes ih =>
    rw [encode_cons, List.length_append, ih, List.length_cons]
    simp [encodeByte]
    omega

/-- The digits of a number, most significant first, without leading zeros. -/
def ofNat (n : Nat) : List Char :=
  Nat.toDigits 16 n

/-! ### Reading -/

/-- The value of a byte read as a lower-case digit. -/
def lowerDigit? (b : UInt8) : Option UInt8 :=
  if 0x30 ≤ b ∧ b ≤ 0x39 then some (b - 0x30)
  else if 0x61 ≤ b ∧ b ≤ 0x66 then some (b - 0x61 + 10)
  else none

/-- The value of a byte read as a digit in either case. -/
def digit? (b : UInt8) : Option UInt8 :=
  if 0x41 ≤ b ∧ b ≤ 0x46 then some (b - 0x41 + 10) else lowerDigit? b

/-- The value of a character read as a digit in either case. -/
def charDigit? (c : Char) : Option Nat :=
  if '0' ≤ c ∧ c ≤ '9' then some (c.toNat - '0'.toNat)
  else if 'a' ≤ c ∧ c ≤ 'f' then some (c.toNat - 'a'.toNat + 10)
  else if 'A' ≤ c ∧ c ≤ 'F' then some (c.toNat - 'A'.toNat + 10)
  else none

end Hex

end SealedLedger
