/-!
# UTF-8

Text as bytes. Everything that is hashed, stored or compared is a list of bytes, and every text is
a list of characters; this module is the passage between the two.

## Main definitions

* `Utf8.encode` — the bytes of a list of characters.
* `Utf8.decode?` — the characters of a list of bytes, refused unless every byte is accounted for.
* `Utf8.validLength` — how many bytes stand before the first malformed sequence.
-/

namespace SealedLedger

namespace Utf8

/-! ### Writing -/

/-- The one to four bytes of a character. -/
def encodeChar (c : Char) : List UInt8 :=
  String.utf8EncodeChar c

/-- The bytes of a text. -/
def encode (cs : List Char) : List UInt8 :=
  cs.flatMap encodeChar

@[simp] theorem encode_nil : encode [] = [] := rfl

@[simp] theorem encode_cons (c : Char) (cs : List Char) :
    encode (c :: cs) = encodeChar c ++ encode cs := rfl

@[simp] theorem encode_append (a b : List Char) : encode (a ++ b) = encode a ++ encode b := by
  simp [encode]

/-! ### Reading -/

/-- How many bytes a leading byte announces. -/
def width (lead : UInt8) : Nat :=
  if lead < 0x80 then 1 else if lead < 0xE0 then 2 else if lead < 0xF0 then 3 else 4

/-- The code point that bytes of one character would carry, well formed or not. -/
def codePoint : List UInt8 → Nat
  | [a] => a.toNat
  | [a, b] => a.toNat % 32 * 64 + b.toNat % 64
  | [a, b, c] => a.toNat % 16 * 4096 + b.toNat % 64 * 64 + c.toNat % 64
  | [a, b, c, d] =>
    a.toNat % 8 * 262144 + b.toNat % 64 * 4096 + c.toNat % 64 * 64 + d.toNat % 64
  | _ => 0

/-- One character off the front, with the bytes after it. A sequence is well formed exactly when
encoding the character it carries gives it back, which rules out stray continuation bytes,
overlong forms, surrogates and code points past the last one. -/
def decodeChar? : List UInt8 → Option (Char × List UInt8)
  | [] => none
  | lead :: more =>
    let shape := (lead :: more).take (width lead)
    let c := Char.ofNat (codePoint shape)
    if encodeChar c = shape then some (c, (lead :: more).drop (width lead)) else none

/-- `decode?` with an allowance of characters. -/
def decodeWithin : Nat → List UInt8 → Option (List Char)
  | _, [] => some []
  | 0, _ :: _ => none
  | n + 1, b :: bytes => do
    let (c, rest) ← decodeChar? (b :: bytes)
    return c :: (← decodeWithin n rest)

/-- The text that bytes spell, if they spell one. A text has at most one character a byte. -/
def decode? (bytes : List UInt8) : Option (List Char) :=
  decodeWithin bytes.length bytes

/-- `validLength` with an allowance of characters. -/
def validLengthWithin : Nat → List UInt8 → Nat
  | 0, _ => 0
  | n + 1, bytes =>
    match decodeChar? bytes with
    | none => 0
    | some (c, rest) => (encodeChar c).length + validLengthWithin n rest

/-- How many bytes stand before the first malformed sequence. -/
def validLength (bytes : List UInt8) : Nat :=
  validLengthWithin bytes.length bytes

end Utf8

/-- The bytes of a string. -/
def utf8 (s : String) : List UInt8 :=
  Utf8.encode s.toList

end SealedLedger
