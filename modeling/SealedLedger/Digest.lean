import SealedLedger.Canonical
import SealedLedger.Sha256

/-!
# Digests

A digest stands for the canonical bytes of a value. Its text is the tag of the hash function, a
colon, and sixty-four lower-case hexadecimal digits; there is one hash function, and a text with
any other tag is refused as foreign before its digits are looked at.

## Main definitions

* `Digest` and `Digest.ofValue?` — the digest of a value's canonical bytes.
* `Digest.sentinel` — the digest that stands for nothing hashed.
* `Digest.text` and `Digest.parse?`.
-/

namespace SealedLedger

/-- The thirty-two bytes of a hash. -/
structure Digest where
  bytes : Vector UInt8 32
  deriving DecidableEq

/-- Why a text is no digest. -/
inductive DigestError where
  | unsupported (tag : String)
  | missingTag (text : String)
  | wrongLength (bytes : Nat)
  | wrongDigit (byte : UInt8)
  deriving DecidableEq

/-- The wording of an error. A byte is shown as the character of that code. -/
def DigestError.message : DigestError → String
  | .unsupported tag => "unsupported digest algorithm: " ++ Quoted.string tag
  | .missingTag text => "malformed digest: missing algorithm tag in " ++ Quoted.string text
  | .wrongLength n =>
    "malformed digest: expected 64 hex characters, got " ++ Decimal.shown n
  | .wrongDigit b =>
    "malformed digest: invalid lowercase hex character " ++ Quoted.char (Char.ofNat b.toNat)

namespace Digest

/-! ### Making digests -/

/-- The tag of the hash function. -/
def tag : String := "sha256"

/-- Checks the tag of a digest. -/
def checkTag (t : String) : Except DigestError Unit :=
  if t = tag then .ok () else .error (.unsupported t)

/-- The digest that stands for nothing hashed. -/
def sentinel : Digest :=
  ⟨Vector.replicate 32 0⟩

/-- The digest of a value's canonical bytes. -/
def ofValue? (v : Value) : Except CanonicalError Digest :=
  (canonicalize v).map fun bytes => ⟨Sha256.hash bytes⟩

/-! ### Writing -/

/-- The digits of a digest. -/
def hex (d : Digest) : List Char :=
  Hex.encode d.bytes.toList

/-- The text of a digest. -/
def text (d : Digest) : String :=
  String.ofList (tag.toList ++ ':' :: d.hex)

/-! ### Reading -/

/-- The text before the first colon and the text after it. -/
def splitTag? : List Char → Option (List Char × List Char)
  | [] => none
  | c :: cs =>
    if c = ':' then some ([], cs)
    else (splitTag? cs).map fun (before, after) => (c :: before, after)

/-- The byte of two digits. -/
def byte? (high low : UInt8) : Except DigestError UInt8 :=
  match Hex.lowerDigit? high with
  | none => .error (.wrongDigit high)
  | some h =>
    match Hex.lowerDigit? low with
    | none => .error (.wrongDigit low)
    | some l => .ok (h * 16 + l)

/-- The bytes of digits, two digits a byte. -/
def bytes? : List UInt8 → Except DigestError (List UInt8)
  | high :: low :: rest =>
    match byte? high low with
    | .error e => .error e
    | .ok b =>
      match bytes? rest with
      | .error e => .error e
      | .ok bs => .ok (b :: bs)
  | _ => .ok []

/-- The digest of its digits, given as bytes. -/
def ofHex? (digits : List UInt8) : Except DigestError Digest :=
  if digits.length = 64 then
    match bytes? digits with
    | .error e => .error e
    | .ok bs =>
      if h : bs.toArray.size = 32 then .ok ⟨⟨bs.toArray, h⟩⟩
      else .error (.wrongLength digits.length)
  else .error (.wrongLength digits.length)

/-- The digest that a text spells. -/
def parse? (s : String) : Except DigestError Digest :=
  match splitTag? s.toList with
  | none => .error (.missingTag s)
  | some (t, digits) =>
    match checkTag (String.ofList t) with
    | .error e => .error e
    | .ok () => ofHex? (Utf8.encode digits)

end Digest

end SealedLedger
