import SealedLedger.Decimal.Digits
import SealedLedger.Json.Error
import SealedLedger.Text.Hex

/-!
# Tokens of a JSON text

Reading white space, words, strings and numbers off the front of a list of bytes.

A string is read in two steps: its bytes up to the closing quote with every escape replaced by the
bytes of its character, and then the text that these bytes spell.

A number is read in two steps as well: a `Numeral`, which is its sign and its digits, and then the
number that stands for it. An integer that fits a word is that word. Any other numeral is a double:
its digits are gathered into a word for as long as they fit, and the word is then multiplied or
divided by a power of ten. Each of these steps rounds, so the double is near the numeral and not
always the nearest one.

## Main definitions

* `Json.Reader` — a function from unread bytes to a result and fewer unread bytes.
* `Json.skipSpace`, `Json.word`, `Json.string`, `Json.numeral`.
* `Json.Numeral.number?` — the number of a numeral, none when it is out of range.
-/

namespace SealedLedger

namespace Json

/-- A reader takes bytes off the front of those not yet read, or stops. -/
abbrev Reader (α : Type) : Type := StateT (List UInt8) (Except Stop) α

/-- The byte of an ASCII character. -/
def ascii (c : Char) : UInt8 := UInt8.ofNat c.toNat

/-! ### White space and words -/

/-- The byte is white space. -/
def isSpace (b : UInt8) : Bool :=
  b == 0x20 || b == 0x0A || b == 0x09 || b == 0x0D

/-- The bytes from the first one that is not white space. -/
def skipSpace (input : List UInt8) : List UInt8 :=
  input.dropWhile isSpace

/-- Exactly these letters. -/
def word : List Char → Reader Unit
  | [], input => .ok ((), input)
  | _ :: _, [] => .error (.here .endInValue [])
  | c :: cs, b :: rest =>
    if b = ascii c then word cs rest else .error (.here .expectedIdent rest)

/-! ### Strings -/

/-- The code unit of four digits. -/
def codeUnit? (a b c d : UInt8) : Option Nat := do
  let a ← Hex.digit? a
  let b ← Hex.digit? b
  let c ← Hex.digit? c
  let d ← Hex.digit? d
  return ((a.toNat * 16 + b.toNat) * 16 + c.toNat) * 16 + d.toNat

/-- The code unit after a `\u`. -/
def codeUnit : Reader Nat
  | a :: b :: c :: d :: rest =>
    match codeUnit? a b c d with
    | some n => .ok (n, rest)
    | none => .error (.here .invalidEscape rest)
  | _ => .error (.here .endInString [])

/-- The code unit is the first half of a pair. -/
def isLeading (n : Nat) : Bool := 0xD800 ≤ n && n ≤ 0xDBFF

/-- The code unit is the second half of a pair. -/
def isTrailing (n : Nat) : Bool := 0xDC00 ≤ n && n ≤ 0xDFFF

/-- The second half of a pair, after its first half. -/
def trailingUnit : Reader Nat
  | [] => .error (.here .endInString [])
  | b :: rest =>
    if b = ascii '\\' then
      match rest with
      | [] => .error (.here .endInString [])
      | u :: rest =>
        if u = ascii 'u' then
          match codeUnit rest with
          | .error stop => .error stop
          | .ok (n, rest) =>
            if isTrailing n then .ok (n, rest) else .error (.here .loneSurrogate rest)
        else .error (.here .unpairedSurrogate rest)
    else .error (.here .unpairedSurrogate rest)

/-- The character after a `\u`. -/
def codePoint : Reader Char := fun input =>
  match codeUnit input with
  | .error stop => .error stop
  | .ok (n, rest) =>
    if isTrailing n then .error (.here .loneSurrogate rest)
    else if isLeading n then
      match trailingUnit rest with
      | .error stop => .error stop
      | .ok (m, rest) =>
        .ok (Char.ofNat (0x10000 + (n - 0xD800) * 0x400 + (m - 0xDC00)), rest)
    else .ok (Char.ofNat n, rest)

/-- The character that a one-letter escape stands for. -/
def escaped? (b : UInt8) : Option Char :=
  if b = ascii '"' then some '"'
  else if b = ascii '\\' then some '\\'
  else if b = ascii '/' then some '/'
  else if b = ascii 'b' then some '\x08'
  else if b = ascii 'f' then some '\x0c'
  else if b = ascii 'n' then some '\n'
  else if b = ascii 'r' then some '\r'
  else if b = ascii 't' then some '\t'
  else none

/-- The character of an escape, after its backslash. -/
def escape : Reader Char
  | [] => .error (.here .endInString [])
  | b :: rest =>
    match escaped? b with
    | some c => .ok (c, rest)
    | none => if b = ascii 'u' then codePoint rest else .error (.here .invalidEscape rest)

/-- `stringBytes` with an allowance of bytes and characters. -/
def stringBytesWithin : Nat → Reader (List UInt8)
  | 0, _ => .error (.here .endInString [])
  | _ + 1, [] => .error (.here .endInString [])
  | fuel + 1, b :: rest =>
    if b = ascii '"' then .ok ([], rest)
    else if b = ascii '\\' then
      match escape rest with
      | .error stop => .error stop
      | .ok (c, rest) =>
        match stringBytesWithin fuel rest with
        | .error stop => .error stop
        | .ok (more, rest) => .ok (Utf8.encodeChar c ++ more, rest)
    else if b < 0x20 then .error (.here .controlCharacter rest)
    else
      match stringBytesWithin fuel rest with
      | .error stop => .error stop
      | .ok (more, rest) => .ok (b :: more, rest)

/-- The bytes of a string after its opening quote, with escapes replaced. -/
def stringBytes : Reader (List UInt8) := fun input =>
  stringBytesWithin (input.length + 1) input

/-- A string after its opening quote. Where its bytes spell no text the fault is placed before the
end of the string, by as many bytes as there are from the first one that does not fit. -/
def string : Reader String := fun input =>
  match stringBytes input with
  | .error stop => .error stop
  | .ok (bytes, rest) =>
    match Utf8.decode? bytes with
    | some cs => .ok (String.ofList cs, rest)
    | none =>
      let unfit := bytes.length - Utf8.validLength bytes
      .error (.here .invalidCodePoint (input.drop (input.length - rest.length - unfit)))

/-! ### Numerals -/

/-- A number as it is written. A fraction without digits and an exponent are absent where they are
not written. -/
structure Numeral where
  negative : Bool
  whole : List Nat
  fraction : List Nat
  exponent : Option (Bool × List Nat)
  deriving DecidableEq

/-- The value of a digit. -/
def digit? (b : UInt8) : Option Nat :=
  if ascii '0' ≤ b ∧ b ≤ ascii '9' then some (b.toNat - '0'.toNat) else none

/-- All digits off the front. -/
def digits : List UInt8 → List Nat × List UInt8
  | [] => ([], [])
  | b :: rest =>
    match digit? b with
    | none => ([], b :: rest)
    | some d => let (ds, rest) := digits rest; (d :: ds, rest)

/-- The digits before the point, with no zero in front of another digit. -/
def wholeDigits (atEnd : Fault) : Reader (List Nat)
  | [] => .error (.here atEnd [])
  | b :: rest =>
    match digit? b with
    | none => .error (.here .invalidNumber rest)
    | some 0 =>
      match digits rest with
      | ([], _) => .ok ([0], rest)
      | (_ :: _, _) => .error (.next .invalidNumber rest)
    | some d => let (ds, rest) := digits rest; .ok (d :: ds, rest)

/-- The digits after the point, if there is a point. -/
def fractionDigits (atEnd : Fault) : Reader (List Nat)
  | [] => .ok ([], [])
  | b :: rest =>
    if b = ascii '.' then
      match digits rest with
      | ([], []) => .error (.next atEnd [])
      | ([], b :: rest) => .error (.next .invalidNumber (b :: rest))
      | (ds, rest) => .ok (ds, rest)
    else .ok ([], b :: rest)

/-- The sign of an exponent: whether it is negative. -/
def exponentSign : List UInt8 → Bool × List UInt8
  | [] => (false, [])
  | b :: rest =>
    if b = ascii '+' then (false, rest) else if b = ascii '-' then (true, rest)
    else (false, b :: rest)

/-- The exponent, if there is one. -/
def exponentPart (atEnd : Fault) : Reader (Option (Bool × List Nat))
  | [] => .ok (none, [])
  | b :: rest =>
    if b = ascii 'e' ∨ b = ascii 'E' then
      let (negative, rest) := exponentSign rest
      match digits rest with
      | ([], []) => .error (.here atEnd [])
      | ([], _ :: rest) => .error (.here .invalidNumber rest)
      | (ds, rest) => .ok (some (negative, ds), rest)
    else .ok (none, b :: rest)

/-- The sign of a number: whether it is negative. -/
def numberSign : List UInt8 → Bool × List UInt8
  | [] => (false, [])
  | b :: rest => if b = ascii '-' then (true, rest) else (false, b :: rest)

/-- A number as it is written. The fault of a number cut off by the end of the text is given. -/
def numeral (atEnd : Fault) : Reader Numeral := fun input =>
  let (negative, rest) := numberSign input
  match wholeDigits atEnd rest with
  | .error stop => .error stop
  | .ok (whole, rest) =>
    match fractionDigits atEnd rest with
    | .error stop => .error stop
    | .ok (fraction, rest) =>
      match exponentPart atEnd rest with
      | .error stop => .error stop
      | .ok (exponent, rest) => .ok (⟨negative, whole, fraction, exponent⟩, rest)

namespace Numeral

/-- Digits taken while the number they continue stays a word: that number, and the digits left. -/
def gather (n : Nat) : List Nat → Nat × List Nat
  | [] => (n, [])
  | d :: ds => if n * 10 + d < UInt64.size then gather (n * 10 + d) ds else (n, d :: ds)

/-- The word gathered from the digits, and the power of ten it is to be scaled by, where no
exponent is written. -/
def scaled (t : Numeral) : Nat × Int :=
  let (n, wholeLeft) := gather 0 t.whole
  let (n, fractionLeft) := gather n t.fraction
  (n, wholeLeft.length - (t.fraction.length - fractionLeft.length : Nat))

/-- The written exponent, zero where there is none. -/
def writtenExponent (t : Numeral) : Int :=
  match t.exponent with
  | none => 0
  | some (true, ds) => -(Decimal.ofDigits ds : Int)
  | some (false, ds) => Decimal.ofDigits ds

/-- A double divided by a power of ten, in steps of at most `10 ^ 308`. -/
def divideDown : Nat → Binary64 → Nat → Binary64
  | 0, x, _ => x
  | fuel + 1, x, k =>
    if k ≤ 308 then x.div (.ofNat (Nat.pow 10 k))
    else if x.isZero then x
    else divideDown fuel (x.div (.ofNat (Nat.pow 10 308))) (k - 308)

/-- A word scaled by a power of ten, none when it is out of range. -/
def scale? (n : Nat) (e : Int) : Option Binary64 :=
  if e < 0 then some (divideDown (e.natAbs / 308 + 1) (.ofNat n) e.natAbs)
  else if e ≤ 308 then
    let x := (Binary64.ofNat n).mul (.ofNat (Nat.pow 10 e.toNat))
    if x.isFinite then some x else none
  else if n = 0 then some (.zero false)
  else none

/-- The double of a numeral, none when it is out of range. -/
def float? (t : Numeral) : Option Binary64 :=
  let (n, e) := t.scaled
  (scale? n (e + t.writtenExponent)).map (·.withSign t.negative)

/-- The word of an integer numeral, none for any other numeral. -/
def word? (t : Numeral) : Option Nat :=
  if t.fraction = [] ∧ t.exponent = none then
    match gather 0 t.whole with
    | (n, []) => some n
    | (_, _ :: _) => none
  else none

/-- The number of a numeral, none when it is out of range. Minus zero and negative integers below
the signed words are doubles. -/
def number? (t : Numeral) : Option Number :=
  match t.word? with
  | some n =>
    if t.negative then
      if 0 < n ∧ n ≤ 0x8000000000000000 then some (.int (Int64.ofInt (-n)))
      else some (.float ((Binary64.ofNat n).withSign true))
    else some (.ofUInt64 (UInt64.ofNat n))
  | none => t.float?.map .float

/-- The number of exponent digits after which the exponent exceeds the signed 32-bit words. -/
def exponentExcess? (n count : Nat) : List Nat → Option Nat
  | [] => none
  | d :: ds =>
    if 0x80000000 ≤ n * 10 + d then some (count + 1)
    else exponentExcess? (n * 10 + d) (count + 1) ds

/-- How many digits of the exponent are left unread when a numeral is found out of range: none,
unless the exponent alone is too large. -/
def unreadDigits (t : Numeral) : Nat :=
  match t.exponent with
  | some (false, ds) =>
    match exponentExcess? 0 0 ds with
    | some count => ds.length - count
    | none => 0
  | _ => 0

end Numeral

/-- A number. -/
def number : Reader Number := fun input =>
  match numeral .endInValue input with
  | .error stop => .error stop
  | .ok (t, rest) =>
    match t.number? with
    | some n => .ok (n, rest)
    | none =>
      .error (.here .numberOutOfRange (input.drop (input.length - rest.length - t.unreadDigits)))

end Json

end SealedLedger
