import SealedLedger.Decimal.Layout
import SealedLedger.Text.Quoted
import SealedLedger.Value

/-!
# Canonical text

The one text that stands for a value when it is hashed. It has no white space, orders the members
of each object by the bytes of their keys, escapes in strings only what must be escaped, and writes
each number by the rules of ECMAScript. A value has no canonical text when a key repeats in one of
its objects or when one of its numbers is not finite.

## Main definitions

* `Canonical.string` — the text of a string.
* `Canonical.number` — the text of a number.
* `Canonical.text` — the text of a value.
* `canonicalize` — its bytes.
-/

namespace SealedLedger

/-- Why a value has no canonical text. -/
inductive CanonicalError where
  | repeatedKey (key : String)
  | notFinite (x : Binary64)
  deriving DecidableEq

/-- The wording of an error. -/
def CanonicalError.message : CanonicalError → String
  | .repeatedKey key => "malformed value: duplicate key " ++ Quoted.string key
  | .notFinite x =>
    "number " ++ x.nonFiniteName ++ " has no canonical form (NaN and infinities are rejected)"

namespace Canonical

/-! ### Strings -/

/-- A character inside a string. -/
def escape (c : Char) : List Char :=
  if c = '"' then ['\\', '"']
  else if c = '\\' then ['\\', '\\']
  else if c = '\x08' then ['\\', 'b']
  else if c = '\x0c' then ['\\', 'f']
  else if c = '\n' then ['\\', 'n']
  else if c = '\r' then ['\\', 'r']
  else if c = '\t' then ['\\', 't']
  else if c.toNat < 0x20 then
    ['\\', 'u', '0', '0', Hex.digit (c.toNat / 16), Hex.digit (c.toNat % 16)]
  else [c]

/-- The characters of a string, escaped. -/
def body (cs : List Char) : List Char :=
  cs.flatMap escape

@[simp] theorem body_nil : body [] = [] := rfl

@[simp] theorem body_cons (c : Char) (cs : List Char) : body (c :: cs) = escape c ++ body cs := rfl

/-- A string between quotes. -/
def string (s : String) : List Char :=
  '"' :: (body s.toList ++ ['"'])

/-! ### Numbers -/

/-- A number in the layout of a format, refused unless it is finite. -/
def numberIn (l : Layout) : Number → Except CanonicalError (List Char)
  | .int i => .ok (Decimal.intText i.toInt)
  | .uint u => .ok (Decimal.natText u.toNat)
  | .float x => if x.isFinite then .ok (l.write x) else .error (.notFinite x)

/-- The canonical text of a number. -/
def number (n : Number) : Except CanonicalError (List Char) :=
  numberIn .canonical n

/-! ### Objects -/

/-- The texts of items with commas between them. -/
def commaSeparated : List (List Char) → List Char
  | [] => []
  | [t] => t
  | t :: ts => t ++ ',' :: commaSeparated ts

/-- The first key that stands twice in a row. -/
def repeated? {α : Type} : List (String × α) → Option String
  | a :: b :: rest => if a.1 = b.1 then some a.1 else repeated? (b :: rest)
  | _ => none

/-- A member as it is written. -/
def member (key : String) (text : List Char) : List Char :=
  string key ++ ':' :: text

/-- The first refusal among results, or all of them. -/
def collect {ε α : Type} : List (String × Except ε α) → Except ε (List (String × α))
  | [] => .ok []
  | (_, .error e) :: _ => .error e
  | (k, .ok a) :: rest =>
    match collect rest with
    | .ok rest => .ok ((k, a) :: rest)
    | .error e => .error e

/-- The text of an object from its members' keys and texts. A repeated key is refused before any
member's own refusal. -/
def object (members : List (String × Except CanonicalError (List Char))) :
    Except CanonicalError (List Char) :=
  let sorted := members.mergeSort Value.keyLE
  match repeated? sorted with
  | some key => .error (.repeatedKey key)
  | none =>
    match collect sorted with
    | .ok texts => .ok ('\x7b' :: commaSeparated (texts.map fun m => member m.1 m.2) ++ ['\x7d'])
    | .error e => .error e

/-! ### Values -/

mutual

/-- The canonical text of a value. -/
def text : Value → Except CanonicalError (List Char)
  | .null => .ok ['n', 'u', 'l', 'l']
  | .bool true => .ok ['t', 'r', 'u', 'e']
  | .bool false => .ok ['f', 'a', 'l', 's', 'e']
  | .number n => number n
  | .string s => .ok (string s)
  | .array items =>
    match itemTexts items with
    | .ok texts => .ok ('[' :: commaSeparated texts ++ [']'])
    | .error e => .error e
  | .object members => object (memberTexts members)
termination_by structural v => v

/-- The texts of items, or the first refusal. -/
def itemTexts : List Value → Except CanonicalError (List (List Char))
  | [] => .ok []
  | v :: vs =>
    match text v with
    | .error e => .error e
    | .ok t =>
      match itemTexts vs with
      | .ok ts => .ok (t :: ts)
      | .error e => .error e
termination_by structural vs => vs

/-- Each key with its value's text or refusal. -/
def memberTexts : List (String × Value) → List (String × Except CanonicalError (List Char))
  | [] => []
  | m :: ms => memberText m :: memberTexts ms
termination_by structural ms => ms

/-- A key with its value's text or refusal. -/
def memberText : String × Value → String × Except CanonicalError (List Char)
  | (k, v) => (k, text v)
termination_by structural m => m

end

end Canonical

/-- The canonical bytes of a value: the only bytes that are ever hashed. -/
def canonicalize (v : Value) : Except CanonicalError (List UInt8) :=
  (Canonical.text v).map Utf8.encode

end SealedLedger
