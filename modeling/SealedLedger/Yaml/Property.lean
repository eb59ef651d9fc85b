import SealedLedger.Decimal.Digits
import SealedLedger.Text.Hex
import SealedLedger.Text.Utf8
import SealedLedger.Yaml.Cursor

/-!
# Anchors, tags and directives

A node may carry an anchor, by which aliases refer to it, and a tag, which is a handle and a
suffix. A document may start with directives: its version, and what a handle stands for. A tag may
hold escaped bytes, so it is a list of bytes; a zero byte and what is read after it are left out.

## Main definitions

* `Yaml.anchorName` — the name of an anchor or an alias.
* `Yaml.tagProperty` — a tag as handle and suffix.
* `Yaml.Directive` and `Yaml.directive`.
-/

namespace SealedLedger

namespace Yaml

/-! ### Anchors -/

/-- A character that may follow an anchor. -/
def endsAnchor : Option Char → Bool
  | none => true
  | some c =>
    isGap (some c) || c == '?' || c == ':' || c == ',' || c == ']' || c == '\x7d' || c == '%' ||
      c == '@' || c == '\x60'

/-- The name of an anchor or an alias, from its first character on. -/
def anchorName (a : Activity) (c : Cursor) : Except Fault (List Char × Cursor) :=
  let start := c.mark
  let c := c.advance 1
  let name := c.run isWord
  let next := c.advance name.length
  if name = [] ∨ !endsAnchor next.head? then .error (next.fault .noName a start)
  else .ok (name, next)

/-! ### Tags -/

/-- A character of a tag; inside angle brackets a few more are allowed. -/
def isTagChar (verbatim : Bool) (c : Char) : Bool :=
  isWord c || ";/?:@&=+$.!~*'()%".toList.contains c ||
    (verbatim && (c == ',' || c == '[' || c == ']'))

/-- The number of bytes that a leading byte announces. -/
def announced? (n : Nat) : Option Nat :=
  if n < 0x80 then some 1
  else if n < 0xC0 then none
  else if n < 0xE0 then some 2
  else if n < 0xF0 then some 3
  else if n < 0xF8 then some 4
  else none

/-- A percent sign and two digits, as a number. -/
def escapedByte? : List Char → Option Nat
  | '%' :: a :: b :: _ =>
    match Hex.charDigit? a, Hex.charDigit? b with
    | some a, some b => some (a * 16 + b)
    | _, _ => none
  | _ => none

/-- The continuation bytes of an escaped character. -/
def continuation (a : Activity) (start : Mark) :
    Nat → Cursor → Except Fault (List UInt8 × Cursor)
  | 0, c => .ok ([], c)
  | n + 1, c =>
    match escapedByte? c.rest with
    | none => .error (c.fault .noEscapedByte a start)
    | some b =>
      if 0x80 ≤ b ∧ b < 0xC0 then do
        let (bytes, c) ← continuation a start n (c.advance 3)
        return (UInt8.ofNat b :: bytes, c)
      else .error (c.fault .badTrailingByte a start)

/-- The bytes of an escaped character. -/
def escapedBytes (a : Activity) (start : Mark) (c : Cursor) :
    Except Fault (List UInt8 × Cursor) :=
  match escapedByte? c.rest with
  | none => .error (c.fault .noEscapedByte a start)
  | some b =>
    match announced? b with
    | none => .error (c.fault .badLeadingByte a start)
    | some n => do
      let (bytes, c) ← continuation a start (n - 1) (c.advance 3)
      return (UInt8.ofNat b :: bytes, c)

/-- The characters of a tag as bytes, with an allowance of characters. -/
def tagBytes (a : Activity) (start : Mark) (verbatim : Bool) :
    Nat → Cursor → Except Fault (List UInt8 × Cursor)
  | 0, c => .ok ([], c)
  | fuel + 1, c =>
    match c.rest with
    | [] => .ok ([], c)
    | ch :: _ =>
      if !isTagChar verbatim ch then .ok ([], c)
      else do
        let (bytes, c) ←
          if ch = '%' then escapedBytes a start c else .ok (Utf8.encodeChar ch, c.advance 1)
        let (more, c) ← tagBytes a start verbatim fuel c
        return (bytes ++ more, c)

/-- The characters of a tag as bytes, at least one unless characters were read before. The tag ends
in front of a zero byte. -/
def tagText (a : Activity) (start : Mark) (verbatim started : Bool) (c : Cursor) :
    Except Fault (List UInt8 × Cursor) := do
  let (bytes, c) ← tagBytes a start verbatim c.rest.length c
  if bytes = [] && !started then throw (c.fault .noTagText a start)
  return (bytes.takeWhile (· != 0), c)

/-- A handle: an exclamation mark, a word, and perhaps another exclamation mark. -/
def tagHandle (a : Activity) (start : Mark) (c : Cursor) : Except Fault (List Char × Cursor) :=
  if !c.stands '!' then .error (c.fault .noExclamationMark a start)
  else
    let c := c.advance 1
    let name := c.run isWord
    let c := c.advance name.length
    if c.stands '!' then .ok ('!' :: name ++ ['!'], c.advance 1) else .ok ('!' :: name, c)

/-- A tag: the handle, empty for a tag that stands for itself, and the suffix. -/
structure Tag where
  handle : List Char
  suffix : List UInt8
  deriving DecidableEq

/-- A tag in angle brackets. -/
def verbatimTag (c : Cursor) : Except Fault (Tag × Cursor) := do
  let (suffix, next) ← tagText .tagText c.mark true false (c.advance 2)
  if !next.stands '>' then throw (next.fault .noClosingAngle .tag c.mark)
  return (⟨[], suffix⟩, next.advance 1)

/-- A tag with a handle. What looks like a handle without its second mark belongs to the suffix. -/
def shorthandTag (c : Cursor) : Except Fault (Tag × Cursor) := do
  let (handle, next) ← tagHandle .tag c.mark c
  if 2 ≤ handle.length ∧ handle.getLast? = some '!' then
    let (suffix, next) ← tagText .tagText c.mark false false next
    return (⟨handle, suffix⟩, next)
  else
    let (suffix, next) ← tagText .tagText c.mark false true next
    let suffix := Utf8.encode (handle.drop 1) ++ suffix
    return (if suffix = [] then ⟨[], Utf8.encode ['!']⟩ else ⟨['!'], suffix⟩, next)

/-- A tag. White space follows it, or inside brackets a comma. -/
def tagProperty (flow : Bool) (c : Cursor) : Except Fault (Tag × Cursor) := do
  let (t, next) ← if c.ahead? 1 = some '<' then verbatimTag c else shorthandTag c
  if isGap next.head? || (flow && next.stands ',') then return (t, next)
  else throw (next.fault .noBlankOrBreak .tag c.mark)

/-! ### Directives -/

/-- A directive of a document. -/
inductive Directive where
  | version (major minor : Nat)
  | tag (handle : List Char) (stem : List UInt8)
  deriving DecidableEq

/-- A part of a version: up to nine digits. -/
def versionPart (start : Mark) (c : Cursor) : Except Fault (Nat × Cursor) :=
  let ds := (c.run Decimal.isDigit).filterMap Decimal.digit?
  if 9 < ds.length then .error ((c.advance 9).fault .longVersionNumber .version start)
  else if ds = [] then .error (c.fault .noVersionNumber .version start)
  else .ok (Decimal.ofDigits ds, c.advance ds.length)

/-- The version that a directive gives. -/
def versionDirective (start : Mark) (c : Cursor) : Except Fault (Directive × Cursor) := do
  let (major, c) ← versionPart start (c.skip isBlank)
  if !c.stands '.' then throw (c.fault .noVersionPoint .version start)
  let (minor, c) ← versionPart start (c.advance 1)
  return (.version major minor, c)

/-- The handle that a directive declares, and what it stands for. -/
def tagDirective (start : Mark) (c : Cursor) : Except Fault (Directive × Cursor) := do
  let (handle, c) ← tagHandle .handleMark start (c.skip isBlank)
  if handle.getLast? ≠ some '!' then throw (c.fault .noExclamationMark .handleName start)
  if !c.head?.any isBlank then throw (c.fault .noBlank .handleLine start)
  let (stem, c) ← tagText .handleStem start true false (c.skip isBlank)
  if !isGap c.head? then throw (c.fault .noBlankOrBreak .handleLine start)
  return (.tag handle stem, c)

/-- A directive of a given name, from after the name on. -/
def directiveNamed (start : Mark) (name : List Char) (c : Cursor) :
    Except Fault (Directive × Cursor) :=
  if name = ['Y', 'A', 'M', 'L'] then versionDirective start c
  else if name = ['T', 'A', 'G'] then tagDirective start c
  else .error (c.fault .unknownDirective .directive start)

/-- A directive up to the end of its line, from its percent sign on. -/
def directive (c : Cursor) : Except Fault (Directive × Cursor) := do
  let start := c.mark
  let c := c.advance 1
  let name := c.run isWord
  let c := c.advance name.length
  if name = [] then throw (c.fault .noDirectiveName .directive start)
  if !isGap c.head? then throw (c.fault .directiveNameGoesOn .directive start)
  let (d, c) ← directiveNamed start name c
  let c := c.skipComment
  if !endsLine c.head? then throw (c.fault .lineGoesOn .directive start)
  return (d, c.nextLine.2)

end Yaml

end SealedLedger
