import SealedLedger.Text.Hex
import SealedLedger.Yaml.Cursor

/-!
# Quoted scalars

A scalar in single quotes has one escape, a quote written twice. A scalar in double quotes has
escapes with a backslash, an escaped line break among them. In both, gaps are folded.

## Main definitions

* `Yaml.quotedScalar` — reading a quoted scalar.
-/

namespace SealedLedger

namespace Yaml

/-- The kind of a quote. -/
inductive Quote where
  | single
  | double
  deriving DecidableEq

/-- The character of a quote. -/
def Quote.mark : Quote → Char
  | .single => '\''
  | .double => '"'

/-- The character that a one-letter escape stands for. -/
def escapeOf : Char → Option Char
  | '0' => some '\x00'
  | 'a' => some '\x07'
  | 'b' => some '\x08'
  | 't' => some '\t'
  | '\t' => some '\t'
  | 'n' => some '\n'
  | 'v' => some '\x0b'
  | 'f' => some '\x0c'
  | 'r' => some '\r'
  | 'e' => some '\x1b'
  | ' ' => some ' '
  | '"' => some '"'
  | '/' => some '/'
  | '\\' => some '\\'
  | 'N' => some '\x85'
  | '_' => some '\xa0'
  | 'L' => some '\u2028'
  | 'P' => some '\u2029'
  | _ => none

/-- The number of digits of an escape by code point. -/
def codeLength : Char → Option Nat
  | 'x' => some 2
  | 'u' => some 4
  | 'U' => some 8
  | _ => none

/-- The character of a code point, none for a surrogate or a number past the last one. -/
def charOf? (n : Nat) : Option Char :=
  if n < 0xD800 ∨ (0xDFFF < n ∧ n ≤ 0x10FFFF) then some (Char.ofNat n) else none

/-- The character of exactly so many hexadecimal digits. -/
def charOfDigits (width : Nat) (cs : List Char) : Except Problem Char :=
  if cs.length < width then .error .noHexDigits
  else
    match (cs.take width).mapM Hex.charDigit? with
    | none => .error .noHexDigits
    | some ds =>
      match charOf? (ds.foldl (fun n d => n * 16 + d) 0) with
      | none => .error .notACharacter
      | some c => .ok c

/-- The character of an escape that starts with a backslash, and how many characters the escape has.
What is wrong with it is wrong at the backslash, or at the digits of a code point. -/
def quotedEscape (start : Mark) (c : Cursor) : Except Fault (Char × Nat) :=
  match c.ahead? 1 with
  | none => .error (c.fault .unknownEscape .quotedEscape start)
  | some e =>
    match escapeOf e, codeLength e with
    | some ch, _ => .ok (ch, 2)
    | none, none => .error (c.fault .unknownEscape .quotedEscape start)
    | none, some width =>
      let digits := c.advance 2
      match charOfDigits width digits.rest with
      | .error p => .error (digits.fault p .quotedEscape start)
      | .ok ch => .ok (ch, width + 2)

/-- Characters up to the next white space or the closing quote, with an allowance of characters.
The flag says whether they end in an escaped line break. -/
def quotedRun (start : Mark) (q : Quote) : Nat → Cursor → Except Fault (List Char × Bool × Cursor)
  | 0, c => .ok ([], false, c)
  | fuel + 1, c =>
    match c.rest with
    | [] => .ok ([], false, c)
    | ch :: more =>
      if isBlank ch || isBreak ch then .ok ([], false, c)
      else if q = .single ∧ ch = '\'' ∧ more.head? = some '\'' then do
        let (text, escaped, c) ← quotedRun start q fuel (c.advance 2)
        return ('\'' :: text, escaped, c)
      else if ch = q.mark then .ok ([], false, c)
      else if q = .double ∧ ch = '\\' then
        if more.head?.any isBreak then .ok ([], true, (c.advance 1).nextLine.2)
        else do
          let (e, n) ← quotedEscape start c
          let (text, escaped, c) ← quotedRun start q fuel (c.advance n)
          return (e :: text, escaped, c)
      else do
        let (text, escaped, c) ← quotedRun start q fuel (c.advance 1)
        return (ch :: text, escaped, c)

/-- `quotedScalar` continued after a text, with an allowance of lines. -/
def quotedWithin (start : Mark) (q : Quote) :
    Nat → List Char → Cursor → Except Fault (List Char × Cursor)
  | 0, _, c => .error (c.fault .endOfText .quotedScalar start)
  | fuel + 1, text, c =>
    if c.atDocumentEdge then .error (c.fault .documentEdge .quotedScalar start)
    else if c.head?.isNone then .error (c.fault .endOfText .quotedScalar start)
    else do
      let (more, escaped, c) ← quotedRun start q c.rest.length c
      let text := text ++ more
      if c.stands q.mark then return (text, c.advance 1)
      else
        let (g, c) ← Gap.scan start 0 (if escaped then Gap.escaped else Gap.none) c
        quotedWithin start q fuel (text ++ g.fold) c

/-- A quoted scalar from its opening quote on. -/
def quotedScalar (q : Quote) (c : Cursor) : Except Fault (List Char × Cursor) :=
  quotedWithin c.mark q (c.rest.length + 1) [] (c.advance 1)

end Yaml

end SealedLedger
