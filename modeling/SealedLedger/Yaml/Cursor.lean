import SealedLedger.Text.Utf8
import SealedLedger.Yaml.Error

/-!
# Reading positions in a YAML text

The layout of a YAML text carries meaning, so its characters are read with the line and the column
they stand in. This module holds the classes of characters, the position with its moves, and the
gaps of white space and line breaks inside a scalar, which are folded.

## Main definitions

* `Yaml.allowed` — the characters that a text may have.
* `Yaml.Cursor` — a position in a text.
* `Yaml.Gap` — white space inside a scalar, and what it is folded into.
-/

namespace SealedLedger

namespace Yaml

/-! ### Classes of characters -/

/-- A text may have this character: it is a tab, a line break or printable. -/
def allowed (c : Char) : Bool :=
  let n := c.toNat
  n == 0x09 || n == 0x0A || n == 0x0D || (0x20 ≤ n && n ≤ 0x7E) || n == 0x85 ||
    (0xA0 ≤ n && n ≤ 0xD7FF) || (0xE000 ≤ n && n ≤ 0xFFFD) || 0x10000 ≤ n

/-- A line break. -/
def isBreak (c : Char) : Bool :=
  c == '\n' || c == '\r' || c == '\x85' || c == '\u2028' || c == '\u2029'

/-- A space or a tab. -/
def isBlank (c : Char) : Bool :=
  c == ' ' || c == '\t'

/-- White space, or the end of the text. -/
def isGap : Option Char → Bool
  | none => true
  | some c => isBlank c || isBreak c

/-- A line break, or the end of the text. -/
def endsLine : Option Char → Bool
  | none => true
  | some c => isBreak c

/-- A letter, a digit, a hyphen or an underscore. -/
def isWord (c : Char) : Bool :=
  ('0' ≤ c && c ≤ '9') || ('A' ≤ c && c ≤ 'Z') || ('a' ≤ c && c ≤ 'z') || c == '_' || c == '-'

/-! ### Positions -/

/-- A position in a text. -/
structure Cursor where
  /-- The characters from there on. -/
  rest : List Char
  /-- The number of bytes before it. -/
  index : Nat
  /-- The number of lines before its own. -/
  line : Nat
  /-- The number of characters before it in its line. -/
  column : Nat

namespace Cursor

/-- The start of a text. -/
def start (text : List Char) : Cursor :=
  ⟨text, 0, 0, 0⟩

/-- The place of a position. -/
def mark (c : Cursor) : Mark :=
  ⟨c.line, c.column⟩

/-- A problem at a position, in something that starts at a place. -/
def fault (c : Cursor) (p : Problem) (a : Activity) (start : Mark) : Fault :=
  ⟨p, c.mark, some ⟨a, start⟩⟩

/-- The character at a position. -/
def head? (c : Cursor) : Option Char :=
  c.rest.head?

/-- The character some places further on. -/
def ahead? (c : Cursor) (n : Nat) : Option Char :=
  c.rest[n]?

/-- The character at a position is this one. -/
def stands (c : Cursor) (ch : Char) : Bool :=
  c.head? == some ch

/-- The position some characters further on in the same line. -/
def advance (c : Cursor) (n : Nat) : Cursor :=
  ⟨c.rest.drop n, c.index + (Utf8.encode (c.rest.take n)).length, c.line, c.column + n⟩

/-- The characters in front that pass a test. -/
def run (c : Cursor) (test : Char → Bool) : List Char :=
  c.rest.takeWhile test

/-- The position after the characters in front that pass a test, which no line break passes. -/
def skip (c : Cursor) (test : Char → Bool) : Cursor :=
  c.advance (c.run test).length

/-- The position after a line break, and the break as it is kept: a carriage return and a next-line
character are kept as line feeds. -/
def nextLine (c : Cursor) : List Char × Cursor :=
  match c.rest with
  | '\r' :: '\n' :: rest => (['\n'], ⟨rest, c.index + 2, c.line + 1, 0⟩)
  | ch :: rest =>
    if isBreak ch then
      ([if ch == '\u2028' || ch == '\u2029' then ch else '\n'],
        ⟨rest, c.index + (Utf8.encodeChar ch).length, c.line + 1, 0⟩)
    else ([], c)
  | [] => ([], c)

/-- The position at the end of a text, which counts as the start of a line. -/
def afterLastLine (c : Cursor) : Cursor :=
  if c.column = 0 then c else { c with line := c.line + 1, column := 0 }

/-- The position after the blanks and the comment at the end of a line. -/
def skipComment (c : Cursor) : Cursor :=
  let c := c.skip isBlank
  if c.stands '#' then c.skip fun ch => !isBreak ch else c

/-- A document indicator, three times this character, stands at the start of the line. -/
def indicates (c : Cursor) (ch : Char) : Bool :=
  c.column == 0 && c.rest.take 3 == [ch, ch, ch] && isGap (c.ahead? 3)

/-- A document starts or ends at this line. -/
def atDocumentEdge (c : Cursor) : Bool :=
  c.indicates '-' || c.indicates '.'

end Cursor

/-! ### Gaps in scalars -/

/-- White space inside a scalar: the blanks before a line break, and the first and the further line
breaks, if there is one. -/
structure Gap where
  blanks : List Char
  broken : Bool
  first : List Char
  further : List Char

namespace Gap

/-- No white space. -/
def none : Gap :=
  ⟨[], false, [], []⟩

/-- No white space after a line break that was escaped. -/
def escaped : Gap :=
  ⟨[], true, [], []⟩

/-- What a gap becomes: a single line break a space, several line breaks all but the first, and
blanks in a line themselves. -/
def fold (g : Gap) : List Char :=
  if g.broken then
    if g.first = ['\n'] then (if g.further = [] then [' '] else g.further)
    else g.first ++ g.further
  else g.blanks

/-- `scan` with an allowance of characters. -/
def scanWithin (start : Mark) (tabsFrom : Nat) : Nat → Gap → Cursor → Except Fault (Gap × Cursor)
  | 0, g, c => .ok (g, c)
  | fuel + 1, g, c =>
    match c.head? with
    | Option.none => .ok (g, c)
    | some ch =>
      if isBlank ch then
        if g.broken then
          if ch = '\t' ∧ c.column < tabsFrom then
            .error (c.fault .tabBeforeIndentation .plainScalar start)
          else scanWithin start tabsFrom fuel g (c.advance 1)
        else scanWithin start tabsFrom fuel { g with blanks := g.blanks ++ [ch] } (c.advance 1)
      else if isBreak ch then
        let (br, next) := c.nextLine
        if g.broken then
          scanWithin start tabsFrom fuel { g with further := g.further ++ br } next
        else scanWithin start tabsFrom fuel ⟨[], true, br, g.further⟩ next
      else .ok (g, c)

/-- The gap continued by the white space at a position, in a scalar that starts at a place. After a
line break a tab must not stand before the given column, which is zero in a scalar between
quotes. -/
def scan (start : Mark) (tabsFrom : Nat) (g : Gap) (c : Cursor) : Except Fault (Gap × Cursor) :=
  scanWithin start tabsFrom c.rest.length g c

end Gap

end Yaml

end SealedLedger
