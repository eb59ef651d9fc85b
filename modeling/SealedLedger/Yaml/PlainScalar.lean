import SealedLedger.Yaml.Cursor

/-!
# Plain scalars

A scalar without quotes runs on over blanks and line breaks until something that cannot belong to
it: a colon before a blank, a comment after a blank, a line that is not indented far enough, or,
inside brackets, a comma or a bracket.

## Main definitions

* `Yaml.plainScalar` — reading a plain scalar.
-/

namespace SealedLedger

namespace Yaml

/-- A bracket or a comma, which ends a plain scalar inside brackets. -/
def endsFlow (c : Char) : Bool :=
  c == ',' || c == '[' || c == ']' || c == '\x7b' || c == '\x7d'

/-- A character that must not follow a colon in a plain scalar inside brackets. -/
def clashesWithColon : Option Char → Bool
  | none => false
  | some c => endsFlow c || c == '?'

/-- The characters in front, without white space between them, that belong to a plain scalar: how
many they are, and whether a colon follows that must not stand there. -/
def plainRun (flow : Bool) : List Char → Nat × Bool
  | [] => (0, false)
  | c :: cs =>
    if isBlank c || isBreak c then (0, false)
    else if flow && c == ':' && clashesWithColon cs.head? then (0, true)
    else if c == ':' && isGap cs.head? then (0, false)
    else if flow && endsFlow c then (0, false)
    else
      let (n, clash) := plainRun flow cs
      (n + 1, clash)

/-- `plainScalar` continued after a text and a gap, with an allowance of lines. -/
def plainWithin (start : Mark) (flow : Bool) (indent : Nat) :
    Nat → List Char → Gap → Cursor → Except Fault (List Char × Bool × Cursor)
  | 0, text, g, c => .ok (text, g.broken, c)
  | fuel + 1, text, g, c =>
    if c.atDocumentEdge || c.stands '#' then .ok (text, g.broken, c)
    else
      let (n, clash) := plainRun flow c.rest
      let g' := if n = 0 then g else Gap.none
      let text := if n = 0 then text else text ++ g.fold ++ c.rest.take n
      let c := c.advance n
      if clash then .error (c.fault .colonInBrackets .plainScalar start)
      else if c.head?.isSome && isGap c.head? then
        match Gap.scan start indent g' c with
        | .error f => .error f
        | .ok (g', c) =>
          if !flow && c.column < indent then .ok (text, g'.broken, c)
          else plainWithin start flow indent fuel text g' c
      else .ok (text, g'.broken, c)

/-- A plain scalar, with whether it ends after a line break. Its further lines must reach the given
column, unless it stands inside brackets. -/
def plainScalar (flow : Bool) (indent : Nat) (c : Cursor) :
    Except Fault (List Char × Bool × Cursor) :=
  plainWithin c.mark flow indent (c.rest.length + 1) [] Gap.none c

end Yaml

end SealedLedger
