import SealedLedger.Decimal.Digits
import SealedLedger.Yaml.Cursor

/-!
# Block scalars

A block scalar is the indented text under its header. A literal one keeps its line breaks; a folded
one joins lines that do not start with a blank. The header says whether the line breaks at the end
are dropped, kept as one, or all kept, and may give the indentation, which is otherwise that of the
first line that is not empty.

## Main definitions

* `Yaml.blockScalar` — reading a block scalar.
-/

namespace SealedLedger

namespace Yaml

/-- What is done with the line breaks at the end of a block scalar. -/
inductive Chomping where
  | strip
  | clip
  | keep
  deriving DecidableEq

/-- The chomping of an indicator. -/
def chompingOf : Char → Option Chomping
  | '-' => some .strip
  | '+' => some .keep
  | _ => none

/-- The indentation of a header, if a digit gives it. It must not be zero. -/
def headerIndentation (start : Mark) (c : Cursor) : Except Fault (Option Nat × Cursor) :=
  match c.head?.bind Decimal.digit? with
  | some 0 => .error (c.fault .zeroIndentation .blockScalar start)
  | some d => .ok (some d, c.advance 1)
  | none => .ok (none, c)

/-- The indicators of a header, in either order. -/
def blockHeader (start : Mark) (c : Cursor) : Except Fault (Chomping × Option Nat × Cursor) :=
  match c.head?.bind chompingOf with
  | some chomping => do
    let (indent, c) ← headerIndentation start (c.advance 1)
    return (chomping, indent, c)
  | none => do
    let (indent, c) ← headerIndentation start c
    match indent, c.head?.bind chompingOf with
    | some _, some chomping => return (chomping, indent, c.advance 1)
    | _, _ => return (.clip, indent, c)

/-- `blockBreaks` with the deepest indentation and the line breaks so far, and an allowance of
lines. -/
def blockBreaksWithin (start : Mark) (indent : Option Nat) :
    Nat → Nat → List Char → Cursor → Except Fault (Nat × List Char × Cursor)
  | 0, deepest, breaks, c => .ok (deepest, breaks, c)
  | fuel + 1, deepest, breaks, c =>
    let spaces := (c.run (· == ' ')).length
    let c := c.advance (match indent with
      | none => spaces
      | some n => min spaces (n - c.column))
    let deepest := max deepest c.column
    if c.stands '\t' && indent.all (c.column < ·) then
      .error (c.fault .tabForIndentation .blockScalar start)
    else
      match c.head? with
      | none => .ok (deepest, breaks, c)
      | some ch =>
        if isBreak ch then
          let (br, c) := c.nextLine
          blockBreaksWithin start indent fuel deepest (breaks ++ br) c
        else .ok (deepest, breaks, c)

/-- Empty lines and the indentation of the line after them. Without a given indentation it is that
line's own, or that of the deepest empty line, but at least the given one. -/
def blockBreaks (start : Mark) (indent : Option Nat) (least : Nat) (c : Cursor) :
    Except Fault (Nat × List Char × Cursor) := do
  let (deepest, breaks, c) ← blockBreaksWithin start indent (c.rest.length + 1) 0 [] c
  return (indent.getD (max deepest least), breaks, c)

/-- A block scalar so far: its text, the line break after its last line, the further ones, and
whether its last line starts with a blank. -/
structure BlockText where
  text : List Char
  lineBreak : List Char
  further : List Char
  afterBlank : Bool

/-- A line joined to a block scalar. -/
def BlockText.join (b : BlockText) (literal : Bool) (line : List Char) : List Char :=
  let blank := line.head?.any isBlank
  let joint :=
    if !literal && b.lineBreak.head? == some '\n' && !b.afterBlank && !blank then
      (if b.further = [] then [' '] else [])
    else b.lineBreak
  b.text ++ joint ++ b.further ++ line

/-- The lines of a block scalar at an indentation, with an allowance of lines. -/
def blockLines (start : Mark) (literal : Bool) (indent : Nat) :
    Nat → BlockText → Cursor → Except Fault (BlockText × Cursor)
  | 0, b, c => .ok (b, c)
  | fuel + 1, b, c =>
    if c.column = indent ∧ c.head?.isSome then
      let line := c.run fun ch => !isBreak ch
      let (br, next) := (c.advance line.length).nextLine
      do
        let (_, further, next) ← blockBreaks start (some indent) indent next
        blockLines start literal indent fuel
          ⟨b.join literal line, br, further, line.head?.any isBlank⟩ next
    else .ok (b, c)

/-- The text of a block scalar with the line breaks at its end chomped. -/
def BlockText.chomp (b : BlockText) : Chomping → List Char
  | .strip => b.text
  | .clip => b.text ++ b.lineBreak
  | .keep => b.text ++ b.lineBreak ++ b.further

/-- A block scalar from its first character on, inside a block at the given indentation, which is
negative outside all blocks. -/
def blockScalar (literal : Bool) (outer : Int) (c : Cursor) :
    Except Fault (List Char × Cursor) := do
  let start := c.mark
  let (chomping, increment, c) ← blockHeader start (c.advance 1)
  let c := c.skipComment
  if !endsLine c.head? then throw (c.fault .lineGoesOn .blockScalar start)
  let indent := increment.map fun n => (max outer 0).toNat + n
  let (indent, further, c) ←
    blockBreaks start indent (max (outer + 1) 1).toNat c.nextLine.2
  let (b, c) ←
    blockLines start literal indent (c.rest.length + 1) ⟨[], [], further, false⟩ c
  return (b.chomp chomping, c)

end Yaml

end SealedLedger
