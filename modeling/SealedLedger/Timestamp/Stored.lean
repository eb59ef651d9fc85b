import SealedLedger.Timestamp.Basic

/-!
# Stored timestamps

A stored timestamp has one text, the one that `Timestamp.text` writes. Reading goes in two steps:
the text is read as year, month, day, hour, minute and second, each number perhaps after white
space and with fewer digits than it is written with, and the timestamp found must then be written
as that very text.

## Main definitions

* `Timestamp.ofFields?` — reading field by field.
* `Timestamp.parse?` — reading a stored timestamp.
-/

namespace SealedLedger

namespace Timestamp

/-- A step of reading a text: a result with the characters after it, or a cause of failure. -/
abbrev Scan (α : Type) : Type := StateT (List Char) (Except Cause) α

/-! ### Numbers and marks -/

/-- `digits` continued from a number read so far. -/
def digitsFrom : Nat → Nat → List Char → Except Cause (Nat × List Char)
  | 0, n, cs => .ok (n, cs)
  | _ + 1, n, [] => .ok (n, [])
  | width + 1, n, c :: cs =>
    match Decimal.digit? c with
    | none => .ok (n, c :: cs)
    | some d =>
      if n * 10 + d < 0x8000000000000000 then digitsFrom width (n * 10 + d) cs
      else .error .outOfRange

/-- A number of at least one digit and of at most the given width. -/
def digits (width : Nat) : Scan Nat
  | [] => .error .tooShort
  | c :: cs => if Decimal.isDigit c then digitsFrom width 0 (c :: cs) else .error .invalid

/-- A number in a range, perhaps after white space, of at most two digits. -/
def field (least greatest : Nat) : Scan Nat := fun cs =>
  match digits 2 (cs.dropWhile Printable.isBlank) with
  | .error cause => .error cause
  | .ok (n, cs) => if least ≤ n ∧ n ≤ greatest then .ok (n, cs) else .error .outOfRange

/-- A year in the range of 32-bit words. -/
def checkYear (y : Int) : Except Cause Int :=
  if -0x80000000 ≤ y ∧ y < 0x80000000 then .ok y else .error .outOfRange

/-- A year, perhaps after white space: with a sign of any width, without one of at most four
digits. -/
def year : Scan Int := fun cs =>
  match cs.dropWhile Printable.isBlank with
  | [] => .error .tooShort
  | c :: cs =>
    let number : Except Cause (Int × List Char) :=
      if c = '-' then (digits cs.length cs).map fun (n, cs) => (-(n : Int), cs)
      else if c = '+' then (digits cs.length cs).map fun (n, cs) => ((n : Int), cs)
      else (digits 4 (c :: cs)).map fun (n, cs) => ((n : Int), cs)
    match number with
    | .error cause => .error cause
    | .ok (y, cs) =>
      match checkYear y with
      | .error cause => .error cause
      | .ok y => .ok (y, cs)

/-- Exactly this character. -/
def mark (c : Char) : Scan Unit
  | [] => .error .tooShort
  | d :: cs => if d = c then .ok ((), cs) else .error .invalid

/-! ### Whole texts -/

/-- The date, hour, minute and second that a text spells, each in its own range. -/
def fields : Scan (Date × Nat × Nat × Nat) := do
  let y ← year
  mark '-'
  let m ← field 1 12
  mark '-'
  let d ← field 1 31
  mark 'T'
  let hour ← field 0 23
  mark ':'
  let minute ← field 0 59
  mark ':'
  let second ← field 0 60
  mark 'Z'
  return (⟨y, m, d⟩, hour, minute, second)

/-- The timestamp that a text spells, field by field. -/
def ofFields? (cs : List Char) : Except Cause Timestamp :=
  match fields cs with
  | .error cause => .error cause
  | .ok (_, _ :: _) => .error .tooLong
  | .ok ((d, hour, minute, second), []) =>
    if d.valid then
      let leap := second == 60
      match ofUnix? (secondsOf d hour minute (if leap then 59 else second)) leap with
      | some t => .ok t
      | none => .error .outOfRange
    else .error .outOfRange

/-- The timestamp of a stored text. -/
def parse? (s : String) : Except Error Timestamp :=
  match ofFields? s.toList with
  | .error cause => .error (.malformed s cause)
  | .ok t => if t.text = s then .ok t else .error (.uncanonical s t.text)

end Timestamp

end SealedLedger
