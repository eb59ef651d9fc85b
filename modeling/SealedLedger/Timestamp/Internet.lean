import SealedLedger.Text.Utf8
import SealedLedger.Timestamp.Basic

/-!
# Internet timestamps

Timestamps in the form of RFC 3339, as a clock setting is written: a local date and time in digits
of fixed width, perhaps a fraction of a second, and the offset from Coordinated Universal Time.
The fraction is dropped, and a leap second becomes the second before it.

## Main definitions

* `Timestamp.ofInternet?` — reading an Internet timestamp.
-/

namespace SealedLedger

namespace Timestamp

namespace Internet

/-- A step of reading bytes: a result with the bytes after it, or a cause of failure. -/
abbrev Scan (α : Type) : Type := StateT (List UInt8) (Except Cause) α

/-! ### Digits and marks -/

/-- The value of a digit. -/
def digit? (b : UInt8) : Option Nat :=
  if 0x30 ≤ b ∧ b ≤ 0x39 then some (b.toNat - 0x30) else none

/-- `digits` continued from a number read so far. -/
def digitsFrom : Nat → Nat → Scan Nat
  | 0, n, bytes => .ok (n, bytes)
  | _ + 1, _, [] => .error .tooShort
  | width + 1, n, b :: rest =>
    match digit? b with
    | none => .error .invalid
    | some d => digitsFrom width (n * 10 + d) rest

/-- A number of exactly the given width. -/
def digits (width : Nat) : Scan Nat :=
  digitsFrom width 0

/-- A byte that passes a test. -/
def mark (test : UInt8 → Bool) : Scan Unit
  | [] => .error .tooShort
  | b :: rest => if test b then .ok ((), rest) else .error .invalid

/-- The bytes without the digits at their front. -/
def skipDigits (bytes : List UInt8) : List UInt8 :=
  bytes.dropWhile fun b => (digit? b).isSome

/-- A fraction of a second: a point and at least one digit, if there is a point. -/
def fraction : Scan Unit
  | [] => .ok ((), [])
  | b :: rest =>
    if b = 0x2E then
      match rest with
      | [] => .error .tooShort
      | c :: rest => if (digit? c).isSome then .ok ((), skipDigits rest) else .error .invalid
    else .ok ((), b :: rest)

/-! ### Offsets -/

/-- The sign of an offset: whether it is negative. The minus sign of typography counts too. -/
def offsetSign : Scan Bool
  | [] => .error .tooShort
  | b :: rest =>
    if b = 0x2B then .ok (false, rest)
    else if b = 0x2D then .ok (true, rest)
    else if (b :: rest).take 3 = [0xE2, 0x88, 0x92] then .ok (true, rest.drop 2)
    else .error .invalid

/-- Two digits, missed as a pair when fewer than two bytes are left. -/
def pair : Scan (Nat × Nat)
  | a :: b :: rest =>
    match digit? a, digit? b with
    | some a, some b => .ok ((a, b), rest)
    | _, _ => .error .invalid
  | _ => .error .tooShort

/-- An offset in seconds. -/
def offset : Scan Int
  | [] => .error .tooShort
  | b :: rest =>
    if b = 0x5A ∨ b = 0x7A then .ok (0, rest)
    else (do
      let negative ← offsetSign
      let (h1, h2) ← pair
      mark (· == 0x3A)
      let (m1, m2) ← pair
      if 6 ≤ m1 then throw Cause.outOfRange
      let seconds : Nat := (h1 * 10 + h2) * 3600 + (m1 * 10 + m2) * 60
      return if negative then -(seconds : Int) else seconds) (b :: rest)

/-! ### Whole texts -/

/-- A date that exists. -/
def date : Scan Date := do
  let y ← digits 4
  mark (· == 0x2D)
  let m ← digits 2
  mark (· == 0x2D)
  let d ← digits 2
  let date : Date := ⟨y, m, d⟩
  if date.valid then return date else throw Cause.outOfRange

/-- A time of day in whole seconds, a leap second as the second before it. -/
def time : Scan (Nat × Nat × Nat) := do
  let hour ← digits 2
  mark (· == 0x3A)
  let minute ← digits 2
  mark (· == 0x3A)
  let second ← digits 2
  fraction
  if hour ≤ 23 ∧ minute ≤ 59 ∧ second ≤ 60 then return (hour, minute, min second 59)
  else throw Cause.outOfRange

/-- A local time and its offset, as the count of seconds of that time in Coordinated Universal
Time, and the offset. -/
def instant : Scan (Int × Int) := do
  let d ← date
  mark fun b => b == 0x54 || b == 0x74 || b == 0x20
  let (hour, minute, second) ← time
  let o ← offset
  return (secondsOf d hour minute second - o, o)

/-- The timestamp that bytes spell. -/
def parse? (bytes : List UInt8) : Except Cause Timestamp :=
  if bytes.length < 19 then .error .tooShort
  else
    match instant bytes with
    | .error cause => .error cause
    | .ok (_, _ :: _) => .error .tooLong
    | .ok ((seconds, offset), []) =>
      if offset.natAbs < 86400 then
        match ofUnix? seconds false with
        | some t => .ok t
        | none => .error .outOfRange
      else .error .outOfRange

end Internet

/-- The timestamp of a text in the form of RFC 3339. -/
def ofInternet? (s : String) : Except Error Timestamp :=
  match Internet.parse? (utf8 s) with
  | .error cause => .error (.unrecognized s cause)
  | .ok t => .ok t

end Timestamp

end SealedLedger
