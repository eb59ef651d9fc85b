import SealedLedger.Calendar
import SealedLedger.Decimal.Digits
import SealedLedger.Text.Quoted

/-!
# Timestamps

A timestamp is a second of Coordinated Universal Time, or a leap second. It is written
`YYYY-MM-DDTHH:MM:SSZ`; a leap second has the second number 60, and a year outside 0 to 9999 has
its sign and at least four digits.

## Main definitions

* `Timestamp` — a second in the range of the calendar.
* `Instant` — an instant in that range.
* `Timestamp.ofInstant` — the second that an instant falls in.
* `Timestamp.text` — the text of a timestamp.
* `Timestamp.isBefore`, `Timestamp.latest` — the order of timestamps.
-/

namespace SealedLedger

/-- A second of Coordinated Universal Time, counted from the start of 1970. A leap second follows
the last second of a minute and shares its count. -/
structure Timestamp where
  unix : Int
  leap : Bool
  inRange : -8334601228800 ≤ unix ∧ unix ≤ 8210266876799
  endsMinute : leap = true → unix % 60 = 59
  deriving DecidableEq

/-- An instant: whole seconds counted from the start of 1970, and the nanoseconds after them, which
may be up to two thousand million. -/
structure Instant where
  seconds : Int
  nanoseconds : Nat
  inRange : -8334601228800 ≤ seconds ∧ seconds ≤ 8210266876799
  nanoseconds_lt : nanoseconds < 2000000000

/-- The instant of a count of seconds and of nanoseconds. A count of more nanoseconds than a second
has is taken at the end of a minute only. -/
def Instant.ofUnix? (seconds : Int) (nanoseconds : Nat) : Option Instant :=
  if h : (-8334601228800 ≤ seconds ∧ seconds ≤ 8210266876799) ∧ nanoseconds < 2000000000 then
    if nanoseconds < 1000000000 ∨ seconds % 60 = 59 then
      some ⟨seconds, nanoseconds, h.1, h.2⟩
    else none
  else none

namespace Timestamp

/-! ### Making timestamps -/

/-- The start of 1970. -/
def epoch : Timestamp :=
  ⟨0, false, by decide, by decide⟩

/-- The timestamp of a count of seconds, if it is in the range of the calendar. -/
def ofUnix? (unix : Int) (leap : Bool) : Option Timestamp :=
  if h : (-8334601228800 ≤ unix ∧ unix ≤ 8210266876799) ∧ (leap = true → unix % 60 = 59) then
    some ⟨unix, leap, h.1, h.2⟩
  else none

/-- The second that an instant falls in. -/
def ofInstant (i : Instant) : Timestamp :=
  ⟨i.seconds, false, i.inRange, by simp⟩

/-- The count of seconds of a date and a time of day. -/
def secondsOf (d : Date) (hour minute second : Nat) : Int :=
  d.days * 86400 + (hour * 3600 + minute * 60 + second : Nat)

/-! ### The order of timestamps -/

/-- The timestamp is earlier than another. A leap second is later than the second whose count it
shares. -/
def isBefore (a b : Timestamp) : Bool :=
  a.unix < b.unix || (a.unix == b.unix && !a.leap && b.leap)

/-- The later of two timestamps. -/
def latest (a b : Timestamp) : Timestamp :=
  if b.isBefore a then a else b

/-! ### Writing -/

/-- A year in at least four digits, with its sign outside 0 to 9999. -/
def yearText (y : Int) : List Char :=
  if 0 ≤ y ∧ y ≤ 9999 then Decimal.padded 4 y.natAbs
  else (if y < 0 then '-' else '+') :: Decimal.padded 4 y.natAbs

/-- The date of a timestamp. -/
def date (t : Timestamp) : Date :=
  Date.ofDays (t.unix / 86400)

/-- The second of the day of a timestamp. -/
def secondOfDay (t : Timestamp) : Nat :=
  (t.unix % 86400).toNat

/-- The characters of a date and a time of day. -/
def characters (d : Date) (hour minute second : Nat) : List Char :=
  yearText d.year ++ '-' :: Decimal.padded 2 d.month ++ '-' :: Decimal.padded 2 d.day ++
    'T' :: Decimal.padded 2 hour ++ ':' :: Decimal.padded 2 minute ++
    ':' :: Decimal.padded 2 second ++ ['Z']

/-- The text of a timestamp. -/
def text (t : Timestamp) : String :=
  let s := t.secondOfDay
  String.ofList (characters t.date (s / 3600) (s / 60 % 60)
    (s % 60 + if t.leap then 1 else 0))

/-! ### Errors -/

/-- Why a text does not have the form of a timestamp. -/
inductive Cause where
  | tooShort
  | invalid
  | outOfRange
  | tooLong
  deriving DecidableEq

/-- The wording of a cause. -/
def Cause.message : Cause → String
  | .tooShort => "premature end of input"
  | .invalid => "input contains invalid characters"
  | .outOfRange => "input is out of range"
  | .tooLong => "trailing input"

/-- Why a text is no timestamp. -/
inductive Error where
  | malformed (text : String) (cause : Cause)
  | uncanonical (text : String) (expected : String)
  | unrecognized (text : String) (cause : Cause)
  deriving DecidableEq

/-- The wording of an error. -/
def Error.message : Error → String
  | .malformed text cause =>
    "timestamp error: timestamp must be YYYY-MM-DDTHH:MM:SSZ (UTC, whole seconds), got " ++
      Quoted.string text ++ ": " ++ cause.message
  | .uncanonical text expected =>
    "timestamp error: timestamp " ++ Quoted.string text ++ " is not in canonical form, expected " ++
      Quoted.string expected
  | .unrecognized text cause =>
    "timestamp error: invalid RFC 3339 timestamp " ++ Quoted.string text ++ ": " ++ cause.message

end Timestamp

end SealedLedger
