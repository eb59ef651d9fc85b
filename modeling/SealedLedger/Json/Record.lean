import SealedLedger.Json.Reader

/-!
# Reading records

A record is stored as an object with named fields or, without the names, as an array of the fields
in order. This module reads what every record is made of: texts, natural numbers, sequences, and
the two forms themselves. Anything else in the place of one of these is named in the error.

## Main definitions

* `Json.text`, `Json.natural` — a field that is a string or an unsigned word.
* `Json.sequence` — an array of records.
* `Json.record` — a record in either form.
* `Json.positional` — a field of a record stored as an array.
-/

namespace SealedLedger

namespace Json

/-! ### Data of the wrong kind -/

/-- A word where other data was expected. -/
def unexpectedWord (expected : String) (letters : List Char) (found : Found) (rest : List UInt8) :
    Stop :=
  match word letters rest with
  | .error stop => stop
  | .ok ((), rest) => .here (.wrongType found expected) rest

/-- The data at the front where other data was expected. A scalar is read to its end first. -/
def unexpected (expected : String) (b : UInt8) (rest : List UInt8) : Stop :=
  if b = ascii 'n' then unexpectedWord expected ['u', 'l', 'l'] .null rest
  else if b = ascii 't' then unexpectedWord expected ['r', 'u', 'e'] (.bool true) rest
  else if b = ascii 'f' then unexpectedWord expected ['a', 'l', 's', 'e'] (.bool false) rest
  else if b = ascii '"' then
    match string rest with
    | .error stop => stop
    | .ok (s, rest) => .here (.wrongType (.string s) expected) rest
  else if b = ascii '-' ∨ (digit? b).isSome then
    match number (b :: rest) with
    | .error stop => stop
    | .ok (n, rest) => .here (.wrongType (.number n) expected) rest
  else if b = ascii '[' then .here (.wrongType .sequence expected) (b :: rest)
  else if b = ascii '\x7b' then .here (.wrongType .map expected) (b :: rest)
  else .next .expectedValue (b :: rest)

/-! ### Fields -/

/-- A string. -/
def text (expected : String) : Reader String := fun input =>
  match skipSpace input with
  | [] => .error (.next .endInValue [])
  | b :: rest => if b = ascii '"' then string rest else .error (unexpected expected b rest)

/-- A string that spells a value of some type. Its refusal is placed by the container. -/
def spelled {α : Type} (read : String → Except String α) : Reader α := fun input =>
  match text "a string" input with
  | .error stop => .error stop
  | .ok (s, rest) =>
    match read s with
    | .ok a => .ok (a, rest)
    | .error reason => .error (.pending (.refused reason) rest)

/-- An unsigned word. -/
def natural : Reader UInt64 := fun input =>
  match skipSpace input with
  | [] => .error (.next .endInValue [])
  | b :: rest =>
    if b = ascii '-' ∨ (digit? b).isSome then
      match number (b :: rest) with
      | .error stop => .error stop
      | .ok (n, rest) =>
        match n.natural? with
        | some u => .ok (u, rest)
        | none =>
          match n with
          | .float x => .error (.here (.wrongType (.number (.float x)) "u64") rest)
          | n => .error (.here (.wrongValue (.number n) "u64") rest)
    else .error (unexpected "u64" b rest)

/-! ### Containers -/

/-- An array of items, inside at most the given number of containers. -/
def sequence {α : Type} (item : Depth → Reader α) (depth : Depth) : Reader (List α) := fun input =>
  match skipSpace input with
  | [] => .error (.next .endInValue [])
  | b :: rest =>
    if b = ascii '[' then
      match depth with
      | 0 => .error (.next .nestedTooDeep (b :: rest))
      | depth + 1 => bracketed (elements (item depth)) rest
    else .error (unexpected "a sequence" b rest)

/-- A record, from the inside of its two forms. -/
def record {α : Type} (expected : String) (inArray inObject : Depth → Reader α) (depth : Depth) :
    Reader α := fun input =>
  match skipSpace input with
  | [] => .error (.next .endInValue [])
  | b :: rest =>
    if b = ascii '[' then
      match depth with
      | 0 => .error (.next .nestedTooDeep (b :: rest))
      | depth + 1 => bracketed (inArray depth) rest
    else if b = ascii '\x7b' then
      match depth with
      | 0 => .error (.next .nestedTooDeep (b :: rest))
      | depth + 1 => braced (inObject depth) rest
    else .error (unexpected expected b rest)

/-- The field at a position of a record stored as an array, with what stands for it when the array
has ended. -/
def positional {α : Type} (position : Nat) (item : Reader α) (missing : Except Fault α) :
    Reader α := fun input =>
  match nextElement (position == 0) item input with
  | .error stop => .error stop
  | .ok (some a, rest) => .ok (a, rest)
  | .ok (none, rest) =>
    match missing with
    | .ok a => .ok (a, rest)
    | .error fault => .error (.pending fault rest)

end Json

end SealedLedger
