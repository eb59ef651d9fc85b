import SealedLedger.Json.Reader

/-!
# Passing over JSON values

The value of a field that a record does not have is passed over. Its shape is checked, but its
strings need not spell a text, its numbers may be of any size, and it may nest to any depth.

## Main definitions

* `Json.skip` — passing over a value.
-/

namespace SealedLedger

namespace Json

/-- `skipString` with an allowance of bytes. -/
def skipStringWithin : Nat → Reader Unit
  | 0, _ => .error (.here .endInString [])
  | _ + 1, [] => .error (.here .endInString [])
  | fuel + 1, b :: rest =>
    if b = ascii '"' then .ok ((), rest)
    else if b = ascii '\\' then
      match rest with
      | [] => .error (.here .endInString [])
      | e :: rest =>
        if (escaped? e).isSome then skipStringWithin fuel rest
        else if e = ascii 'u' then
          match codeUnit rest with
          | .error stop => .error stop
          | .ok (_, rest) => skipStringWithin fuel rest
        else .error (.here .invalidEscape rest)
    else if b < 0x20 then .error (.here .controlCharacter (b :: rest))
    else skipStringWithin fuel rest

/-- Passes over a string after its opening quote. -/
def skipString : Reader Unit := fun input =>
  skipStringWithin (input.length + 1) input

/-- An array or an object that is still open. -/
inductive Frame where
  | array
  | object
  deriving DecidableEq

/-- The byte that ends a container. -/
def Frame.closing : Frame → UInt8
  | .array => ascii ']'
  | .object => ascii '\x7d'

/-- The fault of a text that ends inside a container. -/
def Frame.atEnd : Frame → Fault
  | .array => .endInList
  | .object => .endInObject

/-- The fault of another byte after an item of a container. -/
def Frame.expected : Frame → Fault
  | .array => .expectedListCommaOrEnd
  | .object => .expectedObjectCommaOrEnd

/-- Passes over the key of the next member and its colon. -/
def skipKey : Reader Unit := fun input =>
  match skipSpace input with
  | [] => .error (.next .endInObject [])
  | b :: rest =>
    if b = ascii '"' then
      match skipString rest with
      | .error stop => .error stop
      | .ok ((), rest) => colon rest
    else .error (.next .keyNotString (b :: rest))

/-- Passes over what stands between an item and the next one: closes the containers that end here,
and goes on in the innermost one left open. `fresh` says that this one has had no item yet. -/
def skipEnds : Bool → List Frame → Reader (List Frame)
  | _, [], input => .ok ([], input)
  | fresh, f :: outer, input =>
    match skipSpace input with
    | [] => .error (.next f.atEnd [])
    | b :: rest =>
      if b = f.closing then skipEnds false outer rest
      else if fresh then .ok (f :: outer, b :: rest)
      else if b = ascii ',' then .ok (f :: outer, rest)
      else .error (.next f.expected (b :: rest))

/-- Passes over a value that opens no container. -/
def skipScalar (b : UInt8) : Reader Unit := fun rest =>
  if b = ascii 'n' then word ['u', 'l', 'l'] rest
  else if b = ascii 't' then word ['r', 'u', 'e'] rest
  else if b = ascii 'f' then word ['a', 'l', 's', 'e'] rest
  else if b = ascii '"' then skipString rest
  else if b = ascii '-' ∨ (digit? b).isSome then
    match numeral .invalidNumber (b :: rest) with
    | .error stop => .error stop
    | .ok (_, rest) => .ok ((), rest)
  else .error (.next .expectedValue (b :: rest))

/-- `skip` inside open containers, with an allowance of values. -/
def skipWithin : Nat → List Frame → Reader Unit
  | 0, _, _ => .error (.here .endInValue [])
  | fuel + 1, frames, input =>
    match skipSpace input with
    | [] => .error (.next .endInValue [])
    | b :: rest =>
      let entered : Except Stop (Bool × List Frame × List UInt8) :=
        if b = ascii '[' then .ok (true, .array :: frames, rest)
        else if b = ascii '\x7b' then .ok (true, .object :: frames, rest)
        else
          match skipScalar b rest with
          | .error stop => .error stop
          | .ok ((), rest) => .ok (false, frames, rest)
      match entered with
      | .error stop => .error stop
      | .ok (fresh, frames, rest) =>
        match skipEnds fresh frames rest with
        | .error stop => .error stop
        | .ok ([], rest) => .ok ((), rest)
        | .ok (.array :: outer, rest) => skipWithin fuel (.array :: outer) rest
        | .ok (.object :: outer, rest) =>
          match skipKey rest with
          | .error stop => .error stop
          | .ok ((), rest) => skipWithin fuel (.object :: outer) rest

/-- Passes over a value. -/
def skip : Reader Unit := fun input =>
  skipWithin (input.length + 1) [] input

end Json

end SealedLedger
