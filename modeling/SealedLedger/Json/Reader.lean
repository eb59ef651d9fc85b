import SealedLedger.Json.Token

/-!
# Reading JSON values

Values nest at most 127 deep. Whether a key may repeat is the caller's choice: a document is read
with distinct keys, while a text that is only inspected is read with any keys.

## Main definitions

* `Json.elements`, `Json.members` — the inside of an array and of an object.
* `Json.bracketed`, `Json.braced` — an array and an object around their inside.
* `Json.value` — a value.
* `Json.read?` — a text that is one value, keys distinct in each object.
* `Json.inspect?` — a text that is one value, the last of each key kept.
-/

namespace SealedLedger

namespace Json

/-! ### Arrays -/

/-- Whether another element follows, inside an array. -/
def moreElements (first : Bool) : Reader Bool := fun input =>
  match skipSpace input with
  | [] => .error (.next .endInList [])
  | b :: rest =>
    if b = ascii ']' then .ok (false, b :: rest)
    else if first then .ok (true, b :: rest)
    else if b = ascii ',' then
      match skipSpace rest with
      | [] => .error (.next .endInValue [])
      | c :: rest =>
        if c = ascii ']' then .error (.next .trailingComma (c :: rest))
        else .ok (true, c :: rest)
    else .error (.next .expectedListCommaOrEnd (b :: rest))

/-- The next element of an array, none at its end. -/
def nextElement {α : Type} (first : Bool) (item : Reader α) : Reader (Option α) := fun input =>
  match moreElements first input with
  | .error stop => .error stop
  | .ok (false, rest) => .ok (none, rest)
  | .ok (true, rest) =>
    match item rest with
    | .error stop => .error stop
    | .ok (a, rest) => .ok (some a, rest)

/-- `elements` with an allowance of elements. -/
def elementsWithin {α : Type} (item : Reader α) : Nat → Bool → Reader (List α)
  | 0, _, _ => .error (.here .endInList [])
  | fuel + 1, first, input =>
    match nextElement first item input with
    | .error stop => .error stop
    | .ok (none, rest) => .ok ([], rest)
    | .ok (some a, rest) =>
      match elementsWithin item fuel false rest with
      | .error stop => .error stop
      | .ok (more, rest) => .ok (a :: more, rest)

/-- All elements up to the end of an array. -/
def elements {α : Type} (item : Reader α) : Reader (List α) := fun input =>
  elementsWithin item (input.length + 1) true input

/-- The end of an array. -/
def closeArray : Reader Unit := fun input =>
  match skipSpace input with
  | [] => .error (.next .endInList [])
  | b :: rest =>
    if b = ascii ']' then .ok ((), rest)
    else if b = ascii ',' then
      match skipSpace rest with
      | [] => .error (.next .trailingCharacters [])
      | c :: rest =>
        .error (.next (if c = ascii ']' then .trailingComma else .trailingCharacters) (c :: rest))
    else .error (.next .trailingCharacters (b :: rest))

/-- Where the reader stands after trying to leave an array. -/
def leaveArray (input : List UInt8) : List UInt8 :=
  match skipSpace input with
  | [] => []
  | b :: rest =>
    if b = ascii ']' then rest else if b = ascii ',' then skipSpace rest else b :: rest

/-- An array after its opening bracket. A fault without a place gets one here. -/
def bracketed {α : Type} (inside : Reader α) : Reader α := fun input =>
  match inside input with
  | .error stop => .error (stop.place leaveArray)
  | .ok (a, rest) =>
    match closeArray rest with
    | .error stop => .error stop
    | .ok ((), rest) => .ok (a, rest)

/-! ### Objects -/

/-- The next key of an object, none at its end. -/
def nextKey (first : Bool) : Reader (Option String) := fun input =>
  match skipSpace input with
  | [] => .error (.next .endInObject [])
  | b :: rest =>
    if b = ascii '\x7d' then .ok (none, b :: rest)
    else if first then
      if b = ascii '"' then key rest else .error (.next .keyNotString (b :: rest))
    else if b = ascii ',' then
      match skipSpace rest with
      | [] => .error (.next .endInValue [])
      | c :: rest =>
        if c = ascii '"' then key rest
        else if c = ascii '\x7d' then .error (.next .trailingComma (c :: rest))
        else .error (.next .keyNotString (c :: rest))
    else .error (.next .expectedObjectCommaOrEnd (b :: rest))
where
  /-- A key after its opening quote. -/
  key : Reader (Option String) := fun input =>
    match string input with
    | .error stop => .error stop
    | .ok (s, rest) => .ok (some s, rest)

/-- The colon after a key. -/
def colon : Reader Unit := fun input =>
  match skipSpace input with
  | [] => .error (.next .endInObject [])
  | b :: rest =>
    if b = ascii ':' then .ok ((), rest) else .error (.next .expectedColon (b :: rest))

/-- `members` with an allowance of members. -/
def membersWithin {σ : Type} (step : σ → String → Reader σ) : Nat → Bool → σ → Reader σ
  | 0, _, _, _ => .error (.here .endInObject [])
  | fuel + 1, first, state, input =>
    match nextKey first input with
    | .error stop => .error stop
    | .ok (none, rest) => .ok (state, rest)
    | .ok (some key, rest) =>
      match step state key rest with
      | .error stop => .error stop
      | .ok (state, rest) => membersWithin step fuel false state rest

/-- All members up to the end of an object, gathered by a step that is given each key and reads
from the colon on. -/
def members {σ : Type} (step : σ → String → Reader σ) (start : σ) : Reader σ := fun input =>
  membersWithin step (input.length + 1) true start input

/-- The end of an object. -/
def closeObject : Reader Unit := fun input =>
  match skipSpace input with
  | [] => .error (.next .endInObject [])
  | b :: rest =>
    if b = ascii '\x7d' then .ok ((), rest)
    else .error (.next (if b = ascii ',' then .trailingComma else .trailingCharacters) (b :: rest))

/-- Where the reader stands after trying to leave an object. -/
def leaveObject (input : List UInt8) : List UInt8 :=
  match skipSpace input with
  | [] => []
  | b :: rest => if b = ascii '\x7d' then rest else b :: rest

/-- An object after its opening brace. A fault without a place gets one here. -/
def braced {α : Type} (inside : Reader α) : Reader α := fun input =>
  match inside input with
  | .error stop => .error (stop.place leaveObject)
  | .ok (a, rest) =>
    match closeObject rest with
    | .error stop => .error stop
    | .ok ((), rest) => .ok (a, rest)

/-! ### Values -/

/-- Gathers a member of an object whose values are read by the given reader. -/
def member (distinct : Bool) (value : Reader Value) (done : List (String × Value))
    (key : String) : Reader (List (String × Value)) := fun input =>
  if distinct && done.any (·.1 == key) then .error (.pending (.repeatedKey key) input)
  else
    match colon input with
    | .error stop => .error stop
    | .ok ((), rest) =>
      match value rest with
      | .error stop => .error stop
      | .ok (v, rest) => .ok (done ++ [(key, v)], rest)

/-- A number of containers that may still be opened around a value. -/
abbrev Depth := Nat

/-- The greatest number of containers around a value. -/
def maxDepth : Depth := 127

/-- A word that stands for a value, after its first letter. -/
def constant (letters : List Char) (v : Value) : Reader Value := fun input =>
  match word letters input with
  | .error stop => .error stop
  | .ok ((), rest) => .ok (v, rest)

/-- A value that opens no container, from its first byte on. -/
def scalar (b : UInt8) : Reader Value := fun rest =>
  if b = ascii 'n' then constant ['u', 'l', 'l'] .null rest
  else if b = ascii 't' then constant ['r', 'u', 'e'] (.bool true) rest
  else if b = ascii 'f' then constant ['a', 'l', 's', 'e'] (.bool false) rest
  else if b = ascii '"' then
    match string rest with
    | .error stop => .error stop
    | .ok (s, rest) => .ok (.string s, rest)
  else if b = ascii '-' ∨ (digit? b).isSome then
    match number (b :: rest) with
    | .error stop => .error stop
    | .ok (n, rest) => .ok (.number n, rest)
  else .error (.next .expectedValue (b :: rest))

/-- A value inside at most the given number of containers. -/
def value (distinct : Bool) : Depth → Reader Value
  | 0, input =>
    match skipSpace input with
    | [] => .error (.next .endInValue [])
    | b :: rest =>
      if b = ascii '[' ∨ b = ascii '\x7b' then .error (.next .nestedTooDeep (b :: rest))
      else scalar b rest
  | depth + 1, input =>
    match skipSpace input with
    | [] => .error (.next .endInValue [])
    | b :: rest =>
      if b = ascii '[' then
        match bracketed (elements (value distinct depth)) rest with
        | .error stop => .error stop
        | .ok (items, rest) => .ok (.array items, rest)
      else if b = ascii '\x7b' then
        match braced (members (member distinct (value distinct depth)) []) rest with
        | .error stop => .error stop
        | .ok (done, rest) => .ok (.object done, rest)
      else scalar b rest

/-! ### Whole texts -/

/-- What a reader makes of a whole text. -/
def whole {α : Type} (r : Reader α) (input : List UInt8) : Except Error α :=
  match r input with
  | .error stop => .error (stop.error input)
  | .ok (a, rest) =>
    match skipSpace rest with
    | [] => .ok a
    | b :: rest => .error ((Stop.next .trailingCharacters (b :: rest)).error input)

/-- The value that a text spells, keys distinct in each object. -/
def read? (input : List UInt8) : Except Error Value :=
  whole (value true maxDepth) input

/-- The value that a text spells, with the last member of each key, in the order of the keys'
bytes. -/
def inspect? (input : List UInt8) : Except Error Value :=
  (whole (value false maxDepth) input).map Value.tidy

/-- The wording of an error in a text that should have been a value. -/
def Error.malformed (e : Error) : String :=
  "malformed value: " ++ e.message

end Json

end SealedLedger
