import SealedLedger.Json.Reader

/-!
# Plain data

What a JSON text holds when nothing is asked of it: a number is a natural word, a negative word or a
finite double, and an object is a map, sorted by the bytes of its keys, in which a later member
takes the place of an earlier one. Plain data can be turned into a value, and the text of a ledger
is looked at in this form before its entries are read.

## Main definitions

* `Json.Amount` — a number of plain data.
* `Json.Data` and `Value.ofData` — plain data, and the value it is turned into.
* `Json.insertMember` — a member inserted into a sorted map.
* `Json.data?` — the plain data that a text spells.
-/

namespace SealedLedger

namespace Json

/-! ### Numbers -/

/-- A number of plain data. A word is signed only if it is negative, and a double is finite. -/
inductive Amount where
  | natural (u : UInt64)
  | negative (i : Int64) (isNegative : i.toInt < 0)
  | float (x : Binary64) (isFinite : x.isFinite = true)
  deriving DecidableEq

namespace Amount

/-- The number of a signed word. -/
def ofInt64 (i : Int64) : Amount :=
  if h : i.toInt < 0 then .negative i h else .natural (.ofNat i.toInt.toNat)

/-- The number of a double, none if the double is not finite. -/
def ofBinary64? (x : Binary64) : Option Amount :=
  if h : x.isFinite = true then some (.float x h) else none

/-- The number as a signed word, where it fits one. -/
def signed? : Amount → Option Int64
  | .natural u => if u.toNat < 0x8000000000000000 then some (.ofNat u.toNat) else none
  | .negative i _ => some i
  | .float _ _ => none

/-- The number as an unsigned word, where it is one. -/
def natural? : Amount → Option UInt64
  | .natural u => some u
  | .negative _ _ => none
  | .float _ _ => none

/-- The double nearest to the number. -/
def double : Amount → Binary64
  | .natural u => .ofNat u.toNat
  | .negative i _ => (Binary64.ofNat i.toInt.natAbs).withSign true
  | .float x _ => x

/-- The number of a value: a signed word if it fits one, else an unsigned word if it is one, else
the double nearest to it. -/
def toNumber (a : Amount) : Number :=
  match a.signed? with
  | some i => .int i
  | none =>
    match a.natural? with
    | some u => .uint u
    | none => .float a.double

end Amount

/-! ### Data -/

/-- Plain data. The members of an object are in the order of the bytes of their keys. -/
inductive Data where
  | null
  | bool (b : Bool)
  | number (a : Amount)
  | string (s : String)
  | array (items : List Data)
  | object (members : List (String × Data))

namespace Data

/-- The data of a number that was read. A double that is not finite is no number. -/
def ofNumber : Number → Data
  | .int i => .number (.ofInt64 i)
  | .uint u => .number (.natural u)
  | .float x =>
    match Amount.ofBinary64? x with
    | some a => .number a
    | none => .null

end Data

/-- A member inserted into a sorted map: in the place of the member of the same key, or else in the
order of the keys' bytes. -/
def insertMember {α : Type} (key : String) (a : α) : List (String × α) → List (String × α)
  | [] => [(key, a)]
  | m :: ms =>
    if m.1 = key then (key, a) :: ms
    else if Value.keyLE m (key, a) then m :: insertMember key a ms
    else (key, a) :: m :: ms

/-! ### Reading -/

/-- Gathers a member of an object into a sorted map. -/
def dataMember (data : Reader Data) (done : List (String × Data)) (key : String) :
    Reader (List (String × Data)) := fun input =>
  match colon input with
  | .error stop => .error stop
  | .ok ((), rest) =>
    match data rest with
    | .error stop => .error stop
    | .ok (d, rest) => .ok (insertMember key d done, rest)

/-- A word that stands for data, after its first letter. -/
def dataConstant (letters : List Char) (d : Data) : Reader Data := do
  word letters
  return d

/-- Data that opens no container, from its first byte on. -/
def dataScalar (b : UInt8) : Reader Data := fun rest =>
  if b = ascii 'n' then dataConstant ['u', 'l', 'l'] .null rest
  else if b = ascii 't' then dataConstant ['r', 'u', 'e'] (.bool true) rest
  else if b = ascii 'f' then dataConstant ['a', 'l', 's', 'e'] (.bool false) rest
  else if b = ascii '"' then (do return Data.string (← string)) rest
  else if b = ascii '-' ∨ (digit? b).isSome then (do return Data.ofNumber (← number)) (b :: rest)
  else .error (.next .expectedValue (b :: rest))

/-- Data inside at most the given number of containers. -/
def data : Depth → Reader Data
  | 0, input =>
    match skipSpace input with
    | [] => .error (.next .endInValue [])
    | b :: rest =>
      if b = ascii '[' ∨ b = ascii '\x7b' then .error (.next .nestedTooDeep (b :: rest))
      else dataScalar b rest
  | depth + 1, input =>
    match skipSpace input with
    | [] => .error (.next .endInValue [])
    | b :: rest =>
      if b = ascii '[' then (do return Data.array (← bracketed (elements (data depth)))) rest
      else if b = ascii '\x7b' then
        (do return Data.object (← braced (members (dataMember (data depth)) []))) rest
      else dataScalar b rest

/-- The plain data that a text spells. -/
def data? (input : List UInt8) : Except Error Data :=
  whole (data maxDepth) input

end Json

/-! ### The value of plain data -/

namespace Value

mutual

/-- The value of plain data, its members in the order of the map. -/
def ofData : Json.Data → Value
  | .null => .null
  | .bool b => .bool b
  | .number a => .number a.toNumber
  | .string s => .string s
  | .array items => .array (ofItems items)
  | .object members => .object (ofMembers members)
termination_by structural d => d

/-- The value of each item. -/
def ofItems : List Json.Data → List Value
  | [] => []
  | d :: ds => ofData d :: ofItems ds
termination_by structural ds => ds

/-- The value of each member. -/
def ofMembers : List (String × Json.Data) → List (String × Value)
  | [] => []
  | m :: ms => ofMember m :: ofMembers ms
termination_by structural ms => ms

/-- The value of the member. -/
def ofMember : String × Json.Data → String × Value
  | (k, d) => (k, ofData d)
termination_by structural m => m

end

end Value

end SealedLedger
