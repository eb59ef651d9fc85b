import SealedLedger.Binary64
import SealedLedger.Text.Utf8

/-!
# Document values

The data that a record carries: null, truth values, numbers, text, sequences, and objects whose
members keep the order they were written in. A number keeps its kind, since an integer and a
floating-point number of the same value are different data, even though both have the same
canonical text.

## Main definitions

* `Number` and `Value`.
* `Value.get?`, `Value.members?`, `Value.string?`, `Value.natural?` — looking into a value.
* `Value.same` — equality of data, with floating-point numbers compared as numbers.
* `Value.tidy` — members in the order of their keys' bytes, the last of each key.
-/

namespace SealedLedger

/-- A number of a document: a signed word, an unsigned word, or a double. -/
inductive Number where
  | int (i : Int64)
  | uint (u : UInt64)
  | float (x : Binary64)
  deriving DecidableEq

/-- A document value. Members keep their order, and a key may repeat. -/
inductive Value where
  | null
  | bool (b : Bool)
  | number (n : Number)
  | string (s : String)
  | array (items : List Value)
  | object (members : List (String × Value))
  deriving Inhabited

namespace Number

/-- The unsigned word as a number: a signed word where it fits one. -/
def ofUInt64 (u : UInt64) : Number :=
  if u.toNat < 0x8000000000000000 then .int (Int64.ofNat u.toNat) else .uint u

/-- The number is not an infinity and not a pattern that is no number. -/
def isFinite : Number → Bool
  | .int _ => true
  | .uint _ => true
  | .float x => x.isFinite

/-- The number as an unsigned word, where it is an integer that fits one. -/
def natural? : Number → Option UInt64
  | .int i => if 0 ≤ i.toInt then some (UInt64.ofNat i.toInt.toNat) else none
  | .uint u => some u
  | .float _ => none

/-- Two numbers are of the same kind and compare equal. -/
def same : Number → Number → Bool
  | .int i, .int j => i == j
  | .uint u, .uint v => u == v
  | .float x, .float y => x.eqv y
  | _, _ => false

end Number

namespace Value

/-! ### Making values -/

/-- The unsigned word as a value. -/
def ofUInt64 (u : UInt64) : Value :=
  .number (.ofUInt64 u)

/-- The object without members. -/
def emptyObject : Value :=
  .object []

/-! ### Looking into a value -/

/-- The first member of a key. -/
def get? (key : String) : Value → Option Value
  | .object members => (members.find? fun m => m.1 == key).map (·.2)
  | _ => none

/-- The members of an object. -/
def members? : Value → Option (List (String × Value))
  | .object members => some members
  | _ => none

/-- The text of a string. -/
def string? : Value → Option String
  | .string s => some s
  | _ => none

/-- The number of a numeric value. -/
def number? : Value → Option Number
  | .number n => some n
  | _ => none

/-- The value as an unsigned word. -/
def natural? (v : Value) : Option UInt64 :=
  v.number?.bind Number.natural?

/-- The value is the object without members. -/
def isEmptyObject : Value → Bool
  | .object [] => true
  | _ => false

/-! ### Equality of data -/

mutual

/-- Two values are the same data: the same shape, the same texts and keys in the same order, and
numbers of the same kind that compare equal. -/
def same : Value → Value → Bool
  | .null, .null => true
  | .bool a, .bool b => a == b
  | .number m, .number n => m.same n
  | .string s, .string t => s == t
  | .array as, .array bs => sameItems as bs
  | .object as, .object bs => sameMembers as bs
  | _, _ => false
termination_by structural v => v

/-- The items are the same data, one by one. -/
def sameItems : List Value → List Value → Bool
  | [], [] => true
  | a :: as, b :: bs => same a b && sameItems as bs
  | _, _ => false
termination_by structural vs => vs

/-- The members are the same data, one by one. -/
def sameMembers : List (String × Value) → List (String × Value) → Bool
  | [], [] => true
  | a :: as, b :: bs => sameMember a b && sameMembers as bs
  | _, _ => false
termination_by structural ms => ms

/-- The members have the same key and the same data. -/
def sameMember : String × Value → String × Value → Bool
  | (k, a), (l, b) => k == l && same a b
termination_by structural m => m

end

/-! ### Order of members -/

/-- A key comes before or with another in the order of bytes. -/
def keyLE {α : Type} (a b : String × α) : Bool :=
  utf8 a.1 ≤ utf8 b.1

/-- Members with each key once, at its first place and with its last value. -/
def lastOfEach {α : Type} (members : List (String × α)) : List (String × α) :=
  members.foldl (fun kept m =>
    if kept.any (·.1 == m.1) then kept.map fun k => if k.1 == m.1 then m else k
    else kept ++ [m]) []

mutual

/-- The value with the members of each object ordered by the bytes of their keys; where a key
repeats, its last value stays. -/
def tidy : Value → Value
  | .null => .null
  | .bool b => .bool b
  | .number n => .number n
  | .string s => .string s
  | .array items => .array (tidyItems items)
  | .object members => .object ((lastOfEach (tidyMembers members)).mergeSort keyLE)
termination_by structural v => v

/-- Each item tidied. -/
def tidyItems : List Value → List Value
  | [] => []
  | v :: vs => tidy v :: tidyItems vs
termination_by structural vs => vs

/-- Each member tidied. -/
def tidyMembers : List (String × Value) → List (String × Value)
  | [] => []
  | m :: ms => tidyMember m :: tidyMembers ms
termination_by structural ms => ms

/-- The member tidied. -/
def tidyMember : String × Value → String × Value
  | (k, v) => (k, tidy v)
termination_by structural m => m

end

end Value

end SealedLedger
