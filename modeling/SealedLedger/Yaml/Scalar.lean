import SealedLedger.Decimal.Reading
import SealedLedger.Text.Hex
import SealedLedger.Value
import SealedLedger.Yaml.Node

/-!
# The meaning of scalars

A plain scalar without a tag is null, a truth value, an integer, a floating-point number or a text,
whichever it spells first in this order. Any other scalar without a tag is a text. A tag of the core
kinds asks for one of these meanings, and any other tag for a text, unless it is a tag of the
document's own, which has no meaning.

## Main definitions

* `Yaml.integer?`, `Yaml.float?` — the spellings of numbers.
* `Yaml.plainValue` — the meaning of a plain scalar.
* `Yaml.scalarValue` — the meaning of a scalar.
-/

namespace SealedLedger

namespace Yaml

/-! ### Words -/

/-- The text spells null. -/
def isNull (cs : List Char) : Bool :=
  ["null", "Null", "NULL", "~"].any (·.toList == cs)

/-- The truth value that a text spells. -/
def bool? (cs : List Char) : Option Bool :=
  if ["true", "True", "TRUE"].any (·.toList == cs) then some true
  else if ["false", "False", "FALSE"].any (·.toList == cs) then some false
  else none

/-! ### Integers -/

/-- The number of digits of a base, at least one. -/
def digitsIn? (base : Nat) (cs : List Char) : Option Nat :=
  if cs = [] then none
  else
    match cs.mapM Hex.charDigit? with
    | none => none
    | some ds =>
      if ds.all (· < base) then some (ds.foldl (fun n d => n * base + d) 0) else none

/-- The base that a mark in front of digits stands for. -/
def baseOf : Char → Option Nat
  | 'x' => some 16
  | 'o' => some 8
  | 'b' => some 2
  | _ => none

/-- A number without a sign: decimal digits, or a zero, the mark of a base, and digits of it. -/
def magnitude? (cs : List Char) : Option Nat :=
  match cs with
  | '0' :: m :: ds =>
    match baseOf m with
    | some base => digitsIn? base ds
    | none => digitsIn? 10 cs
  | _ => digitsIn? 10 cs

/-- A text that starts with a zero and goes on with digits only, perhaps after a sign, is no
number. -/
def isZeroPadded (cs : List Char) : Bool :=
  let ds := match cs with
    | '-' :: ds => ds
    | '+' :: ds => ds
    | ds => ds
  1 < ds.length && ds.head? == some '0' && ds.all Decimal.isDigit

/-- The integer that a text spells. -/
def integer? (cs : List Char) : Option Int :=
  if isZeroPadded cs then none
  else
    match cs with
    | '-' :: ds => (magnitude? ds).map fun n => -(n : Int)
    | '+' :: ds => (magnitude? ds).map fun n => (n : Int)
    | ds => (magnitude? ds).map fun n => (n : Int)

/-- An integer as a value: in a word, in a double beyond 128 bits, and none in between. -/
inductive Fit where
  | word (v : Value)
  | tooWide
  | beyond

/-- How an integer fits. -/
def Fit.of (i : Int) : Fit :=
  if 0 ≤ i ∧ i < UInt64.size then .word (.ofUInt64 (UInt64.ofNat i.toNat))
  else if -0x8000000000000000 ≤ i ∧ i < 0 then .word (.number (.int (Int64.ofInt i)))
  else if -0x80000000000000000000000000000000 ≤ i ∧ i < 0x100000000000000000000000000000000 then
    .tooWide
  else .beyond

/-! ### Floating-point numbers -/

/-- The sign of an exponent, whether it is negative, and its digits. -/
def exponentSign : List Char → Bool × List Char
  | '-' :: cs => (true, cs)
  | '+' :: cs => (false, cs)
  | cs => (false, cs)

/-- An exponent: nothing, or a letter, a sign and at least one digit, up to the end. -/
def exponent? : List Char → Option Int
  | [] => some 0
  | c :: cs =>
    if c = 'e' ∨ c = 'E' then
      let (negative, ds) := exponentSign cs
      (digitsIn? 10 ds).map fun n => if negative then -(n : Int) else n
    else none

/-- The fraction after a point, and the characters after it. -/
def fractionOf : List Char → List Char × List Char
  | '.' :: cs => (cs.takeWhile Decimal.isDigit, cs.dropWhile Decimal.isDigit)
  | cs => ([], cs)

/-- A decimal without a sign: digits, a point and more digits, at least one digit in all, and
perhaps an exponent. -/
def decimal? (negative : Bool) (cs : List Char) : Option Binary64 :=
  let whole := cs.takeWhile Decimal.isDigit
  let (fraction, rest) := fractionOf (cs.dropWhile Decimal.isDigit)
  let ds := (whole ++ fraction).filterMap Decimal.digit?
  if ds = [] then none
  else
    (exponent? rest).map fun e =>
      Decimal.nearest negative (Decimal.ofDigits ds) (e - fraction.length)

/-- The text spells infinity, without its sign. -/
def isInfinity (cs : List Char) : Bool :=
  [".inf", ".Inf", ".INF"].any (·.toList == cs)

/-- The text spells a number that is none. -/
def isNotANumber (cs : List Char) : Bool :=
  [".nan", ".NaN", ".NAN"].any (·.toList == cs)

/-- The double that a text spells. A decimal too large for one is a text. -/
def float? (cs : List Char) : Option Binary64 :=
  let (negative, ds) := match cs with
    | '-' :: ds => (true, ds)
    | '+' :: ds => (false, ds)
    | ds => (false, ds)
  if isInfinity ds then some (.infinity negative)
  else if isNotANumber cs then some .nan
  else
    match decimal? negative ds with
    | some x => if x.isFinite then some x else none
    | none => none

/-! ### Values -/

/-- An integer as a value, unless it is too wide for a word and not wide enough for a double. -/
def Fit.value? (i : Int) : Option (Except Refusal Value) :=
  match Fit.of i with
  | .word v => some (.ok v)
  | .tooWide => some (.error (.wideInteger i))
  | .beyond => none

/-- The meaning of a plain scalar without a tag. An integer between 64 and 128 bits is refused. -/
def plainValue (cs : List Char) : Except Refusal Value :=
  if cs = [] || isNull cs then .ok .null
  else
    match bool? cs with
    | some b => .ok (.bool b)
    | none =>
      match (integer? cs).bind Fit.value? with
      | some r => r
      | none =>
        match (if isZeroPadded cs then none else float? cs) with
        | some x => .ok (.number (.float x))
        | none => .ok (.string (String.ofList cs))

/-- A tag of the core kinds. -/
def coreTag (name : String) : List UInt8 :=
  utf8 ("tag:yaml.org,2002:" ++ name)

/-- The tag is one of the document's own. -/
def isOwnTag (tag : Option (List UInt8)) : Bool :=
  match tag with
  | some (b :: rest) =>
    b == 0x21 && (Utf8.decode? (if rest = [] then [b] else rest)).isSome
  | _ => false

/-- The value of a scalar that a tag asks a meaning of. -/
def Meaning.value (m : Meaning) (cs : List Char) (v : Option Value) : Except Refusal Value :=
  match v with
  | some v => .ok v
  | none => .error (.notSpelled (String.ofList cs) m)

/-- The meaning of a scalar with a tag that is not the document's own. -/
def taggedValue (tag : List UInt8) (cs : List Char) : Except Refusal Value :=
  if tag = coreTag "bool" then Meaning.bool.value cs ((bool? cs).map .bool)
  else if tag = coreTag "int" then
    match (integer? cs).bind Fit.value? with
    | some r => r
    | none => Meaning.integer.value cs none
  else if tag = coreTag "float" then
    Meaning.float.value cs ((float? cs).map fun x => .number (.float x))
  else if tag = coreTag "null" then
    Meaning.null.value cs (if isNull cs then some .null else none)
  else .ok (.string (String.ofList cs))

/-- The meaning of a scalar without a tag. -/
def untaggedValue (plain : Bool) (cs : List Char) : Except Refusal Value :=
  if plain then plainValue cs else .ok (.string (String.ofList cs))

/-- The meaning of a scalar. A tag with an exclamation mark that is no text counts as none. -/
def scalarValue (p : Properties) (plain : Bool) (cs : List Char) : Except Refusal Value :=
  if isOwnTag p.tag then .error .ownTag
  else
    match p.tag with
    | none => untaggedValue plain cs
    | some tag => if tag.head? = some 0x21 then untaggedValue plain cs else taggedValue tag cs

end Yaml

end SealedLedger
