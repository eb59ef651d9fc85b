import SealedLedger.Decimal.Layout
import SealedLedger.Text.Quoted
import SealedLedger.Value

/-!
# Errors of a JSON text

A reader stops at the first fault. A fault of the text itself is placed where it was seen. A fault
of the data, such as a repeated key, is placed where the reader stands once it has left the
innermost array or object around it, and has no place when there is none.

## Main definitions

* `Json.Fault` — what is wrong, with its wording.
* `Json.Stop` — a fault with the bytes not yet read.
* `Json.Error` — a fault with its line and column in a text.
-/

namespace SealedLedger

namespace Json

/-- The kind of data that stood where another was expected. -/
inductive Found where
  | null
  | bool (b : Bool)
  | number (n : Number)
  | string (s : String)
  | sequence
  | map
  deriving DecidableEq

/-- Data as an error names it. -/
def Found.describe : Found → String
  | .null => "null"
  | .bool b => "boolean \x60" ++ (if b then "true" else "false") ++ "\x60"
  | .number (.int i) => "integer \x60" ++ String.ofList (Decimal.intText i.toInt) ++ "\x60"
  | .number (.uint u) => "integer \x60" ++ Decimal.shown u.toNat ++ "\x60"
  | .number (.float x) => "floating point \x60" ++ String.ofList (Layout.plain.write x) ++ "\x60"
  | .string s => "string " ++ Quoted.string s
  | .sequence => "sequence"
  | .map => "map"

/-- What is wrong with a text. -/
inductive Fault where
  | endInList
  | endInObject
  | endInString
  | endInValue
  | expectedColon
  | expectedListCommaOrEnd
  | expectedObjectCommaOrEnd
  | expectedIdent
  | expectedValue
  | invalidEscape
  | invalidNumber
  | numberOutOfRange
  | invalidCodePoint
  | controlCharacter
  | keyNotString
  | loneSurrogate
  | trailingComma
  | trailingCharacters
  | unpairedSurrogate
  | nestedTooDeep
  | repeatedKey (key : String)
  | missingField (name : String)
  | repeatedField (name : String)
  | unknownField (name : String) (known : List String)
  | wrongType (found : Found) (expected : String)
  | wrongValue (found : Found) (expected : String)
  | wrongLength (count : Nat) (expected : String)
  | refused (reason : String)
  deriving DecidableEq

/-- A name between backquotes. -/
def ticked (name : String) : String :=
  "\x60" ++ name ++ "\x60"

/-- The wording of a fault. -/
def Fault.message : Fault → String
  | .endInList => "EOF while parsing a list"
  | .endInObject => "EOF while parsing an object"
  | .endInString => "EOF while parsing a string"
  | .endInValue => "EOF while parsing a value"
  | .expectedColon => "expected " ++ ticked ":"
  | .expectedListCommaOrEnd => "expected " ++ ticked "," ++ " or " ++ ticked "]"
  | .expectedObjectCommaOrEnd => "expected " ++ ticked "," ++ " or " ++ ticked "\x7d"
  | .expectedIdent => "expected ident"
  | .expectedValue => "expected value"
  | .invalidEscape => "invalid escape"
  | .invalidNumber => "invalid number"
  | .numberOutOfRange => "number out of range"
  | .invalidCodePoint => "invalid unicode code point"
  | .controlCharacter => "control character (\\u0000-\\u001F) found while parsing a string"
  | .keyNotString => "key must be a string"
  | .loneSurrogate => "lone leading surrogate in hex escape"
  | .trailingComma => "trailing comma"
  | .trailingCharacters => "trailing characters"
  | .unpairedSurrogate => "unexpected end of hex escape"
  | .nestedTooDeep => "recursion limit exceeded"
  | .repeatedKey key => "duplicate key " ++ Quoted.string key
  | .missingField name => "missing field " ++ ticked name
  | .repeatedField name => "duplicate field " ++ ticked name
  | .unknownField name known =>
    "unknown field " ++ ticked name ++ ", expected one of " ++
      String.intercalate ", " (known.map ticked)
  | .wrongType found expected =>
    "invalid type: " ++ found.describe ++ ", expected " ++ expected
  | .wrongValue found expected =>
    "invalid value: " ++ found.describe ++ ", expected " ++ expected
  | .wrongLength count expected =>
    "invalid length " ++ Decimal.shown count ++ ", expected " ++ expected
  | .refused reason => reason

/-- A fault, the bytes not yet read, and whether the fault has its place. -/
structure Stop where
  fault : Fault
  unread : List UInt8
  placed : Bool
  deriving DecidableEq

namespace Stop

/-- A fault at the bytes not yet read. -/
def here (fault : Fault) (unread : List UInt8) : Stop := ⟨fault, unread, true⟩

/-- A fault at the next byte, which counts as read. -/
def next (fault : Fault) (unread : List UInt8) : Stop := ⟨fault, unread.drop 1, true⟩

/-- A fault that the array or object around it is yet to place. -/
def pending (fault : Fault) (unread : List UInt8) : Stop := ⟨fault, unread, false⟩

/-- The fault placed where it stands or, if it is not placed yet, where `leave` ends. -/
def place (leave : List UInt8 → List UInt8) (s : Stop) : Stop :=
  if s.placed then s else ⟨s.fault, leave s.unread, true⟩

end Stop

/-- A place in a text: the line from one, and the bytes of that line already read. -/
structure Position where
  line : Nat
  column : Nat
  deriving DecidableEq

/-- The place after the given bytes. -/
def Position.after (read : List UInt8) : Position :=
  ⟨1 + read.count 0x0A, (read.reverse.takeWhile (· != 0x0A)).length⟩

/-- A fault in a text. -/
structure Error where
  fault : Fault
  position : Option Position
  deriving DecidableEq

/-- The error of a reader that stopped in a text. -/
def Stop.error (input : List UInt8) (s : Stop) : Error :=
  ⟨s.fault,
    if s.placed then some (.after (input.take (input.length - s.unread.length))) else none⟩

/-- The wording of an error. -/
def Error.message (e : Error) : String :=
  match e.position with
  | none => e.fault.message
  | some p =>
    e.fault.message ++ " at line " ++ Decimal.shown p.line ++ " column " ++
      Decimal.shown p.column

end Json

end SealedLedger
