import SealedLedger.Decimal.Digits
import SealedLedger.Text.Quoted

/-!
# Errors of a YAML text

A YAML text fails in two ways. Its form may be wrong: then the place of the fault is named, what was
being read there, and where that starts. Or its form is right and a node in it is no value: then
the way to the node is named by the keys and the positions on it, and the place where it starts.
The start of the text is never named as a place, nor is a place named twice.

## Main definitions

* `Yaml.Mark` — a place in a text.
* `Yaml.Fault` — what is wrong with the form of a text.
* `Yaml.Refusal`, `Yaml.Path` — why a node is no value, and the way to it.
* `Yaml.Error` — why a text spells no value, with its wording.
-/

namespace SealedLedger

namespace Yaml

/-! ### Places -/

/-- A place in a text: how many lines stand before its own, and how many characters before it in
that line. -/
structure Mark where
  line : Nat
  column : Nat
  deriving DecidableEq

/-- The start of a text. -/
def Mark.start : Mark :=
  ⟨0, 0⟩

/-- A place as it follows what is reported there, counted from one. -/
def Mark.located (m : Mark) : String :=
  if m = .start then ""
  else " at line " ++ Decimal.shown (m.line + 1) ++ " column " ++ Decimal.shown (m.column + 1)

/-! ### Faults of form -/

/-- What is wrong with the form of a text. -/
inductive Problem where
  | notAToken
  | keyWithoutColon
  | entryOutOfPlace
  | keyOutOfPlace
  | valueOutOfPlace
  | noDirectiveName
  | directiveNameGoesOn
  | unknownDirective
  | lineGoesOn
  | noVersionNumber
  | longVersionNumber
  | noVersionPoint
  | noBlank
  | noBlankOrBreak
  | noName
  | noExclamationMark
  | noClosingAngle
  | noTagText
  | noEscapedByte
  | badLeadingByte
  | badTrailingByte
  | zeroIndentation
  | tabForIndentation
  | tabBeforeIndentation
  | documentEdge
  | endOfText
  | unknownEscape
  | noHexDigits
  | notACharacter
  | colonInBrackets
  | noDocumentStart
  | repeatedVersion
  | foreignVersion
  | repeatedHandle
  | unknownHandle
  | noContent
  | noHyphen
  | noKey
  | noCommaOrBracket
  | noCommaOrBrace
  deriving DecidableEq

/-- The wording of a problem. -/
def Problem.message : Problem → String
  | .notAToken => "found character that cannot start any token"
  | .keyWithoutColon => "could not find expected ':'"
  | .entryOutOfPlace => "block sequence entries are not allowed in this context"
  | .keyOutOfPlace => "mapping keys are not allowed in this context"
  | .valueOutOfPlace => "mapping values are not allowed in this context"
  | .noDirectiveName => "could not find expected directive name"
  | .directiveNameGoesOn => "found unexpected non-alphabetical character"
  | .unknownDirective => "found unknown directive name"
  | .lineGoesOn => "did not find expected comment or line break"
  | .noVersionNumber => "did not find expected version number"
  | .longVersionNumber => "found extremely long version number"
  | .noVersionPoint => "did not find expected digit or '.' character"
  | .noBlank => "did not find expected whitespace"
  | .noBlankOrBreak => "did not find expected whitespace or line break"
  | .noName => "did not find expected alphabetic or numeric character"
  | .noExclamationMark => "did not find expected '!'"
  | .noClosingAngle => "did not find the expected '>'"
  | .noTagText => "did not find expected tag URI"
  | .noEscapedByte => "did not find URI escaped octet"
  | .badLeadingByte => "found an incorrect leading UTF-8 octet"
  | .badTrailingByte => "found an incorrect trailing UTF-8 octet"
  | .zeroIndentation => "found an indentation indicator equal to 0"
  | .tabForIndentation => "found a tab character where an indentation space is expected"
  | .tabBeforeIndentation => "found a tab character that violates indentation"
  | .documentEdge => "found unexpected document indicator"
  | .endOfText => "found unexpected end of stream"
  | .unknownEscape => "found unknown escape character"
  | .noHexDigits => "did not find expected hexdecimal number"
  | .notACharacter => "found invalid Unicode character escape code"
  | .colonInBrackets => "found unexpected ':'"
  | .noDocumentStart => "did not find expected <document start>"
  | .repeatedVersion => "found duplicate %YAML directive"
  | .foreignVersion => "found incompatible YAML document"
  | .repeatedHandle => "found duplicate %TAG directive"
  | .unknownHandle => "found undefined tag handle"
  | .noContent => "did not find expected node content"
  | .noHyphen => "did not find expected '-' indicator"
  | .noKey => "did not find expected key"
  | .noCommaOrBracket => "did not find expected ',' or ']'"
  | .noCommaOrBrace => "did not find expected ',' or '\x7d'"

/-- What was being read when a problem was found. -/
inductive Activity where
  | token
  | simpleKey
  | directive
  | version
  | handleLine
  | handleMark
  | handleName
  | handleStem
  | anchor
  | alias
  | tag
  | tagText
  | blockScalar
  | quotedScalar
  | quotedEscape
  | plainScalar
  | node
  | blockNode
  | flowNode
  | blockSequence
  | blockMapping
  | flowSequence
  | flowMapping
  deriving DecidableEq

/-- The wording of an activity. -/
def Activity.message : Activity → String
  | .token => "while scanning for the next token"
  | .simpleKey => "while scanning a simple key"
  | .directive => "while scanning a directive"
  | .version => "while scanning a %YAML directive"
  | .handleLine => "while scanning a %TAG directive"
  | .handleMark => "while scanning a tag directive"
  | .handleName => "while parsing a tag directive"
  | .handleStem => "while parsing a %TAG directive"
  | .anchor => "while scanning an anchor"
  | .alias => "while scanning an alias"
  | .tag => "while scanning a tag"
  | .tagText => "while parsing a tag"
  | .blockScalar => "while scanning a block scalar"
  | .quotedScalar => "while scanning a quoted scalar"
  | .quotedEscape => "while parsing a quoted scalar"
  | .plainScalar => "while scanning a plain scalar"
  | .node => "while parsing a node"
  | .blockNode => "while parsing a block node"
  | .flowNode => "while parsing a flow node"
  | .blockSequence => "while parsing a block collection"
  | .blockMapping => "while parsing a block mapping"
  | .flowSequence => "while parsing a flow sequence"
  | .flowMapping => "while parsing a flow mapping"

/-- What is being read, and where it starts. -/
structure Context where
  activity : Activity
  start : Mark
  deriving DecidableEq

/-- A problem with its place and, for most problems, what was being read. -/
structure Fault where
  problem : Problem
  mark : Mark
  context : Option Context
  deriving DecidableEq

/-- The wording of a fault. -/
def Fault.message (f : Fault) : String :=
  f.problem.message ++ f.mark.located ++
    match f.context with
    | none => ""
    | some c =>
      ", " ++ c.activity.message ++ (if c.start = f.mark then "" else c.start.located)

/-! ### Refusals of nodes -/

/-- What a tag of the core kinds asks of a scalar. -/
inductive Meaning where
  | null
  | bool
  | integer
  | float
  deriving DecidableEq

/-- A meaning as it is named where a scalar lacks it. -/
def Meaning.describe : Meaning → String
  | .null => "null"
  | .bool => "a boolean"
  | .integer => "an integer"
  | .float => "a float"

/-- Why a node is no value. -/
inductive Refusal where
  | wideInteger (i : Int)
  | ownTag
  | notSpelled (text : String) (m : Meaning)
  | sequenceAsKey
  | mappingAsKey
  | repeatedKey (key : String)
  deriving DecidableEq

/-- What a value is called where something else is found. -/
def anyValue : String :=
  "a JSON-model value (null, bool, number, string, array, or string-keyed map)"

/-- The wording of a refusal. -/
def Refusal.message : Refusal → String
  | .wideInteger i =>
    "invalid type: integer \x60" ++ String.ofList (Decimal.intText i) ++ "\x60 as " ++
      (if i < 0 then "i128" else "u128") ++ ", expected " ++ anyValue
  | .ownTag => "invalid type: enum, expected " ++ anyValue
  | .notSpelled text m =>
    "invalid value: string " ++ Quoted.string text ++ ", expected " ++ m.describe
  | .sequenceAsKey => "invalid type: sequence, expected a string"
  | .mappingAsKey => "invalid type: map, expected a string"
  | .repeatedKey key => "duplicate key " ++ Quoted.string key

/-- The way to a node. A value whose key is an alias is not named by it. -/
inductive Path where
  | root
  | item (parent : Path) (index : Nat)
  | member (parent : Path) (key : String)
  | unnamed (parent : Path)
  deriving DecidableEq

/-- The wording of a path. -/
def Path.text : Path → String
  | .root => "."
  | .item parent index => parent.text ++ "[" ++ Decimal.shown index ++ "]"
  | .member .root key => key
  | .member parent key => parent.text ++ "." ++ key
  | .unnamed .root => "?"
  | .unnamed parent => parent.text ++ "." ++ "?"

/-- A path in front of what is reported there. The root is not named. -/
def Path.lead (p : Path) : String :=
  if p.text = "." then "" else p.text ++ ": "

/-! ### Errors -/

/-- Why a text spells no value. -/
inductive Error where
  | control (position : Nat)
  | malformed (f : Fault)
  | endOfText
  | unknownAnchor (mark : Mark)
  | nestedTooDeep (mark : Mark)
  | tooManyAliases
  | refused (reason : Refusal) (path : Path) (mark : Mark)
  | severalDocuments
  deriving DecidableEq

/-- The wording of an error. -/
def Error.message : Error → String
  | .control position =>
    "control characters are not allowed" ++
      (if position = 0 then "" else " at position " ++ Decimal.shown position)
  | .malformed f => f.message
  | .endOfText => "EOF while parsing a value"
  | .unknownAnchor mark => "unknown anchor" ++ mark.located
  | .nestedTooDeep mark => "recursion limit exceeded" ++ mark.located
  | .tooManyAliases => "repetition limit exceeded"
  | .refused reason path mark => path.lead ++ reason.message ++ mark.located
  | .severalDocuments =>
    "deserializing from YAML containing more than one document is not supported"

end Yaml

end SealedLedger
