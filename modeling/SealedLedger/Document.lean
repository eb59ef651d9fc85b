import SealedLedger.Json.Reader
import SealedLedger.Yaml.Reader

/-!
# Documents

A document is a text in one of two formats. The name of its file decides which: a name that ends in
`.yaml` or `.yml`, in letters of either case, is that of a YAML text, and any other name that of a
JSON text.

## Main definitions

* `Document.isYaml` — the format of a file name.
* `Document.read?` — the value of a document.
-/

namespace SealedLedger

namespace Document

/-- Why a text is no document. -/
inductive Error where
  | json (e : Json.Error)
  | yaml (e : Yaml.Error)
  deriving DecidableEq

/-- The wording of an error. -/
def Error.message : Error → String
  | .json e => "invalid JSON: " ++ e.malformed
  | .yaml e => "invalid YAML: " ++ e.message

/-! ### Formats -/

/-- The parts of a path between its slashes. -/
def splitPath : List Char → List (List Char)
  | [] => [[]]
  | c :: cs =>
    if c = '/' then [] :: splitPath cs
    else
      match splitPath cs with
      | [] => [[c]]
      | p :: ps => (c :: p) :: ps

/-- The last part of a path. Empty parts and single points name nothing. -/
def fileName? (path : String) : Option (List Char) :=
  ((splitPath path.toList).filter fun p => p ≠ [] && p ≠ ['.']).getLast?

/-- The extension of a file name: what follows its last point, unless the name starts there. -/
def extension? (name : List Char) : Option (List Char) :=
  if name = ['.', '.'] then none
  else
    let ext := (name.reverse.takeWhile (· != '.')).reverse
    if name.length ≤ ext.length + 1 then none else some ext

/-- The path names a YAML text. -/
def isYaml (path : String) : Bool :=
  match (fileName? path).bind extension? with
  | none => false
  | some ext =>
    let lower := ext.map Char.toLower
    lower == ['y', 'a', 'm', 'l'] || lower == ['y', 'm', 'l']

/-! ### Reading -/

/-- The value of a document. -/
def read? (path : String) (text : List Char) : Except Error Value :=
  if isYaml path then (Yaml.read? text).mapError .yaml
  else (Json.read? (Utf8.encode text)).mapError .json

end Document

end SealedLedger
