import SealedLedger.Cli.Session

/-!
# Validating a document

A document is valid when it can be read and has a canonical text. Its digest and the size of its
canonical text are printed, in lines or as a JSON object, and on request the text itself.

## Main definitions

* `Cli.validate`.
-/

namespace SealedLedger

namespace Cli

/-- Why a document is not valid, with the exit code that says so. -/
structure Invalid where
  code : Nat
  message : String
  deriving DecidableEq

/-- The refusal of a file that cannot be read. -/
def Invalid.ofFile : FileError → Invalid
  | .notFound => ⟨1, "input file not found"⟩
  | .notText => ⟨1, "input is not valid UTF-8"⟩
  | e => ⟨2, "system error: " ++ e.message⟩

/-- The canonical text of the document in a file. -/
def canonicalOf? (fs : Files) (path : String) : Except Invalid (List Char) :=
  match fs.readText? path with
  | .error e => .error (.ofFile e)
  | .ok text =>
    match Document.read? path text with
    | .error e => .error ⟨1, e.message⟩
    | .ok v => (Canonical.text v).mapError fun e => ⟨1, e.message⟩

/-! ### Reports as JSON -/

/-- A JSON object of members already written. -/
def jsonObject (members : List (String × List Char)) : List Char :=
  '\x7b' :: Canonical.commaSeparated (members.map fun m => Canonical.member m.1 m.2) ++ ['\x7d']

/-- The report of a valid document as JSON. -/
def successJson (hash : String) (size : Nat) (canonical : Option (List Char)) : String :=
  let data := [("hash", Canonical.string hash), ("canonical_size", Decimal.natText size)] ++
    canonical.toList.map fun cs => ("canonical", Canonical.string (String.ofList cs))
  String.ofList (jsonObject [("status", Canonical.string "success"), ("code", ['0']),
    ("data", jsonObject data)])

/-- The report of a document that is not valid as JSON. -/
def errorJson (e : Invalid) : String :=
  String.ofList (jsonObject [("status", Canonical.string "error"),
    ("code", Decimal.natText e.code),
    ("errors", '[' :: jsonObject [("message", Canonical.string e.message)] ++ [']'])])

/-! ### The command -/

/-- Validates the document in a file. -/
def validate (s : Session) (path : String) (json printCanonical : Bool) : Outcome × Session :=
  match canonicalOf? s.files path with
  | .error e =>
    (.exit e.code,
      if json then s.print (errorJson e)
      else s.complain (because ("FAIL: " ++ path) e.message))
  | .ok cs =>
    let bytes := Utf8.encode cs
    let hash := (Digest.mk (Sha256.hash bytes)).text
    let extra := if printCanonical then some cs else none
    (.exit 0,
      if json then s.print (successJson hash bytes.length extra)
      else s.printAll (["OK: " ++ path, "  hash: " ++ hash,
        "  canonical_size: " ++ Decimal.shown bytes.length] ++ extra.toList.map String.ofList))

end Cli

end SealedLedger
