import SealedLedger.Digest
import SealedLedger.Json.Record
import SealedLedger.Json.Skip
import SealedLedger.Json.Writer

/-!
# Test vectors

A test vector is an input with the canonical text and the digest it must have. A suite of them lets
a second implementation be checked against this one. A suite is stored as an indented JSON array;
a vector read from it may lack the two expected texts and may have fields of other names.

## Main definitions

* `TestVector.generate?` — the vector of an input.
* `TestVector.verify` — the outcome of a vector.
* `Suite.regenerate?` — a suite with all expected texts filled in.
* `Suite.regenerate` — the same in place.
* `Suite.json?`, `Suite.ofJson?` — a suite as it is stored.
-/

namespace SealedLedger

/-! ### Vectors -/

/-- An input with the canonical text and the digest it must have. -/
structure TestVector where
  description : String
  input : Value
  expectedCanonical : String
  expectedHash : String

/-- Why a vector could not be checked. -/
inductive VectorError where
  | canonical (e : CanonicalError)
  | digest (e : DigestError)
  deriving DecidableEq

/-- The wording of an error. -/
def VectorError.message : VectorError → String
  | .canonical e => "canonicalization error: " ++ e.message
  | .digest e => "digest error: " ++ e.message

/-- The outcome of a vector. -/
inductive Status where
  | passed
  | canonicalMismatch (expected actual : String)
  | hashMismatch (expected actual : String)
  | failed (e : VectorError)
  deriving DecidableEq

namespace TestVector

/-- The canonical text of an input and the text of its digest. -/
def expectations? (input : Value) : Except CanonicalError (String × String) :=
  match Canonical.text input with
  | .error e => .error e
  | .ok cs => .ok (String.ofList cs, (Digest.mk (Sha256.hash (Utf8.encode cs))).text)

/-- The vector of an input. -/
def generate? (description : String) (input : Value) : Except CanonicalError TestVector :=
  match expectations? input with
  | .error e => .error e
  | .ok (canonical, hash) => .ok ⟨description, input, canonical, hash⟩

/-- The outcome of a vector. An expected digest that is none is an error of its own. -/
def verify (v : TestVector) : Status :=
  match Digest.parse? v.expectedHash with
  | .error e => .failed (.digest e)
  | .ok _ =>
    match expectations? v.input with
    | .error e => .failed (.canonical e)
    | .ok (canonical, hash) =>
      if canonical ≠ v.expectedCanonical then .canonicalMismatch v.expectedCanonical canonical
      else if hash ≠ v.expectedHash then .hashMismatch v.expectedHash hash
      else .passed

/-- The stored form of a vector. -/
def toValue (v : TestVector) : Value :=
  .object [("description", .string v.description), ("input", v.input),
    ("expected_canonical", .string v.expectedCanonical), ("expected_hash", .string v.expectedHash)]

/-! ### Reading a vector -/

/-- A field of a stored vector. -/
inductive Field where
  | description
  | input
  | expectedCanonical
  | expectedHash
  deriving DecidableEq

/-- The fields in the order they are stored. -/
def Field.all : List Field :=
  [.description, .input, .expectedCanonical, .expectedHash]

/-- The name of a field. -/
def Field.name : Field → String
  | .description => "description"
  | .input => "input"
  | .expectedCanonical => "expected_canonical"
  | .expectedHash => "expected_hash"

/-- The field of a name. -/
def Field.ofName? (name : String) : Option Field :=
  Field.all.find? fun f => f.name == name

/-- The fields of a vector read so far. -/
structure Draft where
  description : Option String
  input : Option Value
  expectedCanonical : Option String
  expectedHash : Option String

namespace Draft

/-- No field read. -/
def empty : Draft :=
  ⟨none, none, none, none⟩

/-- The field has been read. -/
def has (d : Draft) : Field → Bool
  | .description => d.description.isSome
  | .input => d.input.isSome
  | .expectedCanonical => d.expectedCanonical.isSome
  | .expectedHash => d.expectedHash.isSome

/-- The vector of the fields, or the fault of the first required one absent. -/
def vector? (d : Draft) : Except Json.Fault TestVector :=
  match d.description, d.input with
  | none, _ => .error (.missingField Field.description.name)
  | some _, none => .error (.missingField Field.input.name)
  | some description, some input =>
    .ok ⟨description, input, d.expectedCanonical.getD "", d.expectedHash.getD ""⟩

end Draft

/-- What a vector is called in errors. -/
def expected : String := "struct TestVector"

/-- A field that is a string. -/
def textReader : Json.Reader String :=
  Json.text "a string"

/-- Reads the value of a field into a draft. -/
def fieldReader (depth : Json.Depth) (d : Draft) : Field → Json.Reader Draft
  | .description => do return { d with description := some (← textReader) }
  | .input => do return { d with input := some (← Json.value true depth) }
  | .expectedCanonical => do return { d with expectedCanonical := some (← textReader) }
  | .expectedHash => do return { d with expectedHash := some (← textReader) }

/-- Reads a member of a stored vector into a draft; a member of another name is passed over. -/
def memberReader (depth : Json.Depth) (d : Draft) (key : String) : Json.Reader Draft := fun input =>
  match Field.ofName? key with
  | none =>
    match Json.colon input with
    | .error stop => .error stop
    | .ok ((), rest) =>
      match Json.skip rest with
      | .error stop => .error stop
      | .ok ((), rest) => .ok (d, rest)
  | some f =>
    if d.has f then .error (.pending (.repeatedField f.name) input)
    else
      match Json.colon input with
      | .error stop => .error stop
      | .ok ((), rest) => fieldReader depth d f rest

/-- The inside of a vector stored as an object. -/
def objectReader (depth : Json.Depth) : Json.Reader TestVector := fun input =>
  match Json.members (memberReader depth) .empty input with
  | .error stop => .error stop
  | .ok (d, rest) =>
    match d.vector? with
    | .ok v => .ok (v, rest)
    | .error fault => .error (.pending fault rest)

/-- The fault of a vector stored as an array that is too short. -/
def tooShort (count : Nat) : Json.Fault :=
  .wrongLength count (expected ++ " with 4 elements")

/-- The inside of a vector stored as an array. -/
def arrayReader (depth : Json.Depth) : Json.Reader TestVector := do
  let description ← Json.positional 0 textReader (.error (tooShort 0))
  let input ← Json.positional 1 (Json.value true depth) (.error (tooShort 1))
  let canonical ← Json.positional 2 textReader (.ok "")
  let hash ← Json.positional 3 textReader (.ok "")
  return ⟨description, input, canonical, hash⟩

/-- A stored vector. -/
def reader (depth : Json.Depth) : Json.Reader TestVector :=
  Json.record expected arrayReader objectReader depth

end TestVector

/-! ### Suites -/

/-- A list of test vectors. -/
structure Suite where
  vectors : List TestVector

namespace Suite

/-- The outcome of each vector. -/
def verify (s : Suite) : List Status :=
  s.vectors.map TestVector.verify

/-- Vectors with their expected texts filled in, or the refusal of the first input that has no
canonical text. -/
def regenerateAll : List TestVector → Except CanonicalError (List TestVector)
  | [] => .ok []
  | v :: vs =>
    match TestVector.generate? v.description v.input with
    | .error e => .error e
    | .ok w =>
      match regenerateAll vs with
      | .error e => .error e
      | .ok ws => .ok (w :: ws)

/-- The suite with all expected texts filled in. -/
def regenerate? (s : Suite) : Except CanonicalError Suite :=
  (regenerateAll s.vectors).map Suite.mk

/-- Fills in all expected texts of the suite at hand. The suite is replaced once every input has its
canonical text, so a refusal finds it as it was. -/
def regenerate : EStateM CanonicalError Suite Unit := do
  let suite ← get
  match regenerateAll suite.vectors with
  | .error e => throw e
  | .ok vectors => set (Suite.mk vectors)

/-- The stored form of a suite. -/
def toValue (s : Suite) : Value :=
  .array (s.vectors.map TestVector.toValue)

/-- The text of a suite. -/
def json? (s : Suite) : Except CanonicalError (List Char) :=
  (Json.indented s.toValue).map (· ++ ['\n'])

/-- The suite of a text. -/
def ofJson? (bytes : List UInt8) : Except Json.Error Suite :=
  (Json.whole (Json.sequence TestVector.reader Json.maxDepth) bytes).map Suite.mk

/-- The wording of the refusal of a text that is no suite. -/
def unreadable (e : Json.Error) : String :=
  "serialization error: " ++ e.message

end Suite

end SealedLedger
