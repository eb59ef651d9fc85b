import SealedLedger.Cli.Session
import SealedLedger.Suite

/-!
# Checking and generating test vectors

Suites of test vectors are checked file by file, and every vector that does not pass is reported. A
suite can also be written anew with all its expected texts filled in.

## Main definitions

* `Cli.verifyVectors`, `Cli.generateVectors`.
-/

namespace SealedLedger

namespace Cli

/-- The suite in a file. -/
def loadSuite (fs : Files) (path : String) : Except String Suite :=
  let lead := "failed to load test vectors from " ++ path
  match fs.readText? path with
  | .error e => .error (because lead (fileFailure e))
  | .ok text =>
    match Suite.ofJson? (Utf8.encode text) with
    | .error e =>
      .error (because lead ("test vector error: " ++ because path (Suite.unreadable e)))
    | .ok suite => .ok suite

/-- The lines that report the outcome of a vector, none for one that passed. -/
def outcomeLines (description : String) : Status → List String
  | .passed => []
  | .canonicalMismatch expected actual =>
    ["  FAIL: " ++ description ++ ": canonical mismatch", "    expected: " ++ expected,
      "    actual:   " ++ actual]
  | .hashMismatch expected actual =>
    ["  FAIL: " ++ description ++ ": hash mismatch", "    expected: " ++ expected,
      "    actual:   " ++ actual]
  | .failed e => ["  FAIL: " ++ description ++ ": " ++ e.message]

/-- The report on a suite, and whether all its vectors passed. -/
def suiteReport (path : String) (suite : Suite) : List String × Bool :=
  let outcomes := suite.verify
  let passed := outcomes.countP (· == .passed)
  let lines := (suite.vectors.zip outcomes).flatMap fun (v, o) => outcomeLines v.description o
  let summary :=
    path ++ ": " ++ Decimal.shown passed ++ "/" ++ Decimal.shown outcomes.length ++ " passed"
  (summary :: lines, passed == outcomes.length)

/-- Checks the suites in files. -/
def verifyVectors (s : Session) (allPassed : Bool) : List String → Outcome × Session
  | [] => (.exit (if allPassed then 0 else 1), s)
  | path :: paths =>
    match loadSuite s.files path with
    | .error message => (.failure message, s)
    | .ok suite =>
      let (lines, passed) := suiteReport path suite
      verifyVectors (s.printAll lines) (allPassed && passed) paths

/-- Writes the suite in a file anew with its expected texts filled in. -/
def generateVectors (s : Session) (path : String) : Outcome × Session :=
  match loadSuite s.files path with
  | .error message => (.failure message, s)
  | .ok suite =>
    match suite.regenerate? with
    | .error e => (.failure (because "failed to compute expected fields" (canonicalFailure e)), s)
    | .ok suite =>
      let lead := "failed to write " ++ path
      match suite.json? with
      | .error e =>
        (.failure (because lead (becauseWith "serialization error" (Json.unwritable e))), s)
      | .ok text =>
        match s.files.write? path (Utf8.encode text) with
        | .error e => (.failure (because lead (fileFailure e)), s)
        | .ok files =>
          (.exit 0, { s with files := files }.print
            ("Regenerated " ++ Decimal.shown suite.vectors.length ++ " case(s) in " ++ path))

end Cli

end SealedLedger
