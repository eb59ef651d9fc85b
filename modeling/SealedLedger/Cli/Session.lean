import SealedLedger.Cli.Files
import SealedLedger.ClockSetting
import SealedLedger.Ledger.Store

/-!
# Sessions of the command line

A run of a command reads and writes files, draws identifiers and prints lines. It ends with an exit
code, or fails with a message that names the failure and its causes, outermost first.

## Main definitions

* `Environment` — what a run is given besides its arguments.
* `Session` — the files, the supply of identifiers and the lines printed.
* `Outcome` — how a run ends.
* `loadDocument` — a value read from a file.
-/

namespace SealedLedger

/-- What a run is given besides its arguments: the two variables that set the clock, and the time of
the machine. -/
structure Environment where
  clock : Option String
  strictness : Option String
  machine : Timestamp

/-- How a run ends. -/
inductive Outcome where
  | exit (code : Nat)
  | failure (message : String)
  deriving DecidableEq

/-- The files, the supply of identifiers, and the lines printed so far. -/
structure Session where
  files : Files
  draws : Draws
  out : List String
  err : List String

namespace Session

/-- A line printed. -/
def print (s : Session) (line : String) : Session :=
  { s with out := s.out ++ [line] }

/-- A line printed as a complaint. -/
def complain (s : Session) (line : String) : Session :=
  { s with err := s.err ++ [line] }

/-- Lines printed. -/
def printAll (s : Session) (lines : List String) : Session :=
  { s with out := s.out ++ lines }

end Session

/-! ### Messages -/

/-- A message in front of its cause. -/
def because (message cause : String) : String :=
  message ++ ": " ++ cause

/-- A message that names its cause by itself, in front of that cause. -/
def becauseWith (lead cause : String) : String :=
  because (because lead cause) cause

/-- A refusal to canonicalize, with its cause. -/
def canonicalFailure (e : CanonicalError) : String :=
  becauseWith "canonicalization error" e.message

/-- A file that could not be read or written, with its cause. -/
def fileFailure (e : FileError) : String :=
  becauseWith "io error" e.message

/-- A refusal of a stored ledger, with its cause. -/
def storeFailure : StoreError → String
  | .unreadable e => becauseWith "serialization error" e.message
  | .unwritable e => becauseWith "serialization error" (Json.unwritable e)
  | e => e.message

/-! ### Documents and clocks -/

/-- The value of the document in a file. -/
def loadDocument (fs : Files) (path : String) : Except String Value :=
  match fs.readText? path with
  | .error e => .error (because ("failed to read " ++ path) e.message)
  | .ok text =>
    match Document.read? path text with
    | .error e => .error (because ("failed to parse " ++ path) e.message)
    | .ok v => .ok v

/-- The clock that the environment sets. -/
def Environment.clock? (env : Environment) : Except String Clock :=
  match ClockSetting.ofEnvironment? env.clock env.strictness with
  | .error e => .error (because "invalid clock configuration" e.message)
  | .ok setting => .ok setting.clock

end SealedLedger
