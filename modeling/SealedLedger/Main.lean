import SealedLedger.Cli.Run
import Std.Time.DateTime.Timestamp

/-!
# The program

Runs the command that its arguments name on the files of the machine. What the command may look at
is read before it runs, and what it has written is stored after it. The exit code is that of the
command, or 2 when it fails or cannot be run.
-/

namespace SealedLedger

namespace Cli

/-- How the program is called. -/
def usage : List String :=
  ["Usage:",
    "  validate FILE [--json] [--print-canonical]",
    "  vectors verify FILE...",
    "  vectors generate FILE",
    "  ledger simulate [--payload FILE] [--record-type TYPE] [--out FILE]",
    "  ledger append --ledger FILE --payload FILE [--record-type TYPE]",
    "  ledger verify FILE [--audit]",
    "Each takes -v or --verbose, any number of times."]

/-- A place as the machine names it. -/
def pathOf : Place → String
  | ['/'] :: names => "/" ++ String.intercalate "/" (names.map String.ofList)
  | names => String.intercalate "/" (names.map String.ofList)

/-- What stands at a place on the machine. -/
def lookUp (place : Place) : IO (Option FileNode) := do
  try
    return some (.file (← IO.FS.readBinFile (pathOf place)).toList)
  catch
    | .noFileOrDirectory .. => return none
    | .inappropriateType .. => return some .directory
    | e => throw e

/-- What stands at the places that a command may look at. -/
def gatherFiles (c : Command) : IO Files := do
  let places := c.paths.flatMap Files.placesOf
  places.foldlM (fun fs place => do
    if (fs.at? place).isSome then return fs
    else
      match ← lookUp place with
      | none => return fs
      | some node => return fs.set place node) ⟨[]⟩

/-- Stores the files that a run has written. -/
def storeFiles (before after : Files) : IO Unit :=
  after.nodes.forM fun (place, node) =>
    match node with
    | .directory => return
    | .file bytes =>
      if before.at? place = some node then return
      else IO.FS.writeBinFile (pathOf place) ⟨bytes.toArray⟩

/-- A random word. -/
def randomWord : IO (BitVec 128) := do
  let bytes ← IO.getRandomBytes 16
  return BitVec.ofNat 128 (bytes.toList.foldl (fun n b => n * 256 + b.toNat) 0)

/-- Random words enough for a run, which draws at most three. -/
def randomDraws : IO Draws := do
  let words ← (List.range 3).mapM fun _ => randomWord
  return ⟨fun n => words.getD n 0, 0⟩

/-- The environment of the program. -/
def environment : IO Environment := do
  let seconds := (← Std.Time.Timestamp.now).toSecondsSinceUnixEpoch.val
  return ⟨← IO.getEnv "PAYGOD_CLOCK", ← IO.getEnv "PAYGOD_STRICT",
    (Timestamp.ofUnix? seconds false).getD .epoch⟩

/-- Runs a command on the files of the machine. -/
def runOnMachine (c : Command) : IO UInt32 := do
  let files ← gatherFiles c
  let (outcome, s) := c.run (← environment) ⟨files, ← randomDraws, [], []⟩
  storeFiles files s.files
  s.out.forM fun line => IO.println line
  s.err.forM fun line => IO.eprintln line
  match outcome with
  | .exit code => return UInt32.ofNat code
  | .failure message =>
    IO.eprintln ("error: " ++ message)
    return 2

/-- Answers a request for help or for the version, or a command line that cannot be run. -/
def refuse (v : Verdict) : IO UInt32 := do
  match v with
  | .help =>
    usage.forM fun line => IO.println line
    return 0
  | .version =>
    IO.println "0.1.0"
    return 0
  | v =>
    IO.eprintln ("error: " ++ v.message)
    usage.forM fun line => IO.eprintln line
    return 2

end Cli

end SealedLedger

/-- Runs the command that the arguments name. -/
def main (args : List String) : IO UInt32 :=
  match SealedLedger.Cli.Invocation.ofArguments? (some .verbosity) args with
  -- the count only says which lines of a log are shown, and no log is kept here
  | .ok i => SealedLedger.Cli.runOnMachine i.command
  | .error v => SealedLedger.Cli.refuse v
