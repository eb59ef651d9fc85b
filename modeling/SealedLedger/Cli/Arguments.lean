/-!
# Arguments of the command line

A command line names a command and gives it options and files. An option is written `--name value`
or `--name=value`, a flag `--name`, and after `--` every argument is a file. Arguments are read from
the left. What the command does not know is refused at once; the value of an option and the files
are checked when the next argument that the command knows is read, or at the end; and what is
missing is found last.

The program has a counter, `-v` or `--verbose`, which says how much it logs. It may be given any
number of times, also in front of a command and among the letters of one argument. Where it is given
at several levels the innermost one counts. A command line can be read without the counter too.

## Main definitions

* `Cli.Command` — a command with its options and files.
* `Cli.Verdict` — why a command line is not run.
* `Cli.Counter` — a flag that is counted.
* `Cli.Reading.next` — the next argument of a command.
* `Cli.Invocation.ofArguments?` — the command that arguments name.
-/

namespace SealedLedger

namespace Cli

/-- A command with its options and files. -/
inductive Command where
  | validate (path : String) (json printCanonical : Bool)
  | verifyVectors (paths : List String)
  | generateVectors (path : String)
  | simulate (payload : Option String) (recordType : String) (target : Option String)
  | append (ledger payload recordType : String)
  | verifyLedger (path : String) (audit : Bool)
  deriving DecidableEq

/-- Why a command line is not run. -/
inductive Verdict where
  | helpWhenBare
  | help
  | version
  | missingCommand
  | missingArgument
  | unknownCommand
  | unknownArgument
  | missingValue
  | needlessValue
  | repeated
  deriving DecidableEq

/-- The wording of a verdict. -/
def Verdict.message : Verdict → String
  | .helpWhenBare => "a command is needed"
  | .help => "help was asked for"
  | .version => "the version was asked for"
  | .missingCommand => "no command is named"
  | .missingArgument => "a required argument is missing"
  | .unknownCommand => "there is no such command"
  | .unknownArgument => "there is no such argument"
  | .missingValue => "an option needs a value"
  | .needlessValue => "a flag takes no value"
  | .repeated => "an option is given twice"

/-! ### Single arguments -/

/-- An argument by its form. -/
inductive Argument where
  | separator
  | long (name : String) (attached : Option String)
  | short (letters : List Char)
  | plain (text : String)
  deriving DecidableEq

/-- The form of an argument. A hyphen alone is plain. -/
def Argument.of (s : String) : Argument :=
  match s.toList with
  | ['-', '-'] => .separator
  | '-' :: '-' :: cs =>
    let name := cs.takeWhile (· != '=')
    let rest := cs.drop name.length
    .long (String.ofList name) (if rest = [] then none else some (String.ofList (rest.drop 1)))
  | '-' :: c :: cs => .short (c :: cs)
  | _ => .plain s

/-! ### The counter -/

/-- A flag that may be given at every level of a command line and any number of times: its letter
and its name. -/
structure Counter where
  letter : Char
  name : String

namespace Counter

/-- The counter of the program. -/
def verbosity : Counter :=
  ⟨'v', "verbose"⟩

/-- A count after one more time. It is held in a byte, which stays at its largest value. -/
def more (count : Nat) : Nat :=
  min 255 (count + 1)

/-- The count that holds at a level: its own, or that of the level around it. -/
def innermost (outer count : Nat) : Nat :=
  if count = 0 then outer else count

end Counter

/-- The letter is that of the counter, if there is one. -/
def counts (counter : Option Counter) (letter : Char) : Bool :=
  counter.any (·.letter == letter)

/-- The name is that of the counter, if there is one. -/
def countsName (counter : Option Counter) (name : String) : Bool :=
  counter.any (·.name == name)

/-! ### The arguments of a command -/

/-- What a command takes: flags, options with whether their value is a path, and files, up to a
number of them. -/
structure Shape where
  flags : List String
  options : List (String × Bool)
  files : Option Nat

/-- What a command line gives to a command, and how often it gives the counter. -/
structure Given where
  flags : List String
  options : List (String × String)
  files : List String
  count : Nat
  deriving DecidableEq

/-- Arguments that have been read and not yet been checked: an option with its value, if that has
come, or files that follow each other. -/
inductive Pending where
  | nothing
  | option (name : String) (isPath : Bool) (value : Option String)
  | files (paths : List String)
  deriving DecidableEq

namespace Given

/-- Nothing given. -/
def none : Given :=
  ⟨[], [], [], 0⟩

/-- The flag is given. -/
def has (g : Given) (name : String) : Bool :=
  g.flags.contains name

/-- The value of an option. -/
def option? (g : Given) (name : String) : Option String :=
  (g.options.find? (·.1 == name)).map (·.2)

/-- An option with its value added. An option is given once, and a path is not empty. -/
def addOption (g : Given) (name value : String) (isPath : Bool) : Except Verdict Given :=
  if (g.option? name).isSome then .error .repeated
  else if isPath && value == "" then .error .missingValue
  else .ok { g with options := g.options ++ [(name, value)] }

/-- A flag added. A flag is given once. -/
def addFlag (g : Given) (name : String) : Except Verdict Given :=
  if g.has name then .error .repeated else .ok { g with flags := g.flags ++ [name] }

/-- The counter added once more. -/
def addCount (g : Given) : Given :=
  { g with count := Counter.more g.count }

/-- Pending arguments checked and added. -/
def settle (g : Given) : Pending → Except Verdict Given
  | .nothing => .ok g
  | .option _ _ Option.none => .error .missingValue
  | .option name isPath (some value) => g.addOption name value isPath
  | .files paths =>
    if paths.contains "" then .error .missingValue
    else .ok { g with files := g.files ++ paths }

end Given

/-- The arguments of a command read so far: those checked, those pending, and whether the separator
has been read. -/
structure Reading where
  given : Given
  pending : Pending
  separated : Bool

namespace Reading

/-- Nothing read. -/
def start : Reading :=
  ⟨.none, .nothing, false⟩

/-- The number of files read. -/
def fileCount (r : Reading) : Nat :=
  r.given.files.length + match r.pending with
    | .files paths => paths.length
    | _ => 0

/-- A file read, where the command takes one more. -/
def file (r : Reading) (shape : Shape) (path : String) : Except Verdict Reading :=
  if shape.files.all (r.fileCount < ·) then
    match r.pending with
    | .files paths => .ok { r with pending := .files (paths ++ [path]) }
    | p => (r.given.settle p).map fun g => ⟨g, .files [path], r.separated⟩
  else .error .unknownArgument

/-- An argument that is no option: the value that an option waits for, or a file. -/
def plain (r : Reading) (shape : Shape) (text : String) : Except Verdict Reading :=
  match r.pending with
  | .option name isPath none => .ok { r with pending := .option name isPath (some text) }
  | _ => r.file shape text

/-- An option of the command, perhaps with its value attached. -/
def option (r : Reading) (name : String) (isPath : Bool) (attached : Option String) :
    Except Verdict Reading :=
  match r.given.settle r.pending with
  | .error v => .error v
  | .ok g =>
    match attached with
    | none => .ok { r with given := g, pending := .option name isPath none }
    | some value =>
      (g.addOption name value isPath).map fun g => { r with given := g, pending := .nothing }

/-- A flag of the command. -/
def flag (r : Reading) (name : String) : Except Verdict Reading :=
  match r.given.settle r.pending with
  | .error v => .error v
  | .ok g => (g.addFlag name).map fun g => { r with given := g, pending := .nothing }

/-- A request for help, made after arguments that are checked first. -/
def help (r : Reading) : Except Verdict Reading :=
  match r.given.settle r.pending with
  | .error v => .error v
  | .ok _ => .error .help

/-- The counter of the command line. -/
def counted (r : Reading) : Except Verdict Reading :=
  match r.given.settle r.pending with
  | .error v => .error v
  | .ok g => .ok { r with given := g.addCount, pending := .nothing }

/-- A letter after a hyphen. -/
def letter (counter : Option Counter) (r : Reading) (c : Char) : Except Verdict Reading :=
  if counts counter c then r.counted
  else if c = 'h' then r.help
  else .error .unknownArgument

/-- The next argument read. What the command does not know is refused before anything pending is
checked. -/
def next (counter : Option Counter) (shape : Shape) (r : Reading) (a : String) :
    Except Verdict Reading :=
  if r.separated then r.file shape a
  else
    match Argument.of a with
    | .separator => .ok { r with separated := true }
    | .short letters => letters.foldlM (letter counter) r
    | .plain text => r.plain shape text
    | .long name attached =>
      match shape.options.find? (·.1 == name) with
      | some (_, isPath) => r.option name isPath attached
      | none =>
        if name ≠ "help" ∧ !shape.flags.contains name ∧ !countsName counter name then
          .error .unknownArgument
        else if attached.isSome then .error .needlessValue
        else if name = "help" then r.help
        else if shape.flags.contains name then r.flag name
        else r.counted

end Reading

/-- The arguments of a command. -/
def Given.ofArguments? (counter : Option Counter) (shape : Shape) (args : List String) :
    Except Verdict Given :=
  match args.foldlM (Reading.next counter shape) .start with
  | .error v => .error v
  | .ok r => r.given.settle r.pending

/-! ### Commands -/

/-- The type of a record that no other type was given. -/
def defaultRecordType : String := "observation"

/-- A command by what it takes and what becomes of it, none where something required is missing. -/
structure Maker where
  shape : Shape
  make : Given → Option Command

/-- The command to validate a document. -/
def validateMaker : Maker :=
  ⟨⟨["json", "print-canonical"], [], some 1⟩, fun g =>
    g.files.head?.map fun path => .validate path (g.has "json") (g.has "print-canonical")⟩

/-- The command to check suites. -/
def verifyVectorsMaker : Maker :=
  ⟨⟨[], [], none⟩, fun g => if g.files = [] then none else some (.verifyVectors g.files)⟩

/-- The command to write a suite anew. -/
def generateVectorsMaker : Maker :=
  ⟨⟨[], [], some 1⟩, fun g => g.files.head?.map .generateVectors⟩

/-- The command to start a ledger. -/
def simulateMaker : Maker :=
  ⟨⟨[], [("payload", true), ("record-type", false), ("out", true)], some 0⟩, fun g =>
    some (.simulate (g.option? "payload") ((g.option? "record-type").getD defaultRecordType)
      (g.option? "out"))⟩

/-- The command to extend a ledger. -/
def appendMaker : Maker :=
  ⟨⟨[], [("ledger", true), ("payload", true), ("record-type", false)], some 0⟩, fun g =>
    match g.option? "ledger", g.option? "payload" with
    | some ledger, some payload =>
      some (.append ledger payload ((g.option? "record-type").getD defaultRecordType))
    | _, _ => none⟩

/-- The command to verify a ledger. -/
def verifyLedgerMaker : Maker :=
  ⟨⟨["audit"], [], some 1⟩, fun g =>
    g.files.head?.map fun path => .verifyLedger path (g.has "audit")⟩

/-- A name on the way to a command: a command itself, or a group of commands. -/
inductive MenuItem where
  | command (m : Maker)
  | group (members : List (String × Maker))

/-- The commands of the program. -/
def menu : List (String × MenuItem) :=
  [("validate", .command validateMaker),
    ("vectors", .group [("verify", verifyVectorsMaker), ("generate", generateVectorsMaker)]),
    ("ledger", .group [("simulate", simulateMaker), ("append", appendMaker),
      ("verify", verifyLedgerMaker)])]

/-! ### Command lines -/

/-- A command that is to be run, and how often the counter was given. -/
structure Invocation where
  command : Command
  count : Nat
  deriving DecidableEq

/-- A command from its own arguments, where the counter has been given before it. -/
def Maker.run (m : Maker) (counter : Option Counter) (outer : Nat) (args : List String) :
    Except Verdict Invocation :=
  match Given.ofArguments? counter m.shape args with
  | .error v => .error v
  | .ok g =>
    match m.make g with
    | some c => .ok ⟨c, Counter.innermost outer g.count⟩
    | none => .error .missingArgument

/-- Letters in front of the name of a command, and how often the counter has been given after
them. -/
def lettersBefore (counter : Option Counter) (version : Bool) :
    Nat → List Char → Except Verdict Nat
  | count, [] => .ok count
  | count, c :: cs =>
    if counts counter c then lettersBefore counter version (Counter.more count) cs
    else if c = 'h' then .error .help
    else if version && c == 'V' then .error .version
    else .error .unknownArgument

/-- How often the counter is given in front of the name of a command, and the arguments from the
first one on that is no flag. -/
def beforeName (counter : Option Counter) (version : Bool) :
    Nat → List String → Except Verdict (Nat × List String)
  | count, [] => .ok (count, [])
  | count, a :: rest =>
    match Argument.of a with
    | .short letters =>
      match lettersBefore counter version count letters with
      | .error v => .error v
      | .ok count => beforeName counter version count rest
    | .long name attached =>
      if name ≠ "help" ∧ ¬ (version ∧ name = "version") ∧ !countsName counter name then
        .error .unknownArgument
      else if attached.isSome then .error .needlessValue
      else if name = "help" then .error .help
      else if countsName counter name then beforeName counter version (Counter.more count) rest
      else .error .version
    | _ => .ok (count, a :: rest)

/-- The verdict where no command is named. -/
def noCommand (count : Nat) : Verdict :=
  if count = 0 then .helpWhenBare else .missingCommand

/-- The verdict on an argument that is none of the names given. -/
def unnamed (names : List String) (count : Nat) (a : String) (rest : List String) : Verdict :=
  match Argument.of a, rest with
  | .separator, [] => noCommand count
  | .separator, b :: _ =>
    if b = "help" ∨ names.contains b then .unknownArgument else .unknownCommand
  | _, _ => .unknownCommand

/-- The verdict on a request for help with one of the names given, and with nothing below it. -/
def helpWithin (names : List String) : List String → Verdict
  | [] => .help
  | [a] => if a = "help" ∨ names.contains a then .help else .unknownCommand
  | _ => .unknownCommand

/-- The verdict on a request for help from the top. -/
def helpWith : List String → Verdict
  | [] => .help
  | a :: rest =>
    match menu.find? (·.1 == a) with
    | some (_, .group members) => helpWithin (members.map (·.1)) rest
    | _ => helpWithin (menu.map (·.1)) (a :: rest)

/-- A command of a group, where the counter has been given before its name. -/
def ofGroup (counter : Option Counter) (outer : Nat) (members : List (String × Maker))
    (args : List String) : Except Verdict Invocation :=
  match beforeName counter false 0 args with
  | .error v => .error v
  | .ok (count, []) => .error (noCommand count)
  | .ok (count, a :: rest) =>
    let names := members.map (·.1)
    if a = "help" then .error (helpWithin names rest)
    else
      match members.find? (·.1 == a) with
      | some (_, m) => m.run counter (Counter.innermost outer count) rest
      | none => .error (unnamed names count a rest)

/-- The command that arguments name. -/
def Invocation.ofArguments? (counter : Option Counter) (args : List String) :
    Except Verdict Invocation :=
  match beforeName counter true 0 args with
  | .error v => .error v
  | .ok (count, []) => .error (noCommand count)
  | .ok (count, a :: rest) =>
    if a = "help" then .error (helpWith rest)
    else
      match menu.find? (·.1 == a) with
      | some (_, .command m) => m.run counter count rest
      | some (_, .group members) => ofGroup counter count members rest
      | none => .error (unnamed (menu.map (·.1)) count a rest)

end Cli

end SealedLedger
