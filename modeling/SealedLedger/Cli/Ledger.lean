import SealedLedger.Cli.Session
import SealedLedger.Ledger.Audit

/-!
# Commands on ledgers

A ledger can be started with one record, extended by a record, and verified. A ledger whose chain is
broken is never extended, and a ledger is written only when all else has succeeded.

## Main definitions

* `Cli.simulate`, `Cli.append`, `Cli.verifyLedger`.
-/

namespace SealedLedger

namespace Cli

/-- The ledger in a file. -/
def loadLedger (fs : Files) (path : String) : Except String Ledger :=
  let lead := "failed to load ledger " ++ path
  match fs.readText? path with
  | .error e => .error (because lead (fileFailure e))
  | .ok text =>
    match Ledger.ofJson? (Utf8.encode text) .system with
    | .error e => .error (because lead (storeFailure e))
    | .ok l => .ok l

/-- The files after a ledger is written to one of them. -/
def saveLedger (fs : Files) (path : String) (l : Ledger) : Except String Files :=
  let lead := "failed to write " ++ path
  match l.json? with
  | .error e => .error (because lead (storeFailure e))
  | .ok text => (fs.write? path (Utf8.encode text)).mapError fun e => because lead (fileFailure e)

/-- The type of a record to be appended. -/
def recordType? (tag : String) : Except String RecordType :=
  match RecordType.custom? tag with
  | some type => .ok type
  | none =>
    .error (because ("invalid --record-type " ++ Quoted.string tag) (RecordType.refusal tag))

/-- The line that reports a new entry. -/
def appendedLine (e : Entry) : String :=
  "Appended entry #" ++ Decimal.shown e.index.toNat ++ ": record_hash " ++ e.recordHash.text

/-- The line that reports whether the chain of a ledger holds, and the exit code that says so. -/
def verification (l : Ledger) : String × Nat :=
  match l.verify with
  | .ok () => ("OK: ledger integrity verified (" ++ Decimal.shown l.size ++ " entries)", 0)
  | .error (.broken index _ _) =>
    ("FAIL: ledger corrupted at entry #" ++ Decimal.shown index.toNat, 1)
  | .error (.canonical e) => ("FAIL: " ++ (ChainError.canonical e).message, 1)

/-! ### Starting a ledger -/

/-- The record of a simulation, under a given identifier. -/
def simulatedPayload (id : Uuid) : Value :=
  .object [("record_id", .string id.text), ("source", .string "simulation"),
    ("amount", .number (.int 1000))]

/-- The record to start a ledger with: that of a file or, without one, that of a simulation. -/
def startingPayload (s : Session) : Option String → Except String (Value × Draws)
  | some path => (loadDocument s.files path).map fun v => (v, s.draws)
  | none => let (id, draws) := s.draws.next; .ok (simulatedPayload id, draws)

/-- Reports on a new ledger and writes it to a file, if one is named. -/
def finishSimulation (s : Session) (l : Ledger) : Option String → Outcome × Session
  | none => let (line, code) := verification l; (.exit code, s.print line)
  | some path =>
    let (line, code) := verification l
    let s := s.print line
    match saveLedger s.files path l with
    | .error message => (.failure message, s)
    | .ok files => (.exit code, { s with files := files }.print ("Wrote " ++ path))

/-- Starts a ledger with one record. -/
def simulate (env : Environment) (s : Session) (payload : Option String) (tag : String)
    (target : Option String) : Outcome × Session :=
  match recordType? tag with
  | .error message => (.failure message, s)
  | .ok type =>
    match startingPayload s payload with
    | .error message => (.failure message, s)
    | .ok (payload, draws) =>
      let s := { s with draws := draws }
      match env.clock? with
      | .error message => (.failure message, s)
      | .ok clock =>
        let (l, draws) := Ledger.create clock env.machine s.draws
        let s := { s with draws := draws }.print ("Genesis entry created: " ++ l.first.id.text)
        match Ledger.append env.machine type payload (l, s.draws) with
        | .error e (_, draws) => (.failure (canonicalFailure e), { s with draws := draws })
        | .ok entry (l, draws) =>
          finishSimulation ({ s with draws := draws }.print (appendedLine entry)) l target

/-! ### Extending a ledger -/

/-- Appends a record to a ledger whose chain holds, and writes the ledger back. -/
def extend (env : Environment) (s : Session) (path : String) (l : Ledger) (type : RecordType)
    (payload : Value) : Outcome × Session :=
  match env.clock? with
  | .error message => (.failure message, s)
  | .ok clock =>
    match Ledger.append env.machine type payload (l.withClock clock, s.draws) with
    | .error e (_, draws) => (.failure (canonicalFailure e), { s with draws := draws })
    | .ok entry (l, draws) =>
      let s := { s with draws := draws }.print (appendedLine entry)
      match saveLedger s.files path l with
      | .error message => (.failure message, s)
      | .ok files => (.exit 0, { s with files := files })

/-- Appends the record of a file to the ledger of another. -/
def append (env : Environment) (s : Session) (path payload tag : String) : Outcome × Session :=
  match recordType? tag with
  | .error message => (.failure message, s)
  | .ok type =>
    match loadDocument s.files payload with
    | .error message => (.failure message, s)
    | .ok payload =>
      match loadLedger s.files path with
      | .error message => (.failure message, s)
      | .ok l =>
        match l.verify with
        | .error e => (.exit 1, s.print (because ("FAIL: " ++ path) e.message))
        | .ok () => extend env s path l type payload

/-! ### Verifying a ledger -/

/-- The lines that report an audit. -/
def auditLines (r : AuditReport) : List String :=
  ("Audit: " ++ Decimal.shown r.entryCount ++ " entries, " ++ Decimal.shown r.violations.length ++
    " violation(s)") :: r.violations.map fun v => "  " ++ v.text

/-- Verifies the ledger in a file and audits it on request. -/
def verifyLedger (s : Session) (path : String) (audit : Bool) : Outcome × Session :=
  match loadLedger s.files path with
  | .error message => (.failure message, s)
  | .ok l =>
    let (line, code) := verification l
    let s := s.print line
    if audit then
      let report := l.audit
      (.exit (if report.isValid then code else 1), s.printAll (auditLines report))
    else (.exit code, s)

end Cli

end SealedLedger
