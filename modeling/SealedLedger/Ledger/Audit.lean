import SealedLedger.Ledger.Basic

/-!
# Auditing a ledger

An audit lists everything that is wrong with a ledger, entry by entry: a first entry that is not a
proper genesis entry, an index that is not the entry's position, a genesis mark further on, a digest
of the entry before or of the record that is not the recomputed one, and a time that goes back.

## Main definitions

* `Violation` — a finding and the position of its entry.
* `Ledger.audit` — all findings, in the order of the entries.
* `AuditReport` — the findings with what they say about the whole ledger.
-/

namespace SealedLedger

/-! ### Findings -/

/-- What is wrong with the first entry of a ledger. -/
inductive GenesisProblem where
  | prevHash
  | recordHash
  | recordType (type : RecordType)
  | payload
  deriving DecidableEq

/-- What is wrong with an entry. -/
inductive Finding where
  | indexGap (position : Nat) (index : UInt64)
  | malformedGenesis (problem : GenesisProblem)
  | misplacedGenesis
  | chainBreak (recorded recomputed : Digest)
  | recordHashMismatch (recorded recomputed : Digest)
  | timestampRegression (time before : Timestamp)
  | predecessorUncanonicalizable (e : CanonicalError)
  | payloadUncanonicalizable (e : CanonicalError)
  deriving DecidableEq

/-- A finding and the position of its entry. -/
structure Violation where
  position : Nat
  finding : Finding
  deriving DecidableEq

/-- The wording of a problem. -/
def GenesisProblem.message : GenesisProblem → String
  | .prevHash => "prev_hash is not the sentinel"
  | .recordHash => "record_hash is not the sentinel"
  | .recordType t => "record_type is " ++ Quoted.string t.tag
  | .payload => "payload is not empty"

/-- The name of the kind of a finding. -/
def Finding.kind : Finding → String
  | .indexGap .. => "IndexGap"
  | .malformedGenesis .. => "MalformedGenesis"
  | .misplacedGenesis => "MisplacedGenesis"
  | .chainBreak .. => "ChainBreak"
  | .recordHashMismatch .. => "RecordHashMismatch"
  | .timestampRegression .. => "TimestampRegression"
  | .predecessorUncanonicalizable .. => "Uncanonicalizable"
  | .payloadUncanonicalizable .. => "Uncanonicalizable"

/-- The wording of a finding. -/
def Finding.message : Finding → String
  | .indexGap position index =>
    "expected entry_index " ++ Decimal.shown position ++ ", got " ++
      Decimal.shown index.toNat
  | .malformedGenesis problem => problem.message
  | .misplacedGenesis => "reserved genesis tag on a non-initial entry"
  | .chainBreak recorded recomputed =>
    "recorded prev_hash " ++ recorded.text ++ ", recomputed " ++ recomputed.text
  | .recordHashMismatch recorded recomputed =>
    "recorded record_hash " ++ recorded.text ++ ", recomputed " ++ recomputed.text
  | .timestampRegression time before => time.text ++ " precedes " ++ before.text
  | .predecessorUncanonicalizable e => "predecessor: " ++ e.message
  | .payloadUncanonicalizable e => "payload: " ++ e.message

/-- A violation on one line. -/
def Violation.text (v : Violation) : String :=
  "#" ++ Decimal.shown v.position ++ " " ++ v.finding.kind ++ ": " ++
    v.finding.message

/-! ### Examining an entry -/

/-- What is wrong with the first entry, if anything. -/
def Entry.genesisProblem? (e : Entry) : Option GenesisProblem :=
  if e.prevHash ≠ .sentinel then some .prevHash
  else if e.recordHash ≠ .sentinel then some .recordHash
  else if !e.isGenesis then some (.recordType e.recordType)
  else if !e.payload.isEmptyObject then some .payload
  else none

/-- Whether the index of an entry is its position. -/
def Entry.examineIndex (e : Entry) (position : Nat) : List Finding :=
  if e.index = .ofNat position then [] else [.indexGap position e.index]

/-- Whether an entry holds the digest of the one before it. -/
def Entry.examineLink (e prev : Entry) : List Finding :=
  match prev.digest? with
  | .error err => [.predecessorUncanonicalizable err]
  | .ok d => if d = e.prevHash then [] else [.chainBreak e.prevHash d]

/-- Whether an entry holds the digest of its record. -/
def Entry.examineRecord (e : Entry) : List Finding :=
  match e.payloadDigest? with
  | .error err => [.payloadUncanonicalizable err]
  | .ok d => if d = e.recordHash then [] else [.recordHashMismatch e.recordHash d]

/-- Whether the time of an entry is not before that of the one before it. -/
def Entry.examineTime (e prev : Entry) : List Finding :=
  if e.timestamp.isBefore prev.timestamp then [.timestampRegression e.timestamp prev.timestamp]
  else []

/-- What is wrong with the first entry of a ledger. -/
def Entry.examineFirst (e : Entry) : List Finding :=
  e.examineIndex 0 ++ e.genesisProblem?.toList.map .malformedGenesis

/-- What is wrong with a later entry. -/
def Entry.examineLater (e prev : Entry) (position : Nat) : List Finding :=
  e.examineIndex position ++ (if e.isGenesis then [.misplacedGenesis] else []) ++
    e.examineLink prev ++ e.examineRecord ++ e.examineTime prev

/-! ### The whole ledger -/

/-- The violations of the entries after one whose position is given. -/
def violationsAfter (position : Nat) (prev : Entry) : List Entry → List Violation
  | [] => []
  | e :: rest =>
    (e.examineLater prev (position + 1)).map (⟨position + 1, ·⟩) ++
      violationsAfter (position + 1) e rest

/-- The violations of entries. -/
def violationsOf : List Entry → List Violation
  | [] => []
  | e :: rest => e.examineFirst.map (⟨0, ·⟩) ++ violationsAfter 0 e rest

/-- The outcome of an audit. -/
structure AuditReport where
  entryCount : Nat
  violations : List Violation

/-- All findings about a ledger. -/
def Ledger.audit (l : Ledger) : AuditReport :=
  ⟨l.size, violationsOf l.entries⟩

namespace AuditReport

/-- No violation has a finding that passes a test. -/
def clearOf (r : AuditReport) (test : Finding → Bool) : Bool :=
  r.violations.all fun v => !test v.finding

/-- Nothing was found. -/
def isValid (r : AuditReport) : Bool :=
  r.violations.isEmpty

/-- The position of the first entry that does not hold the digest of the one before it. -/
def firstBreak? (r : AuditReport) : Option Nat :=
  (r.violations.find? fun v => v.finding matches .chainBreak ..).map (·.position)

/-- Every entry holds the digest of the one before it. -/
def hashChainValid (r : AuditReport) : Bool :=
  r.clearOf fun f => f matches .chainBreak .. | .predecessorUncanonicalizable ..

/-- Every entry holds the digest of its record. -/
def recordHashesValid (r : AuditReport) : Bool :=
  r.clearOf fun f => f matches .recordHashMismatch .. | .payloadUncanonicalizable ..

/-- The index of every entry is its position. -/
def indicesContiguous (r : AuditReport) : Bool :=
  r.clearOf fun f => f matches .indexGap ..

/-- No entry is earlier than the one before it. -/
def timestampsMonotonic (r : AuditReport) : Bool :=
  r.clearOf fun f => f matches .timestampRegression ..

end AuditReport

end SealedLedger
