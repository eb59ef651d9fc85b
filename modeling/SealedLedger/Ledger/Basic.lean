import SealedLedger.Json.Writer
import SealedLedger.Ledger.Entry

/-!
# Ledgers

A ledger is a chain of entries. The first one is marked as genesis, and each later one holds the
digest of the one before it, so that no entry but the last can change unnoticed. Verifying a
ledger recomputes the digests along the chain.

## Main definitions

* `Clock` — where the time of a new entry comes from.
* `Ledger`, `Ledger.create`.
* `Ledger.append` — a record appended to the ledger at hand.
* `Ledger.verify` — the first break of the chain.
-/

namespace SealedLedger

/-! ### Clocks -/

/-- Where the time of a new entry comes from: a set time, or the time of the machine. -/
inductive Clock where
  | fixed (t : Timestamp)
  | system
  deriving DecidableEq

/-- The time that a clock shows when the machine's time is given. -/
def Clock.now (machine : Timestamp) : Clock → Timestamp
  | .fixed t => t
  | .system => machine

/-! ### Errors -/

/-- Why a ledger cannot be extended or is found broken. -/
inductive ChainError where
  | canonical (e : CanonicalError)
  | broken (index : UInt64) (expected recorded : Digest)
  deriving DecidableEq

/-- The wording of an error. -/
def ChainError.message : ChainError → String
  | .canonical e => "canonicalization error: " ++ e.message
  | .broken index expected recorded =>
    "chain broken at entry #" ++ Decimal.shown index.toNat ++
      ": recorded prev_hash " ++ recorded.text ++ ", recomputed " ++ expected.text

/-- The wording of the refusal of a record type. -/
def RecordType.refusal (tag : String) : String :=
  "record type " ++ Quoted.string tag ++ " is reserved or empty"

/-! ### Ledgers -/

/-- A chain of at least one entry, and the clock for new ones. -/
structure Ledger where
  entries : List Entry
  clock : Clock
  entries_ne : entries ≠ []

namespace Ledger

/-- The last entry. -/
def last (l : Ledger) : Entry :=
  l.entries.getLast l.entries_ne

/-- The first entry. -/
def first (l : Ledger) : Entry :=
  l.entries.head l.entries_ne

/-- The number of entries. -/
def size (l : Ledger) : Nat :=
  l.entries.length

/-- The ledger with another clock. -/
def withClock (l : Ledger) (c : Clock) : Ledger :=
  ⟨l.entries, c, l.entries_ne⟩

/-- The ledger of given entries, none when there are none. -/
def ofEntries? (entries : List Entry) (c : Clock) : Option Ledger :=
  if h : entries = [] then none else some ⟨entries, c, h⟩

/-- A new ledger with its first entry. -/
def create (c : Clock) (machine : Timestamp) (draws : Draws) : Ledger × Draws :=
  let (id, draws) := draws.next
  (⟨[.genesis id (c.now machine)], c, by simp⟩, draws)

/-- An entry with the given digests at the end of a ledger. Its time is never earlier than that of
the last one, and its index is the number of entries, whatever index the last one claims. -/
def entryAfter (l : Ledger) (machine : Timestamp) (type : RecordType) (payload : Value)
    (prevHash recordHash : Digest) (id : Uuid) : Entry :=
  ⟨id, .ofNat l.size, (l.clock.now machine).latest l.last.timestamp, prevHash, recordHash, type,
    payload⟩

/-- The ledger with an entry at its end. -/
def push (l : Ledger) (e : Entry) : Ledger :=
  ⟨l.entries ++ [e], l.clock, by simp⟩

@[simp] theorem entries_push (l : Ledger) (e : Entry) : (l.push e).entries = l.entries ++ [e] := rfl

@[simp] theorem last_push (l : Ledger) (e : Entry) : (l.push e).last = e := by
  simp [last]

/-- Draws an identifier for a new entry of the ledger at hand. -/
def drawId : EStateM CanonicalError (Ledger × Draws) Uuid :=
  modifyGet fun (l, draws) => let (id, draws) := draws.next; (id, (l, draws))

/-- Appends a record to the ledger at hand, which comes with the supply of identifiers for its new
entries. The digests of the record and of the last entry are made before an identifier is drawn, and
the new entry is pushed last. -/
def append (machine : Timestamp) (type : RecordType) (payload : Value) :
    EStateM CanonicalError (Ledger × Draws) Entry := do
  let (l, _) ← get
  let recordHash ← MonadExcept.ofExcept (Digest.ofValue? payload)
  let prevHash ← MonadExcept.ofExcept l.last.digest?
  let id ← drawId
  let entry := l.entryAfter machine type payload prevHash recordHash id
  modify fun (l, draws) => (l.push entry, draws)
  return entry

/-! ### Verifying -/

/-- Follows the chain from an entry whose position is given: each entry must hold the digest of
the one before it. -/
def verifyFrom (position : Nat) (prev : Entry) : List Entry → Except ChainError Unit
  | [] => .ok ()
  | e :: rest =>
    match prev.digest? with
    | .error err => .error (.canonical err)
    | .ok expected =>
      if expected = e.prevHash then verifyFrom (position + 1) e rest
      else .error (.broken (.ofNat (position + 1)) expected e.prevHash)

/-- Recomputes the digests along the chain. -/
def verify (l : Ledger) : Except ChainError Unit :=
  verifyFrom 0 l.first l.entries.tail

end Ledger

end SealedLedger
