import SealedLedger.Ledger.Audit
import SealedLedger.Ledger.Store

/-!
# Shared ledgers

Several clients may hold one ledger. Each request is answered as a whole before the next one, so
the clients see a single line of requests, whoever made them.

## Main definitions

* `Request` and `Response`.
* `SharedLedger.answer` — a request answered.
* `SharedLedger.answerAll` — a line of requests answered in order.
-/

namespace SealedLedger

/-- What a client may ask of a shared ledger. -/
inductive Request where
  | append (machine : Timestamp) (type : RecordType) (payload : Value)
  | verify
  | audit
  | snapshot
  | size
  | json

/-- What a client is answered. -/
inductive Response where
  | appended (result : Except CanonicalError Entry)
  | verified (result : Except ChainError Unit)
  | audited (report : AuditReport)
  | snapshot (entries : List Entry)
  | size (n : Nat)
  | json (text : Except StoreError (List Char))

/-- A ledger held by several clients, with the supply of identifiers for its new entries. -/
structure SharedLedger where
  ledger : Ledger
  draws : Draws

namespace SharedLedger

/-- A new shared ledger. -/
def create (c : Clock) (machine : Timestamp) (draws : Draws) : SharedLedger :=
  let (l, draws) := Ledger.create c machine draws
  ⟨l, draws⟩

/-- A request answered, and the ledger after it. -/
def answer (s : SharedLedger) : Request → Response × SharedLedger
  | .append machine type payload =>
    match Ledger.append machine type payload (s.ledger, s.draws) with
    | .ok entry (l, draws) => (.appended (.ok entry), ⟨l, draws⟩)
    | .error e (l, draws) => (.appended (.error e), ⟨l, draws⟩)
  | .verify => (.verified s.ledger.verify, s)
  | .audit => (.audited s.ledger.audit, s)
  | .snapshot => (.snapshot s.ledger.entries, s)
  | .size => (.size s.ledger.size, s)
  | .json => (.json s.ledger.json?, s)

/-- A line of requests, each with its client, answered in order. -/
def answerAll {Client : Type} (s : SharedLedger) :
    List (Client × Request) → List (Client × Response) × SharedLedger
  | [] => ([], s)
  | (client, request) :: rest =>
    let (response, s) := s.answer request
    let (responses, s) := answerAll s rest
    ((client, response) :: responses, s)

end SharedLedger

end SealedLedger
