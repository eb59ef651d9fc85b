import SealedLedger.Digest
import SealedLedger.Ledger.RecordType
import SealedLedger.Timestamp.Basic
import SealedLedger.Uuid

/-!
# Ledger entries

An entry holds a record, the digest of the record, and the digest of the entry before it. What is
hashed of an entry is its stored form, an object of seven members, the record among them.

## Main definitions

* `Entry` and `Entry.toValue` — an entry and its stored form.
* `Entry.digest?` — the digest of an entry.
* `Entry.genesis` — the first entry of a ledger.
-/

namespace SealedLedger

/-- An entry of a ledger. -/
structure Entry where
  id : Uuid
  index : UInt64
  timestamp : Timestamp
  prevHash : Digest
  recordHash : Digest
  recordType : RecordType
  payload : Value

namespace Entry

/-! ### Fields -/

/-- A field of a stored entry. -/
inductive Field where
  | id
  | index
  | timestamp
  | prevHash
  | recordHash
  | recordType
  | payload
  deriving DecidableEq

/-- The fields in the order they are stored. -/
def Field.all : List Field :=
  [.id, .index, .timestamp, .prevHash, .recordHash, .recordType, .payload]

/-- The name of a field. -/
def Field.name : Field → String
  | .id => "entry_id"
  | .index => "entry_index"
  | .timestamp => "timestamp"
  | .prevHash => "prev_hash"
  | .recordHash => "record_hash"
  | .recordType => "record_type"
  | .payload => "record_payload"

/-- The field of a name. -/
def Field.ofName? (name : String) : Option Field :=
  Field.all.find? fun f => f.name == name

/-- The stored form of a field. -/
def fieldValue (e : Entry) : Field → Value
  | .id => .string e.id.text
  | .index => .ofUInt64 e.index
  | .timestamp => .string e.timestamp.text
  | .prevHash => .string e.prevHash.text
  | .recordHash => .string e.recordHash.text
  | .recordType => .string e.recordType.tag
  | .payload => e.payload

/-! ### The stored form and its digest -/

/-- The stored form of an entry. -/
def toValue (e : Entry) : Value :=
  .object (Field.all.map fun f => (f.name, e.fieldValue f))

/-- The canonical bytes of an entry. -/
def canonicalBytes? (e : Entry) : Except CanonicalError (List UInt8) :=
  canonicalize e.toValue

/-- The digest of an entry. -/
def digest? (e : Entry) : Except CanonicalError Digest :=
  Digest.ofValue? e.toValue

/-- The digest of an entry's record. -/
def payloadDigest? (e : Entry) : Except CanonicalError Digest :=
  Digest.ofValue? e.payload

/-- The entry is marked as the first of a ledger. -/
def isGenesis (e : Entry) : Bool :=
  e.recordType.isGenesis

/-! ### The first entry -/

/-- The first entry of a ledger, which follows nothing and holds an empty record. -/
def genesis (id : Uuid) (now : Timestamp) : Entry :=
  ⟨id, 0, now, .sentinel, .sentinel, .genesis, .emptyObject⟩

end Entry

end SealedLedger
