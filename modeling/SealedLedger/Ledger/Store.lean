import SealedLedger.Json.Record
import SealedLedger.Ledger.Basic
import SealedLedger.Timestamp.Stored

/-!
# Stored ledgers

A ledger is stored as an indented JSON array of its entries. Reading it back goes in three steps:
the text is inspected as data of any shape, then every digest in it is checked for a foreign tag,
and only then is it read as entries. So a ledger of digests of another hash function is reported as
such, whatever else is wrong with it.

## Main definitions

* `Entry.reader` — reading an entry.
* `Ledger.json?` — the text of a ledger.
* `Ledger.ofJson?` — the ledger of a text.
-/

namespace SealedLedger

/-! ### Reading an entry -/

namespace Entry

/-- The fields of an entry read so far. -/
structure Draft where
  id : Option Uuid
  index : Option UInt64
  timestamp : Option Timestamp
  prevHash : Option Digest
  recordHash : Option Digest
  recordType : Option RecordType
  payload : Option Value

namespace Draft

/-- No field read. -/
def empty : Draft :=
  ⟨none, none, none, none, none, none, none⟩

/-- The field has been read. -/
def has (d : Draft) : Field → Bool
  | .id => d.id.isSome
  | .index => d.index.isSome
  | .timestamp => d.timestamp.isSome
  | .prevHash => d.prevHash.isSome
  | .recordHash => d.recordHash.isSome
  | .recordType => d.recordType.isSome
  | .payload => d.payload.isSome

/-- The value of a field, or the fault of its absence. -/
def require {α : Type} (f : Field) : Option α → Except Json.Fault α
  | some a => .ok a
  | none => .error (.missingField f.name)

/-- The entry of all fields, or the fault of the first one absent. -/
def entry? (d : Draft) : Except Json.Fault Entry := do
  let id ← require .id d.id
  let index ← require .index d.index
  let timestamp ← require .timestamp d.timestamp
  let prevHash ← require .prevHash d.prevHash
  let recordHash ← require .recordHash d.recordHash
  let recordType ← require .recordType d.recordType
  let payload ← require .payload d.payload
  return ⟨id, index, timestamp, prevHash, recordHash, recordType, payload⟩

end Draft

/-- What an entry is called in errors. -/
def expected : String := "struct LedgerEntry"

/-- An identifier. -/
def idReader : Json.Reader Uuid := fun input =>
  match Json.text "a formatted UUID string" input with
  | .error stop => .error stop
  | .ok (s, rest) =>
    match Uuid.parse? s with
    | .ok u => .ok (u, rest)
    | .error e => .error (.here (.refused e.message) rest)

/-- A stored timestamp. -/
def timestampReader : Json.Reader Timestamp :=
  Json.spelled fun s => (Timestamp.parse? s).mapError (·.message)

/-- A digest. -/
def digestReader : Json.Reader Digest :=
  Json.spelled fun s => (Digest.parse? s).mapError (·.message)

/-- A record type. -/
def recordTypeReader : Json.Reader RecordType :=
  Json.spelled RecordType.stored?

/-- Reads the value of a field into a draft. -/
def fieldReader (depth : Json.Depth) (d : Draft) : Field → Json.Reader Draft
  | .id => do return { d with id := some (← idReader) }
  | .index => do return { d with index := some (← Json.natural) }
  | .timestamp => do return { d with timestamp := some (← timestampReader) }
  | .prevHash => do return { d with prevHash := some (← digestReader) }
  | .recordHash => do return { d with recordHash := some (← digestReader) }
  | .recordType => do return { d with recordType := some (← recordTypeReader) }
  | .payload => do return { d with payload := some (← Json.value true depth) }

/-- Reads a member of a stored entry into a draft. -/
def memberReader (depth : Json.Depth) (d : Draft) (key : String) : Json.Reader Draft := fun input =>
  match Field.ofName? key with
  | none => .error (.pending (.unknownField key (Field.all.map Field.name)) input)
  | some f =>
    if d.has f then .error (.pending (.repeatedField f.name) input)
    else
      match Json.colon input with
      | .error stop => .error stop
      | .ok ((), rest) => fieldReader depth d f rest

/-- The inside of an entry stored as an object. -/
def objectReader (depth : Json.Depth) : Json.Reader Entry := fun input =>
  match Json.members (memberReader depth) .empty input with
  | .error stop => .error stop
  | .ok (d, rest) =>
    match d.entry? with
    | .ok e => .ok (e, rest)
    | .error fault => .error (.pending fault rest)

/-- A field of an entry stored as an array. -/
def positional {α : Type} (position : Nat) (item : Json.Reader α) : Json.Reader α :=
  Json.positional position item
    (.error (.wrongLength position (expected ++ " with 7 elements")))

/-- The inside of an entry stored as an array. -/
def arrayReader (depth : Json.Depth) : Json.Reader Entry := do
  let id ← positional 0 idReader
  let index ← positional 1 Json.natural
  let timestamp ← positional 2 timestampReader
  let prevHash ← positional 3 digestReader
  let recordHash ← positional 4 digestReader
  let recordType ← positional 5 recordTypeReader
  let payload ← positional 6 (Json.value true depth)
  return ⟨id, index, timestamp, prevHash, recordHash, recordType, payload⟩

/-- A stored entry. -/
def reader (depth : Json.Depth) : Json.Reader Entry :=
  Json.record expected arrayReader objectReader depth

/-- The entry of a text. -/
def ofJson? (bytes : List UInt8) : Except Json.Error Entry :=
  Json.whole (reader Json.maxDepth) bytes

/-- The compact text of an entry. -/
def json? (e : Entry) : Except CanonicalError (List Char) :=
  Json.compact e.toValue

end Entry

/-! ### Errors -/

/-- Why a text is no ledger. -/
inductive StoreError where
  | unreadable (e : Json.Error)
  | unwritable (e : CanonicalError)
  | notArray
  | empty
  | foreignDigest (index : Nat) (field tag : String)
  deriving DecidableEq

/-- The wording of an error. -/
def StoreError.message : StoreError → String
  | .unreadable e => "serialization error: " ++ e.message
  | .unwritable e => "serialization error: " ++ Json.unwritable e
  | .notArray => "malformed ledger: persisted ledger must be a JSON array of entries"
  | .empty => "malformed ledger: ledger has no entries; a genesis entry is required"
  | .foreignDigest index field tag =>
    "unsupported digest algorithm " ++ Quoted.string tag ++ " in " ++ field ++ " of entry #" ++
      Decimal.shown index

/-! ### Foreign digests -/

/-- The fields that hold digests. -/
def digestFields : List Entry.Field :=
  [.prevHash, .recordHash]

/-- The foreign tag of a digest in a field of stored data. -/
def foreignTag? (v : Value) (f : Entry.Field) : Option (String × String) :=
  match v.get? f.name with
  | some (.string s) =>
    match Digest.splitTag? s.toList with
    | some (t, _) =>
      if String.ofList t = Digest.tag then none else some (f.name, String.ofList t)
    | none => none
  | _ => none

/-- Refuses stored data in which a digest has a foreign tag. -/
def checkTagsFrom (index : Nat) : List Value → Except StoreError Unit
  | [] => .ok ()
  | v :: vs =>
    match digestFields.findSome? (foreignTag? v) with
    | some (field, tag) => .error (.foreignDigest index field tag)
    | none => checkTagsFrom (index + 1) vs

/-! ### Ledgers -/

namespace Ledger

/-- The stored form of a ledger. -/
def toValue (l : Ledger) : Value :=
  .array (l.entries.map Entry.toValue)

/-- The text of a ledger. -/
def json? (l : Ledger) : Except StoreError (List Char) :=
  match Json.indented l.toValue with
  | .ok text => .ok (text ++ ['\n'])
  | .error e => .error (.unwritable e)

/-- The entries of a text whose digests have been checked for foreign tags. -/
def entriesOfJson? (bytes : List UInt8) : Except StoreError (List Entry) :=
  (Json.whole (Json.sequence Entry.reader Json.maxDepth) bytes).mapError .unreadable

/-- The ledger of a text. -/
def ofJson? (bytes : List UInt8) (c : Clock) : Except StoreError Ledger :=
  match Json.inspect? bytes with
  | .error e => .error (.unreadable e)
  | .ok (.array items) =>
    match checkTagsFrom 0 items with
    | .error e => .error e
    | .ok () =>
      match entriesOfJson? bytes with
      | .error e => .error e
      | .ok entries =>
        match ofEntries? entries c with
        | none => .error .empty
        | some l => .ok l
  | .ok _ => .error .notArray

end Ledger

end SealedLedger
