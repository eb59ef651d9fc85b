import SealedLedger.Text.Quoted

/-!
# Record types

Each record has a type, a text that is not empty. The type `genesis` marks the first entry of a
ledger and is reserved: a record to be appended cannot be given it, while a stored entry may
carry it.

## Main definitions

* `RecordType`.
* `RecordType.custom?` — the type of a record to be appended.
* `RecordType.stored?` — the type of a stored record.

## Main results

* `RecordType.isGenesis_of_custom?` — a record to be appended is never marked as genesis.
-/

namespace SealedLedger

/-- A type of record: a text that is not empty. -/
structure RecordType where
  tag : String
  tag_ne : tag ≠ ""
  deriving DecidableEq

namespace RecordType

/-- The type of the first entry of a ledger. -/
def genesis : RecordType :=
  ⟨"genesis", by decide⟩

/-- The type of a record that no other type was given. -/
def observation : RecordType :=
  ⟨"observation", by decide⟩

/-- The type marks the first entry of a ledger. -/
def isGenesis (t : RecordType) : Bool :=
  t.tag == genesis.tag

/-- The type of a record to be appended, none when the text is empty or reserved. -/
def custom? (tag : String) : Option RecordType :=
  if h : tag ≠ "" ∧ tag ≠ genesis.tag then some ⟨tag, h.1⟩ else none

theorem isGenesis_of_custom? {tag : String} {t : RecordType} (h : custom? tag = some t) :
    t.isGenesis = false := by
  unfold custom? at h
  split at h
  · next hne =>
    obtain rfl := Option.some.inj h
    simpa [isGenesis] using hne.2
  · simp at h

/-- The type of a stored record. -/
def stored? (tag : String) : Except String RecordType :=
  if h : tag = "" then .error "record_type must not be empty" else .ok ⟨tag, h⟩

end RecordType

end SealedLedger
