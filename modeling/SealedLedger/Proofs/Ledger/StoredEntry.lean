import SealedLedger.Ledger.Store
import SealedLedger.Proofs.Digest
import SealedLedger.Proofs.Json.Records
import SealedLedger.Proofs.Json.Written
import SealedLedger.Proofs.Ledger.Entry
import SealedLedger.Proofs.Timestamp.Stored
import SealedLedger.Proofs.Uuid

/-!
# A stored entry is read back

An entry is read member by member into a draft, in the order in which its fields are stored. Each
field is read back from its text, so the draft ends up with the fields of the entry that was
written, and only the numbers of its record may have changed. For the identifier any spelling will
do.

## Main definitions

* `Entry.withNumbers` — an entry with the numbers of its record replaced
* `Entry.Draft.put` — a draft with one more field of an entry
* `Entry.form` — how entries are read from objects

## Main results

* `Entry.reads_field` — a field is read back
* `Entry.reads_entry` — an entry is read back
* `Entry.digest?_withNumbers` — its digest is kept with the texts of the numbers
* `Entry.mapNumbers_spelled` — the data that is read of it
-/

namespace SealedLedger

open Json (Reads SkipsSpace)

namespace Entry

/-! ### The numbers of a record -/

/-- The entry with each number of its record replaced. -/
def withNumbers (f : Number → Number) (e : Entry) : Entry :=
  { e with payload := e.payload.mapNumbers f }

/-- Reading numbers again changes nothing in an entry but its record. -/
theorem mapNumbers_spelled (e : Entry) (id : String) :
    (e.spelled id).mapNumbers Number.stored = (e.withNumbers Number.stored).spelled id := by
  have hfield : ∀ f, (e.spelledValue id f).mapNumbers Number.stored
      = (e.withNumbers Number.stored).spelledValue id f := by
    intro f
    cases f with
    | index => exact congrArg Value.number (Number.stored_ofUInt64 e.index)
    | _ => rfl
  rw [spelled, spelled, Value.mapNumbers_object, List.map_map]
  exact congrArg Value.object (List.map_congr_left fun f _ => congrArg (Prod.mk f.name) (hfield f))

section

variable {f : Number → Number} {e : Entry}
  (h : ∀ n, Value.Occurs (.number n) e.payload → Canonical.number (f n) = Canonical.number n)

include h

/-- **The digest of an entry is kept with the texts of the numbers** of its record. -/
theorem digest?_withNumbers : (e.withNumbers f).digest? = e.digest? := by
  have hfield : ∀ g : Field,
      Canonical.text ((e.withNumbers f).fieldValue g) = Canonical.text (e.fieldValue g) := by
    intro g
    cases g with
    | payload => exact Canonical.text_mapNumbers h
    | _ => rfl
  have htexts : Canonical.memberTexts (Field.all.map fun g =>
      (g.name, (e.withNumbers f).fieldValue g))
        = Canonical.memberTexts (Field.all.map fun g => (g.name, e.fieldValue g)) := by
    rw [Canonical.memberTexts_eq, Canonical.memberTexts_eq, List.map_map, List.map_map]
    exact List.map_congr_left fun g _ => congrArg (Prod.mk g.name) (hfield g)
  rw [digest?, digest?, Digest.ofValue?, Digest.ofValue?, canonicalize, canonicalize, toValue,
    toValue, Canonical.text, Canonical.text, htexts]

theorem payloadDigest?_withNumbers : (e.withNumbers f).payloadDigest? = e.payloadDigest? := by
  rw [payloadDigest?, payloadDigest?, Digest.ofValue?, Digest.ofValue?, withNumbers,
    Canonical.canonicalize_mapNumbers h]

end

/-! ### Drafts -/

namespace Draft

/-- The draft with one more field of an entry. -/
def put (e : Entry) (d : Draft) : Field → Draft
  | .id => { d with id := some e.id }
  | .index => { d with index := some e.index }
  | .timestamp => { d with timestamp := some e.timestamp }
  | .prevHash => { d with prevHash := some e.prevHash }
  | .recordHash => { d with recordHash := some e.recordHash }
  | .recordType => { d with recordType := some e.recordType }
  | .payload => { d with payload := some e.payload }

end Draft

/-! ### Fields -/

theorem skipsSpace_fieldReader (depth : Json.Depth) (d : Draft) (f : Field) :
    SkipsSpace (fieldReader depth d f) := by
  have hid : SkipsSpace idReader := by
    intro input
    rw [idReader, idReader, Json.skipsSpace_text]
  cases f with
  | id => exact hid.map _
  | index => exact Json.skipsSpace_natural.map _
  | timestamp => exact (Json.skipsSpace_spelled _).map _
  | prevHash => exact (Json.skipsSpace_spelled _).map _
  | recordHash => exact (Json.skipsSpace_spelled _).map _
  | recordType => exact (Json.skipsSpace_spelled _).map _
  | payload => exact (Json.value_skipSpace true depth).map _

/-- An identifier is read in any of its spellings. -/
theorem reads_id {id : String} {u : Uuid} (h : Uuid.parse? id = .ok u) :
    Reads idReader (Canonical.string id) u := by
  intro rest hrest
  rw [idReader, Json.reads_text _ id rest hrest]
  simp only [h]

/-- An unsigned word is read back from its number. -/
theorem reads_index {s : Json.Spacing} {d : Nat} {u : UInt64} {t : List Char}
    (h : Json.write s d (.ofUInt64 u) = .ok t) : Reads Json.natural t u := by
  obtain ⟨hfinite, rfl⟩ := Json.numberText_eq_ok_iff.mp h
  exact Json.reads_natural (Number.isProper_storedNumeral _) (Number.number?_storedNumeral hfinite)
    (by rw [Number.stored_ofUInt64, Number.natural?_ofUInt64])

theorem stored?_tag (t : RecordType) : RecordType.stored? t.tag = .ok t := by
  rw [RecordType.stored?, dif_neg t.tag_ne]

/-- **A field is read back from its stored text.** -/
theorem reads_field {s : Json.Spacing} {n : Nat} {depth : Json.Depth} {e : Entry} {id : String}
    {f : Field} {t : List Char} (hs : s.IsBlank) (hid : Uuid.parse? id = .ok e.id)
    (hkeys : e.payload.HasDistinctKeys) (hdepth : e.payload.NestsWithin depth)
    (hw : Json.write s n (e.spelledValue id f) = .ok t) (d : Draft) :
    Reads (fieldReader depth d f) t (d.put (e.withNumbers Number.stored) f) := by
  cases f with
  | id =>
    rw [Json.eq_of_write_string hw]
    exact (reads_id hid).map _
  | index => exact (reads_index hw).map _
  | timestamp =>
    rw [Json.eq_of_write_string hw]
    exact (Json.reads_spelled (by rw [Timestamp.parse?_text]; rfl)).map _
  | prevHash =>
    rw [Json.eq_of_write_string hw]
    exact (Json.reads_spelled (by rw [Digest.parse?_text]; rfl)).map _
  | recordHash =>
    rw [Json.eq_of_write_string hw]
    exact (Json.reads_spelled (by rw [Digest.parse?_text]; rfl)).map _
  | recordType =>
    rw [Json.eq_of_write_string hw]
    exact (Json.reads_spelled (stored?_tag e.recordType)).map _
  | payload => exact (Json.reads_write hs hw (fun _ => hkeys) hdepth).map _

/-! ### Entries -/

/-- How entries are read from objects. -/
def form (depth : Json.Depth) : Json.RecordForm Field Draft Entry where
  fields := Field.all
  name := Field.name
  empty := .empty
  has := Draft.has
  put := Draft.put
  complete? := Draft.entry?
  field := fieldReader depth
  member := memberReader depth
  inside := objectReader depth
  nodup := by decide
  has_empty := fun f _ => by cases f <;> rfl
  has_put_of_ne := fun e d f g h => by cases f <;> cases g <;> first | rfl | exact absurd rfl h
  complete?_put := fun e => rfl
  skipsSpace := skipsSpace_fieldReader depth
  member_eq := fun hnew hcolon => by simp [memberReader, Field.ofName?_name, hnew, hcolon]
  inside_eq := fun hmembers hrecord => by simp only [objectReader, hmembers, hrecord]

/-- **An entry is read back from its stored text**, with the numbers of its record read again. The
identifier may be spelled in any way. -/
theorem reads_entry {s : Json.Spacing} {n : Nat} {depth : Json.Depth} {e : Entry} {id : String}
    {t : List Char} (hs : s.IsBlank) (hid : Uuid.parse? id = .ok e.id)
    (hkeys : e.payload.HasDistinctKeys) (hdepth : e.payload.NestsWithin depth)
    (hw : Json.write s n (e.spelled id) = .ok t) :
    Reads (reader (depth + 1)) t (e.withNumbers Number.stored) := by
  obtain ⟨u, rfl, hread⟩ := (form depth).reads_written hs (e.spelledValue id)
    (e.withNumbers Number.stored) (fun f u d hu => reads_field hs hid hkeys hdepth hu d) hw
  exact Json.reads_record hread

end Entry

end SealedLedger
