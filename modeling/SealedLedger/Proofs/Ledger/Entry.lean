import SealedLedger.Ledger.Entry
import SealedLedger.Proofs.Canonical.Equivalence
import SealedLedger.Proofs.Timestamp
import SealedLedger.Proofs.Uuid

/-!
# The canonical form of an entry

An entry is hashed as an object of seven members, and each member gives its field away: the texts
of identifiers, timestamps and digests are injective, an index is a number written in decimal, and
a record type is its tag. So the canonical bytes of an entry determine all its fields, its record
up to the canonical form.

Six of the members can always be written. What an entry is refused for can only be its record.

## Main definitions

* `Entry.spelled` — the stored form of an entry whose identifier is spelled in some way
* `Entry.canonicalText` — the canonical text of an entry, from that of its record
* `Entry.Agrees` — two entries with the same fields, and records with the same canonical form

## Main results

* `Entry.exists_canonicalBytes?_iff` — an entry has canonical bytes exactly when its record has
* `Entry.canonicalBytes?_eq` — the canonical bytes, member by member
* `Entry.canonicalBytes?_eq_iff_agrees` — and they are those of the entries that agree with it
* `Entry.digest?_eq_ok_iff` — the digest of an entry is the hash of its canonical bytes
-/

namespace SealedLedger

namespace Digest

theorem text_injective : Function.Injective text := by
  intro a b h
  have hhex : a.hex = b.hex := (List.cons.inj (List.append_cancel_left
    (String.ofList_injective h))).2
  rw [Digest.mk.injEq]
  exact Vector.toList_inj.mp (Hex.encode_injective hhex)

/-- The digest of a value is the hash of its canonical bytes. -/
theorem ofValue?_eq_ok_iff {v : Value} {d : Digest} :
    ofValue? v = .ok d ↔ ∃ c, canonicalize v = .ok c ∧ d = ⟨Sha256.hash c⟩ :=
  map_eq_ok_iff

/-- A value has no digest for the reason that it has no canonical bytes. -/
theorem ofValue?_eq_error_iff {v : Value} {err : CanonicalError} :
    ofValue? v = .error err ↔ canonicalize v = .error err := by
  rw [ofValue?]
  cases canonicalize v <;> simp [Except.map]

end Digest

namespace Entry

open Canonical (Writes)
open Value (Equivalent)

/-! ### Members -/

theorem Field.mem_all (f : Field) : f ∈ Field.all := by
  cases f <;> decide

/-- A field is found by its name. -/
theorem Field.ofName?_name (f : Field) : ofName? f.name = some f := by
  cases f <;> decide +kernel

theorem Field.name_injective : Function.Injective Field.name := by
  intro f g h
  rw [← Option.some_inj, ← ofName?_name, h, ofName?_name]

theorem Field.name_of_ofName? {k : String} {f : Field} (h : ofName? k = some f) : f.name = k := by
  simpa using List.find?_some h

theorem Field.nodup_names : (all.map name).Nodup := by decide

theorem mem_members (value : Field → Value) (f : Field) :
    (f.name, value f) ∈ Field.all.map fun f => (f.name, value f) :=
  List.mem_map_of_mem (Field.mem_all f)

theorem map_fst_members (value : Field → Value) :
    (Field.all.map fun f => (f.name, value f)).map Prod.fst = Field.all.map Field.name := by
  rw [List.map_map]
  rfl

/-! ### Spellings of the identifier -/

/-- The stored form of a field of an entry whose identifier is spelled in some way. -/
def spelledValue (id : String) (e : Entry) : Field → Value
  | .id => .string id
  | f => e.fieldValue f

/-- The stored form of an entry whose identifier is spelled in some way. -/
def spelled (id : String) (e : Entry) : Value :=
  .object (Field.all.map fun f => (f.name, e.spelledValue id f))

theorem spelledValue_text (e : Entry) (f : Field) :
    e.spelledValue e.id.text f = e.fieldValue f := by
  cases f <;> rfl

theorem spelled_text (e : Entry) : e.spelled e.id.text = e.toValue := by
  simp only [spelled, toValue, spelledValue_text]

/-! ### Which entries have canonical bytes -/

/-- A field that is not the record can be written. -/
theorem exists_writes_spelledValue {e : Entry} (id : String) {f : Field} (h : f ≠ .payload) :
    ∃ t, Writes (e.spelledValue id f) t := by
  cases f with
  | payload => exact absurd rfl h
  | index => exact ⟨_, Canonical.number_ofUInt64 e.index⟩
  | _ => exact ⟨_, rfl⟩

/-- The identifier may be spelled in any way. -/
theorem exists_canonicalize_spelled_iff {e : Entry} {id : String} :
    (∃ c, canonicalize (e.spelled id) = .ok c) ↔ ∃ c, canonicalize e.payload = .ok c := by
  rw [Canonical.exists_canonicalize_iff, Canonical.exists_canonicalize_iff, spelled,
    Canonical.exists_writes_object_iff, map_fst_members]
  constructor
  · rintro ⟨-, hvalues⟩
    exact hvalues _ (mem_members (e.spelledValue id) .payload)
  · intro hpayload
    refine ⟨by decide, fun m hm => ?_⟩
    obtain ⟨f, -, rfl⟩ := List.mem_map.mp hm
    by_cases hf : f = .payload
    · subst hf
      exact hpayload
    · exact exists_writes_spelledValue id hf

/-- **An entry has canonical bytes exactly when its record has.** -/
theorem exists_canonicalBytes?_iff {e : Entry} :
    (∃ c, e.canonicalBytes? = .ok c) ↔ ∃ c, canonicalize e.payload = .ok c := by
  rw [canonicalBytes?, ← spelled_text, exists_canonicalize_spelled_iff]

/-! ### The canonical text of an entry -/

/-- The fields in the order of their names. -/
def Field.sorted : List Field :=
  [.id, .index, .prevHash, .recordHash, .payload, .recordType, .timestamp]

/-- The members of an entry in the order of their keys. -/
theorem mergeSort_members (e : Entry) :
    (Field.all.map fun f => (f.name, e.fieldValue f)).mergeSort Value.keyLE
      = Field.sorted.map fun f => (f.name, e.fieldValue f) := by
  have hperm : Field.all.Perm Field.sorted := by decide
  have hsorted : (Field.sorted.map fun f => (f.name, e.fieldValue f)).Pairwise
      fun a b => Value.keyLE a b = true := by
    have key : Field.sorted.Pairwise fun f g => utf8 f.name ≤ utf8 g.name := by decide +kernel
    rw [List.pairwise_map]
    refine key.imp ?_
    intro f g h
    rwa [Value.keyLE_iff]
  refine ((List.mergeSort_perm _ _).trans (hperm.map _)).eq_of_pairwise ?_
    (Value.pairwise_mergeSort_keyLE _) hsorted
  intro a b ha hb hab hba
  obtain ⟨f, -, rfl⟩ := List.mem_map.mp (List.mem_mergeSort.mp ha)
  obtain ⟨g, -, rfl⟩ := List.mem_map.mp hb
  rw [Field.name_injective (Value.fst_eq_of_keyLE hab hba)]

/-- The canonical text of an entry when that of its record is given: its members in the order of
their keys. -/
def canonicalText (e : Entry) (payload : List Char) : List Char :=
  '\x7b' :: (Canonical.commaSeparated
    [Canonical.member "entry_id" (Canonical.string e.id.text),
      Canonical.member "entry_index" (Decimal.natText e.index.toNat),
      Canonical.member "prev_hash" (Canonical.string e.prevHash.text),
      Canonical.member "record_hash" (Canonical.string e.recordHash.text),
      Canonical.member "record_payload" payload,
      Canonical.member "record_type" (Canonical.string e.recordType.tag),
      Canonical.member "timestamp" (Canonical.string e.timestamp.text)] ++ ['\x7d'])

/-- **The canonical bytes of an entry** are those of its canonical text. -/
theorem canonicalBytes?_eq {e : Entry} {p : List Char} (hp : Writes e.payload p) :
    e.canonicalBytes? = .ok (Utf8.encode (e.canonicalText p)) := by
  refine Canonical.canonicalize_eq_ok_iff.mpr ⟨_, Canonical.writes_object_iff.mpr ⟨?_, _, ?_, rfl⟩,
    rfl⟩
  · rw [map_fst_members]
    decide
  · rw [mergeSort_members]
    have hid : Writes (e.fieldValue .id) (Canonical.string e.id.text) := rfl
    have hindex : Writes (e.fieldValue .index) (Decimal.natText e.index.toNat) :=
      Canonical.number_ofUInt64 e.index
    have hprev : Writes (e.fieldValue .prevHash) (Canonical.string e.prevHash.text) := rfl
    have hrecord : Writes (e.fieldValue .recordHash) (Canonical.string e.recordHash.text) := rfl
    have htype : Writes (e.fieldValue .recordType) (Canonical.string e.recordType.tag) := rfl
    have htime : Writes (e.fieldValue .timestamp) (Canonical.string e.timestamp.text) := rfl
    exact .cons ⟨_, hid, rfl⟩ (.cons ⟨_, hindex, rfl⟩ (.cons ⟨_, hprev, rfl⟩
      (.cons ⟨_, hrecord, rfl⟩ (.cons ⟨_, hp, rfl⟩ (.cons ⟨_, htype, rfl⟩
        (.cons ⟨_, htime, rfl⟩ .nil))))))

/-! ### What the canonical bytes determine -/

/-- The entries have the same fields, and their records have the same canonical form. -/
structure Agrees (e f : Entry) : Prop where
  id : e.id = f.id
  index : e.index = f.index
  timestamp : e.timestamp = f.timestamp
  prevHash : e.prevHash = f.prevHash
  recordHash : e.recordHash = f.recordHash
  recordType : e.recordType = f.recordType
  payload : canonicalize e.payload = canonicalize f.payload

theorem eq_of_equivalent_string {s t : String} (h : Equivalent (.string s) (.string t)) :
    s = t := by
  cases h
  rfl

theorem eq_of_equivalent_ofUInt64 {u v : UInt64}
    (h : Equivalent (.number (.ofUInt64 u)) (.number (.ofUInt64 v))) : u = v := by
  cases h with
  | number hu hv =>
    rw [Canonical.number_ofUInt64] at hu hv
    exact UInt64.toNat_inj.mp
      (Decimal.natText_injective (Except.ok.inj (hu.trans hv.symm)))

/-- Two entries are equivalent when their fields are, one by one. -/
theorem equivalent_toValue_iff {e f : Entry} : Equivalent e.toValue f.toValue ↔
    ∀ fld, Equivalent (e.fieldValue fld) (f.fieldValue fld) := by
  constructor
  · intro h fld
    cases h with
    | object hkeys hvalues => exact hvalues fld.name _ _ (mem_members _ fld) (mem_members _ fld)
  · intro h
    refine .object (fun k => by rw [map_fst_members, map_fst_members]) ?_
    intro k v w hv hw
    obtain ⟨fld, -, hfld⟩ := List.mem_map.mp hv
    obtain ⟨gld, -, hgld⟩ := List.mem_map.mp hw
    obtain ⟨rfl, rfl⟩ := Prod.mk.inj hfld
    obtain ⟨hname, rfl⟩ := Prod.mk.inj hgld
    rw [Field.name_injective hname]
    exact h fld

theorem fieldValue_eq_of_agrees {e f : Entry} (h : e.Agrees f) {fld : Field}
    (hfld : fld ≠ .payload) : e.fieldValue fld = f.fieldValue fld := by
  cases fld with
  | id => rw [fieldValue, fieldValue, h.id]
  | index => rw [fieldValue, fieldValue, h.index]
  | timestamp => rw [fieldValue, fieldValue, h.timestamp]
  | prevHash => rw [fieldValue, fieldValue, h.prevHash]
  | recordHash => rw [fieldValue, fieldValue, h.recordHash]
  | recordType => rw [fieldValue, fieldValue, h.recordType]
  | payload => exact absurd rfl hfld

/-- **Two entries have the same canonical bytes exactly when they agree.** -/
theorem canonicalBytes?_eq_iff_agrees {e f : Entry} {c d : List UInt8}
    (he : e.canonicalBytes? = .ok c) (hf : f.canonicalBytes? = .ok d) : c = d ↔ e.Agrees f := by
  obtain ⟨p, hp⟩ := exists_canonicalBytes?_iff.mp ⟨c, he⟩
  obtain ⟨q, hq⟩ := exists_canonicalBytes?_iff.mp ⟨d, hf⟩
  constructor
  · rintro rfl
    have hfield := equivalent_toValue_iff.mp (Canonical.equivalent_of_canonicalize_eq he hf)
    have htag := eq_of_equivalent_string (hfield .recordType)
    refine ⟨?_, ?_, ?_, ?_, ?_, ?_, ?_⟩
    · exact Uuid.text_injective (eq_of_equivalent_string (hfield .id))
    · exact eq_of_equivalent_ofUInt64 (hfield .index)
    · exact Timestamp.text_injective (eq_of_equivalent_string (hfield .timestamp))
    · exact Digest.text_injective (eq_of_equivalent_string (hfield .prevHash))
    · exact Digest.text_injective (eq_of_equivalent_string (hfield .recordHash))
    · rwa [RecordType.mk.injEq]
    · rw [hp, hq, Canonical.canonicalize_eq_of_equivalent (hfield .payload) hp hq]
  · intro h
    refine Canonical.canonicalize_eq_of_equivalent (equivalent_toValue_iff.mpr fun fld => ?_) he hf
    by_cases hfld : fld = .payload
    · subst hfld
      exact Canonical.equivalent_of_canonicalize_eq hp (h.payload ▸ hp)
    · rw [fieldValue_eq_of_agrees h hfld]
      obtain ⟨t, ht⟩ := exists_writes_spelledValue f.id.text hfld
      rw [spelledValue_text] at ht
      exact (Canonical.eq_iff_equivalent ht ht).mp rfl

/-! ### Digests -/

/-- The digest of an entry is the hash of its canonical bytes. -/
theorem digest?_eq_ok_iff {e : Entry} {d : Digest} :
    e.digest? = .ok d ↔ ∃ c, e.canonicalBytes? = .ok c ∧ d = ⟨Sha256.hash c⟩ :=
  Digest.ofValue?_eq_ok_iff

/-- The digest of a record is the hash of its canonical bytes. -/
theorem payloadDigest?_eq_ok_iff {e : Entry} {d : Digest} :
    e.payloadDigest? = .ok d ↔ ∃ c, canonicalize e.payload = .ok c ∧ d = ⟨Sha256.hash c⟩ :=
  Digest.ofValue?_eq_ok_iff

/-- An entry has a digest exactly when its record has one. -/
theorem exists_digest?_iff {e : Entry} :
    (∃ d, e.digest? = .ok d) ↔ ∃ c, canonicalize e.payload = .ok c := by
  rw [← exists_canonicalBytes?_iff]
  constructor
  · rintro ⟨d, hd⟩
    obtain ⟨c, hc, -⟩ := digest?_eq_ok_iff.mp hd
    exact ⟨c, hc⟩
  · rintro ⟨c, hc⟩
    exact ⟨_, digest?_eq_ok_iff.mpr ⟨c, hc, rfl⟩⟩

end Entry

end SealedLedger
