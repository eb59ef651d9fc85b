import Mathlib.Data.List.Perm.Basic
import SealedLedger.Ledger.Store
import SealedLedger.Proofs.Digest
import SealedLedger.Proofs.Json.Accepted
import SealedLedger.Proofs.Json.Refinement
import SealedLedger.Proofs.Ledger.Entry
import SealedLedger.Proofs.Timestamp.Stored

/-!
# What is read as an entry

An entry may be stored as an object, with its fields in any order, or as an array of them. Either
way the same text is also a value, and the value has the stored form of each field: timestamps,
digests and record types are read from one text only, an index is the number it is written as, and a
record is read as the value that it is. The identifier alone may be spelled in several ways.

A draft is compared with the members gathered so far. It holds a field when there is a member of
that name, and the member has the stored form of what the draft holds.

## Main definitions

* `Entry.StoredAs` — data that is read as an entry
* `Entry.Draft.Gathers` — a draft and the members that it was read from

## Main results

* `Entry.refines_reader` — what is read as an entry is data that the entry is stored as
* `Ledger.exists_storedAs_of_ofJson?` — and so for all entries of a ledger
* `Ledger.payload_accepted` — the records of a ledger that was read have canonical texts
-/

namespace SealedLedger

open Json (Refines)

/-- A record type is read from its own text only. -/
theorem RecordType.tag_of_stored? {s : String} {t : RecordType} (h : stored? s = .ok t) :
    t.tag = s := by
  rw [stored?] at h
  split at h
  · cases h
  · rw [← Except.ok.inj h]

namespace Entry

/-! ### Data that is read as an entry -/

/-- Data that is read as an entry: its fields as the members of an object, in any order, or as the
items of an array, with some spelling of its identifier. -/
inductive StoredAs (e : Entry) : Value → Prop
  | object {id : String} {ms : List (String × Value)} (spells : Uuid.parse? id = .ok e.id)
      (members : ms.Perm (Field.all.map fun f => (f.name, e.spelledValue id f))) :
      StoredAs e (.object ms)
  | array {id : String} (spells : Uuid.parse? id = .ok e.id) :
      StoredAs e (.array (Field.all.map (e.spelledValue id)))

/-! ### Fields -/

variable {distinct : Bool} {depth : Json.Depth}

/-- An identifier is spelled by the text that it is read from. -/
theorem refines_id :
    Refines (fun u v => ∃ s, Uuid.parse? s = .ok u ∧ v = .string s) idReader
      (Json.value distinct depth) := by
  intro input u rest h
  unfold idReader at h
  split at h
  · cases h
  · next s left htext =>
    split at h
    · next hs =>
      obtain ⟨rfl, rfl⟩ := Prod.mk.inj (Except.ok.inj h)
      obtain ⟨v, hv, hvs⟩ := Json.refines_text _ htext
      exact ⟨v, hv, s, hs, hvs⟩
    · cases h

theorem eq_ok_of_mapError {ε ε' α : Type} {f : ε → ε'} {x : Except ε α} {a : α}
    (h : x.mapError f = .ok a) : x = .ok a := by
  cases x with
  | error e => cases h
  | ok b => rw [Except.ok.inj h]

theorem refines_timestamp :
    Refines (fun t v => v = .string t.text) timestampReader (Json.value distinct depth) :=
  Json.refines_spelled fun _ _ h => Timestamp.text_of_parse? (eq_ok_of_mapError h)

theorem refines_digest :
    Refines (fun d v => v = .string d.text) digestReader (Json.value distinct depth) :=
  Json.refines_spelled fun _ _ h => Digest.text_of_parse? (eq_ok_of_mapError h)

theorem refines_recordType :
    Refines (fun t v => v = .string t.tag) recordTypeReader (Json.value distinct depth) :=
  Json.refines_spelled fun _ _ h => RecordType.tag_of_stored? h

/-! ### Drafts -/

namespace Draft

/-- The text spells the identifier that the draft holds, if it holds one. -/
def IsSpelled (id : String) (d : Draft) : Prop :=
  ∀ u, d.id = some u → Uuid.parse? id = .ok u

/-- The stored form of a field that the draft holds, with its identifier spelled in some way. -/
def value? (id : String) (d : Draft) : Field → Option Value
  | .id => d.id.map fun _ => .string id
  | .index => d.index.map .ofUInt64
  | .timestamp => d.timestamp.map fun t => .string t.text
  | .prevHash => d.prevHash.map fun h => .string h.text
  | .recordHash => d.recordHash.map fun h => .string h.text
  | .recordType => d.recordType.map fun t => .string t.tag
  | .payload => d.payload

theorem isSome_value? (id : String) (d : Draft) (f : Field) :
    (d.value? id f).isSome = d.has f := by
  cases f <;> simp [value?, has]

/-- The members are those of the fields that the draft holds. -/
structure Gathers (d : Draft) (ms : List (String × Value)) : Prop where
  nodup : (ms.map Prod.fst).Nodup
  members : ∃ id, d.IsSpelled id ∧
    ∀ k v, (k, v) ∈ ms ↔ ∃ f : Field, f.name = k ∧ d.value? id f = some v

/-- One draft has one more field than another, with this stored form. -/
def Adds (f : Field) (d d' : Draft) (v : Value) : Prop :=
  ∀ id, d.IsSpelled id → ∃ id', d'.IsSpelled id' ∧
    ∀ g, d'.value? id' g = if g = f then some v else d.value? id g

theorem gathers_empty : Gathers empty [] where
  nodup := List.nodup_nil
  members := by
    refine ⟨"", fun _ h => (by cases h), fun k v => ?_⟩
    constructor
    · intro h
      cases h
    · rintro ⟨f, -, h⟩
      cases f <;> cases h

theorem Gathers.notMem {d : Draft} {ms : List (String × Value)} (h : d.Gathers ms) {f : Field}
    (hnew : d.has f = false) : f.name ∉ ms.map Prod.fst := by
  obtain ⟨id, -, hms⟩ := h.members
  intro hmem
  obtain ⟨⟨k, v⟩, hm, hk⟩ := List.mem_map.mp hmem
  obtain ⟨g, hg, hv⟩ := (hms k v).mp hm
  rw [Field.name_injective (hg.trans hk)] at hv
  rw [← isSome_value? id, hv] at hnew
  cases hnew

theorem Gathers.adds {d d' : Draft} {ms : List (String × Value)} {f : Field} {v : Value}
    (h : d.Gathers ms) (hnew : d.has f = false) (hadds : Adds f d d' v) :
    d'.Gathers (ms ++ [(f.name, v)]) where
  nodup := Value.nodup_map_fst_concat h.nodup (h.notMem hnew) v
  members := by
    obtain ⟨id, hid, hms⟩ := h.members
    obtain ⟨id', hid', hvalue⟩ := hadds id hid
    refine ⟨id', hid', fun k w => ?_⟩
    rw [List.mem_append, List.mem_singleton, Prod.mk.injEq, hms]
    constructor
    · rintro (⟨g, rfl, hg⟩ | ⟨rfl, rfl⟩)
      · refine ⟨g, rfl, ?_⟩
        rw [hvalue, if_neg, hg]
        rintro rfl
        rw [← isSome_value? id, hg] at hnew
        cases hnew
      · exact ⟨f, rfl, by rw [hvalue, if_pos rfl]⟩
    · rintro ⟨g, rfl, hg⟩
      rw [hvalue] at hg
      split at hg
      · next hgf =>
        subst hgf
        exact .inr ⟨rfl, (Option.some.inj hg).symm⟩
      · exact .inl ⟨g, rfl, hg⟩

theorem exists_of_bind {ε α β : Type} {x : Except ε α} {f : α → Except ε β} {b : β}
    (h : (x >>= f) = .ok b) : ∃ a, x = .ok a ∧ f a = .ok b := by
  cases x with
  | error e => cases h
  | ok a => exact ⟨a, rfl, h⟩

theorem eq_of_require {α : Type} {f : Field} {o : Option α} {a : α} (h : require f o = .ok a) :
    o = some a := by
  cases o with
  | none => cases h
  | some b => rw [Except.ok.inj h]

/-- A draft that makes an entry holds all its fields. -/
theorem eq_of_entry? {d : Draft} {e : Entry} (h : d.entry? = .ok e) :
    d = ⟨some e.id, some e.index, some e.timestamp, some e.prevHash, some e.recordHash,
      some e.recordType, some e.payload⟩ := by
  obtain ⟨_, hid, h⟩ := exists_of_bind h
  obtain ⟨_, hindex, h⟩ := exists_of_bind h
  obtain ⟨_, htimestamp, h⟩ := exists_of_bind h
  obtain ⟨_, hprevHash, h⟩ := exists_of_bind h
  obtain ⟨_, hrecordHash, h⟩ := exists_of_bind h
  obtain ⟨_, hrecordType, h⟩ := exists_of_bind h
  obtain ⟨_, hpayload, h⟩ := exists_of_bind h
  obtain rfl := Except.ok.inj h
  rw [← eq_of_require hid, ← eq_of_require hindex, ← eq_of_require htimestamp,
    ← eq_of_require hprevHash, ← eq_of_require hrecordHash, ← eq_of_require hrecordType,
    ← eq_of_require hpayload]

theorem Gathers.storedAs {d : Draft} {ms : List (String × Value)} (h : d.Gathers ms) {e : Entry}
    (he : d.entry? = .ok e) : e.StoredAs (.object ms) := by
  obtain ⟨id, hid, hms⟩ := h.members
  obtain rfl := eq_of_entry? he
  refine .object (hid e.id rfl) ?_
  have hvalue : ∀ f, value? id ⟨some e.id, some e.index, some e.timestamp, some e.prevHash,
      some e.recordHash, some e.recordType, some e.payload⟩ f = some (e.spelledValue id f) := by
    intro f
    cases f <;> rfl
  refine (List.perm_ext_iff_of_nodup (.of_map _ h.nodup) (.of_map Prod.fst ?_)).mpr ?_
  · rw [List.map_map]
    exact Field.nodup_names
  · rintro ⟨k, v⟩
    simp [hms, hvalue, Field.mem_all]

end Draft

/-! ### An entry stored as an object -/

/-- A field is added to a draft with the stored form that it is read from. -/
theorem refines_fieldReader (d : Draft) (f : Field) :
    Refines (Draft.Adds f d) (fieldReader depth d f) (Json.value true depth) := by
  cases f with
  | id =>
    refine refines_id.map ?_
    rintro u _ ⟨s, hs, rfl⟩ _ _
    exact ⟨s, fun w hw => Option.some.inj hw ▸ hs, fun g => by cases g <;> rfl⟩
  | index =>
    refine Json.refines_natural.map ?_
    rintro u _ rfl id hid
    exact ⟨id, hid, fun g => by cases g <;> rfl⟩
  | timestamp =>
    refine refines_timestamp.map ?_
    rintro t _ rfl id hid
    exact ⟨id, hid, fun g => by cases g <;> rfl⟩
  | prevHash =>
    refine refines_digest.map ?_
    rintro h _ rfl id hid
    exact ⟨id, hid, fun g => by cases g <;> rfl⟩
  | recordHash =>
    refine refines_digest.map ?_
    rintro h _ rfl id hid
    exact ⟨id, hid, fun g => by cases g <;> rfl⟩
  | recordType =>
    refine refines_recordType.map ?_
    rintro t _ rfl id hid
    exact ⟨id, hid, fun g => by cases g <;> rfl⟩
  | payload =>
    refine (Refines.refl _).map ?_
    rintro v _ rfl id hid
    exact ⟨id, hid, fun g => by cases g <;> rfl⟩

/-- A member is read into a draft as it is gathered. -/
theorem refines_memberReader {d : Draft} {ms : List (String × Value)} (h : d.Gathers ms)
    (k : String) : Refines Draft.Gathers (memberReader depth d k)
      (Json.member true (Json.value true depth) ms k) := by
  intro input d' rest hread
  unfold memberReader at hread
  split at hread
  · cases hread
  · next f hf =>
    obtain rfl := Field.name_of_ofName? hf
    split at hread
    · cases hread
    · next hnew =>
      split at hread
      · cases hread
      · next left hcolon =>
        obtain ⟨v, hv, hadds⟩ := refines_fieldReader d f hread
        refine ⟨ms ++ [(f.name, v)], ?_, h.adds (by simpa using hnew) hadds⟩
        -- a field that is new to the draft has a key that is new to the members
        have hany : ms.any (·.1 == f.name) = false :=
          Value.any_key_eq_false_iff.mpr (h.notMem (by simpa using hnew))
        rw [Json.member, hany, Bool.and_false, if_neg Bool.false_ne_true, hcolon]
        simp only [hv]

theorem refines_objectReader :
    Refines (fun e ms => StoredAs e (.object ms)) (objectReader depth)
      (Json.members (Json.member true (Json.value true depth)) []) := by
  intro input e rest hread
  unfold objectReader at hread
  split at hread
  · cases hread
  · next d left hmembers =>
    split at hread
    · next he =>
      obtain ⟨rfl, rfl⟩ := Prod.mk.inj (Except.ok.inj hread)
      obtain ⟨ms, hms, hgathers⟩ := Json.Refines.members
        (fun _ _ k h => refines_memberReader h k) Draft.gathers_empty hmembers
      exact ⟨ms, hms, hgathers.storedAs he⟩
    · cases hread

/-! ### An entry stored as an array -/

theorem exists_nextElement_of_positional {α : Type} {R : α → Value → Prop} {position : Nat}
    {item : Json.Reader α} (hitem : Refines R item (Json.value true depth))
    {input rest : List UInt8} {a : α} (h : positional position item input = .ok (a, rest)) :
    ∃ v, Json.nextElement (position == 0) (Json.value true depth) input = .ok (some v, rest) ∧
      R a v :=
  hitem.nextElement (Json.nextElement_of_positional h)

theorem refines_arrayReader :
    Refines (fun e vs => StoredAs e (.array vs)) (Json.bracketed (arrayReader depth))
      (Json.bracketed (Json.elements (Json.value true depth))) := by
  intro input e rest hread
  obtain ⟨left, h, hclose⟩ := Json.bracketed_eq_ok_iff.mp hread
  obtain ⟨id, _, hid, h⟩ := Json.exists_of_bind h
  obtain ⟨index, _, hindex, h⟩ := Json.exists_of_bind h
  obtain ⟨timestamp, _, htimestamp, h⟩ := Json.exists_of_bind h
  obtain ⟨prevHash, _, hprevHash, h⟩ := Json.exists_of_bind h
  obtain ⟨recordHash, _, hrecordHash, h⟩ := Json.exists_of_bind h
  obtain ⟨recordType, _, hrecordType, h⟩ := Json.exists_of_bind h
  obtain ⟨payload, _, hpayload, h⟩ := Json.exists_of_bind h
  obtain ⟨rfl, rfl⟩ := Json.eq_of_pure h
  obtain ⟨_, hid, s, hs, rfl⟩ := exists_nextElement_of_positional refines_id hid
  obtain ⟨_, hindex, rfl⟩ := exists_nextElement_of_positional Json.refines_natural hindex
  obtain ⟨_, htimestamp, rfl⟩ := exists_nextElement_of_positional refines_timestamp htimestamp
  obtain ⟨_, hprevHash, rfl⟩ := exists_nextElement_of_positional refines_digest hprevHash
  obtain ⟨_, hrecordHash, rfl⟩ := exists_nextElement_of_positional refines_digest hrecordHash
  obtain ⟨_, hrecordType, rfl⟩ := exists_nextElement_of_positional refines_recordType hrecordType
  obtain ⟨_, hpayload, rfl⟩ := exists_nextElement_of_positional (.refl _) hpayload
  refine ⟨_, ?_, .array hs⟩
  exact Json.bracketed_elements_of_readsItems (Json.consumes_value true depth)
    (.cons hid (.cons hindex (.cons htimestamp (.cons hprevHash (.cons hrecordHash
      (.cons hrecordType (.cons hpayload (Json.readsItems_nil_of_closeArray _ hclose))))))))

/-! ### Either way -/

/-- **What is read as an entry is data that the entry is stored as.** -/
theorem refines_reader :
    Refines StoredAs (reader (depth + 1)) (Json.value true (depth + 1)) :=
  Json.refines_record refines_arrayReader refines_objectReader

/-- The record stands in the data that an entry is stored as. -/
theorem StoredAs.payload_accepted {e : Entry} {v : Value} (h : e.StoredAs v)
    (hv : Json.IsAccepted (depth + 1) v) : Json.IsAccepted depth e.payload := by
  cases h with
  | object _ hms =>
    obtain ⟨-, hvalues⟩ := Json.isAccepted_object_iff.mp hv
    exact hvalues (Field.payload.name, e.payload)
      (hms.mem_iff.mpr (List.mem_map_of_mem (Field.mem_all .payload)))
  | array _ =>
    exact Json.isAccepted_array_iff.mp hv e.payload (List.mem_map_of_mem (Field.mem_all .payload))

end Entry

namespace Ledger

/-- What a ledger that was read is made of: the entries of the text, one at least. -/
theorem entriesOfJson?_of_ofJson? {bytes : List UInt8} {c : Clock} {l : Ledger}
    (h : ofJson? bytes c = .ok l) : entriesOfJson? bytes = .ok l.entries := by
  rw [ofJson?] at h
  split at h
  · cases h
  · split at h
    · cases h
    · split at h
      · cases h
      · next entries hentries =>
        split at h
        · cases h
        · next l' hl =>
          rw [ofEntries?] at hl
          split at hl
          · cases hl
          · rw [hentries, ← Except.ok.inj h, ← Option.some.inj hl]
  · cases h

/-- **The text of a ledger is an array of data**, and each entry is stored as its item. -/
theorem exists_storedAs_of_ofJson? {bytes : List UInt8} {c : Clock} {l : Ledger}
    (h : ofJson? bytes c = .ok l) :
    ∃ items, Json.read? bytes = .ok (.array items) ∧
      List.Forall₂ Entry.StoredAs l.entries items := by
  have hentries := Entry.eq_ok_of_mapError (entriesOfJson?_of_ofJson? h)
  obtain ⟨_, hread, items, rfl, hstored⟩ :=
    (Json.refines_sequence Entry.refines_reader).whole hentries
  exact ⟨items, hread, hstored⟩

/-- **The records of a ledger that was read have canonical texts** and are within the limit. -/
theorem payload_accepted {bytes : List UInt8} {c : Clock} {l : Ledger}
    (h : ofJson? bytes c = .ok l) : ∀ e ∈ l.entries, Json.IsAccepted 125 e.payload := by
  intro e he
  obtain ⟨items, hread, hstored⟩ := exists_storedAs_of_ofJson? h
  have hitems := Json.isAccepted_array_iff.mp (Json.isAccepted_of_read? hread)
  obtain ⟨i, rfl⟩ := List.mem_iff_get.mp he
  have hi : i < items.length := hstored.length_eq ▸ i.isLt
  exact (hstored.get i.isLt hi).payload_accepted (hitems _ (List.get_mem items ⟨i, hi⟩))

/-- **Both the items of the text and the entries read from them have canonical forms.** -/
theorem exists_canonicalize_of_ofJson? {bytes : List UInt8} {c : Clock} {l : Ledger}
    (h : ofJson? bytes c = .ok l) :
    ∃ items, Json.read? bytes = .ok (.array items) ∧
      List.Forall₂ (fun e v => e.StoredAs v ∧ (∃ b, canonicalize v = .ok b) ∧
        ∃ b, e.canonicalBytes? = .ok b) l.entries items := by
  obtain ⟨items, hread, hstored⟩ := exists_storedAs_of_ofJson? h
  have hitems := Json.isAccepted_array_iff.mp (Json.isAccepted_of_read? hread)
  refine ⟨items, hread, List.forall₂_iff_get.mpr ⟨hstored.length_eq, fun i hl hi => ?_⟩⟩
  refine ⟨hstored.get hl hi, ?_, ?_⟩
  · exact Canonical.exists_canonicalize_iff.mpr
      (hitems _ (List.get_mem items ⟨i, hi⟩)).exists_writes
  · exact Entry.exists_canonicalBytes?_iff.mpr (Canonical.exists_canonicalize_iff.mpr
      (payload_accepted h _ (List.get_mem l.entries ⟨i, hl⟩)).exists_writes)

end Ledger

end SealedLedger
