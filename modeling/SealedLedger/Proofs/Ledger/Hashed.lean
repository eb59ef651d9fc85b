import SealedLedger.Proofs.Ledger.Accepted
import SealedLedger.Proofs.Ledger.Stored

/-!
# What is hashed of a stored ledger

What is hashed of an entry is the object of its seven members, and this is meant to be the object
that stands in the file, so that anyone who has the file can compute the hashes without knowing what
the fields are. A file that is read need not be like that. The identifier of an entry is read in any
of its spellings and hashed in one of them, and an entry that is stored as an array is hashed as an
object.

Nothing else comes between the file and the hash. The text is always data of some shape, this data
has a canonical form, and so has what is hashed; the two are the same exactly when the entry is
stored as an object with its identifier spelled as it is written.

## Main definitions

* `Entry.IsMapping` — data that is an object of the seven fields
* `Entry.HashedAs` — data whose canonical form is what is hashed of an entry

## Main results

* `Entry.StoredAs.hashedAs_iff` — for one entry
* `Ledger.hashed_as_stored` — for all entries of a ledger that was read
* `Ledger.not_hashed_of_spelled` — files that break it, for any ledger
* `Ledger.not_hashed_as_stored` — an identifier in upper case
-/

namespace SealedLedger

namespace Entry

/-- The data is an object of exactly the seven fields, in any order. -/
def IsMapping (v : Value) : Prop :=
  ∃ ms, v = .object ms ∧ (ms.map Prod.fst).Perm (Field.all.map Field.name)

/-- The data is an object of the seven fields, and whoever takes its canonical form has the bytes
that are hashed of the entry, and their digest. -/
structure HashedAs (e : Entry) (v : Value) : Prop where
  isMapping : IsMapping v
  canonicalBytes : canonicalize v = e.canonicalBytes?
  digest : Digest.ofValue? v = e.digest?

variable {e : Entry} {v : Value} {id : String} {ms : List (String × Value)}

/-! ### Entries stored as objects -/

section

variable (hms : ms.Perm (Field.all.map fun f => (f.name, e.spelledValue id f)))

include hms

theorem perm_map_fst : (ms.map Prod.fst).Perm (Field.all.map Field.name) := by
  have h := hms.map Prod.fst
  rwa [List.map_map] at h

theorem get?_id : (Value.object ms).get? Field.id.name = some (.string id) :=
  Value.get?_of_mem ((perm_map_fst hms).nodup_iff.mpr Field.nodup_names)
    (hms.mem_iff.mpr (List.mem_map_of_mem (Field.mem_all .id)))

/-- The canonical form of the object is what is hashed of the entry when the identifier is spelled
as it is written, and only then. -/
theorem canonicalize_eq_iff_of_perm {b c : List UInt8} (hb : canonicalize (.object ms) = .ok b)
    (hc : e.canonicalBytes? = .ok c) : b = c ↔ id = e.id.text := by
  constructor
  · rintro rfl
    -- data of one canonical form is equivalent, and equivalent strings are the same
    cases Canonical.equivalent_of_canonicalize_eq hb hc with
    | object hkeys hvalues =>
      exact eq_of_equivalent_string (hvalues Field.id.name _ _
        (hms.mem_iff.mpr (List.mem_map_of_mem (Field.mem_all .id))) (mem_members e.fieldValue .id))
  · rintro rfl
    simp only [spelledValue_text] at hms
    have hsame : canonicalize (.object ms) = canonicalize e.toValue := by
      rw [canonicalize, canonicalize, toValue, Canonical.text_eq_of_perm hms]
    exact Except.ok.inj (hb.symm.trans (hsame.trans hc))

end

/-- A spelling that is not the written one is not hashed. -/
theorem canonicalize_spelled_ne (hother : id ≠ e.id.text)
    (hrecord : ∃ c, canonicalize e.payload = .ok c) :
    canonicalize (e.spelled id) ≠ e.canonicalBytes? := by
  obtain ⟨b, hb⟩ := exists_canonicalize_spelled_iff.mpr hrecord
  obtain ⟨c, hc⟩ := exists_canonicalBytes?_iff.mpr hrecord
  rw [hb, hc]
  intro hbc
  exact hother ((canonicalize_eq_iff_of_perm (List.Perm.refl _) hb hc).mp (Except.ok.inj hbc))

theorem isMapping_spelled (e : Entry) (id : String) : IsMapping (e.spelled id) :=
  ⟨_, rfl, perm_map_fst (List.Perm.refl _)⟩

/-! ### Either way -/

/-- **What is hashed of an entry is what is stored** when it is stored as an object and its
identifier is spelled as it is written, and only then. -/
theorem StoredAs.hashedAs_iff (h : e.StoredAs v) (hv : ∃ b, canonicalize v = .ok b)
    (he : ∃ c, e.canonicalBytes? = .ok c) :
    e.HashedAs v ↔ v.get? Field.id.name = some (.string e.id.text) := by
  obtain ⟨b, hb⟩ := hv
  obtain ⟨c, hc⟩ := he
  cases h with
  | @object id ms _ hms =>
    rw [get?_id hms, Option.some.injEq, Value.string.injEq,
      ← canonicalize_eq_iff_of_perm hms hb hc]
    constructor
    · intro hashed
      rw [← Except.ok.injEq, ← hb, ← hc, hashed.canonicalBytes]
    · rintro rfl
      have hbytes : canonicalize (.object ms) = canonicalize e.toValue := hb.trans hc.symm
      exact ⟨⟨ms, rfl, perm_map_fst hms⟩, hbytes, by
        rw [digest?, Digest.ofValue?, Digest.ofValue?, hbytes]⟩
  | array _ =>
    constructor
    · rintro ⟨⟨ms, hms, -⟩, -, -⟩
      cases hms
    · intro hid
      cases hid

end Entry

namespace Ledger

/-! ### Identifiers in another spelling -/

section

variable {l : Ledger} {spell : Entry → String} {s : Json.Spacing} {u post : List Char}
  (hs : s.IsBlank) (hpost : Json.IsBlank post) (hu : Json.write s 0 (l.spelled spell) = .ok u)
  (hrecords : ∀ e ∈ l.entries, ∃ c, canonicalize e.payload = .ok c)
  (hdepth : ∀ e ∈ l.entries, e.payload.NestsWithin 125)

include hs hpost hu hrecords hdepth

/-- The data of a ledger's text, as a document. -/
theorem read?_spelled : Json.read? (Utf8.encode (u ++ post)) = .ok (.array (l.entries.map fun e =>
    (e.withNumbers Number.stored).spelled (spell e))) := by
  have hwrites : ∃ t, Canonical.Writes (l.spelled spell) t := by
    refine Canonical.exists_writes_array_iff.mpr (List.forall_mem_map.mpr fun e he => ?_)
    exact Canonical.exists_canonicalize_iff.mp
      (Entry.exists_canonicalize_spelled_iff.mpr (hrecords e he))
  have hread : Json.Reads (Json.value true (125 + 2)) u _ := Json.reads_write hs hu
    (fun _ => Value.hasDistinctKeys_of_writes hwrites) (nestsWithin_spelled.mpr hdepth)
  rw [Json.read?, show Json.maxDepth = 125 + 2 from rfl, hread.whole_append hpost, spelled,
    Value.mapNumbers_array, List.map_map]
  exact congrArg (Except.ok ∘ Value.array)
    (List.map_congr_left fun e _ => e.mapNumbers_spelled (spell e))

/-- **A file in another spelling is not hashed as it is stored**, whatever the ledger. -/
theorem not_hashed_of_spelled (hspell : ∀ e ∈ l.entries, Uuid.parse? (spell e) = .ok e.id)
    (hother : ∀ e ∈ l.entries, spell e ≠ e.id.text) (c : Clock) :
    ∃ l' items, ofJson? (Utf8.encode (u ++ post)) c = .ok l' ∧
      Json.read? (Utf8.encode (u ++ post)) = .ok (.array items) ∧
      List.Forall₂ (fun e v => Entry.IsMapping v ∧ canonicalize v ≠ e.canonicalBytes?)
        l'.entries items := by
  have hkeys : ∀ e ∈ l.entries, e.payload.HasDistinctKeys := fun e he =>
    Value.hasDistinctKeys_of_canonicalize (hrecords e he)
  have hl' := ofJson?_spelled hs hpost hu hspell hkeys hdepth c
  have hread := read?_spelled hs hpost hu hrecords hdepth
  refine ⟨_, _, hl', hread, ?_⟩
  change List.Forall₂ _ (l.entries.map _) _
  rw [List.forall₂_map_left_iff, List.forall₂_map_right_iff, List.forall₂_same]
  intro e he
  have haccepted := payload_accepted hl' _ (List.mem_map_of_mem he)
  exact ⟨Entry.isMapping_spelled _ _, Entry.canonicalize_spelled_ne (hother e he)
    (Canonical.exists_canonicalize_iff.mpr haccepted.exists_writes)⟩

end

/-- The ledger of a first entry alone. -/
def ofFirst (u : Uuid) : Ledger where
  entries := [.genesis u .epoch]
  clock := .system
  entries_ne := List.cons_ne_nil _ _

theorem exists_canonicalize_ofFirst (u : Uuid) :
    ∀ e ∈ (ofFirst u).entries, ∃ c, canonicalize e.payload = .ok c :=
  List.forall_mem_singleton.mpr Canonical.exists_canonicalize_emptyObject

theorem nestsWithin_ofFirst (u : Uuid) : ∀ e ∈ (ofFirst u).entries, e.payload.NestsWithin 125 :=
  List.forall_mem_singleton.mpr fun m hm => by cases hm

/-- The text of a first entry, with its identifier spelled in some way, is read as this entry. -/
theorem exists_text_of_genesis {id : String} {u : Uuid} (hid : Uuid.parse? id = .ok u) :
    ∃ t l, Json.compact (.array [(Entry.genesis u .epoch).spelled id]) = .ok t ∧
      ofJson? (Utf8.encode t) .system = .ok l ∧ l.entries = [Entry.genesis u .epoch] ∧
      Json.read? (Utf8.encode t) = .ok (.array [(Entry.genesis u .epoch).spelled id]) := by
  obtain ⟨t, ht⟩ : ∃ t, Json.write .none 0 ((ofFirst u).spelled fun _ => id) = .ok t := ⟨_, rfl⟩
  have hkeys : ∀ e ∈ (ofFirst u).entries, e.payload.HasDistinctKeys := fun e he =>
    Value.hasDistinctKeys_of_canonicalize (exists_canonicalize_ofFirst u e he)
  have hl := ofJson?_spelled Json.isBlank_none Json.isBlank_nil ht
    (List.forall_mem_singleton.mpr hid) hkeys (nestsWithin_ofFirst u) .system
  have hread := read?_spelled Json.isBlank_none Json.isBlank_nil ht
    (exists_canonicalize_ofFirst u) (nestsWithin_ofFirst u)
  rw [List.append_nil] at hl hread
  exact ⟨t, _, ht, hl, rfl, hread⟩

/-! ### Ledgers that were read -/

/-- **What is hashed of a ledger that was read.** Its text is an array of as many items as the
ledger has entries. Each item has a canonical form, and so has its entry, and is made of the fields
of the entry, with some spelling of its identifier. It is an object of exactly the seven fields
whose canonical form is what is hashed of the entry just when the spelling is the one that an
identifier is written with. -/
theorem hashed_as_stored {bytes : List UInt8} {c : Clock} {l : Ledger}
    (h : ofJson? bytes c = .ok l) :
    ∃ items, Json.read? bytes = .ok (.array items) ∧
      List.Forall₂ (fun e v => e.StoredAs v ∧ (∃ b, canonicalize v = .ok b) ∧
        (∃ b, e.canonicalBytes? = .ok b) ∧
        (e.HashedAs v ↔ v.get? Entry.Field.id.name = some (.string e.id.text)))
        l.entries items := by
  obtain ⟨items, hread, hstored⟩ := exists_canonicalize_of_ofJson? h
  refine ⟨items, hread, hstored.imp ?_⟩
  rintro e v ⟨hev, hv, he⟩
  exact ⟨hev, hv, he, hev.hashedAs_iff hv he⟩

/-- A first entry whose identifier is spelled as it is written. -/
theorem hashed_as_stored_genesis :
    ∃ t l items,
      Json.compact (.array [(Entry.genesis ⟨0x5F0E6B8A3C2D4F1E8A7B000000000001⟩ .epoch).toValue])
        = .ok t ∧
      ofJson? (Utf8.encode t) .system = .ok l ∧ l.entries.length = 1 ∧
      Json.read? (Utf8.encode t) = .ok (.array items) ∧
      List.Forall₂ Entry.HashedAs l.entries items := by
  set e : Entry := .genesis ⟨0x5F0E6B8A3C2D4F1E8A7B000000000001⟩ .epoch
  obtain ⟨t, l, ht, hl, hentries, hread⟩ := exists_text_of_genesis (Uuid.parse?_text e.id)
  obtain ⟨items, hread', hhashed⟩ := hashed_as_stored hl
  obtain rfl := Value.array.inj (Except.ok.inj (hread.symm.trans hread'))
  rw [hentries] at hhashed
  obtain ⟨⟨-, -, -, hiff⟩, -⟩ := List.forall₂_cons.mp hhashed
  have hid : (e.spelled e.id.text).get? Entry.Field.id.name = some (.string e.id.text) :=
    Entry.get?_id (List.Perm.refl _)
  refine ⟨t, l, _, Entry.spelled_text e ▸ ht, hl, by rw [hentries]; rfl, hread, ?_⟩
  rw [hentries]
  exact .cons (hiff.mpr hid) .nil

/-- **What is hashed need not be what is stored.** A first entry is stored with its identifier in
upper case. The text is read, and the canonical form of the object that stands there is not what is
hashed. -/
theorem not_hashed_as_stored :
    ∃ t l v, Json.compact
        (.array [(Entry.genesis ⟨0x5F0E6B8A3C2D4F1E8A7B000000000001⟩ .epoch).spelled
          "5F0E6B8A-3C2D-4F1E-8A7B-000000000001"]) = .ok t ∧
      ofJson? (Utf8.encode t) .system = .ok l ∧
      l.entries = [Entry.genesis ⟨0x5F0E6B8A3C2D4F1E8A7B000000000001⟩ .epoch] ∧
      Json.read? (Utf8.encode t) = .ok (.array [v]) ∧ Entry.IsMapping v ∧
      canonicalize v
        ≠ (Entry.genesis ⟨0x5F0E6B8A3C2D4F1E8A7B000000000001⟩ .epoch).canonicalBytes? := by
  have hspell : Uuid.parse? "5F0E6B8A-3C2D-4F1E-8A7B-000000000001"
      = .ok ⟨0x5F0E6B8A3C2D4F1E8A7B000000000001⟩ := by decide +kernel
  have hother : "5F0E6B8A-3C2D-4F1E-8A7B-000000000001"
      ≠ Uuid.text ⟨0x5F0E6B8A3C2D4F1E8A7B000000000001⟩ := by decide +kernel
  obtain ⟨t, l, ht, hl, hentries, -⟩ := exists_text_of_genesis hspell
  have hwrite : Json.write .none 0 ((ofFirst ⟨0x5F0E6B8A3C2D4F1E8A7B000000000001⟩).spelled
      fun _ => "5F0E6B8A-3C2D-4F1E-8A7B-000000000001") = .ok t := ht
  obtain ⟨l', items, hl', hread, hall⟩ := not_hashed_of_spelled Json.isBlank_none Json.isBlank_nil
    hwrite (exists_canonicalize_ofFirst _) (nestsWithin_ofFirst _)
    (List.forall_mem_singleton.mpr hspell) (List.forall_mem_singleton.mpr hother) .system
  rw [List.append_nil] at hl' hread
  obtain rfl := Except.ok.inj (hl.symm.trans hl')
  rw [hentries] at hall
  obtain ⟨v, _, ⟨hmapping, hne⟩, hnil, rfl⟩ := List.forall₂_cons_left_iff.mp hall
  cases hnil
  exact ⟨t, l, v, ht, hl, hentries, hread, hmapping, hne⟩

end Ledger

end SealedLedger
