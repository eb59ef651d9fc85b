import SealedLedger.Ledger.Audit
import SealedLedger.Proofs.Ledger.StoredEntry

/-!
# A stored ledger is read back

The text of a ledger is read three times over: as data of any shape, for the tags of its digests,
and as entries. The first reading is the strict one. It follows data of any kind only so far, and a
record stands inside an entry inside the ledger, so that a record may nest two containers less than
a document that stands for itself. A ledger with a deeper record is written, but not read again.

When it is read, the ledger has the same entries in the same order. Only numbers of its records may
have changed, and where these keep their canonical texts, a walk along the chain finds what it found
before.

## Main definitions

* `Entry.Alike` — entries that no check of a ledger tells apart
* `Ledger.withNumbers` — a ledger with the numbers of its records replaced
* `Ledger.spelled` — a ledger to be stored, with its identifiers in other spellings

## Main results

* `Ledger.exists_json?_iff` — a ledger is written when its records have finite numbers only
* `Ledger.exists_ofJson?_iff` — and read again when no record nests too deep
* `Ledger.ofJson?_json?` — what is read
* `Ledger.ofJson?_spelled` — the same from a text that spells the identifiers in other ways
* `Ledger.verify_eq_of_alike`, `Ledger.audit_eq_of_alike` — the walks along both ledgers
* `Ledger.stored_ledger_read_back` — a ledger is read back, field by field
-/

namespace SealedLedger

open Value (Occurs)

/-! ### Entries that checks do not tell apart -/

/-- No check of a ledger tells the entries apart. -/
structure Entry.Alike (e e' : Entry) : Prop where
  index : e.index = e'.index
  timestamp : e.timestamp = e'.timestamp
  prevHash : e.prevHash = e'.prevHash
  recordHash : e.recordHash = e'.recordHash
  recordType : e.recordType = e'.recordType
  digest : e.digest? = e'.digest?
  payloadDigest : e.payloadDigest? = e'.payloadDigest?
  isEmptyObject : e.payload.isEmptyObject = e'.payload.isEmptyObject

theorem Entry.alike_withNumbers {f : Number → Number} {e : Entry}
    (h : ∀ n, Occurs (.number n) e.payload → Canonical.number (f n) = Canonical.number n) :
    (e.withNumbers f).Alike e where
  index := rfl
  timestamp := rfl
  prevHash := rfl
  recordHash := rfl
  recordType := rfl
  digest := digest?_withNumbers h
  payloadDigest := payloadDigest?_withNumbers h
  isEmptyObject := Value.isEmptyObject_mapNumbers f e.payload

namespace Entry

variable {e e' p p' : Entry}

theorem Alike.examineFirst_eq (h : e.Alike e') : e.examineFirst = e'.examineFirst := by
  rw [examineFirst, examineFirst, examineIndex, examineIndex, genesisProblem?, genesisProblem?,
    isGenesis, isGenesis, h.index, h.prevHash, h.recordHash, h.recordType, h.isEmptyObject]

theorem Alike.examineLater_eq (h : e.Alike e') (hp : p.Alike p') (position : Nat) :
    e.examineLater p position = e'.examineLater p' position := by
  rw [examineLater, examineLater, examineIndex, examineIndex, examineLink, examineLink,
    examineRecord, examineRecord, examineTime, examineTime, isGenesis, isGenesis, h.index,
    h.prevHash, h.recordHash, h.recordType, h.payloadDigest, h.timestamp, hp.digest, hp.timestamp]

end Entry

theorem Ledger.verifyFrom_eq_of_alike {p p' : Entry} {es es' : List Entry} (hp : p.Alike p')
    (h : List.Forall₂ Entry.Alike es es') (position : Nat) :
    Ledger.verifyFrom position p es = Ledger.verifyFrom position p' es' := by
  induction h generalizing p p' position with
  | nil => rfl
  | @cons e e' es es' he _ ih =>
    rw [verifyFrom, verifyFrom, hp.digest, he.prevHash, ih he]

theorem violationsAfter_eq_of_alike {p p' : Entry} {es es' : List Entry} (hp : p.Alike p')
    (h : List.Forall₂ Entry.Alike es es') (position : Nat) :
    violationsAfter position p es = violationsAfter position p' es' := by
  induction h generalizing p p' position with
  | nil => rfl
  | @cons e e' es es' he _ ih =>
    rw [violationsAfter, violationsAfter, he.examineLater_eq hp, ih he]

theorem violationsOf_eq_of_alike {es es' : List Entry} (h : List.Forall₂ Entry.Alike es es') :
    violationsOf es = violationsOf es' := by
  cases h with
  | nil => rfl
  | cons he h =>
    rw [violationsOf, violationsOf, he.examineFirst_eq, violationsAfter_eq_of_alike he h]

namespace Ledger

/-- Verification does not tell ledgers of such entries apart. -/
theorem verify_eq_of_alike {l l' : Ledger} (h : List.Forall₂ Entry.Alike l.entries l'.entries) :
    l.verify = l'.verify := by
  obtain ⟨es, c, hne⟩ := l
  obtain ⟨es', c', hne'⟩ := l'
  cases h with
  | nil => exact absurd rfl hne
  | cons he h => exact verifyFrom_eq_of_alike he h 0

/-- Nor does an audit. -/
theorem audit_eq_of_alike {l l' : Ledger} (h : List.Forall₂ Entry.Alike l.entries l'.entries) :
    l.audit = l'.audit := by
  rw [audit, audit, size, size, h.length_eq, violationsOf_eq_of_alike h]

/-! ### The stored form -/

variable {l : Ledger} {t : List Char}

theorem occurs_toValue_iff {n : Number} :
    Occurs (.number n) l.toValue ↔
      ∃ e ∈ l.entries, n = .ofUInt64 e.index ∨ Occurs (.number n) e.payload := by
  have hentry : ∀ e : Entry, Occurs (.number n) e.toValue ↔
      n = .ofUInt64 e.index ∨ Occurs (.number n) e.payload := by
    intro e
    rw [Entry.toValue, Value.occurs_object_iff]
    constructor
    · rintro ⟨m, hm, hn⟩
      obtain ⟨f, -, rfl⟩ := List.mem_map.mp hm
      cases f with
      | index => exact .inl (Value.occurs_number_iff.mp hn)
      | payload => exact .inr hn
      | _ => cases hn
    · rintro (rfl | hn)
      · exact ⟨_, List.mem_map_of_mem (Entry.Field.mem_all .index), .here⟩
      · exact ⟨_, List.mem_map_of_mem (Entry.Field.mem_all .payload), hn⟩
  rw [toValue, Value.occurs_array_iff]
  simp only [List.mem_map, exists_exists_and_eq_and, hentry]

/-- The stored form of a ledger whose identifiers are spelled in some way. -/
def spelled (spell : Entry → String) (l : Ledger) : Value :=
  .array (l.entries.map fun e => e.spelled (spell e))

theorem spelled_text (l : Ledger) : (l.spelled fun e => e.id.text) = l.toValue := by
  simp only [spelled, toValue, Entry.spelled_text]

theorem nestsWithin_spelled {spell : Entry → String} {depth : Nat} :
    (l.spelled spell).NestsWithin (depth + 2) ↔ ∀ e ∈ l.entries, e.payload.NestsWithin depth := by
  rw [spelled, Value.NestsWithin, List.forall_mem_map]
  refine forall₂_congr fun e _ => ?_
  rw [Entry.spelled, Value.NestsWithin, List.forall_mem_map]
  constructor
  · exact fun h => h .payload (Entry.Field.mem_all _)
  · intro h f _
    cases f with
    | payload => exact h
    | _ => cases depth <;> trivial

/-! ### The text -/

theorem json?_eq_ok_iff :
    l.json? = .ok t ↔ ∃ u, Json.indented l.toValue = .ok u ∧ t = u ++ ['\n'] := by
  rw [json?]
  constructor
  · intro h
    split at h
    · next u hu => exact ⟨u, hu, (Except.ok.inj h).symm⟩
    · cases h
  · rintro ⟨u, hu, rfl⟩
    rw [hu]

/-- **A ledger is written when its records have finite numbers only.** -/
theorem exists_json?_iff :
    (∃ t, l.json? = .ok t) ↔
      ∀ e ∈ l.entries, ∀ n, Occurs (.number n) e.payload → n.isFinite = true := by
  have hwrite : (∃ t, l.json? = .ok t) ↔ ∃ u, Json.write .lines 0 l.toValue = .ok u := by
    constructor
    · rintro ⟨t, ht⟩
      obtain ⟨u, hu, -⟩ := json?_eq_ok_iff.mp ht
      exact ⟨u, hu⟩
    · rintro ⟨u, hu⟩
      exact ⟨_, json?_eq_ok_iff.mpr ⟨u, hu, rfl⟩⟩
  rw [hwrite, Json.exists_write_iff]
  constructor
  · exact fun h e he n hn => h n (occurs_toValue_iff.mpr ⟨e, he, .inr hn⟩)
  · intro h n hn
    obtain ⟨e, he, rfl | hn⟩ := occurs_toValue_iff.mp hn
    · rw [Number.ofUInt64]
      split <;> rfl
    · exact h e he n hn

/-! ### The first reading -/

section

variable {spell : Entry → String} {s : Json.Spacing} {u post : List Char} (hs : s.IsBlank)
  (hpost : Json.IsBlank post) (hu : Json.write s 0 (l.spelled spell) = .ok u)

include hs hpost hu

/-- The data of a ledger's text, when no record nests too deep. -/
theorem inspect?_spelled (hdepth : ∀ e ∈ l.entries, e.payload.NestsWithin 125) :
    Json.inspect? (Utf8.encode (u ++ post))
      = .ok ((l.spelled spell).mapNumbers Number.stored).tidy := by
  have hread : Json.Reads (Json.value false (125 + 2)) u _ :=
    Json.reads_write hs hu (fun h => by cases h) (nestsWithin_spelled.mpr hdepth)
  rw [Json.inspect?, show Json.maxDepth = 125 + 2 from rfl, hread.whole_append hpost]
  rfl

/-- A text with a record that nests too deep is refused at once. -/
theorem exists_inspect?_error (hdepth : ¬∀ e ∈ l.entries, e.payload.NestsWithin 125) :
    ∃ err, Json.inspect? (Utf8.encode (u ++ post)) = .error err := by
  obtain ⟨err, hread⟩ := (Json.refuses_write hs hu
    (mt nestsWithin_spelled.mp hdepth)).whole_append hpost
  rw [Json.inspect?, show Json.maxDepth = 125 + 2 from rfl, hread]
  exact ⟨err, rfl⟩

end

/-! ### The tags -/

/-- The digests of a stored entry have no foreign tag. -/
theorem foreignTag?_spelled (id : String) (e : Entry) {f : Entry.Field} (hf : f ∈ digestFields) :
    foreignTag? ((e.spelled id).mapNumbers Number.stored).tidy f = none := by
  have hdigest : ∃ d : Digest, e.spelledValue id f = .string d.text := by
    rcases List.mem_cons.mp hf with rfl | hf
    · exact ⟨e.prevHash, rfl⟩
    · obtain rfl := List.mem_singleton.mp hf
      exact ⟨e.recordHash, rfl⟩
  obtain ⟨d, hd⟩ := hdigest
  have hmem : (f.name, Value.string d.text) ∈
      (Entry.Field.all.map fun g => (g.name, e.spelledValue id g)).map
        (fun m => (m.1, m.2.mapNumbers Number.stored)) :=
    List.mem_map.mpr ⟨(f.name, .string d.text),
      List.mem_map.mpr ⟨f, Entry.Field.mem_all f, by rw [hd]⟩, rfl⟩
  have hget := Value.get?_tidy (by rw [List.map_map, List.map_map]; exact Entry.Field.nodup_names)
    hmem
  rw [foreignTag?, Entry.spelled, Value.mapNumbers_object, hget]
  simp only [Value.tidy, Digest.splitTag?_text, String.ofList_toList, if_true]

/-- No digest of a stored ledger has a foreign tag. -/
theorem checkTagsFrom_spelled (spell : Entry → String) (es : List Entry) (index : Nat) :
    checkTagsFrom index
      (es.map fun e => ((e.spelled (spell e)).mapNumbers Number.stored).tidy) = .ok () := by
  induction es generalizing index with
  | nil => rfl
  | cons e es ih =>
    have hnone : digestFields.findSome?
        (foreignTag? ((e.spelled (spell e)).mapNumbers Number.stored).tidy) = none :=
      List.findSome?_eq_none_iff.mpr fun f hf => foreignTag?_spelled (spell e) e hf
    rw [List.map_cons, checkTagsFrom, hnone]
    exact ih (index + 1)

/-! ### The entries -/

/-- The ledger with each number of its records replaced. -/
def withNumbers (f : Number → Number) (l : Ledger) : Ledger :=
  ⟨l.entries.map (Entry.withNumbers f), l.clock, by simpa using l.entries_ne⟩

section

variable {spell : Entry → String} {s : Json.Spacing} {u post : List Char} (hs : s.IsBlank)
  (hpost : Json.IsBlank post) (hu : Json.write s 0 (l.spelled spell) = .ok u)
  (hspell : ∀ e ∈ l.entries, Uuid.parse? (spell e) = .ok e.id)
  (hkeys : ∀ e ∈ l.entries, e.payload.HasDistinctKeys)
  (hdepth : ∀ e ∈ l.entries, e.payload.NestsWithin 125)

include hs hpost hu hspell hkeys hdepth

/-- The entries of a ledger's text. -/
theorem entriesOfJson?_spelled :
    entriesOfJson? (Utf8.encode (u ++ post)) = .ok (l.withNumbers Number.stored).entries := by
  have hread := Json.reads_written_sequence hs hu fun e he _ ht =>
    Entry.reads_entry hs (hspell e he) (hkeys e he) (hdepth e he) ht
  rw [entriesOfJson?, show Json.maxDepth = 126 + 1 from rfl, hread.whole_append hpost]
  rfl

/-- **A ledger is read from its text, whatever the spelling of its identifiers.** -/
theorem ofJson?_spelled (c : Clock) : ofJson? (Utf8.encode (u ++ post)) c
    = .ok ((l.withNumbers Number.stored).withClock c) := by
  have htags := checkTagsFrom_spelled spell l.entries 0
  have hentries : ofEntries? (l.withNumbers Number.stored).entries c
      = some ((l.withNumbers Number.stored).withClock c) :=
    dif_neg (l.withNumbers Number.stored).entries_ne
  rw [ofJson?, inspect?_spelled hs hpost hu hdepth, spelled, Value.mapNumbers_array,
    Value.tidy_array, List.map_map, List.map_map]
  simp only [Function.comp_def, htags, entriesOfJson?_spelled hs hpost hu hspell hkeys hdepth,
    hentries]

end

/-- **What is read from the text of a ledger**: its entries, with the numbers of their records read
again. -/
theorem ofJson?_json? (ht : l.json? = .ok t)
    (hkeys : ∀ e ∈ l.entries, e.payload.HasDistinctKeys)
    (hdepth : ∀ e ∈ l.entries, e.payload.NestsWithin 125) (c : Clock) :
    ofJson? (Utf8.encode t) c = .ok ((l.withNumbers Number.stored).withClock c) := by
  obtain ⟨u, hu, rfl⟩ := json?_eq_ok_iff.mp ht
  rw [← spelled_text] at hu
  exact ofJson?_spelled Json.isBlank_lines Json.isBlank_lineEnd hu
    (fun e _ => Uuid.parse?_text e.id) hkeys hdepth c

/-- **The text of a ledger is read again when no record nests too deep**, and only then. -/
theorem exists_ofJson?_iff (ht : l.json? = .ok t)
    (hkeys : ∀ e ∈ l.entries, e.payload.HasDistinctKeys) (c : Clock) :
    (∃ l', ofJson? (Utf8.encode t) c = .ok l') ↔
      ∀ e ∈ l.entries, e.payload.NestsWithin 125 := by
  constructor
  · rintro ⟨l', hl'⟩
    by_contra hdepth
    obtain ⟨u, hu, rfl⟩ := json?_eq_ok_iff.mp ht
    rw [← spelled_text] at hu
    obtain ⟨err, herr⟩ := exists_inspect?_error Json.isBlank_lines Json.isBlank_lineEnd hu hdepth
    rw [ofJson?, herr] at hl'
    cases hl'
  · exact fun hdepth => ⟨_, ofJson?_json? ht hkeys hdepth c⟩

/-! ### Ledgers whose numbers are kept -/

/-- What is read, when the text of each double keeps it. -/
theorem withNumbers_stored (h : ∀ e ∈ l.entries, ∀ x,
    Occurs (.number (.float x)) e.payload → x.KeptByText) :
    l.entries.map (Entry.withNumbers Number.stored)
      = l.entries.map (Entry.withNumbers Number.settled) := by
  refine List.map_congr_left fun e he => ?_
  have hpayload : e.payload.mapNumbers Number.stored = e.payload.mapNumbers Number.settled :=
    Value.mapNumbers_congr fun n hn => Number.stored_eq_settled fun x hx => h e he x (hx ▸ hn)
  rw [Entry.withNumbers, Entry.withNumbers, hpayload]

theorem alike_settled (l : Ledger) :
    List.Forall₂ Entry.Alike (l.entries.map (Entry.withNumbers Number.settled)) l.entries := by
  rw [List.forall₂_map_left_iff, List.forall₂_same]
  exact fun e _ => Entry.alike_withNumbers fun n _ => Number.number_settled n

/-- No check tells a ledger from what is read of its text, when the text of each double keeps it. -/
theorem alike_stored (h : ∀ e ∈ l.entries, ∀ x,
    Occurs (.number (.float x)) e.payload → x.KeptByText) :
    List.Forall₂ Entry.Alike (l.withNumbers Number.stored).entries l.entries := by
  show List.Forall₂ _ (l.entries.map (Entry.withNumbers Number.stored)) _
  rw [withNumbers_stored h]
  exact alike_settled l

/-- **A ledger is read back from its text, field by field**, when no object in its records repeats a
key, no record nests too deep, and each double in them is kept by its text. Its entries come back in
their order and with all that they hold, the members of objects in their order too; an unsigned word
that fits a signed one comes back as that one. So it is verified and audited with the same
outcome, whatever that is. -/
theorem stored_ledger_read_back (l : Ledger) (c : Clock)
    (hkeys : ∀ e ∈ l.entries, e.payload.HasDistinctKeys)
    (hdepth : ∀ e ∈ l.entries, e.payload.NestsWithin 125)
    (hkept : ∀ e ∈ l.entries, ∀ x, Occurs (.number (.float x)) e.payload → x.KeptByText) :
    ∃ t l', l.json? = .ok t ∧ ofJson? (Utf8.encode t) c = .ok l' ∧
      l'.entries = l.entries.map (fun e =>
        ⟨e.id, e.index, e.timestamp, e.prevHash, e.recordHash, e.recordType,
          e.payload.mapNumbers Number.settled⟩) ∧
      l'.verify = l.verify ∧ l'.audit = l.audit := by
  obtain ⟨t, ht⟩ := exists_json?_iff.mpr fun e he n hn => by
    cases n with
    | int i => rfl
    | uint u => rfl
    | float x => exact (hkept e he x hn).1
  exact ⟨t, _, ht, ofJson?_json? ht hkeys hdepth c, withNumbers_stored hkept,
    verify_eq_of_alike (alike_stored hkept), audit_eq_of_alike (alike_stored hkept)⟩

/-- An entry that is no genesis entry, alone in a ledger. Its keys keep their order, and its
unsigned word becomes a signed one. -/
theorem stored_ledger_read_back_malformed :
    ∃ l l' : Ledger, ∃ t, l.json? = .ok t ∧ ofJson? (Utf8.encode t) .system = .ok l' ∧
      l'.verify = l.verify ∧ l'.audit = l.audit ∧
      l.entries.map Entry.payload = [.object [("b", .array [.number (.uint 7)]),
        ("a", .number (.float ⟨false, 0x3FF8000000000000, by decide⟩))]] ∧
      l'.entries.map Entry.payload = [.object [("b", .array [.number (.int 7)]),
        ("a", .number (.float ⟨false, 0x3FF8000000000000, by decide⟩))]] := by
  let v : Value := .object [("b", .array [.number (.uint 7)]),
    ("a", .number (.float ⟨false, 0x3FF8000000000000, by decide⟩))]
  let e : Entry := ⟨⟨0⟩, 3, .epoch, .sentinel, .sentinel, .observation, v⟩
  have hkeys : v.HasDistinctKeys := by
    refine Value.hasDistinctKeys_object_iff.mpr ⟨by decide, fun m hm ms hms => ?_⟩
    simp only [List.mem_cons, List.not_mem_nil, or_false] at hm
    rcases hm with rfl | rfl
    · rcases hms with _ | ⟨hw, hms⟩
      rw [List.mem_singleton.mp hw] at hms
      cases hms
    · cases hms
  have hkept : ∀ x, Occurs (.number (.float x)) v → x.KeptByText := by
    intro x hx
    obtain ⟨m, hm, hx⟩ := Value.occurs_object_iff.mp hx
    simp only [List.mem_cons, List.not_mem_nil, or_false] at hm
    rcases hm with rfl | rfl
    · obtain ⟨w, hw, hx⟩ := Value.occurs_array_iff.mp hx
      rw [List.mem_singleton.mp hw] at hx
      cases Value.occurs_number_iff.mp hx
    · obtain rfl := Number.float.inj (Value.occurs_number_iff.mp hx)
      exact Binary64.keptByText_iff.mpr ⟨rfl, by decide +kernel⟩
  have hdepth : v.NestsWithin 125 := by simp [v, Value.NestsWithin]
  obtain ⟨t, l', ht, hl', hentries, hverify, haudit⟩ := stored_ledger_read_back
    ⟨[e], .system, List.cons_ne_nil _ _⟩ .system (by simpa using hkeys) (by simpa using hdepth)
    (by simpa using hkept)
  exact ⟨_, l', t, ht, hl', hverify, haudit, rfl, by rw [hentries]; rfl⟩

end Ledger

end SealedLedger
