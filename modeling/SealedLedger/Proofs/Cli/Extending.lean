import SealedLedger.Proofs.Cli.Saving
import SealedLedger.Proofs.Ledger.Extension

/-!
# Ledgers that are extended

An append reads a type, a record and a ledger, follows the chain of the ledger, asks for the clock,
makes a new entry and writes the ledger back. It may fail at each of these and is then as good as
not run: the files are as they were. When it reports success, the file holds the ledger that was
loaded, with one more entry that follows the last one.

Nothing else can go wrong. The records of a ledger that was loaded have canonical texts, so the last
entry has a digest and the ledger a text; and a file that was read may be written. So an append that
could read what it needs succeeds when the chain holds, the clock can be set and the record has a
canonical text, and it reports a broken chain otherwise only when there is one.

## Main results

* `Cli.exists_append` — when an append reports success
* `Cli.append_extends` — what an append does to the files, however it ends
-/

namespace SealedLedger

/-- A type that was made from a tag has that tag. -/
theorem RecordType.tag_of_custom? {tag : String} {t : RecordType} (h : custom? tag = some t) :
    t.tag = tag := by
  rw [custom?] at h
  split at h
  · rw [← Option.some.inj h]
  · cases h

namespace Cli

variable {env : Environment} {s s' : Session} {fs : Files} {path payload tag : String} {l : Ledger}
  {type : RecordType} {v : Value} {c : Clock}

/-- The last entry of a ledger that was loaded has a digest. -/
theorem exists_digest?_last_of_loadLedger (h : loadLedger fs path = .ok l) :
    ∃ d, l.last.digest? = .ok d := by
  obtain ⟨t, -, hl⟩ := loadLedger_eq_ok_iff.mp h
  obtain ⟨bytes, hbytes⟩ := (Ledger.payload_accepted hl _ (List.getLast_mem _)).exists_writes
  exact Entry.exists_digest?_iff.mpr (Canonical.exists_canonicalize_iff.mpr ⟨bytes, hbytes⟩)

/-- **An append reports success** when it can read what it needs, the chain holds, the clock can be
set and the record has a canonical text. -/
theorem exists_append (h : Reads s path payload tag type v l) (hverify : l.verify = .ok ())
    (hclock : env.clock? = .ok c) (hrecord : ∃ bytes, canonicalize v = .ok bytes) :
    ∃ s', append env s path payload tag = (.exit 0, s') := by
  obtain ⟨d, hd⟩ := exists_digest?_last_of_loadLedger h.ledger
  have hlast : ∃ d, (l.withClock c).last.digest? = .ok d := ⟨d, hd⟩
  obtain ⟨e, hnext⟩ : ∃ e, (l.withClock c).nextEntry env.machine type v s.draws.next.1 = .ok e :=
    (Ledger.exists_nextEntry_iff hlast).mpr hrecord
  have hfollows := Ledger.follows_of_nextEntry hnext (RecordType.isGenesis_of_custom? h.type)
  have hbase : IsBase s.files path (l.withClock c) := .loaded c h.ledger hverify
  obtain ⟨t, htext, -⟩ := loadLedger_eq_ok_iff.mp h.ledger
  obtain ⟨place, htarget⟩ := Files.exists_target?_of_readText? htext
  obtain ⟨fs', hsave⟩ := exists_saveLedger (exists_canonicalize_push hbase hfollows) htarget
  have happend := Ledger.append_eq_ok_iff.mpr ⟨hnext, rfl, rfl⟩
  rw [h.append_of_verify hverify]
  simp only [extend, hclock, happend, Session.files_print, hsave]
  exact ⟨_, rfl⟩

/-- **An append that does not report success leaves all files as they were. One that does has
extended the ledger in its file**: the file held a ledger whose chain holds, and now it holds the
same entries and one more, which has the tag and the record that were given, is numbered by its
position, holds the digest of the last entry and is not earlier; and the chain holds again. An
append reports success exactly when it can read what it needs, the chain holds, the clock can be set
and the record has a canonical text. It reports a broken chain exactly when it can read what it
needs and the chain does not hold. -/
theorem append_extends (env : Environment) (s : Session) (path payload tag : String) :
    (∀ outcome s', append env s path payload tag = (outcome, s') → outcome ≠ .exit 0 →
      s'.files = s.files) ∧
    (∀ s', append env s path payload tag = (.exit 0, s') →
      ∃ v l e, loadDocument s.files payload = .ok v ∧ loadLedger s.files path = .ok l ∧
        l.verify = .ok () ∧ Holds path s'.files (l.push e) ∧
        e.recordType.tag = tag ∧ e.payload = v ∧ e.index = .ofNat l.size ∧
        l.last.digest? = .ok e.prevHash ∧ e.timestamp.isBefore l.last.timestamp = false ∧
        (l.push e).verify = .ok ()) ∧
    ((∃ s', append env s path payload tag = (.exit 0, s')) ↔
      ∃ type v l, Reads s path payload tag type v l ∧ l.verify = .ok () ∧
        (∃ c, env.clock? = .ok c) ∧ ∃ bytes, canonicalize v = .ok bytes) ∧
    ((∃ s', append env s path payload tag = (.exit 1, s')) ↔
      ∃ type v l, Reads s path payload tag type v l ∧ l.verify ≠ .ok ()) := by
  refine ⟨fun outcome s' h hne => ?_, fun s' h => ?_, ⟨?_, ?_⟩, ⟨?_, ?_⟩⟩
  · rcases append_cases env s path payload tag with ⟨_, _, happend, hfiles⟩ |
      ⟨_, _, _, _, -, -, happend⟩ | ⟨_, _, _, _, _, _, -, -, happend, -⟩
    · rw [← (Prod.mk.inj (h.symm.trans happend)).2] at hfiles
      exact hfiles
    · rw [(Prod.mk.inj (h.symm.trans happend)).2]
      rfl
    · exact absurd (Prod.mk.inj (h.symm.trans happend)).1 hne
  · obtain ⟨type, v, l, c, e, hreads, hverify, -, hnext, hsave⟩ := exists_nextEntry_of_append h
    obtain ⟨htype, hpayload⟩ := Prod.mk.inj (Ledger.record_of_nextEntry hnext)
    have hfollows := Ledger.follows_of_nextEntry hnext (RecordType.isGenesis_of_custom? hreads.type)
    have hprev : l.last.digest? = .ok e.prevHash := hfollows.prevHash
    refine ⟨v, l, e, hreads.record, hreads.ledger, hverify, holds_of_saveLedger hsave, ?_, hpayload,
      hfollows.index, hprev, hfollows.timestamp, ?_⟩
    · rw [htype, RecordType.tag_of_custom? hreads.type]
    · rw [Ledger.verify_push hprev, hverify]
  · rintro ⟨s', h⟩
    obtain ⟨type, v, l, c, e, hreads, hverify, hclock, hnext, -⟩ := exists_nextEntry_of_append h
    obtain ⟨_, _, hrecord, -, -⟩ := Ledger.nextEntry_eq_ok_iff.mp hnext
    obtain ⟨bytes, hbytes, -⟩ := Digest.ofValue?_eq_ok_iff.mp hrecord
    exact ⟨type, v, l, hreads, hverify, ⟨c, hclock⟩, bytes, hbytes⟩
  · rintro ⟨type, v, l, hreads, hverify, ⟨c, hclock⟩, hrecord⟩
    exact exists_append hreads hverify hclock hrecord
  · rintro ⟨s', h⟩
    rcases append_cases env s path payload tag with ⟨_, _, happend, -⟩ |
      ⟨type, v, l, err, hreads, hverify, -⟩ | ⟨_, _, _, _, _, _, -, -, happend, -⟩
    · cases h.symm.trans happend
    · exact ⟨type, v, l, hreads, by rw [hverify]; exact fun h => by cases h⟩
    · cases Outcome.exit.inj (Prod.mk.inj (h.symm.trans happend)).1
  · rintro ⟨type, v, l, hreads, hverify⟩
    cases hl : l.verify with
    | ok => exact absurd hl hverify
    | error err => exact ⟨_, hreads.append_of_broken hl⟩

/-- A new ledger, extended by the document `null`. -/
theorem append_extends_new :
    ∃ (t : List Char) (s s' : Session) (l : Ledger) (e : Entry),
      (Ledger.create .system .epoch ⟨fun _ => 0, 0⟩).1.json? = .ok t ∧
      s = ⟨⟨[([['p', '.', 'j', 's', 'o', 'n']], .file (Utf8.encode ['n', 'u', 'l', 'l'])),
        ([['l', '.', 'j', 's', 'o', 'n']], .file (Utf8.encode t))]⟩, ⟨fun _ => 0, 1⟩, [], []⟩ ∧
      append ⟨none, none, .epoch⟩ s "l.json" "p.json" "observation" = (.exit 0, s') ∧
      Holds "l.json" s'.files (l.push e) ∧ l.size = 1 ∧ e.payload = .null ∧
      (l.push e).verify = .ok () := by
  obtain ⟨t, ht⟩ : ∃ t, (Ledger.create .system .epoch ⟨fun _ => 0, 0⟩).1.json? = .ok t := by
    refine Ledger.exists_json?_iff.mpr fun e he n hn => ?_
    rw [List.mem_singleton.mp he] at hn
    obtain ⟨m, hm, -⟩ := Value.occurs_object_iff.mp hn
    cases hm
  obtain ⟨s, hs⟩ : ∃ s : Session, s = ⟨⟨[([['p', '.', 'j', 's', 'o', 'n']],
      .file (Utf8.encode ['n', 'u', 'l', 'l'])), ([['l', '.', 'j', 's', 'o', 'n']],
      .file (Utf8.encode t))]⟩, ⟨fun _ => 0, 1⟩, [], []⟩ := ⟨_, rfl⟩
  have hholds : Holds "l.json" s.files (Ledger.create .system .epoch ⟨fun _ => 0, 0⟩).1 :=
    ⟨t, ht, Files.readText?_of_read? (by rw [hs]; rfl)⟩
  have hbase := isAccepted_of_isBase (.new .system .epoch ⟨fun _ => 0, 0⟩ : IsBase s.files "" _)
  have hload := hholds.loadLedger_eq
    (fun e he => Canonical.exists_canonicalize_iff.mpr (hbase e he).exists_writes)
    (fun e he => (hbase e he).nestsWithin)
  have hreads : Reads s "l.json" "p.json" "observation" .observation .null _ :=
    ⟨rfl, loadDocument_of_json (Files.readText?_of_read? (by rw [hs]; rfl)) (by decide) rfl, hload⟩
  obtain ⟨-, hextended, hiff, -⟩ :=
    append_extends ⟨none, none, .epoch⟩ s "l.json" "p.json" "observation"
  obtain ⟨s', hs'⟩ := hiff.mpr ⟨_, _, _, hreads, rfl, ⟨_, rfl⟩, _, rfl⟩
  obtain ⟨v, l, e, hv, hl, -, hfile, -, hpayload, -, -, -, hverify⟩ := hextended s' hs'
  obtain rfl := Except.ok.inj (hl.symm.trans hload)
  obtain rfl := Except.ok.inj (hv.symm.trans hreads.record)
  exact ⟨t, s, s', _, e, ht, hs, hs', hfile, rfl, hpayload, hverify⟩

end Cli

end SealedLedger
