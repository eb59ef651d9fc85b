import SealedLedger.Proofs.Ledger.Chain
import SealedLedger.Proofs.Ledger.Entry

/-!
# The last digest commits to the whole ledger

Two sound ledgers whose last entries have the same digest are the same ledger, entry by entry, as
long as the hash does not give two of their entries' canonical bytes the same digest.

The argument goes backwards along both chains. Entries with the same canonical bytes hold the same
digest of the entry before, so the entries before them have the same canonical bytes too. It stops
at the genesis entries, and it stops in both ledgers at once: an entry tells from its record type
whether it is the first.

## Main definitions

* `Entry.SameBytes` — two entries with the same canonical bytes
* `Ledger.CollisionFree` — different entries of two ledgers have different hashes

## Main results

* `Ledger.sameBytes_pred` — one step back along both chains
* `Ledger.sameBytes_back` — all the way back to the genesis entries
* `Ledger.same_entries_of_last_digest_eq` — what the last digest commits to
-/

namespace SealedLedger

namespace Entry

/-- The entries have the same canonical bytes. -/
def SameBytes (e f : Entry) : Prop :=
  ∃ c, e.canonicalBytes? = .ok c ∧ f.canonicalBytes? = .ok c

theorem SameBytes.agrees {e f : Entry} (h : e.SameBytes f) : e.Agrees f := by
  obtain ⟨c, he, hf⟩ := h
  exact (canonicalBytes?_eq_iff_agrees he hf).mp rfl

end Entry

namespace Ledger

/-- The hash of an entry of one ledger is not that of an entry of the other, unless the two have
the same canonical bytes. -/
def CollisionFree (a b : Ledger) : Prop :=
  ∀ e ∈ a.entries, ∀ f ∈ b.entries, ∀ c d, e.canonicalBytes? = .ok c → f.canonicalBytes? = .ok d →
    Sha256.hash c = Sha256.hash d → c = d

variable {a b : Ledger}

/-- Without collisions, entries with the same digest have the same canonical bytes. -/
theorem sameBytes_of_digest?_eq (hfree : a.CollisionFree b) {e f : Entry} (he : e ∈ a.entries)
    (hf : f ∈ b.entries) {d : Digest} (hed : e.digest? = .ok d) (hfd : f.digest? = .ok d) :
    e.SameBytes f := by
  obtain ⟨p, hp, rfl⟩ := Entry.digest?_eq_ok_iff.mp hed
  obtain ⟨q, hq, hpq⟩ := Entry.digest?_eq_ok_iff.mp hfd
  obtain rfl := hfree e he f hf p q hp hq (Digest.mk.inj hpq)
  exact ⟨p, hp, hq⟩

/-- Only the first entry of a sound ledger is marked as genesis. -/
theorem isGenesis_getElem_iff (h : a.IsSound) {i : Nat} (hi : i < a.entries.length) :
    a.entries[i].isGenesis = true ↔ i = 0 := by
  cases i with
  | zero =>
    have hfirst := h.first.isGenesis
    rw [first, List.head_eq_getElem] at hfirst
    exact ⟨fun _ => rfl, fun _ => hfirst⟩
  | succ i =>
    rw [(h.later i hi).not_isGenesis]
    exact iff_of_false Bool.false_ne_true (Nat.succ_ne_zero i)

/-! ### Back along both chains -/

/-- **One step back**: entries with the same canonical bytes follow entries with the same canonical
bytes. -/
theorem sameBytes_pred (ha : a.IsSound) (hb : b.IsSound) (hfree : a.CollisionFree b) {i j : Nat}
    (hi : i + 1 < a.entries.length) (hj : j + 1 < b.entries.length)
    (h : a.entries[i + 1].SameBytes b.entries[j + 1]) : a.entries[i].SameBytes b.entries[j] := by
  have hlink := (ha.later i hi).prevHash
  rw [h.agrees.prevHash] at hlink
  exact sameBytes_of_digest?_eq hfree (List.getElem_mem _) (List.getElem_mem _) hlink
    (hb.later j hj).prevHash

/-- **All the way back**: entries with the same canonical bytes stand at the same position, and so
do the same canonical bytes at every position before. -/
theorem sameBytes_back (ha : a.IsSound) (hb : b.IsSound) (hfree : a.CollisionFree b) {i j : Nat}
    (hi : i < a.entries.length) (hj : j < b.entries.length)
    (h : a.entries[i].SameBytes b.entries[j]) :
    i = j ∧ ∀ k (hk : k < a.entries.length) (hl : k < b.entries.length), k ≤ i →
      a.entries[k].SameBytes b.entries[k] := by
  have hmark : a.entries[i].isGenesis = b.entries[j].isGenesis :=
    congrArg RecordType.isGenesis h.agrees.recordType
  induction i generalizing j with
  | zero =>
    obtain rfl : j = 0 := by
      rw [← isGenesis_getElem_iff hb hj, ← hmark, isGenesis_getElem_iff ha hi]
    refine ⟨rfl, fun k _ _ hk => ?_⟩
    obtain rfl := Nat.le_zero.mp hk
    exact h
  | succ i ih =>
    cases j with
    | zero =>
      rw [(isGenesis_getElem_iff hb hj).mpr rfl, isGenesis_getElem_iff ha hi] at hmark
      cases hmark
    | succ j =>
      have hpred := sameBytes_pred ha hb hfree hi hj h
      obtain ⟨rfl, hback⟩ := ih (Nat.lt_of_succ_lt hi) (Nat.lt_of_succ_lt hj) hpred
        (congrArg RecordType.isGenesis hpred.agrees.recordType)
      refine ⟨rfl, fun k hk hl hki => ?_⟩
      rcases Nat.lt_or_eq_of_le hki with hlt | rfl
      · exact hback k hk hl (Nat.lt_succ_iff.mp hlt)
      · exact h

/-- The last entries of two sound ledgers give away all the others. -/
theorem sameBytes_of_digest?_last_eq (ha : a.IsSound) (hb : b.IsSound)
    (hlast : a.last.digest? = b.last.digest?) (hfree : a.CollisionFree b) :
    a.entries.length = b.entries.length ∧
      ∀ i (hi : i < a.entries.length) (hj : i < b.entries.length),
        a.entries[i].SameBytes b.entries[i] := by
  have hapos : 0 < a.entries.length := List.length_pos_iff.mpr a.entries_ne
  have hbpos : 0 < b.entries.length := List.length_pos_iff.mpr b.entries_ne
  obtain ⟨d, hd⟩ := exists_digest?_last ha
  have hheads : a.last.SameBytes b.last :=
    sameBytes_of_digest?_eq hfree (List.getLast_mem _) (List.getLast_mem _) hd (hlast ▸ hd)
  rw [last, last, List.getLast_eq_getElem, List.getLast_eq_getElem] at hheads
  obtain ⟨hlen, hback⟩ := sameBytes_back ha hb hfree _ _ hheads
  exact ⟨by omega, fun i hi hj => hback i hi hj (by omega)⟩

/-! ### What the last digest commits to -/

/-- **The last digest commits to the whole ledger**: two ledgers in which an audit finds nothing,
and whose last entries have the same digest, have equally many entries, with the same canonical
bytes at each position. So the entries agree in all their fields, their records up to the canonical
form. -/
theorem same_entries_of_last_digest_eq (ha : a.audit.isValid = true) (hb : b.audit.isValid = true)
    (hlast : a.last.digest? = b.last.digest?) (hfree : a.CollisionFree b) :
    a.entries.length = b.entries.length ∧
      ∀ i (hi : i < a.entries.length) (hj : i < b.entries.length),
        (∃ c, a.entries[i].canonicalBytes? = .ok c ∧ b.entries[i].canonicalBytes? = .ok c) ∧
        a.entries[i].Agrees b.entries[i] := by
  obtain ⟨hlen, hsame⟩ := sameBytes_of_digest?_last_eq (isValid_audit_iff.mp ha)
    (isValid_audit_iff.mp hb) hlast hfree
  exact ⟨hlen, fun i hi hj => ⟨hsame i hi hj, (hsame i hi hj).agrees⟩⟩

/-- A ledger of two entries, the second with a record that is written `2`. -/
def ofTwo (record : Value) : Ledger where
  entries := [.genesis ⟨0⟩ .epoch,
    { id := ⟨1⟩
      index := 1
      timestamp := .epoch
      prevHash := ⟨#v[0x03, 0x22, 0x53, 0x5b, 0x91, 0x26, 0x31, 0xb5, 0xb5, 0xea, 0x70, 0x3d, 0x3c,
        0x17, 0x13, 0x30, 0x20, 0xf8, 0x40, 0xbb, 0x78, 0xf4, 0xdb, 0xcc, 0xb5, 0x1b, 0x8b, 0x88,
        0xbe, 0x6d, 0x99, 0x39]⟩
      recordHash := ⟨#v[0xd4, 0x73, 0x5e, 0x3a, 0x26, 0x5e, 0x16, 0xee, 0xe0, 0x3f, 0x59, 0x71,
        0x8b, 0x9b, 0x5d, 0x03, 0x01, 0x9c, 0x07, 0xd8, 0xb6, 0xc5, 0x1f, 0x90, 0xda, 0x3a, 0x66,
        0x6e, 0xec, 0x13, 0xab, 0x35]⟩
      recordType := .observation
      payload := record }]
  clock := .system
  entries_ne := by simp

/-- The hashes that the two entries hold, and that their own are different. -/
theorem hashes_ofTwo (v : Value) :
    Sha256.hash (Utf8.encode ((ofTwo v).first.canonicalText ['\x7b', '\x7d']))
        = (ofTwo v).last.prevHash.bytes ∧
      Sha256.hash (Utf8.encode ['2']) = (ofTwo v).last.recordHash.bytes ∧
      Sha256.hash (Utf8.encode ((ofTwo v).first.canonicalText ['\x7b', '\x7d']))
        ≠ Sha256.hash (Utf8.encode ((ofTwo v).last.canonicalText ['2'])) := by
  -- the hashes do not depend on the record itself, so any closed one will do
  have hlast : (ofTwo v).last.canonicalText ['2'] = (ofTwo .null).last.canonicalText ['2'] := rfl
  rw [hlast, show (ofTwo v).first = (ofTwo .null).first from rfl,
    show (ofTwo v).last.prevHash = (ofTwo .null).last.prevHash from rfl,
    show (ofTwo v).last.recordHash = (ofTwo .null).last.recordHash from rfl]
  simp only [first, last, ofTwo, List.head_cons, List.getLast_cons_cons, List.getLast_singleton,
    Entry.genesis, Entry.canonicalText, Canonical.string, Uuid.text, Digest.text, Timestamp.text,
    String.toList_ofList]
  refine ⟨?_, ?_, ?_⟩ <;> decide +kernel

theorem writes_first (v : Value) : Canonical.Writes (ofTwo v).first.payload ['\x7b', '\x7d'] :=
  Canonical.writes_emptyObject

theorem isSound_ofTwo {v : Value} (hv : Canonical.Writes v ['2']) : (ofTwo v).IsSound := by
  obtain ⟨hprev, hrecord, -⟩ := hashes_ofTwo v
  refine ⟨Entry.isFirst_genesis _ _, neighbours_cons_cons_iff.mpr ⟨?_, neighbours_singleton⟩⟩
  refine ⟨rfl, ?_, ?_, rfl, rfl⟩
  · exact Entry.digest?_eq_ok_iff.mpr
      ⟨_, Entry.canonicalBytes?_eq (writes_first v), congrArg Digest.mk hprev.symm⟩
  · exact Entry.payloadDigest?_eq_ok_iff.mpr
      ⟨_, Canonical.canonicalize_eq_ok_iff.mpr ⟨_, hv, rfl⟩, congrArg Digest.mk hrecord.symm⟩

theorem collisionFree_ofTwo {v w : Value} (hv : Canonical.Writes v ['2'])
    (hw : Canonical.Writes w ['2']) : (ofTwo v).CollisionFree (ofTwo w) := by
  obtain ⟨-, -, hne⟩ := hashes_ofTwo v
  have hbytes : ∀ {x : Value}, Canonical.Writes x ['2'] → ∀ e ∈ (ofTwo x).entries, ∀ c,
      e.canonicalBytes? = .ok c →
        c = Utf8.encode ((ofTwo v).first.canonicalText ['\x7b', '\x7d']) ∨
          c = Utf8.encode ((ofTwo v).last.canonicalText ['2']) := by
    intro x hx e he c hc
    rcases List.mem_cons.mp he with rfl | he
    · exact .inl (Except.ok.inj (hc.symm.trans (Entry.canonicalBytes?_eq (writes_first x))))
    · obtain rfl := List.mem_singleton.mp he
      exact .inr (Except.ok.inj (hc.symm.trans (Entry.canonicalBytes?_eq hx)))
  intro e he f hf c d hc hd h
  rcases hbytes hv e he c hc with hc | hc <;> rcases hbytes hw f hf d hd with hd | hd <;>
    rw [hc, hd] at h ⊢
  · exact absurd h hne
  · exact absurd h.symm hne

/-- The number two once as a word and once as a double, behind one digest. -/
theorem same_entries_of_last_digest_eq_ofTwo :
    ∃ a b : Ledger, a.audit.isValid = true ∧ b.audit.isValid = true ∧
      a.last.digest? = b.last.digest? ∧ a.CollisionFree b ∧
      a.last.payload ≠ b.last.payload ∧ a.entries.length = 2 ∧
      ∀ i (hi : i < a.entries.length) (hj : i < b.entries.length),
        a.entries[i].Agrees b.entries[i] := by
  have hv : Canonical.Writes (.number (.int 2)) ['2'] := rfl
  have hw : Canonical.Writes (.number (.float (.ofNat 2))) ['2'] := by
    show Except.ok _ = Except.ok _
    decide +kernel
  have ha := isValid_audit_iff.mpr (isSound_ofTwo hv)
  have hb := isValid_audit_iff.mpr (isSound_ofTwo hw)
  have hlast : (ofTwo (.number (.int 2))).last.digest?
      = (ofTwo (.number (.float (.ofNat 2)))).last.digest? := by
    have h1 := Entry.digest?_eq_ok_iff.mpr
      ⟨_, @Entry.canonicalBytes?_eq (ofTwo (.number (.int 2))).last _ hv, rfl⟩
    have h2 := Entry.digest?_eq_ok_iff.mpr
      ⟨_, @Entry.canonicalBytes?_eq (ofTwo (.number (.float (.ofNat 2)))).last _ hw, rfl⟩
    exact h1.trans h2.symm
  have hfree := collisionFree_ofTwo hv hw
  obtain ⟨hlen, hall⟩ := same_entries_of_last_digest_eq ha hb hlast hfree
  refine ⟨_, _, ha, hb, hlast, hfree, ?_, rfl, fun i hi hj => (hall i hi hj).2⟩
  intro h
  cases Value.number.inj h

end Ledger

end SealedLedger
