import SealedLedger.Proofs.Ledger.Tamper

/-!
# An edited record is located

When the record of a later entry of a sound ledger is edited, and nothing else, an audit tells which
entry it was. Of the questions that an audit puts to the entry itself, only the one about its record
looks at the record; and of those put to the next entry, only the one about the link looks at the
record of the entry before it. All other entries are asked what they were asked before.

So the findings are exactly two, at neighbouring positions, or one when no entry follows.
Verification sees the link only: an edit of the last record goes unnoticed there.

## Main definitions

* `Entry.withPayload` — an entry with another record

## Main results

* `Entry.examineLater_withPayload`, `Entry.examineLater_of_withPayload` — what can be found in an
  entry with another record, and in the one behind it
* `Ledger.exists_violations_replace` — the findings that a replaced entry can change
* `Ledger.violations_edit` — what an audit finds after an edit
* `Ledger.audit_edit` — where an edited record is noticed
-/

namespace SealedLedger

/-! ### Another record in an entry -/

namespace Entry

/-- The entry with another record, and with all its other fields as they were. -/
def withPayload (e : Entry) (p : Value) : Entry :=
  { e with payload := p }

variable {e prev next : Entry} {position : Nat}

/-- In an entry in which nothing was found, only the digest of another record can be found wrong. -/
theorem examineLater_withPayload (h : e.examineLater prev position = []) (p : Value) :
    (e.withPayload p).examineLater prev position = (e.withPayload p).examineRecord := by
  simp only [examineLater, List.append_eq_nil_iff] at h
  obtain ⟨⟨⟨⟨hindex, hmark⟩, hlink⟩, -⟩, htime⟩ := h
  show e.examineIndex position ++ (if e.isGenesis then [.misplacedGenesis] else []) ++
    e.examineLink prev ++ (e.withPayload p).examineRecord ++ e.examineTime prev = _
  rw [hindex, hmark, hlink, htime, List.append_nil, List.append_nil, List.append_nil,
    List.nil_append]

/-- Behind an entry with another record, only the link can be found wrong. -/
theorem examineLater_of_withPayload (h : next.examineLater e position = []) (p : Value) :
    next.examineLater (e.withPayload p) position = next.examineLink (e.withPayload p) := by
  simp only [examineLater, List.append_eq_nil_iff] at h
  obtain ⟨⟨⟨⟨hindex, hmark⟩, -⟩, hrecord⟩, htime⟩ := h
  show next.examineIndex position ++ (if next.isGenesis then [.misplacedGenesis] else []) ++
    next.examineLink (e.withPayload p) ++ next.examineRecord ++ next.examineTime e = _
  rw [hindex, hmark, hrecord, htime, List.append_nil, List.append_nil, List.nil_append,
    List.nil_append]

theorem examineRecord_of_ne {d : Digest} (hd : e.payloadDigest? = .ok d) (hne : d ≠ e.recordHash) :
    e.examineRecord = [.recordHashMismatch e.recordHash d] := by
  simp only [examineRecord, hd, if_neg hne]

theorem examineLink_of_ne {d : Digest} (hd : prev.digest? = .ok d) (hne : d ≠ e.prevHash) :
    e.examineLink prev = [.chainBreak e.prevHash d] := by
  simp only [examineLink, hd, if_neg hne]

/-- An entry has other canonical bytes when its record has. -/
theorem exists_canonicalBytes?_withPayload {p : Value} {c d : List UInt8}
    (hc : canonicalize p = .ok c) (hd : canonicalize e.payload = .ok d) (hne : c ≠ d) :
    ∃ a b, e.canonicalBytes? = .ok a ∧ (e.withPayload p).canonicalBytes? = .ok b ∧ a ≠ b := by
  obtain ⟨a, ha⟩ := exists_canonicalBytes?_iff.mpr ⟨d, hd⟩
  obtain ⟨b, hb⟩ := (exists_canonicalBytes?_iff (e := e.withPayload p)).mpr ⟨c, hc⟩
  refine ⟨a, b, ha, hb, fun hab => hne ?_⟩
  have hsame : canonicalize e.payload = canonicalize p :=
    ((canonicalBytes?_eq_iff_agrees ha hb).mp hab).payload
  exact Except.ok.inj (hc.symm.trans (hsame.symm.trans hd))

end Entry

/-! ### An edited ledger -/

namespace Ledger

variable {l : Ledger} {k : Nat}

theorem replace_self (hk : k < l.entries.length) : l.replace k l.entries[k] = l := by
  simp only [replace, List.set_getElem_self]

/-- **A replaced entry changes no finding before it**, and behind it only those of a walk that
starts with it. -/
theorem exists_violations_replace (hpos : 1 ≤ k) (hk : k < l.entries.length) :
    ∃ prev, ∀ e, (l.replace k e).audit.violations =
      violationsOf (l.entries.take k) ++ ((e.examineLater prev k).map (Violation.mk k) ++
        violationsAfter k e (l.entries.drop (k + 1))) := by
  have hlen : (l.entries.take k).length = k := List.length_take_of_le hk.le
  have hne : l.entries.take k ≠ [] := List.length_pos_iff.mp (by omega)
  refine ⟨(l.entries.take k).getLast hne, fun e => ?_⟩
  show violationsOf (l.entries.set k e) = _
  rw [List.set_eq_take_append_cons_drop, if_pos hk, violationsOf_append hne, hlen]

/-- **After an edit of a record**, an audit finds what is wrong with the digest of the record, and
with the link to the entry behind it if there is one. -/
theorem violations_edit (h : l.audit.violations = []) (hpos : 1 ≤ k) (hk : k < l.entries.length)
    (p : Value) : (l.replace k (l.entries[k].withPayload p)).audit.violations =
      (l.entries[k].withPayload p).examineRecord.map (Violation.mk k) ++
        (l.entries[k + 1]?.toList.flatMap (·.examineLink (l.entries[k].withPayload p))).map
          (Violation.mk (k + 1)) := by
  obtain ⟨prev, hviolations⟩ := exists_violations_replace hpos hk
  have hold := hviolations l.entries[k]
  rw [replace_self, h, eq_comm, List.append_eq_nil_iff, List.append_eq_nil_iff,
    List.map_eq_nil_iff] at hold
  obtain ⟨hbefore, hentry, hbehind⟩ := hold
  rw [hviolations, hbefore, Entry.examineLater_withPayload hentry, List.nil_append]
  congr 1
  by_cases hnext : k + 1 < l.entries.length
  · rw [List.drop_eq_getElem_cons hnext, violationsAfter, List.append_eq_nil_iff,
      List.map_eq_nil_iff] at hbehind
    rw [List.drop_eq_getElem_cons hnext, violationsAfter, hbehind.2, List.append_nil,
      Entry.examineLater_of_withPayload hbehind.1, List.getElem?_eq_getElem hnext,
      Option.toList_some, List.flatMap_singleton]
  · rw [List.drop_eq_nil_of_le (by omega), List.getElem?_eq_none (by omega)]
    rfl

/-- **An edited record is located.** When the record of an entry of a ledger in which an audit finds
nothing, but not of the first one, is edited so that its canonical bytes change, those of the entry
change too. An audit of the edited ledger then finds another digest of the record at the entry and
another digest of the entry at the next one, and nothing else; behind the last entry there is no
such link to find. Verification reports the link, and nothing where there is none. All this as long
as the hash gives different digests to the two records, and to the two entries. -/
theorem audit_edit (hvalid : l.audit.isValid = true) (hpos : 1 ≤ k) (hk : k < l.entries.length)
    {p : Value} {c d : List UInt8} (hc : canonicalize p = .ok c)
    (hd : canonicalize l.entries[k].payload = .ok d) (hne : c ≠ d) :
    ∃ a b, l.entries[k].canonicalBytes? = .ok a ∧
      (l.entries[k].withPayload p).canonicalBytes? = .ok b ∧ a ≠ b ∧
      (Sha256.hash c ≠ Sha256.hash d →
        (k + 1 = l.entries.length →
          (l.replace k (l.entries[k].withPayload p)).audit.violations
              = [⟨k, .recordHashMismatch ⟨Sha256.hash d⟩ ⟨Sha256.hash c⟩⟩] ∧
            (l.replace k (l.entries[k].withPayload p)).verify = .ok ()) ∧
        (k + 1 < l.entries.length → Sha256.hash a ≠ Sha256.hash b →
          (l.replace k (l.entries[k].withPayload p)).audit.violations
              = [⟨k, .recordHashMismatch ⟨Sha256.hash d⟩ ⟨Sha256.hash c⟩⟩,
                ⟨k + 1, .chainBreak ⟨Sha256.hash a⟩ ⟨Sha256.hash b⟩⟩] ∧
            (l.replace k (l.entries[k].withPayload p)).verify
              = .error (.broken (.ofNat (k + 1)) ⟨Sha256.hash b⟩ ⟨Sha256.hash a⟩))) := by
  have hsound := isValid_audit_iff.mp hvalid
  have hverify := verify_of_isSound hsound
  obtain ⟨a, b, ha, hb, hab⟩ := Entry.exists_canonicalBytes?_withPayload hc hd hne
  refine ⟨a, b, ha, hb, hab, fun hrecords => ?_⟩
  have hrecord : l.entries[k].recordHash = ⟨Sha256.hash d⟩ := by
    obtain ⟨i, rfl⟩ := Nat.exists_eq_add_of_le' hpos
    have hdigest := (hsound.later i hk).recordHash
    exact Except.ok.inj (hdigest.symm.trans (Entry.payloadDigest?_eq_ok_iff.mpr ⟨d, hd, rfl⟩))
  have hfound : (l.entries[k].withPayload p).examineRecord
      = [.recordHashMismatch ⟨Sha256.hash d⟩ ⟨Sha256.hash c⟩] := by
    rw [← hrecord]
    refine Entry.examineRecord_of_ne (Entry.payloadDigest?_eq_ok_iff.mpr ⟨c, hc, rfl⟩) ?_
    exact fun heq => hrecords (Digest.mk.inj (heq.trans hrecord))
  have hviolations := violations_edit (violations_eq_nil_iff.mpr hsound) hpos hk p
  rw [hfound] at hviolations
  refine ⟨fun hlast => ⟨?_, ?_⟩, fun hnext hentries => ?_⟩
  · rw [hviolations, List.getElem?_eq_none hlast.ge]
    rfl
  · -- no link leaves the last entry, and the one into it is as it was
    rw [verify, verifyFrom_eq_ok_iff, ← entries_eq_cons]
    exact fun j hj => link_replace hverify hj (by simp at hj; omega) fun _ _ => rfl
  · have hlink := link_of_verify hverify hnext
    have hprev : l.entries[k + 1].prevHash = ⟨Sha256.hash a⟩ :=
      Except.ok.inj (hlink.symm.trans (Entry.digest?_eq_ok_iff.mpr ⟨a, ha, rfl⟩))
    have hdigest : (l.entries[k].withPayload p).digest? = .ok ⟨Sha256.hash b⟩ :=
      Entry.digest?_eq_ok_iff.mpr ⟨b, hb, rfl⟩
    have hdiffers : (⟨Sha256.hash b⟩ : Digest) ≠ l.entries[k + 1].prevHash :=
      fun heq => hentries (Digest.mk.inj (heq.trans hprev)).symm
    constructor
    · rw [hviolations, List.getElem?_eq_getElem hnext, Option.toList_some, List.flatMap_singleton,
        Entry.examineLink_of_ne hdigest hdiffers, hprev]
      rfl
    · have hbreak := @verify_eq_broken (l.replace k (l.entries[k].withPayload p)) k
        (by simpa using hnext) (fun j hj => link_replace hverify _ hj.ne fun _ _ => rfl)
        ⟨Sha256.hash b⟩ (by simpa using hdigest) (by simpa using hdiffers)
      simpa [hprev] using hbreak

/-- The record `2` of the middle one of three entries edited to null. -/
theorem audit_edit_middle :
    ∃ (l : Ledger) (p : Value) (a b c d : List UInt8) (hk : 1 < l.entries.length),
      l.audit.isValid = true ∧ l.size = 3 ∧ canonicalize p = .ok c ∧
      canonicalize l.entries[1].payload = .ok d ∧ c ≠ d ∧
      (l.replace 1 (l.entries[1].withPayload p)).audit.violations
        = [⟨1, .recordHashMismatch ⟨Sha256.hash d⟩ ⟨Sha256.hash c⟩⟩,
          ⟨2, .chainBreak ⟨Sha256.hash a⟩ ⟨Sha256.hash b⟩⟩] ∧
      (l.replace 1 (l.entries[1].withPayload p)).verify
        = .error (.broken 2 ⟨Sha256.hash b⟩ ⟨Sha256.hash a⟩) := by
  set two := ofTwo (.number (.int 2))
  have hv : Canonical.Writes two.last.payload ['2'] := rfl
  have hnull : Canonical.Writes .null ['n', 'u', 'l', 'l'] := rfl
  have hold := Entry.canonicalBytes?_eq hv
  have hnew := Entry.canonicalBytes?_eq (e := two.last.withPayload .null) hnull
  have hrecord := Canonical.canonicalize_eq_ok_iff.mpr ⟨_, hv, rfl⟩
  have hedited := Canonical.canonicalize_eq_ok_iff.mpr ⟨_, hnull, rfl⟩
  set e : Entry := ⟨⟨2⟩, 2, .epoch, ⟨Sha256.hash (Utf8.encode (two.last.canonicalText ['2']))⟩,
    ⟨Sha256.hash (Utf8.encode ['n', 'u', 'l', 'l'])⟩, .observation, .null⟩
  have hfollows : e.Follows two.last 2 :=
    ⟨rfl, Entry.digest?_eq_ok_iff.mpr ⟨_, hold, rfl⟩,
      Entry.payloadDigest?_eq_ok_iff.mpr ⟨_, hedited, rfl⟩, rfl, rfl⟩
  have hvalid : (two.push e).audit.isValid = true :=
    isValid_audit_iff.mpr (isSound_push (isSound_ofTwo hv) hfollows)
  have hne : Utf8.encode ['n', 'u', 'l', 'l'] ≠ Utf8.encode ['2'] := by decide +kernel
  have hk : 1 < (two.push e).entries.length := by decide
  obtain ⟨a, b, ha, hb, -, hfound⟩ := audit_edit hvalid le_rfl hk hedited hrecord hne
  obtain rfl := Except.ok.inj (hold.symm.trans ha)
  obtain rfl := Except.ok.inj (hnew.symm.trans hb)
  have hhashes : Sha256.hash (Utf8.encode ['n', 'u', 'l', 'l']) ≠ Sha256.hash (Utf8.encode ['2']) ∧
      Sha256.hash (Utf8.encode (two.last.canonicalText ['2']))
        ≠ Sha256.hash (Utf8.encode ((two.last.withPayload .null).canonicalText
          ['n', 'u', 'l', 'l'])) := by
    simp only [two, last, ofTwo, List.getLast_cons_cons, List.getLast_singleton,
      Entry.withPayload, Entry.canonicalText, Canonical.string, Uuid.text, Digest.text,
      Timestamp.text, String.toList_ofList]
    decide +kernel
  obtain ⟨hviolations, hverify⟩ := (hfound hhashes.1).2 (by decide) hhashes.2
  exact ⟨_, .null, _, _, _, _, hk, hvalid, rfl, hedited, hrecord, hne, hviolations, hverify⟩

end Ledger

end SealedLedger
