import SealedLedger.Ledger.Shared
import SealedLedger.Proofs.Ledger.Growth

/-!
# An append hides nothing

A new entry is made to follow the last one, whatever that one is and whatever is wrong with the
entries before it. Both walks along the chain come to the new entry last and find nothing there, so
they report about the longer ledger exactly what they report about the shorter one: what was broken
stays reported, and nothing is reported anew.

An append is refused only for a record or a last entry without a canonical form. This is found out
before an identifier is drawn, and nothing has changed then.

## Main results

* `Ledger.verify_push`, `Ledger.violations_push` — the two walks with one more entry
* `Ledger.append_keeps_findings` — what an append keeps, and what it is refused for
-/

namespace SealedLedger

/-! ### One more entry at the end of a walk -/

/-- One more link that holds is passed by. -/
theorem Ledger.verifyFrom_concat {position : Nat} {prev e : Entry} {rest : List Entry}
    (h : ((prev :: rest).getLast (List.cons_ne_nil _ _)).digest? = .ok e.prevHash) :
    verifyFrom position prev (rest ++ [e]) = verifyFrom position prev rest := by
  induction rest generalizing position prev with
  | nil =>
    rw [List.getLast_singleton] at h
    simp only [List.nil_append, verifyFrom, h, if_true]
  | cons f rest ih =>
    rw [List.getLast_cons (List.cons_ne_nil _ _)] at h
    rw [List.cons_append, verifyFrom, verifyFrom, ih h]

namespace Ledger

variable {l : Ledger} {e : Entry}

/-- **Verification does not stop at a new entry** that holds the digest of the last one. -/
theorem verify_push (h : l.last.digest? = .ok e.prevHash) : (l.push e).verify = l.verify := by
  obtain ⟨entries, clock, hentries⟩ := l
  cases entries with
  | nil => exact absurd rfl hentries
  | cons first rest => exact verifyFrom_concat h

/-- **What an audit finds in a longer ledger**: what it found before, and then what is wrong with
the new entry. -/
theorem violations_push (l : Ledger) (e : Entry) : (l.push e).audit.violations =
    l.audit.violations ++ (e.examineLater l.last l.size).map (Violation.mk l.size) := by
  show violationsOf (l.entries ++ [e]) = _
  rw [violationsOf_append l.entries_ne, violationsAfter, List.append_nil]
  rfl

/-- An entry that follows the last one adds nothing to the findings. -/
theorem violations_push_of_follows (h : e.Follows l.last l.size) :
    (l.push e).audit.violations = l.audit.violations := by
  rw [violations_push, h.examineLater_eq_nil, List.map_nil, List.append_nil]

/-! ### Appends -/

/-- **An append hides no finding and makes none**, whatever is wrong with the ledger and whatever
its clock shows. One identifier is drawn and one entry is added behind the old ones, and the longer
ledger is verified and audited with the same outcome, except that it has one entry more. An append
is refused when its record has no canonical form or, if it has one, when the last entry has none,
and the error is that of the one to blame. A refused append leaves the ledger and the supply of
identifiers as they were, and would be refused with any other supply. -/
theorem append_keeps_findings (l : Ledger) (machine : Timestamp) {type : RecordType}
    (htype : type.isGenesis = false) (payload : Value) (draws : Draws) :
    (∀ e l' draws', append machine type payload (l, draws) = .ok e (l', draws') →
      (e.id, draws') = draws.next ∧
      l'.entries = l.entries ++ [e] ∧
      l'.verify = l.verify ∧
      l'.audit.violations = l.audit.violations ∧
      l'.audit.hashChainValid = l.audit.hashChainValid ∧
      l'.audit.recordHashesValid = l.audit.recordHashesValid ∧
      l'.audit.indicesContiguous = l.audit.indicesContiguous ∧
      l'.audit.timestampsMonotonic = l.audit.timestampsMonotonic ∧
      l'.audit.entryCount = l.audit.entryCount + 1) ∧
    (∀ err, (∃ s, append machine type payload (l, draws) = .error err s) ↔
      canonicalize payload = .error err ∨
        (∃ c, canonicalize payload = .ok c) ∧ l.last.canonicalBytes? = .error err) ∧
    (∀ err s, append machine type payload (l, draws) = .error err s →
      s = (l, draws) ∧
        SharedLedger.answer ⟨l, draws⟩ (.append machine type payload)
          = (.appended (.error err), ⟨l, draws⟩) ∧
        ∀ draws', append machine type payload (l, draws') = .error err (l, draws')) := by
  have hrefused : ∀ err draws, append machine type payload (l, draws) = .error err (l, draws) ↔
      canonicalize payload = .error err ∨
        (∃ c, canonicalize payload = .ok c) ∧ l.last.canonicalBytes? = .error err := by
    intro err draws
    have hpayload : (∃ d, Digest.ofValue? payload = .ok d) ↔ ∃ c, canonicalize payload = .ok c := by
      simp only [Digest.ofValue?_eq_ok_iff]
      constructor
      · rintro ⟨_, c, hc, -⟩
        exact ⟨c, hc⟩
      · rintro ⟨c, hc⟩
        exact ⟨_, c, hc, rfl⟩
    rw [append_eq_error_iff, and_iff_left rfl, nextEntry_eq_error_iff, Digest.ofValue?_eq_error_iff,
      hpayload, Entry.digest?, Digest.ofValue?_eq_error_iff]
    rfl
  have hunchanged : ∀ err s, append machine type payload (l, draws) = .error err s →
      s = (l, draws) := fun err s h => (append_eq_error_iff.mp h).2
  refine ⟨fun e l' draws' h => ?_, fun err => ?_, fun err s h => ?_⟩
  · obtain ⟨hnext, rfl, rfl⟩ := append_eq_ok_iff.mp h
    have hid : e.id = draws.next.1 := by
      obtain ⟨_, _, -, -, rfl⟩ := nextEntry_eq_ok_iff.mp hnext
      rfl
    have hfollows := follows_of_nextEntry hnext htype
    have hviolations := violations_push_of_follows hfollows
    have hclear : ∀ test, (l.push e).audit.clearOf test = l.audit.clearOf test := fun test => by
      rw [AuditReport.clearOf, AuditReport.clearOf, hviolations]
    exact ⟨by rw [hid], rfl, verify_push hfollows.prevHash, hviolations, hclear _, hclear _,
      hclear _, hclear _, List.length_append⟩
  · rw [← hrefused err draws]
    constructor
    · rintro ⟨s, hs⟩
      rwa [hunchanged err s hs] at hs
    · exact fun h => ⟨_, h⟩
  · obtain rfl := hunchanged err s h
    refine ⟨rfl, ?_, fun draws' => (hrefused err draws').mpr ((hrefused err draws).mp h)⟩
    simp only [SharedLedger.answer, h]

/-- A ledger whose only entry claims another index, extended once by a record that has a canonical
form and once by one that has none. -/
theorem append_keeps_findings_misnumbered :
    ∃ (l l' : Ledger) (e : Entry) (draws draws' : Draws),
      RecordType.observation.isGenesis = false ∧
      append .epoch .observation .null (l, draws) = .ok e (l', draws') ∧
      l'.entries = l.entries ++ [e] ∧ l'.verify = .ok () ∧
      l'.audit.violations = [⟨0, .indexGap 0 7⟩] ∧
      append .epoch .observation (.number (.float .nan)) (l, draws)
        = .error (.notFinite .nan) (l, draws) := by
  set l : Ledger := ⟨[{ Entry.genesis ⟨0⟩ .epoch with index := 7 }], .system, by simp⟩
  have hlast : ∃ d, l.last.digest? = .ok d :=
    Entry.exists_digest?_iff.mpr Canonical.exists_canonicalize_emptyObject
  obtain ⟨e, he⟩ := (@exists_nextEntry_iff l .epoch .observation .null
    (Draws.next ⟨fun _ => 0, 0⟩).1 hlast).mpr ⟨_, rfl⟩
  have happend : append .epoch .observation .null (l, ⟨fun _ => 0, 0⟩) = .ok e (_, _) :=
    append_eq_ok_iff.mpr ⟨he, rfl, rfl⟩
  have htype : RecordType.observation.isGenesis = false := by decide
  obtain ⟨-, hentries, hverify, hviolations, -⟩ :=
    (append_keeps_findings l .epoch htype .null ⟨fun _ => 0, 0⟩).1 _ _ _ happend
  obtain ⟨-, hrefused, hunchanged⟩ :=
    append_keeps_findings l .epoch htype (.number (.float .nan)) ⟨fun _ => 0, 0⟩
  obtain ⟨s, hs⟩ := (hrefused (.notFinite .nan)).mpr (.inl rfl)
  exact ⟨l, _, e, _, _, htype, happend, hentries, hverify, hviolations,
    (hunchanged _ s hs).2.2 _⟩

end Ledger

end SealedLedger
