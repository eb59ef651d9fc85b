import SealedLedger.Proofs.Ledger.Chain

/-!
# What the report of an audit says

A report consists of the findings, in the order of the entries, and of what they say about the whole
ledger. A ledger is reported as valid exactly when it is sound, and each of the four marks of a
report stands for one question put to all entries: it is set exactly when every entry answers it
well, whatever else is wrong with the ledger.

## Main results

* `Ledger.pairwise_violations` — the findings stand in the order of the entries
* `AuditReport.clearOf_eq_true_iff` — a mark of the report, as a check that finds nothing
* `Ledger.audit_sound_complete` — the whole report
-/

namespace SealedLedger

/-! ### The order of the findings -/

theorem lt_position_of_mem {position : Nat} {prev : Entry} {rest : List Entry} {v : Violation}
    (h : v ∈ violationsAfter position prev rest) : position < v.position := by
  obtain ⟨p, prev, e, hp, hadjacent, -⟩ := mem_violationsAfter_iff.mp h
  have hpos := hadjacent.pos
  omega

/-- Findings about one entry stand at one position. -/
theorem pairwise_findings (position : Nat) (fs : List Finding) :
    (fs.map (Violation.mk position)).Pairwise fun v w => v.position ≤ w.position := by
  rw [List.pairwise_map]
  exact List.pairwise_of_forall fun _ _ => le_rfl

theorem pairwise_violationsAfter (position : Nat) (prev : Entry) (rest : List Entry) :
    (violationsAfter position prev rest).Pairwise fun v w => v.position ≤ w.position := by
  induction rest generalizing position prev with
  | nil => exact .nil
  | cons e rest ih =>
    rw [violationsAfter, List.pairwise_append]
    refine ⟨pairwise_findings _ _, ih _ _, fun v hv w hw => ?_⟩
    obtain ⟨f, -, rfl⟩ := List.mem_map.mp hv
    exact (lt_position_of_mem hw).le

/-! ### The marks of the report -/

/-- **A mark of a report is set when its check has found nothing.** -/
theorem AuditReport.clearOf_eq_true_iff {r : AuditReport} {test : Finding → Bool} {c : Check}
    (htest : ∀ f, test f = decide (f.check = c)) :
    r.clearOf test = true ↔ ∀ v ∈ r.violations, v.finding.check ≠ c := by
  simp only [clearOf, htest, List.all_eq_true, Bool.not_eq_true', decide_eq_false_iff_not, ne_eq]

namespace Ledger

variable {l : Ledger}

/-- **The findings stand in the order of the entries.** -/
theorem pairwise_violations (l : Ledger) :
    l.audit.violations.Pairwise fun v w => v.position ≤ w.position := by
  have hwalk : (violationsOf (l.first :: l.entries.tail)).Pairwise
      fun v w => v.position ≤ w.position := by
    rw [violationsOf, List.pairwise_append]
    refine ⟨pairwise_findings _ _, pairwise_violationsAfter _ _ _, fun v hv w _ => ?_⟩
    obtain ⟨f, -, rfl⟩ := List.mem_map.mp hv
    exact Nat.zero_le _
  rwa [← entries_eq_cons] at hwalk

theorem hashChainValid_iff : l.audit.hashChainValid = true ↔
    Neighbours (fun _ prev e => prev.digest? = .ok e.prevHash) l.entries := by
  rw [AuditReport.hashChainValid, AuditReport.clearOf_eq_true_iff (c := .link)
    (fun f => by cases f <;> rfl), forall_check_ne_iff]
  exact and_iff_right trivial

theorem recordHashesValid_iff : l.audit.recordHashesValid = true ↔
    Neighbours (fun _ _ e => e.payloadDigest? = .ok e.recordHash) l.entries := by
  rw [AuditReport.recordHashesValid, AuditReport.clearOf_eq_true_iff (c := .record)
    (fun f => by cases f <;> rfl), forall_check_ne_iff]
  exact and_iff_right trivial

theorem timestampsMonotonic_iff : l.audit.timestampsMonotonic = true ↔
    Neighbours (fun _ prev e => e.timestamp.isBefore prev.timestamp = false) l.entries := by
  rw [AuditReport.timestampsMonotonic, AuditReport.clearOf_eq_true_iff (c := .time)
    (fun f => by cases f <;> rfl), forall_check_ne_iff]
  exact and_iff_right trivial

/-- The index of every entry is its position, that of the first entry too. -/
theorem index_eq_iff : (l.first.index = 0 ∧
      Neighbours (fun i _ e => e.index = .ofNat (i + 1)) l.entries) ↔
    ∀ i (hi : i < l.entries.length), l.entries[i].index = .ofNat i := by
  rw [first, List.head_eq_getElem]
  constructor
  · rintro ⟨hzero, hsucc⟩ (_ | i) hi
    · exact hzero
    · exact hsucc i hi
  · exact fun h => ⟨h 0 _, fun i hi => h (i + 1) hi⟩

theorem indicesContiguous_iff : l.audit.indicesContiguous = true ↔
    ∀ i (hi : i < l.entries.length), l.entries[i].index = .ofNat i := by
  rw [AuditReport.indicesContiguous, AuditReport.clearOf_eq_true_iff (c := .index)
    (fun f => by cases f <;> rfl), forall_check_ne_iff]
  exact index_eq_iff

/-! ### The whole report -/

/-- **An audit is sound and complete**, whatever is wrong with a ledger. It is valid exactly when
the first entry is a proper genesis entry, the index of every entry is its position, and each later
entry has no genesis mark, holds the digest of the one before it and that of its own record, and is
not earlier than the one before it. Each mark of the report is set exactly when its part of this
holds at all positions. The report counts the entries, and its findings stand in their order. -/
theorem audit_sound_complete (l : Ledger) :
    (l.audit.isValid = true ↔
      (l.first.prevHash = .sentinel ∧ l.first.recordHash = .sentinel ∧
        l.first.isGenesis = true ∧ l.first.payload = .emptyObject) ∧
      (∀ i (hi : i < l.entries.length), l.entries[i].index = .ofNat i) ∧
      Neighbours (fun _ prev e => e.isGenesis = false ∧ prev.digest? = .ok e.prevHash ∧
        e.payloadDigest? = .ok e.recordHash ∧ e.timestamp.isBefore prev.timestamp = false)
        l.entries) ∧
    (l.audit.hashChainValid = true ↔
      Neighbours (fun _ prev e => prev.digest? = .ok e.prevHash) l.entries) ∧
    (l.audit.recordHashesValid = true ↔
      Neighbours (fun _ _ e => e.payloadDigest? = .ok e.recordHash) l.entries) ∧
    (l.audit.indicesContiguous = true ↔
      ∀ i (hi : i < l.entries.length), l.entries[i].index = .ofNat i) ∧
    (l.audit.timestampsMonotonic = true ↔
      Neighbours (fun _ prev e => e.timestamp.isBefore prev.timestamp = false) l.entries) ∧
    l.audit.entryCount = l.entries.length ∧
    l.audit.violations.Pairwise fun v w => v.position ≤ w.position := by
  refine ⟨?_, hashChainValid_iff, recordHashesValid_iff, indicesContiguous_iff,
    timestampsMonotonic_iff, rfl, pairwise_violations l⟩
  rw [isValid_audit_iff, ← index_eq_iff]
  constructor
  · rintro ⟨⟨hindex, hprev, hrecord, hgenesis, hpayload⟩, hlater⟩
    refine ⟨⟨hprev, hrecord, hgenesis, Value.isEmptyObject_iff.mp hpayload⟩,
      ⟨hindex, fun i hi => (hlater i hi).index⟩, fun i hi => ?_⟩
    obtain ⟨-, hlink, hdigest, hmark, htime⟩ := hlater i hi
    exact ⟨hmark, hlink, hdigest, htime⟩
  · rintro ⟨⟨hprev, hrecord, hgenesis, hpayload⟩, ⟨hindex, hindices⟩, hlater⟩
    refine ⟨⟨hindex, hprev, hrecord, hgenesis, Value.isEmptyObject_iff.mpr hpayload⟩,
      fun i hi => ?_⟩
    obtain ⟨hmark, hlink, hdigest, htime⟩ := hlater i hi
    exact ⟨hindices i hi, hlink, hdigest, hmark, htime⟩

end Ledger

end SealedLedger
