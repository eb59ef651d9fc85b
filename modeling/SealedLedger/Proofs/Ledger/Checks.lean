import SealedLedger.Ledger.Audit
import SealedLedger.Proofs.Ledger.Entry

/-!
# The checks of an audit, one by one

An audit puts six questions to a ledger, two of them to its first entry and five to each later one.
Every finding answers one question, so the findings about an entry can be taken apart again: what a
check has found is what is left when the findings of all others are put aside. Each check finds
nothing exactly when the entry is as the question demands.

Two kinds of findings come from one check. Whether an entry holds the digest of the one before it,
or that of its own record, cannot be told when the digest cannot be computed, and then this is what
the check finds.

## Main definitions

* `Check`, `Finding.check` — what is asked, and which question a finding answers
* `digestFindings` — what the two checks of digests have in common
* `Entry.PassesFirst`, `Entry.Passes` — what each check demands of an entry

## Main results

* `Entry.mem_examineFirst_iff`, `Entry.mem_examineLater_iff` — the findings, check by check
* `Entry.findingsFirst_eq_nil_iff`, `Entry.findings_eq_nil_iff` — a check finds nothing exactly
  when the entry passes it
-/

namespace SealedLedger

/-- What an entry is checked for. -/
inductive Check where
  | index
  | genesis
  | mark
  | link
  | record
  | time
  deriving DecidableEq

/-- The check that makes a finding. -/
def Finding.check : Finding → Check
  | .indexGap .. => .index
  | .malformedGenesis .. => .genesis
  | .misplacedGenesis => .mark
  | .chainBreak .. => .link
  | .predecessorUncanonicalizable .. => .link
  | .recordHashMismatch .. => .record
  | .payloadUncanonicalizable .. => .record
  | .timestampRegression .. => .time

/-! ### Recorded digests -/

section

variable {recomputed : Except CanonicalError Digest} {recorded : Digest}
  {absent : CanonicalError → Finding} {differs : Digest → Finding}

/-- What is found about a recorded digest: that none can be computed, or that another one is. -/
def digestFindings (recomputed : Except CanonicalError Digest) (recorded : Digest)
    (absent : CanonicalError → Finding) (differs : Digest → Finding) : List Finding :=
  match recomputed with
  | .error err => [absent err]
  | .ok d => if d = recorded then [] else [differs d]

theorem mem_digestFindings_iff {f : Finding} :
    f ∈ digestFindings recomputed recorded absent differs ↔
      (∃ err, recomputed = .error err ∧ f = absent err) ∨
        ∃ d, recomputed = .ok d ∧ d ≠ recorded ∧ f = differs d := by
  cases recomputed with
  | error err => simp [digestFindings]
  | ok d => by_cases hd : d = recorded <;> simp [digestFindings, hd]

/-- Where a digest can be computed, all that can be found is that it differs. -/
theorem eq_of_mem_digestFindings {d : Digest} {f : Finding} (hd : recomputed = .ok d)
    (hf : f ∈ digestFindings recomputed recorded absent differs) : f = differs d := by
  rcases mem_digestFindings_iff.mp hf with ⟨err, herr, -⟩ | ⟨d', hd', -, heq⟩
  · cases hd.symm.trans herr
  · rw [heq, Except.ok.inj (hd.symm.trans hd')]

theorem digestFindings_eq_nil_iff :
    digestFindings recomputed recorded absent differs = [] ↔ recomputed = .ok recorded := by
  cases recomputed with
  | error err => simp [digestFindings]
  | ok d => by_cases hd : d = recorded <;> simp [digestFindings, hd]

end

namespace Entry

/-! ### The first entry -/

section

variable {e : Entry} {c : Check} {f : Finding}

/-- What a check finds in the first entry. -/
def findingsFirst (e : Entry) : Check → List Finding
  | .index => e.examineIndex 0
  | .genesis => e.genesisProblem?.toList.map .malformedGenesis
  | _ => []

/-- What a check demands of the first entry. -/
def PassesFirst (e : Entry) : Check → Prop
  | .index => e.index = 0
  | .genesis => e.prevHash = .sentinel ∧ e.recordHash = .sentinel ∧ e.isGenesis = true ∧
      e.payload.isEmptyObject = true
  | _ => True

theorem examineIndex_eq_nil_iff {position : Nat} :
    e.examineIndex position = [] ↔ e.index = .ofNat position := by
  rw [examineIndex]
  split <;> simp [*]

theorem check_of_mem_examineIndex {position : Nat} (h : f ∈ e.examineIndex position) :
    f.check = .index := by
  rw [examineIndex] at h
  split at h
  · cases h
  · rw [List.mem_singleton.mp h]
    rfl

theorem genesisProblem?_eq_none_iff : e.genesisProblem? = none ↔ e.PassesFirst .genesis := by
  rw [genesisProblem?, PassesFirst]
  constructor
  · intro h
    split at h
    · cases h
    split at h
    · cases h
    split at h
    · cases h
    split at h
    · cases h
    · next h1 h2 h3 h4 =>
      exact ⟨not_not.mp h1, not_not.mp h2, by simpa using h3, by simpa using h4⟩
  · rintro ⟨hprev, hrecord, hgenesis, hpayload⟩
    rw [hprev, hrecord, hgenesis, hpayload]
    rfl

/-- **A check finds nothing in a first entry that is as it demands**, and only there. -/
theorem findingsFirst_eq_nil_iff : e.findingsFirst c = [] ↔ e.PassesFirst c := by
  cases c with
  | index => exact examineIndex_eq_nil_iff
  | genesis =>
    rw [findingsFirst, List.map_eq_nil_iff, Option.toList_eq_nil_iff, genesisProblem?_eq_none_iff]
  | _ => exact iff_of_true rfl trivial

theorem check_of_mem_findingsFirst (h : f ∈ e.findingsFirst c) : f.check = c := by
  cases c with
  | index => exact check_of_mem_examineIndex h
  | genesis =>
    obtain ⟨problem, -, rfl⟩ := List.mem_map.mp h
    rfl
  | _ => cases h

/-- What is found in the first entry is what its check finds. -/
theorem mem_examineFirst_iff : f ∈ e.examineFirst ↔ f ∈ e.findingsFirst f.check := by
  have hall : f ∈ e.examineFirst ↔ f ∈ e.findingsFirst .index ∨ f ∈ e.findingsFirst .genesis :=
    List.mem_append
  rw [hall]
  constructor
  · rintro (h | h) <;> rwa [check_of_mem_findingsFirst h]
  · intro h
    generalize f.check = c at h
    cases c with
    | index => exact .inl h
    | genesis => exact .inr h
    | _ => cases h

end

/-! ### Later entries -/

section

variable {e prev : Entry} {position : Nat} {c : Check} {f : Finding}

/-- What a check finds in a later entry. -/
def findings (e prev : Entry) (position : Nat) : Check → List Finding
  | .index => e.examineIndex position
  | .genesis => []
  | .mark => if e.isGenesis then [.misplacedGenesis] else []
  | .link =>
    digestFindings prev.digest? e.prevHash .predecessorUncanonicalizable (.chainBreak e.prevHash)
  | .record =>
    digestFindings e.payloadDigest? e.recordHash .payloadUncanonicalizable
      (.recordHashMismatch e.recordHash)
  | .time => e.examineTime prev

/-- What a check demands of a later entry. -/
def Passes (e prev : Entry) (position : Nat) : Check → Prop
  | .index => e.index = .ofNat position
  | .genesis => True
  | .mark => e.isGenesis = false
  | .link => prev.digest? = .ok e.prevHash
  | .record => e.payloadDigest? = .ok e.recordHash
  | .time => e.timestamp.isBefore prev.timestamp = false

/-- **A check finds nothing in a later entry that is as it demands**, and only there. -/
theorem findings_eq_nil_iff : e.findings prev position c = [] ↔ e.Passes prev position c := by
  cases c with
  | index => exact examineIndex_eq_nil_iff
  | genesis => exact iff_of_true rfl trivial
  | mark =>
    rw [findings, Passes]
    split <;> simp [*]
  | link => exact digestFindings_eq_nil_iff
  | record => exact digestFindings_eq_nil_iff
  | time =>
    rw [findings, Passes, examineTime]
    split <;> simp [*]

theorem check_of_mem_findings (h : f ∈ e.findings prev position c) : f.check = c := by
  cases c with
  | index => exact check_of_mem_examineIndex h
  | genesis => cases h
  | mark =>
    rw [findings] at h
    split at h
    · rw [List.mem_singleton.mp h]
      rfl
    · cases h
  | link => rcases mem_digestFindings_iff.mp h with ⟨_, -, rfl⟩ | ⟨_, -, -, rfl⟩ <;> rfl
  | record => rcases mem_digestFindings_iff.mp h with ⟨_, -, rfl⟩ | ⟨_, -, -, rfl⟩ <;> rfl
  | time =>
    rw [findings, examineTime] at h
    split at h
    · rw [List.mem_singleton.mp h]
      rfl
    · cases h

/-- What is found in a later entry is what its check finds. -/
theorem mem_examineLater_iff :
    f ∈ e.examineLater prev position ↔ f ∈ e.findings prev position f.check := by
  have hall : f ∈ e.examineLater prev position ↔ (((f ∈ e.findings prev position .index ∨
      f ∈ e.findings prev position .mark) ∨ f ∈ e.findings prev position .link) ∨
      f ∈ e.findings prev position .record) ∨ f ∈ e.findings prev position .time := by
    rw [← List.mem_append, ← List.mem_append, ← List.mem_append, ← List.mem_append]
    rfl
  rw [hall]
  constructor
  -- a finding belongs to one check only, the one that it names
  · rintro ((((h | h) | h) | h) | h) <;> rwa [check_of_mem_findings h]
  · intro h
    generalize f.check = c at h
    cases c with
    | index => exact .inl (.inl (.inl (.inl h)))
    | genesis => cases h
    | mark => exact .inl (.inl (.inl (.inr h)))
    | link => exact .inl (.inl (.inr h))
    | record => exact .inl (.inr h)
    | time => exact .inr h

end

end Entry

end SealedLedger
