import Mathlib.Order.Bounds.Basic
import SealedLedger.Proofs.Ledger.Commitment
import SealedLedger.Proofs.Ledger.Report

/-!
# The first break of a chain

Verification stops at the first entry that does not hold the digest of the one before it. An audit
goes on to the end, and its first break is looked up in the findings afterwards. As the findings
stand in the order of the entries, the one looked up is the least position at which an entry holds
another digest than the one before it has.

The two positions are the same unless an entry in front of the break has no digest at all: there
verification fails for that reason, while the audit files it under another kind of finding and
still reports the break behind it.

## Main definitions

* `Ledger.BreaksAt` — an entry does not hold the digest of the one before it
* `Ledger.DiffersAt` — it holds another digest than that one has
* `Ledger.breakError` — what verification reports there

## Main results

* `Ledger.verify_eq_ok_iff`, `Ledger.verify_of_isLeast` — verification, by the least break
* `Ledger.verify_eq_broken_iff` — when a chain is reported as broken, and where
* `Ledger.firstBreak?_eq_some_iff` — the first break of an audit
* `Ledger.verify_agrees_with_audit` — how the two are related
-/

namespace SealedLedger

namespace Ledger

variable {l : Ledger} {p : Nat} {prev e : Entry}

/-! ### Breaks -/

/-- The entry at a position does not hold the digest of the one before it. It holds another one, or
there is none to hold. -/
def BreaksAt (l : Ledger) (p : Nat) : Prop :=
  ∃ prev e, Adjacent l.entries p prev e ∧ prev.digest? ≠ .ok e.prevHash

/-- The entry at a position holds another digest than the one before it has. -/
def DiffersAt (l : Ledger) (p : Nat) : Prop :=
  ∃ prev e, Adjacent l.entries p prev e ∧ ∃ d, prev.digest? = .ok d ∧ d ≠ e.prevHash

theorem DiffersAt.breaksAt (h : l.DiffersAt p) : l.BreaksAt p := by
  obtain ⟨prev, e, hadjacent, d, hd, hne⟩ := h
  exact ⟨prev, e, hadjacent, fun heq => hne (Except.ok.inj (hd.symm.trans heq))⟩

/-- At a break whose predecessor has a digest, that digest is another one. -/
theorem BreaksAt.differsAt (h : l.BreaksAt p)
    (hdigest : ∀ prev e, Adjacent l.entries p prev e → ∃ d, prev.digest? = .ok d) :
    l.DiffersAt p := by
  obtain ⟨prev, e, hadjacent, hbreak⟩ := h
  obtain ⟨d, hd⟩ := hdigest prev e hadjacent
  exact ⟨prev, e, hadjacent, d, hd, fun heq => hbreak (heq ▸ hd)⟩

/-- A ledger that breaks somewhere breaks first somewhere. -/
theorem exists_isLeast (h : ∃ p, l.BreaksAt p) : ∃ p, IsLeast {p | l.BreaksAt p} p := by
  classical
  exact ⟨Nat.find h, Nat.find_spec h, fun _ hp => Nat.find_min' h hp⟩

/-! ### What verification reports -/

/-- What verification reports at an entry that does not hold the digest of the one before it. -/
def breakError (position : Nat) (prev e : Entry) : ChainError :=
  match prev.digest? with
  | .error err => .canonical err
  | .ok d => .broken (.ofNat position) d e.prevHash

/-- The walk stops at the first link that does not hold. -/
theorem verifyFrom_eq_breakError {position : Nat} {first : Entry} {rest : List Entry}
    (hadjacent : Adjacent (first :: rest) p prev e)
    (hbefore : ∀ q a b, q < p → Adjacent (first :: rest) q a b → a.digest? = .ok b.prevHash)
    (hbreak : prev.digest? ≠ .ok e.prevHash) :
    verifyFrom position first rest = .error (breakError (position + p) prev e) := by
  induction rest generalizing position first p with
  | nil => exact absurd hadjacent not_adjacent_singleton
  | cons second rest ih =>
    rcases adjacent_cons_cons_iff.mp hadjacent with ⟨rfl, rfl, rfl⟩ | ⟨q, rfl, hlater⟩
    · rw [verifyFrom, breakError]
      cases hd : first.digest? with
      | error err => rfl
      | ok d =>
        have hne : d ≠ second.prevHash := fun heq => hbreak (heq ▸ hd)
        simp only [if_neg hne]
    · have hlink : first.digest? = .ok second.prevHash :=
        hbefore 1 first second (Nat.succ_lt_succ hlater.pos) ⟨rfl, rfl⟩
      have hrest := @ih q (position + 1) second hlater fun r a b hr hab =>
        hbefore (r + 1) a b (Nat.succ_lt_succ hr) (adjacent_cons_cons_iff.mpr (.inr ⟨r, rfl, hab⟩))
      rw [show position + 1 + q = position + (q + 1) by omega] at hrest
      simp only [verifyFrom, hlink, if_true, hrest]

/-- **Verification stops at the first break.** -/
theorem verify_of_isLeast (h : IsLeast {p | l.BreaksAt p} p)
    (hadjacent : Adjacent l.entries p prev e) : l.verify = .error (breakError p prev e) := by
  obtain ⟨⟨a, b, hab, hbreak⟩, hleast⟩ := h
  obtain ⟨rfl, rfl⟩ := hab.unique hadjacent
  have hbefore : ∀ q c d, q < p → Adjacent l.entries q c d → c.digest? = .ok d.prevHash := by
    intro q c d hq hcd
    by_contra hne
    exact Nat.not_le_of_lt hq (hleast ⟨c, d, hcd, hne⟩)
  rw [entries_eq_cons] at hab hbefore
  have hwalk : verifyFrom 0 l.first l.entries.tail = .error (breakError (0 + p) a b) :=
    verifyFrom_eq_breakError hab hbefore hbreak
  rwa [Nat.zero_add] at hwalk

/-- **A ledger is verified when it breaks nowhere**, and only then. -/
theorem verify_eq_ok_iff : l.verify = .ok () ↔ ∀ p, ¬ l.BreaksAt p := by
  rw [verify, verifyFrom_eq_ok_iff, ← entries_eq_cons, neighbours_iff]
  constructor
  · rintro h (_ | i) ⟨prev, e, hadjacent, hne⟩
    · cases hadjacent
    · exact hne (h i prev e hadjacent)
  · intro h i prev e hadjacent
    by_contra hne
    exact h (i + 1) ⟨prev, e, hadjacent, hne⟩

/-- Verification succeeds, or it reports the first break. -/
theorem verify_cases (l : Ledger) : l.verify = .ok () ∨
    ∃ p prev e, IsLeast {p | l.BreaksAt p} p ∧ Adjacent l.entries p prev e ∧
      l.verify = .error (breakError p prev e) := by
  by_cases h : ∃ p, l.BreaksAt p
  · obtain ⟨p, hleast⟩ := exists_isLeast h
    obtain ⟨prev, e, hadjacent, -⟩ := id hleast.1
    exact .inr ⟨p, prev, e, hleast, hadjacent, verify_of_isLeast hleast hadjacent⟩
  · exact .inl (verify_eq_ok_iff.mpr (not_exists.mp h))

/-- **When a chain is reported as broken**: its first break has a predecessor with a digest, and the
report tells that digest, the one held instead, and the position. -/
theorem verify_eq_broken_iff {index : UInt64} {expected recorded : Digest} :
    l.verify = .error (.broken index expected recorded) ↔
      ∃ p prev e, index = .ofNat p ∧ IsLeast {p | l.BreaksAt p} p ∧
        Adjacent l.entries p prev e ∧ prev.digest? = .ok expected ∧ recorded = e.prevHash := by
  constructor
  · intro h
    rcases verify_cases l with hok | ⟨p, prev, e, hleast, hadjacent, hbreak⟩
    · rw [hok] at h
      cases h
    · have herror := Except.error.inj (hbreak.symm.trans h)
      rw [breakError] at herror
      split at herror
      · cases herror
      · next d hd =>
        obtain ⟨hindex, rfl, hrecorded⟩ := ChainError.broken.inj herror
        exact ⟨p, prev, e, hindex.symm, hleast, hadjacent, hd, hrecorded.symm⟩
  · rintro ⟨p, prev, e, rfl, hleast, hadjacent, hd, rfl⟩
    rw [verify_of_isLeast hleast hadjacent, breakError, hd]

/-! ### What an audit reports -/

/-- A finding is a break of the chain. -/
def isBreak (v : Violation) : Bool :=
  v.finding matches .chainBreak ..

/-- Breaks are found where an entry holds another digest than the one before it has. -/
theorem exists_isBreak_iff :
    (∃ v ∈ l.audit.violations, isBreak v = true ∧ v.position = p) ↔ l.DiffersAt p := by
  constructor
  · rintro ⟨⟨p, f⟩, hv, hbreak, rfl⟩
    have hcheck : f.check = .link := by
      cases f <;> first | rfl | cases hbreak
    rcases mem_violations_iff.mp hv with ⟨-, hf⟩ | ⟨prev, e, hadjacent, hf⟩
    · rw [Entry.mem_examineFirst_iff, hcheck] at hf
      cases hf
    · rw [Entry.mem_examineLater_iff, hcheck] at hf
      rcases mem_digestFindings_iff.mp hf with ⟨err, -, rfl⟩ | ⟨d, hd, hne, -⟩
      · cases hbreak
      · exact ⟨prev, e, hadjacent, d, hd, hne⟩
  · rintro ⟨prev, e, hadjacent, d, hd, hne⟩
    refine ⟨⟨p, .chainBreak e.prevHash d⟩, mem_violations_iff.mpr
      (.inr ⟨prev, e, hadjacent, Entry.mem_examineLater_iff.mpr ?_⟩), rfl, rfl⟩
    exact mem_digestFindings_iff.mpr (.inr ⟨d, hd, hne, rfl⟩)

/-- The first of some findings stands at the least position of them. -/
theorem isLeast_of_find? {vs : List Violation} {test : Violation → Bool} {v : Violation}
    (hvs : vs.Pairwise fun v w => v.position ≤ w.position) (h : vs.find? test = some v) :
    IsLeast {p | ∃ w ∈ vs, test w = true ∧ w.position = p} v.position := by
  obtain ⟨htest, before, behind, rfl, hbefore⟩ := List.find?_eq_some_iff_append.mp h
  refine ⟨⟨v, by simp, htest, rfl⟩, ?_⟩
  rintro p ⟨w, hw, hwtest, rfl⟩
  rcases List.mem_append.mp hw with hw | hw
  · have hfalse := hbefore w hw
    rw [hwtest] at hfalse
    cases hfalse
  rcases List.mem_cons.mp hw with rfl | hw
  · exact le_rfl
  · exact (List.pairwise_cons.mp (List.pairwise_append.mp hvs).2.1).1 w hw

/-- An audit reports no break when no entry holds another digest, and only then. -/
theorem firstBreak?_eq_none_iff : l.audit.firstBreak? = none ↔ ∀ p, ¬ l.DiffersAt p := by
  rw [AuditReport.firstBreak?, Option.map_eq_none_iff, List.find?_eq_none]
  constructor
  · intro h p hp
    obtain ⟨v, hv, hbreak, -⟩ := exists_isBreak_iff.mpr hp
    exact h v hv hbreak
  · exact fun h v hv hbreak => h v.position (exists_isBreak_iff.mp ⟨v, hv, hbreak, rfl⟩)

/-- **The first break of an audit** is the least position at which an entry holds another digest
than the one before it has. -/
theorem firstBreak?_eq_some_iff : l.audit.firstBreak? = some p ↔ IsLeast {p | l.DiffersAt p} p := by
  have hleast : ∀ q, l.audit.firstBreak? = some q → IsLeast {p | l.DiffersAt p} q := by
    intro q hq
    obtain ⟨v, hv, rfl⟩ := Option.map_eq_some_iff.mp hq
    have hfind : IsLeast {p | ∃ w ∈ l.audit.violations, isBreak w = true ∧ w.position = p}
        v.position := isLeast_of_find? (pairwise_violations l) hv
    simpa only [exists_isBreak_iff] using hfind
  constructor
  · exact hleast p
  · intro h
    cases hq : l.audit.firstBreak? with
    | none => exact absurd h.1 (firstBreak?_eq_none_iff.mp hq p)
    | some q => rw [(hleast q hq).unique h]

/-! ### Both together -/

/-- The first break of an audit is the one that verification reports. -/
theorem firstBreak?_of_verify_eq_broken {index : UInt64} {expected recorded : Digest}
    (h : l.verify = .error (.broken index expected recorded)) :
    l.audit.firstBreak?.map UInt64.ofNat = some index := by
  obtain ⟨p, prev, e, rfl, hleast, hadjacent, hd, -⟩ := verify_eq_broken_iff.mp h
  have hdiffers : IsLeast {p | l.DiffersAt p} p := by
    refine ⟨hleast.1.differsAt fun a b hab => ?_, fun p hp => hleast.2 hp.breaksAt⟩
    obtain ⟨rfl, rfl⟩ := hab.unique hadjacent
    exact ⟨expected, hd⟩
  rw [firstBreak?_eq_some_iff.mpr hdiffers, Option.map_some]

/-- When every entry but the last has canonical bytes, the two kinds of breaks are one. -/
theorem differsAt_iff_breaksAt
    (hcanonical : ∀ e ∈ l.entries.dropLast, ∃ c, e.canonicalBytes? = .ok c) :
    l.DiffersAt p ↔ l.BreaksAt p := by
  refine ⟨DiffersAt.breaksAt, fun h => h.differsAt fun prev e hadjacent => ?_⟩
  obtain ⟨c, hc⟩ := hcanonical prev hadjacent.mem_dropLast
  exact ⟨_, Entry.digest?_eq_ok_iff.mpr ⟨c, hc, rfl⟩⟩

/-- **Verification and audit agree.** Verification succeeds exactly when the audit finds the links
of the chain valid. It reports a broken chain exactly when the first entry that does not hold the
digest of the one before it has a predecessor with a digest, which is the one expected, while the
one recorded is what the entry holds; the first break of the audit is then the same. When every
entry but the last has canonical bytes, the first break of the audit is always what verification
reports, and there is none exactly when verification succeeds. -/
theorem verify_agrees_with_audit (l : Ledger) :
    (l.verify = .ok () ↔ l.audit.hashChainValid = true) ∧
    (∀ index expected recorded, l.verify = .error (.broken index expected recorded) ↔
      ∃ p prev e, index = .ofNat p ∧ IsLeast {p | l.BreaksAt p} p ∧
        Adjacent l.entries p prev e ∧ prev.digest? = .ok expected ∧ recorded = e.prevHash) ∧
    (∀ index expected recorded, l.verify = .error (.broken index expected recorded) →
      l.audit.firstBreak?.map UInt64.ofNat = some index) ∧
    ((∀ e ∈ l.entries.dropLast, ∃ c, e.canonicalBytes? = .ok c) →
      (∀ index, l.audit.firstBreak?.map UInt64.ofNat = some index ↔
        ∃ expected recorded, l.verify = .error (.broken index expected recorded)) ∧
      (l.audit.firstBreak? = none ↔ l.verify = .ok ())) := by
  refine ⟨?_, fun _ _ _ => verify_eq_broken_iff, fun _ _ _ => firstBreak?_of_verify_eq_broken,
    fun hcanonical => ⟨fun index => ⟨fun h => ?_, ?_⟩, ?_⟩⟩
  · rw [hashChainValid_iff, verify, verifyFrom_eq_ok_iff, ← entries_eq_cons]
  · obtain ⟨p, hp, rfl⟩ := Option.map_eq_some_iff.mp h
    have hleast := firstBreak?_eq_some_iff.mp hp
    obtain ⟨prev, e, hadjacent, d, hd, -⟩ := id hleast.1
    simp only [differsAt_iff_breaksAt hcanonical] at hleast
    exact ⟨d, _, verify_eq_broken_iff.mpr ⟨p, prev, e, rfl, hleast, hadjacent, hd, rfl⟩⟩
  · rintro ⟨expected, recorded, h⟩
    exact firstBreak?_of_verify_eq_broken h
  · simp only [firstBreak?_eq_none_iff, verify_eq_ok_iff, differsAt_iff_breaksAt hcanonical]

/-- A forged link in front of a record that has no canonical form. -/
theorem verify_agrees_with_audit_forged :
    ∃ (l : Ledger) (expected : Digest),
      (∀ e ∈ l.entries.dropLast, ∃ c, e.canonicalBytes? = .ok c) ∧
      (∀ c, l.last.canonicalBytes? ≠ .ok c) ∧
      l.verify = .error (.broken 1 expected .sentinel) ∧
      l.audit.firstBreak?.map UInt64.ofNat = some 1 := by
  set l : Ledger := ⟨[.genesis ⟨0⟩ .epoch, ⟨⟨1⟩, 1, .epoch, .sentinel, .sentinel, .observation,
    .number (.float .nan)⟩], .system, by simp⟩
  obtain ⟨hhash, -, -⟩ := hashes_ofTwo .null
  have hfirst : (Entry.genesis ⟨0⟩ .epoch).canonicalBytes? = .ok _ :=
    Entry.canonicalBytes?_eq Canonical.writes_emptyObject
  have hcanonical : ∀ e ∈ l.entries.dropLast, ∃ c, e.canonicalBytes? = .ok c :=
    List.forall_mem_singleton.mpr ⟨_, hfirst⟩
  have hnan : ∀ c, l.last.canonicalBytes? ≠ .ok c := by
    intro c hc
    obtain ⟨_, hpayload⟩ := Entry.exists_canonicalBytes?_iff.mp ⟨c, hc⟩
    cases hpayload
  have hdigest : (Entry.genesis ⟨0⟩ .epoch).digest? = .ok (ofTwo .null).last.prevHash :=
    Entry.digest?_eq_ok_iff.mpr ⟨_, hfirst, (congrArg Digest.mk hhash).symm⟩
  have hadjacent : Adjacent l.entries 1 (.genesis ⟨0⟩ .epoch) l.last := ⟨rfl, rfl⟩
  have hleast : IsLeast {p | l.BreaksAt p} 1 := by
    refine ⟨⟨_, _, hadjacent, fun h => ?_⟩, ?_⟩
    · have hsame := Except.ok.inj (hdigest.symm.trans h)
      exact absurd hsame (by decide)
    · rintro p ⟨_, _, h, -⟩
      exact h.pos
  have hbroken : l.verify = .error (.broken 1 (ofTwo .null).last.prevHash .sentinel) :=
    verify_eq_broken_iff.mpr ⟨1, _, _, rfl, hleast, hadjacent, hdigest, rfl⟩
  exact ⟨l, _, hcanonical, hnan, hbroken,
    (((verify_agrees_with_audit l).2.2.2 hcanonical).1 1).mpr ⟨_, _, hbroken⟩⟩

end Ledger

end SealedLedger
