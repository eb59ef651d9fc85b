import Mathlib.Data.List.Basic
import SealedLedger.Proofs.Ledger.Checks

/-!
# Sound chains

An audit and a verification walk the entries one by one. What they accept is said here of each
pair of neighbours at once: an entry follows the one before it when it holds that one's digest,
the digest of its own record, its position and a time that does not go back. A chain of such pairs
behind a proper genesis entry is sound, and the two walks find nothing wrong exactly with sound
chains, or, for a verification, with chains whose links hold.

## Main definitions

* `Entry.Follows` — an entry as it must stand after another one
* `Entry.IsFirst` — an entry as it must stand at the beginning
* `Neighbours`, `Adjacent` — a relation all along a list, and two of its elements side by side
* `Ledger.IsSound` — both, for all entries of a ledger

## Main results

* `verifyFrom_eq_ok_iff`, `Ledger.mem_violations_iff` — the two walks, pair by pair
* `violationsOf_append` — the findings before an entry, about it, and behind it
* `Ledger.forall_check_ne_iff` — a check of an audit finds nothing when all entries pass it
* `Ledger.isValid_audit_iff` — an audit finds nothing exactly in sound ledgers
* `Ledger.verify_of_isSound` — a sound ledger is verified
* `Ledger.exists_digest?_last` — the last entry of a sound ledger has a digest
* `Ledger.isSound_push` — a sound ledger stays sound when an entry that follows is added
-/

namespace SealedLedger

/-! ### The order of times -/

namespace Timestamp

theorem isBefore_self (a : Timestamp) : a.isBefore a = false := by
  simp [isBefore]

theorem isBefore_asymm {a b : Timestamp} (h : a.isBefore b = true) : b.isBefore a = false := by
  simp only [isBefore, Bool.or_eq_true, Bool.and_eq_true, decide_eq_true_iff, beq_iff_eq,
    Bool.not_eq_true', Bool.or_eq_false_iff, decide_eq_false_iff_not] at h ⊢
  rcases h with h | ⟨⟨heq, ha⟩, hb⟩
  · have hne : b.unix ≠ a.unix := by omega
    exact ⟨by omega, by simp [hne]⟩
  · exact ⟨by omega, by simp [hb]⟩

/-- The later of two times is not before the second one. -/
theorem isBefore_latest (a b : Timestamp) : (latest a b).isBefore b = false := by
  rw [latest]
  split
  · next h => exact isBefore_asymm h
  · exact isBefore_self b

end Timestamp

/-! ### Neighbours -/

namespace Entry

/-- The entry stands as it must at the beginning of a ledger. -/
structure IsFirst (e : Entry) : Prop where
  index : e.index = 0
  prevHash : e.prevHash = .sentinel
  recordHash : e.recordHash = .sentinel
  isGenesis : e.isGenesis = true
  payload : e.payload.isEmptyObject = true

/-- The entry stands as it must after another one, at a position of the chain. -/
structure Follows (e prev : Entry) (position : Nat) : Prop where
  index : e.index = .ofNat position
  prevHash : prev.digest? = .ok e.prevHash
  recordHash : e.payloadDigest? = .ok e.recordHash
  not_isGenesis : e.isGenesis = false
  timestamp : e.timestamp.isBefore prev.timestamp = false

theorem isFirst_genesis (id : Uuid) (now : Timestamp) : (genesis id now).IsFirst :=
  ⟨rfl, rfl, rfl, rfl, rfl⟩

/-- An entry stands as it must at the beginning when it passes all checks of a first entry. -/
theorem isFirst_iff {e : Entry} : e.IsFirst ↔ ∀ c, e.PassesFirst c := by
  constructor
  · rintro ⟨hindex, hprev, hrecord, hgenesis, hpayload⟩ c
    cases c with
    | index => exact hindex
    | genesis => exact ⟨hprev, hrecord, hgenesis, hpayload⟩
    | _ => trivial
  · intro h
    obtain ⟨hprev, hrecord, hgenesis, hpayload⟩ := h .genesis
    exact ⟨h .index, hprev, hrecord, hgenesis, hpayload⟩

/-- An entry follows the one before it when it passes all checks of a later entry. -/
theorem follows_iff {e prev : Entry} {position : Nat} :
    e.Follows prev position ↔ ∀ c, e.Passes prev position c := by
  constructor
  · rintro ⟨hindex, hprev, hrecord, hmark, htime⟩ c
    cases c with
    | index => exact hindex
    | genesis => trivial
    | mark => exact hmark
    | link => exact hprev
    | record => exact hrecord
    | time => exact htime
  · exact fun h => ⟨h .index, h .link, h .record, h .mark, h .time⟩

/-- Nothing is found in an entry that follows the one before it. -/
theorem Follows.examineLater_eq_nil {e prev : Entry} {position : Nat}
    (h : e.Follows prev position) : e.examineLater prev position = [] := by
  refine List.eq_nil_iff_forall_not_mem.mpr fun f hf => ?_
  rw [mem_examineLater_iff, findings_eq_nil_iff.mpr (follows_iff.mp h f.check)] at hf
  cases hf

end Entry

/-! ### Walks along the chain -/

section

variable {α : Type}

/-- A relation of an element to the next one, given the position of the first, holds all along a
list. -/
def Neighbours (R : Nat → α → α → Prop) (as : List α) : Prop :=
  ∀ i (hi : i + 1 < as.length), R i as[i] as[i + 1]

variable {R : Nat → α → α → Prop} {a b : α} {as : List α}

theorem neighbours_singleton : Neighbours R [a] := fun i hi => absurd hi (by simp)

theorem neighbours_cons_cons_iff :
    Neighbours R (a :: b :: as) ↔ R 0 a b ∧ Neighbours (fun i => R (i + 1)) (b :: as) := by
  constructor
  · intro h
    exact ⟨h 0 (by simp), fun i hi => h (i + 1) (by simpa using hi)⟩
  · rintro ⟨hzero, hsucc⟩ (_ | i) hi
    · exact hzero
    · exact hsucc i (by simpa using hi)

/-- One more element at the end. -/
theorem neighbours_concat (h : Neighbours R as) (hne : as ≠ [])
    (hlast : R (as.length - 1) (as.getLast hne) b) : Neighbours R (as ++ [b]) := by
  intro i hi
  rw [List.length_append, List.length_singleton] at hi
  rcases Nat.lt_or_eq_of_le (Nat.lt_succ_iff.mp hi) with hlt | heq
  · rw [List.getElem_append_left (by omega), List.getElem_append_left hlt]
    exact h i hlt
  · obtain rfl : i = as.length - 1 := by omega
    rw [List.getElem_append_left (by omega), List.getElem_concat_length (by omega),
      ← List.getLast_eq_getElem hne]
    exact hlast

/-! ### Two elements side by side -/

/-- Two elements stand side by side in a list, the second one at the position. -/
def Adjacent (as : List α) : Nat → α → α → Prop
  | 0, _, _ => False
  | i + 1, a, b => as[i]? = some a ∧ as[i + 1]? = some b

variable {p : Nat} {c d : α}

theorem Adjacent.pos (h : Adjacent as p a b) : 0 < p := by
  cases p with
  | zero => cases h
  | succ i => exact i.succ_pos

theorem adjacent_getElem {i : Nat} (hi : i + 1 < as.length) :
    Adjacent as (i + 1) as[i] as[i + 1] :=
  ⟨List.getElem?_eq_getElem _, List.getElem?_eq_getElem hi⟩

theorem Adjacent.unique (h : Adjacent as p a b) (h' : Adjacent as p c d) : a = c ∧ b = d := by
  cases p with
  | zero => cases h
  | succ i =>
    exact ⟨Option.some.inj (h.1.symm.trans h'.1), Option.some.inj (h.2.symm.trans h'.2)⟩

theorem Adjacent.mem_dropLast (h : Adjacent as p a b) : a ∈ as.dropLast := by
  cases p with
  | zero => cases h
  | succ i =>
    obtain ⟨hi, -⟩ := List.getElem?_eq_some_iff.mp h.2
    refine List.mem_of_getElem? (i := i) ?_
    rw [List.getElem?_dropLast, if_pos (by omega)]
    exact h.1

theorem Adjacent.mem_right (h : Adjacent as p a b) : b ∈ as := by
  cases p with
  | zero => cases h
  | succ i => exact List.mem_of_getElem? h.2

theorem not_adjacent_singleton : ¬ Adjacent [a] p b c := by
  cases p with
  | zero => exact id
  | succ i =>
    rintro ⟨-, hc⟩
    cases hc

theorem adjacent_cons_cons_iff : Adjacent (a :: b :: as) p c d ↔
    (p = 1 ∧ a = c ∧ b = d) ∨ ∃ q, p = q + 1 ∧ Adjacent (b :: as) q c d := by
  rcases p with _ | _ | i <;> simp [Adjacent]

/-- A relation holds all along a list when it holds for any two elements side by side. -/
theorem neighbours_iff : Neighbours R as ↔ ∀ i a b, Adjacent as (i + 1) a b → R i a b := by
  constructor
  · rintro h i a b ⟨ha, hb⟩
    obtain ⟨hi, rfl⟩ := List.getElem?_eq_some_iff.mp hb
    obtain ⟨-, rfl⟩ := List.getElem?_eq_some_iff.mp ha
    exact h i hi
  · exact fun h i hi => h i _ _ (adjacent_getElem hi)

end

/-- The links hold along the whole list. -/
theorem verifyFrom_eq_ok_iff {position : Nat} {prev : Entry} {rest : List Entry} :
    Ledger.verifyFrom position prev rest = .ok () ↔
      Neighbours (fun _ prev e => prev.digest? = .ok e.prevHash) (prev :: rest) := by
  induction rest generalizing position prev with
  | nil => exact ⟨fun _ => neighbours_singleton, fun _ => rfl⟩
  | cons e rest ih =>
    rw [neighbours_cons_cons_iff, ← @ih (position + 1), Ledger.verifyFrom]
    split
    · next err herr => simp [herr]
    · next d hd =>
      rw [hd]
      split
      · next heq => simp [heq]
      · next hne => simp [hne]

/-- What is found along the whole list is found at one of its entries. -/
theorem mem_violationsAfter_iff {position : Nat} {prev : Entry} {rest : List Entry}
    {v : Violation} : v ∈ violationsAfter position prev rest ↔
      ∃ p a b, v.position = position + p ∧ Adjacent (prev :: rest) p a b ∧
        v.finding ∈ b.examineLater a v.position := by
  induction rest generalizing position prev with
  | nil =>
    constructor
    · intro h
      cases h
    · rintro ⟨p, a, b, -, hab, -⟩
      exact absurd hab not_adjacent_singleton
  | cons e rest ih =>
    rw [violationsAfter, List.mem_append, List.mem_map, ih]
    constructor
    · rintro (⟨f, hf, rfl⟩ | ⟨p, a, b, hp, hab, hf⟩)
      · exact ⟨1, prev, e, rfl, ⟨rfl, rfl⟩, hf⟩
      · exact ⟨p + 1, a, b, by omega, adjacent_cons_cons_iff.mpr (.inr ⟨p, rfl, hab⟩), hf⟩
    · rintro ⟨p, a, b, hp, hab, hf⟩
      rcases adjacent_cons_cons_iff.mp hab with ⟨rfl, rfl, rfl⟩ | ⟨q, rfl, hrest⟩
      · rw [hp] at hf
        exact .inl ⟨v.finding, hf, by rw [← hp]⟩
      · exact .inr ⟨q, a, b, by omega, hrest, hf⟩

theorem violationsAfter_append (position : Nat) (prev e : Entry) (before behind : List Entry) :
    violationsAfter position prev (before ++ e :: behind) =
      violationsAfter position prev before ++
        ((e.examineLater ((prev :: before).getLast (List.cons_ne_nil _ _))
            (position + (before.length + 1))).map (Violation.mk (position + (before.length + 1))) ++
          violationsAfter (position + (before.length + 1)) e behind) := by
  induction before generalizing position prev with
  | nil => rfl
  | cons f before ih =>
    rw [List.cons_append, violationsAfter, violationsAfter, ih, List.append_assoc,
      List.getLast_cons (List.cons_ne_nil _ _), List.length_cons,
      show position + 1 + (before.length + 1) = position + (before.length + 1 + 1) by omega]

/-- **The findings around an entry**: those before it, those about it, and those behind it. -/
theorem violationsOf_append {before : List Entry} (hne : before ≠ []) (e : Entry)
    (behind : List Entry) : violationsOf (before ++ e :: behind) =
      violationsOf before ++
        ((e.examineLater (before.getLast hne) before.length).map (Violation.mk before.length) ++
          violationsAfter before.length e behind) := by
  cases before with
  | nil => exact absurd rfl hne
  | cons first before =>
    rw [List.cons_append, violationsOf, violationsOf, violationsAfter_append, Nat.zero_add,
      List.append_assoc, List.length_cons]

namespace Ledger

/-! ### Sound ledgers -/

/-- A genesis entry stands at the beginning, and each later entry follows the one before it. -/
structure IsSound (l : Ledger) : Prop where
  first : l.first.IsFirst
  later : Neighbours (fun i prev e => e.Follows prev (i + 1)) l.entries

variable {l : Ledger}

theorem entries_eq_cons (l : Ledger) : l.entries = l.first :: l.entries.tail :=
  (List.cons_head_tail l.entries_ne).symm

/-! ### What is found in a sound ledger -/

/-- What an audit finds is found at the first entry or at a later one. -/
theorem mem_violations_iff {v : Violation} : v ∈ l.audit.violations ↔
    (v.position = 0 ∧ v.finding ∈ l.first.examineFirst) ∨
      ∃ prev e, Adjacent l.entries v.position prev e ∧
        v.finding ∈ e.examineLater prev v.position := by
  have hwalk : v ∈ violationsOf (l.first :: l.entries.tail) ↔
      (v.position = 0 ∧ v.finding ∈ l.first.examineFirst) ∨
        ∃ prev e, Adjacent (l.first :: l.entries.tail) v.position prev e ∧
          v.finding ∈ e.examineLater prev v.position := by
    rw [violationsOf, List.mem_append, List.mem_map, mem_violationsAfter_iff]
    refine or_congr ⟨?_, ?_⟩ ⟨?_, ?_⟩
    · rintro ⟨f, hf, rfl⟩
      exact ⟨rfl, hf⟩
    · rintro ⟨hposition, hf⟩
      exact ⟨v.finding, hf, by rw [← hposition]⟩
    · rintro ⟨p, prev, e, hp, hadjacent, hf⟩
      rw [Nat.zero_add] at hp
      exact ⟨prev, e, hp ▸ hadjacent, hf⟩
    · rintro ⟨prev, e, hadjacent, hf⟩
      exact ⟨v.position, prev, e, (Nat.zero_add _).symm, hadjacent, hf⟩
  simpa only [audit, ← entries_eq_cons] using hwalk

/-- **A check finds nothing exactly when all entries pass it.** -/
theorem forall_check_ne_iff {c : Check} : (∀ v ∈ l.audit.violations, v.finding.check ≠ c) ↔
    l.first.PassesFirst c ∧
      Neighbours (fun i prev e => e.Passes prev (i + 1) c) l.entries := by
  rw [neighbours_iff]
  constructor
  · intro h
    refine ⟨Entry.findingsFirst_eq_nil_iff.mp (List.eq_nil_iff_forall_not_mem.mpr fun f hf => ?_),
      fun i prev e hadjacent => Entry.findings_eq_nil_iff.mp
        (List.eq_nil_iff_forall_not_mem.mpr fun f hf => ?_)⟩
    · obtain rfl := Entry.check_of_mem_findingsFirst hf
      exact h ⟨0, f⟩ (mem_violations_iff.mpr (.inl ⟨rfl, Entry.mem_examineFirst_iff.mpr hf⟩)) rfl
    · obtain rfl := Entry.check_of_mem_findings hf
      exact h ⟨i + 1, f⟩ (mem_violations_iff.mpr
        (.inr ⟨prev, e, hadjacent, Entry.mem_examineLater_iff.mpr hf⟩)) rfl
  · rintro ⟨hfirst, hlater⟩ ⟨p, f⟩ hv rfl
    rcases mem_violations_iff.mp hv with ⟨-, hf⟩ | ⟨prev, e, hadjacent, hf⟩
    · rw [Entry.mem_examineFirst_iff, Entry.findingsFirst_eq_nil_iff.mpr hfirst] at hf
      cases hf
    · cases p with
      | zero => cases hadjacent
      | succ i =>
        rw [Entry.mem_examineLater_iff,
          Entry.findings_eq_nil_iff.mpr (hlater i prev e hadjacent)] at hf
        cases hf

theorem violations_eq_nil_iff : l.audit.violations = [] ↔ l.IsSound := by
  have hchecks : l.audit.violations = [] ↔
      ∀ c, ∀ v ∈ l.audit.violations, v.finding.check ≠ c := by
    rw [List.eq_nil_iff_forall_not_mem]
    exact ⟨fun h c v hv => absurd hv (h v), fun h v hv => h v.finding.check v hv rfl⟩
  simp only [hchecks, forall_check_ne_iff, forall_and, ← Entry.isFirst_iff]
  constructor
  · rintro ⟨hfirst, hlater⟩
    exact ⟨hfirst, fun i hi => Entry.follows_iff.mpr fun c => hlater c i hi⟩
  · rintro ⟨hfirst, hlater⟩
    exact ⟨hfirst, fun c i hi => Entry.follows_iff.mp (hlater i hi) c⟩

/-- **An audit finds nothing exactly in sound ledgers.** -/
theorem isValid_audit_iff : l.audit.isValid = true ↔ l.IsSound := by
  rw [AuditReport.isValid, List.isEmpty_iff, violations_eq_nil_iff]

/-- No test finds anything in a sound ledger. -/
theorem clearOf_audit (h : l.IsSound) (test : Finding → Bool) :
    l.audit.clearOf test = true := by
  rw [AuditReport.clearOf, violations_eq_nil_iff.mpr h]
  rfl

/-- **A sound ledger is verified.** -/
theorem verify_of_isSound (h : l.IsSound) : l.verify = .ok () := by
  rw [verify, verifyFrom_eq_ok_iff, ← entries_eq_cons]
  exact fun i hi => (h.later i hi).prevHash

/-! ### Records of a sound ledger -/

/-- The record of an entry of a sound ledger has a canonical form. -/
theorem exists_canonicalize_of_isSound (h : l.IsSound) {i : Nat} (hi : i < l.entries.length) :
    ∃ c, canonicalize l.entries[i].payload = .ok c := by
  cases i with
  | zero =>
    have hempty : l.first.payload = .emptyObject := Value.isEmptyObject_iff.mp h.first.payload
    rw [first, List.head_eq_getElem] at hempty
    rw [hempty]
    exact Canonical.exists_canonicalize_emptyObject
  | succ i =>
    obtain ⟨c, hc, -⟩ := Entry.payloadDigest?_eq_ok_iff.mp (h.later i hi).recordHash
    exact ⟨c, hc⟩

/-- The last entry of a sound ledger has a digest. -/
theorem exists_digest?_last (h : l.IsSound) : ∃ d, l.last.digest? = .ok d := by
  rw [Entry.exists_digest?_iff, last, List.getLast_eq_getElem]
  exact exists_canonicalize_of_isSound h _

/-! ### How a sound ledger stays sound -/

/-- A sound ledger stays sound when its clock is set. -/
theorem isSound_withClock (h : l.IsSound) (c : Clock) : (l.withClock c).IsSound :=
  ⟨h.first, h.later⟩

theorem first_push (l : Ledger) (e : Entry) : (l.push e).first = l.first :=
  List.head_append_of_ne_nil l.entries_ne

/-- **A sound ledger stays sound** when an entry that follows its last one is added. -/
theorem isSound_push (h : l.IsSound) {e : Entry}
    (he : e.Follows l.last l.entries.length) : (l.push e).IsSound := by
  have hpos : 0 < l.entries.length := List.length_pos_iff.mpr l.entries_ne
  constructor
  · rw [first_push]
    exact h.first
  · refine neighbours_concat h.later l.entries_ne ?_
    rwa [Nat.sub_add_cancel hpos]

end Ledger

end SealedLedger
