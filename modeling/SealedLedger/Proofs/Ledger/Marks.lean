import Mathlib.Data.List.Basic
import SealedLedger.Proofs.Ledger.Extension
import SealedLedger.Proofs.Ledger.StoredEntry

/-!
# Marks of genesis on appended records

The type `genesis` is kept for the first entry of a ledger, and a caller that makes a type from a
tag is refused it. It is refused nowhere else. A type is also read from stored text, where the
reserved one is allowed, and every entry gives its type away, the genesis entry too; and an append
takes any type that it is given. So the reserved type can be had at every ledger, and a record
appended with it stands behind the genesis entry with the mark of one.

An audit tells. Whatever is appended to a new ledger, and with whichever types, the links hold and
an audit finds one misplaced mark for each record of the reserved type, at its position, and nothing
else.

## Main definitions

* `RecordType.Obtained` — the types that can be had where a ledger is at hand
* `marks` — the findings about records of the reserved type
* `Growth.MarkedBy` — what a ledger has become by the records appended to it

## Main results

* `RecordType.obtained` — every type can be had, the reserved one too
* `Ledger.violations_append` — what one append adds to the findings
* `Growth.markedBy_step`, `Growth.markedBy_run` — what a step and a run add
* `Growth.marks_run_start` — what is found in a ledger that has grown from a new one
* `Growth.marked_genesis_appended` — an appended record that poses as a genesis entry
-/

namespace SealedLedger

/-! ### Types that can be had -/

namespace RecordType

theorem isGenesis_iff {t : RecordType} : t.isGenesis = true ↔ t = genesis := by
  rw [isGenesis, beq_iff_eq]
  constructor
  · intro h
    cases t
    simpa [genesis] using h
  · rintro rfl
    rfl

/-- The types that can be had where a ledger is at hand: the usual one, one made from a tag, one
read from a stored string, and that of an entry. -/
inductive Obtained (l : Ledger) : RecordType → Prop
  | observation : Obtained l .observation
  | custom {tag : String} {t : RecordType} (h : custom? tag = some t) : Obtained l t
  | stored {bytes : List UInt8} {t : RecordType}
      (h : Json.whole Entry.recordTypeReader bytes = .ok t) : Obtained l t
  | copied {e : Entry} (h : e ∈ l.entries) : Obtained l e.recordType

/-- A type is read from the string that it is stored as. -/
theorem whole_recordTypeReader (t : RecordType) :
    Json.whole Entry.recordTypeReader (Utf8.encode (Canonical.string t.tag)) = .ok t :=
  (Json.reads_spelled (Entry.stored?_tag t)).whole

/-- **Every type can be had**, the reserved one too. -/
theorem obtained (l : Ledger) (t : RecordType) : t.Obtained l :=
  .stored (whole_recordTypeReader t)

end RecordType

/-! ### What an append adds to the findings -/

/-- An entry that passes all other checks is found only for its mark. -/
theorem Entry.examineLater_of_passes {e prev : Entry} {position : Nat}
    (h : ∀ c, c ≠ .mark → e.Passes prev position c) :
    e.examineLater prev position = if e.isGenesis then [.misplacedGenesis] else [] := by
  have hnil : ∀ c, c ≠ .mark → e.findings prev position c = [] := fun c hc =>
    findings_eq_nil_iff.mpr (h c hc)
  calc e.examineLater prev position
      = e.findings prev position .index ++ e.findings prev position .mark ++
          e.findings prev position .link ++ e.findings prev position .record ++
          e.findings prev position .time := rfl
    _ = e.findings prev position .mark := by
        rw [hnil .index (by decide), hnil .link (by decide), hnil .record (by decide),
          hnil .time (by decide)]
        simp only [List.nil_append, List.append_nil]

/-- The findings about the records of the reserved type, the first record standing at a position. -/
def marks (position : Nat) (records : List (RecordType × Value)) : List Violation :=
  (records.findIdxs (fun r => r.1.isGenesis) position).map fun p => ⟨p, .misplacedGenesis⟩

theorem marks_append (position : Nat) (rs rs' : List (RecordType × Value)) :
    marks position (rs ++ rs') = marks position rs ++ marks (position + rs.length) rs' := by
  rw [marks, List.findIdxs_append, List.map_append]
  rfl

theorem marks_singleton (position : Nat) (r : RecordType × Value) :
    marks position [r] = if r.1.isGenesis then [⟨position, .misplacedGenesis⟩] else [] := by
  rw [marks, List.findIdxs_singleton]
  split <;> rfl

theorem mem_marks_iff {position p : Nat} {f : Finding} {rs : List (RecordType × Value)} :
    ⟨p, f⟩ ∈ marks position rs ↔
      f = .misplacedGenesis ∧ ∃ i v, p = position + i ∧ rs[i]? = some (.genesis, v) := by
  rw [marks, List.mem_map]
  constructor
  · rintro ⟨q, hq, heq⟩
    obtain ⟨rfl, rfl⟩ := Violation.mk.inj heq
    obtain ⟨hle, hlt, hmark⟩ := List.mem_findIdxs_iff_getElem_sub_pos.mp hq
    refine ⟨rfl, q - position, rs[q - position].2, (Nat.add_sub_cancel' hle).symm, ?_⟩
    rw [List.getElem?_eq_getElem hlt, ← RecordType.isGenesis_iff.mp hmark]
  · rintro ⟨rfl, i, v, rfl, hi⟩
    obtain ⟨hlt, hr⟩ := List.getElem?_eq_some_iff.mp hi
    refine ⟨position + i, List.mem_findIdxs_iff_getElem_sub_pos.mpr ⟨Nat.le_add_right _ _, ?_⟩, rfl⟩
    simp only [Nat.add_sub_cancel_left]
    exact ⟨hlt, by rw [hr]; rfl⟩

/-- Nothing is found where all types are ordinary. -/
theorem marks_eq_nil_iff {position : Nat} {rs : List (RecordType × Value)} :
    marks position rs = [] ↔ ∀ r ∈ rs, r.1.IsOrdinary := by
  rw [marks, List.map_eq_nil_iff, List.findIdxs_eq_nil_iff]
  simp only [RecordType.isOrdinary_iff]

namespace Ledger

variable {l l' : Ledger} {machine : Timestamp} {type : RecordType} {payload : Value} {id : Uuid}
  {e : Entry} {draws draws' : Draws}

/-- A new entry is found only for its mark, which is that of its type. -/
theorem examineLater_of_nextEntry (h : l.nextEntry machine type payload id = .ok e) :
    e.examineLater l.last l.size = if type.isGenesis then [.misplacedGenesis] else [] := by
  obtain ⟨_, _, hrecord, hprev, rfl⟩ := nextEntry_eq_ok_iff.mp h
  refine Entry.examineLater_of_passes fun c hc => ?_
  cases c with
  | index => rfl
  | genesis => trivial
  | mark => exact absurd rfl hc
  | link => exact hprev
  | record => exact hrecord
  | time => exact Timestamp.isBefore_latest _ _

/-- **An append adds a misplaced mark to the findings when its record has the reserved type**, and
nothing otherwise, whatever has been found before. -/
theorem violations_append (h : append machine type payload (l, draws) = .ok e (l', draws')) :
    l'.audit.violations = l.audit.violations ++ marks l.size [(type, payload)] := by
  obtain ⟨hnext, rfl, -⟩ := append_eq_ok_iff.mp h
  rw [violations_push, examineLater_of_nextEntry hnext, marks_singleton]
  split <;> rfl

/-- Nor does an append change what a verification finds. -/
theorem verify_append (h : append machine type payload (l, draws) = .ok e (l', draws')) :
    l'.verify = l.verify := by
  obtain ⟨hnext, rfl, -⟩ := append_eq_ok_iff.mp h
  obtain ⟨_, _, -, hprev, rfl⟩ := nextEntry_eq_ok_iff.mp hnext
  exact verify_push hprev

end Ledger

/-! ### Runs -/

namespace Growth

/-- What a ledger has become by records appended to it, of whichever types: it has an entry for
each of them, its links are as they were, and the findings are the old ones and those about records
of the reserved type. -/
structure MarkedBy (g g' : Growth) (rs : List (RecordType × Value)) : Prop where
  records : g'.records = g.records ++ rs
  entries : g'.ledger.entries.map (fun e => (e.recordType, e.payload))
    = g.ledger.entries.map (fun e => (e.recordType, e.payload)) ++ rs
  verify : g'.ledger.verify = g.ledger.verify
  violations : g'.ledger.audit.violations
    = g.ledger.audit.violations ++ marks g.ledger.size rs

variable {g g' g'' : Growth} {rs rs' : List (RecordType × Value)}

theorem MarkedBy.size (h : g.MarkedBy g' rs) : g'.ledger.size = g.ledger.size + rs.length := by
  simpa [Ledger.size] using congrArg List.length h.entries

theorem MarkedBy.refl (g : Growth) : g.MarkedBy g [] where
  records := (List.append_nil _).symm
  entries := (List.append_nil _).symm
  verify := rfl
  violations := (List.append_nil _).symm

theorem MarkedBy.trans (h : g.MarkedBy g' rs) (h' : g'.MarkedBy g'' rs') :
    g.MarkedBy g'' (rs ++ rs') where
  records := by rw [h'.records, h.records, List.append_assoc]
  entries := by rw [h'.entries, h.entries, List.append_assoc]
  verify := h'.verify.trans h.verify
  violations := by
    rw [h'.violations, h.violations, h.size, List.append_assoc, ← marks_append]

/-- **What a step adds.** -/
theorem markedBy_step (g : Growth) (s : Step) : ∃ rs, g.MarkedBy (g.step s) rs := by
  cases s with
  | setClock c =>
    refine ⟨[], (List.append_nil _).symm, (List.append_nil _).symm, rfl, ?_⟩
    exact (List.append_nil _).symm
  | append machine type payload =>
    rcases @step_append g machine type payload with ⟨e, he, hstep⟩ | ⟨err, -, hstep⟩
    · have happend := Ledger.append_eq_ok_iff.mpr ⟨he, rfl, rfl⟩
      rw [hstep]
      refine ⟨[(type, payload)], rfl, ?_, Ledger.verify_append happend,
        Ledger.violations_append happend⟩
      rw [Ledger.entries_push, List.map_append, List.map_singleton, Ledger.record_of_nextEntry he]
    · rw [hstep]
      exact ⟨[], .refl g⟩

/-- **What a run adds.** -/
theorem markedBy_run (g : Growth) (steps : List Step) : ∃ rs, g.MarkedBy (g.run steps) rs := by
  induction steps generalizing g with
  | nil => exact ⟨[], .refl g⟩
  | cons s steps ih =>
    obtain ⟨rs, hrs⟩ := g.markedBy_step s
    obtain ⟨rs', hrs'⟩ := ih (g.step s)
    exact ⟨rs ++ rs', hrs.trans hrs'⟩

/-- **A ledger that has grown from a new one has the marks of the types it was given.** Every type
can be had at it, and there is an entry for each record with a canonical form, whatever its type:
none is refused for its type. The ledger is verified nevertheless, and an audit finds the records of
the reserved type, each at its position, and nothing else. So it finds none when all types were
ordinary. -/
theorem marks_run_start (c : Clock) (machine : Timestamp) (draws : Draws) (steps : List Step) :
    let g := (start c machine draws).run steps
    let records := steps.filterMap Step.record?
    (∀ type : RecordType, type.Obtained g.ledger) ∧
    g.ledger.entries.map (fun e => (e.recordType, e.payload))
      = (.genesis, .emptyObject) :: records ∧
    g.ledger.verify = .ok () ∧
    g.ledger.audit.violations = marks 1 records ∧
    (∀ p f, ⟨p, f⟩ ∈ g.ledger.audit.violations ↔
      f = .misplacedGenesis ∧ ∃ i v, p = 1 + i ∧ records[i]? = some (.genesis, v)) ∧
    (g.ledger.audit.violations = [] ↔ ∀ r ∈ records, r.1.IsOrdinary) := by
  intro g records
  obtain ⟨rs, h⟩ := (start c machine draws).markedBy_run steps
  have hsound := (holds_start c machine draws).sound
  obtain rfl : records = rs :=
    (records_run (Ledger.exists_digest?_last hsound) steps).symm.trans h.records
  have hviolations : g.ledger.audit.violations = marks 1 records := by
    rw [h.violations, Ledger.violations_eq_nil_iff.mpr hsound]
    rfl
  refine ⟨RecordType.obtained g.ledger, h.entries,
    h.verify.trans (Ledger.verify_of_isSound hsound), hviolations, fun p f => ?_, ?_⟩
  · rw [hviolations, mem_marks_iff]
  · rw [hviolations, marks_eq_nil_iff]

/-- The reserved type is read from a stored string, and it is that of the genesis entry. A record
appended with it to a new ledger is taken, its entry is marked as a genesis entry, and an audit of
the ledger finds the mark misplaced. -/
theorem marked_genesis_appended :
    ∃ (g : Growth) (t : RecordType) (e : Entry) (l : Ledger) (draws : Draws),
      start .system .epoch ⟨fun _ => 0, 0⟩ = g ∧
      Json.whole Entry.recordTypeReader (Utf8.encode ['"', 'g', 'e', 'n', 'e', 's', 'i', 's', '"'])
        = .ok t ∧
      g.ledger.first.recordType = t ∧
      Ledger.append .epoch t .null (g.ledger, g.draws) = .ok e (l, draws) ∧
      e.isGenesis = true ∧ l.verify = .ok () ∧ l.audit.violations = [⟨1, .misplacedGenesis⟩] := by
  have hsound := (holds_start .system .epoch ⟨fun _ => 0, 0⟩).sound
  obtain ⟨e, he⟩ := (@Ledger.exists_nextEntry_iff _ .epoch .genesis .null
    (Draws.next ⟨fun _ => 0, 1⟩).1 (Ledger.exists_digest?_last hsound)).mpr ⟨_, rfl⟩
  have happend := Ledger.append_eq_ok_iff.mpr ⟨he, rfl, rfl⟩
  refine ⟨_, .genesis, e, _, _, rfl, RecordType.whole_recordTypeReader .genesis, rfl, happend,
    ?_, ?_, ?_⟩
  · have htype : e.recordType = .genesis := congrArg Prod.fst (Ledger.record_of_nextEntry he)
    rw [Entry.isGenesis, htype]
    rfl
  · rw [Ledger.verify_append happend, Ledger.verify_of_isSound hsound]
  · rw [Ledger.violations_append happend, Ledger.violations_eq_nil_iff.mpr hsound]
    rfl

end Growth

end SealedLedger
