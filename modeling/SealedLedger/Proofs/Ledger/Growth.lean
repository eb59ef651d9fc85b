import Mathlib.Data.List.Basic
import Mathlib.Tactic.FinCases
import SealedLedger.Proofs.Ledger.Chain
import SealedLedger.Proofs.Ledger.Entry

/-!
# How a ledger grows

A ledger is created with a genesis entry, and from then on two things may be done to it: a record
is appended, or the clock is set. A clock may show any time, an earlier one too, and a record may be
refused. Whatever is done, and however often, the ledger stays sound: each new entry is made to
follow the last one, and an entry that is refused leaves the ledger as it was.

What a record is refused for is only itself. The entries of a sound ledger all have digests, so a
record is accepted exactly when it has a canonical form.

## Main definitions

* `RecordType.IsOrdinary` — the types that a record to be appended can have
* `Ledger.nextEntry` — the entry that an append pushes
* `Step`, `Growth` — what is done to a ledger, and a ledger with the records appended so far
* `Growth.Holds` — the invariant: sound, and made of the records appended

## Main results

* `Ledger.nextEntry_eq_ok_iff`, `Ledger.nextEntry_eq_error_iff` — when there is a new entry
* `Ledger.append_eq` — an append pushes it, or changes nothing
* `Ledger.follows_of_nextEntry` — a new entry follows the last one
* `Growth.holds_step`, `Growth.holds_run` — the invariant is kept by a step and by a run
* `Growth.records_run` — the records appended are those that have a canonical form
* `Growth.run_start` — what every run from a new ledger reaches
-/

namespace SealedLedger

/-! ### Types of records -/

namespace RecordType

/-- The type is the usual one, or made from a tag. -/
def IsOrdinary (t : RecordType) : Prop :=
  t = observation ∨ ∃ tag, custom? tag = some t

/-- The ordinary types are those that do not mark a genesis entry. -/
theorem isOrdinary_iff {t : RecordType} : t.IsOrdinary ↔ t.isGenesis = false := by
  constructor
  · rintro (rfl | ⟨tag, htag⟩)
    · decide
    · exact isGenesis_of_custom? htag
  · intro h
    have htag : t.tag ≠ genesis.tag := by simpa [isGenesis] using h
    exact .inr ⟨t.tag, dif_pos ⟨t.tag_ne, htag⟩⟩

end RecordType

/-! ### New entries -/

namespace Ledger

variable {l l' : Ledger} {machine : Timestamp} {type : RecordType} {payload : Value} {id : Uuid}
  {e : Entry} {err : CanonicalError} {draws draws' : Draws}

/-- The entry that an append pushes under a given identifier. -/
def nextEntry (l : Ledger) (machine : Timestamp) (type : RecordType) (payload : Value) (id : Uuid) :
    Except CanonicalError Entry :=
  match Digest.ofValue? payload with
  | .error e => .error e
  | .ok recordHash =>
    match l.last.digest? with
    | .error e => .error e
    | .ok prevHash => .ok (l.entryAfter machine type payload prevHash recordHash id)

/-- The new entry is made of the digests of its record and of the last entry. -/
theorem nextEntry_eq_ok_iff : l.nextEntry machine type payload id = .ok e ↔
    ∃ recordHash prevHash, Digest.ofValue? payload = .ok recordHash ∧
      l.last.digest? = .ok prevHash ∧
      e = l.entryAfter machine type payload prevHash recordHash id := by
  rw [nextEntry]
  constructor
  · intro h
    split at h
    · cases h
    · next recordHash hrecord =>
      split at h
      · cases h
      · next prevHash hprev =>
        exact ⟨recordHash, prevHash, hrecord, hprev, (Except.ok.inj h).symm⟩
  · rintro ⟨recordHash, prevHash, hrecord, hprev, rfl⟩
    rw [hrecord, hprev]

/-- There is no new entry when its record has no digest or, if it has one, when the last entry has
none. The record is asked first. -/
theorem nextEntry_eq_error_iff : l.nextEntry machine type payload id = .error err ↔
    Digest.ofValue? payload = .error err ∨
      (∃ d, Digest.ofValue? payload = .ok d) ∧ l.last.digest? = .error err := by
  rw [nextEntry]
  cases Digest.ofValue? payload with
  | error err => simp
  | ok recordHash => cases l.last.digest? <;> simp

/-- The new entry holds the record it was made for. -/
theorem record_of_nextEntry (h : l.nextEntry machine type payload id = .ok e) :
    (e.recordType, e.payload) = (type, payload) := by
  obtain ⟨_, _, -, -, rfl⟩ := nextEntry_eq_ok_iff.mp h
  rfl

/-- **A new entry follows the last one**, whatever the clock shows. -/
theorem follows_of_nextEntry (h : l.nextEntry machine type payload id = .ok e)
    (htype : type.isGenesis = false) : e.Follows l.last l.size := by
  obtain ⟨_, _, hrecord, hprev, rfl⟩ := nextEntry_eq_ok_iff.mp h
  exact ⟨rfl, hprev, hrecord, htype, Timestamp.isBefore_latest _ _⟩

/-- A new entry has a digest, since its record has one. -/
theorem exists_digest?_of_nextEntry (h : l.nextEntry machine type payload id = .ok e) :
    ∃ d, e.digest? = .ok d := by
  obtain ⟨_, _, hrecord, -, rfl⟩ := nextEntry_eq_ok_iff.mp h
  obtain ⟨c, hc, -⟩ := Digest.ofValue?_eq_ok_iff.mp hrecord
  exact Entry.exists_digest?_iff.mpr ⟨c, hc⟩

/-- A record has a new entry exactly when it has a canonical form, provided that the last entry has
a digest. -/
theorem exists_nextEntry_iff (hlast : ∃ d, l.last.digest? = .ok d) :
    (∃ e, l.nextEntry machine type payload id = .ok e) ↔ ∃ c, canonicalize payload = .ok c := by
  obtain ⟨d, hd⟩ := hlast
  constructor
  · rintro ⟨e, he⟩
    obtain ⟨_, _, hrecord, -, -⟩ := nextEntry_eq_ok_iff.mp he
    obtain ⟨c, hc, -⟩ := Digest.ofValue?_eq_ok_iff.mp hrecord
    exact ⟨c, hc⟩
  · rintro ⟨c, hc⟩
    have hrecord := Digest.ofValue?_eq_ok_iff.mpr ⟨c, hc, rfl⟩
    exact ⟨_, nextEntry_eq_ok_iff.mpr ⟨_, _, hrecord, hd, rfl⟩⟩

/-- **What an append does**: it draws an identifier and pushes the new entry, or it finds that there
is none and changes nothing. -/
theorem append_eq (l : Ledger) (machine : Timestamp) (type : RecordType) (payload : Value)
    (draws : Draws) : append machine type payload (l, draws) =
      match l.nextEntry machine type payload draws.next.1 with
      | .ok e => .ok e (l.push e, draws.next.2)
      | .error err => .error err (l, draws) := by
  rw [nextEntry, append]
  change (MonadExcept.ofExcept (Digest.ofValue? payload) >>= fun recordHash =>
    MonadExcept.ofExcept l.last.digest? >>= fun prevHash => _ :
      EStateM CanonicalError (Ledger × Draws) Entry) (l, draws) = _
  cases Digest.ofValue? payload with
  | error err => rfl
  | ok recordHash => cases l.last.digest? <;> rfl

/-- An append pushes the new entry. -/
theorem append_eq_ok_iff :
    append machine type payload (l, draws) = .ok e (l', draws') ↔
      l.nextEntry machine type payload draws.next.1 = .ok e ∧ l' = l.push e ∧
        draws' = draws.next.2 := by
  rw [append_eq]
  cases l.nextEntry machine type payload draws.next.1 with
  | error err => simp
  | ok e' =>
    constructor
    · intro h
      obtain ⟨rfl, hstate⟩ := EStateM.Result.ok.inj h
      obtain ⟨rfl, rfl⟩ := Prod.mk.inj hstate
      exact ⟨rfl, rfl, rfl⟩
    · rintro ⟨h, rfl, rfl⟩
      rw [Except.ok.inj h]

/-- An append is refused when there is no new entry, and nothing has changed then. -/
theorem append_eq_error_iff {s : Ledger × Draws} :
    append machine type payload (l, draws) = .error err s ↔
      l.nextEntry machine type payload draws.next.1 = .error err ∧ s = (l, draws) := by
  rw [append_eq]
  cases l.nextEntry machine type payload draws.next.1 with
  | error err' => simp [eq_comm]
  | ok e => simp

end Ledger

/-! ### Steps -/

/-- What is kept of a list begins with what is kept of its head. -/
theorem filterMap_cons_toList {α β : Type} (f : α → Option β) (a : α) (as : List α) :
    (a :: as).filterMap f = (f a).toList ++ as.filterMap f := by
  rw [List.filterMap_eq_flatMap_toList, List.flatMap_cons, ← List.filterMap_eq_flatMap_toList]

/-- What is done to a ledger: a record is appended at a time of the machine, or the clock is set. -/
inductive Step where
  | append (machine : Timestamp) (type : RecordType) (payload : Value)
  | setClock (c : Clock)

/-- A record to be appended has an ordinary type. -/
def Step.IsOrdinary : Step → Prop
  | .append _ type _ => type.IsOrdinary
  | .setClock _ => True

/-- The record of a step, none when it has no canonical form or when there is none. -/
def Step.record? : Step → Option (RecordType × Value)
  | .append _ type payload =>
    match canonicalize payload with
    | .ok _ => some (type, payload)
    | .error _ => none
  | .setClock _ => none

/-- A ledger with its supply of identifiers and the records appended to it so far. -/
structure Growth where
  ledger : Ledger
  draws : Draws
  records : List (RecordType × Value)

namespace Growth

/-- A new ledger. -/
def start (c : Clock) (machine : Timestamp) (draws : Draws) : Growth :=
  let (l, draws) := Ledger.create c machine draws
  ⟨l, draws, []⟩

/-- A step taken. A record that is refused leaves everything as it was. -/
def step (g : Growth) : Step → Growth
  | .append machine type payload =>
    match Ledger.append machine type payload (g.ledger, g.draws) with
    | .ok _ (l, draws) => ⟨l, draws, g.records ++ [(type, payload)]⟩
    | .error _ (l, draws) => ⟨l, draws, g.records⟩
  | .setClock c => ⟨g.ledger.withClock c, g.draws, g.records⟩

/-- Steps taken one after the other. -/
def run (g : Growth) (steps : List Step) : Growth :=
  steps.foldl step g

theorem run_append (g : Growth) (steps steps' : List Step) :
    g.run (steps ++ steps') = (g.run steps).run steps' :=
  List.foldl_append

variable {g : Growth} {genesis : Entry}

/-! ### What is kept -/

/-- The ledger is sound, and behind its genesis entry it is made of the records appended. -/
structure Holds (g : Growth) (genesis : Entry) : Prop where
  sound : g.ledger.IsSound
  first : g.ledger.first = genesis
  records : g.ledger.entries.tail.map (fun e => (e.recordType, e.payload)) = g.records

theorem holds_start (c : Clock) (machine : Timestamp) (draws : Draws) :
    (start c machine draws).Holds (.genesis draws.next.1 (c.now machine)) :=
  ⟨⟨Entry.isFirst_genesis _ _, neighbours_singleton⟩, rfl, rfl⟩

/-- An append succeeds when there is a new entry, which is then pushed. -/
theorem step_append {machine : Timestamp} {type : RecordType} {payload : Value} :
    (∃ e, g.ledger.nextEntry machine type payload g.draws.next.1 = .ok e ∧
        g.step (.append machine type payload)
          = ⟨g.ledger.push e, g.draws.next.2, g.records ++ [(type, payload)]⟩) ∨
      (∃ err, g.ledger.nextEntry machine type payload g.draws.next.1 = .error err ∧
        g.step (.append machine type payload) = g) := by
  cases hnext : g.ledger.nextEntry machine type payload g.draws.next.1 with
  | ok e =>
    refine .inl ⟨e, rfl, ?_⟩
    simp only [step, Ledger.append_eq, hnext]
  | error err =>
    refine .inr ⟨err, rfl, ?_⟩
    simp only [step, Ledger.append_eq, hnext]

/-- **What is kept by a step.** -/
theorem holds_step (h : g.Holds genesis) {s : Step} (hs : s.IsOrdinary) :
    (g.step s).Holds genesis := by
  cases s with
  | setClock c => exact ⟨Ledger.isSound_withClock h.sound c, h.first, h.records⟩
  | append machine type payload =>
    rcases @step_append g machine type payload with ⟨e, he, hstep⟩ | ⟨err, -, hstep⟩
    · have hfollows := Ledger.follows_of_nextEntry he (RecordType.isOrdinary_iff.mp hs)
      have hrecord := Ledger.record_of_nextEntry he
      rw [hstep]
      refine ⟨Ledger.isSound_push h.sound hfollows, ?_, ?_⟩
      · dsimp only
        rw [Ledger.first_push, h.first]
      · dsimp only
        rw [Ledger.entries_push, List.tail_append_of_ne_nil g.ledger.entries_ne, List.map_append,
          h.records, List.map_singleton, hrecord]
    · rw [hstep]
      exact h

/-- **What is kept by a run.** -/
theorem holds_run (h : g.Holds genesis) {steps : List Step} (hsteps : ∀ s ∈ steps, s.IsOrdinary) :
    (g.run steps).Holds genesis := by
  induction steps generalizing g with
  | nil => exact h
  | cons s steps ih =>
    obtain ⟨hs, hrest⟩ := List.forall_mem_cons.mp hsteps
    exact ih (holds_step h hs) hrest

/-! ### Which records are appended -/

/-- A step appends its record when that has a canonical form, provided that the last entry has a
digest. -/
theorem records_step (hlast : ∃ d, g.ledger.last.digest? = .ok d) (s : Step) :
    (g.step s).records = g.records ++ s.record?.toList := by
  cases s with
  | setClock c => exact (List.append_nil _).symm
  | append machine type payload =>
    have hiff := @Ledger.exists_nextEntry_iff g.ledger machine type payload g.draws.next.1 hlast
    rcases @step_append g machine type payload with ⟨e, he, hstep⟩ | ⟨err, he, hstep⟩
    · obtain ⟨c, hc⟩ := hiff.mp ⟨e, he⟩
      rw [hstep, Step.record?, hc]
      rfl
    · cases hc : canonicalize payload with
      | ok c =>
        obtain ⟨e, he'⟩ := hiff.mpr ⟨c, hc⟩
        rw [he] at he'
        cases he'
      | error err =>
        rw [hstep, Step.record?, hc]
        exact (List.append_nil _).symm

/-- The last entry has a digest again after a step. -/
theorem exists_digest?_last_step (hlast : ∃ d, g.ledger.last.digest? = .ok d) (s : Step) :
    ∃ d, (g.step s).ledger.last.digest? = .ok d := by
  cases s with
  | setClock c => exact hlast
  | append machine type payload =>
    rcases @step_append g machine type payload with ⟨e, he, hstep⟩ | ⟨err, -, hstep⟩
    · rw [hstep, Ledger.last_push]
      exact Ledger.exists_digest?_of_nextEntry he
    · rw [hstep]
      exact hlast

/-- **The records appended by a run are those of its steps that have a canonical form**, in their
order and whatever their types. -/
theorem records_run (hlast : ∃ d, g.ledger.last.digest? = .ok d) (steps : List Step) :
    (g.run steps).records = g.records ++ steps.filterMap Step.record? := by
  induction steps generalizing g with
  | nil => exact (List.append_nil _).symm
  | cons s steps ih =>
    have hrecords := ih (exists_digest?_last_step hlast s)
    rw [records_step hlast] at hrecords
    rw [show g.run (s :: steps) = (g.step s).run steps from rfl, hrecords, List.append_assoc,
      filterMap_cons_toList]

/-! ### Runs from the beginning -/

/-- **Every run from a new ledger reaches a sound one**, whatever its clocks show and whichever of
its records are refused: behind the genesis entry there is one entry for each record appended, in
their order, each following the one before it. So the ledger is verified, and an audit finds
nothing. -/
theorem run_start {c : Clock} {machine : Timestamp} {draws : Draws} {steps : List Step}
    (hsteps : ∀ s ∈ steps, s.IsOrdinary) {g : Growth} (hg : (start c machine draws).run steps = g) :
    g.ledger.entries.length = 1 + g.records.length ∧
    g.ledger.first = .genesis draws.next.1 (c.now machine) ∧
    (∀ i (hi : i + 1 < g.ledger.entries.length) (hr : i < g.records.length),
      (g.ledger.entries[i + 1].recordType, g.ledger.entries[i + 1].payload) = g.records[i] ∧
      g.ledger.entries[i + 1].Follows g.ledger.entries[i] (i + 1)) ∧
    g.ledger.verify = .ok () ∧
    g.ledger.audit.violations = [] ∧
    g.ledger.audit.isValid = true ∧
    g.ledger.audit.hashChainValid = true ∧
    g.ledger.audit.recordHashesValid = true ∧
    g.ledger.audit.indicesContiguous = true ∧
    g.ledger.audit.timestampsMonotonic = true := by
  have h : g.Holds (.genesis draws.next.1 (c.now machine)) := by
    rw [← hg]
    exact holds_run (holds_start c machine draws) hsteps
  have hlength : g.ledger.entries.length = 1 + g.records.length := by
    rw [← h.records, List.length_map, Ledger.entries_eq_cons, List.length_cons, List.tail_cons,
      Nat.add_comm]
  have hclear := Ledger.clearOf_audit h.sound
  refine ⟨hlength, h.first, fun i hi hr => ⟨?_, h.sound.later i hi⟩,
    Ledger.verify_of_isSound h.sound, Ledger.violations_eq_nil_iff.mpr h.sound,
    Ledger.isValid_audit_iff.mpr h.sound, hclear _, hclear _, hclear _, hclear _⟩
  have hrecord := List.getElem_of_eq h.records.symm hr
  rw [hrecord, List.getElem_map, List.getElem_tail]

/-- A clock that is set back, and a record that is refused between two that are appended. -/
theorem run_start_clock_set_back :
    ∃ g : Growth, (start (.fixed ⟨60, false, by decide, by decide⟩) .epoch ⟨fun _ => 0, 0⟩).run
        [.append .epoch .observation (.string "a"), .setClock .system,
          .append .epoch ⟨"note", by decide⟩ (.number (.float .nan)),
          .append .epoch ⟨"note", by decide⟩ .null] = g ∧
      g.records = [(.observation, .string "a"), (⟨"note", by decide⟩, .null)] ∧
      g.ledger.entries.length = 3 ∧ g.ledger.verify = .ok () ∧ g.ledger.audit.isValid = true := by
  have hsteps : ∀ s ∈ [Step.append .epoch .observation (.string "a"), .setClock .system,
      .append .epoch ⟨"note", by decide⟩ (.number (.float .nan)),
      .append .epoch ⟨"note", by decide⟩ .null], s.IsOrdinary := by
    intro s hs
    fin_cases hs
    · exact .inl rfl
    · exact trivial
    · exact .inr ⟨"note", by decide⟩
    · exact .inr ⟨"note", by decide⟩
  refine ⟨_, rfl, ?_⟩
  obtain ⟨hlength, -, -, hverify, -, hvalid, -⟩ := run_start hsteps rfl
  have hlast := Ledger.exists_digest?_last (holds_start (.fixed ⟨60, false, by decide, by decide⟩)
    .epoch ⟨fun _ => 0, 0⟩).sound
  refine ⟨?_, ?_, hverify, hvalid⟩
  · rw [records_run hlast]
    rfl
  · rw [hlength, records_run hlast]
    rfl

end Growth

end SealedLedger
