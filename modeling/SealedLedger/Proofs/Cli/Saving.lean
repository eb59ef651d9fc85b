import SealedLedger.Cli.Ledger
import SealedLedger.Proofs.Canonical.Stability
import SealedLedger.Proofs.Cli.Files
import SealedLedger.Proofs.Ledger.Accepted
import SealedLedger.Proofs.Ledger.Growth
import SealedLedger.Proofs.Ledger.Stored

/-!
# Ledgers in files

A command that starts or extends a ledger writes it as its last act, so that its success says that
the file was written and nothing about reading it. What each command does up to that point is said
once, and what can be opened again follows from the ledger that was written: the record that was
just added is the only one that may nest too deep. The reader of documents follows two containers
more than the reader of a ledger leaves to a record, and between these limits a command succeeds and
its file is lost.

## Main definitions

* `Cli.Holds` — a file holds the text of a ledger
* `Cli.Reads` — what an append reads before it does anything
* `Cli.IsBase`, `Cli.Extended` — the ledger that a command extends, and what it does to it
* `Cli.Wrote` — a command that reported success has written a record

## Main results

* `Cli.Holds.loadLedger_eq` — what is loaded from a file that holds a ledger's text
* `Cli.append_cases` — how an append ends
* `Cli.exists_extended_of_simulate`, `Cli.exists_extended_of_append` — what the commands do
* `Cli.exists_simulate` — when a simulation reports success
* `Cli.exists_loadLedger_iff_of_wrote` — when the file of a command can be opened
* `Cli.not_loadLedger_after_simulate` — a file that cannot
-/

namespace SealedLedger

namespace Session

@[simp] theorem files_print (s : Session) (line : String) : (s.print line).files = s.files := rfl

@[simp] theorem draws_print (s : Session) (line : String) : (s.print line).draws = s.draws := rfl

end Session

namespace Cli

variable {env : Environment} {s s' : Session} {fs fs' : Files} {path tag : String} {l l' : Ledger}
  {v : Value} {code : Nat}

/-! ### Saving and loading -/

theorem saveLedger_eq_ok_iff :
    saveLedger fs path l = .ok fs' ↔
      ∃ t, l.json? = .ok t ∧ fs.write? path (Utf8.encode t) = .ok fs' := by
  rw [saveLedger]
  constructor
  · intro h
    split at h
    · cases h
    · next t ht =>
      refine ⟨t, ht, ?_⟩
      cases hwrite : fs.write? path (Utf8.encode t) with
      | error err =>
        rw [hwrite] at h
        cases h
      | ok files =>
        rw [hwrite] at h
        rw [Except.ok.inj h]
  · rintro ⟨t, ht, hwrite⟩
    simp only [ht, hwrite]
    rfl

theorem loadLedger_eq_ok_iff :
    loadLedger fs path = .ok l ↔
      ∃ t, fs.readText? path = .ok t ∧ Ledger.ofJson? (Utf8.encode t) .system = .ok l := by
  rw [loadLedger]
  constructor
  · intro h
    split at h
    · cases h
    · next t ht =>
      split at h
      · cases h
      · next l' hl =>
        rw [← Except.ok.inj h]
        exact ⟨t, ht, hl⟩
  · rintro ⟨t, ht, hl⟩
    simp only [ht, hl]

/-- The file holds the text of the ledger. -/
def Holds (path : String) (fs : Files) (l : Ledger) : Prop :=
  ∃ t, l.json? = .ok t ∧ fs.readText? path = .ok t

/-- A file that a ledger was saved to holds its text. -/
theorem holds_of_saveLedger (h : saveLedger fs path l = .ok fs') : Holds path fs' l := by
  obtain ⟨t, ht, hwrite⟩ := saveLedger_eq_ok_iff.mp h
  exact ⟨t, ht, Files.readText?_of_write? hwrite⟩

theorem Holds.congr (h : Holds path fs l) (hfile : fs'.read? path = fs.read? path) :
    Holds path fs' l := by
  rwa [Holds, Files.readText?_congr hfile]

/-- **The text of a ledger is loaded**, with its numbers read again, when its records have canonical
texts and none nests too deep. -/
theorem Holds.loadLedger_eq (h : Holds path fs l)
    (hrecords : ∀ e ∈ l.entries, ∃ c, canonicalize e.payload = .ok c)
    (hdepth : ∀ e ∈ l.entries, e.payload.NestsWithin 125) :
    loadLedger fs path = .ok ((l.withNumbers Number.stored).withClock .system) := by
  obtain ⟨t, ht, htext⟩ := h
  exact loadLedger_eq_ok_iff.mpr ⟨t, htext, Ledger.ofJson?_json? ht
    (fun e he => Value.hasDistinctKeys_of_canonicalize (hrecords e he)) hdepth _⟩

/-- What is loaded nests nowhere too deep, and is the ledger with its numbers read again. -/
theorem Holds.of_loadLedger (h : Holds path fs l)
    (hrecords : ∀ e ∈ l.entries, ∃ c, canonicalize e.payload = .ok c)
    (hload : loadLedger fs path = .ok l') :
    (∀ e ∈ l.entries, e.payload.NestsWithin 125) ∧
      l' = (l.withNumbers Number.stored).withClock .system := by
  obtain ⟨t, ht, htext⟩ := h
  obtain ⟨u, hu, hl⟩ := loadLedger_eq_ok_iff.mp hload
  obtain rfl : t = u := Except.ok.inj (htext.symm.trans hu)
  have hdepth := (Ledger.exists_ofJson?_iff ht
    (fun e he => Value.hasDistinctKeys_of_canonicalize (hrecords e he)) _).mp ⟨l', hl⟩
  have heq := Holds.loadLedger_eq ⟨t, ht, htext⟩ hrecords hdepth
  exact ⟨hdepth, Except.ok.inj (hload.symm.trans heq)⟩

/-! ### What a command does before it writes -/

theorem recordType?_eq_ok_iff {type : RecordType} :
    recordType? tag = .ok type ↔ RecordType.custom? tag = some type := by
  rw [recordType?]
  cases RecordType.custom? tag with
  | none => exact ⟨fun h => (by cases h), fun h => by cases h⟩
  | some t => exact ⟨fun h => congrArg some (Except.ok.inj h), fun h => by rw [Option.some.inj h]⟩

/-- The ledger that a command extends: a new one, or the one in its file when the chain of that
holds. -/
inductive IsBase (fs : Files) (path : String) : Ledger → Prop
  | new (c : Clock) (machine : Timestamp) (draws : Draws) :
      IsBase fs path (Ledger.create c machine draws).1
  | loaded {l : Ledger} (c : Clock) (hload : loadLedger fs path = .ok l)
      (hverify : l.verify = .ok ()) : IsBase fs path (l.withClock c)

/-- A ledger has been extended by an entry and written to a file. -/
structure Extended (fs fs' : Files) (path : String) (base : Ledger) (e : Entry) : Prop where
  isBase : IsBase fs path base
  follows : e.Follows base.last base.size
  saved : saveLedger fs path (base.push e) = .ok fs'

/-- **What a simulation does** that reaches its end. -/
theorem exists_extended_of_simulate {payload : Option String}
    (h : simulate env s payload tag (some path) = (.exit code, s')) :
    ∃ v draws c e, startingPayload s payload = .ok (v, draws) ∧ e.payload = v ∧
      Extended s.files s'.files path (Ledger.create c env.machine draws).1 e ∧
      code = (verification ((Ledger.create c env.machine draws).1.push e)).2 := by
  rw [simulate] at h
  split at h
  · cases h
  next type htype =>
  split at h
  · cases h
  next v draws hpayload =>
  dsimp only at h
  split at h
  · cases h
  next c hclock =>
  split at h
  · cases h
  next e l draws' happend =>
  obtain ⟨hnext, rfl, rfl⟩ := Ledger.append_eq_ok_iff.mp happend
  -- the ledger has been extended, and only the writing is left
  rw [finishSimulation] at h
  dsimp only at h
  split at h
  · cases h
  next files hsave =>
  obtain ⟨hcode, hs⟩ := Prod.mk.inj h
  refine ⟨v, draws, c, e, hpayload, (Prod.mk.inj (Ledger.record_of_nextEntry hnext)).2,
    ⟨.new _ _ _, ?_, ?_⟩, (Outcome.exit.inj hcode).symm⟩
  · exact Ledger.follows_of_nextEntry hnext
      (RecordType.isGenesis_of_custom? (recordType?_eq_ok_iff.mp htype))
  · rw [← hs]
    exact hsave

/-- What an append reads before it does anything: the type, the record and the ledger. -/
structure Reads (s : Session) (path payload tag : String) (type : RecordType) (v : Value)
    (l : Ledger) : Prop where
  type : RecordType.custom? tag = some type
  record : loadDocument s.files payload = .ok v
  ledger : loadLedger s.files path = .ok l

/-- An append that cannot read what it needs fails and leaves everything as it was. -/
theorem exists_reads_or_failure (env : Environment) (s : Session) (path payload tag : String) :
    (∃ type v l, Reads s path payload tag type v l) ∨
      ∃ message, append env s path payload tag = (.failure message, s) := by
  rw [append]
  split
  · exact .inr ⟨_, rfl⟩
  next type htype =>
  split
  · exact .inr ⟨_, rfl⟩
  next v hrecord =>
  split
  · exact .inr ⟨_, rfl⟩
  next l hload =>
  exact .inl ⟨type, v, l, recordType?_eq_ok_iff.mp htype, hrecord, hload⟩

namespace Reads

variable {payload : String} {type : RecordType} {e : ChainError}

/-- A ledger whose chain is broken is not extended. -/
theorem append_of_broken (h : Reads s path payload tag type v l) (hverify : l.verify = .error e) :
    append env s path payload tag = (.exit 1, s.print (because ("FAIL: " ++ path) e.message)) := by
  simp only [append, recordType?_eq_ok_iff.mpr h.type, h.record, h.ledger, hverify]

/-- A ledger whose chain holds is. -/
theorem append_of_verify (h : Reads s path payload tag type v l) (hverify : l.verify = .ok ()) :
    append env s path payload tag = extend env s path l type v := by
  simp only [append, recordType?_eq_ok_iff.mpr h.type, h.record, h.ledger, hverify]

end Reads

/-- A ledger that is to be extended is saved as the last act, or the command fails and no file has
been written. -/
theorem extend_cases (env : Environment) (s : Session) (path : String) (l : Ledger)
    (type : RecordType) (v : Value) :
    (∃ message s', extend env s path l type v = (.failure message, s') ∧ s'.files = s.files) ∨
      ∃ c e s', extend env s path l type v = (.exit 0, s') ∧ env.clock? = .ok c ∧
        (l.withClock c).nextEntry env.machine type v s.draws.next.1 = .ok e ∧
        saveLedger s.files path ((l.withClock c).push e) = .ok s'.files := by
  rw [extend]
  split
  · exact .inl ⟨_, s, rfl, rfl⟩
  next c hclock =>
  split
  · exact .inl ⟨_, _, rfl, rfl⟩
  next e l' draws' happend =>
  obtain ⟨hnext, rfl, rfl⟩ := Ledger.append_eq_ok_iff.mp happend
  dsimp only
  split
  · exact .inl ⟨_, _, rfl, rfl⟩
  next fs' hsave =>
  exact .inr ⟨c, e, _, rfl, hclock, hnext, hsave⟩

/-- **How an append ends**: it fails, it finds the chain broken, or it extends the ledger. Only then
is a file written. -/
theorem append_cases (env : Environment) (s : Session) (path payload tag : String) :
    (∃ message s', append env s path payload tag = (.failure message, s') ∧ s'.files = s.files) ∨
      (∃ type v l err, Reads s path payload tag type v l ∧ l.verify = .error err ∧
        append env s path payload tag
          = (.exit 1, s.print (because ("FAIL: " ++ path) err.message))) ∨
      ∃ type v l c e s', Reads s path payload tag type v l ∧ l.verify = .ok () ∧
        append env s path payload tag = (.exit 0, s') ∧ env.clock? = .ok c ∧
        (l.withClock c).nextEntry env.machine type v s.draws.next.1 = .ok e ∧
        saveLedger s.files path ((l.withClock c).push e) = .ok s'.files := by
  rcases exists_reads_or_failure env s path payload tag with
    ⟨type, v, l, hreads⟩ | ⟨message, hfailure⟩
  · cases hverify : l.verify with
    | error err =>
      exact .inr (.inl ⟨type, v, l, err, hreads, hverify, hreads.append_of_broken hverify⟩)
    | ok =>
      rw [hreads.append_of_verify hverify]
      rcases extend_cases env s path l type v with hfailure | ⟨c, e, s', hextend⟩
      · exact .inl hfailure
      · exact .inr (.inr ⟨type, v, l, c, e, s', hreads, hverify, hextend⟩)
  · exact .inl ⟨message, s, hfailure, rfl⟩

/-- An append that reports success has made a new entry and saved the ledger with it. -/
theorem exists_nextEntry_of_append {payload : String}
    (h : append env s path payload tag = (.exit 0, s')) :
    ∃ type v l c e, Reads s path payload tag type v l ∧ l.verify = .ok () ∧ env.clock? = .ok c ∧
      (l.withClock c).nextEntry env.machine type v s.draws.next.1 = .ok e ∧
      saveLedger s.files path ((l.withClock c).push e) = .ok s'.files := by
  rcases append_cases env s path payload tag with ⟨_, _, happend, -⟩ |
    ⟨_, _, _, _, -, -, happend⟩ | ⟨type, v, l, c, e, _, hreads, hverify, happend, hnext⟩
  · rw [h] at happend
    cases happend
  · rw [h] at happend
    cases Outcome.exit.inj (Prod.mk.inj happend).1
  · rw [h] at happend
    obtain ⟨-, rfl⟩ := Prod.mk.inj happend
    exact ⟨type, v, l, c, e, hreads, hverify, hnext⟩

/-- **What an append does** that reports success. -/
theorem exists_extended_of_append {payload : String}
    (h : append env s path payload tag = (.exit 0, s')) :
    ∃ v l c e, loadDocument s.files payload = .ok v ∧ loadLedger s.files path = .ok l ∧
      e.payload = v ∧ Extended s.files s'.files path (l.withClock c) e := by
  obtain ⟨type, v, l, c, e, hreads, hverify, -, hnext, hsave⟩ := exists_nextEntry_of_append h
  exact ⟨v, l, c, e, hreads.record, hreads.ledger,
    (Prod.mk.inj (Ledger.record_of_nextEntry hnext)).2, .loaded c hreads.ledger hverify,
    Ledger.follows_of_nextEntry hnext (RecordType.isGenesis_of_custom? hreads.type), hsave⟩

/-! ### What can be opened again -/

/-- The records of a ledger that a command extends have canonical texts and do not nest too deep. -/
theorem isAccepted_of_isBase {base : Ledger} (h : IsBase fs path base) :
    ∀ e ∈ base.entries, Json.IsAccepted 125 e.payload := by
  cases h with
  | new c machine draws =>
    intro e he
    rw [List.mem_singleton.mp he]
    exact ⟨fun m hm => (by cases hm), _, Canonical.writes_emptyObject⟩
  | loaded c hload hverify =>
    obtain ⟨t, -, hl⟩ := loadLedger_eq_ok_iff.mp hload
    exact fun e he => Ledger.payload_accepted hl e he

theorem exists_canonicalize_push {base : Ledger} {e : Entry} (hbase : IsBase fs path base)
    (he : e.Follows base.last base.size) :
    ∀ e' ∈ (base.push e).entries, ∃ c, canonicalize e'.payload = .ok c := by
  rw [Ledger.entries_push]
  intro e' he'
  rcases List.mem_append.mp he' with he' | he'
  · exact Canonical.exists_canonicalize_iff.mpr (isAccepted_of_isBase hbase e' he').exists_writes
  · obtain ⟨c, hc, -⟩ := Entry.payloadDigest?_eq_ok_iff.mp he.recordHash
    rw [List.mem_singleton.mp he']
    exact ⟨c, hc⟩

namespace Extended

variable {base : Ledger} {e : Entry}

theorem exists_canonicalize (h : Extended fs fs' path base e) :
    ∀ e' ∈ (base.push e).entries, ∃ c, canonicalize e'.payload = .ok c :=
  exists_canonicalize_push h.isBase h.follows

/-- Only the new record may nest too deep. -/
theorem nestsWithin_iff (h : Extended fs fs' path base e) :
    (∀ e' ∈ (base.push e).entries, e'.payload.NestsWithin 125) ↔ e.payload.NestsWithin 125 := by
  rw [Ledger.entries_push, List.forall_mem_append, List.forall_mem_singleton]
  exact and_iff_right fun e' he' => (isAccepted_of_isBase h.isBase e' he').nestsWithin

/-- **The file that was written is loaded** when the new record does not nest too deep. -/
theorem loadLedger_eq (h : Extended fs fs' path base e) (hdepth : e.payload.NestsWithin 125) :
    loadLedger fs' path
      = .ok (((base.push e).withNumbers Number.stored).withClock .system) :=
  (holds_of_saveLedger h.saved).loadLedger_eq h.exists_canonicalize (h.nestsWithin_iff.mpr hdepth)

/-- And only then. -/
theorem nestsWithin_of_loadLedger (h : Extended fs fs' path base e)
    (hload : loadLedger fs' path = .ok l') : e.payload.NestsWithin 125 :=
  h.nestsWithin_iff.mp ((holds_of_saveLedger h.saved).of_loadLedger h.exists_canonicalize hload).1

end Extended

/-! ### When a simulation reports success -/

/-- A new ledger is sound. -/
theorem isSound_create (c : Clock) (machine : Timestamp) (draws : Draws) :
    (Ledger.create c machine draws).1.IsSound :=
  (Growth.holds_start c machine draws).sound

theorem verification_of_verify (h : l.verify = .ok ()) : (verification l).2 = 0 := by
  rw [verification, h]

/-- A ledger is saved when its records have canonical texts and its file may be written. -/
theorem exists_saveLedger {place : Place}
    (hrecords : ∀ e ∈ l.entries, ∃ c, canonicalize e.payload = .ok c)
    (htarget : fs.target? path = .ok place) : ∃ fs', saveLedger fs path l = .ok fs' := by
  obtain ⟨t, ht⟩ := Ledger.exists_json?_iff.mpr fun e he n hn =>
    Canonical.isFinite_of_occurs (Canonical.exists_canonicalize_iff.mp (hrecords e he)) hn
  obtain ⟨fs', hwrite⟩ := Files.exists_write?_of_target? htarget (Utf8.encode t)
  exact ⟨fs', saveLedger_eq_ok_iff.mpr ⟨t, ht, hwrite⟩⟩

theorem exists_finishSimulation (hsave : saveLedger s.files path l = .ok fs')
    (hcode : (verification l).2 = 0) :
    ∃ s', finishSimulation s l (some path) = (.exit 0, s') := by
  simp only [finishSimulation, Session.files_print, hsave, hcode]
  exact ⟨_, rfl⟩

/-- **A simulation reports success** when its record has a canonical text, its type is not reserved,
its clock can be set and its file may be written. How deep the record nests is not asked. -/
theorem exists_simulate {payload : Option String} {draws : Draws} {type : RecordType} {c : Clock}
    {place : Place} (htype : recordType? tag = .ok type)
    (hpayload : startingPayload s payload = .ok (v, draws))
    (hrecord : ∃ bytes, canonicalize v = .ok bytes) (hclock : env.clock? = .ok c)
    (htarget : s.files.target? path = .ok place) :
    ∃ s', simulate env s payload tag (some path) = (.exit 0, s') := by
  have hsound := isSound_create c env.machine draws
  obtain ⟨e, hnext⟩ : ∃ e, (Ledger.create c env.machine draws).1.nextEntry env.machine type v
      (Ledger.create c env.machine draws).2.next.1 = .ok e :=
    (Ledger.exists_nextEntry_iff (Ledger.exists_digest?_last hsound)).mpr hrecord
  have hfollows := Ledger.follows_of_nextEntry hnext
    (RecordType.isGenesis_of_custom? (recordType?_eq_ok_iff.mp htype))
  have hbase : IsBase s.files path (Ledger.create c env.machine draws).1 := .new _ _ _
  obtain ⟨fs', hsave⟩ := exists_saveLedger (exists_canonicalize_push hbase hfollows) htarget
  have hcode := verification_of_verify
    (Ledger.verify_of_isSound (Ledger.isSound_push hsound hfollows))
  have happend := Ledger.append_eq_ok_iff.mpr ⟨hnext, rfl, rfl⟩
  simp only [simulate, htype, hpayload, hclock, Session.draws_print, happend]
  exact exists_finishSimulation hsave hcode

/-- A document that is not named as another kind of text is read as JSON. -/
theorem loadDocument_of_json {text : List Char} (htext : fs.readText? path = .ok text)
    (hpath : ¬Document.isYaml path = true) (hread : Json.read? (Utf8.encode text) = .ok v) :
    loadDocument fs path = .ok v := by
  have hdocument : Document.read? path text = .ok v := by
    rw [Document.read?, if_neg hpath, hread]
    rfl
  simp only [loadDocument, htext, hdocument]

/-- A run with a document, alone in its directory. -/
def documentSession (text : List Char) : Session :=
  ⟨⟨[([['p', '.', 'j', 's', 'o', 'n']], .file (Utf8.encode text))]⟩, ⟨fun _ => 0, 0⟩, [], []⟩

theorem startingPayload_document {text : List Char} (h : Json.read? (Utf8.encode text) = .ok v) :
    startingPayload (documentSession text) (some "p.json") = .ok (v, ⟨fun _ => 0, 0⟩) := by
  have hdocument : loadDocument (documentSession text).files "p.json" = .ok v :=
    loadDocument_of_json (Files.readText?_of_read? rfl) (by decide) h
  rw [startingPayload, hdocument]
  rfl

/-- A simulation accepts every document that the reader accepts. -/
theorem exists_simulate_document {text : List Char} (h : Json.read? (Utf8.encode text) = .ok v) :
    ∃ s', simulate ⟨none, none, .epoch⟩ (documentSession text) (some "p.json") "observation"
      (some "l.json") = (.exit 0, s') := by
  have htype : recordType? "observation" = .ok .observation := rfl
  have hclock : Environment.clock? ⟨none, none, .epoch⟩ = .ok .system := rfl
  have htarget : (documentSession text).files.target? "l.json"
      = .ok [['l', '.', 'j', 's', 'o', 'n']] := rfl
  exact exists_simulate htype (startingPayload_document h) (Json.exists_canonicalize_of_read? h)
    hclock htarget

/-! ### Opening what was written -/

/-- A command that reported success has written a record to a ledger's file. -/
inductive Wrote (path : String) (s s' : Session) (v : Value) : Prop
  | simulate {env : Environment} {payload : Option String} {tag : String} {draws : Draws}
      (hpayload : startingPayload s payload = .ok (v, draws))
      (h : simulate env s payload tag (some path) = (.exit 0, s'))
  | append {env : Environment} {payload tag : String}
      (hpayload : loadDocument s.files payload = .ok v)
      (h : append env s path payload tag = (.exit 0, s'))

theorem exists_extended_of_wrote (h : Wrote path s s' v) :
    ∃ base e, e.payload = v ∧ Extended s.files s'.files path base e := by
  cases h with
  | simulate hpayload h =>
    obtain ⟨w, draws, c, e, hw, he, hextended, -⟩ := exists_extended_of_simulate h
    rw [hpayload] at hw
    exact ⟨_, e, he.trans (Prod.mk.inj (Except.ok.inj hw)).1.symm, hextended⟩
  | append hpayload h =>
    obtain ⟨w, l, c, e, hw, -, he, hextended⟩ := exists_extended_of_append h
    rw [hpayload] at hw
    exact ⟨_, e, he.trans (Except.ok.inj hw).symm, hextended⟩

/-- **A ledger's file can be opened after a command that reported success exactly when the record
just written nests at most 125 containers.** The reader of documents takes two more, so the command
may succeed and leave a file that no command opens. What is opened has as many entries as the ledger
that was saved. -/
theorem exists_loadLedger_iff_of_wrote (h : Wrote path s s' v) :
    ∃ l, saveLedger s.files path l = .ok s'.files ∧ l.last.payload = v ∧
      ((∃ l', loadLedger s'.files path = .ok l') ↔ v.NestsWithin 125) ∧
      ∀ l', loadLedger s'.files path = .ok l' → l'.size = l.size := by
  obtain ⟨base, e, rfl, hextended⟩ := exists_extended_of_wrote h
  refine ⟨base.push e, hextended.saved, by rw [Ledger.last_push], ⟨?_, ?_⟩, ?_⟩
  · rintro ⟨l', hl'⟩
    exact hextended.nestsWithin_of_loadLedger hl'
  · exact fun hdepth => ⟨_, hextended.loadLedger_eq hdepth⟩
  · intro l' hl'
    rw [hextended.loadLedger_eq (hextended.nestsWithin_of_loadLedger hl')] at hl'
    rw [← Except.ok.inj hl']
    exact List.length_map _

/-- A hundred and twenty-five arrays in each other, written and opened again. -/
theorem exists_loadLedger_iff_of_wrote_brackets :
    ∃ s' l', simulate ⟨none, none, .epoch⟩ (documentSession (Json.brackets 125)) (some "p.json")
        "observation" (some "l.json") = (.exit 0, s') ∧
      loadLedger s'.files "l.json" = .ok l' := by
  have hread := @Json.read?_brackets 124 (by decide)
  obtain ⟨s', hs'⟩ := exists_simulate_document hread
  obtain ⟨l, -, -, hiff, -⟩ :=
    exists_loadLedger_iff_of_wrote (.simulate (startingPayload_document hread) hs')
  obtain ⟨l', hl'⟩ := hiff.mpr (Value.nestsWithin_nested.mpr (by decide))
  exact ⟨s', l', hs', hl'⟩

/-- **A file that was written need not open**: a hundred and twenty-six arrays in each other are
accepted, the command reports success, and its file cannot be opened. -/
theorem not_loadLedger_after_simulate :
    ∃ s', simulate ⟨none, none, .epoch⟩ (documentSession (Json.brackets 126)) (some "p.json")
        "observation" (some "l.json") = (.exit 0, s') ∧
      ¬∃ l', loadLedger s'.files "l.json" = .ok l' := by
  have hread := @Json.read?_brackets 125 (by decide)
  obtain ⟨s', hs'⟩ := exists_simulate_document hread
  obtain ⟨base, e, he, hextended⟩ :=
    exists_extended_of_wrote (.simulate (startingPayload_document hread) hs')
  refine ⟨s', hs', ?_⟩
  rintro ⟨l', hl'⟩
  have hdepth := hextended.nestsWithin_of_loadLedger hl'
  rw [he, Value.nestsWithin_nested] at hdepth
  exact absurd hdepth (by decide)

end Cli

end SealedLedger
