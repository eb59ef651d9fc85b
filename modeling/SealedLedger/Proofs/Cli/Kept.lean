import SealedLedger.Proofs.Cli.Saving
import SealedLedger.Proofs.Ledger.Edit
import SealedLedger.Proofs.Value.Kept

/-!
# Ledgers kept in a file

A ledger is kept in one file from command to command: a simulation writes it, and each append loads
it, extends it and writes it back. What is hashed is the canonical text of a record, and what is
loaded is what its stored text is read as; so the ledger stays sound for as long as the stored texts
of the doubles in its records are read as these doubles, and an audit notices each record for which
this fails, although nobody has touched the file.

A record is read again by each append behind it, and may change each time. But its entry holds the
digest of the record as it was written, and the next entry that of the entry as it was loaded first.
If an audit finds nothing, the canonical bytes of the record are now what they were at first and
what they were after one reading, so the first reading has kept them.

## Main definitions

* `Cli.Kept` — a file that only commands have written to, with the records they wrote
* `Cli.HoldsSound` — the invariant while records are kept: a file holds a sound ledger
* `Cli.RemembersAll` — the invariant of every run: what the entries hold of each record

## Main results

* `Cli.exists_holdsSound`, `Cli.exists_remembersAll` — what is kept by a run of commands
* `Cli.keptByText_of_isSound` — only records that are kept leave the ledger sound
* `Cli.audit_of_kept` — when an untouched file passes its audit
* `Cli.audit_fails_after_simulate` — an untouched file that does not
-/

namespace SealedLedger

namespace Cli

variable {s s' : Session} {fs fs' : Files} {path : String} {l : Ledger} {v : Value}
  {vs : List Value}

/-! ### One file and its records -/

/-- Only commands that reported success have written to the file: a simulation, and then appends,
each with a record. -/
inductive Kept (path : String) : Files → List Value → Prop
  | simulate {env : Environment} {s s' : Session} {payload : Option String} {tag : String}
      {v : Value} {draws : Draws} (hpayload : startingPayload s payload = .ok (v, draws))
      (h : simulate env s payload tag (some path) = (.exit 0, s')) : Kept path s'.files [v]
  | append {env : Environment} {s s' : Session} {payload tag : String} {v : Value}
      {vs : List Value} (hkept : Kept path s.files vs)
      (hpayload : loadDocument s.files payload = .ok v)
      (h : append env s path payload tag = (.exit 0, s')) : Kept path s'.files (vs ++ [v])
  | elsewhere {fs fs' : Files} {vs : List Value} (hkept : Kept path fs vs)
      (hfile : fs'.read? path = fs.read? path) : Kept path fs' vs

/-- The file holds the text of a sound ledger, whose records are kept. -/
structure HoldsSound (path : String) (fs : Files) (l : Ledger) : Prop where
  holds : Holds path fs l
  sound : l.IsSound
  kept : ∀ e ∈ l.entries, e.payload.KeptByText

/-- **What a command keeps**: it extends a sound ledger of kept records by one more. -/
theorem Extended.holdsSound {base : Ledger} {e : Entry} (h : Extended fs fs' path base e)
    (hsound : base.IsSound) (hbase : ∀ e ∈ base.entries, e.payload.KeptByText)
    (he : e.payload.KeptByText) : HoldsSound path fs' (base.push e) where
  holds := holds_of_saveLedger h.saved
  sound := Ledger.isSound_push hsound h.follows
  kept := by
    rw [Ledger.entries_push, List.forall_mem_append, List.forall_mem_singleton]
    exact ⟨hbase, he⟩

/-- **What loading keeps**: the ledger is sound, and its records are kept again. -/
theorem HoldsSound.of_loadLedger {l' : Ledger} (h : HoldsSound path fs l)
    (hload : loadLedger fs path = .ok l') :
    l'.IsSound ∧ ∀ e ∈ l'.entries, e.payload.KeptByText := by
  have hrecords : ∀ e ∈ l.entries, ∃ c, canonicalize e.payload = .ok c := by
    intro e he
    obtain ⟨i, hi, rfl⟩ := List.getElem_of_mem he
    exact Ledger.exists_canonicalize_of_isSound h.sound hi
  obtain ⟨-, rfl⟩ := h.holds.of_loadLedger hrecords hload
  have haudit : ((l.withNumbers Number.stored).withClock .system).audit = l.audit :=
    Ledger.audit_eq_of_alike (Ledger.alike_stored h.kept)
  constructor
  · rw [← Ledger.violations_eq_nil_iff, haudit, Ledger.violations_eq_nil_iff]
    exact h.sound
  · show ∀ e ∈ l.entries.map (Entry.withNumbers Number.stored), e.payload.KeptByText
    rw [List.forall_mem_map]
    exact fun e he => (h.kept e he).mapNumbers_stored

/-- **What is kept by a run of commands** whose records are all kept. -/
theorem exists_holdsSound (h : Kept path fs vs) (hvs : ∀ v ∈ vs, v.KeptByText) :
    ∃ l, HoldsSound path fs l := by
  -- along the commands, not along the records: between two commands other files may change
  induction h with
  | simulate hpayload h =>
    obtain ⟨w, draws, c, e, hw, rfl, hextended, -⟩ := exists_extended_of_simulate h
    rw [hpayload] at hw
    refine ⟨_, hextended.holdsSound (isSound_create _ _ _) (fun e' he' => ?_) ?_⟩
    · rw [List.mem_singleton.mp he']
      exact Value.keptByText_emptyObject
    · rw [← (Prod.mk.inj (Except.ok.inj hw)).1]
      exact hvs _ (List.mem_singleton_self _)
  | append hkept hpayload h ih =>
    obtain ⟨w, l, c, e, hw, hload, rfl, hextended⟩ := exists_extended_of_append h
    rw [hpayload] at hw
    rw [List.forall_mem_append, List.forall_mem_singleton] at hvs
    obtain ⟨l₀, hl₀⟩ := ih hvs.1
    obtain ⟨hsound, hrecords⟩ := hl₀.of_loadLedger hload
    exact ⟨_, hextended.holdsSound (Ledger.isSound_withClock hsound c) hrecords
      (Except.ok.inj hw ▸ hvs.2)⟩
  | elsewhere hkept hfile ih =>
    obtain ⟨l, hl⟩ := ih hvs
    exact ⟨l, hl.holds.congr hfile, hl.sound, hl.kept⟩

/-! ### What the file remembers of a record -/

/-- An entry of the ledger was made for the record, which has been stored and read again a number of
times since. The entry holds the digest of the record as it was at first, and the entry behind it
that of the entry as it was when it had been read once. -/
def Remembers (l : Ledger) (position : Nat) (v : Value) (times : Nat) : Prop :=
  ∃ e, l.entries[position]? = some e ∧ e.payload = v.storedTimes times ∧
    Digest.ofValue? v = .ok e.recordHash ∧
    ∀ f, l.entries[position + 1]? = some f →
      (e.withPayload (v.storedTimes 1)).digest? = .ok f.prevHash

section

variable {e : Entry} {position times : Nat}

/-- A new entry is made for its record. -/
theorem remembers_push (he : e.Follows l.last l.size) :
    Remembers (l.push e) l.size e.payload 0 := by
  refine ⟨e, List.getElem?_concat_length .., rfl, he.recordHash, fun f hf => ?_⟩
  have hlt := (List.getElem?_eq_some_iff.mp hf).1
  rw [Ledger.entries_push, List.length_append, List.length_singleton] at hlt
  exact absurd hlt (Nat.lt_irrefl _)

/-- Storing and reading changes records, and no digest that an entry holds. -/
theorem Remembers.withNumbers_stored (h : Remembers l position v times) :
    Remembers (l.withNumbers Number.stored) position v (times + 1) := by
  obtain ⟨e, he, hpayload, hrecord, hlink⟩ := h
  refine ⟨e.withNumbers Number.stored, ?_, ?_, hrecord, fun f hf => ?_⟩
  · exact (List.getElem?_map ..).trans (congrArg _ he)
  · rw [Value.storedTimes_succ, ← hpayload]
    rfl
  · obtain ⟨g, hg, rfl⟩ := Option.map_eq_some_iff.mp ((List.getElem?_map ..).symm.trans hf)
    exact hlink g hg

/-- A new entry holds the digest of the last one as it is then. -/
theorem Remembers.push (h : Remembers l position v times) (he : e.Follows l.last l.size)
    (hlast : position + 1 = l.size → times = 1) : Remembers (l.push e) position v times := by
  obtain ⟨g, hg, hpayload, hrecord, hlink⟩ := h
  have hposition : position < l.entries.length := (List.getElem?_eq_some_iff.mp hg).1
  refine ⟨g, (List.getElem?_append_left hposition).trans hg, hpayload, hrecord, fun f hf => ?_⟩
  rw [Ledger.entries_push] at hf
  by_cases hnext : position + 1 = l.size
  · obtain rfl := hlast hnext
    obtain rfl : l.last = g := by
      have hget : l.entries.getLast? = l.entries[l.entries.length - 1]? :=
        List.getLast?_eq_getElem?
      rw [show l.entries.length - 1 = position by rw [Ledger.size] at hnext; omega, hg,
        List.getLast?_eq_some_getLast l.entries_ne] at hget
      exact Option.some.inj hget
    rw [hnext, Ledger.size, List.getElem?_concat_length] at hf
    rw [← Option.some.inj hf, ← hpayload]
    exact he.prevHash
  · rw [List.getElem?_append_left (by rw [Ledger.size] at hnext; omega)] at hf
    exact hlink f hf

end

/-- The ledger has a first entry and an entry for each record, which has been read again once for
each record behind it, and the given number of times more. -/
structure RemembersAll (l : Ledger) (vs : List Value) (more : Nat) : Prop where
  size_eq : l.size = vs.length + 1
  remembers : ∀ before v after, vs = before ++ v :: after →
    Remembers l (before.length + 1) v (after.length + more)

theorem remembersAll_create (c : Clock) (machine : Timestamp) (draws : Draws) :
    RemembersAll (Ledger.create c machine draws).1 [] 1 where
  size_eq := rfl
  remembers before v after h := by simp at h

theorem RemembersAll.withNumbers_stored (h : RemembersAll l vs 0) :
    RemembersAll (l.withNumbers Number.stored) vs 1 where
  size_eq := (List.length_map _).trans h.size_eq
  remembers before v after hvs := (h.remembers before v after hvs).withNumbers_stored

/-- **What an append adds**: an entry for its record, behind those that have been read again. -/
theorem RemembersAll.push {e : Entry} (h : RemembersAll l vs 1) (he : e.Follows l.last l.size) :
    RemembersAll (l.push e) (vs ++ [e.payload]) 0 where
  size_eq := by
    have hsize := h.size_eq
    rw [Ledger.size] at hsize ⊢
    rw [Ledger.entries_push, List.length_append, List.length_append, hsize]
    rfl
  remembers before v after hvs := by
    rcases List.eq_nil_or_concat' after with rfl | ⟨after, x, rfl⟩
    · obtain ⟨rfl, hv⟩ := List.append_inj' hvs rfl
      rw [← (List.cons.inj hv).1, ← h.size_eq]
      exact remembers_push he
    · rw [← List.cons_append, ← List.append_assoc] at hvs
      obtain ⟨rfl, -⟩ := List.append_inj' hvs rfl
      rw [List.length_append]
      refine (h.remembers before v after rfl).push he fun hnext => ?_
      rw [h.size_eq, List.length_append, List.length_cons] at hnext
      omega

/-- **What a run of commands remembers.** -/
theorem exists_remembersAll (h : Kept path fs vs) :
    ∃ l, Holds path fs l ∧ (∀ e ∈ l.entries, ∃ c, canonicalize e.payload = .ok c) ∧
      RemembersAll l vs 0 := by
  induction h with
  | simulate hpayload h =>
    obtain ⟨w, draws, c, e, hw, rfl, hextended, -⟩ := exists_extended_of_simulate h
    rw [hpayload] at hw
    rw [(Prod.mk.inj (Except.ok.inj hw)).1]
    exact ⟨_, holds_of_saveLedger hextended.saved, hextended.exists_canonicalize,
      (remembersAll_create c _ draws).push hextended.follows⟩
  | append hkept hpayload h ih =>
    obtain ⟨w, l, c, e, hw, hload, rfl, hextended⟩ := exists_extended_of_append h
    rw [hpayload] at hw
    rw [Except.ok.inj hw]
    obtain ⟨l₀, hholds, hrecords, hall⟩ := ih
    obtain ⟨-, rfl⟩ := hholds.of_loadLedger hrecords hload
    obtain ⟨hsize, hremembers⟩ := hall.withNumbers_stored
    have hbase : RemembersAll (((l₀.withNumbers .stored).withClock .system).withClock c) _ 1 :=
      ⟨hsize, hremembers⟩
    exact ⟨_, holds_of_saveLedger hextended.saved, hextended.exists_canonicalize,
      hbase.push hextended.follows⟩
  | elsewhere hkept hfile ih =>
    obtain ⟨l, hholds, hl⟩ := ih
    exact ⟨l, hholds.congr hfile, hl⟩

/-- The hash does not give two values one digest, unless they have the same canonical bytes. -/
def TellsApart (v w : Value) : Prop :=
  Digest.ofValue? v = Digest.ofValue? w → canonicalize v = canonicalize w

/-- An entry has the digest that it has with another record only when the two records have the same
canonical bytes. -/
theorem canonicalize_eq_of_digest?_withPayload {e : Entry} {p : Value} {d : Digest}
    (htold : TellsApart (e.withPayload p).toValue e.toValue)
    (hother : (e.withPayload p).digest? = .ok d) (h : e.digest? = .ok d) :
    canonicalize p = canonicalize e.payload := by
  have hbytes : (e.withPayload p).canonicalBytes? = e.canonicalBytes? := htold (hother.trans h.symm)
  obtain ⟨b, hb⟩ := Entry.exists_digest?_iff.mp ⟨d, hother⟩
  obtain ⟨c, hc⟩ := Entry.exists_digest?_iff.mp ⟨d, h⟩
  rw [show canonicalize p = .ok b from hb, hc]
  by_contra hne
  obtain ⟨a, a', ha, ha', haa'⟩ :=
    Entry.exists_canonicalBytes?_withPayload hb hc fun hbc => hne (congrArg _ hbc)
  exact haa' (Except.ok.inj (ha.symm.trans (hbytes.symm.trans ha')))

/-- **Only a record that is kept leaves the ledger sound**, unless the hash does not tell apart what
the record and its entry were and what they have become. -/
theorem keptByText_of_isSound {before after : List Value}
    (h : Kept path fs (before ++ v :: after)) (hload : loadLedger fs path = .ok l)
    (hrecord : TellsApart v (v.storedTimes (after.length + 1)))
    (hentry : ∀ e, l.entries[before.length + 1]? = some e →
      TellsApart (e.withPayload (v.storedTimes 1)).toValue
        (e.withPayload (v.storedTimes (after.length + 1))).toValue)
    (hsound : l.IsSound) : v.KeptByText := by
  obtain ⟨l₀, hholds, hrecords, hall⟩ := exists_remembersAll h
  obtain ⟨-, rfl⟩ := hholds.of_loadLedger hrecords hload
  obtain ⟨hsize, hremembers⟩ := hall.withNumbers_stored
  obtain ⟨e, he, hpayload, hdigest, hlink⟩ := hremembers before v after rfl
  obtain ⟨hi, rfl⟩ := List.getElem?_eq_some_iff.mp he
  set e := (l₀.withNumbers Number.stored).entries[before.length + 1]
  -- the entry holds the digest of the record as it was, and it is that of the record as it is
  have hnow : canonicalize v = canonicalize e.payload := by
    have hfollows := (hsound.later before.length hi).recordHash
    rw [hpayload]
    exact hrecord (by rw [hdigest, ← hpayload]; exact hfollows.symm)
  -- the next entry holds the digest of the entry as it was loaded first, if there is a next entry
  have hfirst : canonicalize (v.storedTimes 1) = canonicalize e.payload := by
    cases after with
    | nil => rw [hpayload]; rfl
    | cons x after =>
      have hnext : before.length + 1 + 1 < (l₀.withNumbers Number.stored).entries.length := by
        rw [Ledger.size] at hsize
        rw [hsize, List.length_append, List.length_cons, List.length_cons]
        omega
      have htold := hentry e he
      rw [← hpayload] at htold
      exact canonicalize_eq_of_digest?_withPayload htold
        (hlink _ (List.getElem?_eq_getElem hnext)) (hsound.later (before.length + 1) hnext).prevHash
  obtain ⟨c, hc, -⟩ := Digest.ofValue?_eq_ok_iff.mp hdigest
  rw [Value.keptByText_iff hc, ← hc, hnow, ← hfirst]
  rfl

/-! ### The audit of an untouched file -/

theorem verifyLedger_of_isSound (hload : loadLedger s.files path = .ok l) (h : l.IsSound) :
    (verifyLedger s path true).1 = .exit 0 := by
  simp only [verifyLedger, hload, Ledger.isValid_audit_iff.mpr h,
    verification_of_verify (Ledger.verify_of_isSound h)]
  rfl

theorem verifyLedger_of_not_isSound (hload : loadLedger s.files path = .ok l) (h : ¬l.IsSound) :
    (verifyLedger s path true).1 = .exit 1 := by
  have hvalid : l.audit.isValid = false := by
    rw [← Bool.not_eq_true, Ledger.isValid_audit_iff]
    exact h
  simp only [verifyLedger, hload, hvalid]
  rfl

/-- **An untouched file that can be opened passes its audit as long as its records are kept.** Once
a record was written that is not kept it fails, however many records come behind, unless the hash
does not tell the record as it was written from what it has become, or its entry as it was loaded
first from what that has become. -/
theorem audit_of_kept (h : Kept path s.files vs) (hload : loadLedger s.files path = .ok l) :
    ((∀ v ∈ vs, v.KeptByText) →
      l.audit.violations = [] ∧ (verifyLedger s path true).1 = .exit 0) ∧
    (∀ before v after, vs = before ++ v :: after → ¬v.KeptByText →
      TellsApart v (v.storedTimes (after.length + 1)) →
      (∀ e, l.entries[before.length + 1]? = some e →
        TellsApart (e.withPayload (v.storedTimes 1)).toValue
          (e.withPayload (v.storedTimes (after.length + 1))).toValue) →
      l.audit.violations ≠ [] ∧ (verifyLedger s path true).1 = .exit 1) := by
  constructor
  · intro hvs
    obtain ⟨l₀, hl₀⟩ := exists_holdsSound h hvs
    obtain ⟨hsound, -⟩ := hl₀.of_loadLedger hload
    exact ⟨Ledger.violations_eq_nil_iff.mpr hsound, verifyLedger_of_isSound hload hsound⟩
  · rintro before v after rfl hkept hrecord hentry
    have hsound : ¬l.IsSound := mt (keptByText_of_isSound h hload hrecord hentry) hkept
    exact ⟨mt Ledger.violations_eq_nil_iff.mp hsound, verifyLedger_of_not_isSound hload hsound⟩

/-- The double above the one that `1e-24` rounds to is not kept: its text is
`1.0000000000000001e-24`, which is read as the nearest one. -/
theorem not_keptByText_tiny :
    ∃ c d, canonicalize (.number (.float ⟨false, 0x3AF357C299A88EA8, by decide⟩)) = .ok c ∧
      canonicalize (Value.storedTimes 1
        (.number (.float ⟨false, 0x3AF357C299A88EA8, by decide⟩))) = .ok d ∧
      Sha256.hash c ≠ Sha256.hash d := by
  refine ⟨utf8 "1.0000000000000001e-24", utf8 "1e-24", ?_, ?_, ?_⟩ <;> decide +kernel

/-- A value whose canonical bytes have another hash after it was stored and read is told apart from
what it has become, and is not kept. -/
theorem tellsApart_of_hash_ne {c d : List UInt8} (hc : canonicalize v = .ok c)
    (hd : canonicalize (v.storedTimes 1) = .ok d) (hhash : Sha256.hash c ≠ Sha256.hash d) :
    TellsApart v (v.storedTimes 1) ∧ ¬v.KeptByText := by
  constructor
  · intro hdigest
    have hc' := Digest.ofValue?_eq_ok_iff.mpr ⟨c, hc, rfl⟩
    have hd' := Digest.ofValue?_eq_ok_iff.mpr ⟨d, hd, rfl⟩
    exact absurd (Digest.mk.inj (Except.ok.inj (hc'.symm.trans (hdigest.trans hd')))) hhash
  · intro hkept
    have hcd := ((Value.keptByText_iff hc).mp hkept).symm.trans hd
    exact hhash (by rw [Except.ok.inj hcd])

/-- A simulation keeps every document that does not nest too deep, and its file is loaded. -/
theorem exists_kept_document {text : List Char} (hread : Json.read? (Utf8.encode text) = .ok v)
    (hdepth : v.NestsWithin 125) :
    ∃ s' l, simulate ⟨none, none, .epoch⟩ (documentSession text) (some "p.json") "observation"
        (some "l.json") = (.exit 0, s') ∧
      Kept "l.json" s'.files [v] ∧ loadLedger s'.files "l.json" = .ok l := by
  have hpayload := startingPayload_document hread
  obtain ⟨s', hs'⟩ := exists_simulate_document hread
  obtain ⟨base, e, rfl, hextended⟩ := exists_extended_of_wrote (.simulate hpayload hs')
  exact ⟨s', _, hs', .simulate hpayload hs', hextended.loadLedger_eq hdepth⟩

/-- The document `1e-24` is not kept, and the hash tells what it was from what it has become. -/
theorem exists_kept_tiny :
    ∃ s' l v, simulate ⟨none, none, .epoch⟩ (documentSession ['1', 'e', '-', '2', '4'])
        (some "p.json") "observation" (some "l.json") = (.exit 0, s') ∧
      Kept "l.json" s'.files [v] ∧ loadLedger s'.files "l.json" = .ok l ∧
      TellsApart v (v.storedTimes 1) ∧ ¬v.KeptByText := by
  have hread : Json.read? (Utf8.encode ['1', 'e', '-', '2', '4'])
      = .ok (.number (.float ⟨false, 0x3AF357C299A88EA8, by decide⟩)) := rfl
  obtain ⟨s', l, hs', hfile, hload⟩ := exists_kept_document hread trivial
  obtain ⟨c, d, hc, hd, hhash⟩ := not_keptByText_tiny
  exact ⟨s', l, _, hs', hfile, hload, tellsApart_of_hash_ne hc hd hhash⟩

/-- The documents `1.5` and `1e-24`, written and audited. -/
theorem audit_of_kept_three_halves :
    (∃ s' l, simulate ⟨none, none, .epoch⟩ (documentSession ['1', '.', '5']) (some "p.json")
        "observation" (some "l.json") = (.exit 0, s') ∧
      loadLedger s'.files "l.json" = .ok l ∧ l.audit.violations = [] ∧
      (verifyLedger s' "l.json" true).1 = .exit 0) ∧
    ∃ s' l, simulate ⟨none, none, .epoch⟩ (documentSession ['1', 'e', '-', '2', '4'])
        (some "p.json") "observation" (some "l.json") = (.exit 0, s') ∧
      loadLedger s'.files "l.json" = .ok l ∧ l.audit.violations ≠ [] ∧
      (verifyLedger s' "l.json" true).1 = .exit 1 := by
  constructor
  · have hread : Json.read? (Utf8.encode ['1', '.', '5'])
        = .ok (.number (.float ⟨false, 0x3FF8000000000000, by decide⟩)) := rfl
    obtain ⟨s', l, hs', hfile, hload⟩ := exists_kept_document hread trivial
    have hkept : ∀ v ∈ [Value.number (.float ⟨false, 0x3FF8000000000000, by decide⟩)],
        v.KeptByText := by
      refine List.forall_mem_singleton.mpr fun x hx => ?_
      obtain rfl := Number.float.inj (Value.occurs_number_iff.mp hx)
      exact Binary64.keptByText_iff.mpr ⟨rfl, by decide +kernel⟩
    exact ⟨s', l, hs', hload, (audit_of_kept hfile hload).1 hkept⟩
  · obtain ⟨s', l, v, hs', hfile, hload, hrecord, hkept⟩ := exists_kept_tiny
    exact ⟨s', l, hs', hload,
      (audit_of_kept hfile hload).2 [] v [] rfl hkept hrecord fun _ _ _ => rfl⟩

/-- **An untouched file need not pass its audit**: the document `1e-24` is read as the double above
the nearest one and stored as `1.0000000000000001e-24`, which is read as the nearest one. -/
theorem audit_fails_after_simulate :
    ∃ s' l, simulate ⟨none, none, .epoch⟩ (documentSession ['1', 'e', '-', '2', '4'])
        (some "p.json") "observation" (some "l.json") = (.exit 0, s') ∧
      loadLedger s'.files "l.json" = .ok l ∧ l.audit.violations ≠ [] ∧
      (verifyLedger s' "l.json" true).1 = .exit 1 := by
  obtain ⟨s', l, v, hs', hfile, hload, hrecord, hkept⟩ := exists_kept_tiny
  have hsound : ¬l.IsSound := fun hsound =>
    hkept (@keptByText_of_isSound _ _ _ _ [] [] hfile hload hrecord (fun _ _ _ => rfl) hsound)
  exact ⟨s', l, hs', hload, mt Ledger.violations_eq_nil_iff.mp hsound,
    verifyLedger_of_not_isSound hload hsound⟩

end Cli

end SealedLedger
