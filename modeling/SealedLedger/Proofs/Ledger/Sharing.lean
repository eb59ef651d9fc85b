import SealedLedger.Ledger.Shared
import SealedLedger.Proofs.Ledger.Growth

/-!
# Clients of one ledger

Several clients hold one ledger, and each of them works through a program of requests. Their
requests are answered one at a time, so what happens is a line of requests in which the programs are
interleaved in some way, and nothing is known about the way. Whatever it is, the answers fit a
single ledger that grows: it has an entry for each request to append that was taken, in the order of
the line, and a client that asks for the entries is shown those that were there at its turn. A
request that is refused might as well not have been made.

A line of requests grows the ledger by its requests to append, so what is known of a ledger that has
grown from a new one holds at every turn, not only at the end: it is verified, and an audit finds
nothing.

## Main definitions

* `Interleaves` — a line in which the programs of the clients are interleaved
* `returned` — the entries that the clients are given
* `Request.step?`, `Growth.shared` — a line of requests as a growth of its ledger

## Main results

* `SharedLedger.entries_answerAll` — the ledger has grown by the entries returned
* `SharedLedger.answerAll_shared` — a line grows the ledger by its requests to append
* `SharedLedger.getElem?_answerAll` — each request is answered by the ledger at its turn
* `SharedLedger.answerAll_eraseIdx` — a request that changes nothing may be left out
* `SharedLedger.isSound_answerAll_create` — a new ledger stays sound
* `SharedLedger.answerAll_create` — what the clients of a new ledger see
-/

namespace SealedLedger

variable {Client : Type}

/-! ### Lines of requests -/

/-- The line is made of the requests of the programs, and those of each client are in the order of
its program. -/
def Interleaves [DecidableEq Client] (asked : List (Client × Request))
    (programs : Client → List Request) : Prop :=
  ∀ client, (asked.filter fun r => r.1 = client).map Prod.snd = programs client

/-- A record to be appended has an ordinary type. -/
def Request.IsOrdinary : Request → Prop
  | .append _ type _ => type.IsOrdinary
  | _ => True

/-- What a request does to the ledger. Only a request to append does something. -/
def Request.step? : Request → Option Step
  | .append machine type payload => some (.append machine type payload)
  | _ => none

/-- The record of a request, none when it has no canonical form or when there is none. -/
def Request.record? (r : Request) : Option (RecordType × Value) :=
  r.step?.bind Step.record?

/-- The entry that an answer gives to a client. -/
def Response.given? : Response → Option Entry
  | .appended (.ok e) => some e
  | _ => none

/-- The entries that the clients are given. -/
def returned (answers : List (Client × Response)) : List Entry :=
  answers.filterMap fun a => a.2.given?

/-- The shared ledger that a growth has reached. -/
def Growth.shared (g : Growth) : SharedLedger :=
  ⟨g.ledger, g.draws⟩

/-- What a request does is ordinary when the request is. -/
theorem Request.IsOrdinary.step {r : Request} (h : r.IsOrdinary) {s : Step} (hs : s ∈ r.step?) :
    s.IsOrdinary := by
  cases r with
  | append machine type payload =>
    obtain rfl := Option.some.inj hs
    exact h
  | verify => cases hs
  | audit => cases hs
  | snapshot => cases hs
  | size => cases hs
  | json => cases hs

/-- The requests of a line are those of the programs. -/
theorem Interleaves.mem [DecidableEq Client] {asked : List (Client × Request)}
    {programs : Client → List Request} (h : Interleaves asked programs) {r : Client × Request}
    (hr : r ∈ asked) : r.2 ∈ programs r.1 := by
  rw [← h r.1]
  exact List.mem_map_of_mem (List.mem_filter.mpr ⟨hr, decide_eq_true rfl⟩)

namespace SharedLedger

variable {s : SharedLedger} {g : Growth} {asked : List (Client × Request)} {i : Nat}
  {client : Client} {r : Request} {machine : Timestamp} {type : RecordType} {payload : Value}

/-! ### One request -/

/-- A request to append is taken when there is a new entry, which is then returned and pushed. A
request that is refused changes nothing. -/
theorem answer_append (s : SharedLedger) (machine : Timestamp) (type : RecordType)
    (payload : Value) :
    (∃ e, s.ledger.nextEntry machine type payload s.draws.next.1 = .ok e ∧
        s.answer (.append machine type payload)
          = (.appended (.ok e), ⟨s.ledger.push e, s.draws.next.2⟩)) ∨
      (∃ err, s.ledger.nextEntry machine type payload s.draws.next.1 = .error err ∧
        s.answer (.append machine type payload) = (.appended (.error err), s)) := by
  cases hnext : s.ledger.nextEntry machine type payload s.draws.next.1 with
  | ok e =>
    have happend := Ledger.append_eq_ok_iff.mpr ⟨hnext, rfl, rfl⟩
    exact .inl ⟨e, rfl, by simp only [answer, happend]⟩
  | error err =>
    have happend := Ledger.append_eq_error_iff.mpr ⟨hnext, rfl⟩
    exact .inr ⟨err, rfl, by simp only [answer, happend]⟩

/-- The ledger grows by the entry that is returned. -/
theorem entries_answer (s : SharedLedger) (r : Request) :
    (s.answer r).2.ledger.entries = s.ledger.entries ++ (s.answer r).1.given?.toList := by
  cases r with
  | append machine type payload =>
    rcases s.answer_append machine type payload with ⟨e, -, he⟩ | ⟨err, -, he⟩
    · rw [he]
      rfl
    · rw [he]
      exact (List.append_nil _).symm
  | verify => exact (List.append_nil _).symm
  | audit => exact (List.append_nil _).symm
  | snapshot => exact (List.append_nil _).symm
  | size => exact (List.append_nil _).symm
  | json => exact (List.append_nil _).symm

/-- A request grows the ledger by what it does. -/
theorem answer_shared (g : Growth) (r : Request) :
    (g.shared.answer r).2 = (g.run r.step?.toList).shared := by
  cases r with
  | append machine type payload =>
    show _ = (g.step (.append machine type payload)).shared
    rcases g.shared.answer_append machine type payload with ⟨e, he, hs⟩ | ⟨err, he, hs⟩ <;>
      rcases @Growth.step_append g machine type payload with ⟨e', he', hg⟩ | ⟨err', he', hg⟩
    · obtain rfl : e = e' := Except.ok.inj (he.symm.trans he')
      rw [hs, hg]
      rfl
    · cases he.symm.trans he'
    · cases he.symm.trans he'
    · rw [hs, hg]
  | verify => rfl
  | audit => rfl
  | snapshot => rfl
  | size => rfl
  | json => rfl

/-! ### A line of requests -/

theorem answerAll_cons : s.answerAll ((client, r) :: asked) =
    ((client, (s.answer r).1) :: ((s.answer r).2.answerAll asked).1,
      ((s.answer r).2.answerAll asked).2) :=
  rfl

/-- Each client is answered as often as it asks. -/
theorem clients_answerAll (s : SharedLedger) (asked : List (Client × Request)) :
    (s.answerAll asked).1.map Prod.fst = asked.map Prod.fst := by
  induction asked generalizing s with
  | nil => rfl
  | cons r asked ih => rw [answerAll_cons, List.map_cons, List.map_cons, ih]

/-- **The ledger has grown by the entries returned.** -/
theorem entries_answerAll (s : SharedLedger) (asked : List (Client × Request)) :
    (s.answerAll asked).2.ledger.entries
      = s.ledger.entries ++ returned (s.answerAll asked).1 := by
  induction asked generalizing s with
  | nil => exact (List.append_nil _).symm
  | cons r asked ih =>
    rw [answerAll_cons, ih, entries_answer, List.append_assoc, returned, returned,
      filterMap_cons_toList]

/-- **A line grows the ledger by its requests to append.** -/
theorem answerAll_shared (g : Growth) (asked : List (Client × Request)) :
    (g.shared.answerAll asked).2 = (g.run (asked.filterMap fun r => r.2.step?)).shared := by
  induction asked generalizing g with
  | nil => rfl
  | cons r asked ih =>
    rw [answerAll_cons, answer_shared, ih, filterMap_cons_toList, Growth.run_append]

/-- The first answers are those to the first requests. -/
theorem take_answerAll (s : SharedLedger) (asked : List (Client × Request)) (i : Nat) :
    (s.answerAll (asked.take i)).1 = (s.answerAll asked).1.take i := by
  induction asked generalizing s i with
  | nil => cases i <;> rfl
  | cons r asked ih =>
    cases i with
    | zero => rfl
    | succ i => rw [List.take_succ_cons, answerAll_cons, ih]; rfl

/-- **Each request is answered by the ledger at its turn.** -/
theorem getElem?_answerAll (s : SharedLedger) (h : asked[i]? = some (client, r)) :
    (s.answerAll asked).1[i]?
      = some (client, ((s.answerAll (asked.take i)).2.answer r).1) := by
  induction asked generalizing s i with
  | nil => cases h
  | cons q asked ih =>
    cases i with
    | zero =>
      obtain rfl := Option.some.inj h
      rfl
    | succ i => exact ih (s.answer q.2).2 h

/-- **A request that changes nothing may be left out**: the other answers are the same without it,
and so is the ledger in the end. -/
theorem answerAll_eraseIdx (s : SharedLedger) (h : asked[i]? = some (client, r))
    (hsame : ((s.answerAll (asked.take i)).2.answer r).2 = (s.answerAll (asked.take i)).2) :
    s.answerAll (asked.eraseIdx i) = ((s.answerAll asked).1.eraseIdx i, (s.answerAll asked).2) := by
  induction asked generalizing s i with
  | nil => cases h
  | cons q asked ih =>
    cases i with
    | zero =>
      obtain rfl := Option.some.inj h
      have hs : (s.answer r).2 = s := hsame
      rw [answerAll_cons, hs]
      rfl
    | succ i =>
      rw [List.eraseIdx_cons_succ, answerAll_cons, ih (s.answer q.2).2 h hsame]
      rfl

/-- Each answer is that of the ledger to the request in its place. -/
theorem exists_request (s : SharedLedger) {a : Response}
    (h : (s.answerAll asked).1[i]? = some (client, a)) :
    ∃ r, asked[i]? = some (client, r) ∧ a = ((s.answerAll (asked.take i)).2.answer r).1 := by
  have hclient : (asked.map Prod.fst)[i]? = some client := by
    rw [← s.clients_answerAll, List.getElem?_map, h]
    rfl
  rw [List.getElem?_map, Option.map_eq_some_iff] at hclient
  obtain ⟨⟨_, r⟩, hr, rfl⟩ := hclient
  obtain ⟨-, ha⟩ := Prod.mk.inj (Option.some.inj (h.symm.trans (s.getElem?_answerAll hr)))
  exact ⟨r, hr, ha⟩

/-- **What is kept by a line of requests**, and which records it appends. -/
theorem exists_holds_answerAll {genesis : Entry} (h : g.Holds genesis)
    (hasked : ∀ r ∈ asked, r.2.IsOrdinary) :
    ∃ g' : Growth, (g.shared.answerAll asked).2 = g'.shared ∧ g'.Holds genesis ∧
      g'.records = g.records ++ asked.filterMap fun r => r.2.record? := by
  refine ⟨_, answerAll_shared g asked, Growth.holds_run h ?_, ?_⟩
  · intro s hs
    obtain ⟨r, hr, hstep⟩ := List.mem_filterMap.mp hs
    exact (hasked r hr).step hstep
  · rw [Growth.records_run (Ledger.exists_digest?_last h.sound), List.filterMap_filterMap]
    rfl

end SharedLedger

/-! ### Sound ledgers -/

namespace Ledger

variable {l : Ledger}

/-- An entry of a sound ledger has its position for an index. -/
theorem IsSound.index_eq (h : l.IsSound) {i : Nat} (hi : i < l.entries.length) :
    l.entries[i].index = .ofNat i := by
  cases i with
  | zero =>
    have hfirst : l.first.index = 0 := h.first.index
    rwa [Ledger.first, List.head_eq_getElem] at hfirst
  | succ i => exact (h.later i hi).index

/-- A sound ledger refuses a record only for having no canonical form. -/
theorem IsSound.eq_error_of_nextEntry (h : l.IsSound) {machine : Timestamp} {type : RecordType}
    {payload : Value} {id : Uuid} {err : CanonicalError}
    (hnext : l.nextEntry machine type payload id = .error err) :
    canonicalize payload = .error err := by
  rcases nextEntry_eq_error_iff.mp hnext with hrecord | ⟨-, hlast⟩
  · exact Digest.ofValue?_eq_error_iff.mp hrecord
  · obtain ⟨d, hd⟩ := exists_digest?_last h
    rw [hd] at hlast
    cases hlast

/-- The indices of a sound ledger increase as long as they fit their width. -/
theorem IsSound.pairwise_index (h : l.IsSound) (hsize : l.size ≤ 2 ^ 64) :
    l.entries.Pairwise fun a b => a.index < b.index := by
  rw [List.pairwise_iff_getElem]
  intro i j hi hj hij
  have hj' : j < 2 ^ 64 := Nat.lt_of_lt_of_le hj hsize
  rw [h.index_eq hi, h.index_eq hj, UInt64.lt_iff_toNat_lt,
    UInt64.toNat_ofNat_of_lt' (hij.trans hj'), UInt64.toNat_ofNat_of_lt' hj']
  exact hij

end Ledger

/-! ### Clients of a new ledger -/

namespace SharedLedger

/-- An answer that shows the entries shows those that are there. -/
theorem eq_of_answer_eq_snapshot {s : SharedLedger} {r : Request} {es : List Entry}
    (h : .snapshot es = (s.answer r).1) : es = s.ledger.entries := by
  cases r with
  | append machine type payload =>
    rcases s.answer_append machine type payload with ⟨e, -, he⟩ | ⟨err, -, he⟩ <;>
      · rw [he] at h
        cases h
  | snapshot => exact Response.snapshot.inj h
  | verify => cases h
  | audit => cases h
  | size => cases h
  | json => cases h

section

variable {c : Clock} {now machine : Timestamp} {draws : Draws} {asked : List (Client × Request)}
  {client client' : Client} {type : RecordType} {payload : Value} {es es' : List Entry} {i j : Nat}

/-- **A new ledger is sound after any line of ordinary requests**, and so at every turn. -/
theorem isSound_answerAll_create (hasked : ∀ r ∈ asked, r.2.IsOrdinary) :
    ((create c now draws).answerAll asked).2.ledger.IsSound := by
  obtain ⟨g, hg, hholds, -⟩ := exists_holds_answerAll (Growth.holds_start c now draws) hasked
  exact (congrArg SharedLedger.ledger hg) ▸ hholds.sound

/-- The entries that are returned hold the records of the line that have a canonical form. -/
theorem records_answerAll_create (hasked : ∀ r ∈ asked, r.2.IsOrdinary) :
    (returned ((create c now draws).answerAll asked).1).map (fun e => (e.recordType, e.payload))
      = asked.filterMap fun r => r.2.record? := by
  obtain ⟨g, hg, hholds, hrecords⟩ :=
    exists_holds_answerAll (Growth.holds_start c now draws) hasked
  have htail := hholds.records
  have hledger : ((create c now draws).answerAll asked).2.ledger = g.ledger :=
    congrArg SharedLedger.ledger hg
  rw [← hledger, entries_answerAll, hrecords] at htail
  exact htail

/-- At each turn the ledger is made of what has been returned before. -/
theorem entries_answerAll_take (c : Clock) (now : Timestamp) (draws : Draws)
    (asked : List (Client × Request)) (i : Nat) :
    ((create c now draws).answerAll (asked.take i)).2.ledger.entries
      = Entry.genesis draws.next.1 (c.now now) ::
        returned (((create c now draws).answerAll asked).1.take i) := by
  rw [entries_answerAll, take_answerAll]
  rfl

/-- The entries that are returned are numbered by their positions. -/
theorem index_returned (hasked : ∀ r ∈ asked, r.2.IsOrdinary) {e : Entry}
    (h : (returned ((create c now draws).answerAll asked).1)[i]? = some e) :
    e.index = .ofNat (i + 1) := by
  have hentry : ((create c now draws).answerAll asked).2.ledger.entries[i + 1]? = some e :=
    (congrArg (·[i + 1]?) (entries_answerAll _ asked)).trans h
  obtain ⟨hi, rfl⟩ := List.getElem?_eq_some_iff.mp hentry
  exact (isSound_answerAll_create hasked).index_eq hi

/-- So their indices increase as long as they fit their width. -/
theorem pairwise_returned (hasked : ∀ r ∈ asked, r.2.IsOrdinary)
    (hsize : ((create c now draws).answerAll asked).2.ledger.size ≤ 2 ^ 64) :
    (returned ((create c now draws).answerAll asked).1).Pairwise fun a b => a.index < b.index := by
  have hpairwise := (isSound_answerAll_create hasked).pairwise_index hsize
  rw [entries_answerAll] at hpairwise
  exact hpairwise.of_cons

/-- **How a request to append is answered**: with an entry that holds its record, or with what is
wrong with the record, and then it might as well be left out. -/
theorem getElem?_answerAll_append (hasked : ∀ r ∈ asked, r.2.IsOrdinary)
    (h : asked[i]? = some (client, .append machine type payload)) :
    (∃ e bytes, ((create c now draws).answerAll asked).1[i]? = some (client, .appended (.ok e)) ∧
        (e.recordType, e.payload) = (type, payload) ∧ canonicalize payload = .ok bytes) ∨
      ∃ err, ((create c now draws).answerAll asked).1[i]? = some (client, .appended (.error err)) ∧
        canonicalize payload = .error err ∧
        (create c now draws).answerAll (asked.eraseIdx i)
          = (((create c now draws).answerAll asked).1.eraseIdx i,
            ((create c now draws).answerAll asked).2) := by
  rcases ((create c now draws).answerAll (asked.take i)).2.answer_append machine type payload with
    ⟨e, he, hs⟩ | ⟨err, herr, hs⟩
  · obtain ⟨_, _, hrecord, -, -⟩ := Ledger.nextEntry_eq_ok_iff.mp he
    obtain ⟨bytes, hbytes, -⟩ := Digest.ofValue?_eq_ok_iff.mp hrecord
    refine .inl ⟨e, bytes, ?_, Ledger.record_of_nextEntry he, hbytes⟩
    rw [getElem?_answerAll _ h, hs]
  · have hsound : ((create c now draws).answerAll (asked.take i)).2.ledger.IsSound :=
      isSound_answerAll_create fun r hr => hasked r (List.mem_of_mem_take hr)
    refine .inr ⟨err, ?_, hsound.eq_error_of_nextEntry herr, ?_⟩
    · rw [getElem?_answerAll _ h, hs]
    · exact answerAll_eraseIdx _ h (congrArg Prod.snd hs)

/-- **What is shown is the beginning of all that is shown later.** -/
theorem snapshot_prefix_snapshot (hij : i ≤ j)
    (hi : ((create c now draws).answerAll asked).1[i]? = some (client, .snapshot es))
    (hj : ((create c now draws).answerAll asked).1[j]? = some (client', .snapshot es')) :
    es <+: es' := by
  obtain ⟨r, -, hr⟩ := exists_request _ hi
  obtain ⟨r', -, hr'⟩ := exists_request _ hj
  rw [eq_of_answer_eq_snapshot hr, eq_of_answer_eq_snapshot hr', entries_answerAll_take,
    entries_answerAll_take]
  exact (List.prefix_cons_inj _).mpr ((List.take_prefix_take_left hij).filterMap _)

end

/-- **What the clients of a new ledger see**, whatever they ask and however their requests are
interleaved. The entries they are given are those of the ledger behind the genesis entry, each once
and in the order of the line; they hold the records that have a canonical form; and their indices
are their positions, so that those of each client increase as long as they fit their width. A client
that asks for the entries is shown the genesis entry and those returned before, the beginning of all
that is shown later. A request to append is refused only for its record, and might then as well be
left out. Every verification succeeds and every audit finds nothing. -/
theorem answerAll_create [DecidableEq Client] (c : Clock) (now : Timestamp) (draws : Draws)
    {programs : Client → List Request} {asked : List (Client × Request)}
    (hasked : Interleaves asked programs)
    (hprograms : ∀ client, ∀ r ∈ programs client, r.IsOrdinary)
    {answers : List (Client × Response)} {s : SharedLedger}
    (hs : (create c now draws).answerAll asked = (answers, s)) :
    let genesis := Entry.genesis draws.next.1 (c.now now)
    answers.map Prod.fst = asked.map Prod.fst ∧
    s.ledger.entries = genesis :: returned answers ∧
    (returned answers).map (fun e => (e.recordType, e.payload))
      = asked.filterMap (fun r => r.2.record?) ∧
    (∀ (i : Nat) (e : Entry), (returned answers)[i]? = some e → e.index = .ofNat (i + 1)) ∧
    (∀ client, (returned (answers.filter fun a => a.1 = client)).Sublist (returned answers) ∧
      (s.ledger.size ≤ 2 ^ 64 → (returned (answers.filter fun a => a.1 = client)).Pairwise
        fun a b => a.index < b.index)) ∧
    (∀ (i : Nat) (client : Client) (machine : Timestamp) (type : RecordType) (payload : Value),
      asked[i]? = some (client, .append machine type payload) →
      (∃ e bytes, answers[i]? = some (client, .appended (.ok e)) ∧
        (e.recordType, e.payload) = (type, payload) ∧ canonicalize payload = .ok bytes) ∨
      ∃ err, answers[i]? = some (client, .appended (.error err)) ∧
        canonicalize payload = .error err ∧
        (create c now draws).answerAll (asked.eraseIdx i) = (answers.eraseIdx i, s)) ∧
    (∀ (i : Nat) (client : Client), asked[i]? = some (client, .snapshot) →
      answers[i]? = some (client, .snapshot (genesis :: returned (answers.take i)))) ∧
    (∀ (i j : Nat) (client client' : Client) (es es' : List Entry), i ≤ j →
      answers[i]? = some (client, .snapshot es) →
      answers[j]? = some (client', .snapshot es') → es <+: es') ∧
    (∀ (i : Nat) (client : Client), asked[i]? = some (client, .size) →
      answers[i]? = some (client, .size ((returned (answers.take i)).length + 1))) ∧
    (∀ (i : Nat) (client : Client), asked[i]? = some (client, .verify) →
      answers[i]? = some (client, .verified (.ok ()))) ∧
    ∀ (i : Nat) (client : Client), asked[i]? = some (client, .audit) →
      ∃ report : AuditReport, answers[i]? = some (client, .audited report) ∧
        report.violations = [] := by
  intro genesis
  obtain ⟨rfl, rfl⟩ := Prod.mk.inj hs.symm
  have hordinary : ∀ r ∈ asked, r.2.IsOrdinary := fun r hr => hprograms r.1 r.2 (hasked.mem hr)
  have hturn : ∀ i, ((create c now draws).answerAll (asked.take i)).2.ledger.IsSound := fun i =>
    isSound_answerAll_create fun r hr => hordinary r (List.mem_of_mem_take hr)
  have hanswer : ∀ {i client r}, asked[i]? = some (client, r) →
      ((create c now draws).answerAll asked).1[i]?
        = some (client, (((create c now draws).answerAll (asked.take i)).2.answer r).1) :=
    fun h => getElem?_answerAll _ h
  refine ⟨clients_answerAll _ asked, entries_answerAll _ asked, records_answerAll_create hordinary,
    fun i e => index_returned hordinary, fun client => ?_,
    fun i client machine type payload => getElem?_answerAll_append hordinary, fun i client hi => ?_,
    fun i j client client' es es' => snapshot_prefix_snapshot, fun i client hi => ?_,
    fun i client hi => ?_, fun i client hi => ?_⟩
  · have hown : (returned (((create c now draws).answerAll asked).1.filter
        fun a => a.1 = client)).Sublist (returned ((create c now draws).answerAll asked).1) :=
      List.filter_sublist.filterMap _
    exact ⟨hown, fun hsize => (pairwise_returned hordinary hsize).sublist hown⟩
  · rw [hanswer hi, ← entries_answerAll_take]
    rfl
  · rw [hanswer hi, answer, Ledger.size, entries_answerAll_take, List.length_cons]
  · rw [hanswer hi, answer, Ledger.verify_of_isSound (hturn i)]
  · exact ⟨_, hanswer hi, Ledger.violations_eq_nil_iff.mpr (hturn i)⟩

/-- Two clients, one of which asks for a record that is refused. -/
theorem answerAll_create_two_clients :
    ∃ (answers : List (Bool × Response)) (s : SharedLedger),
      (create .system .epoch ⟨fun _ => 0, 0⟩).answerAll
        [(true, .append .epoch .observation (.string "a")),
          (false, .append .epoch .observation (.number (.float .nan))),
          (true, .snapshot), (false, .append .epoch ⟨"note", by decide⟩ .null),
          (false, .verify)] = (answers, s) ∧
      s.ledger.size = 3 ∧
      (∃ err, answers[1]? = some (false, .appended (.error err))) ∧
      (∃ e, answers[3]? = some (false, .appended (.ok e))) ∧
      answers[4]? = some (false, .verified (.ok ())) := by
  obtain ⟨programs, hasked, hprograms⟩ : ∃ programs, Interleaves
      [(true, .append .epoch .observation (.string "a")),
        (false, .append .epoch .observation (.number (.float .nan))),
        (true, .snapshot), (false, .append .epoch ⟨"note", by decide⟩ .null),
        (false, .verify)] programs ∧ ∀ client, ∀ r ∈ programs client, r.IsOrdinary := by
    refine ⟨fun client => cond client
      [.append .epoch .observation (.string "a"), .snapshot]
      [.append .epoch .observation (.number (.float .nan)),
        .append .epoch ⟨"note", by decide⟩ .null, .verify], ?_, ?_⟩
    · intro client
      cases client <;> rfl
    · rintro (_ | _) r hr <;> fin_cases hr
      · exact .inl rfl
      · exact .inr ⟨"note", by decide⟩
      · trivial
      · exact .inl rfl
      · trivial
  refine ⟨_, _, rfl, ?_⟩
  obtain ⟨-, hentries, hrecords, -, -, happend, -, -, -, hverify, -⟩ :=
    answerAll_create .system .epoch ⟨fun _ => 0, 0⟩ hasked hprograms rfl
  have hcount := congrArg List.length hrecords
  rw [List.length_map] at hcount
  refine ⟨?_, ?_, ?_, hverify 4 false rfl⟩
  · rw [Ledger.size, hentries, List.length_cons, hcount]
    rfl
  · rcases happend 1 false _ _ _ rfl with ⟨e, bytes, -, -, hbytes⟩ | ⟨err, herr, -⟩
    · cases hbytes
    · exact ⟨err, herr⟩
  · rcases happend 3 false _ _ _ rfl with ⟨e, bytes, he, -⟩ | ⟨err, -, herr, -⟩
    · exact ⟨e, he⟩
    · cases herr

end SharedLedger

end SealedLedger
