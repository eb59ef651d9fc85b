import SealedLedger.Proofs.Json.Records
import SealedLedger.Proofs.Json.StoredNumbers

/-!
# Stored text is read back

The reader takes a value off the front of its stored text, in either layout, and finds the same
data in the same order; only the numbers may change, each to the one that its own text stands for.
A value that nests deeper than the reader follows is written all the same, and then it is refused.

## Main definitions

* `Json.Spacing.IsBlank` — a layout that adds nothing but blanks
* `Value.nested`, `Json.brackets` — arrays in arrays, and their text

## Main results

* `Json.exists_write_iff` — a value is written when all its doubles are finite
* `Json.reads_write` — a stored value is read back, whatever follows
* `Json.reads_written_sequence`, `Json.exists_fields_of_write` — records and their fields
* `Json.RecordForm.reads_written` — a record is read back when its fields are
* `Json.refuses_write` — a value that nests too deep is refused, although it was written
* `Json.read?_brackets` — arrays in arrays are read as far as the reader follows them
-/

namespace SealedLedger

namespace Json

open Value (Occurs NestsWithin HasDistinctKeys)

variable {s : Spacing} {d : Nat}

/-! ### Layouts -/

/-- A layout sets items off with blanks, and puts a colon and blanks after a key. -/
def Spacing.IsBlank (s : Spacing) : Prop :=
  (∀ depth, Json.IsBlank (s.before depth)) ∧
    ∃ gap, Json.IsBlank gap ∧ s.afterKey = ':' :: gap

theorem isBlank_lines : Spacing.lines.IsBlank := by
  refine ⟨fun depth c hc => ?_, [' '], fun c hc => .inl (List.mem_singleton.mp hc), rfl⟩
  rcases List.mem_cons.mp hc with rfl | hc
  · exact .inr rfl
  · exact .inl (List.eq_of_mem_replicate hc)

theorem isBlank_lineEnd : Json.IsBlank ['\n'] :=
  fun _ hc => .inr (List.mem_singleton.mp hc)

theorem isBlank_none : Spacing.none.IsBlank :=
  ⟨fun _ => isBlank_nil, [], isBlank_nil, rfl⟩

/-- A container is its items between brackets, with blanks in front of each of them and in front of
the closing bracket. -/
theorem exists_container_eq (hs : s.IsBlank) (depth : Nat) (opening closing : Char)
    (ts : List (List Char)) :
    ∃ pre post, Json.IsBlank pre ∧ Json.IsBlank post ∧
      container s depth opening closing ts = opening :: (inside pre post ts ++ [closing]) := by
  cases ts with
  | nil => exact ⟨[], [], isBlank_nil, isBlank_nil, rfl⟩
  | cons t ts =>
    refine ⟨_, _, hs.1 (depth + 1), hs.1 depth, ?_⟩
    rw [container, inside, List.cons_append, List.cons_append]
    exact List.cons_ne_nil _ _

/-! ### What is written -/

theorem writeItems_eq_ok_iff {items : List Value} {ts : List (List Char)} :
    writeItems s d items = .ok ts ↔ List.Forall₂ (fun v t => write s d v = .ok t) items ts := by
  have hitems : writeItems s d items = items.mapM (write s d) := by
    refine eq_mapM_of_cons (g := writeItems s d) rfl (fun v vs => ?_) items
    rw [writeItems]
    cases write s d v with
    | error e => rfl
    | ok t => cases writeItems s d vs <;> rfl
  rw [hitems, mapM_eq_ok_iff]

theorem writeMember_eq_ok_iff {m : String × Value} {t : List Char} :
    writeMember s d m = .ok t ↔
      ∃ u, write s d m.2 = .ok u ∧ t = Canonical.string m.1 ++ (s.afterKey ++ u) := by
  rw [writeMember]
  simp only [← List.append_assoc]
  cases write s d m.2 with
  | error e => simp
  | ok u => simp [eq_comm]

theorem writeMembers_eq_ok_iff {ms : List (String × Value)} {ts : List (List Char)} :
    writeMembers s d ms = .ok ts ↔ List.Forall₂ (fun m t => ∃ u, write s d m.2 = .ok u ∧
      t = Canonical.string m.1 ++ (s.afterKey ++ u)) ms ts := by
  have hmembers : writeMembers s d ms = ms.mapM (writeMember s d) := by
    refine eq_mapM_of_cons (g := writeMembers s d) rfl (fun m ms => ?_) ms
    rw [writeMembers]
    cases writeMember s d m with
    | error e => rfl
    | ok t => cases writeMembers s d ms <;> rfl
  rw [hmembers, mapM_eq_ok_iff]
  simp only [writeMember_eq_ok_iff]

/-- A string is written as in canonical text. -/
theorem eq_of_write_string {u : String} {t : List Char} (h : write s d (.string u) = .ok t) :
    t = Canonical.string u :=
  (Except.ok.inj h).symm

theorem write_array_iff {items : List Value} {t : List Char} :
    write s d (.array items) = .ok t ↔
      ∃ ts, List.Forall₂ (fun v t => write s (d + 1) v = .ok t) items ts ∧
        t = container s d '[' ']' ts := by
  rw [write]
  constructor
  · intro h
    split at h
    · next ts hts => exact ⟨ts, writeItems_eq_ok_iff.mp hts, (Except.ok.inj h).symm⟩
    · cases h
  · rintro ⟨ts, hts, rfl⟩
    rw [writeItems_eq_ok_iff.mpr hts]

theorem write_object_iff {ms : List (String × Value)} {t : List Char} :
    write s d (.object ms) = .ok t ↔
      ∃ ts, List.Forall₂ (fun m t => ∃ u, write s (d + 1) m.2 = .ok u ∧
        t = Canonical.string m.1 ++ (s.afterKey ++ u)) ms ts ∧
        t = container s d '\x7b' '\x7d' ts := by
  rw [write]
  constructor
  · intro h
    split at h
    · next ts hts => exact ⟨ts, writeMembers_eq_ok_iff.mp hts, (Except.ok.inj h).symm⟩
    · cases h
  · rintro ⟨ts, hts, rfl⟩
    rw [writeMembers_eq_ok_iff.mpr hts]

/-- **A value is written when all its doubles are finite.** -/
theorem exists_write_iff {v : Value} :
    (∃ t, write s d v = .ok t) ↔ ∀ n, Occurs (.number n) v → n.isFinite = true := by
  induction v using Value.induction generalizing d with
  | null => exact ⟨fun _ n hn => (by cases hn), fun _ => ⟨_, rfl⟩⟩
  | bool b =>
    refine ⟨fun _ n hn => (by cases hn), fun _ => ?_⟩
    cases b <;> exact ⟨_, rfl⟩
  | string t => exact ⟨fun _ n hn => (by cases hn), fun _ => ⟨_, rfl⟩⟩
  | number m =>
    constructor
    · rintro ⟨t, ht⟩ n hn
      obtain rfl := Value.occurs_number_iff.mp hn
      exact (numberText_eq_ok_iff.mp ht).1
    · exact fun h => ⟨_, numberText_eq_ok_iff.mpr ⟨h m .here, rfl⟩⟩
  | array items ih =>
    constructor
    · rintro ⟨t, ht⟩ n hn
      obtain ⟨ts, hts, -⟩ := write_array_iff.mp ht
      obtain ⟨v, hv, hn⟩ := Value.occurs_array_iff.mp hn
      exact (ih v hv).mp (Canonical.exists_forall₂_iff.mp ⟨ts, hts⟩ v hv) n hn
    · intro h
      obtain ⟨ts, hts⟩ := Canonical.exists_forall₂_iff.mpr fun v hv =>
        (@ih v hv (d + 1)).mpr fun n hn => h n (.item hv hn)
      exact ⟨_, write_array_iff.mpr ⟨ts, hts, rfl⟩⟩
  | object ms ih =>
    constructor
    · rintro ⟨t, ht⟩ n hn
      obtain ⟨ts, hts, -⟩ := write_object_iff.mp ht
      obtain ⟨m, hm, hn⟩ := Value.occurs_object_iff.mp hn
      obtain ⟨-, u, hu, -⟩ := Canonical.exists_forall₂_iff.mp ⟨ts, hts⟩ m hm
      exact (ih m hm).mp ⟨u, hu⟩ n hn
    · intro h
      obtain ⟨ts, hts⟩ := Canonical.exists_forall₂_iff.mpr fun m hm =>
        have ⟨u, hu⟩ := (@ih m hm (d + 1)).mpr fun n hn => h n (.member hm hn)
        (⟨_, u, hu, rfl⟩ : ∃ t, ∃ u, write s (d + 1) m.2 = .ok u ∧
          t = Canonical.string m.1 ++ (s.afterKey ++ u))
      exact ⟨_, write_object_iff.mpr ⟨ts, hts, rfl⟩⟩

/-- A value begins with neither white space nor a closing bracket. -/
theorem beginsItem_of_write (hs : s.IsBlank) {v : Value} {t : List Char}
    (h : write s d v = .ok t) : BeginsItem t := by
  cases v with
  | null => exact ⟨_, _, by rw [← Except.ok.inj h]; rfl, by decide, by decide⟩
  | bool b =>
    cases b <;> exact ⟨_, _, by rw [← Except.ok.inj h]; rfl, by decide, by decide⟩
  | number n =>
    obtain ⟨-, rfl⟩ := numberText_eq_ok_iff.mp h
    exact beginsItem_numeral n.isProper_storedNumeral
  | string s =>
    rw [← Except.ok.inj h]
    exact beginsItem_string s
  | array items =>
    obtain ⟨ts, -, rfl⟩ := write_array_iff.mp h
    obtain ⟨pre, post, -, -, htext⟩ := exists_container_eq hs d '[' ']' ts
    rw [htext]
    exact ⟨_, _, rfl, by decide, by decide⟩
  | object ms =>
    obtain ⟨ts, -, rfl⟩ := write_object_iff.mp h
    obtain ⟨pre, post, -, -, htext⟩ := exists_container_eq hs d '\x7b' '\x7d' ts
    rw [htext]
    exact ⟨_, _, rfl, by decide, by decide⟩

/-! ### What is read -/

/-- The texts of the members of an object, each taken apart behind the blanks after its key. -/
theorem exists_members_of_write {gap : List Char} (hgap : s.afterKey = ':' :: gap)
    {ms : List (String × Value)} {ts : List (List Char)}
    (h : List.Forall₂ (fun m t => ∃ u, write s d m.2 = .ok u ∧
      t = Canonical.string m.1 ++ (s.afterKey ++ u)) ms ts) :
    ∃ ns, ts = ns.map memberText ∧
      List.Forall₂ (fun m n => m.1 = n.1 ∧ ∃ u, n.2 = ':' :: (gap ++ u) ∧ write s d m.2 = .ok u)
        ms ns := by
  rw [hgap] at h
  exact exists_map_memberText (fun v u => write s d v = .ok u) (':' :: gap) h

/-- **Records are read back from the text of an array**, when each is read back from its own. -/
theorem reads_written_sequence {α β : Type} {item : Depth → Reader β} {depth : Depth}
    (hs : s.IsBlank) {as : List α} {field : α → Value} {result : α → β} {t : List Char}
    (hw : write s d (.array (as.map field)) = .ok t)
    (hread : ∀ a ∈ as, ∀ u, write s (d + 1) (field a) = .ok u →
      Reads (item depth) u (result a)) :
    Reads (sequence item (depth + 1)) t (as.map result) := by
  obtain ⟨ts, hts, rfl⟩ := write_array_iff.mp hw
  obtain ⟨pre, post, hpre, hpost, htext⟩ := exists_container_eq hs d '[' ']' ts
  rw [htext]
  refine reads_sequence (reads_array hpre hpost (List.forall₂_map_left_iff.mpr ?_))
  exact ((List.forall₂_and_left _ _).mpr ⟨hread, List.forall₂_map_left_iff.mp hts⟩).imp
    fun a u h => ⟨beginsItem_of_write hs h.2, h.1 u h.2⟩

/-- The text of a record that is stored as an object: a member for each field, with the text of the
field behind blanks. -/
theorem exists_fields_of_write {F : Type} (hs : s.IsBlank) {fields : List F} {name : F → String}
    {field : F → Value} {t : List Char}
    (h : write s d (.object (fields.map fun f => (name f, field f))) = .ok t) :
    ∃ pre post gap ns, IsBlank pre ∧ IsBlank post ∧ IsBlank gap ∧
      t = '\x7b' :: (inside pre post (ns.map memberText) ++ ['\x7d']) ∧
      List.Forall₂ (fun f n => name f = n.1 ∧ ∃ u, n.2 = ':' :: (gap ++ u) ∧
        write s (d + 1) (field f) = .ok u) fields ns := by
  obtain ⟨ts, hts, rfl⟩ := write_object_iff.mp h
  obtain ⟨gap, hgap, hafter⟩ := hs.2
  obtain ⟨ns, rfl, hns⟩ := exists_members_of_write hafter hts
  obtain ⟨pre, post, hpre, hpost, htext⟩ :=
    exists_container_eq hs d '\x7b' '\x7d' (ns.map memberText)
  exact ⟨pre, post, gap, ns, hpre, hpost, hgap, htext, List.forall₂_map_left_iff.mp hns⟩

/-- **A record is read back from the object it is stored as**, when each field is read back from its
own text. -/
theorem RecordForm.reads_written {Field Draft Record : Type} (form : RecordForm Field Draft Record)
    (hs : s.IsBlank) (value : Field → Value) (r : Record) {t : List Char}
    (hfield : ∀ f u draft, write s (d + 1) (value f) = .ok u →
      Reads (form.field draft f) u (form.put r draft f))
    (hw : write s d (.object (form.fields.map fun f => (form.name f, value f))) = .ok t) :
    ∃ u, t = '\x7b' :: u ∧ Reads (braced form.inside) u r := by
  obtain ⟨pre, post, gap, ns, hpre, hpost, hgap, rfl, hns⟩ := exists_fields_of_write hs hw
  refine ⟨_, rfl, form.reads_inside hpre hpost (readsMembers_of_fields (form.has_put_of_ne r)
    form.nodup form.has_empty (hns.imp fun f m hm draft hnew => ?_))⟩
  obtain ⟨hname, u, hu, hwrite⟩ := hm
  rw [← hname, hu]
  exact form.reads_member hnew hgap (hfield f u draft hwrite)

/-- **A value is read back from its stored text**, whatever follows, when its containers are within
the limit of the reader. -/
theorem reads_write {distinct : Bool} {depth : Nat} (hs : s.IsBlank) {v : Value} {t : List Char}
    (hw : write s d v = .ok t) (hkeys : distinct = true → v.HasDistinctKeys)
    (hdepth : v.NestsWithin depth) :
    Reads (value distinct depth) t (v.mapNumbers Number.stored) := by
  induction v using Value.induction generalizing t d depth with
  | null =>
    rw [← Except.ok.inj hw]
    exact reads_null
  | bool b =>
    cases b <;> rw [← Except.ok.inj hw]
    · exact reads_false
    · exact reads_true
  | number n =>
    obtain ⟨hn, rfl⟩ := numberText_eq_ok_iff.mp hw
    exact reads_numeral n.isProper_storedNumeral (Number.number?_storedNumeral hn)
  | string s =>
    rw [← Except.ok.inj hw]
    exact reads_string s
  | array items ih =>
    obtain ⟨ts, hts, rfl⟩ := write_array_iff.mp hw
    cases depth with
    | zero => exact hdepth.elim
    | succ depth =>
      have hread : ∀ v ∈ items, ∀ t, write s (d + 1) v = .ok t →
          Reads (value distinct depth) t (v.mapNumbers Number.stored) := fun v hv t ht =>
        ih v hv ht (fun h => (hkeys h).item hv) (hdepth v hv)
      obtain ⟨pre, post, hpre, hpost, htext⟩ := exists_container_eq hs d '[' ']' ts
      rw [htext, Value.mapNumbers_array]
      refine reads_items hpre hpost (List.forall₂_map_left_iff.mpr ?_)
      exact ((List.forall₂_and_left _ _).mpr ⟨hread, hts⟩).imp fun v t h =>
        ⟨beginsItem_of_write hs h.2, h.1 t h.2⟩
  | object ms ih =>
    obtain ⟨ts, hts, rfl⟩ := write_object_iff.mp hw
    cases depth with
    | zero => exact hdepth.elim
    | succ depth =>
      have hread : ∀ m ∈ ms, ∀ t, write s (d + 1) m.2 = .ok t →
          Reads (value distinct depth) t (m.2.mapNumbers Number.stored) := fun m hm t ht =>
        ih m hm ht (fun h => (hkeys h).member hm) (hdepth m hm)
      obtain ⟨gap, hgap, hafter⟩ := hs.2
      obtain ⟨ns, rfl, hns⟩ := exists_members_of_write hafter hts
      obtain ⟨pre, post, hpre, hpost, htext⟩ :=
        exists_container_eq hs d '\x7b' '\x7d' (ns.map memberText)
      rw [htext, Value.mapNumbers_object]
      refine reads_members hpre hpost (readsMembers_append hgap (fun h => ?_)
        (List.forall₂_map_left_iff.mpr ?_))
      · simpa [List.map_map, Function.comp_def] using hkeys h ms .here
      · exact ((List.forall₂_and_left _ _).mpr ⟨hread, hns⟩).imp fun m n h =>
          have ⟨u, hu, hw⟩ := h.2.2
          ⟨h.2.1, u, hu, h.1 u hw⟩

theorem exists_mem_of_forall₂ {α β : Type} {R : α → β → Prop} {as : List α} {bs : List β}
    (h : List.Forall₂ R as bs) :
    (∀ a ∈ as, ∃ b ∈ bs, R a b) ∧ ∀ b ∈ bs, ∃ a ∈ as, R a b := by
  induction h with
  | nil => exact ⟨fun _ h => (by cases h), fun _ h => by cases h⟩
  | @cons a b as bs hab _ ih =>
    refine ⟨List.forall_mem_cons.mpr ⟨⟨b, List.mem_cons_self .., hab⟩, fun a' ha' => ?_⟩,
      List.forall_mem_cons.mpr ⟨⟨a, List.mem_cons_self .., hab⟩, fun b' hb' => ?_⟩⟩
    · obtain ⟨b', hb', h⟩ := ih.1 a' ha'
      exact ⟨b', List.mem_cons_of_mem _ hb', h⟩
    · obtain ⟨a', ha', h⟩ := ih.2 b' hb'
      exact ⟨a', List.mem_cons_of_mem _ ha', h⟩

/-- **A value that nests too deep is refused**, although it was written. -/
theorem refuses_write {depth : Nat} (hs : s.IsBlank) {v : Value} {t : List Char}
    (hw : write s d v = .ok t) (hdepth : ¬v.NestsWithin depth) :
    Refuses (value false depth) t := by
  induction v using Value.induction generalizing t d depth with
  | null => exact absurd (by cases depth <;> trivial) hdepth
  | bool b => exact absurd (by cases depth <;> trivial) hdepth
  | number n => exact absurd (by cases depth <;> trivial) hdepth
  | string s => exact absurd (by cases depth <;> trivial) hdepth
  | array items ih =>
    obtain ⟨ts, hts, rfl⟩ := write_array_iff.mp hw
    obtain ⟨pre, post, hpre, hpost, htext⟩ := exists_container_eq hs d '[' ']' ts
    rw [htext]
    cases depth with
    | zero => exact refuses_opening (.inl rfl) _
    | succ depth =>
      have hread : ∀ v t, write s (d + 1) v = .ok t → v.NestsWithin depth →
          Reads (value false depth) t (v.mapNumbers Number.stored) := fun v t ht =>
        reads_write hs ht fun h => by cases h
      obtain ⟨htexts, hitems⟩ := exists_mem_of_forall₂ hts
      refine refuses_items hpre hpost (fun t ht => ?_) ?_
      · obtain ⟨v, hv, hw⟩ := hitems t ht
        refine ⟨beginsItem_of_write hs hw, ?_⟩
        by_cases hdeep : v.NestsWithin depth
        · exact .inl ⟨_, hread v t hw hdeep⟩
        · exact .inr (ih v hv hw hdeep)
      · rw [NestsWithin] at hdepth
        push Not at hdepth
        obtain ⟨v, hv, hdeep⟩ := hdepth
        obtain ⟨t, ht, hw⟩ := htexts v hv
        exact ⟨t, ht, ih v hv hw hdeep⟩
  | object ms ih =>
    obtain ⟨ts, hts, rfl⟩ := write_object_iff.mp hw
    obtain ⟨gap, hgap, hafter⟩ := hs.2
    obtain ⟨ns, rfl, hns⟩ := exists_members_of_write hafter hts
    obtain ⟨pre, post, hpre, hpost, htext⟩ :=
      exists_container_eq hs d '\x7b' '\x7d' (ns.map memberText)
    rw [htext]
    cases depth with
    | zero => exact refuses_opening (.inr rfl) _
    | succ depth =>
      obtain ⟨htexts, hmembers⟩ := exists_mem_of_forall₂ hns
      refine refuses_members hpre hpost (fun n hn done => ?_) ?_
      · obtain ⟨m, hm, -, u, hu, hw⟩ := hmembers n hn
        rw [hu]
        by_cases hdeep : m.2.NestsWithin depth
        · exact .inl ⟨_, reads_member (fun h => by cases h) hgap
            (reads_write hs hw (fun h => by cases h) hdeep)⟩
        · exact .inr (refuses_member hgap (ih m hm hw hdeep) done n.1)
      · rw [NestsWithin] at hdepth
        push Not at hdepth
        obtain ⟨m, hm, hdeep⟩ := hdepth
        obtain ⟨n, hn, -, u, hu, hw⟩ := htexts m hm
        refine ⟨n, hn, fun done => ?_⟩
        rw [hu]
        exact refuses_member hgap (ih m hm hw hdeep) done n.1

end Json

/-! ### Arrays in arrays -/

/-- An empty array inside as many arrays. -/
def Value.nested : Nat → Value
  | 0 => .array []
  | n + 1 => .array [nested n]

/-- As many opening brackets, and then as many closing ones. -/
def Json.brackets (n : Nat) : List Char :=
  List.replicate n '[' ++ List.replicate n ']'

theorem Value.nestsWithin_nested {n depth : Nat} : (nested n).NestsWithin depth ↔ n < depth := by
  induction n generalizing depth with
  | zero =>
    cases depth with
    | zero => exact iff_of_false id (Nat.lt_irrefl 0)
    | succ depth => exact iff_of_true (fun v hv => by cases hv) depth.succ_pos
  | succ n ih =>
    cases depth with
    | zero => exact iff_of_false id (Nat.not_lt_zero _)
    | succ depth =>
      rw [nested, NestsWithin, List.forall_mem_singleton, ih, Nat.succ_lt_succ_iff]

theorem Value.exists_writes_nested (n : Nat) : ∃ t, Canonical.Writes (nested n) t := by
  induction n with
  | zero => exact Canonical.exists_writes_array_iff.mpr fun v hv => by cases hv
  | succ n ih => exact Canonical.exists_writes_array_iff.mpr (List.forall_mem_singleton.mpr ih)

theorem Json.write_nested (n depth : Nat) :
    write .none depth (.nested n) = .ok (brackets (n + 1)) := by
  induction n generalizing depth with
  | zero => rfl
  | succ n ih =>
    refine write_array_iff.mpr ⟨[brackets (n + 1)], .cons (ih _) .nil, ?_⟩
    have hcontainer : container .none depth '[' ']' [brackets (n + 1)]
        = '[' :: (brackets (n + 1) ++ [']']) := by
      simp [container, Spacing.none, Canonical.commaSeparated]
    rw [hcontainer, brackets, List.replicate_succ, List.cons_append, brackets, List.append_assoc,
      ← List.replicate_succ']

/-- Brackets are read as far as the reader follows them. -/
theorem Json.read?_brackets {n : Nat} (hn : n < 127) :
    read? (Utf8.encode (brackets (n + 1))) = .ok (.nested n) := by
  have hnumbers : (Value.nested n).mapNumbers Number.stored = .nested n := by
    induction n with
    | zero => rfl
    | succ n ih => rw [Value.nested, Value.mapNumbers_array, List.map_singleton, ih (by omega)]
  have hread : Reads (value true 127) (brackets (n + 1)) _ := reads_write isBlank_none
    (write_nested n 0)
    (fun _ => Value.hasDistinctKeys_of_writes (Value.exists_writes_nested n))
    (Value.nestsWithin_nested.mpr hn)
  rw [hnumbers] at hread
  exact hread.whole

end SealedLedger
