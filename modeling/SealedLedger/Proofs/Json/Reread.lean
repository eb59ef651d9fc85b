import SealedLedger.Proofs.Json.Reading

/-!
# Canonical text is read back

The reader takes a value off the front of its canonical text and leaves what follows. What it
returns is the same data with the members of each object in the order of their keys, and with each
number read again from its text; `Value.reread` is that value.

The proof follows the writer: a value without parts is read by its own lemma, and a container by the
induction hypotheses for its parts.

## Main definitions

* `Value.reread` — what is read from the canonical text of a value

## Main results

* `Json.value_reread` — a value is read back, whatever follows
* `Json.read?_canonicalize` — a whole text is read back
-/

namespace SealedLedger

namespace Value

/-! ### What is read -/

mutual

/-- What is read from the canonical text of a value. -/
def reread : Value → Value
  | .null => .null
  | .bool b => .bool b
  | .number n => .number n.reread
  | .string s => .string s
  | .array items => .array (rereadItems items)
  | .object members => .object ((rereadMembers members).mergeSort keyLE)
termination_by structural v => v

/-- Each item as it is read. -/
def rereadItems : List Value → List Value
  | [] => []
  | v :: vs => reread v :: rereadItems vs
termination_by structural vs => vs

/-- Each member as it is read. -/
def rereadMembers : List (String × Value) → List (String × Value)
  | [] => []
  | m :: ms => rereadMember m :: rereadMembers ms
termination_by structural ms => ms

/-- A member as it is read. -/
def rereadMember : String × Value → String × Value
  | (k, v) => (k, reread v)
termination_by structural m => m

end

theorem reread_array (items : List Value) : reread (.array items) = .array (items.map reread) := by
  have hitems : ∀ vs, rereadItems vs = vs.map reread := fun vs => by
    induction vs with
    | nil => rw [rereadItems, List.map_nil]
    | cons v vs ih => rw [rereadItems, ih, List.map_cons]
  rw [reread, hitems]

theorem reread_object (members : List (String × Value)) :
    reread (.object members)
      = .object ((members.mergeSort keyLE).map fun m => (m.1, reread m.2)) := by
  have hmembers : ∀ ms, rereadMembers ms = ms.map fun m => (m.1, reread m.2) := fun ms => by
    induction ms with
    | nil => rw [rereadMembers, List.map_nil]
    | cons m ms ih => rw [rereadMembers, rereadMember, ih, List.map_cons]
  rw [reread, hmembers, map_mergeSort_keyLE (fun m => (m.1, reread m.2)) fun _ => rfl]

end Value

namespace Json

open Canonical (Writes WritesMember commaSeparated)

/-! ### Canonical texts -/

/-- A value begins with neither white space nor a closing bracket. -/
theorem beginsItem_of_writes {v : Value} {t : List Char} (h : Writes v t) : BeginsItem t := by
  cases v with
  | null => exact ⟨_, _, by rw [← Except.ok.inj h]; rfl, by decide, by decide⟩
  | bool b =>
    cases b <;> exact ⟨_, _, by rw [← Except.ok.inj h]; rfl, by decide, by decide⟩
  | number n =>
    obtain ⟨-, rfl⟩ := Canonical.number_eq_ok_iff.mp h
    exact beginsItem_numeral n.isProper_numeral
  | string s =>
    rw [← Except.ok.inj h]
    exact beginsItem_string s
  | array items =>
    obtain ⟨ts, -, rfl⟩ := Canonical.writes_array_iff.mp h
    exact ⟨_, _, rfl, by decide, by decide⟩
  | object members =>
    obtain ⟨-, ts, -, rfl⟩ := Canonical.writes_object_iff.mp h
    exact ⟨_, _, rfl, by decide, by decide⟩

/-- Without blanks the items of a container are its items between commas. -/
theorem inside_nil (ts : List (List Char)) : inside [] [] ts = commaSeparated ts := by
  simp [inside]

/-! ### Values -/

/-- **A value is read back from its canonical text**, whatever follows, when its containers are
within the limit of the reader. -/
theorem value_reread {v : Value} {t : List Char} {depth : Nat} (hv : Writes v t)
    (hdepth : v.NestsWithin depth) : Reads (value true depth) t v.reread := by
  induction v using Value.induction generalizing t depth with
  | null =>
    rw [← Except.ok.inj hv]
    exact reads_null
  | bool b =>
    cases b <;> rw [← Except.ok.inj hv]
    · exact reads_false
    · exact reads_true
  | number n =>
    obtain ⟨hn, rfl⟩ := Canonical.number_eq_ok_iff.mp hv
    exact reads_numeral n.isProper_numeral (Number.number?_numeral hn)
  | string s =>
    rw [← Except.ok.inj hv]
    exact reads_string s
  | array items ih =>
    obtain ⟨ts, hts, rfl⟩ := Canonical.writes_array_iff.mp hv
    cases depth with
    | zero => exact hdepth.elim
    | succ depth =>
      have hread : ∀ v ∈ items, ∀ t, Writes v t → Reads (value true depth) t v.reread :=
        fun v hv t ht => ih v hv ht (hdepth v hv)
      rw [Value.reread_array, ← inside_nil]
      refine reads_items isBlank_nil isBlank_nil (List.forall₂_map_left_iff.mpr ?_)
      exact ((List.forall₂_and_left _ _).mpr ⟨hread, hts⟩).imp fun v t h =>
        ⟨beginsItem_of_writes h.2, h.1 t h.2⟩
  | object ms ih =>
    obtain ⟨hkeys, ts, hts, rfl⟩ := Canonical.writes_object_iff.mp hv
    cases depth with
    | zero => exact hdepth.elim
    | succ depth =>
      have hread : ∀ m ∈ ms.mergeSort Value.keyLE, ∀ t, Writes m.2 t →
          Reads (value true depth) t m.2.reread := fun m hm t ht =>
        have hm := List.mem_mergeSort.mp hm
        ih m hm ht (hdepth m hm)
      obtain ⟨ns, rfl, hns⟩ := exists_map_memberText Writes [':'] hts
      rw [Value.reread_object, ← inside_nil]
      refine reads_members isBlank_nil isBlank_nil (readsMembers_append isBlank_nil (fun _ => ?_)
        (List.forall₂_map_left_iff.mpr ?_))
      · simpa [List.map_map, Function.comp_def] using Value.nodup_map_fst_mergeSort.mpr hkeys
      · exact ((List.forall₂_and_left _ _).mpr ⟨hread, hns⟩).imp fun m n h =>
          have ⟨u, hu, hw⟩ := h.2.2
          ⟨h.2.1, u, hu, h.1 u hw⟩

/-- **A whole canonical text is read back.** -/
theorem read?_canonicalize {v : Value} {c : List UInt8} (hc : canonicalize v = .ok c)
    (hdepth : v.NestsWithin maxDepth) : read? c = .ok v.reread := by
  obtain ⟨t, ht, rfl⟩ := Canonical.canonicalize_eq_ok_iff.mp hc
  exact (value_reread ht hdepth).whole

end Json

end SealedLedger
