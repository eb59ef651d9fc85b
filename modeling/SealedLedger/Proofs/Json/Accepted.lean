import SealedLedger.Json.Record
import SealedLedger.Proofs.Canonical.Numbers
import SealedLedger.Proofs.Canonical.Text
import SealedLedger.Proofs.Json.Consumption

/-!
# What the reader accepts has a canonical text

Whatever bytes it is given, the reader returns only values whose numbers are finite, whose objects
have distinct keys and whose containers are within its limit. These are the values that have a
canonical text and can be read back from it.

Each combinator of the reader is shown to pass on a property of its items, once and for all
properties; the theorem about values is then an induction on the containers that may be opened.

## Main definitions

* `Number.IsRead` — a number of the kind that the reader gives it
* `Json.IsAccepted` — a value that has a canonical text, within a limit of containers

## Main results

* `Json.elementsWithin_forall`, `Json.membersWithin_invariant` — the inside of a container
* `Json.value_invariant` — what every value in a text inherits from its parts
* `Json.value_accepted`, `Json.isRead_of_value` — one value, anywhere in a text, and its numbers
* `Json.sequence_forall`, `Json.exists_inside_of_record` — records
* `Json.exists_canonicalize_of_read?` — a whole text
-/

namespace SealedLedger

/-! ### Numbers -/

/-- A number of the kind that the reader gives it: it is an unsigned word only if it exceeds the
signed ones, and it is finite if it is a double. -/
def Number.IsRead : Number → Prop
  | .int _ => True
  | .uint u => 0x8000000000000000 ≤ u.toNat
  | .float x => x.isFinite = true

theorem Number.IsRead.isFinite {n : Number} (h : n.IsRead) : n.isFinite = true := by
  cases n with
  | int i => rfl
  | uint u => rfl
  | float x => exact h

theorem Number.isRead_ofUInt64 (u : UInt64) : (Number.ofUInt64 u).IsRead := by
  rw [ofUInt64]
  split
  · trivial
  · next h => exact Nat.le_of_not_lt h

namespace Json

open Canonical (Writes)

/-- **The number of a numeral is of its kind.** -/
theorem Numeral.isRead_of_number? {t : Numeral} {n : Number} (h : t.number? = some n) :
    n.IsRead := by
  cases n with
  | int i => trivial
  | float x => exact isFinite_of_number? h
  | uint u =>
    rw [number?] at h
    split at h
    · split at h
      · split at h <;> cases h
      · rw [← Option.some.inj h]
        exact Number.isRead_ofUInt64 _
    · obtain ⟨x, -, hx⟩ := Option.map_eq_some_iff.mp h
      cases hx

/-! ### Containers -/

/-- Every element of an array is one that the reader of items has returned. -/
theorem elementsWithin_forall {α : Type} {P : α → Prop} {item : Reader α}
    (hitem : ∀ input a rest, item input = .ok (a, rest) → P a) {fuel : Nat} {first : Bool}
    {input rest : List UInt8} {as : List α}
    (h : elementsWithin item fuel first input = .ok (as, rest)) : ∀ a ∈ as, P a := by
  have hitems := readsItems_of_elementsWithin h
  clear h
  induction hitems with
  | nil =>
    intro a ha
    cases ha
  | cons hsome _ ih =>
    obtain ⟨left, -, hread⟩ := nextElement_eq_some_iff.mp hsome
    exact List.forall_mem_cons.mpr ⟨hitem _ _ _ hread, ih⟩

/-- A property of the state that every step keeps holds after all members. -/
theorem membersWithin_invariant {σ : Type} {P : σ → Prop} {step : σ → String → Reader σ}
    (hstep : ∀ s k input s' rest, P s → step s k input = .ok (s', rest) → P s') {fuel : Nat}
    {first : Bool} {input rest : List UInt8} {s s' : σ}
    (h : membersWithin step fuel first s input = .ok (s', rest)) (hs : P s) : P s' := by
  induction fuel generalizing first input s with
  | zero => cases h
  | succ fuel ih =>
    rw [membersWithin] at h
    split at h
    · cases h
    · obtain ⟨rfl, -⟩ := Prod.mk.inj (Except.ok.inj h)
      exact hs
    · split at h
      · cases h
      · next state rest' hread => exact ih h (hstep _ _ _ _ _ hs hread)

/-- The members gathered so far keep distinct keys, if the reader asks for them, and every value
among them is one that the reader of values has returned. -/
theorem member_forall {distinct : Bool} {P : Value → Prop} {item : Reader Value}
    (hitem : ∀ input v rest, item input = .ok (v, rest) → P v) {key : String}
    {input rest : List UInt8} {done ms : List (String × Value)}
    (hdone : (distinct = true → (done.map Prod.fst).Nodup) ∧ ∀ m ∈ done, P m.2)
    (h : member distinct item done key input = .ok (ms, rest)) :
    (distinct = true → (ms.map Prod.fst).Nodup) ∧ ∀ m ∈ ms, P m.2 := by
  rw [member] at h
  split at h
  · cases h
  · next hnew =>
    split at h
    · cases h
    · split at h
      · cases h
      · next v _ hread =>
        obtain ⟨rfl, -⟩ := Prod.mk.inj (Except.ok.inj h)
        constructor
        · intro hdistinct
          rw [hdistinct, Bool.true_and, Bool.not_eq_true] at hnew
          exact Value.nodup_map_fst_concat (hdone.1 hdistinct)
            (Value.any_key_eq_false_iff.mp hnew) v
        · intro m hm
          rcases List.mem_append.mp hm with hm | hm
          · exact hdone.2 m hm
          · rw [List.mem_singleton.mp hm]
            exact hitem _ _ _ hread

/-! ### Values -/

/-- A value that the reader may return where the given number of containers may still be opened. -/
structure IsAccepted (depth : Nat) (v : Value) : Prop where
  nestsWithin : v.NestsWithin depth
  exists_writes : ∃ t, Writes v t

theorem isAccepted_array_iff {depth : Nat} {items : List Value} :
    IsAccepted (depth + 1) (.array items) ↔ ∀ v ∈ items, IsAccepted depth v :=
  ⟨fun h v hv => ⟨h.nestsWithin v hv, Canonical.exists_writes_array_iff.mp h.exists_writes v hv⟩,
    fun h => ⟨fun v hv => (h v hv).nestsWithin,
      Canonical.exists_writes_array_iff.mpr fun v hv => (h v hv).exists_writes⟩⟩

theorem isAccepted_object_iff {depth : Nat} {ms : List (String × Value)} :
    IsAccepted (depth + 1) (.object ms) ↔
      (ms.map Prod.fst).Nodup ∧ ∀ m ∈ ms, IsAccepted depth m.2 := by
  constructor
  · intro h
    obtain ⟨hkeys, hvalues⟩ := Canonical.exists_writes_object_iff.mp h.exists_writes
    exact ⟨hkeys, fun m hm => ⟨h.nestsWithin m hm, hvalues m hm⟩⟩
  · rintro ⟨hkeys, hvalues⟩
    exact ⟨fun m hm => (hvalues m hm).nestsWithin,
      Canonical.exists_writes_object_iff.mpr ⟨hkeys, fun m hm => (hvalues m hm).exists_writes⟩⟩

theorem number_isRead {input rest : List UInt8} {n : Number}
    (h : number input = .ok (n, rest)) : n.IsRead := by
  obtain ⟨t, -, hn⟩ := exists_numeral_of_number h
  exact Numeral.isRead_of_number? hn

theorem constant_eq {letters : List Char} {v w : Value} {input rest : List UInt8}
    (h : constant letters v input = .ok (w, rest)) : w = v := by
  rw [constant] at h
  split at h
  · cases h
  · exact (Prod.mk.inj (Except.ok.inj h)).1.symm

/-- A scalar is a word, a string, or a number of its kind. -/
theorem scalar_cases {b : UInt8} {input rest : List UInt8} {v : Value}
    (h : scalar b input = .ok (v, rest)) :
    v = .null ∨ (∃ a, v = .bool a) ∨ (∃ s, v = .string s) ∨ ∃ n, v = .number n ∧ n.IsRead := by
  rw [scalar] at h
  split at h
  · exact .inl (constant_eq h)
  split at h
  · exact .inr (.inl ⟨true, constant_eq h⟩)
  split at h
  · exact .inr (.inl ⟨false, constant_eq h⟩)
  split at h
  · split at h
    · cases h
    · next s _ _ =>
      obtain ⟨rfl, -⟩ := Prod.mk.inj (Except.ok.inj h)
      exact .inr (.inr (.inl ⟨s, rfl⟩))
  split at h
  · split at h
    · cases h
    · next n _ hnumber =>
      obtain ⟨rfl, -⟩ := Prod.mk.inj (Except.ok.inj h)
      exact .inr (.inr (.inr ⟨n, rfl, number_isRead hnumber⟩))
  · cases h

theorem isAccepted_of_scalar (depth : Nat) {b : UInt8} {input rest : List UInt8} {v : Value}
    (h : scalar b input = .ok (v, rest)) : IsAccepted depth v := by
  rcases scalar_cases h with rfl | ⟨_ | _, rfl⟩ | ⟨s, rfl⟩ | ⟨n, rfl, hn⟩
  · exact ⟨by cases depth <;> trivial, _, rfl⟩
  · exact ⟨by cases depth <;> trivial, _, rfl⟩
  · exact ⟨by cases depth <;> trivial, _, rfl⟩
  · exact ⟨by cases depth <;> trivial, _, rfl⟩
  · exact ⟨by cases depth <;> trivial, _, Canonical.number_of_isFinite hn.isFinite⟩

/-- **What the reader returns is built up from scalars.** A property of all scalars that passes from
the items and the members of a container to the container holds of every value that is returned.
Where the reader asks for distinct keys, the objects are those with distinct keys. -/
theorem value_invariant {distinct : Bool} {P : Depth → Value → Prop}
    (hscalar : ∀ depth b input v rest, scalar b input = .ok (v, rest) → P depth v)
    (harray : ∀ depth items, (∀ v ∈ items, P depth v) → P (depth + 1) (.array items))
    (hobject : ∀ depth ms, (distinct = true → (ms.map Prod.fst).Nodup) →
      (∀ m ∈ ms, P depth m.2) → P (depth + 1) (.object ms))
    {depth : Depth} {input rest : List UInt8} {v : Value}
    (h : value distinct depth input = .ok (v, rest)) : P depth v := by
  induction depth generalizing input rest v with
  | zero =>
    rw [value] at h
    split at h
    · cases h
    · split at h
      · cases h
      · exact hscalar 0 _ _ _ _ h
  | succ depth ih =>
    have hitem : ∀ input v rest, value distinct depth input = .ok (v, rest) → P depth v :=
      fun _ _ _ => ih
    rw [value] at h
    split at h
    · cases h
    split at h
    · split at h
      · cases h
      · next items _ hitems =>
        obtain ⟨rfl, -⟩ := Prod.mk.inj (Except.ok.inj h)
        obtain ⟨_, hinside, -⟩ := bracketed_eq_ok_iff.mp hitems
        exact harray depth items (elementsWithin_forall hitem hinside)
    split at h
    · split at h
      · cases h
      · next ms _ hms =>
        obtain ⟨rfl, -⟩ := Prod.mk.inj (Except.ok.inj h)
        obtain ⟨_, hinside, -⟩ := braced_eq_ok_iff.mp hms
        obtain ⟨hkeys, hvalues⟩ := membersWithin_invariant
          (fun _ _ _ _ _ hdone hread => member_forall hitem hdone hread) hinside
          ⟨fun _ => List.nodup_nil, fun m hm => by cases hm⟩
        exact hobject depth ms hkeys hvalues
    · exact hscalar (depth + 1) _ _ _ _ h

/-- **The reader returns only values that have a canonical text**, within its limit of
containers. -/
theorem value_accepted {depth : Nat} {input rest : List UInt8} {v : Value}
    (h : value true depth input = .ok (v, rest)) : IsAccepted depth v :=
  value_invariant (fun depth _ _ _ _ => isAccepted_of_scalar depth)
    (fun _ _ => isAccepted_array_iff.mpr)
    (fun _ _ hkeys hvalues => isAccepted_object_iff.mpr ⟨hkeys rfl, hvalues⟩) h

/-- **The numbers that the reader returns are of their kinds**, whatever it asks of keys. -/
theorem isRead_of_value {distinct : Bool} {depth : Depth} {input rest : List UInt8} {v : Value}
    (h : value distinct depth input = .ok (v, rest)) {n : Number}
    (hn : Value.Occurs (.number n) v) : n.IsRead := by
  refine value_invariant (P := fun _ v => ∀ n, Value.Occurs (.number n) v → n.IsRead)
    ?_ ?_ ?_ h n hn
  · intro _ _ _ _ _ hread n hn
    rcases scalar_cases hread with rfl | ⟨a, rfl⟩ | ⟨s, rfl⟩ | ⟨m, rfl, hm⟩
    · cases hn
    · cases hn
    · cases hn
    · rwa [Value.occurs_number_iff.mp hn]
  · intro _ items ih n hn
    obtain ⟨v, hv, hn⟩ := Value.occurs_array_iff.mp hn
    exact ih v hv n hn
  · intro _ ms _ ih n hn
    obtain ⟨m, hm, hn⟩ := Value.occurs_object_iff.mp hn
    exact ih m hm n hn

/-! ### Records -/

/-- Every record of a sequence is one that the reader of records has returned. -/
theorem sequence_forall {α : Type} {P : α → Prop} {item : Depth → Reader α} {depth : Depth}
    (hitem : ∀ input a rest, item depth input = .ok (a, rest) → P a) {input rest : List UInt8}
    {as : List α} (h : sequence item (depth + 1) input = .ok (as, rest)) : ∀ a ∈ as, P a := by
  rw [sequence] at h
  split at h
  · cases h
  split at h
  · obtain ⟨_, hinside, -⟩ := bracketed_eq_ok_iff.mp h
    exact elementsWithin_forall hitem hinside
  · cases h

/-- A record is one that the reader of one of its two forms has returned. -/
theorem exists_inside_of_record {α : Type} {expected : String}
    {inArray inObject : Depth → Reader α} {depth : Depth} {input rest : List UInt8} {a : α}
    (h : record expected inArray inObject (depth + 1) input = .ok (a, rest)) :
    ∃ inside left,
      inArray depth inside = .ok (a, left) ∨ inObject depth inside = .ok (a, left) := by
  rw [record] at h
  split at h
  · cases h
  split at h
  · obtain ⟨left, hinside, -⟩ := bracketed_eq_ok_iff.mp h
    exact ⟨_, left, .inl hinside⟩
  split at h
  · obtain ⟨left, hinside, -⟩ := braced_eq_ok_iff.mp h
    exact ⟨_, left, .inr hinside⟩
  · cases h

/-! ### Whole texts -/

/-- What a whole text is taken for is what its reader returns. -/
theorem exists_of_whole {α : Type} {r : Reader α} {input : List UInt8} {a : α}
    (h : whole r input = .ok a) : ∃ rest, r input = .ok (a, rest) := by
  obtain ⟨rest, hread, -⟩ := whole_eq_ok_iff.mp h
  exact ⟨rest, hread⟩

theorem isAccepted_of_read? {input : List UInt8} {v : Value} (h : read? input = .ok v) :
    IsAccepted maxDepth v := by
  obtain ⟨rest, hread⟩ := exists_of_whole h
  exact value_accepted hread

/-- **Every text that is accepted has canonical bytes.** -/
theorem exists_canonicalize_of_read? {input : List UInt8} {v : Value} (h : read? input = .ok v) :
    ∃ c, canonicalize v = .ok c :=
  Canonical.exists_canonicalize_iff.mpr (isAccepted_of_read? h).exists_writes

end Json

end SealedLedger
