import SealedLedger.Proofs.Canonical.Arranged
import SealedLedger.Proofs.Text.Utf16

/-!
# Keys in the order of their units

RFC 8785 orders the members of an object by the UTF-16 units of their keys, and the canonical text
orders them by their bytes. The two orders differ on keys that part at a character from `U+E000` to
`U+FFFF` in one and at a character above `U+FFFF` in the other, and on no other keys. So they
arrange the members of each object inside a value alike exactly when no two keys of one object part
like that; in particular when no object has both a key with a character of the one kind and a key
with a character of the other.

## Main definitions

* `Canonical.bytesLE`, `Canonical.unitsLE` — the order of bytes and the order of units
* `Canonical.MixesUnits` — the keys on which the two orders may differ

## Main results

* `Canonical.arrangedAlike_unitsLE_iff` — when the two orders arrange members alike
* `canonicalize_eq_by_units` — bytes and units give the same canonical bytes
-/

namespace SealedLedger

namespace Canonical

open Value (keyLE Occurs)

/-! ### Bytes and units -/

/-- A key comes before or with another in the order of bytes. -/
def bytesLE (k l : String) : Bool :=
  utf8 k ≤ utf8 l

/-- A key comes before or with another in the order of units. -/
def unitsLE (k l : String) : Bool :=
  utf16 k ≤ utf16 l

theorem unitsLE_iff {k l : String} : unitsLE k l = true ↔ utf16 k ≤ utf16 l := by
  rw [unitsLE, decide_eq_true_iff]

/-- The canonical text is that in the order of bytes. -/
theorem textBy_bytesLE (v : Value) : textBy bytesLE v = text v :=
  textBy_eq_text fun _ _ => rfl

theorem pairwise_mergeSort_unitsLE (members : List (String × Value)) :
    (members.mergeSort fun a b => unitsLE a.1 b.1).Pairwise fun a b => utf16 a.1 ≤ utf16 b.1 := by
  refine (List.pairwise_mergeSort ?_ ?_ members).imp unitsLE_iff.mp
  · intro a b c hab hbc
    rw [unitsLE_iff] at hab hbc ⊢
    exact List.le_trans hab hbc
  · intro a b
    rw [Bool.or_eq_true, unitsLE_iff, unitsLE_iff]
    exact List.le_total _ _

/-- **Bytes and units arrange members alike** exactly when no two keys of one object cross. -/
theorem arrangedAlike_unitsLE_iff {v : Value} :
    ArrangedAlike unitsLE v ↔
      ∀ members, Occurs (.object members) v →
        ∀ m ∈ members, ∀ n ∈ members, ¬ Utf16.Crosses m.1 n.1 := by
  constructor
  · intro h members hmembers
    have hbytes : (members.mergeSort keyLE).Pairwise fun m n => ¬ Utf16.Crosses n.1 m.1 :=
      (Value.pairwise_mergeSort_keyLE members).imp fun hle hcross =>
        Value.keyLE_iff.mp hle (Utf16.Crosses.lt_and_lt hcross).1
    have hunits : (members.mergeSort keyLE).Pairwise fun m n => ¬ Utf16.Crosses m.1 n.1 := by
      rw [← h members hmembers]
      exact (pairwise_mergeSort_unitsLE members).imp fun hle hcross =>
        hle (Utf16.Crosses.lt_and_lt hcross).2
    -- whichever of two members comes first in the one list, neither way do their keys cross
    have hall := hunits.forall_of_forall_of_flip
      (fun m _ hcross => List.lt_irrefl _ (Utf16.Crosses.lt_and_lt hcross).1) hbytes
    exact fun m hm n hn => hall (List.mem_mergeSort.mpr hm) (List.mem_mergeSort.mpr hn)
  · intro h
    refine arrangedAlike_of_iff fun members hmembers m hm n hn => ?_
    have hlt : utf16 n.1 < utf16 m.1 ↔ utf8 n.1 < utf8 m.1 :=
      (utf16_lt_utf16_iff (h members hmembers n hn m hm) (h members hmembers m hm n hn)).trans
        utf8_lt_utf8_iff.symm
    rw [unitsLE_iff]
    exact not_congr hlt

/-- Among the keys there is one with a character that is one unit above the pairs, and there is one
with a character that is a pair. -/
def MixesUnits (keys : List String) : Prop :=
  (∃ k ∈ keys, ∃ c ∈ k.toList, Utf16.IsHigh c) ∧ ∃ k ∈ keys, ∃ c ∈ k.toList, Utf16.IsPaired c

instance (keys : List String) : Decidable (MixesUnits keys) :=
  decidable_of_iff
    ((keys.any fun k => k.toList.any fun c => Utf16.IsHigh c) = true ∧
      (keys.any fun k => k.toList.any fun c => Utf16.IsPaired c) = true)
    (by simp [MixesUnits])

/-- Keys that do not mix do not cross. -/
theorem not_crosses {keys : List String} (h : ¬ MixesUnits keys) {k l : String} (hk : k ∈ keys)
    (hl : l ∈ keys) : ¬ Utf16.Crosses k l := by
  rintro ⟨⟨c, d⟩, hpart, hhigh, hpaired⟩
  obtain ⟨hc, hd⟩ := mem_of_parting? hpart
  exact h ⟨⟨k, hk, c, hc, hhigh⟩, l, hl, d, hd, hpaired⟩

/-- Characters up to `U+FFFF` do not mix. -/
theorem not_mixesUnits {keys : List String} (h : ∀ k ∈ keys, ∀ c ∈ k.toList, c.toNat ≤ 0xFFFF) :
    ¬ MixesUnits keys := by
  rintro ⟨-, k, hk, c, hc, hpaired⟩
  exact absurd (h k hk c hc) (Nat.not_le.mpr hpaired)

end Canonical

open Canonical Value

/-- **Bytes and units give the same canonical bytes.** The canonical bytes of a value are those of
its text with keys in the order of bytes. With keys in the order of units they are the same, when no
object inside the value has both a key with a character from `U+E000` to `U+FFFF` and a key with a
character above `U+FFFF`; so in particular when all keys are of characters up to `U+FFFF`, or of
ASCII characters. Where the value has no canonical bytes, it is refused for the same key or the same
number. A value that has them has the same ones by units exactly when no two keys of one object part
at a character of the one kind and a character of the other. -/
theorem canonicalize_eq_by_units (v : Value) :
    canonicalize v = (textBy bytesLE v).map Utf8.encode ∧
    ((∀ members, Occurs (.object members) v → ¬ MixesUnits (members.map Prod.fst)) →
      canonicalize v = (textBy unitsLE v).map Utf8.encode) ∧
    ((∀ members, Occurs (.object members) v → ∀ m ∈ members, ∀ c ∈ m.1.toList, c.toNat ≤ 0xFFFF) →
      canonicalize v = (textBy unitsLE v).map Utf8.encode) ∧
    ((∀ members, Occurs (.object members) v → ∀ m ∈ members, ∀ c ∈ m.1.toList, c.toNat < 0x80) →
      canonicalize v = (textBy unitsLE v).map Utf8.encode) ∧
    ((∃ c, canonicalize v = .ok c) →
      (canonicalize v = (textBy unitsLE v).map Utf8.encode ↔
        ∀ members, Occurs (.object members) v →
          ∀ m ∈ members, ∀ n ∈ members, ¬ Utf16.Crosses m.1 n.1)) := by
  have hunits : (∀ members, Occurs (.object members) v → ¬ MixesUnits (members.map Prod.fst)) →
      canonicalize v = (textBy unitsLE v).map Utf8.encode := by
    intro h
    have halike : ArrangedAlike unitsLE v :=
      arrangedAlike_unitsLE_iff.mpr fun members hmembers m hm n hn =>
        not_crosses (h members hmembers) (List.mem_map_of_mem hm) (List.mem_map_of_mem hn)
    rw [canonicalize, textBy_eq_text halike]
  have hplane : (∀ members, Occurs (.object members) v → ∀ m ∈ members, ∀ c ∈ m.1.toList,
      c.toNat ≤ 0xFFFF) → canonicalize v = (textBy unitsLE v).map Utf8.encode := by
    intro h
    refine hunits fun members hmembers => not_mixesUnits ?_
    exact List.forall_mem_map.mpr (h members hmembers)
  refine ⟨by rw [textBy_bytesLE, canonicalize], hunits, hplane, fun h => ?_, fun h => ?_⟩
  · refine hplane fun members hmembers m hm c hc => ?_
    have hascii := h members hmembers m hm c hc
    omega
  · obtain ⟨t, ht⟩ := exists_canonicalize_iff.mp h
    rw [← arrangedAlike_unitsLE_iff, ← textBy_eq_text_iff ht, canonicalize]
    refine ⟨fun heq => ?_, fun heq => by rw [heq]⟩
    rw [show text v = .ok t from ht] at heq ⊢
    obtain ⟨u, hu, hbytes⟩ := map_eq_ok_iff.mp heq.symm
    rw [hu, Utf8.encode_injective hbytes]

/-- A key of the one kind stands in an object, and a key of the other in an object inside it. In one
object they part, and the canonical bytes are not those by units. -/
theorem canonicalize_eq_by_units_nested :
    (∃ v : Value, (∀ members, Occurs (.object members) v → ¬ MixesUnits (members.map Prod.fst)) ∧
      canonicalize v = (textBy unitsLE v).map Utf8.encode) ∧
    ∃ v : Value, (∃ c, canonicalize v = .ok c) ∧
      canonicalize v ≠ (textBy unitsLE v).map Utf8.encode := by
  have hnull : ∀ ms, ¬ Occurs (.object ms) .null := by
    rintro ms ⟨⟩
  have hkeys : ∀ members, Occurs (.object members)
      (.object [("｡", .object [("😀", .null), ("a", .null)]), ("z", .null)]) →
      ¬ MixesUnits (members.map Prod.fst) := by
    intro members h
    simp only [occurs_object_object_iff, List.mem_cons, List.not_mem_nil, or_false,
      exists_eq_or_imp, exists_eq_left, hnull] at h
    rcases h with rfl | rfl
    · decide
    · decide
  have hpart : ∃ c, canonicalize (.object [("｡", .null), ("😀", .null)]) = .ok c := by
    rw [exists_canonicalize_iff, exists_writes_object_iff]
    refine ⟨by decide, fun m hm => ?_⟩
    simp only [List.mem_cons, List.not_mem_nil, or_false] at hm
    rcases hm with rfl | rfl
    · exact ⟨_, rfl⟩
    · exact ⟨_, rfl⟩
  refine ⟨⟨_, hkeys, (canonicalize_eq_by_units _).2.1 hkeys⟩, _, hpart, fun heq => ?_⟩
  have hcross := ((canonicalize_eq_by_units _).2.2.2.2 hpart).mp heq _ .here
  exact hcross _ (List.mem_cons_self ..) _ (List.mem_cons_of_mem _ (List.mem_cons_self ..))
    (by decide)

end SealedLedger
