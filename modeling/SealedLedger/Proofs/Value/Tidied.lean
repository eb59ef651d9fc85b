import SealedLedger.Proofs.Value.Numbers

/-!
# Tidied values

Tidying orders the members of each object by the bytes of their keys, at every depth, and keeps
everything else. Where no object repeats a key nothing is lost, so a value that has canonical bytes
has the same ones after it was tidied.

## Main results

* `Value.tidy_object` — an object with distinct keys, tidied
* `Value.occurs_tidy_iff` — what stands in a tidied value
* `Value.pairwise_of_occurs_tidy` — the members of a tidied value are in order
* `Value.equivalent_tidy` — a tidied value is the same data
* `Canonical.canonicalize_tidy` — and it has the same canonical bytes
-/

namespace SealedLedger

open Canonical (Writes)

namespace Value

/-! ### Objects -/

/-- **An object with distinct keys, tidied**: its members in order, and the value of each tidied. -/
theorem tidy_object {ms : List (String × Value)} (h : (ms.map Prod.fst).Nodup) :
    tidy (.object ms) = .object ((ms.mergeSort keyLE).map fun m => (m.1, m.2.tidy)) := by
  have hkeys : ((tidyMembers ms).map Prod.fst).Nodup := by
    rwa [tidyMembers_eq, List.map_map]
  rw [tidy, lastOfEach_of_nodup hkeys, tidyMembers_eq,
    map_mergeSort_keyLE (fun m : String × Value => (m.1, m.2.tidy)) fun _ => rfl]

/-! ### What a tidied value holds -/

/-- **What stands in a tidied value is what stands in the value, tidied.** -/
theorem occurs_tidy_iff {u v : Value} (hv : v.HasDistinctKeys) :
    Occurs u v.tidy ↔ ∃ w, Occurs w v ∧ u = w.tidy := by
  constructor
  · intro h
    induction v using Value.induction with
    | null => cases h; exact ⟨_, .here, rfl⟩
    | bool b => cases h; exact ⟨_, .here, rfl⟩
    | number n => cases h; exact ⟨_, .here, rfl⟩
    | string s => cases h; exact ⟨_, .here, rfl⟩
    | array items ih =>
      rw [tidy_array] at h
      rcases h with _ | ⟨hw, h⟩
      · exact ⟨_, .here, (tidy_array items).symm⟩
      · obtain ⟨v, hmem, rfl⟩ := List.mem_map.mp hw
        obtain ⟨w, hw, rfl⟩ := ih v hmem (hv.item hmem) h
        exact ⟨w, .item hmem hw, rfl⟩
    | object ms ih =>
      have htidy := tidy_object (hv ms .here)
      rw [htidy] at h
      rcases h with _ | _ | ⟨hn, h⟩
      · exact ⟨_, .here, htidy.symm⟩
      · obtain ⟨m, hm, rfl⟩ := List.mem_map.mp hn
        have hm := List.mem_mergeSort.mp hm
        obtain ⟨w, hw, rfl⟩ := ih m hm (hv.member hm) h
        exact ⟨w, .member hm hw, rfl⟩
  · rintro ⟨w, hw, rfl⟩
    induction hw with
    | here => exact .here
    | item hmem _ ih =>
      rw [tidy_array]
      exact .item (List.mem_map.mpr ⟨_, hmem, rfl⟩) (ih (hv.item hmem))
    | @member ms m hm _ ih =>
      rw [tidy_object (hv ms .here)]
      exact .member (List.mem_map.mpr ⟨m, List.mem_mergeSort.mpr hm, rfl⟩) (ih (hv.member hm))

/-- Tidying keeps the numbers. -/
theorem occurs_number_tidy_iff {v : Value} (hv : v.HasDistinctKeys) {n : Number} :
    Occurs (.number n) v.tidy ↔ Occurs (.number n) v := by
  rw [occurs_tidy_iff hv]
  constructor
  · rintro ⟨w, hw, h⟩
    cases w with
    | number m => exact h ▸ hw
    | array items => cases h.trans (tidy_array items)
    | _ => cases h
  · exact fun h => ⟨_, h, rfl⟩

/-- The objects of a tidied value are those of the value, their members in order. -/
theorem exists_of_occurs_object_tidy {v : Value} (hv : v.HasDistinctKeys)
    {ns : List (String × Value)} (h : Occurs (.object ns) v.tidy) :
    ∃ ms, Occurs (.object ms) v ∧ ns = (ms.mergeSort keyLE).map fun m => (m.1, m.2.tidy) := by
  obtain ⟨w, hw, h⟩ := (occurs_tidy_iff hv).mp h
  cases w with
  | object ms => exact ⟨ms, hw, Value.object.inj (h.trans (tidy_object (hv ms hw)))⟩
  | array items => cases h.trans (tidy_array items)
  | _ => cases h

/-- **The members of each object in a tidied value are in the order of the bytes of their keys.** -/
theorem pairwise_of_occurs_tidy {v : Value} (hv : v.HasDistinctKeys) {ns : List (String × Value)}
    (h : Occurs (.object ns) v.tidy) : ns.Pairwise fun a b => keyLE a b = true := by
  obtain ⟨ms, -, rfl⟩ := exists_of_occurs_object_tidy hv h
  exact List.pairwise_map.mpr (pairwise_mergeSort_keyLE ms)

/-- Tidying repeats no key. -/
theorem hasDistinctKeys_tidy {v : Value} (hv : v.HasDistinctKeys) : v.tidy.HasDistinctKeys := by
  intro ns h
  obtain ⟨ms, hms, rfl⟩ := exists_of_occurs_object_tidy hv h
  rw [List.map_map]
  exact nodup_map_fst_mergeSort.mpr (hv ms hms)

/-! ### The same data -/

/-- **A tidied value is the same data**, if the value has a canonical text. -/
theorem equivalent_tidy {v : Value} (h : ∃ t, Writes v t) : Equivalent v v.tidy := by
  induction v using Value.induction with
  | null => exact .null
  | bool b => exact .bool b
  | string s => exact .string s
  | number n =>
    obtain ⟨t, ht⟩ := h
    exact .number ht ht
  | array items ih =>
    rw [tidy_array, equivalent_array_map_iff]
    exact fun v hv => ih v hv (Canonical.exists_writes_array_iff.mp h v hv)
  | object ms ih =>
    obtain ⟨hkeys, hms⟩ := Canonical.exists_writes_object_iff.mp h
    rw [tidy_object hkeys, equivalent_object_map_iff hkeys ((List.mergeSort_perm ms keyLE).map _)]
    exact fun m hm => ih m hm (hms m hm)

theorem exists_writes_tidy {v : Value} (h : ∃ t, Writes v t) : ∃ t, Writes v.tidy t := by
  obtain ⟨hkeys, hfinite⟩ := exists_writes_iff.mp h
  exact exists_writes_iff.mpr ⟨hasDistinctKeys_tidy hkeys, fun n hn =>
    hfinite n ((occurs_number_tidy_iff hkeys).mp hn)⟩

end Value

/-- **A value keeps its canonical bytes when it is tidied.** -/
theorem Canonical.canonicalize_tidy {v : Value} {c : List UInt8} (h : canonicalize v = .ok c) :
    canonicalize v.tidy = .ok c := by
  have hwrites := exists_canonicalize_iff.mp ⟨c, h⟩
  obtain ⟨d, hd⟩ := exists_canonicalize_iff.mpr (Value.exists_writes_tidy hwrites)
  rw [canonicalize_eq_of_equivalent (Value.equivalent_tidy hwrites) h hd, hd]

end SealedLedger
