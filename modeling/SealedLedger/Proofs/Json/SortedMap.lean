import SealedLedger.Json.Data
import SealedLedger.Proofs.Value.Numbers

/-!
# Sorted maps

A sorted map takes up members one by one. A member of a new key is put where the order of the keys'
bytes demands it, and a member of a key that is bound takes the place of the old one. In the end the
map holds the last member of each key, sorted.

## Main definitions

* `Json.gathered` — members taken up by a sorted map

## Main results

* `Value.nodup_lastOfEach` — no key is left twice
* `Value.mem_lastOfEach_iff` — the members that are left
* `Json.insertMember_of_mem`, `Json.insertMember_perm` — a key that is bound, and a new one
* `Json.gathered_eq_mergeSort` — what a sorted map holds
-/

namespace SealedLedger

/-! ### The last member of each key -/

namespace Value

variable {α : Type}

theorem lastOfEach_concat (ms : List (String × α)) (m : String × α) :
    lastOfEach (ms ++ [m]) =
      if (lastOfEach ms).any (·.1 == m.1) then
        (lastOfEach ms).map fun n => if n.1 == m.1 then m else n
      else lastOfEach ms ++ [m] := by
  rw [lastOfEach, List.foldl_concat, lastOfEach]

theorem fst_replaced (m n : String × α) : (if n.1 == m.1 then m else n).1 = n.1 := by
  split
  · next heq => exact (eq_of_beq heq).symm
  · rfl

theorem nodup_lastOfEach (ms : List (String × α)) :
    ((lastOfEach ms).map Prod.fst).Nodup := by
  induction ms using List.reverseRecOn with
  | nil => exact List.nodup_nil
  | append_singleton ms m ih =>
    rw [lastOfEach_concat]
    split
    · have hsame : (Prod.fst ∘ fun n : String × α => if n.1 == m.1 then m else n) = Prod.fst :=
        funext (fst_replaced m)
      rwa [List.map_map, hsame]
    · next hany =>
      exact nodup_map_fst_concat ih
        (any_key_eq_false_iff.mp (Bool.eq_false_iff.mpr hany)) m.2

theorem mem_lastOfEach_concat_iff {ms : List (String × α)} {m n : String × α} :
    n ∈ lastOfEach (ms ++ [m]) ↔ n = m ∨ n ∈ lastOfEach ms ∧ n.1 ≠ m.1 := by
  rw [lastOfEach_concat]
  split
  · next hany =>
    obtain ⟨old, hold, heq⟩ := List.any_eq_true.mp hany
    rw [List.mem_map]
    constructor
    · rintro ⟨kept, hkept, h⟩
      split at h
      · exact .inl h.symm
      · next hne =>
        subst h
        exact .inr ⟨hkept, by simpa using hne⟩
    · rintro (rfl | ⟨hmem, hne⟩)
      · exact ⟨old, hold, if_pos heq⟩
      · exact ⟨n, hmem, if_neg (by simpa using hne)⟩
  · next hany =>
    have hnew := any_key_eq_false_iff.mp (Bool.eq_false_iff.mpr hany)
    rw [List.mem_append, List.mem_singleton, or_comm]
    refine or_congr_right (iff_self_and.mpr fun hmem heq => hnew ?_)
    exact heq ▸ List.mem_map_of_mem hmem

/-- **What is left of members**: each that has no later one of its key. -/
theorem mem_lastOfEach_iff {ms : List (String × α)} {n : String × α} : n ∈ lastOfEach ms ↔
    ∃ before after, ms = before ++ n :: after ∧ n.1 ∉ after.map Prod.fst := by
  induction ms using List.reverseRecOn with
  | nil => simp [lastOfEach]
  | append_singleton ms m ih =>
    rw [mem_lastOfEach_concat_iff, ih]
    constructor
    · rintro (rfl | ⟨⟨before, after, rfl, hlater⟩, hne⟩)
      · exact ⟨ms, [], rfl, List.not_mem_nil⟩
      · refine ⟨before, after ++ [m], by simp, ?_⟩
        rw [List.map_append, List.mem_append, not_or]
        exact ⟨hlater, by simpa using hne⟩
    · rintro ⟨before, after, heq, hlater⟩
      rcases List.eq_nil_or_concat' after with rfl | ⟨after, m', rfl⟩
      · exact .inl (List.append_singleton_inj.mp heq).2.symm
      · rw [← List.cons_append, ← List.append_assoc, List.append_singleton_inj] at heq
        obtain ⟨rfl, rfl⟩ := heq
        rw [List.map_append, List.mem_append, not_or] at hlater
        exact .inr ⟨⟨before, after, rfl, hlater.1⟩, by simpa using hlater.2⟩

end Value

namespace Json

/-! ### Sorted maps -/

section

variable {α β : Type}

/-- Members taken up one by one by a sorted map. -/
def gathered (ms : List (String × α)) : List (String × α) :=
  ms.foldl (fun done m => insertMember m.1 m.2 done) []

theorem gathered_concat (ms : List (String × α)) (k : String) (a : α) :
    gathered (ms ++ [(k, a)]) = insertMember k a (gathered ms) := by
  rw [gathered, List.foldl_concat, gathered]

/-- A sorted map looks at keys only. -/
theorem insertMember_map (f : α → β) (k : String) (a : α) (ms : List (String × α)) :
    insertMember k (f a) (ms.map fun m => (m.1, f m.2))
      = (insertMember k a ms).map fun m => (m.1, f m.2) := by
  induction ms with
  | nil => rfl
  | cons m ms ih =>
    rw [List.map_cons, insertMember, insertMember, ih]
    have hle : Value.keyLE (m.1, f m.2) (k, f a) = Value.keyLE m (k, a) := rfl
    rw [hle]
    split
    · rfl
    split
    · rfl
    · rfl

theorem gathered_map (f : α → β) (ms : List (String × α)) :
    gathered (ms.map fun m => (m.1, f m.2)) = (gathered ms).map fun m => (m.1, f m.2) := by
  induction ms using List.reverseRecOn with
  | nil => rfl
  | append_singleton ms m ih =>
    rw [List.map_append, List.map_singleton, gathered_concat, ih, insertMember_map,
      ← gathered_concat]

/-- A key that is bound already is bound to the new value in its place. -/
theorem insertMember_of_mem {k : String} {a : α} {ms : List (String × α)}
    (hsorted : ms.Pairwise fun m n => Value.keyLE m n = true) (hkeys : (ms.map Prod.fst).Nodup)
    (h : k ∈ ms.map Prod.fst) :
    insertMember k a ms = ms.map fun m => if m.1 == k then (k, a) else m := by
  induction ms with
  | nil => cases h
  | cons m ms ih =>
    rw [insertMember, List.map_cons]
    obtain ⟨hm, hsorted⟩ := List.pairwise_cons.mp hsorted
    obtain ⟨hnew, hkeys⟩ := List.nodup_cons.mp hkeys
    by_cases hk : m.1 = k
    · subst hk
      have hrest : ∀ n ∈ ms, (if n.1 == m.1 then (m.1, a) else n) = n := fun n hn => by
        rw [if_neg]
        exact fun heq => hnew (List.mem_map.mpr ⟨n, hn, eq_of_beq heq⟩)
      rw [if_pos rfl, if_pos (beq_self_eq_true _), List.map_congr_left hrest, List.map_id'']
      exact fun _ => rfl
    · have hms : k ∈ ms.map Prod.fst := (List.mem_cons.mp h).resolve_left (Ne.symm hk)
      obtain ⟨n, hn, rfl⟩ := List.mem_map.mp hms
      have hle : Value.keyLE m (n.1, a) = true := hm n hn
      rw [if_neg hk, if_pos hle, if_neg (by simpa using hk), ih hsorted hkeys hms]

theorem insertMember_perm {k : String} {a : α} {ms : List (String × α)}
    (h : k ∉ ms.map Prod.fst) : (insertMember k a ms).Perm ((k, a) :: ms) := by
  induction ms with
  | nil => exact .refl _
  | cons m ms ih =>
    rw [List.map_cons, List.mem_cons, not_or] at h
    rw [insertMember, if_neg (Ne.symm h.1)]
    split
    · exact ((ih h.2).cons m).trans (.swap _ _ _)
    · exact .refl _

theorem pairwise_insertMember {k : String} {a : α} {ms : List (String × α)}
    (hsorted : ms.Pairwise fun m n => Value.keyLE m n = true) (h : k ∉ ms.map Prod.fst) :
    (insertMember k a ms).Pairwise fun m n => Value.keyLE m n = true := by
  induction ms with
  | nil => exact List.pairwise_singleton _ _
  | cons m ms ih =>
    obtain ⟨hm, hms⟩ := List.pairwise_cons.mp hsorted
    rw [List.map_cons, List.mem_cons, not_or] at h
    rw [insertMember, if_neg (Ne.symm h.1)]
    split
    · next hle =>
      refine List.pairwise_cons.mpr ⟨fun n hn => ?_, ih hms h.2⟩
      rcases List.mem_cons.mp ((insertMember_perm h.2).mem_iff.mp hn) with rfl | hn
      · exact hle
      · exact hm n hn
    · next hle =>
      have hfirst : Value.keyLE (k, a) m = true := by
        simpa [hle] using Value.keyLE_total (k, a) m
      refine List.pairwise_cons.mpr ⟨fun n hn => ?_, hsorted⟩
      rcases List.mem_cons.mp hn with rfl | hn
      · exact hfirst
      · exact Value.keyLE_trans _ _ _ hfirst (hm n hn)

/-- **What a sorted map holds** in the end: the last member of each key, in order. -/
theorem gathered_eq_mergeSort (ms : List (String × α)) :
    gathered ms = (Value.lastOfEach ms).mergeSort Value.keyLE := by
  induction ms using List.reverseRecOn with
  | nil => exact List.mergeSort_nil.symm
  | append_singleton ms m ih =>
    have hsorted := Value.pairwise_mergeSort_keyLE (Value.lastOfEach ms)
    have hperm := List.mergeSort_perm (Value.lastOfEach ms) Value.keyLE
    have hmem : ∀ k, k ∈ ((Value.lastOfEach ms).mergeSort Value.keyLE).map Prod.fst ↔
        k ∈ (Value.lastOfEach ms).map Prod.fst := fun k => (hperm.map Prod.fst).mem_iff
    have hnodup := Value.nodup_lastOfEach (ms ++ [m])
    rw [gathered_concat, ih]
    rw [Value.lastOfEach_concat] at hnodup ⊢
    split
    · next hany =>
      have hold : m.1 ∈ (Value.lastOfEach ms).map Prod.fst := by
        by_contra hnew
        rw [Value.any_key_eq_false_iff.mpr hnew] at hany
        cases hany
      rw [insertMember_of_mem hsorted
        (Value.nodup_map_fst_mergeSort.mpr (Value.nodup_lastOfEach ms)) ((hmem _).mpr hold)]
      exact Value.map_mergeSort_keyLE _ (Value.fst_replaced m) _
    · next hany =>
      have hnew : m.1 ∉ ((Value.lastOfEach ms).mergeSort Value.keyLE).map Prod.fst := fun hold =>
        Value.any_key_eq_false_iff.mp (Bool.eq_false_iff.mpr hany) ((hmem _).mp hold)
      rw [if_neg hany] at hnodup
      refine (Value.mergeSort_eq_of_perm hnodup ?_ (pairwise_insertMember hsorted hnew)).symm
      exact (insertMember_perm hnew).trans
        ((hperm.cons m).trans (List.perm_append_singleton m _).symm)

end

end Json

end SealedLedger
