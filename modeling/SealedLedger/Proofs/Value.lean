import Mathlib.Data.List.Forall2
import Mathlib.Data.List.Nodup
import SealedLedger.Proofs.Text.Utf8
import SealedLedger.Value

/-!
# Values by induction, and the order of their members

A value is built from its items and members, so a property of all values is proved by assuming it
of them. The order of keys by their bytes is linear on keys. Members with distinct keys therefore
have one sorted arrangement: it does not matter in which order they were inserted.

## Main definitions

* `Value.Occurs` — a value stands somewhere inside another
* `Value.NestsWithin` — a bound on the containers inside one another

## Main results

* `Value.induction` — induction over items and members
* `Value.map_fst_mergeSort_eq` — the sorted keys are determined by the set of keys
* `Value.forall₂_mergeSort_iff` — sorted members correspond when values under each key do
-/

namespace SealedLedger

namespace Value

/-! ### Induction -/

/-- Induction over values, with the hypothesis for all items and all members. -/
@[elab_as_elim]
theorem induction {P : Value → Prop} (null : P .null) (bool : ∀ b, P (.bool b))
    (number : ∀ n, P (.number n)) (string : ∀ s, P (.string s))
    (array : ∀ items, (∀ v ∈ items, P v) → P (.array items))
    (object : ∀ members, (∀ m ∈ members, P m.2) → P (.object members)) (v : Value) : P v :=
  @Value.rec P (fun items => ∀ v ∈ items, P v) (fun members => ∀ m ∈ members, P m.2)
    (fun m => P m.2) null bool number string array object
    (fun _ h => by cases h)
    (fun _ _ hv hvs => List.forall_mem_cons.mpr ⟨hv, hvs⟩)
    (fun _ h => by cases h)
    (fun _ _ hm hms => List.forall_mem_cons.mpr ⟨hm, hms⟩)
    (fun _ _ h => h) v

/-- The value `u` stands somewhere inside a value, or is that value. -/
inductive Occurs (u : Value) : Value → Prop
  | here : Occurs u u
  | item {items : List Value} {v : Value} : v ∈ items → Occurs u v → Occurs u (.array items)
  | member {members : List (String × Value)} {m : String × Value} :
    m ∈ members → Occurs u m.2 → Occurs u (.object members)

theorem occurs_number_iff {n m : Number} : Occurs (.number n) (.number m) ↔ n = m := by
  constructor
  · rintro ⟨⟩
    rfl
  · rintro rfl
    exact .here

theorem occurs_array_iff {n : Number} {items : List Value} :
    Occurs (.number n) (.array items) ↔ ∃ v ∈ items, Occurs (.number n) v := by
  constructor
  · rintro (_ | ⟨hv, h⟩)
    exact ⟨_, hv, h⟩
  · rintro ⟨v, hv, h⟩
    exact .item hv h

theorem occurs_object_iff {n : Number} {members : List (String × Value)} :
    Occurs (.number n) (.object members) ↔ ∃ m ∈ members, Occurs (.number n) m.2 := by
  constructor
  · rintro (_ | _ | ⟨hm, h⟩)
    exact ⟨_, hm, h⟩
  · rintro ⟨m, hm, h⟩
    exact .member hm h

/-- An object inside an object is that object or stands in the value of a member. -/
theorem occurs_object_object_iff {ms ns : List (String × Value)} :
    Occurs (.object ms) (.object ns) ↔ ms = ns ∨ ∃ n ∈ ns, Occurs (.object ms) n.2 := by
  constructor
  · rintro (_ | _ | ⟨hn, h⟩)
    · exact .inl rfl
    · exact .inr ⟨_, hn, h⟩
  · rintro (rfl | ⟨n, hn, h⟩)
    · exact .here
    · exact .member hn h

/-- At most the given number of containers stand inside one another. -/
def NestsWithin : Nat → Value → Prop
  | 0, .array _ => False
  | 0, .object _ => False
  | depth + 1, .array items => ∀ v ∈ items, NestsWithin depth v
  | depth + 1, .object members => ∀ m ∈ members, NestsWithin depth m.2
  | _, _ => True

theorem isEmptyObject_iff {v : Value} : v.isEmptyObject = true ↔ v = .emptyObject := by
  constructor
  · intro h
    unfold isEmptyObject at h
    split at h
    · rfl
    · cases h
  · rintro rfl
    rfl

/-! ### The order of keys -/

section

variable {α β : Type}

theorem keyLE_iff {a b : String × α} : keyLE a b = true ↔ utf8 a.1 ≤ utf8 b.1 := by
  rw [keyLE, decide_eq_true_iff]

theorem keyLE_trans (a b c : String × α) (hab : keyLE a b = true) (hbc : keyLE b c = true) :
    keyLE a c = true := by
  rw [keyLE_iff] at hab hbc ⊢
  exact List.le_trans hab hbc

theorem keyLE_total (a b : String × α) : (keyLE a b || keyLE b a) = true := by
  rw [Bool.or_eq_true, keyLE_iff, keyLE_iff]
  exact List.le_total _ _

theorem fst_eq_of_keyLE {a b : String × α} (hab : keyLE a b = true) (hba : keyLE b a = true) :
    a.1 = b.1 := by
  rw [keyLE_iff] at hab hba
  exact utf8_injective (List.le_antisymm hab hba)

/-! ### Sorted members -/

theorem pairwise_mergeSort_keyLE (members : List (String × α)) :
    (members.mergeSort keyLE).Pairwise fun a b => keyLE a b = true :=
  List.pairwise_mergeSort keyLE_trans keyLE_total members

/-- Sorting looks at keys only. -/
theorem map_mergeSort_keyLE (f : String × α → String × β) (hf : ∀ m, (f m).1 = m.1)
    (members : List (String × α)) :
    (members.mergeSort keyLE).map f = (members.map f).mergeSort keyLE :=
  List.map_mergeSort fun a _ b _ => by rw [keyLE, keyLE, hf, hf]

theorem nodup_map_fst_mergeSort {members : List (String × α)} :
    ((members.mergeSort keyLE).map Prod.fst).Nodup ↔ (members.map Prod.fst).Nodup :=
  ((List.mergeSort_perm members keyLE).map Prod.fst).nodup_iff

/-- The sorted keys do not depend on the order of the members. -/
theorem map_fst_mergeSort_eq_of_perm {ms : List (String × α)} {ns : List (String × β)}
    (h : (ms.map Prod.fst).Perm (ns.map Prod.fst)) :
    (ms.mergeSort keyLE).map Prod.fst = (ns.mergeSort keyLE).map Prod.fst := by
  have hsorted : ∀ {γ : Type} (xs : List (String × γ)),
      ((xs.mergeSort keyLE).map Prod.fst).Pairwise fun k l => utf8 k ≤ utf8 l := fun xs =>
    List.pairwise_map.mpr ((pairwise_mergeSort_keyLE xs).imp fun h => keyLE_iff.mp h)
  have hperm : ((ms.mergeSort keyLE).map Prod.fst).Perm ((ns.mergeSort keyLE).map Prod.fst) :=
    ((List.mergeSort_perm ms keyLE).map Prod.fst).trans
      (h.trans ((List.mergeSort_perm ns keyLE).map Prod.fst).symm)
  exact hperm.eq_of_pairwise
    (fun k l _ _ hkl hlk => utf8_injective (List.le_antisymm hkl hlk)) (hsorted ms) (hsorted ns)

/-- **The sorted keys are determined by the set of keys**, when no key repeats. -/
theorem map_fst_mergeSort_eq {ms : List (String × α)} {ns : List (String × β)}
    (hms : (ms.map Prod.fst).Nodup) (hns : (ns.map Prod.fst).Nodup)
    (h : ∀ k, k ∈ ms.map Prod.fst ↔ k ∈ ns.map Prod.fst) :
    (ms.mergeSort keyLE).map Prod.fst = (ns.mergeSort keyLE).map Prod.fst :=
  map_fst_mergeSort_eq_of_perm ((List.perm_ext_iff_of_nodup hms hns).mpr h)

/-- A member of distinct keys is determined by its key. -/
theorem snd_eq_of_mem {ms : List (String × α)} (hms : (ms.map Prod.fst).Nodup) {k : String}
    {v w : α} (hv : (k, v) ∈ ms) (hw : (k, w) ∈ ms) : v = w :=
  (Prod.mk.inj (List.inj_on_of_nodup_map hms hv hw rfl)).2

/-- Members in order are the sorted ones, when no key repeats. -/
theorem mergeSort_eq_of_perm {ms ns : List (String × α)} (hkeys : (ms.map Prod.fst).Nodup)
    (hperm : ns.Perm ms) (hsorted : ns.Pairwise fun m n => keyLE m n = true) :
    ms.mergeSort keyLE = ns := by
  refine ((List.mergeSort_perm ms _).trans hperm.symm).eq_of_pairwise ?_
    (pairwise_mergeSort_keyLE ms) hsorted
  intro m n hm hn hmn hnm
  have hkey := fst_eq_of_keyLE hmn hnm
  have hm : (n.1, m.2) ∈ ms := hkey ▸ List.mem_mergeSort.mp hm
  exact Prod.ext hkey (snd_eq_of_mem hkeys hm (hperm.mem_iff.mp hn))

theorem any_key_eq_false_iff {ms : List (String × α)} {k : String} :
    ms.any (·.1 == k) = false ↔ k ∉ ms.map Prod.fst := by
  rw [List.any_eq_false, List.mem_map, not_exists]
  exact forall_congr' fun m => by rw [not_and, beq_iff_eq]

theorem nodup_map_fst_concat {ms : List (String × α)} (hms : (ms.map Prod.fst).Nodup) {k : String}
    (hk : k ∉ ms.map Prod.fst) (v : α) : ((ms ++ [(k, v)]).map Prod.fst).Nodup := by
  rw [List.map_append, List.map_singleton, ← List.concat_eq_append]
  exact hms.concat hk

/-- **The value under a key**, when keys are distinct. -/
theorem get?_of_mem {ms : List (String × Value)} (hms : (ms.map Prod.fst).Nodup) {k : String}
    {v : Value} (hv : (k, v) ∈ ms) : get? k (.object ms) = some v := by
  rw [get?]
  cases hfind : ms.find? (·.1 == k) with
  | none => exact absurd (List.find?_eq_none.mp hfind _ hv) (by simp)
  | some n =>
    have hkey : n.1 = k := by simpa using List.find?_some hfind
    have hn : (k, n.2) ∈ ms := hkey ▸ List.mem_of_find?_eq_some hfind
    rw [Option.map_some, snd_eq_of_mem hms hv hn]

/-- Sorted members correspond one by one exactly when both objects have the same keys and the
values under each key correspond. -/
theorem forall₂_mergeSort_iff {R : α → β → Prop} {ms : List (String × α)}
    {ns : List (String × β)} (hms : (ms.map Prod.fst).Nodup) (hns : (ns.map Prod.fst).Nodup) :
    List.Forall₂ (fun m n => m.1 = n.1 ∧ R m.2 n.2) (ms.mergeSort keyLE) (ns.mergeSort keyLE) ↔
      (∀ k, k ∈ ms.map Prod.fst ↔ k ∈ ns.map Prod.fst) ∧
        ∀ k v w, (k, v) ∈ ms → (k, w) ∈ ns → R v w := by
  constructor
  · intro h
    have hkeys : (ms.mergeSort keyLE).map Prod.fst = (ns.mergeSort keyLE).map Prod.fst := by
      rw [← List.forall₂_eq_eq_eq, List.forall₂_map_left_iff, List.forall₂_map_right_iff]
      exact h.imp fun m n hmn => hmn.1
    refine ⟨fun k => ?_, fun k v w hv hw => ?_⟩
    · rw [← ((List.mergeSort_perm ms keyLE).map Prod.fst).mem_iff, hkeys,
        ((List.mergeSort_perm ns keyLE).map Prod.fst).mem_iff]
    · obtain ⟨i, hi, hget⟩ := List.getElem_of_mem (List.mem_mergeSort.mpr hv)
      have hj : i < (ns.mergeSort keyLE).length := h.length_eq ▸ hi
      have hR := (List.forall₂_iff_get.mp h).2 i hi hj
      simp only [List.get_eq_getElem, hget] at hR
      have hmem : (k, (ns.mergeSort keyLE)[i].2) ∈ ns := by
        rw [show (k, (ns.mergeSort keyLE)[i].2) = (ns.mergeSort keyLE)[i] from
          Prod.ext hR.1 rfl]
        exact List.mem_mergeSort.mp (List.getElem_mem hj)
      rw [snd_eq_of_mem hns hw hmem]
      exact hR.2
  · rintro ⟨hkeys, hvalues⟩
    have hfst := map_fst_mergeSort_eq hms hns hkeys
    have hlen : (ms.mergeSort keyLE).length = (ns.mergeSort keyLE).length := by
      rw [← List.length_map (f := Prod.fst), hfst, List.length_map]
    refine List.forall₂_iff_get.mpr ⟨hlen, fun i hi hj => ?_⟩
    simp only [List.get_eq_getElem]
    have hkey : (ms.mergeSort keyLE)[i].1 = (ns.mergeSort keyLE)[i].1 := by
      rw [← List.getElem_map Prod.fst (h := by simpa using hi),
        ← List.getElem_map Prod.fst (h := by simpa using hj)]
      simp only [hfst]
    refine ⟨hkey, hvalues (ms.mergeSort keyLE)[i].1 _ _ ?_ ?_⟩
    · exact List.mem_mergeSort.mp (List.getElem_mem hi)
    · rw [hkey]
      exact List.mem_mergeSort.mp (List.getElem_mem hj)

end

end Value

end SealedLedger
