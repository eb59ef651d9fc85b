import Mathlib.Data.List.Induction
import SealedLedger.Proofs.Canonical.Equivalence

/-!
# The numbers of a value

A value may be changed in its numbers alone. Its shape, its texts and the order of its members stay,
so it keeps every property that does not look at numbers, and it keeps its canonical bytes when
each number keeps its text.

## Main definitions

* `Value.mapNumbers` — a value with each of its numbers replaced
* `Value.HasDistinctKeys` — no object inside a value repeats a key

## Main results

* `Value.mapNumbers_congr` — only the numbers that occur matter
* `Value.exists_writes_iff` — a value has a canonical text when its keys are distinct and its
  doubles are finite
* `Canonical.canonicalize_mapNumbers` — canonical bytes are kept with the texts of the numbers
* `Value.get?_tidy` — tidying keeps the value under each key
-/

namespace SealedLedger

namespace Value

/-! ### Replacing numbers -/

section

variable {f g : Number → Number}

mutual

/-- The value with each of its numbers replaced. -/
def mapNumbers (f : Number → Number) : Value → Value
  | .null => .null
  | .bool b => .bool b
  | .number n => .number (f n)
  | .string s => .string s
  | .array items => .array (mapNumbersItems f items)
  | .object members => .object (mapNumbersMembers f members)
termination_by structural v => v

/-- The items with each of their numbers replaced. -/
def mapNumbersItems (f : Number → Number) : List Value → List Value
  | [] => []
  | v :: vs => mapNumbers f v :: mapNumbersItems f vs
termination_by structural vs => vs

/-- The members with each of their numbers replaced. -/
def mapNumbersMembers (f : Number → Number) : List (String × Value) → List (String × Value)
  | [] => []
  | m :: ms => mapNumbersMember f m :: mapNumbersMembers f ms
termination_by structural ms => ms

/-- The member with each of its numbers replaced. -/
def mapNumbersMember (f : Number → Number) : String × Value → String × Value
  | (k, v) => (k, mapNumbers f v)
termination_by structural m => m

end

theorem mapNumbers_array (f : Number → Number) (items : List Value) :
    mapNumbers f (.array items) = .array (items.map (mapNumbers f)) := by
  have hitems : ∀ vs, mapNumbersItems f vs = vs.map (mapNumbers f) := fun vs => by
    induction vs with
    | nil => rw [mapNumbersItems, List.map_nil]
    | cons v vs ih => rw [mapNumbersItems, ih, List.map_cons]
  rw [mapNumbers, hitems]

theorem mapNumbers_object (f : Number → Number) (members : List (String × Value)) :
    mapNumbers f (.object members) = .object (members.map fun m => (m.1, mapNumbers f m.2)) := by
  have hmembers : ∀ ms, mapNumbersMembers f ms = ms.map fun m => (m.1, mapNumbers f m.2) :=
    fun ms => by
      induction ms with
      | nil => rw [mapNumbersMembers, List.map_nil]
      | cons m ms ih => rw [mapNumbersMembers, mapNumbersMember, ih, List.map_cons]
  rw [mapNumbers, hmembers]

/-- **Only the numbers that occur matter.** -/
theorem mapNumbers_congr {v : Value} (h : ∀ n, Occurs (.number n) v → f n = g n) :
    v.mapNumbers f = v.mapNumbers g := by
  induction v using Value.induction with
  | null => rfl
  | bool b => rfl
  | string s => rfl
  | number n => rw [mapNumbers, mapNumbers, h n .here]
  | array items ih =>
    rw [mapNumbers_array, mapNumbers_array]
    exact congrArg Value.array
      (List.map_congr_left fun v hv => ih v hv fun n hn => h n (.item hv hn))
  | object ms ih =>
    rw [mapNumbers_object, mapNumbers_object]
    refine congrArg Value.object (List.map_congr_left fun m hm => ?_)
    rw [ih m hm fun n hn => h n (.member hm hn)]

theorem isEmptyObject_mapNumbers (f : Number → Number) (v : Value) :
    (v.mapNumbers f).isEmptyObject = v.isEmptyObject := by
  cases v with
  | object ms => cases ms <;> rfl
  | _ => rfl

/-- A number of the changed value is a changed number. -/
theorem exists_of_occurs_mapNumbers {v : Value} {n : Number}
    (h : Occurs (.number n) (v.mapNumbers f)) : ∃ m, Occurs (.number m) v ∧ n = f m := by
  induction v using Value.induction with
  | null => cases h
  | bool b => cases h
  | string s => cases h
  | number m => exact ⟨m, .here, occurs_number_iff.mp h⟩
  | array items ih =>
    rw [mapNumbers_array, occurs_array_iff] at h
    obtain ⟨w, hw, h⟩ := h
    obtain ⟨v, hv, rfl⟩ := List.mem_map.mp hw
    obtain ⟨m, hm, rfl⟩ := ih v hv h
    exact ⟨m, .item hv hm, rfl⟩
  | object ms ih =>
    rw [mapNumbers_object, occurs_object_iff] at h
    obtain ⟨w, hw, h⟩ := h
    obtain ⟨k, hk, rfl⟩ := List.mem_map.mp hw
    obtain ⟨m, hm, rfl⟩ := ih k hk h
    exact ⟨m, .member hk hm, rfl⟩

end

/-- What holds of every integer holds of the numbers of a value when it holds of its doubles. -/
theorem forall_number_iff {v : Value} {p : Number → Prop} (hint : ∀ i, p (.int i))
    (huint : ∀ u, p (.uint u)) :
    (∀ n, Occurs (.number n) v → p n) ↔ ∀ x, Occurs (.number (.float x)) v → p (.float x) := by
  constructor
  · exact fun h x hx => h _ hx
  · intro h n hn
    cases n with
    | int i => exact hint i
    | uint u => exact huint u
    | float x => exact h x hn

/-! ### Distinct keys -/

/-- No object inside the value repeats a key. -/
def HasDistinctKeys (v : Value) : Prop :=
  ∀ ms, Occurs (.object ms) v → (ms.map Prod.fst).Nodup

theorem HasDistinctKeys.item {items : List Value} (h : HasDistinctKeys (.array items)) {v : Value}
    (hv : v ∈ items) : v.HasDistinctKeys :=
  fun ms hms => h ms (.item hv hms)

theorem HasDistinctKeys.member {ms : List (String × Value)} (h : HasDistinctKeys (.object ms))
    {m : String × Value} (hm : m ∈ ms) : m.2.HasDistinctKeys :=
  fun ns hns => h ns (.member hm hns)

theorem hasDistinctKeys_object_iff {ms : List (String × Value)} :
    HasDistinctKeys (.object ms) ↔
      (ms.map Prod.fst).Nodup ∧ ∀ m ∈ ms, m.2.HasDistinctKeys := by
  constructor
  · exact fun h => ⟨h ms .here, fun m hm => h.member hm⟩
  · rintro ⟨hkeys, hms⟩ ns (_ | _ | ⟨hm, hns⟩)
    · exact hkeys
    · exact hms _ hm ns hns

theorem hasDistinctKeys_array_iff {items : List Value} :
    HasDistinctKeys (.array items) ↔ ∀ v ∈ items, v.HasDistinctKeys := by
  constructor
  · exact fun h v hv => h.item hv
  · rintro h ns (_ | ⟨hv, hns⟩)
    exact h _ hv ns hns

/-- Whether keys repeat does not depend on the numbers. -/
theorem hasDistinctKeys_mapNumbers_iff {f : Number → Number} {v : Value} :
    (v.mapNumbers f).HasDistinctKeys ↔ v.HasDistinctKeys := by
  induction v using Value.induction with
  | null => rfl
  | bool b => rfl
  | string s => rfl
  | number n => exact iff_of_true (by rintro _ ⟨⟩) (by rintro _ ⟨⟩)
  | array items ih =>
    rw [mapNumbers_array, hasDistinctKeys_array_iff, hasDistinctKeys_array_iff, List.forall_mem_map]
    exact forall₂_congr ih
  | object ms ih =>
    rw [mapNumbers_object, hasDistinctKeys_object_iff, hasDistinctKeys_object_iff, List.map_map,
      List.forall_mem_map]
    exact and_congr Iff.rfl (forall₂_congr ih)

/-- **A value has a canonical text when no object repeats a key and all doubles are finite.** -/
theorem exists_writes_iff {v : Value} : (∃ t, Canonical.Writes v t) ↔
    v.HasDistinctKeys ∧ ∀ n, Occurs (.number n) v → n.isFinite = true := by
  induction v using Value.induction with
  | null => exact iff_of_true ⟨_, rfl⟩ ⟨by rintro _ ⟨⟩, by rintro _ ⟨⟩⟩
  | bool b => exact iff_of_true (by cases b <;> exact ⟨_, rfl⟩) ⟨by rintro _ ⟨⟩, by rintro _ ⟨⟩⟩
  | string s => exact iff_of_true ⟨_, rfl⟩ ⟨by rintro _ ⟨⟩, by rintro _ ⟨⟩⟩
  | number m =>
    constructor
    · rintro ⟨t, ht⟩
      refine ⟨by rintro _ ⟨⟩, fun n hn => ?_⟩
      rw [occurs_number_iff.mp hn]
      exact (Canonical.number_eq_ok_iff.mp ht).1
    · exact fun h => ⟨_, Canonical.number_of_isFinite (h.2 m .here)⟩
  | array items ih =>
    rw [Canonical.exists_writes_array_iff, hasDistinctKeys_array_iff]
    constructor
    · refine fun h => ⟨fun v hv => ((ih v hv).mp (h v hv)).1, fun n hn => ?_⟩
      obtain ⟨v, hv, hn⟩ := occurs_array_iff.mp hn
      exact ((ih v hv).mp (h v hv)).2 n hn
    · rintro ⟨hkeys, hfinite⟩ v hv
      exact (ih v hv).mpr ⟨hkeys v hv, fun n hn => hfinite n (.item hv hn)⟩
  | object ms ih =>
    rw [Canonical.exists_writes_object_iff, hasDistinctKeys_object_iff, and_assoc]
    refine and_congr_right fun _ => ?_
    constructor
    · refine fun h => ⟨fun m hm => ((ih m hm).mp (h m hm)).1, fun n hn => ?_⟩
      obtain ⟨m, hm, hn⟩ := occurs_object_iff.mp hn
      exact ((ih m hm).mp (h m hm)).2 n hn
    · rintro ⟨hkeys, hfinite⟩ m hm
      exact (ih m hm).mpr ⟨hkeys m hm, fun n hn => hfinite n (.member hm hn)⟩

/-- A value with a canonical text repeats no key. -/
theorem hasDistinctKeys_of_writes {v : Value} (h : ∃ t, Canonical.Writes v t) :
    v.HasDistinctKeys :=
  (exists_writes_iff.mp h).1

theorem hasDistinctKeys_of_canonicalize {v : Value} (h : ∃ c, canonicalize v = .ok c) :
    v.HasDistinctKeys :=
  hasDistinctKeys_of_writes (Canonical.exists_canonicalize_iff.mp h)

/-! ### Tidied members -/

/-- Members with distinct keys are kept as they are. -/
theorem lastOfEach_of_nodup {α : Type} {ms : List (String × α)} (h : (ms.map Prod.fst).Nodup) :
    lastOfEach ms = ms := by
  induction ms using List.reverseRecOn with
  | nil => rfl
  | append_singleton ms m ih =>
    rw [List.map_append, List.map_singleton, List.nodup_append] at h
    obtain ⟨hms, -, hnew⟩ := h
    have hany : ms.any (·.1 == m.1) = false := any_key_eq_false_iff.mpr fun hkey =>
      hnew m.1 hkey m.1 (List.mem_singleton_self _) rfl
    have hfold := ih hms
    rw [lastOfEach] at hfold ⊢
    rw [List.foldl_append, hfold, List.foldl_cons, List.foldl_nil, hany]
    rfl

theorem tidy_array (items : List Value) : tidy (.array items) = .array (items.map tidy) := by
  have hitems : ∀ vs, tidyItems vs = vs.map tidy := fun vs => by
    induction vs with
    | nil => rw [tidyItems, List.map_nil]
    | cons v vs ih => rw [tidyItems, ih, List.map_cons]
  rw [tidy, hitems]

theorem tidyMembers_eq (ms : List (String × Value)) :
    tidyMembers ms = ms.map fun m => (m.1, m.2.tidy) := by
  induction ms with
  | nil => rw [tidyMembers, List.map_nil]
  | cons m ms ih => rw [tidyMembers, tidyMember, ih, List.map_cons]

/-- **Tidying keeps the value under each key**, when keys are distinct. -/
theorem get?_tidy {ms : List (String × Value)} (h : (ms.map Prod.fst).Nodup) {k : String}
    {v : Value} (hm : (k, v) ∈ ms) : get? k (tidy (.object ms)) = some v.tidy := by
  have hkeys : ((tidyMembers ms).map Prod.fst).Nodup := by
    rwa [tidyMembers_eq, List.map_map]
  have hmem : (k, v.tidy) ∈ (tidyMembers ms).mergeSort keyLE := by
    rw [List.mem_mergeSort, tidyMembers_eq]
    exact List.mem_map.mpr ⟨(k, v), hm, rfl⟩
  rw [tidy, lastOfEach_of_nodup hkeys]
  exact get?_of_mem (nodup_map_fst_mergeSort.mpr hkeys) hmem

end Value

/-! ### Canonical bytes -/

namespace Canonical

open Value (Occurs)

theorem isFinite_of_occurs {v : Value} (h : ∃ t, Writes v t) {n : Number}
    (hn : Occurs (.number n) v) : n.isFinite = true :=
  (Value.exists_writes_iff.mp h).2 n hn

/-- The canonical text is kept with the texts of the numbers. -/
theorem text_mapNumbers {f : Number → Number} {v : Value}
    (h : ∀ n, Occurs (.number n) v → number (f n) = number n) :
    text (v.mapNumbers f) = text v := by
  induction v using Value.induction with
  | null => rfl
  | bool b => rfl
  | string s => rfl
  | number n => exact h n .here
  | array items ih =>
    have hitems : itemTexts (items.map (Value.mapNumbers f)) = itemTexts items := by
      refine itemTexts_congr ?_
      rw [List.map_map]
      exact List.map_congr_left fun v hv => ih v hv fun n hn => h n (.item hv hn)
    rw [Value.mapNumbers_array, text, text, hitems]
  | object ms ih =>
    have hmembers : memberTexts (ms.map fun m => (m.1, m.2.mapNumbers f)) = memberTexts ms := by
      rw [memberTexts_eq, memberTexts_eq, List.map_map]
      refine List.map_congr_left fun m hm => ?_
      rw [Function.comp_apply, ih m hm fun n hn => h n (.member hm hn)]
    rw [Value.mapNumbers_object, text, text, hmembers]

/-- **Canonical bytes are kept with the texts of the numbers.** -/
theorem canonicalize_mapNumbers {f : Number → Number} {v : Value}
    (h : ∀ n, Occurs (.number n) v → number (f n) = number n) :
    canonicalize (v.mapNumbers f) = canonicalize v := by
  rw [canonicalize, canonicalize, text_mapNumbers h]

/-- **The same data with the same members has numbers of the same texts.** -/
theorem number_eq_of_equivalent_mapNumbers {f : Number → Number} {v : Value}
    (hkeys : v.HasDistinctKeys) (h : Value.Equivalent v (v.mapNumbers f)) :
    ∀ n, Occurs (.number n) v → number (f n) = number n := by
  induction v using Value.induction with
  | null => exact fun n hn => by cases hn
  | bool b => exact fun n hn => by cases hn
  | string s => exact fun n hn => by cases hn
  | number m =>
    intro n hn
    obtain rfl := Value.occurs_number_iff.mp hn
    cases h with
    | number hm hf => exact hf.trans hm.symm
  | array items ih =>
    rw [Value.mapNumbers_array, Value.equivalent_array_map_iff] at h
    intro n hn
    obtain ⟨v, hv, hn⟩ := Value.occurs_array_iff.mp hn
    exact ih v hv (hkeys.item hv) (h v hv) n hn
  | object ms ih =>
    rw [Value.mapNumbers_object, Value.equivalent_object_map_iff (hkeys ms .here) (.refl _)] at h
    intro n hn
    obtain ⟨m, hm, hn⟩ := Value.occurs_object_iff.mp hn
    exact ih m hm (hkeys.member hm) (h m hm) n hn

/-- Canonical bytes are kept only with the texts of the numbers. -/
theorem canonicalize_mapNumbers_iff {f : Number → Number} {v : Value} {c : List UInt8}
    (hc : canonicalize v = .ok c) :
    canonicalize (v.mapNumbers f) = .ok c ↔
      ∀ n, Occurs (.number n) v → number (f n) = number n := by
  constructor
  · intro h
    exact number_eq_of_equivalent_mapNumbers (Value.hasDistinctKeys_of_canonicalize ⟨c, hc⟩)
      (equivalent_of_canonicalize_eq hc h)
  · intro h
    rw [canonicalize_mapNumbers h, hc]

end Canonical

end SealedLedger
