import Mathlib.Data.List.Forall2
import SealedLedger.Canonical
import SealedLedger.Proofs.Value

/-!
# Canonical text, container by container

What the writer does with arrays and objects, as relations between items and texts: an array is
written when all its items are, and an object when its keys are distinct and all its values are.
The writer looks for a repeated key only among neighbours, which is enough because it has sorted
the members before.

## Main definitions

* `Canonical.Writes`, `Canonical.WritesMember` — a value and a member with their texts

## Main results

* `Canonical.writes_array_iff`, `Canonical.writes_object_iff`
* `Canonical.repeated?_eq_none_iff` — neighbours are enough to find a repeated key
* `Canonical.object_eq_of_perm` — the order of members makes no difference
* `Canonical.exists_writes_array_iff`, `Canonical.exists_writes_object_iff` — when a container has
  a text
-/

namespace SealedLedger

/-- What comes out of a step that cannot fail comes from what went in. -/
theorem map_eq_ok_iff {ε α β : Type} {x : Except ε α} {f : α → β} {b : β} :
    x.map f = .ok b ↔ ∃ a, x = .ok a ∧ b = f a := by
  cases x with
  | error e =>
    constructor
    · intro h
      cases h
    · rintro ⟨a, ha, -⟩
      cases ha
  | ok a =>
    constructor
    · exact fun h => ⟨a, rfl, (Except.ok.inj h).symm⟩
    · rintro ⟨a', ha, rfl⟩
      rw [← Except.ok.inj ha]
      rfl

/-- A step that is taken item by item, up to the first failure. -/
theorem eq_mapM_of_cons {ε α β : Type} {f : α → Except ε β} {g : List α → Except ε (List β)}
    (hnil : g [] = .ok [])
    (hcons : ∀ a as, g (a :: as) = do let b ← f a; let bs ← g as; return b :: bs)
    (as : List α) : g as = as.mapM f := by
  induction as with
  | nil => exact hnil
  | cons a as ih => rw [hcons, List.mapM_cons, ih]

/-- A step that is taken for each item has a result when it has one for each of them. -/
theorem mapM_eq_ok_iff {ε α β : Type} {f : α → Except ε β} {as : List α} {bs : List β} :
    as.mapM f = .ok bs ↔ List.Forall₂ (fun a b => f a = .ok b) as bs := by
  induction as generalizing bs with
  | nil =>
    rw [List.mapM_nil, List.forall₂_nil_left_iff]
    exact ⟨fun h => (Except.ok.inj h).symm, fun h => h ▸ rfl⟩
  | cons a as ih =>
    rw [List.mapM_cons]
    constructor
    · intro h
      cases ha : f a with
      | error e =>
        rw [ha] at h
        cases h
      | ok b =>
        rw [ha] at h
        cases has : as.mapM f with
        | error e =>
          rw [has] at h
          cases h
        | ok bs' =>
          rw [has] at h
          obtain rfl := Except.ok.inj h
          exact .cons ha (ih.mp has)
    · rintro (_ | ⟨ha, has⟩)
      rw [ha, ih.mpr has]
      rfl

namespace Canonical

open Value (keyLE)

/-- The value has the canonical text. -/
def Writes (v : Value) (t : List Char) : Prop :=
  text v = .ok t

/-- The member is written as the text. -/
def WritesMember (m : String × Value) (t : List Char) : Prop :=
  ∃ u, Writes m.2 u ∧ t = member m.1 u

theorem Writes.unique {v : Value} {t u : List Char} (ht : Writes v t) (hu : Writes v u) : t = u :=
  Except.ok.inj (ht.symm.trans hu)

/-- The canonical bytes are those of the canonical text. -/
theorem canonicalize_eq_ok_iff {v : Value} {c : List UInt8} :
    canonicalize v = .ok c ↔ ∃ t, Writes v t ∧ c = Utf8.encode t :=
  map_eq_ok_iff

/-- A value has canonical bytes exactly when it has a canonical text. -/
theorem exists_canonicalize_iff {v : Value} :
    (∃ c, canonicalize v = .ok c) ↔ ∃ t, Writes v t := by
  constructor
  · rintro ⟨c, hc⟩
    obtain ⟨t, ht, -⟩ := canonicalize_eq_ok_iff.mp hc
    exact ⟨t, ht⟩
  · rintro ⟨t, ht⟩
    exact ⟨_, canonicalize_eq_ok_iff.mpr ⟨t, ht, rfl⟩⟩

/-! ### Arrays -/

theorem itemTexts_eq_mapM (items : List Value) : itemTexts items = items.mapM text := by
  refine eq_mapM_of_cons (g := itemTexts) rfl (fun v vs => ?_) items
  rw [itemTexts]
  cases text v with
  | error e => rfl
  | ok t => cases itemTexts vs <;> rfl

theorem itemTexts_eq_ok_iff {items : List Value} {ts : List (List Char)} :
    itemTexts items = .ok ts ↔ List.Forall₂ Writes items ts := by
  rw [itemTexts_eq_mapM, mapM_eq_ok_iff]
  rfl

/-- What is written of items, or refused, depends on what each of them is written as. -/
theorem itemTexts_congr {xs ys : List Value} (h : xs.map text = ys.map text) :
    itemTexts xs = itemTexts ys := by
  induction xs generalizing ys with
  | nil =>
    rw [List.map_nil, eq_comm, List.map_eq_nil_iff] at h
    rw [h]
  | cons x xs ih =>
    obtain ⟨y, ys, rfl, hxy, hrest⟩ := List.map_eq_cons_iff.mp h.symm
    rw [itemTexts, itemTexts, hxy, ih hrest.symm]

/-- An array is written as its items' texts between brackets. -/
theorem writes_array_iff {items : List Value} {t : List Char} :
    Writes (.array items) t ↔
      ∃ ts, List.Forall₂ Writes items ts ∧ t = '[' :: (commaSeparated ts ++ [']']) := by
  rw [Writes, text]
  constructor
  · intro h
    split at h
    · next ts hts => exact ⟨ts, itemTexts_eq_ok_iff.mp hts, (Except.ok.inj h).symm⟩
    · cases h
  · rintro ⟨ts, hts, rfl⟩
    rw [itemTexts_eq_ok_iff.mpr hts]
    rfl

/-! ### Objects -/

theorem memberTexts_eq (members : List (String × Value)) :
    memberTexts members = members.map fun m => (m.1, text m.2) := by
  induction members with
  | nil => rw [memberTexts, List.map_nil]
  | cons m ms ih => rw [memberTexts, memberText, ih, List.map_cons]

/-- The members are written one by one when none of them is refused. -/
theorem collect_eq_ok_iff {write : Value → Except CanonicalError (List Char)}
    {members : List (String × Value)} {ts : List (List Char)} :
    (∃ ws, collect (members.map fun m => (m.1, write m.2)) = .ok ws ∧
      ws.map (fun w => member w.1 w.2) = ts) ↔
      List.Forall₂ (fun m t => ∃ u, write m.2 = .ok u ∧ t = member m.1 u) members ts := by
  induction members generalizing ts with
  | nil =>
    rw [List.map_nil, collect, List.forall₂_nil_left_iff]
    constructor
    · rintro ⟨ws, hws, rfl⟩
      obtain rfl := Except.ok.inj hws
      rfl
    · rintro rfl
      exact ⟨[], rfl, rfl⟩
  | cons m ms ih =>
    rw [List.map_cons]
    constructor
    · rintro ⟨ws, hws, rfl⟩
      cases ht : write m.2 with
      | error e =>
        rw [ht, collect] at hws
        cases hws
      | ok t =>
        rw [ht, collect] at hws
        split at hws
        · next us hus =>
          obtain rfl := Except.ok.inj hws
          exact .cons ⟨t, ht, rfl⟩ (ih.mp ⟨us, hus, rfl⟩)
        · cases hws
    · rintro (_ | ⟨⟨t, ht, rfl⟩, hts⟩)
      obtain ⟨us, hus, rfl⟩ := ih.mpr hts
      refine ⟨(m.1, t) :: us, ?_, rfl⟩
      rw [ht, collect, hus]

/-- **Neighbours are enough to find a repeated key** among sorted members. -/
theorem repeated?_eq_none_iff {α : Type} {ms : List (String × α)}
    (h : ms.Pairwise fun a b => keyLE a b = true) :
    repeated? ms = none ↔ (ms.map Prod.fst).Nodup := by
  induction ms with
  | nil => simp [repeated?]
  | cons a ms ih =>
    cases ms with
    | nil => simp [repeated?]
    | cons b ms =>
      obtain ⟨ha, hms⟩ := List.pairwise_cons.mp h
      rw [repeated?]
      split
      · next hab => simp [hab]
      · next hab =>
        rw [ih hms, List.map_cons (a := a), List.nodup_cons]
        refine ⟨fun hnodup => ⟨fun hmem => ?_, hnodup⟩, And.right⟩
        -- a key that comes back stands on both sides of its neighbour
        obtain ⟨c, hc, hca⟩ := List.mem_map.mp hmem
        rcases List.mem_cons.mp hc with rfl | hc
        · exact hab hca.symm
        · have hbc : keyLE b c = true := (List.pairwise_cons.mp hms).1 c hc
          have hba : keyLE b a = true := by
            rw [Value.keyLE_iff] at hbc ⊢
            rwa [← hca]
          exact hab (Value.fst_eq_of_keyLE (ha b (List.mem_cons_self ..)) hba)

/-- Which key is found to be repeated depends on the keys alone. -/
theorem repeated?_congr {α β : Type} {as : List (String × α)} {bs : List (String × β)}
    (h : as.map Prod.fst = bs.map Prod.fst) : repeated? as = repeated? bs := by
  induction as generalizing bs with
  | nil =>
    rw [List.map_nil, eq_comm, List.map_eq_nil_iff] at h
    subst h
    rfl
  | cons a as ih =>
    obtain ⟨b, bs, rfl, hab, hrest⟩ := List.map_eq_cons_iff.mp h.symm
    have htail := ih hrest.symm
    cases as with
    | nil =>
      rw [List.map_nil, List.map_eq_nil_iff] at hrest
      subst hrest
      rfl
    | cons a' as =>
      obtain ⟨b', bs, rfl, hab', -⟩ := List.map_eq_cons_iff.mp hrest
      rw [repeated?, repeated?, htail, hab, hab']

/-- **An object is written, or refused, the same in any order of its members.** When a key repeats,
the same one is found first, and otherwise the sorted members are the same. -/
theorem object_eq_of_perm {ms ns : List (String × Except CanonicalError (List Char))}
    (h : ms.Perm ns) : object ms = object ns := by
  have hrepeated : repeated? (ms.mergeSort keyLE) = repeated? (ns.mergeSort keyLE) :=
    repeated?_congr (Value.map_fst_mergeSort_eq_of_perm (h.map Prod.fst))
  rw [object, object, hrepeated]
  split
  · rfl
  · next hnone =>
    have hkeys : (ns.map Prod.fst).Nodup := Value.nodup_map_fst_mergeSort.mp
      ((repeated?_eq_none_iff (Value.pairwise_mergeSort_keyLE ns)).mp hnone)
    rw [Value.mergeSort_eq_of_perm hkeys ((List.mergeSort_perm ms keyLE).trans h)
      (Value.pairwise_mergeSort_keyLE ms)]

theorem text_eq_of_perm {ms ns : List (String × Value)} (h : ms.Perm ns) :
    text (.object ms) = text (.object ns) := by
  rw [text, text, memberTexts_eq, memberTexts_eq]
  exact object_eq_of_perm (h.map _)

/-- The members are arranged before they are written. -/
theorem mergeSort_memberTexts (members : List (String × Value)) :
    (memberTexts members).mergeSort keyLE
      = (members.mergeSort keyLE).map fun m => (m.1, text m.2) := by
  rw [memberTexts_eq, Value.map_mergeSort_keyLE (fun m => (m.1, text m.2)) fun _ => rfl]

/-- A key that repeats is found, wherever its members stand. -/
theorem repeated?_memberTexts_iff {members : List (String × Value)} :
    repeated? ((memberTexts members).mergeSort keyLE) = none ↔ (members.map Prod.fst).Nodup := by
  rw [repeated?_eq_none_iff (Value.pairwise_mergeSort_keyLE _), Value.nodup_map_fst_mergeSort,
    memberTexts_eq, List.map_map]
  rfl

/-- An object is written as its members' texts between braces, in the order of their keys, and it
is written only when its keys are distinct. -/
theorem writes_object_iff {members : List (String × Value)} {t : List Char} :
    Writes (.object members) t ↔
      (members.map Prod.fst).Nodup ∧
      ∃ ts, List.Forall₂ WritesMember (members.mergeSort keyLE) ts ∧
        t = '\x7b' :: (commaSeparated ts ++ ['\x7d']) := by
  have hrepeated : repeated? ((memberTexts members).mergeSort keyLE) = none ↔
      (members.map Prod.fst).Nodup := repeated?_memberTexts_iff
  rw [Writes, text, object]
  simp only [mergeSort_memberTexts] at hrepeated ⊢
  constructor
  · intro h
    split at h
    · cases h
    · next hnone =>
      split at h
      · next ws hws =>
        exact ⟨hrepeated.mp hnone, _, collect_eq_ok_iff.mp ⟨ws, hws, rfl⟩, (Except.ok.inj h).symm⟩
      · cases h
  · rintro ⟨hnodup, ts, hts, rfl⟩
    obtain ⟨ws, hws, rfl⟩ := collect_eq_ok_iff.mpr hts
    rw [hrepeated.mpr hnodup, hws]
    rfl

/-! ### When a container has a text -/

theorem exists_forall₂_iff {α β : Type} {R : α → β → Prop} {as : List α} :
    (∃ bs, List.Forall₂ R as bs) ↔ ∀ a ∈ as, ∃ b, R a b := by
  induction as with
  | nil => exact ⟨fun _ a ha => (by cases ha), fun _ => ⟨[], .nil⟩⟩
  | cons a as ih =>
    rw [List.forall_mem_cons, ← ih]
    constructor
    · rintro ⟨bs, _ | ⟨hb, hbs⟩⟩
      exact ⟨⟨_, hb⟩, _, hbs⟩
    · rintro ⟨⟨b, hb⟩, bs, hbs⟩
      exact ⟨b :: bs, .cons hb hbs⟩

/-- An array has a text when all its items have one. -/
theorem exists_writes_array_iff {items : List Value} :
    (∃ t, Writes (.array items) t) ↔ ∀ v ∈ items, ∃ t, Writes v t := by
  rw [← exists_forall₂_iff]
  constructor
  · rintro ⟨t, ht⟩
    obtain ⟨ts, hts, -⟩ := writes_array_iff.mp ht
    exact ⟨ts, hts⟩
  · rintro ⟨ts, hts⟩
    exact ⟨_, writes_array_iff.mpr ⟨ts, hts, rfl⟩⟩

/-- An object has a text when its keys are distinct and all its values have one. -/
theorem exists_writes_object_iff {members : List (String × Value)} :
    (∃ t, Writes (.object members) t) ↔
      (members.map Prod.fst).Nodup ∧ ∀ m ∈ members, ∃ t, Writes m.2 t := by
  have hmembers : (∃ ts, List.Forall₂ WritesMember (members.mergeSort keyLE) ts) ↔
      ∀ m ∈ members, ∃ t, Writes m.2 t := by
    rw [exists_forall₂_iff]
    constructor
    · intro h m hm
      obtain ⟨-, u, hu, -⟩ := h m (List.mem_mergeSort.mpr hm)
      exact ⟨u, hu⟩
    · intro h m hm
      obtain ⟨u, hu⟩ := h m (List.mem_mergeSort.mp hm)
      exact ⟨_, u, hu, rfl⟩
  rw [← hmembers]
  constructor
  · rintro ⟨t, ht⟩
    obtain ⟨hkeys, ts, hts, -⟩ := writes_object_iff.mp ht
    exact ⟨hkeys, ts, hts⟩
  · rintro ⟨hkeys, ts, hts⟩
    exact ⟨_, writes_object_iff.mpr ⟨hkeys, ts, hts, rfl⟩⟩

theorem writes_emptyObject : Writes .emptyObject ['\x7b', '\x7d'] :=
  writes_object_iff.mpr ⟨List.nodup_nil, [], by rw [List.mergeSort_nil]; exact .nil, rfl⟩

theorem exists_canonicalize_emptyObject : ∃ c, canonicalize .emptyObject = .ok c :=
  exists_canonicalize_iff.mpr ⟨_, writes_emptyObject⟩

end Canonical

end SealedLedger
