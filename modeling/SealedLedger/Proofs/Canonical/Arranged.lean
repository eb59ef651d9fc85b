import SealedLedger.Proofs.Canonical.Equivalence

/-!
# Canonical text with keys in another order

The text of a value by the same rules, but with the members of each object in a given order of their
keys. An order that arranges the members of each object as the order of bytes does gives the same
text, or the same refusal. No other order does: the text of an object shows its keys one after
another, so the arrangement of members can be read off the text, at every depth.

## Main definitions

* `Canonical.textBy` — the text of a value, by the same rules, with members in a given order of keys
* `Canonical.ArrangedAlike` — the order arranges the members of each object as that of bytes does

## Main results

* `Canonical.arrangedAlike_of_append_eq` — the text shows the arrangement
* `Canonical.textBy_eq_text_iff` — the orders of keys that give the canonical text
-/

namespace SealedLedger

namespace Canonical

open Value (keyLE Occurs)

/-- The text of an object whose members have been arranged. -/
def arranged (members : List (String × Except CanonicalError (List Char))) :
    Except CanonicalError (List Char) :=
  match repeated? members with
  | some key => .error (.repeatedKey key)
  | none =>
    match collect members with
    | .ok texts => .ok ('\x7b' :: commaSeparated (texts.map fun m => member m.1 m.2) ++ ['\x7d'])
    | .error e => .error e

theorem object_eq (members : List (String × Except CanonicalError (List Char))) :
    object members = arranged (members.mergeSort keyLE) := rfl

section

variable (le : String → String → Bool)

/-- The text of an object with its members in an order of keys. -/
def objectBy (members : List (String × Except CanonicalError (List Char))) :
    Except CanonicalError (List Char) :=
  arranged (members.mergeSort fun a b => le a.1 b.1)

mutual

/-- The text of a value with the members of each object in an order of keys. -/
def textBy : Value → Except CanonicalError (List Char)
  | .null => .ok ['n', 'u', 'l', 'l']
  | .bool true => .ok ['t', 'r', 'u', 'e']
  | .bool false => .ok ['f', 'a', 'l', 's', 'e']
  | .number n => number n
  | .string s => .ok (string s)
  | .array items =>
    match itemTextsBy items with
    | .ok texts => .ok ('[' :: commaSeparated texts ++ [']'])
    | .error e => .error e
  | .object members => objectBy le (memberTextsBy members)
termination_by structural v => v

/-- The texts of items, or the first refusal. -/
def itemTextsBy : List Value → Except CanonicalError (List (List Char))
  | [] => .ok []
  | v :: vs =>
    match textBy v with
    | .error e => .error e
    | .ok t =>
      match itemTextsBy vs with
      | .ok ts => .ok (t :: ts)
      | .error e => .error e
termination_by structural vs => vs

/-- Each key with its value's text or refusal. -/
def memberTextsBy : List (String × Value) → List (String × Except CanonicalError (List Char))
  | [] => []
  | m :: ms => memberTextBy m :: memberTextsBy ms
termination_by structural ms => ms

/-- A key with its value's text or refusal. -/
def memberTextBy : String × Value → String × Except CanonicalError (List Char)
  | (k, v) => (k, textBy v)
termination_by structural m => m

end

/-- The members of each object inside the value are arranged as by the order of bytes. -/
def ArrangedAlike (v : Value) : Prop :=
  ∀ members, Occurs (.object members) v →
    members.mergeSort (fun a b => le a.1 b.1) = members.mergeSort keyLE

end

variable {le : String → String → Bool}

/-! ### Items and members -/

theorem itemTextsBy_eq_mapM (items : List Value) :
    itemTextsBy le items = items.mapM (textBy le) := by
  refine eq_mapM_of_cons (g := itemTextsBy le) rfl (fun v vs => ?_) items
  rw [itemTextsBy]
  cases textBy le v with
  | error e => rfl
  | ok t => cases itemTextsBy le vs <;> rfl

theorem memberTextsBy_eq_map (members : List (String × Value)) :
    memberTextsBy le members = members.map fun m => (m.1, textBy le m.2) := by
  induction members with
  | nil => rfl
  | cons m ms ih => rw [memberTextsBy, memberTextBy, ih, List.map_cons]

/-! ### Members that are arranged alike -/

theorem itemTextsBy_eq {items : List Value} (h : ∀ v ∈ items, textBy le v = text v) :
    itemTextsBy le items = itemTexts items := by
  induction items with
  | nil => rfl
  | cons v vs ih =>
    obtain ⟨hv, hvs⟩ := List.forall_mem_cons.mp h
    rewrite [itemTextsBy, itemTexts, hv, ih hvs]
    rfl

theorem memberTextsBy_eq {members : List (String × Value)}
    (h : ∀ m ∈ members, textBy le m.2 = text m.2) :
    memberTextsBy le members = memberTexts members := by
  rw [memberTextsBy_eq_map, memberTexts_eq]
  exact List.map_congr_left fun m hm => by rw [h m hm]

/-- **A value is written the same**, or refused the same, in an order of keys that arranges the
members of each object inside it alike. -/
theorem textBy_eq_text {v : Value} (h : ArrangedAlike le v) : textBy le v = text v := by
  induction v using Value.induction with
  | null => rfl
  | bool b => cases b <;> rfl
  | number n => rfl
  | string s => rfl
  | array items ih =>
    rewrite [textBy, text, itemTextsBy_eq fun v hv => ih v hv fun ms hms => h ms (.item hv hms)]
    rfl
  | object members ih =>
    have hsort : (memberTexts members).mergeSort (fun a b => le a.1 b.1)
        = (memberTexts members).mergeSort keyLE := by
      rw [mergeSort_memberTexts, memberTexts_eq, ← h members .here]
      exact (List.map_mergeSort (f := fun m : String × Value => (m.1, text m.2))
        fun _ _ _ _ => rfl).symm
    rw [textBy, text, memberTextsBy_eq fun m hm => ih m hm fun ms hms => h ms (.member hm hms),
      objectBy, object_eq, hsort]

/-- An order that agrees with that of bytes on the keys of an object arranges its members alike. -/
theorem arrangedAlike_of_iff {v : Value}
    (h : ∀ members, Occurs (.object members) v → ∀ m ∈ members, ∀ n ∈ members,
      (le m.1 n.1 = true ↔ utf8 m.1 ≤ utf8 n.1)) : ArrangedAlike le v := by
  intro members hmembers
  have hle : ∀ m ∈ members, ∀ n ∈ members, le m.1 n.1 = keyLE m n := by
    intro m hm n hn
    rw [Bool.eq_iff_iff, h members hmembers m hm n hn, Value.keyLE_iff]
  simpa using List.map_mergeSort (f := id) hle

/-! ### The text shows the arrangement -/

/-- A member is written in an order of keys as the text. -/
def WritesMemberBy (le : String → String → Bool) (m : String × Value) (t : List Char) : Prop :=
  ∃ u, textBy le m.2 = .ok u ∧ t = member m.1 u

/-- An array that is written has its items' texts between brackets. -/
theorem forall₂_of_textBy_array {items : List Value} {t : List Char}
    (h : textBy le (.array items) = .ok t) :
    ∃ ts, List.Forall₂ (fun v t => textBy le v = .ok t) items ts ∧
      t = '[' :: (commaSeparated ts ++ [']']) := by
  rw [textBy] at h
  split at h
  · next ts hts =>
    rw [itemTextsBy_eq_mapM, mapM_eq_ok_iff] at hts
    exact ⟨ts, hts, (Except.ok.inj h).symm⟩
  · cases h

/-- An object that is written has its members' texts between braces, in the order of keys. -/
theorem forall₂_of_textBy_object {members : List (String × Value)} {t : List Char}
    (h : textBy le (.object members) = .ok t) :
    ∃ ts, List.Forall₂ (WritesMemberBy le) (members.mergeSort fun a b => le a.1 b.1) ts ∧
      t = '\x7b' :: (commaSeparated ts ++ ['\x7d']) := by
  rw [textBy, objectBy, memberTextsBy_eq_map,
    ← List.map_mergeSort (f := fun m : String × Value => (m.1, textBy le m.2)) fun a _ b _ => rfl,
    arranged] at h
  split at h
  · cases h
  · split at h
    · next ws hws =>
      exact ⟨_, collect_eq_ok_iff.mp ⟨ws, hws, rfl⟩, (Except.ok.inj h).symm⟩
    · cases h

/-- A value begins with the first character of its kind, in every order of keys. -/
theorem exists_cons_of_textBy {v : Value} {t : List Char} (h : textBy le v = .ok t) :
    ∃ c cs, t = c :: cs ∧ (if isNumeric c then '0' else c) = lead v := by
  cases v with
  | array items =>
    obtain ⟨ts, -, rfl⟩ := forall₂_of_textBy_array h
    exact ⟨_, _, rfl, if_neg (by decide)⟩
  | object members =>
    obtain ⟨ts, -, rfl⟩ := forall₂_of_textBy_object h
    exact ⟨_, _, rfl, if_neg (by decide)⟩
  | bool b => cases b <;> exact exists_cons_of_writes h
  | _ => exact exists_cons_of_writes h

theorem exists_cons_ne_of_textBy {v : Value} {t : List Char} (h : textBy le v = .ok t) :
    ∃ c cs, t = c :: cs ∧ c ≠ ']' := by
  obtain ⟨c, cs, rfl, hc⟩ := exists_cons_of_textBy h
  refine ⟨c, cs, rfl, ?_⟩
  rintro rfl
  exact (lead_ne v).1 hc.symm

theorem exists_cons_ne_of_writesMemberBy {m : String × Value} {t : List Char}
    (h : WritesMemberBy le m t) : ∃ c cs, t = c :: cs ∧ c ≠ '\x7d' := by
  obtain ⟨u, -, rfl⟩ := h
  exact ⟨_, _, rfl, by decide⟩

theorem rest_eq_of_writes {v : Value} {t u r s : List Char} (ht : Writes v t) (hu : Writes v u)
    (h : t ++ r = u ++ s) : r = s :=
  List.append_cancel_left (ht.unique hu ▸ h)

/-- **The text shows the arrangement.** When a text begins with a value that is written in an order
of keys and with its canonical text, the members of each object inside the value are arranged the
same, and what follows is the same. -/
theorem arrangedAlike_of_append_eq {v : Value} {t u r s : List Char} (hv : textBy le v = .ok t)
    (hw : Writes v u) (h : t ++ r = u ++ s) (hr : Stops r) (hs : Stops s) :
    ArrangedAlike le v ∧ r = s := by
  induction v using Value.induction generalizing t u r s with
  | null => exact ⟨by rintro _ ⟨⟩, rest_eq_of_writes (v := .null) hv hw h⟩
  | bool b =>
    have hb : Writes (.bool b) t := by cases b <;> exact hv
    exact ⟨by rintro _ ⟨⟩, rest_eq_of_writes hb hw h⟩
  | number n => exact ⟨by rintro _ ⟨⟩, rest_eq_of_writes (v := .number n) hv hw h⟩
  | string a => exact ⟨by rintro _ ⟨⟩, rest_eq_of_writes (v := .string a) hv hw h⟩
  | array items ih =>
    obtain ⟨ts, hts, rfl⟩ := forall₂_of_textBy_array hv
    obtain ⟨us, hus, rfl⟩ := writes_array_iff.mp hw
    simp only [List.cons_append, List.append_assoc, List.nil_append] at h
    have hitem : ∀ v w, (v, w) ∈ items.zip items → v ∈ items ∧ v = w := by
      intro v w hvw
      obtain ⟨i, hi, heq⟩ := List.getElem_of_mem hvw
      rw [List.getElem_zip] at heq
      obtain ⟨rfl, rfl⟩ := Prod.mk.inj heq
      exact ⟨List.getElem_mem _, rfl⟩
    obtain ⟨hall, hrs⟩ := forall₂_of_commaSeparated (E := fun v w => ArrangedAlike le v ∧ v = w)
      (by decide) (by decide) (fun _ _ => exists_cons_ne_of_textBy)
      (fun _ _ => exists_cons_ne_of_writes)
      (fun v w hvw t u r s ht hu h hr hs => by
        obtain ⟨hmem, rfl⟩ := hitem v w hvw
        obtain ⟨halike, hrs⟩ := ih v hmem ht hu h hr hs
        exact ⟨⟨halike, rfl⟩, hrs⟩)
      hts hus (List.cons.inj h).2
    refine ⟨?_, hrs⟩
    rintro members (_ | ⟨hmem, hin⟩)
    exact ((List.forall₂_and_left _ _).mp hall).1 _ hmem members hin
  | object members ih =>
    obtain ⟨ts, hts, rfl⟩ := forall₂_of_textBy_object hv
    obtain ⟨hkeys, us, hus, rfl⟩ := writes_object_iff.mp hw
    simp only [List.cons_append, List.append_assoc, List.nil_append] at h
    obtain ⟨hall, hrs⟩ := forall₂_of_commaSeparated
      (E := fun m n => ArrangedAlike le m.2 ∧ m = n)
      (by decide) (by decide) (fun _ _ => exists_cons_ne_of_writesMemberBy)
      (fun _ _ => exists_cons_ne_of_writesMember)
      (fun m n hmn t u r s ht hu h hr hs => by
        obtain ⟨t, ht, rfl⟩ := ht
        obtain ⟨u, hu, rfl⟩ := hu
        have hm := List.mem_mergeSort.mp (List.of_mem_zip hmn).1
        have hn := List.mem_mergeSort.mp (List.of_mem_zip hmn).2
        rw [member, member, List.append_assoc, List.append_assoc] at h
        obtain ⟨hkey, hvalue⟩ := string_append_inj h
        obtain rfl := List.inj_on_of_nodup_map hkeys hm hn hkey
        obtain ⟨halike, hrs⟩ := ih m hm ht hu (List.cons.inj hvalue).2 hr hs
        exact ⟨⟨halike, rfl⟩, hrs⟩)
      hts hus (List.cons.inj h).2
    obtain ⟨hinside, heq⟩ := (List.forall₂_and_left _ _).mp hall
    refine ⟨?_, hrs⟩
    rintro inner (_ | _ | ⟨hm, hin⟩)
    · exact List.forall₂_eq_eq_eq ▸ heq
    · exact hinside _ (List.mem_mergeSort.mpr hm) inner hin

/-- **The order that matters is how it arranges the members of each object**: a value with a text is
written the same in another order of keys exactly when these are arranged alike. -/
theorem textBy_eq_text_iff {v : Value} {t : List Char} (ht : Writes v t) :
    textBy le v = text v ↔ ArrangedAlike le v := by
  refine ⟨fun h => ?_, textBy_eq_text⟩
  exact (arrangedAlike_of_append_eq (r := []) (s := []) (h.trans ht) ht rfl stops_nil stops_nil).1

end Canonical

end SealedLedger
