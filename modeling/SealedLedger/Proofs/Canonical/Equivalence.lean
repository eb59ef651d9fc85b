import SealedLedger.Proofs.Canonical.Numbers
import SealedLedger.Proofs.Canonical.Strings
import SealedLedger.Proofs.Canonical.Text

/-!
# Canonical text is uniquely decodable

A value is determined by its canonical text up to the order in which the members of its objects
were inserted, and up to the difference between numbers that are written alike.

The first character of a text tells null, the two truth values, numbers, strings, arrays and
objects apart. A number goes on for as long as there are letters of numbers, and every other value
ends by itself; so a text that begins with a value, and does not go on with a letter of numbers,
determines that value and what follows it. For containers this is an induction along their items,
which are separated by commas.

## Main definitions

* `Value.Equivalent` — the same data, with the members of objects in any order

## Main results

* `Canonical.equivalent_of_append_eq` — a text that begins with a value determines it
* `Canonical.eq_of_equivalent` — equivalent values are written alike
* `canonicalize_eq_iff_equivalent` — the two together, for whole values
-/

namespace SealedLedger

/-- The same data: null, truth values and strings equal, numbers that are written alike, arrays of
one length with equivalent items at each position, and objects with the same keys and equivalent
values under each key, in whatever order the members stand. -/
inductive Value.Equivalent : Value → Value → Prop
  | null : Equivalent .null .null
  | bool (b : Bool) : Equivalent (.bool b) (.bool b)
  | number {m n : Number} {t : List Char} (hm : Canonical.number m = .ok t)
    (hn : Canonical.number n = .ok t) : Equivalent (.number m) (.number n)
  | string (s : String) : Equivalent (.string s) (.string s)
  | array {xs ys : List Value} (hlen : xs.length = ys.length)
    (hitems : ∀ i (hx : i < xs.length) (hy : i < ys.length), Equivalent xs[i] ys[i]) :
    Equivalent (.array xs) (.array ys)
  | object {ms ns : List (String × Value)}
    (hkeys : ∀ k, k ∈ ms.map Prod.fst ↔ k ∈ ns.map Prod.fst)
    (hvalues : ∀ k v w, (k, v) ∈ ms → (k, w) ∈ ns → Equivalent v w) :
    Equivalent (.object ms) (.object ns)

namespace Value

/-- An array is equivalent to its items changed one by one exactly when each item is. -/
theorem equivalent_array_map_iff {f : Value → Value} {items : List Value} :
    Equivalent (.array items) (.array (items.map f)) ↔ ∀ v ∈ items, Equivalent v (f v) := by
  constructor
  · rintro (_ | _ | _ | _ | ⟨-, hall⟩) v hv
    obtain ⟨i, hi, rfl⟩ := List.getElem_of_mem hv
    have := hall i hi (by simpa using hi)
    rwa [List.getElem_map] at this
  · intro hall
    refine .array (List.length_map _).symm fun i hi hj => ?_
    rw [List.getElem_map]
    exact hall _ (List.getElem_mem hi)

/-- An object is equivalent to its members changed one by one, in any order, exactly when the value
of each member is. -/
theorem equivalent_object_map_iff {f : Value → Value} {ms ns : List (String × Value)}
    (hkeys : (ms.map Prod.fst).Nodup) (hns : ns.Perm (ms.map fun m => (m.1, f m.2))) :
    Equivalent (.object ms) (.object ns) ↔ ∀ m ∈ ms, Equivalent m.2 (f m.2) := by
  have hmem : ∀ {k w}, (k, w) ∈ ns ↔ ∃ v, (k, v) ∈ ms ∧ w = f v := by
    intro k w
    rw [hns.mem_iff, List.mem_map]
    constructor
    · rintro ⟨m, hm, heq⟩
      obtain ⟨rfl, rfl⟩ := Prod.mk.inj heq
      exact ⟨m.2, hm, rfl⟩
    · rintro ⟨v, hv, rfl⟩
      exact ⟨(k, v), hv, rfl⟩
  constructor
  · rintro (_ | _ | _ | _ | _ | ⟨-, hall⟩) m hm
    exact hall m.1 m.2 _ hm (hmem.mpr ⟨m.2, hm, rfl⟩)
  · intro hall
    refine .object (fun k => ?_) fun k v w hv hw => ?_
    · rw [(hns.map Prod.fst).mem_iff, List.map_map]
      rfl
    · obtain ⟨u, hu, rfl⟩ := hmem.mp hw
      rw [← snd_eq_of_mem hkeys hv hu]
      exact hall (k, v) hv

end Value

namespace Canonical

open Value (keyLE Equivalent)

/-! ### Where a value ends -/

/-- What follows does not go on with a letter of numbers. -/
def Stops (r : List Char) : Prop :=
  ∀ c cs, r = c :: cs → isNumeric c = false

theorem stops_cons {c : Char} (h : isNumeric c = false) (cs : List Char) : Stops (c :: cs) := by
  rintro d ds hd
  rwa [← (List.cons.inj hd).1]

theorem stops_nil : Stops [] := fun _ _ h => by cases h

/-- Two runs of letters of numbers are the same when they stop at the same place. -/
theorem numeric_append_inj {t u r s : List Char} (ht : ∀ c ∈ t, isNumeric c = true)
    (hu : ∀ c ∈ u, isNumeric c = true) (hr : Stops r) (hs : Stops s) (h : t ++ r = u ++ s) :
    t = u ∧ r = s := by
  induction t generalizing u with
  | nil =>
    cases u with
    | nil => exact ⟨rfl, h⟩
    | cons d u =>
      have := hr d (u ++ s) h
      rw [hu d (List.mem_cons_self ..)] at this
      cases this
  | cons c t ih =>
    cases u with
    | nil =>
      have := hs c (t ++ r) h.symm
      rw [ht c (List.mem_cons_self ..)] at this
      cases this
    | cons d u =>
      obtain ⟨rfl, hrest⟩ := List.cons.inj h
      obtain ⟨rfl, hrs⟩ := ih (fun e he => ht e (List.mem_cons_of_mem _ he))
        (fun e he => hu e (List.mem_cons_of_mem _ he)) hrest
      exact ⟨rfl, hrs⟩

/-! ### What a value begins with -/

/-- The first character of a value, with one character for all numbers. -/
def lead : Value → Char
  | .null => 'n'
  | .bool true => 't'
  | .bool false => 'f'
  | .number _ => '0'
  | .string _ => '"'
  | .array _ => '['
  | .object _ => '\x7b'

/-- A value begins with the first character of its kind. -/
theorem exists_cons_of_writes {v : Value} {t : List Char} (h : Writes v t) :
    ∃ c cs, t = c :: cs ∧ (if isNumeric c then '0' else c) = lead v := by
  cases v with
  | null => exact ⟨_, _, (Except.ok.inj h).symm, by decide⟩
  | bool b => cases b <;> exact ⟨_, _, (Except.ok.inj h).symm, by decide⟩
  | number n =>
    obtain ⟨c, cs, rfl⟩ := List.exists_cons_of_ne_nil (ne_nil_of_number h)
    exact ⟨c, cs, rfl, if_pos (isNumeric_of_mem_number h (List.mem_cons_self ..))⟩
  | string s => exact ⟨_, _, (Except.ok.inj h).symm, if_neg (by decide)⟩
  | array items =>
    obtain ⟨ts, -, rfl⟩ := writes_array_iff.mp h
    exact ⟨_, _, rfl, if_neg (by decide)⟩
  | object members =>
    obtain ⟨-, ts, -, rfl⟩ := writes_object_iff.mp h
    exact ⟨_, _, rfl, if_neg (by decide)⟩

/-- No value begins with a closing bracket or brace. -/
theorem lead_ne (v : Value) : lead v ≠ ']' ∧ lead v ≠ '\x7d' := by
  cases v with
  | bool b => cases b <;> decide
  | _ => simp [lead]

theorem lead_eq_of_append_eq {v w : Value} {t u r s : List Char} (hv : Writes v t)
    (hw : Writes w u) (h : t ++ r = u ++ s) : lead v = lead w := by
  obtain ⟨c, cs, rfl, hc⟩ := exists_cons_of_writes hv
  obtain ⟨d, ds, rfl, hd⟩ := exists_cons_of_writes hw
  obtain ⟨rfl, -⟩ := List.cons.inj h
  exact hc.symm.trans hd

/-! ### Items between commas -/

theorem commaSeparated_cons (t : List Char) (ts : List (List Char)) :
    commaSeparated (t :: ts) = t ++ (if ts = [] then [] else ',' :: commaSeparated ts) := by
  cases ts with
  | nil => simp [commaSeparated]
  | cons u us => simp [commaSeparated]

/-- **Items between commas are determined one by one**, up to the closing character, when of two
items at one place each is determined by a text that begins with it. The two lists may be written by
different rules. -/
theorem forall₂_of_commaSeparated {α β : Type} {W : α → List Char → Prop}
    {W' : β → List Char → Prop} {E : α → β → Prop} {close : Char}
    (hstop : isNumeric close = false) (hcomma : close ≠ ',')
    (hstart : ∀ a t, W a t → ∃ c cs, t = c :: cs ∧ c ≠ close)
    (hstart' : ∀ b t, W' b t → ∃ c cs, t = c :: cs ∧ c ≠ close) {as : List α} {bs : List β}
    {ts us : List (List Char)} {r s : List Char}
    (hitem : ∀ a b, (a, b) ∈ as.zip bs → ∀ t u r s, W a t → W' b u → t ++ r = u ++ s → Stops r →
      Stops s → E a b ∧ r = s)
    (has : List.Forall₂ W as ts) (hbs : List.Forall₂ W' bs us)
    (h : commaSeparated ts ++ close :: r = commaSeparated us ++ close :: s) :
    List.Forall₂ E as bs ∧ r = s := by
  induction has generalizing bs us with
  | nil =>
    cases hbs with
    | nil => exact ⟨.nil, (List.cons.inj h).2⟩
    | cons hb hbs =>
      obtain ⟨c, cs, rfl, hc⟩ := hstart' _ _ hb
      rw [commaSeparated_cons] at h
      exact absurd (List.cons.inj h).1.symm hc
  | @cons a t as ts ha has ih =>
    cases hbs with
    | nil =>
      obtain ⟨c, cs, rfl, hc⟩ := hstart _ _ ha
      rw [commaSeparated_cons] at h
      exact absurd (List.cons.inj h).1 hc
    | @cons b u bs us hb hbs =>
      have hstops : ∀ (xs : List (List Char)) (x : List Char),
          Stops ((if xs = [] then [] else ',' :: commaSeparated xs) ++ close :: x) := by
        intro xs x
        split
        · exact stops_cons hstop x
        · exact stops_cons (by decide) _
      rw [commaSeparated_cons, commaSeparated_cons, List.append_assoc, List.append_assoc] at h
      rw [List.zip_cons_cons] at hitem
      obtain ⟨hab, hrest⟩ :=
        hitem a b (List.mem_cons_self ..) t u _ _ ha hb h (hstops ts r) (hstops us s)
      -- after the item stands a comma when there are more, and the closing character otherwise
      by_cases hts : ts = [] <;> by_cases hus : us = []
      · subst hts hus
        cases has
        cases hbs
        exact ⟨.cons hab .nil, (List.cons.inj hrest).2⟩
      · rw [if_pos hts, if_neg hus] at hrest
        exact absurd (List.cons.inj hrest).1 hcomma
      · rw [if_neg hts, if_pos hus] at hrest
        exact absurd (List.cons.inj hrest).1.symm hcomma
      · rw [if_neg hts, if_neg hus] at hrest
        obtain ⟨hall, hrs⟩ := ih (fun c d hcd => hitem c d (List.mem_cons_of_mem _ hcd)) hbs
          (List.cons.inj hrest).2
        exact ⟨.cons hab hall, hrs⟩

theorem exists_cons_ne_of_writes {v : Value} {t : List Char} (h : Writes v t) :
    ∃ c cs, t = c :: cs ∧ c ≠ ']' := by
  obtain ⟨c, cs, rfl, hc⟩ := exists_cons_of_writes h
  refine ⟨c, cs, rfl, ?_⟩
  rintro rfl
  exact (lead_ne v).1 hc.symm

theorem exists_cons_ne_of_writesMember {m : String × Value} {t : List Char}
    (h : WritesMember m t) : ∃ c cs, t = c :: cs ∧ c ≠ '\x7d' := by
  obtain ⟨u, -, rfl⟩ := h
  exact ⟨_, _, rfl, by decide⟩

/-! ### Values -/

/-- A member is determined when its value is. -/
theorem member_of_append_eq {m n : String × Value} {t u r s : List Char}
    (ih : ∀ {w : Value} {t u r s : List Char}, Writes m.2 t → Writes w u → t ++ r = u ++ s →
      Stops r → Stops s → Equivalent m.2 w ∧ r = s)
    (hm : WritesMember m t) (hn : WritesMember n u) (h : t ++ r = u ++ s) (hr : Stops r)
    (hs : Stops s) : (m.1 = n.1 ∧ Equivalent m.2 n.2) ∧ r = s := by
  obtain ⟨t, ht, rfl⟩ := hm
  obtain ⟨u, hu, rfl⟩ := hn
  rw [member, member, List.append_assoc, List.append_assoc] at h
  obtain ⟨hkey, hvalue⟩ := string_append_inj h
  obtain ⟨hequiv, hrs⟩ := ih ht hu (List.cons.inj hvalue).2 hr hs
  exact ⟨⟨hkey, hequiv⟩, hrs⟩

/-- **A text that begins with a value determines it**, and with it what follows, when it does not
go on with a letter of numbers. -/
theorem equivalent_of_append_eq {v : Value} {w : Value} {t u r s : List Char} (hv : Writes v t)
    (hw : Writes w u) (h : t ++ r = u ++ s) (hr : Stops r) (hs : Stops s) :
    Equivalent v w ∧ r = s := by
  -- the first characters agree, so both values are of one kind
  have hlead := lead_eq_of_append_eq hv hw h
  induction v using Value.induction generalizing w t u r s with
  | null =>
    cases w with
    | null =>
      rw [hv.unique hw] at h
      exact ⟨.null, List.append_cancel_left h⟩
    | bool b => cases b <;> simp [lead] at hlead
    | _ => simp [lead] at hlead
  | bool a =>
    cases w with
    | bool b =>
      obtain rfl : a = b := by cases a <;> cases b <;> simp [lead] at hlead ⊢
      rw [hv.unique hw] at h
      exact ⟨.bool a, List.append_cancel_left h⟩
    | _ => cases a <;> simp [lead] at hlead
  | number m =>
    cases w with
    | number n =>
      obtain ⟨rfl, hrs⟩ := numeric_append_inj (fun c hc => isNumeric_of_mem_number hv hc)
        (fun c hc => isNumeric_of_mem_number hw hc) hr hs h
      exact ⟨.number hv hw, hrs⟩
    | bool b => cases b <;> simp [lead] at hlead
    | _ => simp [lead] at hlead
  | string a =>
    cases w with
    | string b =>
      obtain rfl := Except.ok.inj hv
      obtain rfl := Except.ok.inj hw
      obtain ⟨rfl, hrs⟩ := string_append_inj h
      exact ⟨.string a, hrs⟩
    | bool b => cases b <;> simp [lead] at hlead
    | _ => simp [lead] at hlead
  | array xs ih =>
    cases w with
    | array ys =>
      obtain ⟨ts, hts, rfl⟩ := writes_array_iff.mp hv
      obtain ⟨us, hus, rfl⟩ := writes_array_iff.mp hw
      simp only [List.cons_append, List.append_assoc, List.nil_append] at h
      obtain ⟨hall, hrs⟩ := forall₂_of_commaSeparated (E := Equivalent) (by decide) (by decide)
        (fun _ _ => exists_cons_ne_of_writes) (fun _ _ => exists_cons_ne_of_writes)
        (fun a b hab _ _ _ _ ht hu h hr hs =>
          ih a (List.of_mem_zip hab).1 ht hu h hr hs (lead_eq_of_append_eq ht hu h))
        hts hus (List.cons.inj h).2
      refine ⟨.array hall.length_eq fun i hx hy => ?_, hrs⟩
      exact (List.forall₂_iff_get.mp hall).2 i hx hy
    | bool b => cases b <;> simp [lead] at hlead
    | _ => simp [lead] at hlead
  | object ms ih =>
    cases w with
    | object ns =>
      obtain ⟨hms, ts, hts, rfl⟩ := writes_object_iff.mp hv
      obtain ⟨hns, us, hus, rfl⟩ := writes_object_iff.mp hw
      simp only [List.cons_append, List.append_assoc, List.nil_append] at h
      obtain ⟨hall, hrs⟩ := forall₂_of_commaSeparated
        (E := fun m n => m.1 = n.1 ∧ Equivalent m.2 n.2) (by decide) (by decide)
        (fun _ _ => exists_cons_ne_of_writesMember) (fun _ _ => exists_cons_ne_of_writesMember)
        (fun a b hab _ _ _ _ ht hu h hr hs =>
          member_of_append_eq
            (fun ht hu h hr hs => ih a (List.mem_mergeSort.mp (List.of_mem_zip hab).1) ht hu h hr hs
              (lead_eq_of_append_eq ht hu h))
            ht hu h hr hs)
        hts hus (List.cons.inj h).2
      obtain ⟨hkeys, hvalues⟩ := (Value.forall₂_mergeSort_iff hms hns).mp hall
      exact ⟨.object hkeys hvalues, hrs⟩
    | bool b => cases b <;> simp [lead] at hlead
    | _ => simp [lead] at hlead

/-! ### Equivalent values are written alike -/

theorem eq_of_forall₂ {α : Type} {W : α → List Char → Prop} {E : α → α → Prop} {as bs : List α}
    {ts us : List (List Char)} (h : List.Forall₂ E as bs) (hts : List.Forall₂ W as ts)
    (hus : List.Forall₂ W bs us)
    (hitem : ∀ a ∈ as, ∀ b t u, E a b → W a t → W b u → t = u) : ts = us := by
  induction h generalizing ts us with
  | nil =>
    cases hts
    cases hus
    rfl
  | @cons a b as bs hab _ ih =>
    cases hts with
    | cons ht hts =>
      cases hus with
      | cons hu hus =>
        rw [hitem a (List.mem_cons_self ..) b _ _ hab ht hu,
          ih hts hus fun c hc => hitem c (List.mem_cons_of_mem _ hc)]

/-- **Equivalent values are written alike.** -/
theorem eq_of_equivalent {v w : Value} {t u : List Char} (h : Equivalent v w) (hv : Writes v t)
    (hw : Writes w u) : t = u := by
  induction v using Value.induction generalizing w t u with
  | null => cases h; exact hv.unique hw
  | bool b => cases h; exact hv.unique hw
  | string s => cases h; exact hv.unique hw
  | number m =>
    cases h with
    | number hm hn =>
      have hu := Writes.unique (v := .number _) hn hw
      exact (hv.unique (v := .number m) hm).trans hu
  | array xs ih =>
    cases h with
    | array hlen hitems =>
      obtain ⟨ts, hts, rfl⟩ := writes_array_iff.mp hv
      obtain ⟨us, hus, rfl⟩ := writes_array_iff.mp hw
      have hall : List.Forall₂ Equivalent xs _ :=
        List.forall₂_iff_get.mpr ⟨hlen, fun i hx hy => hitems i hx hy⟩
      rw [eq_of_forall₂ hall hts hus fun a ha _ _ _ h => ih a ha h]
  | object ms ih =>
    cases h with
    | object hkeys hvalues =>
      obtain ⟨hms, ts, hts, rfl⟩ := writes_object_iff.mp hv
      obtain ⟨hns, us, hus, rfl⟩ := writes_object_iff.mp hw
      have hall := (Value.forall₂_mergeSort_iff hms hns).mpr ⟨hkeys, hvalues⟩
      rw [eq_of_forall₂ hall hts hus]
      rintro a ha b _ _ ⟨hkey, hab⟩ ⟨t, ht, rfl⟩ ⟨u, hu, rfl⟩
      rw [hkey, ih a (List.mem_mergeSort.mp ha) hab ht hu]

/-- A text determines its value up to equivalence, and equivalence determines the text. -/
theorem eq_iff_equivalent {v w : Value} {t u : List Char} (hv : Writes v t) (hw : Writes w u) :
    t = u ↔ Equivalent v w := by
  refine ⟨fun h => ?_, fun h => eq_of_equivalent h hv hw⟩
  exact (equivalent_of_append_eq (r := []) (s := []) hv hw (by rw [h]) stops_nil stops_nil).1

theorem equivalent_of_canonicalize_eq {v w : Value} {c : List UInt8} (hv : canonicalize v = .ok c)
    (hw : canonicalize w = .ok c) : Equivalent v w := by
  obtain ⟨t, ht, rfl⟩ := canonicalize_eq_ok_iff.mp hv
  obtain ⟨u, hu, hc⟩ := canonicalize_eq_ok_iff.mp hw
  exact (eq_iff_equivalent ht hu).mp (Utf8.encode_injective hc)

theorem canonicalize_eq_of_equivalent {v w : Value} {c d : List UInt8} (h : Equivalent v w)
    (hv : canonicalize v = .ok c) (hw : canonicalize w = .ok d) : c = d := by
  obtain ⟨t, ht, rfl⟩ := canonicalize_eq_ok_iff.mp hv
  obtain ⟨u, hu, rfl⟩ := canonicalize_eq_ok_iff.mp hw
  rw [eq_of_equivalent h ht hu]

end Canonical

/-- **Two values have the same canonical bytes exactly when they are equivalent**: the order in
which members were inserted makes no difference, at any depth, and every other difference does. -/
theorem canonicalize_eq_iff_equivalent {v w : Value} {c d : List UInt8}
    (hv : canonicalize v = .ok c) (hw : canonicalize w = .ok d) : c = d ↔ Value.Equivalent v w := by
  constructor
  · rintro rfl
    exact Canonical.equivalent_of_canonicalize_eq hv hw
  · intro h
    exact Canonical.canonicalize_eq_of_equivalent h hv hw

/-- The members `b` and `a` in two orders, with the number two once as a word and once as a
double. -/
theorem canonicalize_eq_iff_equivalent_reordered :
    ∃ c, canonicalize (.object [("b", .number (.int 2)), ("a", .array [.null])]) = .ok c ∧
      canonicalize (.object [("a", .array [.null]), ("b", .number (.float (.ofNat 2)))]) = .ok c ∧
      Value.Equivalent (.object [("b", .number (.int 2)), ("a", .array [.null])])
        (.object [("a", .array [.null]), ("b", .number (.float (.ofNat 2)))]) := by
  have hle : ∀ p q : Except CanonicalError (List Char),
      Value.keyLE ("b", p) ("a", q) = false ∧ Value.keyLE ("a", q) ("b", p) = true := fun p q =>
    ⟨show decide (utf8 "b" ≤ utf8 "a") = false by decide +kernel,
      show decide (utf8 "a" ≤ utf8 "b") = true by decide +kernel⟩
  have hba : ∀ p q : Except CanonicalError (List Char),
      [("b", p), ("a", q)].mergeSort Value.keyLE = [("a", q), ("b", p)] := fun p q => by
    simp [List.mergeSort, hle]
  have hab : ∀ p q : Except CanonicalError (List Char),
      [("a", q), ("b", p)].mergeSort Value.keyLE = [("a", q), ("b", p)] := fun p q => by
    simp [List.mergeSort, hle]
  have hv : canonicalize (.object [("b", .number (.int 2)), ("a", .array [.null])])
      = .ok (Utf8.encode "\x7b\"a\":[null],\"b\":2\x7d".toList) := by
    simp only [canonicalize, Canonical.text, Canonical.object, Canonical.memberTexts,
      Canonical.memberText, hba]
    decide +kernel
  have hw : canonicalize (.object [("a", .array [.null]), ("b", .number (.float (.ofNat 2)))])
      = .ok (Utf8.encode "\x7b\"a\":[null],\"b\":2\x7d".toList) := by
    simp only [canonicalize, Canonical.text, Canonical.object, Canonical.memberTexts,
      Canonical.memberText, hab]
    decide +kernel
  exact ⟨_, hv, hw, (canonicalize_eq_iff_equivalent hv hw).mp rfl⟩

end SealedLedger
