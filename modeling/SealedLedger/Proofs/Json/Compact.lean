import SealedLedger.Proofs.Json.Written
import SealedLedger.Proofs.Value.Tidied

/-!
# The compact text is the canonical text

Records are hashed by one writer and stored by another. The writer of stored texts knows nothing of
the canonical text: it goes through the bytes of a string and looks each of them up, puts a comma in
front of every item but the first, and leaves members where they are. All the same the two put out
the same bytes for a value whose members are in order, as long as no key repeats and each number has
one text in both. Integers have; only doubles may be laid out differently.

The writer of stored texts refuses nothing but a double that is not finite. Repeated keys do not
trouble it.

## Main definitions

* `Json.escapedByte`, `Json.quoted` — a string as it is put out, byte by byte
* `Json.emit` — a value as it is put out, from left to right

## Main results

* `Json.emit_eq` — what is put out are the bytes of the compact text
* `Json.write_tidy` — the compact text of a tidied value is the canonical text
* `canonicalize_eq_compact` — the two writers agree away from doubles
-/

namespace SealedLedger

open Value (Occurs HasDistinctKeys keyLE)

namespace Json

open Canonical (commaSeparated)

/-! ### Strings, byte by byte -/

/-- The bytes that have an escape of one letter, each with its letter. -/
def shortEscapes : List (UInt8 × Char) :=
  [(0x08, 'b'), (0x09, 't'), (0x0A, 'n'), (0x0C, 'f'), (0x0D, 'r'), (0x22, '"'), (0x5C, '\\')]

/-- A byte of a string as it is put out. -/
def escapedByte (b : UInt8) : List UInt8 :=
  match shortEscapes.lookup b with
  | some letter => [ascii '\\', ascii letter]
  | none =>
    if b < 0x20 then
      [ascii '\\', ascii 'u', ascii '0', ascii '0', ascii (Hex.digit (b.toNat / 16)),
        ascii (Hex.digit (b.toNat % 16))]
    else [b]

/-- The bytes of a string as they are put out between quotes. -/
def quoted (bytes : List UInt8) : List UInt8 :=
  ascii '"' :: (bytes.flatMap escapedByte ++ [ascii '"'])

/-- The bytes beyond ASCII are put out as they are. -/
theorem escapedByte_of_le {b : UInt8} (h : 0x80 ≤ b.toNat) : escapedByte b = [b] := by
  have key : ∀ n : Fin 0x80, escapedByte (UInt8.ofNat (n + 0x80)) = [UInt8.ofNat (n + 0x80)] := by
    decide
  have hb := b.toNat_lt
  have hbyte := key ⟨b.toNat - 0x80, by omega⟩
  rwa [Nat.sub_add_cancel h, UInt8.ofNat_toNat] at hbyte

/-- A character beyond ASCII is written as itself. -/
theorem escape_of_le {c : Char} (h : 0x80 ≤ c.toNat) : Canonical.escape c = [c] := by
  have hne : ∀ d : Char, d.toNat < 0x80 → c ≠ d := by
    rintro d hd rfl
    omega
  rw [Canonical.escape, if_neg (hne _ (by decide)), if_neg (hne _ (by decide)),
    if_neg (hne _ (by decide)), if_neg (hne _ (by decide)), if_neg (hne _ (by decide)),
    if_neg (hne _ (by decide)), if_neg (hne _ (by decide)), if_neg (by omega)]

/-- **A character and its bytes are escaped alike.** -/
theorem flatMap_escapedByte_encodeChar (c : Char) :
    (Utf8.encodeChar c).flatMap escapedByte = Utf8.encode (Canonical.escape c) := by
  by_cases hc : c.toNat < 0x80
  · have key : ∀ n : Fin 0x80, (Utf8.encodeChar (Char.ofNat n)).flatMap escapedByte
        = Utf8.encode (Canonical.escape (Char.ofNat n)) := by decide
    have hchar := key ⟨c.toNat, hc⟩
    rwa [Char.ofNat_toNat] at hchar
  · have hbytes : (Utf8.encodeChar c).flatMap escapedByte = (Utf8.encodeChar c).flatMap ([·]) :=
      List.flatMap_congr fun b hb =>
        escapedByte_of_le (Utf8.le_of_mem_encodeChar (Nat.not_lt.mp hc) hb)
    rw [hbytes, List.flatMap_singleton', escape_of_le (Nat.not_lt.mp hc), Utf8.encode_cons,
      Utf8.encode_nil, List.append_nil]

/-- **The bytes of a string between quotes are those of its text.** -/
theorem quoted_utf8 (s : String) : quoted (utf8 s) = Utf8.encode (Canonical.string s) := by
  have hbody : ∀ cs, (Utf8.encode cs).flatMap escapedByte = Utf8.encode (Canonical.body cs) := by
    intro cs
    induction cs with
    | nil => rfl
    | cons c cs ih =>
      rw [Utf8.encode_cons, List.flatMap_append, flatMap_escapedByte_encodeChar, ih,
        Canonical.body_cons, Utf8.encode_append]
  rw [quoted, utf8, hbody, encode_string]

/-! ### Values, from left to right -/

/-- What is put out in front of an item: nothing before the first one. -/
def comma (first : Bool) : List UInt8 :=
  if first then [] else [ascii ',']

mutual

/-- The bytes of a value as they are put out. -/
def emit : Value → Except CanonicalError (List UInt8)
  | .null => .ok (Utf8.encode ['n', 'u', 'l', 'l'])
  | .bool true => .ok (Utf8.encode ['t', 'r', 'u', 'e'])
  | .bool false => .ok (Utf8.encode ['f', 'a', 'l', 's', 'e'])
  | .number n => (numberText n).map Utf8.encode
  | .string s => .ok (quoted (utf8 s))
  | .array items =>
    match emitItems true items with
    | .ok bytes => .ok (ascii '[' :: (bytes ++ [ascii ']']))
    | .error e => .error e
  | .object members =>
    match emitMembers true members with
    | .ok bytes => .ok (ascii '\x7b' :: (bytes ++ [ascii '\x7d']))
    | .error e => .error e
termination_by structural v => v

/-- The bytes of items as they are put out. -/
def emitItems (first : Bool) : List Value → Except CanonicalError (List UInt8)
  | [] => .ok []
  | v :: vs =>
    match emit v with
    | .error e => .error e
    | .ok bytes =>
      match emitItems false vs with
      | .ok more => .ok (comma first ++ bytes ++ more)
      | .error e => .error e
termination_by structural vs => vs

/-- The bytes of members as they are put out. -/
def emitMembers (first : Bool) : List (String × Value) → Except CanonicalError (List UInt8)
  | [] => .ok []
  | m :: ms =>
    match emitMember m with
    | .error e => .error e
    | .ok bytes =>
      match emitMembers false ms with
      | .ok more => .ok (comma first ++ bytes ++ more)
      | .error e => .error e
termination_by structural ms => ms

/-- The bytes of a member as they are put out. -/
def emitMember : String × Value → Except CanonicalError (List UInt8)
  | (k, v) =>
    match emit v with
    | .ok bytes => .ok (quoted (utf8 k) ++ ascii ':' :: bytes)
    | .error e => .error e
termination_by structural m => m

end

/-! ### The compact layout -/

/-- Without blanks a container is its items between commas. -/
theorem container_none (depth : Nat) (opening closing : Char) (ts : List (List Char)) :
    container .none depth opening closing ts
      = opening :: (commaSeparated ts ++ [closing]) := by
  cases ts with
  | nil => rfl
  | cons t ts => simp [container, Spacing.none]

theorem encode_enclosed {opening closing : Char} (ho : opening.toNat < 0x80)
    (hc : closing.toNat < 0x80) (t : List Char) :
    Utf8.encode (opening :: (t ++ [closing]))
      = ascii opening :: (Utf8.encode t ++ [ascii closing]) := by
  rewrite [Utf8.encode_cons_of_lt ho, Utf8.encode_append, Utf8.encode_cons_of_lt hc]
  rfl

/-- One item more has a comma in front of it, unless it is the first. -/
theorem encode_itemsText_cons (first : Bool) (t : List Char) (ts : List (List Char)) :
    Utf8.encode (itemsText first (t :: ts))
      = comma first ++ Utf8.encode t ++ Utf8.encode (itemsText false ts) := by
  have hcomma : Utf8.encode (if first then [] else [',']) = comma first := by
    cases first <;> rfl
  rw [itemsText_cons, Utf8.encode_append, Utf8.encode_append, hcomma]

theorem emitItems_eq {d : Nat} {items : List Value}
    (h : ∀ v ∈ items, emit v = (write .none d v).map Utf8.encode) (first : Bool) :
    emitItems first items
      = (writeItems .none d items).map fun ts => Utf8.encode (itemsText first ts) := by
  induction items generalizing first with
  | nil =>
    rw [emitItems, writeItems, Except.map, itemsText_nil, Utf8.encode_nil]
  | cons v vs ih =>
    obtain ⟨hv, hvs⟩ := List.forall_mem_cons.mp h
    rw [emitItems, writeItems, hv, ih hvs]
    cases write .none d v with
    | error e => rfl
    | ok t =>
      cases writeItems .none d vs with
      | error e => rfl
      | ok ts => simp only [Except.map, encode_itemsText_cons]

theorem emitMembers_eq {d : Nat} {ms : List (String × Value)}
    (h : ∀ m ∈ ms, emit m.2 = (write .none d m.2).map Utf8.encode) (first : Bool) :
    emitMembers first ms
      = (writeMembers .none d ms).map fun ts => Utf8.encode (itemsText first ts) := by
  induction ms generalizing first with
  | nil =>
    rw [emitMembers, writeMembers, Except.map, itemsText_nil, Utf8.encode_nil]
  | cons m ms ih =>
    obtain ⟨hm, hms⟩ := List.forall_mem_cons.mp h
    rw [emitMembers, writeMembers, emitMember, writeMember, hm, ih hms, quoted_utf8]
    cases write .none d m.2 with
    | error e => rfl
    | ok t =>
      cases writeMembers .none d ms with
      | error e => rfl
      | ok ts =>
        have hcolon : Utf8.encode (Canonical.string m.1 ++ Spacing.none.afterKey ++ t)
            = Utf8.encode (Canonical.string m.1) ++ ascii ':' :: Utf8.encode t := by
          rewrite [Utf8.encode_append, Utf8.encode_append, List.append_assoc]
          rfl
        simp only [Except.map, encode_itemsText_cons, hcolon]

/-- **What is put out are the bytes of the compact text**, and what is refused is refused for the
same reason. -/
theorem emit_eq (d : Nat) (v : Value) : emit v = (write .none d v).map Utf8.encode := by
  induction v using Value.induction generalizing d with
  | null => rfl
  | bool b => cases b <;> rfl
  | number n => rfl
  | string s =>
    rw [emit, write, quoted_utf8]
    rfl
  | array items ih =>
    rw [emit, write, emitItems_eq fun v hv => ih v hv (d + 1)]
    cases writeItems .none (d + 1) items with
    | error e => rfl
    | ok ts =>
      simp only [Except.map, container_none, itemsText, if_true]
      rw [encode_enclosed (by decide) (by decide)]
  | object ms ih =>
    rw [emit, write, emitMembers_eq fun m hm => ih m hm (d + 1)]
    cases writeMembers .none (d + 1) ms with
    | error e => rfl
    | ok ts =>
      simp only [Except.map, container_none, itemsText, if_true]
      rw [encode_enclosed (by decide) (by decide)]

/-! ### Members in order -/

theorem writeItems_tidy {d : Nat} {items : List Value}
    (h : ∀ v ∈ items, write .none d v.tidy = Canonical.text v) :
    writeItems .none d (items.map Value.tidy) = Canonical.itemTexts items := by
  induction items with
  | nil => rfl
  | cons v vs ih =>
    obtain ⟨hv, hvs⟩ := List.forall_mem_cons.mp h
    rewrite [List.map_cons, writeItems, Canonical.itemTexts, hv, ih hvs]
    rfl

/-- Members are written one by one as they are collected. -/
theorem writeMembers_tidy {d : Nat} {ms : List (String × Value)}
    (h : ∀ m ∈ ms, write .none d m.2.tidy = Canonical.text m.2) :
    writeMembers .none d (ms.map fun m => (m.1, m.2.tidy))
      = (Canonical.collect (ms.map fun m => (m.1, Canonical.text m.2))).map
        fun ws => ws.map fun w => Canonical.member w.1 w.2 := by
  induction ms with
  | nil => rfl
  | cons m ms ih =>
    obtain ⟨hm, hms⟩ := List.forall_mem_cons.mp h
    rw [List.map_cons, List.map_cons, writeMembers, writeMember, hm, ih hms]
    cases Canonical.text m.2 with
    | error e => rfl
    | ok t =>
      rw [Canonical.collect]
      cases Canonical.collect (ms.map fun m => (m.1, Canonical.text m.2)) with
      | error e => rfl
      | ok ws => simp [Except.map, Canonical.member, Spacing.none]

/-- **The compact text of a tidied value is the canonical text of the value**, when no key repeats
and each number has one text in both. -/
theorem write_tidy {v : Value} (hkeys : v.HasDistinctKeys)
    (hnumbers : ∀ n, Occurs (.number n) v → numberText n = Canonical.number n) (d : Nat) :
    write .none d v.tidy = Canonical.text v := by
  induction v using Value.induction generalizing d with
  | null => rfl
  | bool b => cases b <;> rfl
  | number n => exact hnumbers n .here
  | string s => rfl
  | array items ih =>
    rw [Value.tidy_array, write, Canonical.text, writeItems_tidy fun v hv =>
      ih v hv (hkeys.item hv) (fun n hn => hnumbers n (.item hv hn)) (d + 1)]
    cases Canonical.itemTexts items with
    | error e => rfl
    | ok ts => simp [container_none]
  | object ms ih =>
    have hms := hkeys ms .here
    rw [Value.tidy_object hms, write, writeMembers_tidy fun m hm =>
      have hm := List.mem_mergeSort.mp hm
      ih m hm (hkeys.member hm) (fun n hn => hnumbers n (.member hm hn)) (d + 1)]
    rw [Canonical.text, Canonical.object, Canonical.repeated?_memberTexts_iff.mpr hms,
      Canonical.mergeSort_memberTexts]
    cases Canonical.collect ((ms.mergeSort keyLE).map fun m => (m.1, Canonical.text m.2)) with
    | error e => rfl
    | ok ws => simp [Except.map, container_none]

end Json

/-! ### The two writers -/

/-- **The two writers agree away from doubles.** The canonical bytes of a value are those of the
compact text of the value with its members in order, when no object in it repeats a key and it holds
no double. A value has a compact text exactly when each of its doubles is finite, whether or not its
keys repeat. And the compact text is what is put out from left to right, with the escapes looked up
byte by byte. -/
theorem canonicalize_eq_compact (v : Value) :
    (v.HasDistinctKeys → (∀ x, ¬ Occurs (.number (.float x)) v) →
      ∃ t, Json.compact v.tidy = .ok t ∧ canonicalize v = .ok (Utf8.encode t)) ∧
    ((∃ t, Json.compact v = .ok t) ↔ ∀ x, Occurs (.number (.float x)) v → x.isFinite = true) ∧
    Json.emit v = (Json.compact v).map Utf8.encode := by
  refine ⟨fun hkeys hfloat => ?_, ?_, Json.emit_eq 0 v⟩
  · have hfinite : ∀ n, Occurs (.number n) v → n.isFinite = true :=
      (Value.forall_number_iff (fun _ => rfl) (fun _ => rfl)).mpr fun x hx => absurd hx (hfloat x)
    have hnumbers : ∀ n, Occurs (.number n) v → Json.numberText n = Canonical.number n :=
      (Value.forall_number_iff (fun _ => rfl) (fun _ => rfl)).mpr fun x hx => absurd hx (hfloat x)
    obtain ⟨t, ht⟩ := Value.exists_writes_iff.mpr ⟨hkeys, hfinite⟩
    exact ⟨t, (Json.write_tidy hkeys hnumbers 0).trans ht,
      Canonical.canonicalize_eq_ok_iff.mpr ⟨t, ht, rfl⟩⟩
  · rw [Json.compact, Json.exists_write_iff]
    exact Value.forall_number_iff (fun _ => rfl) (fun _ => rfl)

/-- An object whose members are out of order, with a string of a control character, a character
beyond ASCII and a quote; and an object that repeats a key and holds a double. -/
theorem canonicalize_eq_compact_escaped :
    (∃ v t, v = Value.object [("b", .array [.string "\n\x7fé\"", .number (.uint 7)]),
        ("a", .number (.int (-1)))] ∧
      t = "\x7b\"a\":-1,\"b\":[\"\\n\x7fé\\\"\",7]\x7d".toList ∧
      Json.compact v.tidy = .ok t ∧ canonicalize v = .ok (Utf8.encode t)) ∧
    ∃ t, Json.compact (.object [("a", .null),
      ("a", .number (.float ⟨false, 0x3FF8000000000000, by decide⟩))]) = .ok t := by
  constructor
  · let v := Value.object [("b", .array [.string "\n\x7fé\"", .number (.uint 7)]),
      ("a", .number (.int (-1)))]
    have hscalar : (Value.string "\n\x7fé\"").HasDistinctKeys ∧
        (∀ n, (Value.number n).HasDistinctKeys) := by
      refine ⟨?_, fun n => ?_⟩ <;> rintro _ ⟨⟩
    have hkeys : v.HasDistinctKeys := by
      simp [v, Value.hasDistinctKeys_object_iff, Value.hasDistinctKeys_array_iff, hscalar]
    have hfloat : ∀ x, ¬ Occurs (.number (.float x)) v := by
      have hstring : ∀ n, ¬ Occurs (.number n) (.string "\n\x7fé\"") := by rintro n ⟨⟩
      simp [v, Value.occurs_object_iff, Value.occurs_array_iff, Value.occurs_number_iff, hstring]
    obtain ⟨t, ht, hc⟩ := (canonicalize_eq_compact v).1 hkeys hfloat
    have hle : ∀ {α : Type} (p q : α),
        keyLE ("b", p) ("a", q) = false ∧ keyLE ("a", q) ("b", p) = true := fun p q =>
      ⟨show decide (utf8 "b" ≤ utf8 "a") = false by decide +kernel,
        show decide (utf8 "a" ≤ utf8 "b") = true by decide +kernel⟩
    have htidy : v.tidy = .object [("a", .number (.int (-1))),
        ("b", .array [.string "\n\x7fé\"", .number (.uint 7)])] := by
      rw [Value.tidy_object (by decide)]
      simp [List.mergeSort, hle, Value.tidy, Value.tidyItems]
    refine ⟨v, t, rfl, ?_, ht, hc⟩
    rw [htidy] at ht
    exact (Except.ok.inj ht).symm
  · refine (canonicalize_eq_compact _).2.1.mpr fun x hx => ?_
    obtain ⟨m, hm, hx⟩ := Value.occurs_object_iff.mp hx
    simp only [List.mem_cons, List.not_mem_nil, or_false] at hm
    rcases hm with rfl | rfl
    · cases hx
    · rw [Number.float.inj (Value.occurs_number_iff.mp hx)]
      rfl

end SealedLedger
