import SealedLedger.Json.Record
import SealedLedger.Proofs.Json.Reading

/-!
# Records are read from the texts of their fields

A field that is a string or an unsigned word is taken from the text that a writer sets for it, and
the two containers of records from the texts of their parts.

Records of every kind are read from objects in the same way: each member is read into a draft that
does not have its field yet, and the record is made of the last draft. What a kind of record is read
by is gathered in a structure, with the laws that the proofs need of it.

## Main definitions

* `Json.RecordForm` — how a kind of record is read from an object

## Main results

* `Json.reads_spelled`, `Json.reads_natural` — fields
* `Json.RecordForm.reads_member`, `Json.RecordForm.reads_inside` — the members of a record
* `Json.reads_sequence` — an array of records
* `Json.reads_record` — a record stored as an object
-/

namespace SealedLedger

/-! ### Numbers that are unsigned words -/

theorem Number.natural?_ofUInt64 (u : UInt64) : (Number.ofUInt64 u).natural? = some u := by
  rw [Number.ofUInt64]
  split
  · next hlt =>
    have hword : (Int64.ofNat u.toNat).toInt = u.toNat := Int64.toInt_ofNat_of_lt hlt
    rw [Number.natural?, hword, if_pos (Int.natCast_nonneg _), Int.toNat_natCast,
      UInt64.ofNat_toNat]
  · rfl

theorem Number.natural?_negative {n : Nat} (h : 0 < n ∧ n ≤ 0x8000000000000000) :
    (Number.int (Int64.ofInt (-n))).natural? = none := by
  have hword : (Int64.ofInt (-n)).toInt = -n := Int64.toInt_ofInt_of_le (by omega) (by omega)
  rw [Number.natural?, hword, if_neg (by omega)]

namespace Json

/-! ### White space in front of a field -/

theorem SkipsSpace.map {α β : Type} {r : Reader α} (hr : SkipsSpace r) (f : α → β) :
    SkipsSpace (do return f (← r)) := by
  intro input
  show (r (skipSpace input)).bind _ = (r input).bind _
  rw [hr]

theorem skipsSpace_text (expected : String) : SkipsSpace (text expected) := by
  intro input
  rw [text, text, skipSpace_skipSpace]

theorem skipsSpace_spelled {α : Type} (read : String → Except String α) :
    SkipsSpace (spelled read) := by
  intro input
  rw [spelled, spelled, skipsSpace_text]

theorem skipsSpace_natural : SkipsSpace natural := by
  intro input
  rw [natural, natural, skipSpace_skipSpace]

/-! ### Fields -/

/-- A string is taken for its text. -/
theorem reads_text (expected s : String) : Reads (text expected) (Canonical.string s) s := by
  intro rest _
  rw [encode_string, List.cons_append, List.append_assoc, List.singleton_append, text,
    skipSpace_cons (by decide)]
  simp only [if_true, string_body]

/-- **A string is taken for the value that it spells.** -/
theorem reads_spelled {α : Type} {read : String → Except String α} {s : String} {a : α}
    (h : read s = .ok a) : Reads (spelled read) (Canonical.string s) a := by
  intro rest hrest
  rw [spelled, reads_text "a string" s rest hrest]
  simp only [h]

/-- **A numeral is taken for the unsigned word that it stands for.** -/
theorem reads_natural {t : Numeral} {n : Number} {u : UInt64} (ht : t.IsProper)
    (hn : t.number? = some n) (hu : n.natural? = some u) : Reads natural t.text u := by
  intro rest hrest
  obtain ⟨b, bytes, hb, hbegins⟩ := exists_beginsNumber ht
  obtain ⟨hnumber, hspace, -⟩ := hbegins.ne
  have hread : number (Utf8.encode t.text ++ rest) = .ok (n, rest) := by
    simp only [number, numeral_text .endInValue ht hrest, hn]
  rw [hb, List.cons_append] at hread ⊢
  rw [natural, skipSpace_cons hspace]
  simp only [if_pos hnumber, hread, hu]

/-! ### Members -/

/-- How a kind of record is read from an object. The fields are read into a draft, which has those
read so far. -/
structure RecordForm (Field Draft Record : Type) where
  fields : List Field
  name : Field → String
  empty : Draft
  has : Draft → Field → Bool
  put : Record → Draft → Field → Draft
  complete? : Draft → Except Fault Record
  field : Draft → Field → Reader Draft
  member : Draft → String → Reader Draft
  inside : Reader Record
  nodup : fields.Nodup
  has_empty : ∀ f ∈ fields, has empty f = false
  has_put_of_ne : ∀ r d f g, g ≠ f → has (put r d f) g = has d g
  complete?_put : ∀ r, complete? (fields.foldl (put r) empty) = .ok r
  skipsSpace : ∀ d f, SkipsSpace (field d f)
  member_eq : ∀ {d f input rest}, has d f = false → colon input = .ok ((), rest) →
    member d (name f) input = field d f rest
  inside_eq : ∀ {input d rest r}, members member empty input = .ok (d, rest) →
    complete? d = .ok r → inside input = .ok (r, rest)

namespace RecordForm

variable {Field Draft Record : Type} (form : RecordForm Field Draft Record)

/-- A member is read into a draft that does not have its field yet. -/
theorem reads_member {d d' : Draft} {f : Field} {gap t : List Char} (hnew : form.has d f = false)
    (hgap : IsBlank gap) (h : Reads (form.field d f) t d') :
    Reads (form.member d (form.name f)) (':' :: (gap ++ t)) d' := by
  intro rest hrest
  have hread := (h.blank (form.skipsSpace d f) hgap) rest hrest
  rw [form.member_eq hnew (colon_cons _ _), hread]

/-- The inside of an object whose members make a record. -/
theorem reads_inside {pre post : List Char} {ns : List (String × List Char)} {r : Record}
    (hpre : IsBlank pre) (hpost : IsBlank post)
    (hns : ReadsMembers form.member form.empty ns (form.fields.foldl (form.put r) form.empty)) :
    Reads (braced form.inside) (Json.inside pre post (ns.map memberText) ++ ['\x7d']) r := by
  intro rest _
  rw [braced, form.inside_eq (members_inside hpre hpost hns rest) (form.complete?_put r)]
  simp only [closeObject_close]

end RecordForm

/-! ### Containers -/

/-- **An array of records is taken for them.** -/
theorem reads_sequence {α : Type} {item : Depth → Reader α} {depth : Depth} {t : List Char}
    {as : List α} (h : Reads (bracketed (elements (item depth))) t as) :
    Reads (sequence item (depth + 1)) ('[' :: t) as := by
  intro rest hrest
  rw [encode_cons_append (by decide), sequence, skipSpace_cons (by decide)]
  simp only [if_true, h rest hrest]

/-- **A record stored as an object is taken for it.** -/
theorem reads_record {α : Type} {expected : String} {inArray inObject : Depth → Reader α}
    {depth : Depth} {t : List Char} {a : α} (h : Reads (braced (inObject depth)) t a) :
    Reads (record expected inArray inObject (depth + 1)) ('\x7b' :: t) a := by
  intro rest hrest
  rw [encode_cons_append (by decide), record, skipSpace_cons (by decide)]
  simp only [show ascii '\x7b' ≠ ascii '[' by decide, if_false, if_true, h rest hrest]

end Json

end SealedLedger
