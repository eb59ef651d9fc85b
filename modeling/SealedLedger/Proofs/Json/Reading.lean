import SealedLedger.Json.Record
import SealedLedger.Proofs.Json.Containers
import SealedLedger.Proofs.Json.Numerals
import SealedLedger.Proofs.Value

/-!
# A value is read from the texts of its parts

What the reader of values does with a text that a writer sets: words, numerals and strings are
taken for themselves, and an array or an object is taken for the values of its parts, as long as
containers may still be opened around them. Where none may be opened any more a bracket is refused,
and with it everything that it stands in.

None of this asks where the texts come from. The canonical text of a value and its stored text are
both read through these lemmas.

## Main results

* `Json.reads_constant`, `Json.reads_numeral`, `Json.reads_string` — values without parts
* `Json.reads_items`, `Json.reads_members` — containers
* `Json.refuses_items`, `Json.refuses_members`, `Json.refuses_opening` — nesting too deep
-/

namespace SealedLedger

namespace Json

variable {distinct : Bool} {depth : Nat}

/-! ### The first byte of a value -/

/-- The byte begins a number. -/
def BeginsNumber (b : UInt8) : Prop :=
  b = ascii '-' ∨ ∃ d, d < 10 ∧ b = UInt8.ofNat (d + 48)

theorem exists_beginsNumber_spelling {t : Numeral} (ht : t.IsProper) (mark : Char) (plus : Bool) :
    ∃ b bytes, Utf8.encode (t.spelling mark plus) = b :: bytes ∧ BeginsNumber b := by
  obtain ⟨d, more, hd, hwhole⟩ := exists_whole_eq_cons ht
  rw [Numeral.spelling, Utf8.encode_append, Utf8.encode_append, hwhole]
  cases t.negative with
  | true => exact ⟨_, _, rfl, .inl rfl⟩
  | false => exact ⟨_, _, rfl, .inr ⟨d, hd, rfl⟩⟩

theorem exists_beginsNumber {t : Numeral} (ht : t.IsProper) :
    ∃ b bytes, Utf8.encode t.text = b :: bytes ∧ BeginsNumber b := by
  rw [t.text_eq_spelling]
  exact exists_beginsNumber_spelling ht 'e' true

/-- A byte that begins a number begins nothing else. -/
theorem BeginsNumber.ne {b : UInt8} (h : BeginsNumber b) :
    (b = ascii '-' ∨ (digit? b).isSome) ∧ isSpace b = false ∧ b ≠ ascii ']' ∧ b ≠ ascii '[' ∧
      b ≠ ascii '\x7b' ∧ b ≠ ascii 'n' ∧ b ≠ ascii 't' ∧ b ≠ ascii 'f' ∧ b ≠ ascii '"' := by
  rcases h with rfl | ⟨d, hd, rfl⟩
  · decide
  · have key : ∀ d : Fin 10,
        (UInt8.ofNat (d + 48) = ascii '-' ∨ (digit? (UInt8.ofNat (d + 48))).isSome) ∧
        isSpace (UInt8.ofNat (d + 48)) = false ∧ UInt8.ofNat (d + 48) ≠ ascii ']' ∧
        UInt8.ofNat (d + 48) ≠ ascii '[' ∧ UInt8.ofNat (d + 48) ≠ ascii '\x7b' ∧
        UInt8.ofNat (d + 48) ≠ ascii 'n' ∧ UInt8.ofNat (d + 48) ≠ ascii 't' ∧
        UInt8.ofNat (d + 48) ≠ ascii 'f' ∧ UInt8.ofNat (d + 48) ≠ ascii '"' := by decide
    exact key ⟨d, hd⟩

theorem beginsNumber_of_digit? {b : UInt8} (h : (digit? b).isSome) : BeginsNumber b := by
  unfold digit? at h
  split at h
  · next hb =>
    have hlow : 48 ≤ b.toNat := hb.1
    have hhigh : b.toNat ≤ 57 := hb.2
    refine .inr ⟨b.toNat - 48, by omega, ?_⟩
    rw [Nat.sub_add_cancel hlow, UInt8.ofNat_toNat]
  · cases h

theorem beginsItem_numeral {t : Numeral} (ht : t.IsProper) : BeginsItem t.text := by
  obtain ⟨b, bytes, hb, hbegins⟩ := exists_beginsNumber ht
  exact ⟨b, bytes, hb, hbegins.ne.2.1, hbegins.ne.2.2.1⟩

theorem beginsItem_string (s : String) : BeginsItem (Canonical.string s) :=
  ⟨_, _, encode_string s, by decide, by decide⟩

/-! ### Values without parts -/

theorem value_skipSpace (distinct : Bool) (depth : Nat) : SkipsSpace (value distinct depth) := by
  intro input
  cases depth with
  | zero => rw [value, value, skipSpace_skipSpace]
  | succ depth => rw [value, value, skipSpace_skipSpace]

theorem value_eq_scalar {b : UInt8} (hspace : isSpace b = false) (hbracket : b ≠ ascii '[')
    (hbrace : b ≠ ascii '\x7b') (rest : List UInt8) :
    value distinct depth (b :: rest) = scalar b rest := by
  cases depth with
  | zero =>
    simp only [value, skipSpace_cons hspace, hbracket, hbrace, or_self, if_false]
  | succ depth =>
    simp only [value, skipSpace_cons hspace, hbracket, hbrace, if_false]

theorem reads_null : Reads (value distinct depth) ['n', 'u', 'l', 'l'] .null := by
  intro rest _
  exact value_eq_scalar (by decide) (by decide) (by decide) _

theorem reads_true : Reads (value distinct depth) ['t', 'r', 'u', 'e'] (.bool true) := by
  intro rest _
  exact value_eq_scalar (by decide) (by decide) (by decide) _

theorem reads_false : Reads (value distinct depth) ['f', 'a', 'l', 's', 'e'] (.bool false) := by
  intro rest _
  exact value_eq_scalar (by decide) (by decide) (by decide) _

section

variable {t : Numeral} {mark : Char} {plus : Bool} {rest : List UInt8}

/-- Where a number begins, a value is read as a number. -/
theorem value_spelling (ht : t.IsProper) :
    value distinct depth (Utf8.encode (t.spelling mark plus) ++ rest) =
      match number (Utf8.encode (t.spelling mark plus) ++ rest) with
      | .error stop => .error stop
      | .ok (n, rest) => .ok (.number n, rest) := by
  obtain ⟨b, bytes, hb, hbegins⟩ := exists_beginsNumber_spelling ht mark plus
  obtain ⟨hnumber, hspace, -, hbracket, hbrace, hnull, htrue, hfalse, hquote⟩ := hbegins.ne
  rewrite [hb, List.cons_append, value_eq_scalar hspace hbracket hbrace, scalar, if_neg hnull,
    if_neg htrue, if_neg hfalse, if_neg hquote, if_pos hnumber]
  rfl

/-- **A spelling of a proper numeral is taken for its number.** -/
theorem reads_spelling {n : Number} (ht : t.IsProper) (hn : t.number? = some n)
    (hmark : IsMark mark) (plus : Bool) :
    Reads (value distinct depth) (t.spelling mark plus) (.number n) := by
  intro rest hrest
  simp only [value_spelling ht, number, numeral_spelling .endInValue ht hmark plus hrest, hn]

/-- A numeral that stands for no number is refused. -/
theorem refuses_spelling (ht : t.IsProper) (hn : t.number? = none) (hmark : IsMark mark)
    (plus : Bool) : Refuses (value distinct depth) (t.spelling mark plus) := by
  intro rest hrest
  simp only [value_spelling ht, number, numeral_spelling .endInValue ht hmark plus hrest, hn]
  exact ⟨_, rfl⟩

/-- **A proper numeral is taken for its number.** -/
theorem reads_numeral {n : Number} (ht : t.IsProper) (hn : t.number? = some n) :
    Reads (value distinct depth) t.text (.number n) := by
  rw [t.text_eq_spelling]
  exact reads_spelling ht hn (.inl rfl) true

/-- **What a spelling of a numeral is read as**: the number of the numeral, if it has one. -/
theorem read?_spelling (ht : t.IsProper) (hmark : IsMark mark) {v : Value} :
    read? (Utf8.encode (t.spelling mark plus)) = .ok v ↔
      ∃ n, t.number? = some n ∧ v = .number n := by
  rcases hn : t.number? with _ | n
  · have hrefuses : Refuses (value true maxDepth) (t.spelling mark plus) :=
      refuses_spelling ht hn hmark plus
    obtain ⟨e, he⟩ := hrefuses.whole_append isBlank_nil
    rw [List.append_nil] at he
    rw [read?, he]
    simp
  · rw [read?, (reads_spelling ht hn hmark plus).whole]
    constructor
    · intro h
      exact ⟨n, rfl, (Except.ok.inj h).symm⟩
    · rintro ⟨m, hm, rfl⟩
      rw [Option.some.inj hm]

end

/-- **A string is taken for itself.** -/
theorem reads_string (s : String) :
    Reads (value distinct depth) (Canonical.string s) (.string s) := by
  intro rest _
  rw [encode_string, List.cons_append, List.append_assoc, List.singleton_append,
    value_eq_scalar (by decide) (by decide) (by decide), scalar, if_neg (by decide),
    if_neg (by decide), if_neg (by decide), if_pos rfl, string_body]

/-! ### Containers -/

section

variable {pre post : List Char} {ts : List (List Char)} {vs : List Value}
  {ms : List (String × List Char)} {done : List (String × Value)}

theorem encode_cons_append {c : Char} (hc : c.toNat < 0x80) (t : List Char) (rest : List UInt8) :
    Utf8.encode (c :: t) ++ rest = ascii c :: (Utf8.encode t ++ rest) := by
  rw [Utf8.encode_cons, Utf8.encodeChar_of_lt hc]
  rfl

/-- **An array is taken for the values of its items.** -/
theorem reads_items (hpre : IsBlank pre) (hpost : IsBlank post)
    (hts : List.Forall₂ (fun v t => BeginsItem t ∧ Reads (value distinct depth) t v) vs ts) :
    Reads (value distinct (depth + 1)) ('[' :: (inside pre post ts ++ [']'])) (.array vs) := by
  intro rest hrest
  rw [encode_cons_append (by decide), value, skipSpace_cons (by decide)]
  simp only [if_true, reads_array hpre hpost hts rest hrest]

/-- **An object is taken for what its members gather.** -/
theorem reads_members (hpre : IsBlank pre) (hpost : IsBlank post)
    (hms : ReadsMembers (member distinct (value distinct depth)) [] ms done) :
    Reads (value distinct (depth + 1))
      ('\x7b' :: (inside pre post (ms.map memberText) ++ ['\x7d'])) (.object done) := by
  intro rest hrest
  rw [encode_cons_append (by decide), value, skipSpace_cons (by decide)]
  simp only [show ascii '\x7b' ≠ ascii '[' by decide, if_false, if_true,
    reads_object hpre hpost hms rest hrest]

/-- No container is opened when none may be opened any more. -/
theorem refuses_opening {c : Char} (hc : c = '[' ∨ c = '\x7b') (t : List Char) :
    Refuses (value distinct 0) (c :: t) := by
  intro rest _
  rcases hc with rfl | rfl
  · rw [encode_cons_append (by decide), value, skipSpace_cons (by decide)]
    exact ⟨_, rfl⟩
  · rw [encode_cons_append (by decide), value, skipSpace_cons (by decide)]
    exact ⟨_, rfl⟩

/-- An array is refused with one of its items. -/
theorem refuses_items (hpre : IsBlank pre) (hpost : IsBlank post)
    (hts : ∀ t ∈ ts, BeginsItem t ∧
      ((∃ v, Reads (value distinct depth) t v) ∨ Refuses (value distinct depth) t))
    (hrefuses : ∃ t ∈ ts, Refuses (value distinct depth) t) :
    Refuses (value distinct (depth + 1)) ('[' :: (inside pre post ts ++ [']'])) := by
  intro rest hrest
  obtain ⟨stop, hstop⟩ := refuses_array hpre hpost hts hrefuses rest hrest
  rw [encode_cons_append (by decide), value, skipSpace_cons (by decide)]
  simp only [if_true, hstop]
  exact ⟨stop, rfl⟩

/-- An object is refused with one of its members. -/
theorem refuses_members (hpre : IsBlank pre) (hpost : IsBlank post)
    (hms : ∀ m ∈ ms, ∀ done,
      (∃ more, Reads (member distinct (value distinct depth) done m.1) m.2 more) ∨
        Refuses (member distinct (value distinct depth) done m.1) m.2)
    (hrefuses : ∃ m ∈ ms, ∀ done, Refuses (member distinct (value distinct depth) done m.1) m.2) :
    Refuses (value distinct (depth + 1))
      ('\x7b' :: (inside pre post (ms.map memberText) ++ ['\x7d'])) := by
  intro rest hrest
  obtain ⟨stop, hstop⟩ := refuses_object (s := []) hpre hpost hms hrefuses rest hrest
  rw [encode_cons_append (by decide), value, skipSpace_cons (by decide)]
  simp only [show ascii '\x7b' ≠ ascii '[' by decide, if_false, if_true, hstop]
  exact ⟨stop, rfl⟩

end

/-! ### Members -/

section

variable {gap t : List Char} {v : Value} {k : String} {done : List (String × Value)}

theorem colon_cons (t : List Char) (rest : List UInt8) :
    colon (Utf8.encode (':' :: t) ++ rest) = .ok ((), Utf8.encode t ++ rest) := by
  rw [encode_cons_append (by decide), colon, skipSpace_cons (by decide)]
  rfl

/-- What the reader does behind a key that it may gather. -/
theorem member_eq (hnew : distinct = true → k ∉ done.map Prod.fst) (hgap : IsBlank gap)
    (t : List Char) (rest : List UInt8) :
    member distinct (value distinct depth) done k (Utf8.encode (':' :: (gap ++ t)) ++ rest) =
      match value distinct depth (Utf8.encode t ++ rest) with
      | .error stop => .error stop
      | .ok (v, rest) => .ok (done ++ [(k, v)], rest) := by
  have hany : (distinct && done.any (·.1 == k)) = false := by
    rw [Bool.and_eq_false_imp]
    exact fun hdistinct => Value.any_key_eq_false_iff.mpr (hnew hdistinct)
  have hblank : value distinct depth (Utf8.encode (gap ++ t) ++ rest)
      = value distinct depth (Utf8.encode t ++ rest) := by
    rw [Utf8.encode_append, List.append_assoc, ← value_skipSpace, skipSpace_blank hgap,
      value_skipSpace]
  rewrite [member, hany, colon_cons, ← hblank]
  rfl

/-- **A member is gathered when its value is taken** and its key is new. -/
theorem reads_member (hnew : distinct = true → k ∉ done.map Prod.fst) (hgap : IsBlank gap)
    (h : Reads (value distinct depth) t v) :
    Reads (member distinct (value distinct depth) done k) (':' :: (gap ++ t))
      (done ++ [(k, v)]) := by
  intro rest hrest
  rw [member_eq hnew hgap, h rest hrest]

/-- Where keys may repeat, a member is refused only with its value. -/
theorem refuses_member (hgap : IsBlank gap) (h : Refuses (value false depth) t)
    (done : List (String × Value)) (k : String) :
    Refuses (member false (value false depth) done k) (':' :: (gap ++ t)) := by
  intro rest hrest
  obtain ⟨stop, hstop⟩ := h rest hrest
  rw [member_eq (fun h => absurd h Bool.false_ne_true) hgap, hstop]
  exact ⟨stop, rfl⟩

/-- The texts of members, each taken apart behind its key. -/
theorem exists_map_memberText (R : Value → List Char → Prop) (glue : List Char)
    {ms : List (String × Value)} {ts : List (List Char)}
    (h : List.Forall₂ (fun m t => ∃ u, R m.2 u ∧ t = Canonical.string m.1 ++ (glue ++ u)) ms ts) :
    ∃ ns, ts = ns.map memberText ∧
      List.Forall₂ (fun m n => m.1 = n.1 ∧ ∃ u, n.2 = glue ++ u ∧ R m.2 u) ms ns := by
  induction h with
  | nil => exact ⟨[], rfl, .nil⟩
  | @cons m t ms ts hm hms ih =>
    obtain ⟨u, hu, rfl⟩ := hm
    obtain ⟨ns, rfl, hns⟩ := ih
    exact ⟨(m.1, glue ++ u) :: ns, rfl, .cons ⟨rfl, u, rfl, hu⟩ hns⟩

/-- **Members are gathered one after another** when their values are taken and no key repeats. -/
theorem readsMembers_append {ms : List (String × Value)} {ns : List (String × List Char)}
    (hgap : IsBlank gap) (hkeys : distinct = true → (done.map Prod.fst ++ ms.map Prod.fst).Nodup)
    (hms : List.Forall₂ (fun m n => m.1 = n.1 ∧ ∃ t, n.2 = ':' :: (gap ++ t) ∧
      Reads (value distinct depth) t m.2) ms ns) :
    ReadsMembers (member distinct (value distinct depth)) done ns (done ++ ms) := by
  induction hms generalizing done with
  | nil =>
    rw [List.append_nil]
    exact .nil done
  | @cons m n ms ns hm hms ih =>
    obtain ⟨k, v⟩ := m
    obtain ⟨l, u⟩ := n
    obtain ⟨rfl, t, rfl, hread⟩ := hm
    have hnew : distinct = true → k ∉ done.map Prod.fst := fun hdistinct hmem =>
      (List.nodup_append.mp (hkeys hdistinct)).2.2 k hmem k (List.mem_cons_self ..) rfl
    have hmore := @ih (done ++ [(k, v)]) fun hdistinct => by
      simpa [List.append_assoc] using hkeys hdistinct
    rw [List.append_assoc, List.singleton_append] at hmore
    exact .cons (reads_member hnew hgap hread) hmore

end

end Json

end SealedLedger
