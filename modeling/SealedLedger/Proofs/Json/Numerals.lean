import SealedLedger.Json.Token
import SealedLedger.Proofs.Decimal.Digits
import SealedLedger.Proofs.Text.Utf8

/-!
# A numeral is read back from its text

The reader of numbers takes a sign, digits, a point with digits after it and an exponent. Writing
these parts one after another gives a text from which they are read back, whatever follows, as
long as it does not go on with a digit, a point or an exponent mark. And every text that is taken as
a numeral is spelled in this way.

## Main definitions

* `Json.Numeral.text`, `Json.Numeral.spelling` — the text of a numeral, and every way to spell it
* `Json.Numeral.IsProper` — the numerals that have a text
* `Json.EndsNumber` — what may stand after a number

## Main results

* `Json.numeral_spelling`, `Json.numeral_text` — a numeral is read back, whatever follows
* `Json.exists_spelling_of_numeral`, `Json.numeral_eq_ok_iff` — and nothing else is
-/

namespace SealedLedger

namespace Json

namespace Numeral

/-! ### Text -/

/-- The point and the digits after it, where there are any. -/
def fractionText : List Nat → List Char
  | [] => []
  | d :: ds => '.' :: (d :: ds).map Decimal.digitChar

/-- The exponent with its mark and its sign, where there is one. -/
def exponentText : Option (Bool × List Nat) → List Char
  | none => []
  | some (negative, ds) =>
    'e' :: (if negative then '-' else '+') :: ds.map Decimal.digitChar

/-- The text of a numeral. -/
def text (t : Numeral) : List Char :=
  (if t.negative then ['-'] else []) ++
    (t.whole.map Decimal.digitChar ++ (fractionText t.fraction ++ exponentText t.exponent))

/-- An exponent with one of its marks, and with or without a sign where it is positive. -/
def exponentSpelling (mark : Char) (plus : Bool) : Option (Bool × List Nat) → List Char
  | none => []
  | some (negative, ds) =>
    mark :: ((if negative then ['-'] else if plus then ['+'] else []) ++
      ds.map Decimal.digitChar)

/-- A spelling of a numeral. Numerals have one spelling for each mark of the exponent, and for each
way to write its sign. -/
def spelling (t : Numeral) (mark : Char) (plus : Bool) : List Char :=
  (if t.negative then ['-'] else []) ++
    (t.whole.map Decimal.digitChar ++
      (fractionText t.fraction ++ exponentSpelling mark plus t.exponent))

/-- The text of a numeral is one of its spellings. -/
theorem text_eq_spelling (t : Numeral) : t.text = t.spelling 'e' true := by
  have hexponent : exponentText t.exponent = exponentSpelling 'e' true t.exponent := by
    rcases t.exponent with _ | ⟨negative, ds⟩
    · rfl
    · cases negative <;> rfl
  rw [text, spelling, hexponent]

/-- The parts are digits, with no zero in front of another digit and no exponent without digits. -/
structure IsProper (t : Numeral) : Prop where
  whole_ne_nil : t.whole ≠ []
  whole_lt : ∀ d ∈ t.whole, d < 10
  whole_head : ∀ d ds, t.whole = d :: ds → ds ≠ [] → d ≠ 0
  fraction_lt : ∀ d ∈ t.fraction, d < 10
  exponent_ne_nil : ∀ s ds, t.exponent = some (s, ds) → ds ≠ []
  exponent_lt : ∀ s ds, t.exponent = some (s, ds) → ∀ d ∈ ds, d < 10

end Numeral

/-! ### Digits -/

theorem encodeChar_digitChar {d : Nat} (h : d < 10) :
    Utf8.encodeChar (Decimal.digitChar d) = [UInt8.ofNat (d + 48)] := by
  have key : ∀ d : Fin 10, Utf8.encodeChar (Decimal.digitChar d) = [UInt8.ofNat (d + 48)] := by
    decide
  exact key ⟨d, h⟩

theorem digit?_ofNat {d : Nat} (h : d < 10) : digit? (UInt8.ofNat (d + 48)) = some d := by
  have key : ∀ d : Fin 10, digit? (UInt8.ofNat (d + 48)) = some (d : Nat) := by decide
  exact key ⟨d, h⟩

/-- What follows does not begin with a digit. -/
def EndsDigits (rest : List UInt8) : Prop :=
  ∀ b more, rest = b :: more → digit? b = none

/-- What follows does not go on with a number. -/
def EndsNumber (rest : List UInt8) : Prop :=
  ∀ b more, rest = b :: more →
    digit? b = none ∧ b ≠ ascii '.' ∧ b ≠ ascii 'e' ∧ b ≠ ascii 'E'

theorem EndsNumber.endsDigits {rest : List UInt8} (h : EndsNumber rest) : EndsDigits rest :=
  fun b more hb => (h b more hb).1

theorem endsNumber_nil : EndsNumber [] := fun _ _ h => by cases h

theorem digits_of_endsDigits {rest : List UInt8} (h : EndsDigits rest) :
    digits rest = ([], rest) := by
  cases rest with
  | nil => rfl
  | cons b more => rw [digits, h b more rfl]

/-- All digits are taken, and nothing after them. -/
theorem digits_append {ds : List Nat} {rest : List UInt8} (hds : ∀ d ∈ ds, d < 10)
    (hrest : EndsDigits rest) :
    digits (Utf8.encode (ds.map Decimal.digitChar) ++ rest) = (ds, rest) := by
  induction ds with
  | nil => exact digits_of_endsDigits hrest
  | cons d ds ih =>
    have hd : d < 10 := hds d (List.mem_cons_self ..)
    rw [List.map_cons, Utf8.encode_cons, encodeChar_digitChar hd, List.cons_append,
      List.cons_append, List.nil_append, digits, digit?_ofNat hd]
    simp only [ih fun e he => hds e (List.mem_cons_of_mem _ he)]

/-! ### Parts -/

theorem wholeDigits_append (atEnd : Fault) {ds : List Nat} {rest : List UInt8} (hne : ds ≠ [])
    (hds : ∀ d ∈ ds, d < 10) (hhead : ∀ d more, ds = d :: more → more ≠ [] → d ≠ 0)
    (hrest : EndsDigits rest) :
    wholeDigits atEnd (Utf8.encode (ds.map Decimal.digitChar) ++ rest) = .ok (ds, rest) := by
  cases ds with
  | nil => exact absurd rfl hne
  | cons d ds =>
    have hd : d < 10 := hds d (List.mem_cons_self ..)
    have hmore := digits_append (fun e he => hds e (List.mem_cons_of_mem _ he)) hrest
    rw [List.map_cons, Utf8.encode_cons, encodeChar_digitChar hd, List.append_assoc,
      List.singleton_append, wholeDigits, digit?_ofNat hd]
    cases d with
    | zero =>
      obtain rfl : ds = [] := by
        by_contra hmore
        exact hhead 0 ds rfl hmore rfl
      simp only [List.map_nil, Utf8.encode_nil, List.nil_append, digits_of_endsDigits hrest]
    | succ d => simp only [hmore]

theorem fractionDigits_append (atEnd : Fault) {ds : List Nat} {rest : List UInt8}
    (hds : ∀ d ∈ ds, d < 10) (hrest : EndsDigits rest)
    (hpoint : ∀ b more, rest = b :: more → b ≠ ascii '.') :
    fractionDigits atEnd (Utf8.encode (Numeral.fractionText ds) ++ rest) = .ok (ds, rest) := by
  cases ds with
  | nil =>
    cases rest with
    | nil => rfl
    | cons b more =>
      rw [Numeral.fractionText, Utf8.encode_nil, List.nil_append, fractionDigits,
        if_neg (hpoint b more rfl)]
  | cons d ds =>
    rw [Numeral.fractionText, Utf8.encode_cons, show Utf8.encodeChar '.' = [ascii '.'] by decide,
      List.append_assoc, List.singleton_append, fractionDigits, if_pos rfl,
      digits_append hds hrest]

/-- The letter is a mark of the exponent. -/
def IsMark (mark : Char) : Prop := mark = 'e' ∨ mark = 'E'

theorem IsMark.encodeChar {mark : Char} (h : IsMark mark) :
    Utf8.encodeChar mark = [ascii mark] := by
  rcases h with rfl | rfl <;> decide

theorem exponentPart_append (atEnd : Fault) {mark : Char} (hmark : IsMark mark) (plus : Bool)
    {e : Option (Bool × List Nat)} {rest : List UInt8} (hne : ∀ s ds, e = some (s, ds) → ds ≠ [])
    (hds : ∀ s ds, e = some (s, ds) → ∀ d ∈ ds, d < 10) (hrest : EndsNumber rest) :
    exponentPart atEnd (Utf8.encode (Numeral.exponentSpelling mark plus e) ++ rest)
      = .ok (e, rest) := by
  cases e with
  | none =>
    cases rest with
    | nil => rfl
    | cons b more =>
      obtain ⟨-, -, he, hE⟩ := hrest b more rfl
      rw [Numeral.exponentSpelling, Utf8.encode_nil, List.nil_append, exponentPart,
        if_neg (by rintro (h | h); exacts [he h, hE h])]
  | some e =>
    obtain ⟨s, ds⟩ := e
    have hdigits := digits_append (hds s ds rfl) hrest.endsDigits
    have hbyte : ascii mark = ascii 'e' ∨ ascii mark = ascii 'E' :=
      hmark.imp (congrArg ascii) (congrArg ascii)
    rw [Numeral.exponentSpelling, Utf8.encode_cons, hmark.encodeChar, List.append_assoc,
      List.singleton_append, exponentPart, if_pos hbyte, Utf8.encode_append, List.append_assoc]
    obtain ⟨d, more, rfl⟩ := List.exists_cons_of_ne_nil (hne s ds rfl)
    have hsign : exponentSign (Utf8.encode (if s then ['-'] else if plus then ['+'] else []) ++
        (Utf8.encode ((d :: more).map Decimal.digitChar) ++ rest))
          = (s, Utf8.encode ((d :: more).map Decimal.digitChar) ++ rest) := by
      cases s with
      | true => rfl
      | false =>
        cases plus with
        | true => rfl
        | false =>
          have hd : d < 10 := hds false (d :: more) rfl d (List.mem_cons_self ..)
          have hne : ∀ d : Fin 10, UInt8.ofNat (d + 48) ≠ ascii '+' ∧
              UInt8.ofNat (d + 48) ≠ ascii '-' := by decide
          rw [List.map_cons, Utf8.encode_cons, encodeChar_digitChar hd]
          show exponentSign (UInt8.ofNat (d + 48) :: _) = _
          rw [exponentSign, if_neg (hne ⟨d, hd⟩).1, if_neg (hne ⟨d, hd⟩).2]
          rfl
    simp only [hsign, hdigits]

/-! ### Numerals -/

/-- An exponent goes on with neither a digit nor a point. -/
theorem exponentSpelling_append_eq_cons {mark : Char} (hmark : IsMark mark) {plus : Bool}
    {e : Option (Bool × List Nat)} {rest more : List UInt8} {b : UInt8} (hrest : EndsNumber rest)
    (h : Utf8.encode (Numeral.exponentSpelling mark plus e) ++ rest = b :: more) :
    digit? b = none ∧ b ≠ ascii '.' := by
  cases e with
  | none =>
    obtain ⟨hdigit, hpoint, -⟩ := hrest b more h
    exact ⟨hdigit, hpoint⟩
  | some e =>
    rw [Numeral.exponentSpelling, Utf8.encode_cons, hmark.encodeChar, List.append_assoc,
      List.singleton_append] at h
    obtain ⟨rfl, -⟩ := List.cons.inj h
    rcases hmark with rfl | rfl <;> decide

theorem endsDigits_fractionText (ds : List Nat) {rest : List UInt8} (hrest : EndsDigits rest) :
    EndsDigits (Utf8.encode (Numeral.fractionText ds) ++ rest) := by
  cases ds with
  | nil => exact hrest
  | cons d ds =>
    intro b more h
    rw [Numeral.fractionText, Utf8.encode_cons, show Utf8.encodeChar '.' = [ascii '.'] by decide,
      List.append_assoc, List.singleton_append] at h
    obtain ⟨rfl, -⟩ := List.cons.inj h
    decide

/-- The first byte of a proper numeral without a sign is a digit. -/
theorem exists_whole_eq_cons {t : Numeral} (ht : t.IsProper) :
    ∃ d more, d < 10 ∧ Utf8.encode (t.whole.map Decimal.digitChar) = UInt8.ofNat (d + 48) :: more
      := by
  obtain ⟨d, ds, hds⟩ := List.exists_cons_of_ne_nil ht.whole_ne_nil
  have hd : d < 10 := ht.whole_lt d (by rw [hds]; exact List.mem_cons_self ..)
  refine ⟨d, Utf8.encode (ds.map Decimal.digitChar), hd, ?_⟩
  rw [hds, List.map_cons, Utf8.encode_cons, encodeChar_digitChar hd, List.singleton_append]

theorem numberSign_append {t : Numeral} (ht : t.IsProper) (rest : List UInt8) :
    numberSign (Utf8.encode (if t.negative then ['-'] else []) ++
      (Utf8.encode (t.whole.map Decimal.digitChar) ++ rest)) =
    (t.negative, Utf8.encode (t.whole.map Decimal.digitChar) ++ rest) := by
  cases t.negative with
  | true => rfl
  | false =>
    obtain ⟨d, more, hd, hwhole⟩ := exists_whole_eq_cons ht
    have hne : ∀ d : Fin 10, UInt8.ofNat (d + 48) ≠ ascii '-' := by decide
    rw [hwhole, if_neg (by decide), Utf8.encode_nil, List.nil_append, List.cons_append, numberSign,
      if_neg (hne ⟨d, hd⟩)]

/-- **A numeral is read back from its spellings**, whatever follows. -/
theorem numeral_spelling (atEnd : Fault) {t : Numeral} (ht : t.IsProper) {mark : Char}
    (hmark : IsMark mark) (plus : Bool) {rest : List UInt8} (hrest : EndsNumber rest) :
    numeral atEnd (Utf8.encode (t.spelling mark plus) ++ rest) = .ok (t, rest) := by
  have hexponent :=
    exponentPart_append atEnd hmark plus ht.exponent_ne_nil ht.exponent_lt hrest
  have htail : EndsDigits (Utf8.encode (Numeral.exponentSpelling mark plus t.exponent) ++ rest) :=
    fun b more h => (exponentSpelling_append_eq_cons hmark hrest h).1
  have hfraction := fractionDigits_append atEnd ht.fraction_lt htail
    fun b more h => (exponentSpelling_append_eq_cons hmark hrest h).2
  have hwhole := wholeDigits_append atEnd ht.whole_ne_nil ht.whole_lt ht.whole_head
    (endsDigits_fractionText t.fraction htail)
  rw [Numeral.spelling]
  simp only [Utf8.encode_append, List.append_assoc, numeral, numberSign_append ht, hwhole,
    hfraction, hexponent]

/-- **A numeral is read back from its text**, whatever follows. -/
theorem numeral_text (atEnd : Fault) {t : Numeral} (ht : t.IsProper) {rest : List UInt8}
    (hrest : EndsNumber rest) :
    numeral atEnd (Utf8.encode t.text ++ rest) = .ok (t, rest) := by
  rw [t.text_eq_spelling]
  exact numeral_spelling atEnd ht (.inl rfl) true hrest

/-- A numeral is determined by its text. -/
theorem Numeral.text_inj {t u : Numeral} (ht : t.IsProper) (hu : u.IsProper)
    (h : t.text = u.text) : t = u := by
  have hread := numeral_text .endInValue ht endsNumber_nil
  rw [h, numeral_text .endInValue hu endsNumber_nil] at hread
  exact (Prod.mk.inj (Except.ok.inj hread)).1.symm

/-! ### Only spellings are numerals -/

theorem eq_of_digit? {b : UInt8} {d : Nat} (h : digit? b = some d) :
    d < 10 ∧ [b] = Utf8.encodeChar (Decimal.digitChar d) := by
  rw [digit?] at h
  split at h
  · next hrange =>
    obtain ⟨hlow, hhigh⟩ := hrange
    have hlow' : 48 ≤ b.toNat := hlow
    have hhigh' : b.toNat ≤ 57 := hhigh
    have hd : b.toNat - 48 = d := Option.some.inj h
    have hlt : d < 10 := by omega
    rw [encodeChar_digitChar hlt, show d + 48 = b.toNat by omega, UInt8.ofNat_toNat]
    exact ⟨hlt, rfl⟩
  · cases h

/-- What is taken as digits is digits. -/
theorem eq_of_digits {input rest : List UInt8} {ds : List Nat} (h : digits input = (ds, rest)) :
    input = Utf8.encode (ds.map Decimal.digitChar) ++ rest ∧ ∀ d ∈ ds, d < 10 := by
  induction input generalizing ds with
  | nil =>
    obtain ⟨rfl, rfl⟩ := Prod.mk.inj h
    exact ⟨rfl, fun d hd => by cases hd⟩
  | cons b input ih =>
    rw [digits] at h
    split at h
    · obtain ⟨rfl, rfl⟩ := Prod.mk.inj h
      exact ⟨rfl, fun d hd => by cases hd⟩
    · next d hd =>
      obtain ⟨hlt, hb⟩ := eq_of_digit? hd
      obtain ⟨rfl, rfl⟩ := Prod.mk.inj h
      obtain ⟨hinput, hmore⟩ := ih (Prod.mk.eta (p := digits input)).symm
      constructor
      · rw [List.map_cons, Utf8.encode_cons, ← hb, List.append_assoc, ← hinput]
        rfl
      · intro e he
        rcases List.mem_cons.mp he with rfl | he
        · exact hlt
        · exact hmore e he

theorem eq_of_wholeDigits {atEnd : Fault} {input rest : List UInt8} {ds : List Nat}
    (h : wholeDigits atEnd input = .ok (ds, rest)) :
    input = Utf8.encode (ds.map Decimal.digitChar) ++ rest ∧ ds ≠ [] ∧ (∀ d ∈ ds, d < 10) ∧
      ∀ d more, ds = d :: more → more ≠ [] → d ≠ 0 := by
  unfold wholeDigits at h
  split at h
  · cases h
  · next b left =>
    split at h
    · cases h
    · next hb =>
      -- a zero stands alone
      split at h
      · obtain ⟨rfl, rfl⟩ := Prod.mk.inj (Except.ok.inj h)
        refine ⟨?_, List.cons_ne_nil _ _, by simp, fun d more heq hmore => ?_⟩
        · rw [List.map_singleton, Utf8.encode_cons, ← (eq_of_digit? hb).2]
          rfl
        · exact absurd (List.cons.inj heq).2.symm hmore
      · cases h
    · next d hne hb =>
      obtain ⟨hlt, hbyte⟩ := eq_of_digit? hb
      obtain ⟨rfl, rfl⟩ := Prod.mk.inj (Except.ok.inj h)
      obtain ⟨hleft, hmore⟩ := eq_of_digits (Prod.mk.eta (p := digits left)).symm
      refine ⟨?_, List.cons_ne_nil _ _, ?_, ?_⟩
      · rw [List.map_cons, Utf8.encode_cons, ← hbyte, List.append_assoc, ← hleft]
        rfl
      · intro e he
        rcases List.mem_cons.mp he with rfl | he
        · exact hlt
        · exact hmore e he
      · rintro e more heq - rfl
        exact hne (List.cons.inj heq).1

theorem eq_of_fractionDigits {atEnd : Fault} {input rest : List UInt8} {ds : List Nat}
    (h : fractionDigits atEnd input = .ok (ds, rest)) :
    input = Utf8.encode (Numeral.fractionText ds) ++ rest ∧ ∀ d ∈ ds, d < 10 := by
  unfold fractionDigits at h
  split at h
  · obtain ⟨rfl, rfl⟩ := Prod.mk.inj (Except.ok.inj h)
    exact ⟨rfl, fun d hd => by cases hd⟩
  · next b left =>
    split at h
    · next hpoint =>
      split at h
      · cases h
      · cases h
      · next ds' rest' hend hmore hdigits =>
        obtain ⟨rfl, rfl⟩ := Prod.mk.inj (Except.ok.inj h)
        obtain ⟨hleft, hlt⟩ := eq_of_digits hdigits
        refine ⟨?_, hlt⟩
        rcases ds' with _ | ⟨d, ds'⟩
        · rcases rest' with _ | ⟨b, rest'⟩
          · exact (hend rfl rfl).elim
          · exact (hmore b rest' rfl rfl).elim
        · rw [Numeral.fractionText, Utf8.encode_cons,
            show Utf8.encodeChar '.' = [ascii '.'] by decide, List.append_assoc, ← hleft, hpoint]
          rfl
    · obtain ⟨rfl, rfl⟩ := Prod.mk.inj (Except.ok.inj h)
      exact ⟨rfl, fun d hd => by cases hd⟩

/-- A sign in front of an exponent, if there is one. -/
theorem exists_of_exponentSign {input rest : List UInt8} {negative : Bool}
    (h : exponentSign input = (negative, rest)) : ∃ plus : Bool,
      input = Utf8.encode (if negative then ['-'] else if plus then ['+'] else []) ++ rest := by
  unfold exponentSign at h
  split at h
  · obtain ⟨rfl, rfl⟩ := Prod.mk.inj h
    exact ⟨false, rfl⟩
  split at h
  · next hplus =>
    obtain ⟨rfl, rfl⟩ := Prod.mk.inj h
    exact ⟨true, by rw [hplus]; rfl⟩
  split at h
  · next hminus =>
    obtain ⟨rfl, rfl⟩ := Prod.mk.inj h
    exact ⟨false, by rw [hminus]; rfl⟩
  · obtain ⟨rfl, rfl⟩ := Prod.mk.inj h
    exact ⟨false, rfl⟩

theorem exists_of_exponentPart {atEnd : Fault} {input rest : List UInt8}
    {e : Option (Bool × List Nat)} (h : exponentPart atEnd input = .ok (e, rest)) :
    (∃ mark plus, IsMark mark ∧
      input = Utf8.encode (Numeral.exponentSpelling mark plus e) ++ rest) ∧
    ∀ s ds, e = some (s, ds) → ds ≠ [] ∧ ∀ d ∈ ds, d < 10 := by
  unfold exponentPart at h
  split at h
  · obtain ⟨rfl, rfl⟩ := Prod.mk.inj (Except.ok.inj h)
    refine ⟨⟨'e', true, .inl rfl, rfl⟩, fun s ds heq => ?_⟩
    cases heq
  · next b left =>
    split at h
    · next hb =>
      obtain ⟨mark, hmark, hbyte⟩ : ∃ mark, IsMark mark ∧ b = ascii mark :=
        hb.elim (fun h => ⟨'e', .inl rfl, h⟩) fun h => ⟨'E', .inr rfl, h⟩
      rcases hsplit : exponentSign left with ⟨negative, afterSign⟩
      obtain ⟨plus, hsign⟩ := exists_of_exponentSign hsplit
      rw [hsplit] at h
      simp only at h
      split at h
      · cases h
      · cases h
      · next ds' rest' hend hmore hdigits =>
        obtain ⟨rfl, rfl⟩ := Prod.mk.inj (Except.ok.inj h)
        obtain ⟨hleft, hlt⟩ := eq_of_digits hdigits
        refine ⟨⟨mark, plus, hmark, ?_⟩, fun s ds heq => ?_⟩
        · rw [Numeral.exponentSpelling, Utf8.encode_cons, hmark.encodeChar, Utf8.encode_append,
            List.append_assoc, List.append_assoc, ← hleft, ← hsign, hbyte]
          rfl
        · obtain ⟨-, rfl⟩ := Prod.mk.inj (Option.some.inj heq)
          refine ⟨?_, hlt⟩
          rintro rfl
          rcases rest' with _ | ⟨b, rest'⟩
          · exact hend rfl rfl
          · exact hmore b rest' rfl rfl
    · obtain ⟨rfl, rfl⟩ := Prod.mk.inj (Except.ok.inj h)
      refine ⟨⟨'e', true, .inl rfl, rfl⟩, fun s ds heq => ?_⟩
      cases heq

theorem eq_of_numberSign {input rest : List UInt8} {negative : Bool}
    (h : numberSign input = (negative, rest)) :
    input = Utf8.encode (if negative then ['-'] else []) ++ rest := by
  unfold numberSign at h
  split at h
  · obtain ⟨rfl, rfl⟩ := Prod.mk.inj h
    rfl
  split at h
  · next hminus =>
    obtain ⟨rfl, rfl⟩ := Prod.mk.inj h
    rw [hminus]
    rfl
  · obtain ⟨rfl, rfl⟩ := Prod.mk.inj h
    rfl

/-- **What is taken as a numeral is a spelling of it.** -/
theorem exists_spelling_of_numeral {atEnd : Fault} {input rest : List UInt8} {t : Numeral}
    (h : numeral atEnd input = .ok (t, rest)) :
    t.IsProper ∧ ∃ mark plus, IsMark mark ∧
      input = Utf8.encode (t.spelling mark plus) ++ rest := by
  rcases hsplit : numberSign input with ⟨negative, afterSign⟩
  have hsign := eq_of_numberSign hsplit
  rw [numeral, hsplit] at h
  simp only at h
  split at h
  · cases h
  · next hwhole =>
    split at h
    · cases h
    · next hfraction =>
      split at h
      · cases h
      · next hexponent =>
        obtain ⟨rfl, rfl⟩ := Prod.mk.inj (Except.ok.inj h)
        obtain ⟨hwhole, hne, hlt, hhead⟩ := eq_of_wholeDigits hwhole
        obtain ⟨hfraction, hfractionLt⟩ := eq_of_fractionDigits hfraction
        obtain ⟨⟨mark, plus, hmark, hexponent⟩, hproper⟩ := exists_of_exponentPart hexponent
        refine ⟨⟨hne, hlt, hhead, hfractionLt, fun s ds hs => (hproper s ds hs).1,
          fun s ds hs => (hproper s ds hs).2⟩, mark, plus, hmark, ?_⟩
        rw [hsign, hwhole, hfraction, hexponent, Numeral.spelling]
        simp only [Utf8.encode_append, List.append_assoc]

/-- **The texts of numerals are the spellings of the proper ones.** -/
theorem numeral_eq_ok_iff {atEnd : Fault} {s : List Char} {t : Numeral} :
    numeral atEnd (Utf8.encode s) = .ok (t, []) ↔
      t.IsProper ∧ ∃ mark plus, IsMark mark ∧ s = t.spelling mark plus := by
  constructor
  · intro h
    obtain ⟨ht, mark, plus, hmark, hs⟩ := exists_spelling_of_numeral h
    rw [List.append_nil] at hs
    exact ⟨ht, mark, plus, hmark, Utf8.encode_injective hs⟩
  · rintro ⟨ht, mark, plus, hmark, rfl⟩
    have hread := numeral_spelling atEnd ht hmark plus endsNumber_nil
    rwa [List.append_nil] at hread

end Json

end SealedLedger
