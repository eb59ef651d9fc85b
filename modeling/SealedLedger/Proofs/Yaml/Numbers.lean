import SealedLedger.Proofs.Json.Reading
import SealedLedger.Proofs.Yaml.Word

/-!
# Numerals in YAML

Every spelling of a JSON numeral is a single word, so a YAML text of it has the value of a plain
scalar. A numeral without a fraction and an exponent is an integer: a word where it fits one,
refused where it fits 128 bits only, and a double beyond them. Any other numeral is the double
nearest to it. A numeral that rounds to infinity is a text.

## Main definitions

* `Json.Numeral.integer?` — the integer of a numeral without a fraction and an exponent
* `Json.Numeral.nearest` — the double nearest to a numeral

## Main results

* `Yaml.plainValue_spelling` — the meaning of a numeral
* `Yaml.read?_spelling` — and the value of a text of it
-/

namespace SealedLedger

open Json (Numeral IsMark)

/-! ### Parts of a spelling -/

namespace Json.Numeral

/-- The integer that a numeral spells, none for one with a fraction or an exponent. -/
def integer? (t : Numeral) : Option Int :=
  if t.fraction = [] ∧ t.exponent = none then
    some (if t.negative then -(Decimal.ofDigits t.whole : Int) else Decimal.ofDigits t.whole)
  else none

/-- The double nearest to a numeral. -/
def nearest (t : Numeral) : Binary64 :=
  Decimal.nearest t.negative (Decimal.ofDigits (t.whole ++ t.fraction))
    (t.writtenExponent - t.fraction.length)

/-- What follows the digits before the point. -/
def tail (t : Numeral) (mark : Char) (plus : Bool) : List Char :=
  fractionText t.fraction ++ exponentSpelling mark plus t.exponent

/-- A spelling without the sign. -/
def body (t : Numeral) (mark : Char) (plus : Bool) : List Char :=
  t.whole.map Decimal.digitChar ++ t.tail mark plus

theorem spelling_eq (t : Numeral) (mark : Char) (plus : Bool) :
    t.spelling mark plus = if t.negative then '-' :: t.body mark plus else t.body mark plus := by
  rw [spelling]
  cases t.negative <;> rfl

variable {t : Numeral} {mark : Char} {plus : Bool}

/-- What follows the digits begins with a point or a mark of the exponent, unless the numeral is an
integer. -/
theorem tail_cases (t : Numeral) (mark : Char) (plus : Bool) :
    t.fraction = [] ∧ t.exponent = none ∧ t.tail mark plus = [] ∨
      ¬ (t.fraction = [] ∧ t.exponent = none) ∧
        ∃ c rest, t.tail mark plus = c :: rest ∧ (c = '.' ∨ c = mark) := by
  rw [tail]
  rcases t.fraction with _ | ⟨d, ds⟩
  · rcases t.exponent with _ | ⟨s, ds⟩
    · exact .inl ⟨rfl, rfl, rfl⟩
    · refine .inr ⟨fun h => ?_, _, _, rfl, .inr rfl⟩
      cases h.2
  · refine .inr ⟨fun h => ?_, _, _, rfl, .inl rfl⟩
    cases h.1

theorem exists_body_eq_cons (ht : t.IsProper) (mark : Char) (plus : Bool) :
    ∃ d rest, d < 10 ∧ t.body mark plus = Decimal.digitChar d :: rest ∧
      (d = 0 → rest = t.tail mark plus) := by
  obtain ⟨d, ds, hwhole⟩ := List.exists_cons_of_ne_nil ht.whole_ne_nil
  refine ⟨d, ds.map Decimal.digitChar ++ t.tail mark plus, ht.whole_lt d ?_, ?_, ?_⟩
  · rw [hwhole]
    exact List.mem_cons_self ..
  · rw [body, hwhole]
    rfl
  · intro hd
    obtain rfl : ds = [] := by
      by_contra hne
      exact ht.whole_head d ds hwhole hne hd
    rfl

end Json.Numeral

namespace Yaml

variable {t : Numeral} {mark : Char} {plus : Bool}

/-! ### Digits -/

theorem digitChar_ne {d : Nat} (hd : d < 10) {c : Char} (hc : Decimal.isDigit c = false) :
    Decimal.digitChar d ≠ c := by
  rintro rfl
  rw [Decimal.isDigit_digitChar hd] at hc
  cases hc

/-- A numeral without a sign begins with a digit and nothing else. -/
theorem body_ne_cons (ht : t.IsProper) {c : Char} (hc : Decimal.isDigit c = false)
    (rest : List Char) : t.body mark plus ≠ c :: rest := by
  obtain ⟨d, more, hd, hbody, -⟩ := Numeral.exists_body_eq_cons ht mark plus
  intro heq
  exact digitChar_ne hd hc (List.cons.inj (hbody.symm.trans heq)).1

theorem isDigit_mark (hmark : IsMark mark) : Decimal.isDigit mark = false := by
  rcases hmark with rfl | rfl <;> rfl

/-- What follows the digits does not go on with a digit. -/
theorem isDigit_eq_false (hmark : IsMark mark) {c : Char} (hc : c = '.' ∨ c = mark) :
    Decimal.isDigit c = false := by
  rcases hc with rfl | rfl
  · rfl
  · exact isDigit_mark hmark

theorem charDigit?_digitChar {d : Nat} (h : d < 10) :
    Hex.charDigit? (Decimal.digitChar d) = some d := by
  have key : ∀ d : Fin 10, Hex.charDigit? (Decimal.digitChar d) = some (d : Nat) := by decide
  exact key ⟨d, h⟩

/-- Digits spell their number. -/
theorem digitsIn?_digits {ds : List Nat} (hne : ds ≠ []) (hds : ∀ d ∈ ds, d < 10) :
    digitsIn? 10 (ds.map Decimal.digitChar) = some (Decimal.ofDigits ds) := by
  have hmap : ∀ ds : List Nat, (∀ d ∈ ds, d < 10) →
      (ds.map Decimal.digitChar).mapM Hex.charDigit? = some ds := by
    intro ds hds
    induction ds with
    | nil => rfl
    | cons d ds ih =>
      rw [List.map_cons, List.mapM_cons, charDigit?_digitChar (hds d (List.mem_cons_self ..)),
        ih fun e he => hds e (List.mem_cons_of_mem _ he)]
      rfl
  have hall : ds.all (· < 10) = true := List.all_eq_true.mpr fun d hd => decide_eq_true (hds d hd)
  rw [digitsIn?, if_neg (by simpa using hne), hmap ds hds]
  simp only [hall, if_true]
  rfl

/-- A text with anything else in it spells no number. -/
theorem digitsIn?_eq_none {cs : List Char} {c : Char} (hmem : c ∈ cs)
    (hc : ∀ d, Hex.charDigit? c = some d → 10 ≤ d) : digitsIn? 10 cs = none := by
  have hmap : ∀ cs : List Char, c ∈ cs → ∀ ds, cs.mapM Hex.charDigit? = some ds →
      ∃ d ∈ ds, Hex.charDigit? c = some d := by
    intro cs hmem
    induction cs with
    | nil => cases hmem
    | cons b bs ih =>
      intro ds h
      rw [List.mapM_cons] at h
      obtain ⟨d, hd, h⟩ := Option.bind_eq_some_iff.mp h
      obtain ⟨es, hes, h⟩ := Option.bind_eq_some_iff.mp h
      obtain rfl := Option.some.inj h
      rcases List.mem_cons.mp hmem with rfl | hmem
      · exact ⟨d, List.mem_cons_self .., hd⟩
      · obtain ⟨e, he, hce⟩ := ih hmem es hes
        exact ⟨e, List.mem_cons_of_mem _ he, hce⟩
  rw [digitsIn?, if_neg (List.ne_nil_of_mem hmem)]
  rcases hds : cs.mapM Hex.charDigit? with _ | ds
  · rfl
  · obtain ⟨d, hd, hcd⟩ := hmap cs hmem ds hds
    have hall : ds.all (· < 10) = false := by
      rw [List.all_eq_false]
      exact ⟨d, hd, by simpa using hc d hcd⟩
    simp only [hall, Bool.false_eq_true, if_false]

/-! ### Integers -/

theorem baseOf_eq_none (hmark : IsMark mark) {c : Char} (hc : c = '.' ∨ c = mark) :
    baseOf c = none := by
  rcases hc with rfl | rfl
  · rfl
  · rcases hmark with rfl | rfl <;> rfl

theorem le_charDigit? (hmark : IsMark mark) {c : Char} (hc : c = '.' ∨ c = mark) (d : Nat)
    (hd : Hex.charDigit? c = some d) : 10 ≤ d := by
  rcases hc with rfl | rfl
  · rw [show Hex.charDigit? '.' = none from rfl] at hd
    cases hd
  · have hletter : Hex.charDigit? c = some 14 := by
      rcases hmark with rfl | rfl <;> rfl
    rw [hletter] at hd
    obtain rfl := Option.some.inj hd
    decide

/-- The number before the point, where nothing follows it. -/
theorem magnitude?_body (ht : t.IsProper) (hmark : IsMark mark) (plus : Bool) :
    magnitude? (t.body mark plus) =
      if t.fraction = [] ∧ t.exponent = none then some (Decimal.ofDigits t.whole) else none := by
  have hdigits : digitsIn? 10 (t.body mark plus) =
      if t.fraction = [] ∧ t.exponent = none then some (Decimal.ofDigits t.whole) else none := by
    rcases t.tail_cases mark plus with ⟨hfraction, hexponent, htail⟩ | ⟨hne, c, rest, htail, hc⟩
    · rw [if_pos ⟨hfraction, hexponent⟩, Numeral.body, htail, List.append_nil,
        digitsIn?_digits ht.whole_ne_nil ht.whole_lt]
    · rw [if_neg hne]
      refine digitsIn?_eq_none (c := c) ?_ (le_charDigit? hmark hc)
      rw [Numeral.body, htail]
      exact List.mem_append_right _ (List.mem_cons_self ..)
  rw [← hdigits]
  obtain ⟨d, rest, hd, hbody, hzero⟩ := Numeral.exists_body_eq_cons ht mark plus
  rw [magnitude?.eq_def]
  split
  · next m ds heq =>
    -- after a zero there is no mark of a base
    rw [hbody] at heq
    obtain ⟨hfirst, hrest⟩ := List.cons.inj heq
    have hd0 : d = 0 := Decimal.digitChar_inj hd (by decide) hfirst
    rw [hzero hd0] at hrest
    have hc : m = '.' ∨ m = mark := by
      rcases t.tail_cases mark plus with ⟨-, -, htail⟩ | ⟨-, c, more, htail, hc⟩
      · rw [htail] at hrest
        cases hrest
      · rw [htail] at hrest
        obtain ⟨rfl, -⟩ := List.cons.inj hrest
        exact hc
    simp only [baseOf_eq_none hmark hc]
  · rfl

/-- A numeral has no zero in front of its other digits. -/
theorem isZeroPadded_spelling (ht : t.IsProper) (hmark : IsMark mark) :
    isZeroPadded (t.spelling mark plus) = false := by
  obtain ⟨d, rest, hd, hbody, hzero⟩ := Numeral.exists_body_eq_cons ht mark plus
  have hfalse : (1 < (t.body mark plus).length && (t.body mark plus).head? == some '0' &&
      (t.body mark plus).all Decimal.isDigit) = false := by
    by_cases hd0 : d = 0
    · rcases t.tail_cases mark plus with ⟨-, -, htail⟩ | ⟨-, c, more, htail, hc⟩
      · rw [hbody, hzero hd0, htail]
        rfl
      · rw [hbody, hzero hd0, htail, List.all_cons, List.all_cons, isDigit_eq_false hmark hc]
        simp
    · have hhead : Decimal.digitChar d ≠ '0' :=
        fun h => hd0 (Decimal.digitChar_inj hd (by decide) h)
      rw [hbody, List.head?_cons]
      simp [hhead]
  rw [Numeral.spelling_eq, isZeroPadded.eq_def]
  cases t.negative with
  | true => exact hfalse
  | false =>
    simp only [Bool.false_eq_true, if_false]
    split
    · next ds heq => exact absurd heq (body_ne_cons ht rfl ds)
    · next ds heq => exact absurd heq (body_ne_cons ht rfl ds)
    · exact hfalse

/-- **The integer of a numeral** is the one that it spells. -/
theorem integer?_spelling (ht : t.IsProper) (hmark : IsMark mark) :
    integer? (t.spelling mark plus) = t.integer? := by
  rw [integer?.eq_def, isZeroPadded_spelling ht hmark, if_neg Bool.false_ne_true,
    Numeral.spelling_eq, Numeral.integer?]
  have hmagnitude := magnitude?_body ht hmark plus
  cases t.negative with
  | true =>
    simp only [if_true, hmagnitude]
    split <;> rfl
  | false =>
    simp only [Bool.false_eq_true, if_false]
    split
    · next ds heq => exact absurd heq (body_ne_cons ht rfl ds)
    · next ds heq => exact absurd heq (body_ne_cons ht rfl ds)
    · rw [hmagnitude]
      split <;> rfl

/-! ### Floating-point numbers -/

theorem isDigit_of_mem_map {ds : List Nat} (hds : ∀ d ∈ ds, d < 10) :
    ∀ c ∈ ds.map Decimal.digitChar, Decimal.isDigit c = true := by
  intro c hc
  obtain ⟨d, hd, rfl⟩ := List.mem_map.mp hc
  exact Decimal.isDigit_digitChar (hds d hd)

theorem filterMap_digit? {ds : List Nat} (hds : ∀ d ∈ ds, d < 10) :
    (ds.map Decimal.digitChar).filterMap Decimal.digit? = ds := by
  rw [List.filterMap_map]
  conv_rhs => rw [← List.filterMap_some (l := ds)]
  exact List.filterMap_congr fun d hd => Decimal.digit?_digitChar (hds d hd)

/-- An exponent is the one that is written. -/
theorem exponent?_spelling (ht : t.IsProper) (hmark : IsMark mark) :
    exponent? (Numeral.exponentSpelling mark plus t.exponent) = some t.writtenExponent := by
  rcases hexponent : t.exponent with _ | ⟨s, ds⟩
  · rw [Numeral.writtenExponent, hexponent]
    rfl
  · have hlt := ht.exponent_lt s ds hexponent
    have hdigits := digitsIn?_digits (ht.exponent_ne_nil s ds hexponent) hlt
    have hsign : exponentSign ((if s then ['-'] else if plus then ['+'] else [])
        ++ ds.map Decimal.digitChar) = (s, ds.map Decimal.digitChar) := by
      cases s with
      | true => rfl
      | false =>
        cases plus with
        | true => rfl
        | false =>
          obtain ⟨d, more, rfl⟩ :=
            List.exists_cons_of_ne_nil (ht.exponent_ne_nil false ds hexponent)
          have hd := hlt d (List.mem_cons_self ..)
          simp only [Bool.false_eq_true, if_false, List.nil_append, List.map_cons]
          rw [exponentSign.eq_def]
          split
          · next heq => exact absurd (List.cons.inj heq).1 (digitChar_ne hd rfl)
          · next heq => exact absurd (List.cons.inj heq).1 (digitChar_ne hd rfl)
          · rfl
    have hletter : mark = 'e' ∨ mark = 'E' := hmark
    rw [Numeral.exponentSpelling, exponent?, if_pos hletter]
    simp only [hsign, hdigits, Numeral.writtenExponent, hexponent]
    cases s <;> rfl

/-- The digits after the point, where there is one, and the exponent behind them. -/
theorem fractionOf_tail (ht : t.IsProper) (hmark : IsMark mark) :
    fractionOf (t.tail mark plus) = (t.fraction.map Decimal.digitChar,
      Numeral.exponentSpelling mark plus t.exponent) := by
  have hstop : ∀ c rest, Numeral.exponentSpelling mark plus t.exponent = c :: rest →
      c = mark := by
    intro c rest h
    rcases hexponent : t.exponent with _ | ⟨s, ds⟩ <;> rw [hexponent] at h
    · cases h
    · exact (List.cons.inj h).1.symm
  rw [Numeral.tail]
  rcases hfraction : t.fraction with _ | ⟨d, ds⟩
  · rw [Numeral.fractionText, List.nil_append, fractionOf.eq_def]
    split
    · next cs heq =>
      have hpoint := hstop _ _ heq
      rcases hmark with rfl | rfl <;> cases hpoint
    · rfl
  · have hdigits := isDigit_of_mem_map (hfraction ▸ ht.fraction_lt)
    have hnone : ∀ c, (Numeral.exponentSpelling mark plus t.exponent).head? = some c →
        Decimal.isDigit c = false := fun c hc => by
      rcases hspelled : Numeral.exponentSpelling mark plus t.exponent with _ | ⟨b, rest⟩ <;>
        rw [hspelled] at hc
      · cases hc
      · rw [← Option.some.inj hc, hstop b rest hspelled]
        exact isDigit_mark hmark
    rw [Numeral.fractionText, List.cons_append, fractionOf,
      List.takeWhile_append_of_pos hdigits, List.dropWhile_append_of_pos hdigits]
    rcases hspelled : Numeral.exponentSpelling mark plus t.exponent with _ | ⟨b, rest⟩
    · simp
    · have hb := hnone b (by rw [hspelled]; rfl)
      rw [List.takeWhile_cons, List.dropWhile_cons, hb]
      simp

/-- **The double of a numeral** is the nearest one. -/
theorem decimal?_body (ht : t.IsProper) (hmark : IsMark mark) (plus : Bool) :
    decimal? t.negative (t.body mark plus) = some t.nearest := by
  have hwhole := isDigit_of_mem_map ht.whole_lt
  have hstop : (t.tail mark plus).takeWhile Decimal.isDigit = [] ∧
      (t.tail mark plus).dropWhile Decimal.isDigit = t.tail mark plus := by
    rcases t.tail_cases mark plus with ⟨-, -, htail⟩ | ⟨-, c, rest, htail, hc⟩
    · rw [htail]
      exact ⟨rfl, rfl⟩
    · rw [htail, List.takeWhile_cons, List.dropWhile_cons, isDigit_eq_false hmark hc]
      exact ⟨rfl, rfl⟩
  have hlt : ∀ d ∈ t.whole ++ t.fraction, d < 10 := fun d hd =>
    (List.mem_append.mp hd).elim (ht.whole_lt d) (ht.fraction_lt d)
  rw [decimal?, Numeral.body, List.takeWhile_append_of_pos hwhole,
    List.dropWhile_append_of_pos hwhole, hstop.1, hstop.2, List.append_nil,
    fractionOf_tail ht hmark]
  simp only [← List.map_append, filterMap_digit? hlt, exponent?_spelling ht hmark,
    List.length_map, Option.map_some]
  rw [if_neg (List.append_ne_nil_of_left_ne_nil ht.whole_ne_nil _)]
  rfl

/-! ### The meaning of a numeral -/

/-- The first character of a spelling is a minus sign or a digit. -/
theorem exists_spelling_eq_cons (ht : t.IsProper) (mark : Char) (plus : Bool) :
    ∃ c rest, t.spelling mark plus = c :: rest ∧ (c = '-' ∨ Decimal.isDigit c = true) := by
  obtain ⟨d, rest, hd, hbody, -⟩ := Numeral.exists_body_eq_cons ht mark plus
  rw [Numeral.spelling_eq]
  cases t.negative with
  | true => exact ⟨_, _, rfl, .inl rfl⟩
  | false => exact ⟨_, _, hbody, .inr (Decimal.isDigit_digitChar hd)⟩

/-- A text is none of the words that begin with another character. -/
theorem any_toList_eq_false {words : List String} {c : Char} {rest : List Char}
    (h : ∀ w ∈ words, w.toList.head? ≠ some c) : words.any (·.toList == c :: rest) = false := by
  rw [List.any_eq_false]
  intro w hw heq
  refine h w hw ?_
  rw [eq_of_beq heq, List.head?_cons]

/-- **The double of a numeral, where it is finite.** -/
theorem float?_spelling (ht : t.IsProper) (hmark : IsMark mark) :
    float? (t.spelling mark plus) = if t.nearest.isFinite then some t.nearest else none := by
  obtain ⟨d, rest, hd, hbody, -⟩ := Numeral.exists_body_eq_cons ht mark plus
  obtain ⟨c, more, hspelling, hc⟩ := exists_spelling_eq_cons ht mark plus
  have hdecimal := decimal?_body ht hmark plus
  have hinfinity : isInfinity (t.body mark plus) = false := by
    rw [hbody]
    refine any_toList_eq_false fun w hw heq => digitChar_ne hd (c := '.') rfl ?_
    have key : ∀ w ∈ [".inf", ".Inf", ".INF"], w.toList.head? = some '.' := by decide
    exact Option.some.inj (heq.symm.trans (key w hw))
  have hnan : isNotANumber (t.spelling mark plus) = false := by
    rw [hspelling]
    refine any_toList_eq_false fun w hw heq => ?_
    have key : ∀ w ∈ [".nan", ".NaN", ".NAN"], w.toList.head? = some '.' := by decide
    obtain rfl := Option.some.inj (heq.symm.trans (key w hw))
    rcases hc with hc | hc <;> cases hc
  rw [Numeral.spelling_eq] at hnan ⊢
  cases hnegative : t.negative with
  | true =>
    rw [hnegative] at hdecimal hnan
    simp only [if_true] at hnan
    simp only [float?, if_true, hinfinity, hnan, hdecimal, Bool.false_eq_true, if_false]
  | false =>
    rw [hnegative] at hdecimal hnan
    simp only [Bool.false_eq_true, if_false] at hnan
    rw [if_neg Bool.false_ne_true, float?.eq_def]
    split
    next negative ds hsign =>
    split at hsign
    · next heq => exact absurd heq (body_ne_cons ht rfl _)
    · next heq => exact absurd heq (body_ne_cons ht rfl _)
    · obtain ⟨rfl, rfl⟩ := Prod.mk.inj hsign
      simp only [hinfinity, hnan, hdecimal, Bool.false_eq_true, if_false]

/-- **The meaning of a numeral**: its integer, or the double nearest to it. -/
theorem plainValue_spelling (ht : t.IsProper) (hmark : IsMark mark) :
    plainValue (t.spelling mark plus) =
      match t.integer?.bind Fit.value? with
      | some r => r
      | none => .ok (if t.nearest.isFinite then .number (.float t.nearest)
          else .string (String.ofList (t.spelling mark plus))) := by
  obtain ⟨c, rest, hspelling, hc⟩ := exists_spelling_eq_cons ht mark plus
  have hwords : ∀ words : List String,
      (words.all fun w => w.toList.head?.all fun b => b != '-' && !Decimal.isDigit b) = true →
        words.any (·.toList == t.spelling mark plus) = false := fun words h => by
    rw [hspelling]
    refine any_toList_eq_false fun w hw heq => ?_
    have hother := List.all_eq_true.mp h w hw
    rw [heq, Option.all_some] at hother
    rcases hc with rfl | hc
    · exact Bool.false_ne_true hother
    · rw [hc, Bool.not_true, Bool.and_false] at hother
      exact Bool.false_ne_true hother
  have hempty : (t.spelling mark plus = [] || isNull (t.spelling mark plus)) = false := by
    rw [isNull, hwords _ (by decide), hspelling]
    rfl
  have hbool : bool? (t.spelling mark plus) = none := by
    simp only [bool?, hwords ["true", "True", "TRUE"] (by decide),
      hwords ["false", "False", "FALSE"] (by decide), Bool.false_eq_true, if_false]
  simp only [plainValue, hempty, hbool, integer?_spelling ht hmark, isZeroPadded_spelling ht hmark,
    float?_spelling ht hmark, Bool.false_eq_true, if_false]
  rcases t.integer?.bind Fit.value? with _ | r
  · cases t.nearest.isFinite <;> rfl
  · rfl

/-- A spelling of a numeral is a single word. -/
theorem isWordText_spelling (ht : t.IsProper) (hmark : IsMark mark) :
    IsWordText (t.spelling mark plus) := by
  have hdigit : ∀ d < 10, isHead (Decimal.digitChar d) = true := fun d hd => by
    have key : ∀ d : Fin 10, isHead (Decimal.digitChar d) = true := by decide
    exact key ⟨d, hd⟩
  have hdigits : ∀ ds : List Nat, (∀ d ∈ ds, d < 10) →
      ∀ c ∈ ds.map Decimal.digitChar, isPart c = true := by
    intro ds hds c hc
    obtain ⟨d, hd, rfl⟩ := List.mem_map.mp hc
    exact isPart_of_isHead (hdigit d (hds d hd))
  obtain ⟨d, rest, hd, hbody, -⟩ := Numeral.exists_body_eq_cons ht mark plus
  constructor
  · intro c hc
    rw [Numeral.spelling] at hc
    rcases List.mem_append.mp hc with hc | hc
    · split at hc
      · rw [List.mem_singleton.mp hc]
        rfl
      · cases hc
    rcases List.mem_append.mp hc with hc | hc
    · exact hdigits _ ht.whole_lt c hc
    rcases List.mem_append.mp hc with hc | hc
    · rcases hfraction : t.fraction with _ | ⟨f, fs⟩ <;> rw [hfraction] at hc
      · cases hc
      · rcases List.mem_cons.mp hc with rfl | hc
        · rfl
        · exact hdigits _ (hfraction ▸ ht.fraction_lt) c hc
    · rcases hexponent : t.exponent with _ | ⟨s, ds⟩ <;> rw [hexponent] at hc
      · cases hc
      · rcases List.mem_cons.mp hc with rfl | hc
        · rcases hmark with rfl | rfl <;> rfl
        rcases List.mem_append.mp hc with hc | hc
        · have hsign : (if s then ['-'] else if plus then ['+'] else []).all isPart = true := by
            cases s <;> cases plus <;> rfl
          exact List.all_eq_true.mp hsign c hc
        · exact hdigits _ (ht.exponent_lt s ds hexponent) c hc
  · rw [Numeral.spelling_eq]
    cases t.negative with
    | true => exact ⟨_, _, rfl, .inr ⟨rfl, _, _, hbody, hdigit d hd⟩⟩
    | false => exact ⟨_, _, hbody, .inl (hdigit d hd)⟩

/-- **The value of a text that is a numeral.** -/
theorem read?_spelling (ht : t.IsProper) (hmark : IsMark mark) :
    read? (t.spelling mark plus) =
      match t.integer?.bind Fit.value? with
      | some r => r.mapError fun r => .refused r .root .start
      | none => .ok (if t.nearest.isFinite then .number (.float t.nearest)
          else .string (String.ofList (t.spelling mark plus))) := by
  rw [read?_word (isWordText_spelling ht hmark), plainValue_spelling ht hmark]
  cases t.integer?.bind Fit.value? <;> rfl

end Yaml

end SealedLedger
