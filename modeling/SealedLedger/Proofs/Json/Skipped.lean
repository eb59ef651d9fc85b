import SealedLedger.Json.Skip
import SealedLedger.Proofs.Json.Consumption
import SealedLedger.Proofs.Json.Reading

/-!
# Whatever is read can be passed over

The reader that passes over a value keeps its own stack of open containers, while the reader of
values calls itself. Where a value is read, it is passed over up to the same byte, in front of any
stack: what is left to do behind it is what is left to do behind the value. So each step of the
reader of values is matched by steps on the stack, and the stack is the same again at the end of
each value.

The reader that passes over a value has an allowance, which must be more than the bytes in front of
it. A value takes one byte at least from the input and one from the allowance.

## Main definitions

* `Json.skipRest` — what is left to pass over behind a value
* `Json.IsSkipped` — what a reader takes off the front is passed over

## Main results

* `Json.skipString_of_string`, `Json.skipScalar_of_scalar` — values without parts
* `Json.isSkipped_value` — values in open containers
* `Json.skip_of_value` — a value that is read can be passed over
-/

namespace SealedLedger

namespace Json

/-! ### Strings -/

section

variable {input rest : List UInt8} {fuel : Nat}

theorem skipStringWithin_cons (fuel : Nat) (b : UInt8) (input : List UInt8) :
    skipStringWithin (fuel + 1) (b :: input) =
      if b = ascii '"' then .ok ((), input)
      else if b = ascii '\\' then
        match input with
        | [] => .error (.here .endInString [])
        | e :: input =>
          if (escaped? e).isSome then skipStringWithin fuel input
          else if e = ascii 'u' then
            match codeUnit input with
            | .error stop => .error stop
            | .ok (_, input) => skipStringWithin fuel input
          else .error (.here .invalidEscape input)
      else if b < 0x20 then .error (.here .controlCharacter (b :: input))
      else skipStringWithin fuel input := by
  rewrite [skipStringWithin.eq_def]
  rfl

theorem skipStringWithin_unit {n : Nat} (h : codeUnit input = .ok (n, rest)) :
    skipStringWithin (fuel + 1) (ascii '\\' :: ascii 'u' :: input)
      = skipStringWithin fuel rest := by
  rw [skipStringWithin_cons, if_neg (by decide), if_pos rfl]
  simp only [h, show (escaped? (ascii 'u')).isSome = false by decide, Bool.false_eq_true, if_false,
    if_true]

theorem exists_of_trailingUnit {m : Nat} (h : trailingUnit input = .ok (m, rest)) :
    ∃ left, input = ascii '\\' :: ascii 'u' :: left ∧ codeUnit left = .ok (m, rest) := by
  unfold trailingUnit at h
  split at h
  · cases h
  split at h
  · next hslash =>
    split at h
    · cases h
    split at h
    · next hu =>
      split at h
      · cases h
      · next left _ _ _ hunit =>
        split at h
        · rw [h] at hunit
          exact ⟨_, by rw [hslash, hu], hunit⟩
        · cases h
    · cases h
  · cases h

/-- An escape that is read is one escape to be passed over, or two for a pair of halves. -/
theorem skipStringWithin_escape {c : Char} (h : escape input = .ok (c, rest))
    (hfuel : input.length < fuel) : ∃ left, rest.length < left ∧
      skipStringWithin (fuel + 1) (ascii '\\' :: input) = skipStringWithin left rest := by
  unfold escape at h
  split at h
  · cases h
  split at h
  · next e input _ hc =>
    obtain ⟨-, rfl⟩ := Prod.mk.inj (Except.ok.inj h)
    rw [List.length_cons] at hfuel
    refine ⟨fuel, by omega, ?_⟩
    rw [skipStringWithin_cons, if_neg (by decide), if_pos rfl]
    simp only [hc, Option.isSome_some, if_true]
  split at h
  · next e input _ _ hu =>
    rw [List.length_cons] at hfuel
    unfold codePoint at h
    split at h
    · cases h
    next n behind hunit =>
    have hbehind := (consumes_codeUnit hunit).length_le
    split at h
    · cases h
    split at h
    · split at h
      · cases h
      next m left htrailing =>
      obtain ⟨-, rfl⟩ := Prod.mk.inj (Except.ok.inj h)
      obtain ⟨second, rfl, hsecond⟩ := exists_of_trailingUnit htrailing
      have hrest := (consumes_codeUnit hsecond).length_le
      rw [List.length_cons, List.length_cons] at hbehind
      obtain ⟨k, rfl⟩ := Nat.exists_eq_add_of_le' (show 1 ≤ fuel by omega)
      rw [hu, skipStringWithin_unit hunit, skipStringWithin_unit hsecond]
      exact ⟨k, by omega, rfl⟩
    · obtain ⟨-, rfl⟩ := Prod.mk.inj (Except.ok.inj h)
      rw [hu, skipStringWithin_unit hunit]
      exact ⟨fuel, by omega, rfl⟩
  · cases h
theorem skipStringWithin_of_stringBytesWithin {n : Nat} {bytes : List UInt8}
    (h : stringBytesWithin n input = .ok (bytes, rest)) (hfuel : input.length < fuel) :
    skipStringWithin fuel input = .ok ((), rest) := by
  induction n generalizing input bytes fuel with
  | zero => cases h
  | succ n ih =>
    obtain ⟨fuel, rfl⟩ := Nat.exists_eq_add_of_le' (show 1 ≤ fuel by omega)
    cases input with
    | nil => cases h
    | cons b input =>
      have hfuel : input.length < fuel := by simpa using hfuel
      rw [stringBytesWithin] at h
      split at h
      · next hquote =>
        obtain ⟨-, rfl⟩ := Prod.mk.inj (Except.ok.inj h)
        rw [skipStringWithin_cons, if_pos hquote]
      split at h
      · next hslash =>
        split at h
        · cases h
        · next hescape =>
          split at h
          · cases h
          · next hmore =>
            obtain ⟨-, rfl⟩ := Prod.mk.inj (Except.ok.inj h)
            obtain ⟨left, hleft, heq⟩ := skipStringWithin_escape hescape hfuel
            rw [hslash, heq]
            exact ih hmore hleft
      split at h
      · cases h
      split at h
      · cases h
      · next hquote hslash hcontrol _ _ _ hmore =>
        obtain ⟨-, rfl⟩ := Prod.mk.inj (Except.ok.inj h)
        rw [skipStringWithin_cons, if_neg hquote, if_neg hslash, if_neg hcontrol]
        exact ih hmore hfuel

/-- **A string that is read can be passed over.** -/
theorem skipString_of_string {s : String} (h : string input = .ok (s, rest)) :
    skipString input = .ok ((), rest) := by
  unfold string at h
  split at h
  · cases h
  · next hbytes =>
    split at h
    · obtain ⟨-, rfl⟩ := Prod.mk.inj (Except.ok.inj h)
      exact skipStringWithin_of_stringBytesWithin hbytes (Nat.lt_succ_self _)
    · cases h

end

/-! ### Numbers and words -/

section

variable {input rest : List UInt8} {atEnd : Fault}

theorem wholeDigits_of_wholeDigits {atEnd' : Fault} {ds : List Nat}
    (h : wholeDigits atEnd input = .ok (ds, rest)) : wholeDigits atEnd' input = .ok (ds, rest) := by
  cases input with
  | nil => cases h
  | cons b input => exact h

theorem fractionDigits_of_fractionDigits {atEnd' : Fault} {ds : List Nat}
    (h : fractionDigits atEnd input = .ok (ds, rest)) :
    fractionDigits atEnd' input = .ok (ds, rest) := by
  cases input with
  | nil => exact h
  | cons b input =>
    rw [fractionDigits] at h ⊢
    split at h
    · next hpoint =>
      rw [if_pos hpoint]
      split at h
      · cases h
      · cases h
      · exact h
    · next hpoint => rwa [if_neg hpoint]

theorem exponentPart_of_exponentPart {atEnd' : Fault} {e : Option (Bool × List Nat)}
    (h : exponentPart atEnd input = .ok (e, rest)) :
    exponentPart atEnd' input = .ok (e, rest) := by
  cases input with
  | nil => exact h
  | cons b input =>
    rw [exponentPart] at h ⊢
    split at h
    · next hmark =>
      rw [if_pos hmark]
      dsimp only at h ⊢
      split at h
      · cases h
      · cases h
      · exact h
    · next hmark => rwa [if_neg hmark]

/-- A numeral is read whatever its fault at the end of the text would be. -/
theorem numeral_of_numeral {atEnd' : Fault} {t : Numeral}
    (h : numeral atEnd input = .ok (t, rest)) : numeral atEnd' input = .ok (t, rest) := by
  unfold numeral at h ⊢
  dsimp only at h ⊢
  split at h
  · cases h
  next hwhole =>
  split at h
  · cases h
  next hfraction =>
  split at h
  · cases h
  next hexponent =>
  rw [wholeDigits_of_wholeDigits hwhole]
  dsimp only
  rw [fractionDigits_of_fractionDigits hfraction]
  dsimp only
  rwa [exponentPart_of_exponentPart hexponent]

/-- **A value without parts that is read can be passed over.** -/
theorem skipScalar_of_scalar {b : UInt8} {v : Value} (h : scalar b input = .ok (v, rest)) :
    skipScalar b input = .ok ((), rest) := by
  have hconstant : ∀ {letters w}, constant letters w input = .ok (v, rest) →
      word letters input = .ok ((), rest) := by
    intro letters w hread
    unfold constant at hread
    split at hread
    · cases hread
    · next hword =>
      obtain ⟨-, rfl⟩ := Prod.mk.inj (Except.ok.inj hread)
      exact hword
  unfold scalar at h
  unfold skipScalar
  split at h
  · next hb =>
    rw [if_pos hb]
    exact hconstant h
  next hnull =>
  rw [if_neg hnull]
  split at h
  · next hb =>
    rw [if_pos hb]
    exact hconstant h
  next htrue =>
  rw [if_neg htrue]
  split at h
  · next hb =>
    rw [if_pos hb]
    exact hconstant h
  next hfalse =>
  rw [if_neg hfalse]
  split at h
  · next hb =>
    rw [if_pos hb]
    split at h
    · cases h
    · next hstring =>
      obtain ⟨-, rfl⟩ := Prod.mk.inj (Except.ok.inj h)
      exact skipString_of_string hstring
  next hquote =>
  rw [if_neg hquote]
  split at h
  · next hb =>
    rw [if_pos hb]
    split at h
    · cases h
    · next hnumber =>
      obtain ⟨-, rfl⟩ := Prod.mk.inj (Except.ok.inj h)
      obtain ⟨t, hnumeral, -⟩ := exists_numeral_of_number hnumber
      rw [numeral_of_numeral hnumeral]
  · cases h

end

/-! ### Steps on the stack -/

/-- What is left to pass over behind a value, or behind the opening bracket of a container. -/
def skipRest (fuel : Nat) (fresh : Bool) (frames : List Frame) : Reader Unit := fun input =>
  match skipEnds fresh frames input with
  | .error stop => .error stop
  | .ok ([], rest) => .ok ((), rest)
  | .ok (.array :: outer, rest) => skipWithin fuel (.array :: outer) rest
  | .ok (.object :: outer, rest) =>
    match skipKey rest with
    | .error stop => .error stop
    | .ok ((), rest) => skipWithin fuel (.object :: outer) rest

section

variable {fuel : Nat} {frames : List Frame} {fresh : Bool} {input left rest : List UInt8}

theorem skipWithin_skipSpace (fuel : Nat) (frames : List Frame) :
    SkipsSpace (skipWithin fuel frames) := by
  intro input
  cases fuel with
  | zero => rfl
  | succ fuel => rw [skipWithin, skipWithin, skipSpace_skipSpace]

/-- A container is entered at its opening bracket. -/
theorem skipWithin_bracket (h : skipSpace input = ascii '[' :: rest) :
    skipWithin (fuel + 1) frames input = skipRest fuel true (.array :: frames) rest := by
  rw [skipWithin, h]
  rfl

theorem skipWithin_brace (h : skipSpace input = ascii '\x7b' :: rest) :
    skipWithin (fuel + 1) frames input = skipRest fuel true (.object :: frames) rest := by
  rw [skipWithin, h]
  rfl

theorem skipWithin_scalar {b : UInt8} (h : skipSpace input = b :: left) (hbracket : b ≠ ascii '[')
    (hbrace : b ≠ ascii '\x7b') (hscalar : skipScalar b left = .ok ((), rest)) :
    skipWithin (fuel + 1) frames input = skipRest fuel false frames rest := by
  rw [skipWithin, h]
  simp only [if_neg hbracket, if_neg hbrace, hscalar]
  rfl

/-- A container is left at its closing bracket, which is the end of a value of the outer one. -/
theorem skipRest_closing {f : Frame} (h : skipSpace input = f.closing :: rest) :
    skipRest fuel fresh (f :: frames) input = skipRest fuel false frames rest := by
  rw [skipRest, skipRest, skipEnds, h]
  simp only [if_true]

/-- The next item of a container begins at once, or behind a comma. -/
def BeginsItemAt (fresh : Bool) (input item : List UInt8) : Prop :=
  if fresh then skipSpace input = item
  else ∃ left, skipSpace input = ascii ',' :: left ∧ skipSpace left = item

/-- Inside a container the next item is found. -/
theorem skipEnds_item {f : Frame} {b : UInt8} (h : BeginsItemAt fresh input (b :: rest))
    (hb : b ≠ f.closing) : ∃ left, skipSpace left = b :: rest ∧
      skipEnds fresh (f :: frames) input = .ok (f :: frames, left) := by
  cases fresh with
  | true =>
    have hskip : skipSpace input = b :: rest := h
    refine ⟨b :: rest, by rw [← hskip, skipSpace_skipSpace], ?_⟩
    rw [skipEnds, hskip]
    simp only [if_neg hb, if_true]
  | false =>
    obtain ⟨left, hcomma, hleft⟩ := h
    have hclosing : ascii ',' ≠ f.closing := by
      cases f <;> decide
    refine ⟨left, hleft, ?_⟩
    rw [skipEnds, hcomma]
    simp only [if_neg hclosing, Bool.false_eq_true, if_false, if_true]

theorem beginsItemAt_of_moreElements (h : moreElements fresh input = .ok (true, rest)) :
    BeginsItemAt fresh input rest ∧ ∃ b left, rest = b :: left ∧ b ≠ ascii ']' := by
  unfold moreElements at h
  split at h
  · cases h
  next b left hskip =>
  split at h
  · cases h
  next hclosing =>
  split at h
  · next hfresh =>
    obtain ⟨-, rfl⟩ := Prod.mk.inj (Except.ok.inj h)
    subst hfresh
    exact ⟨hskip, b, left, rfl, hclosing⟩
  next hfresh =>
  obtain rfl := Bool.eq_false_iff.mpr hfresh
  split at h
  · next hcomma =>
    split at h
    · cases h
    next c behind hbehind =>
    split at h
    · cases h
    next hc =>
    obtain ⟨-, rfl⟩ := Prod.mk.inj (Except.ok.inj h)
    exact ⟨⟨left, hcomma ▸ hskip, hbehind⟩, c, behind, rfl, hc⟩
  · cases h

theorem string_of_key {k : String} (h : nextKey.key input = .ok (some k, rest)) :
    string input = .ok (k, rest) := by
  unfold nextKey.key at h
  split at h
  · cases h
  next hstring =>
  obtain ⟨hk, rfl⟩ := Prod.mk.inj (Except.ok.inj h)
  rw [hstring, Option.some.inj hk]

theorem beginsItemAt_of_nextKey {k : String} (h : nextKey fresh input = .ok (some k, rest)) :
    ∃ left, BeginsItemAt fresh input (ascii '"' :: left) ∧ string left = .ok (k, rest) := by
  unfold nextKey at h
  split at h
  · cases h
  next b left hskip =>
  split at h
  · cases h
  split at h
  · next hfresh =>
    subst hfresh
    split at h
    · next hquote => exact ⟨left, hquote ▸ hskip, string_of_key h⟩
    · cases h
  next hfresh =>
  obtain rfl := Bool.eq_false_iff.mpr hfresh
  split at h
  · next hcomma =>
    split at h
    · cases h
    next c behind hbehind =>
    split at h
    · next hquote =>
      exact ⟨behind, ⟨left, hcomma ▸ hskip, hquote ▸ hbehind⟩, string_of_key h⟩
    split at h
    · cases h
    · cases h
  · cases h

/-- In an array the next value is found behind the comma. -/
theorem skipRest_element (h : moreElements fresh input = .ok (true, rest)) :
    skipRest fuel fresh (.array :: frames) input = skipWithin fuel (.array :: frames) rest := by
  obtain ⟨hbegins, b, behind, rfl, hb⟩ := beginsItemAt_of_moreElements h
  obtain ⟨left, hleft, hends⟩ := skipEnds_item hbegins (f := .array) hb
  rw [skipRest, hends]
  dsimp only
  rw [← skipWithin_skipSpace, hleft]

/-- In an object the next value is found behind its key and the colon. -/
theorem skipRest_member {k : String} (h : nextKey fresh input = .ok (some k, left))
    (hcolon : colon left = .ok ((), rest)) :
    skipRest fuel fresh (.object :: frames) input = skipWithin fuel (.object :: frames) rest := by
  obtain ⟨body, hbegins, hstring⟩ := beginsItemAt_of_nextKey h
  obtain ⟨behind, hbehind, hends⟩ := skipEnds_item hbegins (f := .object) (by decide)
  have hkey : skipKey behind = .ok ((), rest) := by
    rw [skipKey, hbehind]
    simp only [if_true, skipString_of_string hstring, hcolon]
  rw [skipRest, hends]
  simp only [hkey]

end

/-! ### Values on the stack -/

/-- What the reader takes off the front is passed over inside any open containers, with less of the
allowance than of the input. -/
def IsSkipped {α : Type} (r : Reader α) : Prop :=
  ∀ ⦃input a rest⦄, r input = .ok (a, rest) → ∀ ⦃fuel⦄ (frames : List Frame), input.length < fuel →
    ∃ left, rest.length < left ∧
      skipWithin fuel frames input = skipRest left false frames rest

section

variable {α σ : Type} {item : Reader α} {frames : List Frame} {fuel : Nat} {fresh : Bool}
  {input rest behind : List UInt8}

theorem skipSpace_of_moreElements (h : moreElements fresh input = .ok (false, rest)) :
    skipSpace input = rest := by
  unfold moreElements at h
  split at h
  · cases h
  next b left hskip =>
  split at h
  · exact hskip.trans (Prod.mk.inj (Except.ok.inj h)).2
  split at h
  · cases h
  split at h
  · split at h
    · cases h
    · split at h <;> cases h
  · cases h

theorem key_ne_none : nextKey.key input ≠ .ok (none, rest) := by
  intro h
  unfold nextKey.key at h
  split at h <;> cases h

theorem skipSpace_of_nextKey (h : nextKey fresh input = .ok (none, rest)) :
    skipSpace input = rest := by
  unfold nextKey at h
  split at h
  · cases h
  next b left hskip =>
  split at h
  · exact hskip.trans (Prod.mk.inj (Except.ok.inj h)).2
  split at h
  · split at h
    · exact absurd h key_ne_none
    · cases h
  split at h
  · split at h
    · cases h
    split at h
    · exact absurd h key_ne_none
    · split at h <;> cases h
  · cases h

/-- The closing bracket of a container is passed over. -/
theorem exists_skipRest_closing {f : Frame} (h : skipSpace input = f.closing :: behind)
    (hfuel : input.length < fuel) : ∃ left, behind.length < left ∧
      skipRest fuel fresh (f :: frames) input = skipRest left false frames behind :=
  ⟨fuel, Nat.lt_of_le_of_lt (suffix_of_skipSpace h).length_le hfuel, skipRest_closing h⟩

/-- **The elements of an array are passed over**, and its closing bracket. -/
theorem exists_skipRest_items (hitem : IsSkipped item) {as : List α}
    (h : ReadsItems item fresh input as rest) (hclose : closeArray rest = .ok ((), behind))
    (hfuel : input.length < fuel) : ∃ left, behind.length < left ∧
      skipRest fuel fresh (.array :: frames) input = skipRest left false frames behind := by
  induction h generalizing fuel with
  | @nil fresh input rest hnone =>
    have hskip := skipSpace_of_moreElements (nextElement_eq_none_iff.mp hnone)
    have hbracket := closeArray_eq_ok_iff.mp hclose
    rw [← hskip, skipSpace_skipSpace] at hbracket
    exact exists_skipRest_closing hbracket hfuel
  | cons hsome _ ih =>
    obtain ⟨left, hmore, hread⟩ := nextElement_eq_some_iff.mp hsome
    have hleft := (exists_cons_of_moreElements hmore).2.length_le
    obtain ⟨fuel', hfuel', heq⟩ := hitem hread (.array :: frames) (by omega : left.length < fuel)
    rw [skipRest_element hmore, heq]
    exact ih hclose hfuel'

/-- **The members of an object are passed over**, and its closing brace, when the step for each of
them reads its value behind the colon. -/
theorem exists_skipRest_members (hitem : IsSkipped item) {step : σ → String → Reader σ}
    (hstep : ∀ {s k input s' rest}, step s k input = .ok (s', rest) →
      ∃ left a, colon input = .ok ((), left) ∧ item left = .ok (a, rest)) {n : Nat} {s s' : σ}
    (h : membersWithin step n fresh s input = .ok (s', rest))
    (hclose : closeObject rest = .ok ((), behind)) (hfuel : input.length < fuel) :
    ∃ left, behind.length < left ∧
      skipRest fuel fresh (.object :: frames) input = skipRest left false frames behind := by
  induction n generalizing fresh s input fuel with
  | zero => cases h
  | succ n ih =>
    rw [membersWithin] at h
    split at h
    · cases h
    · next hnone =>
      obtain ⟨rfl, rfl⟩ := Prod.mk.inj (Except.ok.inj h)
      have hbrace := closeObject_eq_ok_iff.mp hclose
      rw [← skipSpace_of_nextKey hnone, skipSpace_skipSpace] at hbrace
      exact exists_skipRest_closing hbrace hfuel
    · next hkey =>
      split at h
      · cases h
      · next hread =>
        obtain ⟨left, a, hcolon, ha⟩ := hstep hread
        have hleft := ((consumes_colon hcolon).trans (consumes_nextKey _ hkey)).length_le
        obtain ⟨fuel', hfuel', heq⟩ := hitem ha (.object :: frames) (by omega : left.length < fuel)
        rw [skipRest_member hkey hcolon, heq]
        exact ih h hfuel'

/-- A member that is gathered has its value behind the colon. -/
theorem exists_of_member {distinct : Bool} {value : Reader Value} {done ms : List (String × Value)}
    {k : String} (h : member distinct value done k input = .ok (ms, rest)) :
    ∃ left v, colon input = .ok ((), left) ∧ value left = .ok (v, rest) := by
  unfold member at h
  split at h
  · cases h
  split at h
  · cases h
  next hcolon =>
  split at h
  · cases h
  next hvalue =>
  obtain ⟨-, rfl⟩ := Prod.mk.inj (Except.ok.inj h)
  exact ⟨_, _, hcolon, hvalue⟩

/-- A scalar is passed over. -/
theorem exists_skipRest_scalar {b : UInt8} {left : List UInt8} {v : Value}
    (hskip : skipSpace input = b :: left) (hbracket : b ≠ ascii '[') (hbrace : b ≠ ascii '\x7b')
    (h : scalar b left = .ok (v, rest)) (hfuel : input.length < fuel) :
    ∃ k, rest.length < k ∧ skipWithin fuel frames input = skipRest k false frames rest := by
  obtain ⟨k, rfl⟩ := Nat.exists_eq_add_of_le' (show 1 ≤ fuel by omega)
  have hrest := (suffix_of_scalar h).length_le
  have hfront := (hskip ▸ skipSpace_suffix input : b :: left <:+ input).length_le
  rw [List.length_cons] at hfront
  exact ⟨k, by omega, skipWithin_scalar hskip hbracket hbrace (skipScalar_of_scalar h)⟩

/-- **A value is passed over wherever it is read.** -/
theorem isSkipped_value (distinct : Bool) (depth : Depth) : IsSkipped (value distinct depth) := by
  induction depth with
  | zero =>
    intro input v rest h fuel frames hfuel
    rw [value] at h
    split at h
    · cases h
    next b left hskip =>
    split at h
    · cases h
    next hb =>
    obtain ⟨hbracket, hbrace⟩ := not_or.mp hb
    exact exists_skipRest_scalar hskip hbracket hbrace h hfuel
  | succ depth ih =>
    intro input v rest h fuel frames hfuel
    rw [value] at h
    split at h
    · cases h
    next b left hskip =>
    have hfront := (hskip ▸ skipSpace_suffix input : b :: left <:+ input).length_le
    rw [List.length_cons] at hfront
    obtain ⟨k, rfl⟩ := Nat.exists_eq_add_of_le' (show 1 ≤ fuel by omega)
    split at h
    · next hb =>
      split at h
      · cases h
      next items behind hitems =>
      obtain ⟨-, rfl⟩ := Prod.mk.inj (Except.ok.inj h)
      obtain ⟨inner, hinside, hclose⟩ := bracketed_eq_ok_iff.mp hitems
      rw [skipWithin_bracket (hb ▸ hskip)]
      exact exists_skipRest_items ih (readsItems_of_elementsWithin hinside) hclose (by omega)
    next hbracket =>
    split at h
    · next hb =>
      split at h
      · cases h
      next ms behind hms =>
      obtain ⟨-, rfl⟩ := Prod.mk.inj (Except.ok.inj h)
      obtain ⟨inner, hinside, hclose⟩ := braced_eq_ok_iff.mp hms
      rw [skipWithin_brace (hb ▸ hskip)]
      exact exists_skipRest_members ih exists_of_member hinside hclose (by omega)
    next hbrace =>
    exact exists_skipRest_scalar hskip hbracket hbrace h hfuel

/-- **A value that is read can be passed over**, up to the same byte. -/
theorem skip_of_value {distinct : Bool} {depth : Depth} {v : Value}
    (h : value distinct depth input = .ok (v, rest)) : skip input = .ok ((), rest) := by
  obtain ⟨left, -, heq⟩ := isSkipped_value distinct depth h [] (Nat.lt_succ_self _)
  rw [skip, heq]
  rfl

end

end Json

end SealedLedger
