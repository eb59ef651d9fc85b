import SealedLedger.Json.Reader
import SealedLedger.Proofs.Json.Numerals

/-!
# Readers take bytes off the front

Where a reader of JSON returns a result, the bytes that it leaves are the end of those that it was
given. An element of an array has a comma in front of it, or else it is the first, so an array has
no more elements than bytes. The allowance that its reader is given is therefore never used up, and
what the reader does can be said without it.

## Main definitions

* `Json.Consumes` — a reader leaves the end of its input
* `Json.ReadsItems` — the elements up to the end of an array, one after another

## Main results

* `Json.consumes_value` — the reader of values leaves the end of its input
* `Json.elements_eq_ok_iff` — the reader of an array, without its allowance
-/

namespace SealedLedger

namespace Json

/-! ### Steps of a reader -/

theorem exists_of_bind {α β : Type} {x : Reader α} {f : α → Reader β} {input rest : List UInt8}
    {b : β} (h : (x >>= f) input = .ok (b, rest)) :
    ∃ a left, x input = .ok (a, left) ∧ f a left = .ok (b, rest) := by
  change (x input).bind _ = _ at h
  cases hx : x input with
  | error stop =>
    rw [hx] at h
    cases h
  | ok p =>
    rw [hx] at h
    exact ⟨p.1, p.2, rfl, h⟩

theorem eq_of_pure {α : Type} {input rest : List UInt8} {a b : α}
    (h : (pure a : Reader α) input = .ok (b, rest)) : a = b ∧ input = rest :=
  Prod.mk.inj (Except.ok.inj h)

/-- Where the reader returns a result, what it leaves is the end of its input. -/
def Consumes {α : Type} (r : Reader α) : Prop :=
  ∀ ⦃input a rest⦄, r input = .ok (a, rest) → rest <:+ input

theorem suffix_of_ok {α : Type} {a b : α} {left rest input : List UInt8}
    (h : (Except.ok (a, left) : Except Stop (α × List UInt8)) = .ok (b, rest))
    (hleft : left <:+ input) : rest <:+ input :=
  (Prod.mk.inj (Except.ok.inj h)).2 ▸ hleft

theorem skipSpace_suffix (input : List UInt8) : skipSpace input <:+ input :=
  List.dropWhile_suffix isSpace

theorem suffix_of_skipSpace {input rest : List UInt8} {b : UInt8}
    (h : skipSpace input = b :: rest) : rest <:+ input :=
  (List.suffix_cons b rest).trans (h ▸ skipSpace_suffix input)

/-! ### Words and strings -/

theorem consumes_word (letters : List Char) : Consumes (word letters) := by
  induction letters with
  | nil =>
    intro input a rest h
    exact suffix_of_ok h List.suffix_rfl
  | cons c cs ih =>
    intro input a rest h
    cases input with
    | nil => cases h
    | cons b input =>
      rw [word] at h
      split at h
      · exact (ih h).trans (List.suffix_cons b input)
      · cases h

theorem consumes_codeUnit : Consumes codeUnit := by
  intro input n rest h
  unfold codeUnit at h
  split at h
  · split at h
    · exact suffix_of_ok h ⟨[_, _, _, _], rfl⟩
    · cases h
  · cases h

theorem consumes_trailingUnit : Consumes trailingUnit := by
  intro input n rest h
  unfold trailingUnit at h
  split at h
  · cases h
  split at h
  · split at h
    · cases h
    split at h
    · split at h
      · cases h
      · next hunit =>
        split at h
        · exact suffix_of_ok h ((consumes_codeUnit hunit).trans ⟨[_, _], rfl⟩)
        · cases h
    · cases h
  · cases h

theorem consumes_codePoint : Consumes codePoint := by
  intro input c rest h
  unfold codePoint at h
  split at h
  · cases h
  · next hunit =>
    split at h
    · cases h
    split at h
    · split at h
      · cases h
      · next htrailing =>
        exact suffix_of_ok h ((consumes_trailingUnit htrailing).trans (consumes_codeUnit hunit))
    · exact suffix_of_ok h (consumes_codeUnit hunit)

theorem consumes_escape : Consumes escape := by
  intro input c rest h
  unfold escape at h
  split at h
  · cases h
  split at h
  · exact suffix_of_ok h (List.suffix_cons ..)
  split at h
  · exact (consumes_codePoint h).trans (List.suffix_cons ..)
  · cases h

theorem consumes_stringBytesWithin (fuel : Nat) : Consumes (stringBytesWithin fuel) := by
  induction fuel with
  | zero =>
    intro input bytes rest h
    cases h
  | succ fuel ih =>
    intro input bytes rest h
    cases input with
    | nil => cases h
    | cons b input =>
      have hstep := List.suffix_cons b input
      rw [stringBytesWithin] at h
      split at h
      · exact suffix_of_ok h hstep
      split at h
      · split at h
        · cases h
        · next hescape =>
          split at h
          · cases h
          · next hmore =>
            exact suffix_of_ok h (((ih hmore).trans (consumes_escape hescape)).trans hstep)
      split at h
      · cases h
      split at h
      · cases h
      · next hmore => exact suffix_of_ok h ((ih hmore).trans hstep)

theorem consumes_string : Consumes string := by
  intro input s rest h
  unfold string at h
  split at h
  · cases h
  · next hbytes =>
    split at h
    · exact suffix_of_ok h (consumes_stringBytesWithin _ hbytes)
    · cases h

/-! ### Numbers -/

/-- A number is what a numeral stands for. -/
theorem exists_numeral_of_number {input rest : List UInt8} {n : Number}
    (h : number input = .ok (n, rest)) :
    ∃ t, numeral .endInValue input = .ok (t, rest) ∧ t.number? = some n := by
  unfold number at h
  split at h
  · cases h
  · next t _ hnumeral =>
    split at h
    · next hn =>
      obtain ⟨rfl, rfl⟩ := Prod.mk.inj (Except.ok.inj h)
      exact ⟨t, hnumeral, hn⟩
    · cases h

/-- A number takes its first byte. -/
theorem suffix_of_number {b : UInt8} {input rest : List UInt8} {n : Number}
    (h : number (b :: input) = .ok (n, rest)) : rest <:+ input := by
  obtain ⟨t, hnumeral, -⟩ := exists_numeral_of_number h
  obtain ⟨ht, mark, plus, -, heq⟩ := exists_spelling_of_numeral hnumeral
  have hne : Utf8.encode (t.spelling mark plus) ≠ [] := by
    intro hnil
    have hlength := Utf8.length_le_length_encode (t.spelling mark plus)
    rw [hnil] at hlength
    have hspelling := List.length_eq_zero_iff.mp (Nat.le_zero.mp hlength)
    simp [Numeral.spelling, ht.whole_ne_nil] at hspelling
  obtain ⟨c, more, hmore⟩ := List.exists_cons_of_ne_nil hne
  rw [hmore, List.cons_append] at heq
  exact ⟨more, (List.cons.inj heq).2.symm⟩

/-! ### Arrays -/

section

variable {α : Type} {item : Reader α} {first more : Bool} {input rest : List UInt8} {as : List α}

/-- Whether an element follows is known at a byte. -/
theorem exists_cons_of_moreElements (h : moreElements first input = .ok (more, rest)) :
    (∃ b left, rest = b :: left) ∧ rest <:+ input := by
  unfold moreElements at h
  split at h
  · cases h
  · next b left hskip =>
    have hfront : b :: left <:+ input := hskip ▸ skipSpace_suffix input
    split at h
    · obtain ⟨-, rfl⟩ := Prod.mk.inj (Except.ok.inj h)
      exact ⟨⟨b, left, rfl⟩, hfront⟩
    split at h
    · obtain ⟨-, rfl⟩ := Prod.mk.inj (Except.ok.inj h)
      exact ⟨⟨b, left, rfl⟩, hfront⟩
    split at h
    · split at h
      · cases h
      · next c behind hcomma =>
        split at h
        · cases h
        · obtain ⟨-, rfl⟩ := Prod.mk.inj (Except.ok.inj h)
          exact ⟨⟨c, behind, rfl⟩,
            (hcomma ▸ skipSpace_suffix left).trans (suffix_of_skipSpace hskip)⟩
    · cases h

/-- An element that is not the first has a comma in front of it. -/
theorem length_lt_of_moreElements (h : moreElements false input = .ok (true, rest)) :
    rest.length < input.length := by
  unfold moreElements at h
  split at h
  · cases h
  · next b left hskip =>
    have hfront := (hskip ▸ skipSpace_suffix input : b :: left <:+ input).length_le
    split at h
    · cases h
    split at h
    · next hfirst => exact absurd hfirst Bool.false_ne_true
    split at h
    · split at h
      · cases h
      · next c behind hcomma =>
        split at h
        · cases h
        · obtain ⟨-, rfl⟩ := Prod.mk.inj (Except.ok.inj h)
          have hbehind := (hcomma ▸ skipSpace_suffix left : c :: behind <:+ left).length_le
          exact Nat.lt_of_le_of_lt hbehind hfront
    · cases h

theorem nextElement_eq_some_iff {a : α} :
    nextElement first item input = .ok (some a, rest) ↔
      ∃ left, moreElements first input = .ok (true, left) ∧ item left = .ok (a, rest) := by
  unfold nextElement
  constructor
  · intro h
    split at h
    · cases h
    · cases h
    · next left hmore =>
      split at h
      · cases h
      · next hitem =>
        obtain ⟨ha, rfl⟩ := Prod.mk.inj (Except.ok.inj h)
        rw [Option.some.inj ha] at hitem
        exact ⟨left, hmore, hitem⟩
  · rintro ⟨left, hmore, hitem⟩
    simp only [hmore, hitem]

theorem nextElement_eq_none_iff :
    nextElement first item input = .ok (none, rest) ↔
      moreElements first input = .ok (false, rest) := by
  unfold nextElement
  constructor
  · intro h
    split at h
    · cases h
    · next hmore =>
      obtain ⟨-, rfl⟩ := Prod.mk.inj (Except.ok.inj h)
      exact hmore
    · split at h
      · cases h
      · cases h
  · intro h
    simp only [h]

variable (item) in
/-- The elements up to the end of an array, one after another. -/
inductive ReadsItems : Bool → List UInt8 → List α → List UInt8 → Prop
  | nil {first : Bool} {input rest : List UInt8}
      (stop : nextElement first item input = .ok (none, rest)) : ReadsItems first input [] rest
  | cons {first : Bool} {input left rest : List UInt8} {a : α} {as : List α}
      (next : nextElement first item input = .ok (some a, left))
      (more : ReadsItems false left as rest) : ReadsItems first input (a :: as) rest

theorem readsItems_of_elementsWithin {fuel : Nat}
    (h : elementsWithin item fuel first input = .ok (as, rest)) :
    ReadsItems item first input as rest := by
  induction fuel generalizing first input as with
  | zero => cases h
  | succ fuel ih =>
    rw [elementsWithin] at h
    split at h
    · cases h
    · next hnone =>
      obtain ⟨rfl, rfl⟩ := Prod.mk.inj (Except.ok.inj h)
      exact .nil hnone
    · next hsome =>
      split at h
      · cases h
      · next hmore =>
        obtain ⟨rfl, rfl⟩ := Prod.mk.inj (Except.ok.inj h)
        exact .cons hsome (ih hmore)

theorem ReadsItems.elementsWithin_eq (h : ReadsItems item first input as rest) {fuel : Nat}
    (hfuel : as.length < fuel) : elementsWithin item fuel first input = .ok (as, rest) := by
  induction h generalizing fuel with
  | nil hnone =>
    obtain ⟨k, rfl⟩ := Nat.exists_eq_add_of_le' (show 1 ≤ fuel by omega)
    rw [elementsWithin, hnone]
  | cons hsome _ ih =>
    obtain ⟨k, rfl⟩ := Nat.exists_eq_add_of_le' (show 1 ≤ fuel by omega)
    rw [elementsWithin, hsome]
    simp only [ih (show _ < k by simpa using hfuel)]

theorem ReadsItems.suffix (hitem : Consumes item) (h : ReadsItems item first input as rest) :
    rest <:+ input := by
  induction h with
  | nil hnone => exact (exists_cons_of_moreElements (nextElement_eq_none_iff.mp hnone)).2
  | cons hsome _ ih =>
    obtain ⟨left, hmore, hread⟩ := nextElement_eq_some_iff.mp hsome
    exact ih.trans ((hitem hread).trans (exists_cons_of_moreElements hmore).2)

/-- Behind the first element an array has fewer elements than bytes. -/
theorem ReadsItems.length_lt (hitem : Consumes item) (h : ReadsItems item false input as rest) :
    as.length < input.length := by
  generalize hfirst : false = first at h
  induction h with
  | nil hnone =>
    obtain ⟨⟨b, left, rfl⟩, hrest⟩ :=
      exists_cons_of_moreElements (nextElement_eq_none_iff.mp hnone)
    exact Nat.lt_of_lt_of_le (Nat.zero_lt_succ left.length) hrest.length_le
  | cons hsome _ ih =>
    subst hfirst
    obtain ⟨left, hmore, hread⟩ := nextElement_eq_some_iff.mp hsome
    have hcomma := length_lt_of_moreElements hmore
    have hleft := (hitem hread).length_le
    have hlater := ih rfl
    rw [List.length_cons]
    omega

/-- **The reader of an array, without its allowance.** -/
theorem elements_eq_ok_iff (hitem : Consumes item) :
    elements item input = .ok (as, rest) ↔ ReadsItems item true input as rest := by
  refine ⟨readsItems_of_elementsWithin, fun h => h.elementsWithin_eq ?_⟩
  -- no comma stands in front of the first element, so it is counted apart from the others
  cases h with
  | nil => exact Nat.zero_lt_succ _
  | cons hsome hlater =>
    obtain ⟨left, hmore, hread⟩ := nextElement_eq_some_iff.mp hsome
    have hleft := (hitem hread).length_le
    have hfront := (exists_cons_of_moreElements hmore).2.length_le
    have hlater := hlater.length_lt hitem
    rw [List.length_cons]
    omega

theorem consumes_elements (hitem : Consumes item) : Consumes (elements item) :=
  fun _ _ _ h => ((elements_eq_ok_iff hitem).mp h).suffix hitem

theorem closeArray_eq_ok_iff : closeArray input = .ok ((), rest) ↔
    skipSpace input = ascii ']' :: rest := by
  unfold closeArray
  constructor
  · intro h
    split at h
    · cases h
    · next b left hskip =>
      split at h
      · next hb =>
        obtain ⟨-, rfl⟩ := Prod.mk.inj (Except.ok.inj h)
        rw [hskip, hb]
      split at h
      · split at h
        · cases h
        · cases h
      · cases h
  · intro h
    simp only [h, if_true]

theorem bracketed_eq_ok_iff {inside : Reader α} {a : α} :
    bracketed inside input = .ok (a, rest) ↔
      ∃ left, inside input = .ok (a, left) ∧ closeArray left = .ok ((), rest) := by
  unfold bracketed
  constructor
  · intro h
    split at h
    · cases h
    · next left hinside =>
      split at h
      · cases h
      · next hclose =>
        obtain ⟨rfl, rfl⟩ := Prod.mk.inj (Except.ok.inj h)
        exact ⟨left, hinside, hclose⟩
  · rintro ⟨left, hinside, hclose⟩
    simp only [hinside, hclose]

theorem consumes_bracketed {inside : Reader α} (hinside : Consumes inside) :
    Consumes (bracketed inside) := by
  intro input a rest h
  obtain ⟨left, hread, hclose⟩ := bracketed_eq_ok_iff.mp h
  exact (suffix_of_skipSpace (closeArray_eq_ok_iff.mp hclose)).trans (hinside hread)

end

/-! ### Objects -/

section

variable {σ : Type} {step : σ → String → Reader σ}

theorem consumes_key : Consumes nextKey.key := by
  intro input k rest h
  unfold nextKey.key at h
  split at h
  · cases h
  · next hstring => exact suffix_of_ok h (consumes_string hstring)

theorem consumes_nextKey (first : Bool) : Consumes (nextKey first) := by
  intro input k rest h
  unfold nextKey at h
  split at h
  · cases h
  · next b left hskip =>
    have hleft := suffix_of_skipSpace hskip
    split at h
    · exact suffix_of_ok h (hskip ▸ skipSpace_suffix input)
    split at h
    · split at h
      · exact (consumes_key h).trans hleft
      · cases h
    split at h
    · split at h
      · cases h
      · next hcomma =>
        split at h
        · exact (consumes_key h).trans ((suffix_of_skipSpace hcomma).trans hleft)
        split at h
        · cases h
        · cases h
    · cases h

theorem consumes_colon : Consumes colon := by
  intro input a rest h
  unfold colon at h
  split at h
  · cases h
  · next hskip =>
    split at h
    · exact suffix_of_ok h (suffix_of_skipSpace hskip)
    · cases h

theorem consumes_members (hstep : ∀ s k, Consumes (step s k)) (start : σ) :
    Consumes (members step start) := by
  have hwithin : ∀ fuel first s, Consumes (membersWithin step fuel first s) := by
    intro fuel
    induction fuel with
    | zero =>
      intro first s input s' rest h
      cases h
    | succ fuel ih =>
      intro first s input s' rest h
      rw [membersWithin] at h
      split at h
      · cases h
      · next hnone => exact suffix_of_ok h (consumes_nextKey first hnone)
      · next hsome =>
        split at h
        · cases h
        · next hread =>
          exact (ih false _ h).trans ((hstep _ _ hread).trans (consumes_nextKey first hsome))
  exact fun input s rest h => hwithin _ _ _ h

theorem closeObject_eq_ok_iff {input rest : List UInt8} : closeObject input = .ok ((), rest) ↔
    skipSpace input = ascii '\x7d' :: rest := by
  unfold closeObject
  constructor
  · intro h
    split at h
    · cases h
    · next b left hskip =>
      split at h
      · next hb =>
        obtain ⟨-, rfl⟩ := Prod.mk.inj (Except.ok.inj h)
        rw [hskip, hb]
      · cases h
  · intro h
    simp only [h, if_true]

theorem braced_eq_ok_iff {α : Type} {inside : Reader α} {input rest : List UInt8} {a : α} :
    braced inside input = .ok (a, rest) ↔
      ∃ left, inside input = .ok (a, left) ∧ closeObject left = .ok ((), rest) := by
  unfold braced
  constructor
  · intro h
    split at h
    · cases h
    · next left hinside =>
      split at h
      · cases h
      · next hclose =>
        obtain ⟨rfl, rfl⟩ := Prod.mk.inj (Except.ok.inj h)
        exact ⟨left, hinside, hclose⟩
  · rintro ⟨left, hinside, hclose⟩
    simp only [hinside, hclose]

theorem consumes_braced {α : Type} {inside : Reader α} (hinside : Consumes inside) :
    Consumes (braced inside) := by
  intro input a rest h
  obtain ⟨left, hread, hclose⟩ := braced_eq_ok_iff.mp h
  exact (suffix_of_skipSpace (closeObject_eq_ok_iff.mp hclose)).trans (hinside hread)

theorem consumes_member {distinct : Bool} {item : Reader Value} (hitem : Consumes item)
    (done : List (String × Value)) (k : String) : Consumes (member distinct item done k) := by
  intro input ms rest h
  unfold member at h
  split at h
  · cases h
  split at h
  · cases h
  · next hcolon =>
    split at h
    · cases h
    · next hread => exact suffix_of_ok h ((hitem hread).trans (consumes_colon hcolon))

end

/-! ### Values -/

theorem consumes_constant (letters : List Char) (v : Value) : Consumes (constant letters v) := by
  intro input w rest h
  unfold constant at h
  split at h
  · cases h
  · next hword => exact suffix_of_ok h (consumes_word letters hword)

/-- What stands behind the first byte of a scalar is all that may be left. -/
theorem suffix_of_scalar {b : UInt8} {input rest : List UInt8} {v : Value}
    (h : scalar b input = .ok (v, rest)) : rest <:+ input := by
  unfold scalar at h
  split at h
  · exact consumes_constant _ _ h
  split at h
  · exact consumes_constant _ _ h
  split at h
  · exact consumes_constant _ _ h
  split at h
  · split at h
    · cases h
    · next hstring => exact suffix_of_ok h (consumes_string hstring)
  split at h
  · split at h
    · cases h
    · next hnumber => exact suffix_of_ok h (suffix_of_number hnumber)
  · cases h

/-- **The reader of values leaves the end of its input.** -/
theorem consumes_value (distinct : Bool) (depth : Nat) : Consumes (value distinct depth) := by
  induction depth with
  | zero =>
    intro input v rest h
    rw [value] at h
    split at h
    · cases h
    · next hskip =>
      split at h
      · cases h
      · exact (suffix_of_scalar h).trans (suffix_of_skipSpace hskip)
  | succ depth ih =>
    intro input v rest h
    rw [value] at h
    split at h
    · cases h
    · next hskip =>
      have hleft := suffix_of_skipSpace hskip
      split at h
      · split at h
        · cases h
        · next hread =>
          exact suffix_of_ok h ((consumes_bracketed (consumes_elements ih) hread).trans hleft)
      split at h
      · split at h
        · cases h
        · next hread =>
          exact suffix_of_ok h
            ((consumes_braced (consumes_members (consumes_member ih) []) hread).trans hleft)
      · exact (suffix_of_scalar h).trans (suffix_of_skipSpace hskip)

/-! ### Whole texts -/

/-- **A whole text is taken** when its reader leaves white space only. -/
theorem whole_eq_ok_iff {α : Type} {r : Reader α} {input : List UInt8} {a : α} :
    whole r input = .ok a ↔ ∃ rest, r input = .ok (a, rest) ∧ skipSpace rest = [] := by
  constructor
  · intro h
    rw [whole] at h
    split at h
    · cases h
    · next b rest hread =>
      split at h
      · next hend =>
        obtain rfl := Except.ok.inj h
        exact ⟨rest, hread, hend⟩
      · cases h
  · rintro ⟨rest, hread, hend⟩
    rw [whole, hread]
    simp only [hend]

end Json

end SealedLedger
