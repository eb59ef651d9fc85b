import Mathlib.Data.List.Forall2
import SealedLedger.Proofs.Json.Consumption
import SealedLedger.Proofs.Json.Records

/-!
# Two readers of one text

A record is read from a text by readers that know its fields, and the same text is read by the
reader of values, which does not. Wherever the first succeeds the second does too, leaves the same
bytes, and returns a value that is related to the record. This is shown for each combinator with any
relation of the items, so that a record is compared with its value field by field.

An array that holds a record is read by position, and as an array of values. Both readings go
through the same elements, and the second one then finds the end that the first one has left.

## Main definitions

* `Json.Refines` — one reader follows another, with results in a relation

## Main results

* `Json.Refines.elements`, `Json.Refines.members` — the inside of containers
* `Json.refines_text`, `Json.refines_spelled`, `Json.refines_natural` — fields and values
* `Json.refines_sequence`, `Json.refines_record` — containers and values
-/

namespace SealedLedger

namespace Json

/-! ### Readers that follow one another -/

/-- What the first reader takes for some result, the second one takes for a related result, and it
leaves the same bytes. -/
def Refines {α β : Type} (R : α → β → Prop) (r : Reader α) (r' : Reader β) : Prop :=
  ∀ ⦃input a rest⦄, r input = .ok (a, rest) → ∃ b, r' input = .ok (b, rest) ∧ R a b

section

variable {α β γ : Type} {R : α → β → Prop} {r : Reader α} {r' : Reader β}

theorem Refines.refl (r : Reader α) : Refines Eq r r :=
  fun _ a _ h => ⟨a, h, rfl⟩

theorem Refines.map {S : γ → β → Prop} {f : α → γ} (h : Refines R r r')
    (hf : ∀ a b, R a b → S (f a) b) : Refines S (do return f (← r)) r' := by
  intro input c rest hread
  obtain ⟨a, left, hr, hpure⟩ := exists_of_bind hread
  obtain ⟨rfl, rfl⟩ := eq_of_pure hpure
  obtain ⟨b, hb, hab⟩ := h hr
  exact ⟨b, hb, hf a b hab⟩

/-- A whole text that one reader takes is taken by the other. -/
theorem Refines.whole (h : Refines R r r') {input : List UInt8} {a : α}
    (hread : Json.whole r input = .ok a) : ∃ b, Json.whole r' input = .ok b ∧ R a b := by
  obtain ⟨rest, hr, hend⟩ := whole_eq_ok_iff.mp hread
  obtain ⟨b, hb, hab⟩ := h hr
  exact ⟨b, whole_eq_ok_iff.mpr ⟨rest, hb, hend⟩, hab⟩

end

/-! ### The inside of containers -/

section

variable {α β : Type} {R : α → β → Prop} {item : Reader α} {item' : Reader β} {first : Bool}
  {input rest : List UInt8}

theorem Refines.nextElement (h : Refines R item item') {a : α}
    (hread : Json.nextElement first item input = .ok (some a, rest)) :
    ∃ b, Json.nextElement first item' input = .ok (some b, rest) ∧ R a b := by
  obtain ⟨left, hmore, hitem⟩ := nextElement_eq_some_iff.mp hread
  obtain ⟨b, hb, hab⟩ := h hitem
  exact ⟨b, nextElement_eq_some_iff.mpr ⟨left, hmore, hb⟩, hab⟩

theorem Refines.elements (h : Refines R item item') :
    Refines (List.Forall₂ R) (Json.elements item) (Json.elements item') := by
  -- the allowance comes from the input, so both readers have the same
  have key : ∀ fuel first,
      Refines (List.Forall₂ R) (elementsWithin item fuel first)
        (elementsWithin item' fuel first) := by
    intro fuel
    induction fuel with
    | zero =>
      intro first input as rest hread
      cases hread
    | succ fuel ih =>
      intro first input as rest hread
      rw [elementsWithin] at hread
      split at hread
      · cases hread
      · next hnone =>
        obtain ⟨rfl, rfl⟩ := Prod.mk.inj (Except.ok.inj hread)
        refine ⟨[], ?_, .nil⟩
        rw [elementsWithin, nextElement_eq_none_iff.mpr (nextElement_eq_none_iff.mp hnone)]
      · next hsome =>
        split at hread
        · cases hread
        · next hmore =>
          obtain ⟨rfl, rfl⟩ := Prod.mk.inj (Except.ok.inj hread)
          obtain ⟨b, hb, hab⟩ := h.nextElement hsome
          obtain ⟨bs, hbs, hall⟩ := ih _ hmore
          refine ⟨b :: bs, ?_, .cons hab hall⟩
          rw [elementsWithin, hb]
          simp only [hbs]
  exact fun input as rest hread => key _ _ hread

theorem Refines.bracketed {inside : Reader α} {inside' : Reader β} (h : Refines R inside inside') :
    Refines R (Json.bracketed inside) (Json.bracketed inside') := by
  intro input a rest hread
  obtain ⟨left, hinside, hclose⟩ := bracketed_eq_ok_iff.mp hread
  obtain ⟨b, hb, hab⟩ := h hinside
  exact ⟨b, bracketed_eq_ok_iff.mpr ⟨left, hb, hclose⟩, hab⟩

theorem Refines.braced {inside : Reader α} {inside' : Reader β} (h : Refines R inside inside') :
    Refines R (Json.braced inside) (Json.braced inside') := by
  intro input a rest hread
  obtain ⟨left, hinside, hclose⟩ := braced_eq_ok_iff.mp hread
  obtain ⟨b, hb, hab⟩ := h hinside
  exact ⟨b, braced_eq_ok_iff.mpr ⟨left, hb, hclose⟩, hab⟩

/-- Members are gathered into related states by steps that keep the states related. -/
theorem Refines.members {σ τ : Type} {S : σ → τ → Prop} {step : σ → String → Reader σ}
    {step' : τ → String → Reader τ} (hstep : ∀ s t k, S s t → Refines S (step s k) (step' t k))
    {start : σ} {start' : τ} (hstart : S start start') :
    Refines S (Json.members step start) (Json.members step' start') := by
  -- the allowance comes from the input, so both readers have the same
  have key : ∀ fuel first s t, S s t →
      Refines S (membersWithin step fuel first s) (membersWithin step' fuel first t) := by
    intro fuel
    induction fuel with
    | zero =>
      intro first s t hst input s' rest hread
      cases hread
    | succ fuel ih =>
      intro first s t hst input s' rest hread
      rw [membersWithin] at hread
      split at hread
      · cases hread
      · next hkey =>
        obtain ⟨rfl, rfl⟩ := Prod.mk.inj (Except.ok.inj hread)
        exact ⟨t, by rw [membersWithin, hkey], hst⟩
      · next hkey =>
        split at hread
        · cases hread
        · next hs =>
          obtain ⟨t', ht', hst'⟩ := hstep _ _ _ hst hs
          obtain ⟨t'', ht'', hst''⟩ := ih _ _ _ hst' hread
          refine ⟨t'', ?_, hst''⟩
          rw [membersWithin, hkey]
          simp only [ht', ht'']
  exact fun input s rest hread => key _ _ _ _ hstart hread

end

/-! ### Fields and values -/

section

variable {distinct : Bool} {depth : Depth}

/-- A string is a value of that text. -/
theorem refines_text (expected : String) :
    Refines (fun s v => v = .string s) (text expected) (value distinct depth) := by
  intro input s rest h
  unfold text at h
  split at h
  · cases h
  · next b left hskip =>
    split at h
    · next hb =>
      subst hb
      refine ⟨.string s, ?_, rfl⟩
      rw [← value_skipSpace, hskip, value_eq_scalar (by decide) (by decide) (by decide), scalar,
        if_neg (by decide), if_neg (by decide), if_neg (by decide), if_pos rfl, h]
    · cases h

/-- A string that spells data of one text only is a value of that text. -/
theorem refines_spelled {α : Type} {read : String → Except String α} {write : α → String}
    (hread : ∀ s a, read s = .ok a → write a = s) :
    Refines (fun a v => v = .string (write a)) (spelled read) (value distinct depth) := by
  intro input a rest h
  unfold spelled at h
  split at h
  · cases h
  · next s left htext =>
    split at h
    · next hs =>
      obtain ⟨rfl, rfl⟩ := Prod.mk.inj (Except.ok.inj h)
      obtain ⟨v, hv, rfl⟩ := refines_text "a string" htext
      exact ⟨_, hv, congrArg Value.string (hread s _ hs).symm⟩
    · cases h

/-- A number that is an unsigned word was written as that word. -/
theorem Numeral.eq_ofUInt64_of_number? {t : Numeral} {n : Number} {u : UInt64}
    (hn : t.number? = some n) (hu : n.natural? = some u) : n = .ofUInt64 u := by
  unfold Numeral.number? at hn
  split at hn
  · split at hn
    · split at hn
      · next hword =>
        rw [← Option.some.inj hn, Number.natural?_negative hword] at hu
        cases hu
      · rw [← Option.some.inj hn] at hu
        cases hu
    · rw [← Option.some.inj hn, Number.natural?_ofUInt64] at hu
      rw [← Option.some.inj hn, Option.some.inj hu]
  · obtain ⟨x, -, rfl⟩ := Option.map_eq_some_iff.mp hn
    cases hu

/-- An unsigned word is a value of that number. -/
theorem refines_natural :
    Refines (fun u v => v = .ofUInt64 u) natural (value distinct depth) := by
  intro input u rest h
  unfold natural at h
  split at h
  · cases h
  · next b left hskip =>
    split at h
    · next hb =>
      split at h
      · cases h
      · next n behind hnumber =>
        split at h
        · next hu =>
          obtain ⟨rfl, rfl⟩ := Prod.mk.inj (Except.ok.inj h)
          obtain ⟨t, -, hn⟩ := exists_numeral_of_number hnumber
          obtain ⟨hnumeric, hspace, -, hbracket, hbrace, hnull, htrue, hfalse, hquote⟩ :=
            BeginsNumber.ne (hb.elim .inl beginsNumber_of_digit?)
          refine ⟨.number n, ?_, congrArg Value.number (Numeral.eq_ofUInt64_of_number? hn hu)⟩
          rw [← value_skipSpace, hskip, value_eq_scalar hspace hbracket hbrace, scalar,
            if_neg hnull, if_neg htrue, if_neg hfalse, if_neg hquote, if_pos hnumeric, hnumber]
        · split at h
          · cases h
          · cases h
    · cases h

/-! ### Containers and values -/

/-- **An array of records is an array of values**, each related to its record. -/
theorem refines_sequence {α : Type} {R : α → Value → Prop} {item : Depth → Reader α}
    (h : Refines R (item depth) (value distinct depth)) :
    Refines (fun as v => ∃ vs, v = .array vs ∧ List.Forall₂ R as vs) (sequence item (depth + 1))
      (value distinct (depth + 1)) := by
  intro input as rest hread
  unfold sequence at hread
  split at hread
  · cases hread
  · next b left hskip =>
    split at hread
    · next hb =>
      obtain ⟨vs, hvs, hall⟩ := h.elements.bracketed hread
      refine ⟨.array vs, ?_, vs, rfl, hall⟩
      rw [value, hskip]
      simp only [hb, if_true, hvs]
    · cases hread

/-- **A record is a value** related to it, when both of its forms are. -/
theorem refines_record {α : Type} {R : α → Value → Prop} {expected : String}
    {inArray inObject : Depth → Reader α}
    (harray : Refines (fun a vs => R a (.array vs)) (bracketed (inArray depth))
      (bracketed (elements (value distinct depth))))
    (hobject : Refines (fun a ms => R a (.object ms)) (inObject depth)
      (members (member distinct (value distinct depth)) [])) :
    Refines R (record expected inArray inObject (depth + 1)) (value distinct (depth + 1)) := by
  intro input a rest hread
  unfold record at hread
  split at hread
  · cases hread
  · next b left hskip =>
    split at hread
    · next hb =>
      obtain ⟨vs, hvs, hrel⟩ := harray hread
      refine ⟨.array vs, ?_, hrel⟩
      rw [value, hskip]
      simp only [hb, if_true, hvs]
    split at hread
    · next hb =>
      obtain ⟨ms, hms, hrel⟩ := hobject.braced hread
      refine ⟨.object ms, ?_, hrel⟩
      rw [value, hskip]
      simp only [hb, show ascii '\x7b' ≠ ascii '[' by decide, if_true, if_false, hms]
    · cases hread

end

/-! ### Records stored as arrays -/

section

variable {α : Type} {R : α → Value → Prop} {item : Reader α} {fault : Fault}
  {depth : Depth} {input left rest : List UInt8}

/-- A field that may not be missing is the element at its position. -/
theorem nextElement_of_positional {position : Nat} {a : α}
    (h : positional position item (.error fault) input = .ok (a, rest)) :
    nextElement (position == 0) item input = .ok (some a, rest) := by
  unfold positional at h
  split at h
  · cases h
  · next hnext =>
    obtain ⟨rfl, rfl⟩ := Prod.mk.inj (Except.ok.inj h)
    exact hnext
  · cases h

/-- Where an array can be left, its elements end. -/
theorem readsItems_nil_of_closeArray {β : Type} (item : Reader β) {first : Bool}
    (h : closeArray left = .ok ((), rest)) : ReadsItems item first left [] (ascii ']' :: rest) := by
  refine .nil (nextElement_eq_none_iff.mpr ?_)
  unfold moreElements
  rw [closeArray_eq_ok_iff.mp h]
  simp only [if_true]

/-- Elements read one after another, up to the bracket, are an array. -/
theorem bracketed_elements_of_readsItems {β : Type} {item : Reader β} (hitem : Consumes item)
    {bs : List β} (h : ReadsItems item true input bs (ascii ']' :: rest)) :
    bracketed (elements item) input = .ok (bs, rest) := by
  refine bracketed_eq_ok_iff.mpr ⟨_, (elements_eq_ok_iff hitem).mpr h, ?_⟩
  rw [closeArray_eq_ok_iff, skipSpace_cons (by decide)]

end

end Json

end SealedLedger
