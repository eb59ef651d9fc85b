import SealedLedger.Proofs.Json.Refinement
import SealedLedger.Proofs.Json.Skipped
import SealedLedger.Proofs.Json.Strict
import SealedLedger.Proofs.Suite.Accepted
import SealedLedger.Proofs.Suite.Stored

/-!
# The outline of a suite

The text of a suite need not be one of a value, since the members of other names are passed over.
What it holds is therefore said by its outline: for each item that is an object the names of its
members, in their order and as often as they come, and with each the text of its value if that is a
string. The outline is made without any knowledge of test vectors.

Every suite that is read has an outline, since a vector is read in step with it. The fields that
have been read so far are those among the names that have been met.

## Main definitions

* `Json.outline?` — the outline of an array
* `TestVector.Draft.IsReadFrom` — a draft and the members it was read from
* `TestVector.IsOutlined` — the members of an object and the description read from them

## Main results

* `TestVector.refines_outlineItem` — a vector is read in step with its outline
* `Suite.exists_outline?` — a suite that is read has an outline
-/

namespace SealedLedger

/-! ### Outlines -/

namespace Json

/-- A member in an outline: its name, and the text of its value if that is a string. -/
abbrev Glimpse : Type := String × Option String

/-- Passes over a value. What is seen of it is the text of a string. -/
def glimpse : Reader (Option String) := fun input =>
  match skip input with
  | .error stop => .error stop
  | .ok ((), rest) =>
    match text "a string" input with
    | .error _ => .ok (none, rest)
    | .ok (s, _) => .ok (some s, rest)

/-- Gathers a member by its name and what is seen of its value. -/
def glimpseMember (done : List Glimpse) (key : String) : Reader (List Glimpse) := do
  colon
  return done ++ [(key, ← glimpse)]

/-- The members of an object, none for a value of another kind. -/
def outlineItem : Reader (Option (List Glimpse)) := fun input =>
  match skipSpace input with
  | [] => .error (.next .endInValue [])
  | b :: rest =>
    if b = ascii '\x7b' then (do return some (← braced (members glimpseMember []))) rest
    else (do skip; return none) (b :: rest)

/-- The outline of a text that is an array: the members of each item that is an object. -/
def outline? (input : List UInt8) : Except Error (List (Option (List Glimpse))) :=
  whole (sequence (fun _ => outlineItem) 1) input

/-! ### Values and their outlines -/

section

variable {α β : Type} {R : α → β → Prop} {input rest : List UInt8}

/-- A string that is read is seen. -/
theorem refines_glimpse_text : Refines (fun s t => t = some s) (text "a string") glimpse := by
  intro input s rest h
  have hvalue : Refines _ (text "a string") (value true 0) := refines_text "a string"
  obtain ⟨v, hv, -⟩ := hvalue h
  refine ⟨some s, ?_, rfl⟩
  rw [glimpse, skip_of_value hv]
  simp only [h]

theorem exists_glimpse_of_skip (h : skip input = .ok ((), rest)) :
    ∃ t, glimpse input = .ok (t, rest) := by
  rw [glimpse, h]
  cases text "a string" input with
  | error stop => exact ⟨none, rfl⟩
  | ok p => exact ⟨some p.1, rfl⟩

theorem refines_glimpse_value (depth : Depth) :
    Refines (fun _ _ => True) (value true depth) glimpse := by
  intro input v rest h
  obtain ⟨t, ht⟩ := exists_glimpse_of_skip (skip_of_value h)
  exact ⟨t, ht, trivial⟩

theorem glimpseMember_of_glimpse {done : List Glimpse} {key : String} {left : List UInt8}
    {t : Option String} (hcolon : colon input = .ok ((), left))
    (h : glimpse left = .ok (t, rest)) :
    glimpseMember done key input = .ok (done ++ [(key, t)], rest) := by
  rw [glimpseMember, bind_apply, hcolon]
  dsimp only
  rw [bind_apply, h]
  rfl

/-- Sequences of records are related when their items are. -/
theorem Refines.sequence {item : Depth → Reader α} {item' : Depth → Reader β} {depth depth' : Depth}
    (h : Refines R (item depth) (item' depth')) :
    Refines (List.Forall₂ R) (Json.sequence item (depth + 1))
      (Json.sequence item' (depth' + 1)) := by
  intro input as rest hread
  unfold Json.sequence at hread
  split at hread
  · cases hread
  next b left hskip =>
  split at hread
  · next hb =>
    rw [Json.sequence, hskip]
    simp only [if_pos hb]
    exact h.elements.bracketed hread
  · cases hread

end

end Json

namespace TestVector

open Json (Refines Glimpse)

variable {depth : Json.Depth} {d d' : Draft} {ms : List Glimpse} {v : TestVector}
  {input rest : List UInt8}

/-! ### Drafts -/

/-- The draft was read from these members: it has the fields that are among their names, and every
description among them is the one that it has. -/
structure Draft.IsReadFrom (d : Draft) (ms : List Glimpse) : Prop where
  has_iff : ∀ f, d.has f = true ↔ f.name ∈ ms.map Prod.fst
  description : ∀ t, (Field.description.name, t) ∈ ms → t = d.description

theorem Draft.isReadFrom_empty : Draft.empty.IsReadFrom [] where
  has_iff f := by cases f <;> decide
  description t h := by cases h

theorem Field.name_of_ofName? {k : String} {f : Field} (h : ofName? k = some f) : f.name = k := by
  simpa using List.find?_some h

theorem Field.name_injective : Function.Injective Field.name := by
  intro f g h
  have heq := ofName?_name f
  rw [h, ofName?_name] at heq
  exact (Option.some.inj heq).symm

/-- A field that is read is the one field more of its draft, and a description is what is seen of
it. -/
theorem refines_fieldReader (d : Draft) (f : Field) :
    Refines (fun d' t => (∀ g, d'.has g = (d.has g || g == f)) ∧
        d'.description = if f = .description then t else d.description)
      (fieldReader depth d f) Json.glimpse := by
  cases f with
  | description =>
    refine Json.refines_glimpse_text.map ?_
    rintro s _ rfl
    exact ⟨fun g => by cases g <;> simp [Draft.has], rfl⟩
  | input =>
    refine (Json.refines_glimpse_value depth).map ?_
    rintro w t -
    exact ⟨fun g => by cases g <;> simp [Draft.has], rfl⟩
  | expectedCanonical =>
    refine Json.refines_glimpse_text.map ?_
    rintro s _ rfl
    exact ⟨fun g => by cases g <;> simp [Draft.has], rfl⟩
  | expectedHash =>
    refine Json.refines_glimpse_text.map ?_
    rintro s _ rfl
    exact ⟨fun g => by cases g <;> simp [Draft.has], rfl⟩

/-- A member of another name leaves the draft. -/
theorem Draft.IsReadFrom.skips (h : d.IsReadFrom ms) {k : String} (hk : Field.ofName? k = none)
    (t : Option String) : d.IsReadFrom (ms ++ [(k, t)]) where
  has_iff f := by
    have hne : f.name ≠ k := by
      rintro rfl
      rw [Field.ofName?_name] at hk
      cases hk
    rw [h.has_iff]
    simp [hne]
  description u hu := by
    rcases List.mem_append.mp hu with hold | hadded
    · exact h.description u hold
    · obtain ⟨rfl, -⟩ := Prod.mk.inj (List.mem_singleton.mp hadded)
      rw [Field.ofName?_name] at hk
      cases hk

/-- A member with the name of a new field adds this field. -/
theorem Draft.IsReadFrom.adds (h : d.IsReadFrom ms) {f : Field} (hnew : d.has f = false)
    {t : Option String} (hhas : ∀ g, d'.has g = (d.has g || g == f))
    (hdescription : d'.description = if f = .description then t else d.description) :
    d'.IsReadFrom (ms ++ [(f.name, t)]) where
  has_iff g := by
    rw [hhas, Bool.or_eq_true, h.has_iff]
    simp [Field.name_injective.eq_iff]
  description u hu := by
    rcases List.mem_append.mp hu with hold | hadded
    · have hf : f ≠ .description := by
        rintro rfl
        have hhas := (h.has_iff .description).mpr (List.mem_map.mpr ⟨_, hold, rfl⟩)
        rw [hnew] at hhas
        cases hhas
      rw [hdescription, if_neg hf]
      exact h.description u hold
    · obtain ⟨hname, rfl⟩ := Prod.mk.inj (List.mem_singleton.mp hadded)
      rw [hdescription, if_pos (Field.name_injective hname.symm)]

/-- **A member is read in step with its outline.** -/
theorem refines_memberReader (h : d.IsReadFrom ms) (k : String) :
    Refines Draft.IsReadFrom (memberReader depth d k) (Json.glimpseMember ms k) := by
  intro input d' rest hread
  unfold memberReader at hread
  split at hread
  · next hk =>
    split at hread
    · cases hread
    next left hcolon =>
    split at hread
    · cases hread
    next hskip =>
    obtain ⟨rfl, rfl⟩ := Prod.mk.inj (Except.ok.inj hread)
    obtain ⟨t, ht⟩ := Json.exists_glimpse_of_skip hskip
    refine ⟨_, ?_, h.skips hk t⟩
    exact Json.glimpseMember_of_glimpse hcolon ht
  · next f hf =>
    obtain rfl := Field.name_of_ofName? hf
    split at hread
    · cases hread
    next hnew =>
    split at hread
    · cases hread
    next left hcolon =>
    obtain ⟨t, ht, hhas, hdescription⟩ := refines_fieldReader d f hread
    refine ⟨_, ?_, h.adds (by simpa using hnew) hhas hdescription⟩
    exact Json.glimpseMember_of_glimpse hcolon ht

/-! ### Vectors -/

/-- A vector of this description was read from these members: there is no other description among
them, and the two required fields are among their names. -/
structure IsOutlined (description : String) (ms : List Glimpse) : Prop where
  description : ∀ t, (Field.description.name, t) ∈ ms → t = some description
  required : Field.description.name ∈ ms.map Prod.fst ∧ Field.input.name ∈ ms.map Prod.fst

theorem Draft.description_of_vector? (h : d.vector? = .ok v) :
    d.description = some v.description := by
  obtain ⟨description, w, canonical, hash⟩ := d
  cases description with
  | none => cases h
  | some description =>
    cases w with
    | none => cases h
    | some w => rw [← Except.ok.inj h]

theorem Draft.IsReadFrom.vector (h : d.IsReadFrom ms) (hv : d.vector? = .ok v) :
    IsOutlined v.description ms where
  description t ht := (h.description t ht).trans (Draft.description_of_vector? hv)
  required := by
    rw [← h.has_iff, ← h.has_iff, Draft.has, Draft.has, Draft.description_of_vector? hv,
      Draft.input_of_vector? hv]
    exact ⟨rfl, rfl⟩

theorem refines_objectReader :
    Refines (fun v ms => IsOutlined v.description ms) (objectReader depth)
      (Json.members Json.glimpseMember []) := by
  intro input v rest hread
  unfold objectReader at hread
  split at hread
  · cases hread
  next d left hmembers =>
  split at hread
  · next hv =>
    obtain ⟨rfl, rfl⟩ := Prod.mk.inj (Except.ok.inj hread)
    obtain ⟨ms, hms, houtlined⟩ := Json.Refines.members
      (fun _ _ k h => refines_memberReader h k) Draft.isReadFrom_empty hmembers
    exact ⟨ms, hms, houtlined.vector hv⟩
  · cases hread

/-! ### Vectors stored as arrays -/

/-- Whether an element follows does not depend on the white space in front of it. -/
theorem readsItems_of_skipSpace {β : Type} {item : Json.Reader β} {first : Bool} {bs : List β}
    (h : Json.ReadsItems item first (Json.skipSpace input) bs rest) :
    Json.ReadsItems item first input bs rest := by
  have hnext : Json.nextElement first item (Json.skipSpace input)
      = Json.nextElement first item input := by
    rw [Json.nextElement, Json.nextElement, Json.moreElements, Json.moreElements,
      Json.skipSpace_skipSpace]
  cases h with
  | nil hnone => exact .nil (hnext ▸ hnone)
  | cons hsome hmore => exact .cons (hnext ▸ hsome) hmore

/-- A field that may be missing is the next element, or the array ends in front of it. -/
theorem exists_readsItems_of_positional {α β : Type} {R : α → β → Prop} {item : Json.Reader α}
    {item' : Json.Reader β} (hitem : Refines R item item') {position : Nat} {missing a : α}
    {left : List UInt8} (hposition : position ≠ 0)
    (h : Json.positional position item (.ok missing) input = .ok (a, left))
    (hmore : ∃ bs, Json.ReadsItems item' false left bs rest) :
    ∃ bs, Json.ReadsItems item' false input bs rest := by
  obtain ⟨bs, hbs⟩ := hmore
  unfold Json.positional at h
  rw [beq_eq_false_iff_ne.mpr hposition] at h
  split at h
  · cases h
  · next hsome =>
    obtain ⟨rfl, rfl⟩ := Prod.mk.inj (Except.ok.inj h)
    obtain ⟨b, hb, -⟩ := hitem.nextElement hsome
    exact ⟨b :: bs, .cons hb hbs⟩
  · next hnone =>
    obtain ⟨-, rfl⟩ := Prod.mk.inj (Except.ok.inj h)
    have hskip := Json.skipSpace_of_moreElements (Json.nextElement_eq_none_iff.mp hnone)
    exact ⟨bs, readsItems_of_skipSpace (hskip ▸ hbs)⟩

/-- **A vector stored as an array is an array of values.** -/
theorem refines_arrayReader : Refines (fun _ _ => True) (Json.bracketed (arrayReader depth))
    (Json.bracketed (Json.elements (Json.value true depth))) := by
  intro input v rest hread
  obtain ⟨left, h, hclose⟩ := Json.bracketed_eq_ok_iff.mp hread
  obtain ⟨description, _, hdescription, h⟩ := Json.exists_of_bind h
  obtain ⟨w, _, hw, h⟩ := Json.exists_of_bind h
  obtain ⟨canonical, _, hcanonical, h⟩ := Json.exists_of_bind h
  obtain ⟨hash, _, hhash, h⟩ := Json.exists_of_bind h
  obtain ⟨-, rfl⟩ := Json.eq_of_pure h
  have htext : Refines _ textReader (Json.value true depth) := Json.refines_text "a string"
  obtain ⟨_, hdescription, -⟩ :=
    htext.nextElement (Json.nextElement_of_positional hdescription)
  obtain ⟨_, hw, -⟩ := (Refines.refl _).nextElement (Json.nextElement_of_positional hw)
  obtain ⟨bs, hbs⟩ := exists_readsItems_of_positional htext (by decide) hcanonical
    (exists_readsItems_of_positional htext (by decide) hhash
      ⟨[], Json.readsItems_nil_of_closeArray _ hclose⟩)
  exact ⟨_, Json.bracketed_elements_of_readsItems (Json.consumes_value true depth)
    (.cons hdescription (.cons hw hbs)), trivial⟩

/-! ### Either way -/

/-- **A vector is read in step with its outline.** -/
theorem refines_outlineItem :
    Refines (fun v item => ∀ ms, item = some ms → IsOutlined v.description ms) (reader (depth + 1))
      Json.outlineItem := by
  intro input v rest hread
  unfold reader Json.record at hread
  split at hread
  · cases hread
  next b left hskip =>
  split at hread
  · next hb =>
    obtain ⟨vs, hvs, -⟩ := refines_arrayReader hread
    have hvalue : Json.value true (depth + 1) (b :: left) = .ok (.array vs, rest) := by
      rw [Json.value, ← hskip, Json.skipSpace_skipSpace, hskip]
      simp only [if_pos hb, hvs]
    refine ⟨none, ?_, fun ms h => ?_⟩
    · rw [Json.outlineItem, hskip]
      dsimp only
      rw [if_neg (by rw [hb]; decide), Json.bind_apply, Json.skip_of_value hvalue]
      rfl
    · cases h
  split at hread
  · next hb =>
    obtain ⟨ms, hms, houtlined⟩ := refines_objectReader.braced hread
    refine ⟨some ms, ?_, fun ms' h => Option.some.inj h ▸ houtlined⟩
    rw [Json.outlineItem, hskip]
    dsimp only
    rw [if_pos hb, Json.bind_apply, hms]
    rfl
  · cases hread

end TestVector

namespace Suite

/-- **A suite that is read has an outline**, with an item for each vector. -/
theorem exists_outline? {bytes : List UInt8} {suite : Suite} (h : ofJson? bytes = .ok suite) :
    ∃ items, Json.outline? bytes = .ok items ∧
      List.Forall₂ (fun v item => ∀ ms, item = some ms → TestVector.IsOutlined v.description ms)
        suite.vectors items := by
  obtain ⟨vectors, hread, rfl⟩ := map_eq_ok_iff.mp h
  have hsequence : Json.Refines _ (Json.sequence TestVector.reader (125 + 1 + 1))
      (Json.sequence (fun _ => Json.outlineItem) (0 + 1)) :=
    TestVector.refines_outlineItem.sequence
  exact hsequence.whole hread

end Suite

end SealedLedger
