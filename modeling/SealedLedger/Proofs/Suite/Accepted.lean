import SealedLedger.Proofs.Json.Accepted
import SealedLedger.Proofs.Json.Refinement
import SealedLedger.Suite

/-!
# What is read as a suite

A vector is stored as an object, with fields of any other names among its own, or as an array. It is
not compared with the value of the same text: the fields of other names are passed over without
being looked at, so that the text of a suite need not be one of a value. But each input in it is
read by the reader of values, so it is a value that has a canonical text and nests no deeper than
that reader follows: two containers less than in a document, since the vector and the suite are
around it.

## Main results

* `TestVector.input_accepted` — the input of a vector that was read
* `Suite.input_accepted` — and so for all vectors of a suite
-/

namespace SealedLedger

open Json (IsAccepted)

namespace TestVector

variable {depth : Json.Depth} {input rest : List UInt8} {v : TestVector} {d d' : Draft}

/-- The input that has been read into a draft, if there is one, is a value that the reader
returns. -/
def Draft.IsAccepted (depth : Nat) (d : Draft) : Prop :=
  ∀ w, d.input = some w → Json.IsAccepted depth w

/-- A field that is read keeps the draft accepted. -/
theorem isAccepted_of_fieldReader (hd : d.IsAccepted depth) (f : Field)
    (h : fieldReader depth d f input = .ok (d', rest)) : d'.IsAccepted depth := by
  cases f with
  | description =>
    obtain ⟨s, left, -, hpure⟩ := Json.exists_of_bind h
    obtain ⟨rfl, -⟩ := Json.eq_of_pure hpure
    exact hd
  | input =>
    obtain ⟨w, left, hw, hpure⟩ := Json.exists_of_bind h
    obtain ⟨rfl, -⟩ := Json.eq_of_pure hpure
    intro w' hw'
    rw [← Option.some.inj hw']
    exact Json.value_accepted hw
  | expectedCanonical =>
    obtain ⟨s, left, -, hpure⟩ := Json.exists_of_bind h
    obtain ⟨rfl, -⟩ := Json.eq_of_pure hpure
    exact hd
  | expectedHash =>
    obtain ⟨s, left, -, hpure⟩ := Json.exists_of_bind h
    obtain ⟨rfl, -⟩ := Json.eq_of_pure hpure
    exact hd

/-- So does a member, whatever its name. -/
theorem isAccepted_of_memberReader (hd : d.IsAccepted depth) {k : String}
    (h : memberReader depth d k input = .ok (d', rest)) : d'.IsAccepted depth := by
  rw [memberReader] at h
  split at h
  · split at h
    · cases h
    split at h
    · cases h
    obtain ⟨rfl, -⟩ := Prod.mk.inj (Except.ok.inj h)
    exact hd
  · split at h
    · cases h
    split at h
    · cases h
    exact isAccepted_of_fieldReader hd _ h

/-- A vector has the input of its draft. -/
theorem Draft.input_of_vector? (h : d.vector? = .ok v) : d.input = some v.input := by
  obtain ⟨description, w, canonical, hash⟩ := d
  cases description with
  | none => cases h
  | some description =>
    cases w with
    | none => cases h
    | some w => rw [← Except.ok.inj h]

theorem input_accepted_of_objectReader (h : objectReader depth input = .ok (v, rest)) :
    IsAccepted depth v.input := by
  rw [objectReader] at h
  split at h
  · cases h
  next d left hmembers =>
  split at h
  · next w hw =>
    obtain ⟨rfl, -⟩ := Prod.mk.inj (Except.ok.inj h)
    have hempty : Draft.empty.IsAccepted depth := fun _ h => by cases h
    have haccepted := Json.membersWithin_invariant
      (fun _ _ _ _ _ hd hread => isAccepted_of_memberReader hd hread) hmembers hempty
    exact haccepted _ (Draft.input_of_vector? hw)
  · cases h

theorem input_accepted_of_arrayReader (h : arrayReader depth input = .ok (v, rest)) :
    IsAccepted depth v.input := by
  obtain ⟨description, _, -, h⟩ := Json.exists_of_bind h
  obtain ⟨w, _, hinput, h⟩ := Json.exists_of_bind h
  obtain ⟨canonical, _, -, h⟩ := Json.exists_of_bind h
  obtain ⟨hash, _, -, h⟩ := Json.exists_of_bind h
  obtain ⟨rfl, -⟩ := Json.eq_of_pure h
  obtain ⟨left, -, hvalue⟩ :=
    Json.nextElement_eq_some_iff.mp (Json.nextElement_of_positional hinput)
  exact Json.value_accepted hvalue

/-- **The input of a vector that was read has a canonical text** and is within the limit. -/
theorem input_accepted (h : reader (depth + 1) input = .ok (v, rest)) :
    IsAccepted depth v.input := by
  obtain ⟨inside, left, h | h⟩ := Json.exists_inside_of_record h
  · exact input_accepted_of_arrayReader h
  · exact input_accepted_of_objectReader h

end TestVector

/-- **The inputs of a suite that was read have canonical texts** and are within the limit. -/
theorem Suite.input_accepted {bytes : List UInt8} {suite : Suite} (h : ofJson? bytes = .ok suite) :
    ∀ v ∈ suite.vectors, IsAccepted 125 v.input := by
  obtain ⟨vectors, hwhole, rfl⟩ := map_eq_ok_iff.mp h
  obtain ⟨rest, hread⟩ := Json.exists_of_whole hwhole
  exact Json.sequence_forall (fun _ _ _ => TestVector.input_accepted) hread

end SealedLedger
