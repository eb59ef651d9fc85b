import SealedLedger.Proofs.Digest
import SealedLedger.Proofs.Suite.Stored
import SealedLedger.Proofs.Value.Kept

/-!
# A regenerated suite that is read back

The expected texts of a vector are made of its input as it is in memory, and they are compared with
those of its input as it is read back. The digest is written in the one form that is taken for it,
so a vector that was regenerated passes exactly when the canonical text of its input comes back:
when the text of each double in it keeps that double.

## Main results

* `TestVector.verify_eq_passed_iff` — when a vector passes
* `TestVector.verify_withNumbers_eq_passed_iff` — when it passes after it was read back
* `Suite.regenerate?_eq_ok_iff`, `Suite.exists_regenerate?_iff` — what regenerating does
* `Suite.verify_regenerated` — which vectors of a regenerated suite pass after it was read back
-/

namespace SealedLedger

open Canonical (Writes)

namespace TestVector

variable {description : String} {input : Value} {v w : TestVector}

/-- The texts that are expected of an input are made of its canonical text. -/
theorem expectations?_eq_ok_iff {texts : String × String} :
    expectations? input = .ok texts ↔ ∃ cs, Writes input cs ∧
      texts = (String.ofList cs, (Digest.mk (Sha256.hash (Utf8.encode cs))).text) := by
  rw [expectations?]
  constructor
  · intro h
    split at h
    · cases h
    · next cs hcs => exact ⟨cs, hcs, (Except.ok.inj h).symm⟩
  · rintro ⟨cs, hcs, rfl⟩
    rw [show Canonical.text input = .ok cs from hcs]

theorem generate?_eq_ok_iff : generate? description input = .ok w ↔ ∃ cs, Writes input cs ∧
    w = ⟨description, input, String.ofList cs,
      (Digest.mk (Sha256.hash (Utf8.encode cs))).text⟩ := by
  rw [generate?]
  constructor
  · intro h
    split at h
    · cases h
    · next canonical hash htexts =>
      obtain ⟨cs, hcs, heq⟩ := expectations?_eq_ok_iff.mp htexts
      obtain ⟨rfl, rfl⟩ := Prod.mk.inj heq
      exact ⟨cs, hcs, (Except.ok.inj h).symm⟩
  · rintro ⟨cs, hcs, rfl⟩
    rw [expectations?_eq_ok_iff.mpr ⟨cs, hcs, rfl⟩]

/-- A vector is generated when its input has a canonical text. -/
theorem exists_generate?_iff :
    (∃ w, generate? description input = .ok w) ↔ ∃ t, Writes input t := by
  simp only [generate?_eq_ok_iff]
  constructor
  · rintro ⟨_, cs, hcs, -⟩
    exact ⟨cs, hcs⟩
  · rintro ⟨cs, hcs⟩
    exact ⟨_, cs, hcs, rfl⟩

/-- **A vector passes** when its digest is one and both texts are those expected of its input. -/
theorem verify_eq_passed_iff : v.verify = .passed ↔
    (∃ d, Digest.parse? v.expectedHash = .ok d) ∧
      expectations? v.input = .ok (v.expectedCanonical, v.expectedHash) := by
  rw [verify]
  constructor
  · intro h
    split at h
    · cases h
    next d hd =>
    split at h
    · cases h
    next canonical hash htexts =>
    split at h
    · cases h
    next hcanonical =>
    split at h
    · cases h
    next hhash => exact ⟨⟨d, hd⟩, by rw [htexts, not_not.mp hcanonical, not_not.mp hhash]⟩
  · rintro ⟨⟨d, hd⟩, htexts⟩
    simp only [hd, htexts, ne_eq, not_true_eq_false, if_false]

/-- **A vector that was generated passes after it was read back exactly when its input is kept** by
its text. -/
theorem verify_withNumbers_eq_passed_iff (h : generate? description input = .ok w) :
    (w.withNumbers Number.stored).verify = .passed ↔ input.KeptByText := by
  obtain ⟨cs, hcs, rfl⟩ := generate?_eq_ok_iff.mp h
  have hc : canonicalize input = .ok (Utf8.encode cs) :=
    Canonical.canonicalize_eq_ok_iff.mpr ⟨cs, hcs, rfl⟩
  rw [verify_eq_passed_iff, Value.keptByText_iff hc, Canonical.canonicalize_eq_ok_iff,
    and_iff_right ⟨_, Digest.parse?_text _⟩, expectations?_eq_ok_iff]
  constructor
  · rintro ⟨t, ht, heq⟩
    exact ⟨t, ht, by rw [String.ofList_injective (Prod.mk.inj heq).1]⟩
  · rintro ⟨t, ht, heq⟩
    exact ⟨t, ht, by rw [Utf8.encode_injective heq]; rfl⟩

end TestVector

namespace Suite

variable {suite suite' : Suite} {vs ws : List TestVector}

theorem regenerateAll_eq_ok_iff : regenerateAll vs = .ok ws ↔
    List.Forall₂ (fun v w => TestVector.generate? v.description v.input = .ok w) vs ws := by
  have hall : regenerateAll vs = vs.mapM fun v => TestVector.generate? v.description v.input := by
    refine eq_mapM_of_cons (g := regenerateAll) rfl (fun v vs => ?_) vs
    rw [regenerateAll]
    cases TestVector.generate? v.description v.input with
    | error e => rfl
    | ok w => cases regenerateAll vs <;> rfl
  rw [hall, mapM_eq_ok_iff]

/-- **A suite is regenerated vector by vector.** -/
theorem regenerate?_eq_ok_iff : suite.regenerate? = .ok suite' ↔
    List.Forall₂ (fun v w => TestVector.generate? v.description v.input = .ok w)
      suite.vectors suite'.vectors := by
  rw [← regenerateAll_eq_ok_iff]
  constructor
  · intro h
    obtain ⟨ws, hws, rfl⟩ := map_eq_ok_iff.mp h
    exact hws
  · exact fun h => map_eq_ok_iff.mpr ⟨_, h, rfl⟩

/-- A suite is regenerated when all its inputs have canonical texts. -/
theorem exists_regenerate?_iff :
    (∃ suite', suite.regenerate? = .ok suite') ↔ ∀ v ∈ suite.vectors, ∃ t, Writes v.input t := by
  have hvectors : (∃ suite', suite.regenerate? = .ok suite') ↔
      ∃ ws, List.Forall₂ (fun v w => TestVector.generate? v.description v.input = .ok w)
        suite.vectors ws := by
    constructor
    · rintro ⟨suite', h⟩
      exact ⟨suite'.vectors, regenerate?_eq_ok_iff.mp h⟩
    · rintro ⟨ws, h⟩
      exact ⟨⟨ws⟩, regenerate?_eq_ok_iff.mpr h⟩
  rw [hvectors, Canonical.exists_forall₂_iff]
  exact forall₂_congr fun v _ => TestVector.exists_generate?_iff

/-- A regenerated suite has the descriptions and the inputs of the suite, in their order. -/
theorem map_regenerated (h : suite.regenerate? = .ok suite') :
    suite.vectors.map (fun v => (v.description, v.input))
      = suite'.vectors.map (fun v => (v.description, v.input)) := by
  rw [← List.forall₂_eq_eq_eq, List.forall₂_map_left_iff, List.forall₂_map_right_iff]
  refine (regenerate?_eq_ok_iff.mp h).imp fun v w hw => ?_
  obtain ⟨cs, -, rfl⟩ := TestVector.generate?_eq_ok_iff.mp hw
  rfl

/-- **The vectors of a regenerated suite that pass after it was read back** are those whose inputs
are kept by their texts. -/
theorem verify_regenerated (h : suite.regenerate? = .ok suite') :
    List.Forall₂ (fun v status => status = .passed ↔ v.input.KeptByText) suite.vectors
      (suite'.withNumbers Number.stored).verify := by
  rw [verify, withNumbers, List.map_map, List.forall₂_map_right_iff]
  exact (regenerate?_eq_ok_iff.mp h).imp fun v w hw =>
    TestVector.verify_withNumbers_eq_passed_iff hw

end Suite

end SealedLedger
