import SealedLedger.Proofs.Suite.Regenerated

/-!
# Vectors that pass are those that were generated

A vector is checked by three comparisons in a row: its digest must be one, its canonical text must
be that of its input, and its digest must be that of the canonical text. A vector is generated by
writing the two texts down. The digest that is written is always one, and it is written in one form
only, so the vectors that pass are exactly those that generating makes.

A suite is regenerated in place. All its inputs are canonicalized before any vector is replaced, so
it is regenerated as a whole or not at all.

## Main results

* `TestVector.verify_eq_passed_iff_generate?` — passing is being generated
* `Suite.regenerateAll_eq_error_iff` — the refusal is that of the first input without canonical text
* `Suite.run_regenerate` — regenerating in place, in terms of the suite that comes out
* `Suite.regenerate_makes_passing` — what regenerating a suite does to it
-/

namespace SealedLedger

open Canonical (Writes)

/-! ### Vectors -/

namespace TestVector

variable {description : String} {input : Value} {v w : TestVector} {e : CanonicalError}

theorem generate?_eq_ok_iff_expectations? : generate? description input = .ok v ↔
    v.description = description ∧ v.input = input ∧
      expectations? input = .ok (v.expectedCanonical, v.expectedHash) := by
  rw [generate?]
  constructor
  · intro h
    split at h
    · cases h
    · next canonical hash htexts =>
      obtain rfl := Except.ok.inj h
      exact ⟨rfl, rfl, htexts⟩
  · rintro ⟨rfl, rfl, htexts⟩
    rw [htexts]

/-- **A vector passes exactly when generating makes it** from its description and its input. -/
theorem verify_eq_passed_iff_generate? :
    v.verify = .passed ↔ generate? v.description v.input = .ok v := by
  rw [verify_eq_passed_iff, generate?_eq_ok_iff_expectations?]
  constructor
  · exact fun h => ⟨rfl, rfl, h.2⟩
  · rintro ⟨-, -, htexts⟩
    obtain ⟨cs, -, heq⟩ := expectations?_eq_ok_iff.mp htexts
    have hhash : v.expectedHash = (Digest.mk (Sha256.hash (Utf8.encode cs))).text :=
      (Prod.mk.inj heq).2
    exact ⟨⟨_, hhash ▸ Digest.parse?_text _⟩, htexts⟩

/-- A vector that was generated is made of its own description and input again. -/
theorem generate?_of_generate? (h : generate? description input = .ok w) :
    generate? w.description w.input = .ok w := by
  obtain ⟨rfl, rfl, -⟩ := generate?_eq_ok_iff_expectations?.mp h
  exact h

/-- No vector is generated for the reason that the input has no canonical bytes. -/
theorem generate?_eq_error_iff :
    generate? description input = .error e ↔ canonicalize input = .error e := by
  rw [generate?, expectations?, canonicalize]
  cases Canonical.text input <;> simp [Except.map]

end TestVector

/-! ### Suites -/

namespace Suite

variable {suite suite' : Suite} {vs : List TestVector} {e : CanonicalError}

/-- The first vector whose input has no canonical bytes is refused for this reason. -/
def RefusedFirst (e : CanonicalError) (vs : List TestVector) : Prop :=
  ∃ before v after, vs = before ++ v :: after ∧
    (∀ u ∈ before, ∃ c, canonicalize u.input = .ok c) ∧ canonicalize v.input = .error e

theorem not_refusedFirst_nil : ¬RefusedFirst e [] := by
  rintro ⟨before, v, after, h, -⟩
  simp at h

theorem refusedFirst_cons_iff {w : TestVector} : RefusedFirst e (w :: vs) ↔
    canonicalize w.input = .error e ∨
      (∃ c, canonicalize w.input = .ok c) ∧ RefusedFirst e vs := by
  constructor
  · rintro ⟨before, v, after, heq, hbefore, hv⟩
    cases before with
    | nil =>
      obtain ⟨rfl, -⟩ := List.cons.inj heq
      exact .inl hv
    | cons u before =>
      obtain ⟨rfl, rfl⟩ := List.cons.inj heq
      obtain ⟨hw, hbefore⟩ := List.forall_mem_cons.mp hbefore
      exact .inr ⟨hw, before, v, after, rfl, hbefore, hv⟩
  · rintro (hw | ⟨hw, before, v, after, rfl, hbefore, hv⟩)
    · exact ⟨[], w, vs, rfl, List.forall_mem_nil _, hw⟩
    · exact ⟨w :: before, v, after, rfl, List.forall_mem_cons.mpr ⟨hw, hbefore⟩, hv⟩

/-- **The refusal of vectors is that of the first one that is refused.** -/
theorem regenerateAll_eq_error_iff : regenerateAll vs = .error e ↔ RefusedFirst e vs := by
  induction vs with
  | nil => simp [regenerateAll, not_refusedFirst_nil]
  | cons w vs ih =>
    rw [refusedFirst_cons_iff, ← ih, regenerateAll, Canonical.exists_canonicalize_iff,
      ← TestVector.exists_generate?_iff, ← TestVector.generate?_eq_error_iff]
    cases TestVector.generate? w.description w.input with
    | error e' => simp
    | ok x => cases regenerateAll vs <;> simp

theorem regenerate?_eq_error_iff :
    suite.regenerate? = .error e ↔ RefusedFirst e suite.vectors := by
  rw [← regenerateAll_eq_error_iff, regenerate?]
  cases regenerateAll suite.vectors <;> simp [Except.map]

/-- A suite that was regenerated is regenerated to itself. -/
theorem regenerate?_of_regenerate? (h : suite.regenerate? = .ok suite') :
    suite'.regenerate? = .ok suite' := by
  have hall := regenerate?_eq_ok_iff.mp h
  refine regenerate?_eq_ok_iff.mpr (List.forall₂_same.mpr fun w hw => ?_)
  obtain ⟨-, hvector⟩ := Json.exists_mem_of_forall₂ hall
  obtain ⟨v, -, hv⟩ := hvector w hw
  exact TestVector.generate?_of_generate? hv

/-- **All vectors of a suite pass when regenerating leaves it**, and only then. -/
theorem verify_eq_passed_iff_regenerate? :
    (∀ status ∈ suite.verify, status = .passed) ↔ suite.regenerate? = .ok suite := by
  rw [verify, List.forall_mem_map, regenerate?_eq_ok_iff, List.forall₂_same]
  exact forall₂_congr fun v _ => TestVector.verify_eq_passed_iff_generate?

/-! ### Regenerating in place -/

/-- What comes out of a regeneration takes the place of the suite. -/
theorem run_regenerate_eq_ok_iff :
    regenerate.run suite = .ok () suite' ↔ suite.regenerate? = .ok suite' := by
  rw [regenerate?]
  simp only [regenerate, EStateM.run_bind, EStateM.run_get]
  cases regenerateAll suite.vectors <;> simp [Except.map]

/-- A refusal leaves the suite. -/
theorem run_regenerate_eq_error_iff :
    regenerate.run suite = .error e suite' ↔ suite.regenerate? = .error e ∧ suite' = suite := by
  rw [regenerate?]
  simp only [regenerate, EStateM.run_bind, EStateM.run_get]
  cases regenerateAll suite.vectors <;> simp [Except.map, eq_comm]

/-- **What regenerating does to a suite.** A vector passes exactly when generating makes it from its
description and its input. A suite is regenerated when all its inputs have canonical bytes. Then it
has the descriptions and the inputs that it had, in their order, all its vectors pass, and
regenerating it again changes nothing. Otherwise it is left as it was, and the refusal is that of
its first input without canonical bytes. -/
theorem regenerate_makes_passing :
    (∀ v : TestVector, v.verify = .passed ↔
      TestVector.generate? v.description v.input = .ok v) ∧
    ∀ suite : Suite,
      ((∃ suite', regenerate.run suite = .ok () suite') ↔
        ∀ v ∈ suite.vectors, ∃ c, canonicalize v.input = .ok c) ∧
      (∀ suite', regenerate.run suite = .ok () suite' →
        suite'.vectors.map (fun v => (v.description, v.input))
            = suite.vectors.map (fun v => (v.description, v.input)) ∧
          (∀ status ∈ suite'.verify, status = .passed) ∧
          regenerate.run suite' = .ok () suite') ∧
      ∀ e suite', regenerate.run suite = .error e suite' →
        suite' = suite ∧ ∃ before v after, suite.vectors = before ++ v :: after ∧
          (∀ u ∈ before, ∃ c, canonicalize u.input = .ok c) ∧ canonicalize v.input = .error e := by
  refine ⟨fun v => TestVector.verify_eq_passed_iff_generate?, fun suite => ⟨?_, ?_, ?_⟩⟩
  · simp only [run_regenerate_eq_ok_iff, exists_regenerate?_iff, Canonical.exists_canonicalize_iff]
  · intro suite' h
    have hregenerate := run_regenerate_eq_ok_iff.mp h
    have hagain := regenerate?_of_regenerate? hregenerate
    exact ⟨(map_regenerated hregenerate).symm, verify_eq_passed_iff_regenerate?.mpr hagain,
      run_regenerate_eq_ok_iff.mpr hagain⟩
  · intro e suite' h
    obtain ⟨hrefused, rfl⟩ := run_regenerate_eq_error_iff.mp h
    exact ⟨rfl, regenerate?_eq_error_iff.mp hrefused⟩

/-- An object whose keys are out of order, which is regenerated; and an input that is no number in
front of one that repeats a key, which is refused for being no number. -/
theorem regenerate_makes_passing_not_a_number :
    (∃ suite', regenerate.run ⟨[⟨"sorted", .object [("b", .bool true), ("a", .null)], "", ""⟩]⟩
        = .ok () suite' ∧
      suite'.vectors.map (fun v => (v.description, v.input))
        = [("sorted", .object [("b", .bool true), ("a", .null)])] ∧
      (∀ status ∈ suite'.verify, status = .passed) ∧ regenerate.run suite' = .ok () suite') ∧
    ∃ before v after, regenerate.run ⟨[⟨"none", .number (.float .nan), "", ""⟩,
          ⟨"repeated", .object [("a", .null), ("a", .null)], "", ""⟩]⟩
        = .error (.notFinite .nan) ⟨before ++ v :: after⟩ ∧
      (∀ u ∈ before, ∃ c, canonicalize u.input = .ok c) ∧
      canonicalize v.input = .error (.notFinite .nan) := by
  obtain ⟨-, hsuites⟩ := regenerate_makes_passing
  constructor
  · obtain ⟨hiff, hdone, -⟩ :=
      hsuites ⟨[⟨"sorted", .object [("b", .bool true), ("a", .null)], "", ""⟩]⟩
    have hinput : ∃ c, canonicalize (.object [("b", .bool true), ("a", .null)]) = .ok c := by
      refine Canonical.exists_canonicalize_iff.mpr
        (Canonical.exists_writes_object_iff.mpr ⟨by decide, ?_⟩)
      exact List.forall_mem_cons.mpr ⟨⟨_, rfl⟩, List.forall_mem_singleton.mpr ⟨_, rfl⟩⟩
    obtain ⟨suite', h⟩ := hiff.mpr (List.forall_mem_singleton.mpr hinput)
    obtain ⟨hsame, hpassed, hagain⟩ := hdone suite' h
    exact ⟨suite', h, hsame, hpassed, hagain⟩
  · obtain ⟨-, -, hrefused⟩ := hsuites ⟨[⟨"none", .number (.float .nan), "", ""⟩,
      ⟨"repeated", .object [("a", .null), ("a", .null)], "", ""⟩]⟩
    obtain ⟨-, before, v, after, hvectors, hbefore, hv⟩ := hrefused _ _ rfl
    exact ⟨before, v, after, hvectors ▸ rfl, hbefore, hv⟩

end Suite

end SealedLedger
