import SealedLedger.Cli.Vectors
import SealedLedger.Proofs.Cli.Saving
import SealedLedger.Proofs.Suite.Accepted
import SealedLedger.Proofs.Suite.Regenerated

/-!
# Suites that are generated and checked

A suite is generated in its own file: it is loaded, its expected texts are made of its inputs, and
it is written back. Whatever can be loaded can be generated, since every input that was read has a
canonical text. The expected texts are made of the inputs as they were loaded the first time, and
checking the file loads them again from what was written. So the vectors that pass are those whose
inputs are kept by their texts, and a suite that was generated need not pass its own check.

## Main results

* `Cli.exists_generateVectors_iff` — a suite is generated when it can be loaded
* `Cli.loadSuite_of_generateVectors` — what is loaded from a file that was generated
* `Cli.verifyVectors_of_generateVectors` — how the check of a file ends that was generated
* `Cli.verify_after_generate` — which vectors pass when they were generated before
* `Cli.verify_fails_after_generate` — a suite that was generated and does not pass
-/

namespace SealedLedger

namespace Cli

variable {s s' : Session} {fs : Files} {path : String} {suite suite' : Suite} {code : Nat}

/-! ### Loading and generating -/

theorem loadSuite_eq_ok_iff : loadSuite fs path = .ok suite ↔
    ∃ t, fs.readText? path = .ok t ∧ Suite.ofJson? (Utf8.encode t) = .ok suite := by
  rw [loadSuite]
  constructor
  · intro h
    split at h
    · cases h
    next t ht =>
    split at h
    · cases h
    next l hl => exact ⟨t, ht, by rw [hl, Except.ok.inj h]⟩
  · rintro ⟨t, ht, hsuite⟩
    simp only [ht, hsuite]

/-- **What a generation does** that does not fail. -/
theorem exists_of_generateVectors (h : generateVectors s path = (.exit code, s')) :
    ∃ suite suite' t, loadSuite s.files path = .ok suite ∧ suite.regenerate? = .ok suite' ∧
      suite'.json? = .ok t ∧ s.files.write? path (Utf8.encode t) = .ok s'.files ∧ code = 0 := by
  rw [generateVectors] at h
  split at h
  · cases h
  next suite hload =>
  split at h
  · cases h
  next suite' hregenerate =>
  dsimp only at h
  split at h
  · cases h
  next t ht =>
  split at h
  · cases h
  next fs' hwrite =>
  obtain ⟨hcode, rfl⟩ := Prod.mk.inj h
  exact ⟨suite, suite', t, hload, hregenerate, ht, hwrite, (Outcome.exit.inj hcode).symm⟩

/-- The inputs of a suite that was regenerated are those that were loaded. -/
theorem input_accepted_of_regenerate? (hload : loadSuite fs path = .ok suite)
    (h : suite.regenerate? = .ok suite') :
    ∀ w ∈ suite'.vectors, Json.IsAccepted 125 w.input := by
  intro w hw
  obtain ⟨t, -, hsuite⟩ := loadSuite_eq_ok_iff.mp hload
  have hmem : (w.description, w.input) ∈ suite.vectors.map fun v => (v.description, v.input) := by
    rw [Suite.map_regenerated h]
    exact List.mem_map_of_mem hw
  obtain ⟨v, hv, heq⟩ := List.mem_map.mp hmem
  rw [← (Prod.mk.inj heq).2]
  exact Suite.input_accepted hsuite v hv

/-- **A suite is generated when it can be loaded.** -/
theorem exists_generateVectors_iff :
    (∃ s', generateVectors s path = (.exit 0, s')) ↔
      ∃ suite, loadSuite s.files path = .ok suite := by
  constructor
  · rintro ⟨s', h⟩
    obtain ⟨suite, -, -, hload, -⟩ := exists_of_generateVectors h
    exact ⟨suite, hload⟩
  · rintro ⟨suite, hload⟩
    obtain ⟨u, htext, hsuite⟩ := loadSuite_eq_ok_iff.mp hload
    obtain ⟨suite', hregenerate⟩ := Suite.exists_regenerate?_iff.mpr fun v hv =>
      (Suite.input_accepted hsuite v hv).exists_writes
    obtain ⟨t, ht⟩ := Suite.exists_json?_iff.mpr fun w hw n hn => Canonical.isFinite_of_occurs
      (input_accepted_of_regenerate? hload hregenerate w hw).exists_writes hn
    obtain ⟨place, htarget⟩ := Files.exists_target?_of_readText? htext
    obtain ⟨fs', hwrite⟩ := Files.exists_write?_of_target? htarget (Utf8.encode t)
    simp only [generateVectors, hload, hregenerate, ht, hwrite]
    exact ⟨_, rfl⟩

/-- **What is loaded from a file that was generated**: the suite that was written, with the numbers
of its inputs read again. -/
theorem loadSuite_of_generateVectors (h : generateVectors s path = (.exit 0, s')) :
    ∃ suite suite', loadSuite s.files path = .ok suite ∧ suite.regenerate? = .ok suite' ∧
      loadSuite s'.files path = .ok (suite'.withNumbers Number.stored) := by
  obtain ⟨suite, suite', t, hload, hregenerate, ht, hwrite, -⟩ := exists_of_generateVectors h
  have haccepted := input_accepted_of_regenerate? hload hregenerate
  refine ⟨suite, suite', hload, hregenerate, loadSuite_eq_ok_iff.mpr
    ⟨t, Files.readText?_of_write? hwrite, Suite.ofJson?_json? ht (fun w hw => ?_) fun w hw => ?_⟩⟩
  · exact Value.hasDistinctKeys_of_writes (haccepted w hw).exists_writes
  · exact (haccepted w hw).nestsWithin

/-! ### Checking -/

/-- The report says that all vectors passed when they did. -/
theorem suiteReport_snd_iff :
    (suiteReport path suite).2 = true ↔ ∀ status ∈ suite.verify, status = .passed := by
  rw [suiteReport]
  simp only [beq_iff_eq, List.countP_eq_length]

/-- **How the check of one file ends**: with success when all vectors passed, and with a failure
when one did not. -/
theorem verifyVectors_singleton (hload : loadSuite s.files path = .ok suite) :
    ((verifyVectors s true [path]).1 = .exit 0 ↔ ∀ status ∈ suite.verify, status = .passed) ∧
      ((verifyVectors s true [path]).1 = .exit 1 ↔ ∃ status ∈ suite.verify, status ≠ .passed) := by
  have hend : (verifyVectors s true [path]).1
      = .exit (if (suiteReport path suite).2 then 0 else 1) := by
    simp only [verifyVectors, hload, Bool.true_and]
  rw [hend]
  cases hreport : (suiteReport path suite).2 with
  | true =>
    have hall := suiteReport_snd_iff.mp hreport
    refine ⟨⟨fun _ => hall, fun _ => rfl⟩, fun h => ?_, ?_⟩
    · cases Outcome.exit.inj h
    · rintro ⟨status, hstatus, hne⟩
      exact absurd (hall status hstatus) hne
  | false =>
    have hsome : ¬∀ status ∈ suite.verify, status = .passed := fun hall => by
      rw [suiteReport_snd_iff.mpr hall] at hreport
      cases hreport
    refine ⟨⟨fun h => ?_, fun hall => absurd hall hsome⟩, fun _ => ?_, fun _ => rfl⟩
    · cases Outcome.exit.inj h
    · push Not at hsome
      exact hsome

/-- **How the check of a file ends that was generated**: it succeeds when all inputs are kept by
their texts, and fails when one is not. -/
theorem verifyVectors_of_generateVectors (h : generateVectors s path = (.exit 0, s'))
    (hload : loadSuite s.files path = .ok suite) :
    ((verifyVectors s' true [path]).1 = .exit 0 ↔ ∀ v ∈ suite.vectors, v.input.KeptByText) ∧
      ((verifyVectors s' true [path]).1 = .exit 1 ↔ ∃ v ∈ suite.vectors, ¬v.input.KeptByText) := by
  obtain ⟨suite₀, suite', hload₀, hregenerate, hload'⟩ := loadSuite_of_generateVectors h
  obtain rfl := Except.ok.inj (hload₀.symm.trans hload)
  obtain ⟨hzero, hone⟩ := verifyVectors_singleton hload'
  obtain ⟨hstatus, hvector⟩ := Json.exists_mem_of_forall₂ (Suite.verify_regenerated hregenerate)
  refine ⟨hzero.trans ⟨fun hall v hv => ?_, fun hall status hmem => ?_⟩, hone.trans ⟨?_, ?_⟩⟩
  · obtain ⟨status, hmem, hiff⟩ := hstatus v hv
    exact hiff.mp (hall status hmem)
  · obtain ⟨v, hv, hiff⟩ := hvector status hmem
    exact hiff.mpr (hall v hv)
  · rintro ⟨status, hmem, hne⟩
    obtain ⟨v, hv, hiff⟩ := hvector status hmem
    exact ⟨v, hv, mt hiff.mpr hne⟩
  · rintro ⟨v, hv, hne⟩
    obtain ⟨status, hmem, hiff⟩ := hstatus v hv
    exact ⟨status, hmem, mt hiff.mp hne⟩

/-- **A suite that was generated and is then checked passes vector by vector where the inputs are
kept by their texts.** It has as many vectors as before, with the same descriptions in the same
order. The check reports success when all inputs are kept, and a failure when one is not. -/
theorem verify_after_generate (h : generateVectors s path = (.exit 0, s')) :
    ∃ suite suite', loadSuite s.files path = .ok suite ∧ loadSuite s'.files path = .ok suite' ∧
      suite'.vectors.map TestVector.description = suite.vectors.map TestVector.description ∧
      List.Forall₂ (fun v status => status = .passed ↔ v.input.KeptByText) suite.vectors
        suite'.verify ∧
      ((verifyVectors s' true [path]).1 = .exit 0 ↔ ∀ v ∈ suite.vectors, v.input.KeptByText) ∧
      ((verifyVectors s' true [path]).1 = .exit 1 ↔ ∃ v ∈ suite.vectors, ¬v.input.KeptByText) := by
  obtain ⟨suite, suite', hload, hregenerate, hload'⟩ := loadSuite_of_generateVectors h
  have hdescriptions : (suite'.withNumbers Number.stored).vectors.map TestVector.description
      = suite.vectors.map TestVector.description := by
    have hmap := congrArg (List.map Prod.fst) (Suite.map_regenerated hregenerate)
    rw [List.map_map, List.map_map] at hmap
    rw [Suite.withNumbers, List.map_map]
    exact hmap.symm
  exact ⟨suite, _, hload, hload', hdescriptions, Suite.verify_regenerated hregenerate,
    verifyVectors_of_generateVectors h hload⟩

/-- A suite with the input `1.5`, generated and checked. -/
theorem verify_after_generate_three_halves :
    ∃ s', generateVectors (documentSession
        "[\x7b\"description\":\"d\",\"input\":1.5\x7d]".toList) "p.json" = (.exit 0, s') ∧
      (verifyVectors s' true ["p.json"]).1 = .exit 0 := by
  have hload : loadSuite (documentSession
      "[\x7b\"description\":\"d\",\"input\":1.5\x7d]".toList).files "p.json"
      = .ok ⟨[⟨"d", .number (.float ⟨false, 0x3FF8000000000000, by decide⟩), "", ""⟩]⟩ :=
    loadSuite_eq_ok_iff.mpr ⟨_, Files.readText?_of_read? rfl, rfl⟩
  obtain ⟨s', hs'⟩ := exists_generateVectors_iff.mpr ⟨_, hload⟩
  obtain ⟨suite, suite', hsuite, -, -, -, hzero, -⟩ := verify_after_generate hs'
  obtain rfl := Except.ok.inj (hsuite.symm.trans hload)
  refine ⟨s', hs', hzero.mpr (List.forall_mem_singleton.mpr fun x hx => ?_)⟩
  obtain rfl := Number.float.inj (Value.occurs_number_iff.mp hx)
  exact Binary64.keptByText_iff.mpr ⟨rfl, by decide +kernel⟩

/-- **A suite that was generated need not pass its own check**: the input `1e-24` is read as the
double above the nearest one and stored as `1.0000000000000001e-24`, which is read as the nearest
one. -/
theorem verify_fails_after_generate :
    ∃ s', generateVectors (documentSession
        "[\x7b\"description\":\"d\",\"input\":1e-24\x7d]".toList) "p.json" = (.exit 0, s') ∧
      (verifyVectors s' true ["p.json"]).1 = .exit 1 := by
  have hload : loadSuite (documentSession
      "[\x7b\"description\":\"d\",\"input\":1e-24\x7d]".toList).files "p.json"
      = .ok ⟨[⟨"d", .number (.float ⟨false, 0x3AF357C299A88EA8, by decide⟩), "", ""⟩]⟩ :=
    loadSuite_eq_ok_iff.mpr ⟨_, Files.readText?_of_read? rfl, rfl⟩
  obtain ⟨s', hs'⟩ := exists_generateVectors_iff.mpr ⟨_, hload⟩
  have hkept : ¬Value.KeptByText (.number (.float ⟨false, 0x3AF357C299A88EA8, by decide⟩)) :=
    fun h => absurd (Binary64.keptByText_iff.mp (h _ (Value.occurs_number_iff.mpr rfl))).2
      (by decide +kernel)
  exact ⟨s', hs', (verifyVectors_of_generateVectors hs' hload).2.mpr
    ⟨_, List.mem_singleton_self _, hkept⟩⟩

end Cli

end SealedLedger
