import SealedLedger.Proofs.Cli.Suites
import SealedLedger.Proofs.Suite.Outline

/-!
# What a generation leaves of a file

A suite is generated in its own file, and the file is written anew from what was loaded. Its vectors
are as many as before and in their order, and each has the description that it had. The members that
come in are the two expected texts. But a member of any other name than the four fields is not
loaded, so it is lost when the file is written.

What the file held before is said by its outline, since it need not be the text of a value. What it
holds afterwards is a value.

## Main definitions

* `Cli.IsRewrittenAs` — an item of the old file and the item in its place

## Main results

* `Suite.tree?_json?` — the value of a suite's text
* `Cli.isRewritten_of_generateVectors` — all items of a file that was generated
* `Cli.members_after_generate` — which members are kept and which come in
* `Cli.generate_drops_member` — a member that is lost
-/

namespace SealedLedger

/-! ### The text of a suite -/

namespace TestVector

variable {v : TestVector}

theorem nestsWithin_toValue {depth : Nat} :
    v.toValue.NestsWithin (depth + 1) ↔ v.input.NestsWithin depth := by
  rw [toValue_eq, Value.NestsWithin, List.forall_mem_map]
  constructor
  · exact fun h => h .input (Field.mem_all .input)
  · intro h f _
    cases f with
    | input => exact h
    | _ => cases depth <;> trivial

theorem mapNumbers_toValue (f : Number → Number) :
    v.toValue.mapNumbers f = (v.withNumbers f).toValue := by
  rw [toValue, Value.mapNumbers_object]
  rfl

end TestVector

/-- **The value of a suite's text** is the stored form of the suite, with the numbers of its inputs
read again. -/
theorem Suite.tree?_json? {suite : Suite} {t : List Char} (ht : suite.json? = .ok t)
    (hdepth : ∀ v ∈ suite.vectors, v.input.NestsWithin 125) :
    Json.tree? (Utf8.encode t)
      = .ok (.array (suite.vectors.map fun v => (v.withNumbers Number.stored).toValue)) := by
  obtain ⟨u, hu, rfl⟩ := json?_eq_ok_iff.mp ht
  have hnests : suite.toValue.NestsWithin (125 + 2) := by
    rw [toValue, Value.NestsWithin, List.forall_mem_map]
    exact fun v hv => TestVector.nestsWithin_toValue.mpr (hdepth v hv)
  have hread : Json.Reads (Json.value false (125 + 2)) u _ :=
    Json.reads_write Json.isBlank_lines hu (fun h => by cases h) hnests
  rw [Json.tree?, show Json.maxDepth = 125 + 2 from rfl, hread.whole_append Json.isBlank_lineEnd,
    toValue, Value.mapNumbers_array, List.map_map]
  simp only [Function.comp_def, TestVector.mapNumbers_toValue]

/-! ### Items that are rewritten -/

namespace TestVector

/-- The members that a vector is stored as. -/
def members (v : TestVector) : List (String × Value) :=
  Field.all.map fun f => (f.name, v.fieldValue f)

theorem map_fst_members (v : TestVector) :
    v.members.map Prod.fst = ["description", "input", "expected_canonical", "expected_hash"] :=
  rfl

end TestVector

namespace Cli

variable {s s' : Session} {path : String}

/-- The members of an item and those in their place after a generation. The description is the one
that there was, what comes in are expected texts, and no name is lost if all are names of fields. -/
structure IsRewrittenAs (ms : List Json.Glimpse) (ns : List (String × Value)) : Prop where
  description : ∃ d, (∀ t, ("description", t) ∈ ms ↔ t = some d) ∧ ("description", .string d) ∈ ns
  added : ∀ k ∈ ns.map Prod.fst, k ∉ ms.map Prod.fst →
    k = "expected_canonical" ∨ k = "expected_hash"
  kept_iff : (∀ k ∈ ms.map Prod.fst, k ∈ ns.map Prod.fst) ↔
    ∀ k ∈ ms.map Prod.fst, k ∈ ["description", "input", "expected_canonical", "expected_hash"]

theorem isRewrittenAs_members {v : TestVector} {ms : List Json.Glimpse}
    (h : TestVector.IsOutlined v.description ms) : IsRewrittenAs ms v.members where
  description := by
    obtain ⟨⟨k, t⟩, hmem, rfl⟩ := List.mem_map.mp h.required.1
    obtain rfl := h.description t hmem
    refine ⟨v.description, fun t => ⟨h.description t, ?_⟩, List.mem_cons_self⟩
    rintro rfl
    exact hmem
  added k hk hnew := by
    rw [TestVector.map_fst_members] at hk
    simp only [List.mem_cons, List.not_mem_nil, or_false] at hk
    rcases hk with rfl | rfl | hk
    · exact absurd h.required.1 hnew
    · exact absurd h.required.2 hnew
    · exact hk
  kept_iff := by rw [TestVector.map_fst_members]

/-- **The texts of a file before and after a generation.** What it holds afterwards are vectors, and
each has the description of the item in its place. -/
theorem exists_texts_of_generateVectors (h : generateVectors s path = (.exit 0, s')) :
    ∃ t t' items vs, s.files.readText? path = .ok t ∧ s'.files.readText? path = .ok t' ∧
      Json.outline? (Utf8.encode t) = .ok items ∧
      Json.tree? (Utf8.encode t') = .ok (.array (vs.map TestVector.toValue)) ∧
      List.Forall₂ (fun v item => ∀ ms, item = some ms → TestVector.IsOutlined v.description ms)
        vs items := by
  obtain ⟨suite, suite', t', hload, hregenerate, ht', hwrite, -⟩ := exists_of_generateVectors h
  obtain ⟨t, ht, hsuite⟩ := loadSuite_eq_ok_iff.mp hload
  obtain ⟨items, hitems, houtlined⟩ := Suite.exists_outline? hsuite
  have haccepted := input_accepted_of_regenerate? hload hregenerate
  have htree := Suite.tree?_json? ht' fun w hw => (haccepted w hw).nestsWithin
  have hdescriptions : suite.vectors.map TestVector.description
      = (suite'.withNumbers Number.stored).vectors.map TestVector.description := by
    have hmap := congrArg (List.map Prod.fst) (Suite.map_regenerated hregenerate)
    rw [List.map_map, List.map_map] at hmap
    rw [Suite.withNumbers, List.map_map]
    exact hmap
  refine ⟨t, t', items, (suite'.withNumbers Number.stored).vectors, ht,
    Files.readText?_of_write? hwrite, hitems, ?_, ?_⟩
  · rw [htree, Suite.withNumbers, List.map_map]
    rfl
  · -- the outline asks for the description only, and this is the same in both suites
    have hmap : List.Forall₂ (fun d item => ∀ ms, item = some ms → TestVector.IsOutlined d ms)
        (suite.vectors.map TestVector.description) items :=
      List.forall₂_map_left_iff.mpr houtlined
    rw [hdescriptions] at hmap
    exact List.forall₂_map_left_iff.mp hmap

/-- **What a generation leaves of a file.** Whenever it succeeds the file is an array of as many
objects as it had items, in their order, and each has the four fields. Where an item was an object,
the object in its place has the same description, and what comes in are the two expected texts. The
names that it had are kept exactly when they are names of the four fields. -/
theorem members_after_generate (h : generateVectors s path = (.exit 0, s')) :
    ∃ t t' items nss, s.files.readText? path = .ok t ∧ s'.files.readText? path = .ok t' ∧
      Json.outline? (Utf8.encode t) = .ok items ∧
      Json.tree? (Utf8.encode t') = .ok (.array (nss.map .object)) ∧
      List.Forall₂ (fun item ns =>
        ns.map Prod.fst = ["description", "input", "expected_canonical", "expected_hash"] ∧
          ∀ ms, item = some ms → IsRewrittenAs ms ns) items nss := by
  obtain ⟨t, t', items, vs, ht, ht', hitems, htree, hvs⟩ := exists_texts_of_generateVectors h
  refine ⟨t, t', items, vs.map TestVector.members, ht, ht', hitems, ?_, ?_⟩
  · rw [htree, List.map_map]
    rfl
  · refine List.forall₂_map_right_iff.mpr (hvs.flip.imp fun item v hv => ?_)
    exact ⟨v.map_fst_members, fun ms hms => isRewrittenAs_members (hv ms hms)⟩

/-- A suite whose one item is an object of fields only, in another order. -/
theorem members_after_generate_known :
    ∃ s' t' ns, generateVectors (documentSession
        "[\x7b\"expected_hash\":\"\",\"input\":[],\"description\":\"d\"\x7d]".toList) "p.json"
          = (.exit 0, s') ∧
      s'.files.readText? "p.json" = .ok t' ∧
      Json.tree? (Utf8.encode t') = .ok (.array [.object ns]) ∧
      ∀ k ∈ ["expected_hash", "input", "description"], k ∈ ns.map Prod.fst := by
  generalize htext : String.toList _ = text
  have hload : loadSuite (documentSession text).files "p.json"
      = .ok ⟨[⟨"d", .array [], "", ""⟩]⟩ := by
    rw [← htext]
    exact loadSuite_eq_ok_iff.mpr ⟨_, Files.readText?_of_read? rfl, rfl⟩
  have houtline : Json.outline? (Utf8.encode text)
      = .ok [some [("expected_hash", some ""), ("input", none), ("description", some "d")]] := by
    rw [← htext]
    rfl
  obtain ⟨s', hs'⟩ := exists_generateVectors_iff.mpr ⟨_, hload⟩
  obtain ⟨t, t', items, nss, ht, ht', hitems, htree, hnss⟩ := members_after_generate hs'
  obtain rfl := Except.ok.inj (ht.symm.trans (Files.readText?_of_read? rfl))
  obtain rfl := Except.ok.inj (hitems.symm.trans houtline)
  obtain ⟨ns, more, ⟨-, hns⟩, hmore, rfl⟩ := List.forall₂_cons_left_iff.mp hnss
  obtain rfl := List.forall₂_nil_left_iff.mp hmore
  exact ⟨s', t', ns, hs', ht', htree, (hns _ rfl).kept_iff.mpr (by decide)⟩

/-- **A member of another name is lost** when a suite is generated. -/
theorem generate_drops_member :
    ∃ s' t' ms ns, generateVectors (documentSession
        "[\x7b\"description\":\"d\",\"input\":1,\"note\":\"n\"\x7d]".toList) "p.json"
          = (.exit 0, s') ∧
      Json.outline? (Utf8.encode
        "[\x7b\"description\":\"d\",\"input\":1,\"note\":\"n\"\x7d]".toList) = .ok [some ms] ∧
      s'.files.readText? "p.json" = .ok t' ∧
      Json.tree? (Utf8.encode t') = .ok (.array [.object ns]) ∧
      "note" ∈ ms.map Prod.fst ∧ "note" ∉ ns.map Prod.fst := by
  generalize htext : String.toList _ = text
  have hload : loadSuite (documentSession text).files "p.json"
      = .ok ⟨[⟨"d", .number (.int 1), "", ""⟩]⟩ := by
    rw [← htext]
    exact loadSuite_eq_ok_iff.mpr ⟨_, Files.readText?_of_read? rfl, rfl⟩
  have houtline : Json.outline? (Utf8.encode text)
      = .ok [some [("description", some "d"), ("input", none), ("note", some "n")]] := by
    rw [← htext]
    rfl
  obtain ⟨s', hs'⟩ := exists_generateVectors_iff.mpr ⟨_, hload⟩
  obtain ⟨t, t', items, vs, ht, ht', hitems, htree, hvs⟩ := exists_texts_of_generateVectors hs'
  obtain rfl := Except.ok.inj (ht.symm.trans (Files.readText?_of_read? rfl))
  obtain rfl := Except.ok.inj (hitems.symm.trans houtline)
  obtain ⟨v, more, -, hmore, rfl⟩ := List.forall₂_cons_right_iff.mp hvs
  obtain rfl := List.forall₂_nil_right_iff.mp hmore
  refine ⟨s', t', _, v.members, hs', houtline, ht', htree, by decide, ?_⟩
  rw [v.map_fst_members]
  decide

end Cli

end SealedLedger
