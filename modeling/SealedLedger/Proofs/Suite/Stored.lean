import SealedLedger.Proofs.Json.Records
import SealedLedger.Proofs.Json.Written
import SealedLedger.Suite

/-!
# A stored suite is read back

A vector is written as an object with all four fields, and it is read member by member into a draft,
as an entry of a ledger is. Its texts come back as they were, and only the numbers of its input may
have changed, each to the one that its own text stands for.

## Main definitions

* `TestVector.withNumbers`, `Suite.withNumbers` — with the numbers of the inputs replaced
* `TestVector.Draft.put` — a draft with one more field of a vector
* `TestVector.form` — how vectors are read from objects

## Main results

* `TestVector.reads_vector` — a vector is read back
* `Suite.exists_json?_iff` — a suite is written when its inputs have finite numbers only
* `Suite.ofJson?_json?` — what is read from the text of a suite
-/

namespace SealedLedger

open Json (Reads SkipsSpace)

namespace TestVector

/-! ### Fields -/

/-- The stored form of a field. -/
def fieldValue (v : TestVector) : Field → Value
  | .description => .string v.description
  | .input => v.input
  | .expectedCanonical => .string v.expectedCanonical
  | .expectedHash => .string v.expectedHash

theorem toValue_eq (v : TestVector) :
    v.toValue = .object (Field.all.map fun f => (f.name, v.fieldValue f)) :=
  rfl

theorem Field.mem_all (f : Field) : f ∈ all := by
  cases f <;> decide

theorem Field.ofName?_name (f : Field) : ofName? f.name = some f := by
  cases f <;> decide

/-- The vector with each number of its input replaced. -/
def withNumbers (f : Number → Number) (v : TestVector) : TestVector :=
  { v with input := v.input.mapNumbers f }

/-! ### Drafts -/

namespace Draft

/-- The draft with one more field of a vector. -/
def put (v : TestVector) (d : Draft) : Field → Draft
  | .description => { d with description := some v.description }
  | .input => { d with input := some v.input }
  | .expectedCanonical => { d with expectedCanonical := some v.expectedCanonical }
  | .expectedHash => { d with expectedHash := some v.expectedHash }

end Draft

/-! ### Reading a vector -/

theorem skipsSpace_fieldReader (depth : Json.Depth) (d : Draft) (f : Field) :
    SkipsSpace (fieldReader depth d f) := by
  cases f with
  | description => exact (Json.skipsSpace_text _).map _
  | input => exact (Json.value_skipSpace true depth).map _
  | expectedCanonical => exact (Json.skipsSpace_text _).map _
  | expectedHash => exact (Json.skipsSpace_text _).map _

/-- How vectors are read from objects. -/
def form (depth : Json.Depth) : Json.RecordForm Field Draft TestVector where
  fields := Field.all
  name := Field.name
  empty := .empty
  has := Draft.has
  put := Draft.put
  complete? := Draft.vector?
  field := fieldReader depth
  member := memberReader depth
  inside := objectReader depth
  nodup := by decide
  has_empty := fun f _ => by cases f <;> rfl
  has_put_of_ne := fun v d f g h => by cases f <;> cases g <;> first | rfl | exact absurd rfl h
  complete?_put := fun v => rfl
  skipsSpace := skipsSpace_fieldReader depth
  member_eq := fun hnew hcolon => by simp [memberReader, Field.ofName?_name, hnew, hcolon]
  inside_eq := fun hmembers hrecord => by simp only [objectReader, hmembers, hrecord]

section

variable {s : Json.Spacing} {n : Nat} {depth : Json.Depth} {v : TestVector} {f : Field}
  {t : List Char}

/-- **A field is read back from its stored text.** -/
theorem reads_field (hs : s.IsBlank) (hkeys : v.input.HasDistinctKeys)
    (hdepth : v.input.NestsWithin depth) (hw : Json.write s n (v.fieldValue f) = .ok t)
    (d : Draft) : Reads (fieldReader depth d f) t (d.put (v.withNumbers Number.stored) f) := by
  cases f with
  | description =>
    rw [Json.eq_of_write_string hw]
    exact (Json.reads_text _ _).map _
  | input => exact (Json.reads_write hs hw (fun _ => hkeys) hdepth).map _
  | expectedCanonical =>
    rw [Json.eq_of_write_string hw]
    exact (Json.reads_text _ _).map _
  | expectedHash =>
    rw [Json.eq_of_write_string hw]
    exact (Json.reads_text _ _).map _

/-- **A vector is read back from its stored text**, with the numbers of its input read again. -/
theorem reads_vector (hs : s.IsBlank) (hkeys : v.input.HasDistinctKeys)
    (hdepth : v.input.NestsWithin depth) (hw : Json.write s n v.toValue = .ok t) :
    Reads (reader (depth + 1)) t (v.withNumbers Number.stored) := by
  rw [toValue_eq] at hw
  obtain ⟨u, rfl, hread⟩ := (form depth).reads_written hs v.fieldValue
    (v.withNumbers Number.stored) (fun f u d hu => reads_field hs hkeys hdepth hu d) hw
  exact Json.reads_record hread

end

end TestVector

/-! ### Suites -/

namespace Suite

variable {suite : Suite} {t : List Char}

/-- The suite with each number of its inputs replaced. -/
def withNumbers (f : Number → Number) (suite : Suite) : Suite :=
  ⟨suite.vectors.map (TestVector.withNumbers f)⟩

theorem json?_eq_ok_iff :
    suite.json? = .ok t ↔ ∃ u, Json.indented suite.toValue = .ok u ∧ t = u ++ ['\n'] :=
  map_eq_ok_iff

theorem occurs_toValue_iff {n : Number} :
    Value.Occurs (.number n) suite.toValue ↔
      ∃ v ∈ suite.vectors, Value.Occurs (.number n) v.input := by
  have hvector : ∀ v : TestVector,
      Value.Occurs (.number n) v.toValue ↔ Value.Occurs (.number n) v.input := by
    intro v
    rw [TestVector.toValue_eq, Value.occurs_object_iff]
    constructor
    · rintro ⟨m, hm, hn⟩
      obtain ⟨f, -, rfl⟩ := List.mem_map.mp hm
      cases f with
      | input => exact hn
      | _ => cases hn
    · exact fun hn => ⟨_, List.mem_map_of_mem (TestVector.Field.mem_all .input), hn⟩
  rw [toValue, Value.occurs_array_iff]
  simp only [List.mem_map, exists_exists_and_eq_and, hvector]

/-- **A suite is written when its inputs have finite numbers only.** -/
theorem exists_json?_iff : (∃ t, suite.json? = .ok t) ↔
    ∀ v ∈ suite.vectors, ∀ n, Value.Occurs (.number n) v.input → n.isFinite = true := by
  have hwrite : (∃ t, suite.json? = .ok t) ↔ ∃ u, Json.write .lines 0 suite.toValue = .ok u := by
    constructor
    · rintro ⟨t, ht⟩
      obtain ⟨u, hu, -⟩ := json?_eq_ok_iff.mp ht
      exact ⟨u, hu⟩
    · rintro ⟨u, hu⟩
      exact ⟨_, json?_eq_ok_iff.mpr ⟨u, hu, rfl⟩⟩
  rw [hwrite, Json.exists_write_iff]
  constructor
  · exact fun h v hv n hn => h n (occurs_toValue_iff.mpr ⟨v, hv, hn⟩)
  · intro h n hn
    obtain ⟨v, hv, hn⟩ := occurs_toValue_iff.mp hn
    exact h v hv n hn

/-- **What is read from the text of a suite**: its vectors in their order, with the numbers of their
inputs read again. -/
theorem ofJson?_json? (ht : suite.json? = .ok t)
    (hkeys : ∀ v ∈ suite.vectors, v.input.HasDistinctKeys)
    (hdepth : ∀ v ∈ suite.vectors, v.input.NestsWithin 125) :
    ofJson? (Utf8.encode t) = .ok (suite.withNumbers Number.stored) := by
  obtain ⟨u, hu, rfl⟩ := json?_eq_ok_iff.mp ht
  have hread := Json.reads_written_sequence Json.isBlank_lines hu fun v hv _ ht =>
    TestVector.reads_vector Json.isBlank_lines (hkeys v hv) (hdepth v hv) ht
  rw [ofJson?, show Json.maxDepth = 126 + 1 from rfl, hread.whole_append Json.isBlank_lineEnd]
  rfl

end Suite

end SealedLedger
