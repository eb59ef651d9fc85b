import SealedLedger.Proofs.Canonical.Stability

/-!
# What is read from canonical bytes

The canonical bytes of a value are read as the value tidied, with each of its numbers read again. A
number is read in its place as it is read alone: what stands around it in the text makes no
difference. So the shape of a value, its strings and its keys come back as they were, the members of
each object come back in order, an integer comes back as the integer, and only a double may come
back as another number.

## Main results

* `Json.read?_number` — a number that stands alone
* `read?_decodes_canonical` — the value that is read from canonical bytes
-/

namespace SealedLedger

/-- A finite number has canonical bytes, and they are read as the number of its text. -/
theorem Json.read?_number {n : Number} (h : n.isFinite = true) :
    ∃ t, canonicalize (.number n) = .ok t ∧ read? t = .ok (.number n.reread) := by
  have hwrites : Canonical.Writes (.number n) n.numeral.text := Canonical.number_of_isFinite h
  have hc := Canonical.canonicalize_eq_ok_iff.mpr ⟨_, hwrites, rfl⟩
  exact ⟨_, hc, read?_canonicalize hc trivial⟩

theorem Number.reread_uint (u : UInt64) : (Number.uint u).reread = .ofUInt64 u := by
  rw [reread, number?_uint, Option.getD_some]

/-- **Canonical bytes are read as the value tidied, with its numbers read again**, as long as its
containers are within the limit. The members of each object stand in the order of the bytes of their
keys. A signed word is read as itself, an unsigned one as the same word, signed where it fits, and a
double as its own canonical bytes are read when they stand alone. -/
theorem read?_decodes_canonical {v : Value} {c : List UInt8} (hc : canonicalize v = .ok c)
    (hdepth : v.NestsWithin 127) :
    ∃ decode : Number → Number,
      (∀ i, decode (.int i) = .int i) ∧ (∀ u, decode (.uint u) = .ofUInt64 u) ∧
      (∀ x, Value.Occurs (.number (.float x)) v → ∃ t, canonicalize (.number (.float x)) = .ok t ∧
        Json.read? t = .ok (.number (decode (.float x)))) ∧
      Json.read? c = .ok (v.tidy.mapNumbers decode) ∧
      ∀ ms, Value.Occurs (.object ms) v.tidy → ms.Pairwise fun m n => utf8 m.1 ≤ utf8 n.1 := by
  have hwrites := Canonical.exists_canonicalize_iff.mp ⟨c, hc⟩
  have hkeys := Value.hasDistinctKeys_of_writes hwrites
  refine ⟨Number.reread, Number.reread_int, Number.reread_uint, fun x hx => ?_, ?_,
    fun ms hms => ?_⟩
  · exact Json.read?_number (Canonical.isFinite_of_occurs hwrites hx)
  · rw [← Value.reread_eq hkeys]
    exact Json.read?_canonicalize hc hdepth
  · exact (Value.pairwise_of_occurs_tidy hkeys hms).imp Value.keyLE_iff.mp

/-- An object whose members are out of order, with a string that is escaped, an unsigned word that
fits a signed one, and a double that is written as an integer. -/
theorem read?_decodes_canonical_reordered :
    ∃ c, canonicalize (.object [("b", .number (.uint 7)),
        ("a", .array [.string "\n\"", .number (.float (.ofNat 2))])]) = .ok c ∧
      Json.read? c = .ok (.object [("a", .array [.string "\n\"", .number (.int 2)]),
        ("b", .number (.int 7))]) := by
  have hle : ∀ {α : Type} (p q : α),
      Value.keyLE ("b", p) ("a", q) = false ∧ Value.keyLE ("a", q) ("b", p) = true := fun p q =>
    ⟨show decide (utf8 "b" ≤ utf8 "a") = false by decide +kernel,
      show decide (utf8 "a" ≤ utf8 "b") = true by decide +kernel⟩
  have hsort : ∀ {α : Type} (p q : α),
      [("b", p), ("a", q)].mergeSort Value.keyLE = [("a", q), ("b", p)] := fun p q => by
    simp [List.mergeSort, hle]
  have hc : canonicalize (.object [("b", .number (.uint 7)),
        ("a", .array [.string "\n\"", .number (.float (.ofNat 2))])])
      = .ok (Utf8.encode "\x7b\"a\":[\"\\n\\\"\",2],\"b\":7\x7d".toList) := by
    simp only [canonicalize, Canonical.text, Canonical.object, Canonical.memberTexts,
      Canonical.memberText, hsort]
    decide +kernel
  obtain ⟨decode, -, huint, hfloat, hread, -⟩ :=
    read?_decodes_canonical hc (by simp [Value.NestsWithin])
  have htwo : decode (.float (.ofNat 2)) = .int 2 := by
    obtain ⟨t, ht, hreads⟩ := hfloat (.ofNat 2) (.member (.tail _ (.head _))
      (.item (.tail _ (.head _)) .here))
    have htext : canonicalize (.number (.float (.ofNat 2))) = .ok (utf8 "2") := by decide +kernel
    obtain rfl := Except.ok.inj (htext.symm.trans ht)
    have hnumber : Json.read? (utf8 "2") = .ok (.number (.int 2)) := rfl
    exact (Value.number.inj (Except.ok.inj (hnumber.symm.trans hreads))).symm
  refine ⟨_, hc, ?_⟩
  rw [hread, Value.tidy_object (by decide), hsort]
  simp only [List.map_cons, List.map_nil, Value.tidy, Value.tidyItems, Value.mapNumbers,
    Value.mapNumbersMembers, Value.mapNumbersMember, Value.mapNumbersItems, huint, htwo]
  rfl

end SealedLedger
