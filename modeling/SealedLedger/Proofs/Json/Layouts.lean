import SealedLedger.Proofs.Json.Strict
import SealedLedger.Proofs.Json.Written

/-!
# Layout never changes what is read

A value is stored in a layout, and every layout sets nothing but blanks around the same items. The
reader finds the same value in each of them: the members in their order, and each number as its own
text is read. Whether it finds one at all is up to the value as well. It is refused in every layout
when a key repeats in one of its objects, or when it nests deeper than the reader follows, and in no
other case, since the text of a number is never out of range.

## Main results

* `Json.tree?_written_iff`, `Json.read?_written_iff` — what is read of a text that was written
* `Json.compact_indented_read_alike` — the compact and the indented text of a value
-/

namespace SealedLedger

namespace Json

open Value (NestsWithin HasDistinctKeys)

section

variable {s : Spacing} {d : Nat} {v w : Value} {t post : List Char}

/-- With any keys, a text that was written is read when its containers are within the limit. -/
theorem tree?_written_iff (hs : s.IsBlank) (hw : write s d v = .ok t) (hpost : IsBlank post) :
    tree? (Utf8.encode (t ++ post)) = .ok w ↔
      v.NestsWithin maxDepth ∧ w = v.mapNumbers Number.stored := by
  by_cases hdepth : v.NestsWithin maxDepth
  · have hreads : Reads (value false maxDepth) t (v.mapNumbers Number.stored) :=
      reads_write hs hw (fun h => by cases h) hdepth
    rw [tree?, hreads.whole_append hpost]
    exact ⟨fun h => ⟨hdepth, (Except.ok.inj h).symm⟩, fun h => h.2 ▸ rfl⟩
  · obtain ⟨e, he⟩ := (refuses_write hs hw hdepth).whole_append hpost
    rw [tree?, he]
    exact ⟨fun h => (by cases h), fun h => absurd h.1 hdepth⟩

/-- **What is read of a text that was written**: the value with its numbers read again, unless one
of its objects repeats a key or its containers exceed the limit. -/
theorem read?_written_iff (hs : s.IsBlank) (hw : write s d v = .ok t) (hpost : IsBlank post) :
    read? (Utf8.encode (t ++ post)) = .ok w ↔
      (v.HasDistinctKeys ∧ v.NestsWithin maxDepth) ∧ w = v.mapNumbers Number.stored := by
  constructor
  · intro h
    obtain ⟨hdepth, rfl⟩ := (tree?_written_iff hs hw hpost).mp (tree?_of_read? h)
    have hkeys := Value.hasDistinctKeys_of_writes (isAccepted_of_read? h).exists_writes
    exact ⟨⟨Value.hasDistinctKeys_mapNumbers_iff.mp hkeys, hdepth⟩, rfl⟩
  · rintro ⟨⟨hkeys, hdepth⟩, rfl⟩
    exact (reads_write hs hw (fun _ => hkeys) hdepth).whole_append hpost

end

/-- **The compact and the indented text of a value are read alike.** A value has both or neither.
Where its keys are distinct in each object and its containers are within the limit of the reader,
both are read as the same value: it has the same members in the same order, and each of its numbers
as the stored text of the number is read. In any other case both are refused. -/
theorem compact_indented_read_alike (v : Value) :
    ((∃ t, compact v = .ok t) ↔ ∃ t, indented v = .ok t) ∧
    ∀ t u, compact v = .ok t → indented v = .ok u →
      (v.HasDistinctKeys ∧ v.NestsWithin maxDepth →
        read? (Utf8.encode t) = .ok (v.mapNumbers Number.stored) ∧
        read? (Utf8.encode u) = .ok (v.mapNumbers Number.stored)) ∧
      (¬ (v.HasDistinctKeys ∧ v.NestsWithin maxDepth) →
        (∃ e, read? (Utf8.encode t) = .error e) ∧ ∃ e, read? (Utf8.encode u) = .error e) := by
  have hread : ∀ {s : Spacing} {t : List Char}, s.IsBlank → write s 0 v = .ok t → ∀ w,
      read? (Utf8.encode t) = .ok w ↔
        (v.HasDistinctKeys ∧ v.NestsWithin maxDepth) ∧ w = v.mapNumbers Number.stored := by
    intro s t hs ht w
    simpa using read?_written_iff (w := w) hs ht isBlank_nil
  have hrefused : ∀ {s : Spacing} {t : List Char}, s.IsBlank → write s 0 v = .ok t →
      ¬ (v.HasDistinctKeys ∧ v.NestsWithin maxDepth) → ∃ e, read? (Utf8.encode t) = .error e := by
    intro s t hs ht hv
    cases h : read? (Utf8.encode t) with
    | error e => exact ⟨e, rfl⟩
    | ok w => exact absurd ((hread hs ht w).mp h).1 hv
  refine ⟨exists_write_iff.trans exists_write_iff.symm,
    fun t u ht hu => ⟨fun hv => ?_, fun hv => ?_⟩⟩
  · exact ⟨(hread isBlank_none ht _).mpr ⟨hv, rfl⟩, (hread isBlank_lines hu _).mpr ⟨hv, rfl⟩⟩
  · exact ⟨hrefused isBlank_none ht hv, hrefused isBlank_lines hu hv⟩

/-- An object whose members are out of order, with empty containers in it and an unsigned word that
fits a signed one; and an object that repeats a key. -/
theorem compact_indented_read_alike_nested :
    (∃ v t u, compact v = .ok t ∧ indented v = .ok u ∧
      t = "\x7b\"b\":[\x7b\x7d,7],\"a\":[]\x7d".toList ∧
      u = "\x7b\n  \"b\": [\n    \x7b\x7d,\n    7\n  ],\n  \"a\": []\n\x7d".toList ∧
      read? (Utf8.encode t) = read? (Utf8.encode u) ∧
      read? (Utf8.encode u)
        = .ok (.object [("b", .array [.object [], .number (.int 7)]), ("a", .array [])])) ∧
    ∃ v t u, compact v = .ok t ∧ indented v = .ok u ∧ t = "\x7b\"a\":0,\"a\":1\x7d".toList ∧
      (∃ e, read? (Utf8.encode t) = .error e) ∧ ∃ e, read? (Utf8.encode u) = .error e := by
  constructor
  · let v : Value := .object [("b", .array [.object [], .number (.uint 7)]), ("a", .array [])]
    have hnumber : (Value.number (.uint 7)).HasDistinctKeys := by rintro _ ⟨⟩
    have hkeys : v.HasDistinctKeys := by
      simp [v, Value.hasDistinctKeys_object_iff, Value.hasDistinctKeys_array_iff, hnumber]
    have hdepth : v.NestsWithin maxDepth := by
      simp [v, NestsWithin, maxDepth]
    obtain ⟨ht, hu⟩ := ((compact_indented_read_alike v).2 _ _ rfl rfl).1 ⟨hkeys, hdepth⟩
    exact ⟨v, _, _, rfl, rfl, rfl, rfl, ht.trans hu.symm, hu⟩
  · let v : Value := .object [("a", .number (.int 0)), ("a", .number (.int 1))]
    have hkeys : ¬ v.HasDistinctKeys := fun h => absurd (h _ .here) (by decide)
    exact ⟨v, _, _, rfl, rfl, rfl,
      ((compact_indented_read_alike v).2 _ _ rfl rfl).2 fun h => hkeys h.1⟩

end Json

end SealedLedger
