import SealedLedger.Proofs.Value.Numbers

/-!
# The order of members never shows

The members of an object may have been inserted in any order. The writer sorts them before it looks
for a repeated key, and it looks for one before it writes any of their values. So a rearranged value
is not only written the same when it is written; it is also refused the same, for the same key or
for the same number, even when members of one key have changed places with each other.

## Main definitions

* `Value.Rearranged` — members of objects have changed places, at any depth

## Main results

* `Canonical.text_eq_of_rearranged` — the text, or the refusal, is kept
* `canonicalize_order_independent` — which values have canonical bytes, and that the order of
  members makes no difference
-/

namespace SealedLedger

/-- The second value is the first one with the members of objects inside it rearranged: those of the
value itself, of an item or of a member, and any number of times. -/
inductive Value.Rearranged : Value → Value → Prop
  | refl (v : Value) : Rearranged v v
  | trans {u v w : Value} (huv : Rearranged u v) (hvw : Rearranged v w) : Rearranged u w
  | members {ms ns : List (String × Value)} (h : ms.Perm ns) : Rearranged (.object ms) (.object ns)
  | item {v w : Value} (before behind : List Value) (h : Rearranged v w) :
    Rearranged (.array (before ++ v :: behind)) (.array (before ++ w :: behind))
  | member {v w : Value} (before behind : List (String × Value)) (k : String)
    (h : Rearranged v w) :
    Rearranged (.object (before ++ (k, v) :: behind)) (.object (before ++ (k, w) :: behind))

namespace Canonical

open Value (Rearranged)

/-- **A rearranged value is written the same, and refused the same.** -/
theorem text_eq_of_rearranged {v w : Value} (h : Rearranged v w) : text v = text w := by
  induction h with
  | refl => rfl
  | trans _ _ huv hvw => rw [huv, hvw]
  | members h => exact text_eq_of_perm h
  | @item v w before behind _ ih =>
    have hitems : (before ++ v :: behind).map text = (before ++ w :: behind).map text := by
      rw [List.map_append, List.map_append, List.map_cons, List.map_cons, ih]
    rw [text, text, itemTexts_congr hitems]
  | @member v w before behind k _ ih =>
    rw [text, text, memberTexts_eq, memberTexts_eq, List.map_append, List.map_append, List.map_cons,
      List.map_cons, ih]

end Canonical

/-- **The order of members never shows.** A value has canonical bytes exactly when no object inside
it repeats a key and all doubles inside it are finite. Whether it has them or not, a value that
comes from it by rearranging the members of any objects inside it, at any depth, has the same bytes
or is refused for the same key or the same number. -/
theorem canonicalize_order_independent (v : Value) :
    ((∃ c, canonicalize v = .ok c) ↔
      v.HasDistinctKeys ∧ ∀ x, Value.Occurs (.number (.float x)) v → x.isFinite = true) ∧
    ∀ w, v.Rearranged w → canonicalize w = canonicalize v := by
  constructor
  · rw [Canonical.exists_canonicalize_iff, Value.exists_writes_iff]
    refine and_congr_right fun _ => ⟨fun h x hx => h (.float x) hx, fun h n hn => ?_⟩
    cases n with
    | int i => rfl
    | uint u => rfl
    | float x => exact h x hn
  · intro w h
    rw [canonicalize, canonicalize, Canonical.text_eq_of_rearranged h]

/-- Inside an array, two members of one key change places, one of them a number that is not
finite. -/
theorem canonicalize_order_independent_repeated :
    ∃ v w : Value, v.Rearranged w ∧ v ≠ w ∧
      canonicalize v = .error (.repeatedKey "b") ∧ canonicalize w = .error (.repeatedKey "b") := by
  set v : Value := .array [.object [("b", .number (.float .nan)), ("b", .null)]]
  set w : Value := .array [.object [("b", .null), ("b", .number (.float .nan))]]
  have hvw : v.Rearranged w := .item [] [] (.members (.swap _ _ _))
  have hle : ∀ p q : Except CanonicalError (List Char),
      Value.keyLE ("b", p) ("b", q) = true := fun p q => Value.keyLE_iff.mpr (List.le_refl _)
  have hsorted : ∀ p q : Except CanonicalError (List Char),
      [("b", p), ("b", q)].mergeSort Value.keyLE = [("b", p), ("b", q)] := fun p q => by
    simp [List.mergeSort, hle]
  have hv : canonicalize v = .error (.repeatedKey "b") := by
    simp only [v, canonicalize, Canonical.text, Canonical.itemTexts, Canonical.object,
      Canonical.memberTexts, Canonical.memberText, hsorted]
    rfl
  refine ⟨v, w, hvw, fun h => ?_, hv, ((canonicalize_order_independent v).2 w hvw).trans hv⟩
  have hmembers := Value.object.inj (List.cons.inj (Value.array.inj h)).1
  cases (List.cons.inj hmembers).1

end SealedLedger
