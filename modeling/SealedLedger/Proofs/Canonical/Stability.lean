import SealedLedger.Proofs.Canonical.Doubles
import SealedLedger.Proofs.Json.Accepted
import SealedLedger.Proofs.Json.Reread
import SealedLedger.Proofs.Value.Tidied

/-!
# When canonical bytes come back

Reading the canonical bytes of a value and writing the result again should give the same bytes. What
is read is the tidied value with each of its numbers read again, and tidying changes no bytes. So
all of it does come back but for some doubles: the reader multiplies or divides by a power of ten in
a step that rounds a second time, and so may return a neighbour of the double that was written. The
bytes of a value come back exactly when the reader returns each of its doubles, or the double is
written as an integer that fits a word. It does return short fractions.

## Main definitions

* `Canonical.Stable` — canonical bytes that are read and written again without a change

## Main results

* `Value.reread_eq` — the value that is read, as its tidied form with other numbers
* `Canonical.stable_iff` — a value is stable exactly when all its numbers come back
* `reread_canonical_iff` — the condition for every text that the reader accepts
-/

namespace SealedLedger

/-! ### What is read -/

namespace Value

/-- **What is read is the tidied value with each number read again.** -/
theorem reread_eq {v : Value} (h : v.HasDistinctKeys) :
    v.reread = v.tidy.mapNumbers Number.reread := by
  induction v using Value.induction with
  | null => rfl
  | bool b => rfl
  | number n => rfl
  | string s => rfl
  | array items ih =>
    rw [reread_array, tidy_array, mapNumbers_array, List.map_map]
    exact congrArg Value.array (List.map_congr_left fun v hv => ih v hv (h.item hv))
  | object ms ih =>
    rw [reread_object, tidy_object (h ms .here), mapNumbers_object, List.map_map]
    refine congrArg Value.object (List.map_congr_left fun m hm => ?_)
    have hm := List.mem_mergeSort.mp hm
    rw [ih m hm (h.member hm), Function.comp_apply]

end Value

namespace Canonical

open Value (NestsWithin Occurs)

/-! ### Stable values -/

/-- The canonical bytes of the value are read as a value with the same canonical bytes. -/
def Stable (v : Value) : Prop :=
  ∃ c w, canonicalize v = .ok c ∧ Json.read? c = .ok w ∧ canonicalize w = .ok c

/-- **A value is stable exactly when all its numbers come back.** -/
theorem stable_iff {v : Value} (h : ∃ t, Writes v t) (hdepth : v.NestsWithin Json.maxDepth) :
    Stable v ↔ ∀ n, Occurs (.number n) v → ComesBack n := by
  have hkeys := Value.hasDistinctKeys_of_writes h
  obtain ⟨c, hc⟩ := exists_canonicalize_iff.mpr h
  have hread := Json.read?_canonicalize hc hdepth
  have hstable : Stable v ↔ canonicalize v.reread = .ok c := by
    constructor
    · rintro ⟨c', w, hc', hw, hcw⟩
      obtain rfl := Except.ok.inj (hc.symm.trans hc')
      obtain rfl := Except.ok.inj (hread.symm.trans hw)
      exact hcw
    · exact fun hcw => ⟨c, v.reread, hc, hread, hcw⟩
  rw [hstable, Value.reread_eq hkeys, canonicalize_mapNumbers_iff (canonicalize_tidy hc)]
  exact forall_congr' fun n => imp_congr_left (Value.occurs_number_tidy_iff hkeys)

theorem comesBack_int (i : Int64) : ComesBack (.int i) := by
  rw [ComesBack, Number.reread_int]

theorem comesBack_uint (u : UInt64) : ComesBack (.uint u) :=
  Number.number_reread_uint u

/-- **A value is stable exactly when each double in it is read back.** -/
theorem stable_iff_forall_float {v : Value} (h : ∃ t, Writes v t)
    (hdepth : v.NestsWithin Json.maxDepth) :
    Stable v ↔ ∀ x, Occurs (.number (.float x)) v → x.ReadsBack := by
  rw [stable_iff h hdepth]
  constructor
  · intro hall x hx
    exact (comesBack_float_iff (isFinite_of_occurs h hx)).mp (hall _ hx)
  · intro hall n hn
    cases n with
    | int i => exact comesBack_int i
    | uint u => exact comesBack_uint u
    | float x => exact (comesBack_float_iff (isFinite_of_occurs h hn)).mpr (hall x hn)

end Canonical

/-- **Every text that is accepted has canonical bytes, and these are accepted again. They come back
unchanged exactly when each double of the text is read back**, as it is when it is written as an
integer that fits a word or as a short fraction. -/
theorem reread_canonical_iff {input : List UInt8} {v : Value} (h : Json.read? input = .ok v) :
    ∃ c w, canonicalize v = .ok c ∧ Json.read? c = .ok w ∧
      (canonicalize w = .ok c ↔ ∀ x, Value.Occurs (.number (.float x)) v → x.ReadsBack) ∧
      ((∀ x, Value.Occurs (.number (.float x)) v →
        (Number.float x).numeral.word?.isSome = true ∨ x.IsShort) → canonicalize w = .ok c) := by
  obtain ⟨hdepth, hwrites⟩ := Json.isAccepted_of_read? h
  obtain ⟨c, hc⟩ := Json.exists_canonicalize_of_read? h
  have hread := Json.read?_canonicalize hc hdepth
  have hiff : canonicalize v.reread = .ok c ↔
      ∀ x, Value.Occurs (.number (.float x)) v → x.ReadsBack := by
    rw [← Canonical.stable_iff_forall_float hwrites hdepth]
    constructor
    · exact fun hw => ⟨c, v.reread, hc, hread, hw⟩
    · rintro ⟨c', w, hc', hw, hcw⟩
      obtain rfl := Except.ok.inj (hc.symm.trans hc')
      obtain rfl := Except.ok.inj (hread.symm.trans hw)
      exact hcw
  refine ⟨c, v.reread, hc, hread, hiff, fun hshort => hiff.mpr fun x hx => ?_⟩
  rcases hshort x hx with hword | hx'
  · exact .inl hword
  · exact hx'.readsBack (Canonical.isFinite_of_occurs hwrites hx)

/-- The bytes of `1.5` come back. -/
theorem reread_canonical_iff_three_halves :
    ∃ v c w, Json.read? (utf8 "1.5") = .ok v ∧ canonicalize v = .ok c ∧ Json.read? c = .ok w ∧
      canonicalize w = .ok c := by
  have hread : Json.read? (utf8 "1.5")
      = .ok (.number (.float ⟨false, 0x3FF8000000000000, by decide⟩)) := rfl
  obtain ⟨c, w, hc, hw, hiff, -⟩ := reread_canonical_iff hread
  refine ⟨_, c, w, hread, hc, hw, hiff.mpr fun x hx => ?_⟩
  obtain rfl := Number.float.inj (Value.occurs_number_iff.mp hx)
  decide +kernel

/-- **The canonical bytes of an accepted text need not come back**: the text `1e-24` is read as the
double above the nearest one. Its canonical bytes `1.0000000000000001e-24` are read as the nearest
one, whose canonical bytes are `1e-24`. -/
theorem canonical_bytes_changed :
    ∃ v c w, Json.read? (utf8 "1e-24") = .ok v ∧ canonicalize v = .ok c ∧
      c = utf8 "1.0000000000000001e-24" ∧ Json.read? c = .ok w ∧
      canonicalize w = .ok (utf8 "1e-24") ∧ canonicalize w ≠ .ok c := by
  have hread : Json.read? (utf8 "1e-24")
      = .ok (.number (.float ⟨false, 0x3AF357C299A88EA8, by decide⟩)) := rfl
  have hagain : Json.read? (utf8 "1.0000000000000001e-24")
      = .ok (.number (.float ⟨false, 0x3AF357C299A88EA7, by decide⟩)) := rfl
  refine ⟨_, _, _, hread, ?_, rfl, hagain, ?_, ?_⟩ <;> decide +kernel

end SealedLedger
