import SealedLedger.Proofs.Canonical.Stability
import SealedLedger.Proofs.Json.StoredNumbers

/-!
# Values that are kept by their texts

What is hashed of a value is its canonical text, and what is read again is its stored text. The
canonical bytes of a value come back from the stored text exactly when each double in it is read as
the same double. What is read is kept again, so that nothing is lost by reading it more than once.

## Main definitions

* `Value.KeptByText` — each double of a value is kept by its text
* `Value.storedTimes` — a value that has been stored and read again a number of times

## Main results

* `Value.keptByText_iff` — a value is kept exactly when its canonical bytes come back
* `Value.KeptByText.mapNumbers_stored` — what is read is kept again
-/

namespace SealedLedger

namespace Value

/-- Each double in the value is kept by its text. -/
def KeptByText (v : Value) : Prop :=
  ∀ x, Occurs (.number (.float x)) v → x.KeptByText

/-- What the value has become after it was stored and read again a number of times. -/
def storedTimes (times : Nat) (v : Value) : Value :=
  (mapNumbers Number.stored)^[times] v

variable {v : Value}

theorem storedTimes_succ (times : Nat) (v : Value) :
    v.storedTimes (times + 1) = (v.storedTimes times).mapNumbers Number.stored :=
  Function.iterate_succ_apply' _ _ _

theorem keptByText_emptyObject : KeptByText .emptyObject := by
  intro x hx
  obtain ⟨m, hm, -⟩ := occurs_object_iff.mp hx
  cases hm

/-- What is read is kept again. -/
theorem KeptByText.mapNumbers_stored (h : v.KeptByText) :
    (v.mapNumbers Number.stored).KeptByText := by
  intro x hx
  obtain ⟨n, hn, hx⟩ := exists_of_occurs_mapNumbers hx
  cases n with
  | int i =>
    rw [Number.stored_int] at hx
    cases hx
  | uint u =>
    rw [Number.stored_uint, Number.ofUInt64] at hx
    split at hx <;> cases hx
  | float y =>
    rw [(Binary64.keptByText_iff.mp (h y hn)).2] at hx
    rw [Number.float.inj hx]
    exact h y hn

/-- **A value is kept exactly when its canonical bytes come back** from its stored text. -/
theorem keptByText_iff {c : List UInt8} (hc : canonicalize v = .ok c) :
    v.KeptByText ↔ canonicalize (v.mapNumbers Number.stored) = .ok c := by
  rw [Canonical.canonicalize_mapNumbers_iff hc]
  constructor
  · intro h n hn
    rw [Number.stored_eq_settled fun x hx => h x (hx ▸ hn), Number.number_settled]
  · intro h x hx
    have hfinite := Canonical.isFinite_of_occurs (Canonical.exists_canonicalize_iff.mp ⟨c, hc⟩) hx
    exact Binary64.keptByText_iff.mpr
      ⟨hfinite, Number.stored_eq_of_number_eq hfinite (h _ hx)⟩

end Value

end SealedLedger
