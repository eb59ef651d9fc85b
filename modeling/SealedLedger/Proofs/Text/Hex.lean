import Mathlib.Data.List.Basic
import SealedLedger.Text.Hex

/-!
# Hexadecimal text is read back

A digit determines its value, whether it is read as a character or as a byte, and so hexadecimal
text determines the bytes it was written from.

## Main results

* `Hex.charDigit?_digit`, `Hex.digit?_digit` — reading a digit that was written
* `Hex.encode_injective`
-/

namespace SealedLedger

namespace Hex

theorem charDigit?_digit {n : Nat} (h : n < 16) : charDigit? (digit n) = some n := by
  have key : ∀ n : Fin 16, charDigit? (digit n) = some (n : Nat) := by decide
  exact key ⟨n, h⟩

theorem digit?_digit {n : Nat} (h : n < 16) :
    digit? (UInt8.ofNat (digit n).toNat) = some (UInt8.ofNat n) := by
  have key : ∀ n : Fin 16, digit? (UInt8.ofNat (digit n).toNat) = some (UInt8.ofNat n) := by decide
  exact key ⟨n, h⟩

theorem digit_inj {m n : Nat} (hm : m < 16) (hn : n < 16) (h : digit m = digit n) : m = n := by
  have := (charDigit?_digit hm).symm.trans (h ▸ charDigit?_digit hn)
  exact Option.some.inj this

theorem toNat_digit_lt {n : Nat} (h : n < 16) : (digit n).toNat < 0x80 := by
  have key : ∀ n : Fin 16, (digit n).toNat < 0x80 := by decide
  exact key ⟨n, h⟩

theorem encodeByte_injective : Function.Injective encodeByte := by
  intro a b h
  have ha := a.toNat_lt
  have hb := b.toNat_lt
  obtain ⟨hhigh, hlow⟩ := List.cons.inj h
  have h1 := digit_inj (by omega) (by omega) hhigh
  have h2 := digit_inj (by omega) (by omega) (List.cons.inj hlow).1
  exact UInt8.toNat_inj.mp (by omega)

/-- **Bytes are determined by their hexadecimal text.** -/
theorem encode_injective : Function.Injective encode := by
  intro as
  induction as with
  | nil =>
    intro bs h
    cases bs with
    | nil => rfl
    | cons b bs => simp [encodeByte] at h
  | cons a as ih =>
    intro bs h
    cases bs with
    | nil => simp [encodeByte] at h
    | cons b bs =>
      rw [encode_cons, encode_cons] at h
      obtain ⟨hab, hrest⟩ := List.append_inj h rfl
      rw [encodeByte_injective hab, ih hrest]

end Hex

end SealedLedger
