import Mathlib.Data.List.Basic
import SealedLedger.Text.Utf8

/-!
# UTF-8 is read back

Decoding undoes encoding, character by character and for whole texts, so a text is determined by
its bytes. A byte below `0x80` only ever stands for the character of that code, which is what lets
a reader of bytes look for quotes and brackets without decoding first.

## Main results

* `Utf8.decodeChar?_encodeChar` — one character, whatever follows its bytes
* `Utf8.decode?_encode` — a whole text
* `Utf8.encode_injective`
* `Utf8.encodeChar_of_lt`, `Utf8.le_of_mem_encodeChar` — the bytes below and above `0x80`
-/

namespace SealedLedger

namespace Utf8

/-! ### One character -/

/-- The code points that are characters leave out the halves of pairs. -/
theorem toNat_cases (c : Char) :
    c.toNat < 0xD800 ∨ (0xDFFF < c.toNat ∧ c.toNat < 0x110000) :=
  c.valid

/-- The four shapes of a character's bytes, by the size of its code point. -/
theorem encodeChar_cases (c : Char) :
    (c.toNat ≤ 0x7F ∧ encodeChar c = [UInt8.ofNat c.toNat]) ∨
    (0x7F < c.toNat ∧ c.toNat ≤ 0x7FF ∧
      encodeChar c = [UInt8.ofNat (c.toNat / 64 % 32 + 192), UInt8.ofNat (c.toNat % 64 + 128)]) ∨
    (0x7FF < c.toNat ∧ c.toNat ≤ 0xFFFF ∧
      encodeChar c = [UInt8.ofNat (c.toNat / 4096 % 16 + 224),
        UInt8.ofNat (c.toNat / 64 % 64 + 128), UInt8.ofNat (c.toNat % 64 + 128)]) ∨
    (0xFFFF < c.toNat ∧ c.toNat < 0x110000 ∧
      encodeChar c = [UInt8.ofNat (c.toNat / 262144 % 8 + 240),
        UInt8.ofNat (c.toNat / 4096 % 64 + 128), UInt8.ofNat (c.toNat / 64 % 64 + 128),
        UInt8.ofNat (c.toNat % 64 + 128)]) := by
  have hlt : c.toNat < 0x110000 := by
    have := toNat_cases c
    omega
  have heq : encodeChar c = String.utf8EncodeChar c := rfl
  simp only [String.utf8EncodeChar, show c.val.toNat = c.toNat from rfl] at heq
  by_cases h1 : c.toNat ≤ 0x7F
  · exact .inl ⟨h1, by rw [heq, if_pos h1]⟩
  · rw [if_neg h1] at heq
    by_cases h2 : c.toNat ≤ 0x7FF
    · exact .inr (.inl ⟨by omega, h2, by rw [heq, if_pos h2]⟩)
    · rw [if_neg h2] at heq
      by_cases h3 : c.toNat ≤ 0xFFFF
      · exact .inr (.inr (.inl ⟨by omega, h3, by rw [heq, if_pos h3]⟩))
      · exact .inr (.inr (.inr ⟨by omega, hlt, by rw [heq, if_neg h3]⟩))

/-- A character is read back from its bytes, whatever follows them. -/
theorem decodeChar?_encodeChar (c : Char) (rest : List UInt8) :
    decodeChar? (encodeChar c ++ rest) = some (c, rest) := by
  have key : ∀ lead more, encodeChar c = lead :: more → width lead = (lead :: more).length →
      codePoint (lead :: more) = c.toNat → decodeChar? (encodeChar c ++ rest) = some (c, rest) := by
    intro lead more henc hwidth hpoint
    have hc : Char.ofNat (codePoint (lead :: more)) = c := by rw [hpoint, Char.ofNat_toNat]
    rw [henc, List.cons_append, decodeChar?]
    simp only [hwidth, ← List.cons_append, List.take_left, List.drop_left, hc, henc, if_true]
  rcases encodeChar_cases c with ⟨h, henc⟩ | ⟨h, h', henc⟩ | ⟨h, h', henc⟩ | ⟨h, h', henc⟩ <;>
    refine key _ _ henc ?_ ?_
  · simp [width, UInt8.lt_iff_toNat_lt]; omega
  · simp [codePoint]; omega
  · simp [width, UInt8.lt_iff_toNat_lt]; grind
  · simp [codePoint]; omega
  · simp [width, UInt8.lt_iff_toNat_lt]; grind
  · simp [codePoint]; omega
  · simp [width, UInt8.lt_iff_toNat_lt]; grind
  · simp [codePoint]; omega

theorem encodeChar_ne_nil (c : Char) : encodeChar c ≠ [] :=
  String.utf8EncodeChar_ne_nil

/-- An ASCII character is one byte. -/
theorem encodeChar_of_lt {c : Char} (h : c.toNat < 0x80) :
    encodeChar c = [UInt8.ofNat c.toNat] := by
  rcases encodeChar_cases c with ⟨_, henc⟩ | ⟨h', _⟩ | ⟨h', _⟩ | ⟨h', _⟩
  · exact henc
  all_goals omega

/-- An ASCII character at the front of a text is the first byte. -/
theorem encode_cons_of_lt {c : Char} (h : c.toNat < 0x80) (cs : List Char) :
    encode (c :: cs) = UInt8.ofNat c.toNat :: encode cs := by
  rw [encode_cons, encodeChar_of_lt h, List.singleton_append]

/-- Every byte of a character beyond ASCII has its top bit set. -/
theorem le_of_mem_encodeChar {c : Char} (h : 0x80 ≤ c.toNat) {b : UInt8}
    (hb : b ∈ encodeChar c) : 0x80 ≤ b.toNat := by
  rcases encodeChar_cases c with ⟨h', _⟩ | ⟨_, _, henc⟩ | ⟨_, _, henc⟩ | ⟨_, _, henc⟩
  · omega
  all_goals
    rw [henc] at hb
    simp only [List.mem_cons, List.not_mem_nil, or_false] at hb
    rcases hb with rfl | rfl | rfl | rfl <;> simp <;> omega

/-! ### Whole texts -/

theorem length_le_length_encode (cs : List Char) : cs.length ≤ (encode cs).length := by
  induction cs with
  | nil => exact Nat.le_refl _
  | cons c cs ih =>
    have := List.length_pos_iff.mpr (encodeChar_ne_nil c)
    rw [encode_cons, List.length_append, List.length_cons]
    omega

theorem decodeWithin_encode {n : Nat} {cs : List Char} (h : cs.length ≤ n) :
    decodeWithin n (encode cs) = some cs := by
  induction cs generalizing n with
  | nil => simp [decodeWithin]
  | cons c cs ih =>
    obtain ⟨n, rfl⟩ := Nat.exists_eq_add_of_lt (Nat.lt_of_lt_of_le (Nat.succ_pos _) h)
    obtain ⟨b, bytes, hb⟩ := List.exists_cons_of_ne_nil
      (List.append_ne_nil_of_left_ne_nil (encodeChar_ne_nil c) (encode cs))
    rw [Nat.zero_add, encode_cons, hb, decodeWithin, ← hb, decodeChar?_encodeChar]
    simp [ih (n := n) (by simpa using h)]

/-- **A text is read back from its bytes.** -/
theorem decode?_encode (cs : List Char) : decode? (encode cs) = some cs :=
  decodeWithin_encode (length_le_length_encode cs)

theorem encode_injective : Function.Injective encode := by
  intro a b h
  have := (decode?_encode a).symm.trans ((congrArg decode? h).trans (decode?_encode b))
  exact Option.some.inj this

end Utf8

theorem utf8_injective : Function.Injective utf8 := by
  intro s t h
  exact String.toList_injective (Utf8.encode_injective h)

end SealedLedger
