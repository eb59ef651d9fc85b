import SealedLedger.Digest
import SealedLedger.Proofs.Text.Hex
import SealedLedger.Proofs.Text.Utf8

/-!
# A digest is read back from its text

The tag ends at the first colon, since no tag has a colon in it, and the digits behind it are read
two at a time. There is one tag, and a digit is read in lower case only, so that a digest is read
from no other text.

## Main results

* `Digest.splitTag?_eq_some_iff` — a text splits at its first colon
* `Digest.splitTag?_text` — the tag of a digest's text is that of the hash function
* `Digest.parse?_text` — a digest is read back from its text
* `Digest.text_of_parse?` — and from its text only
-/

namespace SealedLedger

namespace Digest

/-! ### The tag -/

theorem splitTag?_append {cs : List Char} (h : ':' ∉ cs) (rest : List Char) :
    splitTag? (cs ++ ':' :: rest) = some (cs, rest) := by
  induction cs with
  | nil => rw [List.nil_append, splitTag?, if_pos rfl]
  | cons c cs ih =>
    rw [List.mem_cons, not_or] at h
    rw [List.cons_append, splitTag?, if_neg (Ne.symm h.1), ih h.2]
    rfl

/-- **A text splits at its first colon.** -/
theorem splitTag?_eq_some_iff {cs before after : List Char} :
    splitTag? cs = some (before, after) ↔ cs = before ++ ':' :: after ∧ ':' ∉ before := by
  constructor
  · intro h
    induction cs generalizing before with
    | nil => cases h
    | cons c cs ih =>
      rw [splitTag?] at h
      split at h
      · next hc =>
        obtain ⟨rfl, rfl⟩ := Prod.mk.inj (Option.some.inj h)
        rw [hc]
        exact ⟨rfl, List.not_mem_nil⟩
      · next hc =>
        obtain ⟨⟨before', after'⟩, hsplit, hcons⟩ := Option.map_eq_some_iff.mp h
        obtain ⟨rfl, rfl⟩ := Prod.mk.inj hcons
        obtain ⟨rfl, hnone⟩ := ih hsplit
        exact ⟨rfl, List.not_mem_cons_of_ne_of_not_mem (Ne.symm hc) hnone⟩
  · rintro ⟨rfl, hnone⟩
    exact splitTag?_append hnone after

/-- **The tag of a digest's text is that of the hash function.** -/
theorem splitTag?_text (d : Digest) : splitTag? d.text.toList = some (tag.toList, d.hex) := by
  rw [text, String.toList_ofList]
  exact splitTag?_append (by decide) d.hex

/-! ### The digits -/

/-- A digit below sixteen is one byte, and is read back from it. -/
theorem exists_encodeChar_digit {n : Nat} (h : n < 16) :
    ∃ b, Utf8.encodeChar (Hex.digit n) = [b] ∧ Hex.lowerDigit? b = some (UInt8.ofNat n) := by
  have key : ∀ n : Fin 16,
      Hex.lowerDigit? (UInt8.ofNat (Hex.digit n).toNat) = some (UInt8.ofNat n) := by decide
  exact ⟨_, Utf8.encodeChar_of_lt (Hex.toNat_digit_lt h), key ⟨n, h⟩⟩

theorem ofNat_halves (b : UInt8) :
    UInt8.ofNat (b.toNat / 16) * 16 + UInt8.ofNat (b.toNat % 16) = b := by
  have hsum : b.toNat / 16 * 16 + b.toNat % 16 = b.toNat := by omega
  calc UInt8.ofNat (b.toNat / 16) * 16 + UInt8.ofNat (b.toNat % 16)
      = UInt8.ofNat (b.toNat / 16 * 16 + b.toNat % 16) := by
        rw [UInt8.ofNat_add, UInt8.ofNat_mul]
        rfl
    _ = b := by rw [hsum, UInt8.ofNat_toNat]

/-- **Bytes are read back from their digits.** -/
theorem bytes?_encode (bytes : List UInt8) :
    bytes? (Utf8.encode (Hex.encode bytes)) = .ok bytes := by
  induction bytes with
  | nil => rfl
  | cons b bytes ih =>
    have hb := b.toNat_lt
    obtain ⟨high, hhigh, hhighDigit⟩ := exists_encodeChar_digit (show b.toNat / 16 < 16 by omega)
    obtain ⟨low, hlow, hlowDigit⟩ := exists_encodeChar_digit (show b.toNat % 16 < 16 by omega)
    have hbyte : byte? high low = .ok b := by
      rw [byte?, hhighDigit, hlowDigit]
      simp only [ofNat_halves]
    rw [Hex.encode_cons, Hex.encodeByte, List.cons_append, List.cons_append, List.nil_append,
      Utf8.encode_cons, Utf8.encode_cons, hhigh, hlow, List.singleton_append, List.singleton_append,
      bytes?, hbyte]
    simp only [ih]

/-- Digits are as many bytes as characters. -/
theorem length_encode_hex (bytes : List UInt8) :
    (Utf8.encode (Hex.encode bytes)).length = 2 * bytes.length := by
  induction bytes with
  | nil => rfl
  | cons b bytes ih =>
    have hb := b.toNat_lt
    obtain ⟨high, hhigh, -⟩ := exists_encodeChar_digit (show b.toNat / 16 < 16 by omega)
    obtain ⟨low, hlow, -⟩ := exists_encodeChar_digit (show b.toNat % 16 < 16 by omega)
    rw [Hex.encode_cons, Hex.encodeByte, List.cons_append, List.cons_append, List.nil_append,
      Utf8.encode_cons, Utf8.encode_cons, hhigh, hlow, List.singleton_append, List.singleton_append,
      List.length_cons, List.length_cons, ih, List.length_cons]
    omega

/-- **A digest is read back from its text.** -/
theorem parse?_text (d : Digest) : parse? d.text = .ok d := by
  have hlength : (Utf8.encode d.hex).length = 64 := by
    rw [hex, length_encode_hex, Vector.length_toList]
  have hsize : d.bytes.toList.toArray.size = 32 := by
    rw [List.size_toArray, Vector.length_toList]
  have hbytes : (⟨d.bytes.toList.toArray, hsize⟩ : Vector UInt8 32) = d.bytes := by
    rw [← Vector.toList_inj]
    rfl
  have hread : ofHex? (Utf8.encode d.hex) = .ok d := by
    rw [ofHex?, if_pos hlength, hex, bytes?_encode]
    simp only [hsize, dif_pos, hbytes]
  rw [parse?, splitTag?_text]
  simp only [String.ofList_toList, checkTag, if_true, hread]

/-! ### One text for each digest -/

/-- A byte that is read as a digit is the byte of that digit. -/
theorem encodeChar_of_lowerDigit? {b v : UInt8} (h : Hex.lowerDigit? b = some v) :
    v.toNat < 16 ∧ Utf8.encodeChar (Hex.digit v.toNat) = [b] := by
  have key : ∀ n : Fin 256, ∀ v ∈ Hex.lowerDigit? (UInt8.ofNat n),
      v.toNat < 16 ∧ Utf8.encodeChar (Hex.digit v.toNat) = [UInt8.ofNat n] := by decide +kernel
  have hb := key ⟨b.toNat, b.toNat_lt⟩ v
  rw [show UInt8.ofNat (⟨b.toNat, b.toNat_lt⟩ : Fin 256) = b from UInt8.ofNat_toNat] at hb
  exact hb h

theorem encode_encodeByte_of_byte? {high low b : UInt8} (h : byte? high low = .ok b) :
    Utf8.encode (Hex.encodeByte b) = [high, low] := by
  rw [byte?] at h
  split at h
  · cases h
  · next v hhigh =>
    split at h
    · cases h
    · next w hlow =>
      obtain ⟨hv, hvtext⟩ := encodeChar_of_lowerDigit? hhigh
      obtain ⟨hw, hwtext⟩ := encodeChar_of_lowerDigit? hlow
      have hvalue : b.toNat = v.toNat * 16 + w.toNat := by
        rw [← Except.ok.inj h, UInt8.toNat_add, UInt8.toNat_mul]
        show (v.toNat * 16 % 256 + w.toNat) % 256 = _
        omega
      have hdiv : b.toNat / 16 = v.toNat := by omega
      have hmod : b.toNat % 16 = w.toNat := by omega
      rw [Hex.encodeByte, hdiv, hmod, Utf8.encode_cons, Utf8.encode_cons, hvtext, hwtext]
      rfl

/-- The first pair of an even number of digits. -/
theorem exists_pair {n : Nat} {digits : List UInt8} (h : digits.length = 2 * (n + 1)) :
    ∃ high low rest, digits = high :: low :: rest ∧ rest.length = 2 * n := by
  rcases digits with _ | ⟨high, _ | ⟨low, rest⟩⟩
  · cases h
  · rw [List.length_singleton] at h
    omega
  · exact ⟨high, low, rest, rfl, by simpa [Nat.mul_succ] using h⟩

/-- **Bytes are written with the digits that they were read from.** -/
theorem encode_encode_of_bytes? {n : Nat} {digits bs : List UInt8}
    (hlength : digits.length = 2 * n) (h : bytes? digits = .ok bs) :
    Utf8.encode (Hex.encode bs) = digits := by
  induction n generalizing digits bs with
  | zero =>
    obtain rfl := List.length_eq_zero_iff.mp hlength
    rw [← Except.ok.inj h]
    rfl
  | succ n ih =>
    obtain ⟨high, low, rest, rfl, hrest⟩ := exists_pair hlength
    rw [bytes?] at h
    split at h
    · cases h
    · next b hbyte =>
      split at h
      · cases h
      · next more hmore =>
        rw [← Except.ok.inj h, Hex.encode_cons, Utf8.encode_append,
          encode_encodeByte_of_byte? hbyte, ih hrest hmore]
        rfl

/-- **A digest is read from its own text only.** -/
theorem text_of_parse? {s : String} {d : Digest} (h : parse? s = .ok d) : d.text = s := by
  rw [parse?] at h
  split at h
  · cases h
  · next t digits hsplit =>
    split at h
    · cases h
    · next htag =>
      rw [checkTag] at htag
      split at htag
      · next ht =>
        have hhex : d.hex = digits := by
          rw [ofHex?] at h
          split at h
          · next hlength =>
            split at h
            · cases h
            · next bs hbs =>
              split at h
              · obtain rfl := Except.ok.inj h
                exact Utf8.encode_injective (encode_encode_of_bytes? (n := 32) hlength hbs)
              · cases h
          · cases h
        rw [text, hhex, ← ht, String.toList_ofList, ← (splitTag?_eq_some_iff.mp hsplit).1,
          String.ofList_toList]
      · cases htag

end Digest

end SealedLedger
