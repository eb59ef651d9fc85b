import SealedLedger.Proofs.Canonical.Strings
import SealedLedger.Proofs.Text.Utf8

/-!
# A string is read back from its canonical text

The reader of strings stops at the first bare quote. The writer leaves no quote bare, no backslash
unescaped and no control character as it is, so the reader takes exactly what was written and
replaces each escape by the bytes of the character that it was written for.

## Main results

* `Json.stringBytesWithin_body` — the bytes up to the closing quote are those of the characters
* `Json.string_body` — a string is read back, whatever follows
-/

namespace SealedLedger

namespace Json

open Canonical (body)

/-! ### Escapes -/

/-- The code unit of a control character is the character's code point. -/
theorem codePoint_control {c : Char} (h : c.toNat < 0x20) (rest : List UInt8) :
    codePoint (ascii '0' :: ascii '0' :: ascii (Hex.digit (c.toNat / 16)) ::
      ascii (Hex.digit (c.toNat % 16)) :: rest) = .ok (c, rest) := by
  have hunit : codeUnit? (ascii '0') (ascii '0') (ascii (Hex.digit (c.toNat / 16)))
      (ascii (Hex.digit (c.toNat % 16))) = some c.toNat := by
    have hzero : Hex.digit? (ascii '0') = some 0 := by decide
    have hhigh : Hex.digit? (ascii (Hex.digit (c.toNat / 16)))
        = some (UInt8.ofNat (c.toNat / 16)) :=
      Hex.digit?_digit (by omega)
    have hlow : Hex.digit? (ascii (Hex.digit (c.toNat % 16))) = some (UInt8.ofNat (c.toNat % 16)) :=
      Hex.digit?_digit (by omega)
    rw [codeUnit?, hzero, hhigh, hlow]
    simp only [Option.bind_eq_bind, Option.bind_some, Option.pure_def, Option.some.injEq,
      UInt8.toNat_ofNat']
    rw [show (0 : UInt8).toNat = 0 from rfl]
    omega
  rw [codePoint, codeUnit, hunit]
  simp only
  rw [if_neg (by simp [isTrailing]; omega), if_neg (by simp [isLeading]; omega), Char.ofNat_toNat]

/-! ### Bytes -/

/-- The byte stands for itself inside a string. -/
def IsPlain (b : UInt8) : Prop :=
  b ≠ ascii '"' ∧ b ≠ ascii '\\' ∧ ¬ b < 0x20

theorem stringBytesWithin_plain {bytes input more rest : List UInt8} {fuel : Nat}
    (hplain : ∀ b ∈ bytes, IsPlain b) (h : stringBytesWithin fuel input = .ok (more, rest)) :
    stringBytesWithin (fuel + bytes.length) (bytes ++ input) = .ok (bytes ++ more, rest) := by
  induction bytes with
  | nil => exact h
  | cons b bytes ih =>
    obtain ⟨hquote, hslash, hcontrol⟩ := hplain b (List.mem_cons_self ..)
    rw [List.length_cons, ← Nat.add_assoc, List.cons_append, stringBytesWithin, if_neg hquote,
      if_neg hslash, if_neg hcontrol, ih fun d hd => hplain d (List.mem_cons_of_mem _ hd)]
    rfl

/-- The bytes of a character that is written as itself are plain. -/
theorem isPlain_of_mem_encodeChar {c : Char} (hquote : c ≠ '"') (hslash : c ≠ '\\')
    (hcontrol : 0x20 ≤ c.toNat) : ∀ b ∈ Utf8.encodeChar c, IsPlain b := by
  intro b hb
  by_cases hlt : c.toNat < 0x80
  · rw [Utf8.encodeChar_of_lt hlt, List.mem_singleton] at hb
    have hnat : b.toNat = c.toNat := by
      rw [hb, UInt8.toNat_ofNat']
      omega
    have hne : ∀ d : Char, d.toNat < 0x80 → c ≠ d → b ≠ ascii d := by
      intro d hd hcd hbd
      have : b.toNat = d.toNat := by
        rw [hbd, ascii, UInt8.toNat_ofNat']
        omega
      exact hcd (Char.toNat_inj.mp (by omega))
    refine ⟨hne _ (by decide) hquote, hne _ (by decide) hslash, ?_⟩
    rw [UInt8.lt_iff_toNat_lt, hnat]
    exact Nat.not_lt.mpr hcontrol
  · have hge := Utf8.le_of_mem_encodeChar (Nat.not_lt.mp hlt) hb
    refine ⟨?_, ?_, ?_⟩
    · rintro rfl
      exact absurd hge (by decide)
    · rintro rfl
      exact absurd hge (by decide)
    · rw [UInt8.lt_iff_toNat_lt]
      have : (0x20 : UInt8).toNat = 0x20 := rfl
      omega

/-- A character is written as itself in plain bytes, or as a backslash and bytes from which the
reader of escapes takes the character. -/
theorem encode_escape_cases (c : Char) :
    (Canonical.escape c = [c] ∧ ∀ b ∈ Utf8.encodeChar c, IsPlain b) ∨
      ∃ bytes, Utf8.encode (Canonical.escape c) = ascii '\\' :: bytes ∧
        ∀ rest, escape (bytes ++ rest) = .ok (c, rest) := by
  have hslash : Utf8.encodeChar '\\' = [ascii '\\'] := by decide
  rcases Canonical.escape_cases c with ⟨he, hquote, hc, hcontrol⟩ | ⟨k, he, -, hk, hescaped⟩ |
    ⟨hlt, he⟩
  · exact .inl ⟨he, isPlain_of_mem_encodeChar hquote hc hcontrol⟩
  · refine .inr ⟨[ascii k], ?_, fun rest => ?_⟩
    · rw [he, Utf8.encode_cons, Utf8.encode_cons, Utf8.encodeChar_of_lt hk, hslash]
      rfl
    · rw [List.singleton_append, escape, hescaped]
  · refine .inr ⟨[ascii 'u', ascii '0', ascii '0', ascii (Hex.digit (c.toNat / 16)),
      ascii (Hex.digit (c.toNat % 16))], ?_, fun rest => ?_⟩
    · have hhigh : (Hex.digit (c.toNat / 16)).toNat < 0x80 := Hex.toNat_digit_lt (by omega)
      have hlow : (Hex.digit (c.toNat % 16)).toNat < 0x80 := Hex.toNat_digit_lt (by omega)
      rw [he]
      simp only [Utf8.encode_cons, Utf8.encode_nil, Utf8.encodeChar_of_lt hhigh,
        Utf8.encodeChar_of_lt hlow, hslash, show Utf8.encodeChar 'u' = [ascii 'u'] by decide,
        show Utf8.encodeChar '0' = [ascii '0'] by decide]
      rfl
    · have hnone : escaped? (ascii 'u') = none := by decide
      simp only [List.cons_append, List.nil_append, escape, hnone, if_true]
      exact codePoint_control hlt rest

/-- **The bytes up to the closing quote are those of the characters**, with any allowance that is
large enough. -/
theorem stringBytesWithin_body {cs : List Char} {rest : List UInt8} {fuel : Nat}
    (hfuel : (Utf8.encode (body cs)).length < fuel) :
    stringBytesWithin fuel (Utf8.encode (body cs) ++ ascii '"' :: rest)
      = .ok (Utf8.encode cs, rest) := by
  induction cs generalizing fuel with
  | nil =>
    obtain ⟨fuel, rfl⟩ := Nat.exists_eq_add_of_lt hfuel
    rfl
  | cons c cs ih =>
    rw [Canonical.body_cons, Utf8.encode_append, List.length_append] at hfuel
    rw [Canonical.body_cons, Utf8.encode_append, List.append_assoc, Utf8.encode_cons]
    rcases encode_escape_cases c with ⟨he, hplain⟩ | ⟨bytes, he, hread⟩
    · rw [he, Utf8.encode_cons, Utf8.encode_nil, List.append_nil] at hfuel ⊢
      obtain ⟨k, rfl⟩ := Nat.exists_eq_add_of_le' (show (Utf8.encodeChar c).length ≤ fuel by omega)
      exact stringBytesWithin_plain hplain (ih (by omega))
    · rw [he, List.length_cons] at hfuel
      obtain ⟨k, rfl⟩ := Nat.exists_eq_add_of_le' (show 1 ≤ fuel by omega)
      have hmore := ih (show (Utf8.encode (body cs)).length < k by omega)
      rw [he, List.cons_append, stringBytesWithin, if_neg (by decide), if_pos rfl, hread]
      simp only [hmore]

/-- **A string is read back from its canonical text**, whatever follows. -/
theorem string_body (s : String) (rest : List UInt8) :
    string (Utf8.encode (body s.toList) ++ ascii '"' :: rest) = .ok (s, rest) := by
  have hbytes : stringBytes (Utf8.encode (body s.toList) ++ ascii '"' :: rest)
      = .ok (Utf8.encode s.toList, rest) := by
    refine stringBytesWithin_body ?_
    rw [List.length_append]
    omega
  simp only [string, hbytes, Utf8.decode?_encode, String.ofList_toList]

/-- The bytes of a string's canonical text, from its opening quote on. -/
theorem encode_string (s : String) :
    Utf8.encode (Canonical.string s)
      = ascii '"' :: (Utf8.encode (body s.toList) ++ [ascii '"']) := by
  rw [Canonical.string, Utf8.encode_cons, Utf8.encode_append]
  rfl

end Json

end SealedLedger
