import SealedLedger.Proofs.Digest

/-!
# Which texts are digests

A digest has one text, and no other text is read. What is wrong with another one is found in order:
a text without a colon has no tag; a tag that is not that of the hash function is refused as foreign
whatever stands behind it; then the digits are counted, in bytes; and the first byte that is no
lower-case digit is reported. There may be colons, and characters of more than one byte, among the
digits, and these make them too many or are reported as any other byte.

The digits are read pair by pair into a buffer of thirty-two bytes, one place after the other. Since
they have been counted before, there is a place for each pair, and each pair is complete.

## Main definitions

* `Hex.IsLower` — a lower-case digit
* `Digest.IsText` — the form of a digest's text
* `Digest.fill?` — reading digits into a buffer

## Main results

* `Digest.ofHex?_cases` — the digit that is reported
* `Digest.fill?_eq` — every place that is written to is in the buffer
* `Digest.exists_parse?_iff` — the texts that are read
* `Digest.parse?_settles` — what becomes of any text
-/

namespace SealedLedger

/-- A lower-case hexadecimal digit. -/
def Hex.IsLower (c : Char) : Prop :=
  ('0' ≤ c ∧ c ≤ '9') ∨ ('a' ≤ c ∧ c ≤ 'f')

namespace Digest

/-! ### Digits -/

/-- The byte is no lower-case digit. -/
def isWrong (b : UInt8) : Bool :=
  (Hex.lowerDigit? b).isNone

/-- **What is read of pairs of digits**: a byte for each pair, unless there is a wrong digit. The
first one is reported. -/
theorem bytes?_cases {n : Nat} {digits : List UInt8} (hlength : digits.length = 2 * n) :
    (digits.find? isWrong = none ∧ ∃ bs, bytes? digits = .ok bs ∧ bs.length = n) ∨
      ∃ b, digits.find? isWrong = some b ∧ bytes? digits = .error (.wrongDigit b) := by
  induction n generalizing digits with
  | zero =>
    obtain rfl := List.length_eq_zero_iff.mp hlength
    exact .inl ⟨rfl, [], rfl, rfl⟩
  | succ n ih =>
    obtain ⟨high, low, rest, rfl, hrest⟩ := exists_pair hlength
    cases hhigh : Hex.lowerDigit? high with
    | none => exact .inr ⟨high, by simp [isWrong, hhigh], by simp [bytes?, byte?, hhigh]⟩
    | some x =>
      cases hlow : Hex.lowerDigit? low with
      | none =>
        exact .inr ⟨low, by simp [isWrong, hhigh, hlow], by simp [bytes?, byte?, hhigh, hlow]⟩
      | some y =>
        have hfind : (high :: low :: rest).find? isWrong = rest.find? isWrong := by
          simp [isWrong, hhigh, hlow]
        rw [hfind, bytes?, byte?, hhigh]
        simp only [hlow]
        rcases ih hrest with ⟨hnone, bs, hbs, hcount⟩ | ⟨b, hsome, hb⟩
        · exact .inl ⟨hnone, _, by rw [hbs], by simp [hcount]⟩
        · exact .inr ⟨b, hsome, by rw [hb]⟩

/-- **What is read of digits** that have been counted. -/
theorem ofHex?_cases {digits : List UInt8} (hlength : digits.length = 64) :
    (digits.find? isWrong = none ∧
        ∃ d, ofHex? digits = .ok d ∧ bytes? digits = .ok d.bytes.toList) ∨
      ∃ b, digits.find? isWrong = some b ∧ ofHex? digits = .error (.wrongDigit b) ∧
        bytes? digits = .error (.wrongDigit b) := by
  rw [ofHex?, if_pos hlength]
  rcases bytes?_cases (n := 32) hlength with ⟨hnone, bs, hbs, hcount⟩ | ⟨b, hsome, hb⟩
  · refine .inl ⟨hnone, ⟨⟨bs.toArray, by simpa using hcount⟩⟩, ?_, ?_⟩
    · simp [hbs, hcount]
    · rw [hbs]
      rfl
  · exact .inr ⟨b, hsome, by rw [hb], hb⟩

/-! ### The buffer -/

/-- Digits read into a buffer from a place on. There is no result where a pair is not complete or
the buffer has no place for a byte. -/
def fill? : Nat → Vector UInt8 32 → List UInt8 → Option (Except DigestError (Vector UInt8 32))
  | _, buffer, [] => some (.ok buffer)
  | _, _, [_] => none
  | place, buffer, high :: low :: rest =>
    match byte? high low with
    | .error e => some (.error e)
    | .ok b => if h : place < 32 then fill? (place + 1) (buffer.set place b h) rest else none

/-- A step fills one place, and leaves the places before it. -/
theorem take_set (buffer : Vector UInt8 32) {place : Nat} (h : place < 32) (b : UInt8) :
    (buffer.set place b h).toList.take (place + 1) = buffer.toList.take place ++ [b] := by
  have hlength : place < buffer.toList.length := by rwa [Vector.length_toList]
  rw [Vector.toList_set, List.take_add_one, List.take_set_of_le (Nat.le_refl _),
    List.getElem?_set_self hlength, Option.toList_some]

/-- **The run of the loop**: from a place with as many pairs left as places, it never leaves the
buffer, and the bytes that it reads stand behind those that were there. -/
theorem exists_fill?_eq {n place : Nat} {digits : List UInt8} (hlength : digits.length = 2 * n)
    (hplace : place + n = 32) (buffer : Vector UInt8 32) :
    ∃ r, fill? place buffer digits = some r ∧
      r.map Vector.toList = (bytes? digits).map (buffer.toList.take place ++ ·) := by
  induction n generalizing place digits buffer with
  | zero =>
    obtain rfl := List.length_eq_zero_iff.mp hlength
    have hall : buffer.toList.take place = buffer.toList :=
      List.take_of_length_le (by rw [Vector.length_toList]; omega)
    exact ⟨_, rfl, by simp [bytes?, Except.map, hall]⟩
  | succ n ih =>
    obtain ⟨high, low, rest, rfl, hrest⟩ := exists_pair hlength
    rw [fill?, bytes?]
    cases byte? high low with
    | error e => exact ⟨_, rfl, rfl⟩
    | ok b =>
      have hlt : place < 32 := by omega
      have hnext : place + 1 + n = 32 := by omega
      obtain ⟨r, hr, hbytes⟩ := ih hrest hnext (buffer.set place b hlt)
      refine ⟨r, by simp [hlt, hr], ?_⟩
      rw [hbytes, take_set]
      cases bytes? rest <;> simp [Except.map]

/-- **Sixty-four digits fit the buffer**, and fill it with the bytes of the digest. -/
theorem fill?_eq {digits : List UInt8} (hlength : digits.length = 64) (buffer : Vector UInt8 32) :
    fill? 0 buffer digits = some ((ofHex? digits).map bytes) := by
  obtain ⟨r, hr, hbytes⟩ := exists_fill?_eq (n := 32) hlength rfl buffer
  rw [hr]
  rcases ofHex?_cases hlength with ⟨-, d, hd, hbs⟩ | ⟨b, -, hb, hbs⟩
  · rw [hbs] at hbytes
    cases r with
    | error e => cases hbytes
    | ok filled =>
      rw [hd, Vector.toList_inj.mp (Except.ok.inj hbytes)]
      rfl
  · rw [hbs] at hbytes
    cases r with
    | error e =>
      rw [hb, Except.error.inj hbytes]
      rfl
    | ok filled => cases hbytes

/-! ### Texts -/

/-- The text is the tag of the hash function, a colon and sixty-four lower-case digits. -/
def IsText (s : String) : Prop :=
  ∃ digits : List Char, s.toList = "sha256:".toList ++ digits ∧ digits.length = 64 ∧
    ∀ c ∈ digits, Hex.IsLower c

theorem splitTag?_eq_none_iff {cs : List Char} : splitTag? cs = none ↔ ':' ∉ cs := by
  constructor
  · intro h hmem
    obtain ⟨before, after, rfl, hbefore⟩ := List.eq_append_cons_of_mem hmem
    rw [splitTag?_append hbefore] at h
    cases h
  · intro h
    by_contra hsome
    obtain ⟨⟨before, after⟩, hsplit⟩ := Option.ne_none_iff_exists'.mp hsome
    rw [(splitTag?_eq_some_iff.mp hsplit).1] at h
    simp at h

theorem parse?_of_not_mem {s : String} (h : ':' ∉ s.toList) :
    parse? s = .error (.missingTag s) := by
  rw [parse?, splitTag?_eq_none_iff.mpr h]

/-- A text with a colon is judged by its tag first. -/
theorem parse?_of_tag {s : String} {before after : List Char}
    (hs : s.toList = before ++ ':' :: after) (hbefore : ':' ∉ before) :
    parse? s = if before = tag.toList then ofHex? (Utf8.encode after)
      else .error (.unsupported (String.ofList before)) := by
  rw [parse?, hs, splitTag?_append hbefore]
  by_cases h : before = tag.toList
  · simp [h, checkTag]
  · have hne : String.ofList before ≠ tag := by
      intro heq
      exact h (by rw [← heq, String.toList_ofList])
    simp [h, hne, checkTag]

/-- A text with the tag of the hash function is judged by its digits. -/
theorem parse?_of_digits {s : String} {digits : List Char}
    (hs : s.toList = "sha256:".toList ++ digits) : parse? s = ofHex? (Utf8.encode digits) := by
  have hsplit : s.toList = tag.toList ++ ':' :: digits := hs
  rw [parse?_of_tag hsplit (by decide), if_pos rfl]

theorem exists_encodeChar_of_isLower {c : Char} (h : Hex.IsLower c) :
    ∃ b, Utf8.encodeChar c = [b] ∧ isWrong b = false := by
  have key : ∀ n : Fin 103, (48 ≤ (n : Nat) ∧ (n : Nat) ≤ 57) ∨ (97 ≤ (n : Nat) ∧ (n : Nat) ≤ 102) →
      isWrong (UInt8.ofNat n) = false := by decide
  have hrange : (48 ≤ c.toNat ∧ c.toNat ≤ 57) ∨ (97 ≤ c.toNat ∧ c.toNat ≤ 102) := h
  exact ⟨_, Utf8.encodeChar_of_lt (by omega), key ⟨c.toNat, by omega⟩ hrange⟩

/-- Lower-case digits are as many bytes, and none of them is wrong. -/
theorem encode_of_isLower {cs : List Char} (h : ∀ c ∈ cs, Hex.IsLower c) :
    (Utf8.encode cs).length = cs.length ∧ (Utf8.encode cs).find? isWrong = none := by
  induction cs with
  | nil => exact ⟨rfl, rfl⟩
  | cons c cs ih =>
    obtain ⟨hc, hcs⟩ := List.forall_mem_cons.mp h
    obtain ⟨b, hb, hright⟩ := exists_encodeChar_of_isLower hc
    obtain ⟨hlength, hnone⟩ := ih hcs
    rw [Utf8.encode_cons, hb, List.singleton_append]
    exact ⟨by simp [hlength], by simp [hright, hnone]⟩

theorem isLower_of_mem_hex {d : Digest} {c : Char} (h : c ∈ d.hex) : Hex.IsLower c := by
  have key : ∀ n : Fin 16, ('0' ≤ Hex.digit n ∧ Hex.digit n ≤ '9') ∨
      ('a' ≤ Hex.digit n ∧ Hex.digit n ≤ 'f') := by decide
  obtain ⟨b, -, hc⟩ := List.mem_flatMap.mp h
  have hb := b.toNat_lt
  simp only [Hex.encodeByte, List.mem_cons, List.not_mem_nil, or_false] at hc
  rcases hc with rfl | rfl
  · exact key ⟨b.toNat / 16, by omega⟩
  · exact key ⟨b.toNat % 16, by omega⟩

/-- **The text of a digest has the form of one.** -/
theorem isText_text (d : Digest) : IsText d.text := by
  refine ⟨d.hex, ?_, ?_, fun c => isLower_of_mem_hex⟩
  · rw [text, String.toList_ofList]
    rfl
  · rw [hex, Hex.length_encode, Vector.length_toList]

/-- **The texts that are read** are those that have the form of a digest's text. -/
theorem exists_parse?_iff {s : String} : (∃ d, parse? s = .ok d) ↔ IsText s := by
  constructor
  · rintro ⟨d, hd⟩
    exact text_of_parse? hd ▸ isText_text d
  · rintro ⟨digits, hs, hcount, hlower⟩
    obtain ⟨hlength, hnone⟩ := encode_of_isLower hlower
    rw [parse?_of_digits hs]
    rcases ofHex?_cases (hlength.trans hcount) with ⟨-, d, hd, -⟩ | ⟨b, hsome, -⟩
    · exact ⟨d, hd⟩
    · rw [hnone] at hsome
      cases hsome

/-- A text with the tag of the hash function that is no digest is refused for the number of its
bytes, or else for the first of them that is no lower-case digit. -/
theorem parse?_of_not_isText {s : String} {digits : List Char}
    (hs : s.toList = "sha256:".toList ++ digits) (h : ¬ IsText s) :
    ((Utf8.encode digits).length ≠ 64 ∧
        parse? s = .error (.wrongLength (Utf8.encode digits).length)) ∨
      ((Utf8.encode digits).length = 64 ∧
        ∃ b, (Utf8.encode digits).find? isWrong = some b ∧ parse? s = .error (.wrongDigit b)) := by
  by_cases hlength : (Utf8.encode digits).length = 64
  · rcases ofHex?_cases hlength with ⟨-, d, hd, -⟩ | ⟨b, hsome, hb, -⟩
    · exact absurd (exists_parse?_iff.mp ⟨d, (parse?_of_digits hs).trans hd⟩) h
    · exact .inr ⟨hlength, b, hsome, (parse?_of_digits hs).trans hb⟩
  · exact .inl ⟨hlength, by rw [parse?_of_digits hs, ofHex?, if_neg hlength]⟩

/-- **What becomes of any text.** It is read as a digest exactly when it is that digest's text, so
digests and texts of their form correspond one to one. Any other text is refused: as malformed when
it has no colon, as foreign, with the text before its first colon, when that is not the tag of the
hash function, and as malformed otherwise. When digits are read, the buffer has a place for each
byte. -/
theorem parse?_settles (s : String) :
    (∀ d, parse? s = .ok d ↔ d.text = s) ∧
    ((∃ d, parse? s = .ok d) ↔ IsText s) ∧
    (':' ∉ s.toList → parse? s = .error (.missingTag s)) ∧
    (∀ before after, s.toList = before ++ ':' :: after → ':' ∉ before → before ≠ tag.toList →
      parse? s = .error (.unsupported (String.ofList before))) ∧
    (∀ digits, s.toList = "sha256:".toList ++ digits → ¬ IsText s →
      ((Utf8.encode digits).length ≠ 64 ∧
          parse? s = .error (.wrongLength (Utf8.encode digits).length)) ∨
        ((Utf8.encode digits).length = 64 ∧
          ∃ b, (Utf8.encode digits).find? isWrong = some b ∧
            parse? s = .error (.wrongDigit b))) ∧
    ∀ digits buffer, digits.length = 64 →
      fill? 0 buffer digits = some ((ofHex? digits).map bytes) := by
  refine ⟨fun d => ⟨text_of_parse?, ?_⟩, exists_parse?_iff, parse?_of_not_mem, ?_,
    fun digits => parse?_of_not_isText, fun digits buffer hlength => fill?_eq hlength buffer⟩
  · rintro rfl
    exact parse?_text d
  · intro before after hs hbefore hne
    rw [parse?_of_tag hs hbefore, if_neg hne]

/-- Sixty-two digits and a letter of two bytes are sixty-four bytes, and the first byte of the
letter is reported. -/
theorem parse?_settles_letter_among_digits :
    parse? (String.ofList ("sha256:".toList ++ (List.replicate 62 '0' ++ ['é']))) =
        .error (.wrongDigit 0xC3) ∧
      parse? "sha512:sha256:" = .error (.unsupported "sha512") ∧
      parse? "sha256" = .error (.missingTag "sha256") := by
  obtain ⟨-, -, -, -, hletter, -⟩ :=
    parse?_settles (String.ofList ("sha256:".toList ++ (List.replicate 62 '0' ++ ['é'])))
  obtain ⟨-, -, -, hforeign, -, -⟩ := parse?_settles "sha512:sha256:"
  obtain ⟨-, -, hmissing, -, -, -⟩ := parse?_settles "sha256"
  refine ⟨?_, hforeign "sha512".toList "sha256:".toList rfl (by decide) (by decide),
    hmissing (by decide)⟩
  have hshort :
      ¬ IsText (String.ofList ("sha256:".toList ++ (List.replicate 62 '0' ++ ['é']))) := by
    rintro ⟨digits, hs, hcount, -⟩
    rw [String.toList_ofList] at hs
    rw [← List.append_cancel_left hs] at hcount
    cases hcount
  rcases hletter _ String.toList_ofList hshort with ⟨hlength, -⟩ | ⟨-, b, hfind, hb⟩
  · exact absurd rfl hlength
  · have hfirst : some b = some 0xC3 := hfind.symm
    rw [hb, Option.some.inj hfirst]

end Digest

end SealedLedger
