import SealedLedger.Proofs.Json.Reading

/-!
# A string ends at its own quote

Whoever looks for the end of a string goes along its text and passes over the character behind each
backslash. Where the text of a character ends no backslash is left open, so a quote that stands for
itself is always passed over, and the only quotes that are met are the first character of the text
and the last.

## Main definitions

* `Canonical.opensEscape` — whether what follows a text is escaped

## Main results

* `Canonical.opensEscape_body` — a quote inside a string is escaped
* `Canonical.string_eq_append_cons_iff` — the quotes that are not escaped
* `Canonical.string_delimits_itself` — a string is told from its text, and its text from what
  follows
-/

namespace SealedLedger

namespace Canonical

/-! ### Characters that are written -/

/-- The letter of a short escape is no control character. -/
theorem le_of_escaped? {k c : Char} (h : Json.escaped? (Json.ascii k) = some c) :
    0x20 ≤ k.toNat := by
  have key : ∀ n : Fin 0x20, Json.escaped? (UInt8.ofNat n) = none := by decide
  by_contra hcontrol
  have hnone : Json.escaped? (Json.ascii k) = none := key ⟨k.toNat, by omega⟩
  cases h.symm.trans hnone

/-- Nothing is written as a control character. -/
theorem le_of_mem_escape {c d : Char} (h : d ∈ escape c) : 0x20 ≤ d.toNat := by
  rcases escape_cases c with ⟨he, -, -, hc⟩ | ⟨k, he, -, -, hk⟩ | ⟨hcontrol, he⟩
  · rw [he, List.mem_singleton] at h
    rwa [h]
  · rw [he, List.mem_cons, List.mem_singleton] at h
    rcases h with rfl | rfl
    · decide
    · exact le_of_escaped? hk
  · have hdigit : ∀ n : Fin 16, 0x20 ≤ (Hex.digit n).toNat := by decide
    simp only [he, List.mem_cons, List.not_mem_nil, or_false] at h
    rcases h with rfl | rfl | rfl | rfl | rfl | rfl
    · decide
    · decide
    · decide
    · decide
    · exact hdigit ⟨c.toNat / 16, by omega⟩
    · exact hdigit ⟨c.toNat % 16, by omega⟩

theorem le_of_mem_string {s : String} {c : Char} (h : c ∈ string s) : 0x20 ≤ c.toNat := by
  rw [string, List.mem_cons, List.mem_append, List.mem_singleton] at h
  rcases h with rfl | h | rfl
  · decide
  · obtain ⟨d, -, hd⟩ := List.mem_flatMap.mp h
    exact le_of_mem_escape hd
  · decide

/-! ### Characters that are escaped -/

/-- The text ends in a backslash that is not escaped itself, so that what follows is. -/
def opensEscape (t : List Char) : Bool :=
  t.foldl (fun escaped c => !escaped && c == '\\') false

theorem opensEscape_concat (t : List Char) (c : Char) :
    opensEscape (t ++ [c]) = (!opensEscape t && c == '\\') := by
  rewrite [opensEscape, List.foldl_append]
  rfl

theorem opensEscape_concat_of_ne (t : List Char) {c : Char} (h : c ≠ '\\') :
    opensEscape (t ++ [c]) = false := by
  rw [opensEscape_concat, beq_eq_false_iff_ne.mpr h, Bool.and_false]

/-- **A character leaves no backslash open**, and a quote in its text is escaped. -/
theorem opensEscape_escape {t : List Char} (ht : opensEscape t = false) (c : Char) :
    opensEscape (t ++ escape c) = false ∧
      ∀ a b, escape c = a ++ '"' :: b → opensEscape (t ++ a) = true := by
  have hslash : opensEscape (t ++ ['\\']) = true := by
    rewrite [opensEscape_concat, ht]
    rfl
  have hmem : ∀ a b, escape c = a ++ '"' :: b → '"' ∈ escape c := fun a b hab => hab ▸ by simp
  rcases escape_cases c with ⟨he, hquote, hc, -⟩ | ⟨k, he, -⟩ | ⟨hcontrol, he⟩
  · rw [he] at hmem ⊢
    refine ⟨opensEscape_concat_of_ne t hc, fun a b hab => ?_⟩
    exact absurd (List.mem_singleton.mp (hmem a b hab)).symm hquote
  · rw [he, ← List.singleton_append, ← List.append_assoc, opensEscape_concat, hslash]
    refine ⟨rfl, fun a b hab => ?_⟩
    cases a with
    | nil => exact absurd (List.cons.inj hab).1 (by decide)
    | cons d a =>
      obtain ⟨rfl, hk⟩ := List.cons.inj hab
      obtain ⟨rfl, -⟩ | ⟨-, hnil⟩ := List.singleton_eq_append_iff.mp hk
      · exact hslash
      · cases hnil
  · have hdigit : ∀ n : Fin 16, Hex.digit n ≠ '\\' ∧ Hex.digit n ≠ '"' := by decide
    have hhigh := hdigit ⟨c.toNat / 16, by omega⟩
    have hlow := hdigit ⟨c.toNat % 16, by omega⟩
    have hlast : escape c
        = ['\\', 'u', '0', '0', Hex.digit (c.toNat / 16)] ++ [Hex.digit (c.toNat % 16)] := he
    constructor
    · rw [hlast, ← List.append_assoc]
      exact opensEscape_concat_of_ne _ hlow.1
    · intro a b hab
      have hquote := hmem a b hab
      simp [he, hhigh.2.symm, hlow.2.symm] at hquote

/-- **A quote inside a string is escaped**, and at its end no backslash is left open. -/
theorem opensEscape_body {t : List Char} (ht : opensEscape t = false) (cs : List Char) :
    opensEscape (t ++ body cs) = false ∧
      ∀ a b, body cs = a ++ '"' :: b → opensEscape (t ++ a) = true := by
  induction cs generalizing t with
  | nil =>
    rw [body_nil, List.append_nil]
    refine ⟨ht, fun a b hab => ?_⟩
    simp at hab
  | cons c cs ih =>
    obtain ⟨hchar, hquote⟩ := opensEscape_escape ht c
    obtain ⟨hrest, hquotes⟩ := ih hchar
    rw [body_cons, ← List.append_assoc]
    refine ⟨hrest, fun a b hab => ?_⟩
    -- the quote stands behind the first character or in its text
    rcases List.append_eq_append_iff.mp hab with ⟨more, rfl, hmore⟩ | ⟨more, hc, hmore⟩
    · rw [← List.append_assoc]
      exact hquotes more b hmore
    · cases more with
      | nil =>
        rw [List.append_nil] at hc
        rw [List.nil_append] at hmore
        rw [← hc]
        simpa using hquotes [] b hmore.symm
      | cons d more =>
        obtain ⟨rfl, -⟩ := List.cons.inj hmore
        exact hquote a more hc

/-- **The quotes that are not escaped are the first character and the last.** -/
theorem string_eq_append_cons_iff {s : String} {p q : List Char} {c : Char}
    (h : string s = p ++ c :: q) : c = '"' ∧ opensEscape p = false ↔ p = [] ∨ q = [] := by
  obtain ⟨hbody, hquotes⟩ := opensEscape_body (t := ['"']) rfl s.toList
  cases p with
  | nil =>
    refine iff_of_true ⟨?_, rfl⟩ (.inl rfl)
    exact (List.cons.inj h).1.symm
  | cons d p =>
    obtain ⟨rfl, -⟩ := List.cons.inj h
    have hrest : body s.toList ++ ['"'] = p ++ c :: q := (List.cons.inj h).2
    rcases List.eq_nil_or_concat' q with rfl | ⟨q, d, rfl⟩
    · obtain ⟨rfl, hc⟩ := List.append_inj' hrest rfl
      exact iff_of_true ⟨(List.cons.inj hc).1.symm, hbody⟩ (.inr rfl)
    · rw [← List.cons_append, ← List.append_assoc] at hrest
      obtain ⟨hinside, -⟩ := List.append_inj' hrest rfl
      refine iff_of_false ?_ (by simp)
      rintro ⟨rfl, hp⟩
      exact Bool.false_ne_true (hp.symm.trans (hquotes p q hinside))

/-! ### What follows a string -/

/-- **A string is told from its text, and its text from what follows.** Two texts that begin with
strings are the same only with the same string and the same rest. No control character stands in the
text of a string, and the quotes in it that are not escaped are its first character and its last.
The reader takes the text for the string, whatever bytes follow, and leaves just these. -/
theorem string_delimits_itself (s : String) :
    (∀ (u : String) (r₁ r₂ : List Char), string s ++ r₁ = string u ++ r₂ → s = u ∧ r₁ = r₂) ∧
    (∀ c ∈ string s, 0x20 ≤ c.toNat) ∧
    (∀ p c q, string s = p ++ c :: q → (c = '"' ∧ opensEscape p = false ↔ p = [] ∨ q = [])) ∧
    (∃ bytes, Utf8.encode (string s) = Json.ascii '"' :: bytes ∧
      ∀ rest, Json.string (bytes ++ rest) = .ok (s, rest)) ∧
    ∀ distinct depth rest,
      Json.value distinct depth (Utf8.encode (string s) ++ rest) = .ok (.string s, rest) := by
  have hread : ∀ rest, Json.string ((Utf8.encode (body s.toList) ++ [Json.ascii '"']) ++ rest)
      = .ok (s, rest) := by
    intro rest
    rw [List.append_assoc, List.singleton_append, Json.string_body]
  refine ⟨fun u r₁ r₂ => string_append_inj, fun c => le_of_mem_string,
    fun p c q => string_eq_append_cons_iff, ⟨_, Json.encode_string s, hread⟩, ?_⟩
  intro distinct depth rest
  rw [Json.encode_string, List.cons_append,
    Json.value_eq_scalar (by decide) (by decide) (by decide), Json.scalar, if_neg (by decide),
    if_neg (by decide), if_neg (by decide), if_pos rfl, hread]

/-- A backslash and a quote. The quote that stands for itself has three backslashes in front, and
the last one has none. -/
theorem string_delimits_itself_backslash_quote :
    (∃ u r, string "\\\"" ++ [','] = string u ++ r ∧ "\\\"" = u ∧ [','] = r) ∧
    (∃ c ∈ string "\\\"", c = '\\' ∧ 0x20 ≤ c.toNat) ∧
    (∃ p q, string "\\\"" = p ++ '"' :: q ∧ p ≠ [] ∧ q ≠ [] ∧ opensEscape p = true) := by
  obtain ⟨hinj, hcontrol, hquotes, -⟩ := string_delimits_itself "\\\""
  refine ⟨⟨_, _, rfl, hinj _ _ _ rfl⟩, ⟨_, by decide, rfl, hcontrol '\\' (by decide)⟩,
    ['"', '\\', '\\', '\\'], ['"'], rfl, by decide, by decide, ?_⟩
  rw [← Bool.not_eq_false]
  intro hp
  have hends := (hquotes ['"', '\\', '\\', '\\'] '"' ['"'] rfl).mp ⟨rfl, hp⟩
  simp at hends

end Canonical

end SealedLedger
