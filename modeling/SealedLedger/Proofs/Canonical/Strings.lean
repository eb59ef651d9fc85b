import SealedLedger.Canonical
import SealedLedger.Json.Token
import SealedLedger.Proofs.Text.Hex

/-!
# The text of a string delimits itself

A character is written as itself, as a backslash and a letter, or as a backslash and a code point
of four digits. No one of these is the beginning of another, and none starts with a quote. So the
first bare quote after the opening one is the end of the string, and what stands before it
determines the characters.

## Main results

* `Canonical.escape_cases` — the three ways to write a character, as everything below uses them
* `Canonical.string_append_inj` — a string is determined by any text that begins with it
-/

namespace SealedLedger

namespace Canonical

/-! ### One character -/

/-- The three ways to write a character. The letter of a short escape is the one that the reader
of JSON takes for that character. -/
theorem escape_cases (c : Char) :
    (escape c = [c] ∧ c ≠ '"' ∧ c ≠ '\\' ∧ 0x20 ≤ c.toNat) ∨
    (∃ k, escape c = ['\\', k] ∧ k ≠ 'u' ∧ k.toNat < 0x80 ∧
      Json.escaped? (Json.ascii k) = some c) ∨
    (c.toNat < 0x20 ∧
      escape c = ['\\', 'u', '0', '0', Hex.digit (c.toNat / 16), Hex.digit (c.toNat % 16)]) := by
  unfold escape
  split
  · next h => exact .inr (.inl ⟨'"', rfl, by decide, by decide, by rw [h]; decide⟩)
  split
  · next h => exact .inr (.inl ⟨'\\', rfl, by decide, by decide, by rw [h]; decide⟩)
  split
  · next h => exact .inr (.inl ⟨'b', rfl, by decide, by decide, by rw [h]; decide⟩)
  split
  · next h => exact .inr (.inl ⟨'f', rfl, by decide, by decide, by rw [h]; decide⟩)
  split
  · next h => exact .inr (.inl ⟨'n', rfl, by decide, by decide, by rw [h]; decide⟩)
  split
  · next h => exact .inr (.inl ⟨'r', rfl, by decide, by decide, by rw [h]; decide⟩)
  split
  · next h => exact .inr (.inl ⟨'t', rfl, by decide, by decide, by rw [h]; decide⟩)
  split
  · next h => exact .inr (.inr ⟨h, rfl⟩)
  · next hq hb _ _ _ _ _ h => exact .inl ⟨rfl, hq, hb, Nat.not_lt.mp h⟩

theorem escape_ne_nil (c : Char) : escape c ≠ [] := by
  rcases escape_cases c with ⟨h, _⟩ | ⟨k, h, _⟩ | ⟨_, h⟩ <;> rw [h] <;> simp

/-- No character is written with a bare quote in front. -/
theorem ne_quote_of_escape_eq_cons {c d : Char} {cs : List Char} (h : escape c = d :: cs) :
    d ≠ '"' := by
  rcases escape_cases c with ⟨he, hq, _⟩ | ⟨k, he, _⟩ | ⟨_, he⟩ <;> rw [he] at h <;>
    obtain ⟨rfl, -⟩ := List.cons.inj h
  · exact hq
  · decide
  · decide

/-- No way to write a character is the beginning of another. -/
theorem escape_append_inj {c d : Char} {r s : List Char} (h : escape c ++ r = escape d ++ s) :
    c = d ∧ r = s := by
  rcases escape_cases c with ⟨hc, _, hcb, _⟩ | ⟨j, hc, hju, _, hj⟩ | ⟨hclt, hc⟩ <;>
    rcases escape_cases d with ⟨hd, _, hdb, _⟩ | ⟨k, hd, hku, _, hk⟩ | ⟨hdlt, hd⟩ <;>
    rw [hc, hd] at h <;>
    simp only [List.cons_append, List.nil_append, List.cons.injEq] at h
  · exact h
  · exact absurd h.1 hcb
  · exact absurd h.1 hcb
  · exact absurd h.1.symm hdb
  · obtain ⟨-, rfl, hrs⟩ := h
    exact ⟨Option.some.inj (hj.symm.trans hk), hrs⟩
  · exact absurd h.2.1 hju
  · exact absurd h.1.symm hdb
  · exact absurd h.2.1.symm hku
  · obtain ⟨-, -, -, -, hhigh, hlow, hrs⟩ := h
    have h1 := Hex.digit_inj (by omega) (by omega) hhigh
    have h2 := Hex.digit_inj (by omega) (by omega) hlow
    exact ⟨Char.toNat_inj.mp (by omega), hrs⟩

/-! ### Whole strings -/

/-- The characters of a string are determined by what is written up to the closing quote. -/
theorem body_append_inj {cs ds r s : List Char}
    (h : body cs ++ '"' :: r = body ds ++ '"' :: s) : cs = ds ∧ r = s := by
  induction cs generalizing ds with
  | nil =>
    cases ds with
    | nil => exact ⟨rfl, (List.cons.inj h).2⟩
    | cons d ds =>
      obtain ⟨e, es, he⟩ := List.exists_cons_of_ne_nil (escape_ne_nil d)
      rw [body_cons, he] at h
      exact absurd (List.cons.inj h).1.symm (ne_quote_of_escape_eq_cons he)
  | cons c cs ih =>
    cases ds with
    | nil =>
      obtain ⟨e, es, he⟩ := List.exists_cons_of_ne_nil (escape_ne_nil c)
      rw [body_cons, he] at h
      exact absurd (List.cons.inj h).1 (ne_quote_of_escape_eq_cons he)
    | cons d ds =>
      rw [body_cons, body_cons, List.append_assoc, List.append_assoc] at h
      obtain ⟨rfl, h'⟩ := escape_append_inj h
      obtain ⟨rfl, hrs⟩ := ih h'
      exact ⟨rfl, hrs⟩

/-- **A string is determined by any text that begins with it.** -/
theorem string_append_inj {a b : String} {r s : List Char} (h : string a ++ r = string b ++ s) :
    a = b ∧ r = s := by
  simp only [string, List.cons_append, List.append_assoc, List.nil_append, List.cons.injEq,
    true_and] at h
  obtain ⟨hab, hrs⟩ := body_append_inj h
  exact ⟨String.toList_injective hab, hrs⟩

end Canonical

end SealedLedger
