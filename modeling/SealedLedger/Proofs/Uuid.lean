import Mathlib.Algebra.GroupWithZero.Nat
import SealedLedger.Proofs.Text.Hex
import SealedLedger.Uuid

/-!
# Identifiers and their text

The text of an identifier is thirty-two digits with hyphens at fixed places, and so many digits are
enough for a word of 128 bits. The reader takes such a text for groups of digits without a wrapper.

## Main results

* `Uuid.hexDigits_inj` — enough digits determine a number
* `Uuid.hyphenated_inj` — groups determine what was split
* `Uuid.text_injective`
* `Uuid.parse?_text` — an identifier is read back from its text
-/

namespace SealedLedger

namespace Uuid

theorem length_hexDigits (w n : Nat) : (hexDigits w n).length = w := by
  induction w generalizing n with
  | zero => rfl
  | succ w ih => rw [hexDigits, List.length_append, ih, List.length_singleton]

/-- **Enough digits determine a number.** -/
theorem hexDigits_inj {w m n : Nat} (hm : m < 16 ^ w) (hn : n < 16 ^ w)
    (h : hexDigits w m = hexDigits w n) : m = n := by
  induction w generalizing m n with
  | zero =>
    rw [Nat.pow_zero] at hm hn
    omega
  | succ w ih =>
    obtain ⟨hhigh, hlow⟩ := List.append_inj' h rfl
    have hdiv := ih (by omega) (by omega) hhigh
    have hmod := Hex.digit_inj (by omega) (by omega) (List.cons.inj hlow).1
    omega

/-- **Groups determine the characters that were split.** -/
theorem hyphenated_inj {ns : List Nat} {as bs : List Char} (ha : as.length = ns.sum)
    (hb : bs.length = ns.sum) (h : hyphenated ns as = hyphenated ns bs) : as = bs := by
  induction ns generalizing as bs with
  | nil => rw [List.length_eq_zero_iff.mp ha, List.length_eq_zero_iff.mp hb]
  | cons n ns ih =>
    rw [List.sum_cons] at ha hb
    cases ns with
    | nil =>
      rw [hyphenated, hyphenated, List.take_of_length_le (by simp [ha]),
        List.take_of_length_le (by simp [hb])] at h
      exact h
    | cons m ns =>
      have hlen : (as.take n).length = (bs.take n).length := by
        rw [List.length_take, List.length_take, ha, hb]
      obtain ⟨htake, hrest⟩ := List.append_inj h hlen
      have hdrop : as.drop n = bs.drop n :=
        ih (by rw [List.length_drop, ha, Nat.add_sub_cancel_left])
          (by rw [List.length_drop, hb, Nat.add_sub_cancel_left]) (List.cons.inj hrest).2
      rw [← List.take_append_drop n as, htake, hdrop, List.take_append_drop]

/-- **Identifiers are determined by their text.** -/
theorem text_injective : Function.Injective text := by
  intro a b h
  have hdigits : hexDigits 32 a.bits.toNat = hexDigits 32 b.bits.toNat :=
    hyphenated_inj (length_hexDigits ..) (length_hexDigits ..) (String.ofList_injective h)
  have hbits : a.bits.toNat = b.bits.toNat :=
    hexDigits_inj (Nat.lt_of_lt_of_le a.bits.isLt (by decide))
      (Nat.lt_of_lt_of_le b.bits.isLt (by decide)) hdigits
  rw [Uuid.mk.injEq]
  exact BitVec.eq_of_toNat_eq hbits

/-! ### Reading a text back -/

theorem exists_digit_of_mem_hexDigits {w n : Nat} {c : Char} (h : c ∈ hexDigits w n) :
    ∃ d < 16, c = Hex.digit d := by
  induction w generalizing n with
  | zero => cases h
  | succ w ih =>
    rcases List.mem_append.mp h with h | h
    · exact ih h
    · exact ⟨n % 16, by omega, List.mem_singleton.mp h⟩

/-- A hexadecimal digit is no hyphen and begins no wrapper. -/
theorem digit_ne_mark {d : Nat} (h : d < 16) :
    Hex.digit d ≠ '-' ∧ Hex.digit d ≠ '\x7b' ∧ (Hex.digit d).toLower ≠ 'u' := by
  have key : ∀ d : Fin 16,
      Hex.digit d ≠ '-' ∧ Hex.digit d ≠ '\x7b' ∧ (Hex.digit d).toLower ≠ 'u' := by decide
  exact key ⟨d, h⟩

/-- **Digits are read back**, as many as were written. -/
theorem digits?_hexDigits (w n : Nat) :
    ∃ ds, digits? (hexDigits w n) = some ds ∧
      ds.foldl (fun n d => n * 16 + d) 0 = n % 16 ^ w := by
  induction w generalizing n with
  | zero => exact ⟨[], rfl, (Nat.mod_one n).symm⟩
  | succ w ih =>
    obtain ⟨ds, hds, hvalue⟩ := ih (n / 16)
    have hlast : [Hex.digit (n % 16)].mapM Hex.charDigit? = some [n % 16] := by
      simp [Hex.charDigit?_digit (show n % 16 < 16 by omega)]
    refine ⟨ds ++ [n % 16], ?_, ?_⟩
    · rw [digits?] at hds
      rw [digits?, hexDigits, List.mapM_append, hds, hlast]
      rfl
    · rw [List.foldl_append, hvalue, List.foldl_cons, List.foldl_nil, Nat.pow_succ', Nat.mod_mul]
      omega

theorem split_of_notMem {cs : List Char} (h : '-' ∉ cs) : split cs = [cs] := by
  induction cs with
  | nil => rfl
  | cons c cs ih =>
    rw [List.mem_cons, not_or] at h
    obtain ⟨hc, hcs⟩ := h
    rw [split, if_neg (Ne.symm hc), ih hcs]

theorem split_append {cs : List Char} (h : '-' ∉ cs) (rest : List Char) :
    split (cs ++ '-' :: rest) = cs :: split rest := by
  induction cs with
  | nil => rw [List.nil_append, split, if_pos rfl]
  | cons c cs ih =>
    rw [List.mem_cons, not_or] at h
    obtain ⟨hc, hcs⟩ := h
    rw [List.cons_append, split, if_neg (Ne.symm hc), ih hcs]

/-- **Groups are found again** between the hyphens. -/
theorem split_hyphenated {ns : List Nat} {cs : List Char} (hns : ns ≠ [])
    (hlength : cs.length = ns.sum) (hcs : '-' ∉ cs) :
    (split (hyphenated ns cs)).map List.length = ns ∧
      (split (hyphenated ns cs)).flatten = cs := by
  induction ns generalizing cs with
  | nil => exact absurd rfl hns
  | cons n ns ih =>
    rw [List.sum_cons] at hlength
    have htake : (cs.take n).length = n := by
      rw [List.length_take]
      omega
    have hfirst : '-' ∉ cs.take n := fun h => hcs (List.mem_of_mem_take h)
    cases ns with
    | nil =>
      have hall : cs.take n = cs := List.take_of_length_le (by simp [hlength])
      rw [hyphenated, split_of_notMem hfirst, List.map_singleton, htake, List.flatten_singleton]
      exact ⟨rfl, hall⟩
    | cons m ns =>
      obtain ⟨hlengths, hflatten⟩ := ih (List.cons_ne_nil m ns)
        (by rw [List.length_drop, hlength, Nat.add_sub_cancel_left])
        (fun h => hcs (List.mem_of_mem_drop h))
      rw [hyphenated, split_append hfirst, List.map_cons, hlengths, htake, List.flatten_cons,
        hflatten, List.take_append_drop]
      · exact ⟨rfl, rfl⟩
      · exact List.cons_ne_nil m ns

/-- A text that begins with a digit has no wrapper. -/
theorem unwrap_of_digit {d : Nat} (h : d < 16) (cs : List Char) :
    unwrap (Hex.digit d :: cs) = (.bare, Hex.digit d :: cs) := by
  obtain ⟨-, hbrace, hurn⟩ := digit_ne_mark h
  rw [unwrap, if_neg, if_neg]
  · intro hmark
    exact hurn (List.cons.inj hmark).1
  · rintro ⟨hopen, -⟩
    exact hbrace (List.cons.inj hopen).1

/-- **An identifier is read back from its text.** -/
theorem parse?_text (u : Uuid) : parse? u.text = .ok u := by
  have hlength := length_hexDigits 32 u.bits.toNat
  have hhyphen : '-' ∉ hexDigits 32 u.bits.toNat := by
    intro h
    obtain ⟨d, hd, heq⟩ := exists_digit_of_mem_hexDigits h
    exact (digit_ne_mark hd).1 heq.symm
  obtain ⟨hparts, hflatten⟩ := split_hyphenated (show groups ≠ [] by decide) hlength hhyphen
  obtain ⟨ds, hds, hvalue⟩ := digits?_hexDigits 32 u.bits.toNat
  have hbits : BitVec.ofNat 128 (u.bits.toNat % 16 ^ 32) = u.bits := by
    rw [Nat.mod_eq_of_lt (Nat.lt_of_lt_of_le u.bits.isLt (by decide)), BitVec.ofNat_toNat,
      BitVec.setWidth_eq]
  have hread : ofHyphenated? (hyphenated groups (hexDigits 32 u.bits.toNat)) = some u := by
    rw [ofHyphenated?]
    simp only [hparts, if_true, hflatten]
    rw [ofDigits?, if_pos hlength, hds, Option.map_some, hvalue, hbits]
  have hpos : 0 < (hexDigits 32 u.bits.toNat).length := by omega
  obtain ⟨c, cs, hcs⟩ := List.exists_cons_of_length_pos hpos
  obtain ⟨d, hd, rfl⟩ : ∃ d < 16, c = Hex.digit d :=
    exists_digit_of_mem_hexDigits (by rw [hcs]; exact List.mem_cons_self ..)
  have hwidth : (hyphenated groups (hexDigits 32 u.bits.toNat)).length = 36 := by
    simp [groups, hyphenated, hlength]
  have hbare : unwrap (hyphenated groups (hexDigits 32 u.bits.toNat))
      = (.bare, hyphenated groups (hexDigits 32 u.bits.toNat)) := by
    rw [hcs]
    exact unwrap_of_digit hd _
  have hwhole : ofDigits? (hyphenated groups (hexDigits 32 u.bits.toNat)) = none := by
    rw [ofDigits?, if_neg (by rw [hwidth]; decide)]
  rw [parse?, text, String.toList_ofList, hbare]
  simp only [hwhole, hread]
  rfl

end Uuid

end SealedLedger
