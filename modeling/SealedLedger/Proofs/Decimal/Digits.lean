import Mathlib.Data.Nat.Digits.Lemmas
import SealedLedger.Decimal.Digits

/-!
# Decimal digits and their number

The digits of a positive number are the library's digits of base ten, most significant first, and
zero has one digit. Everything here is carried over from there: the digits spell the number, the
first one is not zero, and their count is the number's order of magnitude.

## Main results

* `Decimal.digits_eq` — the bridge to the library's digits
* `Decimal.ofDigits_digits` — digits spell their number
* `Decimal.lt_pow_width`, `Decimal.pow_width_le` — the width is the order of magnitude
* `Decimal.natText_injective`, `Decimal.padded_injective` — texts of numbers differ
-/

namespace SealedLedger

namespace Decimal

/-! ### Digits -/

theorem digitsWithin_eq {fuel n : Nat} (hn : n ≠ 0) (h : n < 10 ^ (fuel + 1)) :
    digitsWithin fuel n = (Nat.digits 10 n).reverse := by
  induction fuel generalizing n with
  | zero =>
    have hlt : n < 10 := by simpa using h
    rw [digitsWithin, Nat.mod_eq_of_lt hlt, Nat.digits_of_lt 10 n hn hlt, List.reverse_singleton]
  | succ fuel ih =>
    rw [digitsWithin]
    split
    · next hlt => rw [Nat.digits_of_lt 10 n hn hlt, List.reverse_singleton]
    · next hge =>
      have hdiv : n / 10 < 10 ^ (fuel + 1) := by
        rw [Nat.div_lt_iff_lt_mul (by decide)]
        exact h
      rw [ih (by omega) hdiv, Nat.digits_def' (by decide) (Nat.pos_of_ne_zero hn),
        List.reverse_cons]

/-- The digits of a positive number are the library's, in the other order. -/
theorem digits_eq {n : Nat} (hn : n ≠ 0) : digits n = (Nat.digits 10 n).reverse := by
  refine digitsWithin_eq hn ?_
  calc n < 2 ^ (n.log2 + 1) := Nat.lt_log2_self
    _ ≤ 10 ^ (n.log2 + 1) := Nat.pow_le_pow_left (by decide) _

@[simp] theorem digits_zero : digits 0 = [0] := rfl

theorem digits_ne_nil (n : Nat) : digits n ≠ [] := by
  rcases eq_or_ne n 0 with rfl | hn
  · simp
  · rw [digits_eq hn, ne_eq, List.reverse_eq_nil_iff, Nat.digits_eq_nil_iff_eq_zero]
    exact hn

theorem lt_of_mem_digits {n d : Nat} (h : d ∈ digits n) : d < 10 := by
  rcases eq_or_ne n 0 with rfl | hn
  · simp only [digits_zero, List.mem_singleton] at h
    omega
  · rw [digits_eq hn, List.mem_reverse] at h
    exact Nat.digits_lt_base (by decide) h

/-- The first digit of a positive number is not zero. -/
theorem head_digits_ne_zero {n d : Nat} {ds : List Nat} (hn : n ≠ 0) (h : digits n = d :: ds) :
    d ≠ 0 := by
  rw [digits_eq hn] at h
  have hne : Nat.digits 10 n ≠ [] := Nat.digits_ne_nil_iff_ne_zero.mpr hn
  have hlast : (Nat.digits 10 n).getLast hne = d := by
    have := congrArg List.head? h
    rw [List.head?_reverse, List.getLast?_eq_some_getLast hne] at this
    simpa using this
  exact hlast ▸ Nat.getLast_digit_ne_zero 10 hn

/-! ### The number of digits -/

/-- Reading digits from the left is reading them from the right in the other order. -/
theorem ofDigits_eq (ds : List Nat) : ofDigits ds = Nat.ofDigits 10 ds.reverse := by
  induction ds using List.reverseRecOn with
  | nil => rfl
  | append_singleton ds d ih =>
    rw [ofDigits, List.foldl_append, List.reverse_append, List.reverse_singleton,
      List.singleton_append, Nat.ofDigits_cons, ← ih]
    simp only [List.foldl_cons, List.foldl_nil]
    rw [Nat.add_comm, Nat.mul_comm]
    rfl

/-- **Digits spell their number.** -/
theorem ofDigits_digits (n : Nat) : ofDigits (digits n) = n := by
  rcases eq_or_ne n 0 with rfl | hn
  · rfl
  · rw [ofDigits_eq, digits_eq hn, List.reverse_reverse, Nat.ofDigits_digits]

theorem ofDigits_append (as bs : List Nat) :
    ofDigits (as ++ bs) = ofDigits as * 10 ^ bs.length + ofDigits bs := by
  rw [ofDigits_eq, ofDigits_eq, ofDigits_eq, List.reverse_append, Nat.ofDigits_append,
    List.length_reverse]
  ring

theorem ofDigits_cons (d : Nat) (ds : List Nat) :
    ofDigits (d :: ds) = d * 10 ^ ds.length + ofDigits ds := by
  rw [← List.singleton_append, ofDigits_append]
  simp [ofDigits]

theorem ofDigits_replicate_zero (k : Nat) : ofDigits (List.replicate k 0) = 0 := by
  rw [ofDigits_eq, List.reverse_replicate, Nat.ofDigits_replicate_zero]

theorem ofDigits_lt {ds : List Nat} (h : ∀ d ∈ ds, d < 10) : ofDigits ds < 10 ^ ds.length := by
  rw [ofDigits_eq, ← List.length_reverse]
  exact Nat.ofDigits_lt_base_pow_length (by decide) (by simpa using h)

theorem digits_injective : Function.Injective digits := fun m n h => by
  rw [← ofDigits_digits m, h, ofDigits_digits]

/-- Digits without a leading zero are the digits of their number. -/
theorem digits_ofDigits {ds : List Nat} (hne : ds ≠ []) (hlt : ∀ d ∈ ds, d < 10)
    (hhead : ∀ d rest, ds = d :: rest → rest ≠ [] → d ≠ 0) : digits (ofDigits ds) = ds := by
  obtain ⟨d, rest, rfl⟩ := List.exists_cons_of_ne_nil hne
  by_cases hd : d = 0
  · obtain rfl : rest = [] := not_not.mp fun hrest => hhead d rest rfl hrest hd
    subst hd
    rfl
  · have hlast : ∀ h : (d :: rest).reverse ≠ [], (d :: rest).reverse.getLast h ≠ 0 := by
      intro h
      rwa [List.getLast_reverse, List.head_cons]
    have hreverse := Nat.digits_ofDigits 10 (by decide) (d :: rest).reverse
      (fun l hl => hlt l (List.mem_reverse.mp hl)) hlast
    have hpos : ofDigits (d :: rest) ≠ 0 := by
      intro hzero
      rw [ofDigits_eq] at hzero
      rw [hzero, Nat.digits_zero] at hreverse
      exact absurd hreverse.symm (by simp)
    rw [digits_eq hpos, ofDigits_eq, hreverse, List.reverse_reverse]

/-! ### Width -/

theorem lt_pow_width (n : Nat) : n < 10 ^ width n := by
  conv_lhs => rw [← ofDigits_digits n]
  exact ofDigits_lt fun _ => lt_of_mem_digits

theorem pow_width_le {n : Nat} (hn : n ≠ 0) : 10 ^ width n ≤ 10 * n := by
  rw [width, digits_eq hn, List.length_reverse]
  exact Nat.base_pow_length_digits_le 10 n (by decide) hn

/-! ### Text -/

theorem digitChar_inj {m n : Nat} (hm : m < 10) (hn : n < 10) (h : digitChar m = digitChar n) :
    m = n := by
  have key : ∀ m n : Fin 10, digitChar m = digitChar n → (m : Nat) = n := by decide
  exact key ⟨m, hm⟩ ⟨n, hn⟩ h

theorem digit?_digitChar {d : Nat} (h : d < 10) : digit? (digitChar d) = some d := by
  have key : ∀ d : Fin 10, digit? (digitChar d) = some (d : Nat) := by decide
  exact key ⟨d, h⟩

theorem isDigit_digitChar {d : Nat} (h : d < 10) : isDigit (digitChar d) = true := by
  have key : ∀ d : Fin 10, isDigit (digitChar d) = true := by decide
  exact key ⟨d, h⟩

theorem map_digitChar_inj {as bs : List Nat} (ha : ∀ d ∈ as, d < 10) (hb : ∀ d ∈ bs, d < 10)
    (h : as.map digitChar = bs.map digitChar) : as = bs := by
  induction as generalizing bs with
  | nil => simpa using h.symm
  | cons a as ih =>
    cases bs with
    | nil => simp at h
    | cons b bs =>
      obtain ⟨hab, hrest⟩ := List.cons.inj h
      rw [digitChar_inj (ha a (List.mem_cons_self ..)) (hb b (List.mem_cons_self ..)) hab,
        ih (fun d hd => ha d (List.mem_cons_of_mem _ hd))
          (fun d hd => hb d (List.mem_cons_of_mem _ hd)) hrest]

theorem natText_injective : Function.Injective natText := fun _ _ h =>
  digits_injective (map_digitChar_inj (fun _ => lt_of_mem_digits) (fun _ => lt_of_mem_digits) h)

theorem isDigit_of_mem_natText {n : Nat} {c : Char} (h : c ∈ natText n) : isDigit c = true := by
  obtain ⟨d, hd, rfl⟩ := List.mem_map.mp h
  exact isDigit_digitChar (lt_of_mem_digits hd)

/-! ### Padding -/

theorem padded_eq (w n : Nat) :
    padded w n = (List.replicate (w - width n) 0 ++ digits n).map digitChar := by
  rw [padded, natText, List.map_append, List.map_replicate]
  rfl

theorem isDigit_of_mem_padded {w n : Nat} {c : Char} (h : c ∈ padded w n) : isDigit c = true := by
  rcases List.mem_append.mp h with h | h
  · obtain rfl := List.eq_of_mem_replicate h
    rfl
  · exact isDigit_of_mem_natText h

/-- A number with at most so many digits is filled up to exactly so many. -/
theorem length_padded {w n : Nat} (hw : 0 < w) (h : n < 10 ^ w) : (padded w n).length = w := by
  have hwidth : width n ≤ w := by
    rcases eq_or_ne n 0 with rfl | hn
    · exact hw
    · have hlt : 10 ^ width n < 10 ^ (w + 1) := by
        calc 10 ^ width n ≤ 10 * n := pow_width_le hn
          _ < 10 * 10 ^ w := Nat.mul_lt_mul_of_pos_left h (by decide)
          _ = 10 ^ (w + 1) := by rw [Nat.pow_succ, Nat.mul_comm]
      exact Nat.lt_succ_iff.mp ((Nat.pow_lt_pow_iff_right (by decide)).mp hlt)
  rw [padded_eq, List.length_map, List.length_append, List.length_replicate,
    show (digits n).length = width n from rfl, Nat.sub_add_cancel hwidth]

theorem padded_injective (w : Nat) : Function.Injective (padded w) := by
  have hlt : ∀ n, ∀ d ∈ List.replicate (w - width n) 0 ++ digits n, d < 10 := by
    intro n d hd
    rcases List.mem_append.mp hd with hd | hd
    · rw [List.eq_of_mem_replicate hd]
      decide
    · exact lt_of_mem_digits hd
  have hvalue : ∀ n, ofDigits (List.replicate (w - width n) 0 ++ digits n) = n := by
    intro n
    rw [ofDigits_append, ofDigits_replicate_zero, Nat.zero_mul, Nat.zero_add, ofDigits_digits]
  intro m n h
  rw [padded_eq, padded_eq] at h
  rw [← hvalue m, map_digitChar_inj (hlt m) (hlt n) h, hvalue n]

/-! ### Integers -/

end Decimal

end SealedLedger
