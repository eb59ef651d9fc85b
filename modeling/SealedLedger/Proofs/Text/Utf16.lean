import SealedLedger.Proofs.Text.Utf8

/-!
# Texts in the order of their bytes and of their units

A code that spells each character out on its own orders texts as their characters are ordered, if
of any two characters the smaller one is spelled smaller, whatever follows. The bytes of UTF-8 do
this for all characters. The units of UTF-16 do not: a character above `U+FFFF` is a pair of units
that start at `D800`, and stands before the characters from `U+E000` to `U+FFFF`, each of which is
one unit. These are the only characters on which the two orders differ.

## Main definitions

* `Utf16.encode` — the units of a text
* `Precedes` — one spelling stands before another, whatever follows them
* `parting?` — the characters at which two texts part
* `Utf16.IsHigh`, `Utf16.IsPaired` — the characters whose units are out of order
* `Utf16.Crosses` — the texts part at such characters

## Main results

* `flatMap_lt_flatMap_iff` — the order of texts from that of the characters at which they part
* `utf8_lt_utf8_iff` — the order of bytes is that of characters
* `utf16_lt_utf16_iff` — and so is that of units, on texts that do not cross
* `Utf16.Crosses.lt_and_lt` — on texts that do, the two orders differ
-/

namespace SealedLedger

/-! ### Codes that keep the order -/

section

variable {α : Type} [LT α]

/-- The first spelling stands before the second, whatever follows them. -/
def Precedes (x y : List α) : Prop :=
  ∀ u v, x ++ u < y ++ v

theorem precedes_cons_of_lt {x y : α} (h : x < y) (xs ys : List α) :
    Precedes (x :: xs) (y :: ys) := by
  intro u v
  exact .rel h

theorem Precedes.append {xs ys : List α} (h : Precedes xs ys) (us vs : List α) :
    Precedes (xs ++ us) (ys ++ vs) := by
  intro u v
  rw [List.append_assoc, List.append_assoc]
  exact h _ _

theorem Precedes.append_left {us vs : List α} (xs : List α) (h : Precedes us vs) :
    Precedes (xs ++ us) (xs ++ vs) := by
  intro u v
  rw [List.append_assoc, List.append_assoc]
  exact List.append_left_lt (h u v)

/-- The characters at which two texts part, unless one of them ends before. -/
def parting? : List Char → List Char → Option (Char × Char)
  | c :: cs, d :: ds => if c = d then parting? cs ds else some (c, d)
  | _, _ => none

theorem parting?_comm (a b : List Char) : parting? b a = (parting? a b).map Prod.swap := by
  induction a generalizing b with
  | nil => cases b <;> rfl
  | cons c a ih =>
    cases b with
    | nil => rfl
    | cons d b =>
      by_cases hcd : c = d
      · rw [parting?, parting?, if_pos hcd, if_pos hcd.symm, ih]
      · rw [parting?, parting?, if_neg hcd, if_neg (Ne.symm hcd)]
        rfl

/-- The characters at which texts part stand in them. -/
theorem mem_of_parting? {a b : List Char} {c d : Char} (h : parting? a b = some (c, d)) :
    c ∈ a ∧ d ∈ b := by
  induction a generalizing b with
  | nil => cases h
  | cons e a ih =>
    cases b with
    | nil => cases h
    | cons f b =>
      rw [parting?] at h
      split at h
      · obtain ⟨hc, hd⟩ := ih h
        exact ⟨List.mem_cons_of_mem e hc, List.mem_cons_of_mem f hd⟩
      · obtain ⟨rfl, rfl⟩ := Prod.mk.inj (Option.some.inj h)
        exact ⟨List.mem_cons_self .., List.mem_cons_self ..⟩

variable {code : Char → List α} {a b : List Char}

/-- Texts are in the order of the spellings of the characters at which they part. -/
theorem flatMap_lt_flatMap_of_parting? {c d : Char} (h : parting? a b = some (c, d))
    (hcd : Precedes (code c) (code d)) : a.flatMap code < b.flatMap code := by
  induction a generalizing b with
  | nil => cases h
  | cons e a ih =>
    cases b with
    | nil => cases h
    | cons f b =>
      rw [parting?] at h
      rw [List.flatMap_cons, List.flatMap_cons]
      split at h
      · next hef =>
        rw [hef]
        exact List.append_left_lt (ih h)
      · obtain ⟨rfl, rfl⟩ := Prod.mk.inj (Option.some.inj h)
        exact hcd _ _

/-- The induction is on where the texts part: at the end of the first, or at two characters. -/
theorem flatMap_lt_flatMap (hne : ∀ c, code c ≠ [])
    (hcode : ∀ c d, parting? a b = some (c, d) → c < d → Precedes (code c) (code d))
    (h : a < b) : a.flatMap code < b.flatMap code := by
  induction h with
  | @nil d b =>
    obtain ⟨x, xs, hx⟩ := List.exists_cons_of_ne_nil (hne d)
    rw [List.flatMap_cons, hx]
    exact .nil
  | @cons c a b _ ih =>
    rw [List.flatMap_cons, List.flatMap_cons]
    rw [parting?, if_pos rfl] at hcode
    exact List.append_left_lt (ih hcode)
  | @rel c a d b hcd =>
    have hpart : parting? (c :: a) (d :: b) = some (c, d) := if_neg (Char.ne_of_lt hcd)
    exact flatMap_lt_flatMap_of_parting? hpart (hcode c d hpart hcd)

/-- **The order of texts from that of the characters at which they part.** -/
theorem flatMap_lt_flatMap_iff [Std.Asymm (α := α) (· < ·)] (hne : ∀ c, code c ≠ [])
    (hab : ∀ c d, parting? a b = some (c, d) → c < d → Precedes (code c) (code d))
    (hba : ∀ c d, parting? b a = some (c, d) → c < d → Precedes (code c) (code d)) :
    a.flatMap code < b.flatMap code ↔ a < b := by
  refine ⟨fun h => ?_, flatMap_lt_flatMap hne hab⟩
  by_contra hnot
  rcases List.le_iff_lt_or_eq.mp (List.not_lt.mp hnot) with hlt | rfl
  · exact List.lt_asymm h (flatMap_lt_flatMap hne hba hlt)
  · exact List.lt_asymm h h

end

/-! ### Bytes -/

namespace Utf8

theorem precedes_lead {m n : Nat} (h : m < n) (hn : n < 256) (xs ys : List UInt8) :
    Precedes (UInt8.ofNat m :: xs) (UInt8.ofNat n :: ys) :=
  precedes_cons_of_lt ((UInt8.ofNat_lt_iff_lt (Nat.lt_trans h hn) hn).mpr h) xs ys

/-- Numbers below a bound are spelled in their order. -/
def KeepsOrder (bound : Nat) (spell : Nat → List UInt8) : Prop :=
  ∀ m n, m < n → n < bound → Precedes (spell m) (spell n)

/-- A first byte with a mark. -/
theorem keepsOrder_lead (bound mark : Nat) (h : bound + mark ≤ 256) :
    KeepsOrder bound fun n => [UInt8.ofNat (n % bound + mark)] := by
  intro m n hmn hn
  dsimp only
  rw [Nat.mod_eq_of_lt hn, Nat.mod_eq_of_lt (Nat.lt_trans hmn hn)]
  exact precedes_lead (by omega) (by omega) [] []

/-- A further byte spells six bits more: it decides between numbers that agree on all others. -/
theorem KeepsOrder.trail {bound : Nat} {spell : Nat → List UInt8} (h : KeepsOrder bound spell) :
    KeepsOrder (bound * 64) fun n => spell (n / 64) ++ [UInt8.ofNat (n % 64 + 128)] := by
  intro m n hmn hn
  by_cases hdiv : m / 64 = n / 64
  · dsimp only
    rw [hdiv]
    exact .append_left _ (precedes_lead (by omega) (by omega) [] [])
  · exact (h _ _ (by omega) (by omega)).append _ _

theorem keepsOrder_two : KeepsOrder 0x800 fun n =>
    [UInt8.ofNat (n / 64 % 32 + 192), UInt8.ofNat (n % 64 + 128)] :=
  (keepsOrder_lead 32 192 (by decide)).trail

theorem keepsOrder_three : KeepsOrder 0x10000 fun n =>
    [UInt8.ofNat (n / 4096 % 16 + 224), UInt8.ofNat (n / 64 % 64 + 128),
      UInt8.ofNat (n % 64 + 128)] := by
  have h := (keepsOrder_lead 16 224 (by decide)).trail.trail
  simpa [Nat.div_div_eq_div_mul] using h

theorem keepsOrder_four : KeepsOrder 0x200000 fun n =>
    [UInt8.ofNat (n / 262144 % 8 + 240), UInt8.ofNat (n / 4096 % 64 + 128),
      UInt8.ofNat (n / 64 % 64 + 128), UInt8.ofNat (n % 64 + 128)] := by
  have h := (keepsOrder_lead 8 240 (by decide)).trail.trail.trail
  simpa [Nat.div_div_eq_div_mul] using h

/-- **The smaller character is the smaller one in bytes**: it has no more of them, and a character
with more has the larger first byte. -/
theorem precedes_of_lt {c d : Char} (h : c < d) : Precedes (encodeChar c) (encodeChar d) := by
  have hlt : c.toNat < d.toNat := h
  rcases encodeChar_cases c with
      ⟨hc, henc⟩ | ⟨hc, hc', henc⟩ | ⟨hc, hc', henc⟩ | ⟨hc, hc', henc⟩ <;>
    rcases encodeChar_cases d with
      ⟨hd, henc'⟩ | ⟨hd, hd', henc'⟩ | ⟨hd, hd', henc'⟩ | ⟨hd, hd', henc'⟩ <;>
    rw [henc, henc']
  -- one byte
  · exact precedes_lead (by omega) (by omega) _ _
  · exact precedes_lead (by omega) (by omega) _ _
  · exact precedes_lead (by omega) (by omega) _ _
  · exact precedes_lead (by omega) (by omega) _ _
  -- two bytes
  · omega
  · exact keepsOrder_two _ _ hlt (by omega)
  · exact precedes_lead (by omega) (by omega) _ _
  · exact precedes_lead (by omega) (by omega) _ _
  -- three bytes
  · omega
  · omega
  · exact keepsOrder_three _ _ hlt (by omega)
  · exact precedes_lead (by omega) (by omega) _ _
  -- four bytes
  · omega
  · omega
  · omega
  · exact keepsOrder_four _ _ hlt (by omega)

end Utf8

/-- **The order of bytes is that of characters.** -/
theorem utf8_lt_utf8_iff {s t : String} : utf8 s < utf8 t ↔ s.toList < t.toList :=
  flatMap_lt_flatMap_iff Utf8.encodeChar_ne_nil (fun _ _ _ => Utf8.precedes_of_lt)
    fun _ _ _ => Utf8.precedes_of_lt

/-! ### Units -/

namespace Utf16

/-- The one or two units of a character. -/
def encodeChar (c : Char) : List UInt16 :=
  if c.toNat < 0x10000 then [UInt16.ofNat c.toNat]
  else [UInt16.ofNat (0xD800 + (c.toNat - 0x10000) / 0x400),
    UInt16.ofNat (0xDC00 + (c.toNat - 0x10000) % 0x400)]

/-- The units of a text. -/
def encode (cs : List Char) : List UInt16 :=
  cs.flatMap encodeChar

/-- The character is one unit, above those that come in pairs. -/
def IsHigh (c : Char) : Prop :=
  0xE000 ≤ c.toNat ∧ c.toNat ≤ 0xFFFF

/-- The character is a pair of units. -/
def IsPaired (c : Char) : Prop :=
  0xFFFF < c.toNat

instance (c : Char) : Decidable (IsHigh c) :=
  inferInstanceAs (Decidable (_ ∧ _))

instance (c : Char) : Decidable (IsPaired c) :=
  inferInstanceAs (Decidable (_ < _))

theorem precedes_lead {m n : Nat} (h : m < n) (hn : n < 65536) (xs ys : List UInt16) :
    Precedes (UInt16.ofNat m :: xs) (UInt16.ofNat n :: ys) :=
  precedes_cons_of_lt ((UInt16.ofNat_lt_iff_lt (Nat.lt_trans h hn) hn).mpr h) xs ys

theorem encodeChar_ne_nil (c : Char) : encodeChar c ≠ [] := by
  rw [encodeChar]
  split <;> exact List.cons_ne_nil _ _

/-- **The smaller character is the smaller one in units**, unless it is one unit above the pairs and
the other one is a pair. -/
theorem precedes_of_lt {c d : Char} (h : c < d) (hmixed : ¬ (IsHigh c ∧ IsPaired d)) :
    Precedes (encodeChar c) (encodeChar d) := by
  have hlt : c.toNat < d.toNat := h
  have hc := Utf8.toNat_cases c
  have hd := Utf8.toNat_cases d
  rw [IsHigh, IsPaired] at hmixed
  rw [encodeChar, encodeChar]
  split
  · split
    · exact precedes_lead hlt (by omega) _ _
    · exact precedes_lead (by omega) (by omega) _ _
  · rw [if_neg (by omega)]
    by_cases hdiv : (c.toNat - 0x10000) / 0x400 = (d.toNat - 0x10000) / 0x400
    · rw [hdiv]
      exact .append_left [_] (precedes_lead (by omega) (by omega) [] [])
    · exact precedes_lead (by omega) (by omega) _ _

/-- A pair stands before a character that is one unit above the pairs. -/
theorem precedes_of_isPaired {c d : Char} (hc : IsHigh c) (hd : IsPaired d) :
    Precedes (encodeChar d) (encodeChar c) := by
  have hvalid := Utf8.toNat_cases d
  rw [IsHigh] at hc
  rw [IsPaired] at hd
  rw [encodeChar, encodeChar, if_neg (by omega), if_pos (by omega)]
  exact precedes_lead (by omega) (by omega) _ _

end Utf16

/-- The units of a string. -/
def utf16 (s : String) : List UInt16 :=
  Utf16.encode s.toList

namespace Utf16

/-- The texts part at a character that is one unit above the pairs in the first, and at a pair in
the second. -/
def Crosses (s t : String) : Prop :=
  ∃ p ∈ parting? s.toList t.toList, IsHigh p.1 ∧ IsPaired p.2

instance (s t : String) : Decidable (Crosses s t) :=
  inferInstanceAs (Decidable (∃ p ∈ parting? s.toList t.toList, IsHigh p.1 ∧ IsPaired p.2))

/-- **Texts that cross are in one order by their bytes and in the other by their units.** -/
theorem Crosses.lt_and_lt {s t : String} (h : Crosses s t) :
    utf8 s < utf8 t ∧ utf16 t < utf16 s := by
  obtain ⟨⟨c, d⟩, hpart, hc, hd⟩ := h
  have hlt : c < d := Nat.lt_of_le_of_lt hc.2 hd
  have hswap : parting? t.toList s.toList = some (d, c) := by
    rw [parting?_comm, hpart]
    rfl
  exact ⟨flatMap_lt_flatMap_of_parting? hpart (Utf8.precedes_of_lt hlt),
    flatMap_lt_flatMap_of_parting? hswap (precedes_of_isPaired hc hd)⟩

example : Crosses "a｡" "a😀z" ∧ ¬ Crosses "a｡" "b😀" := by decide

end Utf16

/-- **The order of units is that of characters** on texts that do not cross. -/
theorem utf16_lt_utf16_iff {s t : String} (hst : ¬ Utf16.Crosses s t)
    (hts : ¬ Utf16.Crosses t s) : utf16 s < utf16 t ↔ s.toList < t.toList :=
  flatMap_lt_flatMap_iff Utf16.encodeChar_ne_nil
    (fun c d hpart hlt => Utf16.precedes_of_lt hlt fun hcd => hst ⟨(c, d), hpart, hcd⟩)
    fun c d hpart hlt => Utf16.precedes_of_lt hlt fun hcd => hts ⟨(c, d), hpart, hcd⟩

end SealedLedger
