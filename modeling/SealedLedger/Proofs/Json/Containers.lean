import Mathlib.Data.List.Forall2
import SealedLedger.Json.Reader
import SealedLedger.Proofs.Canonical.Equivalence
import SealedLedger.Proofs.Json.Strings

/-!
# Arrays and objects are read item by item

A reader takes a text when it reads exactly that text off the front of any input in which no number
goes on behind it. What such a reader does inside a container does not depend on what the items
are: an array of texts that are taken is taken, and so is an object whose members are taken by the
steps that gather them. One item that is refused is enough for the whole container to be refused.

Blanks may stand in front of each item and in front of the closing bracket, so the compact and the
indented layout are read alike.

## Main definitions

* `Json.Reads`, `Json.Refuses` — what a reader makes of a text, whatever follows
* `Json.IsBlank` — white space as a writer sets it
* `Json.inside` — the items of a container between its brackets
* `Json.ReadsMembers` — the steps along the members of an object

## Main results

* `Json.reads_array`, `Json.refuses_array`
* `Json.members_inside`, `Json.reads_object`, `Json.refuses_object`
-/

namespace SealedLedger

namespace Json

open Canonical (commaSeparated commaSeparated_cons)

/-! ### What follows a value -/

theorem endsNumber_cons {b : UInt8}
    (h : digit? b = none ∧ b ≠ ascii '.' ∧ b ≠ ascii 'e' ∧ b ≠ ascii 'E') (rest : List UInt8) :
    EndsNumber (b :: rest) := by
  rintro c more hc
  rwa [← (List.cons.inj hc).1]

theorem skipSpace_cons {b : UInt8} (h : isSpace b = false) (rest : List UInt8) :
    skipSpace (b :: rest) = b :: rest := by
  rw [skipSpace, List.dropWhile_cons_of_neg (by rw [h]; exact Bool.false_ne_true)]

/-! ### Texts that are taken -/

section

variable {α β : Type} {r : Reader α} {t : List Char} {a : α}

/-- The reader takes exactly this text for a value, whatever follows that no number goes on
with. -/
def Reads (r : Reader α) (t : List Char) (a : α) : Prop :=
  ∀ rest, EndsNumber rest → r (Utf8.encode t ++ rest) = .ok (a, rest)

/-- The reader stops inside this text, whatever follows that no number goes on with. -/
def Refuses (r : Reader α) (t : List Char) : Prop :=
  ∀ rest, EndsNumber rest → ∃ stop, r (Utf8.encode t ++ rest) = .error stop

theorem Reads.map (h : Reads r t a) (f : α → β) : Reads (do return f (← r)) t (f a) := by
  intro rest hrest
  show (r (Utf8.encode t ++ rest)).bind _ = _
  rw [h rest hrest]
  rfl

end

/-! ### Blanks -/

/-- The characters are blanks and line ends. -/
def IsBlank (cs : List Char) : Prop :=
  ∀ c ∈ cs, c = ' ' ∨ c = '\n'

theorem isBlank_nil : IsBlank [] := fun _ h => by cases h

theorem skipSpace_blank {cs : List Char} (h : IsBlank cs) (input : List UInt8) :
    skipSpace (Utf8.encode cs ++ input) = skipSpace input := by
  induction cs with
  | nil => rfl
  | cons c cs ih =>
    obtain ⟨hc, hcs⟩ := List.forall_mem_cons.mp h
    have hspace : ∃ b, Utf8.encodeChar c = [b] ∧ isSpace b = true := by
      rcases hc with rfl | rfl
      · exact ⟨0x20, by decide, rfl⟩
      · exact ⟨0x0A, by decide, rfl⟩
    obtain ⟨b, hb, hspace⟩ := hspace
    rw [Utf8.encode_cons, hb, List.append_assoc, List.singleton_append, skipSpace,
      List.dropWhile_cons_of_pos hspace]
    exact ih hcs

theorem endsNumber_blank {cs : List Char} (h : IsBlank cs) {rest : List UInt8}
    (hrest : EndsNumber rest) : EndsNumber (Utf8.encode cs ++ rest) := by
  cases cs with
  | nil => exact hrest
  | cons c cs =>
    rw [Utf8.encode_cons]
    rcases h c (List.mem_cons_self ..) with rfl | rfl <;> exact endsNumber_cons (by decide) _

/-- The reader passes over white space first. -/
def SkipsSpace {α : Type} (r : Reader α) : Prop :=
  ∀ input, r (skipSpace input) = r input

theorem skipSpace_skipSpace (input : List UInt8) : skipSpace (skipSpace input) = skipSpace input :=
  List.dropWhile_idempotent isSpace input

theorem Reads.blank {α : Type} {r : Reader α} {t pre : List Char} {a : α} (hr : SkipsSpace r)
    (hpre : IsBlank pre) (h : Reads r t a) : Reads r (pre ++ t) a := by
  intro rest hrest
  rw [Utf8.encode_append, List.append_assoc, ← hr, skipSpace_blank hpre, hr, h rest hrest]

/-! ### Whole texts -/

section

variable {α : Type} {r : Reader α} {t post : List Char} {a : α}

/-- A whole text is what its reader takes it for, and blanks may follow. -/
theorem Reads.whole_append (h : Reads r t a) (hpost : IsBlank post) :
    whole r (Utf8.encode (t ++ post)) = .ok a := by
  have hread := h (Utf8.encode post) (by simpa using endsNumber_blank hpost endsNumber_nil)
  have hskip : skipSpace (Utf8.encode post) = [] := by
    rw [← List.append_nil (Utf8.encode post), skipSpace_blank hpost]
    rfl
  rw [Json.whole, Utf8.encode_append, hread]
  simp only [hskip]

theorem Reads.whole (h : Reads r t a) : whole r (Utf8.encode t) = .ok a := by
  simpa using h.whole_append isBlank_nil

theorem Refuses.whole_append (h : Refuses r t) (hpost : IsBlank post) :
    ∃ e, whole r (Utf8.encode (t ++ post)) = .error e := by
  obtain ⟨stop, hread⟩ := h (Utf8.encode post)
    (by simpa using endsNumber_blank hpost endsNumber_nil)
  rw [Json.whole, Utf8.encode_append, hread]
  exact ⟨_, rfl⟩

end

/-! ### Items between commas -/

/-- The texts of items as the reader finds them: before the first one, or after another one. -/
def itemsText (first : Bool) (ts : List (List Char)) : List Char :=
  if first then commaSeparated ts else if ts = [] then [] else ',' :: commaSeparated ts

theorem itemsText_nil (first : Bool) : itemsText first [] = [] := by
  cases first <;> rfl

theorem itemsText_cons (first : Bool) (t : List Char) (ts : List (List Char)) :
    itemsText first (t :: ts) = ((if first then [] else [',']) ++ t) ++ itemsText false ts := by
  cases first <;> simp [itemsText, commaSeparated_cons]

/-- After an item no number goes on. -/
theorem endsNumber_itemsText (ts : List (List Char)) {rest : List UInt8} (hrest : EndsNumber rest) :
    EndsNumber (Utf8.encode (itemsText false ts) ++ rest) := by
  cases ts with
  | nil => exact hrest
  | cons t ts =>
    rw [itemsText_cons, List.append_assoc, Utf8.encode_append]
    exact endsNumber_cons (by decide) _

theorem length_le_length_commaSeparated (ts : List (List Char)) :
    ts.length ≤ (Utf8.encode (commaSeparated ts)).length + 1 := by
  induction ts with
  | nil => exact Nat.zero_le _
  | cons t ts ih =>
    rw [commaSeparated_cons]
    split
    · next h =>
      subst h
      simp
    · simp only [List.length_cons, List.length_append, Utf8.encode_append, Utf8.encode_cons,
        show (Utf8.encodeChar ',').length = 1 by decide]
      omega

/-- What stands between the brackets of a container: blanks in front of each item, and in front of
the closing bracket. -/
def inside (pre post : List Char) (ts : List (List Char)) : List Char :=
  commaSeparated (ts.map (pre ++ ·)) ++ post

/-- The allowance of the reader is enough for all items of its input. -/
theorem length_lt_length_inside (pre post : List Char) (ts : List (List Char)) (b : UInt8)
    (rest : List UInt8) :
    ts.length < (Utf8.encode (itemsText true (ts.map (pre ++ ·))) ++
      (Utf8.encode post ++ b :: rest)).length + 1 := by
  have h := length_le_length_commaSeparated (ts.map (pre ++ ·))
  rw [List.length_map] at h
  rw [itemsText, if_pos rfl, List.length_append, List.length_append, List.length_cons]
  omega

variable {pre post : List Char}

/-! ### Arrays -/

section

variable {α : Type} {item : Reader α} {t : List Char} {ts : List (List Char)} {as : List α}
  {rest : List UInt8}

/-- The text begins with neither white space nor a closing bracket. -/
def BeginsItem (t : List Char) : Prop :=
  ∃ b bytes, Utf8.encode t = b :: bytes ∧ isSpace b = false ∧ b ≠ ascii ']'

/-- The reader goes to one more item, with the comma in front of it unless it is the first. -/
theorem nextElement_item (first : Bool) (hpre : IsBlank pre) (ht : BeginsItem t) :
    nextElement first item
      (Utf8.encode ((if first then [] else [',']) ++ (pre ++ t)) ++ rest) =
    match item (Utf8.encode t ++ rest) with
    | .error stop => .error stop
    | .ok (a, rest) => .ok (some a, rest) := by
  obtain ⟨b, bytes, hb, hspace, hclose⟩ := ht
  have hskip : skipSpace (Utf8.encode (pre ++ t) ++ rest) = b :: (bytes ++ rest) := by
    rw [Utf8.encode_append, List.append_assoc, skipSpace_blank hpre, hb, List.cons_append,
      skipSpace_cons hspace]
  have hmore : moreElements first
      (Utf8.encode ((if first then [] else [',']) ++ (pre ++ t)) ++ rest)
        = .ok (true, Utf8.encode t ++ rest) := by
    cases first with
    | true =>
      rw [if_pos rfl, List.nil_append, moreElements, hskip, hb]
      simp only [if_neg hclose, if_true, List.cons_append]
    | false =>
      rw [if_neg Bool.false_ne_true, List.singleton_append, Utf8.encode_cons,
        show Utf8.encodeChar ',' = [ascii ','] by decide, List.append_assoc, List.singleton_append,
        moreElements, skipSpace_cons (by decide), hb]
      simp only [hskip, if_neg hclose, show ascii ',' ≠ ascii ']' by decide, if_false, if_true,
        Bool.false_eq_true, List.cons_append]
  rewrite [nextElement, hmore]
  rfl

/-- The reader finds the end of an array behind blanks. -/
theorem nextElement_end (first : Bool) (hpost : IsBlank post) (rest : List UInt8) :
    nextElement first item (Utf8.encode post ++ ascii ']' :: rest)
      = .ok (none, ascii ']' :: rest) := by
  rw [nextElement, moreElements, skipSpace_blank hpost, skipSpace_cons (by decide)]
  simp

/-- After the items no number goes on. -/
theorem endsNumber_post (hpost : IsBlank post) {b : UInt8}
    (hb : digit? b = none ∧ b ≠ ascii '.' ∧ b ≠ ascii 'e' ∧ b ≠ ascii 'E') (rest : List UInt8) :
    EndsNumber (Utf8.encode post ++ b :: rest) :=
  endsNumber_blank hpost (endsNumber_cons hb rest)

/-- **The items of an array are read one by one**, with any allowance that is large enough. -/
theorem elementsWithin_items (hpre : IsBlank pre) (hpost : IsBlank post) {fuel : Nat} (first : Bool)
    (hts : List.Forall₂ (fun a t => BeginsItem t ∧ Reads item t a) as ts)
    (hfuel : ts.length < fuel) :
    elementsWithin item fuel first (Utf8.encode (itemsText first (ts.map (pre ++ ·))) ++
      (Utf8.encode post ++ ascii ']' :: rest)) = .ok (as, ascii ']' :: rest) := by
  induction hts generalizing fuel first with
  | nil =>
    obtain ⟨fuel, rfl⟩ := Nat.exists_eq_add_of_lt hfuel
    rw [List.map_nil, itemsText_nil, Utf8.encode_nil, List.nil_append, elementsWithin,
      nextElement_end first hpost]
  | @cons a t as ts hta hts ih =>
    obtain ⟨k, rfl⟩ := Nat.exists_eq_add_of_le' (show 1 ≤ fuel by omega)
    have hread := hta.2 _ (endsNumber_itemsText (ts.map (pre ++ ·))
      (endsNumber_post hpost (b := ascii ']') (by decide) rest))
    have hrest := ih false (show ts.length < k by simpa using hfuel)
    rw [List.map_cons, itemsText_cons, Utf8.encode_append, List.append_assoc, elementsWithin,
      nextElement_item first hpre hta.1, hread]
    simp only [hrest]

/-- One item that is refused stops the reader of an array, with any allowance. -/
theorem elementsWithin_refuses (hpre : IsBlank pre) (hpost : IsBlank post) (fuel : Nat)
    (first : Bool) (rest : List UInt8)
    (hts : ∀ t ∈ ts, BeginsItem t ∧ ((∃ a, Reads item t a) ∨ Refuses item t))
    (hrefuses : ∃ t ∈ ts, Refuses item t) :
    ∃ stop, elementsWithin item fuel first (Utf8.encode (itemsText first (ts.map (pre ++ ·))) ++
      (Utf8.encode post ++ ascii ']' :: rest)) = .error stop := by
  induction ts generalizing fuel first with
  | nil => exact absurd hrefuses.choose_spec.1 List.not_mem_nil
  | cons t ts ih =>
    cases fuel with
    | zero => exact ⟨_, rfl⟩
    | succ fuel =>
      obtain ⟨⟨hbegins, ht⟩, hts⟩ := List.forall_mem_cons.mp hts
      have hends := endsNumber_itemsText (ts.map (pre ++ ·))
        (endsNumber_post hpost (b := ascii ']') (by decide) rest)
      rw [List.map_cons, itemsText_cons, Utf8.encode_append, List.append_assoc, elementsWithin,
        nextElement_item first hpre hbegins]
      obtain ⟨u, hu, hrefuses⟩ := hrefuses
      have hfails : Refuses item t ∨ ((∃ a, Reads item t a) ∧ u ∈ ts) := by
        rcases List.mem_cons.mp hu with rfl | hu
        · exact .inl hrefuses
        · exact ht.symm.imp_right fun ht => ⟨ht, hu⟩
      rcases hfails with ht | ⟨⟨a, ht⟩, hu⟩
      · obtain ⟨stop, hstop⟩ := ht _ hends
        rw [hstop]
        exact ⟨stop, rfl⟩
      · obtain ⟨stop, hstop⟩ := ih fuel false hts ⟨u, hu, hrefuses⟩
        rw [ht _ hends]
        simp only [hstop]
        exact ⟨stop, rfl⟩

theorem encode_inside (pre post : List Char) (ts : List (List Char)) (c : Char)
    (hc : c.toNat < 0x80) (rest : List UInt8) : Utf8.encode (inside pre post ts ++ [c]) ++ rest
      = Utf8.encode (itemsText true (ts.map (pre ++ ·))) ++
        (Utf8.encode post ++ ascii c :: rest) := by
  rw [Utf8.encode_append, Utf8.encode_cons, Utf8.encode_nil, Utf8.encodeChar_of_lt hc, inside,
    Utf8.encode_append, itemsText, if_pos rfl]
  simp [ascii]

/-- **An array is taken when its items are.** -/
theorem reads_array (hpre : IsBlank pre) (hpost : IsBlank post)
    (hts : List.Forall₂ (fun a t => BeginsItem t ∧ Reads item t a) as ts) :
    Reads (bracketed (elements item)) (inside pre post ts ++ [']']) as := by
  intro rest _
  have hclose : closeArray (ascii ']' :: rest) = .ok ((), rest) := by
    rw [closeArray, skipSpace_cons (by decide)]
    rfl
  rw [encode_inside pre post ts ']' (by decide), bracketed, elements,
    elementsWithin_items hpre hpost true hts (length_lt_length_inside pre post ts _ rest)]
  simp only [hclose]

/-- An array is refused when one of its items is. -/
theorem refuses_array (hpre : IsBlank pre) (hpost : IsBlank post)
    (hts : ∀ t ∈ ts, BeginsItem t ∧ ((∃ a, Reads item t a) ∨ Refuses item t))
    (hrefuses : ∃ t ∈ ts, Refuses item t) :
    Refuses (bracketed (elements item)) (inside pre post ts ++ [']']) := by
  intro rest _
  rw [encode_inside pre post ts ']' (by decide), bracketed, elements]
  obtain ⟨stop, hstop⟩ := elementsWithin_refuses hpre hpost _ true rest hts hrefuses
  rw [hstop]
  exact ⟨_, rfl⟩

end

/-! ### Objects -/

section

variable {σ : Type} {step : σ → String → Reader σ} {s s' : σ} {ms : List (String × List Char)}
  {rest : List UInt8}

/-- The text of a member: its key, and the rest from the colon on. -/
def memberText (m : String × List Char) : List Char :=
  Canonical.string m.1 ++ m.2

/-- The step takes the members one after another from a first state to a last one. -/
inductive ReadsMembers (step : σ → String → Reader σ) : σ → List (String × List Char) → σ → Prop
  | nil (s : σ) : ReadsMembers step s [] s
  | cons {s s' s'' : σ} {k : String} {u : List Char} {ms : List (String × List Char)}
      (first : Reads (step s k) u s') (more : ReadsMembers step s' ms s'') :
      ReadsMembers step s ((k, u) :: ms) s''

/-- **Fields are read into a state one after another**, when each is read into any state that does
not have it yet and leaves the state without the others. -/
theorem readsMembers_of_fields {F : Type} {put : σ → F → σ} {has : σ → F → Bool} {fs : List F}
    (hput : ∀ s f g, g ≠ f → has (put s f) g = has s g) (hnodup : fs.Nodup)
    (hnew : ∀ f ∈ fs, has s f = false)
    (h : List.Forall₂ (fun f m => ∀ s, has s f = false → Reads (step s m.1) m.2 (put s f)) fs ms) :
    ReadsMembers step s ms (fs.foldl put s) := by
  induction h generalizing s with
  | nil => exact .nil s
  | @cons f m fs ms hm hms ih =>
    obtain ⟨hf, hnodup⟩ := List.nodup_cons.mp hnodup
    obtain ⟨hfresh, hnew⟩ := List.forall_mem_cons.mp hnew
    refine .cons (hm s hfresh) (ih hnodup fun g hg => ?_)
    have hne : g ≠ f := by
      rintro rfl
      exact hf hg
    rw [hput s f g hne]
    exact hnew g hg

/-- The reader takes one more key, with the comma in front of it unless it is the first. -/
theorem nextKey_string (first : Bool) (hpre : IsBlank pre) (k : String) (rest : List UInt8) :
    nextKey first
        (Utf8.encode ((if first then [] else [',']) ++ (pre ++ Canonical.string k)) ++ rest)
      = .ok (some k, rest) := by
  have hkey : nextKey.key (Utf8.encode (Canonical.body k.toList) ++ ascii '"' :: rest)
      = .ok (some k, rest) := by
    rw [nextKey.key]
    simp only [string_body]
  have hskip : skipSpace (Utf8.encode (pre ++ Canonical.string k) ++ rest)
      = ascii '"' :: (Utf8.encode (Canonical.body k.toList) ++ ascii '"' :: rest) := by
    rw [Utf8.encode_append, List.append_assoc, skipSpace_blank hpre, encode_string,
      List.cons_append, List.append_assoc, List.singleton_append, skipSpace_cons (by decide)]
  cases first with
  | true =>
    rw [if_pos rfl, List.nil_append, nextKey, hskip]
    simp only [show ascii '"' ≠ ascii '\x7d' by decide, if_false, if_true, hkey]
  | false =>
    rw [if_neg Bool.false_ne_true, List.singleton_append, Utf8.encode_cons,
      show Utf8.encodeChar ',' = [ascii ','] by decide, List.append_assoc, List.singleton_append,
      nextKey, skipSpace_cons (by decide)]
    simp only [hskip, show ascii ',' ≠ ascii '\x7d' by decide, Bool.false_eq_true, if_false,
      if_true, hkey]

/-- The reader finds the end of an object behind blanks. -/
theorem nextKey_end (first : Bool) (hpost : IsBlank post) (rest : List UInt8) :
    nextKey first (Utf8.encode post ++ ascii '\x7d' :: rest)
      = .ok (none, ascii '\x7d' :: rest) := by
  rw [nextKey, skipSpace_blank hpost, skipSpace_cons (by decide)]
  simp

/-- The reader hands the first member to the step, with any allowance left for it. -/
theorem membersWithin_member (hpre : IsBlank pre) (first : Bool) (fuel : Nat) (s : σ)
    (m : String × List Char) (ms : List (String × List Char)) (rest : List UInt8) :
    membersWithin step (fuel + 1) first s
      (Utf8.encode (itemsText first (((m :: ms).map memberText).map (pre ++ ·))) ++ rest) =
    match step s m.1 (Utf8.encode m.2 ++
      (Utf8.encode (itemsText false ((ms.map memberText).map (pre ++ ·))) ++ rest)) with
    | .error stop => .error stop
    | .ok (s', rest) => membersWithin step fuel false s' rest := by
  have htext : itemsText first (((m :: ms).map memberText).map (pre ++ ·))
      = ((if first then [] else [',']) ++ (pre ++ Canonical.string m.1)) ++
        (m.2 ++ itemsText false ((ms.map memberText).map (pre ++ ·))) := by
    simp only [List.map_cons, itemsText_cons, memberText, List.append_assoc]
  rewrite [htext, Utf8.encode_append, List.append_assoc, membersWithin, nextKey_string first hpre,
    Utf8.encode_append, List.append_assoc]
  rfl

/-- **The members of an object are read one by one**, with any allowance that is large enough. -/
theorem membersWithin_items (hpre : IsBlank pre) (hpost : IsBlank post) {fuel : Nat} (first : Bool)
    (hms : ReadsMembers step s ms s') (hfuel : ms.length < fuel) :
    membersWithin step fuel first s
      (Utf8.encode (itemsText first ((ms.map memberText).map (pre ++ ·))) ++
        (Utf8.encode post ++ ascii '\x7d' :: rest)) = .ok (s', ascii '\x7d' :: rest) := by
  induction hms generalizing fuel first with
  | nil s =>
    obtain ⟨fuel, rfl⟩ := Nat.exists_eq_add_of_lt hfuel
    rw [List.map_nil, List.map_nil, itemsText_nil, Utf8.encode_nil, List.nil_append, membersWithin,
      nextKey_end first hpost]
  | @cons s s' s'' k u ms hfirst hms ih =>
    obtain ⟨fuel, rfl⟩ := Nat.exists_eq_add_of_le' (show 1 ≤ fuel by omega)
    have hread := hfirst _ (endsNumber_itemsText ((ms.map memberText).map (pre ++ ·))
      (endsNumber_post hpost (b := ascii '\x7d') (by decide) rest))
    rw [membersWithin_member hpre, hread]
    exact ih false (by simpa using hfuel)

/-- One member that is refused in every state stops the reader of an object, with any allowance. -/
theorem membersWithin_refuses (hpre : IsBlank pre) (hpost : IsBlank post) (fuel : Nat)
    (first : Bool) (s : σ) (rest : List UInt8)
    (hms : ∀ m ∈ ms, ∀ s, (∃ s', Reads (step s m.1) m.2 s') ∨ Refuses (step s m.1) m.2)
    (hrefuses : ∃ m ∈ ms, ∀ s, Refuses (step s m.1) m.2) :
    ∃ stop, membersWithin step fuel first s
      (Utf8.encode (itemsText first ((ms.map memberText).map (pre ++ ·))) ++
        (Utf8.encode post ++ ascii '\x7d' :: rest)) = .error stop := by
  induction ms generalizing fuel first s with
  | nil => exact absurd hrefuses.choose_spec.1 List.not_mem_nil
  | cons m ms ih =>
    cases fuel with
    | zero => exact ⟨_, rfl⟩
    | succ fuel =>
      obtain ⟨hm, hms⟩ := List.forall_mem_cons.mp hms
      have hends := endsNumber_itemsText ((ms.map memberText).map (pre ++ ·))
        (endsNumber_post hpost (b := ascii '\x7d') (by decide) rest)
      rw [membersWithin_member hpre]
      obtain ⟨n, hn, hrefuses⟩ := hrefuses
      have hfails : Refuses (step s m.1) m.2 ∨
          ((∃ s', Reads (step s m.1) m.2 s') ∧ n ∈ ms) := by
        rcases List.mem_cons.mp hn with rfl | hn
        · exact .inl (hrefuses s)
        · exact (hm s).symm.imp_right fun hread => ⟨hread, hn⟩
      rcases hfails with hread | ⟨⟨s', hread⟩, hn⟩
      · obtain ⟨stop, hstop⟩ := hread _ hends
        rw [hstop]
        exact ⟨stop, rfl⟩
      · rw [hread _ hends]
        exact ih fuel false s' hms ⟨n, hn, hrefuses⟩

/-- The state after the members of an object. -/
theorem members_inside (hpre : IsBlank pre) (hpost : IsBlank post)
    (hms : ReadsMembers step s ms s') (rest : List UInt8) :
    members step s (Utf8.encode (inside pre post (ms.map memberText) ++ ['\x7d']) ++ rest)
      = .ok (s', ascii '\x7d' :: rest) := by
  have hfuel := length_lt_length_inside pre post (ms.map memberText) (ascii '\x7d') rest
  rw [List.length_map] at hfuel
  rw [encode_inside pre post _ '\x7d' (by decide), members]
  exact membersWithin_items hpre hpost true hms hfuel

theorem closeObject_close (rest : List UInt8) :
    closeObject (ascii '\x7d' :: rest) = .ok ((), rest) := by
  rw [closeObject, skipSpace_cons (by decide)]
  rfl

/-- **An object is taken when its members are.** -/
theorem reads_object (hpre : IsBlank pre) (hpost : IsBlank post)
    (hms : ReadsMembers step s ms s') :
    Reads (braced (members step s)) (inside pre post (ms.map memberText) ++ ['\x7d']) s' := by
  intro rest _
  rw [braced, members_inside hpre hpost hms]
  simp only [closeObject_close]

/-- An object is refused when one of its members is. -/
theorem refuses_object (hpre : IsBlank pre) (hpost : IsBlank post)
    (hms : ∀ m ∈ ms, ∀ s, (∃ s', Reads (step s m.1) m.2 s') ∨ Refuses (step s m.1) m.2)
    (hrefuses : ∃ m ∈ ms, ∀ s, Refuses (step s m.1) m.2) :
    Refuses (braced (members step s)) (inside pre post (ms.map memberText) ++ ['\x7d']) := by
  intro rest _
  obtain ⟨stop, hstop⟩ := membersWithin_refuses hpre hpost _ true s rest hms hrefuses
  rw [encode_inside pre post _ '\x7d' (by decide), braced, members, hstop]
  exact ⟨_, rfl⟩

end

end Json

end SealedLedger
