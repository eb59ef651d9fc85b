import Mathlib.Data.List.Basic
import SealedLedger.Yaml.Reader

/-!
# Texts of one word

The layout of a YAML text begins to matter where there is white space, a line break, a bracket or
one of the marks that begin a token. A text of letters, digits, signs and points has none of these,
unless it begins with a mark itself. It is a single token, a plain scalar; the scalar is the only
node of the document, and its meaning is the value of the text.

## Main definitions

* `Yaml.IsWordText` — a text that is a single word
* `Yaml.Scan.afterWord` — the state of the scanner behind it

## Main results

* `Yaml.plainScalar_word` — a word is taken whole
* `Yaml.ofText_word` — its tokens
* `Yaml.read?_word` — a word has the value of a plain scalar, or is refused as one
-/

namespace SealedLedger

namespace Yaml

/-! ### Characters of words -/

/-- The character may stand anywhere in a word: a letter, a digit, an underscore, a sign or a
point. -/
def isPart (c : Char) : Bool := isWord c || c == '+' || c == '.'

/-- The character may begin a word: a letter, a digit or an underscore. -/
def isHead (c : Char) : Bool := isWord c && c != '-'

theorem isPart_of_isHead {c : Char} (h : isHead c = true) : isPart c = true := by
  rw [isHead, Bool.and_eq_true] at h
  rw [isPart, h.1, Bool.true_or, Bool.true_or]

theorem toNat_lt_of_isPart {c : Char} (h : isPart c = true) : c.toNat < 128 := by
  simp only [isPart, isWord, Bool.or_eq_true, Bool.and_eq_true, decide_eq_true_eq, beq_iff_eq,
    Char.le_def, UInt32.le_iff_toNat_le] at h
  rcases h with (((((⟨-, h⟩ | ⟨-, h⟩) | ⟨-, h⟩) | rfl) | rfl) | rfl) | rfl
  · exact Nat.lt_of_le_of_lt h (by decide)
  · exact Nat.lt_of_le_of_lt h (by decide)
  · exact Nat.lt_of_le_of_lt h (by decide)
  all_goals decide

/-- The characters of words are among the first 128. -/
theorem of_isPart {P : Char → Prop} {c : Char}
    (h : ∀ n : Fin 128, isPart (Char.ofNat n) = true → P (Char.ofNat n)) (hc : isPart c = true) :
    P c := by
  have hcode := h ⟨c.toNat, toNat_lt_of_isPart hc⟩
  rw [Char.ofNat_toNat] at hcode
  exact hcode hc

theorem isPart_cases {c : Char} (h : isPart c = true) :
    allowed c = true ∧ isBlank c = false ∧ isBreak c = false ∧ c ≠ ':' ∧ c ≠ '#' ∧
      c ≠ '\ufeff' :=
  of_isPart (P := fun c => allowed c = true ∧ isBlank c = false ∧ isBreak c = false ∧ c ≠ ':' ∧
    c ≠ '#' ∧ c ≠ '\ufeff') (by decide) h

/-- A character that begins a word begins nothing else. -/
theorem isHead_cases {c : Char} (h : isHead c = true) :
    c ≠ '-' ∧ c ≠ '.' ∧ isGap (some c) = false ∧
      "-?:,[]\x7b\x7d#&*!|>'\"%@\x60".toList.contains c = false :=
  of_isPart (P := fun c => isHead c = true → c ≠ '-' ∧ c ≠ '.' ∧ isGap (some c) = false ∧
    "-?:,[]\x7b\x7d#&*!|>'\"%@\x60".toList.contains c = false) (by decide)
    (isPart_of_isHead h) h

/-! ### Positions -/

namespace Cursor

@[simp] theorem advance_zero (c : Cursor) : c.advance 0 = c := by
  rw [advance, List.drop_zero, List.take_zero, Nat.add_zero]
  rfl

/-- Behind its last character a text is over. -/
theorem head?_advance_length (cs : List Char) :
    ((Cursor.start cs).advance cs.length).head? = none := by
  simp [advance, start, head?]

/-- Nothing is skipped where the next character does not pass the test. -/
theorem skip_eq_self {c : Cursor} {test : Char → Bool}
    (h : ∀ ch, c.head? = some ch → test ch = false) : c.skip test = c := by
  have hrun : c.run test = [] := by
    rcases hrest : c.rest with _ | ⟨ch, rest⟩
    · rw [run, hrest, List.takeWhile_nil]
    · have hhead : c.head? = some ch := by rw [head?, hrest, List.head?_cons]
      rw [run, hrest, List.takeWhile_cons, h ch hhead, if_neg Bool.false_ne_true]
  rw [skip, hrun, List.length_nil, advance_zero]

end Cursor

/-- Nothing stands between the position and the next token. -/
theorem Scan.toToken_eq_self {s : Scan} (h : ∀ ch, s.cursor.head? = some ch →
    ch ≠ '\ufeff' ∧ ch ≠ '#' ∧ isBlank ch = false ∧ isBreak ch = false) : s.toToken = s := by
  have hmark : (s.cursor.column = 0 && s.cursor.stands '\ufeff') = false := by
    rw [Bool.and_eq_false_iff]
    right
    rw [Cursor.stands, beq_eq_false_iff_ne]
    exact fun heq => (h _ heq).1 rfl
  have hcomment : s.cursor.stands '#' = false := by
    rw [Cursor.stands, beq_eq_false_iff_ne]
    exact fun heq => (h _ heq).2.1 rfl
  have hbreak : s.cursor.head?.any isBreak = false := by
    rcases hhead : s.cursor.head? with _ | ch
    · rfl
    · exact (h ch hhead).2.2.2
  have hskip : s.cursor.skip (fun ch => ch == ' ' || (ch == '\t' && (s.flow || !s.keyAllowed)))
      = s.cursor := by
    refine Cursor.skip_eq_self fun ch hch => ?_
    have := (h ch hch).2.2.1
    rw [isBlank, Bool.or_eq_false_iff] at this
    rw [this.1, this.2]
    rfl
  simp only [toToken, toTokenWithin, hmark, hskip, hcomment, hbreak, Bool.false_eq_true, if_false]

/-! ### Words -/

/-- The text is a single word. It may begin with a minus sign in front of a letter or a digit. -/
structure IsWordText (cs : List Char) : Prop where
  part : ∀ c ∈ cs, isPart c = true
  head : ∃ c rest, cs = c :: rest ∧
    (isHead c = true ∨ c = '-' ∧ ∃ d more, rest = d :: more ∧ isHead d = true)

variable {cs : List Char}

/-- Outside brackets nothing in a word ends a plain scalar. -/
theorem plainRun_word (h : ∀ c ∈ cs, isPart c = true) :
    plainRun false cs = (cs.length, false) := by
  induction cs with
  | nil => rfl
  | cons c cs ih =>
    obtain ⟨-, hblank, hbreak, hcolon, -⟩ := isPart_cases (h c (List.mem_cons_self ..))
    rw [plainRun, ih fun d hd => h d (List.mem_cons_of_mem _ hd), hblank, hbreak]
    simp [hcolon]

/-- A word does not look like the start or the end of a document. -/
theorem IsWordText.indicates_eq_false (h : IsWordText cs) {ch : Char}
    (hch : ch = '-' ∨ ch = '.') : (Cursor.start cs).indicates ch = false := by
  obtain ⟨c, rest, rfl, hhead⟩ := h.head
  have htake : ((c :: rest).take 3 == [ch, ch, ch]) = false := by
    rw [beq_eq_false_iff_ne]
    intro heq
    rcases hhead with hc | ⟨rfl, d, more, rfl, hd⟩
    · obtain ⟨hminus, hpoint, -⟩ := isHead_cases hc
      rw [List.take_succ_cons] at heq
      obtain ⟨rfl, -⟩ := List.cons.inj heq
      exact hch.elim hminus hpoint
    · obtain ⟨hminus, hpoint, -⟩ := isHead_cases hd
      rw [List.take_succ_cons, List.take_succ_cons] at heq
      obtain ⟨-, hrest⟩ := List.cons.inj heq
      obtain ⟨rfl, -⟩ := List.cons.inj hrest
      exact hch.elim hminus hpoint
  simp only [Cursor.indicates, Cursor.start, htake, Bool.and_false, Bool.false_and]

/-- **A word is taken whole**, up to the end of the text. -/
theorem plainScalar_word (h : IsWordText cs) (indent : Nat) :
    plainScalar false indent (Cursor.start cs) =
      .ok (cs, false, (Cursor.start cs).advance cs.length) := by
  have hedge : (Cursor.start cs).atDocumentEdge = false := by
    rw [Cursor.atDocumentEdge, h.indicates_eq_false (.inl rfl), h.indicates_eq_false (.inr rfl)]
    rfl
  have hcomment : (Cursor.start cs).stands '#' = false := by
    rw [Cursor.stands, beq_eq_false_iff_ne]
    intro heq
    have hmem : '#' ∈ cs := List.mem_of_head? heq
    exact absurd (h.part '#' hmem) (by decide)
  have hlength : cs.length ≠ 0 := by
    obtain ⟨c, rest, rfl, -⟩ := h.head
    exact Nat.succ_ne_zero _
  have hend := Cursor.head?_advance_length cs
  rw [plainScalar, plainWithin, hedge, hcomment, show (Cursor.start cs).rest = cs from rfl,
    plainRun_word h.part]
  simp [hlength, hend, Gap.fold, Gap.none]

/-- The token at the start of a word is a plain scalar. -/
theorem tokenAt_word {c : Char} {rest : List Char} (h : IsWordText (c :: rest)) :
    (Scan.start (c :: rest)).tokenAt c = (Scan.start (c :: rest)).plainScalarToken := by
  have hflow : (Scan.start (c :: rest)).flow = false := rfl
  have hcursor : (Scan.start (c :: rest)).cursor = Cursor.start (c :: rest) := rfl
  have hahead : (Cursor.start (c :: rest)).ahead? 1 = rest.head? := by
    cases rest <;> rfl
  simp only [Scan.tokenAt, hflow, hcursor, h.indicates_eq_false (.inl rfl),
    h.indicates_eq_false (.inr rfl), Bool.false_eq_true, if_false, hahead]
  obtain ⟨c', rest', heq, hhead⟩ := h.head
  obtain ⟨rfl, rfl⟩ := List.cons.inj heq
  rcases hhead with hc | ⟨rfl, d, more, rfl, hd⟩
  · obtain ⟨-, -, hgap, hmarks⟩ := isHead_cases hc
    have hstarts : Scan.startsPlain false c rest.head? = true := by
      simp only [Scan.startsPlain, hgap, hmarks, Bool.not_false, Bool.and_self, Bool.true_or]
    have hne : ∀ m ∈ "-?:,[]\x7b\x7d#&*!|>'\"%@\x60".toList, c ≠ m := by
      rintro m hm rfl
      rw [List.contains_eq_mem, decide_eq_false_iff_not] at hmarks
      exact hmarks hm
    simp only [hstarts, hne '[' (by decide), hne '\x7b' (by decide), hne ']' (by decide),
      hne '\x7d' (by decide), hne ',' (by decide), hne '*' (by decide), hne '&' (by decide),
      hne '!' (by decide), hne '\'' (by decide), hne '"' (by decide),
      beq_false_of_ne (hne '-' (by decide)), beq_false_of_ne (hne '?' (by decide)),
      beq_false_of_ne (hne ':' (by decide)), beq_false_of_ne (hne '|' (by decide)),
      beq_false_of_ne (hne '>' (by decide)), beq_false_of_ne (hne '%' (by decide)),
      Bool.false_and, Bool.and_false, Bool.false_eq_true, if_false, if_true]
  · obtain ⟨-, -, hgap, -⟩ := isHead_cases hd
    obtain ⟨-, hblank, -⟩ := isPart_cases (isPart_of_isHead hd)
    have hstarts : Scan.startsPlain false '-' (some d) = true := by
      simp only [Scan.startsPlain, Option.any_some, hblank]
      rfl
    simp only [List.head?_cons, hgap, hstarts, if_true]
    simp

theorem toToken_word (h : IsWordText cs) : (Scan.start cs).toToken = Scan.start cs := by
  refine Scan.toToken_eq_self fun ch hch => ?_
  obtain ⟨-, hblank, hbreak, -, hcomment, hmark⟩ := isPart_cases (h.part ch (List.mem_of_head? hch))
  exact ⟨hmark, hcomment, hblank, hbreak⟩

/-- No possible simple key that is over was required, so all of them may be dropped. -/
theorem Scan.dropStale_eq_ok {s : Scan} (hlevels : s.levels = [])
    (hplace : s.keyPlace.any (·.required) = false) :
    ∃ place, s.dropStale = .ok { s with keyPlace := place } ∧
      place.any (·.required) = false := by
  refine ⟨s.keyPlace.filter (!isStale s.cursor ·), ?_, ?_⟩
  · have hfind : (s.keyPlaces.find? fun k => k.required && isStale s.cursor k) = none := by
      rw [keyPlaces, hlevels]
      cases hkey : s.keyPlace with
      | none => rfl
      | some k =>
        rw [hkey, Option.any_some] at hplace
        simp [hplace]
    simp only [dropStale, hfind, hlevels, List.map_nil]
  · cases hkey : s.keyPlace with
    | none => rfl
    | some k =>
      rw [hkey, Option.any_some] at hplace
      rw [Option.filter_some]
      split
      · exact hplace
      · rfl

/-- A possible simple key that is not required may be given up. -/
theorem Scan.dropKey_eq_ok {s : Scan} (hplace : s.keyPlace.any (·.required) = false) :
    s.dropKey = .ok { s with keyPlace := none } := by
  have hfilter : s.keyPlace.filter (·.required) = none := by
    cases hkey : s.keyPlace with
    | none => rfl
    | some k =>
      rw [hkey, Option.any_some] at hplace
      rw [Option.filter_some, if_neg (Bool.eq_false_iff.mp hplace)]
  rw [dropKey, hfilter]

/-- A step takes the token at the next character. -/
theorem Scan.step_at_character {s t : Scan} {ch : Char} (hstale : s.toToken.dropStale = .ok t)
    (hhead : (t.closeBlocks t.cursor.column).cursor.head? = some ch) :
    s.step = (t.closeBlocks t.cursor.column).tokenAt ch >>= dropStale := by
  rw [step, hstale]
  simp only [bind, Except.bind, hhead]

/-- Behind the last character it ends the text. -/
theorem Scan.step_at_end {s t : Scan} (hstale : s.toToken.dropStale = .ok t)
    (hhead : (t.closeBlocks t.cursor.column).cursor.head? = none) :
    s.step = (t.closeBlocks t.cursor.column).streamEnd >>= dropStale := by
  rw [step, hstale]
  simp only [bind, Except.bind, hhead]

/-- The state after a word, with or without the word as a possible simple key. -/
def Scan.afterWord (cs : List Char) (place : Option KeyPlace) : Scan where
  cursor := (Cursor.start cs).advance cs.length
  tokens := [⟨.scalar true cs, .start⟩]
  indent := -1
  outer := []
  keyAllowed := false
  keyPlace := place
  levels := []

/-- The state after a word and the end of the text. -/
def Scan.atEnd (cs : List Char) (place : Option KeyPlace) : Scan where
  cursor := ((Cursor.start cs).advance cs.length).afterLastLine
  tokens := [⟨.scalar true cs, .start⟩, ⟨.streamEnd, ⟨1, 0⟩⟩]
  indent := -1
  outer := []
  keyAllowed := false
  keyPlace := place
  levels := []

theorem plainScalarToken_word (h : IsWordText cs) :
    (Scan.start cs).plainScalarToken = .ok (.afterWord cs (some ⟨false, 0, 0, .start⟩)) := by
  change (plainScalar false 0 (Cursor.start cs) >>= _) = _
  rw [plainScalar_word h]
  rfl

/-- **The first step takes the word**, which is no required key. -/
theorem step_word (h : IsWordText cs) : ∃ place, (Scan.start cs).step = .ok (.afterWord cs place) ∧
    place.any (·.required) = false := by
  obtain ⟨place, hplace, hrequired⟩ :=
    Scan.dropStale_eq_ok (s := .afterWord cs (some ⟨false, 0, 0, .start⟩)) rfl rfl
  refine ⟨place, ?_, hrequired⟩
  have htoken := toToken_word h
  have hscalar := plainScalarToken_word h
  obtain ⟨c, rest, rfl, -⟩ := h.head
  have hstale : (Scan.start (c :: rest)).toToken.dropStale = .ok (.start (c :: rest)) := by
    rw [htoken]
    rfl
  rw [Scan.step_at_character hstale rfl]
  change ((Scan.start (c :: rest)).tokenAt c >>= Scan.dropStale) = _
  rw [tokenAt_word h, hscalar]
  exact hplace

theorem streamEnd_afterWord (h : IsWordText cs) {place : Option KeyPlace}
    (hplace : place.any (·.required) = false) :
    (Scan.afterWord cs place).streamEnd = .ok (.atEnd cs none) := by
  have hcolumn : ((Cursor.start cs).advance cs.length).column ≠ 0 := by
    obtain ⟨c, rest, rfl, -⟩ := h.head
    simp [Cursor.advance, Cursor.start]
  have hmark : ((Cursor.start cs).advance cs.length).afterLastLine.mark = ⟨1, 0⟩ := by
    rw [Cursor.afterLastLine, if_neg hcolumn]
    rfl
  rw [Scan.atEnd, ← hmark]
  change (Scan.dropKey _ >>= _) = _
  rw [Scan.dropKey_eq_ok hplace]
  rfl

/-- **The second step ends the text.** -/
theorem step_afterWord (h : IsWordText cs) {place : Option KeyPlace}
    (hplace : place.any (·.required) = false) :
    ∃ place', (Scan.afterWord cs place).step = .ok (.atEnd cs place') := by
  have hend := Cursor.head?_advance_length cs
  have htoken : (Scan.afterWord cs place).toToken = .afterWord cs place :=
    Scan.toToken_eq_self fun ch hch => by cases hend.symm.trans hch
  obtain ⟨early, hearly, hrequired⟩ := Scan.dropStale_eq_ok (s := .afterWord cs place) rfl hplace
  obtain ⟨late, hlate, -⟩ := Scan.dropStale_eq_ok (s := .atEnd cs none) rfl rfl
  refine ⟨late, ?_⟩
  have hstale : (Scan.afterWord cs place).toToken.dropStale = .ok (.afterWord cs early) := by
    rw [htoken]
    exact hearly
  rw [Scan.step_at_end hstale hend]
  change ((Scan.afterWord cs early).streamEnd >>= Scan.dropStale) = _
  rw [streamEnd_afterWord h hrequired]
  exact hlate

/-- **The tokens of a word.** -/
theorem ofText_word (h : IsWordText cs) : Tokens.ofText cs =
    ⟨[⟨.scalar true cs, .start⟩, ⟨.streamEnd, ⟨1, 0⟩⟩], .endOfText⟩ := by
  have hallowed : cs.all allowed = true :=
    List.all_eq_true.mpr fun c hc => (isPart_cases (h.part c hc)).1
  obtain ⟨place, hfirst, hplace⟩ := step_word h
  obtain ⟨place', hsecond⟩ := step_afterWord h hplace
  have hopen : (Scan.afterWord cs place).ended = false := rfl
  have hended : (Scan.atEnd cs place').ended = true := rfl
  obtain ⟨c, rest, rfl, -⟩ := h.head
  rw [Tokens.ofText, if_pos hallowed, List.length_cons, Tokens.finishWithin]
  simp only [hfirst, hopen, Tokens.finishWithin, hsecond, hended, Bool.false_eq_true, if_false,
    if_true]
  rfl

/-- A scalar has its meaning, or is refused where it stands. -/
theorem valueOf_scalar (d : Document) (depth : Nat) (path : Path) (jumps : Nat) (p : Properties)
    (plain : Bool) (text : List Char) :
    valueOf d depth path jumps (.scalar p plain text) =
      ((scalarValue p plain text).mapError fun r => .refused r path p.mark).map (·, jumps) := by
  have hfollow : follow d jumps (.scalar p plain text) = .ok (.scalar p plain text, jumps) := rfl
  have hvalue : valueOf d depth path jumps (.scalar p plain text) =
      (scalarValue p plain text).mapError (.refused · path p.mark) >>= fun v => .ok (v, jumps) := by
    cases depth <;>
    · rw [valueOf, hfollow]
      simp only [bind, Except.bind]
      cases scalarValue p plain text <;> rfl
  rw [hvalue]
  cases scalarValue p plain text <;> rfl

/-- **A word has the value of a plain scalar**, and is refused where a plain scalar is. -/
theorem read?_word (h : IsWordText cs) :
    read? cs = (plainValue cs).mapError fun r => .refused r .root .start := by
  have hdocument : firstDocument?
      ⟨[⟨.scalar true cs, .start⟩, ⟨.streamEnd, ⟨1, 0⟩⟩], .endOfText⟩ =
        some ⟨[.scalar ⟨none, none, .start⟩ true cs], .ok [⟨.streamEnd, ⟨1, 0⟩⟩]⟩ := rfl
  have hlinked : Document.ofParsed
      ⟨[.scalar ⟨none, none, .start⟩ true cs], .ok [⟨.streamEnd, ⟨1, 0⟩⟩]⟩ =
        ⟨some (.scalar ⟨none, none, .start⟩ true cs), [], 100, .ok [⟨.streamEnd, ⟨1, 0⟩⟩]⟩ := rfl
  have hscalar : scalarValue ⟨none, none, .start⟩ true cs = plainValue cs := rfl
  rw [read?, ofText_word h, hdocument]
  simp only [hlinked, Document.value, valueOf_scalar, hscalar]
  cases plainValue cs <;> rfl

end Yaml

end SealedLedger
