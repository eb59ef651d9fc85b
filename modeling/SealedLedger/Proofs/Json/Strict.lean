import SealedLedger.Proofs.Json.Accepted

/-!
# What distinct keys cost

A text is read with distinct keys or with any keys. Both readings take the same steps until a key
comes again. The stricter one stops there, and what it stops for can be seen in the value that the
other one returns, if it returns one: some object in it has that key twice.

Each combinator of the reader is a sequence of steps, so this is shown for two steps in sequence and
then for each combinator, with any property of the results that may be seen in them.

## Main definitions

* `Json.Stricter` — a reader that gives what another one gives, or stops for a visible reason
* `Json.tree?` — the value that a text spells, with all members
* `Json.RepeatsKey` — a repeated key, seen in a value

## Main results

* `Json.elementsWithin_succ`, `Json.membersWithin_succ` — containers as sequences of steps
* `Json.stricter_value` — the two readers of values
* `Json.read?_cases` — the two readings of a whole text
-/

namespace SealedLedger

namespace Json

/-! ### Containers as sequences of steps -/

section

variable {α β σ : Type}

theorem bind_apply (r : Reader α) (f : α → Reader β) (input : List UInt8) :
    (r >>= f) input =
      match r input with
      | .error stop => .error stop
      | .ok (a, rest) => f a rest := by
  show (r input).bind _ = _
  cases r input <;> rfl

theorem nextElement_eq (first : Bool) (item : Reader α) :
    nextElement first item = (do
      if ← moreElements first then return some (← item) else return none) := by
  funext input
  rw [nextElement, bind_apply]
  cases moreElements first input with
  | error stop => rfl
  | ok p =>
    obtain ⟨_ | _, rest⟩ := p
    · rfl
    · dsimp only
      rw [if_pos rfl, bind_apply]
      cases item rest <;> rfl

theorem elementsWithin_succ (item : Reader α) (fuel : Nat) (first : Bool) :
    elementsWithin item (fuel + 1) first = (do
      let some a ← nextElement first item | return []
      return a :: (← elementsWithin item fuel false)) := by
  funext input
  rw [elementsWithin, bind_apply]
  cases nextElement first item input with
  | error stop => rfl
  | ok p =>
    obtain ⟨_ | a, rest⟩ := p
    · rfl
    · dsimp only
      rw [bind_apply]
      cases elementsWithin item fuel false rest <;> rfl

theorem membersWithin_succ (step : σ → String → Reader σ) (fuel : Nat) (first : Bool) (s : σ) :
    membersWithin step (fuel + 1) first s = (do
      let some key ← nextKey first | return s
      membersWithin step fuel false (← step s key)) := by
  funext input
  rw [membersWithin, bind_apply]
  cases nextKey first input with
  | error stop => rfl
  | ok p =>
    obtain ⟨_ | key, rest⟩ := p
    · rfl
    · dsimp only
      cases hs : step s key rest <;> simp only [bind_apply, hs]

end

/-! ### Readers that stop earlier -/

theorem Stop.fault_place (leave : List UInt8 → List UInt8) (s : Stop) :
    (s.place leave).fault = s.fault := by
  rw [place]
  split <;> rfl

/-- The first reader gives what the second one gives, or it stops. Then its fault is seen in
whatever the second one returns. -/
def Stricter {α : Type} (P : Fault → α → Prop) (r r' : Reader α) : Prop :=
  ∀ input, r input = r' input ∨
    ∃ stop, r input = .error stop ∧ ∀ a rest, r' input = .ok (a, rest) → P stop.fault a

section

variable {α β : Type} {P : Fault → α → Prop} {Q : Fault → β → Prop} {r r' : Reader α}

theorem Stricter.refl (r : Reader α) : Stricter P r r := fun _ => .inl rfl

theorem Stricter.imp {P' : Fault → α → Prop} (h : Stricter P r r')
    (hP : ∀ fault a, P fault a → P' fault a) : Stricter P' r r' := by
  intro input
  rcases h input with heq | ⟨stop, hstop, hseen⟩
  · exact .inl heq
  · exact .inr ⟨stop, hstop, fun a rest ha => hP _ _ (hseen a rest ha)⟩

/-- **Two steps in sequence.** What is seen after the first one must be seen after the second. -/
theorem Stricter.bind {f f' : α → Reader β} (h : Stricter P r r')
    (hf : ∀ a, Stricter Q (f a) (f' a))
    (hPQ : ∀ fault a input b rest, P fault a → f' a input = .ok (b, rest) → Q fault b) :
    Stricter Q (r >>= f) (r' >>= f') := by
  intro input
  rcases h input with heq | ⟨stop, hstop, hP⟩
  · rw [bind_apply, bind_apply, heq]
    cases r' input with
    | error stop => exact .inl rfl
    | ok p => exact hf p.1 p.2
  · refine .inr ⟨stop, by rw [bind_apply, hstop], fun b rest hb => ?_⟩
    obtain ⟨a, left, ha, hb⟩ := exists_of_bind hb
    exact hPQ _ _ _ _ _ (hP a left ha) hb

theorem Stricter.map {f : α → β} (h : Stricter P r r')
    (hPQ : ∀ fault a, P fault a → Q fault (f a)) :
    Stricter Q (do return f (← r)) (do return f (← r')) :=
  h.bind (fun _ => .refl _) fun fault a _ _ _ hP hb => (eq_of_pure hb).1 ▸ hPQ fault a hP

theorem Stricter.nextElement (h : Stricter P r r') (first : Bool) :
    Stricter (fun fault o => ∃ a, o = some a ∧ P fault a) (Json.nextElement first r)
      (Json.nextElement first r') := by
  rw [nextElement_eq, nextElement_eq]
  refine Stricter.bind (P := fun _ _ => False) (.refl _) (fun more => ?_)
    (fun _ _ _ _ _ h => h.elim)
  cases more with
  | false => exact .refl _
  | true => exact h.map fun fault a hP => ⟨a, rfl, hP⟩

theorem Stricter.elements (h : Stricter P r r') :
    Stricter (fun fault as => ∃ a ∈ as, P fault a) (Json.elements r) (Json.elements r') := by
  -- the allowance comes from the input, so both readers have the same
  have key : ∀ fuel first, Stricter (fun fault as => ∃ a ∈ as, P fault a)
      (elementsWithin r fuel first) (elementsWithin r' fuel first) := by
    intro fuel
    induction fuel with
    | zero => exact fun _ => .refl _
    | succ fuel ih =>
      intro first
      rw [elementsWithin_succ, elementsWithin_succ]
      refine (h.nextElement first).bind (fun o => ?_) (fun fault o input as rest hP has => ?_)
      · cases o with
        | none => exact .refl _
        | some a =>
          refine (ih false).map ?_
          rintro fault more ⟨b, hb, hP⟩
          exact ⟨b, .tail _ hb, hP⟩
      · obtain ⟨a, rfl, hP⟩ := hP
        obtain ⟨more, _, -, has⟩ := exists_of_bind has
        exact ⟨a, (eq_of_pure has).1 ▸ .head _, hP⟩
  exact fun input => key _ _ input

theorem Stricter.members {σ : Type} {P : Fault → σ → Prop} {step step' : σ → String → Reader σ}
    (hstep : ∀ s k, Stricter P (step s k) (step' s k))
    (hkeep : ∀ fault s k input s' rest, P fault s → step' s k input = .ok (s', rest) → P fault s')
    (start : σ) : Stricter P (Json.members step start) (Json.members step' start) := by
  have key : ∀ fuel first s,
      Stricter P (membersWithin step fuel first s) (membersWithin step' fuel first s) := by
    intro fuel
    induction fuel with
    | zero => exact fun _ _ => .refl _
    | succ fuel ih =>
      intro first s
      rw [membersWithin_succ, membersWithin_succ]
      refine Stricter.bind (P := fun _ _ => False) (.refl _) (fun key => ?_)
        (fun _ _ _ _ _ h => h.elim)
      cases key with
      | none => exact .refl _
      | some key =>
        exact (hstep s key).bind (fun s' => ih false s') fun fault s' input s'' rest hP hs'' =>
          membersWithin_invariant (fun _ _ _ _ _ => hkeep _ _ _ _ _ _) hs'' hP
  exact fun input => key _ _ _ input

theorem Stricter.bracketed (h : Stricter P r r') :
    Stricter P (Json.bracketed r) (Json.bracketed r') := by
  intro input
  rcases h input with heq | ⟨stop, hstop, hP⟩
  · exact .inl (by rw [Json.bracketed, Json.bracketed, heq])
  · refine .inr ⟨stop.place leaveArray, by rw [Json.bracketed, hstop], fun a rest ha => ?_⟩
    obtain ⟨left, ha, -⟩ := bracketed_eq_ok_iff.mp ha
    rw [Stop.fault_place]
    exact hP a left ha

theorem Stricter.braced (h : Stricter P r r') : Stricter P (Json.braced r) (Json.braced r') := by
  intro input
  rcases h input with heq | ⟨stop, hstop, hP⟩
  · exact .inl (by rw [Json.braced, Json.braced, heq])
  · refine .inr ⟨stop.place leaveObject, by rw [Json.braced, hstop], fun a rest ha => ?_⟩
    obtain ⟨left, ha, -⟩ := braced_eq_ok_iff.mp ha
    rw [Stop.fault_place]
    exact hP a left ha

/-- A whole text is read the same, or the stricter reading fails. -/
theorem Stricter.whole (h : Stricter P r r') (input : List UInt8) :
    Json.whole r input = Json.whole r' input ∨
      ∃ e, Json.whole r input = .error e ∧ ∀ a, Json.whole r' input = .ok a → P e.fault a := by
  rcases h input with heq | ⟨stop, hstop, hP⟩
  · exact .inl (by rw [Json.whole, Json.whole, heq])
  · refine .inr ⟨stop.error input, by rw [Json.whole, hstop], fun a ha => ?_⟩
    obtain ⟨rest, ha⟩ := exists_of_whole ha
    exact hP a rest ha

end

/-! ### Repeated keys -/

/-- The fault is a repeated key, and some object in the value has this key more than once. -/
def RepeatsKey (fault : Fault) (v : Value) : Prop :=
  ∃ k ms, fault = .repeatedKey k ∧ Value.Occurs (.object ms) v ∧ 2 ≤ (ms.map Prod.fst).count k

theorem RepeatsKey.array {fault : Fault} {items : List Value} {v : Value}
    (h : RepeatsKey fault v) (hv : v ∈ items) : RepeatsKey fault (.array items) := by
  obtain ⟨k, ms, hfault, hms, hcount⟩ := h
  exact ⟨k, ms, hfault, .item hv hms, hcount⟩

theorem RepeatsKey.object {fault : Fault} {ms : List (String × Value)} {m : String × Value}
    (h : RepeatsKey fault m.2) (hm : m ∈ ms) : RepeatsKey fault (.object ms) := by
  obtain ⟨k, ns, hfault, hns, hcount⟩ := h
  exact ⟨k, ns, hfault, .member hm hns, hcount⟩

/-- A repeated key is still seen when members are added. -/
theorem RepeatsKey.append {fault : Fault} {ms : List (String × Value)}
    (h : RepeatsKey fault (.object ms)) (added : List (String × Value)) :
    RepeatsKey fault (.object (ms ++ added)) := by
  obtain ⟨k, ns, hfault, hns, hcount⟩ := h
  rcases hns with _ | _ | ⟨hm, hns⟩
  · refine ⟨k, ms ++ added, hfault, .here, ?_⟩
    rw [List.map_append, List.count_append]
    exact Nat.le_add_right_of_le hcount
  · exact ⟨k, ns, hfault, .member (List.mem_append_left _ hm) hns, hcount⟩

/-- A member whose key may stand is read from its colon on. -/
theorem member_steps {distinct : Bool} {done : List (String × Value)} {key : String}
    (h : (distinct && done.any (·.1 == key)) = false) (item : Reader Value) :
    member distinct item done key = (do
      colon
      return done ++ [(key, ← item)]) := by
  funext input
  rw [member, h, bind_apply]
  cases colon input with
  | error stop => rfl
  | ok p =>
    dsimp only
    rw [bind_apply]
    cases item p.2 <;> rfl

/-- A member is gathered by both readers, or the stricter one has met its key before. -/
theorem stricter_member {item item' : Reader Value} (h : Stricter RepeatsKey item item')
    (done : List (String × Value)) (key : String) :
    Stricter (fun fault ms => RepeatsKey fault (.object ms)) (member true item done key)
      (member false item' done key) := by
  have hlax := member_steps (Bool.false_and (done.any (·.1 == key))) item'
  rw [hlax]
  cases hany : done.any (·.1 == key) with
  | false =>
    rw [member_steps (by rw [hany]; rfl)]
    refine Stricter.bind (P := fun _ _ => False) (.refl _) (fun _ => ?_) (fun _ _ _ _ _ h => h.elim)
    exact h.map fun fault v hv => hv.object (List.mem_append_right _ (.head _))
  | true =>
    refine fun input => .inr ⟨.pending (.repeatedKey key) input, ?_, fun ms rest hms => ?_⟩
    · rw [member, hany]
      rfl
    · obtain ⟨_, _, -, hms⟩ := exists_of_bind hms
      obtain ⟨v, _, -, hms⟩ := exists_of_bind hms
      obtain ⟨rfl, -⟩ := eq_of_pure hms
      have hmem : key ∈ done.map Prod.fst := by
        by_contra hnew
        rw [Value.any_key_eq_false_iff.mpr hnew] at hany
        cases hany
      refine ⟨key, _, rfl, .here, ?_⟩
      rw [List.map_append, List.count_append, List.map_singleton, List.count_singleton_self]
      exact Nat.succ_le_succ (List.count_pos_iff.mpr hmem)

/-- A value from its first byte on, as steps. -/
theorem value_succ (distinct : Bool) (depth : Depth) (input : List UInt8) :
    value distinct (depth + 1) input =
      match skipSpace input with
      | [] => .error (.next .endInValue [])
      | b :: rest =>
        if b = ascii '[' then
          (do return Value.array (← bracketed (elements (value distinct depth)))) rest
        else if b = ascii '\x7b' then
          (do return Value.object (← braced (members (member distinct (value distinct depth)) [])))
            rest
        else scalar b rest := by
  rw [value]
  cases skipSpace input with
  | nil => rfl
  | cons b rest =>
    dsimp only
    rw [bind_apply, bind_apply]
    split
    · cases bracketed (elements (value distinct depth)) rest <;> rfl
    split
    · cases braced (members (member distinct (value distinct depth)) []) rest <;> rfl
    · rfl

/-- **Reading with distinct keys gives what reading with any keys gives, or it stops at a key that
some object repeats.** -/
theorem stricter_value (depth : Depth) :
    Stricter RepeatsKey (value true depth) (value false depth) := by
  induction depth with
  | zero =>
    intro input
    exact .inl (by rw [value, value])
  | succ depth ih =>
    have hitems : Stricter (fun fault items => RepeatsKey fault (.array items))
        (bracketed (elements (value true depth))) (bracketed (elements (value false depth))) := by
      refine (ih.elements.imp ?_).bracketed
      rintro fault items ⟨v, hv, hrepeats⟩
      exact hrepeats.array hv
    have hmembers : Stricter (fun fault ms => RepeatsKey fault (.object ms))
        (braced (members (member true (value true depth)) []))
        (braced (members (member false (value false depth)) [])) := by
      refine (Stricter.members (stricter_member ih) (fun fault done key input ms rest hdone h => ?_)
        []).braced
      rw [member_steps (Bool.false_and _)] at h
      obtain ⟨_, _, -, h⟩ := exists_of_bind h
      obtain ⟨v, _, -, h⟩ := exists_of_bind h
      rw [← (eq_of_pure h).1]
      exact hdone.append _
    intro input
    rw [value_succ, value_succ]
    split
    · exact .inl rfl
    split
    · exact hitems.map (fun _ _ h => h) _
    split
    · exact hmembers.map (fun _ _ h => h) _
    · exact .inl rfl

/-! ### Whole texts -/

/-- The value that a text spells, with all members of each object. -/
def tree? (input : List UInt8) : Except Error Value :=
  whole (value false maxDepth) input

/-- **The two readings of a text.** With distinct keys it is read as it is with any keys, or it is
refused; and then, if it is read with any keys, it is refused for a key that some object repeats. -/
theorem read?_cases (input : List UInt8) : read? input = tree? input ∨
    ∃ e, read? input = .error e ∧ ∀ v, tree? input = .ok v → RepeatsKey e.fault v :=
  (stricter_value maxDepth).whole input

theorem tree?_of_read? {input : List UInt8} {v : Value} (h : read? input = .ok v) :
    tree? input = .ok v := by
  rcases read?_cases input with heq | ⟨e, he, -⟩
  · rw [← heq, h]
  · cases h.symm.trans he

end Json

end SealedLedger
