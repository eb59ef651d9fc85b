import SealedLedger.Digest
import SealedLedger.Proofs.Json.SortedMap
import SealedLedger.Proofs.Json.Strict
import SealedLedger.Proofs.Value.Tidied

/-!
# Plain data and values

A text is read as plain data by the steps by which it is read as a value, so the plain data of a
text is made of the value that it spells with any keys, and both readings fail together. A sorted
map holds in the end what tidying leaves, so the value of the plain data of a text is the tidied
value of the text.

## Main definitions

* `Json.Data.ofValue` — the plain data of a value

## Main results

* `Json.elements_map`, `Json.members_map` — readers whose results are changed
* `Json.data_eq` — plain data is read as a value is, and made of it
* `Value.ofData_ofValue` — the value of the plain data of a value
* `Json.inspect?_eq` — a text that is inspected is read as plain data
* `read?_refines_data?` — a text read as a value and as plain data
-/

namespace SealedLedger

namespace Json

/-! ### Readers of other results -/

section

variable {α β : Type} (f : α → β)

theorem nextElement_map (first : Bool) (item : Reader α) :
    nextElement first (f <$> item) = Option.map f <$> nextElement first item := by
  rw [nextElement_eq, nextElement_eq, map_bind]
  congr 1
  funext more
  cases more with
  | false => simp
  | true => simp

theorem elements_map (item : Reader α) :
    elements (f <$> item) = List.map f <$> elements item := by
  have key : ∀ fuel first,
      elementsWithin (f <$> item) fuel first = List.map f <$> elementsWithin item fuel first := by
    intro fuel
    induction fuel with
    | zero => exact fun _ => rfl
    | succ fuel ih =>
      intro first
      rw [elementsWithin_succ, elementsWithin_succ, nextElement_map, bind_map_left, map_bind]
      congr 1
      funext o
      cases o with
      | none => simp
      | some a => simp [ih]
  funext input
  exact congrFun (key (input.length + 1) true) input

theorem members_map {step : α → String → Reader α} {step' : β → String → Reader β}
    (hstep : ∀ s k, step' (f s) k = f <$> step s k) (start : α) :
    members step' (f start) = f <$> members step start := by
  have key : ∀ fuel first s,
      membersWithin step' fuel first (f s) = f <$> membersWithin step fuel first s := by
    intro fuel
    induction fuel with
    | zero => exact fun _ _ => rfl
    | succ fuel ih =>
      intro first s
      rw [membersWithin_succ, membersWithin_succ, map_bind]
      congr 1
      funext o
      cases o with
      | none => simp
      | some key => simp [hstep, ih]
  funext input
  exact congrFun (key (input.length + 1) true start) input

theorem map_apply (r : Reader α) (input : List UInt8) :
    (f <$> r) input = (r input).map fun p => (f p.1, p.2) := by
  show (r input).bind _ = _
  cases r input <;> rfl

theorem bracketed_map (r : Reader α) : bracketed (f <$> r) = f <$> bracketed r := by
  funext input
  rw [bracketed, map_apply, map_apply, bracketed]
  cases r input with
  | error stop => rfl
  | ok p =>
    dsimp only [Except.map]
    cases closeArray p.2 <;> rfl

theorem braced_map (r : Reader α) : braced (f <$> r) = f <$> braced r := by
  funext input
  rw [braced, map_apply, map_apply, braced]
  cases r input with
  | error stop => rfl
  | ok p =>
    dsimp only [Except.map]
    cases closeObject p.2 <;> rfl

theorem whole_map (r : Reader α) (input : List UInt8) :
    whole (f <$> r) input = (whole r input).map f := by
  rw [whole, map_apply, whole]
  cases r input with
  | error stop => rfl
  | ok p =>
    dsimp only [Except.map]
    cases skipSpace p.2 <;> rfl

end

/-! ### The plain data of a value -/

namespace Data

mutual

/-- The plain data of a value, the members of each object taken up by a sorted map. -/
def ofValue : Value → Data
  | .null => .null
  | .bool b => .bool b
  | .number n => .ofNumber n
  | .string s => .string s
  | .array items => .array (ofItems items)
  | .object members => .object (gathered (ofMembers members))
termination_by structural v => v

/-- The plain data of each item. -/
def ofItems : List Value → List Data
  | [] => []
  | v :: vs => ofValue v :: ofItems vs
termination_by structural vs => vs

/-- The plain data of each member. -/
def ofMembers : List (String × Value) → List (String × Data)
  | [] => []
  | m :: ms => ofMember m :: ofMembers ms
termination_by structural ms => ms

/-- The plain data of the member. -/
def ofMember : String × Value → String × Data
  | (k, v) => (k, ofValue v)
termination_by structural m => m

end

theorem ofValue_array (items : List Value) :
    ofValue (.array items) = .array (items.map ofValue) := by
  have hitems : ∀ vs, ofItems vs = vs.map ofValue := fun vs => by
    induction vs with
    | nil => rw [ofItems, List.map_nil]
    | cons v vs ih => rw [ofItems, ih, List.map_cons]
  rw [ofValue, hitems]

theorem ofValue_object (ms : List (String × Value)) :
    ofValue (.object ms) = .object (gathered (ms.map fun m => (m.1, ofValue m.2))) := by
  have hms : ∀ ms, ofMembers ms = ms.map fun m => (m.1, ofValue m.2) := fun ms => by
    induction ms with
    | nil => rw [ofMembers, List.map_nil]
    | cons m ms ih => rw [ofMembers, ofMember, ih, List.map_cons]
  rw [ofValue, hms]

end Data

/-! ### Reading plain data -/

theorem dataScalar_eq (b : UInt8) (rest : List UInt8) :
    dataScalar b rest = (Data.ofValue <$> scalar b) rest := by
  have hconstant : ∀ letters v,
      dataConstant letters (Data.ofValue v) rest = (Data.ofValue <$> constant letters v) rest := by
    intro letters v
    rw [map_apply, constant, dataConstant, bind_apply]
    cases word letters rest <;> rfl
  rw [dataScalar, map_apply, scalar]
  split
  · rw [← map_apply]
    exact hconstant _ .null
  split
  · rw [← map_apply]
    exact hconstant _ (.bool true)
  split
  · rw [← map_apply]
    exact hconstant _ (.bool false)
  split
  · rw [bind_apply]
    cases string rest <;> rfl
  split
  · rw [bind_apply]
    cases number (b :: rest) <;> rfl
  · rfl

theorem dataMember_eq {item : Reader Value} {item' : Reader Data}
    (h : item' = Data.ofValue <$> item) (done : List (String × Value)) (key : String) :
    dataMember item' (gathered (done.map fun m => (m.1, Data.ofValue m.2))) key
      = (fun ms => gathered (ms.map fun m => (m.1, Data.ofValue m.2))) <$>
        member false item done key := by
  funext input
  rw [dataMember, map_apply, member, Bool.false_and, if_neg Bool.false_ne_true]
  cases colon input with
  | error stop => rfl
  | ok p =>
    dsimp only
    rw [h, map_apply]
    cases item p.2 with
    | error stop => rfl
    | ok q =>
      dsimp only [Except.map]
      rw [List.map_append, List.map_singleton, gathered_concat]

/-- **Plain data is read as a value is**, with any keys, and made of it. -/
theorem data_eq (depth : Depth) : data depth = Data.ofValue <$> value false depth := by
  induction depth with
  | zero =>
    funext input
    rw [data, map_apply, value]
    cases skipSpace input with
    | nil => rfl
    | cons b rest =>
      dsimp only
      split
      · rfl
      · rw [dataScalar_eq, map_apply]
  | succ depth ih =>
    funext input
    rw [data, map_apply, value_succ]
    cases skipSpace input with
    | nil => rfl
    | cons b rest =>
      dsimp only
      split
      · rw [← map_apply, ih, elements_map, bracketed_map]
        simp [Data.ofValue_array]
      split
      · have hmembers : members (dataMember (data depth)) []
            = (fun ms => gathered (ms.map fun m => (m.1, Data.ofValue m.2))) <$>
              members (member false (value false depth)) [] :=
          members_map _ (dataMember_eq ih) []
        rw [← map_apply, hmembers, braced_map]
        simp [Data.ofValue_object]
      · rw [dataScalar_eq, map_apply]

theorem data?_eq (input : List UInt8) : data? input = (tree? input).map Data.ofValue := by
  rw [data?, data_eq, whole_map, tree?]

end Json

/-! ### The value of plain data -/

namespace Json

/-- A signed word comes back as the signed word, whichever form the data keeps it in. -/
theorem Amount.toNumber_ofInt64 (i : Int64) : (Amount.ofInt64 i).toNumber = .int i := by
  rw [ofInt64]
  split
  · rfl
  · next hnatural =>
    have hlt : i.toInt.toNat < 0x8000000000000000 := by
      have := Int64.toInt_lt i
      omega
    have hword : (UInt64.ofNat i.toInt.toNat).toNat = i.toInt.toNat :=
      UInt64.toNat_ofNat_of_lt (hlt.trans (by decide))
    have hback : Int64.ofNat i.toInt.toNat = i := by
      rw [← Int64.ofInt_eq_ofNat, Int.toNat_of_nonneg (not_lt.mp hnatural), Int64.ofInt_toInt]
    rw [toNumber, signed?, hword, if_pos hlt, hback]

/-- **A number that was read comes back from its plain data.** -/
theorem Data.ofData_ofNumber {n : Number} (h : n.IsRead) :
    Value.ofData (.ofNumber n) = .number n := by
  cases n with
  | int i => exact congrArg Value.number (Amount.toNumber_ofInt64 i)
  | uint u =>
    have hsigned : (Amount.natural u).signed? = none := if_neg (Nat.not_lt.mpr h)
    rw [ofNumber, Value.ofData, Amount.toNumber, hsigned]
    rfl
  | float x =>
    have hamount : Amount.ofBinary64? x = some (.float x h) := dif_pos h
    rw [ofNumber, hamount]
    rfl

end Json

namespace Value

theorem ofData_array (ds : List Json.Data) : ofData (.array ds) = .array (ds.map ofData) := by
  have hitems : ∀ ds, ofItems ds = ds.map ofData := fun ds => by
    induction ds with
    | nil => rw [ofItems, List.map_nil]
    | cons d ds ih => rw [ofItems, ih, List.map_cons]
  rw [ofData, hitems]

theorem ofData_object (ms : List (String × Json.Data)) :
    ofData (.object ms) = .object (ms.map fun m => (m.1, ofData m.2)) := by
  have hms : ∀ ms, ofMembers ms = ms.map fun m => (m.1, ofData m.2) := fun ms => by
    induction ms with
    | nil => rw [ofMembers, List.map_nil]
    | cons m ms ih => rw [ofMembers, ofMember, ih, List.map_cons]
  rw [ofData, hms]

/-- **The value of the plain data of a value is the value tidied**, if its numbers are of their
kinds. -/
theorem ofData_ofValue {v : Value} (h : ∀ n, Occurs (.number n) v → n.IsRead) :
    ofData (.ofValue v) = v.tidy := by
  induction v using Value.induction with
  | null => rfl
  | bool b => rfl
  | string s => rfl
  | number n => exact Json.Data.ofData_ofNumber (h n .here)
  | array items ih =>
    rw [Json.Data.ofValue_array, ofData_array, tidy_array, List.map_map]
    exact congrArg Value.array (List.map_congr_left fun v hv =>
      ih v hv fun n hn => h n (.item hv hn))
  | object ms ih =>
    have hmember : (fun m : String × Json.Data => (m.1, ofData m.2)) ∘
        (fun m : String × Value => (m.1, Json.Data.ofValue m.2))
          = fun m => (m.1, ofData (.ofValue m.2)) := rfl
    have htidy : ms.map (fun m => (m.1, ofData (.ofValue m.2))) = tidyMembers ms := by
      rw [tidyMembers_eq]
      exact List.map_congr_left fun m hm => by rw [ih m hm fun n hn => h n (.member hm hn)]
    rw [Json.Data.ofValue_object, ofData_object, ← Json.gathered_map, List.map_map, hmember, htidy,
      tidy, Json.gathered_eq_mergeSort]

end Value

/-! ### The two views of a text -/

namespace Json

theorem isRead_of_tree? {input : List UInt8} {v : Value} (h : tree? input = .ok v) {n : Number}
    (hn : Value.Occurs (.number n) v) : n.IsRead := by
  obtain ⟨rest, hread⟩ := exists_of_whole h
  exact isRead_of_value hread hn

/-- **A text that is inspected is read as plain data**, and seen as the value of it. -/
theorem inspect?_eq (input : List UInt8) : inspect? input = (data? input).map Value.ofData := by
  rw [data?_eq, show inspect? input = (tree? input).map Value.tidy from rfl]
  cases htree : tree? input with
  | error e => rfl
  | ok v => exact congrArg Except.ok (Value.ofData_ofValue fun n => isRead_of_tree? htree).symm

end Json

/-- **A text is the same as a value and as plain data.** What is read as a value is read as plain
data too, whose value is the tidied one, so both have the same canonical bytes and the same digest.
And a text that is read as plain data but not as a value repeats a key in some object. -/
theorem read?_refines_data? (input : List UInt8) :
    (∀ v, Json.read? input = .ok v → ∃ d, Json.data? input = .ok d ∧ Value.ofData d = v.tidy ∧
      (∃ c, canonicalize v = .ok c ∧ canonicalize (Value.ofData d) = .ok c) ∧
      Digest.ofValue? (Value.ofData d) = Digest.ofValue? v) ∧
    ∀ d e, Json.data? input = .ok d → Json.read? input = .error e →
      ∃ u k ms, Json.tree? input = .ok u ∧ Value.Occurs (.object ms) u ∧
        2 ≤ (ms.map Prod.fst).count k ∧ e.fault = .repeatedKey k := by
  constructor
  · intro v hv
    have htree := Json.tree?_of_read? hv
    have hdata : Value.ofData (.ofValue v) = v.tidy :=
      Value.ofData_ofValue fun n => Json.isRead_of_tree? htree
    obtain ⟨c, hc⟩ := Json.exists_canonicalize_of_read? hv
    have hc' : canonicalize (Value.ofData (.ofValue v)) = .ok c :=
      hdata ▸ Canonical.canonicalize_tidy hc
    refine ⟨.ofValue v, by rw [Json.data?_eq, htree]; rfl, hdata, ⟨c, hc, hc'⟩, ?_⟩
    rw [Digest.ofValue?, Digest.ofValue?, hc, hc']
  · intro d e hd he
    rw [Json.data?_eq] at hd
    obtain ⟨u, hu, -⟩ := map_eq_ok_iff.mp hd
    rcases Json.read?_cases input with heq | ⟨e', he', hseen⟩
    · cases (he.symm.trans heq).trans hu
    · obtain rfl := Except.error.inj (he.symm.trans he')
      obtain ⟨k, ms, hfault, hms, hcount⟩ := hseen u hu
      exact ⟨u, k, ms, hu, hms, hcount, hfault⟩

/-- Minus zero and a natural number under keys out of order, and two members whose keys are the same
once the second one is unescaped. -/
theorem read?_refines_data?_escaped :
    (∃ v d, Json.read? (utf8 "\x7b\"b\":1,\"a\":-0.0\x7d") = .ok v ∧
      Json.data? (utf8 "\x7b\"b\":1,\"a\":-0.0\x7d") = .ok d ∧ Value.ofData d = v.tidy ∧
      Value.ofData d
        = .object [("a", .number (.float (.zero true))), ("b", .number (.int 1))]) ∧
    ∃ d e u k ms, Json.data? (utf8 "\x7b\"a\":1,\"\\u0061\":2\x7d") = .ok d ∧
      Json.read? (utf8 "\x7b\"a\":1,\"\\u0061\":2\x7d") = .error e ∧ e.fault = .repeatedKey k ∧
      Json.tree? (utf8 "\x7b\"a\":1,\"\\u0061\":2\x7d") = .ok u ∧ Value.Occurs (.object ms) u ∧
      2 ≤ (ms.map Prod.fst).count k := by
  obtain ⟨hagree, -⟩ := read?_refines_data? (utf8 "\x7b\"b\":1,\"a\":-0.0\x7d")
  obtain ⟨-, hrepeats⟩ := read?_refines_data? (utf8 "\x7b\"a\":1,\"\\u0061\":2\x7d")
  have hread : Json.read? (utf8 "\x7b\"b\":1,\"a\":-0.0\x7d")
      = .ok (.object [("b", .number (.int 1)), ("a", .number (.float (.zero true)))]) := rfl
  have hdata : Json.data? (utf8 "\x7b\"b\":1,\"a\":-0.0\x7d")
      = .ok (.object [("a", .number (.float (.zero true) rfl)), ("b", .number (.natural 1))]) := rfl
  have hlax : Json.data? (utf8 "\x7b\"a\":1,\"\\u0061\":2\x7d")
      = .ok (.object [("a", .number (.natural 2))]) := rfl
  have hstrict : Json.read? (utf8 "\x7b\"a\":1,\"\\u0061\":2\x7d")
      = .error ⟨.repeatedKey "a", some ⟨1, 15⟩⟩ := rfl
  constructor
  · obtain ⟨d, hd, htidy, -⟩ := hagree _ hread
    obtain rfl := Except.ok.inj (hdata.symm.trans hd)
    exact ⟨_, _, hread, hd, htidy, rfl⟩
  · obtain ⟨u, k, ms, hu, hms, hcount, hfault⟩ := hrepeats _ _ hlax hstrict
    exact ⟨_, _, u, k, ms, hlax, hstrict, hfault, hu, hms, hcount⟩

end SealedLedger
