import SealedLedger.Ledger.Store
import SealedLedger.Proofs.Digest
import SealedLedger.Proofs.Json.Data

/-!
# Foreign digests are reported first

A text that is an array of anything is looked through for digests of another hash function before it
is read as entries. The first one decides: no other defect of the text comes before it, in whatever
element it stands.

Only the last member of each name counts, and only if it is a text. The tag is what stands before
its first colon.

## Main definitions

* `Value.LastMember` — the last member of a key
* `Value.HasForeignTag` — a text with a tag that is not that of the hash function
* `Value.FirstForeign` — the foreign tag of one element
* `IsFirstForeign` — the first foreign tag in an array

## Main results

* `Value.get?_tidy_eq_some_iff` — what a tidied value holds under a key
* `checkTagsFrom_eq_error_iff` — the elements in turn
* `Ledger.foreign_digest_reported_first` — what a text that is data is refused for
-/

namespace SealedLedger

/-! ### The last member of a key -/

namespace Value

variable {v w : Value} {k : String}

/-- The value of the last member of a key, in an object that may repeat it. -/
def LastMember (v : Value) (k : String) (w : Value) : Prop :=
  ∃ before after, v = .object (before ++ (k, w) :: after) ∧ k ∉ after.map Prod.fst

theorem get?_object_eq_some_iff {ms : List (String × Value)} (h : (ms.map Prod.fst).Nodup) :
    get? k (.object ms) = some w ↔ (k, w) ∈ ms := by
  constructor
  · intro hget
    obtain ⟨m, hm, rfl⟩ := Option.map_eq_some_iff.mp hget
    have hkey : m.1 = k := by simpa using List.find?_some hm
    exact hkey ▸ List.mem_of_find?_eq_some hm
  · exact get?_of_mem h

/-- **Under a key a tidied value holds what its last member was**, tidied. -/
theorem get?_tidy_eq_some_iff :
    get? k v.tidy = some w ↔ ∃ u, v.LastMember k u ∧ w = u.tidy := by
  cases v with
  | object ms =>
    have hnodup := nodup_map_fst_mergeSort.mpr (nodup_lastOfEach (tidyMembers ms))
    rw [tidy, get?_object_eq_some_iff hnodup, List.mem_mergeSort, mem_lastOfEach_iff,
      tidyMembers_eq]
    constructor
    · rintro ⟨before, after, hms, hlater⟩
      obtain ⟨before, rest, rfl, rfl, hrest⟩ := List.map_eq_append_iff.mp hms
      obtain ⟨⟨k', u⟩, after, rfl, hu, rfl⟩ := List.map_eq_cons_iff.mp hrest
      obtain ⟨rfl, rfl⟩ := Prod.mk.inj hu
      rw [List.map_map] at hlater
      exact ⟨u, ⟨before, after, rfl, hlater⟩, rfl⟩
    · rintro ⟨u, ⟨before, after, hms, hlater⟩, rfl⟩
      obtain rfl := object.inj hms
      refine ⟨_, _, List.map_append.trans (by rw [List.map_cons]), ?_⟩
      rwa [List.map_map]
  | array items =>
    rw [tidy_array]
    constructor
    · intro h
      cases h
    · rintro ⟨u, ⟨before, after, h, -⟩, -⟩
      cases h
  | _ =>
    constructor
    · intro h
      cases h
    · rintro ⟨u, ⟨before, after, h, -⟩, -⟩
      cases h

theorem tidy_eq_string_iff {s : String} : v.tidy = .string s ↔ v = .string s := by
  cases v <;> simp [tidy]

/-! ### Foreign tags -/

/-- The last member of the key is a text with a tag that is not that of the hash function. -/
def HasForeignTag (v : Value) (k tag : String) : Prop :=
  ∃ s body, v.LastMember k (.string s) ∧ s.toList = tag.toList ++ ':' :: body ∧
    ':' ∉ tag.toList ∧ tag ≠ "sha256"

/-- The value is an object in which a digest has a foreign tag. -/
def HoldsForeign (v : Value) : Prop :=
  ∃ k ∈ ["prev_hash", "record_hash"], ∃ tag, v.HasForeignTag k tag

/-- The foreign tag by which an object is refused: that of the digest of its predecessor, or else
that of its own. -/
inductive FirstForeign (v : Value) : String → String → Prop
  | prevHash {tag : String} (foreign : v.HasForeignTag "prev_hash" tag) :
    FirstForeign v "prev_hash" tag
  | recordHash {tag : String} (domestic : ∀ t, ¬v.HasForeignTag "prev_hash" t)
    (foreign : v.HasForeignTag "record_hash" tag) : FirstForeign v "record_hash" tag

theorem holdsForeign_iff : v.HoldsForeign ↔ ∃ k tag, v.FirstForeign k tag := by
  constructor
  · rintro ⟨k, hk, tag, htag⟩
    by_cases hprev : ∃ t, v.HasForeignTag "prev_hash" t
    · obtain ⟨t, ht⟩ := hprev
      exact ⟨_, t, .prevHash ht⟩
    · have hdomestic := not_exists.mp hprev
      rcases List.mem_pair.mp hk with rfl | rfl
      · exact absurd htag (hdomestic tag)
      · exact ⟨_, tag, .recordHash hdomestic htag⟩
  · rintro ⟨_, tag, htag | ⟨-, htag⟩⟩
    · exact ⟨_, by decide, tag, htag⟩
    · exact ⟨_, by decide, tag, htag⟩

end Value

/-! ### One element -/

variable {v : Value} {name tag : String}

/-- **The tag that is looked for in a field** is that of its last member. -/
theorem foreignTag?_tidy_eq_some_iff {f : Entry.Field} :
    foreignTag? v.tidy f = some (name, tag) ↔ name = f.name ∧ v.HasForeignTag f.name tag := by
  constructor
  · intro h
    rw [foreignTag?] at h
    split at h
    · next s hget =>
      split at h
      · next t body hsplit =>
        split at h
        · cases h
        · next htag =>
          obtain ⟨rfl, rfl⟩ := Prod.mk.inj (Option.some.inj h)
          obtain ⟨u, hlast, hu⟩ := Value.get?_tidy_eq_some_iff.mp hget
          obtain rfl := Value.tidy_eq_string_iff.mp hu.symm
          obtain ⟨hs, hcolon⟩ := Digest.splitTag?_eq_some_iff.mp hsplit
          refine ⟨rfl, s, body, hlast, ?_, ?_, htag⟩
          · rwa [String.toList_ofList]
          · rwa [String.toList_ofList]
      · cases h
    · cases h
  · rintro ⟨rfl, s, body, hlast, hs, hcolon, htag⟩
    rw [foreignTag?, Value.get?_tidy_eq_some_iff.mpr ⟨_, hlast, rfl⟩]
    simp only [Value.tidy, hs, Digest.splitTag?_append hcolon, String.ofList_toList, Digest.tag,
      if_neg htag]

/-- **The tag by which an element is refused.** -/
theorem findSome?_foreignTag?_eq_some_iff :
    digestFields.findSome? (foreignTag? v.tidy) = some (name, tag) ↔ v.FirstForeign name tag := by
  have hprev : foreignTag? v.tidy .prevHash = none ↔ ∀ t, ¬v.HasForeignTag "prev_hash" t := by
    rw [Option.eq_none_iff_forall_ne_some, Prod.forall]
    simp only [ne_eq, foreignTag?_tidy_eq_some_iff]
    exact ⟨fun h t ht => h _ t ⟨rfl, ht⟩, fun h _ t ht => h t ht.2⟩
  rw [digestFields, List.findSome?_cons]
  split
  · next p hp =>
    obtain ⟨k, t⟩ := p
    obtain ⟨rfl, ht⟩ := foreignTag?_tidy_eq_some_iff.mp hp
    constructor
    · intro h
      obtain ⟨rfl, rfl⟩ := Prod.mk.inj (Option.some.inj h)
      exact .prevHash ht
    · rintro (htag | ⟨hdomestic, -⟩)
      · rw [← hp, foreignTag?_tidy_eq_some_iff]
        exact ⟨rfl, htag⟩
      · exact absurd ht (hdomestic t)
  · next hnone =>
    rw [List.findSome?_singleton, foreignTag?_tidy_eq_some_iff]
    constructor
    · rintro ⟨rfl, htag⟩
      exact .recordHash (hprev.mp hnone) htag
    · rintro (htag | ⟨-, htag⟩)
      · exact absurd htag (hprev.mp hnone tag)
      · exact ⟨rfl, htag⟩

theorem holdsForeign_iff_isSome :
    v.HoldsForeign ↔ (digestFields.findSome? (foreignTag? v.tidy)).isSome = true := by
  simp only [Option.isSome_iff_exists, Prod.exists, findSome?_foreignTag?_eq_some_iff]
  exact Value.holdsForeign_iff

instance : Decidable v.HoldsForeign :=
  decidable_of_iff _ holdsForeign_iff_isSome.symm

/-! ### All elements -/

/-- The first foreign tag in an array, by the index of its element, the name of its member and the
tag itself. -/
def IsFirstForeign (items : List Value) (index : Nat) (name tag : String) : Prop :=
  ∃ before v after, items = before ++ v :: after ∧ before.length = index ∧
    (∀ u ∈ before, ¬u.HoldsForeign) ∧ v.FirstForeign name tag

variable {items : List Value} {index : Nat}

theorem not_isFirstForeign_nil : ¬IsFirstForeign [] index name tag := by
  rintro ⟨before, v, after, h, -⟩
  simp at h

theorem isFirstForeign_cons_iff : IsFirstForeign (v :: items) index name tag ↔
    index = 0 ∧ v.FirstForeign name tag ∨
      ¬v.HoldsForeign ∧ ∃ n, index = n + 1 ∧ IsFirstForeign items n name tag := by
  constructor
  · rintro ⟨before, w, after, heq, rfl, hbefore, hw⟩
    cases before with
    | nil =>
      obtain ⟨rfl, -⟩ := List.cons.inj heq
      exact .inl ⟨rfl, hw⟩
    | cons u before =>
      obtain ⟨rfl, rfl⟩ := List.cons.inj heq
      obtain ⟨hv, hbefore⟩ := List.forall_mem_cons.mp hbefore
      exact .inr ⟨hv, before.length, rfl, before, w, after, rfl, rfl, hbefore, hw⟩
  · rintro (⟨rfl, hv⟩ | ⟨hv, n, rfl, before, w, after, rfl, rfl, hbefore, hw⟩)
    · exact ⟨[], v, items, rfl, rfl, List.forall_mem_nil _, hv⟩
    · exact ⟨v :: before, w, after, rfl, rfl, List.forall_mem_cons.mpr ⟨hv, hbefore⟩, hw⟩

/-- There is a first foreign tag where there is one at all. -/
theorem exists_isFirstForeign_iff :
    (∃ index name tag, IsFirstForeign items index name tag) ↔ ∃ v ∈ items, v.HoldsForeign := by
  induction items with
  | nil => simp [not_isFirstForeign_nil]
  | cons v items ih =>
    rw [List.exists_mem_cons_iff, ← ih]
    simp only [isFirstForeign_cons_iff]
    by_cases hv : v.HoldsForeign
    · obtain ⟨name, tag, hfirst⟩ := Value.holdsForeign_iff.mp hv
      exact ⟨fun _ => .inl hv, fun _ => ⟨0, name, tag, .inl ⟨rfl, hfirst⟩⟩⟩
    · constructor
      · rintro ⟨_, name, tag, ⟨-, hfirst⟩ | ⟨-, n, rfl, hfirst⟩⟩
        · exact absurd (Value.holdsForeign_iff.mpr ⟨name, tag, hfirst⟩) hv
        · exact .inr ⟨n, name, tag, hfirst⟩
      · rintro (hv' | ⟨n, name, tag, hfirst⟩)
        · exact absurd hv' hv
        · exact ⟨n + 1, name, tag, .inr ⟨hv, n, rfl, hfirst⟩⟩

/-- **The elements are looked through in turn**, and nothing but a foreign tag is refused. -/
theorem checkTagsFrom_eq_error_iff {start : Nat} {e : StoreError} :
    checkTagsFrom start (items.map Value.tidy) = .error e ↔
      ∃ n name tag, e = .foreignDigest (start + n) name tag ∧ IsFirstForeign items n name tag := by
  induction items generalizing start with
  | nil => simp [checkTagsFrom, not_isFirstForeign_nil]
  | cons v items ih =>
    simp only [isFirstForeign_cons_iff]
    rw [List.map_cons, checkTagsFrom]
    split
    · next name tag hsome =>
      have hfirst := findSome?_foreignTag?_eq_some_iff.mp hsome
      constructor
      · intro h
        exact ⟨0, name, tag, (Except.error.inj h).symm, .inl ⟨rfl, hfirst⟩⟩
      · rintro ⟨_, k, t, rfl, ⟨rfl, hkt⟩ | ⟨hnone, -⟩⟩
        · rw [← findSome?_foreignTag?_eq_some_iff, hsome] at hkt
          obtain ⟨rfl, rfl⟩ := Prod.mk.inj (Option.some.inj hkt)
          rfl
        · exact absurd (Value.holdsForeign_iff.mpr ⟨name, tag, hfirst⟩) hnone
    · next hnone =>
      have hv : ¬v.HoldsForeign := by
        simp [holdsForeign_iff_isSome, hnone]
      rw [ih]
      constructor
      · rintro ⟨n, name, tag, rfl, hfirst⟩
        rw [Nat.add_assoc, Nat.add_comm 1]
        exact ⟨n + 1, name, tag, rfl, .inr ⟨hv, n, rfl, hfirst⟩⟩
      · rintro ⟨_, name, tag, rfl, ⟨-, hfirst⟩ | ⟨-, n, rfl, hfirst⟩⟩
        · exact absurd (Value.holdsForeign_iff.mpr ⟨name, tag, hfirst⟩) hv
        · rw [← Nat.add_assoc, Nat.add_right_comm]
          exact ⟨n, name, tag, rfl, hfirst⟩

/-! ### Arrays -/

namespace Json

/-- Only an array is an array of plain data. -/
theorem Data.ofValue_eq_array_iff {v : Value} {ds : List Data} :
    ofValue v = .array ds ↔ ∃ items, v = .array items ∧ items.map ofValue = ds := by
  constructor
  · intro h
    cases v with
    | array items =>
      rw [ofValue_array] at h
      exact ⟨items, rfl, Data.array.inj h⟩
    | number n =>
      rw [ofValue] at h
      cases n with
      | float x =>
        rw [ofNumber] at h
        split at h <;> cases h
      | _ => cases h
    | _ => cases h
  · rintro ⟨items, rfl, rfl⟩
    exact ofValue_array items

theorem data?_eq_array_iff {input : List UInt8} {ds : List Data} : data? input = .ok (.array ds) ↔
    ∃ items, tree? input = .ok (.array items) ∧ items.map Data.ofValue = ds := by
  rw [data?_eq, map_eq_ok_iff]
  simp only [eq_comm (a := Data.array ds), Data.ofValue_eq_array_iff]
  constructor
  · rintro ⟨v, htree, items, rfl, hitems⟩
    exact ⟨items, htree, hitems⟩
  · rintro ⟨items, htree, hitems⟩
    exact ⟨_, htree, items, rfl, hitems⟩

variable {distinct : Bool} {depth : Depth} {input rest : List UInt8}

/-- An array is one from its bracket on. -/
theorem exists_of_value_array {items : List Value}
    (h : value distinct (depth + 1) input = .ok (.array items, rest)) :
    ∃ left, skipSpace input = ascii '[' :: left ∧
      bracketed (elements (value distinct depth)) left = .ok (items, rest) := by
  rw [value_succ] at h
  split at h
  · cases h
  · next b left hskip =>
    split at h
    · next hb =>
      obtain ⟨items', _, hitems, hpure⟩ := exists_of_bind h
      obtain ⟨heq, rfl⟩ := eq_of_pure hpure
      obtain rfl := Value.array.inj heq
      exact ⟨left, hb ▸ hskip, hitems⟩
    split at h
    · obtain ⟨ms, _, -, hpure⟩ := exists_of_bind h
      cases (eq_of_pure hpure).1
    · rcases scalar_cases h with h | ⟨_, h⟩ | ⟨_, h⟩ | ⟨_, h, -⟩ <;> cases h

/-- An array without items is a sequence of no records. -/
theorem sequence_of_value_nil {α : Type} (item : Depth → Reader α)
    (h : value distinct (depth + 1) input = .ok (.array [], rest)) :
    sequence item (depth + 1) input = .ok ([], rest) := by
  obtain ⟨left, hskip, hbracketed⟩ := exists_of_value_array h
  obtain ⟨behind, hnone, hclose⟩ := bracketed_eq_ok_iff.mp hbracketed
  have hitems := (elements_eq_ok_iff (consumes_value distinct depth)).mp hnone
  cases hitems with
  | nil hend =>
    have hnil : elements (item depth) left = .ok ([], behind) := by
      rw [elements, elementsWithin, nextElement_eq_none_iff.mpr (nextElement_eq_none_iff.mp hend)]
    rw [sequence, hskip]
    exact bracketed_eq_ok_iff.mpr ⟨behind, hnil, hclose⟩

end Json

/-! ### Ledgers -/

namespace Ledger

variable {bytes : List UInt8} {c : Clock}

theorem inspect?_of_tree? {v : Value} (h : Json.tree? bytes = .ok v) :
    Json.inspect? bytes = .ok v.tidy := by
  rw [show Json.inspect? bytes = (Json.tree? bytes).map Value.tidy from rfl, h]
  rfl

/-- What is wrong with the entries is no matter of tags. -/
theorem entriesOfJson?_ne_foreignDigest :
    entriesOfJson? bytes ≠ .error (.foreignDigest index name tag) := by
  rw [entriesOfJson?]
  cases Json.whole (Json.sequence Entry.reader Json.maxDepth) bytes <;> simp [Except.mapError]

/-- **An array is refused for its first foreign tag**, and for no other defect if it has one. -/
theorem ofJson?_eq_foreignDigest_iff (h : Json.tree? bytes = .ok (.array items)) :
    ofJson? bytes c = .error (.foreignDigest index name tag) ↔
      IsFirstForeign items index name tag := by
  have hcheck : checkTagsFrom 0 (items.map Value.tidy) = .error (.foreignDigest index name tag) ↔
      IsFirstForeign items index name tag := by
    simp [checkTagsFrom_eq_error_iff]
  have hentries : entriesOfJson? bytes ≠ .error (.foreignDigest index name tag) :=
    entriesOfJson?_ne_foreignDigest
  rw [← hcheck, ofJson?, inspect?_of_tree? h, Value.tidy_array]
  dsimp only
  cases checkTagsFrom 0 (items.map Value.tidy) with
  | error e => simp
  | ok _ =>
    -- from here on other errors are reported only
    cases hread : entriesOfJson? bytes with
    | error e => simpa [hread] using hentries
    | ok entries =>
      dsimp only
      cases ofEntries? entries c <;> simp

/-- Data that is no array is refused. -/
theorem ofJson?_of_not_array {d : Json.Data} (h : Json.data? bytes = .ok d)
    (hd : ∀ ds, d ≠ .array ds) : ofJson? bytes c = .error .notArray := by
  rw [ofJson?, Json.inspect?_eq, h]
  cases d with
  | array ds => exact absurd rfl (hd ds)
  | _ => rfl

/-- An array without items is refused. -/
theorem ofJson?_of_nil (h : Json.tree? bytes = .ok (.array [])) :
    ofJson? bytes c = .error .empty := by
  have hentries : entriesOfJson? bytes = .ok [] := by
    obtain ⟨rest, hvalue, hend⟩ := Json.whole_eq_ok_iff.mp h
    have hsequence : Json.whole (Json.sequence Entry.reader (126 + 1)) bytes = .ok [] :=
      Json.whole_eq_ok_iff.mpr ⟨rest, Json.sequence_of_value_nil Entry.reader hvalue, hend⟩
    rw [entriesOfJson?, show Json.maxDepth = 126 + 1 from rfl, hsequence]
    rfl
  rw [ofJson?, inspect?_of_tree? h]
  simp [Value.tidy_array, checkTagsFrom, hentries, ofEntries?]

/-- **Foreign digests are reported first.** A text that is data is refused for a foreign digest
exactly when it is an array with an element in which one is found, whatever else is wrong with it.
What is reported is the first one: the elements in their order, and in each the digest of the
predecessor before its own. Data that is no array is refused for this, and so is an array of
nothing. -/
theorem foreign_digest_reported_first :
    (∀ ds, Json.data? bytes = .ok (.array ds) →
      ∃ items, Json.tree? bytes = .ok (.array items) ∧ items.map Json.Data.ofValue = ds ∧
        ((∃ index name tag, ofJson? bytes c = .error (.foreignDigest index name tag)) ↔
          ∃ v ∈ items, ∃ k ∈ ["prev_hash", "record_hash"], ∃ tag, v.HasForeignTag k tag) ∧
        ∀ index name tag, ofJson? bytes c = .error (.foreignDigest index name tag) ↔
          IsFirstForeign items index name tag) ∧
    (∀ d, Json.data? bytes = .ok d → (∀ ds, d ≠ .array ds) →
      ofJson? bytes c = .error .notArray) ∧
    (Json.data? bytes = .ok (.array []) → ofJson? bytes c = .error .empty) := by
  refine ⟨fun ds hdata => ?_, fun d => ofJson?_of_not_array, fun hdata => ?_⟩
  · obtain ⟨items, htree, rfl⟩ := Json.data?_eq_array_iff.mp hdata
    refine ⟨items, htree, rfl, ?_, fun index name tag => ofJson?_eq_foreignDigest_iff htree⟩
    simp only [ofJson?_eq_foreignDigest_iff htree]
    exact exists_isFirstForeign_iff
  · obtain ⟨items, htree, hitems⟩ := Json.data?_eq_array_iff.mp hdata
    obtain rfl := List.map_eq_nil_iff.mp hitems
    exact ofJson?_of_nil htree

/-- An entry with a digest that is too short, and behind it one in which a foreign digest has taken
the place of another one. Neither has the members that it needs. -/
theorem foreign_digest_reported_first_repeated :
    ofJson? (Utf8.encode ("[\x7b\"record_hash\":\"sha256:0\"\x7d,".toList
        ++ "\x7b\"record_hash\":\"md5:\",\"prev_hash\":\"sha256:0\",".toList
        ++ "\"prev_hash\":\"blake3:f:\"\x7d]".toList)) .system
        = .error (.foreignDigest 1 "prev_hash" "blake3") := by
  generalize htext : Utf8.encode _ = bytes
  have htree : Json.tree? bytes = .ok (.array [.object [("record_hash", .string "sha256:0")],
      .object [("record_hash", .string "md5:"), ("prev_hash", .string "sha256:0"),
        ("prev_hash", .string "blake3:f:")]]) := by
    rw [← htext]
    rfl
  obtain ⟨harray, -, -⟩ := foreign_digest_reported_first
  obtain ⟨items, hitems, -, -, hfirst⟩ := harray _ (Json.data?_eq_array_iff.mpr ⟨_, htree, rfl⟩)
  obtain rfl := Value.array.inj (Except.ok.inj (hitems.symm.trans htree))
  refine (hfirst 1 "prev_hash" "blake3").mpr ⟨[_], _, [], rfl, rfl, ?_, .prevHash ?_⟩
  · exact List.forall_mem_singleton.mpr (by decide +kernel)
  · exact ⟨"blake3:f:", ['f', ':'], ⟨[_, _], [], rfl, List.not_mem_nil⟩, rfl, by decide, by decide⟩

end Ledger

end SealedLedger
