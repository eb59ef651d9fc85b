import SealedLedger.Proofs.Ledger.Accepted
import SealedLedger.Proofs.Ledger.Break
import SealedLedger.Proofs.Ledger.Hashed
import SealedLedger.Proofs.Suite.Accepted
import SealedLedger.Proofs.Suite.Regenerated
import SealedLedger.Proofs.Value.Numbers

/-!
# Documents that are accepted

A text that is accepted never lacks canonical bytes later. The canonical form refuses two things, a
number that is not finite and an object that repeats a key, and the reader returns neither. The
records of a ledger and the inputs of a suite come from the same reader. So the checks of a ledger
that was read may find it broken but never without a digest, and a suite that was read can be
regenerated.

## Main results

* `Json.canonicalizable_of_read?` — a value that was read
* `Ledger.isCanonicalizable_of_ofJson?` — a ledger that was read
* `Ledger.verify_ne_canonical`, `Ledger.kind_ne_uncanonicalizable` — a ledger whose records all have
  canonical bytes
* `accepted_canonicalizes` — all documents that are read
-/

namespace SealedLedger

/-! ### Values -/

/-- **A value that was read** repeats no key, has finite doubles and only unsigned words that fit no
signed one, is within the limit of containers, and has canonical bytes. -/
theorem Json.canonicalizable_of_read? {input : List UInt8} {v : Value}
    (h : read? input = .ok v) :
    v.HasDistinctKeys ∧
      (∀ x, Value.Occurs (.number (.float x)) v → x.isFinite = true) ∧
      (∀ u, Value.Occurs (.number (.uint u)) v → 2 ^ 63 ≤ u.toNat) ∧
      v.NestsWithin 127 ∧ ∃ c, canonicalize v = .ok c := by
  have haccepted := isAccepted_of_read? h
  obtain ⟨rest, hread⟩ := exists_of_whole h
  refine ⟨Value.hasDistinctKeys_of_writes haccepted.exists_writes, fun x hx => ?_, fun u hu => ?_,
    haccepted.nestsWithin, exists_canonicalize_of_read? h⟩
  · exact isRead_of_value hread hx
  · exact isRead_of_value hread hu

/-! ### Ledgers -/

/-- A finding is of the kind of missing canonical bytes when one of its two digests is missing. -/
theorem Finding.kind_eq_uncanonicalizable_iff {f : Finding} : f.kind = "Uncanonicalizable" ↔
    (∃ e, f = .predecessorUncanonicalizable e) ∨ ∃ e, f = .payloadUncanonicalizable e := by
  cases f <;> simp [kind]

namespace Ledger

variable {l : Ledger}

/-- All records of the ledger have canonical bytes. -/
def IsCanonicalizable (l : Ledger) : Prop :=
  ∀ e ∈ l.entries, ∃ c, canonicalize e.payload = .ok c

/-- A ledger that was read is made of records that the reader returned. -/
theorem isCanonicalizable_of_ofJson? {bytes : List UInt8} {clock : Clock}
    (h : ofJson? bytes clock = .ok l) : l.IsCanonicalizable := fun e he =>
  Canonical.exists_canonicalize_iff.mpr (payload_accepted h e he).exists_writes

/-- **Verification never stops for want of a digest** when all records have canonical bytes. -/
theorem verify_ne_canonical (h : l.IsCanonicalizable) (err : CanonicalError) :
    l.verify ≠ .error (.canonical err) := by
  rcases verify_cases l with hok | ⟨p, prev, e, -, hadjacent, hbreak⟩
  · rw [hok]
    intro heq
    cases heq
  · have hprev : prev ∈ l.entries := List.mem_of_mem_dropLast hadjacent.mem_dropLast
    obtain ⟨d, hd⟩ := Entry.exists_digest?_iff.mpr (h prev hprev)
    rw [hbreak, breakError, hd]
    intro heq
    cases heq

/-- **An audit never misses a digest** when all records have canonical bytes. -/
theorem kind_ne_uncanonicalizable (h : l.IsCanonicalizable) {v : Violation}
    (hv : v ∈ l.audit.violations) : v.finding.kind ≠ "Uncanonicalizable" := by
  obtain ⟨p, f⟩ := v
  intro hkind
  rcases mem_violations_iff.mp hv with ⟨-, hf⟩ | ⟨prev, e, hadjacent, hf⟩
  · -- the first entry is not checked for digests
    rw [Entry.mem_examineFirst_iff] at hf
    rcases Finding.kind_eq_uncanonicalizable_iff.mp hkind with ⟨err, rfl⟩ | ⟨err, rfl⟩ <;> cases hf
  · rw [Entry.mem_examineLater_iff] at hf
    rcases Finding.kind_eq_uncanonicalizable_iff.mp hkind with ⟨err, rfl⟩ | ⟨err, rfl⟩
    · have hprev : prev ∈ l.entries := List.mem_of_mem_dropLast hadjacent.mem_dropLast
      obtain ⟨d, hd⟩ := Entry.exists_digest?_iff.mpr (h prev hprev)
      cases eq_of_mem_digestFindings hd hf
    · obtain ⟨c, hc⟩ := h e hadjacent.mem_right
      have hd := Entry.payloadDigest?_eq_ok_iff.mpr ⟨c, hc, rfl⟩
      cases eq_of_mem_digestFindings hd hf

end Ledger

/-! ### All documents -/

/-- **What is accepted has canonical bytes.** A value that was read repeats no key at any depth, its
doubles are finite, an unsigned word in it fits no signed one, at most 127 containers stand inside
one another, and it has canonical bytes. So verifying a ledger that was read never fails for want of
canonical bytes, its audit never reports that they are missing, and a suite that was read can be
regenerated. -/
theorem accepted_canonicalizes :
    (∀ input v, Json.read? input = .ok v → v.HasDistinctKeys ∧
      (∀ x, Value.Occurs (.number (.float x)) v → x.isFinite = true) ∧
      (∀ u, Value.Occurs (.number (.uint u)) v → 2 ^ 63 ≤ u.toNat) ∧
      v.NestsWithin 127 ∧ ∃ c, canonicalize v = .ok c) ∧
    (∀ bytes clock l, Ledger.ofJson? bytes clock = .ok l →
      (∀ err, l.verify ≠ .error (.canonical err)) ∧
      ∀ v ∈ l.audit.violations, v.finding.kind ≠ "Uncanonicalizable") ∧
    ∀ bytes s, Suite.ofJson? bytes = .ok s → ∃ s', s.regenerate? = .ok s' := by
  refine ⟨fun _ _ => Json.canonicalizable_of_read?, fun _ _ l hl => ?_, fun _ s hs => ?_⟩
  · have h := Ledger.isCanonicalizable_of_ofJson? hl
    exact ⟨Ledger.verify_ne_canonical h, fun v hv => Ledger.kind_ne_uncanonicalizable h hv⟩
  · exact Suite.exists_regenerate?_iff.mpr fun v hv => (Suite.input_accepted hs v hv).exists_writes

/-- An object with an unsigned word and a double, whose second key is escaped; a ledger of one
entry; and a suite of one vector without expected texts. -/
theorem accepted_canonicalizes_three :
    (∃ v, Json.read? (utf8 "\x7b\"a\":18446744073709551615,\"\\u0062\":1.5\x7d") = .ok v ∧
      v = .object [("a", .number (.uint 0xFFFFFFFFFFFFFFFF)),
        ("b", .number (.float (.ofBits 0x3FF8000000000000)))] ∧
      ∃ c, canonicalize v = .ok c) ∧
    (∃ t l, Ledger.ofJson? (Utf8.encode t) .system = .ok l ∧ l.entries.length = 1 ∧
      ∀ err, l.verify ≠ .error (.canonical err)) ∧
    ∃ s s', Suite.ofJson? (utf8 "[[\"d\",null]]") = .ok s ∧ s.vectors.length = 1 ∧
      s.regenerate? = .ok s' := by
  obtain ⟨hvalues, hledgers, hsuites⟩ := accepted_canonicalizes
  refine ⟨?_, ?_, ?_⟩
  · have hread : Json.read? (utf8 "\x7b\"a\":18446744073709551615,\"\\u0062\":1.5\x7d")
        = .ok (.object [("a", .number (.uint 0xFFFFFFFFFFFFFFFF)),
          ("b", .number (.float (.ofBits 0x3FF8000000000000)))]) := rfl
    obtain ⟨-, -, -, -, hc⟩ := hvalues _ _ hread
    exact ⟨_, hread, rfl, hc⟩
  · obtain ⟨t, l, -, hl, hentries, -⟩ := Ledger.exists_text_of_genesis
      (Uuid.parse?_text ⟨0x5F0E6B8A3C2D4F1E8A7B000000000001⟩)
    exact ⟨t, l, hl, by rw [hentries]; rfl, (hledgers _ _ _ hl).1⟩
  · have hread : Suite.ofJson? (utf8 "[[\"d\",null]]") = .ok ⟨[⟨"d", .null, "", ""⟩]⟩ := rfl
    obtain ⟨s', hs'⟩ := hsuites _ _ hread
    exact ⟨_, s', hread, rfl, hs'⟩

end SealedLedger
