import SealedLedger.Proofs.Ledger.Break

/-!
# Tampering shows

When an entry of a verified ledger is replaced by one that does not agree with it, the chain breaks.
Verification reports the first break, so its place can be told beforehand: the links before the
replaced entry still hold, the link into it breaks when the digest it holds is another one, and the
link behind it breaks in any case, because its canonical bytes are others.

That the bytes are others needs no assumption about the hash. That their digests are others does,
for these two texts.

## Main definitions

* `Ledger.replace` — a ledger with another entry at a position

## Main results

* `Ledger.verify_eq_broken` — verification stops at the first link that does not hold
* `Ledger.verify_replace` — where a replaced entry is noticed
-/

namespace SealedLedger

namespace Ledger

/-! ### The first break -/

variable {l : Ledger}

/-- **Verification stops at the first link that does not hold**, and tells both digests. -/
theorem verify_eq_broken {i : Nat} (hi : i + 1 < l.entries.length)
    (hbefore : ∀ j (hj : j < i), l.entries[j].digest? = .ok l.entries[j + 1].prevHash)
    {d : Digest} (hd : l.entries[i].digest? = .ok d) (hne : d ≠ l.entries[i + 1].prevHash) :
    l.verify = .error (.broken (.ofNat (i + 1)) d l.entries[i + 1].prevHash) := by
  have hadjacent : Adjacent l.entries (i + 1) l.entries[i] l.entries[i + 1] :=
    adjacent_getElem hi
  have hdiffers : l.DiffersAt (i + 1) := ⟨_, _, hadjacent, d, hd, hne⟩
  refine verify_eq_broken_iff.mpr ⟨i + 1, _, _, rfl, ⟨hdiffers.breaksAt, ?_⟩, hadjacent, hd, rfl⟩
  rintro (_ | j) ⟨a, b, hab, hbreak⟩
  · cases hab
  · by_contra hlt
    have hj : j < i := by omega
    obtain ⟨rfl, rfl⟩ := hab.unique (adjacent_getElem (show j + 1 < l.entries.length by omega))
    exact hbreak (hbefore j hj)

/-- Every link of a verified ledger holds. -/
theorem link_of_verify (h : l.verify = .ok ()) {i : Nat} (hi : i + 1 < l.entries.length) :
    l.entries[i].digest? = .ok l.entries[i + 1].prevHash := by
  rw [verify, verifyFrom_eq_ok_iff, ← entries_eq_cons] at h
  exact h i hi

/-! ### A replaced entry -/

/-- The ledger with another entry at a position. -/
def replace (l : Ledger) (k : Nat) (e : Entry) : Ledger :=
  ⟨l.entries.set k e, l.clock, by simpa using l.entries_ne⟩

@[simp] theorem entries_replace (l : Ledger) (k : Nat) (e : Entry) :
    (l.replace k e).entries = l.entries.set k e := rfl

variable {k : Nat} {e : Entry}

/-- A link of the ledger still holds, unless it leaves the replaced entry, or enters it and that one
holds another digest. -/
theorem link_replace (h : l.verify = .ok ()) {j : Nat} (hj : j + 1 < (l.replace k e).entries.length)
    (hfrom : j ≠ k) (hinto : ∀ hk : k < l.entries.length, j + 1 = k →
      e.prevHash = l.entries[k].prevHash) :
    (l.replace k e).entries[j].digest? = .ok (l.replace k e).entries[j + 1].prevHash := by
  have hlink := link_of_verify h (i := j) (by simpa using hj)
  simp only [entries_replace, List.getElem_set, if_neg (Ne.symm hfrom)]
  split
  · next hjk =>
    subst hjk
    rw [hlink, hinto (by simpa using hj) rfl]
  · exact hlink

/-- **Tampering shows.** When an entry of a verified ledger, but the last one, is replaced by an
entry that does not agree with it, the canonical bytes of the two are different. The ledger is then
found broken: at the entry itself when it holds another digest of the one before it, and at the next
entry otherwise, as long as the hashes of the two are different. -/
theorem verify_replace (hverify : l.verify = .ok ()) (hk : k + 1 < l.entries.length)
    (hpayload : ∃ p, canonicalize e.payload = .ok p) (hdiffers : ¬ e.Agrees l.entries[k]) :
    ∃ c d, e.canonicalBytes? = .ok c ∧ l.entries[k].canonicalBytes? = .ok d ∧ c ≠ d ∧
      (1 ≤ k → e.prevHash ≠ l.entries[k].prevHash →
        (l.replace k e).verify
          = .error (.broken (.ofNat k) l.entries[k].prevHash e.prevHash)) ∧
      (k = 0 ∨ e.prevHash = l.entries[k].prevHash → Sha256.hash c ≠ Sha256.hash d →
        (l.replace k e).verify
          = .error (.broken (.ofNat (k + 1)) ⟨Sha256.hash c⟩ l.entries[k + 1].prevHash)) := by
  have hlink := link_of_verify hverify hk
  obtain ⟨c, hc⟩ := Entry.exists_canonicalBytes?_iff.mpr hpayload
  obtain ⟨d, hd, hdigest⟩ := Entry.digest?_eq_ok_iff.mp hlink
  have hne : c ≠ d := fun hcd => hdiffers ((Entry.canonicalBytes?_eq_iff_agrees hc hd).mp hcd)
  refine ⟨c, d, hc, hd, hne, fun hpos hprev => ?_, fun hprev hhash => ?_⟩
  · -- the link into the entry is the first one that breaks
    obtain ⟨k, rfl⟩ := Nat.exists_eq_add_of_le' hpos
    have hinto := link_of_verify hverify (show k + 1 < l.entries.length by omega)
    have hbreak := @verify_eq_broken (l.replace (k + 1) e) k (by simp; omega)
      (fun j hj => link_replace hverify _ (by omega) (by omega)) l.entries[k + 1].prevHash
      (by simpa using hinto) (by simpa using hprev.symm)
    simpa using hbreak
  · -- the links before the entry hold, and the one behind it breaks
    have hafter : e.digest? = .ok ⟨Sha256.hash c⟩ := Entry.digest?_eq_ok_iff.mpr ⟨c, hc, rfl⟩
    have hbreak := @verify_eq_broken (l.replace k e) k (by simpa using hk)
      (fun j hj => link_replace hverify _ (by omega)
        fun _ hjk => hprev.resolve_left (by omega)) ⟨Sha256.hash c⟩
      (by simpa using hafter) (by simpa [hdigest] using hhash)
    simpa using hbreak

/-- A genesis entry that is dated a minute later is noticed at the entry behind it. -/
theorem verify_replace_ofTwo :
    ∃ (l : Ledger) (e : Entry) (expected recorded : Digest), l.verify = .ok () ∧
      0 + 1 < l.entries.length ∧ (∃ p, canonicalize e.payload = .ok p) ∧
      ¬ e.Agrees l.first ∧
      (l.replace 0 e).verify = .error (.broken 1 expected recorded) := by
  have hv : Canonical.Writes (.number (.int 2)) ['2'] := rfl
  have hverify := verify_of_isSound (isSound_ofTwo hv)
  have hempty := writes_first (.number (.int 2))
  set later : Entry := .genesis ⟨0⟩ ⟨60, false, by decide, by decide⟩ with hlater
  have hpayload : ∃ p, canonicalize later.payload = .ok p :=
    Canonical.exists_canonicalize_iff.mpr ⟨_, hempty⟩
  have hdiffers : ¬ later.Agrees (ofTwo (.number (.int 2))).first := fun h =>
    absurd h.timestamp (by decide)
  obtain ⟨c, d, hc, hd, -, -, hbroken⟩ := verify_replace hverify (k := 0) (by decide) hpayload
    hdiffers
  obtain rfl := Except.ok.inj ((Entry.canonicalBytes?_eq hempty).symm.trans hd)
  obtain rfl := Except.ok.inj ((Entry.canonicalBytes?_eq (e := later) hempty).symm.trans hc)
  refine ⟨_, later, _, _, hverify, by decide, hpayload, hdiffers, hbroken (.inl rfl) ?_⟩
  rw [(hashes_ofTwo (.number (.int 2))).1]
  simp only [hlater, last, ofTwo, List.getLast_cons_cons, List.getLast_singleton, Entry.genesis,
    Entry.canonicalText, Canonical.string, Uuid.text, Digest.text, Timestamp.text,
    String.toList_ofList]
  decide +kernel

end Ledger

end SealedLedger
