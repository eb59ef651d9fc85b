import Mathlib.Data.List.Basic
import SealedLedger.Cli.Files
import SealedLedger.Proofs.Text.Utf8

/-!
# A file that was written can be read

Writing changes the tree at one place, and that place is not a directory. So every path that could
be followed before leads where it led, and the path that was written leads to the new bytes.

## Main results

* `Files.at?_set` — what stands at a place after another one is set
* `Files.walk_set` — a file does not stand in the way of a path
* `Files.exists_target?_of_read?` — a file that can be read may be written
* `Files.read?_of_write?` — a file that was written has the bytes it was written with
* `Files.readText?_of_write?` — and the text
-/

namespace SealedLedger

namespace Files

variable {fs fs' : Files} {place p : Place} {node : FileNode} {path : String}
  {bytes : List UInt8}

/-! ### One place -/

/-- The place always holds a directory. -/
def IsFixed (place : Place) : Prop :=
  place.all (· = ['.', '.']) = true ∨ place = root

theorem at?_of_isFixed (h : IsFixed place) : fs.at? place = some .directory :=
  if_pos h

theorem at?_of_not_isFixed (h : ¬IsFixed place) :
    fs.at? place = (fs.nodes.find? (·.1 == place)).map (·.2) :=
  if_neg h

theorem at?_set_self (h : ¬IsFixed place) : (fs.set place node).at? place = some node := by
  rw [at?_of_not_isFixed h, set]
  split
  · next hany =>
    obtain ⟨n, hn, hplace⟩ := List.any_eq_true.mp hany
    cases hfind : (fs.nodes.map fun n => if n.1 == place then (place, node) else n).find?
        (·.1 == place) with
    | none =>
      have hmem := List.mem_map_of_mem (f := fun n => if n.1 == place then (place, node) else n) hn
      simp only [hplace, if_true] at hmem
      exact absurd (List.find?_eq_none.mp hfind _ hmem) (by simp)
    | some m =>
      obtain ⟨n, -, hm⟩ := List.mem_map.mp (List.mem_of_find?_eq_some hfind)
      have hplace := List.find?_some hfind
      split at hm
      · rw [← hm]
        rfl
      · next hne =>
        rw [hm] at hne
        exact absurd hplace hne
  · next hany =>
    have hnone : fs.nodes.find? (·.1 == place) = none :=
      List.find?_eq_none.mpr fun n hn h => hany (List.any_eq_true.mpr ⟨n, hn, h⟩)
    rw [List.find?_append, hnone]
    simp

theorem find?_map_ne {α : Type} {place p : Place} {a : α} (h : p ≠ place)
    (nodes : List (Place × α)) :
    (nodes.map fun n => if n.1 == place then (place, a) else n).find? (·.1 == p)
      = nodes.find? (·.1 == p) := by
  induction nodes with
  | nil => rfl
  | cons n nodes ih =>
    rw [List.map_cons]
    split
    · next hn =>
      have hplace : n.1 = place := by simpa using hn
      rw [List.find?_cons_of_neg (by simpa using Ne.symm h), ih,
        List.find?_cons_of_neg (by simpa [hplace] using Ne.symm h)]
    · rw [List.find?_cons, List.find?_cons, ih]

theorem at?_set_of_ne (h : p ≠ place) : (fs.set place node).at? p = fs.at? p := by
  by_cases hfixed : IsFixed p
  · rw [at?_of_isFixed hfixed, at?_of_isFixed hfixed]
  · rw [at?_of_not_isFixed hfixed, at?_of_not_isFixed hfixed, set]
    split
    · rw [find?_map_ne h]
    · rw [List.find?_append, List.find?_cons_of_neg (by simpa using Ne.symm h)]
      simp

/-! ### Paths -/

/-- **A file does not stand in the way of a path**: where a place holds no directory, what is set
there is not on the way to anything. -/
theorem walk_set (h : fs.at? place ≠ some .directory) {start : Place} {names : List (List Char)}
    (hwalk : fs.walk start names = .ok p) : (fs.set place node).walk start names = .ok p := by
  induction names generalizing start with
  | nil => exact hwalk
  | cons name names ih =>
    rw [walk] at hwalk ⊢
    split at hwalk
    · cases hwalk
    · cases hwalk
    · next hdirectory =>
      have hne : start ≠ place := by
        rintro rfl
        exact h hdirectory
      rw [at?_set_of_ne hne, hdirectory]
      split at hwalk
      · next hfits =>
        simp only [if_pos hfits]
        exact ih hwalk
      · cases hwalk

/-- A walk that ends at a point ends in a directory. -/
theorem at?_of_walk_point {start : Place} {names : List (List Char)}
    (hwalk : fs.walk start (names ++ [['.']]) = .ok p) : fs.at? p = some .directory := by
  induction names generalizing start with
  | nil =>
    rw [List.nil_append, walk] at hwalk
    split at hwalk
    · cases hwalk
    · cases hwalk
    · next hdirectory =>
      split at hwalk
      · rw [walk, enter, if_pos rfl] at hwalk
        rw [← Except.ok.inj hwalk, hdirectory]
      · cases hwalk
  | cons name names ih =>
    rw [List.cons_append, walk] at hwalk
    split at hwalk
    · cases hwalk
    · cases hwalk
    · split at hwalk
      · exact ih hwalk
      · cases hwalk

/-- A path that may be written does not end in a slash, leads to its place, and no directory stands
there. -/
theorem place?_of_target? (h : fs.target? path = .ok p) :
    namesDirectory path = false ∧ fs.place? path = .ok p ∧ fs.at? p ≠ some .directory := by
  rw [target?] at h
  split at h
  · cases h
  · next hfault =>
    dsimp only at h
    split at h
    · cases h
    · next q hwalk =>
      split at h
      · cases h
      · next hat =>
        obtain rfl := Except.ok.inj h
        cases hslash : namesDirectory path with
        | true =>
          rw [hslash, if_pos rfl] at hwalk
          exact absurd (at?_of_walk_point hwalk) hat
        | false =>
          rw [hslash, if_neg Bool.false_ne_true] at hwalk
          refine ⟨rfl, ?_, hat⟩
          rw [place?, hfault]
          exact hwalk

/-! ### Files -/

/-- **A file that can be read may be written**: its path leads to it and does not end in a slash. -/
theorem exists_target?_of_read? (h : fs.read? path = .ok bytes) : ∃ p, fs.target? path = .ok p := by
  rw [read?] at h
  split at h
  · cases h
  · next p hplace =>
    split at h
    · cases h
    · cases h
    · next hat =>
      split at h
      · cases h
      · next hslash =>
        rw [place?] at hplace
        split at hplace
        · cases hplace
        · next hfault =>
          have hne : ¬fs.at? p = some .directory := by rw [hat]; exact fun h => by cases h
          refine ⟨p, ?_⟩
          rw [target?, hfault]
          dsimp only at hplace ⊢
          rw [if_neg hslash, hplace]
          exact if_neg hne

theorem exists_target?_of_readText? {t : List Char} (h : fs.readText? path = .ok t) :
    ∃ p, fs.target? path = .ok p := by
  rw [readText?] at h
  split at h
  · cases h
  · next bytes hread => exact exists_target?_of_read? hread

theorem exists_write?_of_target? (h : fs.target? path = .ok p) (bytes : List UInt8) :
    ∃ fs', fs.write? path bytes = .ok fs' := by
  rw [write?, h]
  exact ⟨_, rfl⟩

/-- **A file that was written has the bytes it was written with.** -/
theorem read?_of_write? (h : fs.write? path bytes = .ok fs') : fs'.read? path = .ok bytes := by
  rw [write?] at h
  cases htarget : fs.target? path with
  | error e =>
    rw [htarget] at h
    cases h
  | ok p =>
    rw [htarget] at h
    obtain rfl := Except.ok.inj h
    obtain ⟨hslash, hplace, hat⟩ := place?_of_target? htarget
    have hfixed : ¬IsFixed p := fun hfixed => hat (at?_of_isFixed hfixed)
    have hplace' : (fs.set p (.file bytes)).place? path = .ok p := by
      rw [place?] at hplace ⊢
      split at hplace
      · cases hplace
      · exact walk_set hat hplace
    rw [read?, hplace']
    simp only [at?_set_self hfixed, hslash, Bool.false_eq_true, if_false]

/-- The bytes of a text are read as the text. -/
theorem readText?_of_read? {t : List Char} (h : fs.read? path = .ok (Utf8.encode t)) :
    fs.readText? path = .ok t := by
  rw [readText?, h]
  simp only [Utf8.decode?_encode]

/-- **A text that was written is read back.** -/
theorem readText?_of_write? {t : List Char} (h : fs.write? path (Utf8.encode t) = .ok fs') :
    fs'.readText? path = .ok t :=
  readText?_of_read? (read?_of_write? h)

theorem readText?_congr (h : fs.read? path = fs'.read? path) :
    fs.readText? path = fs'.readText? path := by
  rw [readText?, readText?, h]

end Files

end SealedLedger
