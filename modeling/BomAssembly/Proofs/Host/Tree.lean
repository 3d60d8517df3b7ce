import BomAssembly.Host.Tree
import BomAssembly.Proofs.FilePath
import BomAssembly.Proofs.Text.MapLookup

/-!
# What is read after a file was written

Writing puts an entry at the one place that the path leads to, where no directory may be
(`write_eq_ok_iff`). All directories stay, so a path that could be followed before leads to the same
place after it (`locate_put`), and reading through any path to that place gives what was written
(`read_write`). Two paths for one file lead to one place in every tree (`locate_eq_of_sameFile`).
-/

namespace BomAssembly.FileTree

variable {t t' : FileTree} {p : Place} {e : TreeEntry} {path text : String}

/-! ## Entries -/

theorem ne_nil_of_not_directory (h : t.entry? p ≠ some .directory) : p ≠ [] := by
  rintro rfl
  exact h rfl

theorem entry?_put_self (h : p ≠ []) : FileTree.entry? (t.put p e) p = some e := by
  unfold entry? put
  rw [if_neg h, Text.StringMap.get?_insert_self]

/-- An entry put where no directory is leaves all directories. -/
theorem entry?_put_directory {q : Place} (h : t.entry? p ≠ some .directory)
    (hq : t.entry? q = some .directory) : FileTree.entry? (t.put p e) q = some .directory := by
  by_cases hroot : q = []
  · rw [hroot]
    rfl
  · have hkey : key q ≠ key p := by
      intro heq
      apply h
      rw [FileTree.entry?, if_neg (ne_nil_of_not_directory h), ← heq]
      rwa [FileTree.entry?, if_neg hroot] at hq
    rw [FileTree.entry?, if_neg hroot] at hq ⊢
    rw [put, Text.StringMap.get?_insert_of_ne hkey, hq]

/-! ## Paths -/

theorem follow_put (h : t.entry? p ≠ some .directory) {q r : Place} {names : List String}
    (hfollow : t.follow q names = .ok r) : (t.put p e).follow q names = .ok r := by
  induction names generalizing q with
  | nil => exact hfollow
  | cons name names ih =>
      rw [follow] at hfollow ⊢
      split at hfollow
      · next hq =>
        rw [entry?_put_directory h hq]
        exact ih hfollow
      · exact absurd hfollow (by simp)
      · exact absurd hfollow (by simp)

/-- **A path leads where it led**, when an entry is put where no directory is. -/
theorem locate_put (h : t.entry? p ≠ some .directory) {r : Place}
    (hlocate : t.locate path = .ok r) : (t.put p e).locate path = .ok r := by
  rw [locate] at hlocate ⊢
  split at hlocate
  · exact absurd hlocate (by simp)
  · next hne =>
    rw [if_neg hne]
    exact follow_put h hlocate

theorem ne_empty_of_locate (h : t.locate path = .ok p) : path ≠ "" := by
  rintro rfl
  exact absurd h (by simp [locate])

theorem namesOf_eq : namesOf path = (FilePath.names path.toList).map String.ofList := rfl

/-- **Two paths for one file lead to one place.** -/
theorem locate_eq_of_sameFile {path' : String} (h : FilePath.SameFile path path')
    (hpath : path ≠ "") (hpath' : path' ≠ "") : t.locate path = t.locate path' := by
  have hstart : t.startOf path = t.startOf path' := if_congr h.start rfl rfl
  rw [locate, locate, if_neg hpath, if_neg hpath', hstart, namesOf_eq, namesOf_eq, h.names]

/-! ## Reading and writing -/

theorem read_eq_ok_iff : t.read path = .ok text ↔
    ∃ p, t.locate path = .ok p ∧ t.entry? p = some (.file text) ∧ meansDirectory path = false := by
  unfold read look
  cases t.locate path with
  | error e => simp
  | ok p =>
      cases hentry : t.entry? p with
      | none => simp [hentry]
      | some entry =>
          cases entry with
          | directory => simp [hentry]
          | file old => cases meansDirectory path <;> simp [hentry]

theorem write_eq_ok_iff : t.write path text = .ok t' ↔
    ∃ p, t.locate path = .ok p ∧ t.entry? p ≠ some .directory ∧ meansDirectory path = false ∧
      t' = t.put p (.file text) := by
  unfold write
  cases t.locate path with
  | error e => simp
  | ok p =>
      cases hentry : t.entry? p with
      | none => cases meansDirectory path <;> simp [hentry, eq_comm]
      | some entry =>
          cases entry with
          | directory => simp [hentry]
          | file old => cases meansDirectory path <;> simp [hentry, eq_comm]

/-- **What was written is read**, through every path that led to the place. -/
theorem read_write (hwrite : t.write path text = .ok t') {path' : String}
    (hlocate : t.locate path' = t.locate path) (hmeans : meansDirectory path' = false) :
    t'.read path' = .ok text := by
  obtain ⟨p, hp, hentry, -, rfl⟩ := write_eq_ok_iff.mp hwrite
  exact read_eq_ok_iff.mpr ⟨p, locate_put hentry (hlocate.trans hp),
    entry?_put_self (ne_nil_of_not_directory hentry), hmeans⟩

/-- A file that can be read can be written. -/
theorem exists_write_of_read {old : String} (h : t.read path = .ok old) (text : String) :
    ∃ t', t.write path text = .ok t' ∧ t'.read path = .ok text := by
  obtain ⟨p, hp, hentry, hmeans⟩ := read_eq_ok_iff.mp h
  have hwrite : t.write path text = .ok (t.put p (.file text)) :=
    write_eq_ok_iff.mpr ⟨p, hp, by simp [hentry], hmeans, rfl⟩
  exact ⟨_, hwrite, read_write hwrite rfl hmeans⟩

end BomAssembly.FileTree
