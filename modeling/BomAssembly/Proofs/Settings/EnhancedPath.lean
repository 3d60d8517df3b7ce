import BomAssembly.Proofs.FileName
import BomAssembly.Settings.Basic

/-!
# A reconciled BOM never takes the place of the generated one by default

Where no path is given, the reconciled BOM goes beside the generated one, with the suffix in its name.
A suffix that passes the check is not empty and holds no slash, so it makes the name a longer one and
the path no deeper. A path that names nothing, such as that of a directory above, gets a name of its
own. Either way the two paths differ in their names, and so in the file that they lead to.
-/

namespace BomAssembly.Settings

open FilePath (IsName Parted SameFile components fileName? parent withFileName)

variable {suffix raw : String}

theorem suffixIssues_eq_nil_iff : suffixIssues suffix = [] ↔
    suffix ≠ "" ∧ ∀ c ∈ suffix.toList, c ≠ '/' ∧ c ≠ '\\' := by
  unfold suffixIssues
  rw [List.append_eq_nil_iff]
  refine and_congr (by simp) ?_
  cases hany : suffix.toList.any fun c => c == '/' || c == '\\' with
  | true =>
      obtain ⟨c, hc, hslash⟩ := List.any_eq_true.mp hany
      refine iff_of_false (by simp) fun hplain => ?_
      rcases Bool.or_eq_true_iff.mp hslash with heq | heq
      · exact (hplain c hc).1 (beq_iff_eq.mp heq)
      · exact (hplain c hc).2 (beq_iff_eq.mp heq)
  | false =>
      refine iff_of_true rfl fun c hc => ?_
      have hplain := List.any_eq_false.mp hany c hc
      simpa using hplain

/-- The file name of a reconciled BOM. -/
def enhancedName (suffix raw : String) : List Char :=
  match fileName? raw.toList with
  | some name => (FilePath.splitName name).1 ++ suffix.toList ++
      FilePath.extended (FilePath.splitName name).2
  | none => "bom".toList ++ suffix.toList

theorem toList_enhancedPath (suffix raw : String) :
    (enhancedPath suffix raw).toList = withFileName raw.toList (enhancedName suffix raw) := by
  rw [enhancedPath, enhancedName, String.toList_ofList]
  cases fileName? raw.toList with
  | some name => rfl
  | none => simp

/-- A name gets the suffix between its two parts. -/
theorem enhancedName_of_some (suffix : String) {name : List Char}
    (hraw : fileName? raw.toList = some name) :
    ∃ stem tail, Parted name stem tail ∧ enhancedName suffix raw = stem ++ suffix.toList ++ tail := by
  refine ⟨_, _, FilePath.parted_splitName (IsName.of_fileName? hraw).ne_nil, ?_⟩
  rw [enhancedName, hraw]

theorem enhancedName_of_none (hraw : fileName? raw.toList = none) :
    enhancedName suffix raw = "bom".toList ++ suffix.toList := by
  rw [enhancedName, hraw]

section

variable (h : suffixIssues suffix = [])

include h

theorem toList_suffix_ne_nil : suffix.toList ≠ [] :=
  mt String.toList_eq_nil_iff.mp (suffixIssues_eq_nil_iff.mp h).1

/-- With a suffix that passes the check the name stays one step of a path. -/
theorem isName_enhancedName (raw : String) : IsName (enhancedName suffix raw) := by
  have hslash : '/' ∉ suffix.toList := fun hmem => ((suffixIssues_eq_nil_iff.mp h).2 _ hmem).1 rfl
  cases hraw : fileName? raw.toList with
  | some name =>
      obtain ⟨stem, tail, hparted, henhanced⟩ := enhancedName_of_some suffix hraw
      rw [henhanced]
      exact hparted.isName (IsName.of_fileName? hraw) (toList_suffix_ne_nil h) hslash
  | none =>
      rw [enhancedName_of_none hraw]
      refine ⟨rfl, ?_, ?_⟩
      · exact fun hup => absurd (congrArg List.head? hup) (by simp)
      · rw [List.mem_append, not_or]
        exact ⟨by decide, hslash⟩

/-- The name of the reconciled BOM is not that of the generated one. -/
theorem fileName?_enhancedPath_ne (raw : String) :
    fileName? (enhancedPath suffix raw).toList ≠ fileName? raw.toList := by
  rw [toList_enhancedPath, FilePath.fileName?_withFileName _ (isName_enhancedName h raw)]
  cases hraw : fileName? raw.toList with
  | some name =>
      obtain ⟨stem, tail, hparted, henhanced⟩ := enhancedName_of_some suffix hraw
      have hlonger := hparted.length_lt (toList_suffix_ne_nil h)
      rw [henhanced]
      intro heq
      rw [Option.some.inj heq] at hlonger
      exact Nat.lt_irrefl _ hlonger
  | none => simp

/-- **By default a reconciled BOM is written to another file beside the generated one.** The two paths
differ, and not just in how they lead to one file. Where the path of the generated BOM has a name, the
other one has the same parent, and its name is longer by the suffix, which stands between the two parts
of that name; elsewhere the name is added behind the path. -/
theorem enhancedPath_beside (raw : String) :
    ¬ FilePath.Same (enhancedPath suffix raw) raw ∧ ¬ SameFile (enhancedPath suffix raw) raw ∧
    (∀ name, fileName? raw.toList = some name →
      components (parent (enhancedPath suffix raw).toList) = components (parent raw.toList) ∧
      ∃ stem tail, Parted name stem tail ∧
        fileName? (enhancedPath suffix raw).toList = some (stem ++ suffix.toList ++ tail) ∧
        name.length < (stem ++ suffix.toList ++ tail).length) ∧
    (fileName? raw.toList = none → components (enhancedPath suffix raw).toList =
      components raw.toList ++ [.name ("bom".toList ++ suffix.toList)]) := by
  have hname := isName_enhancedName h raw
  have hfile : ¬ SameFile (enhancedPath suffix raw) raw := fun hsame =>
    fileName?_enhancedPath_ne h raw hsame.fileName?_eq
  refine ⟨fun hsame => hfile (FilePath.same_iff.mp hsame).1, hfile, ?_, ?_⟩
  · intro name hraw
    obtain ⟨stem, tail, hparted, henhanced⟩ := enhancedName_of_some suffix hraw
    have hnamed := FilePath.fileName?_withFileName raw.toList hname
    rw [toList_enhancedPath]
    refine ⟨FilePath.components_parent_withFileName hraw hname, stem, tail, hparted, ?_,
      hparted.length_lt (toList_suffix_ne_nil h)⟩
    rw [hnamed, henhanced]
  · intro hraw
    rw [toList_enhancedPath, FilePath.components_withFileName_of_none hraw hname,
      enhancedName_of_none hraw]

end

/-- A suffix of dots, behind a name that begins and ends with one. -/
theorem enhancedPath_beside_dots :
    suffixIssues "." = [] ∧ enhancedPath "." "./out//.a../." = "./out/.a..." ∧
    fileName? "./out//.a../.".toList = some ".a..".toList ∧
    ¬ FilePath.Same (enhancedPath "." "./out//.a../.") "./out//.a../." := by
  have hsuffix : suffixIssues "." = [] := by decide
  exact ⟨hsuffix, by decide, by decide, (enhancedPath_beside hsuffix "./out//.a../.").1⟩

end BomAssembly.Settings
