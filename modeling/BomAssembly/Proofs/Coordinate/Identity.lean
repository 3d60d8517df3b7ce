import BomAssembly.Coordinate.Similarity
import BomAssembly.Proofs.Text.MapLookup

/-!
# Same artifact, exact match

Both relations are equivalences, and an exact match is finer than being of the same artifact. A
candidate has a score exactly when it is of the same artifact as what is declared, and no score is
greater than 6.
-/

namespace BomAssembly.Coordinate

variable {a b c : Coordinate}

/-! ## Same artifact -/

@[refl]
theorem SameArtifact.refl (a : Coordinate) : SameArtifact a a := ⟨rfl, rfl, rfl, rfl, rfl⟩

@[symm]
theorem SameArtifact.symm (h : SameArtifact a b) : SameArtifact b a := by
  obtain ⟨heco, hgroup, hname, hpackaging, hclassifier⟩ := h
  exact ⟨heco.symm, hgroup.symm, hname.symm, hpackaging.symm, hclassifier.symm⟩

theorem SameArtifact.trans (h : SameArtifact a b) (h' : SameArtifact b c) : SameArtifact a c := by
  obtain ⟨heco, hgroup, hname, hpackaging, hclassifier⟩ := h
  obtain ⟨heco', hgroup', hname', hpackaging', hclassifier'⟩ := h'
  exact ⟨heco.trans heco', hgroup.trans hgroup', hname.trans hname',
    hpackaging.trans hpackaging', hclassifier.trans hclassifier'⟩

/-! ## Exact match -/

@[refl]
theorem MatchesExactly.refl (a : Coordinate) : MatchesExactly a a := ⟨.refl a, rfl, rfl, rfl⟩

theorem MatchesExactly.sameArtifact (h : MatchesExactly a b) : SameArtifact a b := h.1

@[symm]
theorem MatchesExactly.symm (h : MatchesExactly a b) : MatchesExactly b a := by
  obtain ⟨hsame, hversion, hpath, hextra⟩ := h
  exact ⟨hsame.symm, hversion.symm, hpath.symm, hextra.symm⟩

theorem MatchesExactly.trans (h : MatchesExactly a b) (h' : MatchesExactly b c) :
    MatchesExactly a c := by
  obtain ⟨hsame, hversion, hpath, hextra⟩ := h
  obtain ⟨hsame', hversion', hpath', hextra'⟩ := h'
  exact ⟨hsame.trans hsame', hversion.trans hversion', hpath.trans hpath', hextra.trans hextra'⟩

/-! ## Maven coordinates -/

theorem version_maven (group artifact : String) (version packaging classifier : Option String) :
    (maven group artifact version packaging classifier).version = version.filter (· ≠ "") := rfl

theorem packaging_maven (group artifact : String) (version packaging classifier : Option String) :
    (maven group artifact version packaging classifier).packaging =
      some ((packaging.filter (· ≠ "")).getD defaultPackaging) := by
  unfold Coordinate.packaging maven
  cases classifier.filter (· ≠ "") with
  | none => simp
  | some c => simp [Text.StringMap.get?_insert_of_ne]

theorem classifier_maven (group artifact : String) (version packaging classifier : Option String) :
    (maven group artifact version packaging classifier).classifier =
      classifier.filter (· ≠ "") := by
  unfold Coordinate.classifier maven
  cases classifier.filter (· ≠ "") with
  | none => simp [Text.StringMap.get?_insert_of_ne]
  | some c => simp

/-! ## Comparable coordinates -/

theorem similarity_eq_some_iff {score : Nat} : a.similarity b = some score ↔
    SameArtifact a b ∧ versionSimilarity a.version b.version = score := by
  unfold similarity
  by_cases h : SameArtifact a b
  · simp [h]
  · simp [h]

theorem similarity_eq_none_iff : a.similarity b = none ↔ ¬ SameArtifact a b := by
  unfold similarity
  by_cases h : SameArtifact a b
  · simp [h]
  · simp [h]

/-- The weights together are the most that can be scored. -/
theorem agreement_le (ws : List Nat) (as bs : List (List Char)) :
    agreement ws as bs ≤ ws.foldr (· + ·) 0 := by
  fun_induction agreement ws as bs with
  | case1 w ws a as b bs _ ih =>
      rw [List.foldr_cons]
      exact Nat.add_le_add_left ih w
  | case2 => exact Nat.zero_le _
  | case3 => exact Nat.zero_le _

/-- No score is greater than that of versions that agree in three segments. -/
theorem versionSimilarity_le (v w : Option String) : versionSimilarity v w ≤ 6 := by
  unfold versionSimilarity
  split
  · exact agreement_le segmentWeights _ _
  · exact Nat.zero_le 6

end BomAssembly.Coordinate
