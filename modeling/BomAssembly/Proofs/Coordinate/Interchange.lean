import BomAssembly.Proofs.Coordinate.Identity

/-!
# Coordinates that match exactly are interchangeable

A Maven coordinate may leave its packaging unsaid. Once it is said (`spelledOut`), exact matches are
equal coordinates, and nothing else is (`matchesExactly_iff_spelledOut`): the type, the classifier and
the other qualifiers, which are compared one by one, make up the whole map. A score looks at the
artifact and the version only, so neither side of it can tell a coordinate from an exact match.
-/

namespace BomAssembly.Coordinate

open Text (StringMap)

variable {a b c : Coordinate}

/-! ## The packaging that is meant -/

/-- The coordinate with its packaging among the qualifiers. -/
def spelledOut (c : Coordinate) : Coordinate :=
  match c.packaging with
  | some t => { c with qualifiers := c.qualifiers.insert "type" t }
  | none => c

theorem spelledOut_eq (c : Coordinate) :
    c.spelledOut = { c with qualifiers := c.spelledOut.qualifiers } := by
  unfold spelledOut
  cases c.packaging <;> rfl

theorem get?_spelledOut (c : Coordinate) (key : String) : c.spelledOut.qualifiers.get? key =
    if key = "type" then c.packaging else c.qualifiers.get? key := by
  unfold spelledOut
  cases hpackaging : c.packaging with
  | some t => exact StringMap.get?_insert key
  | none =>
      -- without a packaging there is no type either
      have htype : c.qualifiers.get? "type" = none := by
        unfold packaging at hpackaging
        split at hpackaging
        · exact absurd hpackaging (by simp)
        · assumption
      by_cases hkey : key = "type"
      · rw [if_pos hkey, hkey]
        exact htype
      · exact (if_neg hkey).symm

/-- The other qualifiers are the bindings of all other keys. -/
theorem extraQualifiers_eq_iff : a.extraQualifiers = b.extraQualifiers ↔
    ∀ key, key ≠ "type" → key ≠ "classifier" → a.qualifiers.get? key = b.qualifiers.get? key := by
  have hmem : ∀ (c : Coordinate) (e : String × String), e ∈ c.extraQualifiers ↔
      c.qualifiers.get? e.1 = some e.2 ∧ e.1 ≠ "type" ∧ e.1 ≠ "classifier" := by
    intro c e
    rw [extraQualifiers, List.mem_filter, StringMap.get?_eq_some_iff, decide_eq_true_iff]
  constructor
  · intro h key htype hclassifier
    apply Option.ext
    intro value
    have hiff : (key, value) ∈ a.extraQualifiers ↔ (key, value) ∈ b.extraQualifiers := by rw [h]
    rw [hmem, hmem] at hiff
    exact ⟨fun ha => (hiff.mp ⟨ha, htype, hclassifier⟩).1,
      fun hb => (hiff.mpr ⟨hb, htype, hclassifier⟩).1⟩
  · intro h
    refine Text.eq_of_mem_iff_of_ordered (a.qualifiers.sorted.filter _)
      (b.qualifiers.sorted.filter _) fun e => (hmem a e).trans (Iff.trans ?_ (hmem b e).symm)
    exact and_congr_left fun hother => by rw [h e.1 hother.1 hother.2]

/-- Type, classifier and the other qualifiers are all there is. -/
theorem qualifiers_spelledOut_eq_iff : a.spelledOut.qualifiers = b.spelledOut.qualifiers ↔
    a.packaging = b.packaging ∧ a.classifier = b.classifier ∧
      a.extraQualifiers = b.extraQualifiers := by
  rw [extraQualifiers_eq_iff]
  constructor
  · intro h
    have hget : ∀ key, (if key = "type" then a.packaging else a.qualifiers.get? key) =
        if key = "type" then b.packaging else b.qualifiers.get? key := by
      intro key
      rw [← get?_spelledOut, ← get?_spelledOut, h]
    have hother : ∀ key, key ≠ "type" → a.qualifiers.get? key = b.qualifiers.get? key := by
      intro key hkey
      have hkeyed := hget key
      rwa [if_neg hkey, if_neg hkey] at hkeyed
    exact ⟨by simpa using hget "type", hother "classifier" (by decide),
      fun key htype _ => hother key htype⟩
  · rintro ⟨hpackaging, hclassifier, hextra⟩
    refine StringMap.ext_get? fun key => ?_
    rw [get?_spelledOut, get?_spelledOut]
    by_cases htype : key = "type"
    · rw [if_pos htype, if_pos htype, hpackaging]
    · rw [if_neg htype, if_neg htype]
      by_cases hkey : key = "classifier"
      · exact hkey ▸ hclassifier
      · exact hextra key htype hkey

/-- **An exact match is equality, up to a packaging that goes without saying.** -/
theorem matchesExactly_iff_spelledOut : MatchesExactly a b ↔ a.spelledOut = b.spelledOut := by
  rw [spelledOut_eq a, spelledOut_eq b, Coordinate.mk.injEq, qualifiers_spelledOut_eq_iff]
  constructor
  · rintro ⟨⟨heco, hgroup, hname, hpackaging, hclassifier⟩, hversion, hpath, hextra⟩
    exact ⟨heco, hgroup, hname, hversion, ⟨hpackaging, hclassifier, hextra⟩, hpath⟩
  · rintro ⟨heco, hgroup, hname, hversion, ⟨hpackaging, hclassifier, hextra⟩, hpath⟩
    exact ⟨⟨heco, hgroup, hname, hpackaging, hclassifier⟩, hversion, hpath, hextra⟩

/-! ## Equivalences -/

theorem sameArtifact_equivalence : Equivalence SameArtifact := ⟨.refl, .symm, .trans⟩

theorem matchesExactly_equivalence : Equivalence MatchesExactly := ⟨.refl, .symm, .trans⟩

/-! ## Scores -/

namespace MatchesExactly

variable (h : MatchesExactly a b)

include h

theorem similarity_left (c : Coordinate) : a.similarity c = b.similarity c := by
  have hsame : SameArtifact a c ↔ SameArtifact b c :=
    ⟨h.sameArtifact.symm.trans, h.sameArtifact.trans⟩
  unfold similarity
  rw [h.2.1]
  exact if_congr hsame rfl rfl

theorem similarity_right (c : Coordinate) : c.similarity a = c.similarity b := by
  have hsame : SameArtifact c a ↔ SameArtifact c b :=
    ⟨fun hc => hc.trans h.sameArtifact, fun hc => hc.trans h.sameArtifact.symm⟩
  unfold similarity
  rw [h.2.1]
  exact if_congr hsame rfl rfl

theorem matchesExactly_iff (c : Coordinate) : MatchesExactly a c ↔ MatchesExactly b c :=
  ⟨h.symm.trans, h.trans⟩

end MatchesExactly

/-- **Exact matches are interchangeable.** Exact match is an equivalence, equality up to an unsaid
packaging, and finer than the equivalence of being of one artifact. No score and no match can tell
two exact matches apart, and the candidates without a score are those of another artifact. -/
theorem interchangeable : Equivalence SameArtifact ∧ Equivalence MatchesExactly ∧
    (∀ a b, MatchesExactly a b ↔ a.spelledOut = b.spelledOut) ∧
    (∀ a b, similarity a b = none ↔ ¬ SameArtifact a b) ∧
    ∀ a b, MatchesExactly a b → SameArtifact a b ∧ ∀ c,
      similarity a c = similarity b c ∧ similarity c a = similarity c b ∧
        (MatchesExactly a c ↔ MatchesExactly b c) := by
  refine ⟨sameArtifact_equivalence, matchesExactly_equivalence,
    fun _ _ => matchesExactly_iff_spelledOut, fun _ _ => similarity_eq_none_iff, ?_⟩
  intro a b h
  exact ⟨h.sameArtifact, fun c =>
    ⟨h.similarity_left c, h.similarity_right c, h.matchesExactly_iff c⟩⟩

/-- Saying that a library is a `jar` changes neither its matches nor its scores. -/
theorem interchangeable_jar :
    let unsaid : Coordinate := ⟨"maven", some "g", "a", some "1.0", .empty, none⟩
    let said : Coordinate := { unsaid with qualifiers := StringMap.empty.insert "type" "jar" }
    unsaid ≠ said ∧ MatchesExactly unsaid said ∧ ∀ c, unsaid.similarity c = said.similarity c := by
  intro unsaid said
  obtain ⟨-, -, hspelled, -, hrespected⟩ := interchangeable
  have hmatch : MatchesExactly unsaid said := (hspelled unsaid said).mpr (by decide)
  exact ⟨by decide, hmatch, fun c => ((hrespected unsaid said hmatch).2 c).1⟩

end BomAssembly.Coordinate
