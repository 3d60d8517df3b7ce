import BomAssembly.Proofs.Reconcile.Completeness

/-!
# Reconciling a second time

A second pass looks at what the first one wrote: the copies are candidates now, and the counts are
others. It leaves everything alone exactly when it chooses nothing, that is when every declared
coordinate is represented or of no component's artifact (`chosen_eq_nil_iff`).

When all copies come back from their texts, they bring no new artifact, so what was skipped is skipped
again. A copy for a group with a segment `.` or `..` does not come back; it is made again each time.
-/

namespace BomAssembly.Reconcile

open Coordinate (SameArtifact MatchesExactly Declarable)

/-- Reconciling leaves the bill of materials as it is. -/
def Settled (m : Manifest) (b : Bom) : Prop :=
  (reconcile m b).1 = b ∧ (reconcile m b).2.added = []

/-! ## Choosing nothing -/

theorem choices_eq_nil_iff {cs : List (Component × Coordinate)} {present ds : List Coordinate} :
    choices cs present ds = [] ↔
      ∀ d ∈ ds, (∃ k ∈ present, k.MatchesExactly d) ∨ bestCandidate d cs = none := by
  induction ds with
  | nil => simp [choices]
  | cons d ds ih =>
      rw [choices, List.forall_mem_cons]
      by_cases hpresent : present.any fun k => decide (k.MatchesExactly d)
      · have hmatch : ∃ k ∈ present, k.MatchesExactly d := by simpa using hpresent
        rw [if_pos hpresent, ih]
        exact ⟨fun h => ⟨.inl hmatch, h⟩, And.right⟩
      · have hnot : ¬ ∃ k ∈ present, k.MatchesExactly d := by simpa using hpresent
        rw [if_neg hpresent]
        cases hbest : bestCandidate d cs with
        | none =>
            rw [ih]
            exact ⟨fun h => ⟨.inr rfl, h⟩, And.right⟩
        | some best =>
            constructor
            · exact fun h => absurd h (by simp)
            · rintro ⟨h | h, -⟩
              · exact absurd h hnot
              · exact absurd h (by simp)

section

variable {m : Manifest} {b : Bom}

theorem chosen_eq_nil_iff :
    chosen m b = [] ↔ ∀ d ∈ m.dependencies, Represented b d ∨ ¬ Eligible b d := by
  rw [chosen, choices_eq_nil_iff]
  simp only [bestCandidate_candidates_eq_none_iff]
  rfl

theorem settled_of_eq (h : m.size = b.components.length) : Settled m b := by
  rw [Settled, reconcile_of_eq h]
  exact ⟨rfl, rfl⟩

theorem settled_iff_of_ne (h : m.size ≠ b.components.length) : Settled m b ↔ chosen m b = [] := by
  have hmade := run_made m b
  rw [Settled, reconcile_of_ne h]
  constructor
  · rintro ⟨-, hadded⟩
    rw [hmade.added] at hadded
    exact List.map_eq_nil_iff.mp hadded
  · intro hnil
    rw [hnil] at hmade
    exact ⟨hmade.bom, hmade.added⟩

/-! ## After a pass -/

theorem Eligible.run {d : Coordinate} (h : Eligible b d) : Eligible (run m b).bom d := by
  obtain ⟨k, hk, hsame⟩ := h
  refine ⟨k, ?_, hsame⟩
  rw [coordinates_eq, components_run, List.filterMap_append, ← coordinates_eq]
  exact List.mem_append_left _ hk

/-- Copies that come back from their texts make nothing eligible that was not. -/
theorem Eligible.of_run (hm : ∀ d ∈ m.dependencies, d.Declarable)
    (hback : ∀ c ∈ chosen m b, c.declared.DotFree) {d : Coordinate}
    (h : Eligible (Reconcile.run m b).bom d) : Eligible b d := by
  obtain ⟨k, hk, hsame⟩ := h
  rw [coordinates_run hm] at hk
  rcases List.mem_append.mp hk with hk | hk
  · exact ⟨k, hk, hsame⟩
  · obtain ⟨c, hc, rfl⟩ := List.mem_map.mp hk
    obtain ⟨hmem, hsource⟩ := of_mem_chosen hc
    have hcanonical := hsource.canonical (hm c.declared hmem)
    rw [Coordinate.undotted_of_dotFree hcanonical (hback c hc)] at hsame
    exact hsource.of_sameArtifact hsame

theorem not_represented_of_mem_chosen {c : Choice} (h : c ∈ chosen m b) :
    ¬ Represented b c.declared := by
  rintro ⟨k, hk, hmatch⟩
  exact not_matched_of_mem_choices h k hk hmatch

/-- **When a second pass chooses nothing.** -/
theorem chosen_run_eq_nil_iff (hm : ∀ d ∈ m.dependencies, d.Declarable) :
    chosen m (run m b).bom = [] ↔
      ∀ d ∈ m.dependencies, d.DotFree ∨ Represented b d ∨ ¬ Eligible b d := by
  rw [chosen_eq_nil_iff]
  constructor
  · intro h d hd
    by_cases heligible : Eligible b d
    · rcases h d hd with hrep | hnot
      · rcases hrep.of_run hm with hrep | hdots
        · exact .inr (.inl hrep)
        · exact .inl hdots
      · exact absurd heligible.run hnot
    · exact .inr (.inr heligible)
  · intro h d hd
    have hback : ∀ c ∈ chosen m b, c.declared.DotFree := by
      intro c hc
      obtain ⟨hmem, hsource⟩ := of_mem_chosen hc
      rcases h c.declared hmem with hdots | hrep | hnot
      · exact hdots
      · exact absurd hrep (not_represented_of_mem_chosen hc)
      · exact absurd hsource hnot
    by_cases heligible : Eligible b d
    · refine .inl ?_
      rcases h d hd with hdots | hrep | hnot
      · exact represented_run_of_dotFree hm hd heligible hdots
      · exact hrep.run
      · exact absurd heligible hnot
    · exact .inr fun hrun => heligible (hrun.of_run hm hback)

theorem settled_reconcile_of_declarable (hm : ∀ d ∈ m.dependencies, d.Declarable) :
    Settled m (reconcile m b).1 ↔ m.size = b.components.length ∨
      m.size = (reconcile m b).1.components.length ∨
      ∀ d ∈ m.dependencies, d.DotFree ∨ Represented b d ∨ ¬ Eligible b d := by
  -- equal counts end a pass before it looks at anything, the first one as well as the second
  by_cases hfirst : m.size = b.components.length
  · have hsame : (reconcile m b).1 = b := by rw [reconcile_of_eq hfirst]
    rw [hsame]
    exact ⟨fun _ => .inl hfirst, fun _ => settled_of_eq hfirst⟩
  · have hrun : (reconcile m b).1 = (run m b).bom := by rw [reconcile_of_ne hfirst]
    rw [hrun, ← chosen_run_eq_nil_iff hm]
    by_cases hsecond : m.size = (run m b).bom.components.length
    · exact ⟨fun _ => .inr (.inl hsecond), fun _ => settled_of_eq hsecond⟩
    · rw [settled_iff_of_ne hsecond]
      simp [hfirst, hsecond]

/-- **Exactly when a second time changes nothing**: when either pass finds the counts equal, or every
declared coordinate is free of dots, was matched before, or is of no component's artifact. -/
theorem settled_reconcile_iff {kind : Manifest.Kind} {content : String}
    (hm : Manifest.parseAs kind content = .ok m) :
    Settled m (reconcile m b).1 ↔ m.size = b.components.length ∨
      m.size = (reconcile m b).1.components.length ∨
      ∀ d ∈ m.dependencies, d.DotFree ∨ Represented b d ∨ ¬ Eligible b d := by
  exact settled_reconcile_of_declarable (Manifest.declarable_of_parseAs hm)

theorem settled_reconcile_iff_dotted :
    Manifest.parseAs .coordinateList dottedList = .ok dottedManifest ∧
    (Settled dottedManifest (reconcile dottedManifest dottedBom).1 ↔
      dottedManifest.size = dottedBom.components.length ∨
      dottedManifest.size = (reconcile dottedManifest dottedBom).1.components.length ∨
      ∀ d ∈ dottedManifest.dependencies,
        d.DotFree ∨ Represented dottedBom d ∨ ¬ Eligible dottedBom d) :=
  ⟨parseAs_dottedList, settled_reconcile_iff parseAs_dottedList⟩

/-- The second pass makes the copy once more. -/
theorem not_settled_dotted :
    Manifest.parseAs .coordinateList dottedList = .ok dottedManifest ∧
    Bom.parse true dottedDocument = .ok dottedBom ∧
    ¬ Settled dottedManifest (reconcile dottedManifest dottedBom).1 := by
  refine ⟨parseAs_dottedList, parse_dottedDocument, ?_⟩
  have hdeclared := Manifest.declarable_of_parseAs parseAs_dottedList
  have hcount := (addsUp_of_ne (show dottedManifest.size ≠ dottedBom.components.length by decide))
  have hafter : dottedBom.components.length ≤
      (reconcile dottedManifest dottedBom).1.components.length := by
    rw [← hcount.result, hcount.components]
    omega
  have htwo : dottedBom.components.length = 2 := rfl
  have hone : dottedManifest.size = 1 := rfl
  -- the counts differ before each pass, and the copy does not come back from its text
  rw [settled_reconcile_of_declarable hdeclared]
  rintro (h | h | h)
  · omega
  · omega
  · revert h
    unfold Represented Eligible
    rw [coordinates_dottedBom]
    decide

end

end BomAssembly.Reconcile
