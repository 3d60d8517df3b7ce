import BomAssembly.Proofs.Coordinate.Identity
import BomAssembly.Reconcile

/-!
# What a pass over a bill of materials chooses

A pass looks at one declared coordinate after the other. It adds a copy when nothing that is present
matches the coordinate and some candidate is of its artifact; whatever was added is present from then
on. `choices` lists the copies that this makes, and every field of the pass is told by that list
(`run_made`, `run_skipped`): later facts are inductions over `choices`, not over the pass.

A declared coordinate is skipped exactly when no candidate is of its artifact. That it was not
present needs no asking: all that is present is of the artifact of some candidate.
-/

namespace BomAssembly.Reconcile

open Coordinate (SameArtifact MatchesExactly)

/-- The coordinates of the components that have one. -/
def coordinates (b : Bom) : List Coordinate := (candidates b).map Prod.snd

/-- Some component is of the artifact. -/
def Eligible (b : Bom) (d : Coordinate) : Prop := ∃ k ∈ coordinates b, SameArtifact d k

/-- Some component matches the coordinate exactly. -/
def Represented (b : Bom) (d : Coordinate) : Prop := ∃ k ∈ coordinates b, MatchesExactly k d

instance (b : Bom) (d : Coordinate) : Decidable (Eligible b d) := by
  unfold Eligible
  infer_instance

instance (b : Bom) (d : Coordinate) : Decidable (Represented b d) := by
  unfold Represented
  infer_instance

/-- A copy that is made for a declared coordinate. -/
structure Choice where
  declared : Coordinate
  source : Component
  score : Nat

namespace Choice

/-- The component that is added. -/
def clone (c : Choice) : Component := c.source.cloneAs c.declared

/-- What is reported. -/
def addition (c : Choice) : Addition := ⟨c.declared.render, sourceName c.source, c.score⟩

/-- Make the copy. -/
def addTo (root : Option String) (b : Bom) (c : Choice) : Bom :=
  addComponent b c.clone c.declared.render root

end Choice

/-- The copies that are made for what is declared, when some coordinates are present. -/
def choices (cs : List (Component × Coordinate)) :
    List Coordinate → List Coordinate → List Choice
  | _, [] => []
  | present, d :: ds =>
    if present.any fun k => decide (k.MatchesExactly d) then choices cs present ds
    else match bestCandidate d cs with
      | none => choices cs present ds
      | some (source, score) => ⟨d, source, score⟩ :: choices cs (present ++ [d]) ds

/-! ## The best candidate -/

section Best

variable {d : Coordinate} {cs : List (Component × Coordinate)} {best : Option (Component × Nat)}

theorem foldl_better_eq_none_iff : cs.foldl (better d) best = none ↔
    best = none ∧ ∀ c ∈ cs, ¬ SameArtifact d c.2 := by
  induction cs generalizing best with
  | nil => simp
  | cons c cs ih =>
      rw [List.foldl_cons, ih, List.forall_mem_cons]
      unfold better
      cases hsim : d.similarity c.2 with
      | none => simp [Coordinate.similarity_eq_none_iff.mp hsim]
      | some score =>
          have hsame := (Coordinate.similarity_eq_some_iff.mp hsim).1
          cases best with
          | none => simp [hsame]
          | some s => simp only [hsame]; split <;> simp

theorem bestCandidate_eq_none_iff :
    bestCandidate d cs = none ↔ ∀ c ∈ cs, ¬ SameArtifact d c.2 := by
  rw [bestCandidate, foldl_better_eq_none_iff]
  simp

end Best

theorem bestCandidate_candidates_eq_none_iff {b : Bom} {d : Coordinate} :
    bestCandidate d (candidates b) = none ↔ ¬ Eligible b d := by
  rw [bestCandidate_eq_none_iff, Eligible, coordinates]
  constructor
  · rintro h ⟨k, hk, hsame⟩
    obtain ⟨c, hc, rfl⟩ := List.mem_map.mp hk
    exact h c hc hsame
  · exact fun h c hc hsame => h ⟨c.2, List.mem_map_of_mem hc, hsame⟩

theorem eligible_of_bestCandidate {b : Bom} {d : Coordinate} {best : Component × Nat}
    (h : bestCandidate d (candidates b) = some best) : Eligible b d := by
  refine Decidable.byContradiction fun hnot => ?_
  rw [bestCandidate_candidates_eq_none_iff.mpr hnot] at h
  exact absurd h (by simp)

theorem Eligible.of_sameArtifact {b : Bom} {d e : Coordinate} (h : Eligible b d)
    (hsame : SameArtifact e d) : Eligible b e := by
  obtain ⟨k, hk, hdk⟩ := h
  exact ⟨k, hk, hsame.trans hdk⟩

/-! ## A pass, told by its choices -/

section Pass

variable {b : Bom}

/-- What lies between two stands of a pass is these copies, for this many declared coordinates. -/
structure Pass.Made (b : Bom) (p q : Pass) (n : Nat) (cs : List Choice) : Prop where
  bom : q.bom = cs.foldl (Choice.addTo b.rootRef) p.bom
  present : q.present = p.present ++ cs.map Choice.declared
  added : q.added = p.added ++ cs.map Choice.addition
  /-- Every declared coordinate is counted once. -/
  count : q.matched + q.added.length + q.skipped.length =
    p.matched + p.added.length + p.skipped.length + n

theorem foldl_step_made (ds : List Coordinate) (p : Pass) :
    p.Made b (ds.foldl (Pass.step b) p) ds.length (choices (candidates b) p.present ds) := by
  induction ds generalizing p with
  | nil => exact ⟨rfl, (List.append_nil _).symm, (List.append_nil _).symm, rfl⟩
  | cons d ds ih =>
      have hrest := ih (p.step b d)
      rw [List.foldl_cons]
      generalize ds.foldl (Pass.step b) (p.step b d) = q at hrest
      -- the coordinate is present, or it has no candidate, or a copy is made for it
      by_cases hpresent : p.present.any fun k => decide (k.MatchesExactly d)
      · rw [Pass.step, if_pos hpresent] at hrest
        rw [choices, if_pos hpresent]
        refine ⟨hrest.bom, hrest.present, hrest.added, ?_⟩
        have hcount := hrest.count
        simp only [List.length_cons] at hcount ⊢
        omega
      · rw [Pass.step, if_neg hpresent] at hrest
        rw [choices, if_neg hpresent]
        cases hbest : bestCandidate d (candidates b) with
        | none =>
            rw [hbest] at hrest
            refine ⟨hrest.bom, hrest.present, hrest.added, ?_⟩
            have hcount := hrest.count
            simp only [List.length_cons, List.length_append, List.length_nil] at hcount ⊢
            omega
        | some best =>
            rw [hbest] at hrest
            refine ⟨hrest.bom, ?_, ?_, ?_⟩
            · rw [hrest.present, List.append_assoc]
              rfl
            · rw [hrest.added, List.append_assoc]
              rfl
            · have hcount := hrest.count
              simp only [List.length_cons, List.length_append, List.length_nil] at hcount ⊢
              omega

/-- The copies that the whole pass makes. -/
def chosen (m : Manifest) (b : Bom) : List Choice :=
  choices (candidates b) (coordinates b) m.dependencies

/-- **The choices tell what a pass does.** -/
theorem run_made (m : Manifest) (b : Bom) :
    (Pass.start b).Made b (run m b) m.size (chosen m b) :=
  foldl_step_made m.dependencies (Pass.start b)

/-- All that is present is of the artifact of some candidate. -/
def Pass.Covered (b : Bom) (p : Pass) : Prop := ∀ k ∈ p.present, Eligible b k

theorem covered_start (b : Bom) : (Pass.start b).Covered b := fun k hk => ⟨k, hk, .refl k⟩

theorem Pass.Covered.step {p : Pass} (h : p.Covered b) (d : Coordinate) :
    (p.step b d).Covered b ∧ (p.step b d).skipped = p.skipped ++
      if Eligible b d then [] else [⟨d.render, noCandidate⟩] := by
  unfold Pass.step
  split
  · next hpresent =>
    -- what is present is of some candidate's artifact, and so is what it matches
    obtain ⟨k, hk, hmatch⟩ := List.any_eq_true.mp hpresent
    have heligible : Eligible b d :=
      (h k hk).of_sameArtifact (of_decide_eq_true hmatch).sameArtifact.symm
    exact ⟨h, by rw [if_pos heligible, List.append_nil]⟩
  · cases hbest : bestCandidate d (candidates b) with
    | none =>
        exact ⟨h, by rw [if_neg (bestCandidate_candidates_eq_none_iff.mp hbest)]⟩
    | some best =>
        have heligible := eligible_of_bestCandidate hbest
        refine ⟨?_, by rw [if_pos heligible, List.append_nil]⟩
        intro k hk
        rcases List.mem_append.mp hk with hk | hk
        · exact h k hk
        · exact List.mem_singleton.mp hk ▸ heligible

theorem Pass.Covered.foldl {p : Pass} (h : p.Covered b) (ds : List Coordinate) :
    (ds.foldl (Pass.step b) p).skipped = p.skipped ++
      (ds.filter fun d => ¬ Eligible b d).map fun d => ⟨d.render, noCandidate⟩ := by
  induction ds generalizing p with
  | nil => exact (List.append_nil _).symm
  | cons d ds ih =>
      obtain ⟨hcovered, hskipped⟩ := h.step d
      rw [List.foldl_cons, ih hcovered, hskipped, List.append_assoc]
      by_cases heligible : Eligible b d
      · simp [heligible]
      · simp [heligible]

/-- **Skipped is what no component is of the artifact of.** -/
theorem run_skipped (m : Manifest) (b : Bom) : (run m b).skipped =
    (m.dependencies.filter fun d => ¬ Eligible b d).map fun d => ⟨d.render, noCandidate⟩ :=
  (covered_start b).foldl m.dependencies

end Pass

/-! ## The components of the result -/

@[simp] theorem components_addComponent (b : Bom) (c : Component) (ref : String)
    (root : Option String) : (addComponent b c ref root).components = b.components ++ [c] := by
  unfold addComponent
  cases root <;> rfl

theorem components_foldl_addTo (root : Option String) (cs : List Choice) (b : Bom) :
    (cs.foldl (Choice.addTo root) b).components = b.components ++ cs.map Choice.clone := by
  induction cs generalizing b with
  | nil => exact (List.append_nil _).symm
  | cons c cs ih =>
      rw [List.foldl_cons, ih, Choice.addTo, components_addComponent, List.append_assoc]
      rfl

theorem components_run (m : Manifest) (b : Bom) :
    (run m b).bom.components = b.components ++ (chosen m b).map Choice.clone := by
  rw [(run_made m b).bom]
  exact components_foldl_addTo _ _ _

theorem coordinates_eq (b : Bom) : coordinates b = b.components.filterMap Component.coordinate := by
  rw [coordinates, candidates, List.map_filterMap]
  refine congrArg (List.filterMap · b.components) (funext fun c => ?_)
  rw [Option.map_map]
  exact Option.map_id'

/-! ## What is chosen -/

section Chosen

variable {cs : List (Component × Coordinate)} {present ds : List Coordinate}

/-- A copy is made for a declared coordinate, of the best candidate for it. -/
theorem of_mem_choices {c : Choice} (h : c ∈ choices cs present ds) :
    c.declared ∈ ds ∧ bestCandidate c.declared cs = some (c.source, c.score) := by
  induction ds generalizing present with
  | nil => exact absurd h List.not_mem_nil
  | cons d ds ih =>
      have hrest : ∀ {present}, c ∈ choices cs present ds →
          c.declared ∈ d :: ds ∧ bestCandidate c.declared cs = some (c.source, c.score) :=
        fun hc => ⟨List.mem_cons_of_mem _ (ih hc).1, (ih hc).2⟩
      rw [choices] at h
      split at h
      · exact hrest h
      · split at h
        · exact hrest h
        · next source score hbest =>
          rcases List.mem_cons.mp h with h | h
          · subst h
            exact ⟨List.mem_cons_self, hbest⟩
          · exact hrest h

/-- Whatever has a candidate is matched in the end, by what was present or by what was added. -/
theorem matched_of_mem {d : Coordinate} (hd : d ∈ ds) (hbest : bestCandidate d cs ≠ none) :
    ∃ k ∈ present ++ (choices cs present ds).map Choice.declared, k.MatchesExactly d := by
  induction ds generalizing present with
  | nil => exact absurd hd List.not_mem_nil
  | cons e ds ih =>
      rw [choices]
      rcases List.mem_cons.mp hd with hd | hd
      · subst hd
        split
        · next hpresent =>
          obtain ⟨k, hk, hmatch⟩ := List.any_eq_true.mp hpresent
          exact ⟨k, List.mem_append_left _ hk, of_decide_eq_true hmatch⟩
        · split
          · next hnone => exact absurd hnone hbest
          · exact ⟨d, List.mem_append_right _ List.mem_cons_self, .refl d⟩
      · split
        · exact ih hd
        · split
          · exact ih hd
          · -- what is added on the way is present for those that follow
            obtain ⟨k, hk, hmatch⟩ := @ih (present ++ [e]) hd
            exact ⟨k, by simpa using hk, hmatch⟩

/-- Nothing is added that was present. -/
theorem not_matched_of_mem_choices {c : Choice} (h : c ∈ choices cs present ds) :
    ∀ k ∈ present, ¬ k.MatchesExactly c.declared := by
  induction ds generalizing present with
  | nil => exact absurd h List.not_mem_nil
  | cons d ds ih =>
      rw [choices] at h
      split at h
      · exact ih h
      · next hpresent =>
        split at h
        · exact ih h
        · rcases List.mem_cons.mp h with h | h
          · subst h
            intro k hk hmatch
            exact hpresent (List.any_eq_true.mpr ⟨k, hk, decide_eq_true hmatch⟩)
          · exact fun k hk => ih h k (List.mem_append_left _ hk)

end Chosen

end BomAssembly.Reconcile
