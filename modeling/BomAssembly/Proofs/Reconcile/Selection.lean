import BomAssembly.Proofs.Reconcile.DeclarationOrder

/-!
# What is selected

A pass selects twice: among the declared coordinates those that get a copy, and for each of these the
component that is copied.

* A declared coordinate gets a copy if no component matches it, some component is of its artifact, and
  none that got a copy before matches it. The last condition speaks of earlier places only, so the
  places are determined one after the other (`Selected.unique`).
* The component is the earliest of those with the greatest score. Each step of the search compares the
  best component so far with one more, so the induction is on the components from the last one on
  (`firstBest_of_bestCandidate`).
-/

namespace BomAssembly.Reconcile

open Coordinate (SameArtifact MatchesExactly)

/-! ## The earliest of the best -/

/-- The earliest member with the greatest score; members without a score do not compete. -/
def FirstBest {α : Type} (score : α → Option Nat) (xs : List α) (x : α) (s : Nat) : Prop :=
  ∃ before after, xs = before ++ x :: after ∧ score x = some s ∧
    (∀ y ∈ before, ∀ t, score y = some t → t < s) ∧ ∀ y ∈ after, ∀ t, score y = some t → t ≤ s

namespace FirstBest

variable {α β : Type} {score : α → Option Nat} {xs : List α} {x y : α} {s t : Nat}

theorem score_eq (h : FirstBest score xs x s) : score x = some s := by
  obtain ⟨before, after, -, hscore, -⟩ := h
  exact hscore

theorem le (h : FirstBest score xs x s) (hy : y ∈ xs) (ht : score y = some t) : t ≤ s := by
  obtain ⟨before, after, rfl, hscore, hbefore, hafter⟩ := h
  rcases List.mem_append.mp hy with hy | hy
  · exact Nat.le_of_lt (hbefore y hy t ht)
  · rcases List.mem_cons.mp hy with rfl | hy
    · exact Nat.le_of_eq (Option.some.inj (ht.symm.trans hscore))
    · exact hafter y hy t ht

/-- One more that is not better changes nothing. -/
theorem concat (h : FirstBest score xs x s) (hy : ∀ t, score y = some t → t ≤ s) :
    FirstBest score (xs ++ [y]) x s := by
  obtain ⟨before, after, rfl, hscore, hbefore, hafter⟩ := h
  refine ⟨before, after ++ [y], by simp, hscore, hbefore, ?_⟩
  intro z hz
  rcases List.mem_append.mp hz with hz | hz
  · exact hafter z hz
  · rw [List.mem_singleton.mp hz]
    exact hy

/-- One more that is better than all is the best. -/
theorem of_lt (hscore : score x = some s) (h : ∀ y ∈ xs, ∀ t, score y = some t → t < s) :
    FirstBest score (xs ++ [x]) x s :=
  ⟨xs, [], rfl, hscore, h, fun _ hy => absurd hy List.not_mem_nil⟩

/-- The best of what is derived from some members is derived from the best of all members, since the
others have no score. -/
theorem of_filterMap {ys : List β} {f : β → Option α} (h : FirstBest score (ys.filterMap f) x s) :
    ∃ y, f y = some x ∧ FirstBest (fun y => (f y).bind score) ys y s := by
  obtain ⟨before, after, heq, hscore, hbefore, hafter⟩ := h
  obtain ⟨front, rest, rfl, rfl, hrest⟩ := List.filterMap_eq_append_iff.mp heq
  obtain ⟨idle, y, back, rfl, hidle, hy, rfl⟩ := List.filterMap_eq_cons_iff.mp hrest
  -- what nothing is derived from stands between the members that compete
  refine ⟨y, hy, front ++ idle, back, by simp, ?_, ?_, ?_⟩
  · show (f y).bind score = some s
    rw [hy]
    exact hscore
  · intro z hz t ht
    obtain ⟨a, ha, ht⟩ := Option.bind_eq_some_iff.mp ht
    rcases List.mem_append.mp hz with hz | hz
    · exact hbefore a (List.mem_filterMap.mpr ⟨z, hz, ha⟩) t ht
    · exact absurd (ha.symm.trans (hidle z hz)) (by simp)
  · intro z hz t ht
    obtain ⟨a, ha, ht⟩ := Option.bind_eq_some_iff.mp ht
    exact hafter a (List.mem_filterMap.mpr ⟨z, hz, ha⟩) t ht

end FirstBest

/-! ## The component that is copied -/

/-- The score of a component for a declared coordinate, if its package URL can be read and it is of
the artifact. -/
def scoreOf (d : Coordinate) (c : Component) : Option Nat := c.coordinate.bind d.similarity

section Source

variable {b : Bom} {d : Coordinate} {cs : List (Component × Coordinate)} {source : Component}
  {score : Nat}

theorem firstBest_of_bestCandidate (h : bestCandidate d cs = some (source, score)) :
    ∃ k, FirstBest (fun e => d.similarity e.2) cs (source, k) score := by
  induction cs using List.reverseRecOn generalizing source score with
  | nil => exact absurd h (by simp [bestCandidate])
  | append_singleton cs e ih =>
      have hstep : bestCandidate d (cs ++ [e]) = better d (bestCandidate d cs) e := by
        simp [bestCandidate]
      rw [hstep] at h
      unfold better at h
      cases hsim : d.similarity e.2 with
      | none =>
          rw [hsim] at h
          obtain ⟨k, hk⟩ := ih h
          exact ⟨k, hk.concat fun t ht => absurd (hsim.symm.trans ht) (by simp)⟩
      | some new =>
          rw [hsim] at h
          cases hbest : bestCandidate d cs with
          | none =>
              -- the first one that has a score
              rw [hbest] at h
              obtain ⟨rfl, rfl⟩ := Prod.mk.inj (Option.some.inj h)
              have hnone := bestCandidate_eq_none_iff.mp hbest
              refine ⟨e.2, .of_lt hsim fun y hy t ht => ?_⟩
              exact absurd (Coordinate.similarity_eq_some_iff.mp ht).1 (hnone y hy)
          | some best =>
              obtain ⟨k, hk⟩ := ih hbest
              rw [hbest] at h
              dsimp only at h
              split at h
              · next hlt =>
                obtain ⟨rfl, rfl⟩ := Prod.mk.inj (Option.some.inj h)
                refine ⟨e.2, .of_lt hsim fun y hy t ht => ?_⟩
                exact Nat.lt_of_le_of_lt (hk.le hy ht) hlt
              · next hle =>
                obtain ⟨rfl, rfl⟩ := Prod.mk.inj (Option.some.inj h)
                refine ⟨k, hk.concat fun t ht => ?_⟩
                rw [← Option.some.inj (hsim.symm.trans ht)]
                exact Nat.not_lt.mp hle

/-- **The component that is copied is the earliest of the best.** -/
theorem firstBest_of_candidates (h : bestCandidate d (candidates b) = some (source, score)) :
    FirstBest (scoreOf d) b.components source score := by
  obtain ⟨k, hk⟩ := firstBest_of_bestCandidate h
  obtain ⟨c, hc, hbest⟩ := hk.of_filterMap
  obtain ⟨k', -, heq⟩ := Option.map_eq_some_iff.mp hc
  obtain rfl : c = source := (Prod.mk.inj heq).1
  have hscore : (fun c : Component => (c.coordinate.map fun k => (c, k)).bind
      fun e => d.similarity e.2) = scoreOf d := by
    funext c
    rw [Option.bind_map]
    rfl
  rw [hscore] at hbest
  exact hbest

theorem score_le {c : Component} (h : scoreOf d c = some score) : score ≤ 6 := by
  obtain ⟨k, -, hk⟩ := Option.bind_eq_some_iff.mp h
  rw [← (Coordinate.similarity_eq_some_iff.mp hk).2]
  exact Coordinate.versionSimilarity_le d.version k.version

end Source

/-! ## The coordinates that get a copy -/

/-- These are the places of the wanted members that no selected member before them matches. -/
structure Selected (Wanted : Coordinate → Prop) (ds : List Coordinate) (places : List Nat) :
    Prop where
  ordered : places.Pairwise (· < ·)
  mem_iff : ∀ i, i ∈ places ↔ ∃ d, ds[i]? = some d ∧ Wanted d ∧
    ∀ j ∈ places, j < i → ∀ e, ds[j]? = some e → ¬ MatchesExactly e d

section Selected

variable {Wanted : Coordinate → Prop} {cs : List (Component × Coordinate)}
  {present ds : List Coordinate} {d : Coordinate} {places others : List Nat}

/-- **There is one selection at most.** -/
theorem Selected.unique (h : Selected Wanted ds places) (h' : Selected Wanted ds others) :
    places = others := by
  have hmem : ∀ i, i ∈ places ↔ i ∈ others := by
    intro i
    induction i using Nat.strongRecOn with
    | ind i ih =>
        rw [h.mem_iff, h'.mem_iff]
        refine exists_congr fun d => and_congr_right fun _ => and_congr_right fun _ => ?_
        -- whether a place is selected hangs on the places before it
        exact ⟨fun hall j hj hlt => hall j ((ih j hlt).mpr hj) hlt,
          fun hall j hj hlt => hall j ((ih j hlt).mp hj) hlt⟩
  have hnodup := h.ordered.imp (@Nat.ne_of_lt)
  have hnodup' := h'.ordered.imp (@Nat.ne_of_lt)
  have hperm : places.Perm others := (List.perm_ext_iff_of_nodup hnodup hnodup').mpr hmem
  have hasymm : ∀ i j, i ∈ places → j ∈ others → i < j → j < i → i = j :=
    fun _ _ _ _ hij hji => absurd hij (Nat.lt_asymm hji)
  exact hperm.eq_of_pairwise hasymm h.ordered h'.ordered

/-- A coordinate that is not wanted moves the places by one. -/
theorem Selected.cons_of_not (h : Selected Wanted ds places) (hd : ¬ Wanted d) :
    Selected Wanted (d :: ds) (places.map (· + 1)) := by
  refine ⟨List.pairwise_map.mpr (h.ordered.imp Nat.succ_lt_succ), fun i => ?_⟩
  cases i with
  | zero => simp [hd]
  | succ i => simp [h.mem_iff i]

/-- One that is wanted is selected, and what it matches is not wanted any more. -/
theorem Selected.cons_of_wanted (h : Selected (fun e => Wanted e ∧ ¬ MatchesExactly d e) ds places)
    (hd : Wanted d) : Selected Wanted (d :: ds) (0 :: places.map (· + 1)) := by
  refine ⟨?_, fun i => ?_⟩
  · refine List.pairwise_cons.mpr ⟨?_, List.pairwise_map.mpr (h.ordered.imp Nat.succ_lt_succ)⟩
    intro i hi
    obtain ⟨j, -, rfl⟩ := List.mem_map.mp hi
    exact Nat.succ_pos j
  · cases i with
    | zero => simp [hd]
    | succ i => simp [h.mem_iff i, and_assoc]

/-- **A pass makes its copies at the selected places.** -/
theorem exists_selected (cs : List (Component × Coordinate)) (present ds : List Coordinate) :
    ∃ places, Selected (fun d => ¬ PassedBy cs present d) ds places ∧
      places.map (ds[·]?) = (choices cs present ds).map fun c => some c.declared := by
  induction ds generalizing present with
  | nil => exact ⟨[], ⟨.nil, by simp⟩, rfl⟩
  | cons d ds ih =>
      by_cases hd : PassedBy cs present d
      · obtain ⟨places, hselected, hdeclared⟩ := ih present
        refine ⟨places.map (· + 1), hselected.cons_of_not (not_not_intro hd), ?_⟩
        rw [choices_of_passedBy hd, ← hdeclared, List.map_map]
        rfl
      · obtain ⟨source, score, -, hchoices⟩ := choices_of_not_passedBy hd
        obtain ⟨places, hselected, hdeclared⟩ := ih (present ++ [d])
        refine ⟨0 :: places.map (· + 1), ?_, ?_⟩
        · refine Selected.cons_of_wanted ?_ hd
          simpa only [passedBy_concat_iff, not_or, and_comm] using hselected
        · rw [hchoices, List.map_cons, List.map_cons, ← hdeclared, List.map_map]
          rfl

/-- No component matches the coordinate, and some component is of its artifact. -/
def Lacking (b : Bom) (d : Coordinate) : Prop := ¬ Represented b d ∧ Eligible b d

theorem not_passedBy_iff {b : Bom} :
    ¬ PassedBy (candidates b) (coordinates b) d ↔ Lacking b d := by
  unfold PassedBy
  rw [not_or, bestCandidate_candidates_eq_none_iff, not_not]
  rfl

end Selected

/-! ## The result -/

/-- A component that goes by the coordinate, as which it has a version of its own and no hashes, and
that is described as the other one is. -/
structure IsCopy (source : Component) (d : Coordinate) (copy : Component) : Prop where
  bomRef : copy.bomRef = some d.render
  purl : copy.purl = some d.render
  version : copy.version = d.version
  hashes : copy.hashes = none
  extra : copy.extra = []
  described : { copy with
    bomRef := source.bomRef, purl := source.purl, version := source.version,
    hashes := source.hashes, extra := source.extra } = source

theorem isCopy_clone (c : Choice) : IsCopy c.source c.declared c.clone :=
  ⟨rfl, rfl, rfl, rfl, rfl, rfl⟩

variable {m : Manifest} {b : Bom}

/-- **Both selections are exact.** Copies are made for the coordinates at the selected places, in the
order in which they are declared; each is made of the earliest component with the greatest score and is
reported with that score, and they stand behind the components in that order. -/
theorem selection_exact (hcount : m.size ≠ b.components.length) : ∃ places cs,
    Selected (Lacking b) m.dependencies places ∧
    (∀ others, Selected (Lacking b) m.dependencies others → others = places) ∧
    Copies m b cs ∧ places.map (m.dependencies[·]?) = cs.map (fun c => some c.declared) ∧
    ∀ c ∈ cs, FirstBest (scoreOf c.declared) b.components c.source c.score ∧ c.score ≤ 6 ∧
      IsCopy c.source c.declared c.clone := by
  obtain ⟨places, hselected, hdeclared⟩ :=
    exists_selected (candidates b) (coordinates b) m.dependencies
  simp only [not_passedBy_iff] at hselected
  refine ⟨places, chosen m b, hselected, fun others h => h.unique hselected, copies_of_ne hcount,
    hdeclared, fun c hc => ?_⟩
  have hbest := firstBest_of_candidates (of_mem_choices hc).2
  exact ⟨hbest, score_le hbest.score_eq, isCopy_clone c⟩

/-- Of an artifact in two spellings and one that no component is of, the first spelling is copied. -/
theorem selection_exact_twiceDeclared :
    (Manifest.mk none twiceDeclared).size ≠ ownBom.components.length ∧ ∃ places cs,
    Selected (Lacking ownBom) twiceDeclared places ∧ Copies ⟨none, twiceDeclared⟩ ownBom cs ∧
    places.map (twiceDeclared[·]?) = cs.map (fun c => some c.declared) ∧
    cs.map Choice.addition = [⟨"pkg:maven/g/app@2", "pkg:maven/g/app@1", 0⟩] := by
  have hcount : (Manifest.mk none twiceDeclared).size ≠ ownBom.components.length := by decide
  obtain ⟨places, cs, hselected, -, hcopies, hdeclared, -⟩ := selection_exact hcount
  refine ⟨hcount, places, cs, hselected, hcopies, hdeclared, ?_⟩
  have hchosen : (reconcile ⟨none, twiceDeclared⟩ ownBom).2.added =
      (chosen ⟨none, twiceDeclared⟩ ownBom).map Choice.addition := (copies_of_ne hcount).added
  rw [← hcopies.added, hchosen, chosen, coordinates, candidates_ownBom]
  decide

end BomAssembly.Reconcile
