import Mathlib
import BomAssembly.Bom.Document
import BomAssembly.Proofs.Coordinate.RoundTrip
import BomAssembly.Proofs.Manifest.Origin
import BomAssembly.Proofs.Reconcile.Choices

/-!
# What the result accounts for

Every declared coordinate should be found in the result, or else be listed as skipped because no
component was of its artifact. The copies that a pass appends carry their coordinates as texts, so
this is a question of what comes back from a text: a copy made for a coordinate whose group has a
segment `.` or `..` is read as something else.

`accounted_iff` tells exactly which declared coordinates are accounted for, and that the numbers in
the report add up.
-/

namespace BomAssembly.Reconcile

open Coordinate (SameArtifact MatchesExactly Declarable)

/-- Some component of the result matches the coordinate, or it is listed as skipped and no component
was of its artifact. -/
def Accounted (b : Bom) (out : Bom × Report) (d : Coordinate) : Prop :=
  Represented out.1 d ∨ ¬ Eligible b d ∧ d.render ∈ out.2.skipped.map Skip.declared

instance (b : Bom) (out : Bom × Report) (d : Coordinate) : Decidable (Accounted b out d) := by
  unfold Accounted
  infer_instance

/-! ## Coordinates of components -/

theorem canonical_of_mem_coordinates {b : Bom} {k : Coordinate} (h : k ∈ coordinates b) :
    k.Canonical := by
  rw [coordinates_eq] at h
  obtain ⟨c, -, hc⟩ := List.mem_filterMap.mp h
  obtain ⟨s, -, hs⟩ := Option.bind_eq_some_iff.mp hc
  exact Coordinate.canonical_of_parse (Coordinate.parse?_eq_some_iff.mp hs)

/-- What is declared and has something to be copied from is canonical. -/
theorem Eligible.canonical {b : Bom} {d : Coordinate} (h : Eligible b d) (hd : d.Declarable) :
    d.Canonical := by
  obtain ⟨k, hk, hsame⟩ := h
  exact hd.canonical (canonical_of_mem_coordinates hk) hsame

theorem coordinate_cloneAs (c : Component) {d : Coordinate} (h : d.Canonical) :
    (c.cloneAs d).coordinate = some d.undotted := by
  have hpurl : (c.cloneAs d).purl = some d.render := rfl
  rw [Component.coordinate, hpurl, Option.bind_some, Coordinate.parse?_eq_some_iff,
    Coordinate.parse_render h]

section Pass

variable {m : Manifest} {b : Bom}

theorem of_mem_chosen {c : Choice} (h : c ∈ chosen m b) :
    c.declared ∈ m.dependencies ∧ Eligible b c.declared := by
  obtain ⟨hmem, hbest⟩ := of_mem_choices h
  exact ⟨hmem, eligible_of_bestCandidate hbest⟩

/-- **The coordinates in the result**: those that were there, and those that are read from the
copies. -/
theorem coordinates_run (hm : ∀ d ∈ m.dependencies, d.Declarable) : coordinates (run m b).bom =
    coordinates b ++ (chosen m b).map fun c => c.declared.undotted := by
  rw [coordinates_eq, components_run, List.filterMap_append, ← coordinates_eq,
    filterMap_map_of_forall]
  -- a copy is made of something of the artifact, so its text can be read back
  intro c hc
  obtain ⟨hmem, heligible⟩ := of_mem_chosen hc
  exact coordinate_cloneAs c.source (heligible.canonical (hm c.declared hmem))

/-! ## What is represented -/

/-- What could be copied and comes back from its text is represented. -/
theorem represented_run_of_dotFree (hm : ∀ d ∈ m.dependencies, d.Declarable) {d : Coordinate}
    (hd : d ∈ m.dependencies) (heligible : Eligible b d) (hdots : d.DotFree) :
    Represented (run m b).bom d := by
  have hbest : bestCandidate d (candidates b) ≠ none := fun hnone =>
    bestCandidate_candidates_eq_none_iff.mp hnone heligible
  obtain ⟨k, hk, hmatch⟩ := @matched_of_mem _ (coordinates b) _ d hd hbest
  refine ⟨k, ?_, hmatch⟩
  rw [coordinates_run hm]
  rcases List.mem_append.mp hk with hk | hk
  · exact List.mem_append_left _ hk
  · obtain ⟨c, hc, rfl⟩ := List.mem_map.mp hk
    obtain ⟨hmem, hsource⟩ := of_mem_chosen hc
    -- what was added for an equal coordinate has the same group, so it comes back as well
    have hback : c.declared.undotted = c.declared :=
      Coordinate.undotted_of_dotFree (hsource.canonical (hm c.declared hmem))
        (hmatch.sameArtifact.dotFree_iff.mpr hdots)
    exact List.mem_append_right _ (List.mem_map.mpr ⟨c, hc, hback⟩)

/-- Copies represent only what has no dots. -/
theorem Represented.of_run (hm : ∀ d ∈ m.dependencies, d.Declarable) {d : Coordinate}
    (h : Represented (run m b).bom d) : Represented b d ∨ d.DotFree := by
  obtain ⟨k, hk, hmatch⟩ := h
  rw [coordinates_run hm] at hk
  rcases List.mem_append.mp hk with hk | hk
  · exact .inl ⟨k, hk, hmatch⟩
  · obtain ⟨c, -, rfl⟩ := List.mem_map.mp hk
    exact .inr (hmatch.sameArtifact.dotFree_iff.mp (Coordinate.dotFree_undotted c.declared))

theorem Represented.run {d : Coordinate} (h : Represented b d) : Represented (run m b).bom d := by
  obtain ⟨k, hk, hmatch⟩ := h
  refine ⟨k, ?_, hmatch⟩
  rw [coordinates_eq, components_run, List.filterMap_append, ← coordinates_eq]
  exact List.mem_append_left _ hk

theorem mem_skipped_run {d : Coordinate} (hd : d ∈ m.dependencies) (h : ¬ Eligible b d) :
    d.render ∈ (Reconcile.run m b).skipped.map Skip.declared := by
  rw [run_skipped, List.map_map]
  exact List.mem_map.mpr ⟨d, List.mem_filter.mpr ⟨hd, decide_eq_true h⟩, rfl⟩

end Pass

/-! ## The result -/

section Reconcile

variable {m : Manifest} {b : Bom}

theorem reconcile_of_ne (h : m.size ≠ b.components.length) : reconcile m b =
    ((run m b).bom, ⟨m.size, b.components.length, (run m b).bom.components.length,
      (run m b).matched, (run m b).added, (run m b).skipped, false⟩) := by
  rw [reconcile, if_neg h]

theorem reconcile_of_eq (h : m.size = b.components.length) : reconcile m b =
    (b, ⟨m.size, b.components.length, b.components.length, 0, [], [], true⟩) := by
  rw [reconcile, if_pos h]

theorem length_added_run (m : Manifest) (b : Bom) : (run m b).added.length = (chosen m b).length := by
  rw [(run_made m b).added]
  exact List.length_map _

/-- What is accounted for when the counts differ. -/
theorem accounted_of_declarable (hm : ∀ d ∈ m.dependencies, d.Declarable)
    (hcount : m.size ≠ b.components.length) {d : Coordinate} (hd : d ∈ m.dependencies) :
    Accounted b (reconcile m b) d ↔ d.DotFree ∨ Represented b d ∨ ¬ Eligible b d := by
  rw [reconcile_of_ne hcount]
  constructor
  · rintro (hrep | ⟨hnot, -⟩)
    · rcases hrep.of_run hm with hrep | hdots
      · exact .inr (.inl hrep)
      · exact .inl hdots
    · exact .inr (.inr hnot)
  · intro h
    by_cases heligible : Eligible b d
    · refine .inl ?_
      rcases h with hdots | hrep | hnot
      · exact represented_run_of_dotFree hm hd heligible hdots
      · exact hrep.run
      · exact absurd heligible hnot
    · exact .inr ⟨heligible, mem_skipped_run hd heligible⟩

/-- The numbers in the report add up. -/
structure Report.AddsUp (m : Manifest) (b : Bom) (out : Bom × Report) : Prop where
  declared : out.2.matched + out.2.added.length + out.2.skipped.length = m.size
  components : out.2.componentsAfter = b.components.length + out.2.added.length
  result : out.2.componentsAfter = out.1.components.length

theorem addsUp_of_ne (hcount : m.size ≠ b.components.length) :
    Report.AddsUp m b (reconcile m b) := by
  rw [reconcile_of_ne hcount]
  refine ⟨?_, ?_, rfl⟩
  · have hrun := (run_made m b).count
    simpa [Pass.start] using hrun
  · show (run m b).bom.components.length = b.components.length + (run m b).added.length
    rw [components_run, List.length_append, List.length_map, length_added_run]

/-- **Exactly these declared coordinates are accounted for**: those whose group is free of dots, those
that some component matched before, and those that no component was of the artifact of. -/
theorem accounted_iff {kind : Manifest.Kind} {content : String}
    (hm : Manifest.parseAs kind content = .ok m) (hcount : m.size ≠ b.components.length) :
    (∀ d ∈ m.dependencies, Accounted b (reconcile m b) d ↔
      d.DotFree ∨ Represented b d ∨ ¬ Eligible b d) ∧ Report.AddsUp m b (reconcile m b) := by
  have hdeclared := Manifest.declarable_of_parseAs hm
  refine ⟨?_, addsUp_of_ne hcount⟩
  intro d hd
  exact accounted_of_declarable hdeclared hcount hd

end Reconcile

/-! ## A group that is a dot -/

/-- A list with one coordinate, whose group is a dot. -/
def dottedList : String := "[\"pkg:maven/%2E/a@2\"]"

/-- What the list declares. -/
def dottedManifest : Manifest := ⟨none, [⟨"maven", some ".", "a", some "2", .empty, none⟩]⟩

/-- A bill of materials with another version of the artifact, and with something else. -/
def dottedDocument : String :=
  "\x7b\"bomFormat\":\"CycloneDX\",\"components\":[" ++
    "\x7b\"purl\":\"pkg:maven/%2E/a@1\"\x7d,\x7b\"name\":\"b\"\x7d]\x7d"

/-- A component with nothing but a name and a package URL. -/
def bareComponent (name : String) (purl : Option String) : Component :=
  { Component.library default with bomRef := none, group := none, version := none, name, purl }

/-- What the document holds. -/
def dottedBom : Bom :=
  { Bom.empty with
    specVersion := ""
    version := none
    components := [bareComponent "" (some "pkg:maven/%2E/a@1"), bareComponent "b" none] }

theorem parseAs_dottedList :
    Manifest.parseAs .coordinateList dottedList = .ok dottedManifest := by cbv

theorem parse_dottedDocument : Bom.parse true dottedDocument = .ok dottedBom := by
  have hmarker : Text.contains dottedDocument Bom.formatMarker = true := by cbv
  have hread : Json.readWritten .any dottedDocument = some (.obj [
      ("bomFormat", .str "CycloneDX"),
      ("components", .arr [.obj [("purl", .str "pkg:maven/%2E/a@1")],
        .obj [("name", .str "b")]])]) := by cbv
  rw [Bom.parse, hmarker, hread]
  rfl

theorem coordinates_dottedBom :
    coordinates dottedBom = [⟨"maven", some ".", "a", some "1", .empty, none⟩] := by
  have hparse : Coordinate.parse? "pkg:maven/%2E/a@1" =
      some ⟨"maven", some ".", "a", some "1", .empty, none⟩ := by cbv
  simp [coordinates_eq, dottedBom, bareComponent, Component.coordinate, hparse]

theorem accounted_iff_dotted :
    Manifest.parseAs .coordinateList dottedList = .ok dottedManifest ∧
    dottedManifest.size ≠ dottedBom.components.length ∧
    (∀ d ∈ dottedManifest.dependencies, Accounted dottedBom (reconcile dottedManifest dottedBom) d ↔
      d.DotFree ∨ Represented dottedBom d ∨ ¬ Eligible dottedBom d) ∧
    Report.AddsUp dottedManifest dottedBom (reconcile dottedManifest dottedBom) :=
  ⟨parseAs_dottedList, by decide, accounted_iff parseAs_dottedList (by decide)⟩

/-- The declared coordinate is neither in the result nor skipped. -/
theorem not_accounted_dotted :
    Manifest.parseAs .coordinateList dottedList = .ok dottedManifest ∧
    Bom.parse true dottedDocument = .ok dottedBom ∧
    dottedManifest.size ≠ dottedBom.components.length ∧
    ∃ d ∈ dottedManifest.dependencies,
      ¬ Accounted dottedBom (reconcile dottedManifest dottedBom) d := by
  refine ⟨parseAs_dottedList, parse_dottedDocument, by decide, _, List.mem_singleton.mpr rfl, ?_⟩
  have hdeclared := Manifest.declarable_of_parseAs parseAs_dottedList
  rw [accounted_of_declarable hdeclared (by decide) (List.mem_singleton.mpr rfl)]
  unfold Represented Eligible
  rw [coordinates_dottedBom]
  decide

end BomAssembly.Reconcile
