import BomAssembly.Manifest.Detection
import BomAssembly.Proofs.Coordinate.Canonical

/-!
# Where the coordinates of a manifest come from

Every dependency of a manifest that was read is either the reading of a package URL or was put
together from Maven parts. Either way it is canonical as soon as it is of the artifact of some
canonical coordinate, which is all that later proofs need of the two manifest formats.
-/

namespace BomAssembly

open Coordinate (SameArtifact)

/-- The ways in which a coordinate gets into a manifest. -/
inductive Coordinate.Declarable : Coordinate → Prop where
  | read {s : String} {c : Coordinate} (h : Coordinate.parse s = .ok c) : Declarable c
  | made (group artifact : String) (version packaging classifier : Option String) :
    Declarable (Coordinate.maven group artifact version packaging classifier)

/-- **What may be declared of the artifact of a canonical coordinate is canonical.** -/
theorem Coordinate.Declarable.canonical {c k : Coordinate} (h : c.Declarable) (hk : k.Canonical)
    (hsame : SameArtifact c k) : c.Canonical := by
  cases h with
  | read h => exact Coordinate.canonical_of_parse h
  | made =>
      obtain ⟨heco, hgroup, hname, -, -⟩ := hsame
      exact Coordinate.canonical_maven hk heco hgroup hname

namespace Manifest

theorem Entry.declarable_of_coordinate {e : Entry} {position : Nat} {c : Coordinate}
    (h : e.coordinate position = .ok c) : c.Declarable := by
  cases e with
  | purl text =>
      rw [Entry.coordinate] at h
      split at h
      · next k hk =>
        rw [← Except.ok.inj h]
        exact .read hk
      · exact absurd h (by simp)
  | parts group name version packaging classifier =>
      rw [← Except.ok.inj h]
      exact .made group name version packaging classifier

theorem Entry.declarable_of_coordinatesFrom {es : List Entry} {position : Nat}
    {cs : List Coordinate} (h : coordinatesFrom position es = .ok cs) : ∀ c ∈ cs, c.Declarable := by
  induction es generalizing position cs with
  | nil =>
      rw [← Except.ok.inj h]
      exact fun c hc => absurd hc List.not_mem_nil
  | cons e es ih =>
      obtain ⟨d, hd, h⟩ := bind_eq_ok.mp h
      obtain ⟨ds, hds, h⟩ := bind_eq_ok.mp h
      rw [← Except.ok.inj h]
      intro c hc
      rcases List.mem_cons.mp hc with hc | hc
      · exact hc ▸ declarable_of_coordinate hd
      · exact ih hds c hc

theorem declarable_of_parseList {content : String} {m : Manifest} (h : parseList content = .ok m) :
    ∀ c ∈ m.dependencies, c.Declarable := by
  unfold parseList at h
  split at h
  · exact absurd h (by simp)
  · obtain ⟨root, -, h⟩ := bind_eq_ok.mp h
    obtain ⟨cs, hcs, h⟩ := bind_eq_ok.mp h
    rw [← Except.ok.inj h]
    exact Entry.declarable_of_coordinatesFrom hcs

/-- What a Maven project declares is put together from parts. -/
theorem made_of_parsePom {content : String} {m : Manifest} (h : parsePom content = .ok m) :
    ∀ c ∈ m.dependencies, ∃ group artifact version packaging classifier,
      c = Coordinate.maven group artifact version packaging classifier := by
  obtain ⟨p, -, rfl⟩ := map_eq_ok.mp h
  intro c hc
  obtain ⟨d, -, hd⟩ := List.mem_filterMap.mp hc
  unfold Pom.dependencyCoordinate at hd
  split at hd
  · exact ⟨_, _, _, _, _, (Option.some.inj hd).symm⟩
  · exact absurd hd (by simp)

theorem declarable_of_parsePom {content : String} {m : Manifest} (h : parsePom content = .ok m) :
    ∀ c ∈ m.dependencies, c.Declarable := by
  intro c hc
  obtain ⟨group, artifact, version, packaging, classifier, rfl⟩ := made_of_parsePom h c hc
  exact .made group artifact version packaging classifier

/-- **Every dependency of a manifest that was read is read or made of Maven parts.** -/
theorem declarable_of_parseAs {kind : Kind} {content : String} {m : Manifest}
    (h : parseAs kind content = .ok m) : ∀ c ∈ m.dependencies, c.Declarable := by
  cases kind with
  | pom => exact declarable_of_parsePom h
  | coordinateList => exact declarable_of_parseList h

end Manifest

end BomAssembly
