import BomAssembly.Proofs.Coordinate.Injectivity
import BomAssembly.Proofs.Reconcile.Wiring

/-!
# References after a pass

A copy goes by the text of the coordinate that it was made for. Two copies never go by one text, since
a coordinate is present once it was added and a text is that of one coordinate only. But whether a
coordinate is present is asked of the package URLs of the components. The text may all the same be the
reference of the root, or the identifier of a component whose package URL says something else: then
the copy shares its reference, and a root that shares it depends on itself.

`references_kept_iff` says that there is no other way to lose either property.
-/

namespace BomAssembly.Reconcile

open Coordinate (MatchesExactly)

/-- The references of the root and of the components, of all that have one. -/
def references (b : Bom) : List String :=
  (b.rootComponent.toList ++ b.components).filterMap Component.reference

/-- No entry depends on itself. -/
def Loopless (b : Bom) : Prop := ∀ d ∈ entries b, d.ref ∉ d.dependsOn

instance (b : Bom) : Decidable (Loopless b) := by
  unfold Loopless
  infer_instance

/-! ## Copies have texts of their own -/

/-- No two copies are made for coordinates that match. -/
theorem pairwise_choices (cs : List (Component × Coordinate)) (present ds : List Coordinate) :
    (choices cs present ds).Pairwise fun c e => ¬ MatchesExactly c.declared e.declared := by
  induction ds generalizing present with
  | nil => exact .nil
  | cons d ds ih =>
      rw [choices]
      split
      · exact ih present
      · split
        · exact ih present
        · -- what was added is present for those that follow
          refine .cons (fun e he => ?_) (ih _)
          exact not_matched_of_mem_choices he d (by simp)

section Parsed

variable {kind : Manifest.Kind} {content : String} {m : Manifest} {b : Bom}

theorem nodup_addedRefs (hm : Manifest.parseAs kind content = .ok m) (b : Bom) :
    (addedRefs (reconcile m b).2).Nodup := by
  have hdeclared := Manifest.declarable_of_parseAs hm
  have hcanonical : ∀ c ∈ chosen m b, c.declared.Canonical := by
    intro c hc
    obtain ⟨hmem, heligible⟩ := of_mem_chosen hc
    exact heligible.canonical (hdeclared c.declared hmem)
  have hchosen : ((chosen m b).map fun c => c.declared.render).Nodup := by
    refine List.pairwise_map.mpr ((pairwise_choices _ _ _).imp_of_mem ?_)
    intro c e hc he hnot htext
    refine hnot ?_
    rw [Coordinate.eq_of_render_eq (hcanonical c hc) (hcanonical e he) htext]
  by_cases hcount : m.size = b.components.length
  · rw [reconcile_of_eq hcount]
    exact List.nodup_nil
  · have hadded : (run m b).added = (chosen m b).map Choice.addition := (run_made m b).added
    rw [reconcile_of_ne hcount]
    show ((run m b).added.map Addition.declared).Nodup
    rw [hadded, List.map_map]
    exact hchosen

end Parsed

/-! ## The references of the result -/

theorem references_of_extends {b out : Bom} {report : Report} (h : Extends b out report) :
    references out = references b ++ addedRefs report := by
  obtain ⟨clones, hcomponents, hclones⟩ := h.components
  have hmetadata := congrArg Bom.metadata h.rest
  dsimp only at hmetadata
  have hroot : out.rootComponent = b.rootComponent := by
    rw [Bom.rootComponent, Bom.rootComponent, hmetadata]
  have hrefs : clones.filterMap Component.reference = addedRefs report := by
    have hmap := congrArg (List.filterMap id) hclones
    rw [List.filterMap_map, List.filterMap_map] at hmap
    exact hmap.trans List.filterMap_some
  rw [references, hroot, hcomponents, ← List.append_assoc, List.filterMap_append, hrefs, references]

section Wired

variable {root : Option String} {refs : List String} {before after : List Dependency} {i : Nat}
  {d : Dependency}

/-- An entry that depends on something did so before, unless it is the root's first. -/
theorem Wired.mem_dependsOn (h : Wired root refs before after) (hd : after[i]? = some d)
    {ref : String} (href : ref ∈ d.dependsOn) :
    ref ∈ dependsOnAt before i ∨ rootPlace root after = some i ∧ ref ∈ refs := by
  obtain ⟨more, heq, hmore⟩ := h.edges i d hd
  rw [heq] at href
  rcases List.mem_append.mp href with hbefore | hnew
  · exact .inl hbefore
  · have hwanted := ((hmore.mem_iff ref).mp hnew).1
    split at hwanted
    · next hroot => exact .inr ⟨hroot, hwanted⟩
    · exact absurd hwanted List.not_mem_nil

/-- An entry that was there has kept its reference. -/
theorem Wired.ref_eq (h : Wired root refs before after) {e : Dependency}
    (he : before[i]? = some e) (hd : after[i]? = some d) : d.ref = e.ref := by
  obtain ⟨new, -, hlabels⟩ := h.kept
  have hi : i < before.length := (List.getElem?_eq_some_iff.mp he).1
  have hat := congrArg (·[i]?) hlabels
  rw [List.getElem?_append_left (by simpa using hi), List.getElem?_map, List.getElem?_map, hd,
    he] at hat
  exact congrArg Prod.fst (Option.some.inj hat)

theorem ref_of_rootPlace (h : rootPlace root after = some i) (hd : after[i]? = some d) :
    root = some d.ref := by
  obtain ⟨r, hroot, hplace⟩ := Option.bind_eq_some_iff.mp h
  obtain ⟨hi, hr, -⟩ := List.findIdx?_eq_some_iff_getElem.mp hplace
  obtain ⟨-, rfl⟩ := List.getElem?_eq_some_iff.mp hd
  rw [hroot, ← beq_iff_eq.mp hr]

/-- **Only a root that was added again depends on itself.** -/
theorem loopless_iff_of_wired (h : Wired root refs before after)
    (hbefore : ∀ d ∈ before, d.ref ∉ d.dependsOn) :
    (∀ d ∈ after, d.ref ∉ d.dependsOn) ↔ ∀ r, root = some r → r ∉ refs := by
  constructor
  · rintro hafter r rfl href
    obtain ⟨i, hi⟩ := Option.isSome_iff_exists.mp (h.rooted rfl)
    obtain ⟨hlt, -⟩ := List.findIdx?_eq_some_iff_getElem.mp hi
    have hd : after[i]? = some after[i] := List.getElem?_eq_getElem hlt
    have hr : r = after[i].ref := Option.some.inj (ref_of_rootPlace hi hd)
    refine hafter after[i] (List.getElem_mem hlt) ?_
    rw [← hr]
    exact h.linked i after[i] hi hd r href
  · intro hroot d hmem hself
    obtain ⟨i, hd⟩ := List.mem_iff_getElem?.mp hmem
    rcases h.mem_dependsOn hd hself with hold | ⟨hplace, href⟩
    · -- the edge was there, in an entry of the same reference
      obtain ⟨e, he⟩ : ∃ e, before[i]? = some e := by
        cases he : before[i]? with
        | none => simp [dependsOnAt, he] at hold
        | some e => exact ⟨e, rfl⟩
      have hlist : dependsOnAt before i = e.dependsOn := by rw [dependsOnAt, he]; rfl
      rw [hlist, h.ref_eq he hd] at hold
      exact hbefore e (List.mem_of_getElem? he) hold
    · exact hroot d.ref (ref_of_rootPlace hplace hd) href

end Wired

/-! ## When they stay unique -/

section Kept

variable {b out : Bom} {report : Report} (h : Extends b out report)

include h

theorem nodup_references_iff (hadded : (addedRefs report).Nodup) (hunique : (references b).Nodup) :
    (references out).Nodup ↔ ∀ ref ∈ addedRefs report, ref ∉ references b := by
  rw [references_of_extends h, List.nodup_append]
  constructor
  · rintro ⟨-, -, hdisjoint⟩ ref hnew hold
    exact hdisjoint ref hold ref hnew rfl
  · intro hnew
    refine ⟨hunique, hadded, ?_⟩
    rintro ref hold _ href rfl
    exact hnew ref href hold

theorem loopless_iff (hloopless : Loopless b) :
    Loopless out ↔ ∀ r, b.rootRef = some r → r ∉ addedRefs report := by
  by_cases hadded : report.added = []
  · -- nothing was added, and nothing has changed
    have hrefs : addedRefs report = [] := by rw [addedRefs, hadded]; rfl
    rw [h.idle hadded, hrefs]
    exact iff_of_true hloopless fun r _ => List.not_mem_nil
  · exact loopless_iff_of_wired (h.wired hadded).2 hloopless

end Kept

/-- **What a pass can cost.** References stay unique exactly when no copy goes by one that was there,
and no entry comes to depend on itself exactly when no copy goes by the root's. -/
theorem references_kept_iff {kind : Manifest.Kind} {content : String} {m : Manifest} {b : Bom}
    (hm : Manifest.parseAs kind content = .ok m) (hunique : (references b).Nodup)
    (hloopless : Loopless b) :
    ((references (reconcile m b).1).Nodup ↔
      ∀ ref ∈ addedRefs (reconcile m b).2, ref ∉ references b) ∧
    (Loopless (reconcile m b).1 ↔
      ∀ r, b.rootRef = some r → r ∉ addedRefs (reconcile m b).2) := by
  have hextends : Extends b (reconcile m b).1 (reconcile m b).2 := by
    by_cases hcount : m.size = b.components.length
    · exact extends_of_eq hcount
    · exact extends_of_ne hcount
  exact ⟨nodup_references_iff hextends (nodup_addedRefs hm b) hunique,
    loopless_iff hextends hloopless⟩

/-! ## A root that is declared -/

/-- A list that declares the deliverable itself. -/
def ownList : String := "[\"pkg:maven/g/app@2\"]"

/-- What the list declares. -/
def ownManifest : Manifest := ⟨none, [⟨"maven", some "g", "app", some "2", .empty, none⟩]⟩

/-- A bill of materials for the deliverable, with an older version of it among the components. -/
def ownDocument : String :=
  "\x7b\"bomFormat\":\"CycloneDX\",\"metadata\":\x7b\"component\":\x7b\"purl\":\"pkg:maven/g/app@2\"\x7d\x7d," ++
    "\"components\":[\x7b\"purl\":\"pkg:maven/g/app@1\"\x7d,\x7b\"name\":\"b\"\x7d]\x7d"

/-- What the document holds. -/
def ownBom : Bom :=
  { Bom.empty with
    specVersion := ""
    version := none
    metadata := some ⟨some (bareComponent "" (some "pkg:maven/g/app@2")), []⟩
    components := [bareComponent "" (some "pkg:maven/g/app@1"), bareComponent "b" none] }

theorem parseAs_ownList : Manifest.parseAs .coordinateList ownList = .ok ownManifest := by cbv

theorem parse_ownDocument : Bom.parse true ownDocument = .ok ownBom := by
  have hmarker : Text.contains ownDocument Bom.formatMarker = true := by cbv
  have hread : Json.readWritten .any ownDocument = some (.obj [
      ("bomFormat", .str "CycloneDX"),
      ("metadata", .obj [("component", .obj [("purl", .str "pkg:maven/g/app@2")])]),
      ("components", .arr [.obj [("purl", .str "pkg:maven/g/app@1")],
        .obj [("name", .str "b")]])]) := by cbv
  rw [Bom.parse, hmarker, hread]
  rfl

theorem candidates_ownBom : candidates ownBom = [(bareComponent "" (some "pkg:maven/g/app@1"),
    ⟨"maven", some "g", "app", some "1", .empty, none⟩)] := by
  have hparse : Coordinate.parse? "pkg:maven/g/app@1" =
      some ⟨"maven", some "g", "app", some "1", .empty, none⟩ := by cbv
  simp [candidates, ownBom, bareComponent, Component.coordinate, hparse]

theorem addedRefs_own : addedRefs (reconcile ownManifest ownBom).2 = ["pkg:maven/g/app@2"] := by
  have hmade := run_made ownManifest ownBom
  rw [reconcile_of_ne (by decide)]
  show (run ownManifest ownBom).added.map Addition.declared = _
  rw [hmade.added, chosen, coordinates, candidates_ownBom]
  decide

/-- The references that the document has are different, and nothing in it depends on itself. -/
theorem unique_ownBom : (references ownBom).Nodup ∧ Loopless ownBom := by decide

theorem references_kept_iff_own :
    Manifest.parseAs .coordinateList ownList = .ok ownManifest ∧ (references ownBom).Nodup ∧
    Loopless ownBom ∧
    ((references (reconcile ownManifest ownBom).1).Nodup ↔
      ∀ ref ∈ addedRefs (reconcile ownManifest ownBom).2, ref ∉ references ownBom) ∧
    (Loopless (reconcile ownManifest ownBom).1 ↔
      ∀ r, ownBom.rootRef = some r → r ∉ addedRefs (reconcile ownManifest ownBom).2) :=
  ⟨parseAs_ownList, unique_ownBom.1, unique_ownBom.2,
    references_kept_iff parseAs_ownList unique_ownBom.1 unique_ownBom.2⟩

/-- **The copy that is made for the deliverable goes by the reference of the root**, which comes to
depend on itself. -/
theorem not_references_kept_own :
    Manifest.parseAs .coordinateList ownList = .ok ownManifest ∧
    Bom.parse true ownDocument = .ok ownBom ∧ (references ownBom).Nodup ∧ Loopless ownBom ∧
    ¬ (references (reconcile ownManifest ownBom).1).Nodup ∧
    ¬ Loopless (reconcile ownManifest ownBom).1 := by
  have hextends : Extends ownBom _ _ := extends_of_ne (show ownManifest.size ≠ _ by decide)
  refine ⟨parseAs_ownList, parse_ownDocument, unique_ownBom.1, unique_ownBom.2, ?_, ?_⟩
  · rw [references_of_extends hextends, addedRefs_own]
    decide
  · rw [loopless_iff hextends unique_ownBom.2, addedRefs_own]
    decide

end BomAssembly.Reconcile
