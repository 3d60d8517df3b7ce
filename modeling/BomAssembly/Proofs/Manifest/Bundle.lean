import Mathlib
import BomAssembly.Manifest.Bundle
import BomAssembly.Proofs.Coordinate.Canonical
import BomAssembly.Proofs.Coordinate.Identity
import BomAssembly.Proofs.Manifest.PomDocument
import BomAssembly.Proofs.Text.Trimming

/-!
# The manifest of a deliverable declares what was found in it

The artifacts that are kept (`Keeps`, `Kept`) are added to the project one by one; each one is a
declaration more, and a property under a name made of the coordinate (`Pom.Declares`). The document of
the project is read as the project again, so what is left is what a reader makes of a declaration: it
looks up references, and takes blanks from the ends. Where it leaves every part of a coordinate as it
is (`Pom.Stands`), it gets the same artifact in the same version; elsewhere it does not, or gets
nothing.
-/

namespace BomAssembly

open Coordinate (SameArtifact maven version_maven packaging_maven classifier_maven)
open Text (StringMap trimmed)
open Xml (IsLocalName dropEndSpace isName isSpace stripped)

/-- The same artifact, in the same version. -/
def Coordinate.SameRelease (a b : Coordinate) : Prop := SameArtifact a b ∧ a.version = b.version

/-! ## What is kept -/

namespace Bundle

variable {b : Bundle} {a : AnalysedArtifact} {c : Coordinate}

/-- An artifact is kept under a coordinate: it is not known from another archive, it was not found
inside other jars only, and its package URL is read as the coordinate of a Maven package. -/
structure Keeps (b : Bundle) (a : AnalysedArtifact) (c : Coordinate) : Prop where
  here : ∀ url other, b.url = some url → a.distributionUrl = some other → other = url
  outside : a.locations = [] ∨ ∃ l ∈ a.locations, ¬ ".jar!/".toList <:+: l.toList
  read : Coordinate.parse a.purl = .ok c
  maven : c.ecosystem = "maven"

theorem foundIn_iff : a.foundIn b.url = true ↔
    ∀ url other, b.url = some url → a.distributionUrl = some other → other = url := by
  unfold AnalysedArtifact.foundIn
  cases b.url with
  | none => simp
  | some url =>
      cases a.distributionUrl with
      | none => simp
      | some other => simp [eq_comm]

theorem isNested_eq_false_iff : a.isNested = false ↔
    a.locations = [] ∨ ∃ l ∈ a.locations, ¬ ".jar!/".toList <:+: l.toList := by
  have houtside : a.foundOutside = true ↔ ∃ l ∈ a.locations, ¬ ".jar!/".toList <:+: l.toList := by
    rw [AnalysedArtifact.foundOutside, List.any_eq_true]
    refine exists_congr fun l => and_congr_right fun _ => ?_
    rw [Bool.not_eq_true', Text.contains, ← Text.occurs_iff, Bool.not_eq_true]
  rw [AnalysedArtifact.isNested, Bool.and_eq_false_iff, Bool.not_eq_false', Bool.not_eq_false',
    List.isEmpty_iff, houtside]

/-- What is added to the manifest is what is kept. -/
theorem coordinate?_eq_some_iff : b.coordinate? a = some c ↔ b.Keeps a c := by
  unfold coordinate?
  constructor
  · intro h
    split at h
    · next hkept =>
      rw [Bool.and_eq_true, Bool.not_eq_true', foundIn_iff, isNested_eq_false_iff] at hkept
      obtain ⟨hread, hmaven⟩ := Option.filter_eq_some_iff.mp h
      exact ⟨hkept.1, hkept.2, Coordinate.parse?_eq_some_iff.mp hread, eq_of_beq hmaven⟩
    · exact absurd h (by simp)
  · rintro ⟨hhere, houtside, hread, hmaven⟩
    have hkept : (a.foundIn b.url && !a.isNested) = true := by
      rw [Bool.and_eq_true, Bool.not_eq_true', foundIn_iff, isNested_eq_false_iff]
      exact ⟨hhere, houtside⟩
    rw [if_pos hkept, Coordinate.parse?_eq_some_iff.mpr hread]
    exact Option.filter_some_pos (beq_iff_eq.mpr hmaven)

/-- The coordinates of the artifacts that are kept, in the order of the artifacts. -/
inductive Kept (b : Bundle) : List AnalysedArtifact → List Coordinate → Prop
  | nil : Kept b [] []
  | keep {a : AnalysedArtifact} {c : Coordinate} {found : List AnalysedArtifact}
      {cs : List Coordinate} (h : b.Keeps a c) (hrest : Kept b found cs) :
      Kept b (a :: found) (c :: cs)
  | leave {a : AnalysedArtifact} {found : List AnalysedArtifact} {cs : List Coordinate}
      (h : ∀ c, ¬ b.Keeps a c) (hrest : Kept b found cs) : Kept b (a :: found) cs

/-- What is kept is told for every list of artifacts. -/
theorem exists_kept (b : Bundle) (found : List AnalysedArtifact) : ∃ cs, b.Kept found cs := by
  induction found with
  | nil => exact ⟨[], .nil⟩
  | cons a found ih =>
      obtain ⟨cs, hcs⟩ := ih
      by_cases h : ∃ c, b.Keeps a c
      · obtain ⟨c, hc⟩ := h
        exact ⟨c :: cs, .keep hc hcs⟩
      · exact ⟨cs, .leave (fun c hc => h ⟨c, hc⟩) hcs⟩

theorem Kept.exists_of_mem {found : List AnalysedArtifact} {cs : List Coordinate}
    (h : b.Kept found cs) (hc : c ∈ cs) : ∃ a ∈ found, b.Keeps a c := by
  induction h with
  | nil => exact absurd hc List.not_mem_nil
  | keep hkeeps _ ih =>
      rcases List.mem_cons.mp hc with rfl | hc
      · exact ⟨_, List.mem_cons_self, hkeeps⟩
      · obtain ⟨a, ha, hac⟩ := ih hc
        exact ⟨a, List.mem_cons_of_mem _ ha, hac⟩
  | leave _ _ ih =>
      obtain ⟨a, ha, hac⟩ := ih hc
      exact ⟨a, List.mem_cons_of_mem _ ha, hac⟩

theorem Kept.mem_of_keeps {found : List AnalysedArtifact} {cs : List Coordinate}
    (h : b.Kept found cs) {a : AnalysedArtifact} (ha : a ∈ found) (hkeeps : b.Keeps a c) : c ∈ cs := by
  induction h with
  | nil => exact absurd ha List.not_mem_nil
  | keep hother _ ih =>
      rcases List.mem_cons.mp ha with rfl | ha
      · obtain rfl := Except.ok.inj (hother.read.symm.trans hkeeps.read)
        exact List.mem_cons_self
      · exact List.mem_cons_of_mem _ (ih ha)
  | leave hnone _ ih =>
      rcases List.mem_cons.mp ha with rfl | ha
      · exact absurd hkeeps (hnone c)
      · exact ih ha

/-- Only one list is kept. -/
theorem Kept.unique {found : List AnalysedArtifact} {cs ds : List Coordinate}
    (h : b.Kept found cs) (h' : b.Kept found ds) : cs = ds := by
  induction h generalizing ds with
  | nil => cases h'; rfl
  | keep hkeeps _ ih =>
      cases h' with
      | keep hother hrest =>
          rw [Except.ok.inj (hkeeps.read.symm.trans hother.read), ih hrest]
      | leave hnone _ => exact absurd hkeeps (hnone _)
  | leave hnone _ ih =>
      cases h' with
      | keep hkeeps _ => exact absurd hkeeps (hnone _)
      | leave _ hrest => exact ih hrest

end Bundle

/-! ## What is declared -/

namespace Pom

/-- The name of the property that records a coordinate. -/
def propertyName (c : Coordinate) : String := originKey (declaration c) c.name

/-- A project that declares these coordinates, and has no properties but theirs. -/
structure Declares (p : Pom) (cs : List Coordinate) : Prop where
  dependencies : p.dependencyList = cs.map declaration
  properties : ∀ e ∈ p.propertyMap.entries, ∃ c ∈ cs, e.1 = propertyName c

/-- One coordinate more. -/
theorem Declares.addDependency {p : Pom} {cs : List Coordinate} (h : p.Declares cs)
    (c : Coordinate) (origin : String) : (p.addDependency c origin).Declares (cs ++ [c]) where
  dependencies := by
    have hadded : (p.addDependency c origin).dependencyList = p.dependencyList ++ [declaration c] :=
      rfl
    rw [hadded, h.dependencies, List.map_append]
    rfl
  properties := by
    intro e he
    rcases StringMap.mem_insert_iff.mp he with rfl | ⟨hmem, -⟩
    · exact ⟨c, by simp, rfl⟩
    · obtain ⟨d, hd, hkey⟩ := h.properties e hmem
      exact ⟨d, List.mem_append_left _ hd, hkey⟩

end Pom

namespace Bundle

variable {b : Bundle} {found : List AnalysedArtifact} {cs : List Coordinate}

theorem Kept.declares_foldl (h : b.Kept found cs) : ∀ {p : Pom} {ds : List Coordinate},
    p.Declares ds → (found.foldl b.add p).Declares (ds ++ cs) := by
  induction h with
  | nil =>
      intro p ds hp
      rwa [List.append_nil]
  | @keep a c found cs hkeeps _ ih =>
      intro p ds hp
      have hadd : b.add p a = p.addDependency c a.id := by
        rw [add, coordinate?_eq_some_iff.mpr hkeeps]
      have hstep := ih (hp.addDependency c a.id)
      rwa [List.append_assoc, List.singleton_append, ← hadd] at hstep
  | @leave a found cs hnone _ ih =>
      intro p ds hp
      have hadd : b.add p a = p := by
        rw [add]
        split
        · next c hc => exact absurd (coordinate?_eq_some_iff.mp hc) (hnone c)
        · rfl
      rw [List.foldl_cons, hadd]
      exact ih hp

/-- **The manifest declares what was kept**, in its order. -/
theorem Kept.declares (h : b.Kept found cs) : (b.manifest found).Declares cs := by
  have hstart : b.project.Declares [] := ⟨rfl, fun e he => absurd he List.not_mem_nil⟩
  exact h.declares_foldl hstart

/-- Adding dependencies leaves the version of the project. -/
theorem version_manifest (b : Bundle) (found : List AnalysedArtifact) :
    (b.manifest found).version = some (b.version.getD b.archive) := by
  have hadd : ∀ p, (found.foldl b.add p).version = p.version := by
    induction found with
    | nil => exact fun _ => rfl
    | cons a found ih =>
        intro p
        rw [List.foldl_cons, ih, add]
        split <;> rfl
  exact hadd b.project

end Bundle

/-! ## The names of properties -/

namespace Pom

variable {c : Coordinate}

/-- The characters of such a name. -/
def cleaned (ch : Char) : Char :=
  if ch.isAlphanum || ch == '.' || ch == '_' || ch == '-' then ch else '_'

theorem toList_propertyName (c : Coordinate) : (propertyName c).toList =
    ((c.group.getD "").toList ++ '.' :: (c.name.toList ++ '.' :: (c.version.getD "").toList)).map
      cleaned := by
  simp only [propertyName, originKey, declaration, String.toList_ofList, String.toList_append,
    List.append_assoc]
  rfl

theorem isLocalName_of_isName (h : isName (propertyName c).toList = true) :
    IsLocalName (propertyName c) := by
  refine ⟨⟨?_, h⟩, ?_⟩
  · rw [toList_propertyName]
    simp
  · intro hcolon
    rw [toList_propertyName] at hcolon
    obtain ⟨ch, -, hch⟩ := List.mem_map.mp hcolon
    unfold cleaned at hch
    split at hch
    · next hclean =>
      subst hch
      exact absurd hclean (by decide)
    · exact absurd hch (by decide)

/-- A name that an element can have begins with a group. -/
theorem exists_group_of_isName (h : isName (propertyName c).toList = true) :
    ∃ g, c.group = some g ∧ g ≠ "" := by
  have hempty : c.group.getD "" ≠ "" := by
    intro hnone
    rw [toList_propertyName, hnone] at h
    -- the dot behind the group is the first character
    have hdot : isName ('.' :: (c.name.toList ++ '.' :: (c.version.getD "").toList).map cleaned) =
        true := h
    rw [isName, Bool.and_eq_true] at hdot
    exact absurd hdot.1 (by decide)
  cases hgroup : c.group with
  | none => exact absurd (by rw [hgroup]; rfl) hempty
  | some g =>
      rw [hgroup] at hempty
      exact ⟨g, rfl, hempty⟩

end Pom

/-! ## What is read -/

namespace Pom

variable {p : Pom} {c k : Coordinate}

/-- White space at the ends makes no difference to a reader that takes blanks from there. -/
theorem trimmed_stripped (value : String) : trimmed (stripped value) = trimmed value := by
  have hblank : ∀ ch, isSpace ch = true → Text.isBlank ch = true := by
    intro ch hch
    simp only [isSpace, Bool.or_eq_true, beq_iff_eq] at hch
    rcases hch with ((rfl | rfl) | rfl) | rfl
    all_goals decide
  have hfront : ∀ cs, Text.trim (cs.dropWhile isSpace) = Text.trim cs := by
    intro cs
    have hspaces : ∀ ch ∈ cs.takeWhile isSpace, Text.isBlank ch = true := fun ch hch =>
      hblank ch (List.mem_takeWhile_imp hch)
    rw [← Text.trim_blank_append hspaces, List.takeWhile_append_dropWhile]
  have hend : ∀ cs, Text.trim (dropEndSpace cs) = Text.trim cs := by
    intro cs
    have hspaces : ∀ ch ∈ (cs.reverse.takeWhile isSpace).reverse, Text.isBlank ch = true :=
      fun ch hch => hblank ch (List.mem_takeWhile_imp (List.mem_reverse.mp hch))
    rw [← Text.trim_append_blank hspaces, dropEndSpace, ← List.reverse_append,
      List.takeWhile_append_dropWhile, List.reverse_reverse]
  rw [trimmed, trimmed, stripped, String.toList_ofList, hend, hfront]

theorem resolve_stripped (p : Pom) (value : Option String) :
    p.resolve (value.map stripped) = p.resolve value := by
  cases value with
  | none => rfl
  | some v => simp only [Option.map_some, resolve, trimmed_stripped]

/-- A reader leaves every part of a coordinate as it is: there are no blanks at the ends of a part,
and the group and the version are no references, or stand for themselves. -/
structure Stands (p : Pom) (c : Coordinate) : Prop where
  group : p.resolve c.group = c.group
  name : trimmed c.name = c.name
  version : p.resolve c.version = c.version
  packaging : c.packaging.map trimmed = c.packaging
  classifier : c.classifier.map trimmed = c.classifier

/-- A value without blanks at the ends stands, unless it is a reference. -/
theorem resolve_of_plain (p : Pom) {value : String} (htrimmed : trimmed value = value)
    (hplain : referenceKey value.toList = none) : p.resolve (some value) = some value := by
  simp only [resolve, htrimmed, hplain]

theorem dependencyCoordinate_eq_some_iff {d : PomDependency} :
    p.dependencyCoordinate d = some k ↔ ∃ group artifact, p.resolve d.groupId = some group ∧
      group ≠ "" ∧ d.artifactId.map trimmed = some artifact ∧ artifact ≠ "" ∧
      k = maven group artifact (p.resolve d.version) (d.packaging.map trimmed)
        (d.classifier.map trimmed) := by
  have hfilter : ∀ {o : Option String} {v : String},
      o.filter (· ≠ "") = some v ↔ o = some v ∧ v ≠ "" := by
    intro o v
    rw [Option.filter_eq_some_iff, decide_eq_true_iff]
  unfold dependencyCoordinate
  constructor
  · intro h
    split at h
    · next group artifact hgroup hartifact =>
      obtain ⟨hgroup, hg⟩ := hfilter.mp hgroup
      obtain ⟨hartifact, ha⟩ := hfilter.mp hartifact
      exact ⟨group, artifact, hgroup, hg, hartifact, ha, (Option.some.inj h).symm⟩
    · exact absurd h (by simp)
  · rintro ⟨group, artifact, hgroup, hg, hartifact, ha, rfl⟩
    rw [hfilter.mpr ⟨hgroup, hg⟩, hfilter.mpr ⟨hartifact, ha⟩]

/-- What is left of a part, empty parts counting as absent, is the part exactly when nothing was
taken from it. -/
theorem filter_eq_iff {o part : Option String} (hne : part ≠ some "")
    (hnone : part = none → o = none) : o.filter (· ≠ "") = part ↔ o = part := by
  cases part with
  | none => simp [hnone rfl]
  | some v =>
      have hv : v ≠ "" := fun heq => hne (congrArg some heq)
      rw [Option.filter_eq_some_iff, decide_eq_true_iff]
      exact and_iff_left hv

section Release

variable (hcanonical : c.Canonical) (hmaven : c.ecosystem = "maven")

include hcanonical in
theorem classifier_ne : c.classifier ≠ some "" := by
  intro hclassifier
  exact hcanonical.values _ (StringMap.get?_eq_some_iff.mp hclassifier) rfl

include hcanonical hmaven in
/-- A Maven coordinate always has a packaging. -/
theorem exists_packaging : ∃ t, c.packaging = some t ∧ t ≠ "" := by
  unfold Coordinate.packaging
  split
  · next t ht =>
    refine ⟨t, rfl, ?_⟩
    rintro rfl
    exact hcanonical.values _ (StringMap.get?_eq_some_iff.mp ht) rfl
  · have hof : c.isMaven = true := beq_iff_eq.mpr hmaven
    exact ⟨Coordinate.defaultPackaging, if_pos hof, by decide⟩

/-- What a reader makes of the declaration of a coordinate. -/
theorem dependencyCoordinate_declaration_iff {g t : String} (hgroup : c.group = some g)
    (hpackaging : c.packaging = some t) :
    p.dependencyCoordinate (declaration c).reread = some k ↔
      ∃ group, p.resolve c.group = some group ∧ group ≠ "" ∧ trimmed c.name ≠ "" ∧
        k = maven group (trimmed c.name) (p.resolve c.version) (c.packaging.map trimmed)
          (c.classifier.map trimmed) := by
  have hmap : ∀ o : Option String, (o.map stripped).map trimmed = o.map trimmed := by
    intro o
    rw [Option.map_map]
    exact Option.map_congr fun v _ => trimmed_stripped v
  have hdeclared : (declaration c).reread = ⟨c.group.map stripped, some (stripped c.name),
      c.version.map stripped, c.packaging.map stripped, c.classifier.map stripped, none⟩ := by
    rw [hgroup, hpackaging, declaration, PomDependency.reread, hgroup, hpackaging]
    rfl
  rw [dependencyCoordinate_eq_some_iff, hdeclared]
  simp only [resolve_stripped, hmap, Option.map_some, trimmed_stripped]
  constructor
  · rintro ⟨group, artifact, hresolved, hg, hname, hne, heq⟩
    obtain rfl := Option.some.inj hname
    exact ⟨group, hresolved, hg, hne, heq⟩
  · rintro ⟨group, hresolved, hg, hne, heq⟩
    exact ⟨group, _, hresolved, hg, rfl, hne, heq⟩

include hcanonical hmaven in
/-- **A declaration is read as the same release exactly where every part of it stands.** -/
theorem exists_sameRelease_iff {g : String} (hgroup : c.group = some g) (hg : g ≠ "") :
    (∃ k, p.dependencyCoordinate (declaration c).reread = some k ∧ k.SameRelease c) ↔
      p.Stands c := by
  obtain ⟨t, hpackaging, ht⟩ := exists_packaging hcanonical hmaven
  have hname : c.name ≠ "" := fun h => hcanonical.name_ne (String.toList_eq_nil_iff.mpr h)
  have hversion : (p.resolve c.version).filter (· ≠ "") = c.version ↔
      p.resolve c.version = c.version := by
    refine filter_eq_iff (fun h => hcanonical.version_ne "" h rfl) fun h => ?_
    rw [h]
    rfl
  have hclassifier : (c.classifier.map trimmed).filter (· ≠ "") = c.classifier ↔
      c.classifier.map trimmed = c.classifier := by
    refine filter_eq_iff (classifier_ne hcanonical) fun h => ?_
    rw [h]
    rfl
  have hpackaged : some (((c.packaging.map trimmed).filter (· ≠ "")).getD
      Coordinate.defaultPackaging) = c.packaging ↔ c.packaging.map trimmed = c.packaging := by
    rw [hpackaging, Option.map_some]
    by_cases hempty : trimmed t = ""
    · -- only the packaging that is meant by none could be read, and that one is not blank
      have hjar : Coordinate.defaultPackaging ≠ t := by
        rintro rfl
        exact absurd hempty (by decide)
      have hnone : (some "").filter (· ≠ "") = none := rfl
      rw [hempty, hnone, Option.getD_none, Option.some_inj, Option.some_inj]
      exact iff_of_false hjar (Ne.symm ht)
    · rw [Option.filter_some_pos (by simpa using hempty), Option.getD_some]
  simp only [dependencyCoordinate_declaration_iff hgroup hpackaging]
  constructor
  · rintro ⟨k, ⟨group, hresolved, -, -, rfl⟩, ⟨-, hkgroup, hkname, hkpackaging, hkclassifier⟩,
      hkversion⟩
    rw [version_maven] at hkversion
    rw [packaging_maven] at hkpackaging
    rw [classifier_maven] at hkclassifier
    exact ⟨hresolved.trans hkgroup, hkname, hversion.mp hkversion, hpackaged.mp hkpackaging,
      hclassifier.mp hkclassifier⟩
  · rintro ⟨hsgroup, hsname, hsversion, hspackaging, hsclassifier⟩
    have hne : trimmed c.name ≠ "" := by
      rw [hsname]
      exact hname
    refine ⟨_, ⟨g, hsgroup.trans hgroup, hg, hne, rfl⟩, ⟨hmaven.symm, hgroup.symm,
      hsname, ?_, ?_⟩, ?_⟩
    · rw [packaging_maven]
      exact hpackaged.mpr hspackaging
    · rw [classifier_maven]
      exact hclassifier.mpr hsclassifier
    · rw [version_maven]
      exact hversion.mpr hsversion

end Release

end Pom

/-- A list is paired off with what is left of it exactly when nothing of it is dropped. -/
theorem forall₂_filterMap_iff {α β : Type} {R : β → α → Prop} {f : α → Option β} {l : List α} :
    List.Forall₂ R (l.filterMap f) l ↔ ∀ a ∈ l, ∃ b, f a = some b ∧ R b a := by
  induction l with
  | nil => simp
  | cons a l ih =>
      cases hfa : f a with
      | none =>
          rw [List.filterMap_cons_none hfa]
          refine iff_of_false (fun h => ?_) fun h => ?_
          · have hlength := h.length_eq
            have hle := List.length_filterMap_le f l
            rw [List.length_cons] at hlength
            omega
          · obtain ⟨b, hb, -⟩ := h a List.mem_cons_self
            exact absurd (hfa.symm.trans hb) (by simp)
      | some b => simp [List.filterMap_cons_some hfa, List.forall₂_cons, ih, hfa]

namespace Bundle

variable {b : Bundle} {found : List AnalysedArtifact} {cs : List Coordinate}

theorem Kept.namesElements (h : b.Kept found cs)
    (hnames : ∀ c ∈ cs, isName (Pom.propertyName c).toList = true) :
    Pom.NamesElements (b.manifest found).propertyMap := by
  intro e he
  obtain ⟨c, hc, hkey⟩ := h.declares.properties e he
  rw [hkey]
  exact Pom.isLocalName_of_isName (hnames c hc)

theorem Kept.dependencies_reread (h : b.Kept found cs) :
    (b.manifest found).reread.toManifest.dependencies = cs.filterMap fun c =>
      (b.manifest found).reread.dependencyCoordinate (Pom.declaration c).reread := by
  have hlist : (b.manifest found).reread.dependencyList =
      (b.manifest found).dependencyList.map PomDependency.reread := by
    unfold Pom.dependencyList Pom.reread
    cases (b.manifest found).dependencies <;> rfl
  simp only [Pom.toManifest, hlist, h.declares.dependencies, List.filterMap_map,
    Function.comp_def]

/-- What a reader finds declared is what was kept, as far as it stands. -/
theorem Kept.forall₂_iff (h : b.Kept found cs)
    (hnames : ∀ c ∈ cs, isName (Pom.propertyName c).toList = true) :
    List.Forall₂ Coordinate.SameRelease (b.manifest found).reread.toManifest.dependencies cs ↔
      ∀ c ∈ cs, (b.manifest found).reread.Stands c := by
  rw [h.dependencies_reread, forall₂_filterMap_iff]
  refine forall₂_congr fun c hc => ?_
  obtain ⟨a, -, hkeeps⟩ := h.exists_of_mem hc
  obtain ⟨g, hgroup, hg⟩ := Pom.exists_group_of_isName (hnames c hc)
  exact Pom.exists_sameRelease_iff (Coordinate.canonical_of_parse hkeeps.read) hkeeps.maven
    hgroup hg

/-- **A manifest declares what was found in the deliverable**, as long as the properties that record
the coordinates have names that elements can have. It is written, and read back as a manifest whose
dependencies are the releases that were kept, one for one and in their order, exactly where a reader
leaves every part of them as it is. -/
theorem declared_iff (b : Bundle) (found : List AnalysedArtifact)
    (hnames : ∀ a ∈ found, ∀ c, b.Keeps a c → isName (Pom.propertyName c).toList = true) :
    ∃ cs text p, b.Kept found cs ∧ (b.manifest found).render = .ok text ∧
      Pom.parse text = .ok p ∧ Manifest.parsePom text = .ok p.toManifest ∧
      (List.Forall₂ Coordinate.SameRelease p.toManifest.dependencies cs ↔
        ∀ c ∈ cs, p.Stands c) := by
  obtain ⟨cs, hkept⟩ := exists_kept b found
  have hcs : ∀ c ∈ cs, isName (Pom.propertyName c).toList = true := by
    intro c hc
    obtain ⟨a, ha, hkeeps⟩ := hkept.exists_of_mem hc
    exact hnames a ha c hkeeps
  obtain ⟨text, hrender, hparse⟩ := Pom.parse_render (hkept.namesElements hcs)
  refine ⟨cs, text, _, hkept, hrender, hparse, ?_, hkept.forall₂_iff hcs⟩
  rw [Manifest.parsePom, hparse]
  rfl

/-! ### Two deliverables -/

theorem keeps_of_read {a : AnalysedArtifact} (hfound : a.foundIn b.url = true)
    (houtside : a.isNested = false) (hread : Coordinate.parse a.purl = .ok c)
    (hmaven : c.ecosystem = "maven") : b.Keeps a c where
  here := foundIn_iff.mp hfound
  outside := isNested_eq_false_iff.mp houtside
  read := hread
  maven := hmaven

/-- A milestone of a product, as a deliverable of its own. -/
def milestone : Bundle where
  url := none
  operationId := "OP"
  group := "acme"
  artifact := "1.0"
  version := some "app-1.0.zip"

/-- An artifact with this package URL, of which nothing else is known. -/
def artifactAt (purl : String) : AnalysedArtifact := ⟨"1", purl, [], none⟩

/-- The same milestone, delivered in an archive of its own. -/
def archived : Bundle := { milestone with url := some "https://example.org/app-1.0.zip" }

/-- What was found: a library in the archive, one that was inside that library only, one in another
archive, and the tests of the first, of which no archive is known. -/
def foundTogether : List AnalysedArtifact := [
  ⟨"1", "pkg:maven/org.acme/lib@2.4.1", ["app/lib.jar"], some "https://example.org/app-1.0.zip"⟩,
  ⟨"2", "pkg:maven/org.acme/inner@1.0", ["app/lib.jar!/inner.jar"], none⟩,
  ⟨"3", "pkg:maven/org.acme/other@3.0", [], some "https://example.org/other.zip"⟩,
  ⟨"4", "pkg:maven/org.acme/lib@2.4.1?classifier=tests", [], none⟩]

/-- The library. -/
def library : Coordinate := ⟨"maven", some "org.acme", "lib", some "2.4.1", .empty, none⟩

/-- Its tests. -/
def libraryTests : Coordinate :=
  { library with qualifiers := StringMap.empty.insert "classifier" "tests" }

/-- The library and its tests are what is kept. -/
theorem kept_foundTogether : archived.Kept foundTogether [library, libraryTests] := by
  refine .keep ?library (.leave ?inner (.leave ?other (.keep ?tests .nil)))
  case library => exact keeps_of_read (by decide) (by decide) (by cbv) rfl
  case inner =>
    intro c h
    have houtside := isNested_eq_false_iff.mpr h.outside
    exact absurd houtside (by decide)
  case other =>
    intro c h
    exact absurd (h.here _ _ rfl rfl) (by decide)
  case tests => exact keeps_of_read (by decide) (by decide) (by cbv) rfl

theorem stands_libraries (p : Pom) : ∀ c ∈ [library, libraryTests], p.Stands c := by
  have hgroup : p.resolve (some "org.acme") = some "org.acme" :=
    p.resolve_of_plain (by decide) (by decide)
  have hversion : p.resolve (some "2.4.1") = some "2.4.1" :=
    p.resolve_of_plain (by decide) (by decide)
  simp only [List.forall_mem_cons]
  exact ⟨⟨hgroup, by decide, hversion, by decide, by decide⟩,
    ⟨hgroup, by decide, hversion, by decide, by decide⟩, fun _ hc => absurd hc List.not_mem_nil⟩

theorem declared_iff_libraries :
    (∀ a ∈ foundTogether, ∀ c, archived.Keeps a c →
      isName (Pom.propertyName c).toList = true) ∧
    ∃ text p, (archived.manifest foundTogether).render = .ok text ∧ Pom.parse text = .ok p ∧
      List.Forall₂ Coordinate.SameRelease p.toManifest.dependencies [library, libraryTests] := by
  have hnamed : ∀ c ∈ [library, libraryTests], isName (Pom.propertyName c).toList = true := by
    decide
  have hnames : ∀ a ∈ foundTogether, ∀ c, archived.Keeps a c →
      isName (Pom.propertyName c).toList = true := fun a ha c hkeeps =>
    hnamed c (kept_foundTogether.mem_of_keeps ha hkeeps)
  obtain ⟨cs, text, p, hkept, hrender, hparse, -, hdeclared⟩ :=
    declared_iff archived foundTogether hnames
  obtain rfl := hkept.unique kept_foundTogether
  exact ⟨hnames, text, p, hrender, hparse, hdeclared.mpr (stands_libraries p)⟩

/-- A library in a version that is a reference to another version. -/
def referring : Coordinate :=
  ⟨"maven", some "g", "a", some "$\x7bproject.version\x7d", .empty, none⟩

theorem keeps_referring :
    milestone.Keeps (artifactAt "pkg:maven/g/a@$%7Bproject.version%7D") referring :=
  keeps_of_read rfl rfl (by cbv) rfl

/-- Its document is read with the version of the deliverable in the place of the reference. -/
theorem not_declared_referring :
    ¬ ∃ cs text m, milestone.Kept [artifactAt "pkg:maven/g/a@$%7Bproject.version%7D"] cs ∧
      (milestone.manifest [artifactAt "pkg:maven/g/a@$%7Bproject.version%7D"]).render = .ok text ∧
      Manifest.parsePom text = .ok m ∧
      List.Forall₂ Coordinate.SameRelease m.dependencies cs := by
  rintro ⟨cs, text, m, hkept, hrender, hparse, hdeclared⟩
  obtain rfl := hkept.unique (.keep keeps_referring .nil)
  have hnames : ∀ c ∈ [referring], isName (Pom.propertyName c).toList = true := by
    intro c hc
    obtain rfl := List.mem_singleton.mp hc
    decide
  obtain ⟨text', hrender', hparse'⟩ := Pom.parse_render (hkept.namesElements hnames)
  obtain rfl := Except.ok.inj (hrender.symm.trans hrender')
  rw [Manifest.parsePom, hparse'] at hparse
  obtain rfl := Except.ok.inj hparse
  have hversion := ((hkept.forall₂_iff hnames).mp hdeclared referring List.mem_cons_self).version
  -- the reference stands for the version of the project, and that is another one
  have hresolved : ∀ p : Pom, p.resolve referring.version = p.version := fun _ => rfl
  rw [hresolved, Pom.reread, version_manifest] at hversion
  exact absurd hversion (by decide)

end Bundle

end BomAssembly
