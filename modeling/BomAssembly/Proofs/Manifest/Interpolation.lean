import BomAssembly.Proofs.Manifest.Bundle

/-!
# What becomes of references in a dependency

A part of a dependency may be a reference to a property, the property may be a reference again, and so
on to a plain value (`Pom.LeadsTo`). A reader looks one step far, and only for the group and the
version. So these two get the value that a chain of references ends in exactly when the chain has one
link; a longer one leaves its second link in the coordinate, and the other parts keep the reference as
it is written (`Pom.part_eq_iff`). In no case is a dependency dropped for a reference that leads
somewhere (`Pom.listed_iff`).
-/

namespace BomAssembly

open Text (trimmed)

/-! ## The parts of a dependency -/

/-- The parts of a dependency that its coordinate is made of. -/
inductive PomDependency.Part where
  | group
  | artifact
  | version
  | packaging
  | classifier
  deriving DecidableEq

namespace PomDependency

/-- What is written for a part. -/
def text (d : PomDependency) : Part → Option String
  | .group => d.groupId
  | .artifact => d.artifactId
  | .version => d.version
  | .packaging => d.packaging
  | .classifier => d.classifier

/-- The dependency with another text for a part. -/
def write (d : PomDependency) (part : Part) (text : String) : PomDependency :=
  match part with
  | .group => { d with groupId := some text }
  | .artifact => { d with artifactId := some text }
  | .version => { d with version := some text }
  | .packaging => { d with packaging := some text }
  | .classifier => { d with classifier := some text }

/-- What a coordinate has for a part. -/
def Part.of (part : Part) (c : Coordinate) : Option String :=
  match part with
  | .group => c.group
  | .artifact => some c.name
  | .version => c.version
  | .packaging => c.packaging
  | .classifier => c.classifier

/-- The parts in which references are replaced. -/
def Part.Replaced (part : Part) : Prop := part = .group ∨ part = .version

instance (part : Part) : Decidable part.Replaced := inferInstanceAs (Decidable (_ ∨ _))

theorem write_text {d : PomDependency} {part : Part} {text : String}
    (h : d.text part = some text) : d.write part text = d := by
  cases part
  all_goals
    rw [write, ← h]
    rfl

end PomDependency

open PomDependency (Part)

namespace Pom

variable {p : Pom} {d : PomDependency} {part : Part} {c : Coordinate} {text key next value : String}

/-! ## References -/

/-- A text is a reference to a key, blanks aside. -/
structure Refers (text key : String) : Prop where
  whole : (trimmed text).toList = '$' :: '\x7b' :: (key.toList ++ ['\x7d'])
  key_ne : key ≠ ""
  closed : '\x7d' ∉ key.toList

theorem referenceKey_eq_some_iff {cs key : List Char} : referenceKey cs = some key ↔
    cs = '$' :: '\x7b' :: (key ++ ['\x7d']) ∧ key ≠ [] ∧ '\x7d' ∉ key := by
  constructor
  · intro h
    unfold referenceKey at h
    split at h
    · next rest =>
      split at h
      · next back hback =>
        split at h
        · next hkey =>
          obtain rfl := Option.some.inj h
          rw [List.reverse_eq_cons_iff.mp hback]
          exact ⟨rfl, mt List.reverse_eq_nil_iff.mp hkey.1, mt List.mem_reverse.mp hkey.2⟩
        · exact absurd h (by simp)
      · exact absurd h (by simp)
    · exact absurd h (by simp)
  · rintro ⟨rfl, hne, hclosed⟩
    have hback : (key ++ ['\x7d']).reverse = '\x7d' :: key.reverse := by simp
    have hkey : key.reverse ≠ [] ∧ '\x7d' ∉ key.reverse :=
      ⟨mt List.reverse_eq_nil_iff.mp hne, mt List.mem_reverse.mp hclosed⟩
    simp only [referenceKey, hback, if_pos hkey, List.reverse_reverse]

theorem Refers.referenceKey (h : Refers text key) :
    referenceKey (trimmed text).toList = some key.toList :=
  referenceKey_eq_some_iff.mpr ⟨h.whole, mt String.toList_eq_nil_iff.mp h.key_ne, h.closed⟩

theorem not_refers_of_eq_none (h : Pom.referenceKey (trimmed text).toList = none) (key : String) :
    ¬ Refers text key := fun href => absurd (href.referenceKey.symm.trans h) (by simp)

theorem Refers.trimmed_ne (h : Refers text key) : trimmed text ≠ "" := by
  intro hempty
  have hwhole := h.whole
  rw [hempty] at hwhole
  exact absurd hwhole (by simp)

theorem Refers.ne (h : Refers text key) : text ≠ "" := by
  rintro rfl
  exact h.trimmed_ne rfl

/-- Blanks around a reference make no difference. -/
theorem Refers.trimmed (h : Refers text key) : Refers (trimmed text) key :=
  ⟨by rw [Text.trimmed_trimmed]; exact h.whole, h.key_ne, h.closed⟩

/-- What a key stands for: two keys for the version of the project itself, two for its group, and every
other one for the property of that name. -/
def meant? (p : Pom) (key : String) : Option String :=
  if key = "project.version" ∨ key = "pom.version" then p.version
  else if key = "project.groupId" ∨ key = "pom.groupId" then p.groupId
  else p.propertyMap.get? key

/-- A text is a reference to a value. -/
def Direct (p : Pom) (text value : String) : Prop :=
  ∃ key, Refers text key ∧ p.meant? key = some value

/-- A text is a reference from which references lead on to a plain value. -/
inductive LeadsTo (p : Pom) : String → String → Prop
  | last {text value : String} (h : p.Direct text value) (hplain : ∀ key, ¬ Refers value key)
    (hne : value ≠ "") : LeadsTo p text value
  | step {text next value : String} (h : p.Direct text next) (hnext : LeadsTo p next value) :
    LeadsTo p text value

/-- **A reader looks one step far.** -/
theorem resolve_of_direct (h : p.Direct text value) : p.resolve (some text) = some value := by
  obtain ⟨key, href, hvalue⟩ := h
  unfold meant? at hvalue
  simp only [resolve, href.referenceKey, String.ofList_toList]
  split at hvalue
  · next hkey => rw [if_pos hkey, hvalue]
  · next hversion =>
    rw [if_neg hversion]
    split at hvalue
    · next hkey => rw [if_pos hkey, hvalue]
    · next hgroup =>
      rw [if_neg hgroup]
      exact congrArg some (by rw [← propertyMap, hvalue]; rfl)

theorem Direct.unique (h : p.Direct text value) (h' : p.Direct text next) : value = next :=
  Option.some.inj ((resolve_of_direct h).symm.trans (resolve_of_direct h'))

namespace LeadsTo

theorem plain (h : p.LeadsTo text value) : ∀ key, ¬ Refers value key := by
  induction h with
  | last _ hplain _ => exact hplain
  | step _ _ ih => exact ih

/-- The first link leads to the value itself or to another reference. -/
theorem exists_direct (h : p.LeadsTo text value) : ∃ next, p.Direct text next ∧ next ≠ "" ∧
    (next = value ∨ ∃ key, Refers next key) := by
  cases h with
  | last h _ hne => exact ⟨value, h, hne, .inl rfl⟩
  | @step _ next _ h hnext =>
      obtain ⟨key, href⟩ : ∃ key, Refers next key := by
        cases hnext with
        | last h _ _ | step h _ => exact ⟨h.choose, h.choose_spec.1⟩
      exact ⟨next, h, href.ne, .inr ⟨key, href⟩⟩

theorem exists_refers (h : p.LeadsTo text value) : ∃ key, Refers text key := by
  obtain ⟨next, ⟨key, href, -⟩, -⟩ := h.exists_direct
  exact ⟨key, href⟩

end LeadsTo

/-! ## What is listed -/

/-- A dependency is listed when it has a group and an artifact. -/
theorem isSome_dependencyCoordinate_iff : (p.dependencyCoordinate d).isSome ↔
    (∃ group, p.resolve d.groupId = some group ∧ group ≠ "") ∧
      ∃ artifact, d.artifactId.map trimmed = some artifact ∧ artifact ≠ "" := by
  rw [Option.isSome_iff_exists]
  constructor
  · rintro ⟨c, hc⟩
    obtain ⟨group, artifact, hgroup, hg, hartifact, ha, -⟩ := dependencyCoordinate_eq_some_iff.mp hc
    exact ⟨⟨group, hgroup, hg⟩, artifact, hartifact, ha⟩
  · rintro ⟨⟨group, hgroup, hg⟩, artifact, hartifact, ha⟩
    exact ⟨_, dependencyCoordinate_eq_some_iff.mpr ⟨group, artifact, hgroup, hg, hartifact, ha, rfl⟩⟩

/-- **No dependency is dropped for a reference that leads somewhere**: if any text in its place would
have the dependency listed, it is. -/
theorem listed_iff (htext : d.text part = some text) (h : p.LeadsTo text value) :
    (p.dependencyCoordinate d).isSome ↔
      ∃ other, (p.dependencyCoordinate (d.write part other)).isSome := by
  constructor
  · intro hlisted
    exact ⟨text, by rw [PomDependency.write_text htext]; exact hlisted⟩
  · rintro ⟨other, hother⟩
    obtain ⟨next, hdirect, hne, -⟩ := h.exists_direct
    obtain ⟨key, href⟩ := h.exists_refers
    rw [isSome_dependencyCoordinate_iff] at hother ⊢
    obtain ⟨hgroup, hartifact⟩ := hother
    cases part with
    | group =>
        have hgroupId : d.groupId = some text := htext
        exact ⟨⟨next, by rw [hgroupId, resolve_of_direct hdirect], hne⟩, hartifact⟩
    | artifact =>
        have hartifactId : d.artifactId = some text := htext
        exact ⟨hgroup, trimmed text, by rw [hartifactId]; rfl, href.trimmed_ne⟩
    | version | packaging | classifier => exact ⟨hgroup, hartifact⟩

/-! ## What is carried -/

/-- A part in which references are replaced has what the reference stands for; every other part has the
reference. -/
theorem part_of_direct (htext : d.text part = some text) (h : p.Direct text next) (hne : next ≠ "")
    (hc : p.dependencyCoordinate d = some c) :
    part.of c = some (if part.Replaced then next else trimmed text) := by
  obtain ⟨key, href, -⟩ := id h
  have hresolve := resolve_of_direct h
  have hkept : (some (trimmed text)).filter (· ≠ "") = some (trimmed text) :=
    Option.filter_some_pos (decide_eq_true href.trimmed_ne)
  obtain ⟨group, artifact, hgroup, -, hartifact, -, rfl⟩ := dependencyCoordinate_eq_some_iff.mp hc
  cases part with
  | group =>
      have hgroupId : d.groupId = some text := htext
      rw [hgroupId, hresolve] at hgroup
      exact hgroup.symm
  | artifact =>
      have hartifactId : d.artifactId = some text := htext
      rw [hartifactId] at hartifact
      exact hartifact.symm
  | version =>
      have hversion : d.version = some text := htext
      show (Coordinate.maven _ _ _ _ _).version = _
      rw [Coordinate.version_maven, hversion, hresolve]
      exact Option.filter_some_pos (decide_eq_true hne)
  | packaging =>
      have hpackaging : d.packaging = some text := htext
      show (Coordinate.maven _ _ _ _ _).packaging = _
      rw [Coordinate.packaging_maven, hpackaging, Option.map_some, hkept]
      rfl
  | classifier =>
      have hclassifier : d.classifier = some text := htext
      show (Coordinate.maven _ _ _ _ _).classifier = _
      rw [Coordinate.classifier_maven, hclassifier, Option.map_some, hkept]
      rfl

/-- **A chain of references is followed for the group and the version, and for one link.** Else a
reference is left in the place. -/
theorem part_eq_iff (htext : d.text part = some text) (h : p.LeadsTo text value)
    (hc : p.dependencyCoordinate d = some c) :
    (part.of c = some value ↔ part.Replaced ∧ p.Direct text value) ∧
      (part.of c = some value ∨ ∃ left key, part.of c = some left ∧ Refers left key) := by
  obtain ⟨next, hdirect, hne, hnext⟩ := h.exists_direct
  obtain ⟨key, href⟩ := h.exists_refers
  have hpart := part_of_direct htext hdirect hne hc
  by_cases hreplaced : part.Replaced
  · rw [if_pos hreplaced] at hpart
    refine ⟨⟨fun heq => ⟨hreplaced, ?_⟩, fun hvalue => ?_⟩, ?_⟩
    · rw [← Option.some.inj (hpart.symm.trans heq)]
      exact hdirect
    · rw [hpart, hvalue.2.unique hdirect]
    · rcases hnext with rfl | ⟨key, hnext⟩
      · exact .inl hpart
      · exact .inr ⟨next, key, hpart, hnext⟩
  · rw [if_neg hreplaced] at hpart
    refine ⟨iff_of_false (fun heq => ?_) fun hvalue => hreplaced hvalue.1,
      .inr ⟨trimmed text, key, hpart, href.trimmed⟩⟩
    -- the value is plain, and what stands in the part is the reference
    have hvalue := Option.some.inj (hpart.symm.trans heq)
    exact h.plain key (hvalue ▸ href.trimmed)

/-- **References in a dependency.** Where a part is a reference that leads to a plain value, directly or
by other references, the dependency is not dropped for it, and its coordinate, which is in the manifest,
has the value there exactly if the part is the group or the version and the reference leads to the value
directly; else it has a reference there. -/
theorem interpolated_iff (hd : d ∈ p.dependencyList) (htext : d.text part = some text)
    (h : p.LeadsTo text value) :
    ((p.dependencyCoordinate d).isSome ↔
      ∃ other, (p.dependencyCoordinate (d.write part other)).isSome) ∧
    ∀ c, p.dependencyCoordinate d = some c → c ∈ p.toManifest.dependencies ∧
      (part.of c = some value ↔ part.Replaced ∧ p.Direct text value) ∧
      (part.of c = some value ∨ ∃ left key, part.of c = some left ∧ Refers left key) :=
  ⟨listed_iff htext h, fun _ hc => ⟨List.mem_filterMap.mpr ⟨d, hd, hc⟩, part_eq_iff htext h hc⟩⟩

/-! ### A project with references -/

/-- A library of which a project tells everything by references. -/
def library : PomDependency where
  groupId := some "$\x7blib.group\x7d"
  artifactId := some "$\x7blib.name\x7d"
  version := some "$\x7bproject.version\x7d"
  packaging := none
  classifier := none
  scope := none

/-- The project, whose own version is a reference, too. -/
def application : Pom where
  xmlns := none
  modelVersion := none
  groupId := some "acme"
  artifactId := some "app"
  version := some "$\x7brevision\x7d"
  packaging := none
  description := none
  properties := some (.ofList
    [("lib.group", "org.acme"), ("lib.name", "lib"), ("revision", "2.4.1")])
  dependencies := some [library]

theorem direct_group : application.Direct "$\x7blib.group\x7d" "org.acme" :=
  ⟨"lib.group", ⟨by decide, by decide, by decide⟩, by decide⟩

theorem leadsTo_artifact : application.LeadsTo "$\x7blib.name\x7d" "lib" :=
  .last ⟨"lib.name", ⟨by decide, by decide, by decide⟩, by decide⟩
    (not_refers_of_eq_none (by decide)) (by decide)

theorem leadsTo_version : application.LeadsTo "$\x7bproject.version\x7d" "2.4.1" := by
  have hown : application.Direct "$\x7bproject.version\x7d" "$\x7brevision\x7d" :=
    ⟨"project.version", ⟨by decide, by decide, by decide⟩, by decide⟩
  have hproperty : application.Direct "$\x7brevision\x7d" "2.4.1" :=
    ⟨"revision", ⟨by decide, by decide, by decide⟩, by decide⟩
  exact .step hown (.last hproperty (not_refers_of_eq_none (by decide)) (by decide))

/-- The group is the one that the property holds. -/
theorem interpolated_iff_group :
    library ∈ application.dependencyList ∧ library.text .group = some "$\x7blib.group\x7d" ∧
    application.LeadsTo "$\x7blib.group\x7d" "org.acme" ∧
    ∃ c ∈ application.toManifest.dependencies, Part.group.of c = some "org.acme" := by
  have hmem : library ∈ application.dependencyList := List.mem_singleton.mpr rfl
  have htext : library.text .group = some "$\x7blib.group\x7d" := rfl
  have hleads : application.LeadsTo "$\x7blib.group\x7d" "org.acme" :=
    .last direct_group (not_refers_of_eq_none (by decide)) (by decide)
  obtain ⟨hlisted, hcarried⟩ := interpolated_iff hmem htext hleads
  obtain ⟨c, hc⟩ := Option.isSome_iff_exists.mp (hlisted.mpr ⟨"g", by decide⟩)
  obtain ⟨hdeclared, hvalue, -⟩ := hcarried c hc
  exact ⟨hmem, htext, hleads, c, hdeclared, hvalue.mpr ⟨.inl rfl, direct_group⟩⟩

/-- The artifact and the version are left as references, although the project knows both; in the
coordinate of the project itself the version is there. -/
theorem not_interpolated_application :
    library ∈ application.dependencyList ∧
    (library.text .artifact = some "$\x7blib.name\x7d" ∧
      application.LeadsTo "$\x7blib.name\x7d" "lib") ∧
    (library.text .version = some "$\x7bproject.version\x7d" ∧
      application.LeadsTo "$\x7bproject.version\x7d" "2.4.1") ∧
    (application.dependencyCoordinate library).isSome ∧
    (∀ c ∈ application.toManifest.dependencies,
      Part.artifact.of c ≠ some "lib" ∧ Part.version.of c ≠ some "2.4.1") ∧
    ∃ root, application.toManifest.root = some root ∧ root.version = some "2.4.1" :=
  ⟨List.mem_singleton.mpr rfl, ⟨rfl, leadsTo_artifact⟩, ⟨rfl, leadsTo_version⟩, by decide, by decide,
    _, rfl, by decide⟩

end Pom

end BomAssembly
