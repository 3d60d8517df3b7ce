import BomAssembly.Proofs.Bom.Kept
import BomAssembly.Proofs.Json.RoundTrip
import BomAssembly.Proofs.Reconcile.Wiring

/-!
# A written document is the one that was read

Whatever was read, and whatever a pass made of it, is written so that both readers read it back, with
everything in it that the library does not know (`Bom.written_reads_back`).

A document that was read is clean and leaves room for its own nesting. A pass keeps it so: a copy holds
nothing that its source did not hold at the same depth, and an entry that is appended carries nothing
along. What is clean is written as a value that fits into a text, and such a value is read back.
-/

namespace BomAssembly

/-! ## A pass over a clean document -/

namespace Reconcile

open Bom (Grows)

variable {d : Nat} {m : Manifest} {b : Bom}

theorem foldl_better_mem {k : Coordinate} {cs : List (Component × Coordinate)}
    {best : Option (Component × Nat)} {source : Component} {score : Nat}
    (h : cs.foldl (better k) best = some (source, score)) :
    best = some (source, score) ∨ ∃ c ∈ cs, c.1 = source := by
  induction cs generalizing best with
  | nil => exact .inl h
  | cons c cs ih =>
      rcases ih h with hfirst | ⟨e, he, hsource⟩
      · -- the better of two is one of them
        unfold better at hfirst
        split at hfirst
        · exact .inl hfirst
        · exact .inr ⟨c, List.mem_cons_self, congrArg Prod.fst (Option.some.inj hfirst)⟩
        · split at hfirst
          · exact .inr ⟨c, List.mem_cons_self, congrArg Prod.fst (Option.some.inj hfirst)⟩
          · exact .inl hfirst
      · exact .inr ⟨e, List.mem_cons_of_mem c he, hsource⟩

/-- Only components are copied. -/
theorem source_mem_of_mem_chosen {c : Choice} (h : c ∈ chosen m b) : c.source ∈ b.components := by
  have hbest : (candidates b).foldl (better c.declared) none = some (c.source, c.score) :=
    (of_mem_choices h).2
  obtain ⟨e, he, hsource⟩ := (foldl_better_mem hbest).resolve_left nofun
  obtain ⟨source, hmem, heq⟩ := List.mem_filterMap.mp he
  obtain ⟨k, -, rfl⟩ := Option.map_eq_some_iff.mp heq
  exact hsource ▸ hmem

/-- A pass that looks at what is declared only adds, and wires just what it adds. -/
theorem grows_of_ne (hcount : m.size ≠ b.components.length) : Grows b (reconcile m b).1 := by
  have hextends := extends_of_ne (m := m) hcount
  obtain ⟨clones, hcomponents, -⟩ := hextends.components
  refine ⟨hextends.rest, ⟨clones, hcomponents.symm⟩, ?_⟩
  by_cases hadded : (reconcile m b).2.added = []
  · rw [hextends.idle hadded]
  · obtain ⟨new, -, hlabels⟩ := (hextends.wired hadded).2.kept
    have hextras := congrArg (List.map Prod.snd) hlabels
    rw [List.map_append, List.map_map, List.map_map] at hextras
    exact ⟨_, hextras.symm⟩

/-- **A pass only adds**: it leaves what was there in front. -/
theorem grows_reconcile (m : Manifest) (b : Bom) : Grows b (reconcile m b).1 := by
  by_cases hcount : m.size = b.components.length
  · rw [reconcile_of_eq hcount]
    exact .refl b
  · exact grows_of_ne hcount

end Reconcile

/-! ## What stays clean -/

section Clean

variable {d : Nat} {m : Manifest} {b : Bom}

theorem Component.Clean.cloneAs {c : Component} (h : c.Clean d) (k : Coordinate) :
    (c.cloneAs k).Clean d where
  hashes := nofun
  licenses := h.licenses
  externalReferences := h.externalReferences
  properties := h.properties
  extra := .nil names (d + 2)

open Reconcile (reconcile)

/-- Components that a pass adds are copies of clean ones. -/
theorem Reconcile.clean_of_mem_components (h : b.Clean d) (hcount : m.size ≠ b.components.length) :
    ∀ c ∈ (reconcile m b).1.components, c.Clean d := by
  intro c hc
  rw [reconcile_of_ne hcount, components_run] at hc
  rcases List.mem_append.mp hc with hc | hc
  · exact h.components c hc
  · obtain ⟨choice, hchoice, rfl⟩ := List.mem_map.mp hc
    exact (h.components _ (source_mem_of_mem_chosen hchoice)).cloneAs choice.declared

/-- Entries that a pass appends carry nothing along. -/
theorem Reconcile.clean_of_mem_entries (h : b.Clean d) (hcount : m.size ≠ b.components.length) :
    ∀ e ∈ entries (reconcile m b).1, e.Clean d := by
  have hbefore : ∀ e ∈ entries b, e.Clean d := by
    intro e he
    cases hdependencies : b.dependencies with
    | none => simp [entries, hdependencies] at he
    | some ds =>
        rw [entries, hdependencies] at he
        exact h.dependencies ds hdependencies e he
  have hextends := extends_of_ne (m := m) hcount
  by_cases hadded : (reconcile m b).2.added = []
  · rw [hextends.idle hadded]
    exact hbefore
  · intro e he
    obtain ⟨new, -, hlabels⟩ := (hextends.wired hadded).2.kept
    have hmem : (e.ref, e.extra) ∈ (entries (reconcile m b).1).map fun e => (e.ref, e.extra) :=
      List.mem_map_of_mem he
    rw [hlabels] at hmem
    rcases List.mem_append.mp hmem with hold | hnew
    · obtain ⟨e', he', heq⟩ := List.mem_map.mp hold
      have hclean := hbefore e' he'
      rw [Dependency.Clean, (Prod.mk.inj heq).2] at hclean
      exact hclean
    · obtain ⟨ref, -, heq⟩ := List.mem_map.mp hnew
      rw [Dependency.Clean, ← (Prod.mk.inj heq).2]
      exact .nil _ _

/-- **What a pass makes of a clean document is clean.** -/
theorem Bom.Clean.reconcile (h : b.Clean d) (m : Manifest) : (reconcile m b).1.Clean d := by
  by_cases hcount : m.size = b.components.length
  · rw [Reconcile.reconcile_of_eq hcount]
    exact h
  · have hgrows := Reconcile.grows_reconcile m b
    refine ⟨?_, ?_, Reconcile.clean_of_mem_components h hcount, fun ds hds e he => ?_, ?_⟩
    · rw [hgrows.version]
      exact h.version
    · rw [hgrows.metadata]
      exact h.metadata
    · refine Reconcile.clean_of_mem_entries h hcount e ?_
      rw [Reconcile.entries, hds]
      exact he
    · rw [hgrows.extra]
      exact h.extra

end Clean

/-! ## Written and read -/

namespace Bom

open Reconcile (reconcile)

/-- The text of a document names its format. -/
theorem contains_render (b : Bom) : Text.contains b.render formatMarker = true := by
  obtain ⟨fs, hfs⟩ : ∃ fs, b.toJson = .obj (("bomFormat", .str b.format) :: fs) := ⟨_, rfl⟩
  have hmarker : Json.writeString "bomFormat" = formatMarker.toList := by cbv
  rw [Text.contains, render, hfs, Json.indented, String.toList_ofList, Json.writeIndented, hmarker]
  simp only [List.append_assoc]
  exact Text.occurs_iff.mpr (List.infix_append' ('\x7b' :: Json.newLine 1) _ _)

/-- How deep the fields of a link may be nested, in a document that is read. -/
def room : Nat := Json.maxDepth - 5

/-- A clean document is read back. -/
theorem parse_render {b : Bom} (h : b.Clean room) (hformat : b.format = formatName) (strict : Bool) :
    parse strict b.render = .ok b ∧ Json.readWritten .any b.render = some b.toJson := by
  have hread : Json.readWritten .any b.render = some b.toJson :=
    Json.readWritten_indented (fits_toJson h)
  refine ⟨?_, hread⟩
  rw [parse, contains_render, hread, Option.bind_some, ofJson?_toJson h, Bool.not_true,
    Bool.and_false, if_neg Bool.false_ne_true]
  exact if_pos hformat

section Parsed

variable {strict : Bool} {content : String} {b : Bom} {v : Json}

theorem of_parse (hb : parse strict content = .ok b) (hv : Json.readWritten .any content = some v) :
    ofJson? v = some b ∧ b.format = formatName := by
  rw [parse, hv, Option.bind_some] at hb
  split at hb
  · exact absurd hb (by simp)
  · split at hb
    · exact absurd hb (by simp)
    · next b' hread =>
      split at hb
      · next hformat =>
        obtain rfl := Except.ok.inj hb
        exact ⟨hread, hformat⟩
      · exact absurd hb (by simp)

theorem clean_of_parse (hb : parse strict content = .ok b)
    (hv : Json.readWritten .any content = some v) (hnumbers : ∀ n ∈ v.numbers, n.Whole) :
    b.Clean room :=
  clean_of_ofJson? (of_parse hb hv).1 ⟨Json.height_le_of_readWritten hv, hnumbers⟩

end Parsed

/-- **Nothing is lost.** What was read from a text without fractions, and what a pass made of it, is
written as a text that either reader reads as the same document, and that holds whatever the document
held that is no field of a record. Whether a component gave its identifier under the one name or the
other makes no difference. -/
theorem written_reads_back {strict : Bool} {content : String} {b out : Bom} {v : Json}
    (hb : parse strict content = .ok b) (hv : Json.readWritten .any content = some v)
    (hnumbers : ∀ n ∈ v.numbers, n.Whole) (hout : out = b ∨ ∃ m, out = (reconcile m b).1) :
    (∀ strict, parse strict out.render = .ok out) ∧
    (∃ w, Json.readWritten .any out.render = some w ∧ Kept v w) ∧
    ∀ fs, Component.ofJson? (.obj (Component.named fs)) = Component.ofJson? (.obj fs) := by
  obtain ⟨hread, hformat⟩ := of_parse hb hv
  have hclean : b.Clean room := clean_of_parse hb hv hnumbers
  have hgrows : Grows b out := by
    rcases hout with rfl | ⟨m, rfl⟩
    · exact .refl out
    · exact Reconcile.grows_reconcile m b
  have hcleanOut : out.Clean room := by
    rcases hout with rfl | ⟨m, rfl⟩
    · exact hclean
    · exact hclean.reconcile m
  have hback := parse_render hcleanOut (hgrows.format.trans hformat)
  exact ⟨fun strict => (hback strict).1,
    ⟨out.toJson, (hback true).2, kept_toJson hread hgrows hcleanOut⟩, Component.ofJson?_named⟩

/-! ## A component under the other name -/

/-- A document with a field of its own, and a component that has one too. -/
def aliasedDocument : String :=
  "\x7b\"bomFormat\":\"CycloneDX\",\"x\":-1,\"components\":[" ++
    "\x7b\"bomRef\":\"a\",\"purl\":\"pkg:maven/g/a@1\",\"y\":\x7b\"z\":[]\x7d\x7d]\x7d"

/-- Its value. -/
def aliasedJson : Json := .obj [
  ("bomFormat", .str "CycloneDX"), ("x", .int (-1)),
  ("components", .arr [.obj [
    ("bomRef", .str "a"), ("purl", .str "pkg:maven/g/a@1"), ("y", .obj [("z", .arr [])])]])]

/-- What the document holds. -/
def aliasedBom : Bom :=
  { Bom.empty with
    specVersion := ""
    version := none
    components := [{ Reconcile.bareComponent "" (some "pkg:maven/g/a@1") with
      bomRef := some "a"
      extra := [("y", .obj [("z", .arr [])])] }]
    extra := [("x", .int (-1))] }

/-- Another version of the component is declared as well. -/
def aliasedManifest : Manifest := ⟨none, [
  ⟨"maven", some "g", "a", some "1", .empty, none⟩, ⟨"maven", some "g", "a", some "2", .empty, none⟩]⟩

theorem whole_aliasedJson : ∀ n ∈ aliasedJson.numbers, n.Whole := by
  intro n hn
  obtain rfl := List.mem_singleton.mp hn
  exact ⟨by decide, by decide⟩

theorem readWritten_aliasedDocument : Json.readWritten .any aliasedDocument = some aliasedJson := by
  have hcompact : aliasedDocument = aliasedJson.compact := by rfl
  rw [hcompact]
  exact Json.readWritten_compact ⟨by decide, whole_aliasedJson⟩

theorem parse_aliasedDocument : parse true aliasedDocument = .ok aliasedBom := by
  have hmarker : Text.contains aliasedDocument formatMarker = true := by cbv
  rw [parse, hmarker, readWritten_aliasedDocument]
  rfl

theorem written_reads_back_aliased :
    parse true aliasedDocument = .ok aliasedBom ∧
    Json.readWritten .any aliasedDocument = some aliasedJson ∧
    (∀ n ∈ aliasedJson.numbers, n.Whole) ∧
    (∀ strict, parse strict (reconcile aliasedManifest aliasedBom).1.render =
      .ok (reconcile aliasedManifest aliasedBom).1) ∧
    (∃ w, Json.readWritten .any (reconcile aliasedManifest aliasedBom).1.render = some w ∧
      Kept aliasedJson w) ∧
    ∀ fs, Component.ofJson? (.obj (Component.named fs)) = Component.ofJson? (.obj fs) :=
  ⟨parse_aliasedDocument, readWritten_aliasedDocument, whole_aliasedJson,
    written_reads_back parse_aliasedDocument readWritten_aliasedDocument whole_aliasedJson
      (.inr ⟨aliasedManifest, rfl⟩)⟩

end Bom

end BomAssembly
