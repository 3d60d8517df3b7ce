import BomAssembly.Manifest.PomDocument
import BomAssembly.Proofs.Fallible
import BomAssembly.Proofs.Text.MapLookup
import BomAssembly.Proofs.Xml.Content

/-!
# Maven projects are read back from their documents

A project whose properties have names that elements can have is written (`render`), and the document
is read as the project again, but for white space at the ends of its values, and for parts of a
dependency that are written even when they are absent (`reread`). The reading is put together field by
field: what stands under a name in an element is what the piece of that name was written to.
-/

namespace BomAssembly

open Text (StringMap)
open Xml

/-! ## What is read back -/

/-- The dependency that its element is read as: group and artifact are always written. -/
def PomDependency.reread (d : PomDependency) : PomDependency where
  groupId := some (stripped (d.groupId.getD ""))
  artifactId := some (stripped (d.artifactId.getD ""))
  version := d.version.map stripped
  packaging := d.packaging.map stripped
  classifier := d.classifier.map stripped
  scope := d.scope.map stripped

/-- The project that its document is read as. -/
def Pom.reread (p : Pom) : Pom where
  xmlns := p.xmlns.filter (· ≠ "")
  modelVersion := p.modelVersion.map stripped
  groupId := p.groupId.map stripped
  artifactId := p.artifactId.map stripped
  version := p.version.map stripped
  packaging := p.packaging.map stripped
  description := p.description.map stripped
  properties := p.properties.map (StringMap.mapValues stripped)
  dependencies := p.dependencies.map (List.map PomDependency.reread)

namespace Pom

/-! ## Fields by their names -/

/-- What an element has under a name: nothing, or one element. -/
def entry (name : String) (x : Option (List Char × List Node)) :
    List (String × List Char × List Node) :=
  (x.map fun (attributes, children) => (name, attributes, children)).toList

/-- The element that holds a text. -/
def holding (value : Option String) : Option (List Char × List Node) :=
  value.map fun v => ([], textNodes v)

theorem name_of_mem_entry {name : String} {x : Option (List Char × List Node)}
    {e : String × List Char × List Node} (h : e ∈ entry name x) : e.1 = name := by
  obtain ⟨y, -, rfl⟩ := Option.map_eq_some_iff.mp (Option.mem_toList.mp h)
  rfl

theorem filter_entry_self (name : String) (x : Option (List Char × List Node)) :
    (entry name x).filter (·.1 = name) = entry name x :=
  List.filter_eq_self.mpr fun _ he => decide_eq_true (name_of_mem_entry he)

/-- What stands under other names makes no difference. -/
theorem filter_of_ne {name : String} {es : List (String × List Char × List Node)}
    (h : ∀ e ∈ es, e.1 ≠ name) : es.filter (·.1 = name) = [] :=
  List.filter_eq_nil_iff.mpr fun e he => by simpa using h e he

theorem filter_entry_of_ne {name other : String} (h : other ≠ name)
    (x : Option (List Char × List Node)) : (entry other x).filter (·.1 = name) = [] :=
  filter_of_ne fun _ he heq => h ((name_of_mem_entry he).symm.trans heq)

theorem named_append (cs ds : List Content) : named (cs ++ ds) = named cs ++ named ds :=
  List.filterMap_append

/-- The pieces of texts under names, each of them written when it is there. -/
def fieldPieces (fields : List (String × Option String)) : List Piece :=
  fields.flatMap fun f => leaf? f.1 f.2

/-- The elements of texts under names. -/
def fieldEntries (fields : List (String × Option String)) : List (String × List Char × List Node) :=
  fields.flatMap fun f => entry f.1 (holding f.2)

section Fields

variable {fields : List (String × Option String)}

theorem layered_fieldPieces (h : ∀ n ∈ fields.map Prod.fst, IsLocalName n) :
    Layered (fieldPieces fields) := by
  induction fields with
  | nil => exact .nil
  | cons f fields ih =>
      obtain ⟨name, value⟩ := f
      have hrest := ih fun n hn => h n (List.mem_cons_of_mem _ hn)
      cases value with
      | none => exact hrest
      | some v => exact .leaf (h name List.mem_cons_self).tag hrest

theorem attributesOf_fieldPieces (fields : List (String × Option String)) :
    attributesOf (fieldPieces fields) = [] := by
  induction fields with
  | nil => rfl
  | cons f fields ih =>
      obtain ⟨name, value⟩ := f
      cases value <;> exact ih

theorem named_fieldPieces (h : ∀ n ∈ fields.map Prod.fst, IsLocalName n) (depth : Nat) :
    named (contentOf depth (fieldPieces fields)) = fieldEntries fields := by
  induction fields with
  | nil => rfl
  | cons f fields ih =>
      obtain ⟨name, value⟩ := f
      have hlocal := (h name List.mem_cons_self).localName_eq
      have hrest := ih fun n hn => h n (List.mem_cons_of_mem _ hn)
      simp only [fieldPieces, fieldEntries, List.flatMap_cons, contentOf_append, named_append] at *
      rw [hrest]
      cases value with
      | none => rfl
      | some v => simp [leaf?, contentOf, named, entry, holding, hlocal]

theorem name_of_mem_fieldEntries {e : String × List Char × List Node}
    (h : e ∈ fieldEntries fields) : e.1 ∈ fields.map Prod.fst := by
  obtain ⟨f, hf, he⟩ := List.mem_flatMap.mp h
  rw [name_of_mem_entry he]
  exact List.mem_map_of_mem hf

/-- Under the name of a field stands its own text only. -/
theorem filter_fieldEntries {name : String} {value : Option String}
    (hnodup : (fields.map Prod.fst).Nodup) (hmem : (name, value) ∈ fields) :
    (fieldEntries fields).filter (·.1 = name) = entry name (holding value) := by
  induction fields with
  | nil => exact absurd hmem List.not_mem_nil
  | cons f fields ih =>
      rw [List.map_cons, List.nodup_cons] at hnodup
      have hsplit : fieldEntries (f :: fields) = entry f.1 (holding f.2) ++ fieldEntries fields :=
        rfl
      rw [hsplit, List.filter_append]
      rcases List.mem_cons.mp hmem with rfl | hmem
      · have hothers : (fieldEntries fields).filter (·.1 = name) = [] :=
          filter_of_ne fun e he heq => hnodup.1 (heq ▸ name_of_mem_fieldEntries he)
        rw [filter_entry_self, hothers, List.append_nil]
      · have hne : f.1 ≠ name := fun heq => hnodup.1 (heq ▸ List.mem_map_of_mem hmem)
        rw [filter_entry_of_ne hne, ih hnodup.2 hmem, List.nil_append]

/-- **A text is read from the element of its name**, whatever stands behind the texts under other
names. -/
theorem textField_written {scope : Scope} {name : String} {value : Option String}
    {others : List (String × List Char × List Node)} (hnodup : (fields.map Prod.fst).Nodup)
    (hmem : (name, value) ∈ fields) (hothers : ∀ e ∈ others, e.1 ≠ name) :
    textField scope false name (fieldEntries fields ++ others) = some (value.map stripped) := by
  rw [textField, List.filter_append, filter_fieldEntries hnodup hmem, filter_of_ne hothers,
    List.append_nil]
  cases value with
  | none => rfl
  | some v => simp [entry, holding, textOf_textNodes]

end Fields

/-- An element with content is read from the element of its name. -/
theorem elementField_of_filter {α β : Type} {scope : Scope} {name : String}
    {es : List (String × List Char × List Node)} {read : List Char → List Node → Option β}
    {x : Option α} {children : α → List Node} {value : α → β}
    (h : es.filter (·.1 = name) = entry name (x.map fun a => ([], children a)))
    (hread : ∀ a, x = some a → read [] (children a) = some (value a)) :
    elementField scope false name read es = some (x.map value) := by
  rw [elementField, h]
  cases x with
  | none => rfl
  | some a => simp [entry, hread a rfl]

/-! ## Dependencies -/

/-- The names in a dependency. -/
def dependencyNames : List String :=
  ["groupId", "artifactId", "version", "type", "classifier", "scope"]

theorem isLocalName_dependencyNames : ∀ n ∈ dependencyNames, IsLocalName n := by decide

theorem nodup_dependencyNames : dependencyNames.Nodup := by decide

/-- The texts in a dependency. -/
def dependencyFields (d : PomDependency) : List (String × Option String) :=
  [("groupId", some (d.groupId.getD "")), ("artifactId", some (d.artifactId.getD "")),
    ("version", d.version), ("type", d.packaging), ("classifier", d.classifier),
    ("scope", d.scope)]

theorem piece_eq (d : PomDependency) :
    PomDependency.piece d = .branch "dependency" (fieldPieces (dependencyFields d)) := by
  simp [PomDependency.piece, fieldPieces, dependencyFields, leaf?]

/-- **A dependency is read back from its element.** -/
theorem readDependency_written (scope : Scope) (outer depth : Nat) (d : PomDependency) :
    readDependency scope [] (enclosed outer (nodesOf depth (fieldPieces (dependencyFields d)))) =
      some d.reread := by
  have hlocal : ∀ n ∈ (dependencyFields d).map Prod.fst, IsLocalName n :=
    isLocalName_dependencyNames
  have hfield : ∀ name value, (name, value) ∈ dependencyFields d →
      textField scope false name (fieldEntries (dependencyFields d)) =
        some (value.map stripped) := by
    intro name value hmem
    rw [← List.append_nil (fieldEntries (dependencyFields d))]
    exact textField_written nodup_dependencyNames hmem fun e he => absurd he List.not_mem_nil
  simp only [readDependency, attributes_nil, enter_nil, isNil_nil,
    contents_enclosed depth outer (layered_fieldPieces hlocal)]
  rw [bind_of_eq rfl, bind_of_eq rfl, named_fieldPieces hlocal,
    bind_of_eq (hfield "groupId" (some (d.groupId.getD "")) (by simp [dependencyFields])),
    bind_of_eq (hfield "artifactId" (some (d.artifactId.getD "")) (by simp [dependencyFields])),
    bind_of_eq (hfield "version" d.version (by simp [dependencyFields])),
    bind_of_eq (hfield "type" d.packaging (by simp [dependencyFields])),
    bind_of_eq (hfield "classifier" d.classifier (by simp [dependencyFields])),
    bind_of_eq (hfield "scope" d.scope (by simp [dependencyFields]))]
  rfl

/-- The pieces of a list of dependencies. -/
def dependenciesPieces (ds : List PomDependency) : List Piece := ds.map PomDependency.piece

theorem layered_dependenciesPieces (ds : List PomDependency) : Layered (dependenciesPieces ds) := by
  induction ds with
  | nil => exact .nil
  | cons d ds ih =>
      have hone : Layered (fieldPieces (dependencyFields d)) :=
        layered_fieldPieces isLocalName_dependencyNames
      rw [dependenciesPieces, List.map_cons, piece_eq]
      exact .branch (by decide) hone ih

theorem attributesOf_dependenciesPieces (ds : List PomDependency) :
    attributesOf (dependenciesPieces ds) = [] := by
  induction ds with
  | nil => rfl
  | cons d ds ih => exact ih

theorem contentOf_dependenciesPieces (depth : Nat) (ds : List PomDependency) :
    contentOf depth (dependenciesPieces ds) = ds.map fun d => .element "dependency".toList []
      (enclosed depth (nodesOf (depth + 1) (fieldPieces (dependencyFields d)))) := by
  induction ds with
  | nil => rfl
  | cons d ds ih =>
      rw [dependenciesPieces, List.map_cons, piece_eq, contentOf, attributesOf_fieldPieces,
        List.map_cons, ← ih]
      rfl

/-- Dependencies that stand side by side are read one after the other. -/
theorem dependencyRun_written (scope : Scope) (depth : Nat) (ds : List PomDependency) :
    dependencyRun scope "dependency".toList (contentOf depth (dependenciesPieces ds)) =
      some (ds.map PomDependency.reread, []) := by
  rw [contentOf_dependenciesPieces]
  induction ds with
  | nil => rfl
  | cons d ds ih =>
      rw [List.map_cons, dependencyRun, if_pos rfl, readDependency_written, bind_of_eq rfl, ih]
      rfl

/-- **A list of dependencies is read back from its element.** -/
theorem readDependencies_written (scope : Scope) (depth : Nat) (ds : List PomDependency) :
    readDependencies scope (contentOf depth (dependenciesPieces ds)) =
      some (ds.map PomDependency.reread) := by
  have hrun := dependencyRun_written scope depth ds
  rw [contentOf_dependenciesPieces] at hrun ⊢
  cases ds with
  | nil => rfl
  | cons d ds =>
      have hlocal : IsLocalName "dependency" := by decide
      rw [List.map_cons] at hrun ⊢
      rw [readDependencies, if_pos hlocal.localName_eq, hrun]
      rfl

/-! ## Properties -/

/-- Properties under names that elements can have. -/
def NamesElements (m : StringMap String) : Prop := ∀ e ∈ m.entries, IsLocalName e.1

/-- A property of such a name is an element with a text. -/
theorem propertyPiece_eq {e : String × String} (h : IsLocalName e.1) :
    propertyPiece e = .leaf e.1 e.2 := by
  obtain ⟨c, cs, hcs, hstarts⟩ := h.tag.exists_cons
  have htext : e.1 ≠ "$text" := by
    intro heq
    rw [heq] at hcs
    rw [← (List.cons.inj hcs).1] at hstarts
    exact absurd hstarts (by decide)
  have hmark : c ≠ '@' := by
    rintro rfl
    exact absurd hstarts (by decide)
  rw [propertyPiece, if_neg htext, hcs]
  split
  · next heq => exact absurd (List.cons.inj heq).1 hmark
  · rfl

section Properties

variable {es : List (String × String)} (h : ∀ e ∈ es, IsLocalName e.1)
include h

theorem propertyPieces_eq : es.map propertyPiece = es.map fun e => .leaf e.1 e.2 :=
  List.map_congr_left fun e he => propertyPiece_eq (h e he)

theorem layered_properties : Layered (es.map propertyPiece) := by
  rw [propertyPieces_eq h]
  induction es with
  | nil => exact .nil
  | cons e es ih =>
      exact .leaf (h e List.mem_cons_self).tag (ih fun x hx => h x (List.mem_cons_of_mem _ hx))

theorem attributesOf_properties : attributesOf (es.map propertyPiece) = [] := by
  rw [propertyPieces_eq h]
  clear h
  induction es with
  | nil => rfl
  | cons e es ih => exact ih

theorem contentOf_properties (depth : Nat) :
    contentOf depth (es.map propertyPiece) =
      es.map fun e => .element e.1.toList [] (textNodes e.2) := by
  rw [propertyPieces_eq h]
  clear h
  induction es with
  | nil => rfl
  | cons e es ih => simp [contentOf, ih]

end Properties

/-- **Properties are read back from their element.** -/
theorem readProperties_written {m : StringMap String} (h : NamesElements m) (outer depth : Nat) :
    readProperties [] (enclosed outer (nodesOf depth (m.entries.map propertyPiece))) =
      some (m.mapValues stripped) := by
  rw [readProperties, bind_of_eq attributes_nil, List.mapM_nil, pure_bind,
    bind_of_eq (contents_enclosed depth outer (layered_properties h)), contentOf_properties h,
    List.mapM_map, mapM_of_forall (g := fun e => (e.1, stripped e.2)), pure_bind]
  · have hentries := StringMap.foldl_insert_entries (m.mapValues stripped)
    exact congrArg some hentries
  · intro e he
    simp [textOf_textNodes, (h e he).localName_eq]

/-! ## Projects -/

/-- The names of the texts in a project. -/
def projectNames : List String :=
  ["modelVersion", "groupId", "artifactId", "version", "packaging", "description"]

theorem isLocalName_projectNames : ∀ n ∈ projectNames, IsLocalName n := by decide

theorem nodup_projectNames : projectNames.Nodup := by decide

/-- The texts in a project. -/
def projectFields (p : Pom) : List (String × Option String) :=
  [("modelVersion", p.modelVersion), ("groupId", p.groupId), ("artifactId", p.artifactId),
    ("version", p.version), ("packaging", p.packaging), ("description", p.description)]

/-- The attribute of a project. -/
def namespacePieces (xmlns : Option String) : List Piece :=
  (xmlns.map (Piece.attribute "xmlns")).toList

/-- An element that is written when its pieces are there. -/
def branch? (name : String) (pieces : Option (List Piece)) : List Piece :=
  (pieces.map (Piece.branch name)).toList

theorem pieces_eq (p : Pom) :
    p.pieces = namespacePieces p.xmlns ++ fieldPieces (projectFields p) ++
      branch? "properties" (p.properties.map fun m => m.entries.map propertyPiece) ++
      branch? "dependencies" (p.dependencies.map dependenciesPieces) := by
  obtain ⟨xmlns, _, _, _, _, _, _, properties, dependencies⟩ := p
  cases xmlns <;> cases properties <;> cases dependencies <;>
    simp [pieces, namespacePieces, fieldPieces, projectFields, branch?, dependenciesPieces]

/-- The properties of a project. -/
def propertyMap (p : Pom) : StringMap String := p.properties.getD .empty

theorem namesElements_of_mem {p : Pom} (h : NamesElements p.propertyMap) {m : StringMap String}
    (hm : p.properties = some m) : NamesElements m := by
  rwa [propertyMap, hm] at h

theorem layered_branch? {name : String} (hname : IsTagName name.toList)
    {pieces : Option (List Piece)} (h : ∀ ps, pieces = some ps → Layered ps) :
    Layered (branch? name pieces) := by
  cases pieces with
  | none => exact .nil
  | some ps => exact .branch hname (h ps rfl) .nil

theorem layered_namespacePieces (xmlns : Option String) : Layered (namespacePieces xmlns) := by
  cases xmlns with
  | none => exact .nil
  | some v => exact .inTag (by decide) .nil

theorem layered_pieces {p : Pom} (h : NamesElements p.propertyMap) : Layered p.pieces := by
  have hfields : Layered (fieldPieces (projectFields p)) :=
    layered_fieldPieces isLocalName_projectNames
  have hproperties : Layered (branch? "properties"
      (p.properties.map fun m => m.entries.map propertyPiece)) := by
    refine layered_branch? (by decide) fun ps hps => ?_
    obtain ⟨m, hm, rfl⟩ := Option.map_eq_some_iff.mp hps
    exact layered_properties (namesElements_of_mem h hm)
  have hdependencies : Layered (branch? "dependencies" (p.dependencies.map dependenciesPieces)) := by
    refine layered_branch? (by decide) fun ps hps => ?_
    obtain ⟨ds, -, rfl⟩ := Option.map_eq_some_iff.mp hps
    exact layered_dependenciesPieces ds
  rw [pieces_eq]
  exact (((layered_namespacePieces p.xmlns).append hfields).append hproperties).append hdependencies

theorem attributesOf_branch? (name : String) (pieces : Option (List Piece)) :
    attributesOf (branch? name pieces) = [] := by
  cases pieces <;> rfl

theorem attributesOf_pieces (p : Pom) :
    attributesOf p.pieces = attributesOf (namespacePieces p.xmlns) := by
  simp [pieces_eq, attributesOf_append, attributesOf_fieldPieces, attributesOf_branch?]

theorem named_branch? {name : String} (hname : IsLocalName name) (depth : Nat)
    (pieces : Option (List Piece)) :
    named (contentOf depth (branch? name pieces)) =
      entry name (pieces.map fun ps =>
        (attributesOf ps, enclosed depth (nodesOf (depth + 1) ps))) := by
  cases pieces with
  | none => rfl
  | some ps => simp [branch?, contentOf, named, entry, hname.localName_eq]

/-- The elements of a project that hold more than a text. -/
def branchEntries (p : Pom) (depth : Nat) : List (String × List Char × List Node) :=
  entry "properties" (p.properties.map fun m =>
      ([], enclosed depth (nodesOf (depth + 1) (m.entries.map propertyPiece)))) ++
    entry "dependencies" (p.dependencies.map fun ds =>
      ([], enclosed depth (nodesOf (depth + 1) (dependenciesPieces ds))))

theorem filter_properties (p : Pom) (depth : Nat) :
    (branchEntries p depth).filter (·.1 = "properties") =
      entry "properties" (p.properties.map fun m =>
        ([], enclosed depth (nodesOf (depth + 1) (m.entries.map propertyPiece)))) := by
  rw [branchEntries, List.filter_append, filter_entry_self, filter_entry_of_ne (by decide),
    List.append_nil]

theorem filter_dependencies (p : Pom) (depth : Nat) :
    (branchEntries p depth).filter (·.1 = "dependencies") =
      entry "dependencies" (p.dependencies.map fun ds =>
        ([], enclosed depth (nodesOf (depth + 1) (dependenciesPieces ds)))) := by
  rw [branchEntries, List.filter_append, filter_entry_self, filter_entry_of_ne (by decide),
    List.nil_append]

/-- The elements of a project by their names. -/
theorem named_pieces {p : Pom} (h : NamesElements p.propertyMap) (depth : Nat) :
    named (contentOf depth p.pieces) = fieldEntries (projectFields p) ++ branchEntries p depth := by
  have hnamespace : contentOf depth (namespacePieces p.xmlns) = [] := by
    cases p.xmlns <;> rfl
  have hproperties : (p.properties.map fun m => m.entries.map propertyPiece).map (fun ps =>
      (attributesOf ps, enclosed depth (nodesOf (depth + 1) ps))) =
        p.properties.map fun m =>
          ([], enclosed depth (nodesOf (depth + 1) (m.entries.map propertyPiece))) := by
    rw [Option.map_map]
    refine Option.map_congr fun m hm => ?_
    rw [Function.comp_apply, attributesOf_properties (namesElements_of_mem h hm)]
  have hdependencies : (p.dependencies.map dependenciesPieces).map (fun ps =>
      (attributesOf ps, enclosed depth (nodesOf (depth + 1) ps))) =
        p.dependencies.map fun ds =>
          ([], enclosed depth (nodesOf (depth + 1) (dependenciesPieces ds))) := by
    rw [Option.map_map]
    refine Option.map_congr fun ds _ => ?_
    rw [Function.comp_apply, attributesOf_dependenciesPieces]
  have hlocal : ∀ n ∈ (projectFields p).map Prod.fst, IsLocalName n := isLocalName_projectNames
  rw [pieces_eq, branchEntries, ← hproperties, ← hdependencies, contentOf_append, contentOf_append,
    contentOf_append, named_append, named_append, named_append, hnamespace,
    named_fieldPieces hlocal, named_branch? (by decide), named_branch? (by decide), List.append_assoc]
  rfl

/-- **A namespace is read back from its attribute**, unless there is nothing in it. -/
theorem namespaceField_written (xmlns : Option String) :
    ∃ as, attributes (attributesOf (namespacePieces xmlns)) = some as ∧
      namespaceField as = some (xmlns.filter (· ≠ "")) := by
  cases xmlns with
  | none => exact ⟨[], rfl, rfl⟩
  | some v =>
      refine ⟨_, attributes_written (by decide) v, ?_⟩
      have hexpand := expand_escapeAttribute v
      by_cases hempty : v = ""
      · subst hempty
        rfl
      · have hvalue : escapeAttribute v ≠ [] := by
          intro hnil
          rw [hnil] at hexpand
          exact hempty (String.toList_eq_nil_iff.mp (Option.some.inj hexpand).symm)
        have hkey : attributeKey "xmlns".toList = "@xmlns" := by decide
        have hone : [("xmlns".toList, escapeAttribute v)].filter
            (fun a => attributeKey a.1 = "@xmlns") = [("xmlns".toList, escapeAttribute v)] :=
          List.filter_cons_of_pos (by exact decide_eq_true hkey)
        have hkept : (some v).filter (· ≠ "") = some v :=
          Option.filter_some_pos (by simpa using hempty)
        rw [namespaceField, hone, hkept]
        simp [hvalue, hexpand]

theorem isNil_namespacePieces (scope : Scope) (xmlns : Option String) :
    isNil scope (attributesOf (namespacePieces xmlns)) = false := by
  cases xmlns with
  | none => rfl
  | some v => exact isNil_written (by decide) v scope (by decide)

/-- **A project is read back from its element.** -/
theorem ofNode?_written {p : Pom} (h : NamesElements p.propertyMap) (name : List Char) :
    ofNode? (.element name (attributesOf p.pieces) (enclosed 0 (nodesOf 1 p.pieces))) =
      some p.reread := by
  obtain ⟨as, has, hnamespace⟩ := namespaceField_written p.xmlns
  rw [attributesOf_pieces]
  simp only [ofNode?, isNil_namespacePieces]
  rw [bind_of_eq has, bind_of_eq hnamespace, bind_of_eq (contents_enclosed 1 0 (layered_pieces h)),
    named_pieces h]
  have hfield : ∀ scope name value, (name, value) ∈ projectFields p →
      textField scope false name (fieldEntries (projectFields p) ++ branchEntries p 1) =
        some (value.map stripped) := by
    intro scope name value hmem
    refine textField_written nodup_projectNames hmem fun e he heq => ?_
    have hfields : name ∈ (projectFields p).map Prod.fst := List.mem_map_of_mem hmem
    have hname : e.1 ∈ projectNames := heq ▸ hfields
    rcases List.mem_append.mp he with he | he
    all_goals
      rw [name_of_mem_entry he] at hname
      exact absurd hname (by decide)
  -- what stands under the name of a branch is no text
  have hbranch : ∀ name, name ∉ projectNames →
      (fieldEntries (projectFields p) ++ branchEntries p 1).filter (·.1 = name) =
        (branchEntries p 1).filter (·.1 = name) := by
    intro name hname
    have hnone : (fieldEntries (projectFields p)).filter (·.1 = name) = [] :=
      filter_of_ne fun e he heq => hname (heq ▸ name_of_mem_fieldEntries he)
    rw [List.filter_append, hnone, List.nil_append]
  have hproperties := hbranch "properties" (show "properties" ∉ projectNames by decide)
  have hdependencies := hbranch "dependencies" (show "dependencies" ∉ projectNames by decide)
  rw [filter_properties] at hproperties
  rw [filter_dependencies] at hdependencies
  rw [bind_of_eq (hfield _ "modelVersion" p.modelVersion (by simp [projectFields])),
    bind_of_eq (hfield _ "groupId" p.groupId (by simp [projectFields])),
    bind_of_eq (hfield _ "artifactId" p.artifactId (by simp [projectFields])),
    bind_of_eq (hfield _ "version" p.version (by simp [projectFields])),
    bind_of_eq (hfield _ "packaging" p.packaging (by simp [projectFields])),
    bind_of_eq (hfield _ "description" p.description (by simp [projectFields])),
    bind_of_eq (elementField_of_filter hproperties fun m hm =>
      readProperties_written (namesElements_of_mem h hm) 1 2),
    bind_of_eq (elementField_of_filter hdependencies fun ds _ => ?_)]
  · rfl
  · rw [bind_of_eq attributes_nil,
      bind_of_eq (contents_enclosed 2 1 (layered_dependenciesPieces ds)), readDependencies_written]

/-- **A project is read back from its document**: all of it, but for white space at the ends of its
values. -/
theorem parse_render {p : Pom} (h : NamesElements p.propertyMap) :
    ∃ text, p.render = .ok text ∧ Pom.parse text = .ok p.reread := by
  have hname : IsTagName "project".toList := by decide
  have hwritten := writeElement_of_layered hname (layered_pieces h) 0
  obtain ⟨text, htext⟩ : ∃ text, writeDocument "project" p.pieces = some text := by
    rw [writeDocument, hwritten]
    exact ⟨_, rfl⟩
  refine ⟨text, by rw [render, htext], ?_⟩
  rw [Pom.parse, readDocument_of_layered hname (layered_pieces h) htext, Option.bind_some,
    ofNode?_written h]

end Pom

end BomAssembly
