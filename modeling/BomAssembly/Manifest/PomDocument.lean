import BomAssembly.Confidence
import BomAssembly.Failure
import BomAssembly.Manifest.Pom
import BomAssembly.Xml.Content
import BomAssembly.Xml.Writer

/-!
# Maven projects as XML documents

Elements are told apart by their local names, and those that mean nothing here are skipped. A field
may be written once, and the dependencies of a list have to stand side by side. Every element and
attribute of the properties is a property.
-/

namespace BomAssembly

open Text (StringMap)

namespace Pom

open Xml

/-- The elements of a content by their local names; texts are left out. -/
def named (cs : List Content) : List (String × List Char × List Node) :=
  cs.filterMap fun c =>
    match c with
    | .element n a children => some (String.ofList (localName n), a, children)
    | .text _ => none

/-- An optional element with nothing but text; it may be written once. -/
def textField (scope : Scope) (parentNil : Bool) (name : String)
    (es : List (String × List Char × List Node)) : Option (Option String) :=
  match es.filter (·.1 = name) with
  | [] => some none
  | [(_, attributes, children)] =>
    if parentNil || isNil (scope.enter attributes) attributes then some none
    else (textOf children).map some
  | _ => none

/-- Read a dependency. -/
def readDependency (scope : Scope) (written : List Char) (children : List Node) :
    Option PomDependency := do
  let scope := scope.enter written
  let _ ← attributes written
  let es := named (← contents children)
  let field (name : String) : Option (Option String) :=
    textField scope (isNil scope written) name es
  return {
    groupId := ← field "groupId"
    artifactId := ← field "artifactId"
    version := ← field "version"
    packaging := ← field "type"
    classifier := ← field "classifier"
    scope := ← field "scope" }

/-- The dependencies at the front of a content that are written under one name, and the rest. -/
def dependencyRun (scope : Scope) (name : List Char) :
    List Content → Option (List PomDependency × List Content)
  | [] => some ([], [])
  | .text _ :: _ => none
  | .element n a children :: rest =>
    if n = name then do
      let d ← readDependency scope a children
      let (ds, rest) ← dependencyRun scope name rest
      return (d :: ds, rest)
    else some ([], .element n a children :: rest)

/-- Read a list of dependencies. -/
def readDependencies (scope : Scope) : List Content → Option (List PomDependency)
  | [] => some []
  | .text _ :: rest => readDependencies scope rest
  | .element n a children :: rest =>
    if localName n = "dependency".toList then
      match dependencyRun scope n (.element n a children :: rest) with
      | none => none
      | some (ds, rest) =>
        if (named rest).any (·.1 = "dependency") then none else some ds
    else readDependencies scope rest

/-- Read the properties: attributes, texts and elements in turn. -/
def readProperties (written : List Char) (children : List Node) : Option (StringMap String) := do
  let attributes ← attributes written
  let marks ← attributes.mapM fun (name, value) =>
    (expand none value).map fun v => (attributeKey name, String.ofList v)
  let held ← (← contents children).mapM fun c =>
    match c with
    | .text t => some ("$text", String.ofList t)
    | .element n _ children => (textOf children).map fun t => (String.ofList (localName n), t)
  return StringMap.ofList (marks ++ held)

/-- A field that is an element with content of its own; it may be written once. -/
def elementField {α : Type} (scope : Scope) (parentNil : Bool) (name : String)
    (read : List Char → List Node → Option α) (es : List (String × List Char × List Node)) :
    Option (Option α) :=
  match es.filter (·.1 = name) with
  | [] => some none
  | [(_, attributes, children)] =>
    if parentNil || isNil (scope.enter attributes) attributes then some none
    else (read attributes children).map some
  | _ => none

/-- The namespace that an element declares; it may be declared once. -/
def namespaceField (as : List (List Char × List Char)) : Option (Option String) :=
  match as.filter fun a => attributeKey a.1 = "@xmlns" with
  | [] => some none
  | [(_, value)] =>
    if value = [] then some none else (expand none value).map fun v => some (String.ofList v)
  | _ => none

/-- Read a project from the element of a document. -/
def ofNode? : Node → Option Pom
  | .element _ written children => do
    let scope := Scope.enter [] written
    let xmlns ← namespaceField (← attributes written)
    let es := named (← contents children)
    let parentNil := isNil scope written
    let field (name : String) : Option (Option String) := textField scope parentNil name es
    return {
      xmlns
      modelVersion := ← field "modelVersion"
      groupId := ← field "groupId"
      artifactId := ← field "artifactId"
      version := ← field "version"
      packaging := ← field "packaging"
      description := ← field "description"
      properties := ← elementField scope parentNil "properties" readProperties es
      dependencies := ← elementField scope parentNil "dependencies" (fun written children => do
        let _ ← attributes written
        readDependencies (scope.enter written) (← contents children)) es }
  | _ => none

/-- Read a project. -/
def parse (content : String) : Except DocumentError Pom :=
  match (readDocument content).bind ofNode? with
  | some p => .ok p
  | none => .error (.xml "not a Maven project")

/-! ## Writing -/

/-- An element that is written only when the field is there. -/
def leaf? (name : String) : Option String → List Piece
  | some v => [.leaf name v]
  | none => []

/-- A dependency as an element; group and artifact are always written. -/
def PomDependency.piece (d : PomDependency) : Piece :=
  .branch "dependency" ([.leaf "groupId" (d.groupId.getD ""),
    .leaf "artifactId" (d.artifactId.getD "")] ++ leaf? "version" d.version ++
    leaf? "type" d.packaging ++ leaf? "classifier" d.classifier ++ leaf? "scope" d.scope)

/-- A property as what it was read from. -/
def propertyPiece (p : String × String) : Piece :=
  if p.1 = "$text" then .text p.2
  else match p.1.toList with
    | '@' :: name => .attribute (String.ofList name) p.2
    | _ => .leaf p.1 p.2

/-- A project as the pieces of its element. -/
def pieces (p : Pom) : List Piece :=
  (match p.xmlns with
    | some v => [.attribute "xmlns" v]
    | none => []) ++
  leaf? "modelVersion" p.modelVersion ++ leaf? "groupId" p.groupId ++
  leaf? "artifactId" p.artifactId ++ leaf? "version" p.version ++ leaf? "packaging" p.packaging ++
  leaf? "description" p.description ++
  (match p.properties with
    | some m => [.branch "properties" (m.entries.map propertyPiece)]
    | none => []) ++
  (match p.dependencies with
    | some ds => [.branch "dependencies" (ds.map PomDependency.piece)]
    | none => [])

/-- The document of a project. -/
def render (p : Pom) : Except DocumentError String :=
  match writeDocument "project" p.pieces with
  | some text => .ok text
  | none => .error (.xml "a property is not named like an element")

end Pom

namespace Manifest

/-- Read a Maven project as a manifest. -/
def parsePom (content : String) : Except DocumentError Manifest :=
  (Pom.parse content).map Pom.toManifest

/-- How likely a text is a Maven project. -/
def pomConfidence (content : String) : Confidence :=
  let trimmed := Text.trimStart content.toList
  let has (part : String) : Bool := Text.occurs part.toList trimmed
  match trimmed with
  | '<' :: _ =>
    if has "<project" then
      if has Pom.mavenNamespace || has "<modelVersion>" then .high else .medium
    else .low
  | _ => .none

end Manifest

end BomAssembly
