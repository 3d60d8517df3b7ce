import BomAssembly.Manifest.Basic
import BomAssembly.Text.Blank

/-!
# Maven project models

The part of a Maven project that a manifest needs. A value may be a reference to a property of the
project; then it has to be the reference as a whole. References in the version and the group are
replaced, once; the other parts of a dependency stand as they are. A dependency without a group or an
artifact is left out.
-/

namespace BomAssembly

open Text (StringMap trimmed)

/-- A dependency as a project declares it. -/
structure PomDependency where
  groupId : Option String
  artifactId : Option String
  version : Option String
  packaging : Option String
  classifier : Option String
  scope : Option String
  deriving DecidableEq, Inhabited

/-- A Maven project. -/
structure Pom where
  xmlns : Option String
  modelVersion : Option String
  groupId : Option String
  artifactId : Option String
  version : Option String
  packaging : Option String
  description : Option String
  properties : Option (StringMap String)
  dependencies : Option (List PomDependency)
  deriving DecidableEq, Inhabited

namespace Pom

/-- The namespace of Maven projects. -/
def mavenNamespace : String := "http://maven.apache.org/POM/4.0.0"

/-- A project that only bundles its dependencies. -/
def bundle (groupId artifactId version description : String) : Pom where
  xmlns := some mavenNamespace
  modelVersion := some "4.0.0"
  groupId := some groupId
  artifactId := some artifactId
  version := some version
  packaging := some "pom"
  description := some description
  properties := none
  dependencies := none

/-- The declared dependencies. -/
def dependencyList (p : Pom) : List PomDependency := p.dependencies.getD []

/-- What a property is called that records where a dependency came from. -/
def originKey (d : PomDependency) (name : String) : String :=
  let group := d.groupId.getD ""
  let version := d.version.getD ""
  String.ofList (s!"{group}.{name}.{version}".toList.map fun c =>
    if c.isAlphanum || c == '.' || c == '_' || c == '-' then c else '_')

/-- The declaration of a coordinate. -/
def declaration (c : Coordinate) : PomDependency where
  groupId := c.group
  artifactId := some c.name
  version := c.version
  packaging := some (c.packaging.getD Coordinate.defaultPackaging)
  classifier := c.classifier
  scope := none

/-- Declare a coordinate, and record by a property where it came from. -/
def addDependency (p : Pom) (c : Coordinate) (origin : String) : Pom :=
  let d := declaration c
  { p with
    properties := some ((p.properties.getD .empty).insert (originKey d c.name) origin)
    dependencies := some (p.dependencyList ++ [d]) }

/-- The property that a value refers to, if it is a reference as a whole. -/
def referenceKey (value : List Char) : Option (List Char) :=
  match value with
  | '$' :: '\x7b' :: rest =>
    match rest.reverse with
    | '\x7d' :: key => if key ≠ [] ∧ '\x7d' ∉ key then some key.reverse else none
    | _ => none
  | _ => none

/-- The value without blanks around it, its reference replaced. -/
def resolve (p : Pom) (value : Option String) : Option String :=
  match value with
  | none => none
  | some value =>
    let text := trimmed value
    match referenceKey text.toList with
    | none => some text
    | some key =>
      let key := String.ofList key
      if key = "project.version" ∨ key = "pom.version" then p.version
      else if key = "project.groupId" ∨ key = "pom.groupId" then p.groupId
      else some (((p.properties.getD .empty).get? key).getD text)

/-- The coordinate of the project itself. -/
def rootCoordinate (p : Pom) : Option Coordinate :=
  match p.groupId, p.artifactId with
  | some g, some a =>
    some (Coordinate.maven (trimmed g) (trimmed a) (p.resolve p.version) p.packaging none)
  | _, _ => none

/-- The coordinate of a dependency that names its group and its artifact. -/
def dependencyCoordinate (p : Pom) (d : PomDependency) : Option Coordinate :=
  match (p.resolve d.groupId).filter (· ≠ ""), (d.artifactId.map trimmed).filter (· ≠ "") with
  | some group, some artifact =>
    some (Coordinate.maven group artifact (p.resolve d.version) (d.packaging.map trimmed)
      (d.classifier.map trimmed))
  | _, _ => none

/-- What the project declares. -/
def toManifest (p : Pom) : Manifest where
  root := p.rootCoordinate
  dependencies := p.dependencyList.filterMap p.dependencyCoordinate

end Pom

end BomAssembly
