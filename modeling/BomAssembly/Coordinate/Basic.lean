import BomAssembly.Text.SortedMap

/-!
# Package coordinates

A coordinate names a package: its ecosystem, a group, a name, a version, qualifiers and a path inside
the package. Coordinates are compared by their parts, not by their text:

* two coordinates are of the **same artifact** when they agree on everything that identifies it but
  the version: ecosystem, group, name, packaging and classifier;
* they **match exactly** when also version, path and all other qualifiers agree.

A Maven coordinate without a packaging is a `jar`, so naming the packaging `jar` changes neither.
-/

namespace BomAssembly

open Text (StringMap)

/-- A package by its parts. -/
structure Coordinate where
  ecosystem : String
  group : Option String
  name : String
  version : Option String
  qualifiers : StringMap String
  subpath : Option String
  deriving DecidableEq, Inhabited

namespace Coordinate

/-- The packaging of a Maven coordinate that names none. -/
def defaultPackaging : String := "jar"

/-- A Maven coordinate; the packaging is always spelled out, and empty parts count as absent. -/
def maven (group artifact : String) (version packaging classifier : Option String) : Coordinate :=
  let packaged := StringMap.empty.insert "type"
    ((packaging.filter (· ≠ "")).getD defaultPackaging)
  let qualifiers := match classifier.filter (· ≠ "") with
    | some c => packaged.insert "classifier" c
    | none => packaged
  { ecosystem := "maven", group := some group, name := artifact,
    version := version.filter (· ≠ ""), qualifiers, subpath := none }

/-- Whether this is a Maven coordinate. -/
def isMaven (c : Coordinate) : Bool := c.ecosystem == "maven"

/-- The packaging: the `type` qualifier, or `jar` for a Maven coordinate without one. -/
def packaging (c : Coordinate) : Option String :=
  match c.qualifiers.get? "type" with
  | some t => some t
  | none => if c.isMaven then some defaultPackaging else none

/-- The `classifier` qualifier. -/
def classifier (c : Coordinate) : Option String := c.qualifiers.get? "classifier"

/-- The qualifiers other than packaging and classifier, in key order. -/
def extraQualifiers (c : Coordinate) : List (String × String) :=
  c.qualifiers.entries.filter fun q => q.1 ≠ "type" ∧ q.1 ≠ "classifier"

/-- The same artifact, in whatever version. -/
def SameArtifact (a b : Coordinate) : Prop :=
  a.ecosystem = b.ecosystem ∧ a.group = b.group ∧ a.name = b.name ∧
    a.packaging = b.packaging ∧ a.classifier = b.classifier

instance (a b : Coordinate) : Decidable (SameArtifact a b) :=
  inferInstanceAs (Decidable (_ ∧ _ ∧ _ ∧ _ ∧ _))

/-- The same artifact in the same version, with the same path and the same other qualifiers. -/
def MatchesExactly (a b : Coordinate) : Prop :=
  SameArtifact a b ∧ a.version = b.version ∧ a.subpath = b.subpath ∧
    a.extraQualifiers = b.extraQualifiers

instance (a b : Coordinate) : Decidable (MatchesExactly a b) :=
  inferInstanceAs (Decidable (_ ∧ _ ∧ _ ∧ _))

/-- Group, name and version, joined by colons. -/
def gav (c : Coordinate) : String :=
  let group := c.group.getD ""
  let version := c.version.getD ""
  s!"{group}:{c.name}:{version}"

end Coordinate

end BomAssembly
