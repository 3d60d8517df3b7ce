import BomAssembly.Coordinate.Printer
import BomAssembly.Coordinate.Reader
import BomAssembly.Json.Value

/-!
# Bills of materials

A bill of materials lists components and, for each reference, what it depends on. Only what the
library reads or writes is a field of its own; everything else a document holds is carried along in
`extra`, so that writing a document that was read loses nothing.

* A component goes by its **reference**: its own identifier, or else its package URL.
* The **root** is the component that the whole document describes.
* `addEdge` and `dependencyEntry` change the first entry with a reference, and append one if there is
  none.
-/

namespace BomAssembly

/-- The fields that are carried along unread. -/
abbrev Extra := List (String × Json)

/-- A link from a component to somewhere else. -/
structure ExternalReference where
  kind : String
  url : String
  comment : Option String
  extra : Extra
  deriving Inhabited

/-- A named value on a component. -/
structure Property where
  name : String
  value : String
  extra : Extra
  deriving Inhabited

/-- A component of a bill of materials. -/
structure Component where
  kind : String
  bomRef : Option String
  author : Option String
  publisher : Option String
  group : Option String
  name : String
  version : Option String
  description : Option String
  scope : Option String
  hashes : Option (List Json)
  licenses : Option (List Json)
  purl : Option String
  externalReferences : Option (List ExternalReference)
  properties : Option (List Property)
  extra : Extra
  deriving Inhabited

/-- What one reference depends on. -/
structure Dependency where
  ref : String
  dependsOn : List String
  extra : Extra
  deriving Inhabited

/-- What a document says about itself. -/
structure Metadata where
  component : Option Component
  extra : Extra
  deriving Inhabited

/-- A bill of materials. -/
structure Bom where
  format : String
  specVersion : String
  serialNumber : Option String
  version : Option Nat
  metadata : Option Metadata
  components : List Component
  dependencies : Option (List Dependency)
  extra : Extra
  deriving Inhabited

namespace Component

/-- The kind of a component that names none. -/
def defaultKind : String := "library"

/-- A component that holds what a coordinate tells. -/
def library (c : Coordinate) : Component where
  kind := defaultKind
  bomRef := some c.render
  author := none
  publisher := none
  group := c.group
  name := c.name
  version := c.version
  description := none
  scope := none
  hashes := none
  licenses := none
  purl := some c.render
  externalReferences := none
  properties := none
  extra := []

/-- The coordinate of a component whose package URL can be read. -/
def coordinate (c : Component) : Option Coordinate := c.purl.bind Coordinate.parse?

/-- The component under another coordinate. What describes it stays; the hashes go, since they are
those of the bytes of the other artifact. -/
def cloneAs (c : Component) (target : Coordinate) : Component :=
  { c with
    bomRef := some target.render
    version := target.version
    hashes := none
    purl := some target.render
    extra := [] }

/-- What dependency entries call the component. -/
def reference (c : Component) : Option String := c.bomRef.orElse fun _ => c.purl

end Component

namespace Bom

/-- The only format there is. -/
def formatName : String := "CycloneDX"

/-- A bill of materials without components. -/
def empty : Bom where
  format := formatName
  specVersion := "1.4"
  serialNumber := none
  version := some 1
  metadata := none
  components := []
  dependencies := none
  extra := []

/-- The component that the document describes. -/
def rootComponent (b : Bom) : Option Component := b.metadata.bind (·.component)

/-- The reference of the root. -/
def rootRef (b : Bom) : Option String := b.rootComponent.bind Component.reference

/-- The entries with one for the reference, appended if there was none. -/
def withEntry (ref : String) (entries : List Dependency) : List Dependency :=
  if entries.any (·.ref == ref) then entries else entries ++ [⟨ref, [], []⟩]

/-- Change the first entry with a reference. -/
def modifyEntry (ref : String) (f : Dependency → Dependency) : List Dependency → List Dependency
  | [] => []
  | d :: ds => if d.ref = ref then f d :: ds else d :: modifyEntry ref f ds

/-- Make sure that the reference has an entry. -/
def ensureEntry (b : Bom) (ref : String) : Bom :=
  { b with dependencies := some (withEntry ref (b.dependencies.getD [])) }

/-- The first entry of a reference. -/
def entry? (b : Bom) (ref : String) : Option Dependency :=
  (b.dependencies.getD []).find? (·.ref == ref)

/-- Let an entry depend on one more reference, unless it does already. -/
def dependOn (child : String) (d : Dependency) : Dependency :=
  if child ∈ d.dependsOn then d else { d with dependsOn := d.dependsOn ++ [child] }

/-- Let `parent` depend on `child`. -/
def addEdge (b : Bom) (parent child : String) : Bom :=
  { b with
    dependencies := some
      (modifyEntry parent (dependOn child) (withEntry parent (b.dependencies.getD []))) }

end Bom

end BomAssembly
