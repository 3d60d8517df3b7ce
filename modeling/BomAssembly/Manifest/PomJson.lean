import BomAssembly.Json.Record
import BomAssembly.Manifest.Pom

/-!
# Projects as JSON

A project in JSON has the fields that it has in XML, under the same names; an attribute has an at sign
in front.
-/

namespace BomAssembly

open Json (field orNull)

/-- A dependency in JSON. -/
def PomDependency.toJson (d : PomDependency) : Json :=
  .obj ([("groupId", orNull .str d.groupId), ("artifactId", orNull .str d.artifactId)] ++
    field "version" .str d.version ++ field "type" .str d.packaging ++
    field "classifier" .str d.classifier ++ field "scope" .str d.scope)

/-- A project in JSON. -/
def Pom.toJson (p : Pom) : Json :=
  .obj (field "@xmlns" .str p.xmlns ++ field "modelVersion" .str p.modelVersion ++
    field "groupId" .str p.groupId ++ field "artifactId" .str p.artifactId ++
    field "version" .str p.version ++ field "packaging" .str p.packaging ++
    field "description" .str p.description ++
    field "properties" (fun m => .obj (m.entries.map fun (k, v) => (k, .str v))) p.properties ++
    field "dependencies"
      (fun ds => .obj [("dependency", .arr (ds.map PomDependency.toJson))]) p.dependencies)

end BomAssembly
