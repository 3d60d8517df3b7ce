import BomAssembly.Bom.Basic
import BomAssembly.Confidence
import BomAssembly.Failure
import BomAssembly.Json.Record
import BomAssembly.Json.Writer
import BomAssembly.Text.Blank

/-!
# Bills of materials as JSON documents

Reading takes the known fields out of each object and keeps the others, each once, in the order
written. Writing puts the known fields first, in a fixed order, and the others behind them. A strict
reader asks that the text names its format; the lenient one lets it be left out.
-/

namespace BomAssembly

open Json (Fields required defaulted optional list? string? leftOver field natBelow?)

namespace ExternalReference

/-- The names of the fields. -/
def names : List String := ["type", "url", "comment"]

/-- Read a link. -/
def ofJson? (v : Json) : Option ExternalReference := do
  let fs ← v.fields?
  return {
    kind := ← required string? ["type"] fs
    url := ← required string? ["url"] fs
    comment := ← optional string? ["comment"] fs
    extra := leftOver names fs }

/-- Write a link. -/
def toJson (r : ExternalReference) : Json :=
  .obj ([("type", .str r.kind), ("url", .str r.url)] ++ field "comment" Json.str r.comment ++
    r.extra)

end ExternalReference

namespace Property

/-- Read a named value. -/
def ofJson? (v : Json) : Option Property := do
  let fs ← v.fields?
  return {
    name := ← required string? ["name"] fs
    value := ← defaulted "" string? ["value"] fs
    extra := leftOver ["name", "value"] fs }

/-- Write a named value. -/
def toJson (p : Property) : Json :=
  .obj ([("name", .str p.name), ("value", .str p.value)] ++ p.extra)

end Property

namespace Component

/-- The names of the fields. -/
def names : List String := [
  "type", "bom-ref", "bomRef", "author", "publisher", "group", "name", "version", "description",
  "scope", "hashes", "licenses", "purl", "externalReferences", "properties"]

/-- Read a component. -/
def ofJson? (v : Json) : Option Component := do
  let fs ← v.fields?
  return {
    kind := ← defaulted defaultKind string? ["type"] fs
    bomRef := ← optional string? ["bom-ref", "bomRef"] fs
    author := ← optional string? ["author"] fs
    publisher := ← optional string? ["publisher"] fs
    group := ← optional string? ["group"] fs
    name := ← defaulted "" string? ["name"] fs
    version := ← optional string? ["version"] fs
    description := ← optional string? ["description"] fs
    scope := ← optional string? ["scope"] fs
    hashes := ← optional (list? fun v => some v.merged) ["hashes"] fs
    licenses := ← optional (list? fun v => some v.merged) ["licenses"] fs
    purl := ← optional string? ["purl"] fs
    externalReferences := ← optional (list? ExternalReference.ofJson?) ["externalReferences"] fs
    properties := ← optional (list? Property.ofJson?) ["properties"] fs
    extra := leftOver names fs }

/-- Write a component. -/
def toJson (c : Component) : Json :=
  .obj ([("type", .str c.kind)] ++ field "bom-ref" Json.str c.bomRef ++
    field "author" Json.str c.author ++ field "publisher" Json.str c.publisher ++
    field "group" Json.str c.group ++ [("name", .str c.name)] ++
    field "version" Json.str c.version ++ field "description" Json.str c.description ++
    field "scope" Json.str c.scope ++ field "hashes" Json.arr c.hashes ++
    field "licenses" Json.arr c.licenses ++ field "purl" Json.str c.purl ++
    field "externalReferences" (fun rs => .arr (rs.map ExternalReference.toJson))
      c.externalReferences ++
    field "properties" (fun ps => .arr (ps.map Property.toJson)) c.properties ++ c.extra)

end Component

namespace Dependency

/-- Read an entry. -/
def ofJson? (v : Json) : Option Dependency := do
  let fs ← v.fields?
  return {
    ref := ← required string? ["ref"] fs
    dependsOn := ← defaulted [] (list? string?) ["dependsOn"] fs
    extra := leftOver ["ref", "dependsOn"] fs }

/-- Write an entry. -/
def toJson (d : Dependency) : Json :=
  .obj ([("ref", .str d.ref), ("dependsOn", .arr (d.dependsOn.map Json.str))] ++ d.extra)

end Dependency

namespace Metadata

/-- Read what a document says about itself. -/
def ofJson? (v : Json) : Option Metadata := do
  let fs ← v.fields?
  return {
    component := ← optional Component.ofJson? ["component"] fs
    extra := leftOver ["component"] fs }

/-- Write what a document says about itself. -/
def toJson (m : Metadata) : Json := .obj (field "component" Component.toJson m.component ++ m.extra)

end Metadata

namespace Bom

/-- The names of the fields. -/
def names : List String := [
  "bomFormat", "specVersion", "serialNumber", "version", "metadata", "components", "dependencies"]

/-- Read a bill of materials of any format name. -/
def ofJson? (v : Json) : Option Bom := do
  let fs ← v.fields?
  return {
    format := ← defaulted formatName string? ["bomFormat"] fs
    specVersion := ← defaulted "" string? ["specVersion"] fs
    serialNumber := ← optional string? ["serialNumber"] fs
    version := ← optional (natBelow? (Nat.pow 2 32)) ["version"] fs
    metadata := ← optional Metadata.ofJson? ["metadata"] fs
    components := ← defaulted [] (list? Component.ofJson?) ["components"] fs
    dependencies := ← optional (list? Dependency.ofJson?) ["dependencies"] fs
    extra := leftOver names fs }

/-- Write a bill of materials. -/
def toJson (b : Bom) : Json :=
  .obj ([("bomFormat", .str b.format), ("specVersion", .str b.specVersion)] ++
    field "serialNumber" Json.str b.serialNumber ++ field "version" Json.nat b.version ++
    field "metadata" Metadata.toJson b.metadata ++
    [("components", .arr (b.components.map Component.toJson))] ++
    field "dependencies" (fun ds => .arr (ds.map Dependency.toJson)) b.dependencies ++ b.extra)

/-- The text of the document. -/
def render (b : Bom) : String := b.toJson.indented

/-- The quoted name of the field that holds the format. -/
def formatMarker : String := "\"bomFormat\""

/-- Read a document. A strict reader wants the name of the format in the text. -/
def parse (strict : Bool) (content : String) : Except DocumentError Bom :=
  if strict && !Text.contains content formatMarker then
    .error (.unknownFormat "missing bomFormat marker")
  else
    match (Json.readWritten .any content).bind ofJson? with
    | none => .error (.json "not a bill of materials")
    | some b =>
      if b.format = formatName then .ok b
      else
        let found := b.format
        .error (.malformed s!"unexpected bomFormat '{found}'")

/-- How likely a text is a bill of materials. -/
def confidence (content : String) : Confidence :=
  match Text.trimStart content.toList with
  | '\x7b' :: rest =>
    if Text.occurs formatMarker.toList rest && Text.occurs formatName.toList rest then .high
    else if Text.occurs "\"components\"".toList rest then .low
    else .none
  | _ => .none

end Bom

end BomAssembly
