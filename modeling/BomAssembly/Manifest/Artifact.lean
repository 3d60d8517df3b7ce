import BomAssembly.Json.Record
import BomAssembly.Json.Writer
import BomAssembly.Text.Split

/-!
# Analysed artifacts

What the analysis of a deliverable found: an artifact, where inside the deliverable it was found, and
from which archive it came. An artifact found only inside other jars is no dependency of its own.
-/

namespace BomAssembly

open Json (required defaulted optional list? string? field Shape)

/-- An artifact found in a deliverable. -/
structure AnalysedArtifact where
  id : String
  purl : String
  locations : List String
  distributionUrl : Option String
  deriving DecidableEq, Inhabited

namespace AnalysedArtifact

/-- Whether the artifact was found outside of all other jars at least once. -/
def foundOutside (a : AnalysedArtifact) : Bool :=
  a.locations.any fun l => !Text.contains l ".jar!/"

/-- The names of the fields. -/
def fieldNames : List String := ["id", "purl", "archiveFilenames", "distributionUrl"]

/-- What is wanted of an artifact's text. -/
def shape : Shape := .record (fieldNames.map fun n => (n, .any))

/-- Read an artifact; an array holds the fields in order. -/
def ofJson? (v : Json) : Option AnalysedArtifact := do
  let fs ← v.recordFields? fieldNames
  some {
    id := ← required string? ["id"] fs
    purl := ← required string? ["purl"] fs
    locations := ← defaulted [] (list? string?) ["archiveFilenames"] fs
    distributionUrl := ← optional string? ["distributionUrl"] fs }

/-- Write an artifact. -/
def toJson (a : AnalysedArtifact) : Json :=
  .obj ([("id", .str a.id), ("purl", .str a.purl),
    ("archiveFilenames", .arr (a.locations.map Json.str))] ++
    field "distributionUrl" Json.str a.distributionUrl)

/-- Read an artifact from its text. -/
def parse? (content : String) : Option AnalysedArtifact :=
  (Json.readWritten shape content).bind ofJson?

end AnalysedArtifact

end BomAssembly
