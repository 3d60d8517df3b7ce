import BomAssembly.Coordinate.Reader
import BomAssembly.Json.Record
import BomAssembly.Manifest.Artifact
import BomAssembly.Manifest.Pom
import BomAssembly.Text.LetterCase

/-!
# The manifest of a deliverable

What the analysis of an archive found becomes a project that depends on all of it. Artifacts that were
found in another archive, found only inside other jars, or are not from Maven, are left out.
-/

namespace BomAssembly

namespace AnalysedArtifact

/-- The artifacts of a list with a coordinate on each line, numbered from one on. Blank lines and lines
that begin with a hash mean nothing. -/
def ofLines (content : String) : List AnalysedArtifact :=
  let lines := (Text.pieces '\n' content.toList).map Text.trim
  let kept := lines.filter fun l => !l.isEmpty && l.head? ≠ some '#'
  kept.zipIdx.map fun (l, i) => ⟨toString (i + 1), String.ofList l, [], none⟩

/-- Read a list of artifacts, written in JSON. -/
def parseList? (content : String) : Option (List AnalysedArtifact) :=
  (Json.readWritten (.list shape) content).bind (Json.list? ofJson?)

/-- Read a list of artifacts, written in JSON or one to a line. -/
def readAll? (content : String) : Option (List AnalysedArtifact) :=
  if (Text.trimStart content.toList).head? = some '[' then parseList? content
  else some (ofLines content)

/-- Whether an artifact was found in an archive; it counts as found there unless another one is
named. -/
def foundIn (url : Option String) (a : AnalysedArtifact) : Bool :=
  match url, a.distributionUrl with
  | some url, some other => url = other
  | _, _ => true

/-- Whether an artifact was found inside other jars only. -/
def isNested (a : AnalysedArtifact) : Bool := !a.locations.isEmpty && !a.foundOutside

end AnalysedArtifact

/-- A deliverable whose manifest is to be made. -/
structure Bundle where
  /-- The archive; all archives are meant if none is named. -/
  url : Option String
  operationId : String
  /-- The product and its milestone. -/
  group : String
  artifact : String
  /-- The version, if it is not the name of the archive. -/
  version : Option String
  deriving DecidableEq, Inhabited

namespace Bundle

/-- The last step of a URL, without query and fragment. -/
def fileNameOf (url : String) : Option String :=
  let path := url.toList.takeWhile fun c => c ≠ '?' && c ≠ '#'
  match (Text.pieces '/' path).getLast? with
  | some (c :: cs) => some (String.ofList (c :: cs))
  | _ => none

/-- The name of the archive. -/
def archive (b : Bundle) : String := (b.url.bind fileNameOf).getD "deliverable"

/-- The group of a product: small letters and no spaces. -/
def groupId (b : Bundle) : String :=
  String.ofList (Text.lowercase (b.group.toList.map fun c => if c = ' ' then '-' else c))

/-- The project without dependencies. -/
def project (b : Bundle) : Pom :=
  .bundle b.groupId b.artifact (b.version.getD b.archive)
    s!"POM representing the deliverable {b.archive} analyzed with operation {b.operationId}"

/-- The coordinate of an artifact that belongs to the deliverable itself. -/
def coordinate? (b : Bundle) (a : AnalysedArtifact) : Option Coordinate :=
  if a.foundIn b.url && !a.isNested then (Coordinate.parse? a.purl).filter Coordinate.isMaven
  else none

/-- Add the dependency on an artifact, if it belongs to the deliverable. -/
def add (b : Bundle) (p : Pom) (a : AnalysedArtifact) : Pom :=
  match b.coordinate? a with
  | some c => p.addDependency c a.id
  | none => p

/-- The manifest of the deliverable. -/
def manifest (b : Bundle) (found : List AnalysedArtifact) : Pom := found.foldl b.add b.project

end Bundle

end BomAssembly
