import BomAssembly.Manifest.CoordinateList
import BomAssembly.Manifest.PomDocument

/-!
# Which kind of manifest a text is

Each kind looks at the text and says how likely it is its own. The likelier one reads it, the Maven
project when both are equally likely, and none when neither may be tried.
-/

namespace BomAssembly.Manifest

/-- The kinds of manifest. -/
inductive Kind where
  | pom
  | coordinateList
  deriving DecidableEq, Inhabited

/-- What the kind is called. -/
def Kind.name : Kind → String
  | pom => "Maven POM"
  | coordinateList => "JSON coordinate list"

/-- What a look at a text found. -/
structure Detection where
  kind : Option Kind
  confidence : Confidence
  deriving DecidableEq

/-- Look at a text. -/
def detect (content : String) : Detection :=
  let pom := pomConfidence content
  let list := listConfidence content
  let (kind, confidence) :=
    if list.percent ≤ pom.percent then (Kind.pom, pom) else (Kind.coordinateList, list)
  ⟨if confidence.canRead then some kind else none, confidence⟩

/-- Read a manifest of a known kind. -/
def parseAs : Kind → String → Except DocumentError Manifest
  | .pom => parsePom
  | .coordinateList => parseList

/-- Read a manifest of the kind that the text most likely is. -/
def parse (content : String) : Except DocumentError Manifest :=
  match (detect content).kind with
  | some kind => parseAs kind content
  | none => .error (.unknownFormat "expected a Maven POM or a JSON coordinate list")

end BomAssembly.Manifest
