import BomAssembly.Json.Record
import BomAssembly.Json.Writer
import BomAssembly.Text.SortedMap
import BomAssembly.Yaml.AsJson

/-!
# Job run specs

What a job run is to do: which task, with which parameters, as whom, on which part of the shared
workspace, and for how long. A spec is written as JSON, and read from it; an array holds the fields
of a record in order.
-/

namespace BomAssembly

open Text (StringMap)
open Json (required defaulted list? string? natBelow? texts? Shape)
open Yaml (Data)

/-- A parameter of a task. -/
structure Param where
  name : String
  value : String
  deriving DecidableEq, Inhabited

/-- The part of the shared workspace that a job run sees. -/
structure Workspace where
  name : String
  claimName : String
  subPath : String
  deriving DecidableEq, Inhabited

/-- What a job run is to do. -/
structure JobRunSpec where
  name : String
  labels : StringMap String
  annotations : StringMap String
  params : List Param
  /-- How long it may take, in milliseconds. -/
  timeout : Nat
  serviceAccount : String
  taskRef : String
  workspace : Workspace
  deriving DecidableEq, Inhabited

/-- The annotation that holds the fingerprint of a spec. -/
def hashAnnotation : String := "sbomer.jboss.org/spec-hash"

/-- A map of texts in JSON. -/
def mapJson (m : StringMap String) : Json := (Data.ofTexts m).toJson

/-- Read a map of texts. -/
def map? (v : Json) : Option (StringMap String) := (texts? v).map .ofList

/-- Read a duration in whole seconds, in milliseconds. -/
def seconds? (v : Json) : Option Nat := (natBelow? (Nat.pow 2 64) v).map fun s => s * 1000

namespace Param

/-- The names of the fields. -/
def fieldNames : List String := ["name", "value"]

/-- Read a parameter. -/
def ofJson? (v : Json) : Option Param := do
  let fs ← v.recordFields? fieldNames
  some ⟨← required string? ["name"] fs, ← required string? ["value"] fs⟩

/-- A parameter as it is written. -/
def toData (p : Param) : Data := .map [("name", .str p.name), ("value", .str p.value)]

end Param

namespace Workspace

/-- The names of the fields. -/
def fieldNames : List String := ["name", "claimName", "subPath"]

/-- Read a workspace. -/
def ofJson? (v : Json) : Option Workspace := do
  let fs ← v.recordFields? fieldNames
  some ⟨← required string? ["name"] fs, ← required string? ["claimName"] fs,
    ← required string? ["subPath"] fs⟩

/-- A workspace as it is written. -/
def toData (w : Workspace) : Data :=
  .map [("name", .str w.name), ("claimName", .str w.claimName), ("subPath", .str w.subPath)]

end Workspace

namespace JobRunSpec

/-- The value of the first parameter of a name. -/
def param? (s : JobRunSpec) (name : String) : Option String :=
  (s.params.find? fun p => p.name == name).map Param.value

/-- The fingerprint that was put on the spec. -/
def hash? (s : JobRunSpec) : Option String := s.annotations.get? hashAnnotation

/-- The names of the fields, with what is wanted of each. -/
def fieldShapes : List (String × Shape) := [
  ("name", .any), ("labels", .any), ("annotations", .any),
  ("params", .list (.record (Param.fieldNames.map fun n => (n, .any)))),
  ("timeout", .any), ("serviceAccount", .any), ("taskRef", .any),
  ("workspace", .record (Workspace.fieldNames.map fun n => (n, .any)))]

/-- Read a spec. -/
def ofJson? (v : Json) : Option JobRunSpec := do
  let fs ← v.recordFields? (fieldShapes.map Prod.fst)
  some {
    name := ← required string? ["name"] fs
    labels := ← required map? ["labels"] fs
    annotations := ← defaulted .empty map? ["annotations"] fs
    params := ← required (list? Param.ofJson?) ["params"] fs
    timeout := ← required seconds? ["timeout"] fs
    serviceAccount := ← required string? ["serviceAccount"] fs
    taskRef := ← required string? ["taskRef"] fs
    workspace := ← required Workspace.ofJson? ["workspace"] fs }

/-- A spec as it is written; the time limit is cut to whole seconds. -/
def toData (s : JobRunSpec) : Data := .map [
  ("name", .str s.name),
  ("labels", Data.ofTexts s.labels),
  ("annotations", Data.ofTexts s.annotations),
  ("params", .seq (s.params.map Param.toData)),
  ("timeout", .int (s.timeout / 1000 : Nat)),
  ("serviceAccount", .str s.serviceAccount),
  ("taskRef", .str s.taskRef),
  ("workspace", s.workspace.toData)]

/-- A spec in JSON. -/
def toJson (s : JobRunSpec) : Json := s.toData.toJson

/-- Read a spec from its text. -/
def parse? (content : String) : Option JobRunSpec :=
  (Json.readWritten (.record fieldShapes) content).bind ofJson?

end JobRunSpec

end BomAssembly
