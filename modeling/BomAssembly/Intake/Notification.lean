import BomAssembly.Json.Record
import BomAssembly.Text.Blank

/-!
# Notifications

Messages that tell of a build or of the analysis of what an operation delivers. The type of a message
says how its payload is to be read; a message of any other type is not for this system, whatever its
payload. A state that is not known by name is read as unknown.
-/

namespace BomAssembly

open Json (Shape defaulted list? optional string?)

namespace Intake

/-- How far an activity has come. -/
inductive Progress where
  | pending
  | inProgress
  | finished
  | unknown
  deriving DecidableEq, Inhabited

/-- The name in messages. -/
def Progress.name : Progress → String
  | pending => "PENDING"
  | inProgress => "IN_PROGRESS"
  | finished => "FINISHED"
  | unknown => "UNKNOWN"

/-- The progress of a name. -/
def Progress.ofName (name : String) : Progress :=
  ([pending, inProgress, finished].find? fun p => p.name == name).getD unknown

/-- How a build has gone. -/
inductive BuildStatus where
  | success
  | noRebuildRequired
  | failed
  | cancelled
  | systemError
  | unknown
  deriving DecidableEq, Inhabited

namespace BuildStatus

/-- The name in messages. -/
def name : BuildStatus → String
  | success => "SUCCESS"
  | noRebuildRequired => "NO_REBUILD_REQUIRED"
  | failed => "FAILED"
  | cancelled => "CANCELLED"
  | systemError => "SYSTEM_ERROR"
  | unknown => "UNKNOWN"

/-- The status of a name. -/
def ofName (name : String) : BuildStatus :=
  ([success, noRebuildRequired, failed, cancelled, systemError].find? fun s =>
    s.name == name).getD unknown

/-- Whether there are artifacts to be used. -/
def isSuccessful : BuildStatus → Bool
  | success | noRebuildRequired => true
  | _ => false

end BuildStatus

/-- The build that a message tells of. -/
structure BuildRef where
  id : Option String
  progress : Option Progress
  status : Option BuildStatus
  deriving DecidableEq, Inhabited

/-- A build has changed its state. -/
structure BuildChange where
  oldStatus : Option String
  newStatus : Option String
  build : Option BuildRef
  deriving DecidableEq, Inhabited

/-- The analysis of what an operation delivers has changed its state. -/
structure AnalysisChange where
  operationId : Option String
  status : Option Progress
  /-- The archives that the operation delivers. -/
  urls : List String
  deriving DecidableEq, Inhabited

/-- What a message tells. -/
inductive Notification where
  | build (change : BuildChange)
  | analysis (change : AnalysisChange)
  deriving DecidableEq, Inhabited

/-! ## Reading -/

/-- A name, alone or as the only field of an object that holds nothing else. -/
def named? : Json → Option String
  | .str s => some s
  | .obj [(s, .null)] => some s
  | _ => none

namespace BuildRef

/-- The names that each field goes by. -/
def fieldNames : List (List String) :=
  [["id"], ["progress", "buildProgress"], ["status", "buildStatus"]]

/-- Read the build of a message. -/
def ofJson? (v : Json) : Option BuildRef := do
  let fs ← v.recordFields? (fieldNames.filterMap List.head?)
  some {
    id := ← optional string? ["id"] fs
    progress := ← optional (fun v => (named? v).map Progress.ofName)
      ["progress", "buildProgress"] fs
    status := ← optional (fun v => (named? v).map BuildStatus.ofName)
      ["status", "buildStatus"] fs }

/-- Write the build of a message. -/
def toJson (b : BuildRef) : Json := .obj [
  ("id", Json.orNull .str b.id),
  ("progress", Json.orNull (fun p => .str p.name) b.progress),
  ("status", Json.orNull (fun s => .str s.name) b.status)]

end BuildRef

namespace BuildChange

/-- The names of the fields, with what is wanted of each. -/
def fieldShapes : List (String × Shape) := [
  ("oldStatus", .any), ("newStatus", .any),
  ("build", .record (BuildRef.fieldNames.flatten.map fun n => (n, .any)))]

/-- Read the change of a build. -/
def ofJson? (v : Json) : Option BuildChange := do
  let fs ← v.recordFields? (fieldShapes.map Prod.fst)
  some {
    oldStatus := ← optional string? ["oldStatus"] fs
    newStatus := ← optional string? ["newStatus"] fs
    build := ← optional BuildRef.ofJson? ["build"] fs }

/-- Write the change of a build. -/
def toJson (c : BuildChange) : Json := .obj [
  ("oldStatus", Json.orNull .str c.oldStatus),
  ("newStatus", Json.orNull .str c.newStatus),
  ("build", Json.orNull BuildRef.toJson c.build)]

/-- Read the change of a build from its text. -/
def parse? (content : String) : Option BuildChange :=
  (Json.readWritten (.record fieldShapes) content).bind ofJson?

end BuildChange

namespace AnalysisChange

/-- The names of the fields, with what is wanted of each. -/
def fieldShapes : List (String × Shape) :=
  [("operationId", .any), ("status", .any), ("deliverablesUrls", .list .any)]

/-- Read the change of an analysis. -/
def ofJson? (v : Json) : Option AnalysisChange := do
  let fs ← v.recordFields? (fieldShapes.map Prod.fst)
  some {
    operationId := ← optional string? ["operationId"] fs
    status := ← optional (fun v => (named? v).map Progress.ofName) ["status"] fs
    urls := ← defaulted [] (list? string?) ["deliverablesUrls"] fs }

/-- Write the change of an analysis. -/
def toJson (c : AnalysisChange) : Json := .obj [
  ("operationId", Json.orNull .str c.operationId),
  ("status", Json.orNull (fun p => .str p.name) c.status),
  ("deliverablesUrls", .arr (c.urls.map .str))]

/-- Read the change of an analysis from its text. -/
def parse? (content : String) : Option AnalysisChange :=
  (Json.readWritten (.record fieldShapes) content).bind ofJson?

end AnalysisChange

namespace Notification

/-- The type of messages about a build. -/
def buildType : String := "BuildStateChange"

/-- The type of messages about an analysis. -/
def analysisType : String := "DeliverableAnalysisStateChange"

/-- Whether messages of a type are for this system. -/
def Consumes (type : Option String) : Prop := type = some buildType ∨ type = some analysisType

instance (type : Option String) : Decidable (Consumes type) := by
  unfold Consumes
  infer_instance

/-- Read the payload of a message that is for this system. -/
def parse? (type : Option String) (payload : String) : Option Notification :=
  if type = some buildType then (BuildChange.parse? payload).map build
  else if type = some analysisType then (AnalysisChange.parse? payload).map analysis
  else none

/-- The build or operation that a notification is about, if it names one. -/
def correlationId? (n : Notification) : Option String :=
  let id :=
    match n with
    | build c => c.build.bind BuildRef.id
    | analysis c => c.operationId
  (id.map Text.trimmed).filter fun id => id ≠ ""

/-- Whether the activity has finished and there is something to be used. -/
def isFinishedSuccess : Notification → Bool
  | build c =>
    match c.build with
    | some b => b.progress = some .finished && (b.status.map BuildStatus.isSuccessful).getD false
    | none => false
  | analysis c => c.status = some .finished

end Notification

end Intake

end BomAssembly
