import BomAssembly.Request.Basic
import BomAssembly.Text.SortedMap
import BomAssembly.Yaml.Typed

/-!
# Requests as they are stored

A stored request is a record of texts and a set of labels. The labels name the build or operation,
the status, and the request itself, so that resources can be found by them; reading looks at the
record only.
-/

namespace BomAssembly

open Text (StringMap)
open Yaml (Document Data fieldOr)

/-- A stored record of texts, with labels. -/
structure Record where
  name : String
  data : StringMap String
  labels : StringMap String
  deriving DecidableEq, Inhabited

/-! ## The names of labels -/

namespace Label

/-- A label of this system. -/
def own (name : String) : String := s!"sbomer.jboss.org/{name}"

/-- The labels that every resource carries. -/
def standard : List (String × String) := [
  ("app.kubernetes.io/part-of", "sbomer"),
  ("app.kubernetes.io/component", "sbom"),
  ("app.kubernetes.io/managed-by", "sbom")]

end Label

namespace Kind

/-- The key of the build or operation, in records and on labels. -/
def idKey : Kind → String
  | build => "build-id"
  | operation => "operation-id"

/-- The key of the configuration. -/
def configKey : Kind → String
  | build => "config"
  | operation => "operation-config"

end Kind

namespace Request

/-- The labels of everything that is made for a request. -/
def identityLabels (r : Request) : StringMap String :=
  .ofList (Label.standard ++ [
    (Label.own "generation-request-id", r.id),
    (Label.own "type", r.kind.name),
    (Label.own r.kind.idKey, r.correlationId)])

/-- The text of the configuration. -/
def configText (r : Request) : Option String :=
  match r.config with
  | .missing => none
  | .valid c => some c.render
  | .invalid raw _ => some raw

/-- The fields that are written: those without a value are left out. -/
def recordFields (r : Request) : List (String × Option String) := [
  ("id", some r.id),
  ("type", some r.kind.name),
  (r.kind.idKey, some r.correlationId),
  ("status", some r.status.name),
  ("reason", r.reason),
  ("result", r.result.map Outcome.name),
  ("output", r.output),
  (r.kind.configKey, r.configText)]

/-- The record of a request. -/
def toRecord (r : Request) : Record where
  name := r.name
  data := .ofList (r.recordFields.filterMap fun f => f.2.map fun v => (f.1, v))
  labels := (r.identityLabels.insert (Label.own "status") r.status.name).insert
    (Label.own "generation-request") "yes"

/-- A field that must not be blank. -/
def demand (record : Record) (key : String) : Except Failure String :=
  match record.data.get? key with
  | some v => if Text.allBlank v then .error (.missingField key record.name) else .ok v
  | none => .error (.missingField key record.name)

/-- Read a field that need not be there. -/
def readIfThere {α : Type} (read : String → Except Failure α) (record : Record) (key : String) :
    Except Failure (Option α) :=
  match record.data.get? key with
  | some v => (read v).map some
  | none => .ok none

/-- Read a request from its record. A configuration that does not fit is kept as it is. -/
def ofRecord (record : Record) : Except Failure Request := do
  let kind ← Kind.parse (← demand record "type")
  let correlationId ← demand record kind.idKey
  let status ← readIfThere Status.parse record "status"
  let result ← readIfThere Outcome.parse record "result"
  let id ← demand record "id"
  return {
    name := record.name
    id
    kind
    correlationId
    status := status.getD .new
    reason := record.data.get? "reason"
    result
    config := .ofRaw (record.data.get? kind.configKey) kind correlationId
    output := record.data.get? "output" }

end Request

namespace Record

/-- Read a record from a document. -/
def ofDocument? (d : Document) : Option Record := do
  let fs ← d.record? ["name", "data", "labels"] d.top
  let name ← (fs.lookup "name").bind d.text?
  let data ← fieldOr [] d.textEntries? "data" fs
  let labels ← fieldOr [] d.textEntries? "labels" fs
  some ⟨name, .ofList data, .ofList labels⟩

/-- Read a record from the text of a document. -/
def parse? (text : String) : Option Record := (Document.parse? text).bind ofDocument?

/-- A record as it is written. -/
def toData (r : Record) : Data :=
  .map [("name", .str r.name), ("data", Data.ofTexts r.data), ("labels", Data.ofTexts r.labels)]

/-- A record as a document. -/
def render (r : Record) : String := r.toData.render

end Record

end BomAssembly
