import BomAssembly.Json.Writer
import BomAssembly.Settings.Document
import BomAssembly.Yaml.AsJson

/-!
# The schema of settings

A schema for documents with settings: what each field means, which values it has, and its standard
value. Fields are listed by name.
-/

namespace BomAssembly.Settings

open Yaml (Data)

/-- A field of a section. -/
structure FieldSchema where
  name : String
  description : String
  /-- Its standard value. -/
  standard : Data
  /-- What values it has. -/
  values : List (String × Data)

/-- A section of the settings. -/
structure SectionSchema where
  name : String
  /-- What it is about. -/
  about : String
  /-- The name and the description of what it holds. -/
  definition : String
  description : String
  fields : List FieldSchema

/-- Where a definition is. -/
def reference (definition : String) : List (String × Data) :=
  [("allOf", .seq [.map [("$ref", .str s!"#/definitions/{definition}")]])]

/-- The values of a text. -/
def textValues : List (String × Data) := [("type", .str "string")]

/-- A field that holds a text. -/
def textField (name description standard : String) : FieldSchema :=
  ⟨name, description, .str standard, textValues⟩

/-- The field that holds a command. -/
def commandField (standard : List String) : FieldSchema where
  name := "command"
  description :=
    "Program and arguments; \x60\x7bpom\x7d\x60 and \x60\x7bworkdir\x7d\x60 are substituted"
  standard := .seq (standard.map .str)
  values := [("type", .str "array"), ("items", .map textValues)]

/-- The sections with their standard values, by name. -/
def sections (s : Settings) : List SectionSchema := [
  { name := "generator"
    about := "In-job generator settings"
    definition := "GeneratorConfig"
    description := "Settings for the generation command executed inside a job run."
    fields := [
      textField "bom_path"
        "Location of the tool's raw BOM, relative to the deliverable work directory" s.tool.bomPath,
      commandField s.tool.command] },
  { name := "intake"
    about := "Event intake settings"
    definition := "IntakeConfig"
    description := "Event intake configuration."
    fields := [⟨"trigger", "Trigger mode; \x60NONE\x60 disables request creation",
      .str s.trigger.name, reference "TriggerMode"⟩] },
  { name := "orchestrator"
    about := "Job run materialization and reconciliation settings"
    definition := "OrchestratorConfig"
    description := "Settings applied to every materialized job run."
    fields := [
      textField "build_generate_task" "Task reference for per-product build generation"
        s.runs.buildTask,
      textField "operation_generate_task"
        "Task reference for per-deliverable operation generation" s.runs.operationTask,
      textField "output_root" "Root of the shared workspace as mounted in job runs"
        s.runs.outputRoot,
      textField "service_account" "Service account the job runs execute as" s.runs.serviceAccount,
      textField "timeout" "Fixed execution ceiling per job run (e.g. \x606h\x60)" s.runs.timeout,
      textField "workspace_claim" "Persistent volume claim backing the shared workspace"
        s.runs.workspaceClaim,
      textField "workspace_name" "Workspace binding name" s.runs.workspaceName] },
  { name := "reconcile"
    about := "BOM reconciliation settings"
    definition := "ReconcileConfig"
    description := "BOM reconciliation settings."
    fields := [
      textField "enhanced_suffix"
        "Suffix appended to the raw BOM file stem for the reconciled artifact" s.enhancedSuffix] }]

/-- What each trigger means. -/
def triggerMeanings : List (Trigger × String) := [
  (.all, "React to both build and operation notifications"),
  (.builds, "React to build notifications only"),
  (.operations, "React to deliverable analysis notifications only"),
  (.never, "Ignore every notification")]

/-- A field in the schema. -/
def FieldSchema.toData (f : FieldSchema) : Data :=
  .map ([("description", .str f.description), ("default", f.standard)] ++ f.values)

/-- An object in the schema. -/
def objectData (description : String) (properties : List (String × Data)) : List (String × Data) :=
  [("description", .str description), ("type", .str "object"), ("properties", .map properties)]

/-- What a section holds, in the schema. -/
def SectionSchema.toData (s : SectionSchema) : Data :=
  .map (objectData s.description (s.fields.map fun f => (f.name, f.toData)))

/-- The standard value of an entry of a mapping. -/
def entry (name : String) : Data → Data
  | .map es => (es.lookup name).getD .null
  | _ => .null

/-- A section in the schema, by reference to what it holds. -/
def SectionSchema.propertyData (standard : Settings) (s : SectionSchema) : Data :=
  .map ([("description", .str s.about), ("default", entry s.name standard.toData)] ++
    reference s.definition)

/-- The triggers in the schema. -/
def triggersData : Data := .map [
  ("description", .str "Which lifecycle notifications create generation requests."),
  ("oneOf", .seq (triggerMeanings.map fun (t, meaning) => .map [
    ("description", .str meaning), ("type", .str "string"), ("enum", .seq [.str t.name])]))]

/-- The schema. -/
def schema : Data :=
  let standard : Settings := {}
  let parts := sections standard
  .map ([("$schema", .str "http://json-schema.org/draft-07/schema#"),
      ("title", .str "AppConfig")] ++
    objectData
      "Unified application configuration that can be loaded from CLI args or config files."
      (parts.map fun s => (s.name, s.propertyData standard)) ++
    [("definitions", .map ((parts.map fun s => (s.definition, s.toData)) ++
      [("TriggerMode", triggersData)]))])

/-- The text of the schema. -/
def schemaText : String := schema.toJson.indented

end BomAssembly.Settings
