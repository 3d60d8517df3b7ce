import BomAssembly.Settings.Basic
import BomAssembly.Yaml.Typed
import BomAssembly.Yaml.Writer

/-!
# Settings as documents

Settings are a YAML document in which every field has a default. Settings with an issue are refused.
-/

namespace BomAssembly

open Yaml (Document Node Data fieldOr)

namespace Settings

/-- Read the intake settings. -/
def triggerOf? (d : Document) (n : Node) : Option Trigger := do
  let fs ← d.record? ["trigger"] n
  fieldOr .all (fun n => (d.word? n).bind Trigger.ofName?) "trigger" fs

/-- Read how job runs are made. -/
def runsOf? (d : Document) (n : Node) : Option RunSettings := do
  let fs ← d.record? ["service_account", "timeout", "workspace_claim", "workspace_name",
    "operation_generate_task", "build_generate_task", "output_root"] n
  let text (value name : String) : Option String := fieldOr value d.text? name fs
  let standard : RunSettings := {}
  some {
    serviceAccount := ← text standard.serviceAccount "service_account"
    timeout := ← text standard.timeout "timeout"
    workspaceClaim := ← text standard.workspaceClaim "workspace_claim"
    workspaceName := ← text standard.workspaceName "workspace_name"
    operationTask := ← text standard.operationTask "operation_generate_task"
    buildTask := ← text standard.buildTask "build_generate_task"
    outputRoot := ← text standard.outputRoot "output_root" }

/-- Read the command. -/
def toolOf? (d : Document) (n : Node) : Option ToolSettings := do
  let fs ← d.record? ["command", "bom_path"] n
  let standard : ToolSettings := {}
  some {
    command := ← fieldOr standard.command d.texts? "command" fs
    bomPath := ← fieldOr standard.bomPath d.text? "bom_path" fs }

/-- Read the suffix. -/
def suffixOf? (d : Document) (n : Node) : Option String := do
  let fs ← d.record? ["enhanced_suffix"] n
  let standard : Settings := {}
  fieldOr standard.enhancedSuffix d.text? "enhanced_suffix" fs

/-- Read settings from a document. -/
def ofDocument? (d : Document) : Option Settings := do
  let fs ← d.record? ["intake", "orchestrator", "generator", "reconcile"] d.top
  let standard : Settings := {}
  some {
    trigger := ← fieldOr standard.trigger (triggerOf? d) "intake" fs
    runs := ← fieldOr standard.runs (runsOf? d) "orchestrator" fs
    tool := ← fieldOr standard.tool (toolOf? d) "generator" fs
    enhancedSuffix := ← fieldOr standard.enhancedSuffix (suffixOf? d) "reconcile" fs }

/-- Why settings could not be loaded. -/
inductive LoadError where
  | notFound (path : String)
  | malformed
  | invalid (issues : List Issue)

/-- The texts with a separator between them. -/
def separated (sep : String) (texts : List String) : String :=
  String.ofList (Text.joined sep.toList (texts.map String.toList))

/-- The error in words; what the reader of the document said is left out. -/
def LoadError.message : LoadError → String
  | notFound path => s!"Config file not found: {path}"
  | malformed => "Failed to parse config file: malformed document"
  | invalid issues =>
    let texts := separated "; " (issues.map Issue.text)
    s!"Invalid config file: {texts}"

/-- Load settings from the text of a file, if there is one. -/
def load (path : String) (content : Option String) : Except LoadError Settings :=
  match content with
  | none => .error (.notFound path)
  | some text =>
    match (Document.parse? text).bind ofDocument? with
    | none => .error .malformed
    | some s => if s.issues.isEmpty then .ok s else .error (.invalid s.issues)

/-- Settings as they are written. -/
def toData (s : Settings) : Data := .map [
  ("intake", .map [("trigger", .str s.trigger.name)]),
  ("orchestrator", .map [
    ("service_account", .str s.runs.serviceAccount),
    ("timeout", .str s.runs.timeout),
    ("workspace_claim", .str s.runs.workspaceClaim),
    ("workspace_name", .str s.runs.workspaceName),
    ("operation_generate_task", .str s.runs.operationTask),
    ("build_generate_task", .str s.runs.buildTask),
    ("output_root", .str s.runs.outputRoot)]),
  ("generator", .map [
    ("command", .seq (s.tool.command.map .str)),
    ("bom_path", .str s.tool.bomPath)]),
  ("reconcile", .map [("enhanced_suffix", .str s.enhancedSuffix)])]

end Settings

end BomAssembly
