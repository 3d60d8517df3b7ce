import BomAssembly.Duration
import BomAssembly.FilePath

/-!
# Settings

What an operator can set: which notifications create requests, how job runs are made, which command
generates a BOM, and how the file of a reconciled BOM is named. Settings are checked as a whole, and
every issue is reported under the name of its field.
-/

namespace BomAssembly

/-- Which notifications create requests. -/
inductive Trigger where
  | all
  | builds
  | operations
  | never
  deriving DecidableEq, Inhabited

namespace Trigger

/-- The name in settings. -/
def name : Trigger → String
  | all => "ALL"
  | builds => "BUILD"
  | operations => "OPERATION"
  | never => "NONE"

/-- The trigger of a name. -/
def ofName? (s : String) : Option Trigger :=
  [all, builds, operations, never].find? fun t => t.name == s

/-- Whether builds create requests. -/
def acceptsBuilds : Trigger → Bool
  | all | builds => true
  | _ => false

/-- Whether operations create requests. -/
def acceptsOperations : Trigger → Bool
  | all | operations => true
  | _ => false

end Trigger

/-- How job runs are made. -/
structure RunSettings where
  serviceAccount : String := "sbomer-sa"
  /-- How long a job run may take. -/
  timeout : String := "6h"
  workspaceClaim : String := "sbomer-sboms"
  workspaceName : String := "data"
  operationTask : String := "sbomer-operation-generate"
  buildTask : String := "sbomer-generate"
  /-- Where job runs find the shared workspace. -/
  outputRoot : String := "/data"
  deriving DecidableEq, Inhabited

/-- The command that generates a BOM. -/
structure ToolSettings where
  /-- The program and its arguments, with places for the manifest and the work directory. -/
  command : List String := [
    "mvn", "-B", "-q", "org.cyclonedx:cyclonedx-maven-plugin:2.7.9:makeAggregateBom", "-f",
    "\x7bpom\x7d", "-DoutputFormat=json", "-DoutputName=bom", "-DoutputDirectory=\x7bworkdir\x7d"]
  /-- Where the command leaves its BOM, seen from the work directory. -/
  bomPath : String := "bom.json"
  deriving DecidableEq, Inhabited

/-- All settings. -/
structure Settings where
  trigger : Trigger := .all
  runs : RunSettings := {}
  tool : ToolSettings := {}
  /-- What the file name of a reconciled BOM has behind its stem. -/
  enhancedSuffix : String := "-enhanced"
  deriving DecidableEq, Inhabited

namespace Settings

/-- What is wrong with a field. -/
structure Issue where
  field : String
  message : String
  deriving DecidableEq, Inhabited

/-- The issue in words. -/
def Issue.text (i : Issue) : String := s!"{i.field}: {i.message}"

/-- An issue, if a text has nothing but blanks. -/
def blankIssue (field value : String) : List Issue :=
  if Text.allBlank value then [⟨field, "must not be empty"⟩] else []

/-- The place for the manifest in the command. -/
def pomPlace : String := "\x7bpom\x7d"

/-- The place for the work directory in the command. -/
def workdirPlace : String := "\x7bworkdir\x7d"

/-- What is wrong with how job runs are made. -/
def runIssues (r : RunSettings) : List Issue :=
  let timeout :=
    match Duration.parse r.timeout with
    | .ok 0 => [⟨"orchestrator.timeout", "must be greater than zero"⟩]
    | .ok _ => []
    | .error e => [⟨"orchestrator.timeout", e.message⟩]
  timeout ++ blankIssue "orchestrator.service_account" r.serviceAccount ++
    blankIssue "orchestrator.workspace_claim" r.workspaceClaim ++
    blankIssue "orchestrator.workspace_name" r.workspaceName ++
    blankIssue "orchestrator.operation_generate_task" r.operationTask ++
    blankIssue "orchestrator.build_generate_task" r.buildTask

/-- What is wrong with the command. -/
def toolIssues (t : ToolSettings) : List Issue :=
  let command :=
    if t.command.isEmpty then [⟨"generator.command", "must name a program to run"⟩]
    else if t.command.any fun a => Text.contains a pomPlace then []
    else [⟨"generator.command", "must reference the manifest via \x7bpom\x7d"⟩]
  command ++ blankIssue "generator.bom_path" t.bomPath

/-- What is wrong with a suffix. -/
def suffixIssues (suffix : String) : List Issue :=
  let empty := if suffix = "" then [⟨"reconcile.enhanced_suffix", "must not be empty"⟩] else []
  let separators :=
    if suffix.toList.any fun c => c == '/' || c == '\\' then
      [⟨"reconcile.enhanced_suffix", "must not contain path separators"⟩]
    else []
  empty ++ separators

/-- What is wrong with the settings. -/
def issues (s : Settings) : List Issue :=
  runIssues s.runs ++ toolIssues s.tool ++ suffixIssues s.enhancedSuffix

/-- Where the reconciled form of a BOM file is written: beside it, with the suffix in its name. -/
def enhancedPath (suffix raw : String) : String :=
  let (stem, extension) :=
    match FilePath.fileName? raw.toList with
    | some n => FilePath.splitName n
    | none => ("bom".toList, none)
  let tail :=
    match extension with
    | some e => '.' :: e
    | none => []
  String.ofList (FilePath.withFileName raw.toList (stem ++ suffix.toList ++ tail))

end Settings

end BomAssembly
