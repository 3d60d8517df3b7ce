import BomAssembly.Command.Configure
import BomAssembly.CommandLine.Invocation

/-!
# Running a command line

A line that cannot be read ends with the exit code 2, and a command that meets trouble with 1. Both
are told to the user as a warning. Settings are read before any command runs.
-/

namespace BomAssembly.CommandLine

/-- The name and the version of the program. -/
def versionLine : String := "sbomgen 0.1.0"

/-- What the program can do, as its version tells it. -/
def featureLines : List String := [
  "",
  "Manifest Formats:",
  "  Maven POM (XML), purl lists (JSON)",
  "",
  "BOM Formats:",
  "  CycloneDX JSON",
  "",
  "Features:",
  "  Event intake, job-run materialization, BOM reconciliation"]

/-- What the program tells about its use. -/
def helpLines : List String := [
  "Automated SBOM generation and BOM reconciliation",
  "",
  "Usage: sbomgen [OPTIONS] <COMMAND>",
  "",
  "Commands:",
  "  reconcile-bom     Add declared dependencies missing from a generated BOM",
  "  generate          Generate deliverable SBOMs (runs inside a generation job)",
  "  prepare-manifest  Build a deliverable POM from analysed artifacts",
  "  intake            Run event intake on a single notification",
  "  desired           Print the job runs a generation request calls for",
  "  config-schema     Generate JSON Schema for the config file format",
  "  config            Show, discover, or initialize configuration"]

/-- Lines as one text. -/
def linesText (lines : List String) : String := String.join (lines.map (· ++ "\n"))

variable {m : Type → Type} [Monad m] [MonadHost m]

/-- Run what is asked for; the answer is the exit code. -/
def Invocation.run (places : Settings.Places) (draw : Intake.Draw) (common : Common)
    (invocation : Invocation) : CommandM m Nat := do
  let (settings, source) ← ExceptT.lift (Settings.current places common.config)
  match invocation with
  | .reconcileBom manifest bom output report =>
    Command.ReconcileBom.run
      ⟨manifest, bom, output, report, settings.enhancedSuffix, common.quiet⟩
    return 0
  | .generate config index workdir dataDir force =>
    let c : Command.Generate :=
      ⟨config, index, workdir, dataDir, force, settings.tool, settings.enhancedSuffix⟩
    return (← ExceptT.lift c.run).code
  | .prepareManifest c =>
    c.run
    return 0
  | .intake type payload trigger format output =>
    Command.Intake.run
      ⟨type, payload, trigger.getD settings.trigger, format, output, common.quiet⟩ draw
  | .desired request format output =>
    Command.Desired.run ⟨request, settings.runs, format, output⟩
    return 0
  | .schema output =>
    Command.Configure.giveSchema output
    return 0
  | .configure .effective =>
    Command.Configure.showSettings settings source
    return 0
  | .configure .places =>
    Command.Configure.listPlaces places common.config
    return 0
  | .configure .start =>
    Command.Configure.startFile places.here
    return 0

/-- Answer a line that asks for no command. -/
def Halt.answer : Halt → m Nat
  | .usage message => do
    MonadHost.warn s!"error: {message}"
    return 2
  | .version long => do
    MonadHost.print (linesText (versionLine :: if long then featureLines else []))
    return 0
  | .help => do
    MonadHost.print (linesText helpLines)
    return 0

/-- Run a command line; the answer is the exit code. -/
def run (places : Settings.Places) (draw : Intake.Draw) (words : List String) : m Nat := do
  match read words with
  | .error halt => halt.answer
  | .ok (invocation, common) =>
    match ← (invocation.run places draw common).run with
    | .ok code => return code
    | .error trouble =>
      MonadHost.warn trouble.text
      return 1

end BomAssembly.CommandLine
