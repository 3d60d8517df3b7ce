import BomAssembly.Command.Desired
import BomAssembly.Command.Generate
import BomAssembly.Command.Intake
import BomAssembly.Command.PrepareManifest
import BomAssembly.CommandLine.Arguments

/-!
# Invocations

What a command line asks for. A line names a command, and options stand around the name: the ones of
the command behind it, and the ones that every command has anywhere. Where such an option is given
both before and behind a name, the one behind counts.
-/

namespace BomAssembly.CommandLine

/-! ## What can be asked for -/

/-- What is asked of the settings. -/
inductive SettingsRequest where
  | effective
  | places
  | start
  deriving DecidableEq, Inhabited

/-- What a command line asks for. -/
inductive Invocation where
  | reconcileBom (manifest bom : String) (output : Option String) (report : Option OutputFormat)
  | generate (config : String) (index : Option Int) (workdir dataDir : String) (force : Bool)
  | prepareManifest (c : Command.PrepareManifest)
  | intake (type payload : String) (trigger : Option Trigger) (format : OutputFormat)
      (output : Option String)
  | desired (request : String) (format : OutputFormat) (output : Option String)
  | schema (output : Option String)
  | configure (request : SettingsRequest)
  deriving DecidableEq, Inhabited

/-- What every command can be given. -/
structure Common where
  quiet : Bool
  /-- The file that settings are read from. -/
  config : Option String
  deriving DecidableEq, Inhabited

/-! ## Options -/

/-- The options of every command. -/
def commonOptions : List OptionSpec := [
  { name := "verbose", effect := .flag, letter := some 'v' },
  { name := "quiet", effect := .flag, letter := some 'q' },
  { name := "config", effect := .value .path },
  { name := "help", effect := .halt .help .help, letter := some 'h' }]

/-- The options in front of a command. -/
def leadingOptions : List OptionSpec :=
  commonOptions ++ [
    { name := "version", effect := .halt (.version false) (.version true), letter := some 'V' }]

/-- The triggers, by their names on a command line. -/
def triggerWords : List (String × Trigger) :=
  [("all", .all), ("build", .builds), ("operation", .operations), ("none", .never)]

/-- An option for the path that output goes to. -/
def outputFileOption : OptionSpec :=
  { name := "output-file", effect := .value .path, letter := some 'O' }

/-- The values of an option for a format. -/
def formatKind : ValueKind := .oneOf [OutputFormat.yaml.name, OutputFormat.json.name]

/-- An option for the format of output. -/
def formatOption : OptionSpec := { name := "output", effect := .value formatKind, letter := some 'o' }

/-- The options of a command that are its own, and the names of those that have to be given; nothing
if there is no such command. -/
def commandOptions? : String → Option (List OptionSpec × List String)
  | "reconcile-bom" => some ([
      { name := "manifest", effect := .value .path, letter := some 'm' },
      { name := "bom", effect := .value .path, letter := some 'b' },
      outputFileOption,
      { name := "report", effect := .value formatKind }], ["manifest", "bom"])
  | "generate" => some ([
      { name := "operation-config", effect := .value .path, letter := some 'c' },
      { name := "index", effect := .value .integer },
      { name := "workdir", effect := .value .path },
      { name := "data-dir", effect := .value .path },
      { name := "force", effect := .flag, letter := some 'f' }], ["operation-config"])
  | "prepare-manifest" => some ([
      { name := "artifacts", effect := .value .path },
      { name := "url", effect := .value .text },
      { name := "operation-id", effect := .value .text },
      { name := "group", effect := .value .text },
      { name := "artifact", effect := .value .text },
      { name := "pom-version", effect := .value .text },
      outputFileOption,
      { name := "request", effect := .value .path },
      { name := "deliverable", effect := .value .natural },
      { name := "pom-ref", effect := .value .text }], ["artifacts", "operation-id"])
  | "intake" => some ([
      { name := "type", effect := .value .text },
      { name := "payload", effect := .value .path },
      { name := "trigger", effect := .value (.oneOf (triggerWords.map (·.1))) },
      formatOption,
      outputFileOption], ["type", "payload"])
  | "desired" => some ([
      { name := "request", effect := .value .path },
      formatOption,
      outputFileOption], ["request"])
  | "config-schema" => some ([
      { name := "output", effect := .value .path, letter := some 'o' }], [])
  | "config" => some ([], [])
  | _ => none

/-! ## Reading a line -/

namespace Given

/-- The value of an option. -/
def value? (g : Given) (name : String) : Option String := g.lookup name

/-- The value of an option that is given, or a standard one. -/
def valueOr (g : Given) (name standard : String) : String := (g.value? name).getD standard

/-- Whether an option is given. -/
def has (g : Given) (name : String) : Bool := (g.value? name).isSome

/-- The format that an option names. -/
def format? (g : Given) (name : String) : Option OutputFormat :=
  (g.value? name).bind OutputFormat.ofName?

end Given

/-- Refuse a line in which an option is missing. -/
def demand (given : Given) : List String → Except Halt Unit
  | [] => .ok ()
  | name :: rest =>
    if given.has name then demand given rest
    else .error (.usage s!"the argument '--{name}' is required")

/-- The options that an option cannot be given without. -/
def companions : List (String × List String) := [
  ("request", ["deliverable", "output-file"]),
  ("deliverable", ["request"]),
  ("pom-ref", ["request"])]

/-- The names of options that other options call for. -/
def calledFor (given : Given) : List String :=
  companions.flatMap fun (name, others) => if given.has name then others else []

/-- Where a manifest is to be recorded. -/
def recordOf? (given : Given) : Option Command.PomRecord := do
  let request ← given.value? "request"
  let deliverable ← given.value? "deliverable"
  let position ← Number.natural? deliverable.toList
  some ⟨request, position, given.value? "pom-ref"⟩

/-- The end of a command line: nothing may be left. -/
def finished : List String → Except Halt Unit
  | [] => .ok ()
  | word :: _ => .error (unknownOption word)

/-- Read what is asked of the settings, behind the command for that. -/
def readSettingsRequest (words : List String) : Except Halt (SettingsRequest × Given) := do
  match words with
  | [] => throw (.usage "'config' requires a subcommand but one was not provided")
  | word :: rest =>
    let request ←
      match word with
      | "show" => pure SettingsRequest.effective
      | "path" => pure SettingsRequest.places
      | "init" => pure SettingsRequest.start
      | _ => throw (.usage s!"unrecognized subcommand '{word}'")
    let (given, rest) ← takeOptions commonOptions [] none rest
    finished rest
    return (request, given)

/-- What is asked for by a command with the options that it was given; the command that manages
settings apart. -/
def invocationOf (command : String) (given : Given) : Except Halt Invocation :=
  let output := given.value? "output-file"
  let format := (given.format? "output").getD .yaml
  match command with
  | "reconcile-bom" =>
    .ok (.reconcileBom (given.valueOr "manifest" "") (given.valueOr "bom" "") output
      (given.format? "report"))
  | "generate" =>
    let index := (given.value? "index").bind (integer? (-(Nat.pow 2 63)) (Nat.pow 2 63 - 1))
    .ok (.generate (given.valueOr "operation-config" "") index
      (given.valueOr "workdir" "workdir") (given.valueOr "data-dir" ".")
      (given.has "force"))
  | "prepare-manifest" => do
    demand given (calledFor given)
    let bundle : Bundle := ⟨given.value? "url", given.valueOr "operation-id" "",
      given.valueOr "group" "groupId", given.valueOr "artifact" "artifactId",
      given.value? "pom-version"⟩
    return .prepareManifest ⟨given.valueOr "artifacts" "", bundle, output, recordOf? given⟩
  | "intake" =>
    let trigger := (given.value? "trigger").bind fun w => triggerWords.lookup w
    .ok (.intake (given.valueOr "type" "") (given.valueOr "payload" "") trigger format
      output)
  | "desired" => .ok (.desired (given.valueOr "request" "") format output)
  | "config-schema" => .ok (.schema (given.value? "output"))
  | _ => .error (.usage s!"unrecognized subcommand '{command}'")

/-- What every command is given, from the options at each place of a line, the last place last. -/
def commonOf (places : List Given) : Common where
  quiet := places.any fun g => g.has "quiet"
  config := places.reverse.findSome? fun g => g.value? "config"

/-- Read a command line. -/
def read (words : List String) : Except Halt (Invocation × Common) := do
  let (leading, rest) ← takeOptions leadingOptions [] none words
  match rest with
  | [] => throw (.usage "'sbomgen' requires a subcommand but one was not provided")
  | command :: rest =>
    match commandOptions? command with
    | none =>
      throw (if command = "help" then .help else .usage s!"unrecognized subcommand '{command}'")
    | some (options, required) =>
      let (given, rest) ← takeOptions (options ++ commonOptions) [] none rest
      if command = "config" then
        let (request, behind) ← readSettingsRequest rest
        return (.configure request, commonOf [leading, given, behind])
      else
        finished rest
        demand given required
        let invocation ← invocationOf command given
        return (invocation, commonOf [leading, given])

end BomAssembly.CommandLine
