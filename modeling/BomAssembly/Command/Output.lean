import BomAssembly.Command.Trouble
import BomAssembly.FilePath
import BomAssembly.Json.Writer
import BomAssembly.Text.Blank
import BomAssembly.Yaml.AsJson

/-!
# Output of commands

The result of a command is a text in one of two formats. It is shown to the user, or written to a file
whose directory is made if it is not there.
-/

namespace BomAssembly

open Yaml (Data)

/-- A format for results. -/
inductive OutputFormat where
  | yaml
  | json
  deriving DecidableEq, Inhabited

namespace OutputFormat

/-- The name on the command line. -/
def name : OutputFormat → String
  | yaml => "yaml"
  | json => "json"

/-- The format of a name. -/
def ofName? (name : String) : Option OutputFormat := [yaml, json].find? fun f => f.name == name

/-- A value in the format. -/
def render : OutputFormat → Data → String
  | yaml, d => d.render
  | json, d => d.toJson.indented

end OutputFormat

namespace Output

variable {m : Type → Type} [Monad m] [MonadHost m]

/-- The directory that a file is to be written to, if its path names one. -/
def directoryOf? (path : String) : Option String :=
  match FilePath.parent path.toList with
  | [] => none
  | d => some (String.ofList d)

/-- Show a text to the user, without blanks at its end. -/
def display (text : String) : CommandM m Unit :=
  ExceptT.lift (MonadHost.print (String.ofList (Text.trimEnd text.toList) ++ "\n"))

/-- Show a line of warning to the user. -/
def warn (line : String) : CommandM m Unit := ExceptT.lift (MonadHost.warn line)

/-- Write a text to a file. -/
def save (path text : String) : CommandM m Unit := do
  match directoryOf? path with
  | some d =>
    CommandM.doing s!"Failed to create {d}" (CommandM.ofFile (MonadFiles.makeDirectories d))
  | none => pure ()
  CommandM.doing s!"Failed to write output to {path}" (CommandM.ofFile (MonadFiles.write path text))

/-- Write a text to a file if one is given, or show it. -/
def put (path : Option String) (text : String) : CommandM m Unit :=
  match path with
  | some path => save path text
  | none => display text

end Output

end BomAssembly
