import BomAssembly.Command.Output
import BomAssembly.Settings.Discovery
import BomAssembly.Settings.Example
import BomAssembly.Settings.Schema

/-!
# Managing settings

Commands about the settings themselves: show the ones that are in use, tell where they are looked for,
start a file of settings in the current directory, and give the schema of such files.
-/

namespace BomAssembly.Command.Configure

variable {m : Type → Type} [Monad m] [MonadHost m]

/-- Show the settings in use, and say where they are from. -/
def showSettings (settings : Settings) (source : Option String) : CommandM m Unit := do
  match source with
  | some path => Output.warn s!"# Loaded from: {path}"
  | none => Output.warn "# No config file found; showing defaults"
  ExceptT.lift (MonadHost.print settings.toData.render)

/-- Show lines of warning in turn. -/
def warnAll : List String → CommandM m Unit
  | [] => return
  | line :: rest => do
    Output.warn line
    warnAll rest

/-- Tell where settings are looked for, and where they were found. -/
def listPlaces (places : Settings.Places) (named : Option String) : CommandM m Unit := do
  let directories ← ExceptT.lift (Settings.searchPaths places)
  warnAll ("Config file search paths (in order):" :: directories.map ("  " ++ ·))
  warnAll ("" :: "Recognized file names:" :: Settings.fileNames.map ("  " ++ ·))
  warnAll [""]
  match ← ExceptT.lift (Settings.discover places named) with
  | some path => Output.warn s!"Active config file: {path}"
  | none => Output.warn "No config file found."

/-- Start a file of settings in a directory, unless there is one. -/
def startFile (here : String) : CommandM m Unit := do
  let target := FilePath.join here ".sbomgen.yaml"
  if ← ExceptT.lift (MonadFiles.isThere target) then
    throw (.refused s!"{target} already exists. Remove it first to re-initialize.")
  CommandM.doing s!"failed to write {target}"
    (CommandM.ofFile (MonadFiles.write target Settings.exampleText))
  Output.warn s!"Created {target}"

/-- Give the schema of files of settings. -/
def giveSchema (output : Option String) : CommandM m Unit := do
  match output with
  | some path =>
    CommandM.ofFile (MonadFiles.write path Settings.schemaText)
    Output.warn s!"Schema written to {path}"
  | none => ExceptT.lift (MonadHost.print (Settings.schemaText ++ "\n"))

end BomAssembly.Command.Configure
