import BomAssembly.Bom.Document
import BomAssembly.Command.Output
import BomAssembly.Manifest.Detection
import BomAssembly.Reconcile
import BomAssembly.Settings.Basic

/-!
# Reconciling a BOM file

The manifest and the generated BOM are read from files, and the reconciled BOM is written to a third
file. The generated BOM is kept: a path that is the same as its path is refused before anything is
read.
-/

namespace BomAssembly

open Yaml (Data)

namespace Reconcile

variable {m : Type → Type} [Monad m] [MonadHost m]

/-- How many bytes a BOM file may have. -/
def maxBomBytes : Nat := 512 * 1024 * 1024

/-- The failure of reading or writing a file without which there is no document. -/
def fileFailure (e : FileError) : Trouble := .failed (DocumentError.file e.message).toFailure

/-- The failure of reading a document. -/
def documentFailure (e : DocumentError) : Trouble := .failed e.toFailure

/-- Read a BOM whose size is in bounds. -/
def boundedBom (text : String) : Except DocumentError Bom :=
  if maxBomBytes < text.utf8ByteSize then
    let size := text.utf8ByteSize / (1024 * 1024)
    let limit := maxBomBytes / (1024 * 1024)
    .error (.file s!"BOM file is {size} MB, exceeding the {limit} MB limit")
  else Bom.parse false text

/-- The text of a file that a document is to be read from. -/
def readFile (path : String) : CommandM m String :=
  ExceptT.mk do return (← MonadFiles.read path).mapError fileFailure

/-- Write a BOM to a file. -/
def writeBom (path : String) (b : Bom) : CommandM m Unit := do
  match Output.directoryOf? path with
  | some d => ExceptT.mk do return (← MonadFiles.makeDirectories d).mapError fileFailure
  | none => pure ()
  ExceptT.mk do return (← MonadFiles.write path b.render).mapError fileFailure

/-- Reconcile a BOM file with a manifest file. -/
def files (manifestPath bomPath output : String) : CommandM m Report := do
  if FilePath.Same output bomPath then
    throw (.failed (.validation
      s!"reconciled BOM must not overwrite the raw BOM '{bomPath}'"))
  let manifestText ← readFile manifestPath
  let manifest ← CommandM.ofExcept documentFailure (Manifest.parse manifestText)
  let bomText ← readFile bomPath
  let bom ← CommandM.ofExcept documentFailure (boundedBom bomText)
  let (out, report) := reconcile manifest bom
  writeBom output out
  return report

/-- A report as it is written. -/
def Report.toData (r : Report) : Data := .map [
  ("declared", .int r.declared),
  ("components_before", .int r.componentsBefore),
  ("components_after", .int r.componentsAfter),
  ("matched", .int r.matched),
  ("added", .seq (r.added.map fun a => .map [
    ("declared", .str a.declared), ("source", .str a.source), ("score", .int a.score)])),
  ("skipped", .seq (r.skipped.map fun s => .map [
    ("declared", .str s.declared), ("reason", .str s.reason)])),
  ("fast_path", .bool r.fastPath)]

/-- A report in one line. -/
def Report.line (r : Report) (output : String) : String :=
  s!"{r.declared} declared, {r.componentsBefore} -> {r.componentsAfter} components " ++
    s!"({r.added.length} added, {r.skipped.length} skipped), written to {output}"

end Reconcile

namespace Command

/-- What the command `reconcile-bom` is asked. -/
structure ReconcileBom where
  manifest : String
  bom : String
  /-- Where the reconciled BOM goes, if not beside the generated one. -/
  output : Option String
  /-- The format that the report is shown in, if it is to be shown. -/
  report : Option OutputFormat
  enhancedSuffix : String
  quiet : Bool
  deriving DecidableEq, Inhabited

namespace ReconcileBom

/-- Where the reconciled BOM goes. -/
def target (c : ReconcileBom) : String :=
  c.output.getD (Settings.enhancedPath c.enhancedSuffix c.bom)

/-- Run the command. -/
def run {m : Type → Type} [Monad m] [MonadHost m] (c : ReconcileBom) : CommandM m Unit := do
  let report ← CommandM.doing s!"failed to reconcile {c.bom}"
    (Reconcile.files c.manifest c.bom c.target)
  match c.report with
  | some format => Output.display (format.render report.toData)
  | none => if c.quiet then pure () else Output.warn (report.line c.target)

end ReconcileBom

end Command

end BomAssembly
