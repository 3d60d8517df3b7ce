import BomAssembly.Command.ReconcileBom
import BomAssembly.Request.OperationDocument

/-!
# Generating the BOMs of deliverables

The command of a job run. For each deliverable that it is asked for, by position, it makes a work
directory, starts the generator on the deliverable's manifest, and reconciles the BOM that the
generator left there. Its exit code tells how that ended.
-/

namespace BomAssembly.Command

/-- What the command `generate` is asked. -/
structure Generate where
  /-- The file with the configuration of the operation. -/
  config : String
  /-- The position of the deliverable, if not all are meant. -/
  index : Option Int
  /-- Where work directories are made. -/
  workdir : String
  /-- Where the paths of manifests start from. -/
  dataDir : String
  /-- Remove a work directory that is there already. -/
  force : Bool
  tool : ToolSettings
  enhancedSuffix : String
  deriving DecidableEq, Inhabited

namespace Generate

/-- The deliverables that are asked for, by position; nothing if there is none at the position. -/
def selected? (o : OperationConfig) : Option Int → Option (List (Nat × Deliverable))
  | none => some (o.deliverables.zipIdx.map fun (d, i) => (i, d))
  | some index =>
    if index < 0 then none
    else o.deliverables[index.toNat]?.map fun d => [(index.toNat, d)]

/-- A manifest's path, if there is one. -/
def pom? (d : Deliverable) : Option String := d.pom.filter fun p => !Text.allBlank p

/-- An argument with the paths put in their places. -/
def filledIn (pom workdir arg : String) : String :=
  Text.replaced (Text.replaced arg Settings.pomPlace pom) Settings.workdirPlace workdir

/-- The command line of the generator. -/
def commandLine (t : ToolSettings) (o : OperationConfig) (pom workdir : String) : List String :=
  t.command.map (filledIn pom workdir) ++ (o.product.generator.args.map Text.words).getD []

/-- The name of the work directory of a position. -/
def workdirName (position : Nat) : String := s!"deliverable-{position}"

/-- A command line as it is shown. -/
def shown (line : List String) : String :=
  String.ofList (Text.joined [' '] (line.map fun a =>
    if ' ' ∈ a.toList then '"' :: a.toList ++ ['"'] else a.toList))

variable {m : Type → Type} [Monad m] [MonadHost m]

/-- Make an empty work directory. -/
def prepare (workdir : String) (force : Bool) : CommandM m Unit := do
  if ← ExceptT.lift (MonadFiles.isThere workdir) then
    if force then
      CommandM.doing s!"failed to remove {workdir}"
        (CommandM.ofFile (MonadFiles.removeTree workdir))
    else
      throw (.refused s!"work directory '{workdir}' already exists, use --force to clean it up")
  CommandM.doing s!"failed to create {workdir}"
    (CommandM.ofFile (MonadFiles.makeDirectories workdir))

/-- Start the generator. -/
def startTool : List String → CommandM m Unit
  | [] => throw (.refused "generator command is empty")
  | program :: args => do
    match ← CommandM.doing s!"failed to start '{program}'"
      (CommandM.ofFile (MonadHost.start program args)) with
    | .code 0 => return
    | status =>
      let line := shown (program :: args)
      throw (.failed (.toolFailure s!"command '{line}' failed with {status.message}" status.code?))

/-- Generate and reconcile the BOM of a deliverable. -/
def one (c : Generate) (o : OperationConfig) (position : Nat) (d : Deliverable) :
    CommandM m Unit := do
  match pom? d with
  | none => throw (.refused s!"deliverable {position} has no POM")
  | some pom =>
    let pom := FilePath.join c.dataDir pom
    let workdir := FilePath.join c.workdir (workdirName position)
    prepare workdir c.force
    startTool (commandLine c.tool o pom workdir)
    let raw := FilePath.join workdir c.tool.bomPath
    let _ ← CommandM.doing s!"failed to reconcile {raw}"
      (Reconcile.files pom raw (Settings.enhancedPath c.enhancedSuffix raw))

/-- Generate and reconcile the BOMs of deliverables, in order, up to the first trouble. -/
def all (c : Generate) (o : OperationConfig) : List (Nat × Deliverable) → CommandM m Unit
  | [] => return
  | (position, d) :: rest => do
    one c o position d
    all c o rest

/-- The configuration of the operation, or how its lack ends the command. -/
def readConfig (path : String) : ExceptT Outcome m OperationConfig := do
  if ← ExceptT.lift (MonadFiles.isFile path) then
    match ← ExceptT.lift (MonadFiles.read path) with
    | .error _ => throw .configInvalid
    | .ok text =>
      match OperationConfig.parse? text with
      | none => throw .configInvalid
      | some o => return o
  else throw .configMissing

/-- Run the command. -/
def run (c : Generate) : m Outcome := do
  match ← (readConfig c.config).run with
  | .error outcome => return outcome
  | .ok o =>
    match selected? o c.index with
    | none => return .indexInvalid
    | some ds =>
      match ← (all c o ds).run with
      | .error _ => return .generation
      | .ok () => return .success

end Generate

end BomAssembly.Command
