import BomAssembly.Command.StoredRequest
import BomAssembly.Manifest.Bundle
import BomAssembly.Manifest.PomDocument

/-!
# Preparing the manifest of a deliverable

The manifest is made from what the analysis of the deliverable found, and written down. Its path can
be recorded on the request that the deliverable belongs to, which is what releases the request.
-/

namespace BomAssembly.Command

/-- Where the path of a manifest is recorded. -/
structure PomRecord where
  /-- The file of the request. -/
  request : String
  /-- The position of the deliverable. -/
  position : Nat
  /-- What is recorded, if not the path that the manifest is written to. -/
  pom : Option String
  deriving DecidableEq, Inhabited

/-- What the command `prepare-manifest` is asked. -/
structure PrepareManifest where
  /-- The file with what the analysis found. -/
  artifacts : String
  bundle : Bundle
  /-- Where the manifest goes, if it is not to be shown. -/
  output : Option String
  recordOn : Option PomRecord
  deriving DecidableEq, Inhabited

namespace PrepareManifest

variable {m : Type → Type} [Monad m] [MonadHost m]

/-- What is to be recorded, and where. -/
def recorded (c : PrepareManifest) : Except Trouble (Option (PomRecord × String)) :=
  match c.recordOn with
  | none => .ok none
  | some r =>
    match r.pom, c.output with
    | some pom, _ => .ok (some (r, pom))
    | none, some output => .ok (some (r, output))
    | none, none => .error (.refused "recording the POM on a request requires an output file")

/-- Read what the analysis found. -/
def readArtifacts (path : String) : CommandM m (List AnalysedArtifact) := do
  let text ← CommandM.doing s!"failed to read {path}" (CommandM.ofFile (MonadFiles.read path))
  CommandM.doing s!"failed to parse analysed artifacts in {path}"
    (CommandM.ofReader "list of artifacts" (AnalysedArtifact.readAll? text))

/-- The trouble of recording a manifest. -/
def preparationTrouble : Request.PreparationError → Trouble
  | .noDeliverable request position =>
    .refused s!"request '{request}' has no deliverable at position {position}"
  | .refused f => .failed f

/-- Record the path of a manifest on a request. -/
def recordPom (r : PomRecord) (pom : String) : CommandM m Unit := do
  let request ← StoredRequest.load r.request
  let prepared ← CommandM.ofExcept preparationTrouble (request.recordPom r.position pom)
  StoredRequest.save r.request prepared

/-- Run the command. -/
def run (c : PrepareManifest) : CommandM m Unit := do
  let record ← CommandM.ofExcept id c.recorded
  let found ← readArtifacts c.artifacts
  let xml ← CommandM.doing "failed to serialize POM"
    (CommandM.ofExcept .unwritable (c.bundle.manifest found).render)
  Output.put c.output xml
  match record with
  | some (r, pom) => recordPom r pom
  | none => return

end PrepareManifest

end BomAssembly.Command
