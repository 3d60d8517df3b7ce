import BomAssembly.Command.Output
import BomAssembly.Request.Record

/-!
# Requests in files

A request can be kept in a file, as the document of its record.
-/

namespace BomAssembly.StoredRequest

variable {m : Type → Type} [Monad m] [MonadHost m]

/-- Read a request from a file. -/
def load (path : String) : CommandM m Request := do
  let text ← CommandM.doing s!"failed to read {path}" (CommandM.ofFile (MonadFiles.read path))
  let record ← CommandM.doing s!"failed to parse request resource {path}"
    (CommandM.ofReader "record" (Record.parse? text))
  CommandM.doing s!"invalid request resource '{record.name}'"
    (CommandM.ofExcept .failed (Request.ofRecord record))

/-- Write a request to a file. -/
def save (path : String) (r : Request) : CommandM m Unit :=
  CommandM.doing s!"failed to write {path}"
    (CommandM.ofFile (MonadFiles.write path r.toRecord.render))

end BomAssembly.StoredRequest
