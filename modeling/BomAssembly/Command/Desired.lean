import BomAssembly.Command.StoredRequest
import BomAssembly.JobRun.Desired

/-!
# Showing the job runs that a request calls for
-/

namespace BomAssembly.Command

/-- What the command `desired` is asked. -/
structure Desired where
  /-- The file of the request. -/
  request : String
  settings : RunSettings
  format : OutputFormat
  output : Option String
  deriving DecidableEq, Inhabited

namespace Desired

variable {m : Type → Type} [Monad m] [MonadHost m]

/-- Run the command. -/
def run (c : Desired) : CommandM m Unit := do
  let r ← StoredRequest.load c.request
  let specs ← CommandM.doing s!"unable to materialize request '{r.name}'"
    (CommandM.ofExcept .failed (JobRun.allDesired r.kind r c.settings))
  Output.put c.output (c.format.render (.seq (specs.map fun s => s.2.toData)))

end Desired

end BomAssembly.Command
