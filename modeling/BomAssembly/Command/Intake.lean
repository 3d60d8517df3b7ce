import BomAssembly.Command.Output
import BomAssembly.Control.Store
import BomAssembly.Intake.Delivery

/-!
# Showing the request that a message calls for

The message is delivered to an empty store, and what is in the store then is shown.
-/

namespace BomAssembly.Command

/-- What the command `intake` is asked. -/
structure Intake where
  type : String
  /-- The file with the payload of the message. -/
  payload : String
  trigger : Trigger
  format : OutputFormat
  output : Option String
  quiet : Bool
  deriving DecidableEq, Inhabited

namespace Intake

variable {m : Type → Type} [Monad m] [MonadHost m]

/-- Write down records in turn. -/
def putAll (c : Intake) : List Record → CommandM m Unit
  | [] => return
  | r :: rest => do
    Output.put c.output (c.format.render r.toData)
    putAll c rest

/-- Run the command; the answer is its exit code. -/
def run (c : Intake) (draw : BomAssembly.Intake.Draw) : CommandM m Nat := do
  let payload ← CommandM.doing s!"failed to read {c.payload}"
    (CommandM.ofFile (MonadFiles.read c.payload))
  match BomAssembly.Intake.deliver c.trigger RequestStore.submit draw ⟨some c.type, payload⟩
    Store.empty with
  | (_, .refused why) =>
    Output.warn s!"Message rejected: {why.message}"
    return 1
  | (store, .taken) =>
    if store.isEmpty then
      if !c.quiet then Output.warn "No generation request created"
      return 0
    else
      putAll c store.records
      return 0

end Intake

end BomAssembly.Command
