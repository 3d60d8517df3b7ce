import BomAssembly.Request.ConfigDocument

/-!
# Requests

A request asks for the BOMs of a build or an operation. It moves along the life described in
`Request.Lifecycle`; moving to the status it has changes nothing, and a move that may not happen is a
failure. Result and reason come with the end of its life, the output with success.

Where the manifest of a deliverable is gets known one deliverable at a time; recording it changes that
deliverable only.
-/

namespace BomAssembly

/-- A request for BOMs. -/
structure Request where
  /-- The name it is stored under; the names of its job runs begin with it. -/
  name : String
  id : String
  kind : Kind
  /-- The build or operation that it is for. -/
  correlationId : String
  status : Status
  reason : Option String
  result : Option Outcome
  config : ConfigState
  /-- Where its BOMs are. -/
  output : Option String
  deriving DecidableEq, Inhabited

namespace Request

/-- A request that has just been made. -/
def new (name id : String) (kind : Kind) (correlationId : String) : Request where
  name := name
  id := id
  kind := kind
  correlationId := correlationId
  status := .new
  reason := none
  result := none
  config := .missing
  output := none

/-- The configuration, if there is a fitting one. -/
def config? (r : Request) : Option Config := r.config.config?

/-- Put a configuration in place of the one there is. -/
def setConfig (c : Config) (r : Request) : Request := { r with config := .valid c }

/-- What an operation delivers. -/
def deliverables (r : Request) : List Deliverable :=
  match r.config? with
  | some (.operation o) => o.deliverables
  | _ => []

/-- Put deliverables in place of those there are. -/
def setDeliverables (ds : List Deliverable) (r : Request) : Except Failure Request :=
  match r.config with
  | .valid (.operation o) =>
    .ok { r with config := .valid (.operation { o with deliverables := ds }) }
  | _ =>
    .error (.validation s!"request '{r.name}' has no operation configuration to update")

/-- Whether nothing more happens to it. -/
def isFinished (r : Request) : Bool := r.status.isTerminal

/-! ## Moving on -/

/-- The failure of a move that may not happen. -/
def illegalMove (r : Request) (next : Status) : Failure :=
  .validation s!"request '{r.name}' cannot move from {r.status.name} to {next.name}"

/-- Move to a status; the answer says whether that is a change. -/
def move (next : Status) (r : Request) : Except Failure (Request × Bool) :=
  if r.status = next then .ok (r, false)
  else if next.MayFollow r.status then .ok ({ r with status := next }, true)
  else .error (r.illegalMove next)

/-- Move to a status that is not the end. -/
def advance (next : Status) (r : Request) : Except Failure (Request × Bool) :=
  if next.isTerminal then .error (.validation s!"use succeed/fail to reach {next.name}")
  else r.move next

/-- What is said of every success. -/
def successReason : String := "Generation finished successfully"

/-- End in success. -/
def succeed (output : String) (r : Request) : Except Failure (Request × Bool) := do
  let (r, changed) ← r.move .success
  if changed then
    return ({ r with
      result := some .success
      reason := some successReason
      output := some output }, true)
  else return (r, false)

/-- End in failure. -/
def fail (result : Outcome) (reason : String) (r : Request) :
    Except Failure (Request × Bool) := do
  let (r, changed) ← r.move .failed
  if changed then return ({ r with result := some result, reason := some reason }, true)
  else return (r, false)

/-! ## Conditions -/

/-- Every deliverable of an operation has its manifest, and there is one. -/
def PomsAvailable (r : Request) : Prop :=
  r.kind = .operation ∧ r.deliverables ≠ [] ∧ ∀ d ∈ r.deliverables, d.HasPom

instance (r : Request) : Decidable r.PomsAvailable := by
  unfold PomsAvailable
  infer_instance

/-- The products of a build. -/
def products (r : Request) : List Product :=
  match r.config? with
  | some (.build b) => b.products
  | _ => []

/-- A build has a configuration that names a product. -/
def ConfigAvailable (r : Request) : Prop := r.kind = .build ∧ r.products ≠ []

instance (r : Request) : Decidable r.ConfigAvailable := by
  unfold ConfigAvailable
  infer_instance

/-! ## Preparing the deliverables -/

/-- Why a manifest could not be recorded. -/
inductive PreparationError where
  | noDeliverable (request : String) (position : Nat)
  | refused (failure : Failure)
  deriving DecidableEq, Inhabited

/-- The deliverables with the manifest of one of them recorded. -/
def withPom (position : Nat) (pom : String) (ds : List Deliverable) : List Deliverable :=
  ds.modify position fun d => { d with pom := some pom }

/-- Record where the manifest of the deliverable at a position is. -/
def recordPom (position : Nat) (pom : String) (r : Request) : Except PreparationError Request :=
  if position < r.deliverables.length then
    (r.setDeliverables (withPom position pom r.deliverables)).mapError .refused
  else .error (.noDeliverable r.name position)

end Request

end BomAssembly
