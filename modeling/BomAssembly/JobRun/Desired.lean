import BomAssembly.Fingerprint
import BomAssembly.JobRun.Observed
import BomAssembly.Request.Record
import BomAssembly.Settings.Basic

/-!
# The job runs that a request calls for

One for each product of a build and one for each deliverable of an operation, addressed by position.
A spec follows from configuration, position, request and settings alone, and carries the fingerprint
of its own text, taken before that is put on it.
-/

namespace BomAssembly.JobRun

/-- How many job runs a configuration calls for in the family of a kind. -/
def count (kind : Kind) (c : Config) : Except Failure Nat :=
  match kind, c with
  | .build, .build b => .ok b.products.length
  | .operation, .operation o => .ok o.deliverables.length
  | .build, _ => .error (.configuration "expected a build configuration")
  | .operation, _ => .error (.configuration "expected an operation configuration")

/-- What a family's job runs are one for each of. -/
def unitName : Kind → String
  | .build => "product"
  | .operation => "deliverable"

/-- The parameter that holds the configuration. -/
def configParam : Kind → String
  | .build => "config"
  | .operation => "operation-config"

/-- The parameter that holds the position. -/
def indexParam : Kind → String
  | .build => "index"
  | .operation => "deliverable-index"

/-- The task of a family. -/
def taskOf (settings : RunSettings) : Kind → String
  | .build => settings.buildTask
  | .operation => settings.operationTask

/-- The labels of a job run. -/
def labelsOf (kind : Kind) (index : Nat) (r : Request) : Text.StringMap String :=
  (r.identityLabels.insert (Label.own "phase") (Phase.generating kind).name).insert
    (Label.own "deliverable-index") (toString index)

/-- A spec with its fingerprint put on it. -/
def stamped (s : JobRunSpec) : JobRunSpec :=
  { s with annotations :=
      s.annotations.insert hashAnnotation (Fingerprint.hex (Fingerprint.ofText s.toJson.compact)) }

/-- A spec before its fingerprint is put on it. -/
def unstamped (kind : Kind) (c : Config) (index : Nat) (r : Request) (settings : RunSettings)
    (timeout : Nat) : JobRunSpec where
  name := nameOf r.name (Phase.generating kind) index
  labels := labelsOf kind index r
  annotations := .empty
  params := [⟨configParam kind, c.render⟩, ⟨indexParam kind, toString index⟩]
  timeout := timeout
  serviceAccount := settings.serviceAccount
  taskRef := taskOf settings kind
  workspace := ⟨settings.workspaceName, settings.workspaceClaim, r.name⟩

/-- The job run for one position of a configuration. -/
def desired (kind : Kind) (c : Config) (index : Nat) (r : Request) (settings : RunSettings) :
    Except Failure JobRunSpec := do
  let n ← count kind c
  if n ≤ index then
    throw (.validation
      s!"{unitName kind} index {index} out of range for request '{r.name}'")
  else
    let timeout ← Duration.parse settings.timeout
    return stamped (unstamped kind c index r settings timeout)

/-- All job runs that a request calls for, by position. -/
def allDesired (kind : Kind) (r : Request) (settings : RunSettings) :
    Except Failure (List (Nat × JobRunSpec)) := do
  match r.config? with
  | none =>
    throw (.configuration s!"unable to read configuration of request '{r.name}'")
  | some c =>
    let n ← count kind c
    if Nat.pow 2 32 ≤ n then throw (.configuration "too many dependent resources")
    else (List.range n).mapM fun i => return (i, ← desired kind c i r settings)

end BomAssembly.JobRun
