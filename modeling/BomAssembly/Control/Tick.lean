import BomAssembly.Control.Pass
import BomAssembly.Control.Store

/-!
# Ticks

At each tick the controller makes a pass over every stored request that can be read and has not
ended, and writes back those whose status is another. A request that was removed in the meantime is
not brought back. What goes wrong with one request does not keep the others from their turn.
-/

namespace BomAssembly

open Time (Instant)

/-- The requests and the job runs that a controller works on. -/
structure World (σ π : Type) where
  store : σ
  platform : π
  deriving DecidableEq, Inhabited

/-- What a tick has done. -/
structure Tick where
  reports : List Pass.Report
  /-- The requests that something went wrong with. -/
  errors : List (String × Failure)
  /-- How many requests had ended before. -/
  finished : Nat
  deriving Inhabited

/-- How many requests a tick did something for. -/
def Tick.changed (t : Tick) : Nat := t.reports.countP Pass.Report.changed

namespace World

variable {σ π : Type} [RequestStore σ] [JobPlatform π]

/-- Store what a pass has come to; nothing is reported of a request that was removed meanwhile. -/
def save (result : Except Failure (Request × Pass.Report)) (w : World σ π) :
    World σ π × Except Failure (Option Pass.Report) :=
  match result with
  | .error e => (w, .error e)
  | .ok (after, report) =>
    if report.statusChanged then
      match RequestStore.update after.toRecord w.store with
      | (s, .ok ()) => ({ w with store := s }, .ok (some report))
      | (s, .error (.notFound _)) => ({ w with store := s }, .ok none)
      | (s, .error e) => ({ w with store := s }, .error e.toFailure)
    else (w, .ok (some report))

/-- Make a pass over a request and store what became of it. -/
def passOver (settings : RunSettings) (now : Instant) (r : Request) (w : World σ π) :
    World σ π × Except Failure (Option Pass.Report) :=
  let (p, result) := Pass.run settings now r w.platform
  save result { w with platform := p }

/-- Make a pass over each of the requests, one after the other. -/
def passOverAll (settings : RunSettings) (now : Instant) :
    List Request → World σ π → World σ π × List (String × Except Failure (Option Pass.Report))
  | [], w => (w, [])
  | r :: rest, w =>
    let (w, result) := passOver settings now r w
    let (w, results) := passOverAll settings now rest w
    (w, (r.name, result) :: results)

/-- The requests that can be read and have not ended. -/
def live (records : List Record) : List Request :=
  records.filterMap fun record =>
    match Request.ofRecord record with
    | .ok r => if r.isFinished then none else some r
    | .error _ => none

/-- The requests that cannot be read. -/
def unreadable (records : List Record) : List (String × Failure) :=
  records.filterMap fun record =>
    match Request.ofRecord record with
    | .ok _ => none
    | .error e => some (record.name, e)

/-- How many requests have ended. -/
def ended (records : List Record) : Nat :=
  records.countP fun record =>
    match Request.ofRecord record with
    | .ok r => r.isFinished
    | .error _ => false

/-- The reports among results. -/
def reportsOf (results : List (String × Except Failure (Option Pass.Report))) :
    List Pass.Report :=
  results.filterMap fun
    | (_, .ok report) => report
    | (_, .error _) => none

/-- The failures among results. -/
def failuresOf (results : List (String × Except Failure (Option Pass.Report))) :
    List (String × Failure) :=
  results.filterMap fun
    | (_, .ok _) => none
    | (name, .error e) => some (name, e)

/-- Let every stored request have its turn. -/
def tick (settings : RunSettings) (now : Instant) (w : World σ π) :
    World σ π × Except Failure Tick :=
  match RequestStore.list w.store with
  | .error e => (w, .error e.toFailure)
  | .ok records =>
    let (w, results) := passOverAll settings now (live records) w
    (w, .ok ⟨reportsOf results, unreadable records ++ failuresOf results, ended records⟩)

/-- Let the request of a name have its turn, if there is one. -/
def passOverNamed (settings : RunSettings) (now : Instant) (name : String) (w : World σ π) :
    World σ π × Except Failure (Option Pass.Report) :=
  match RequestStore.find name w.store with
  | .error e => (w, .error e.toFailure)
  | .ok none => (w, .ok none)
  | .ok (some record) =>
    match Request.ofRecord record with
    | .error e => (w, .error e)
    | .ok r => passOver settings now r w

end World

end BomAssembly
