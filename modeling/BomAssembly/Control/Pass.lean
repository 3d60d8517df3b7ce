import BomAssembly.Control.Platform
import BomAssembly.FilePath
import BomAssembly.JobRun.Desired
import BomAssembly.Yaml.AsJson

/-!
# A pass over a request

A pass takes a request one stage on. What it does follows from the request, the job runs that the
platform shows, and the time:

* a configuration that does not fit ends the request in failure;
* an operation that is new begins to be prepared;
* while its condition is not met, the request waits;
* the job runs that it calls for and the platform does not show are created, and it is generating;
* once one of its job runs has failed the request fails, and once all have succeeded it succeeds.

A request that has ended is left alone. When the platform fails, the request stays as it was, and
the job runs created so far are found again by the next pass.
-/

namespace BomAssembly

open Time (Instant)

/-- What a request waits for before job runs are made for it. -/
inductive Condition where
  | pomsAvailable
  | configAvailable
  deriving DecidableEq, Inhabited

namespace Condition

/-- The name in reports. -/
def name : Condition → String
  | pomsAvailable => "PomsAvailable"
  | configAvailable => "ConfigAvailable"

/-- Whether a request meets the condition. -/
def IsMet : Condition → Request → Prop
  | pomsAvailable, r => r.PomsAvailable
  | configAvailable, r => r.ConfigAvailable

instance : (c : Condition) → (r : Request) → Decidable (c.IsMet r)
  | pomsAvailable, r => inferInstanceAs (Decidable r.PomsAvailable)
  | configAvailable, r => inferInstanceAs (Decidable r.ConfigAvailable)

/-- The condition for requests of a kind. -/
def ofKind : Kind → Condition
  | .build => configAvailable
  | .operation => pomsAvailable

end Condition

namespace Pass

/-- What a pass has done. -/
structure Report where
  /-- The name of the request. -/
  request : String
  previous : Status
  current : Status
  /-- The names of the job runs created. -/
  created : List String
  /-- What the request waits for. -/
  unmet : Option Condition
  /-- How many of its job runs have not ended. -/
  inProgress : Nat
  deriving DecidableEq, Inhabited

namespace Report

/-- The report of a pass that did nothing on the platform. -/
def quiet (before after : Request) (unmet : Option Condition) : Report where
  request := before.name
  previous := before.status
  current := after.status
  created := []
  unmet := unmet
  inProgress := 0

/-- A report as it is written. -/
def toData (r : Report) : Yaml.Data := .map [
  ("request", .str r.request),
  ("previous", .str r.previous.name),
  ("current", .str r.current.name),
  ("created", .seq (r.created.map .str)),
  ("unmet_condition", (r.unmet.map fun c => Yaml.Data.str c.name).getD .null),
  ("in_progress", .int r.inProgress)]

/-- Whether the status of the request is another. -/
def statusChanged (r : Report) : Bool := r.previous ≠ r.current

/-- Whether anything was done. -/
def changed (r : Report) : Bool := r.statusChanged || !r.created.isEmpty

end Report

/-! ## What is to be done -/

/-- What a request calls for. -/
inductive Plan where
  /-- Nothing on the platform. -/
  | rest (request : Request) (unmet : Option Condition)
  /-- These job runs, by position. -/
  | work (request : Request) (desired : List (Nat × JobRunSpec))

/-- A request that ends because of its configuration. -/
def refused (reason : String) (r : Request) : Except Failure Plan := do
  let (r, _) ← r.fail .configInvalid reason
  return .rest r none

/-- A request of which an operation that was new is being prepared. -/
def begun (r : Request) : Except Failure Request :=
  if r.kind = .operation ∧ r.status = .new then (r.advance .preparing).map Prod.fst else .ok r

/-- What a request that is not waiting calls for. -/
def workOf (settings : RunSettings) (r : Request) : Except Failure Plan :=
  match JobRun.allDesired r.kind r settings with
  | .ok desired => .ok (.work r desired)
  | .error (.configuration reason) => refused reason r
  | .error e => .error e

/-- What a request calls for. -/
def plan (settings : RunSettings) (r : Request) : Except Failure Plan :=
  match r.config with
  | .invalid _ error => refused s!"Configuration is invalid: {error}" r
  | _ => do
    let r ← begun r
    let condition := Condition.ofKind r.kind
    if condition.IsMet r then workOf settings r else return .rest r (some condition)

/-! ## How its job runs stand -/

/-- How it stands with one job run. -/
inductive Standing where
  | inProgress
  | done
  | failed (result : Outcome) (reason : String)
  deriving DecidableEq, Inhabited

/-- What the exit code of a failed job run means; it is never success. -/
def failureOutcome (code : Option Int) : Outcome :=
  match code.map Outcome.ofCode with
  | none | some .success => .general
  | some o => o

/-- How it stands with a job run that took too long. -/
def tooLong (run : ObservedRun) : Standing :=
  .failed .timeout (Failure.timeout run.name (run.timeout / 1000)).message

/-- How it stands with a job run that was observed, or was not. -/
def standing (now : Instant) : Option ObservedRun → Standing
  | none => .inProgress
  | some run =>
    match run.state with
    | .succeeded => .done
    | .failed code reason => .failed (failureOutcome code) reason
    | .timedOut => tooLong run
    | .pending | .running => if run.IsOverdue now then tooLong run else .inProgress

/-- How it stands with each job run that a request calls for. -/
def standings (now : Instant) (desired : List (Nat × JobRunSpec))
    (observed : List (Nat × ObservedRun)) : List (Nat × Standing) :=
  desired.map fun d => (d.1, standing now (observed.lookup d.1))

/-- The job runs that have failed, with result and reason. -/
def failures (ss : List (Nat × Standing)) : List (Nat × Outcome × String) :=
  ss.filterMap fun
    | (i, .failed result reason) => some (i, result, reason)
    | _ => none

/-- How many job runs have not ended. -/
def waiting (ss : List (Nat × Standing)) : Nat := ss.countP fun s => s.2 = .inProgress

/-- The positions in words. -/
def positionsText (is : List Nat) : String :=
  String.ofList (Text.joined ", ".toList (is.map fun i => (toString i).toList))

/-- The request once it is known how its job runs stand. -/
def conclude (settings : RunSettings) (ss : List (Nat × Standing)) (r : Request) :
    Except Failure Request :=
  match failures ss with
  | (i, result, reason) :: more =>
    let positions := positionsText (i :: more.map Prod.fst)
    (r.fail result s!"Generation failed for index {positions}: {reason}").map Prod.fst
  | [] =>
    if waiting ss = 0 then
      (r.succeed (FilePath.join settings.outputRoot r.name)).map Prod.fst
    else .ok r

/-! ## The pass -/

variable {π : Type} [JobPlatform π]

/-- Create a job run, unless it was observed or the platform has it already; the answer holds its name
if it was created. -/
def createOne (observed : List (Nat × ObservedRun)) (d : Nat × JobRunSpec) (p : π) :
    π × Except Failure (List String) :=
  if (observed.lookup d.1).isSome then (p, .ok [])
  else
    match JobPlatform.create d.2 p with
    | (p, .ok ()) => (p, .ok [d.2.name])
    | (p, .error (.alreadyExists _)) => (p, .ok [])
    | (p, .error e) => (p, .error e.toFailure)

/-- Create the job runs that were not observed. -/
def createMissing (observed : List (Nat × ObservedRun)) :
    List (Nat × JobRunSpec) → π → π × Except Failure (List String)
  | [], p => (p, .ok [])
  | d :: rest, p =>
    match createOne observed d p with
    | (p, .error e) => (p, .error e)
    | (p, .ok created) =>
      let (p, more) := createMissing observed rest p
      (p, more.map (created ++ ·))

/-- The job runs of a request that the platform shows, by position. -/
def observe (r : Request) (p : π) : Except Failure (List (Nat × ObservedRun)) :=
  let phase := Phase.generating r.kind
  match JobPlatform.listByStart s!"{JobRun.family r.name phase}-" p with
  | .ok listed => .ok (JobRun.observedByIndex r.name phase listed)
  | .error e => .error e.toFailure

/-- The request after its missing job runs were created. -/
def finish (settings : RunSettings) (now : Instant) (before r : Request)
    (desired : List (Nat × JobRunSpec)) (observed : List (Nat × ObservedRun))
    (created : List String) : Except Failure (Request × Report) := do
  let (r, _) ← r.advance .generating
  let ss := standings now desired observed
  let after ← conclude settings ss r
  return (after, { Report.quiet before after none with created, inProgress := waiting ss })

/-- Carry out what a request calls for. -/
def work (settings : RunSettings) (now : Instant) (before r : Request)
    (desired : List (Nat × JobRunSpec)) (p : π) : π × Except Failure (Request × Report) :=
  match observe r p with
  | .error e => (p, .error e)
  | .ok observed =>
    match createMissing observed desired p with
    | (p, .error e) => (p, .error e)
    | (p, .ok created) => (p, finish settings now before r desired observed created)

/-- Take a request one stage on. -/
def run (settings : RunSettings) (now : Instant) (r : Request) (p : π) :
    π × Except Failure (Request × Report) :=
  if r.isFinished then (p, .ok (r, .quiet r r none))
  else
    match plan settings r with
    | .error e => (p, .error e)
    | .ok (.rest after unmet) => (p, .ok (after, .quiet r after unmet))
    | .ok (.work next desired) => work settings now r next desired p

end Pass

end BomAssembly
