import BomAssembly.JobRun.Name
import BomAssembly.JobRun.Spec
import BomAssembly.Time.InstantText

/-!
# Job runs as they are observed

What the platform says of a job run: its state, and since when it runs. A run that has not finished
is overdue once it has been running for longer than its time limit.
-/

namespace BomAssembly

open Text (StringMap)
open Json (required defaulted optional string? natBelow? intBetween?)
open Time (Instant)

/-- The state of a job run. -/
inductive RunState where
  | pending
  | running
  | succeeded
  | failed (exitCode : Option Int) (message : String)
  | timedOut
  deriving DecidableEq, Inhabited

namespace RunState

/-- Whether nothing more happens. -/
def isFinished : RunState → Bool
  | pending | running => false
  | _ => true

/-- The names of the states. -/
def names : List String := ["pending", "running", "succeeded", "failed", "timedOut"]

/-- The name of a state. -/
def name : RunState → String
  | pending => "pending"
  | running => "running"
  | succeeded => "succeeded"
  | failed .. => "failed"
  | timedOut => "timedOut"

/-- Read the name of a state, or its place among all. -/
def nameOf? : Json → Option String
  | .str s => if s ∈ names then some s else none
  | v => (natBelow? names.length v).bind fun i => names[i]?

/-- Read a state from the fields of a record. -/
def ofFields? (fs : Json.Fields) : Option RunState := do
  match ← required nameOf? ["state"] fs with
  | "pending" => some pending
  | "running" => some running
  | "succeeded" => some succeeded
  | "timedOut" => some timedOut
  | _ =>
    some (failed
      (← optional (intBetween? (-(Nat.pow 2 31)) (Nat.pow 2 31 - 1)) ["exitCode"] fs)
      (← defaulted "" string? ["message"] fs))

/-- The fields that a state is written as. -/
def toFields : RunState → Json.Fields
  | failed code message =>
    ("state", .str "failed") :: Json.field "exitCode" Json.int code ++ [("message", .str message)]
  | s => [("state", .str s.name)]

end RunState

/-- A job run as the platform shows it. -/
structure ObservedRun where
  name : String
  labels : StringMap String
  annotations : StringMap String
  state : RunState
  /-- Since when it has been running. -/
  startedAt : Option Instant
  /-- How long it may take, in milliseconds. -/
  timeout : Nat
  deriving DecidableEq, Inhabited

namespace ObservedRun

/-- A run that has just been submitted. -/
def ofSpec (s : JobRunSpec) : ObservedRun where
  name := s.name
  labels := s.labels
  annotations := s.annotations
  state := .pending
  startedAt := none
  timeout := s.timeout

/-- Whether a run has been going on for longer than it may. -/
def IsOverdue (now : Instant) (r : ObservedRun) : Prop :=
  r.state.isFinished = false ∧
    ∃ start, r.startedAt = some start ∧ (r.timeout * 1000000 : Int) < now.since start

instance (now : Instant) (r : ObservedRun) : Decidable (r.IsOverdue now) :=
  match h : r.startedAt with
  | none => .isFalse fun ⟨_, _, hs, _⟩ => by simp [h] at hs
  | some start =>
    if hc : r.state.isFinished = false ∧ (r.timeout * 1000000 : Int) < now.since start then
      .isTrue ⟨hc.1, start, h, hc.2⟩
    else .isFalse fun ⟨hf, s, hs, hl⟩ => by
      rw [h] at hs
      cases hs
      exact hc ⟨hf, hl⟩

/-- Read an instant. -/
def instant? : Json → Option Instant
  | .str s => Instant.parse? s
  | _ => none

/-- Read a run; the fields of its state stand among its own. -/
def ofJson? (v : Json) : Option ObservedRun := do
  let fs ← v.fields?
  some {
    name := ← required string? ["name"] fs
    labels := ← defaulted .empty map? ["labels"] fs
    annotations := ← defaulted .empty map? ["annotations"] fs
    state := ← RunState.ofFields? fs
    startedAt := ← optional instant? ["startedAt"] fs
    timeout := ← required seconds? ["timeout"] fs }

/-- Write a run. -/
def toJson (r : ObservedRun) : Json :=
  .obj ([("name", .str r.name), ("labels", mapJson r.labels),
    ("annotations", mapJson r.annotations)] ++ r.state.toFields ++
    Json.field "startedAt" (fun t => Json.str t.render) r.startedAt ++
    [("timeout", .nat (r.timeout / 1000))])

/-- Read a run from its text. -/
def parse? (content : String) : Option ObservedRun := (Json.readWritten .any content).bind ofJson?

end ObservedRun

namespace JobRun

/--
The observed runs of a request in a phase, by index. A run belongs to the request when its name
begins with the family's name and a dash; of two with one index the later one counts.
-/
def observedByIndex (request : String) (phase : Phase) (runs : List ObservedRun) :
    List (Nat × ObservedRun) :=
  let start := s!"{family request phase}-"
  let mine := (runs.filter fun r => Text.startsWith r.name start).filterMap fun r =>
    (indexOf? r.name).map fun i => (i, r)
  mine.foldl putByIndex []
where
  /-- Put a run into a list in the order of the indices, in place of the one with its index. -/
  putByIndex (acc : List (Nat × ObservedRun)) (e : Nat × ObservedRun) :
      List (Nat × ObservedRun) :=
    acc.filter (fun a => a.1 < e.1) ++ e :: acc.filter (fun a => e.1 < a.1)

end JobRun

end BomAssembly
