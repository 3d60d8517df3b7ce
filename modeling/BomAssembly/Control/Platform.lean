import BomAssembly.JobRun.Observed
import BomAssembly.Text.Split

/-!
# The platform that runs jobs

A platform lists its job runs by what their names begin with and takes new ones. `Platform` is one
that is held in memory: each job run is kept under its name, a name is taken once, and what was
submitted is remembered in order. While it is offline it neither lists nor takes anything; the runs
that it has go on.
-/

namespace BomAssembly

open Text (StringMap)
open Time (Instant)

/-- Why the platform, or a store, did not do what it was asked. -/
inductive PlatformError where
  | unavailable (why : String)
  | alreadyExists (name : String)
  | notFound (name : String)
  deriving DecidableEq, Inhabited

namespace PlatformError

/-- The error in words. -/
def message : PlatformError → String
  | unavailable why => s!"platform unavailable: {why}"
  | alreadyExists name => s!"resource '{name}' already exists"
  | notFound name => s!"resource '{name}' not found"

/-- The failure of an operation that met the error: a later pass may succeed. -/
def toFailure (e : PlatformError) : Failure := .transient e.message

end PlatformError

/-- What an action leaves behind, and whether it was done. -/
abbrev Attempt (σ : Type) := σ × Except PlatformError Unit

/-- A platform, as the controller sees it. -/
class JobPlatform (π : Type) where
  /-- The job runs whose names begin with a text, in the order of their names. -/
  listByStart : String → π → Except PlatformError (List ObservedRun)
  /-- Take a new job run. -/
  create : JobRunSpec → π → Attempt π

/-- Each job run is kept under its name. -/
def Keyed (runs : StringMap ObservedRun) : Prop := ∀ e ∈ runs.entries, e.1 = e.2.name

theorem keyed_empty : Keyed .empty := fun _ he => absurd he List.not_mem_nil

theorem Keyed.insert {runs : StringMap ObservedRun} (h : Keyed runs) {name : String}
    {run : ObservedRun} (hname : run.name = name) : Keyed (runs.insert name run) := by
  intro e he
  rcases Text.insertEntry_key he with he | he
  · rw [he, hname]
  · exact h e he

theorem Keyed.name_of_get? {runs : StringMap ObservedRun} (h : Keyed runs) {name : String}
    {run : ObservedRun} (hget : runs.get? name = some run) : run.name = name := by
  obtain ⟨before, after, hentries, -⟩ := List.lookup_eq_some_iff.mp hget
  exact (h (name, run) (by rw [hentries]; simp)).symm

/-- A platform held in memory. -/
structure Platform where
  runs : StringMap ObservedRun := .empty
  /-- What was submitted, in order. -/
  submitted : List JobRunSpec := []
  offline : Bool := false
  keyed : Keyed runs := by exact keyed_empty
  deriving DecidableEq

instance : Inhabited Platform := ⟨{}⟩

namespace Platform

/-- The error of a platform that is offline. -/
def outage : PlatformError := .unavailable "platform offline"

/-- The entries of an ordered map whose keys begin with a text, found from the first key that is not
below it. -/
def range {α : Type} (start : String) (m : StringMap α) : List (String × α) :=
  (m.entries.dropWhile fun e => decide (e.1 < start)).takeWhile fun e =>
    Text.startsWith e.1 start

/-- The job runs whose names begin with a text. -/
def listByStart (start : String) (p : Platform) : Except PlatformError (List ObservedRun) :=
  if p.offline then .error outage else .ok ((range start p.runs).map Prod.snd)

/-- Take a new job run. -/
def create (spec : JobRunSpec) (p : Platform) : Attempt Platform :=
  if p.offline then (p, .error outage)
  else if p.runs.contains spec.name then (p, .error (.alreadyExists spec.name))
  else
    ({ p with
      runs := p.runs.insert spec.name (.ofSpec spec)
      submitted := p.submitted ++ [spec]
      keyed := p.keyed.insert rfl }, .ok ())

instance : JobPlatform Platform where
  listByStart := listByStart
  create := create

/-! ## What happens on the platform -/

/-- Change a job run, but for its name. -/
def modify (name : String) (f : ObservedRun → ObservedRun) (hf : ∀ r, (f r).name = r.name)
    (p : Platform) : Attempt Platform :=
  match h : p.runs.get? name with
  | some run =>
    ({ p with
      runs := p.runs.insert name (f run)
      keyed := p.keyed.insert ((hf run).trans (p.keyed.name_of_get? h)) }, .ok ())
  | none => (p, .error (.notFound name))

/-- A job run starts. -/
def start (name : String) (now : Instant) (p : Platform) : Attempt Platform :=
  p.modify name (fun r => { r with state := .running, startedAt := some now }) fun _ => rfl

/-- A job run comes into a state. -/
def setState (name : String) (state : RunState) (p : Platform) : Attempt Platform :=
  p.modify name (fun r => { r with state := state }) fun _ => rfl

/-- A job run appears, in place of the one of its name. -/
def insert (run : ObservedRun) (p : Platform) : Platform :=
  { p with runs := p.runs.insert run.name run, keyed := p.keyed.insert rfl }

/-- All job runs, in the order of their names. -/
def allRuns (p : Platform) : List ObservedRun := p.runs.entries.map Prod.snd

end Platform

end BomAssembly
