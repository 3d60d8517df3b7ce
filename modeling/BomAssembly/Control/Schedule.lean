import BomAssembly.Control.Tick

/-!
# Turns side by side

The turns of a tick may be in several hands at once. A turn is then a sequence of steps. Each asks the
platform or the store at most one thing, which is done before anything else is, and between two steps
of a turn the others may move. A schedule tells, by positions, which turn moves next.

`World.tickUnder` is a tick under a schedule. Turns that have not ended when the schedule has are ended
one after the other, so under the empty schedule it is the tick of a single hand, `World.tick`, and any
order of steps that ends all turns is a schedule that leaves nothing over.
-/

namespace BomAssembly

open Time (Instant)

/-- How far a turn has come. -/
inductive Stage where
  /-- Nothing was asked yet. -/
  | waiting
  /-- It is known which job runs there are. Those of `rest` are still to be looked after, and those of
  `created` were created, out of all that are called for. -/
  | creating (next : Request) (desired : List (Nat × JobRunSpec))
    (observed : List (Nat × ObservedRun)) (rest : List (Nat × JobRunSpec)) (created : List String)
  /-- The pass has come to its result, which is to be stored. -/
  | passed (result : Except Failure (Request × Pass.Report))
  | ended (result : Except Failure (Option Pass.Report))

/-- The turn of a request. -/
structure Turn where
  settings : RunSettings
  now : Instant
  request : Request
  stage : Stage := .waiting

namespace Turn

variable {σ π : Type} [RequestStore σ] [JobPlatform π]

/-! ## One turn -/

/-- Find out what the request calls for, and list the job runs there are. -/
def begin (t : Turn) (p : π) : Stage :=
  if t.request.isFinished then .passed (.ok (t.request, .quiet t.request t.request none))
  else
    match Pass.plan t.settings t.request with
    | .error e => .passed (.error e)
    | .ok (.rest after unmet) => .passed (.ok (after, .quiet t.request after unmet))
    | .ok (.work next desired) =>
      match Pass.observe next p with
      | .error e => .passed (.error e)
      | .ok observed => .creating next desired observed desired []

/-- The step that a turn takes next. -/
def move (t : Turn) (w : World σ π) : World σ π × Stage :=
  match t.stage with
  | .waiting => (w, t.begin w.platform)
  | .creating next desired observed [] created =>
    (w, .passed (Pass.finish t.settings t.now t.request next desired observed created))
  | .creating next desired observed (d :: rest) created =>
    match Pass.createOne observed d w.platform with
    | (p, .error e) => ({ w with platform := p }, .passed (.error e))
    | (p, .ok more) =>
      ({ w with platform := p }, .creating next desired observed rest (created ++ more))
  | .passed result =>
    let (w, result) := World.save result w
    (w, .ended result)
  | .ended result => (w, .ended result)

/-- Take a step. -/
def step (t : Turn) (w : World σ π) : World σ π × Turn :=
  let (w, stage) := t.move w
  (w, { t with stage })

/-- What is left of a turn, in one go. -/
def remainder (t : Turn) (w : World σ π) : World σ π × Except Failure (Option Pass.Report) :=
  match t.stage with
  | .waiting => World.passOver t.settings t.now t.request w
  | .creating next desired observed rest created =>
    match Pass.createMissing observed rest w.platform with
    | (p, .error e) => ({ w with platform := p }, .error e)
    | (p, .ok more) =>
      World.save (Pass.finish t.settings t.now t.request next desired observed (created ++ more))
        { w with platform := p }
  | .passed result => World.save result w
  | .ended result => (w, result)

/-- End a turn. -/
def finish (t : Turn) (w : World σ π) : World σ π × Turn :=
  let (w, result) := t.remainder w
  (w, { t with stage := .ended result })

/-- The result of a turn that has ended. -/
def result? (t : Turn) : Option (String × Except Failure (Option Pass.Report)) :=
  match t.stage with
  | .ended result => some (t.request.name, result)
  | _ => none

/-! ## Many turns -/

/-- Let turns move, each time the one at the next position of a schedule. -/
def interleave : List Nat → World σ π → List Turn → World σ π × List Turn
  | [], w, ts => (w, ts)
  | i :: schedule, w, ts =>
    match ts[i]? with
    | none => interleave schedule w ts
    | some t =>
      let (w, t) := t.step w
      interleave schedule w (ts.set i t)

/-- End turns, one after the other. -/
def finishAll : List Turn → World σ π → World σ π × List Turn
  | [], w => (w, [])
  | t :: rest, w =>
    let (w, t) := t.finish w
    let (w, rest) := finishAll rest w
    (w, t :: rest)

end Turn

namespace World

variable {σ π : Type} [RequestStore σ] [JobPlatform π]

/-- The turns of a tick. -/
def turnsOf (settings : RunSettings) (now : Instant) (records : List Record) : List Turn :=
  (live records).map fun r => { settings, now, request := r }

/-- Let every stored request have its turn, with the turns side by side as a schedule tells. -/
def tickUnder (schedule : List Nat) (settings : RunSettings) (now : Instant) (w : World σ π) :
    World σ π × Except Failure Tick :=
  match RequestStore.list w.store with
  | .error e => (w, .error e.toFailure)
  | .ok records =>
    let (w, turns) := Turn.interleave schedule w (turnsOf settings now records)
    let (w, turns) := Turn.finishAll turns w
    let results := turns.filterMap Turn.result?
    (w, .ok ⟨reportsOf results, unreadable records ++ failuresOf results, ended records⟩)

end World

end BomAssembly
