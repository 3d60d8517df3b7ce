import BomAssembly.Control.Schedule
import BomAssembly.Intake.Delivery
import BomAssembly.Proofs.Fallible

/-!
# What may happen to a world

Requests arrive, are written and are removed; the controller ticks, or lets a single request have its
turn; job runs start, change and appear on the platform, which may be offline for a while. `Reachable`
worlds are those that any such events in any order lead to from the empty one. Settings and time are
those of each event, and need not fit those of the one before.

There the turns of a tick come one after the other, and nothing happens between their steps. In a world
that is `Reached` any number of turns may be under way, of the same tick or of others, and anything may
happen between two steps of one of them.
-/

namespace BomAssembly.World

open Time (Instant)

/-- Something that happens. -/
inductive Event where
  | tick (settings : RunSettings) (now : Instant)
  /-- One request has its turn. -/
  | turn (settings : RunSettings) (now : Instant) (name : String)
  | create (record : Record)
  | update (record : Record)
  | erase (name : String)
  | deliver (trigger : Trigger) (draw : Intake.Draw) (message : Intake.Message)
  | start (name : String) (now : Instant)
  | setState (name : String) (state : RunState)
  | insert (run : ObservedRun)
  | outage (offline : Bool)

/-- The world after an event; one that cannot happen changes nothing. -/
def Event.apply : Event → World Store Platform → World Store Platform
  | tick settings now, w => (w.tick settings now).1
  | turn settings now name, w => (w.passOverNamed settings now name).1
  | create record, w => { w with store := (w.store.create record).1 }
  | update record, w => { w with store := (w.store.update record).1 }
  | erase name, w => { w with store := w.store.erase name }
  | deliver trigger draw message, w =>
    { w with store := (Intake.deliver trigger RequestStore.submit draw message w.store).1 }
  | start name now, w => { w with platform := (w.platform.start name now).1 }
  | setState name state, w => { w with platform := (w.platform.setState name state).1 }
  | insert run, w => { w with platform := w.platform.insert run }
  | outage offline, w => { w with platform := { w.platform with offline } }

/-- What events lead to from the empty world. -/
inductive Reachable : World Store Platform → Prop where
  | init : Reachable ⟨.empty, {}⟩
  | step {w : World Store Platform} (h : Reachable w) (e : Event) : Reachable (e.apply w)

/-- What events lead to from the empty world, with the turns that have begun by then. -/
inductive Reached : World Store Platform → List Turn → Prop where
  | init : Reached ⟨.empty, {}⟩ []
  | event {w : World Store Platform} {turns : List Turn} (h : Reached w turns) (e : Event) :
    Reached (e.apply w) turns
  /-- A request that is stored is given a turn, in a tick or by its name. -/
  | call {w : World Store Platform} {turns : List Turn} (h : Reached w turns)
    (settings : RunSettings) (now : Instant) {record : Record} (hrecord : record ∈ w.store.records)
    {r : Request} (hread : Request.ofRecord record = .ok r) :
    Reached w (turns ++ [{ settings, now, request := r }])
  /-- One of the turns takes a step. -/
  | step {w : World Store Platform} {before after : List Turn} {t : Turn}
    (h : Reached w (before ++ t :: after)) :
    Reached (t.step w).1 (before ++ (t.step w).2 :: after)

end BomAssembly.World
