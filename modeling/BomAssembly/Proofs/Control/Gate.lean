import BomAssembly.Proofs.Control.Turns
import Mathlib.Logic.Relation

/-!
# No job run without what it needs

Every job run that was ever submitted was submitted in the turn of a stored request that was live at
that moment and called for it, and whose configuration was ready: an operation had the manifests of
all its deliverables. Nothing else submits, whatever happens between the turns, for a pass looks at
condition, configuration and positions of one and the same request.
-/

namespace BomAssembly.World

open Platform (Took)
open Time (Instant)

variable {settings : RunSettings} {now : Instant} {r : Request} {u v w : World Store Platform}
  {spec : JobRunSpec} {e : Event}

/-- An event of a world `u` gives a request its turn at `v`. -/
inductive Event.Serves (u : World Store Platform) (settings : RunSettings) (now : Instant)
    (r : Request) : World Store Platform → Event → Prop where
  | tick {v : World Store Platform} (h : HasTurn settings now u r v) :
    Serves u settings now r v (.tick settings now)
  | turn {name : String} {record : Record} (hget : u.store.get? name = some record)
    (hread : Request.ofRecord record = .ok r) : Serves u settings now r u (.turn settings now name)

/-- An event of a world submits a job run, in the turn of a stored request that calls for it. -/
def Event.Submits (e : Event) (u : World Store Platform) (spec : JobRunSpec) : Prop :=
  ∃ settings now r v, Serves u settings now r v e ∧
    spec ∉ v.platform.submitted ∧ spec ∈ (passOver settings now r v).1.platform.submitted ∧
    (∃ record, v.store.get? r.name = some record ∧ Request.ofRecord record = .ok r) ∧
    Pass.CallsFor settings r spec

/-- A world comes from another by any events. -/
def Follows : World Store Platform → World Store Platform → Prop :=
  Relation.ReflTransGen fun v w => ∃ e : Event, w = e.apply v

/-! ## One event -/

/-- What is taken in a turn is submitted by it. -/
theorem Event.Serves.submits (h : Serves u settings now r v e)
    (honce : v.platform.SubmittedOnce)
    (hstored : ∃ record, v.store.get? r.name = some record ∧ Request.ofRecord record = .ok r)
    {taken : List JobRunSpec}
    (htook : Took v.platform taken (passOver settings now r v).1.platform) (hspec : spec ∈ taken) :
    e.Submits u spec := by
  refine ⟨settings, now, r, v, h, honce.not_mem_of_took htook hspec, ?_, hstored,
    callsFor_of_turn htook hspec⟩
  rw [htook.submitted]
  exact List.mem_append_right _ hspec

theorem submits_of_tick (honce : u.platform.SubmittedOnce) (hold : spec ∉ u.platform.submitted)
    (hnew : spec ∈ (tick settings now u).1.platform.submitted) :
    (Event.tick settings now).Submits u spec := by
  obtain ⟨specs, htook⟩ := took_passOverAll settings now (live u.store.records) u
  rw [tick_fst, htook.submitted] at hnew
  have hspec := (List.mem_append.mp hnew).resolve_left hold
  obtain ⟨r, v, taken, hturn, htaken, hmem⟩ := exists_turn_of_took htook hspec
  obtain ⟨before, hbefore⟩ := hturn.took_before
  obtain ⟨record, -, hv, hread, -⟩ := hturn.stored
  exact (Event.Serves.tick hturn).submits (hbefore.submittedOnce honce) ⟨record, hv, hread⟩ htaken
    hmem

theorem submits_of_turn {name : String} (honce : u.platform.SubmittedOnce)
    (hold : spec ∉ u.platform.submitted)
    (hnew : spec ∈ (passOverNamed settings now name u).1.platform.submitted) :
    (Event.turn settings now name).Submits u spec := by
  cases hget : u.store.get? name with
  | none =>
      rw [passOverNamed_of_absent hget] at hnew
      exact absurd hnew hold
  | some record =>
      cases hread : Request.ofRecord record with
      | error e =>
          rw [passOverNamed_of_unreadable hget hread] at hnew
          exact absurd hnew hold
      | ok r =>
          rw [passOverNamed_of_read hget hread] at hnew
          obtain ⟨taken, htook⟩ := took_passOver settings now r u
          rw [htook.submitted] at hnew
          have hspec := (List.mem_append.mp hnew).resolve_left hold
          have hname : r.name = name := name_of_read hget hread
          exact (Event.Serves.turn hget hread).submits honce ⟨record, hname ▸ hget, hread⟩ htook
            hspec

/-- **An event after which a job run has been submitted that was not submitted before** submits it in
the turn of a request. -/
theorem Event.submits_of_new (honce : u.platform.SubmittedOnce)
    (hold : spec ∉ u.platform.submitted) (hnew : spec ∈ (e.apply u).platform.submitted) :
    e.Submits u spec := by
  cases e with
  | tick settings now => exact submits_of_tick honce hold hnew
  | turn settings now name => exact submits_of_turn honce hold hnew
  | create record => exact absurd hnew hold
  | update record => exact absurd hnew hold
  | erase name => exact absurd hnew hold
  | deliver trigger draw message => exact absurd hnew hold
  | start name now =>
      rw [show ((Event.start name now).apply u).platform.submitted = _ from
        Platform.submitted_modify _ _ _] at hnew
      exact absurd hnew hold
  | setState name state =>
      rw [show ((Event.setState name state).apply u).platform.submitted = _ from
        Platform.submitted_modify _ _ _] at hnew
      exact absurd hnew hold
  | insert run => exact absurd hnew hold
  | outage offline => exact absurd hnew hold

/-! ## Over all events -/

/-- **The gate is never passed by.** Whatever was submitted in a world that events can lead to was
submitted on the way, by one of them, in the turn of a stored live request that called for it with its
configuration ready. -/
theorem gate_safe (h : Reachable w) : ∀ spec ∈ w.platform.submitted, ∃ u e, Reachable u ∧
    Follows (Event.apply e u) w ∧ e.Submits u spec := by
  induction h with
  | init => exact fun spec hspec => absurd hspec List.not_mem_nil
  | @step w hw e ih =>
      intro spec hspec
      by_cases hold : spec ∈ w.platform.submitted
      · obtain ⟨u, e', hu, hfollows, hsubmits⟩ := ih spec hold
        exact ⟨u, e', hu, hfollows.tail ⟨e, rfl⟩, hsubmits⟩
      · exact ⟨w, e, hw, .refl, Event.submits_of_new hw.submittedOnce hold hspec⟩

/-- A world in which a request for a build of one product was stored. -/
def created : World Store Platform :=
  Event.apply (.create (oneProductRequest "r").toRecord) ⟨.empty, {}⟩

/-- The tick that follows submits its job run. -/
theorem exists_submitted_created :
    ∃ spec, spec ∈ (Event.apply (.tick {} default) created).platform.submitted := by
  have hlive : live created.store.records = [oneProductRequest "r"] :=
    live_cons_of_storable (storable_oneProductRequest "r") rfl []
  have hturn : HasTurn {} default created (oneProductRequest "r") created := ⟨[], [], hlive, rfl⟩
  have hgathered : Pass.Gathered (oneProductRequest "r") {} oneProduct 1 [] :=
    ⟨rfl, rfl, rfl, ⟨rfl, by decide⟩, rfl⟩
  have ht : Duration.parse ({} : RunSettings).timeout = .ok 21600000 := by decide
  obtain ⟨q, htook, hrun⟩ := hgathered.run_eq (by decide) default ht
  have hplatform : (passOver {} default (oneProductRequest "r") created).1.platform = q := by
    rw [passOver_fst]
    exact congrArg Prod.fst hrun
  obtain ⟨more, hmore⟩ := hturn.took_after
  rw [hplatform] at hmore
  refine ⟨JobRun.specAt .build oneProduct (oneProductRequest "r") {} 21600000 0, ?_⟩
  show _ ∈ (tick {} default created).1.platform.submitted
  rw [hmore.submitted, htook.submitted]
  exact List.mem_append_left _ (List.mem_append_right _ (List.mem_singleton_self _))

theorem gate_safe_created :
    Reachable (Event.apply (.tick {} default) created) ∧
    ∃ spec ∈ (Event.apply (.tick {} default) created).platform.submitted, ∃ u e, Reachable u ∧
      Follows (Event.apply e u) (Event.apply (.tick {} default) created) ∧ e.Submits u spec := by
  have h : Reachable (Event.apply (.tick {} default) created) := .step (.step .init _) _
  obtain ⟨spec, hspec⟩ := exists_submitted_created
  exact ⟨h, spec, hspec, gate_safe h spec hspec⟩

end BomAssembly.World
