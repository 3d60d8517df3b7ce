import BomAssembly.Proofs.Control.Course
import BomAssembly.Proofs.Control.Event
import BomAssembly.Proofs.Control.Store

/-!
# Turns submit what they report

A tick, and the turn of a single request, do nothing to the platform but take new job runs, and their
reports name exactly those. Whatever events happen to a world, the names of what was submitted are
distinct, and each belongs to a job run that is there.

The argument has three layers: a pass takes what it reports (`Pass.run_took`), a pass over a stored
request always finds it again when it writes it back, so that no report is lost (`passOver_served`),
and events that do not come from the controller leave what was submitted alone.
-/

namespace BomAssembly

open Platform (Took)
open Time (Instant)

/-! ## A turn -/

/-- The record that a pass has written, if the status of the request is another. -/
def Pass.written : Except Failure (Request × Pass.Report) → Option Record
  | .ok (after, report) => if report.statusChanged then some after.toRecord else none
  | .error _ => none

theorem Pass.written_eq_some {result : Except Failure (Request × Pass.Report)} {record : Record}
    (h : written result = some record) : ∃ after report, result = .ok (after, report) ∧
      report.statusChanged = true ∧ record = after.toRecord := by
  cases result with
  | error e => exact absurd h (by simp [written])
  | ok done =>
      obtain ⟨after, report⟩ := done
      rw [written] at h
      split at h
      · next hchanged => exact ⟨after, report, rfl, hchanged, (Option.some.inj h).symm⟩
      · exact absurd h (by simp)

namespace World

theorem name_mem_of_live {records : List Record} {r : Request} (h : r ∈ live records) :
    r.name ∈ records.map Record.name := by
  obtain ⟨record, hrecord, h⟩ := List.mem_filterMap.mp h
  split at h
  · next r' hr =>
    split at h
    · exact absurd h (by simp)
    · rw [← Option.some.inj h, Request.name_of_ofRecord hr]
      exact List.mem_map_of_mem hrecord
  · exact absurd h (by simp)

section Turn

variable {settings : RunSettings} {now : Instant} {r : Request} {w : World Store Platform}

/-- What is saved is what the pass has written. -/
theorem save_fst (result : Except Failure (Request × Pass.Report)) (w : World Store Platform) :
    (save result w).1 =
      ⟨match Pass.written result with
        | some record => (w.store.update record).1
        | none => w.store, w.platform⟩ := by
  cases result with
  | error e => rfl
  | ok done =>
      obtain ⟨after, report⟩ := done
      dsimp only [save, Pass.written]
      split
      · rw [show RequestStore.update after.toRecord w.store = w.store.update after.toRecord from rfl]
        dsimp only
        generalize w.store.update after.toRecord = attempt
        obtain ⟨s, done⟩ := attempt
        cases done with
        | ok _ => rfl
        | error e => cases e <;> rfl
      · rfl

/-- **A turn passes over the request and writes what the pass has written.** -/
theorem passOver_fst (settings : RunSettings) (now : Instant) (r : Request)
    (w : World Store Platform) : (passOver settings now r w).1 =
      ⟨match Pass.written (Pass.run settings now r w.platform).2 with
        | some record => (w.store.update record).1
        | none => w.store,
      (Pass.run settings now r w.platform).1⟩ := save_fst _ _

/-- What is written goes under the name of the request. -/
theorem name_of_written {record : Record}
    (h : Pass.written (Pass.run settings now r w.platform).2 = some record) :
    record.name = r.name := by
  obtain ⟨after, report, hresult, -, rfl⟩ := Pass.written_eq_some h
  have hcourse := Pass.run_course settings now r w.platform
  rw [hresult] at hcourse
  exact hcourse.same.1.name

theorem names_save (result : Except Failure (Request × Pass.Report)) (w : World Store Platform) :
    (save result w).1.store.names = w.store.names := by
  rw [save_fst]
  dsimp only
  split
  · exact Store.names_update _ _
  · rfl

theorem names_passOver (settings : RunSettings) (now : Instant) (r : Request)
    (w : World Store Platform) : (passOver settings now r w).1.store.names = w.store.names :=
  names_save _ _

/-- **What a pass has come to is what is reported**, if the name is stored: the record is found again
when it is written. -/
theorem save_snd {result : Except Failure (Request × Pass.Report)}
    (h : ∀ after report, result = .ok (after, report) → after.name ∈ w.store.names) :
    (save result w).2 = result.map fun done => some done.2 := by
  cases result with
  | error e => rfl
  | ok done =>
      obtain ⟨after, report⟩ := done
      dsimp only [save]
      split
      · have hname : after.toRecord.name ∈ w.store.names := h after report rfl
        obtain ⟨s, hupdate, -⟩ := Store.update_of_mem hname
        rw [show RequestStore.update after.toRecord w.store = w.store.update after.toRecord from rfl,
          hupdate]
        rfl
      · rfl

theorem passOver_snd (hr : r.name ∈ w.store.names) : (passOver settings now r w).2 =
    (Pass.run settings now r w.platform).2.map fun done => some done.2 := by
  refine save_snd fun after report hresult => ?_
  rw [Pass.name_of_run (Prod.ext rfl hresult)]
  exact hr

end Turn

/-! ## What is reported -/

/-- The names that the result of a turn reports as created. -/
def reported : Except Failure (Option Pass.Report) → List String
  | .ok (some report) => report.created
  | _ => []

/-- The names that the result of a tick reports as created, in order. -/
def tickReported : Except Failure Tick → List String
  | .ok t => t.reports.flatMap Pass.Report.created
  | .error _ => []

theorem flatMap_reportsOf (results : List (String × Except Failure (Option Pass.Report))) :
    (reportsOf results).flatMap Pass.Report.created = results.flatMap fun e => reported e.2 := by
  induction results with
  | nil => rfl
  | cons e results ih =>
      obtain ⟨name, result⟩ := e
      unfold reportsOf at ih ⊢
      rw [List.filterMap_cons, List.flatMap_cons, ← ih]
      cases result with
      | error e => rfl
      | ok report =>
          cases report with
          | none => rfl
          | some report => exact List.flatMap_cons

/-! ## What the controller does -/

/-- The controller took these names and reported them; the stored names are the same. -/
structure Served (v w : World Store Platform) (created : List String) : Prop where
  took : ∃ specs, Took v.platform specs w.platform ∧ specs.map JobRunSpec.name = created
  names : w.store.names = v.store.names

theorem Served.none (w : World Store Platform) : Served w w [] :=
  ⟨⟨[], .none w.platform, rfl⟩, rfl⟩

theorem Served.trans {u v w : World Store Platform} {created more : List String}
    (h : Served u v created) (h' : Served v w more) : Served u w (created ++ more) := by
  obtain ⟨specs, htook, hspecs⟩ := h.took
  obtain ⟨specs', htook', hspecs'⟩ := h'.took
  refine ⟨⟨specs ++ specs', htook.trans htook', ?_⟩, h'.names.trans h.names⟩
  rw [List.map_append, hspecs, hspecs']

theorem passOver_served (settings : RunSettings) (now : Instant) {r : Request}
    {w : World Store Platform} (hr : r.name ∈ w.store.names) :
    Served w (passOver settings now r w).1 (reported (passOver settings now r w).2) := by
  obtain ⟨specs, htook, hcreated⟩ := Pass.run_took settings now r w.platform
  refine ⟨⟨specs, ?_, ?_⟩, names_passOver settings now r w⟩
  · rw [passOver_fst]
    exact htook
  · rw [hcreated, passOver_snd hr]
    cases (Pass.run settings now r w.platform).2 <;> rfl

theorem passOverAll_served (settings : RunSettings) (now : Instant) {rs : List Request}
    {w : World Store Platform} (hrs : ∀ r ∈ rs, r.name ∈ w.store.names) :
    Served w (passOverAll settings now rs w).1
      ((passOverAll settings now rs w).2.flatMap fun e => reported e.2) := by
  induction rs generalizing w with
  | nil => exact .none w
  | cons r rs ih =>
      -- the names in the store stay, so the rest is found there as well
      have hfirst := passOver_served settings now (hrs r List.mem_cons_self)
      have hrest : ∀ r' ∈ rs, r'.name ∈ (passOver settings now r w).1.store.names := by
        intro r' hr'
        rw [hfirst.names]
        exact hrs r' (List.mem_cons_of_mem _ hr')
      rw [passOverAll]
      dsimp only
      rw [List.flatMap_cons]
      exact hfirst.trans (ih hrest)

/-- **A tick takes what its reports name, in their order.** -/
theorem tick_served (settings : RunSettings) (now : Instant) (w : World Store Platform) :
    Served w (tick settings now w).1 (tickReported (tick settings now w).2) := by
  -- what is live was read from the store
  have hnames : ∀ r ∈ live w.store.records, r.name ∈ w.store.names := fun r hr =>
    name_mem_of_live hr
  have hserved := passOverAll_served settings now hnames
  unfold tick
  rw [show RequestStore.list w.store = .ok w.store.records from rfl]
  dsimp only
  rw [tickReported, flatMap_reportsOf]
  exact hserved

/-! ## The turn of a name -/

section Named

variable {settings : RunSettings} {now : Instant} {name : String} {record : Record}
  {w : World Store Platform}

/-- A request that is read from the record of a name goes by that name. -/
theorem name_of_read {r : Request} (h : w.store.get? name = some record)
    (hread : Request.ofRecord record = .ok r) : r.name = name :=
  (Request.name_of_ofRecord hread).trans (Store.get?_eq_some_iff.mp h).2

theorem passOverNamed_of_absent (h : w.store.get? name = none) :
    passOverNamed settings now name w = (w, .ok none) := by
  unfold passOverNamed
  rw [show RequestStore.find name w.store = .ok (w.store.get? name) from rfl, h]

theorem passOverNamed_of_unreadable (h : w.store.get? name = some record) {e : Failure}
    (hread : Request.ofRecord record = .error e) :
    passOverNamed settings now name w = (w, .error e) := by
  unfold passOverNamed
  rw [show RequestStore.find name w.store = .ok (w.store.get? name) from rfl, h]
  dsimp only
  rw [hread]

theorem passOverNamed_of_read (h : w.store.get? name = some record) {r : Request}
    (hread : Request.ofRecord record = .ok r) :
    passOverNamed settings now name w = passOver settings now r w := by
  unfold passOverNamed
  rw [show RequestStore.find name w.store = .ok (w.store.get? name) from rfl, h]
  dsimp only
  rw [hread]

end Named

/-- **So does the turn of a single request.** -/
theorem passOverNamed_served (settings : RunSettings) (now : Instant) (name : String)
    (w : World Store Platform) : Served w (passOverNamed settings now name w).1
      (reported (passOverNamed settings now name w).2) := by
  cases hget : w.store.get? name with
  | none =>
      rw [passOverNamed_of_absent hget]
      exact .none w
  | some record =>
      cases hread : Request.ofRecord record with
      | error e =>
          rw [passOverNamed_of_unreadable hget hread]
          exact .none w
      | ok r =>
          rw [passOverNamed_of_read hget hread]
          refine passOver_served settings now ?_
          rw [Request.name_of_ofRecord hread]
          exact Store.name_mem_of_get? hget

/-! ## Over all events -/

theorem submittedOnce_init : Platform.SubmittedOnce {} :=
  ⟨List.nodup_nil, fun _ h => absurd h List.not_mem_nil⟩

/-- **Every event keeps it so that nothing was submitted twice.** -/
theorem Event.submittedOnce (e : Event) {w : World Store Platform}
    (h : w.platform.SubmittedOnce) : (e.apply w).platform.SubmittedOnce := by
  cases e with
  | tick settings now =>
      obtain ⟨specs, htook, -⟩ := (tick_served settings now w).took
      exact htook.submittedOnce h
  | turn settings now name =>
      obtain ⟨specs, htook, -⟩ := (passOverNamed_served settings now name w).took
      exact htook.submittedOnce h
  | create record => exact h
  | update record => exact h
  | erase name => exact h
  | deliver trigger draw message => exact h
  | start name now => exact h.modify name _
  | setState name state => exact h.modify name _
  | insert run => exact h.insert run
  | outage offline => exact ⟨h.nodup, h.there⟩

theorem Reachable.submittedOnce {w : World Store Platform} (h : Reachable w) :
    w.platform.SubmittedOnce := by
  induction h with
  | init => exact submittedOnce_init
  | step _ e ih => exact e.submittedOnce ih

/-- The platform has more job runs, submitted under these names; those it had are as they were. -/
structure Grown (p q : Platform) (created : List String) : Prop where
  kept : ∀ name run, p.runs.get? name = some run → q.runs.get? name = some run
  submitted : ∃ specs, q.submitted = p.submitted ++ specs ∧ specs.map JobRunSpec.name = created

theorem Served.grown {v w : World Store Platform} {created : List String}
    (h : Served v w created) : Grown v.platform w.platform created := by
  obtain ⟨specs, htook, hcreated⟩ := h.took
  exact ⟨fun _ _ hrun => htook.get? hrun, specs, htook.submitted, hcreated⟩

end World

end BomAssembly
