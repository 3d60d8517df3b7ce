import BomAssembly.Proofs.Control.Turns

/-!
# A tick, turn by turn

A tick reads all records before it does anything, and it counts the requests that have ended and those
that cannot be read without giving them a turn. The turn of a name reads the record that is there when
it comes. All the same a tick does what the turns of the stored names do, one after the other: a turn
writes under its own name only, so the record that a later one reads is the one that the tick has read,
and requests that have ended or cannot be read change nothing in their turn.

`Told` compares what the two have done for some of the records; each record adds to it in one of three
ways, and `told` is the induction over the records. Every stored request is answered for once, by a
report or by an error (`tick_turnByTurn`).
-/

namespace BomAssembly.World

open Pass (Report)
open Time (Instant)

variable {settings : RunSettings} {now : Instant} {r : Request} {w : World Store Platform}
  {name : String} {record : Record} {records : List Record} {e : Failure}

/-! ## One turn -/

/-- What has ended is reported as it is. -/
theorem passOver_of_ended (h : r.isFinished = true) (w : World Store Platform) :
    passOver settings now r w = (w, .ok (some (.quiet r r none))) := by
  have hsame : (Report.quiet r r none).statusChanged = false := decide_eq_false fun hne => hne rfl
  rw [passOver, Pass.run_of_ended h]
  dsimp only [save]
  rw [hsame]
  rfl

/-- **A turn that fails changes nothing.** -/
theorem passOver_of_error (hr : r.name ∈ w.store.names)
    (h : (passOver settings now r w).2 = .error e) : (passOver settings now r w).1 = w := by
  rw [passOver_snd hr] at h
  have hcourse := Pass.run_course settings now r w.platform
  rw [passOver_fst]
  cases hresult : (Pass.run settings now r w.platform).2 with
  | ok done =>
      rw [hresult] at h
      exact absurd h (by simp [Except.map])
  | error e' =>
      rw [hresult] at hcourse
      rw [hcourse.eq_of_error]
      rfl

theorem passOverNamed_of_error (h : (passOverNamed settings now name w).2 = .error e) :
    (passOverNamed settings now name w).1 = w := by
  cases hget : w.store.get? name with
  | none => rw [passOverNamed_of_absent hget]
  | some record =>
      cases hread : Request.ofRecord record with
      | error e' => rw [passOverNamed_of_unreadable hget hread]
      | ok r =>
          rw [passOverNamed_of_read hget hread] at h ⊢
          refine passOver_of_error ?_ h
          rw [Request.name_of_ofRecord hread]
          exact Store.name_mem_of_get? hget

/-! ## What is answered for -/

/-- A name is answered for by a report under that name, or by a failure. -/
inductive Answered : String × Except Failure (Option Report) → Prop where
  | report {name : String} {report : Report} (h : report.request = name) :
    Answered (name, .ok (some report))
  | failure {name : String} {e : Failure} : Answered (name, .error e)

/-- The result of a turn, if the request is stored. -/
theorem answered_passOver (hr : r.name ∈ w.store.names) :
    Answered (r.name, (passOver settings now r w).2) ∧
      ∀ report, (passOver settings now r w).2 = .ok (some report) → report.previous = r.status := by
  rw [passOver_snd hr]
  have hcourse := Pass.run_course settings now r w.platform
  cases hresult : (Pass.run settings now r w.platform).2 with
  | error e => exact ⟨.failure, fun report h => absurd h (by simp [Except.map])⟩
  | ok done =>
      obtain ⟨after, report⟩ := done
      rw [hresult] at hcourse
      refine ⟨.report hcourse.request_eq, fun report' h => ?_⟩
      obtain rfl := Option.some.inj (Except.ok.inj h)
      exact hcourse.same.2.1

section Answered

variable {results : List (String × Except Failure (Option Report))}
  (h : ∀ e ∈ results, Answered e)

include h

theorem length_of_answered :
    (reportsOf results).length + (failuresOf results).length = results.length := by
  induction results with
  | nil => rfl
  | cons e results ih =>
      have hrest := ih fun e' he' => h e' (List.mem_cons_of_mem _ he')
      cases h e List.mem_cons_self with
      | @report name report _ =>
          show (report :: reportsOf results).length + (failuresOf results).length = _
          simp only [List.length_cons]
          omega
      | @failure name e =>
          show (reportsOf results).length + ((name, e) :: failuresOf results).length = _
          simp only [List.length_cons]
          omega

/-- Reports come in the order of the turns. -/
theorem sublist_requests :
    ((reportsOf results).map Report.request).Sublist (results.map Prod.fst) := by
  induction results with
  | nil => exact .slnil
  | cons e results ih =>
      have hrest := ih fun e' he' => h e' (List.mem_cons_of_mem _ he')
      cases h e List.mem_cons_self with
      | report hname =>
          subst hname
          exact hrest.cons_cons _
      | failure => exact hrest.cons _

end Answered

/-! ## All turns -/

/-- Let the requests of these names have their turns, one after the other. -/
def passOverNames (settings : RunSettings) (now : Instant) : List String → World Store Platform →
    World Store Platform × List (String × Except Failure (Option Report))
  | [], w => (w, [])
  | name :: rest, w =>
    let (w, result) := passOverNamed settings now name w
    let (w, results) := passOverNames settings now rest w
    (w, (name, result) :: results)

/-- The report of a request that had ended before. -/
def hadEnded (report : Report) : Bool := report.previous.isTerminal

/-- Where these records had their turns by name, and the live requests among them had theirs, the
worlds are the same, and so is what was reported, but that the turns by name answer for every record:
those that cannot be read with a failure, those that have ended with a report. -/
structure Told (records : List Record)
    (named served : World Store Platform × List (String × Except Failure (Option Report))) :
    Prop where
  world : named.1 = served.1
  names : named.2.map Prod.fst = records.map Record.name
  answered : ∀ e ∈ named.2, Answered e
  reports : reportsOf served.2 = (reportsOf named.2).filter fun report => !hadEnded report
  failures : (unreadable records ++ failuresOf served.2).Perm (failuresOf named.2)
  ended : ended records = (reportsOf named.2).countP hadEnded

section Told

variable {named served : World Store Platform × List (String × Except Failure (Option Report))}

theorem forall_answered_cons {answer : String × Except Failure (Option Report)}
    (ha : Answered answer) {results : List (String × Except Failure (Option Report))}
    (h : ∀ e ∈ results, Answered e) : ∀ e ∈ answer :: results, Answered e := by
  intro e he
  rcases List.mem_cons.mp he with rfl | he
  · exact ha
  · exact h e he

theorem Told.unreadable (h : Told records named served)
    (hread : Request.ofRecord record = .error e) :
    Told (record :: records) (named.1, (record.name, .error e) :: named.2) served where
  world := h.world
  names := congrArg (record.name :: ·) h.names
  answered := forall_answered_cons .failure h.answered
  reports := h.reports
  failures := by
    have hunreadable : World.unreadable (record :: records) =
        (record.name, e) :: World.unreadable records := by simp [World.unreadable, hread]
    rw [hunreadable]
    exact h.failures.cons (record.name, e)
  ended := by
    have hended : World.ended (record :: records) = World.ended records := by
      simp [World.ended, hread]
    rw [hended]
    exact h.ended

theorem Told.ended_cons (h : Told records named served) (hread : Request.ofRecord record = .ok r)
    (hended : r.isFinished = true) : Told (record :: records)
      (named.1, (record.name, .ok (some (.quiet r r none))) :: named.2) served where
  world := h.world
  names := congrArg (record.name :: ·) h.names
  answered := forall_answered_cons (.report (Request.name_of_ofRecord hread)) h.answered
  reports := by
    have hhad : hadEnded (.quiet r r none) = true := hended
    show _ = List.filter _ (.quiet r r none :: reportsOf named.2)
    rw [List.filter_cons_of_neg (by simp [hhad])]
    exact h.reports
  failures := by
    have hunreadable : World.unreadable (record :: records) = World.unreadable records := by
      simp [World.unreadable, hread]
    rw [hunreadable]
    exact h.failures
  ended := by
    have hmore : World.ended (record :: records) = World.ended records + 1 := by
      simp [World.ended, hread, hended]
    have hhad : hadEnded (.quiet r r none) = true := hended
    show _ = (.quiet r r none :: reportsOf named.2).countP hadEnded
    rw [hmore, List.countP_cons_of_pos hhad, h.ended]

theorem Told.turn (h : Told records named served) (hread : Request.ofRecord record = .ok r)
    (hlive : r.isFinished = false) {result : Except Failure (Option Report)}
    (hanswered : Answered (r.name, result))
    (hprevious : ∀ report, result = .ok (some report) → report.previous = r.status) :
    Told (record :: records) (named.1, (record.name, result) :: named.2)
      (served.1, (r.name, result) :: served.2) := by
  have hname : r.name = record.name := Request.name_of_ofRecord hread
  have hunreadable : World.unreadable (record :: records) = World.unreadable records := by
    simp [World.unreadable, hread]
  have hended : World.ended (record :: records) = World.ended records := by
    simp [World.ended, hread, hlive]
  have hnot : ∀ report, result = .ok (some report) → hadEnded report = false := by
    intro report hreport
    rw [hadEnded, hprevious report hreport]
    exact hlive
  rw [← hname]
  refine ⟨h.world, ?_, forall_answered_cons hanswered h.answered, ?_, ?_, ?_⟩
  · rw [List.map_cons, List.map_cons, h.names, hname]
  · cases hanswered with
    | failure => exact h.reports
    | @report _ report _ =>
        show report :: reportsOf served.2 = (report :: reportsOf named.2).filter _
        rw [List.filter_cons_of_pos (by simp [hnot report rfl]), h.reports]
  · rw [hunreadable]
    cases hanswered with
    | report _ => exact h.failures
    | @failure _ e =>
        -- a failure in a turn stands behind those that could not be read
        show (World.unreadable records ++ (r.name, e) :: failuresOf served.2).Perm
          ((r.name, e) :: failuresOf named.2)
        exact List.perm_middle.trans (h.failures.cons (r.name, e))
  · rw [hended]
    cases hanswered with
    | failure => exact h.ended
    | @report _ report _ =>
        show _ = (report :: reportsOf named.2).countP hadEnded
        rw [List.countP_cons_of_neg (by simp [hnot report rfl]), h.ended]

end Told

theorem told_nil (w : World Store Platform) : Told [] (w, []) (w, []) :=
  ⟨rfl, rfl, fun _ he => absurd he List.not_mem_nil, rfl, .nil, rfl⟩

/-- **Each record is still the same when its turn comes.** -/
theorem told (settings : RunSettings) (now : Instant)
    (hnodup : (records.map Record.name).Nodup)
    (hget : ∀ record ∈ records, w.store.get? record.name = some record) :
    Told records (passOverNames settings now (records.map Record.name) w)
      (passOverAll settings now (live records) w) := by
  induction records generalizing w with
  | nil => exact told_nil w
  | cons record records ih =>
      obtain ⟨hnew, hrest⟩ := List.nodup_cons.mp hnodup
      have hhead := hget record List.mem_cons_self
      have htail := fun record' hrecord' => hget record' (List.mem_cons_of_mem _ hrecord')
      rw [List.map_cons, passOverNames]
      cases hread : Request.ofRecord record with
      | error e =>
          have hsame : live (record :: records) = live records := by simp [live, hread]
          rw [passOverNamed_of_unreadable hhead hread, hsame]
          exact (ih hrest htail).unreadable hread
      | ok r =>
          rw [passOverNamed_of_read hhead hread]
          by_cases hended : r.isFinished = true
          · have hsame : live (record :: records) = live records := by simp [live, hread, hended]
            rw [passOver_of_ended hended, hsame]
            exact (ih hrest htail).ended_cons hread hended
          · have hlive : r.isFinished = false := by simpa using hended
            have hmore : live (record :: records) = r :: live records := by
              simp [live, hread, hlive]
            have hname : r.name = record.name := Request.name_of_ofRecord hread
            have hstored : r.name ∈ w.store.names := hname ▸ Store.name_mem_of_get? hhead
            obtain ⟨hanswered, hprevious⟩ := @answered_passOver settings now r w hstored
            -- the turn leaves the records alone that are still to come
            have hkept : ∀ record' ∈ records,
                (passOver settings now r w).1.store.get? record'.name = some record' := by
              intro record' hrecord'
              rw [get?_passOver_of_ne]
              · exact htail record' hrecord'
              · rw [hname]
                exact fun heq => hnew (heq ▸ List.mem_map_of_mem hrecord')
            rw [hmore]
            exact (ih hrest hkept).turn hread hlive hanswered hprevious

theorem told_records (settings : RunSettings) (now : Instant) (w : World Store Platform) :
    Told w.store.records (passOverNames settings now w.store.names w)
      (passOverAll settings now (live w.store.records) w) :=
  told settings now w.store.names_nodup fun _ hrecord => Store.get?_eq_some_iff.mpr ⟨hrecord, rfl⟩

/-! ## The tick -/

/-- A tick tells what the turns of the stored names have told. -/
structure Summarises (w : World Store Platform)
    (results : List (String × Except Failure (Option Report))) (t : Tick) : Prop where
  /-- Every stored name has one result. -/
  names : results.map Prod.fst = w.store.names
  answered : ∀ e ∈ results, Answered e
  reports : t.reports = (reportsOf results).filter fun report => !hadEnded report
  errors : t.errors.Perm (failuresOf results)
  finished : t.finished = (reportsOf results).countP hadEnded
  inOrder : (t.reports.map Report.request).Sublist w.store.names
  total : t.reports.length + t.errors.length + t.finished = w.store.size

theorem summarises_tick (settings : RunSettings) (now : Instant) (w : World Store Platform) :
    ∃ t, (tick settings now w).2 = .ok t ∧
      Summarises w (passOverNames settings now w.store.names w).2 t := by
  have htold := told_records settings now w
  have hnames : (passOverNames settings now w.store.names w).2.map Prod.fst = w.store.names :=
    htold.names
  have hlength := length_of_answered htold.answered
  have hrequests := sublist_requests htold.answered
  refine ⟨_, rfl, hnames, htold.answered, htold.reports, htold.failures, htold.ended, ?_, ?_⟩
  · rw [hnames] at hrequests
    dsimp only
    rw [htold.reports]
    exact (List.filter_sublist.map Report.request).trans hrequests
  · -- a report is one of a request that had ended, or one of the tick
    have hsplit := List.length_eq_countP_add_countP hadEnded
      (l := reportsOf (passOverNames settings now w.store.names w).2)
    have hsize : (passOverNames settings now w.store.names w).2.length = w.store.size := by
      rw [← List.length_map Prod.fst, hnames]
      exact List.length_map _
    dsimp only
    rw [htold.reports, htold.failures.length_eq, htold.ended, ← List.countP_eq_length_filter]
    simp only [Bool.not_eq_true, Bool.decide_eq_false] at hsplit
    omega

/-- **A tick is the turns of the stored names**, one after the other. It answers for every stored
request once, and a turn that fails changes nothing for those that follow. -/
theorem tick_turnByTurn (settings : RunSettings) (now : Instant) (w : World Store Platform) :
    (tick settings now w).1 = (passOverNames settings now w.store.names w).1 ∧
    (∃ t, (tick settings now w).2 = .ok t ∧
      Summarises w (passOverNames settings now w.store.names w).2 t) ∧
    ∀ (v : World Store Platform) name e, (passOverNamed settings now name v).2 = .error e →
      (passOverNamed settings now name v).1 = v :=
  ⟨(told_records settings now w).world.symm, summarises_tick settings now w,
    fun _ _ _ h => passOverNamed_of_error h⟩

end BomAssembly.World
