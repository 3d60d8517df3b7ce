import BomAssembly.Proofs.Control.Gate

/-!
# Turns side by side create nothing twice

A turn asks the platform at one step which job runs there are, and creates its own at later ones. Between
them anything may happen: other turns of the same tick move, requests come and go, job runs appear.
Nothing is created twice all the same, as the platform itself refuses a name that it has.

What a step does is stated once (`Turn.exists_took_step`): it takes at most a job run, and what it takes
the turn notes. Two kinds of runs follow by induction on their steps:

* under a schedule of the turns of a tick, what is taken stays a merge of what the turns have noted
  (`Turn.Tally.step`), and at the end they report what they have noted (`reports_of_ended`);
* over the steps of turns and all other events, what is submitted stays distinct and there
  (`Reached.submittedOnce`).

A turn whose creation fails reports nothing of what it has created before. So the merge needs that no
creation fails in a tick: what a turn creates it does after it has listed job runs, thus on a platform
that is not offline, and no turn makes it so (`Turn.Sound.creating`). The tick of a single hand is the
one under the empty schedule (`tickUnder_nil`).
-/

namespace BomAssembly

open Platform (Took)
open Time (Instant)

namespace Turn

/-! ## What every step keeps -/

section Steps

variable {σ π : Type} [RequestStore σ] [JobPlatform π] {w : World σ π} {t : Turn} {ts : List Turn}

/-- **A step leaves the rest of a turn as it is.** -/
theorem finish_step (t : Turn) (w : World σ π) : (t.step w).2.finish (t.step w).1 = t.finish w := by
  obtain ⟨settings, now, r, stage⟩ := t
  cases stage with
  | waiting =>
      simp only [finish, remainder, step, move, begin, World.passOver, Pass.run]
      by_cases hended : r.isFinished = true
      · simp only [if_pos hended]
      · simp only [if_neg hended]
        cases Pass.plan settings r with
        | error e => rfl
        | ok plan =>
            cases plan with
            | rest after unmet => rfl
            | work next desired =>
                dsimp only [Pass.work]
                cases Pass.observe next w.platform with
                | error e => rfl
                | ok observed =>
                    dsimp only
                    generalize Pass.createMissing observed desired w.platform = attempt
                    obtain ⟨p, result⟩ := attempt
                    cases result <;> rfl
  | creating next desired observed rest created =>
      cases rest with
      | nil => simp only [finish, remainder, step, move, Pass.createMissing, List.append_nil]
      | cons d rest =>
          simp only [finish, remainder, step, move, Pass.createMissing]
          generalize Pass.createOne observed d w.platform = attempt
          obtain ⟨p, result⟩ := attempt
          cases result with
          | error e => rfl
          | ok names =>
              dsimp only
              generalize Pass.createMissing observed rest p = others
              obtain ⟨q, result⟩ := others
              cases result with
              | error e => rfl
              | ok more => simp only [Except.map, List.append_assoc]
  | passed result => rfl
  | ended result => rfl

/-- The empty schedule is that of turns one after the other. -/
theorem filterMap_finishAll (settings : RunSettings) (now : Instant) (rs : List Request)
    (w : World σ π) :
    (finishAll (rs.map fun r => { settings, now, request := r }) w).1 =
      (World.passOverAll settings now rs w).1 ∧
    (finishAll (rs.map fun r => { settings, now, request := r }) w).2.filterMap result? =
      (World.passOverAll settings now rs w).2 := by
  induction rs generalizing w with
  | nil => exact ⟨rfl, rfl⟩
  | cons r rs ih =>
      obtain ⟨hworld, hresults⟩ := ih (World.passOver settings now r w).1
      exact ⟨hworld, congrArg (_ :: ·) hresults⟩

/-- With its first step a turn has begun. -/
theorem begin_ne_waiting (t : Turn) (p : π) : t.begin p ≠ .waiting := by
  unfold begin
  split
  · simp
  · split
    · simp
    · simp
    · split <;> simp

theorem ended_of_mem_finishAll {u : Turn} (h : u ∈ (finishAll ts w).2) :
    ∃ result, u.stage = .ended result := by
  induction ts generalizing w with
  | nil => exact absurd h List.not_mem_nil
  | cons t ts ih =>
      rcases List.mem_cons.mp h with rfl | h
      · exact ⟨_, rfl⟩
      · exact ih h

variable {P : World σ π → Turn → Prop} {Q : World σ π → List Turn → Prop}

section Single

variable (hstep : ∀ w t, P w t → P (t.step w).1 (t.step w).2)

include hstep

/-- A turn that is creating looks after one job run after the other, and then its pass is over. -/
theorem finish_induct_of_creating {settings : RunSettings} {now : Instant} {r next : Request}
    {desired rest : List (Nat × JobRunSpec)} {observed : List (Nat × ObservedRun)}
    {created : List String}
    (h : P w ⟨settings, now, r, .creating next desired observed rest created⟩) :
    P (finish ⟨settings, now, r, .creating next desired observed rest created⟩ w).1
      (finish ⟨settings, now, r, .creating next desired observed rest created⟩ w).2 := by
  induction rest generalizing w created with
  | nil =>
      have hpassed := hstep _ _ h
      rw [← finish_step]
      exact hstep _ _ hpassed
  | cons d rest ih =>
      have hnext := hstep _ _ h
      rw [← finish_step]
      simp only [step, move] at hnext ⊢
      generalize Pass.createOne observed d w.platform = attempt at hnext ⊢
      obtain ⟨p, result⟩ := attempt
      cases result with
      | error e => exact hstep _ _ hnext
      | ok more => exact ih hnext

/-- **What every step keeps holds at the end of a turn.** -/
theorem finish_induct (h : P w t) : P (t.finish w).1 (t.finish w).2 := by
  obtain ⟨settings, now, r, stage⟩ := t
  cases stage with
  | waiting =>
      have hnext := hstep _ _ h
      rw [← finish_step]
      simp only [step, move] at hnext ⊢
      cases hstage : begin ⟨settings, now, r, .waiting⟩ w.platform with
      | waiting => exact absurd hstage (begin_ne_waiting _ _)
      | creating next desired observed rest created =>
          rw [hstage] at hnext
          exact finish_induct_of_creating hstep hnext
      | passed result =>
          rw [hstage] at hnext
          exact hstep _ _ hnext
      | ended result =>
          rw [hstage] at hnext
          exact hnext
  | creating next desired observed rest created => exact finish_induct_of_creating hstep h
  | passed result => exact hstep _ _ h
  | ended result => exact h

end Single

section Many

variable (hstep : ∀ w before t after, Q w (before ++ t :: after) →
  Q (t.step w).1 (before ++ (t.step w).2 :: after))

include hstep

/-- **What every step keeps holds under every schedule.** -/
theorem interleave_induct (schedule : List Nat) (h : Q w ts) :
    Q (interleave schedule w ts).1 (interleave schedule w ts).2 := by
  induction schedule generalizing w ts with
  | nil => exact h
  | cons i schedule ih =>
      rw [interleave]
      cases hget : ts[i]? with
      | none => exact ih h
      | some t =>
          obtain ⟨hi, rfl⟩ := List.getElem?_eq_some_iff.mp hget
          have hsplit : ts.take i ++ ts[i] :: ts.drop (i + 1) = ts := by
            rw [List.getElem_cons_drop, List.take_append_drop]
          have hnext := hstep w (ts.take i) ts[i] (ts.drop (i + 1)) (by rwa [hsplit])
          rw [← List.set_eq_take_cons_drop _ hi] at hnext
          exact ih hnext

/-- It holds when all turns have ended. -/
theorem finishAll_induct (before : List Turn) (h : Q w (before ++ ts)) :
    Q (finishAll ts w).1 (before ++ (finishAll ts w).2) := by
  induction ts generalizing w before with
  | nil => exact h
  | cons t ts ih =>
      have hfinish : Q (t.finish w).1 (before ++ (t.finish w).2 :: ts) :=
        finish_induct (P := fun w t => Q w (before ++ t :: ts)) (fun w t => hstep w before t ts) h
      rw [List.append_cons] at hfinish
      have hrest := ih _ hfinish
      rw [← List.append_cons] at hrest
      exact hrest

end Many

end Steps

/-! ## What a step takes -/

/-- The names that a turn has noted as created. -/
def noted (t : Turn) : List String :=
  match t.stage with
  | .waiting => []
  | .creating _ _ _ _ created => created
  | .passed result => Pass.createdBy result
  | .ended result => World.reported result

/-- What is known of a turn while it is under way and nothing but turns happens. -/
structure Sound (w : World Store Platform) (t : Turn) : Prop where
  stored : t.request.name ∈ w.store.names
  creating : ∀ next desired observed rest created,
    t.stage = .creating next desired observed rest created →
    next.isFinished = false ∧ next.name = t.request.name ∧ w.platform.offline = false
  passed : ∀ after report, t.stage = .passed (.ok (after, report)) → after.name = t.request.name

section Memory

variable {v w : World Store Platform} {t : Turn} {p : Platform} {specs : List JobRunSpec}

theorem names_step (t : Turn) (w : World Store Platform) :
    (t.step w).1.store.names = w.store.names := by
  obtain ⟨settings, now, r, stage⟩ := t
  cases stage with
  | waiting => rfl
  | creating next desired observed rest created =>
      cases rest with
      | nil => rfl
      | cons d rest =>
          simp only [step, move]
          generalize Pass.createOne observed d w.platform = attempt
          obtain ⟨p, result⟩ := attempt
          cases result <;> rfl
  | passed result => exact World.names_save result w
  | ended result => rfl

/-- The turns of others see to it that what is known stays so. -/
theorem Sound.of_took (h : t.Sound w) (hnames : v.store.names = w.store.names)
    (htook : Took w.platform specs v.platform) : t.Sound v where
  stored := by
    rw [hnames]
    exact h.stored
  creating next desired observed rest created hstage := by
    obtain ⟨hlive, hname, honline⟩ := h.creating _ _ _ _ _ hstage
    exact ⟨hlive, hname, htook.offline.trans honline⟩
  passed := h.passed

theorem Sound.of_passed {result : Except Failure (Request × Pass.Report)}
    (hstored : t.request.name ∈ w.store.names)
    (hname : ∀ after report, result = .ok (after, report) → after.name = t.request.name) :
    Sound w { t with stage := .passed result } where
  stored := hstored
  creating _ _ _ _ _ hstage := Stage.noConfusion hstage
  passed after report hstage := hname after report (Stage.passed.inj hstage)

theorem Sound.of_ended {result : Except Failure (Option Pass.Report)}
    (hstored : t.request.name ∈ w.store.names) : Sound w { t with stage := .ended result } :=
  ⟨hstored, fun _ _ _ _ _ hstage => Stage.noConfusion hstage,
    fun _ _ hstage => Stage.noConfusion hstage⟩

/-- A turn that creates goes on doing so. -/
theorem Sound.of_creating {next : Request} {desired rest more : List (Nat × JobRunSpec)}
    {observed : List (Nat × ObservedRun)} {created names : List String} (h : t.Sound w)
    (hstage : t.stage = .creating next desired observed rest created) :
    Sound w { t with stage := .creating next desired observed more names } where
  stored := h.stored
  creating _ _ _ _ _ hother := by
    obtain ⟨rfl, -⟩ := Stage.creating.inj hother
    exact h.creating _ _ _ _ _ hstage
  passed _ _ hother := Stage.noConfusion hother

/-- With its first step a turn has come to a sound stage, and nothing is created yet. -/
theorem sound_begin (hstored : t.request.name ∈ w.store.names) :
    Sound w { t with stage := t.begin w.platform } ∧
      noted { t with stage := t.begin w.platform } = [] := by
  unfold begin
  split
  · refine ⟨.of_passed hstored fun after report h => ?_, rfl⟩
    rw [(Prod.mk.inj (Except.ok.inj h)).1]
  · next hended =>
    have hlive : t.request.isFinished = false := by simpa using hended
    cases hplan : Pass.plan t.settings t.request with
    | error e => exact ⟨.of_passed hstored fun _ _ h => absurd h (by simp), rfl⟩
    | ok plan =>
        rcases Pass.plan_cases hlive hplan with ⟨after, unmet, rfl, hrests⟩ | ⟨desired, rfl, -⟩
        · refine ⟨.of_passed hstored fun after' report h => ?_, rfl⟩
          rw [← (Prod.mk.inj (Except.ok.inj h)).1]
          exact hrests.same.name
        · dsimp only
          cases hobserve : Pass.observe (Pass.opened t.request) w.platform with
          | error e => exact ⟨.of_passed hstored fun _ _ h => absurd h (by simp), rfl⟩
          | ok observed =>
              refine ⟨⟨hstored, ?_, fun _ _ hstage => Stage.noConfusion hstage⟩, rfl⟩
              intro next desired' observed' rest created hstage
              obtain ⟨rfl, -⟩ := Stage.creating.inj hstage
              exact ⟨Pass.isFinished_opened hlive, Pass.name_opened _,
                Pass.online_of_observe hobserve⟩

/-- **A step takes at most a job run**, whatever has happened before. In a turn that is sound it notes
what it takes, and the turn is sound after it. -/
theorem exists_took_step (t : Turn) (w : World Store Platform) :
    ∃ specs, Took w.platform specs (t.step w).1.platform ∧ (t.Sound w →
      (t.step w).2.Sound (t.step w).1 ∧
      (t.step w).2.noted = t.noted ++ specs.map JobRunSpec.name) := by
  obtain ⟨settings, now, r, stage⟩ := t
  cases stage with
  | waiting =>
      refine ⟨[], .none _, fun h => ?_⟩
      obtain ⟨hsound, hnoted⟩ := sound_begin h.stored
      exact ⟨hsound, hnoted⟩
  | creating next desired observed rest created =>
      cases rest with
      | nil =>
          refine ⟨[], .none _, fun h => ?_⟩
          obtain ⟨hlive, hname, -⟩ := h.creating _ _ _ _ _ rfl
          simp only [Turn.step, move]
          rw [Pass.finish_eq hlive]
          refine ⟨.of_passed h.stored fun after report hresult => ?_, (List.append_nil _).symm⟩
          rw [← (Prod.mk.inj (Except.ok.inj hresult)).1]
          exact (Pass.sameRequest_concluded _ _ next).name.trans hname
      | cons d rest =>
          simp only [Turn.step, move]
          rcases Pass.createOne_cases observed d w.platform with h | ⟨hfree, h⟩ | ⟨hoffline, h⟩
          · rw [h]
            exact ⟨[], .none _, fun hsound => ⟨hsound.of_creating rfl, rfl⟩⟩
          · rw [h]
            have htook : Took w.platform [d.2] (w.platform.take d.2) := .more hfree (.none _)
            exact ⟨[d.2], htook, fun hsound => ⟨(hsound.of_creating rfl).of_took rfl htook, rfl⟩⟩
          · -- an outage has not set in since the job runs were listed
            rw [h]
            refine ⟨[], .none _, fun hsound => ?_⟩
            obtain ⟨-, -, honline⟩ := hsound.creating _ _ _ _ _ rfl
            exact absurd (honline.symm.trans hoffline) (by decide)
  | passed result =>
      refine ⟨[], ?_, fun h => ⟨.of_ended ?_, ?_⟩⟩
      · simp only [Turn.step, move]
        rw [World.save_fst]
        exact .none _
      · rw [names_step]
        exact h.stored
      · have hsaved : (World.save result w).2 = result.map fun done => some done.2 := by
          refine World.save_snd fun after report hresult => ?_
          rw [h.passed after report (congrArg Stage.passed hresult)]
          exact h.stored
        simp only [Turn.step, move, noted]
        rw [hsaved, List.map_nil, List.append_nil]
        cases result <;> rfl
  | ended result =>
      exact ⟨[], .none _, fun h => ⟨h, (List.append_nil _).symm⟩⟩

end Memory

/-! ## The turns of a tick -/

/-- What was taken since the platform was `p` is what the turns have noted, each in order. -/
structure Tally (p : Platform) (w : World Store Platform) (ts : List Turn) : Prop where
  took : ∃ specs, Took p specs w.platform ∧
    (specs.map JobRunSpec.name).Perm (ts.flatMap noted) ∧
    ∀ t ∈ ts, t.noted.Sublist (specs.map JobRunSpec.name)
  sound : ∀ t ∈ ts, t.Sound w

theorem Tally.step {p : Platform} {w : World Store Platform} {before after : List Turn} {t : Turn}
    (h : Tally p w (before ++ t :: after)) :
    Tally p (t.step w).1 (before ++ (t.step w).2 :: after) := by
  obtain ⟨specs, htook, hperm, hsub⟩ := h.took
  obtain ⟨more, hmore, hstep⟩ := t.exists_took_step w
  obtain ⟨hsound, hnoted⟩ := hstep (h.sound t (by simp))
  -- the other turns are as they were
  have hothers : ∀ u ∈ before ++ (t.step w).2 :: after,
      u = (t.step w).2 ∨ u ∈ before ++ t :: after := by
    intro u hu
    rcases List.mem_append.mp hu with hu | hu
    · exact .inr (List.mem_append_left _ hu)
    · rcases List.mem_cons.mp hu with rfl | hu
      · exact .inl rfl
      · exact .inr (List.mem_append_right _ (List.mem_cons_of_mem _ hu))
  refine ⟨⟨specs ++ more, htook.trans hmore, ?_, fun u hu => ?_⟩, fun u hu => ?_⟩
  · rw [List.flatMap_append, List.flatMap_cons] at hperm
    rw [List.flatMap_append, List.flatMap_cons, hnoted, List.map_append]
    refine (hperm.append_right _).trans ?_
    rw [List.append_assoc, List.append_assoc, List.append_assoc]
    exact (List.perm_append_comm.append_left _).append_left _
  · rw [List.map_append]
    rcases hothers u hu with rfl | hu
    · rw [hnoted]
      exact (hsub t (by simp)).append (List.Sublist.refl _)
    · exact (hsub u hu).trans (List.sublist_append_left _ _)
  · rcases hothers u hu with rfl | hu
    · exact hsound
    · exact (h.sound u hu).of_took (names_step t w) hmore

end Turn

namespace World

open Turn (Tally)

variable {w : World Store Platform} {ts : List Turn}

theorem tally_turnsOf (settings : RunSettings) (now : Instant) (w : World Store Platform) :
    Tally w.platform w (turnsOf settings now w.store.records) := by
  have hwaiting : ∀ t ∈ turnsOf settings now w.store.records,
      t.stage = .waiting ∧ t.request.name ∈ w.store.names := by
    intro t ht
    obtain ⟨r, hr, rfl⟩ := List.mem_map.mp ht
    exact ⟨rfl, name_mem_of_live hr⟩
  have hnoted : ∀ t ∈ turnsOf settings now w.store.records, t.noted = [] := by
    intro t ht
    rw [Turn.noted, (hwaiting t ht).1]
  refine ⟨⟨[], .none _, ?_, fun t ht => ?_⟩, fun t ht => ?_⟩
  · rw [List.flatMap_eq_nil_iff.mpr hnoted]
    exact .nil
  · rw [hnoted t ht]
    exact List.nil_sublist _
  · obtain ⟨hstage, hname⟩ := hwaiting t ht
    refine ⟨hname, fun _ _ _ _ _ h => ?_, fun _ _ h => ?_⟩
    · exact Stage.noConfusion (hstage.symm.trans h)
    · exact Stage.noConfusion (hstage.symm.trans h)

/-- **A tick under a schedule ends all its turns**, and it keeps what every step keeps. -/
theorem tickUnder_induct {Q : World Store Platform → List Turn → Prop}
    (hstep : ∀ w before t after, Q w (before ++ t :: after) →
      Q (t.step w).1 (before ++ (t.step w).2 :: after))
    (schedule : List Nat) (settings : RunSettings) (now : Instant)
    (h : Q w (turnsOf settings now w.store.records)) :
    ∃ turns, Q (tickUnder schedule settings now w).1 turns ∧
      (∀ t ∈ turns, ∃ result, t.stage = .ended result) ∧
      (tickUnder schedule settings now w).2 = .ok ⟨reportsOf (turns.filterMap Turn.result?),
        unreadable w.store.records ++ failuresOf (turns.filterMap Turn.result?),
        ended w.store.records⟩ := by
  have hrun := Turn.interleave_induct hstep schedule h
  have hends := Turn.finishAll_induct hstep [] hrun
  exact ⟨_, hends, fun t ht => Turn.ended_of_mem_finishAll ht, rfl⟩

/-! ## What a tick reports -/

/-- The names that the result of a tick reports as created, report by report. -/
def tickCreated : Except Failure Tick → List (List String)
  | .ok t => t.reports.map Pass.Report.created
  | .error _ => []

/-- What turns that have ended report is what they have noted. -/
theorem reports_of_ended (h : ∀ t ∈ ts, ∃ result, t.stage = .ended result) :
    (reportsOf (ts.filterMap Turn.result?)).flatMap Pass.Report.created = ts.flatMap Turn.noted ∧
    ∀ report ∈ reportsOf (ts.filterMap Turn.result?), ∃ t ∈ ts, t.noted = report.created := by
  constructor
  · rw [flatMap_reportsOf]
    induction ts with
    | nil => rfl
    | cons t ts ih =>
        obtain ⟨result, hresult⟩ := h t List.mem_cons_self
        have hsome : t.result? = some (t.request.name, result) := by rw [Turn.result?, hresult]
        have hnoted : t.noted = reported result := by rw [Turn.noted, hresult]
        rw [List.filterMap_cons_some hsome, List.flatMap_cons, List.flatMap_cons, hnoted,
          ih fun u hu => h u (List.mem_cons_of_mem t hu)]
  · intro report hreport
    obtain ⟨⟨name, result⟩, hresult, hreport⟩ := List.mem_filterMap.mp hreport
    obtain ⟨t, ht, hresult⟩ := List.mem_filterMap.mp hresult
    obtain ⟨result', hstage⟩ := h t ht
    rw [Turn.result?, hstage] at hresult
    obtain ⟨-, rfl⟩ := Prod.mk.inj (Option.some.inj hresult)
    refine ⟨t, ht, ?_⟩
    rw [Turn.noted, hstage]
    cases result' with
    | error e => exact absurd hreport (by simp)
    | ok reported =>
        obtain rfl : reported = some report := hreport
        rfl

/-- The platform has more job runs, submitted under the names of these lists, the names of each list in
its order; those it had are as they were. -/
structure Merged (p q : Platform) (lists : List (List String)) : Prop where
  kept : ∀ name run, p.runs.get? name = some run → q.runs.get? name = some run
  submitted : ∃ specs, q.submitted = p.submitted ++ specs ∧
    (specs.map JobRunSpec.name).Perm lists.flatten ∧
    ∀ names ∈ lists, names.Sublist (specs.map JobRunSpec.name)

/-- **Under every schedule a tick takes what its reports name.** -/
theorem tickUnder_merged (schedule : List Nat) (settings : RunSettings) (now : Instant)
    (w : World Store Platform) :
    Merged w.platform (tickUnder schedule settings now w).1.platform
      (tickCreated (tickUnder schedule settings now w).2) := by
  obtain ⟨turns, htally, hended, hresult⟩ :=
    tickUnder_induct (fun w before t after => Tally.step) schedule settings now
      (tally_turnsOf settings now w)
  obtain ⟨specs, htook, hperm, hsub⟩ := htally.took
  obtain ⟨hflat, hfound⟩ := reports_of_ended hended
  rw [hresult, tickCreated]
  refine ⟨fun _ _ hrun => htook.get? hrun, specs, htook.submitted, ?_, fun names hnames => ?_⟩
  · rw [← List.flatMap_def, hflat]
    exact hperm
  · obtain ⟨report, hreport, rfl⟩ := List.mem_map.mp hnames
    obtain ⟨t, ht, hnoted⟩ := hfound report hreport
    rw [← hnoted]
    exact hsub t ht

/-- The tick of a single hand is that under the empty schedule. -/
theorem tickUnder_nil {σ π : Type} [RequestStore σ] [JobPlatform π] (settings : RunSettings)
    (now : Instant) (w : World σ π) : tickUnder [] settings now w = tick settings now w := by
  unfold tickUnder tick
  cases RequestStore.list w.store with
  | error e => rfl
  | ok records =>
      obtain ⟨hworld, hresults⟩ := Turn.filterMap_finishAll settings now (live records) w
      simp only [Turn.interleave, turnsOf]
      rw [hworld, hresults]

/-! ## Whatever happens -/

theorem Reached.submittedOnce (h : Reached w ts) : w.platform.SubmittedOnce := by
  induction h with
  | init => exact submittedOnce_init
  | event _ e ih => exact e.submittedOnce ih
  | call _ _ _ _ _ ih => exact ih
  | @step w before after t _ ih =>
      obtain ⟨specs, htook, -⟩ := t.exists_took_step w
      exact htook.submittedOnce ih

theorem Reached.calls (h : Reached w ts) (settings : RunSettings) (now : Instant)
    {rs : List Request} (hrs : ∀ r ∈ rs, ∃ record ∈ w.store.records, Request.ofRecord record = .ok r) :
    Reached w (ts ++ rs.map fun r => { settings, now, request := r }) := by
  induction rs generalizing ts with
  | nil => simpa using h
  | cons r rs ih =>
      obtain ⟨record, hrecord, hread⟩ := hrs r List.mem_cons_self
      have hcalled := ih (h.call settings now hrecord hread) fun r' hr' =>
        hrs r' (List.mem_cons_of_mem r hr')
      rw [← List.append_cons] at hcalled
      exact hcalled

/-- What a tick leads to under a schedule is reached. -/
theorem Reached.tickUnder (h : Reached w ts) (schedule : List Nat) (settings : RunSettings)
    (now : Instant) : ∃ more, Reached (World.tickUnder schedule settings now w).1 (ts ++ more) := by
  have hcalls : Reached w (ts ++ turnsOf settings now w.store.records) := by
    refine h.calls settings now fun r hr => ?_
    obtain ⟨record, hrecord, hread, -⟩ := mem_live_iff.mp hr
    exact ⟨record, hrecord, hread⟩
  obtain ⟨turns, hreached, -⟩ := tickUnder_induct (Q := fun v us => Reached v (ts ++ us))
    (fun v before t after hv => by
      rw [← List.append_assoc] at hv ⊢
      exact hv.step) schedule settings now hcalls
  exact ⟨turns, hreached⟩

/-- **No job run is created twice.** In every world that is reached, with any turns under way, the names
that were submitted are distinct, and each is that of a job run that is there. From there a tick leads
on to what is reached as well, under every schedule: it takes what its reports name and does nothing
else to the platform. In a single hand it takes them in the order of its reports, and so does the turn
of a name. Whatever else happens meanwhile, no step of a turn does anything but take job runs. -/
theorem submitted_once (h : Reached w ts) :
    w.platform.SubmittedOnce ∧
    (∀ schedule settings now,
      (∃ more, Reached (tickUnder schedule settings now w).1 (ts ++ more)) ∧
      Merged w.platform (tickUnder schedule settings now w).1.platform
        (tickCreated (tickUnder schedule settings now w).2)) ∧
    (∀ settings now, Grown w.platform (tick settings now w).1.platform
      (tickReported (tick settings now w).2)) ∧
    (∀ settings now name, Grown w.platform (passOverNamed settings now name w).1.platform
      (reported (passOverNamed settings now name w).2)) ∧
    ∀ t : Turn, ∃ created, Grown w.platform (t.step w).1.platform created := by
  refine ⟨h.submittedOnce, fun schedule settings now => ?_, fun settings now => ?_,
    fun settings now name => ?_, fun t => ?_⟩
  · exact ⟨h.tickUnder schedule settings now, tickUnder_merged schedule settings now w⟩
  · exact (tick_served settings now w).grown
  · exact (passOverNamed_served settings now name w).grown
  · obtain ⟨specs, htook, -⟩ := t.exists_took_step w
    exact ⟨_, fun _ _ hrun => htook.get? hrun, specs, htook.submitted, rfl⟩

/-- Two requests for builds are stored. -/
def both : World Store Platform := Event.apply (.create (oneProductRequest "s").toRecord) created

/-- Their turns under way: each has listed the job runs there are, and the first has created its own. -/
def underWay : World Store Platform × List Turn :=
  Turn.interleave [0, 1, 0] both
    [{ settings := {}, now := default, request := oneProductRequest "r" },
      { settings := {}, now := default, request := oneProductRequest "s" }]

/-- Then the platform is lost. -/
def interrupted : World Store Platform := Event.apply (.outage true) underWay.1

theorem reached_interrupted : Reached interrupted underWay.2 := by
  have hboth : Reached both [] := .event (.event .init _) _
  have hstored : ∀ r ∈ [oneProductRequest "r", oneProductRequest "s"],
      ∃ record ∈ both.store.records, Request.ofRecord record = .ok r := by
    have hrecords : both.store.records =
        [(oneProductRequest "r").toRecord, (oneProductRequest "s").toRecord] := rfl
    intro r hr
    refine ⟨r.toRecord, hrecords ▸ List.mem_map_of_mem (f := Request.toRecord) hr, ?_⟩
    rcases List.mem_pair.mp hr with rfl | rfl
    · exact (storable_oneProductRequest "r").ofRecord_toRecord
    · exact (storable_oneProductRequest "s").ofRecord_toRecord
  exact (Turn.interleave_induct (Q := Reached) (fun _ _ _ _ h => h.step) [0, 1, 0]
    (hboth.calls {} default hstored)).event _

theorem submitted_once_interrupted :
    Reached interrupted underWay.2 ∧
    interrupted.platform.submitted.map JobRunSpec.name = ["r-1-generate-0"] ∧
    interrupted.platform.SubmittedOnce ∧
    (∀ schedule settings now,
      (∃ more, Reached (tickUnder schedule settings now interrupted).1 (underWay.2 ++ more)) ∧
      Merged interrupted.platform (tickUnder schedule settings now interrupted).1.platform
        (tickCreated (tickUnder schedule settings now interrupted).2)) ∧
    (∀ settings now, Grown interrupted.platform (tick settings now interrupted).1.platform
      (tickReported (tick settings now interrupted).2)) ∧
    (∀ settings now name,
      Grown interrupted.platform (passOverNamed settings now name interrupted).1.platform
        (reported (passOverNamed settings now name interrupted).2)) ∧
    ∀ t : Turn, ∃ created, Grown interrupted.platform (t.step interrupted).1.platform created :=
  ⟨reached_interrupted, by decide, submitted_once reached_interrupted⟩

end World

end BomAssembly
