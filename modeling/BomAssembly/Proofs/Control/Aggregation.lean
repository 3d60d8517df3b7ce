import BomAssembly.Proofs.Control.Standing
import BomAssembly.Proofs.JobRun.Desired
import BomAssembly.Proofs.JobRun.Observed

/-!
# What comes of the job runs of a request

A pass over a live request whose configuration fits and whose condition is met creates the job runs
that are missing, and the request comes to what the observed ones say: failed if any has failed, a
success once all have succeeded, generating otherwise. Runs observed beyond the last position play no
part, nor does anything else on the platform.
-/

namespace BomAssembly.Pass

open Platform (Took)
open Time (Instant)

/-! ## Creating what is missing -/

/-- The positions for which no job run was observed, in order. -/
def missingPositions (n : Nat) (observed : List (Nat × ObservedRun)) : List Nat :=
  (List.range n).filter fun i => (observed.lookup i).isNone

section Missing

variable {p : Platform} {r : Request} {observed : List (Nat × ObservedRun)}

/-- Where no job run is observed for a position, its name is free. -/
theorem free_of_observe (h : observe r p = .ok observed) {i : Nat} (hi : i < Nat.pow 2 32)
    (hnone : observed.lookup i = none) :
    p.runs.contains (JobRun.nameOf r.name (Phase.generating r.kind) i) = false := by
  have honline := online_of_observe h
  rw [observe_online honline] at h
  rw [Text.StringMap.contains_eq_false_iff]
  cases hget : p.runs.get? (JobRun.nameOf r.name (Phase.generating r.kind) i) with
  | none => rfl
  | some run =>
      -- the run would be listed, since it is kept under its own name
      have hname : run.name = JobRun.nameOf r.name (Phase.generating r.kind) i :=
        p.keyed.name_of_get? hget
      have hmem : run ∈ p.allRuns := List.mem_map_of_mem (Text.StringMap.get?_eq_some_iff.mp hget)
      have hstart : Text.startsWith run.name
          (JobRun.start r.name (Phase.generating r.kind)) = true := by
        rw [hname]
        exact JobRun.startsWith_nameOf _ _ i
      have hlisted : run ∈ p.allRuns.filter fun run =>
          Text.startsWith run.name (JobRun.start r.name (Phase.generating r.kind)) :=
        List.mem_filter.mpr ⟨hmem, hstart⟩
      have hobserved := JobRun.observed_of_mem hi hlisted hname
      rw [← Except.ok.inj h] at hnone
      exact absurd hnone hobserved

/-- **An online platform takes what is missing**, if the names are free and distinct. -/
theorem createMissing_of_free {desired : List (Nat × JobRunSpec)} (h : p.offline = false)
    (hfree : ∀ d ∈ desired, observed.lookup d.1 = none → p.runs.contains d.2.name = false)
    (hnodup : (desired.map fun d => d.2.name).Nodup) :
    ∃ q, Took p ((desired.filter fun d => (observed.lookup d.1).isNone).map Prod.snd) q ∧
      createMissing observed desired p = (q, .ok
        ((desired.filter fun d => (observed.lookup d.1).isNone).map fun d => d.2.name)) := by
  induction desired generalizing p with
  | nil => exact ⟨p, .none p, rfl⟩
  | cons d rest ih =>
      obtain ⟨hnew, hrest⟩ := List.nodup_cons.mp hnodup
      have hfreeRest := fun d hd => hfree d (List.mem_cons_of_mem _ hd)
      rw [createMissing]
      cases hlookup : observed.lookup d.1 with
      | some run =>
          obtain ⟨q, htook, hcreate⟩ := ih h hfreeRest hrest
          rw [List.filter_cons_of_neg (by simp [hlookup])]
          refine ⟨q, htook, ?_⟩
          rw [createOne_of_some hlookup]
          dsimp only
          rw [hcreate]
          rfl
      | none =>
          have hspec : p.runs.contains d.2.name = false := hfree d List.mem_cons_self hlookup
          have hfreeTake : ∀ e ∈ rest, observed.lookup e.1 = none →
              (p.take d.2).runs.contains e.2.name = false := by
            intro e he hnone
            have hne : e.2.name ≠ d.2.name := by
              intro heq
              exact hnew (List.mem_map.mpr ⟨e, he, heq⟩)
            have hold := hfreeRest e he hnone
            rw [Text.StringMap.contains_eq_false_iff] at hold ⊢
            exact (Text.StringMap.get?_insert_of_ne hne).trans hold
          -- taking one leaves the other names free, since they are distinct
          obtain ⟨q, htook, hcreate⟩ := @ih (p.take d.2) h hfreeTake hrest
          rw [List.filter_cons_of_pos (by simp [hlookup])]
          refine ⟨q, .more hspec htook, ?_⟩
          rw [createOne_of_none hlookup h, if_neg (by rw [hspec]; decide)]
          dsimp only
          rw [hcreate]
          rfl

end Missing

/-! ## A request whose job runs are looked at -/

/-- A live request with a fitting configuration of so many positions, whose condition is met, on a
platform that is online and shows these job runs for it. -/
structure Gathered (r : Request) (p : Platform) (c : Config) (n : Nat)
    (observed : List (Nat × ObservedRun)) : Prop where
  live : r.isFinished = false
  config : r.config = .valid c
  positions : JobRun.count r.kind c = .ok n
  met : (Condition.ofKind r.kind).IsMet r
  observed : observe r p = .ok observed

namespace Gathered

variable {settings : RunSettings} {r : Request} {p : Platform} {c : Config} {n : Nat}
  {observed : List (Nat × ObservedRun)}

/-- The condition that is met speaks of the configuration and the positions at hand. -/
theorem ready (h : Gathered r p c n observed) : c.kind = r.kind ∧ 0 < n ∧ ∀ i < n, Ready c i := by
  obtain ⟨c', n', hconfig, hkind, hpositions, hpos, hready⟩ := ready_of_isMet h.met
  obtain rfl := ConfigState.valid.inj (h.config.symm.trans hconfig)
  obtain rfl := Except.ok.inj (h.positions.symm.trans hpositions)
  exact ⟨hkind, hpos, hready⟩

/-- A condition that is met leaves no configuration without positions. -/
theorem pos (h : Gathered r p c n observed) : 0 < n := h.ready.2.1

theorem plan_eq (h : Gathered r p c n observed) : plan settings r = workOf settings (opened r) := by
  have hvalid : ∀ raw error, r.config ≠ .invalid raw error := by
    intro raw error heq
    exact absurd (h.config.symm.trans heq) (by simp)
  rw [plan_of_valid hvalid, if_pos ((isMet_opened _ r).mpr h.met)]

theorem config_opened (h : Gathered r p c n observed) : (opened r).config? = some c :=
  config?_opened h.config

theorem positions_opened (h : Gathered r p c n observed) :
    JobRun.count (opened r).kind c = .ok n := by
  rw [kind_opened]
  exact h.positions

theorem observed_opened (h : Gathered r p c n observed) : observe (opened r) p = .ok observed := by
  rw [← h.observed]
  unfold observe
  rw [name_opened, kind_opened]

/-- **More positions than can be counted** end the request, with nothing created. -/
theorem run_of_many (h : Gathered r p c n observed) (hmany : Nat.pow 2 32 ≤ n) (now : Instant) :
    run settings now r p = (p, .ok
      ((opened r).failed .configInvalid "too many dependent resources",
        .quiet r ((opened r).failed .configInvalid "too many dependent resources") none)) := by
  have hplan : plan settings r = .ok (.rest
      ((opened r).failed .configInvalid "too many dependent resources") none) := by
    rw [h.plan_eq, workOf, JobRun.allDesired_of_many h.config_opened h.positions_opened hmany]
    exact refused_of_live (isFinished_opened h.live) _
  rw [run, h.live, hplan]
  rfl

/-- A time limit that cannot be read makes the pass fail. -/
theorem run_of_error (h : Gathered r p c n observed) (hfit : n < Nat.pow 2 32) (now : Instant)
    {e : Failure} (ht : Duration.parse settings.timeout = .error e) :
    run settings now r p = (p, .error e) := by
  -- the failure is not one that ends the request
  obtain ⟨text, rfl⟩ : ∃ text, e = .validation text := by
    unfold Duration.parse at ht
    dsimp only at ht
    split at ht
    · exact absurd ht (by simp)
    · exact ⟨_, (Except.error.inj ht).symm⟩
  have hplan : plan settings r = .error (.validation text) := by
    rw [h.plan_eq, workOf,
      JobRun.allDesired_of_error h.config_opened h.positions_opened hfit h.pos ht]
  rw [run, h.live, hplan]
  rfl

/-- What is missing is created, in order, and nothing of it was there before. -/
theorem createMissing_eq (h : Gathered r p c n observed) (hfit : n < Nat.pow 2 32)
    (settings : RunSettings) (timeout : Nat) :
    ∃ q, Took p ((missingPositions n observed).map (JobRun.specAt r.kind c r settings timeout)) q ∧
      createMissing observed
        ((List.range n).map fun i => (i, JobRun.specAt r.kind c r settings timeout i)) p =
        (q, .ok ((missingPositions n observed).map
          (JobRun.nameOf r.name (Phase.generating r.kind)))) := by
  have hfree : ∀ d ∈ (List.range n).map fun i => (i, JobRun.specAt r.kind c r settings timeout i),
      observed.lookup d.1 = none → p.runs.contains d.2.name = false := by
    intro d hd hnone
    obtain ⟨i, hi, rfl⟩ := List.mem_map.mp hd
    exact free_of_observe h.observed (Nat.lt_trans (List.mem_range.mp hi) hfit) hnone
  have hnodup : (((List.range n).map fun i =>
      (i, JobRun.specAt r.kind c r settings timeout i)).map fun d => d.2.name).Nodup := by
    rw [List.map_map]
    refine List.pairwise_map.mpr (List.nodup_range.imp ?_)
    intro i j hne heq
    exact hne (JobRun.nameOf_inj heq).2.2
  obtain ⟨q, htook, hcreate⟩ :=
    createMissing_of_free (online_of_observe h.observed) hfree hnodup
  rw [List.filter_map, List.map_map] at htook hcreate
  exact ⟨q, htook, hcreate⟩

/-- **What a pass does**, told from the job runs observed for the positions alone. -/
theorem run_eq (h : Gathered r p c n observed) (hfit : n < Nat.pow 2 32) (now : Instant)
    {timeout : Nat} (ht : Duration.parse settings.timeout = .ok timeout) :
    ∃ q, Took p ((missingPositions n observed).map (JobRun.specAt r.kind c r settings timeout)) q ∧
      run settings now r p = (q, .ok (
        concluded settings (standingsAt now observed (List.range n)) (r.inStatus .generating),
        { Report.quiet r (concluded settings (standingsAt now observed (List.range n))
            (r.inStatus .generating)) none with
          created := (missingPositions n observed).map
            (JobRun.nameOf r.name (Phase.generating r.kind))
          inProgress := waiting (standingsAt now observed (List.range n)) })) := by
  have hspec : JobRun.specAt r.kind c (opened r) settings timeout =
      JobRun.specAt r.kind c r settings timeout := by
    obtain ⟨s, hs⟩ := opened_eq r
    rw [hs]
    exact funext fun i => JobRun.specAt_inStatus _ _ _ _ _ _ _
  have hdesired := JobRun.allDesired_eq h.config_opened h.positions_opened hfit ht
  rw [kind_opened, hspec] at hdesired
  obtain ⟨q, htook, hcreate⟩ := h.createMissing_eq hfit settings timeout
  refine ⟨q, htook, ?_⟩
  have hplan : plan settings r = .ok (.work (opened r)
      ((List.range n).map fun i => (i, JobRun.specAt r.kind c r settings timeout i))) := by
    rw [h.plan_eq, workOf, kind_opened, hdesired]
  have hpositions : ((List.range n).map fun i =>
      (i, JobRun.specAt r.kind c r settings timeout i)).map Prod.fst = List.range n := by
    rw [List.map_map]
    exact List.map_id _
  rw [run, h.live, hplan]
  simp only [Bool.false_eq_true, if_false]
  rw [work_of_created (isFinished_opened h.live) h.observed_opened hcreate, worked,
    standings_eq hpositions, inStatus_opened]

end Gathered

/-! ## What comes of it -/

section Aggregation

variable {settings : RunSettings} {now : Instant} {r after : Request} {p q : Platform} {c : Config}
  {n : Nat} {observed observed' : List (Nat × ObservedRun)} {report : Report}

/-- What was observed beyond the last position plays no part. -/
theorem standingsAt_congr (h : ∀ i < n, observed'.lookup i = observed.lookup i) :
    standingsAt now observed' (List.range n) = standingsAt now observed (List.range n) := by
  refine List.map_congr_left fun i hi => ?_
  rw [h i (List.mem_range.mp hi)]

theorem missingPositions_congr (h : ∀ i < n, observed'.lookup i = observed.lookup i) :
    missingPositions n observed' = missingPositions n observed := by
  refine List.filter_congr fun i hi => ?_
  rw [h i (List.mem_range.mp hi)]

/-- What a pass has done to platform and request, and what it reports. -/
structure Aggregated (settings : RunSettings) (now : Instant) (r : Request) (p : Platform)
    (c : Config) (n : Nat) (observed : List (Nat × ObservedRun)) (q : Platform) (after : Request)
    (report : Report) : Prop where
  /-- The job runs for the positions that were not observed were created, in order. -/
  took : ∃ timeout, Duration.parse settings.timeout = .ok timeout ∧
    Took p ((missingPositions n observed).map (JobRun.specAt r.kind c r settings timeout)) q
  created : report.created =
    (missingPositions n observed).map (JobRun.nameOf r.name (Phase.generating r.kind))
  failed_iff : after.status = .failed ↔ ∃ i < n, FailedAt now observed i
  success_iff : after.status = .success ↔ ∀ i < n, SucceededAt observed i
  generating_iff : after.status = .generating ↔
    (¬ ∃ i < n, FailedAt now observed i) ∧ ¬ ∀ i < n, SucceededAt observed i
  /-- The first job run that failed says how the request failed; all of them are listed. -/
  onFailure : after.status = .failed → ∃ i more run result message,
    failedPositions now n observed = i :: more ∧ observed.lookup i = some run ∧
    FailsAs now run result message ∧ result ≠ .success ∧ after.result = some result ∧
    after.reason =
      some s!"Generation failed for index {positionsText (i :: more)}: {message}"
  onSuccess : after.status = .success → after.result = some .success ∧
    after.output = some (FilePath.join settings.outputRoot r.name)
  /-- Another platform leads to the same if it shows the same for the positions. -/
  only : ∀ (p' : Platform) (observed' : List (Nat × ObservedRun)), observe r p' = .ok observed' →
    (∀ i < n, observed'.lookup i = observed.lookup i) →
    (run settings now r p').2 = .ok (after, report)

theorem aggregated_of_run (h : Gathered r p c n observed) (hfit : n < Nat.pow 2 32)
    (hrun : run settings now r p = (q, .ok (after, report))) :
    Aggregated settings now r p c n observed q after report := by
  cases ht : Duration.parse settings.timeout with
  | error e =>
      rw [h.run_of_error hfit now ht] at hrun
      exact absurd hrun (by simp)
  | ok timeout =>
      obtain ⟨q', htook, heq⟩ := h.run_eq hfit now ht
      obtain ⟨rfl, hdone⟩ := Prod.mk.inj (hrun.symm.trans heq)
      obtain ⟨hafter, hreport⟩ := Prod.mk.inj (Except.ok.inj hdone)
      have hcomes := comes_concluded settings now n observed r
      rw [← hafter] at hcomes
      refine ⟨⟨timeout, ht, htook⟩, by rw [hreport], hcomes.failed_iff, hcomes.success_iff,
        hcomes.generating_iff, hcomes.onFailure, hcomes.onSuccess, ?_⟩
      -- the same pass, over the other platform
      intro p' observed' hobserve hagree
      have hp' : Gathered r p' c n observed' :=
        ⟨h.live, h.config, h.positions, h.met, hobserve⟩
      obtain ⟨q'', -, heq'⟩ := hp'.run_eq hfit now ht
      rw [heq', standingsAt_congr hagree, missingPositions_congr hagree, hafter, hreport]

/-- A pass gives a result unless the time limit is needed and cannot be read. -/
theorem run_ok_iff (h : Gathered r p c n observed) :
    (∃ q after report, run settings now r p = (q, .ok (after, report))) ↔
      Nat.pow 2 32 ≤ n ∨ ∃ timeout, Duration.parse settings.timeout = .ok timeout := by
  by_cases hfit : n < Nat.pow 2 32
  · cases ht : Duration.parse settings.timeout with
    | error e =>
        rw [h.run_of_error hfit now ht]
        simp [Nat.not_le.mpr hfit]
    | ok timeout =>
        obtain ⟨q, -, hrun⟩ := h.run_eq hfit now ht
        exact iff_of_true ⟨q, _, _, hrun⟩ (.inr ⟨timeout, rfl⟩)
  · have hmany := Nat.not_lt.mp hfit
    exact iff_of_true ⟨p, _, _, h.run_of_many hmany now⟩ (.inl hmany)

/-- **The aggregation is exact.** A pass gives a result unless the time limit cannot be read. With
fewer positions than can be counted, the request comes to what the job runs observed for them say;
with more, it ends as one whose configuration does not fit. -/
theorem aggregation_exact (h : Gathered r p c n observed) :
    ((∃ q after report, run settings now r p = (q, .ok (after, report))) ↔
      Nat.pow 2 32 ≤ n ∨ ∃ timeout, Duration.parse settings.timeout = .ok timeout) ∧
    ∀ q after report, run settings now r p = (q, .ok (after, report)) →
      (n < Nat.pow 2 32 → Aggregated settings now r p c n observed q after report) ∧
      (Nat.pow 2 32 ≤ n → q = p ∧ report.created = [] ∧
        after = (opened r).failed .configInvalid "too many dependent resources") := by
  refine ⟨run_ok_iff h, ?_⟩
  intro q after report hrun
  constructor
  · intro hfit
    exact aggregated_of_run h hfit hrun
  · intro hmany
    rw [h.run_of_many hmany] at hrun
    obtain ⟨hq, hdone⟩ := Prod.mk.inj hrun
    obtain ⟨hafter, hreport⟩ := Prod.mk.inj (Except.ok.inj hdone)
    exact ⟨hq.symm, by rw [← hreport]; rfl, hafter.symm⟩

end Aggregation

/-- A build of two products. -/
def twoProducts : Config := .build ⟨"b", [⟨.standard⟩, ⟨.standard⟩]⟩

/-- A request for it. -/
def unclearRequest : Request := (Request.new "r" "1" .build "b").setConfig twoProducts

/-- A job run that failed, though its exit code says otherwise. -/
def unclearRun : ObservedRun where
  name := "r-1-generate-1"
  labels := .empty
  annotations := .empty
  state := .failed (some 0) "out of memory"
  startedAt := none
  timeout := 1000

theorem aggregation_exact_unclear :
    Gathered unclearRequest (.insert unclearRun {}) twoProducts 2 [(1, unclearRun)] ∧
    ∃ q after report,
      run {} default unclearRequest (Platform.insert unclearRun {}) = (q, .ok (after, report)) ∧
      Aggregated {} default unclearRequest (.insert unclearRun {}) twoProducts 2 [(1, unclearRun)] q
        after report := by
  have hgathered : Gathered unclearRequest (.insert unclearRun {}) twoProducts 2
      [(1, unclearRun)] := ⟨rfl, rfl, rfl, ⟨rfl, by decide⟩, rfl⟩
  have hlimit : (Duration.parse ({} : RunSettings).timeout).isOk = true := by decide
  obtain ⟨hok, haggregated⟩ := @aggregation_exact {} default _ _ _ _ _ hgathered
  cases ht : Duration.parse ({} : RunSettings).timeout with
  | error e =>
      rw [ht] at hlimit
      exact absurd hlimit (by simp [Except.isOk, Except.toBool])
  | ok timeout =>
      obtain ⟨q, after, report, hrun⟩ := hok.mpr (.inr ⟨timeout, ht⟩)
      exact ⟨hgathered, q, after, report, hrun, (haggregated q after report hrun).1 (by decide)⟩

end BomAssembly.Pass
