import BomAssembly.Proofs.Control.Aggregation
import BomAssembly.Proofs.Request.StoredForm

/-!
# The course of a pass

A pass takes one of five courses, and `Course` says for each what it rests on. In particular a pass
that works has gathered all there is to know of the request: its configuration fits, its condition is
met, the positions can be counted and the time limit can be read. What a request calls for does not
depend on the platform, so a later pass over the same request begins with the same plan.

A pass does nothing to the platform but take job runs, and it reports exactly those (`run_took`); each
of them is one that the request calls for with its configuration ready (`callsFor_of_took`).
-/

namespace BomAssembly.Pass

open Platform (Took)
open Time (Instant)

variable {settings : RunSettings} {now : Instant} {r : Request} {p q : Platform}

/-! ## What there is to know of a request that is worked on -/

/-- **No work without the condition.** -/
theorem isMet_of_work (hlive : r.isFinished = false) {next : Request}
    {desired : List (Nat × JobRunSpec)} (h : plan settings r = .ok (.work next desired)) :
    (Condition.ofKind r.kind).IsMet r := by
  by_cases hinvalid : ∃ raw error, r.config = .invalid raw error
  · obtain ⟨raw, error, hc⟩ := hinvalid
    rw [plan_of_invalid hlive hc] at h
    exact absurd (Except.ok.inj h) (by simp)
  · rw [plan_of_valid fun raw error hc => hinvalid ⟨raw, error, hc⟩] at h
    split at h
    · next hmet => exact (isMet_opened _ r).mp hmet
    · exact absurd (Except.ok.inj h) (by simp)

theorem gathered_of_isMet (hlive : r.isFinished = false) (hmet : (Condition.ofKind r.kind).IsMet r)
    (honline : p.offline = false) : ∃ c n observed, Gathered r p c n observed := by
  obtain ⟨c, n, hconfig, -, hpositions, -⟩ := ready_of_isMet hmet
  exact ⟨c, n, _, hlive, hconfig, hpositions, hmet, observe_online honline⟩

/-- The job runs that a request calls for can be told only if the positions can be counted and the
time limit can be read. -/
theorem Gathered.limits {c : Config} {n : Nat} {observed : List (Nat × ObservedRun)}
    (h : Gathered r p c n observed) {desired : List (Nat × JobRunSpec)}
    (hdesired : JobRun.allDesired r.kind (opened r) settings = .ok desired) :
    n < Nat.pow 2 32 ∧ ∃ timeout, Duration.parse settings.timeout = .ok timeout := by
  have hfit : n < Nat.pow 2 32 := JobRun.lt_of_allDesired h.config_opened h.positions hdesired
  refine ⟨hfit, ?_⟩
  cases ht : Duration.parse settings.timeout with
  | ok timeout => exact ⟨timeout, rfl⟩
  | error e =>
      rw [JobRun.allDesired_of_error h.config_opened h.positions hfit h.pos ht] at hdesired
      exact absurd hdesired (by simp)

/-! ## The five courses -/

/-- What a pass makes of a request whose job runs it has looked at, and its report. -/
def weighed (settings : RunSettings) (now : Instant) (r : Request) (n : Nat)
    (observed : List (Nat × ObservedRun)) : Request × Report :=
  let ss := standingsAt now observed (List.range n)
  let after := concluded settings ss (r.inStatus .generating)
  (after, { Report.quiet r after none with
    created := (missingPositions n observed).map (JobRun.nameOf r.name (Phase.generating r.kind))
    inProgress := waiting ss })

/-- The platform that a pass leaves behind, and its result. -/
inductive Course (settings : RunSettings) (now : Instant) (r : Request) (p : Platform) :
    Platform → Except Failure (Request × Report) → Prop where
  | ended (h : r.isFinished = true) : Course settings now r p p (.ok (r, .quiet r r none))
  | refused {e : Failure} (hlive : r.isFinished = false) (hplan : plan settings r = .error e) :
    Course settings now r p p (.error e)
  | rested {after : Request} {unmet : Option Condition} (hlive : r.isFinished = false)
    (hplan : plan settings r = .ok (.rest after unmet)) (h : Rests settings r after unmet) :
    Course settings now r p p (.ok (after, .quiet r after unmet))
  | cutOff {next : Request} {desired : List (Nat × JobRunSpec)} (hlive : r.isFinished = false)
    (hplan : plan settings r = .ok (.work next desired)) (h : p.offline = true) :
    Course settings now r p p (.error Platform.outage.toFailure)
  | worked {c : Config} {n timeout : Nat} {observed : List (Nat × ObservedRun)} {q : Platform}
    (h : Gathered r p c n observed) (hfit : n < Nat.pow 2 32)
    (ht : Duration.parse settings.timeout = .ok timeout)
    (htook : Took p ((missingPositions n observed).map
      (JobRun.specAt r.kind c r settings timeout)) q) :
    Course settings now r p q (.ok (weighed settings now r n observed))

theorem run_of_ended (h : r.isFinished = true) :
    run settings now r p = (p, .ok (r, .quiet r r none)) := by
  rw [run, if_pos h]

theorem run_of_error {e : Failure} (hlive : r.isFinished = false)
    (hplan : plan settings r = .error e) : run settings now r p = (p, .error e) := by
  rw [run, hlive, hplan]
  rfl

theorem run_of_rest {after : Request} {unmet : Option Condition} (hlive : r.isFinished = false)
    (hplan : plan settings r = .ok (.rest after unmet)) :
    run settings now r p = (p, .ok (after, .quiet r after unmet)) := by
  rw [run, hlive, hplan]
  rfl

theorem run_of_cutOff {next : Request} {desired : List (Nat × JobRunSpec)}
    (hlive : r.isFinished = false) (hplan : plan settings r = .ok (.work next desired))
    (h : p.offline = true) :
    run settings now r p = (p, .error Platform.outage.toFailure) := by
  rw [run, hlive, hplan]
  exact work_offline h now r desired

/-- **A pass takes one of the five courses.** -/
theorem run_course (settings : RunSettings) (now : Instant) (r : Request) (p : Platform) :
    Course settings now r p (run settings now r p).1 (run settings now r p).2 := by
  by_cases hended : r.isFinished = true
  · rw [run_of_ended hended]
    exact .ended hended
  · have hlive : r.isFinished = false := by simpa using hended
    cases hplan : plan settings r with
    | error e =>
        rw [run_of_error hlive hplan]
        exact .refused hlive hplan
    | ok pl =>
        rcases plan_cases hlive hplan with ⟨after, unmet, rfl, hrests⟩ | ⟨desired, rfl, hdesired⟩
        · rw [run_of_rest hlive hplan]
          exact .rested hlive hplan hrests
        · cases hoffline : p.offline with
          | true =>
              rw [run_of_cutOff hlive hplan hoffline]
              exact .cutOff hlive hplan hoffline
          | false =>
              obtain ⟨c, n, observed, hgathered⟩ :=
                gathered_of_isMet hlive (isMet_of_work hlive hplan) hoffline
              obtain ⟨hfit, timeout, ht⟩ := hgathered.limits hdesired
              obtain ⟨q, htook, hrun⟩ := hgathered.run_eq hfit now ht
              rw [hrun]
              exact .worked hgathered hfit ht htook

/-! ## What every course keeps -/

theorem sameRequest_concluded (settings : RunSettings) (ss : List (Nat × Standing)) (r : Request) :
    Request.SameRequest r (concluded settings ss (r.inStatus .generating)) := by
  have hself := (Request.SameRequest.refl r).inStatus .generating
  unfold concluded
  split
  · exact hself.failed _ _
  · split
    · exact hself.succeeded _
    · exact hself

theorem sameRequest_opened (r : Request) : Request.SameRequest r (opened r) := by
  obtain ⟨s, hs⟩ := opened_eq r
  rw [hs]
  exact (Request.SameRequest.refl r).inStatus s

theorem Rests.same {after : Request} {unmet : Option Condition}
    (h : Rests settings r after unmet) : Request.SameRequest r after := by
  cases h with
  | invalid _ => exact (Request.SameRequest.refl r).failed _ _
  | waiting _ => exact sameRequest_opened r
  | refused _ => exact (sameRequest_opened r).failed _ _

/-- **A pass keeps all of the request but how far it has come**, and its report says how far it was
and is. -/
theorem Course.same {after : Request} {report : Report}
    (h : Course settings now r p q (.ok (after, report))) :
    Request.SameRequest r after ∧ report.previous = r.status ∧ report.current = after.status := by
  cases h with
  | ended _ => exact ⟨.refl r, rfl, rfl⟩
  | rested _ _ hrests => exact ⟨hrests.same, rfl, rfl⟩
  | worked _ _ _ _ => exact ⟨sameRequest_concluded _ _ r, rfl, rfl⟩

/-- A pass that gives no result has done nothing to the platform. -/
theorem Course.eq_of_error {e : Failure} (h : Course settings now r p q (.error e)) : q = p := by
  cases h <;> rfl

/-- Nor has one on a platform that is offline. -/
theorem Course.eq_of_offline {result : Except Failure (Request × Report)}
    (h : Course settings now r p q result) (hoffline : p.offline = true) : q = p := by
  cases h with
  | worked hgathered _ _ _ =>
      have honline := online_of_observe hgathered.observed
      exact absurd (honline.symm.trans hoffline) (by decide)
  | ended _ => rfl
  | refused _ _ => rfl
  | rested _ _ _ => rfl
  | cutOff _ _ _ => rfl

/-- A report goes under the name of its request. -/
theorem Course.request_eq {after : Request} {report : Report}
    (h : Course settings now r p q (.ok (after, report))) : report.request = r.name := by
  cases h <;> rfl

/-- A pass keeps the name of its request. -/
theorem name_of_run {after : Request} {report : Report}
    (h : run settings now r p = (q, .ok (after, report))) : after.name = r.name := by
  have hcourse := run_course settings now r p
  rw [h] at hcourse
  exact hcourse.same.1.name

/-! ## What is created, and for what -/

/-- What was created according to the result of a pass. -/
def createdBy : Except Failure (Request × Report) → List String
  | .ok (_, report) => report.created
  | .error _ => []

/-- A live request calls for a job run, and its configuration is ready for it. -/
structure CallsFor (settings : RunSettings) (r : Request) (spec : JobRunSpec) : Prop where
  live : r.isFinished = false
  ready : ∃ c i, r.config = .valid c ∧ c.kind = r.kind ∧ Ready c i ∧
    JobRun.desired r.kind c i r settings = .ok spec

/-- What is missing is called for. -/
theorem Gathered.callsFor {c : Config} {n timeout : Nat} {observed : List (Nat × ObservedRun)}
    (h : Gathered r p c n observed) (ht : Duration.parse settings.timeout = .ok timeout)
    {spec : JobRunSpec} (hspec : spec ∈ (missingPositions n observed).map
      (JobRun.specAt r.kind c r settings timeout)) : CallsFor settings r spec := by
  obtain ⟨i, hi, rfl⟩ := List.mem_map.mp hspec
  have hlt := List.mem_range.mp (List.mem_filter.mp hi).1
  obtain ⟨hkind, -, hready⟩ := h.ready
  exact ⟨h.live, _, i, h.config, hkind, hready i hlt,
    JobRun.desired_eq_ok_iff.mpr ⟨_, _, h.positions, hlt, ht, rfl⟩⟩

/-- Only a pass that worked has taken anything. -/
theorem Course.took {result : Except Failure (Request × Report)}
    (h : Course settings now r p q result) : ∃ specs, Took p specs q ∧
      specs.map JobRunSpec.name = createdBy result ∧ ∀ spec ∈ specs, CallsFor settings r spec := by
  have hnone : ∀ spec ∈ ([] : List JobRunSpec), CallsFor settings r spec := fun _ hspec =>
    absurd hspec List.not_mem_nil
  cases h with
  | worked h _ ht htook => exact ⟨_, htook, List.map_map, fun _ hspec => h.callsFor ht hspec⟩
  | ended _ => exact ⟨[], .none p, rfl, hnone⟩
  | refused _ _ => exact ⟨[], .none p, rfl, hnone⟩
  | rested _ _ _ => exact ⟨[], .none p, rfl, hnone⟩
  | cutOff _ _ _ => exact ⟨[], .none p, rfl, hnone⟩

/-- **A pass takes what it reports, and does nothing else to the platform.** -/
theorem run_took (settings : RunSettings) (now : Instant) (r : Request) (p : Platform) :
    ∃ specs, Took p specs (run settings now r p).1 ∧
      specs.map JobRunSpec.name = createdBy (run settings now r p).2 := by
  obtain ⟨specs, htook, hcreated, -⟩ := (run_course settings now r p).took
  exact ⟨specs, htook, hcreated⟩

/-- **Nothing is created but what a live request calls for**, with its configuration ready. -/
theorem callsFor_of_took {specs : List JobRunSpec} {spec : JobRunSpec}
    (htook : Took p specs (run settings now r p).1) (hspec : spec ∈ specs) :
    CallsFor settings r spec := by
  obtain ⟨taken, htaken, -, hcalls⟩ := (run_course settings now r p).took
  exact hcalls spec (htook.specs_eq htaken ▸ hspec)

end BomAssembly.Pass
