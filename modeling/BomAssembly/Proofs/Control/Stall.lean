import BomAssembly.Control.Tick
import BomAssembly.Proofs.Control.Course

/-!
# What can stop a pass

With settings that pass their check nothing can but the platform. Whatever status and configuration a
live request has, every move that a pass attempts is one that it may make, and the only failure to
tell the job runs that it calls for is one that ends the request (`Unhindered`). So a pass fails just
when there is work to do and the platform is offline (`Stalled`), and a later one may then find
request, store and platform as they were.
-/

namespace BomAssembly

open Time (Instant)

/-- Settings that pass the check have a time limit that can be read. -/
theorem Settings.exists_timeout {settings : RunSettings} (h : runIssues settings = []) :
    ∃ timeout, Duration.parse settings.timeout = .ok timeout := by
  cases ht : Duration.parse settings.timeout with
  | ok timeout => exact ⟨timeout, rfl⟩
  | error e =>
      rw [runIssues, ht] at h
      exact absurd h (by simp)

namespace JobRun

variable {kind : Kind} {c : Config} {r : Request} {settings : RunSettings} {timeout : Nat}
  {e : Failure}

/-- Positions cannot be counted only where the configuration is for another kind of request. -/
theorem configuration_of_count (h : count kind c = .error e) :
    ∃ reason, e = .configuration reason := by
  cases kind with
  | build =>
      cases c with
      | build b => exact absurd h (by simp [count])
      | operation o => exact ⟨_, (Except.error.inj h).symm⟩
  | operation =>
      cases c with
      | build b => exact ⟨_, (Except.error.inj h).symm⟩
      | operation o => exact absurd h (by simp [count])

/-- **Only the configuration can keep the job runs from being told**, if the time limit can be read:
no position is out of range. -/
theorem configuration_of_allDesired (ht : Duration.parse settings.timeout = .ok timeout)
    (h : allDesired kind r settings = .error e) : ∃ reason, e = .configuration reason := by
  cases hc : r.config? with
  | none =>
      rw [allDesired, hc] at h
      exact ⟨_, (Except.error.inj h).symm⟩
  | some c =>
      cases hn : count kind c with
      | error e' =>
          rw [allDesired, hc] at h
          dsimp only at h
          rw [hn] at h
          obtain rfl : e' = e := Except.error.inj h
          exact configuration_of_count hn
      | ok n =>
          -- each position is below the count that it is checked against
          by_cases hfit : n < Nat.pow 2 32
          · rw [allDesired_eq hc hn hfit ht] at h
            exact absurd h (by simp)
          · rw [allDesired_of_many hc hn (Nat.not_lt.mp hfit)] at h
            exact ⟨_, (Except.error.inj h).symm⟩

end JobRun

namespace Pass

variable {settings : RunSettings} {now : Instant} {r : Request} {p : Platform} {e : Failure}

/-! ## Nothing in the request is in the way -/

/-- What a pass attempts with a request, apart from the platform, and that it can be done. -/
structure Unhindered (settings : RunSettings) (r : Request) : Prop where
  /-- Its preparation begins, if it is to. -/
  begins : begun r = .ok (opened r)
  /-- It can end because of its configuration, then and before. -/
  refuses : ∀ reason, (∃ after, refused reason r = .ok (.rest after none)) ∧
    ∃ after, refused reason (opened r) = .ok (.rest after none)
  /-- There is a job run for each position of its configuration. -/
  inRange : ∀ c n i, r.config = .valid c → JobRun.count (opened r).kind c = .ok n → i < n →
    ∃ spec, JobRun.desired (opened r).kind c i (opened r) settings = .ok spec
  /-- If job runs cannot be told, that ends the request. -/
  told : ∀ e, JobRun.allDesired (opened r).kind (opened r) settings = .error e →
    ∃ reason, e = .configuration reason
  /-- It goes on to be generating, and from there to what its job runs say, however they stand. -/
  concludes : ∃ generating changed, (opened r).advance .generating = .ok (generating, changed) ∧
    ∀ ss, ∃ after, conclude settings ss generating = .ok after

/-- **Every live request is unhindered**, whatever its status and configuration. -/
theorem unhindered_of_live (h : r.isFinished = false)
    (ht : ∃ timeout, Duration.parse settings.timeout = .ok timeout) : Unhindered settings r := by
  obtain ⟨timeout, ht⟩ := ht
  have hopened := isFinished_opened h
  refine ⟨begun_eq r, fun reason => ?_, fun c n i _ hn hi => ?_, fun e he => ?_, ?_⟩
  · exact ⟨⟨_, refused_of_live h reason⟩, ⟨_, refused_of_live hopened reason⟩⟩
  · exact ⟨_, JobRun.desired_eq_ok_iff.mpr ⟨n, timeout, hn, hi, ht, rfl⟩⟩
  · exact JobRun.configuration_of_allDesired ht he
  · obtain ⟨changed, hadvance⟩ := Request.advance_generating_of_live hopened
    exact ⟨_, changed, hadvance, fun ss => ⟨_, conclude_eq ss rfl⟩⟩

/-- So what a live request calls for can always be told. -/
theorem Unhindered.exists_plan (h : Unhindered settings r) : ∃ pl, plan settings r = .ok pl := by
  by_cases hinvalid : ∃ raw error, r.config = .invalid raw error
  · obtain ⟨raw, error, hc⟩ := hinvalid
    obtain ⟨after, hafter⟩ := (h.refuses s!"Configuration is invalid: {error}").1
    rw [plan, hc]
    exact ⟨_, hafter⟩
  · rw [plan_of_valid fun raw error hc => hinvalid ⟨raw, error, hc⟩]
    split
    · rw [workOf]
      split
      · exact ⟨_, rfl⟩
      · next reason _ =>
        obtain ⟨after, hafter⟩ := (h.refuses reason).2
        exact ⟨_, hafter⟩
      · next e hnot he =>
        -- the remaining failure would not end the request, but it is not one that can occur
        obtain ⟨reason, rfl⟩ := h.told e he
        exact absurd rfl (hnot reason)
    · exact ⟨_, rfl⟩

/-! ## Only the platform is -/

/-- A request with job runs to look at, on a platform that does not show them: the request is live,
its configuration fits, with positions that can be counted, and its condition is met. -/
structure Stalled (r : Request) (p : Platform) : Prop where
  live : r.isFinished = false
  config : ∃ c n, r.config = .valid c ∧ JobRun.count r.kind c = .ok n ∧ n < Nat.pow 2 32
  met : (Condition.ofKind r.kind).IsMet r
  offline : p.offline = true

/-- A pass over a stalled request is cut off. -/
theorem Stalled.run_eq (h : Stalled r p)
    (ht : ∃ timeout, Duration.parse settings.timeout = .ok timeout) (now : Instant) :
    run settings now r p = (p, .error Platform.outage.toFailure) := by
  obtain ⟨pl, hplan⟩ := (unhindered_of_live h.live ht).exists_plan
  rcases plan_cases h.live hplan with ⟨after, unmet, rfl, hrests⟩ | ⟨desired, rfl, -⟩
  · -- there is nothing that lets it rest
    obtain ⟨c, n, hconfig, hn, hfit⟩ := h.config
    cases hrests with
    | invalid hinvalid => exact absurd (hconfig.symm.trans hinvalid) (by simp)
    | waiting hunmet => exact absurd ((isMet_opened _ r).mpr h.met) hunmet
    | refused hrefused =>
        obtain ⟨timeout, ht⟩ := ht
        rw [JobRun.allDesired_eq (config?_opened hconfig) hn hfit ht] at hrefused
        exact absurd hrefused (by simp)
  · exact run_of_cutOff h.live hplan h.offline

/-- A pass that is cut off was over a stalled request. -/
theorem stalled_of_cutOff (hlive : r.isFinished = false) {next : Request}
    {desired : List (Nat × JobRunSpec)} (hplan : plan settings r = .ok (.work next desired))
    (hoffline : p.offline = true) : Stalled r p := by
  have hmet := isMet_of_work hlive hplan
  obtain ⟨c, n, hconfig, -, hn, -⟩ := ready_of_isMet hmet
  refine ⟨hlive, ⟨c, n, hconfig, hn, ?_⟩, hmet, hoffline⟩
  rcases plan_cases hlive hplan with ⟨after, unmet, heq, -⟩ | ⟨desired', -, hdesired⟩
  · exact absurd heq (by simp)
  · exact JobRun.lt_of_allDesired (config?_opened hconfig) hn hdesired

/-- **A pass fails just when it is stalled**, and of the outage. -/
theorem run_eq_error_iff (ht : ∃ timeout, Duration.parse settings.timeout = .ok timeout) :
    (run settings now r p).2 = .error e ↔ Stalled r p ∧ e = Platform.outage.toFailure := by
  constructor
  · intro herror
    have hcourse := run_course settings now r p
    rw [herror] at hcourse
    generalize (run settings now r p).1 = q at hcourse
    cases hcourse with
    | refused hlive hplan =>
        -- a plan can always be made
        obtain ⟨pl, hplan'⟩ := (unhindered_of_live hlive ht).exists_plan
        exact absurd (hplan'.symm.trans hplan) (by simp)
    | cutOff hlive hplan hoffline => exact ⟨stalled_of_cutOff hlive hplan hoffline, rfl⟩
  · rintro ⟨hstalled, rfl⟩
    rw [hstalled.run_eq ht now]

/-- **Only an outage makes a pass fail, and it changes nothing.** With settings that pass the check a
pass fails just when it is stalled. The failure is that of the outage, and a later pass may succeed;
platform and store are then as they were, and the request with them. Nothing else that a pass attempts
can fail. -/
theorem fails_only_of_outage (hsettings : Settings.runIssues settings = []) :
    ((∃ e, (run settings now r p).2 = .error e) ↔ Stalled r p) ∧
    (∀ e, (run settings now r p).2 = .error e →
      e = Platform.outage.toFailure ∧ e.isTransient = true ∧ (run settings now r p).1 = p ∧
      ∀ store : Store, World.passOver settings now r ⟨store, p⟩ = (⟨store, p⟩, .error e)) ∧
    (r.isFinished = false → Unhindered settings r) := by
  have ht := Settings.exists_timeout hsettings
  refine ⟨⟨fun ⟨e, herror⟩ => ((run_eq_error_iff ht).mp herror).1, fun hstalled => ?_⟩, ?_,
    fun hlive => unhindered_of_live hlive ht⟩
  · exact ⟨_, (run_eq_error_iff ht).mpr ⟨hstalled, rfl⟩⟩
  · intro e herror
    obtain ⟨hstalled, rfl⟩ := (run_eq_error_iff ht).mp herror
    have hrun := hstalled.run_eq ht now
    refine ⟨rfl, rfl, congrArg Prod.fst hrun, fun store => ?_⟩
    rw [World.passOver, hrun]
    rfl

/-- A build that is being prepared, as none comes to be but one may be stored. -/
def preparingBuild : Request := unclearRequest.inStatus .preparing

theorem fails_only_of_outage_preparing : Settings.runIssues {} = [] ∧
    ∃ e, (run {} default preparingBuild ({ offline := true } : Platform)).2 = .error e ∧
      e.isTransient = true := by
  have hvalid : Settings.runIssues {} = [] := by decide
  have hstalled : Stalled preparingBuild { offline := true } :=
    ⟨rfl, ⟨twoProducts, 2, rfl, rfl, by decide⟩, ⟨rfl, by decide⟩, rfl⟩
  obtain ⟨hiff, herror, -⟩ :=
    @fails_only_of_outage {} default preparingBuild { offline := true } hvalid
  obtain ⟨e, he⟩ := hiff.mpr hstalled
  exact ⟨hvalid, e, he, (herror e he).2.1⟩

end Pass

end BomAssembly
