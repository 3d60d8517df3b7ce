import BomAssembly.Proofs.Control.Pass
import BomAssembly.Proofs.Request.Moves

/-!
# How a request stands by its job runs

A job run has failed, has succeeded, or is in progress; one that was not observed is in progress as
well. Any that failed decides over the request, and the first of them says why; only when all have
succeeded has the request succeeded. `concluded` is what a pass makes of the request, and `Comes` says
it without looking at how it is computed.
-/

namespace BomAssembly

open Time (Instant)

/-! ## A job run -/

/-- Whether a job run has failed: by itself, or by going on for longer than it may. -/
def ObservedRun.HasFailed (now : Instant) (run : ObservedRun) : Prop :=
  match run.state with
  | .succeeded => False
  | .failed _ _ | .timedOut => True
  | .pending | .running => run.IsOverdue now

instance (now : Instant) (run : ObservedRun) : Decidable (run.HasFailed now) := by
  unfold ObservedRun.HasFailed
  split <;> infer_instance

theorem Outcome.ofCode_ne_success {code : Int} (h : code ≠ 0) : ofCode code ≠ .success := by
  unfold ofCode
  intro heq
  cases hfind : all.find? fun o => (o.code : Int) == code with
  | none =>
      rw [hfind] at heq
      exact absurd heq (by decide)
  | some o =>
      rw [hfind] at heq
      have hcode := List.find?_some hfind
      rw [show o = success from heq] at hcode
      exact h (eq_of_beq hcode).symm

namespace Pass

/-- The message of a job run that took too long. -/
def tooLongMessage (run : ObservedRun) : String :=
  (Failure.timeout run.name (run.timeout / 1000)).message

/-- The result and the message that a failed job run has for its request. -/
inductive FailsAs (now : Instant) (run : ObservedRun) : Outcome → String → Prop where
  | noCode {message : String} (h : run.state = .failed none message) :
    FailsAs now run .general message
  -- what failed is no success, even where its exit code says so
  | codeZero {message : String} (h : run.state = .failed (some 0) message) :
    FailsAs now run .general message
  | code {code : Int} {message : String} (h : run.state = .failed (some code) message)
    (hcode : code ≠ 0) : FailsAs now run (.ofCode code) message
  | timedOut (h : run.state = .timedOut) : FailsAs now run .timeout (tooLongMessage run)
  | overdue (h : run.IsOverdue now) : FailsAs now run .timeout (tooLongMessage run)

variable {now : Instant} {run : ObservedRun} {result : Outcome} {message : String}

/-- **Failure is never reported as success.** -/
theorem FailsAs.ne_success (h : FailsAs now run result message) : result ≠ .success := by
  cases h with
  | noCode _ => decide
  | codeZero _ => decide
  | code _ hcode => exact Outcome.ofCode_ne_success hcode
  | timedOut _ => decide
  | overdue _ => decide

theorem failsAs_of_failed {code : Option Int} (h : run.state = .failed code message) :
    FailsAs now run (failureOutcome code) message := by
  cases code with
  | none => exact .noCode h
  | some c =>
      by_cases hc : c = 0
      · subst hc
        exact .codeZero h
      · have hout : failureOutcome (some c) = .ofCode c := by
          unfold failureOutcome
          cases ho : Outcome.ofCode c with
          | success => exact absurd ho (Outcome.ofCode_ne_success hc)
          | _ => simp [ho]
        rw [hout]
        exact .code h hc

/-- A job run that has not finished is late, and then it has failed, or it goes on. -/
theorem standing_of_open (h : run.state.isFinished = false) :
    (run.HasFailed now ↔ run.IsOverdue now) ∧
    standing now (some run) = if run.IsOverdue now then tooLong run else .inProgress := by
  unfold standing ObservedRun.HasFailed
  dsimp only
  cases hstate : run.state with
  | pending => exact ⟨.rfl, rfl⟩
  | running => exact ⟨.rfl, rfl⟩
  | succeeded => exact absurd (hstate ▸ h) (by decide)
  | failed code message => exact absurd (hstate ▸ h) (by simp [RunState.isFinished])
  | timedOut => exact absurd (hstate ▸ h) (by decide)

/-- How it can stand with a job run. -/
inductive Stands (now : Instant) (run : ObservedRun) : Standing → Prop where
  | done (h : run.state = .succeeded) (hno : ¬ run.HasFailed now) : Stands now run .done
  | failed {result : Outcome} {message : String} (h : run.HasFailed now)
    (hno : run.state ≠ .succeeded) (has : FailsAs now run result message) :
    Stands now run (.failed result message)
  | inProgress (h : ¬ run.HasFailed now) (hno : run.state ≠ .succeeded) :
    Stands now run .inProgress

/-- **A job run has succeeded, has failed, or is in progress.** -/
theorem stands (now : Instant) (run : ObservedRun) :
    Stands now run (standing now (some run)) := by
  by_cases hopen : run.state.isFinished = false
  · obtain ⟨hfailed, hstanding⟩ := standing_of_open hopen
    have hno : run.state ≠ .succeeded := by
      intro heq
      rw [heq] at hopen
      exact absurd hopen (by decide)
    rw [hstanding]
    split
    · next hlate => exact .failed (hfailed.mpr hlate) hno (.overdue hlate)
    · next hlate => exact .inProgress (fun h => hlate (hfailed.mp h)) hno
  · unfold standing
    dsimp only
    cases hstate : run.state with
    | pending => exact absurd (by rw [hstate]; rfl) hopen
    | running => exact absurd (by rw [hstate]; rfl) hopen
    | succeeded => exact .done hstate (by simp [ObservedRun.HasFailed, hstate])
    | failed code message =>
        exact .failed (by simp [ObservedRun.HasFailed, hstate]) (by simp [hstate])
          (failsAs_of_failed hstate)
    | timedOut =>
        exact .failed (by simp [ObservedRun.HasFailed, hstate]) (by simp [hstate])
          (.timedOut hstate)

/-! ## All positions -/

/-- The job run for a position was observed and has failed. -/
def FailedAt (now : Instant) (observed : List (Nat × ObservedRun)) (i : Nat) : Prop :=
  ∃ run ∈ observed.lookup i, run.HasFailed now

instance (now : Instant) (observed : List (Nat × ObservedRun)) :
    DecidablePred (FailedAt now observed) := fun i =>
  inferInstanceAs (Decidable (∃ run ∈ observed.lookup i, run.HasFailed now))

/-- The job run for a position was observed and has succeeded. -/
def SucceededAt (observed : List (Nat × ObservedRun)) (i : Nat) : Prop :=
  ∃ run ∈ observed.lookup i, run.state = .succeeded

/-- The positions whose job runs have failed, in order. -/
def failedPositions (now : Instant) (n : Nat) (observed : List (Nat × ObservedRun)) : List Nat :=
  (List.range n).filter (FailedAt now observed ·)

/-- How it stands with the job runs for these positions. -/
def standingsAt (now : Instant) (observed : List (Nat × ObservedRun)) (is : List Nat) :
    List (Nat × Standing) :=
  is.map fun i => (i, standing now (observed.lookup i))

variable {observed : List (Nat × ObservedRun)} {n : Nat}

theorem standings_eq {desired : List (Nat × JobRunSpec)} {is : List Nat}
    (h : desired.map Prod.fst = is) :
    standings now desired observed = standingsAt now observed is := by
  rw [← h, standingsAt, List.map_map]
  rfl

theorem succeededAt_iff (now : Instant) {i : Nat} :
    SucceededAt observed i ↔ standing now (observed.lookup i) = .done := by
  unfold SucceededAt
  cases observed.lookup i with
  | none => simp [standing]
  | some run =>
      have hstands := stands now run
      generalize standing now (some run) = st at hstands
      cases hstands with
      | done h _ => simp [h]
      | failed _ hno _ => simp [hno]
      | inProgress _ hno => simp [hno]

theorem failedAt_iff {i : Nat} : FailedAt now observed i ↔
    ∃ result message, standing now (observed.lookup i) = .failed result message := by
  unfold FailedAt
  cases observed.lookup i with
  | none => simp [standing]
  | some run =>
      have hstands := stands now run
      generalize standing now (some run) = st at hstands
      cases hstands with
      | done _ hno => simp [hno]
      | failed h _ _ => simp [h]
      | inProgress h _ => simp [h]

/-- The positions of the failures are those whose job runs have failed. -/
theorem map_fst_failures (now : Instant) (observed : List (Nat × ObservedRun)) (is : List Nat) :
    (failures (standingsAt now observed is)).map Prod.fst = is.filter (FailedAt now observed ·) := by
  induction is with
  | nil => rfl
  | cons i is ih =>
      unfold standingsAt failures at ih ⊢
      rw [List.map_cons, List.filterMap_cons, List.filter_cons]
      by_cases hi : FailedAt now observed i
      · obtain ⟨result, message, hstanding⟩ := failedAt_iff.mp hi
        rw [if_pos (decide_eq_true hi), hstanding]
        exact congrArg (i :: ·) ih
      · rw [if_neg (by simpa using hi)]
        cases hstanding : standing now (observed.lookup i) with
        | inProgress => exact ih
        | done => exact ih
        | failed result message => exact absurd (failedAt_iff.mpr ⟨_, _, hstanding⟩) hi

theorem failsAs_of_mem_failures {is : List Nat} {i : Nat} {result : Outcome} {message : String}
    (h : (i, result, message) ∈ failures (standingsAt now observed is)) :
    ∃ run, observed.lookup i = some run ∧ FailsAs now run result message := by
  obtain ⟨⟨j, st⟩, hmem, hst⟩ := List.mem_filterMap.mp h
  obtain ⟨k, -, hk⟩ := List.mem_map.mp hmem
  obtain ⟨rfl, rfl⟩ := Prod.mk.inj hk
  cases hrun : observed.lookup k with
  | none =>
      rw [hrun] at hst
      exact absurd hst (by simp [standing])
  | some run =>
      have hstands := stands now run
      rw [hrun] at hst
      generalize standing now (some run) = st at hstands hst
      cases hstands with
      | done _ _ => exact absurd hst (by simp)
      | inProgress _ _ => exact absurd hst (by simp)
      | failed _ _ has =>
          obtain ⟨rfl, hrest⟩ := Prod.mk.inj (Option.some.inj hst)
          obtain ⟨rfl, rfl⟩ := Prod.mk.inj hrest
          exact ⟨run, hrun, has⟩

/-- Without failures, nothing is waited for exactly when all have succeeded. -/
theorem waiting_eq_zero_iff (hnone : failedPositions now n observed = []) :
    waiting (standingsAt now observed (List.range n)) = 0 ↔ ∀ i < n, SucceededAt observed i := by
  rw [waiting, List.countP_eq_zero]
  constructor
  · intro h i hi
    have hmem : i ∈ List.range n := List.mem_range.mpr hi
    have hwait := h _ (List.mem_map_of_mem hmem)
    rw [succeededAt_iff now]
    cases hstanding : standing now (observed.lookup i) with
    | done => rfl
    | inProgress => exact absurd (decide_eq_true hstanding) hwait
    | failed result message =>
        have hfailed := failedAt_iff.mpr ⟨result, message, hstanding⟩
        exact absurd hfailed (by simpa using List.filter_eq_nil_iff.mp hnone i hmem)
  · intro h e he
    obtain ⟨i, hi, rfl⟩ := List.mem_map.mp he
    have hdone := (succeededAt_iff now).mp (h i (List.mem_range.mp hi))
    simp [hdone]

/-! ## The request -/

/-- What a request comes to by its job runs. -/
inductive Comes (settings : RunSettings) (now : Instant) (n : Nat)
    (observed : List (Nat × ObservedRun)) (r : Request) : Request → Prop where
  | failed {i : Nat} {more : List Nat} {run : ObservedRun} {result : Outcome} {message : String}
    (hfailed : failedPositions now n observed = i :: more) (hrun : observed.lookup i = some run)
    (has : FailsAs now run result message) :
    Comes settings now n observed r (r.failed result
      s!"Generation failed for index {positionsText (failedPositions now n observed)}: {message}")
  | success (hnone : failedPositions now n observed = []) (h : ∀ i < n, SucceededAt observed i) :
    Comes settings now n observed r (r.succeeded (FilePath.join settings.outputRoot r.name))
  | generating (hnone : failedPositions now n observed = [])
    (h : ¬ ∀ i < n, SucceededAt observed i) :
    Comes settings now n observed r (r.inStatus .generating)

/-- **A pass makes of the request what its job runs call for.** -/
theorem comes_concluded (settings : RunSettings) (now : Instant) (n : Nat)
    (observed : List (Nat × ObservedRun)) (r : Request) : Comes settings now n observed r
      (concluded settings (standingsAt now observed (List.range n)) (r.inStatus .generating)) := by
  have hfst := map_fst_failures now observed (List.range n)
  unfold concluded
  -- the failures are listed in the order of the positions, so the head is the first of them
  cases hfailures : failures (standingsAt now observed (List.range n)) with
  | cons f more =>
      obtain ⟨i, result, message⟩ := f
      rw [hfailures, List.map_cons] at hfst
      obtain ⟨run, hrun, has⟩ := failsAs_of_mem_failures (hfailures ▸ List.mem_cons_self)
      have hfailed : failedPositions now n observed = i :: more.map Prod.fst := hfst.symm
      dsimp only
      rw [← hfailed]
      exact .failed hfailed hrun has
  | nil =>
      rw [hfailures] at hfst
      dsimp only
      split
      · next hzero => exact .success hfst.symm ((waiting_eq_zero_iff hfst.symm).mp hzero)
      · next hpos =>
        exact .generating hfst.symm fun h => hpos ((waiting_eq_zero_iff hfst.symm).mpr h)

section Comes

variable {settings : RunSettings} {r after : Request}

theorem FailedAt.not_succeededAt {i : Nat} (h : FailedAt now observed i) :
    ¬ SucceededAt observed i := by
  rw [succeededAt_iff now]
  obtain ⟨result, message, hstanding⟩ := failedAt_iff.mp h
  simp [hstanding]

theorem mem_failedPositions {i : Nat} :
    i ∈ failedPositions now n observed ↔ i < n ∧ FailedAt now observed i := by
  simp [failedPositions]

theorem Comes.failed_iff (h : Comes settings now n observed r after) :
    after.status = .failed ↔ ∃ i < n, FailedAt now observed i := by
  have hnot : failedPositions now n observed = [] → ¬ ∃ i < n, FailedAt now observed i := by
    rintro hnone ⟨i, hi⟩
    rw [← mem_failedPositions, hnone] at hi
    exact absurd hi List.not_mem_nil
  cases h with
  | failed hfailed _ _ =>
      have hmem := hfailed ▸ List.mem_cons_self
      exact iff_of_true rfl ⟨_, mem_failedPositions.mp hmem⟩
  | success hnone _ => exact iff_of_false (by simp [Request.succeeded]) (hnot hnone)
  | generating hnone _ => exact iff_of_false (by simp) (hnot hnone)

theorem Comes.success_iff (h : Comes settings now n observed r after) :
    after.status = .success ↔ ∀ i < n, SucceededAt observed i := by
  cases h with
  | failed hfailed _ _ =>
      -- the position that failed has not succeeded
      have hmem := hfailed ▸ List.mem_cons_self
      obtain ⟨hi, hfailedAt⟩ := mem_failedPositions.mp hmem
      exact iff_of_false (by simp [Request.failed]) fun hall => hfailedAt.not_succeededAt (hall _ hi)
  | success _ h => exact iff_of_true rfl h
  | generating _ h => exact iff_of_false (by simp) h

/-- There is nothing else that a request can come to. -/
theorem Comes.generating_iff (h : Comes settings now n observed r after) :
    after.status = .generating ↔
      (¬ ∃ i < n, FailedAt now observed i) ∧ ¬ ∀ i < n, SucceededAt observed i := by
  rw [← h.failed_iff, ← h.success_iff]
  cases h with
  | failed _ _ _ => simp [Request.failed]
  | success _ _ => simp [Request.succeeded]
  | generating _ _ => simp

/-- The first job run that failed says how the request failed; all of them are listed. -/
theorem Comes.onFailure (h : Comes settings now n observed r after)
    (hstatus : after.status = .failed) : ∃ i more run result message,
      failedPositions now n observed = i :: more ∧ observed.lookup i = some run ∧
      FailsAs now run result message ∧ result ≠ .success ∧ after.result = some result ∧
      after.reason =
        some s!"Generation failed for index {positionsText (i :: more)}: {message}" := by
  cases h with
  | failed hfailed hrun has =>
      refine ⟨_, _, _, _, _, hfailed, hrun, has, has.ne_success, rfl, ?_⟩
      rw [← hfailed]
      rfl
  | success _ _ => exact absurd hstatus (by simp [Request.succeeded])
  | generating _ _ => exact absurd hstatus (by simp)

theorem Comes.onSuccess (h : Comes settings now n observed r after)
    (hstatus : after.status = .success) : after.result = some .success ∧
      after.output = some (FilePath.join settings.outputRoot r.name) := by
  cases h with
  | failed _ _ _ => exact absurd hstatus (by simp [Request.failed])
  | success _ _ => exact ⟨rfl, rfl⟩
  | generating _ _ => exact absurd hstatus (by simp)

end Comes

end Pass

end BomAssembly
