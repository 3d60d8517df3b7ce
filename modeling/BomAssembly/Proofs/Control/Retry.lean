import BomAssembly.Proofs.Control.Settled

/-!
# A pass whose result was lost

A controller may stop after a pass has created job runs and before the request is stored. The next
pass then starts from the request as it was, on the platform as the lost pass left it.

What was created counts for the indices that were missing, each for its own (`lookup_of_taken`), and
it is pending, so no job run stands otherwise than before (`standing_of_taken`). The request comes to
what it would have come to, and since nothing is missing any more nothing else happens
(`run_again`). So it does not matter how often a result is lost (`passOver_of_lost`).
-/

namespace BomAssembly

open Platform (Took)
open Time (Instant)

namespace Pass

variable {settings : RunSettings} {now : Instant} {r after : Request} {p q : Platform}
  {report : Report}

theorem standing_ofSpec (now : Instant) (spec : JobRunSpec) :
    standing now (some (.ofSpec spec)) = .inProgress := by
  have hopen : (ObservedRun.ofSpec spec).state.isFinished = false := rfl
  rw [(standing_of_open hopen).2]
  exact if_neg (not_hasFailed_ofSpec now spec)

section Taken

variable {c : Config} {n timeout i : Nat} {observed observed' : List (Nat × ObservedRun)}

/-- **What is taken for the missing indices takes the place of none that was observed.** -/
theorem lookup_of_taken (hobserved : observe r p = .ok observed)
    (htook : Took p ((missingPositions n observed).map
      (JobRun.specAt r.kind c r settings timeout)) q)
    (hobserved' : observe r q = .ok observed') {run : ObservedRun}
    (hrun : observed.lookup i = some run) : observed'.lookup i = some run := by
  obtain ⟨other, hother⟩ := exists_lookup_of_took htook hobserved hobserved' hrun
  rcases lookup_observe_of_took htook hobserved hobserved' hother with hold | ⟨spec, hspec, rfl⟩
  · rw [hother, ← hold, hrun]
  · -- the new one would have to count for an index that was missing
    obtain ⟨j, hj, rfl⟩ := List.mem_map.mp hspec
    obtain ⟨-, hlast⟩ := (lookup_observe_iff hobserved').mp hother
    have hcounts : CountsFor r i (JobRun.nameOf r.name (Phase.generating r.kind) j) := hlast.named
    obtain ⟨rfl, -⟩ := JobRun.countsAs_nameOf_iff.mp hcounts
    have hnone : (observed.lookup i).isNone = true := (List.mem_filter.mp hj).2
    rw [hrun] at hnone
    exact Bool.noConfusion hnone

/-- **Nor does it change how it stands with any index.** -/
theorem standing_of_taken (now : Instant) (h : Gathered r p c n observed) (hfit : n < Nat.pow 2 32)
    (htook : Took p ((missingPositions n observed).map
      (JobRun.specAt r.kind c r settings timeout)) q)
    (hobserved' : observe r q = .ok observed') (hi : i < n) :
    standing now (observed'.lookup i) = standing now (observed.lookup i) := by
  cases hlookup : observed.lookup i with
  | some run => rw [lookup_of_taken h.observed htook hobserved' hlookup]
  | none =>
      -- what is missing is in progress, and so is what was created for it
      obtain ⟨run, hrun⟩ := exists_lookup_of_taken h hfit htook (.none q) hobserved' hi
      rw [hrun]
      rcases lookup_observe_of_took htook h.observed hobserved' hrun with hold | ⟨spec, -, rfl⟩
      · exact absurd (hlookup.symm.trans hold) (by simp)
      · exact standing_ofSpec now spec

/-- The request comes to the same, with nothing left to create. -/
theorem weighed_of_taken (now : Instant) (h : Gathered r p c n observed) (hfit : n < Nat.pow 2 32)
    (htook : Took p ((missingPositions n observed).map
      (JobRun.specAt r.kind c r settings timeout)) q)
    (hobserved' : observe r q = .ok observed') :
    missingPositions n observed' = [] ∧ weighed settings now r n observed' =
      ((weighed settings now r n observed).1,
        { (weighed settings now r n observed).2 with created := [] }) := by
  have hmissing : missingPositions n observed' = [] := by
    refine List.filter_eq_nil_iff.mpr fun i hi => ?_
    obtain ⟨run, hrun⟩ :=
      exists_lookup_of_taken h hfit htook (.none q) hobserved' (List.mem_range.mp hi)
    simp [hrun]
  have hstandings : standingsAt now observed' (List.range n) =
      standingsAt now observed (List.range n) := by
    refine List.map_congr_left fun i hi => ?_
    rw [standing_of_taken now h hfit htook hobserved' (List.mem_range.mp hi)]
  refine ⟨hmissing, ?_⟩
  unfold weighed
  rw [hmissing, hstandings]
  rfl

end Taken

/-! ## The same pass again -/

/-- **Losing the result of a pass is harmless.** The same pass over the same request, on the platform
as the first one left it, comes to the same request, creates nothing and leaves the platform alone. -/
theorem run_again (h : run settings now r p = (q, .ok (after, report))) :
    run settings now r q = (q, .ok (after, { report with created := [] })) := by
  have hcourse := run_course settings now r p
  rw [h] at hcourse
  cases hcourse with
  | ended hended => rw [run, if_pos hended]; rfl
  | rested hlive hplan _ => exact run_of_rest hlive hplan
  | @worked c n timeout observed _ hgathered hfit ht htook =>
      have honline : q.offline = false := htook.offline.trans (online_of_observe hgathered.observed)
      have hagain : Gathered r q c n _ := ⟨hgathered.live, hgathered.config, hgathered.positions,
        hgathered.met, observe_online honline⟩
      generalize JobRun.observedByIndex _ _ _ = observed' at hagain
      obtain ⟨hmissing, hweighed⟩ :=
        weighed_of_taken now hgathered hfit htook hagain.observed
      obtain ⟨q', htook', hrun⟩ := hagain.run_eq hfit now ht
      -- nothing is missing, so the platform stays as it is
      rw [hmissing] at htook'
      cases htook' with
      | none _ => exact hrun.trans (congrArg (fun done => (q, Except.ok done)) hweighed)

/-- The first job run of two is created before the result is lost; the second one has failed. -/
theorem run_again_unclear : ∃ q after report,
    run {} default unclearRequest (Platform.insert unclearRun {}) = (q, .ok (after, report)) ∧
    report.created = [JobRun.nameOf "r" .generate 0] ∧ after.isFinished = true ∧
    run {} default unclearRequest q = (q, .ok (after, { report with created := [] })) := by
  have hgathered : Gathered unclearRequest (.insert unclearRun {}) twoProducts 2
      [(1, unclearRun)] := ⟨rfl, rfl, rfl, ⟨rfl, by decide⟩, rfl⟩
  obtain ⟨timeout, ht⟩ : ∃ timeout, Duration.parse ({} : RunSettings).timeout = .ok timeout := by
    have hlimit : (Duration.parse ({} : RunSettings).timeout).isOk = true := by decide
    cases hparse : Duration.parse ({} : RunSettings).timeout with
    | ok timeout => exact ⟨timeout, rfl⟩
    | error e =>
        rw [hparse] at hlimit
        exact Bool.noConfusion hlimit
  obtain ⟨q, -, hrun⟩ := hgathered.run_eq (by decide) default ht
  exact ⟨q, _, _, hrun, rfl, by decide, run_again hrun⟩

end Pass

namespace World

variable {settings : RunSettings} {now : Instant} {r : Request} {w : World Store Platform}

/-- The world after a pass of which nothing was stored. -/
def lost (settings : RunSettings) (now : Instant) (r : Request) (w : World Store Platform) :
    World Store Platform :=
  { w with platform := (Pass.run settings now r w.platform).1 }

/-- A pass that gives no result has done nothing. -/
theorem lost_of_error {e : Failure} (h : (Pass.run settings now r w.platform).2 = .error e) :
    lost settings now r w = w := by
  have hcourse := Pass.run_course settings now r w.platform
  rw [h] at hcourse
  unfold lost
  rw [hcourse.eq_of_error]

/-- **What was lost is made up for by the next turn**, as if nothing had been lost. -/
theorem passOver_lost (settings : RunSettings) (now : Instant) (r : Request)
    (w : World Store Platform) :
    (passOver settings now r (lost settings now r w)).1 = (passOver settings now r w).1 := by
  cases hrun : Pass.run settings now r w.platform with
  | mk q result =>
    cases result with
    | error e =>
        have hsame : lost settings now r w = w := lost_of_error (congrArg Prod.snd hrun)
        rw [hsame]
    | ok done =>
        obtain ⟨after, report⟩ := done
        have hlost : (lost settings now r w).platform = q := congrArg Prod.fst hrun
        have hagain := Pass.run_again hrun
        rw [passOver_fst, passOver_fst, hlost, hagain, hrun]
        rfl

/-- **However often it is lost.** -/
theorem passOver_of_lost (settings : RunSettings) (now : Instant) (r : Request)
    (w : World Store Platform) (losses : Nat) :
    (passOver settings now r ((lost settings now r)^[losses] w)).1 =
      (passOver settings now r w).1 := by
  induction losses generalizing w with
  | zero => rfl
  | succ losses ih => rw [Function.iterate_succ_apply, ih, passOver_lost]

end World

end BomAssembly
