import BomAssembly.Proofs.Control.Observation
import BomAssembly.Proofs.Control.Standing
import BomAssembly.Proofs.Control.Turns

/-!
# A second tick changes nothing

A pass is idle at a platform if it takes no job run and leaves the status as it is. Whatever course
the turn of a request took, a pass over what the request has come to is idle at every platform that
came from the one it left by taking more job runs: what waited still waits, an outage lasts, and where
job runs were looked at none is missing any more. Those taken meanwhile, by whatever request, are
pending; they may stand in for an observed one, but they have neither failed nor succeeded.
-/

namespace BomAssembly

open Platform (Took)
open Time (Instant)

namespace Pass

variable {settings : RunSettings} {now : Instant} {r after : Request} {p q s : Platform}

/-- A pass leaves the platform as it is and has nothing written. -/
structure Idle (settings : RunSettings) (now : Instant) (r : Request) (p : Platform) : Prop where
  platform : (run settings now r p).1 = p
  written : written (run settings now r p).2 = none

theorem Idle.of_error {e : Failure} (h : run settings now r p = (p, .error e)) :
    Idle settings now r p := by
  constructor <;> rw [h]
  rfl

theorem Idle.of_ok {report : Report} (h : run settings now r p = (p, .ok (after, report)))
    (hsame : report.previous = report.current) : Idle settings now r p := by
  have hunchanged : report.statusChanged = false := decide_eq_false fun hne => hne hsame
  constructor <;> rw [h]
  rw [Pass.written, hunchanged]
  rfl

theorem same_of_written_eq_none {report : Report}
    (h : written (.ok (after, report)) = none) : report.previous = report.current := by
  rw [written] at h
  split at h
  · exact absurd h (by simp)
  · next hunchanged => exact Decidable.not_not.mp fun hne => hunchanged (decide_eq_true hne)

/-! ## A request that waits -/

/-- **What rests and is still live rests again**, as it is. -/
theorem plan_opened_of_rests {unmet : Option Condition}
    (hplan : plan settings r = .ok (.rest after unmet)) (h : Rests settings r after unmet)
    (hlive : r.isFinished = false) (hafter : after.isFinished = false) :
    after = opened r ∧ plan settings (opened r) = .ok (.rest (opened r) unmet) := by
  cases h with
  | invalid _ => exact absurd hafter (by simp)
  | refused _ => exact absurd hafter (by simp)
  | waiting hunmet =>
      refine ⟨rfl, ?_⟩
      by_cases hinvalid : ∃ raw error, r.config = .invalid raw error
      · -- a configuration that does not fit would have ended the request
        obtain ⟨raw, error, hc⟩ := hinvalid
        rw [plan_of_invalid hlive hc] at hplan
        obtain ⟨hfailed, -⟩ := Plan.rest.inj (Except.ok.inj hplan)
        rw [← hfailed] at hafter
        exact absurd hafter (by simp)
      · have hvalid : ∀ raw error, (opened r).config ≠ .invalid raw error := by
          rw [config_opened]
          exact fun raw error hc => hinvalid ⟨raw, error, hc⟩
        rw [plan_of_valid hvalid, opened_opened, kind_opened, if_neg hunmet]

/-! ## A request whose job runs were looked at -/

theorem Comes.of_live {n : Nat} {observed : List (Nat × ObservedRun)}
    (h : Comes settings now n observed r after) (hlive : after.isFinished = false) :
    after = r.inStatus .generating ∧ after.status = .generating := by
  cases h with
  | failed _ _ _ => exact absurd hlive (by simp)
  | success _ _ => exact absurd hlive (by simp)
  | generating _ _ => exact ⟨rfl, rfl⟩

theorem not_hasFailed_ofSpec (now : Instant) (spec : JobRunSpec) :
    ¬ (ObservedRun.ofSpec spec).HasFailed now := by
  rintro ⟨-, start, hstart, -⟩
  exact absurd hstart (by simp [ObservedRun.ofSpec])

section Looked

variable {c : Config} {n timeout i : Nat} {observed observed' : List (Nat × ObservedRun)}
  {specs : List JobRunSpec}

/-- **Nothing is missing any more** once what was missing has been taken. -/
theorem exists_lookup_of_taken (h : Gathered r p c n observed) (hfit : n < Nat.pow 2 32)
    (htook : Took p ((missingPositions n observed).map
      (JobRun.specAt r.kind c r settings timeout)) q) (hmore : Took q specs s)
    (hobserved : observe r s = .ok observed') (hi : i < n) :
    ∃ run, observed'.lookup i = some run := by
  cases hlookup : observed.lookup i with
  | some run => exact exists_lookup_of_took (htook.trans hmore) h.observed hobserved hlookup
  | none =>
      have hmissing : i ∈ missingPositions n observed :=
        List.mem_filter.mpr ⟨List.mem_range.mpr hi, by rw [hlookup]; rfl⟩
      have hthere := hmore.get? (htook.get?_iff.mpr
        (.inr ⟨_, List.mem_map_of_mem hmissing, rfl, rfl⟩))
      exact exists_lookup_of_counts hobserved (Nat.lt_trans hi hfit) hthere (countsFor_nameOf r i)

/-- **What was taken meanwhile decides nothing**: failures and successes were observed before. -/
theorem standing_of_took (now : Instant) (i : Nat) (htook : Took p specs s)
    (hobserved : observe r p = .ok observed) (hobserved' : observe r s = .ok observed') :
    (FailedAt now observed' i → FailedAt now observed i) ∧
    (SucceededAt observed' i → SucceededAt observed i) := by
  constructor
  · rintro ⟨run, hrun, hfailed⟩
    rcases lookup_observe_of_took htook hobserved hobserved' hrun with hold | ⟨spec, -, rfl⟩
    · exact ⟨run, hold, hfailed⟩
    · exact absurd hfailed (not_hasFailed_ofSpec now spec)
  · rintro ⟨run, hrun, hsucceeded⟩
    rcases lookup_observe_of_took htook hobserved hobserved' hrun with hold | ⟨spec, -, rfl⟩
    · exact ⟨run, hold, hsucceeded⟩
    · exact absurd hsucceeded (by simp [ObservedRun.ofSpec])

/-- **A request that has come to be generating stays so.** -/
theorem idle_of_weighed (h : Gathered r p c n observed) (hfit : n < Nat.pow 2 32)
    (ht : Duration.parse settings.timeout = .ok timeout)
    (htook : Took p ((missingPositions n observed).map
      (JobRun.specAt r.kind c r settings timeout)) q) (hmore : Took q specs s)
    (hlive : (weighed settings now r n observed).1.isFinished = false) :
    (weighed settings now r n observed).1 = r.inStatus .generating ∧
      Idle settings now (r.inStatus .generating) s := by
  have hcomes := comes_concluded settings now n observed r
  obtain ⟨hafter, hgenerating⟩ := hcomes.of_live hlive
  obtain ⟨hnoneFailed, hnotAll⟩ := hcomes.generating_iff.mp hgenerating
  refine ⟨hafter, ?_⟩
  have honline : s.offline = false := by
    rw [hmore.offline, htook.offline]
    exact online_of_observe h.observed
  have hagain : Gathered (r.inStatus .generating) s c n _ :=
    ⟨rfl, h.config, h.positions, (isMet_inStatus _ r _).mpr h.met, observe_online honline⟩
  generalize JobRun.observedByIndex _ _ _ = observed' at hagain
  have hobserved' : observe r s = .ok observed' := hagain.observed
  -- no position is missing, so nothing is taken
  have hmissing : missingPositions n observed' = [] := by
    refine List.filter_eq_nil_iff.mpr fun i hi => ?_
    obtain ⟨run, hrun⟩ :=
      exists_lookup_of_taken h hfit htook hmore hobserved' (List.mem_range.mp hi)
    simp [hrun]
  obtain ⟨s', htook', hrun⟩ := hagain.run_eq hfit now ht
  rw [hmissing] at htook' hrun
  cases htook' with
  | none _ =>
    refine .of_ok hrun ?_
    have hstanding := fun i => standing_of_took now i (htook.trans hmore) h.observed
      hobserved'
    have hcomes' := comes_concluded settings now n observed' (r.inStatus .generating)
    refine (hcomes'.generating_iff.mpr ⟨?_, ?_⟩).symm
    · rintro ⟨i, hi, hfailed⟩
      exact hnoneFailed ⟨i, hi, (hstanding i).1 hfailed⟩
    · exact fun hall => hnotAll fun i hi => (hstanding i).2 (hall i hi)

end Looked

/-! ## Every course -/

/-- **A pass that had nothing written is idle from then on.** -/
theorem Course.idle_of_unwritten {result : Except Failure (Request × Report)}
    {specs : List JobRunSpec} (h : Course settings now r p q result) (hmore : Took q specs s)
    (hwritten : written result = none) : Idle settings now r s := by
  cases h with
  | ended hended => exact .of_ok (run_of_ended hended) rfl
  | refused hlive hplan => exact .of_error (run_of_error hlive hplan)
  | rested hlive hplan _ =>
      exact .of_ok (run_of_rest hlive hplan) (same_of_written_eq_none hwritten)
  | cutOff hlive hplan hoffline =>
      exact .of_error (run_of_cutOff hlive hplan (hmore.offline.trans hoffline))
  | @worked c n timeout observed q hgathered hfit ht htook =>
      -- the status is the same, so the request is live, and has been generating all along
      have hsame : r.status = (weighed settings now r n observed).1.status :=
        same_of_written_eq_none hwritten
      have hlive : (weighed settings now r n observed).1.isFinished = false := by
        rw [Request.isFinished, ← hsame]
        exact hgathered.live
      obtain ⟨hafter, hidle⟩ := idle_of_weighed hgathered hfit ht htook hmore hlive
      rw [hafter, Request.status_inStatus] at hsame
      rw [← hsame, Request.inStatus_status] at hidle
      exact hidle

/-- **What a pass has taken a step up, and not to its end, is idle from then on.** -/
theorem Course.idle_of_live {report : Report} {specs : List JobRunSpec}
    (h : Course settings now r p q (.ok (after, report))) (hmore : Took q specs s)
    (hafter : after.isFinished = false) : Idle settings now after s := by
  cases h with
  | ended hended => exact absurd (hafter.symm.trans hended) (by decide)
  | rested hlive hplan hrests =>
      obtain ⟨rfl, hplan'⟩ := plan_opened_of_rests hplan hrests hlive hafter
      exact .of_ok (run_of_rest hafter hplan') rfl
  | worked hgathered hfit ht htook =>
      obtain ⟨heq, hidle⟩ := idle_of_weighed hgathered hfit ht htook hmore hafter
      rw [show (concluded settings _ _) = _ from heq]
      exact hidle

end Pass

namespace World

variable {settings : RunSettings} {now : Instant} {r : Request} {w : World Store Platform}

theorem passOver_of_idle (h : Pass.Idle settings now r w.platform) :
    (passOver settings now r w).1 = w := by
  rw [passOver_fst, h.written, h.platform]

theorem passOverAll_of_idle {rs : List Request}
    (h : ∀ r ∈ rs, Pass.Idle settings now r w.platform) :
    (passOverAll settings now rs w).1 = w := by
  induction rs with
  | nil => rfl
  | cons r rs ih =>
      rw [passOverAll_cons, passOver_of_idle (h r List.mem_cons_self)]
      exact ih fun r' hr' => h r' (List.mem_cons_of_mem _ hr')

/-- After a tick, every request that is live is idle. -/
theorem idle_of_tick (hback : ∀ record ∈ w.store.records, record.ReadsBack)
    (hr : r ∈ live (tick settings now w).1.store.records) :
    Pass.Idle settings now r (tick settings now w).1.platform := by
  obtain ⟨new, hnew, hread, hlive⟩ := mem_live_iff.mp hr
  have hget : (tick settings now w).1.store.get? r.name = some new :=
    Store.get?_eq_some_iff.mpr ⟨hnew, (Request.name_of_ofRecord hread).symm⟩
  by_cases hturn : ∃ r' ∈ live w.store.records, r.name = r'.name
  · obtain ⟨r', hr', hname⟩ := hturn
    obtain ⟨v, hturn⟩ : ∃ v, HasTurn settings now w r' v := exists_turn hr'
    obtain ⟨old, hold, hv, hread', -⟩ := hturn.stored
    obtain ⟨specs, hmore⟩ := hturn.took_after
    have hcourse := Pass.run_course settings now r' v.platform
    rw [hname, hturn.get?_tick] at hget
    rw [passOver_fst] at hmore
    -- the record is what it was, or it holds what the pass came to
    rcases record_of_turn hv hread' (hback old (Store.get?_eq_some_iff.mp hold).1) hget with
      ⟨hwritten, rfl⟩ | ⟨after, report, hresult, -, -, hafter⟩
    · obtain rfl := Except.ok.inj (hread.symm.trans hread')
      exact hcourse.idle_of_unwritten hmore hwritten
    · obtain rfl := Except.ok.inj (hread.symm.trans hafter)
      rw [hresult] at hcourse
      exact hcourse.idle_of_live hmore hlive
  · -- without a turn the record is the same, and then it had one
    rw [get?_tick_of_ne fun r' hr' hname => hturn ⟨r', hr', hname⟩] at hget
    have hmem := (Store.get?_eq_some_iff.mp hget).1
    exact absurd ⟨r, mem_live_iff.mpr ⟨new, hmem, hread, hlive⟩, rfl⟩ hturn

/-- **A tick is idempotent.** -/
theorem tick_tick (settings : RunSettings) (now : Instant) (w : World Store Platform)
    (hback : ∀ record ∈ w.store.records, record.ReadsBack) :
    (tick settings now (tick settings now w).1).1 = (tick settings now w).1 := by
  rw [tick_fst]
  exact passOverAll_of_idle fun r hr => idle_of_tick hback hr

/-- Two requests are stored, of which the job runs of the later one count for the earlier one as
well. -/
def nested : World Store Platform where
  store := ⟨[(oneProductRequest "r").toRecord, (oneProductRequest "r-1-generate-x").toRecord],
    show ["r", "r-1-generate-x"].Nodup by decide⟩
  platform := {}

theorem tick_tick_nested : (∀ record ∈ nested.store.records, record.ReadsBack) ∧
    (tick {} default (tick {} default nested).1).1 = (tick {} default nested).1 := by
  have hback : ∀ record ∈ nested.store.records, record.ReadsBack := by
    intro record hrecord
    rcases List.mem_cons.mp hrecord with rfl | hrecord
    · exact readsBack_oneProductRequest "r"
    · rw [List.mem_singleton.mp hrecord]
      exact readsBack_oneProductRequest "r-1-generate-x"
  exact ⟨hback, tick_tick {} default nested hback⟩

end World

end BomAssembly
