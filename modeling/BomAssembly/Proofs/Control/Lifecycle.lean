import BomAssembly.Proofs.Control.Standing
import BomAssembly.Proofs.Control.Turns

/-!
# The stored life of requests

Whatever the controller does, the stored names stay as they are, and a stored record changes only if
it was read as a live request, which has then come further in its life (`Request.StepsUp`). A request
that has ended keeps its record, and nothing is created for it.
-/

namespace BomAssembly

open Platform (Took)
open Time (Instant)

/-! ## A step up -/

/-- One request at two stages, the later of them further on. -/
structure Request.StepsUp (r after : Request) : Prop where
  same : SameRequest r after
  live : r.isFinished = false
  rank : r.status.rank < after.status.rank
  preparing : after.status = .preparing → after.kind = .operation
  /-- A result comes with the end, and says how it ended. -/
  result : r.result = none → (after.result ≠ none ↔ after.isFinished = true) ∧
    (after.result = some .success ↔ after.status = .success)

namespace Request

variable {r : Request}

theorem rank_lt_of_live (h : r.isFinished = false) : r.status.rank < 3 := by
  unfold isFinished at h
  revert h
  cases r.status <;> decide

theorem StepsUp.failed (h : r.isFinished = false) {result : Outcome} (hresult : result ≠ .success)
    (reason : String) : r.StepsUp (r.failed result reason) where
  same := (SameRequest.refl r).failed result reason
  live := h
  rank := rank_lt_of_live h
  preparing := fun hstatus => absurd hstatus (by simp)
  result := fun _ => by simp [Request.failed, isFinished, Status.isTerminal, hresult]

theorem StepsUp.succeeded (h : r.isFinished = false) (output : String) :
    r.StepsUp (r.succeeded output) where
  same := (SameRequest.refl r).succeeded output
  live := h
  rank := rank_lt_of_live h
  preparing := fun hstatus => absurd hstatus (by simp)
  result := fun _ => by simp [Request.succeeded, isFinished, Status.isTerminal]

/-- A status that is not the end leaves the result as it is. -/
theorem StepsUp.inStatus (h : r.isFinished = false) {s : Status} (hs : s.isTerminal = false)
    (hrank : r.status.rank < s.rank) (hpreparing : s = .preparing → r.kind = .operation) :
    r.StepsUp (r.inStatus s) where
  same := (SameRequest.refl r).inStatus s
  live := h
  rank := hrank
  preparing := hpreparing
  result := by
    intro hnone
    have hresult : (r.inStatus s).result = none := hnone
    have hne : s ≠ .success := by
      rintro rfl
      exact absurd hs (by decide)
    simp [hresult, isFinished, hs, hne]

end Request

namespace Pass

variable {settings : RunSettings} {now : Instant} {r after : Request} {p q : Platform}

theorem opened_of_ne (h : r.status ≠ (opened r).status) :
    opened r = r.inStatus .preparing ∧ r.kind = .operation ∧ r.status = .new := by
  unfold opened at h ⊢
  split at h
  · next hnew => exact ⟨if_pos hnew, hnew⟩
  · exact absurd rfl h

theorem Rests.stepsUp {unmet : Option Condition} (h : Rests settings r after unmet)
    (hlive : r.isFinished = false) (hne : r.status ≠ after.status) : r.StepsUp after := by
  cases h with
  | invalid _ => exact .failed hlive (by decide) _
  | waiting _ =>
      obtain ⟨hopened, hkind, hnew⟩ := opened_of_ne hne
      rw [hopened]
      refine .inStatus hlive rfl ?_ fun _ => hkind
      rw [hnew]
      decide
  | @refused reason _ =>
      -- that its preparation had begun does not show in a request that failed
      have hfailed : (opened r).failed .configInvalid reason = r.failed .configInvalid reason := by
        obtain ⟨s, hs⟩ := opened_eq r
        rw [hs]
        rfl
      rw [hfailed]
      exact .failed hlive (by decide) _

theorem Comes.stepsUp {n : Nat} {observed : List (Nat × ObservedRun)}
    (h : Comes settings now n observed r after) (hlive : r.isFinished = false)
    (hne : r.status ≠ after.status) : r.StepsUp after := by
  cases h with
  | failed _ _ has => exact .failed hlive has.ne_success _
  | success _ _ => exact .succeeded hlive _
  | generating _ _ =>
      have hrank : r.status.rank < Status.rank .generating := by
        have hlive' := hlive
        unfold Request.isFinished at hlive'
        revert hlive' hne
        rw [Request.status_inStatus]
        cases r.status <;> decide
      exact .inStatus hlive rfl hrank fun heq => absurd heq (by decide)

/-- **A pass that changes the status takes a live request a step up.** -/
theorem Course.stepsUp {report : Report} (h : Course settings now r p q (.ok (after, report)))
    (hchanged : report.statusChanged = true) : r.StepsUp after := by
  obtain ⟨-, hprevious, hcurrent⟩ := h.same
  have hne : r.status ≠ after.status := by
    rw [← hprevious, ← hcurrent]
    exact of_decide_eq_true hchanged
  cases h with
  | ended _ => exact absurd rfl hne
  | rested hlive _ hrests => exact hrests.stepsUp hlive hne
  | worked hgathered _ _ _ =>
      exact (comes_concluded settings now _ _ r).stepsUp hgathered.live hne

end Pass

/-! ## Stored requests -/

/-- What a record may become: it is read as a live request before, and further on in its life
after. -/
structure Record.MovesOn (old new : Record) : Prop where
  name : new.name = old.name
  stepsUp : ∃ r after, Request.ofRecord old = .ok r ∧ Request.ofRecord new = .ok after ∧
    r.StepsUp after

/-- A job run is one of a request. -/
def JobRun.MadeFor (spec : JobRunSpec) (r : Request) : Prop :=
  ∃ c i settings, desired r.kind c i r settings = .ok spec

theorem JobRun.MadeFor.name_eq {spec : JobRunSpec} {r r' : Request} (h : MadeFor spec r)
    (h' : MadeFor spec r') : r.name = r'.name := by
  obtain ⟨c, i, settings, hdesired⟩ := h
  obtain ⟨c', i', settings', hdesired'⟩ := h'
  exact (subPath_of_desired hdesired).symm.trans (subPath_of_desired hdesired')

namespace World

variable {settings : RunSettings} {now : Instant} {r : Request} {v w : World Store Platform}
  {record : Record} {specs : List JobRunSpec}

/-- What becomes of a world when these specs are submitted: the stored names stay, no record changes
but by a step up, a record of a request that has ended does not change at all, and job runs are
created for live requests only. -/
structure Advances (v w : World Store Platform) (specs : List JobRunSpec) : Prop where
  names : w.store.names = v.store.names
  records : List.Forall₂ (fun old new => new = old ∨ Record.MovesOn old new)
    v.store.records w.store.records
  submitted : w.platform.submitted = v.platform.submitted ++ specs
  madeFor : ∀ spec ∈ specs, ∃ r ∈ live v.store.records, JobRun.MadeFor spec r
  ended : ∀ record ∈ v.store.records, ∀ r, Request.ofRecord record = .ok r →
    r.isFinished = true → record ∈ w.store.records ∧ ∀ spec ∈ specs, ¬ JobRun.MadeFor spec r

/-- A record that does not move on stays, and what is made for live requests is made for no other. -/
theorem Advances.intro (hnames : w.store.names = v.store.names)
    (hrecords : ∀ name old new, v.store.get? name = some old → w.store.get? name = some new →
      new = old ∨ Record.MovesOn old new)
    (htook : Took v.platform specs w.platform)
    (hmade : ∀ spec ∈ specs, ∃ r ∈ live v.store.records, JobRun.MadeFor spec r) :
    Advances v w specs := by
  refine ⟨hnames, Store.forall₂_of_names hnames hrecords, htook.submitted, hmade, ?_⟩
  intro record hrecord r hread hfinished
  have hget : v.store.get? record.name = some record :=
    Store.get?_eq_some_iff.mpr ⟨hrecord, rfl⟩
  constructor
  · have hmem : record.name ∈ w.store.names := by
      rw [hnames]
      exact List.mem_map_of_mem hrecord
    obtain ⟨new, hnew⟩ := Store.mem_names_iff.mp hmem
    rcases hrecords _ _ _ hget hnew with rfl | hmoves
    · exact (Store.get?_eq_some_iff.mp hnew).1
    · obtain ⟨r', after, hread', -, hsteps⟩ := hmoves.stepsUp
      obtain rfl := Except.ok.inj (hread.symm.trans hread')
      exact absurd (hsteps.live.symm.trans hfinished) (by decide)
  · intro spec hspec hfor
    obtain ⟨r', hlive, hfor'⟩ := hmade spec hspec
    obtain ⟨record', hrecord', hread', hlive'⟩ := mem_live_iff.mp hlive
    -- the two requests have one name, so they are read from one record
    have hname : record'.name = record.name := by
      rw [← Request.name_of_ofRecord hread, ← Request.name_of_ofRecord hread']
      exact hfor'.name_eq hfor
    obtain rfl := List.inj_on_of_nodup_map v.store.names_nodup hrecord' hrecord hname
    obtain rfl := Except.ok.inj (hread.symm.trans hread')
    exact absurd (hlive'.symm.trans hfinished) (by decide)

/-- The record of the request whose turn it is stays, or moves on. -/
theorem movesOn_of_turn (hget : v.store.get? r.name = some record)
    (hread : Request.ofRecord record = .ok r) (hback : record.ReadsBack) {new : Record}
    (hnew : (passOver settings now r v).1.store.get? r.name = some new) :
    new = record ∨ Record.MovesOn record new := by
  rcases record_of_turn hget hread hback hnew with
    ⟨-, hsame⟩ | ⟨after, report, hresult, hchanged, hname, hafter⟩
  · exact .inl hsame
  · have hcourse := Pass.run_course settings now r v.platform
    rw [hresult] at hcourse
    exact .inr ⟨hname, r, after, hread, hafter, hcourse.stepsUp hchanged⟩

theorem madeFor_of_callsFor {spec : JobRunSpec} (h : Pass.CallsFor settings r spec) :
    JobRun.MadeFor spec r := by
  obtain ⟨c, i, -, -, -, hdesired⟩ := h.ready
  exact ⟨c, i, settings, hdesired⟩

/-- **What a tick does to the stored requests.** -/
theorem tick_advances (settings : RunSettings) (now : Instant)
    (hback : ∀ record ∈ w.store.records, record.ReadsBack) :
    ∃ specs, Advances w (tick settings now w).1 specs := by
  obtain ⟨specs, htook⟩ := took_passOverAll settings now (live w.store.records) w
  refine ⟨specs, .intro (names_passOverAll settings now _ w) ?_ htook ?_⟩
  · intro name old new hold hnew
    by_cases hlive : ∃ r ∈ live w.store.records, name = r.name
    · obtain ⟨r, hr, rfl⟩ := hlive
      obtain ⟨v, hturn⟩ := exists_turn hr
      obtain ⟨record, hw, hv, hread, -⟩ := hturn.stored
      obtain rfl := Option.some.inj (hold.symm.trans hw)
      rw [hturn.get?_tick] at hnew
      exact movesOn_of_turn hv hread (hback old (Store.get?_eq_some_iff.mp hw).1) hnew
    · rw [get?_tick_of_ne fun r hr hname => hlive ⟨r, hr, hname⟩] at hnew
      exact .inl (Option.some.inj (hnew.symm.trans hold))
  · intro spec hspec
    obtain ⟨r, v, taken, hturn, htaken, hmem⟩ := exists_turn_of_took htook hspec
    exact ⟨r, hturn.mem_live, madeFor_of_callsFor (callsFor_of_turn htaken hmem)⟩

/-- **What the turn of a single stored request does.** -/
theorem passOver_advances (settings : RunSettings) (now : Instant)
    (hget : w.store.get? r.name = some record) (hread : Request.ofRecord record = .ok r)
    (hback : record.ReadsBack) : ∃ specs, Advances w (passOver settings now r w).1 specs := by
  obtain ⟨specs, htook⟩ := took_passOver settings now r w
  refine ⟨specs, .intro (names_passOver settings now r w) ?_ htook ?_⟩
  · intro name old new hold hnew
    by_cases hname : name = r.name
    · subst hname
      obtain rfl := Option.some.inj (hold.symm.trans hget)
      exact movesOn_of_turn hget hread hback hnew
    · rw [get?_passOver_of_ne hname] at hnew
      exact .inl (Option.some.inj (hnew.symm.trans hold))
  · intro spec hspec
    have hcalls := callsFor_of_turn htook hspec
    have hlive : r ∈ live w.store.records :=
      mem_live_iff.mpr ⟨record, (Store.get?_eq_some_iff.mp hget).1, hread, hcalls.live⟩
    exact ⟨r, hlive, madeFor_of_callsFor hcalls⟩

theorem Advances.refl (w : World Store Platform) : Advances w w [] :=
  .intro rfl (fun _ _ _ hold hnew => .inl (Option.some.inj (hnew.symm.trans hold))) (.none _)
    fun _ hspec => absurd hspec List.not_mem_nil

theorem passOverNamed_advances (settings : RunSettings) (now : Instant) (name : String)
    (hback : ∀ record ∈ w.store.records, record.ReadsBack) :
    ∃ specs, Advances w (passOverNamed settings now name w).1 specs := by
  cases hget : w.store.get? name with
  | none =>
      rw [passOverNamed_of_absent hget]
      exact ⟨[], .refl w⟩
  | some record =>
      cases hread : Request.ofRecord record with
      | error e =>
          rw [passOverNamed_of_unreadable hget hread]
          exact ⟨[], .refl w⟩
      | ok r =>
          rw [passOverNamed_of_read hget hread]
          obtain ⟨hmem, rfl⟩ := Store.get?_eq_some_iff.mp hget
          rw [← Request.name_of_ofRecord hread] at hget
          exact passOver_advances settings now hget hread (hback record hmem)

/-- A request that was removed meanwhile is not stored again. -/
theorem store_passOver_of_removed (settings : RunSettings) (now : Instant)
    (h : r.name ∉ w.store.names) : (passOver settings now r w).1.store = w.store := by
  rw [passOver_fst]
  dsimp only
  split
  · next record hwritten =>
    rw [Store.update, name_of_written hwritten, if_neg h]
  · rfl

/-- **The stored life is monotone**, in ticks and in turns of single requests. Names and their order
stay even when requests have a turn that are no longer stored, and these are not stored again. -/
theorem lifecycle_monotone (w : World Store Platform)
    (hback : ∀ record ∈ w.store.records, record.ReadsBack) :
    (∀ settings now, ∃ specs, Advances w (tick settings now w).1 specs) ∧
    (∀ settings now name, ∃ specs, Advances w (passOverNamed settings now name w).1 specs) ∧
    (∀ settings now rs, (passOverAll settings now rs w).1.store.names = w.store.names) ∧
    ∀ settings now (r : Request), r.name ∉ w.store.names →
      (passOver settings now r w).1.store = w.store :=
  ⟨fun settings now => tick_advances settings now hback,
    fun settings now name => passOverNamed_advances settings now name hback,
    fun settings now rs => names_passOverAll settings now rs w,
    fun settings now _ h => store_passOver_of_removed settings now h⟩

/-- A request for a build of one product is stored, and the platform has no job runs. -/
def justStored : World Store Platform where
  store := ⟨[(oneProductRequest "r").toRecord], List.nodup_singleton _⟩
  platform := {}

theorem readsBack_justStored : ∀ record ∈ justStored.store.records, record.ReadsBack := by
  intro record hrecord
  rw [List.mem_singleton.mp hrecord]
  exact readsBack_oneProductRequest "r"

theorem lifecycle_monotone_justStored :
    (∀ record ∈ justStored.store.records, record.ReadsBack) ∧
    (∃ specs, Advances justStored (tick {} default justStored).1 specs) ∧
    (∃ specs, Advances justStored (passOverNamed {} default "r" justStored).1 specs) ∧
    (passOverAll {} default [Request.new "x" "2" .build "b"] justStored).1.store.names = ["r"] ∧
    (passOver {} default (Request.new "x" "2" .build "b") justStored).1.store = justStored.store := by
  have hremoved : (Request.new "x" "2" .build "b").name ∉ justStored.store.names := by decide
  obtain ⟨htick, hturn, hnames, hstore⟩ := lifecycle_monotone justStored readsBack_justStored
  exact ⟨readsBack_justStored, htick {} default, hturn {} default "r", hnames {} default _,
    hstore {} default _ hremoved⟩

end World

end BomAssembly
