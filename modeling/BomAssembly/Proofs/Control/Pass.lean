import BomAssembly.Control.Pass
import BomAssembly.Proofs.Control.Platform
import BomAssembly.Proofs.Request.Moves

/-!
# What a pass can do

A pass either rests, and then the platform is left alone, or it works. `Rests` lists the ways of
resting, `plan_cases` says that there is no other, and `finish_eq` tells what a request comes to that
was worked on. Since the moves of a live request are all legal, only the platform and the time limit
of the settings can make a pass fail.
-/

namespace BomAssembly

theorem Request.config_of_config? {r : Request} {c : Config} (h : r.config? = some c) :
    r.config = .valid c := by
  unfold config? ConfigState.config? at h
  split at h
  · next c' hc => rw [hc, Option.some.inj h]
  · exact absurd h (by simp)

namespace Pass

open Time (Instant)

/-! ## What a condition asks for -/

/-- A configuration that is ready for the job run at a position: an operation has the manifests of
all that it delivers. -/
def Ready : Config → Nat → Prop
  | .operation o, i =>
    o.deliverables ≠ [] ∧ (∀ d ∈ o.deliverables, d.HasPom) ∧ i < o.deliverables.length
  | .build b, i => i < b.products.length

/-- **A request that meets its condition** has a configuration of its own kind, with positions, and
ready for each of them. -/
theorem ready_of_isMet {r : Request} (h : (Condition.ofKind r.kind).IsMet r) :
    ∃ c n, r.config = .valid c ∧ c.kind = r.kind ∧ JobRun.count r.kind c = .ok n ∧ 0 < n ∧
      ∀ i < n, Ready c i := by
  cases hkind : r.kind with
  | build =>
      rw [hkind] at h
      have hproducts : r.products ≠ [] := h.2
      unfold Request.products at hproducts
      split at hproducts
      · next b hb =>
        exact ⟨.build b, _, Request.config_of_config? hb, rfl, rfl,
          List.length_pos_iff.mpr hproducts, fun i hi => hi⟩
      · exact absurd rfl hproducts
  | operation =>
      rw [hkind] at h
      obtain ⟨-, hdeliverables, hpoms⟩ := h
      unfold Request.deliverables at hdeliverables hpoms
      split at hdeliverables
      · next o ho =>
        rw [ho] at hpoms
        exact ⟨.operation o, _, Request.config_of_config? ho, rfl, rfl,
          List.length_pos_iff.mpr hdeliverables, fun i hi => ⟨hdeliverables, hpoms, hi⟩⟩
      · exact absurd rfl hdeliverables

/-! ## What is to be done -/

/-- The request once its preparation has begun. -/
def opened (r : Request) : Request :=
  if r.kind = .operation ∧ r.status = .new then r.inStatus .preparing else r

theorem begun_eq (r : Request) : begun r = .ok (opened r) := by
  unfold begun opened
  split
  · next h =>
    rw [Request.advance_preparing_of_new h.2]
    rfl
  · rfl

/-- Only the status is another. -/
theorem opened_eq (r : Request) : ∃ s, opened r = r.inStatus s := by
  unfold opened
  split
  · exact ⟨.preparing, rfl⟩
  · exact ⟨r.status, (Request.inStatus_status r).symm⟩

@[simp] theorem name_opened (r : Request) : (opened r).name = r.name := by
  obtain ⟨s, hs⟩ := opened_eq r
  rw [hs, Request.name_inStatus]

@[simp] theorem kind_opened (r : Request) : (opened r).kind = r.kind := by
  obtain ⟨s, hs⟩ := opened_eq r
  rw [hs, Request.kind_inStatus]

@[simp] theorem config_opened (r : Request) : (opened r).config = r.config := by
  obtain ⟨s, hs⟩ := opened_eq r
  rw [hs, Request.config_inStatus]

theorem config?_opened {r : Request} {c : Config} (h : r.config = .valid c) :
    (opened r).config? = some c := by
  rw [Request.config?, config_opened, h]
  rfl

theorem inStatus_opened (r : Request) (s : Status) : (opened r).inStatus s = r.inStatus s := by
  obtain ⟨t, ht⟩ := opened_eq r
  rw [ht]
  rfl

theorem opened_opened (r : Request) : opened (opened r) = opened r := by
  unfold opened
  split
  · next hnew => exact if_neg fun h => absurd h.2 (by simp)
  · rfl

theorem isMet_inStatus (c : Condition) (r : Request) (status : Status) :
    c.IsMet (r.inStatus status) ↔ c.IsMet r := by
  cases c with
  | pomsAvailable => exact .rfl
  | configAvailable => exact .rfl

theorem isMet_opened (c : Condition) (r : Request) : c.IsMet (opened r) ↔ c.IsMet r := by
  obtain ⟨s, hs⟩ := opened_eq r
  rw [hs]
  exact isMet_inStatus c r s

theorem isFinished_opened {r : Request} (h : r.isFinished = false) :
    (opened r).isFinished = false := by
  unfold opened
  split
  · rfl
  · exact h

/-- The request with nothing to do on the platform. -/
inductive Rests (settings : RunSettings) (r : Request) : Request → Option Condition → Prop where
  /-- Its configuration does not fit. -/
  | invalid {raw error : String} (h : r.config = .invalid raw error) :
    Rests settings r (r.failed .configInvalid s!"Configuration is invalid: {error}") none
  /-- Its condition is not met. -/
  | waiting (h : ¬ (Condition.ofKind r.kind).IsMet (opened r)) :
    Rests settings r (opened r) (some (Condition.ofKind r.kind))
  /-- No job runs can be made for its configuration. -/
  | refused {reason : String}
    (h : JobRun.allDesired r.kind (opened r) settings = .error (.configuration reason)) :
    Rests settings r ((opened r).failed .configInvalid reason) none

variable {settings : RunSettings} {r : Request}

theorem refused_of_live (h : r.isFinished = false) (reason : String) :
    refused reason r = .ok (.rest (r.failed .configInvalid reason) none) := by
  rw [refused, Request.fail_of_live h]
  rfl

theorem plan_of_invalid (h : r.isFinished = false) {raw error : String}
    (hc : r.config = .invalid raw error) : plan settings r =
      .ok (.rest (r.failed .configInvalid s!"Configuration is invalid: {error}") none) := by
  rw [plan, hc]
  exact refused_of_live h _

theorem plan_of_valid (h : ∀ raw error, r.config ≠ .invalid raw error) : plan settings r =
    if (Condition.ofKind r.kind).IsMet (opened r) then workOf settings (opened r)
    else .ok (.rest (opened r) (some (Condition.ofKind r.kind))) := by
  unfold plan
  split
  · next raw error hc => exact absurd hc (h raw error)
  · rw [begun_eq]
    show (if (Condition.ofKind (opened r).kind).IsMet (opened r) then _ else _) = _
    rw [kind_opened]
    rfl

/-- **Resting and working are all there is.** -/
theorem plan_cases (hlive : r.isFinished = false) {p : Plan} (h : plan settings r = .ok p) :
    (∃ after unmet, p = .rest after unmet ∧ Rests settings r after unmet) ∨
    ∃ desired, p = .work (opened r) desired ∧
      JobRun.allDesired r.kind (opened r) settings = .ok desired := by
  by_cases hinvalid : ∃ raw error, r.config = .invalid raw error
  · obtain ⟨raw, error, hc⟩ := hinvalid
    rw [plan_of_invalid hlive hc] at h
    exact .inl ⟨_, _, (Except.ok.inj h).symm, .invalid hc⟩
  · rw [plan_of_valid fun raw error hc => hinvalid ⟨raw, error, hc⟩] at h
    split at h
    · rw [workOf, kind_opened] at h
      split at h
      · next desired hd => exact .inr ⟨desired, (Except.ok.inj h).symm, hd⟩
      · next reason hd =>
        rw [refused_of_live (isFinished_opened hlive)] at h
        exact .inl ⟨_, _, (Except.ok.inj h).symm, .refused hd⟩
      · exact absurd h (by simp)
    · next hmet => exact .inl ⟨_, _, (Except.ok.inj h).symm, .waiting hmet⟩

/-! ## What a request comes to -/

/-- The request once it is known how its job runs stand. -/
def concluded (settings : RunSettings) (ss : List (Nat × Standing)) (r : Request) : Request :=
  match failures ss with
  | (i, result, reason) :: more =>
    let positions := positionsText (i :: more.map Prod.fst)
    r.failed result s!"Generation failed for index {positions}: {reason}"
  | [] =>
    if waiting ss = 0 then r.succeeded (FilePath.join settings.outputRoot r.name)
    else r.inStatus .generating

theorem conclude_eq (ss : List (Nat × Standing)) (h : r.status = .generating) :
    conclude settings ss r = .ok (concluded settings ss r) := by
  have hlive : r.isFinished = false := by
    rw [Request.isFinished, h]
    rfl
  unfold conclude concluded
  cases failures ss with
  | cons f more => exact congrArg (Except.map Prod.fst) (Request.fail_of_live hlive _ _)
  | nil =>
      dsimp only
      split
      · exact congrArg (Except.map Prod.fst) (Request.succeed_of_generating h _)
      · rw [← h, Request.inStatus_status]

/-- What a pass reports of a request that was worked on. -/
def worked (settings : RunSettings) (now : Instant) (before r : Request)
    (desired : List (Nat × JobRunSpec)) (observed : List (Nat × ObservedRun))
    (created : List String) : Request × Report :=
  let ss := standings now desired observed
  let after := concluded settings ss (r.inStatus .generating)
  (after, { Report.quiet before after none with created, inProgress := waiting ss })

/-- **Finishing never fails.** -/
theorem finish_eq (hlive : r.isFinished = false) (now : Instant) (before : Request)
    (desired : List (Nat × JobRunSpec)) (observed : List (Nat × ObservedRun))
    (created : List String) : finish settings now before r desired observed created =
      .ok (worked settings now before r desired observed created) := by
  obtain ⟨changed, hadvance⟩ := Request.advance_generating_of_live hlive
  rw [finish, hadvance]
  show (do
    let after ← conclude settings (standings now desired observed) (r.inStatus .generating)
    return (after, _) : Except Failure (Request × Report)) = _
  rw [conclude_eq _ rfl]
  rfl

/-- Once the platform has shown its job runs and taken what was missing, the pass succeeds. -/
theorem work_of_created {π : Type} [JobPlatform π] {p q : π} {now : Instant} {before : Request}
    {desired : List (Nat × JobRunSpec)} {observed : List (Nat × ObservedRun)}
    {created : List String} (hlive : r.isFinished = false) (hobserve : observe r p = .ok observed)
    (hcreate : createMissing observed desired p = (q, .ok created)) :
    work settings now before r desired p =
      (q, .ok (worked settings now before r desired observed created)) := by
  rw [work, hobserve]
  dsimp only
  rw [hcreate]
  dsimp only
  rw [finish_eq hlive]

theorem createOne_of_some {π : Type} [JobPlatform π] {observed : List (Nat × ObservedRun)}
    {d : Nat × JobRunSpec} {run : ObservedRun} (h : observed.lookup d.1 = some run) (p : π) :
    createOne observed d p = (p, .ok []) := by
  rw [createOne, h]
  rfl

/-! ## On the platform in memory -/

section Memory

variable {p : Platform}

section Create

variable {observed : List (Nat × ObservedRun)} {d : Nat × JobRunSpec}

theorem createOne_of_none (h : observed.lookup d.1 = none) (hoffline : p.offline = false) :
    createOne observed d p =
      if p.runs.contains d.2.name then (p, .ok []) else (p.take d.2, .ok [d.2.name]) := by
  rw [createOne, h, show JobPlatform.create d.2 p = p.create d.2 from rfl,
    Platform.create_online hoffline]
  cases p.runs.contains d.2.name <;> rfl

theorem createOne_offline (h : observed.lookup d.1 = none) (hoffline : p.offline = true) :
    createOne observed d p = (p, .error Platform.outage.toFailure) := by
  rw [createOne, h, show JobPlatform.create d.2 p = p.create d.2 from rfl, Platform.create,
    if_pos hoffline]
  rfl

/-- **A job run is taken under a free name or the platform is left alone**, and only an outage makes
that fail. -/
theorem createOne_cases (observed : List (Nat × ObservedRun)) (d : Nat × JobRunSpec) (p : Platform) :
    createOne observed d p = (p, .ok []) ∨
    (p.runs.contains d.2.name = false ∧ createOne observed d p = (p.take d.2, .ok [d.2.name])) ∨
    (p.offline = true ∧ createOne observed d p = (p, .error Platform.outage.toFailure)) := by
  cases hlookup : observed.lookup d.1 with
  | some run => exact .inl (createOne_of_some hlookup p)
  | none =>
      cases hoffline : p.offline with
      | true => exact .inr (.inr ⟨rfl, createOne_offline hlookup hoffline⟩)
      | false =>
          cases hfree : p.runs.contains d.2.name with
          | true =>
              rw [createOne_of_none hlookup hoffline, if_pos hfree]
              exact .inl rfl
          | false =>
              rw [createOne_of_none hlookup hoffline, if_neg (by rw [hfree]; decide)]
              exact .inr (.inl ⟨rfl, rfl⟩)

end Create

theorem observe_online (h : p.offline = false) : observe r p =
    .ok (JobRun.observedByIndex r.name (Phase.generating r.kind)
      (p.allRuns.filter fun run =>
        Text.startsWith run.name (s!"{JobRun.family r.name (Phase.generating r.kind)}-"))) := by
  have hlist := Platform.listByStart_online h
    (s!"{JobRun.family r.name (Phase.generating r.kind)}-")
  unfold observe
  dsimp only
  rw [show JobPlatform.listByStart _ p = p.listByStart _ from rfl, hlist]

theorem observe_offline (h : p.offline = true) : observe r p = .error Platform.outage.toFailure := by
  unfold observe
  dsimp only
  rw [show JobPlatform.listByStart _ p = p.listByStart _ from rfl, Platform.listByStart_offline h]

theorem online_of_observe {observed : List (Nat × ObservedRun)} (h : observe r p = .ok observed) :
    p.offline = false := by
  cases hoffline : p.offline with
  | false => rfl
  | true =>
      rw [observe_offline hoffline] at h
      exact absurd h (by simp)

theorem work_offline (h : p.offline = true) (now : Instant) (before : Request)
    (desired : List (Nat × JobRunSpec)) :
    work settings now before r desired p = (p, .error Platform.outage.toFailure) := by
  rw [work, observe_offline h]

end Memory

end Pass

end BomAssembly
