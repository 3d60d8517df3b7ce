import BomAssembly.Proofs.Request.Moves

/-!
# The life of a request that is held

A request that is held is changed in place: what a call has written by the time it fails would stay.
The calls are written here that way, as programs that read and write the request (`Held`), and each of
them does to the request what the function of that name does to a value (`Call.on_eq`). None writes
before it knows that it will succeed, so a call that fails has changed nothing.

Whatever the calls are, result and reason are there from the end of the request on and the output from
success on (`Told`), and nothing that is told of a request that has ended is taken back (`Continues`).
-/

namespace BomAssembly

theorem Status.rank_le_of_mayFollow {next s : Status} (h : next.MayFollow s) :
    s.rank ≤ next.rank := by
  obtain ⟨-, rfl | ⟨rfl, rfl⟩ | ⟨-, hrank⟩⟩ := h
  · cases s <;> decide
  · decide
  · exact Nat.le_of_lt hrank

namespace Request

/-! ## Calls -/

/-- A program on a request that is held. When it fails, what it has written stays. -/
abbrev Held (α : Type) : Type := ExceptT Failure (StateM Request) α

namespace Held

/-- Move to a status, in place. -/
def move (next : Status) : Held Bool := do
  let r ← get
  if r.status = next then return false
  else if next.MayFollow r.status then
    set { r with status := next }
    return true
  else throw (r.illegalMove next)

/-- Move to a status that is not the end, in place. -/
def advance (next : Status) : Held Bool :=
  if next.isTerminal then throw (.validation s!"use succeed/fail to reach {next.name}")
  else move next

/-- End in success, in place: the status is written first, then what is told of the end. -/
def succeed (output : String) : Held Bool := do
  let changed ← move .success
  if changed then
    modify fun r => { r with result := some .success }
    modify fun r => { r with reason := some successReason }
    modify fun r => { r with output := some output }
  return changed

/-- End in failure, in place. -/
def fail (result : Outcome) (reason : String) : Held Bool := do
  let changed ← move .failed
  if changed then
    modify fun r => { r with result := some result }
    modify fun r => { r with reason := some reason }
  return changed

/-- Put deliverables in place of those there are, in place. -/
def setDeliverables (ds : List Deliverable) : Held Unit := do
  let r ← get
  match r.config with
  | .valid (.operation o) =>
    set { r with config := .valid (.operation { o with deliverables := ds }) }
  | _ => throw (.validation s!"request '{r.name}' has no operation configuration to update")

end Held

/-- A call on a request that is held. -/
inductive Call where
  | advance (next : Status)
  | succeed (output : String)
  | fail (result : Outcome) (reason : String)
  | setConfig (c : Config)
  | setDeliverables (ds : List Deliverable)

namespace Call

/-- The program of a call. Its answer is whether there is a change; to set something counts as one. -/
def program : Call → Held Bool
  | advance next => Held.advance next
  | succeed output => Held.succeed output
  | fail result reason => Held.fail result reason
  | setConfig c => do
    modify (Request.setConfig c)
    return true
  | setDeliverables ds => do
    Held.setDeliverables ds
    return true

/-- The answer to a call, and the request that is held afterwards. -/
def on (c : Call) (r : Request) : Except Failure Bool × Request := c.program.run.run r

/-- What a call makes of the request as a value. -/
def apply : Call → Request → Except Failure (Request × Bool)
  | advance next, r => r.advance next
  | succeed output, r => r.succeed output
  | fail result reason, r => r.fail result reason
  | setConfig c, r => .ok (r.setConfig c, true)
  | setDeliverables ds, r => (r.setDeliverables ds).map (·, true)

end Call

/-- The request after calls, one after the other. -/
def lived (r : Request) (calls : List Call) : Request := calls.foldl (fun r c => (c.on r).2) r

/-! ## A call that fails has changed nothing -/

/-- The answer and the request that is held, if a failure leaves the request as it was. -/
def holding {α : Type} (r : Request) : Except Failure (Request × α) → Except Failure α × Request
  | .ok (r', a) => (.ok a, r')
  | .error e => (.error e, r)

namespace Held

/-- One program after another: a failure of the first ends both, and what it has written stays. -/
theorem run_bind {α β : Type} (x : Held α) (rest : α → Held β) (r : Request) :
    (x >>= rest).run.run r =
      match x.run.run r with
      | (.ok a, r') => (rest a).run.run r'
      | (.error e, r') => (.error e, r') := by
  rw [ExceptT.run_bind, StateT.run_bind]
  generalize x.run.run r = done
  obtain ⟨answer, r'⟩ := done
  cases answer with
  | ok a => rfl
  | error e => rfl

theorem run_move (next : Status) (r : Request) :
    (move next).run.run r = holding r (r.move next) := by
  have hread : (move next).run.run r =
      if r.status = next then (.ok false, r)
      else if next.MayFollow r.status then (.ok true, { r with status := next })
      else (.error (r.illegalMove next), r) := by
    show (if r.status = next then _ else if next.MayFollow r.status then _ else _ :
      Held Bool).run.run r = _
    split
    · rfl
    · split
      · rfl
      · rfl
  rw [hread, Request.move]
  split
  · rfl
  · split
    · rfl
    · rfl

theorem run_advance (next : Status) (r : Request) :
    (advance next).run.run r = holding r (r.advance next) := by
  rw [advance, Request.advance]
  by_cases hlast : next.isTerminal
  · rw [if_pos hlast, if_pos hlast]
    rfl
  · rw [if_neg hlast, if_neg hlast]
    exact run_move next r

/-- After a move there is more to do only if it was made. -/
theorem run_bind_move (next : Status) (rest : Bool → Held Bool) (r : Request) :
    (move next >>= rest).run.run r =
      match r.move next with
      | .ok (r', changed) => (rest changed).run.run r'
      | .error e => (.error e, r) := by
  rw [run_bind, run_move]
  cases r.move next with
  | ok moved => rfl
  | error e => rfl

theorem run_succeed (output : String) (r : Request) :
    (succeed output).run.run r = holding r (r.succeed output) := by
  rw [succeed, run_bind_move, Request.succeed]
  cases r.move .success with
  | error e => rfl
  | ok moved =>
      obtain ⟨r', changed⟩ := moved
      cases changed with
      | false => rfl
      | true => rfl

theorem run_fail (result : Outcome) (reason : String) (r : Request) :
    (fail result reason).run.run r = holding r (r.fail result reason) := by
  rw [fail, run_bind_move, Request.fail]
  cases r.move .failed with
  | error e => rfl
  | ok moved =>
      obtain ⟨r', changed⟩ := moved
      cases changed with
      | false => rfl
      | true => rfl

theorem run_setDeliverables (ds : List Deliverable) (r : Request) :
    (setDeliverables ds).run.run r = holding r ((r.setDeliverables ds).map (·, ())) := by
  rw [setDeliverables, Request.setDeliverables]
  show (match r.config with | .valid (.operation o) => _ | _ => _ : Held Unit).run.run r = _
  cases r.config with
  | missing => rfl
  | invalid raw error => rfl
  | valid c =>
      cases c with
      | build b => rfl
      | operation o => rfl

end Held

/-- **A call does to the request that is held what the function of its name does to a value**, and on
failure it leaves the request alone. -/
theorem Call.on_eq (c : Call) (r : Request) : c.on r = holding r (c.apply r) := by
  cases c with
  | advance next => exact Held.run_advance next r
  | succeed output => exact Held.run_succeed output r
  | fail result reason => exact Held.run_fail result reason r
  | setConfig c => rfl
  | setDeliverables ds =>
      rw [on, program, Held.run_bind, Held.run_setDeliverables, apply]
      cases r.setDeliverables ds with
      | ok r' => rfl
      | error e => rfl

/-! ## What a call does -/

/-- A request, and what one call can make of it. -/
inductive Takes (r : Request) : Request → Prop where
  | stays : Takes r r
  | configured (c : Config) : Takes r (r.setConfig c)
  | moved {next : Status} (hlive : next.isTerminal = false) (h : next.MayFollow r.status) :
    Takes r (r.inStatus next)
  | succeeded (h : r.status = .generating) (output : String) : Takes r (r.succeeded output)
  | failed (h : r.isFinished = false) (result : Outcome) (reason : String) :
    Takes r (r.failed result reason)

variable {r r' r'' : Request} {c : Call} {changed : Bool}

theorem takes_of_apply (h : c.apply r = .ok (r', changed)) :
    Takes r r' ∧ (changed = false → r' = r) := by
  cases c with
  | advance next =>
      rcases of_advance h with ⟨rfl, rfl⟩ | ⟨hlive, hfollow, rfl, rfl⟩
      · exact ⟨.stays, fun _ => rfl⟩
      · exact ⟨.moved hlive hfollow, nofun⟩
  | succeed output =>
      rcases of_succeed h with ⟨rfl, rfl⟩ | ⟨hgenerating, rfl, rfl⟩
      · exact ⟨.stays, fun _ => rfl⟩
      · exact ⟨.succeeded hgenerating output, nofun⟩
  | fail result reason =>
      rcases of_fail h with ⟨rfl, rfl⟩ | ⟨hlive, rfl, rfl⟩
      · exact ⟨.stays, fun _ => rfl⟩
      · exact ⟨.failed hlive result reason, nofun⟩
  | setConfig c =>
      obtain ⟨rfl, rfl⟩ := Prod.mk.inj (Except.ok.inj h)
      exact ⟨.configured c, nofun⟩
  | setDeliverables ds =>
      -- they are put in place as part of a whole configuration
      obtain ⟨set, hset, h⟩ := map_eq_ok.mp h
      obtain ⟨rfl, rfl⟩ := Prod.mk.inj h
      unfold setDeliverables at hset
      split at hset
      · obtain rfl := Except.ok.inj hset
        exact ⟨.configured _, nofun⟩
      · exact absurd hset (by simp)

/-- The call is refused, or answers that nothing has changed. -/
def Call.Idle (c : Call) (r : Request) : Prop :=
  (c.on r).1 = .ok false ∨ ∃ e, (c.on r).1 = .error e

/-- **What a call does to a request.** -/
theorem takes (c : Call) (r : Request) : Takes r (c.on r).2 := by
  rw [c.on_eq r]
  cases happly : c.apply r with
  | ok done => exact (takes_of_apply happly).1
  | error e => exact .stays

theorem Call.Idle.on_eq_self (h : c.Idle r) : (c.on r).2 = r := by
  rw [Idle, c.on_eq r] at h
  rw [c.on_eq r]
  cases happly : c.apply r with
  | ok done =>
      -- it was not refused, so it answered that nothing has changed
      rw [happly] at h
      refine (takes_of_apply happly).2 ?_
      rcases h with h | ⟨e, h⟩
      · exact Except.ok.inj h
      · exact absurd h (by simp [holding])
  | error e => rfl

/-! ## What is told of the end -/

/-- Result and reason are there just when the request has ended, the output just when it has ended in
success. -/
structure Told (r : Request) : Prop where
  result : r.result.isSome ↔ r.status = .success ∨ r.status = .failed
  reason : r.reason.isSome ↔ r.status = .success ∨ r.status = .failed
  output : r.output.isSome ↔ r.status = .success

theorem told_new (name id : String) (kind : Kind) (correlationId : String) :
    (new name id kind correlationId).Told where
  result := by simp [new]
  reason := by simp [new]
  output := by simp [new]

/-- Of a request that has not ended nothing is told. -/
theorem told_iff_of_live (h : r.isFinished = false) :
    r.Told ↔ r.result = none ∧ r.reason = none ∧ r.output = none := by
  obtain ⟨hsuccess, hfailed⟩ := status_ne_of_live h
  constructor
  · intro htold
    exact ⟨by simpa [hsuccess, hfailed] using htold.result,
      by simpa [hsuccess, hfailed] using htold.reason, by simpa [hsuccess] using htold.output⟩
  · rintro ⟨hresult, hreason, houtput⟩
    exact ⟨by simp [hresult, hsuccess, hfailed], by simp [hreason, hsuccess, hfailed],
      by simp [houtput, hsuccess]⟩

/-- **One call keeps what is told right.** -/
theorem Told.takes (h : r.Told) (htakes : Takes r r') : r'.Told := by
  cases htakes with
  | stays => exact h
  | configured c => exact ⟨h.result, h.reason, h.output⟩
  | @moved next hnext hfollow =>
      -- nothing is told before the move, nor after it
      have hlive : (r.inStatus next).isFinished = false := hnext
      exact (told_iff_of_live hlive).mpr ((told_iff_of_live hfollow.1).mp h)
  | succeeded _ output =>
      exact ⟨by simp [Request.succeeded], by simp [Request.succeeded],
        by simp [Request.succeeded]⟩
  | failed hlive result reason =>
      obtain ⟨-, -, houtput⟩ := (told_iff_of_live hlive).mp h
      exact ⟨by simp [Request.failed], by simp [Request.failed],
        by simp [Request.failed, houtput]⟩

theorem Told.lived (h : r.Told) (calls : List Call) : (r.lived calls).Told := by
  induction calls generalizing r with
  | nil => exact h
  | cons c calls ih => exact ih (h.takes (Request.takes c r))

/-! ## What is not taken back -/

/-- The later of two stages of a request has not come less far, and an end that was reached has stayed
with all that is told of it. -/
structure Continues (r r' : Request) : Prop where
  rank : r.status.rank ≤ r'.status.rank
  ended : r.status = .success ∨ r.status = .failed →
    r'.status = r.status ∧ r'.result = r.result ∧ r'.reason = r.reason ∧ r'.output = r.output

theorem Continues.refl (r : Request) : Continues r r :=
  ⟨Nat.le_refl _, fun _ => ⟨rfl, rfl, rfl, rfl⟩⟩

theorem Continues.trans (h : Continues r r') (h' : Continues r' r'') : Continues r r'' where
  rank := Nat.le_trans h.rank h'.rank
  ended := by
    intro hended
    -- the end was reached before, so it is still there in the middle
    obtain ⟨hstatus, hresult, hreason, houtput⟩ := h.ended hended
    obtain ⟨hstatus', hresult', hreason', houtput'⟩ := h'.ended (by rwa [hstatus])
    exact ⟨hstatus'.trans hstatus, hresult'.trans hresult, hreason'.trans hreason,
      houtput'.trans houtput⟩

/-- From a request that has not ended every step up continues it. -/
theorem Continues.of_live (h : r.isFinished = false) (hrank : r.status.rank ≤ r'.status.rank) :
    Continues r r' := by
  obtain ⟨hsuccess, hfailed⟩ := status_ne_of_live h
  refine ⟨hrank, ?_⟩
  rintro (heq | heq)
  · exact absurd heq hsuccess
  · exact absurd heq hfailed

theorem continues_of_takes (h : Takes r r') : Continues r r' := by
  cases h with
  | stays => exact .refl r
  | configured c => exact ⟨Nat.le_refl _, fun _ => ⟨rfl, rfl, rfl, rfl⟩⟩
  | moved _ hfollow => exact .of_live hfollow.1 (Status.rank_le_of_mayFollow hfollow)
  | succeeded hgenerating output =>
      refine .of_live (by rw [isFinished, hgenerating]; rfl) ?_
      rw [hgenerating, status_succeeded]
      decide
  | failed hlive result reason =>
      refine .of_live hlive ?_
      rw [status_failed]
      cases r.status <;> decide

/-- **However many calls follow, the request continues.** -/
theorem continues_lived (r : Request) (calls : List Call) : Continues r (r.lived calls) := by
  induction calls generalizing r with
  | nil => exact .refl r
  | cons c calls ih => exact (continues_of_takes (takes c r)).trans (ih _)

/-- What holds of a request all along: what is told fits the status, whatever is called later continues
it, and a call that is refused or answers that nothing has changed leaves all of it as it is. -/
structure Orderly (r : Request) : Prop where
  told : r.Told
  continues : ∀ later, Continues r (r.lived later)
  idle : ∀ c : Call, c.Idle r → (c.on r).2 = r

/-- **A new request stays orderly**, whatever is called on it and in whatever order. -/
theorem orderly_of_calls (name id : String) (kind : Kind) (correlationId : String)
    (calls : List Call) : ((new name id kind correlationId).lived calls).Orderly where
  told := (told_new name id kind correlationId).lived calls
  continues := continues_lived _
  idle := fun _ hidle => hidle.on_eq_self

-- A success that comes after the failure is refused.
example : (new "r" "1" .build "b").lived [.fail .general "lost", .succeed "out"] =
    (new "r" "1" .build "b").failed .general "lost" := by
  rfl

end Request

end BomAssembly
