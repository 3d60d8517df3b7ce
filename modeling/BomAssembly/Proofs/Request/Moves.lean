import BomAssembly.Proofs.Fallible
import BomAssembly.Request.Basic

/-!
# Moves of a request

A request that has not ended can always fail, and can always be generating; one that is generating
can succeed. These are the only moves that a pass makes, so none of them is ever illegal there.

A move that is made either finds the request where it is to go, and changes nothing, or it is one of
these (`of_advance`, `of_succeed`, `of_fail`).
-/

namespace BomAssembly.Request

/-- The request, ended in failure. -/
def failed (result : Outcome) (reason : String) (r : Request) : Request :=
  { r with status := .failed, result := some result, reason := some reason }

/-- The request, ended in success. -/
def succeeded (output : String) (r : Request) : Request :=
  { r with
    status := .success
    result := some .success
    reason := some successReason
    output := some output }

/-- The request in a status that is not its end. -/
def inStatus (status : Status) (r : Request) : Request := { r with status }

@[simp] theorem name_inStatus (s : Status) (r : Request) : (r.inStatus s).name = r.name := rfl

@[simp] theorem kind_inStatus (s : Status) (r : Request) : (r.inStatus s).kind = r.kind := rfl

@[simp] theorem config_inStatus (s : Status) (r : Request) : (r.inStatus s).config = r.config := rfl

@[simp] theorem status_inStatus (s : Status) (r : Request) : (r.inStatus s).status = s := rfl

@[simp] theorem name_failed (o : Outcome) (s : String) (r : Request) :
    (r.failed o s).name = r.name := rfl

@[simp] theorem name_succeeded (s : String) (r : Request) : (r.succeeded s).name = r.name := rfl

@[simp] theorem status_failed (o : Outcome) (s : String) (r : Request) :
    (r.failed o s).status = .failed := rfl

@[simp] theorem status_succeeded (s : String) (r : Request) :
    (r.succeeded s).status = .success := rfl

@[simp] theorem isFinished_failed (o : Outcome) (s : String) (r : Request) :
    (r.failed o s).isFinished = true := rfl

@[simp] theorem isFinished_succeeded (s : String) (r : Request) :
    (r.succeeded s).isFinished = true := rfl

theorem inStatus_status (r : Request) : r.inStatus r.status = r := rfl

variable {r : Request}

theorem move_of_mayFollow {next : Status} (h : next.MayFollow r.status) (hne : r.status ≠ next) :
    r.move next = .ok (r.inStatus next, true) := by
  rw [move, if_neg hne, if_pos h]
  rfl

theorem status_ne_of_live (h : r.isFinished = false) :
    r.status ≠ .success ∧ r.status ≠ .failed := by
  constructor
  · intro heq
    rw [isFinished, heq] at h
    exact absurd h (by decide)
  · intro heq
    rw [isFinished, heq] at h
    exact absurd h (by decide)

theorem fail_of_live (h : r.isFinished = false) (result : Outcome) (reason : String) :
    r.fail result reason = .ok (r.failed result reason, true) := by
  have hfollow : Status.MayFollow .failed r.status := ⟨h, .inl rfl⟩
  rw [fail, move_of_mayFollow hfollow (status_ne_of_live h).2]
  rfl

theorem succeed_of_generating (h : r.status = .generating) (output : String) :
    r.succeed output = .ok (r.succeeded output, true) := by
  have hfollow : Status.MayFollow .success r.status := by
    rw [h]
    decide
  have hne : r.status ≠ .success := by
    rw [h]
    decide
  rw [succeed, move_of_mayFollow hfollow hne]
  rfl

theorem advance_preparing_of_new (h : r.status = .new) :
    r.advance .preparing = .ok (r.inStatus .preparing, true) := by
  have hfollow : Status.MayFollow .preparing r.status := by
    rw [h]
    decide
  have hne : r.status ≠ .preparing := by
    rw [h]
    decide
  rw [advance, if_neg (by decide), move_of_mayFollow hfollow hne]

theorem advance_generating_of_live (h : r.isFinished = false) :
    ∃ changed, r.advance .generating = .ok (r.inStatus .generating, changed) := by
  rw [advance, if_neg (by decide)]
  by_cases hsame : r.status = .generating
  · refine ⟨false, ?_⟩
    rw [move, if_pos hsame, ← hsame, inStatus_status]
  · have hfollow : Status.MayFollow .generating r.status := by
      refine ⟨h, .inr (.inr ⟨rfl, ?_⟩)⟩
      cases hs : r.status with
      | new => decide
      | preparing => decide
      | generating => exact absurd hs hsame
      | success => exact absurd hs (status_ne_of_live h).1
      | failed => exact absurd hs (status_ne_of_live h).2
    exact ⟨true, move_of_mayFollow hfollow hsame⟩

/-! ## What a move does -/

variable {r' : Request} {next : Status} {changed : Bool}

theorem of_move (h : r.move next = .ok (r', changed)) :
    (r' = r ∧ changed = false) ∨
      (next.MayFollow r.status ∧ r' = r.inStatus next ∧ changed = true) := by
  unfold move at h
  split at h
  · obtain ⟨rfl, rfl⟩ := Prod.mk.inj (Except.ok.inj h)
    exact .inl ⟨rfl, rfl⟩
  · split at h
    · next hfollow =>
      obtain ⟨rfl, rfl⟩ := Prod.mk.inj (Except.ok.inj h)
      exact .inr ⟨hfollow, rfl, rfl⟩
    · exact absurd h (by simp)

theorem of_advance (h : r.advance next = .ok (r', changed)) :
    (r' = r ∧ changed = false) ∨ (next.isTerminal = false ∧ next.MayFollow r.status ∧
      r' = r.inStatus next ∧ changed = true) := by
  unfold advance at h
  split at h
  · exact absurd h (by simp)
  · next hlive => exact (of_move h).imp_right fun hmoved => ⟨by simpa using hlive, hmoved⟩

theorem of_succeed {output : String} (h : r.succeed output = .ok (r', changed)) :
    (r' = r ∧ changed = false) ∨
      (r.status = .generating ∧ r' = r.succeeded output ∧ changed = true) := by
  obtain ⟨⟨moved, did⟩, hmove, h⟩ := bind_eq_ok.mp h
  rcases of_move hmove with ⟨rfl, rfl⟩ | ⟨⟨-, hfollow⟩, rfl, rfl⟩
  · obtain ⟨rfl, rfl⟩ := Prod.mk.inj (Except.ok.inj h)
    exact .inl ⟨rfl, rfl⟩
  · obtain ⟨rfl, rfl⟩ := Prod.mk.inj (Except.ok.inj h)
    -- success follows generating only
    have hgenerating : r.status = .generating := by simpa [Status.isTerminal] using hfollow
    exact .inr ⟨hgenerating, rfl, rfl⟩

theorem of_fail {result : Outcome} {reason : String}
    (h : r.fail result reason = .ok (r', changed)) :
    (r' = r ∧ changed = false) ∨
      (r.isFinished = false ∧ r' = r.failed result reason ∧ changed = true) := by
  obtain ⟨⟨moved, did⟩, hmove, h⟩ := bind_eq_ok.mp h
  rcases of_move hmove with ⟨rfl, rfl⟩ | ⟨⟨hlive, -⟩, rfl, rfl⟩
  · obtain ⟨rfl, rfl⟩ := Prod.mk.inj (Except.ok.inj h)
    exact .inl ⟨rfl, rfl⟩
  · obtain ⟨rfl, rfl⟩ := Prod.mk.inj (Except.ok.inj h)
    exact .inr ⟨hlive, rfl, rfl⟩

end BomAssembly.Request
