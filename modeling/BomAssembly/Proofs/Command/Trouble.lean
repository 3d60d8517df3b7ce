import BomAssembly.Command.Trouble
import BomAssembly.Host.Tree

/-!
# Commands run on a tree of files

What a command comes to in a session, step by step: a sequence ends well exactly when each of its steps
does (`outcome_bind_eq_ok`), and the trouble of a step is the trouble of the sequence.
-/

namespace BomAssembly.CommandM

variable {α β : Type}

/-- What a command comes to in a session, and the session after it. -/
def outcome (x : CommandM (StateM Session) α) (s : Session) : Except Trouble α × Session := x.run s

variable {s s' : Session} {x : CommandM (StateM Session) α} {f : α → CommandM (StateM Session) β}

theorem outcome_bind : outcome (x >>= f) s =
    match outcome x s with
    | (.ok a, t) => outcome (f a) t
    | (.error e, t) => (.error e, t) := by
  show (match x.run s with
    | (r, t) => ExceptT.bindCont f r t) = _
  rw [outcome]
  rcases x.run s with ⟨_ | _, _⟩ <;> rfl

theorem outcome_bind_of_ok {a : α} (h : outcome x s = (.ok a, s')) :
    outcome (x >>= f) s = outcome (f a) s' := by
  rw [outcome_bind, h]

theorem outcome_bind_of_error {e : Trouble} (h : outcome x s = (.error e, s')) :
    outcome (x >>= f) s = (.error e, s') := by
  rw [outcome_bind, h]

theorem outcome_bind_eq_ok {b : β} : outcome (x >>= f) s = (.ok b, s') ↔
    ∃ a t, outcome x s = (.ok a, t) ∧ outcome (f a) t = (.ok b, s') := by
  rcases h : outcome x s with ⟨e | a, t⟩
  · rw [outcome_bind_of_error h]
    simp
  · rw [outcome_bind_of_ok h]
    simp [and_assoc]

@[simp] theorem outcome_pure (a : α) :
    outcome (pure a : CommandM (StateM Session) α) s = (.ok a, s) := rfl

@[simp] theorem outcome_throw (e : Trouble) :
    outcome (throw e : CommandM (StateM Session) α) s = (.error e, s) := rfl

@[simp] theorem outcome_ofExcept {ε : Type} (trouble : ε → Trouble) (r : Except ε α) :
    outcome (ofExcept trouble r) s = (r.mapError trouble, s) := by
  cases r <;> rfl

/-! ## Steps that end well -/

theorem mapError_eq_ok {ε ε' : Type} {f : ε → ε'} {r : Except ε α} {a : α} :
    r.mapError f = .ok a ↔ r = .ok a := by
  cases r with
  | error e =>
      show Except.error (f e) = .ok a ↔ Except.error e = .ok a
      simp
  | ok b =>
      show Except.ok b = .ok a ↔ Except.ok b = .ok a
      simp

theorem ofExcept_eq_ok {ε : Type} {trouble : ε → Trouble} {r : Except ε α} {a : α} :
    outcome (ofExcept trouble r) s = (.ok a, s') ↔ r = .ok a ∧ s' = s := by
  rw [outcome_ofExcept, Prod.mk.injEq, mapError_eq_ok, eq_comm (a := s)]

theorem ofReader_eq_ok {what : String} {o : Option α} {a : α} :
    outcome (ofReader what o) s = (.ok a, s') ↔ o = some a ∧ s' = s := by
  cases o with
  | none => simp [ofReader]
  | some b => simp [ofReader, eq_comm]

theorem pair_eq_iff {ε : Type} {p : Except ε α × Session} {a : α} :
    p.1 = .ok a ∧ p.2 = s' ↔ p = (.ok a, s') := by
  rw [Prod.ext_iff]

/-- A file operation whose error is told in some words. -/
theorem fileOperation_eq_ok {trouble : FileError → Trouble}
    {action : StateM Session (Except FileError α)} {a : α} :
    outcome (ExceptT.mk do return (← action).mapError trouble) s = (.ok a, s') ↔
      action s = (.ok a, s') := by
  show ((action s).1.mapError trouble, (action s).2) = (.ok a, s') ↔ _
  rw [Prod.mk.injEq, mapError_eq_ok]
  exact pair_eq_iff

theorem ofFile_eq_ok {action : StateM Session (Except FileError α)} {a : α} :
    outcome (ofFile action) s = (.ok a, s') ↔ action s = (.ok a, s') :=
  fileOperation_eq_ok

/-- Saying what is done changes nothing where it is done well. -/
theorem doing_eq_ok {what : String} {a : α} :
    outcome (doing what x) s = (.ok a, s') ↔ outcome x s = (.ok a, s') := by
  show ((outcome x s).1.mapError (Trouble.within what), (outcome x s).2) = (.ok a, s') ↔ _
  rw [Prod.mk.injEq, mapError_eq_ok]
  exact pair_eq_iff

end BomAssembly.CommandM

namespace BomAssembly.Session

variable {s s' : Session} {f : FileTree → Except FileError FileTree}

theorem attempt_eq_ok_iff :
    attempt f s = (.ok (), s') ↔ ∃ t, f s.tree = .ok t ∧ s' = { s with tree := t } := by
  unfold attempt
  cases f s.tree with
  | error e => exact ⟨fun h => absurd (Prod.mk.inj h).1 (by simp), fun ⟨_, h, _⟩ => absurd h (by simp)⟩
  | ok t =>
      constructor
      · intro h
        exact ⟨t, rfl, (Prod.mk.inj h).2.symm⟩
      · rintro ⟨_, h, rfl⟩
        rw [Except.ok.inj h]

end BomAssembly.Session
