import BomAssembly.Proofs.Control.Lifecycle

/-!
# Records that change while the controller works

A controller works on copies. Between the reading of a copy and its turn, others may write to the
record that it was read from, and nothing tells the controller so: a turn writes what the pass made of
the copy, and it does so exactly if the pass came to another status (`written_iff`). What others have
written survives such a turn only as far as it agrees with the copy (`late_turn`).

So it is a matter of order. What is written behind the last turn of a name stays
(`get?_of_change_last`), and what was written before it is what the turn finds (`get?_of_turn_last`),
whatever turns and changes of other names come between.
-/

namespace BomAssembly

open Time (Instant)

namespace Pass

variable {settings : RunSettings} {now : Instant} {r after after' : Request} {p : Platform}
  {record : Record}

/-- The pass over a copy brings it to another status. -/
def MovesTo (settings : RunSettings) (now : Instant) (r : Request) (p : Platform)
    (after : Request) : Prop :=
  ∃ report, (run settings now r p).2 = .ok (after, report) ∧ after.status ≠ r.status

theorem MovesTo.unique (h : MovesTo settings now r p after) (h' : MovesTo settings now r p after') :
    after = after' := by
  obtain ⟨report, hrun, -⟩ := h
  obtain ⟨report', hrun', -⟩ := h'
  exact congrArg Prod.fst (Except.ok.inj (hrun.symm.trans hrun'))

/-- It is the same request, and it had not ended. -/
theorem MovesTo.same (h : MovesTo settings now r p after) :
    Request.SameRequest r after ∧ r.isFinished = false := by
  obtain ⟨report, hrun, hmoved⟩ := h
  have hcourse := run_course settings now r p
  rw [hrun] at hcourse
  refine ⟨hcourse.same.1, ?_⟩
  cases hended : r.isFinished with
  | false => rfl
  | true =>
      rw [run_of_ended hended] at hrun
      obtain ⟨rfl, -⟩ := Prod.mk.inj (Except.ok.inj hrun)
      exact absurd rfl hmoved

/-- **A pass has something written exactly if it comes to another status.** -/
theorem written_iff : written (run settings now r p).2 = some record ↔
    ∃ after, MovesTo settings now r p after ∧ record = after.toRecord := by
  have hcourse := run_course settings now r p
  constructor
  · intro h
    obtain ⟨after, report, hrun, hchanged, rfl⟩ := written_eq_some h
    rw [hrun] at hcourse
    obtain ⟨-, hprevious, hcurrent⟩ := hcourse.same
    refine ⟨after, ⟨report, hrun, fun heq => ?_⟩, rfl⟩
    exact of_decide_eq_true hchanged (by rw [hprevious, hcurrent, heq])
  · rintro ⟨after, ⟨report, hrun, hmoved⟩, rfl⟩
    rw [hrun] at hcourse ⊢
    obtain ⟨-, hprevious, hcurrent⟩ := hcourse.same
    have hchanged : report.statusChanged = true := by
      refine decide_eq_true fun heq => hmoved ?_
      rw [← hprevious, ← hcurrent, heq]
    exact if_pos hchanged

theorem written_eq_none_iff : written (run settings now r p).2 = none ↔
    ¬ ∃ after, MovesTo settings now r p after := by
  constructor
  · rintro hnone ⟨after, hmoves⟩
    have hsome := written_iff.mpr ⟨after, hmoves, rfl⟩
    exact absurd (hnone.symm.trans hsome) (by simp)
  · intro hstays
    cases hwritten : written (run settings now r p).2 with
    | none => rfl
    | some record =>
        obtain ⟨after, hmoves, -⟩ := written_iff.mp hwritten
        exact absurd ⟨after, hmoves⟩ hstays

end Pass

namespace World

variable {settings : RunSettings} {now : Instant} {r : Request} {w : World Store Platform}
  {old late new : Record} {name : String}

open Pass (MovesTo)

/-! ## The turn of a copy -/

/-- What becomes in the turn of a copy, read from an old record, of the late record that is there by
now. -/
structure LateTurn (settings : RunSettings) (now : Instant) (old : Record) (r : Request)
    (w : World Store Platform) (late new : Record) : Prop where
  others : ∀ name, name ≠ r.name →
    (passOver settings now r w).1.store.get? name = w.store.get? name
  kept : (¬ ∃ after, MovesTo settings now r w.platform after) → new = late
  replaced : ∀ after, MovesTo settings now r w.platform after →
    new = after.toRecord ∧ Request.SameRequest r after ∧ r.isFinished = false
  config_iff : new.data.get? r.kind.configKey = late.data.get? r.kind.configKey ↔
    (¬ ∃ after, MovesTo settings now r w.platform after) ∨
      r.configText = late.data.get? r.kind.configKey
  status_iff : new.data.get? "status" = late.data.get? "status" ↔
    (¬ ∃ after, MovesTo settings now r w.platform after) ∨
      ∃ after, MovesTo settings now r w.platform after ∧
        late.data.get? "status" = some after.status.name
  /-- Without another writer the configuration stays, and what has ended stays as it is. -/
  alone : late = old → old.ReadsBack →
    ∃ s, Request.ofRecord new = .ok s ∧ s.config = r.config ∧ (r.isFinished = true → new = old)

theorem get?_configKey (r : Request) : r.toRecord.data.get? r.kind.configKey = r.configText :=
  Request.get?_toRecord (by simp [Request.recordFields])

theorem get?_status (r : Request) : r.toRecord.data.get? "status" = some r.status.name :=
  Request.get?_toRecord (by simp [Request.recordFields])

theorem configText_of_same {after : Request} (h : Request.SameRequest r after) :
    after.toRecord.data.get? r.kind.configKey = r.configText := by
  have htext : after.configText = r.configText := by
    unfold Request.configText
    rw [h.config]
  rw [← h.kind, get?_configKey, htext]

theorem lateTurn_of_kept (hread : Request.ofRecord old = .ok r)
    (hstays : ¬ ∃ after, MovesTo settings now r w.platform after) :
    LateTurn settings now old r w late late where
  others _ hne := get?_passOver_of_ne hne
  kept _ := rfl
  replaced after hmoves := absurd ⟨after, hmoves⟩ hstays
  config_iff := ⟨fun _ => .inl hstays, fun _ => rfl⟩
  status_iff := ⟨fun _ => .inl hstays, fun _ => rfl⟩
  alone hsame _ := ⟨r, hsame ▸ hread, rfl, fun _ => hsame⟩

theorem lateTurn_of_replaced {after : Request} (hread : Request.ofRecord old = .ok r)
    (hmoves : MovesTo settings now r w.platform after) :
    LateTurn settings now old r w late after.toRecord := by
  obtain ⟨hsame, hlive⟩ := hmoves.same
  have hmoved : ¬ ¬ ∃ after, MovesTo settings now r w.platform after := fun h => h ⟨after, hmoves⟩
  constructor
  case others => exact fun _ hne => get?_passOver_of_ne hne
  case kept => exact fun hstays => absurd hstays hmoved
  case replaced =>
    intro after' hmoves'
    obtain rfl := hmoves.unique hmoves'
    exact ⟨rfl, hsame, hlive⟩
  case config_iff => rw [configText_of_same hsame, or_iff_right hmoved]
  case status_iff =>
    rw [get?_status, or_iff_right hmoved]
    constructor
    · exact fun heq => ⟨after, hmoves, heq.symm⟩
    · rintro ⟨after', hmoves', heq⟩
      rw [heq, hmoves.unique hmoves']
  case alone =>
    intro _ hback
    have hstorable := (Request.storable_of_ofRecord hread hback).of_same hsame
    exact ⟨after, hstorable.ofRecord_toRecord, hsame.config,
      fun hended => absurd (hlive.symm.trans hended) (by decide)⟩

/-- **A late change and the turn of an earlier copy.** The record stays as the late writer left it,
unless the pass brings the copy to another status; then it is the copy that is stored, with its own
configuration and the status it has come to. -/
theorem late_turn (settings : RunSettings) (now : Instant) (w : World Store Platform)
    (hread : Request.ofRecord old = .ok r) (hlate : w.store.get? r.name = some late) :
    ∃ new, (passOver settings now r w).1.store.get? r.name = some new ∧
      LateTurn settings now old r w late new := by
  rw [passOver_fst]
  dsimp only
  -- the turn knows the copy only, so all depends on whether it has something to write
  cases hwritten : Pass.written (Pass.run settings now r w.platform).2 with
  | none => exact ⟨late, hlate, lateTurn_of_kept hread (Pass.written_eq_none_iff.mp hwritten)⟩
  | some record =>
      have hname : record.name = r.name := name_of_written hwritten
      have hstored : record.name ∈ w.store.names := Store.mem_names_iff.mpr ⟨late, hname ▸ hlate⟩
      obtain ⟨after, hmoves, rfl⟩ := Pass.written_iff.mp hwritten
      exact ⟨after.toRecord, hname ▸ Store.get?_update_self hstored,
        lateTurn_of_replaced hread hmoves⟩

/-- A new operation, without a configuration. -/
def newOperation : Request := .new "r" "1" .operation "o"

/-- The operation with its deliverables. -/
def configuredOperation : Request :=
  newOperation.setConfig (.operation ⟨"o", .standard, [⟨0, "u", none⟩]⟩)

/-- The operation, ended. -/
def failedOperation : Request := newOperation.failed .general "stopped"

/-- A world with one record, and no job runs. -/
def holding (record : Record) : World Store Platform where
  store := ⟨[record], List.nodup_singleton _⟩
  platform := {}

theorem get?_holding (record : Record) : (holding record).store.get? record.name = some record :=
  Store.get?_eq_some_iff.mpr ⟨List.mem_singleton.mpr rfl, rfl⟩

theorem ofRecord_newOperation : Request.ofRecord newOperation.toRecord = .ok newOperation := by
  have hstorable : newOperation.Storable := ⟨by decide, by decide, rfl⟩
  exact hstorable.ofRecord_toRecord

theorem movesTo_preparing :
    MovesTo {} default newOperation {} (newOperation.inStatus .preparing) :=
  ⟨_, rfl, by decide⟩

theorem late_turn_configured :
    Request.ofRecord newOperation.toRecord = .ok newOperation ∧
    (holding configuredOperation.toRecord).store.get? newOperation.name =
      some configuredOperation.toRecord ∧
    ∃ new, (passOver {} default newOperation
        (holding configuredOperation.toRecord)).1.store.get? newOperation.name = some new ∧
      LateTurn {} default newOperation.toRecord newOperation
        (holding configuredOperation.toRecord) configuredOperation.toRecord new :=
  ⟨ofRecord_newOperation, get?_holding _,
    late_turn {} default _ ofRecord_newOperation (get?_holding _)⟩

/-- **What others have written can be lost**: the deliverables that the operation was given after the
copy was read, and the end that it came to. -/
theorem late_change_lost :
    Request.ofRecord newOperation.toRecord = .ok newOperation ∧
    (∃ new, (passOver {} default newOperation
        (holding configuredOperation.toRecord)).1.store.get? "r" = some new ∧
      configuredOperation.toRecord.data.get? "operation-config" ≠ none ∧
      new.data.get? "operation-config" = none) ∧
    ∃ new, (passOver {} default newOperation
        (holding failedOperation.toRecord)).1.store.get? "r" = some new ∧
      failedOperation.toRecord.data.get? "status" = some "FAILED" ∧
      new.data.get? "status" = some "PREPARING" := by
  have hname : ∀ r : Request, r.name = newOperation.name →
      (holding r.toRecord).store.get? newOperation.name = some r.toRecord := by
    intro r h
    rw [← h]
    exact get?_holding r.toRecord
  have hlost : ∀ r : Request, r.name = newOperation.name →
      (passOver {} default newOperation (holding r.toRecord)).1.store.get? "r" =
        some (newOperation.inStatus .preparing).toRecord := by
    intro r h
    obtain ⟨new, hnew, hturn⟩ :=
      late_turn {} default (holding r.toRecord) ofRecord_newOperation (hname r h)
    rw [← (hturn.replaced _ movesTo_preparing).1]
    exact hnew
  refine ⟨ofRecord_newOperation, ⟨_, hlost configuredOperation rfl, ?_, ?_⟩,
    ⟨_, hlost failedOperation rfl, ?_, ?_⟩⟩
  · rw [show "operation-config" = configuredOperation.kind.configKey from rfl, get?_configKey]
    exact Option.some_ne_none _
  · exact get?_configKey (newOperation.inStatus .preparing)
  · exact get?_status failedOperation
  · exact get?_status (newOperation.inStatus .preparing)

/-! ## Turns and changes in any order -/

/-- What happens to records: a turn of the controller, or a change by another writer. -/
inductive Act where
  | turn (copy : Request)
  | change (record : Record)

/-- The name that it is about. -/
def Act.about : Act → String
  | turn copy => copy.name
  | change record => record.name

/-- What it does to the world. -/
def act (settings : RunSettings) (now : Instant) (w : World Store Platform) :
    Act → World Store Platform
  | .turn copy => (passOver settings now copy w).1
  | .change record => { w with store := (w.store.update record).1 }

variable {acts before between later : List Act} {a : Act}

/-- A tick is the turns of its copies, one after another. -/
theorem foldl_act_turns (settings : RunSettings) (now : Instant) (rs : List Request)
    (w : World Store Platform) :
    (rs.map Act.turn).foldl (act settings now) w = (passOverAll settings now rs w).1 := by
  induction rs generalizing w with
  | nil => rfl
  | cons r rs ih =>
      rw [passOverAll_cons, List.map_cons, List.foldl_cons, ih]
      rfl

theorem names_act (settings : RunSettings) (now : Instant) (w : World Store Platform) (a : Act) :
    (act settings now w a).store.names = w.store.names := by
  cases a with
  | turn copy => exact names_passOver settings now copy w
  | change record => exact Store.names_update record w.store

theorem get?_act_of_ne (h : name ≠ a.about) :
    (act settings now w a).store.get? name = w.store.get? name := by
  cases a with
  | turn copy => exact get?_passOver_of_ne h
  | change record => exact Store.get?_update_of_ne h

theorem names_acts (settings : RunSettings) (now : Instant) (acts : List Act)
    (w : World Store Platform) :
    (acts.foldl (act settings now) w).store.names = w.store.names := by
  induction acts generalizing w with
  | nil => rfl
  | cons a acts ih => rw [List.foldl_cons, ih, names_act]

theorem get?_acts_of_ne (h : ∀ a ∈ acts, name ≠ a.about) :
    (acts.foldl (act settings now) w).store.get? name = w.store.get? name := by
  induction acts generalizing w with
  | nil => rfl
  | cons a acts ih =>
      rw [List.foldl_cons, ih fun b hb => h b (List.mem_cons_of_mem _ hb),
        get?_act_of_ne (h a List.mem_cons_self)]

/-- **A change behind the last turn of its name stays.** -/
theorem get?_of_change_last (settings : RunSettings) (now : Instant) {record : Record}
    (hstored : record.name ∈ w.store.names) (hlater : ∀ a ∈ later, record.name ≠ a.about) :
    ((before ++ .change record :: later).foldl (act settings now) w).store.get? record.name =
      some record := by
  rw [List.foldl_append, List.foldl_cons, get?_acts_of_ne hlater]
  refine Store.get?_update_self ?_
  rw [names_acts]
  exact hstored

/-- **A change before the last turn of its name** is what that turn finds. -/
theorem get?_of_turn_last (settings : RunSettings) (now : Instant)
    (hread : Request.ofRecord old = .ok r) (hname : late.name = r.name)
    (hstored : r.name ∈ w.store.names) (hbetween : ∀ a ∈ between, r.name ≠ a.about)
    (hlater : ∀ a ∈ later, r.name ≠ a.about) :
    ∃ v new, v = (before ++ .change late :: between).foldl (act settings now) w ∧
      ((before ++ .change late :: between ++ .turn r :: later).foldl
        (act settings now) w).store.get? r.name = some new ∧
      LateTurn settings now old r v late new := by
  have hlate : ((before ++ .change late :: between).foldl (act settings now) w).store.get? r.name =
      some late := by
    rw [← hname] at hstored hbetween ⊢
    exact get?_of_change_last settings now hstored hbetween
  obtain ⟨new, hnew, hturn⟩ := late_turn settings now _ hread hlate
  refine ⟨_, new, rfl, ?_, hturn⟩
  rw [List.foldl_append, List.foldl_cons, get?_acts_of_ne hlater]
  exact hnew

end World

end BomAssembly
