import BomAssembly.Proofs.Control.LateChange
import BomAssembly.Proofs.Control.Settled
import BomAssembly.Proofs.Control.TurnByTurn

/-!
# An outage leaves no trace

While the platform is offline some requests still move: those that rest, because they wait or because
their configuration does not fit. All others stay as they are, and the platform does as well. So after
a tick during the outage the world is ahead of the one before, and only by moves that the next tick
makes in any case (`Leads`).

A turn takes two such worlds to two such worlds, and brings the records of its name together
(`Leads.passOverNamed`). What was behind makes the move; what was ahead has nothing to do, for it has
ended, or it waits. After the turns of all names the worlds are the same (`Leads.tick_eq`), and it does
not matter how many ticks there were during the outage (`outage_transparent`).
-/

namespace BomAssembly

open Time (Instant)

/-! ## Records that are ahead -/

/-- A record is as it was, or it was written when the request came to rest in another status. -/
inductive Record.Ahead (settings : RunSettings) (old : Record) : Record → Prop where
  | same : Ahead settings old old
  | rested {r after : Request} {unmet : Option Condition} (hread : Request.ofRecord old = .ok r)
    (hlive : r.isFinished = false) (hplan : Pass.plan settings r = .ok (.rest after unmet))
    (hmoved : after.status ≠ r.status) (hstorable : after.Storable) :
    Ahead settings old after.toRecord

theorem Pass.Rests.of_plan {settings : RunSettings} {r after : Request} {unmet : Option Condition}
    (hlive : r.isFinished = false) (hplan : plan settings r = .ok (.rest after unmet)) :
    Rests settings r after unmet := by
  rcases plan_cases hlive hplan with ⟨after', unmet', heq, hrests⟩ | ⟨desired, heq, -⟩
  · obtain ⟨rfl, rfl⟩ := Plan.rest.inj heq
    exact hrests
  · exact absurd heq (by simp)

/-- A request that has come to rest is left alone from then on, by whatever platform. -/
theorem Pass.idle_of_rest {settings : RunSettings} {r after : Request} {unmet : Option Condition}
    (hlive : r.isFinished = false) (hplan : plan settings r = .ok (.rest after unmet))
    (now : Instant) (p : Platform) : Idle settings now after p := by
  by_cases hended : after.isFinished = true
  · exact .of_ok (run_of_ended hended) rfl
  · have hafter : after.isFinished = false := by simpa using hended
    obtain ⟨rfl, hplan'⟩ := plan_opened_of_rests hplan (.of_plan hlive hplan) hlive hafter
    exact .of_ok (run_of_rest hafter hplan') rfl

/-- What is written when a request comes to rest in another status. -/
theorem Pass.written_of_rest {settings : RunSettings} {r after : Request} {unmet : Option Condition}
    (hlive : r.isFinished = false) (hplan : plan settings r = .ok (.rest after unmet))
    (hmoved : after.status ≠ r.status) (now : Instant) (p : Platform) :
    written (run settings now r p).2 = some after.toRecord := by
  have hchanged : (Report.quiet r after unmet).statusChanged = true :=
    decide_eq_true fun heq => hmoved heq.symm
  rw [run_of_rest hlive hplan, written, if_pos hchanged]

namespace World

variable {settings : RunSettings} {now : Instant} {r : Request} {name other : String}
  {old new : Record} {v w : World Store Platform}

/-! ## Worlds that are ahead -/

/-- One world leads the other: the platform is the same, and so are the records but for requests that
have come to rest already. -/
structure Leads (settings : RunSettings) (v w : World Store Platform) : Prop where
  platform : w.platform = v.platform
  names : w.store.names = v.store.names
  records : ∀ name old new, v.store.get? name = some old → w.store.get? name = some new →
    Record.Ahead settings old new

theorem get?_passOverNamed_of_ne (h : other ≠ name) :
    (passOverNamed settings now name w).1.store.get? other = w.store.get? other := by
  cases hget : w.store.get? name with
  | none => rw [passOverNamed_of_absent hget]
  | some record =>
      cases hread : Request.ofRecord record with
      | error e => rw [passOverNamed_of_unreadable hget hread]
      | ok r =>
          have hname : r.name = name := name_of_read hget hread
          rw [passOverNamed_of_read hget hread]
          exact get?_passOver_of_ne (hname ▸ h)

theorem names_passOverNamed (settings : RunSettings) (now : Instant) (name : String)
    (w : World Store Platform) :
    (passOverNamed settings now name w).1.store.names = w.store.names :=
  (passOverNamed_served settings now name w).names

/-- The turns of a name, on a record that is ahead and on the one before, leave the same platform and
the same record. -/
theorem passOverNamed_of_ahead (now : Instant) (hplatform : w.platform = v.platform)
    (hold : v.store.get? name = some old) (hnew : w.store.get? name = some new)
    (h : Record.Ahead settings old new) :
    (passOverNamed settings now name w).1.platform =
        (passOverNamed settings now name v).1.platform ∧
      (passOverNamed settings now name w).1.store.get? name =
        (passOverNamed settings now name v).1.store.get? name := by
  cases h with
  | same =>
      cases hread : Request.ofRecord old with
      | error e =>
          rw [passOverNamed_of_unreadable hold hread, passOverNamed_of_unreadable hnew hread]
          exact ⟨hplatform, hnew.trans hold.symm⟩
      | ok r =>
          have hname : r.name = name := name_of_read hold hread
          subst hname
          rw [passOverNamed_of_read hold hread, passOverNamed_of_read hnew hread,
            get?_passOver_self (Store.mem_names_iff.mpr ⟨_, hold⟩),
            get?_passOver_self (Store.mem_names_iff.mpr ⟨_, hnew⟩), passOver_fst, passOver_fst,
            hplatform, hold, hnew]
          exact ⟨rfl, rfl⟩
  | @rested r after unmet hread hlive hplan hmoved hstorable =>
      have hname : r.name = name := name_of_read hold hread
      subst hname
      -- the one behind makes the move, and the one ahead has nothing to do
      have hidle := Pass.idle_of_rest hlive hplan now w.platform
      rw [passOverNamed_of_read hold hread,
        passOverNamed_of_read hnew hstorable.ofRecord_toRecord, passOver_of_idle hidle,
        get?_passOver_self (Store.mem_names_iff.mpr ⟨_, hold⟩),
        Pass.written_of_rest hlive hplan hmoved, passOver_fst, Pass.run_of_rest hlive hplan]
      exact ⟨hplatform, hnew⟩

/-- **A turn keeps the lead, and ends it for its name.** -/
theorem Leads.passOverNamed (h : Leads settings v w) (now : Instant) (name : String) :
    Leads settings (passOverNamed settings now name v).1 (passOverNamed settings now name w).1 ∧
      (passOverNamed settings now name w).1.store.get? name =
        (passOverNamed settings now name v).1.store.get? name := by
  have hnames : (World.passOverNamed settings now name w).1.store.names =
      (World.passOverNamed settings now name v).1.store.names := by
    rw [names_passOverNamed, names_passOverNamed, h.names]
  have hturn : (World.passOverNamed settings now name w).1.platform =
      (World.passOverNamed settings now name v).1.platform ∧
      (World.passOverNamed settings now name w).1.store.get? name =
        (World.passOverNamed settings now name v).1.store.get? name := by
    cases hold : v.store.get? name with
    | none =>
        have hnew : w.store.get? name = none := by
          rw [Store.get?_eq_none_iff, h.names]
          exact Store.get?_eq_none_iff.mp hold
        rw [passOverNamed_of_absent hold, passOverNamed_of_absent hnew]
        exact ⟨h.platform, hnew.trans hold.symm⟩
    | some old =>
        have hmem : name ∈ w.store.names := h.names.symm ▸ Store.mem_names_iff.mpr ⟨old, hold⟩
        obtain ⟨new, hnew⟩ := Store.mem_names_iff.mp hmem
        exact passOverNamed_of_ahead now h.platform hold hnew (h.records name old new hold hnew)
  refine ⟨⟨hturn.1, hnames, fun other old new hold hnew => ?_⟩, hturn.2⟩
  by_cases hother : other = name
  · subst hother
    rw [hturn.2, hold] at hnew
    rw [Option.some.inj hnew]
    exact .same
  · rw [get?_passOverNamed_of_ne hother] at hold hnew
    exact h.records other old new hold hnew

/-- **After the turns of some names, their records are the same.** -/
theorem Leads.passOverNames (h : Leads settings v w) (now : Instant) (names : List String) :
    Leads settings (passOverNames settings now names v).1 (passOverNames settings now names w).1 ∧
      ∀ name, (name ∈ names ∨ w.store.get? name = v.store.get? name) →
        (passOverNames settings now names w).1.store.get? name =
          (passOverNames settings now names v).1.store.get? name := by
  induction names generalizing v w with
  | nil => exact ⟨h, fun name hsame => hsame.resolve_left List.not_mem_nil⟩
  | cons first names ih =>
      obtain ⟨hleads, hfirst⟩ := h.passOverNamed now first
      obtain ⟨hrest, hsame⟩ := ih hleads
      refine ⟨hrest, fun name hname => hsame name ?_⟩
      by_cases heq : name = first
      · rw [heq]
        exact .inr hfirst
      · rw [get?_passOverNamed_of_ne heq, get?_passOverNamed_of_ne heq]
        exact hname.imp_left fun hmem => (List.mem_cons.mp hmem).resolve_left heq

/-- **A tick makes up for the lead.** -/
theorem Leads.tick_eq (h : Leads settings v w) (now : Instant) :
    (tick settings now w).1 = (tick settings now v).1 := by
  have hv := (told_records settings now v).world
  have hw := (told_records settings now w).world
  obtain ⟨hleads, hsame⟩ := h.passOverNames now v.store.names
  rw [tick_fst, tick_fst, ← hv, ← hw, h.names]
  have hstore : (World.passOverNames settings now v.store.names w).1.store =
      (World.passOverNames settings now v.store.names v).1.store := by
    refine Store.ext_get? hleads.names fun name => hsame name ?_
    by_cases hname : name ∈ v.store.names
    · exact .inl hname
    · -- what is not stored in the one is not stored in the other
      have hnew : name ∉ w.store.names := h.names ▸ hname
      rw [Store.get?_eq_none_iff.mpr hname, Store.get?_eq_none_iff.mpr hnew]
      exact .inr rfl
  exact congrArg₂ World.mk hstore hleads.platform

/-! ## Ticks during an outage -/

theorem platform_passOverAll_of_offline {rs : List Request} (h : v.platform.offline = true) :
    (passOverAll settings now rs v).1.platform = v.platform := by
  induction rs generalizing v with
  | nil => rfl
  | cons r rs ih =>
      have hsame : (passOver settings now r v).1.platform = v.platform := by
        rw [passOver_fst]
        exact (Pass.run_course settings now r v.platform).eq_of_offline h
      rw [passOverAll_cons, ih (hsame ▸ h), hsame]

/-- **A tick during an outage does nothing to the platform.** -/
theorem platform_tick_of_offline (settings : RunSettings) (now : Instant)
    (h : v.platform.offline = true) : (tick settings now v).1.platform = v.platform :=
  platform_passOverAll_of_offline h

/-- Without the platform nothing is written but what comes to rest. -/
theorem ahead_of_written {p : Platform} (hread : Request.ofRecord old = .ok r)
    (hlive : r.isFinished = false) (hback : old.ReadsBack) (h : p.offline = true)
    (hwritten : Pass.written (Pass.run settings now r p).2 = some new) :
    Record.Ahead settings old new := by
  obtain ⟨after, report, hresult, hchanged, rfl⟩ := Pass.written_eq_some hwritten
  have hcourse := Pass.run_course settings now r p
  rw [hresult] at hcourse
  have hsame := hcourse.same
  have hmoved : after.status ≠ r.status := by
    intro heq
    exact of_decide_eq_true hchanged (by rw [hsame.2.1, hsame.2.2, heq])
  have hstorable := (Request.storable_of_ofRecord hread hback).of_same hsame.1
  generalize (Pass.run settings now r p).1 = q at hcourse
  cases hcourse with
  | ended hended => exact absurd rfl hmoved
  | rested _ hplan _ => exact .rested hread hlive hplan hmoved hstorable
  | worked hgathered _ _ _ =>
      exact absurd ((Pass.online_of_observe hgathered.observed).symm.trans h) (by decide)

theorem leads_tick (settings : RunSettings) (now : Instant) (h : v.platform.offline = true)
    (hback : ∀ record ∈ v.store.records, record.ReadsBack) :
    Leads settings v (tick settings now v).1 := by
  refine ⟨platform_tick_of_offline settings now h, names_passOverAll settings now _ v, ?_⟩
  intro name old new hold hnew
  by_cases hturn : ∃ r ∈ live v.store.records, name = r.name
  · obtain ⟨r, hr, rfl⟩ := hturn
    obtain ⟨u, hturn⟩ := exists_turn hr
    obtain ⟨record, hv, hu, hread, hlive⟩ := hturn.stored
    obtain rfl := Option.some.inj (hold.symm.trans hv)
    have hoffline : u.platform.offline = true := by
      obtain ⟨specs, htook⟩ := hturn.took_before
      exact htook.offline.trans h
    rw [hturn.get?_tick, get?_passOver_self (Store.mem_names_iff.mpr ⟨_, hu⟩), hu] at hnew
    cases hwritten : Pass.written (Pass.run settings now r u.platform).2 with
    | none =>
        rw [hwritten] at hnew
        rw [← Option.some.inj hnew]
        exact .same
    | some written =>
        rw [hwritten] at hnew
        rw [← Option.some.inj hnew]
        exact ahead_of_written hread hlive (hback old (Store.get?_eq_some_iff.mp hv).1) hoffline
          hwritten
  · rw [get?_tick_of_ne fun r hr hname => hturn ⟨r, hr, hname⟩] at hnew
    rw [Option.some.inj (hold.symm.trans hnew)]
    exact .same

/-- What is ahead is read back if what was before is. -/
theorem Leads.readsBack (h : Leads settings v w)
    (hback : ∀ record ∈ v.store.records, record.ReadsBack) :
    ∀ record ∈ w.store.records, record.ReadsBack := by
  intro new hnew
  have hget : w.store.get? new.name = some new := Store.get?_eq_some_iff.mpr ⟨hnew, rfl⟩
  have hmem : new.name ∈ v.store.names := h.names ▸ Store.mem_names_iff.mpr ⟨new, hget⟩
  obtain ⟨old, hold⟩ := Store.mem_names_iff.mp hmem
  cases h.records new.name old new hold hget with
  | same => exact hback new (Store.get?_eq_some_iff.mp hold).1
  | rested _ _ _ _ hstorable => exact hstorable.readsBack

/-- Ticks at these instants, one after the other. -/
def ticks (settings : RunSettings) (instants : List Instant) (w : World Store Platform) :
    World Store Platform :=
  instants.foldl (fun v now => (tick settings now v).1) w

theorem tick_resumed (instants : List Instant) (now : Instant) (h : v.platform.offline = true)
    (hback : ∀ record ∈ v.store.records, record.ReadsBack) :
    (tick settings now (Event.apply (.outage false) (ticks settings instants v))).1 =
      (tick settings now (Event.apply (.outage false) v)).1 := by
  induction instants generalizing v with
  | nil => rfl
  | cons first instants ih =>
      have hleads := leads_tick settings first h hback
      have hoffline : (tick settings first v).1.platform.offline = true := by
        rw [hleads.platform]
        exact h
      -- back online, the world after the first tick leads the one before it
      have hresumed : Leads settings (Event.apply (.outage false) v)
          (Event.apply (.outage false) (tick settings first v).1) := by
        refine ⟨?_, hleads.names, hleads.records⟩
        unfold Event.apply
        dsimp only
        rw [hleads.platform]
      rw [← hresumed.tick_eq now]
      exact ih hoffline (hleads.readsBack hback)

/-- **An outage is transparent.** However many ticks there were while the platform was offline, the
first one after it leads to the world that it would have led to without the outage; and none of those
during the outage did anything to the platform. -/
theorem outage_transparent (settings : RunSettings) (instants : List Instant) (now : Instant)
    (w : World Store Platform) (hback : ∀ record ∈ w.store.records, record.ReadsBack) :
    (tick settings now (Event.apply (.outage false)
        (ticks settings instants (Event.apply (.outage true) w)))).1 =
      (tick settings now (Event.apply (.outage false) w)).1 ∧
    ∀ (v : World Store Platform) (now : Instant), v.platform.offline = true →
      (tick settings now v).1.platform = v.platform := by
  refine ⟨?_, fun v now h => platform_tick_of_offline settings now h⟩
  exact tick_resumed instants now (show (Event.apply (.outage true) w).platform.offline = true
    from rfl) hback

/-- An operation that will wait for its manifests, and a build that could be worked on. -/
def mixed : World Store Platform where
  store := ⟨[newOperation.toRecord, (oneProductRequest "s").toRecord],
    show ["r", "s"].Nodup by decide⟩
  platform := {}

theorem outage_transparent_mixed : (∀ record ∈ mixed.store.records, record.ReadsBack) ∧
    (tick {} default (Event.apply (.outage false)
        (ticks {} [default, default] (Event.apply (.outage true) mixed)))).1 =
      (tick {} default (Event.apply (.outage false) mixed)).1 ∧
    ∀ (v : World Store Platform) (now : Instant), v.platform.offline = true →
      (tick {} now v).1.platform = v.platform := by
  have hback : ∀ record ∈ mixed.store.records, record.ReadsBack := by
    intro record hrecord
    rcases List.mem_cons.mp hrecord with rfl | hrecord
    · have hstorable : newOperation.Storable := ⟨by decide, by decide, rfl⟩
      exact hstorable.readsBack
    · rw [List.mem_singleton.mp hrecord]
      exact readsBack_oneProductRequest "s"
  exact ⟨hback, outage_transparent {} [default, default] default mixed hback⟩

end World

end BomAssembly
