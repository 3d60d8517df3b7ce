import Mathlib
import BomAssembly.Proofs.Control.Course
import BomAssembly.Proofs.Intake.Delivery

/-!
# Requests that are edited

A request that was read or has just been made has a configuration that passed the check. Edits may
follow: deliverables and whole configurations are put in place, the request moves on, passes are made
over it. Whatever the edits are, its configuration stays one for the request (`Sound.after`). Whether
it still passes the check is up to the deliverables that were put in place: they are taken as they
come, so it fails from the first list on that has an index twice (`checked_iff_distinct`), and is then
no longer read from the record of the request (`edited_iff`).
-/

namespace BomAssembly

open Time (Instant)

variable {π : Type} [JobPlatform π]

/-! ## Moving on keeps the configuration -/

namespace Request

variable {r r' r'' : Request} {next : Status} {changed : Bool}

theorem SameRequest.trans (h : SameRequest r r') (h' : SameRequest r' r'') : SameRequest r r'' :=
  ⟨h'.name.trans h.name, h'.id.trans h.id, h'.kind.trans h.kind,
    h'.correlationId.trans h.correlationId, h'.config.trans h.config⟩

theorem same_of_advance (h : r.advance next = .ok (r', changed)) : SameRequest r r' := by
  rcases of_advance h with ⟨rfl, -⟩ | ⟨-, -, rfl, -⟩
  · exact .refl _
  · exact (SameRequest.refl r).inStatus next

theorem same_of_succeed {output : String} (h : r.succeed output = .ok (r', changed)) :
    SameRequest r r' := by
  rcases of_succeed h with ⟨rfl, -⟩ | ⟨-, rfl, -⟩
  · exact .refl _
  · exact (SameRequest.refl r).succeeded output

theorem same_of_fail {result : Outcome} {reason : String}
    (h : r.fail result reason = .ok (r', changed)) : SameRequest r r' := by
  rcases of_fail h with ⟨rfl, -⟩ | ⟨-, rfl, -⟩
  · exact .refl _
  · exact (SameRequest.refl r).failed result reason

end Request

namespace Pass

open Request (SameRequest)

variable {settings : RunSettings} {now : Instant} {r after : Request} {report : Report}

theorem same_of_conclude {ss : List (Nat × Standing)} (h : conclude settings ss r = .ok after) :
    SameRequest r after := by
  unfold conclude at h
  split at h
  · obtain ⟨moved, hfail, rfl⟩ := map_eq_ok.mp h
    exact Request.same_of_fail hfail
  · split at h
    · obtain ⟨moved, hsucceed, rfl⟩ := map_eq_ok.mp h
      exact Request.same_of_succeed hsucceed
    · obtain rfl := Except.ok.inj h
      exact .refl r

/-- **A pass keeps the configuration**, on any platform. -/
theorem same_of_run {p : π} (h : (run settings now r p).2 = .ok (after, report)) :
    SameRequest r after := by
  unfold run at h
  split at h
  · obtain ⟨rfl, -⟩ := Prod.mk.inj (Except.ok.inj h)
    exact .refl r
  · next hlive =>
    cases hplan : plan settings r with
    | error e => simp [hplan] at h
    | ok pl =>
        rw [hplan] at h
        rcases plan_cases (by simpa using hlive) hplan with
          ⟨rested, unmet, rfl, hrests⟩ | ⟨desired, rfl, -⟩
        · obtain ⟨rfl, -⟩ := Prod.mk.inj (Except.ok.inj h)
          exact hrests.same
        · -- the job runs that are created show in the report only
          dsimp only at h
          unfold work at h
          split at h
          · exact absurd h (by simp)
          · split at h
            · exact absurd h (by simp)
            · obtain ⟨⟨generating, _⟩, hadvance, h⟩ := bind_eq_ok.mp h
              obtain ⟨concluded, hconclude, h⟩ := bind_eq_ok.mp h
              obtain ⟨rfl, -⟩ := Prod.mk.inj (Except.ok.inj h)
              exact ((sameRequest_opened r).trans (Request.same_of_advance hadvance)).trans
                (same_of_conclude hconclude)

end Pass

/-! ## Edits -/

/-- A way to change a request. -/
inductive Edit (π : Type) where
  /-- Put deliverables in place of those there are; their indices are below 2^32. -/
  | setDeliverables (ds : List Deliverable) (inRange : ∀ d ∈ ds, d.index < Nat.pow 2 32)
  /-- Put in place the configuration that a text is parsed as. -/
  | setConfig (raw : String)
  | advance (next : Status)
  | succeed (output : String)
  | fail (result : Outcome) (reason : String)
  /-- Make a pass over the request. -/
  | reconcile (settings : RunSettings) (now : Instant) (platform : π)

/-- What an edit makes of a request, if it can be made. -/
def Edit.apply : Edit π → Request → Except Failure Request
  | setDeliverables ds _, r => r.setDeliverables ds
  | setConfig raw, r => (Config.parse raw r.kind r.correlationId).map fun c => r.setConfig c
  | advance next, r => (r.advance next).map Prod.fst
  | succeed output, r => (r.succeed output).map Prod.fst
  | fail result reason, r => (r.fail result reason).map Prod.fst
  | reconcile settings now platform, r => (Pass.run settings now r platform).2.map Prod.fst

namespace Request

variable {r r' : Request} {e : Edit π}

/-- The request after an edit; one that cannot be made changes nothing. -/
def edited (r : Request) (e : Edit π) : Request :=
  match e.apply r with
  | .ok r' => r'
  | .error _ => r

/-- The request after edits, one after the other. -/
def after (r : Request) (edits : List (Edit π)) : Request := edits.foldl edited r

/-- The configuration, if there is a fitting one, passes the check. -/
def Checked (r : Request) : Prop :=
  ∀ c, r.config = .valid c → c.check r.kind r.correlationId = .ok ()

/-- What edits keep: the names of the request, and that its configuration is for it and in range. -/
structure Sound (r : Request) : Prop where
  id : Text.allBlank r.id = false
  correlationId : Text.allBlank r.correlationId = false
  config : ∀ c, r.config = .valid c → c.IsFor r.kind r.correlationId ∧ c.InRange

/-- What an edit can do: put a configuration or deliverables in place, or leave these alone. -/
inductive Became (r : Request) : Edit π → Request → Prop where
  | configured {raw : String} {c : Config} (h : Config.parse raw r.kind r.correlationId = .ok c) :
    Became r (.setConfig raw) (r.setConfig c)
  | redelivered {ds : List Deliverable} {inRange : ∀ d ∈ ds, d.index < Nat.pow 2 32}
    {o : OperationConfig} (h : r.config = .valid (.operation o)) :
    Became r (.setDeliverables ds inRange)
      (r.setConfig (.operation { o with deliverables := ds }))
  | kept {e : Edit π} {r' : Request} (h : SameRequest r r')
    (hidle : ∀ ds inRange, e = .setDeliverables ds inRange → ∀ o, r.config ≠ .valid (.operation o)) :
    Became r e r'

theorem became_of_apply (h : e.apply r = .ok r') : Became r e r' := by
  cases e with
  | setDeliverables ds inRange =>
      simp only [Edit.apply, setDeliverables] at h
      split at h
      · next o hconfig =>
        obtain rfl := Except.ok.inj h
        exact .redelivered hconfig
      · exact absurd h (by simp)
  | setConfig raw =>
      obtain ⟨c, hparse, rfl⟩ := map_eq_ok.mp h
      exact .configured hparse
  | advance next =>
      obtain ⟨moved, hadvance, rfl⟩ := map_eq_ok.mp h
      exact .kept (same_of_advance hadvance) fun _ _ he => nomatch he
  | succeed output =>
      obtain ⟨moved, hsucceed, rfl⟩ := map_eq_ok.mp h
      exact .kept (same_of_succeed hsucceed) fun _ _ he => nomatch he
  | fail result reason =>
      obtain ⟨moved, hfail, rfl⟩ := map_eq_ok.mp h
      exact .kept (same_of_fail hfail) fun _ _ he => nomatch he
  | reconcile settings now platform =>
      obtain ⟨done, hrun, rfl⟩ := map_eq_ok.mp h
      exact .kept (Pass.same_of_run hrun) fun _ _ he => nomatch he

/-- **What an edit does.** -/
theorem became (r : Request) (e : Edit π) : Became r e (r.edited e) := by
  unfold edited
  cases happly : e.apply r with
  | ok r' => exact became_of_apply happly
  | error failure =>
      refine .kept (.refl r) ?_
      -- only where there is no configuration of an operation are deliverables refused
      rintro ds inRange rfl o hconfig
      simp [Edit.apply, setDeliverables, hconfig] at happly

/-! ## What edits keep -/

theorem Sound.of_same (h : r.Sound) (hsame : SameRequest r r') : r'.Sound where
  id := hsame.id ▸ h.id
  correlationId := hsame.correlationId ▸ h.correlationId
  config := by
    rw [hsame.config, hsame.kind, hsame.correlationId]
    exact h.config

omit [JobPlatform π] in
theorem Sound.became (h : r.Sound) (hbecame : Became r e r') : r'.Sound := by
  cases hbecame with
  | configured hparse =>
      refine ⟨h.id, h.correlationId, fun c hc => ?_⟩
      obtain rfl := ConfigState.valid.inj hc
      obtain ⟨hrange, hcheck⟩ := Config.of_parse hparse
      exact ⟨Config.isFor_of_check hcheck, hrange⟩
  | @redelivered ds inRange o hconfig =>
      refine ⟨h.id, h.correlationId, fun c hc => ?_⟩
      obtain rfl := ConfigState.valid.inj hc
      -- kind and name are those of the configuration that was there
      obtain ⟨hfor, -⟩ := h.config _ hconfig
      exact ⟨⟨hfor.kind, hfor.correlationId⟩, inRange⟩
  | kept hsame _ => exact h.of_same hsame

theorem Sound.after (h : r.Sound) (edits : List (Edit π)) : (r.after edits).Sound := by
  induction edits generalizing r with
  | nil => exact h
  | cons e edits ih => exact ih (h.became (r.became e))

theorem kind_edited (r : Request) (e : Edit π) :
    (r.edited e).kind = r.kind ∧ (r.edited e).correlationId = r.correlationId := by
  have hbecame := r.became e
  generalize r.edited e = r' at hbecame
  cases hbecame with
  | configured _ => exact ⟨rfl, rfl⟩
  | redelivered _ => exact ⟨rfl, rfl⟩
  | kept hsame _ => exact ⟨hsame.kind, hsame.correlationId⟩

theorem kind_after (r : Request) (edits : List (Edit π)) :
    (r.after edits).kind = r.kind ∧ (r.after edits).correlationId = r.correlationId := by
  induction edits generalizing r with
  | nil => exact ⟨rfl, rfl⟩
  | cons e edits ih =>
      obtain ⟨hkind, hcorrelation⟩ := ih (r.edited e)
      obtain ⟨hkind', hcorrelation'⟩ := kind_edited r e
      exact ⟨hkind.trans hkind', hcorrelation.trans hcorrelation'⟩

/-! ## The check -/

/-- If an edit puts deliverables in place, their indices are distinct. -/
def Distinct (r : Request) (e : Edit π) : Prop :=
  ∀ ds inRange, e = .setDeliverables ds inRange → (∃ o, r.config = .valid (.operation o)) →
    (ds.map Deliverable.index).Nodup

/-- **One edit keeps the configuration checked just when it puts no index in place twice.** -/
theorem checked_edited_iff (hsound : r.Sound) (hchecked : r.Checked) (e : Edit π) :
    (r.edited e).Checked ↔ r.Distinct e := by
  have hbecame := r.became e
  generalize r.edited e = r' at hbecame
  cases hbecame with
  | configured hparse =>
      refine ⟨fun _ _ _ he => (nomatch he), fun _ c hc => ?_⟩
      obtain rfl := ConfigState.valid.inj hc
      exact (Config.of_parse hparse).2
  | @redelivered ds inRange o hconfig =>
      obtain ⟨hfor, -⟩ := hsound.config _ hconfig
      have hfor' : (Config.operation { o with deliverables := ds }).IsFor r.kind r.correlationId :=
        ⟨hfor.kind, hfor.correlationId⟩
      have hcheck := Config.check_of_isFor hfor'
      constructor
      · intro h ds' inRange' he _
        obtain rfl := (Edit.setDeliverables.inj he)
        exact hcheck.mp (h _ rfl)
      · intro h c hc
        obtain rfl := ConfigState.valid.inj hc
        exact hcheck.mpr (h ds inRange rfl ⟨o, hconfig⟩)
  | kept hsame hidle =>
      refine ⟨fun _ ds inRange he ⟨o, ho⟩ => absurd ho (hidle ds inRange he o), fun _ => ?_⟩
      intro c hc
      rw [hsame.kind, hsame.correlationId]
      exact hchecked c (hsame.config ▸ hc)

theorem after_append_singleton (r : Request) (before : List (Edit π)) (e : Edit π) :
    r.after (before ++ [e]) = (r.after before).edited e := by
  rw [after, List.foldl_append]
  rfl

/-- **All along the edits the configuration passes the check just when no list of deliverables that
was put in place has an index twice.** -/
theorem checked_iff_distinct (hsound : r.Sound) (hchecked : r.Checked) (edits : List (Edit π)) :
    (∀ before, before <+: edits → (r.after before).Checked) ↔
      ∀ before e later, edits = before ++ e :: later → (r.after before).Distinct e := by
  constructor
  · rintro h before e later rfl
    have hbefore := h before (List.prefix_append before _)
    have hstep := h (before ++ [e]) ⟨later, by simp⟩
    rw [after_append_singleton] at hstep
    exact (checked_edited_iff (hsound.after before) hbefore e).mp hstep
  · intro h before
    induction before using List.reverseRecOn with
    | nil => exact fun _ => hchecked
    | append_singleton before e ih =>
        rintro ⟨later, rfl⟩
        rw [after_append_singleton]
        refine (checked_edited_iff (hsound.after before) (ih ⟨e :: later, by simp⟩) e).mpr ?_
        exact h before e later (by simp)

/-! ## Where requests come from -/

/-- A request that was read, or that a message called for. -/
inductive Obtained : Request → Prop where
  | read {record : Record} {r : Request} (h : ofRecord record = .ok r) : Obtained r
  | called {trigger : Trigger} {draw : Intake.Draw} {n : Intake.Notification} {r : Request}
    (h : Intake.request? trigger draw n = some r) (hid : Text.allBlank draw.id = false)
    (hcount : n.urls.length ≤ Nat.pow 2 32) : Obtained r

theorem Obtained.sound_checked (h : Obtained r) : r.Sound ∧ r.Checked := by
  cases h with
  | read h =>
      obtain ⟨-, hid, hcorrelation, hconfig⟩ := fields_of_ofRecord h
      refine ⟨⟨hid, hcorrelation, fun c hc => ?_⟩, fun c hc => ?_⟩
      · obtain ⟨hrange, hcheck⟩ := ConfigState.of_ofRaw_valid (hconfig.symm.trans hc)
        exact ⟨Config.isFor_of_check hcheck, hrange⟩
      · exact (ConfigState.of_ofRaw_valid (hconfig.symm.trans hc)).2
  | @called trigger draw n _ h hid hcount =>
      obtain ⟨given, htells, hnamed, haccepted⟩ := Intake.exists_tells_of_request? h
      obtain rfl : Intake.requestFor n (Text.trimmed given) draw = r :=
        Option.some.inj ((Intake.request?_eq_some htells hnamed haccepted).symm.trans h)
      have hmade := Intake.made_requestFor htells (Text.trimmed given) draw
      refine ⟨⟨hmade.id ▸ hid, ?_, fun c hc => ?_⟩, fun c hc => (hmade.valid hc).1⟩
      · rw [hmade.correlationId]
        exact Text.allBlank_trimmed hnamed
      · obtain ⟨hcheck, hrange⟩ := hmade.valid hc
        exact ⟨Config.isFor_of_check hcheck, hrange hcount⟩

/-! ## Stored and read again -/

/-- A configuration that does not pass the check is kept as a text that does not fit. -/
theorem exists_invalid {c : Config} {kind : Kind} {correlationId : String} (hrange : c.InRange)
    (hkeeps : c.KeepsEnd) (hcheck : c.check kind correlationId ≠ .ok ()) :
    ∃ error, ConfigState.ofRaw (some c.render) kind correlationId =
      .invalid (Text.trimmed c.render) error := by
  have hvalue := Config.value_trimmed_render hrange hkeeps
  have hparse : Config.parse (Text.trimmed c.render) kind correlationId =
      (c.check kind correlationId).map fun _ => c :=
    Config.parse_of_means hvalue (Config.ofValue_toData hrange kind)
  cases hresult : c.check kind correlationId with
  | ok _ => exact absurd hresult hcheck
  | error e =>
      rw [hresult] at hparse
      refine ⟨e.message, ?_⟩
      unfold ConfigState.ofRaw
      rw [Option.map_some]
      split
      · next heq => exact absurd heq (by simp)
      · next heq =>
        -- an empty document is no configuration
        obtain ⟨es, hes⟩ := Config.exists_toData_eq_map c
        rw [Option.some.inj heq, hes] at hvalue
        have hnull : Yaml.Value.parse? "" = some .null := by rfl
        exact absurd (Option.some.inj (hnull.symm.trans hvalue)) (by simp [Yaml.Data.value])
      · next raw _ heq =>
        rw [← Option.some.inj heq, hparse]
        rfl

/-- What comes back of a request that was stored: all but the configuration, and the configuration if
it passes the check. -/
structure ComesBack (r back : Request) : Prop where
  read : ofRecord r.toRecord = .ok back
  rest : { back with config := r.config } = r
  config : ∀ c, r.config = .valid c → c.KeepsEnd →
    (c.check r.kind r.correlationId = .ok () → back = r) ∧
    (c.check r.kind r.correlationId ≠ .ok () → ∃ raw error, back.config = .invalid raw error)

theorem Sound.comesBack (h : r.Sound) : ∃ back, r.ComesBack back := by
  refine ⟨_, ofRecord_toRecord_eq h.id h.correlationId, rfl, fun c hc hkeeps => ?_⟩
  obtain ⟨-, hrange⟩ := h.config c hc
  have htext : r.configText = some c.render := by rw [configText, hc]
  rw [htext]
  constructor
  · intro hcheck
    rw [ConfigState.ofRaw_render hrange hcheck hkeeps, ← hc]
  · intro hcheck
    obtain ⟨error, hinvalid⟩ := exists_invalid hrange hkeeps hcheck
    exact ⟨_, error, hinvalid⟩

/-! ## The main result -/

/-- **What edits do to the configuration of a request.** It is for the request all along, and passes
the check all along just when no list of deliverables that was put in place has an index twice. Stored
and read again it is the same if it passes the check, and does not fit if it does not. -/
theorem edited_iff (h : Obtained r) (edits : List (Edit π)) :
    (r.after edits).kind = r.kind ∧ (r.after edits).correlationId = r.correlationId ∧
    (∀ c, (r.after edits).config = .valid c → c.IsFor r.kind r.correlationId) ∧
    ((∀ before, before <+: edits → (r.after before).Checked) ↔
      ∀ before e later, edits = before ++ e :: later → (r.after before).Distinct e) ∧
    ∃ back, (r.after edits).ComesBack back := by
  obtain ⟨hsound, hchecked⟩ := h.sound_checked
  obtain ⟨hkind, hcorrelation⟩ := kind_after r edits
  have hafter := hsound.after edits
  refine ⟨hkind, hcorrelation, fun c hc => ?_, checked_iff_distinct hsound hchecked edits,
    hafter.comesBack⟩
  rw [← hkind, ← hcorrelation]
  exact (hafter.config c hc).1

/-! ## An index that comes twice -/

/-- A request for an operation, without a configuration yet. -/
def newOperation : Request := .new "r" "1" .operation "o"

theorem obtained_newOperation : Obtained newOperation := by
  have hstorable : newOperation.Storable := ⟨by decide, by decide, rfl⟩
  exact .read hstorable.ofRecord_toRecord

/-- A configuration as it may be given. -/
def operationGiven : String := "\x7b\"operationId\":\"o\"\x7d"

/-- Archives that are all declared with the index 0. -/
def atZero (urls : List String) : List Deliverable := urls.map fun url => ⟨0, url, none⟩

theorem inRange_atZero (urls : List String) : ∀ d ∈ atZero urls, d.index < Nat.pow 2 32 := by
  intro d hd
  obtain ⟨url, -, rfl⟩ := List.mem_map.mp hd
  exact Nat.two_pow_pos 32

/-- A configuration is given, and then archives are put in place. -/
def givenThen (urls : List String) : List (Edit Platform) :=
  [.setConfig operationGiven, .setDeliverables (atZero urls) (inRange_atZero urls)]

theorem after_givenThen (urls : List String) : newOperation.after (givenThen urls) =
    newOperation.setConfig (.operation ⟨"o", .standard, atZero urls⟩) := by
  have hkind : newOperation.kind = .operation := rfl
  have hcorrelation : newOperation.correlationId = "o" := rfl
  have hparse : Config.parse operationGiven .operation "o" =
      .ok (.operation ⟨"o", .standard, []⟩) := by cbv
  have happly : (.setConfig operationGiven : Edit Platform).apply newOperation =
      .ok (newOperation.setConfig (.operation ⟨"o", .standard, []⟩)) := by
    rw [Edit.apply, hkind, hcorrelation, hparse]
    rfl
  rw [givenThen, after, List.foldl_cons, edited, happly]
  rfl

theorem edited_iff_oneArchive : Obtained newOperation ∧
    ∃ back, (newOperation.after (givenThen ["u"])).ComesBack back ∧
      back = newOperation.setConfig (.operation ⟨"o", .standard, atZero ["u"]⟩) := by
  obtain ⟨-, -, -, -, back, hback⟩ := edited_iff obtained_newOperation (givenThen ["u"])
  refine ⟨obtained_newOperation, back, hback, ?_⟩
  have hkeeps : (Config.operation ⟨"o", .standard, atZero ["u"]⟩).KeepsEnd := by
    have hlast : "u".toList.getLast? = some 'u' := by decide
    intro _ c hc
    obtain rfl := Option.some.inj (hlast.symm.trans hc)
    decide
  rw [after_givenThen] at hback
  exact (hback.config _ rfl hkeeps).1 rfl

/-- **An index can be put in place twice**, and the configuration is then not one that was checked. -/
theorem not_checked_twice : ¬ ∀ (r : Request) (edits : List (Edit Platform)), Obtained r →
    (r.after edits).Checked := by
  intro hall
  have hchecked := hall newOperation (givenThen ["u", "v"]) obtained_newOperation
  rw [after_givenThen] at hchecked
  exact absurd (hchecked _ rfl) (by decide)

end Request

end BomAssembly
