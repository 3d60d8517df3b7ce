import BomAssembly.Proofs.Request.ConfigDocument
import BomAssembly.Proofs.Request.Moves
import BomAssembly.Proofs.Text.MapLookup
import BomAssembly.Proofs.Text.Trimming
import BomAssembly.Request.Record

/-!
# Requests and their records

A request that was read from a record comes back unchanged from the record it is written as
(`ofRecord_toRecord`), whatever status, result, reason and output it has come to meanwhile. A text
that is no fitting configuration is kept trimmed, so it is found as it was. That a fitting
configuration is read back from its document is asked of the records at hand (`Record.ReadsBack`); it
is read back where the last text can spare the blanks at its end (`ConfigState.ofRaw_render`).
-/

namespace BomAssembly

/-- The configuration that a record holds is read back from the document that it is written as. -/
def Record.ReadsBack (record : Record) : Prop :=
  ∀ r c, Request.ofRecord record = .ok r → r.config = .valid c →
    ConfigState.ofRaw (some c.render) r.kind r.correlationId = .valid c

/-! ## Names -/

theorem Kind.parse_name (k : Kind) : parse k.name = .ok k := by
  cases k <;> decide

theorem Status.parse_name (s : Status) : parse s.name = .ok s := by
  cases s <;> decide

theorem Outcome.parse_name (o : Outcome) : parse o.name = .ok o := by
  cases o <;> decide

/-! ## Configurations -/

namespace ConfigState

variable {kind : Kind} {correlationId raw error : String}

theorem trimmed_of_invalid {text : Option String}
    (h : ofRaw text kind correlationId = .invalid raw error) :
    raw ≠ "" ∧ Text.trimmed raw = raw ∧
      ∃ e, Config.parse raw kind correlationId = .error e ∧ e.message = error := by
  unfold ofRaw at h
  split at h
  · exact absurd h (by simp)
  · exact absurd h (by simp)
  · next raw' hne htext =>
    split at h
    · exact absurd h (by simp)
    · next e hparse =>
      obtain ⟨rfl, rfl⟩ := ConfigState.invalid.inj h
      obtain ⟨given, -, rfl⟩ := Option.map_eq_some_iff.mp htext
      exact ⟨hne, Text.trimmed_trimmed given, e, hparse, rfl⟩

/-- **A text that did not fit is found as it was**, and does not fit for the same reason. -/
theorem ofRaw_of_invalid {text : Option String}
    (h : ofRaw text kind correlationId = .invalid raw error) :
    ofRaw (some raw) kind correlationId = .invalid raw error := by
  obtain ⟨hne, htrimmed, e, hparse, rfl⟩ := trimmed_of_invalid h
  unfold ofRaw
  rw [Option.map_some, htrimmed]
  split
  · next heq => exact absurd heq (by simp)
  · next heq => exact absurd (Option.some.inj heq) hne
  · next raw' _ heq =>
    obtain rfl := Option.some.inj heq
    rw [hparse]

/-- **A text is read as a configuration** when it is one without the blanks around it. -/
theorem ofRaw_eq_valid {c : Config} : ofRaw (some raw) kind correlationId = .valid c ↔
    Config.parse (Text.trimmed raw) kind correlationId = .ok c := by
  have hempty : ∀ c, Config.parse "" kind correlationId ≠ .ok c := by
    intro c hc
    have hnull : Config.parse "" kind correlationId =
        .error (.configuration "configuration must be a mapping") := by rfl
    exact absurd (hnull.symm.trans hc) (by simp)
  unfold ofRaw
  rw [Option.map_some]
  split
  · next heq => exact absurd heq (by simp)
  · next heq =>
    rw [Option.some.inj heq]
    exact ⟨fun h => ConfigState.noConfusion h, fun h => absurd h (hempty c)⟩
  · next raw' _ heq =>
    rw [Option.some.inj heq]
    split
    · next c' hparse => simp [hparse]
    · next e hparse => simp [hparse]

/-- A configuration that was given is in range and fits the request. -/
theorem of_ofRaw_valid {text : Option String} {c : Config}
    (h : ofRaw text kind correlationId = .valid c) :
    c.InRange ∧ c.check kind correlationId = .ok () := by
  cases text with
  | none => exact absurd h (by simp [ofRaw])
  | some raw => exact Config.of_parse (ofRaw_eq_valid.mp h)

/-- **It is read back from its document**, if the last text can spare the blanks at its end. -/
theorem ofRaw_render {c : Config} (hrange : c.InRange)
    (hcheck : c.check kind correlationId = .ok ()) (hkeeps : c.KeepsEnd) :
    ofRaw (some c.render) kind correlationId = .valid c :=
  ofRaw_eq_valid.mpr (Config.parse_trimmed_render hrange hcheck hkeeps)

end ConfigState

namespace Request

variable {record : Record} {r r' : Request}

/-! ## What is read -/

theorem demand_eq_ok {key v : String} : demand record key = .ok v ↔
    record.data.get? key = some v ∧ Text.allBlank v = false := by
  unfold demand
  cases record.data.get? key with
  | none => simp
  | some w =>
      cases hblank : Text.allBlank w with
      | true => simp only [hblank]; grind
      | false => simp only [hblank]; grind

/-- What a request that could be read says of its record. -/
theorem fields_of_ofRecord (h : ofRecord record = .ok r) : r.name = record.name ∧
    Text.allBlank r.id = false ∧ Text.allBlank r.correlationId = false ∧
    r.config = .ofRaw (record.data.get? r.kind.configKey) r.kind r.correlationId := by
  obtain ⟨typeText, -, h⟩ := bind_eq_ok.mp h
  obtain ⟨kind, -, h⟩ := bind_eq_ok.mp h
  obtain ⟨correlationId, hcorrelation, h⟩ := bind_eq_ok.mp h
  obtain ⟨status, -, h⟩ := bind_eq_ok.mp h
  obtain ⟨result, -, h⟩ := bind_eq_ok.mp h
  obtain ⟨id, hid, h⟩ := bind_eq_ok.mp h
  rw [← Except.ok.inj h]
  exact ⟨rfl, (demand_eq_ok.mp hid).2, (demand_eq_ok.mp hcorrelation).2, rfl⟩

theorem name_of_ofRecord (h : ofRecord record = .ok r) : r.name = record.name :=
  (fields_of_ofRecord h).1

/-! ## What is written -/

theorem nodup_recordFields (r : Request) : (r.recordFields.map Prod.fst).Nodup := by
  have hkeys : r.recordFields.map Prod.fst = ["id", "type", r.kind.idKey, "status", "reason",
      "result", "output", r.kind.configKey] := rfl
  rw [hkeys]
  cases r.kind <;> decide

/-- **Each field of the record holds what was written into it.** -/
theorem get?_toRecord {key : String} {field : Option String} (h : (key, field) ∈ r.recordFields) :
    r.toRecord.data.get? key = field :=
  Text.StringMap.get?_ofList_of_mem r.nodup_recordFields h

theorem demand_toRecord {key v : String} (h : (key, some v) ∈ r.recordFields)
    (hblank : Text.allBlank v = false) : demand r.toRecord key = .ok v :=
  demand_eq_ok.mpr ⟨get?_toRecord h, hblank⟩

theorem readIfThere_toRecord {α : Type} {read : String → Except Failure α} {write : α → String}
    (hread : ∀ a, read (write a) = .ok a) {key : String} {field : Option α}
    (h : (key, field.map write) ∈ r.recordFields) :
    readIfThere read r.toRecord key = .ok field := by
  rw [readIfThere, get?_toRecord h]
  cases field with
  | none => rfl
  | some a => exact congrArg (Except.map some) (hread a)

/-! ## There and back -/

/-- What is read from the record of a request: the request itself, with its configuration read from
the text that it is written as. -/
theorem ofRecord_toRecord_eq (hid : Text.allBlank r.id = false)
    (hcorrelationId : Text.allBlank r.correlationId = false) : ofRecord r.toRecord =
      .ok { r with config := .ofRaw r.configText r.kind r.correlationId } := by
  have hkind : Text.allBlank r.kind.name = false := by cases r.kind <;> decide
  have htype : demand r.toRecord "type" = .ok r.kind.name :=
    demand_toRecord (by simp [recordFields]) hkind
  have hcorrelation : demand r.toRecord r.kind.idKey = .ok r.correlationId :=
    demand_toRecord (by simp [recordFields]) hcorrelationId
  have hstatus : readIfThere Status.parse r.toRecord "status" = .ok (some r.status) :=
    readIfThere_toRecord Status.parse_name (by simp [recordFields])
  have hresult : readIfThere Outcome.parse r.toRecord "result" = .ok r.result :=
    readIfThere_toRecord Outcome.parse_name (by simp [recordFields])
  have hdemand : demand r.toRecord "id" = .ok r.id := demand_toRecord (by simp [recordFields]) hid
  refine bind_eq_ok.mpr ⟨_, htype, bind_eq_ok.mpr ⟨_, Kind.parse_name _, bind_eq_ok.mpr
    ⟨_, hcorrelation, bind_eq_ok.mpr ⟨_, hstatus, bind_eq_ok.mpr ⟨_, hresult, bind_eq_ok.mpr
    ⟨_, hdemand, ?_⟩⟩⟩⟩⟩⟩
  -- what is left are the texts that are taken as they are, and the configuration
  have hreason : r.toRecord.data.get? "reason" = r.reason :=
    get?_toRecord (by simp [recordFields])
  have houtput : r.toRecord.data.get? "output" = r.output :=
    get?_toRecord (by simp [recordFields])
  have hconfig : r.toRecord.data.get? r.kind.configKey = r.configText :=
    get?_toRecord (by simp [recordFields])
  rw [hreason, houtput, hconfig]
  rfl

/-- A request of which its record tells everything. -/
structure Storable (r : Request) : Prop where
  id : Text.allBlank r.id = false
  correlationId : Text.allBlank r.correlationId = false
  config : .ofRaw r.configText r.kind r.correlationId = r.config

/-- **A request comes back from its record.** -/
theorem Storable.ofRecord_toRecord (h : r.Storable) : ofRecord r.toRecord = .ok r := by
  rw [ofRecord_toRecord_eq h.id h.correlationId, h.config]

/-- Nor does its record lose the configuration. -/
theorem Storable.readsBack (h : r.Storable) : r.toRecord.ReadsBack := by
  intro r' c hread hconfig
  obtain rfl := Except.ok.inj (h.ofRecord_toRecord.symm.trans hread)
  have htext : r.configText = some c.render := by
    unfold configText
    rw [hconfig]
  rw [← htext, ← hconfig]
  exact h.config

/-- What was read from a record can be written. -/
theorem storable_of_ofRecord (h : ofRecord record = .ok r) (hback : record.ReadsBack) :
    r.Storable := by
  obtain ⟨-, hid, hcorrelation, hconfig⟩ := fields_of_ofRecord h
  refine ⟨hid, hcorrelation, ?_⟩
  unfold configText
  cases hc : r.config with
  | missing => rfl
  | valid c => exact hback r c h hc
  | invalid raw error => exact ConfigState.ofRaw_of_invalid (hconfig.symm.trans hc)

/-- Two stages of one request: only status, reason, result and output may differ. -/
structure SameRequest (r r' : Request) : Prop where
  name : r'.name = r.name
  id : r'.id = r.id
  kind : r'.kind = r.kind
  correlationId : r'.correlationId = r.correlationId
  config : r'.config = r.config

theorem SameRequest.refl (r : Request) : SameRequest r r := ⟨rfl, rfl, rfl, rfl, rfl⟩

theorem SameRequest.inStatus (h : SameRequest r r') (s : Status) : SameRequest r (r'.inStatus s) :=
  ⟨h.name, h.id, h.kind, h.correlationId, h.config⟩

theorem SameRequest.failed (h : SameRequest r r') (result : Outcome) (reason : String) :
    SameRequest r (r'.failed result reason) :=
  ⟨h.name, h.id, h.kind, h.correlationId, h.config⟩

theorem SameRequest.succeeded (h : SameRequest r r') (output : String) :
    SameRequest r (r'.succeeded output) :=
  ⟨h.name, h.id, h.kind, h.correlationId, h.config⟩

theorem Storable.of_same (h : r.Storable) (hsame : SameRequest r r') : r'.Storable := by
  have htext : r'.configText = r.configText := by
    unfold configText
    rw [hsame.config]
  refine ⟨?_, ?_, ?_⟩
  · rw [hsame.id]
    exact h.id
  · rw [hsame.correlationId]
    exact h.correlationId
  · rw [htext, hsame.kind, hsame.correlationId, hsame.config]
    exact h.config

end Request

/-! ## A build of one product -/

/-- A build of one product. -/
def oneProduct : Config := .build ⟨"b", [.standard]⟩

theorem keepsEnd_oneProduct : oneProduct.KeepsEnd := by
  have hlast : "cyclonedx-operation".toList.getLast? = some 'n' := by decide
  intro _ c hc
  obtain rfl := Option.some.inj (hlast.symm.trans hc)
  decide

/-- A request for it, under a name. -/
def oneProductRequest (name : String) : Request :=
  (Request.new name "1" .build "b").setConfig oneProduct

theorem storable_oneProductRequest (name : String) : (oneProductRequest name).Storable where
  id := show Text.allBlank "1" = false by decide
  correlationId := show Text.allBlank "b" = false by decide
  config := ConfigState.ofRaw_render trivial rfl keepsEnd_oneProduct

theorem readsBack_oneProductRequest (name : String) :
    (oneProductRequest name).toRecord.ReadsBack :=
  (storable_oneProductRequest name).readsBack

end BomAssembly
