import BomAssembly.Command.PrepareManifest
import BomAssembly.Proofs.Command.Trouble
import BomAssembly.Proofs.Host.Tree
import BomAssembly.Proofs.Request.Preparation
import BomAssembly.Proofs.Request.RecordDocument

/-!
# Recording manifests on a request in a file

Each command reads the whole request from its file, records one manifest, and writes the whole request
again. One step on the file is one step on the request (`outcome_recordPom_of_lt`,
`outcome_recordPom_of_le`), as long as the configuration that is written can be read back; so after a run
the file holds the request after the same run (`holds_recordAll`), and the request is released exactly when
every position occurred (`released_iff`).
-/

namespace BomAssembly

open CommandM (outcome outcome_bind_eq_ok outcome_bind_of_ok doing_eq_ok ofExcept_eq_ok ofFile_eq_ok
  ofReader_eq_ok pair_eq_iff)

variable {path : String} {r : Request} {s s' : Session}

/-! ## Requests in files -/

namespace StoredRequest

/-- A file holds a request: it can be loaded from there. -/
def Holds (path : String) (r : Request) (s : Session) : Prop := outcome (load path) s = (.ok r, s)

/-- **A file holds what the record in its text says.** -/
theorem holds_iff : Holds path r s ↔ ∃ text record, s.tree.read path = .ok text ∧
    Record.parse? text = some record ∧ Request.ofRecord record = .ok r := by
  have hread : ∀ text t, (MonadFiles.read path : StateM Session _) s = (.ok text, t) ↔
      s.tree.read path = .ok text ∧ t = s := fun _ _ =>
    pair_eq_iff.symm.trans (and_congr_right' eq_comm)
  simp only [Holds, load, outcome_bind_eq_ok, doing_eq_ok, ofFile_eq_ok, ofReader_eq_ok,
    ofExcept_eq_ok, hread]
  constructor
  · rintro ⟨text, _, ⟨htext, rfl⟩, record, _, ⟨hrecord, rfl⟩, hr, -⟩
    exact ⟨text, record, htext, hrecord, hr⟩
  · rintro ⟨text, record, htext, hrecord, hr⟩
    exact ⟨text, s, ⟨htext, rfl⟩, record, s, ⟨hrecord, rfl⟩, hr, rfl⟩

theorem holds_of_read (h : s.tree.read path = .ok r.toRecord.render) (hr : r.Storable) :
    Holds path r s :=
  holds_iff.mpr ⟨_, _, h, Record.parse?_render r.keyed_toRecord, hr.ofRecord_toRecord⟩

/-- **A request that is saved where one was is held afterwards.** -/
theorem outcome_save {old : Request} (h : Holds path old s) (hr : r.Storable) :
    ∃ s', outcome (save path r) s = (.ok (), s') ∧ Holds path r s' := by
  obtain ⟨text, _, htext, -, -⟩ := holds_iff.mp h
  obtain ⟨t, hwrite, hread⟩ := FileTree.exists_write_of_read htext r.toRecord.render
  refine ⟨{ s with tree := t }, ?_, holds_of_read hread hr⟩
  rw [save, doing_eq_ok, ofFile_eq_ok]
  exact Session.attempt_eq_ok_iff.mpr ⟨t, hwrite, rfl⟩

end StoredRequest

namespace Command.PrepareManifest

open StoredRequest (Holds holds_iff holds_of_read)

/-! ## One command -/

/-- The command that records a manifest at a position. -/
def recording (path : String) (call : Nat × String) : CommandM (StateM Session) Unit :=
  recordPom ⟨path, call.1, some call.2⟩ call.2

/-- The refusal where no deliverable is. -/
def noDeliverable (r : Request) (position : Nat) : Trouble :=
  .refused s!"request '{r.name}' has no deliverable at position {position}"

variable {o : OperationConfig} {call : Nat × String}

/-- **A command on a position that there is** changes the manifest of its deliverable. -/
theorem outcome_recording_of_lt (hheld : Holds path r s) (hconfig : r.config = .valid (.operation o))
    {d : Deliverable} (hd : o.deliverables[call.1]? = some d)
    (hr : (r.delivering o (o.deliverables.set call.1 { d with pom := some call.2 })).Storable) :
    ∃ s', outcome (recording path call) s = (.ok (), s') ∧
      Holds path (r.delivering o (o.deliverables.set call.1 { d with pom := some call.2 })) s' := by
  obtain ⟨s', hsave, hafter⟩ := StoredRequest.outcome_save hheld hr
  refine ⟨s', ?_, hafter⟩
  rw [recording, recordPom, outcome_bind_of_ok hheld,
    Request.recordPom_of_lt hconfig hd]
  exact hsave

/-- **A command on any other position** is refused, and nothing is written. -/
theorem outcome_recording_of_le (hheld : Holds path r s) (hle : r.deliverables.length ≤ call.1) :
    outcome (recording path call) s = (.error (noDeliverable r call.1), s) := by
  rw [recording, recordPom, outcome_bind_of_ok hheld,
    Request.recordPom_of_le hle]
  rfl

/-- What a command does to a request with so many deliverables: in range, the manifest of the
deliverable at its position is recorded and all else stays; out of range it is refused and the session
stays as it is. -/
structure RecordsOne (path : String) (deliverables : Nat) (call : Nat × String) (s : Session) :
    Prop where
  inRange : call.1 < deliverables → ∃ r o d s', Holds path r s ∧ r.config = .valid (.operation o) ∧
    o.deliverables[call.1]? = some d ∧ outcome (recording path call) s = (.ok (), s') ∧
    Holds path (r.delivering o (o.deliverables.set call.1 { d with pom := some call.2 })) s'
  outOfRange : deliverables ≤ call.1 → ∃ r, Holds path r s ∧
    outcome (recording path call) s = (.error (noDeliverable r call.1), s)

/-- **One command on the file is one step of the request**, if what it becomes can be stored. -/
theorem recordsOne (hheld : Holds path r s) (hconfig : r.config = .valid (.operation o))
    (hnext : (r.preparedOnce call).Storable) :
    RecordsOne path r.deliverables.length call s ∧
      Holds path (r.preparedOnce call) (outcome (recording path call) s).2 := by
  have hlength : r.deliverables.length = o.deliverables.length :=
    congrArg _ (Request.deliverables_of_config hconfig)
  cases hd : o.deliverables[call.1]? with
  | some d =>
      have hlt : call.1 < r.deliverables.length := hlength ▸ (List.getElem?_eq_some_iff.mp hd).1
      have honce : r.preparedOnce call =
          r.delivering o (o.deliverables.set call.1 { d with pom := some call.2 }) := by
        rw [Request.preparedOnce, Request.recordPom_of_lt hconfig hd]
      rw [honce] at hnext ⊢
      obtain ⟨s', hrun, hafter⟩ := outcome_recording_of_lt hheld hconfig hd hnext
      rw [hrun]
      exact ⟨⟨fun _ => ⟨r, o, d, s', hheld, hconfig, hd, hrun, hafter⟩,
        fun hle => absurd hlt (Nat.not_lt.mpr hle)⟩, hafter⟩
  | none =>
      have hle : r.deliverables.length ≤ call.1 := hlength ▸ List.getElem?_eq_none_iff.mp hd
      have hrun := outcome_recording_of_le hheld hle
      rw [Request.preparedOnce, Request.recordPom_of_le hle, hrun]
      exact ⟨⟨fun hlt => absurd hlt (Nat.not_lt.mpr hle), fun _ => ⟨r, hheld, hrun⟩⟩, hheld⟩

/-! ## A run -/

/-- The session after commands, one after the other, whatever comes of each. -/
def recordAll (path : String) (s : Session) (calls : List (Nat × String)) : Session :=
  calls.foldl (fun s call => (outcome (recording path call) s).2) s

theorem recordAll_append_singleton (before : List (Nat × String)) :
    recordAll path s (before ++ [call]) = (outcome (recording path call) (recordAll path s before)).2 := by
  rw [recordAll, List.foldl_append]
  rfl

/-- The configuration of every stage of a run is read back from the document that it is written as. -/
def StagesReadBack (r : Request) (calls : List (Nat × String)) : Prop :=
  ∀ before c, before <+: calls → (r.prepared before).config = .valid c →
    ConfigState.ofRaw (some c.render) r.kind r.correlationId = .valid c

theorem StagesReadBack.of_prefix {before calls : List (Nat × String)} (h : StagesReadBack r calls)
    (hfront : before <+: calls) : StagesReadBack r before :=
  fun stage c hstage => h stage c (hstage.trans hfront)

theorem storable_prepared (hheld : Holds path r s) (hconfig : r.config = .valid (.operation o))
    {calls : List (Nat × String)} (hback : StagesReadBack r calls) : (r.prepared calls).Storable := by
  obtain ⟨text, record, -, -, hrecord⟩ := holds_iff.mp hheld
  obtain ⟨-, hid, hcorrelation, -⟩ := Request.fields_of_ofRecord hrecord
  have hread := hback calls
  rw [Request.prepared_eq hconfig] at hread ⊢
  exact ⟨hid, hcorrelation, hread _ (List.prefix_refl calls) rfl⟩

/-- **After a run the file holds the request after the same run.** -/
theorem holds_recordAll (hheld : Holds path r s) (hconfig : r.config = .valid (.operation o))
    {calls : List (Nat × String)} (hback : StagesReadBack r calls) :
    Holds path (r.prepared calls) (recordAll path s calls) := by
  induction calls using List.reverseRecOn with
  | nil => exact hheld
  | append_singleton before call ih =>
      have hbefore := ih (hback.of_prefix (List.prefix_append before [call]))
      have hstorable := storable_prepared hheld hconfig hback
      rw [Request.prepared_append_singleton] at hstorable ⊢
      rw [recordAll_append_singleton]
      exact (recordsOne hbefore (Request.config_prepared hconfig before) hstorable).2

/-- **An operation is released exactly when it is complete.** Each command of a run changes the manifest
of one deliverable, or is refused, and the request can move on exactly when every position occurred. -/
theorem released_iff (hheld : Holds path r s) (hkind : r.kind = .operation)
    (hsome : r.deliverables ≠ []) (hnone : ∀ d ∈ r.deliverables, d.pom = none)
    {calls : List (Nat × String)} (hpoms : ∀ call ∈ calls, Text.allBlank call.2 = false)
    (hback : StagesReadBack r calls) :
    (∃ r', Holds path r' (recordAll path s calls) ∧
      (r'.PomsAvailable ↔ ∀ i < r.deliverables.length, i ∈ calls.map Prod.fst)) ∧
    ∀ before call, before ++ [call] <+: calls →
      RecordsOne path r.deliverables.length call (recordAll path s before) := by
  obtain ⟨o, hconfig⟩ := Request.exists_config_of_deliverables hsome
  refine ⟨⟨r.prepared calls, holds_recordAll hheld hconfig hback,
    Request.pomsAvailable_prepared_iff hpoms hkind hsome hnone⟩, fun before call hfront => ?_⟩
  have hbefore := holds_recordAll hheld hconfig
    (hback.of_prefix ((List.prefix_append before [call]).trans hfront))
  have hstorable := storable_prepared hheld hconfig (hback.of_prefix hfront)
  rw [Request.prepared_append_singleton] at hstorable
  have hcount : (r.prepared before).deliverables.length = r.deliverables.length := by
    rw [Request.deliverables_prepared hconfig, Request.length_preparedDeliverables,
      Request.deliverables_of_config hconfig]
  rw [← hcount]
  exact (recordsOne hbefore (Request.config_prepared hconfig before) hstorable).1

/-! ## Two archives -/

/-- An operation that delivers two archives. -/
def twoArchives : OperationConfig := ⟨"o", .standard, [⟨0, "a.zip", none⟩, ⟨1, "b.zip", none⟩]⟩

/-- A request for it. -/
def twoArchivesRequest : Request :=
  (Request.new "r" "1" .operation "o").setConfig (.operation twoArchives)

/-- A directory that it is kept in. -/
def kept : Session where
  tree := .ofFiles ["work"] [("r.yaml", twoArchivesRequest.toRecord.render)]

/-- The second archive, one that there is not, and the first. -/
def threeCalls : List (Nat × String) := [(1, "1/pom.xml"), (7, "7/pom.xml"), (0, "0/pom.xml")]

theorem stagesReadBack_threeCalls : StagesReadBack twoArchivesRequest threeCalls := by
  have hlast : ∀ text ∈ ["b.zip", "1/pom.xml"], ∀ c ∈ text.toList.getLast?, Text.isBlank c = false := by
    simp [Text.isBlank]
  have hstage : ∀ before, (∀ d ∈ Request.preparedDeliverables twoArchives.deliverables before,
      d.index < Nat.pow 2 32) → ∀ c, (twoArchivesRequest.prepared before).config = .valid c →
      c.InRange ∧ c = .operation { twoArchives with
        deliverables := Request.preparedDeliverables twoArchives.deliverables before } := by
    intro before hindices c hc
    rw [Request.config_prepared (o := twoArchives) rfl] at hc
    obtain rfl := ConfigState.valid.inj hc
    exact ⟨hindices, rfl⟩
  intro before c hbefore hc
  rcases List.prefix_cons_iff.mp hbefore with rfl | ⟨_, rfl, hfirst⟩
  · obtain ⟨hrange, rfl⟩ := hstage _ (by decide) c hc
    exact ConfigState.ofRaw_render hrange rfl fun _ => hlast "b.zip" (by decide)
  rcases List.prefix_cons_iff.mp hfirst with rfl | ⟨_, rfl, hsecond⟩
  · obtain ⟨hrange, rfl⟩ := hstage _ (by decide) c hc
    exact ConfigState.ofRaw_render hrange rfl fun _ => hlast "1/pom.xml" (by decide)
  rcases List.prefix_cons_iff.mp hsecond with rfl | ⟨_, rfl, hthird⟩
  · obtain ⟨hrange, rfl⟩ := hstage _ (by decide) c hc
    exact ConfigState.ofRaw_render hrange rfl fun _ => hlast "1/pom.xml" (by decide)
  obtain rfl := List.prefix_nil.mp hthird
  obtain ⟨hrange, rfl⟩ := hstage _ (by decide) c hc
  exact ConfigState.ofRaw_render hrange rfl fun _ => hlast "1/pom.xml" (by decide)

theorem holds_kept : Holds "r.yaml" twoArchivesRequest kept := by
  refine holds_of_read rfl ⟨by decide, by decide, ?_⟩
  exact stagesReadBack_threeCalls [] _ List.nil_prefix rfl

theorem released_iff_twoArchives :
    Holds "r.yaml" twoArchivesRequest kept ∧ twoArchivesRequest.kind = .operation ∧
    twoArchivesRequest.deliverables ≠ [] ∧ (∀ d ∈ twoArchivesRequest.deliverables, d.pom = none) ∧
    (∀ call ∈ threeCalls, Text.allBlank call.2 = false) ∧
    StagesReadBack twoArchivesRequest threeCalls ∧
    (∃ r', Holds "r.yaml" r' (recordAll "r.yaml" kept threeCalls) ∧
      (r'.PomsAvailable ↔ ∀ i < twoArchivesRequest.deliverables.length, i ∈ threeCalls.map Prod.fst)) ∧
    ∀ before call, before ++ [call] <+: threeCalls →
      RecordsOne "r.yaml" twoArchivesRequest.deliverables.length call
        (recordAll "r.yaml" kept before) := by
  have hnone : ∀ d ∈ twoArchivesRequest.deliverables, d.pom = none := by decide
  have hpoms : ∀ call ∈ threeCalls, Text.allBlank call.2 = false := by decide
  exact ⟨holds_kept, rfl, by decide, hnone, hpoms, stagesReadBack_threeCalls,
    released_iff holds_kept rfl (by decide) hnone hpoms stagesReadBack_threeCalls⟩

end Command.PrepareManifest

end BomAssembly
