import BomAssembly.Control.Store
import BomAssembly.Intake.Delivery
import BomAssembly.Proofs.Request.Check
import BomAssembly.Proofs.Request.StoredForm

/-!
# What messages add to a store

A message adds a request if it tells of something that has ended well, names it, comes through the
trigger, and the name made for the request is free; nothing else is ever added (`Effect.adds_iff`), and
what is not added leaves the store alone. One message is taken apart first (`effect_deliver`). A
sequence of them is then a sequence of such effects, with a counter for all messages and one for
those that were meant for this system and were taken (`intake_exact`).
-/

namespace BomAssembly.Intake

variable {trigger : Trigger} {draw : Draw} {m : Message} {n : Notification}
variable {kind : Kind} {id given : String} {urls : List String} {r : Request} {s : Store}

/-! ## What calls for a request -/

/-- A notification tells of something that has ended well: of which kind, by what name as it is given,
and with which archives. -/
inductive Tells : Notification → Kind → String → List String → Prop where
  | build {change : BuildChange} {ref : BuildRef} {status : BuildStatus} {given : String}
      (hbuild : change.build = some ref) (hid : ref.id = some given)
      (hprogress : ref.progress = some .finished) (hstatus : ref.status = some status)
      (husable : status = .success ∨ status = .noRebuildRequired) :
      Tells (.build change) .build given []
  | analysis {change : AnalysisChange} {given : String} (hid : change.operationId = some given)
      (hstatus : change.status = some .finished) :
      Tells (.analysis change) .operation given change.urls

/-- A message calls for a request. -/
structure Calls (trigger : Trigger) (m : Message) (kind : Kind) (id : String) (urls : List String) :
    Prop where
  consumed : Notification.Consumes m.type
  told : ∃ n given, Notification.parse? m.type m.payload = some n ∧ Tells n kind given urls ∧
    Text.trimmed given = id
  named : id ≠ ""
  accepted : Accepts trigger kind = true

namespace Tells

theorem kind_eq (h : Tells n kind given urls) : n.kind = kind := by
  cases h <;> rfl

theorem urls_eq (h : Tells n kind given urls) : n.urls = urls := by
  cases h <;> rfl

theorem isFinishedSuccess (h : Tells n kind given urls) : n.isFinishedSuccess = true := by
  cases h with
  | build hbuild hid hprogress hstatus husable =>
      rw [Notification.isFinishedSuccess, hbuild]
      dsimp only
      rw [hprogress, hstatus]
      rcases husable with rfl | rfl <;> rfl
  | analysis hid hstatus => simp [Notification.isFinishedSuccess, hstatus]

theorem correlationId? (h : Tells n kind given urls) (hnamed : Text.trimmed given ≠ "") :
    n.correlationId? = some (Text.trimmed given) := by
  have hkept : (some (Text.trimmed given)).filter (fun id => id ≠ "") = some (Text.trimmed given) :=
    by simp [hnamed]
  cases h with
  | build hbuild hid hprogress hstatus husable =>
      simp only [Notification.correlationId?, hbuild, Option.bind_some, hid, Option.map_some]
      exact hkept
  | analysis hid hstatus =>
      simp only [Notification.correlationId?, hid, Option.map_some]
      exact hkept

end Tells

/-- A notification with a name that has ended well tells so. -/
theorem exists_tells (hid : n.correlationId? = some id) (hended : n.isFinishedSuccess = true) :
    ∃ given, Tells n n.kind given n.urls ∧ Text.trimmed given = id ∧ id ≠ "" := by
  obtain ⟨hid, hnamed⟩ := Option.filter_eq_some_iff.mp hid
  obtain ⟨given, hgiven, htrimmed⟩ := Option.map_eq_some_iff.mp hid
  refine ⟨given, ?_, htrimmed, of_decide_eq_true hnamed⟩
  cases n with
  | build change =>
      obtain ⟨ref, hbuild, href⟩ := Option.bind_eq_some_iff.mp hgiven
      rw [Notification.isFinishedSuccess, hbuild] at hended
      obtain ⟨hprogress, husable⟩ := Bool.and_eq_true_iff.mp hended
      cases hstatus : ref.status with
      | none => simp [hstatus] at husable
      | some status =>
          refine .build hbuild href (of_decide_eq_true hprogress) hstatus ?_
          rw [hstatus] at husable
          cases status <;> first | exact .inl rfl | exact .inr rfl | exact absurd husable (by decide)
  | analysis change => exact .analysis hgiven (of_decide_eq_true hended)

theorem request?_eq_some (h : Tells n kind given urls) (hnamed : Text.trimmed given ≠ "")
    (haccepted : Accepts trigger kind = true) :
    request? trigger draw n = some (requestFor n (Text.trimmed given) draw) := by
  unfold request?
  rw [h.correlationId? hnamed]
  dsimp only
  rw [h.kind_eq, haccepted, h.isFinishedSuccess]
  rfl

theorem exists_tells_of_request? (h : request? trigger draw n = some r) :
    ∃ given, Tells n n.kind given n.urls ∧ Text.trimmed given ≠ "" ∧
      Accepts trigger n.kind = true := by
  unfold request? at h
  split at h
  · exact absurd h (by simp)
  · next id hid =>
    split at h
    · next hboth =>
      obtain ⟨haccepted, hended⟩ := Bool.and_eq_true_iff.mp hboth
      obtain ⟨given, htells, htrimmed, hnamed⟩ := exists_tells hid hended
      exact ⟨given, htells, htrimmed ▸ hnamed, haccepted⟩
    · exact absurd h (by simp)

/-! ## The request -/

/-- What a new request is: nothing has happened to it yet, and it has a configuration only if it is for
an operation, which then lists the archives as they came. -/
structure Made (draw : Draw) (forKind : Kind) (forId : String) (urls : List String) (r : Request) :
    Prop where
  name : r.name = requestName forId draw.tail
  id : r.id = draw.id
  kind : r.kind = forKind
  correlationId : r.correlationId = forId
  status : r.status = .new
  reason : r.reason = none
  result : r.result = none
  output : r.output = none
  ofBuild : forKind = .build → r.config = .missing
  ofOperation : forKind = .operation → ∃ o, r.config = .valid (.operation o) ∧
    (Config.operation o).check r.kind r.correlationId = .ok () ∧
    o.deliverables.map Deliverable.url = urls ∧
    o.deliverables.map Deliverable.index = List.range urls.length ∧
    ∀ d ∈ o.deliverables, d.pom = none

theorem map_url_deliverablesOf (urls : List String) :
    (deliverablesOf urls).map Deliverable.url = urls := by
  rw [deliverablesOf, List.map_map]
  exact List.zipIdx_map_fst 0 urls

theorem map_index_deliverablesOf (urls : List String) :
    (deliverablesOf urls).map Deliverable.index = List.range urls.length := by
  rw [deliverablesOf, List.map_map, List.range_eq_range']
  exact List.zipIdx_map_snd 0 urls

theorem pom_of_mem_deliverablesOf {d : Deliverable} (h : d ∈ deliverablesOf urls) :
    d.pom = none := by
  obtain ⟨entry, -, rfl⟩ := List.mem_map.mp h
  rfl

/-- The indices count the archives, so none comes twice. -/
theorem check_operationOf (id : String) (urls : List String) :
    (operationOf id urls).check .operation id = .ok () := by
  refine Config.check_eq_ok_iff.mpr ⟨⟨rfl, .inr rfl⟩, ?_⟩
  show ((deliverablesOf urls).map Deliverable.index).Nodup
  rw [map_index_deliverablesOf]
  exact List.nodup_range

theorem made_requestFor (h : Tells n kind given urls) (id : String) (draw : Draw) :
    Made draw kind id urls (requestFor n id draw) := by
  have hkind := h.kind_eq
  have hurls := h.urls_eq
  subst hkind hurls
  cases hkind : n.kind with
  | build =>
      simp only [requestFor, hkind]
      exact ⟨rfl, rfl, rfl, rfl, rfl, rfl, rfl, rfl, fun _ => rfl, fun h => absurd h (by simp)⟩
  | operation =>
      simp only [requestFor, hkind]
      exact ⟨rfl, rfl, rfl, rfl, rfl, rfl, rfl, rfl, fun h => absurd h (by simp),
        fun _ => ⟨_, rfl, check_operationOf id n.urls, map_url_deliverablesOf n.urls,
          map_index_deliverablesOf n.urls, fun _ => pom_of_mem_deliverablesOf⟩⟩

/-! ## The record -/

/-- The record of a new request says all of it. What is read from the record is the request, but for
the blanks that the document of its configuration may lose at the very end. -/
structure Stored (draw : Draw) (urls : List String) (r : Request) (record : Record) : Prop where
  written : record = r.toRecord
  document : ∀ c, r.config = .valid c → urls.length ≤ Nat.pow 2 32 →
    ∃ text, record.data.get? r.kind.configKey = some text ∧
      Config.parse text r.kind r.correlationId = .ok c
  readsBack : Text.allBlank draw.id = false → ∃ back, Request.ofRecord record = .ok back ∧
    { back with config := r.config } = r ∧
    ((∀ c, r.config = .valid c → urls.length ≤ Nat.pow 2 32 ∧ c.KeepsEnd) → back = r)

theorem Made.valid (h : Made draw kind id urls r) {c : Config} (hc : r.config = .valid c) :
    c.check r.kind r.correlationId = .ok () ∧ (urls.length ≤ Nat.pow 2 32 → c.InRange) := by
  cases kind with
  | build => exact absurd ((h.ofBuild rfl).symm.trans hc) (by simp)
  | operation =>
      obtain ⟨o, hconfig, hcheck, -, hindices, -⟩ := h.ofOperation rfl
      obtain rfl := ConfigState.valid.inj (hconfig.symm.trans hc)
      refine ⟨hcheck, fun hlength d hd => ?_⟩
      have hindex : d.index ∈ List.range urls.length := hindices ▸ List.mem_map_of_mem hd
      exact Nat.lt_of_lt_of_le (List.mem_range.mp hindex) hlength

theorem Made.stored (h : Made draw kind id urls r) (hid : Text.allBlank id = false) :
    Stored draw urls r r.toRecord where
  written := rfl
  document := by
    intro c hc hlength
    obtain ⟨hcheck, hrange⟩ := h.valid hc
    have htext : r.configText = some c.render := by rw [Request.configText, hc]
    have hfield : (r.kind.configKey, r.configText) ∈ r.recordFields := by
      simp [Request.recordFields]
    exact ⟨c.render, (Request.get?_toRecord hfield).trans htext,
      Config.parse_render (hrange hlength) hcheck⟩
  readsBack := by
    intro hdrawn
    have hback := Request.ofRecord_toRecord_eq (h.id ▸ hdrawn) (h.correlationId ▸ hid)
    refine ⟨_, hback, rfl, fun hends => ?_⟩
    show { r with config := ConfigState.ofRaw r.configText r.kind r.correlationId } = r
    have hconfig : ConfigState.ofRaw r.configText r.kind r.correlationId = r.config := by
      unfold Request.configText
      cases hc : r.config with
      | missing => rfl
      | invalid raw error =>
          -- a new request has no text that does not fit
          cases kind with
          | build => exact absurd ((h.ofBuild rfl).symm.trans hc) (by simp)
          | operation =>
              obtain ⟨o, hvalid, -⟩ := h.ofOperation rfl
              exact absurd (hvalid.symm.trans hc) (by simp)
      | valid c =>
          obtain ⟨hcheck, hrange⟩ := h.valid hc
          obtain ⟨hlength, hkeeps⟩ := hends c hc
          exact ConfigState.ofRaw_render (hrange hlength) hcheck hkeeps
    rw [hconfig]

/-! ## One message -/

/-- What a message does to a store. -/
structure Effect (trigger : Trigger) (draw : Draw) (m : Message) (s t : Store) (d : Delivery) :
    Prop where
  /-- It adds one record just when it calls for a request whose name is free. -/
  adds_iff : (∃ record, t.records = s.records ++ [record]) ↔
    ∃ kind id urls, Calls trigger m kind id urls ∧ requestName id draw.tail ∉ s.names
  added : ∀ record, t.records = s.records ++ [record] → ∃ kind id urls r,
    Calls trigger m kind id urls ∧ Made draw kind id urls r ∧ Stored draw urls r record
  unchanged : (¬ ∃ record, t.records = s.records ++ [record]) → t = s
  /-- It is refused when it cannot be read, or when the name is not free. -/
  refused_iff : (∃ why, d = .refused why) ↔ Notification.Consumes m.type ∧
    (Notification.parse? m.type m.payload = none ∨
      ∃ kind id urls, Calls trigger m kind id urls ∧ requestName id draw.tail ∈ s.names)

/-- What a message calls for is decided by the message. -/
theorem Calls.unique {kind' : Kind} {id' : String} {urls' : List String}
    (h : Calls trigger m kind id urls) (h' : Calls trigger m kind' id' urls') :
    kind = kind' ∧ id = id' ∧ urls = urls' := by
  obtain ⟨n, given, hparse, htells, rfl⟩ := h.told
  obtain ⟨n', given', hparse', htells', rfl⟩ := h'.told
  obtain rfl := Option.some.inj (hparse.symm.trans hparse')
  have hid := (htells.correlationId? h.named).symm.trans (htells'.correlationId? h'.named)
  exact ⟨htells.kind_eq.symm.trans htells'.kind_eq, Option.some.inj hid,
    htells.urls_eq.symm.trans htells'.urls_eq⟩

theorem records_ne_append (s : Store) (record : Record) : s.records ≠ s.records ++ [record] := by
  intro h
  have hlength := congrArg List.length h
  rw [List.length_append, List.length_singleton] at hlength
  omega

/-- A message that changes nothing has the effect of one that calls for nothing. -/
theorem effect_self {d : Delivery}
    (hfree : ∀ kind id urls, Calls trigger m kind id urls → requestName id draw.tail ∈ s.names)
    (hrefused : (∃ why, d = .refused why) ↔ Notification.Consumes m.type ∧
      (Notification.parse? m.type m.payload = none ∨
        ∃ kind id urls, Calls trigger m kind id urls ∧ requestName id draw.tail ∈ s.names)) :
    Effect trigger draw m s s d where
  adds_iff := by
    constructor
    · rintro ⟨record, hadded⟩
      exact absurd hadded (records_ne_append s record)
    · rintro ⟨kind, id, urls, hcalls, hnew⟩
      exact absurd (hfree kind id urls hcalls) hnew
  added record hadded := absurd hadded (records_ne_append s record)
  unchanged _ := rfl
  refused_iff := hrefused

theorem submit_of_mem (h : r.name ∈ s.names) : RequestStore.submit r s =
    (s, .error (PlatformError.alreadyExists r.name).toFailure) := by
  show (let (s, done) := s.create r.toRecord; (s, done.mapError PlatformError.toFailure)) = _
  rw [Store.create, dif_pos (show r.toRecord.name ∈ s.names from h)]
  rfl

theorem submit_of_not_mem (h : r.name ∉ s.names) :
    (RequestStore.submit r s).1.records = s.records ++ [r.toRecord] ∧
      (RequestStore.submit r s).2 = .ok () := by
  show (let (s, done) := s.create r.toRecord; (s, done.mapError PlatformError.toFailure)).1.records
    = _ ∧ (let (s, done) := s.create r.toRecord; (s, done.mapError PlatformError.toFailure)).2 = _
  rw [Store.create, dif_neg (show r.toRecord.name ∉ s.names from h)]
  exact ⟨rfl, rfl⟩

/-- A message that calls for a request adds it, unless there is a record of its name. -/
theorem effect_settle (hcalls : Calls trigger m kind id urls) (hmade : Made draw kind id urls r) :
    Effect trigger draw m s (settle RequestStore.submit (some r) s).1
      (settle RequestStore.submit (some r) s).2 := by
  obtain ⟨n, given, hparse, htells, hgiven⟩ := hcalls.told
  -- whatever the message is said to call for, it is this request
  have hname : ∀ {kind' id' urls'}, Calls trigger m kind' id' urls' →
      requestName id' draw.tail = r.name := by
    intro kind' id' urls' h
    rw [(h.unique hcalls).2.1, hmade.name]
  by_cases hfree : r.name ∈ s.names
  · rw [settle, submit_of_mem hfree]
    refine effect_self (fun _ _ _ h => hname h ▸ hfree) ⟨fun _ => ?_, fun _ => ⟨_, rfl⟩⟩
    exact ⟨hcalls.consumed, .inr ⟨kind, id, urls, hcalls, hname hcalls ▸ hfree⟩⟩
  · obtain ⟨hrecords, hdone⟩ := submit_of_not_mem hfree
    have hid : Text.allBlank id = false := by
      have hnamed := hcalls.named
      subst hgiven
      exact Text.allBlank_trimmed hnamed
    have hsettled : settle RequestStore.submit (some r) s =
        ((RequestStore.submit r s).1, .taken) := by
      rw [settle]
      generalize RequestStore.submit r s = done at hdone
      obtain ⟨t, result⟩ := done
      obtain rfl : result = .ok () := hdone
      rfl
    rw [hsettled]
    refine ⟨⟨fun _ => ⟨kind, id, urls, hcalls, hname hcalls ▸ hfree⟩, fun _ => ⟨_, hrecords⟩⟩,
      ?_, fun hnone => absurd ⟨_, hrecords⟩ hnone, ?_⟩
    · intro record hadded
      obtain rfl : r.toRecord = record :=
        List.singleton_inj.mp (List.append_cancel_left (hrecords.symm.trans hadded))
      exact ⟨kind, id, urls, r, hcalls, hmade, hmade.stored hid⟩
    · constructor
      · rintro ⟨why, hwhy⟩
        exact absurd hwhy (by simp)
      · rintro ⟨-, hunread | ⟨kind', id', urls', h, htaken⟩⟩
        · exact absurd (hunread.symm.trans hparse) (by simp)
        · exact absurd (hname h ▸ htaken) hfree

/-- **The effect of a message.** -/
theorem effect_deliver (trigger : Trigger) (draw : Draw) (m : Message) (s : Store) :
    Effect trigger draw m s (deliver trigger RequestStore.submit draw m s).1
      (deliver trigger RequestStore.submit draw m s).2 := by
  by_cases hconsumed : Notification.Consumes m.type
  · rw [deliver, if_pos hconsumed]
    cases hparse : Notification.parse? m.type m.payload with
    | none =>
        dsimp only
        refine effect_self (fun kind id urls h => ?_)
          ⟨fun _ => ⟨hconsumed, .inl hparse⟩, fun _ => ⟨_, rfl⟩⟩
        obtain ⟨n, given, hread, -⟩ := h.told
        exact absurd (hparse.symm.trans hread) (by simp)
    | some n =>
        dsimp only
        cases hrequest : request? trigger draw n with
        | none =>
            have hnone : ∀ kind id urls, ¬ Calls trigger m kind id urls := by
              intro kind id urls h
              obtain ⟨n', given, hread, htells, rfl⟩ := h.told
              obtain rfl := Option.some.inj (hparse.symm.trans hread)
              exact absurd (hrequest.symm.trans (request?_eq_some htells h.named h.accepted))
                (by simp)
            rw [settle]
            refine effect_self (fun kind id urls h => absurd h (hnone kind id urls)) ?_
            simp [hparse, hnone]
        | some r =>
            obtain ⟨given, htells, hnamed, haccepted⟩ := exists_tells_of_request? hrequest
            obtain rfl : requestFor n (Text.trimmed given) draw = r :=
              Option.some.inj ((request?_eq_some htells hnamed haccepted).symm.trans hrequest)
            exact effect_settle ⟨hconsumed, ⟨n, given, hparse, htells, rfl⟩, hnamed, haccepted⟩
              (made_requestFor htells _ draw)
  · have hnone : ∀ kind id urls, ¬ Calls trigger m kind id urls :=
      fun _ _ _ h => hconsumed h.consumed
    rw [deliver, if_neg hconsumed]
    refine effect_self (fun kind id urls h => absurd h (hnone kind id urls)) ?_
    simp [hconsumed]

/-! ## One message after the other -/

/-- A store that messages are delivered to, with the counters of the deliveries. -/
structure Consumer where
  store : Store
  counters : Counters := {}

namespace Consumer

/-- Deliver a message and count it. -/
def process (trigger : Trigger) (m : Message) (draw : Draw) (c : Consumer) : Consumer × Delivery :=
  let (store, d) := deliver trigger RequestStore.submit draw m c.store
  (⟨store, c.counters.count m d⟩, d)

/-- Deliver messages in turn, each with what is drawn for it. -/
def processAll (trigger : Trigger) : List (Message × Draw) → Consumer → Consumer × List Delivery
  | [], c => (c, [])
  | (m, draw) :: rest, c =>
    let (c, d) := c.process trigger m draw
    let (c, ds) := c.processAll trigger rest
    (c, d :: ds)

/-- The messages for this system that were taken. -/
def takenOf (messages : List (Message × Draw)) (ds : List Delivery) : List (Message × Delivery) :=
  ((messages.map Prod.fst).zip ds).filter fun x => Notification.Consumes x.1.type ∧ x.2 = .taken

variable {c : Consumer} {messages : List (Message × Draw)}

theorem processAll_append (trigger : Trigger) (before later : List (Message × Draw))
    (c : Consumer) : c.processAll trigger (before ++ later) =
      (((c.processAll trigger before).1.processAll trigger later).1,
        (c.processAll trigger before).2 ++
          ((c.processAll trigger before).1.processAll trigger later).2) := by
  induction before generalizing c with
  | nil => rfl
  | cons head before ih =>
      rw [List.cons_append, processAll, processAll]
      dsimp only
      rw [ih]
      rfl

theorem length_processAll (trigger : Trigger) (messages : List (Message × Draw)) (c : Consumer) :
    (c.processAll trigger messages).2.length = messages.length := by
  induction messages generalizing c with
  | nil => rfl
  | cons head messages ih =>
      rw [processAll]
      dsimp only
      rw [List.length_cons, List.length_cons, ih]

/-- Each message is counted once, and once more if it was for this system and was taken. -/
theorem counters_processAll (trigger : Trigger) (messages : List (Message × Draw)) (c : Consumer) :
    (c.processAll trigger messages).1.counters =
      ⟨c.counters.received + messages.length,
        c.counters.processed + (takenOf messages (c.processAll trigger messages).2).length⟩ := by
  induction messages generalizing c with
  | nil => rfl
  | cons head messages ih =>
      obtain ⟨m, draw⟩ := head
      rw [processAll]
      dsimp only
      rw [ih]
      generalize hd : (c.process trigger m draw).2 = d
      have hcount : (c.process trigger m draw).1.counters = c.counters.count m d := hd ▸ rfl
      rw [hcount, Counters.count]
      by_cases hcounts : Notification.Consumes m.type ∧ d = .taken
      · simp [takenOf, hcounts]
        omega
      · simp [takenOf, hcounts]
        omega

/-- A store before any message. -/
def start (s : Store) : Consumer := ⟨s, {}⟩

/-- **Intake is exact**: the counters say how many messages came and how many of those for this system
were taken, and each message, wherever it stands among the others, has its effect and no other. -/
theorem intake_exact (trigger : Trigger) (messages : List (Message × Draw)) (s : Store) :
    ((start s).processAll trigger messages).1.counters = ⟨messages.length,
      (takenOf messages ((start s).processAll trigger messages).2).length⟩ ∧
    ((start s).processAll trigger messages).2.length = messages.length ∧
    ∀ before m draw later, messages = before ++ (m, draw) :: later →
      ∃ d, ((start s).processAll trigger messages).2[before.length]? = some d ∧
        Effect trigger draw m ((start s).processAll trigger before).1.store
          ((start s).processAll trigger (before ++ [(m, draw)])).1.store d := by
  refine ⟨?_, length_processAll trigger messages _, ?_⟩
  · rw [counters_processAll, start]
    simp
  · rintro before m draw later rfl
    have heffect := effect_deliver trigger draw m ((start s).processAll trigger before).1.store
    refine ⟨(deliver trigger RequestStore.submit draw m
      ((start s).processAll trigger before).1.store).2, ?_, ?_⟩
    · rw [processAll_append, List.getElem?_append_right (by rw [length_processAll]),
        length_processAll, Nat.sub_self]
      rfl
    · rw [processAll_append]
      exact heffect

end Consumer

end BomAssembly.Intake
