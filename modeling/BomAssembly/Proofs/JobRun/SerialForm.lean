import BomAssembly.Proofs.JobRun.Desired
import BomAssembly.Proofs.Json.Record
import BomAssembly.Proofs.Json.Shape
import BomAssembly.Proofs.Request.StoredForm
import BomAssembly.Proofs.Text.MapLookup

/-!
# Specs and their JSON

Everything in a spec is in its JSON but what its time limit has beyond whole seconds: read back, the
spec has its time limit cut (`parse?_toJson`). So a spec survives its serial form exactly when its time
limit is in whole seconds, and two specs have one canonical form exactly when they differ at most in
annotations and within a second of their time limits (`canonical_eq_iff`). The fingerprint that a spec
carries is that of its canonical form.
-/

namespace BomAssembly

open Json (Known Shape defaulted defaulted_of_once fits_arr_map fits_nat fits_obj_iff fits_some
  fits_str fits_written list? list?_arr natBelow?_lt natBelow?_nat once once_written_self
  readWritten_compact readWritten_of_covers required required_of_once required_string string? written)
open Text (StringMap)

/-! ## Parts of a spec -/

theorem Json.Shape.covers_any (v : Json) : Shape.any.Covers v := by
  induction v using Json.induction with
  | arr vs ih =>
      rw [Shape.Covers]
      induction vs with
      | nil => trivial
      | cons v vs ihs =>
          exact ⟨ih v List.mem_cons_self, ihs fun w hw => ih w (List.mem_cons_of_mem v hw)⟩
  | obj fs ih =>
      rw [Shape.Covers]
      induction fs with
      | nil => trivial
      | cons f fs ihs =>
          exact ⟨⟨.any, rfl, ih f List.mem_cons_self⟩,
            ihs fun g hg => ih g (List.mem_cons_of_mem f hg)⟩
  | _ => trivial

theorem mapJson_eq (m : StringMap String) :
    mapJson m = .obj (m.entries.map fun e => (e.1, .str e.2)) := by
  have hentries : ∀ es : List (String × String),
      Yaml.entriesToJson (es.map fun e => (e.1, .str e.2)) = es.map fun e => (e.1, .str e.2) := by
    intro es
    induction es with
    | nil => rfl
    | cons e es ih =>
        rw [List.map_cons, Yaml.entriesToJson, ih]
        rfl
  exact congrArg Json.obj (hentries m.entries)

theorem map?_mapJson (m : StringMap String) : map? (mapJson m) = some m := by
  have htexts : ∀ es : List (String × String),
      Json.texts? (.obj (es.map fun e => (e.1, .str e.2))) = some es := by
    intro es
    rw [Json.texts?]
    induction es with
    | nil => rfl
    | cons e es ih =>
        rw [List.map_cons, List.mapM_cons, ih]
        rfl
  rw [map?, mapJson_eq, htexts, Option.map_some]
  exact congrArg some m.foldl_insert_entries

theorem fits_mapJson (m : StringMap String) (d : Nat) : (mapJson m).Fits (d + 1) := by
  rw [mapJson_eq, fits_obj_iff]
  intro f hf
  obtain ⟨e, -, rfl⟩ := List.mem_map.mp hf
  exact fits_str d e.2

namespace Param

/-- A parameter in JSON. -/
def toJson (p : Param) : Json := .obj [("name", .str p.name), ("value", .str p.value)]

theorem ofJson?_toJson (p : Param) : ofJson? p.toJson = some p := rfl

theorem fits_toJson (p : Param) (d : Nat) : p.toJson.Fits (d + 1) := by
  rw [toJson, fits_obj_iff]
  simp only [List.forall_mem_cons]
  exact ⟨fits_str d p.name, fits_str d p.value, fun _ hv => absurd hv List.not_mem_nil⟩

theorem itemsToJson_map (ps : List Param) :
    Yaml.itemsToJson (ps.map toData) = ps.map toJson := by
  induction ps with
  | nil => rfl
  | cons p ps ih =>
      rw [List.map_cons, Yaml.itemsToJson, ih]
      rfl

end Param

namespace Workspace

/-- A workspace in JSON. -/
def toJson (w : Workspace) : Json :=
  .obj [("name", .str w.name), ("claimName", .str w.claimName), ("subPath", .str w.subPath)]

theorem ofJson?_toJson (w : Workspace) : ofJson? w.toJson = some w := rfl

theorem fits_toJson (w : Workspace) (d : Nat) : w.toJson.Fits (d + 1) := by
  rw [toJson, fits_obj_iff]
  simp only [List.forall_mem_cons]
  exact ⟨fits_str d w.name, fits_str d w.claimName, fits_str d w.subPath,
    fun _ hv => absurd hv List.not_mem_nil⟩

end Workspace

/-! ## Whole specs -/

namespace JobRunSpec

variable {s t : JobRunSpec}

/-- The fields as they are written. -/
def known (s : JobRunSpec) : List (String × Option Json) := [
  ("name", some (.str s.name)), ("labels", some (mapJson s.labels)),
  ("annotations", some (mapJson s.annotations)),
  ("params", some (.arr (s.params.map Param.toJson))),
  ("timeout", some (.nat (s.timeout / 1000))),
  ("serviceAccount", some (.str s.serviceAccount)), ("taskRef", some (.str s.taskRef)),
  ("workspace", some s.workspace.toJson)]

theorem knows (s : JobRunSpec) : Known (fieldShapes.map Prod.fst) s.known :=
  ⟨by simp [known], by simp [known, fieldShapes]⟩

theorem toJson_eq (s : JobRunSpec) : s.toJson = .obj (written s.known ++ []) := by
  have hparams := Param.itemsToJson_map s.params
  simp only [toJson, toData, Yaml.Data.toJson, Yaml.entriesToJson]
  rw [hparams]
  rfl

/-- The spec that these fields hold. -/
structure ReadFrom (fs : Json.Fields) (s : JobRunSpec) : Prop where
  name : required string? ["name"] fs = some s.name
  labels : required map? ["labels"] fs = some s.labels
  annotations : defaulted .empty map? ["annotations"] fs = some s.annotations
  params : required (list? Param.ofJson?) ["params"] fs = some s.params
  timeout : required seconds? ["timeout"] fs = some s.timeout
  serviceAccount : required string? ["serviceAccount"] fs = some s.serviceAccount
  taskRef : required string? ["taskRef"] fs = some s.taskRef
  workspace : required Workspace.ofJson? ["workspace"] fs = some s.workspace

theorem ofJson?_eq_some_iff {v : Json} : ofJson? v = some s ↔
    ∃ fs, v.recordFields? (fieldShapes.map Prod.fst) = some fs ∧ ReadFrom fs s := by
  constructor
  · intro h
    obtain ⟨fs, hfs, h⟩ := Option.bind_eq_some_iff.mp h
    obtain ⟨name, hname, h⟩ := Option.bind_eq_some_iff.mp h
    obtain ⟨labels, hlabels, h⟩ := Option.bind_eq_some_iff.mp h
    obtain ⟨annotations, hannotations, h⟩ := Option.bind_eq_some_iff.mp h
    obtain ⟨params, hparams, h⟩ := Option.bind_eq_some_iff.mp h
    obtain ⟨timeout, htimeout, h⟩ := Option.bind_eq_some_iff.mp h
    obtain ⟨account, haccount, h⟩ := Option.bind_eq_some_iff.mp h
    obtain ⟨task, htask, h⟩ := Option.bind_eq_some_iff.mp h
    obtain ⟨workspace, hworkspace, h⟩ := Option.bind_eq_some_iff.mp h
    obtain rfl := Option.some.inj h
    exact ⟨fs, hfs, hname, hlabels, hannotations, hparams, htimeout, haccount, htask, hworkspace⟩
  · rintro ⟨fs, hfs, h⟩
    rw [ofJson?, bind_of_eq hfs, bind_of_eq h.name, bind_of_eq h.labels, bind_of_eq h.annotations,
      bind_of_eq h.params, bind_of_eq h.timeout, bind_of_eq h.serviceAccount, bind_of_eq h.taskRef,
      bind_of_eq h.workspace]

theorem once_known (s : JobRunSpec) {n : String} {o : Option Json} (hmem : (n, o) ∈ s.known) :
    once [n] (written s.known ++ []) = some o :=
  once_written_self (.nil _ 0) (knows s) hmem

/-- The spec with its time limit cut to whole seconds. -/
def inSeconds (s : JobRunSpec) : JobRunSpec := { s with timeout := s.timeout / 1000 * 1000 }

theorem seconds?_nat {n : Nat} (h : n < 2 ^ 64) : seconds? (.nat n) = some (n * 1000) := by
  have hread : Json.natBelow? (Nat.pow 2 64) (.nat n) = some n := natBelow?_nat h
  rw [seconds?, hread]
  rfl

theorem readFrom_written (h : s.timeout / 1000 < 2 ^ 64) :
    ReadFrom (written s.known ++ []) s.inSeconds where
  name := required_string (once_known s (by simp [known, inSeconds]))
  labels := required_of_once (once_known s (by simp [known])) (map?_mapJson s.labels)
  annotations := defaulted_of_once (once_known s (by simp [known])) (map?_mapJson s.annotations)
  params := required_of_once (v := .arr (s.params.map Param.toJson))
    (once_known s (by simp [known])) (list?_arr fun p _ => p.ofJson?_toJson)
  timeout := required_of_once (once_known s (by simp [known])) (seconds?_nat h)
  serviceAccount := required_string (once_known s (by simp [known, inSeconds]))
  taskRef := required_string (once_known s (by simp [known, inSeconds]))
  workspace := required_of_once (once_known s (by simp [known]))
    (Workspace.ofJson?_toJson s.workspace)

/-- **All of a spec is in its JSON**, but what its time limit has beyond whole seconds. -/
theorem ofJson?_toJson (h : s.timeout / 1000 < 2 ^ 64) : ofJson? s.toJson = some s.inSeconds := by
  refine ofJson?_eq_some_iff.mpr ⟨_, ?_, readFrom_written h⟩
  rw [toJson_eq]
  rfl

theorem fits_toJson (h : s.timeout / 1000 < 2 ^ 64) : s.toJson.Fits Json.maxDepth := by
  rw [toJson_eq]
  refine fits_written (.nil (fieldShapes.map Prod.fst) 126) ?_
  simp only [known, List.forall_mem_cons]
  exact ⟨fits_some (fits_str _ _), fits_some (fits_mapJson _ _), fits_some (fits_mapJson _ _),
    fits_some (fits_arr_map fun p _ => p.fits_toJson _), fits_some (fits_nat _ h),
    fits_some (fits_str _ _), fits_some (fits_str _ _), fits_some (s.workspace.fits_toJson _),
    fun _ hv => absurd hv List.not_mem_nil⟩

theorem covers_toJson (s : JobRunSpec) : (Shape.record fieldShapes).Covers s.toJson := by
  have hparam : ∀ p : Param,
      (Shape.record (Param.fieldNames.map fun n => (n, .any))).Covers p.toJson := by
    intro p
    rw [Param.toJson, Shape.Covers]
    exact ⟨⟨_, rfl, Shape.covers_any _⟩, ⟨_, rfl, Shape.covers_any _⟩, trivial⟩
  have hparams : (Shape.list (.record (Param.fieldNames.map fun n => (n, .any)))).Covers
      (.arr (s.params.map Param.toJson)) := by
    rw [Shape.Covers]
    generalize s.params = ps
    induction ps with
    | nil => trivial
    | cons p ps ih => exact ⟨hparam p, ih⟩
  have hworkspace : (Shape.record (Workspace.fieldNames.map fun n => (n, .any))).Covers
      s.workspace.toJson := by
    rw [Workspace.toJson, Shape.Covers]
    exact ⟨⟨_, rfl, Shape.covers_any _⟩, ⟨_, rfl, Shape.covers_any _⟩,
      ⟨_, rfl, Shape.covers_any _⟩, trivial⟩
  rw [toJson_eq, Shape.Covers]
  exact ⟨⟨_, rfl, Shape.covers_any _⟩, ⟨_, rfl, Shape.covers_any _⟩, ⟨_, rfl, Shape.covers_any _⟩,
    ⟨_, rfl, hparams⟩, ⟨_, rfl, Shape.covers_any _⟩, ⟨_, rfl, Shape.covers_any _⟩,
    ⟨_, rfl, Shape.covers_any _⟩, ⟨_, rfl, hworkspace⟩, trivial⟩

/-- **A spec is read back with its time limit in whole seconds.** -/
theorem parse?_toJson (h : s.timeout / 1000 < 2 ^ 64) :
    parse? s.toJson.compact = some s.inSeconds := by
  have hread := readWritten_of_covers (readWritten_compact (fits_toJson h)) (covers_toJson s)
  rw [parse?, hread]
  exact ofJson?_toJson h

/-! ## What survives -/

/-- What is read has a time limit in whole seconds. -/
theorem timeout_of_ofJson? {v : Json} (h : ofJson? v = some s) :
    1000 ∣ s.timeout ∧ s.timeout / 1000 < 2 ^ 64 := by
  obtain ⟨fs, -, hread⟩ := ofJson?_eq_some_iff.mp h
  have htimeout := hread.timeout
  unfold required at htimeout
  split at htimeout
  · obtain ⟨n, hn, heq⟩ := Option.map_eq_some_iff.mp htimeout
    have hbound : n < 2 ^ 64 := natBelow?_lt hn
    rw [← heq]
    exact ⟨Nat.dvd_mul_left 1000 n, by omega⟩
  · exact absurd htimeout (by simp)

/-- **A spec survives its serial form just when its time limit is in whole seconds.** -/
theorem parse?_toJson_iff (s : JobRunSpec) : parse? s.toJson.compact = some s ↔
    1000 ∣ s.timeout ∧ s.timeout / 1000 < 2 ^ 64 := by
  constructor
  · intro h
    obtain ⟨v, -, hv⟩ := Option.bind_eq_some_iff.mp h
    exact timeout_of_ofJson? hv
  · rintro ⟨hseconds, hbound⟩
    have hsame : s.inSeconds = s := by
      rw [inSeconds, Nat.div_mul_cancel hseconds]
    rw [parse?_toJson hbound, hsame]

/-- The canonical form of a spec: its text without annotations. -/
def canonical (s : JobRunSpec) : String := { s with annotations := .empty : JobRunSpec }.toJson.compact

/-- Two specs that differ at most in annotations and within a second of their time limits. -/
structure Alike (s t : JobRunSpec) : Prop where
  name : s.name = t.name
  labels : s.labels = t.labels
  params : s.params = t.params
  timeout : s.timeout / 1000 = t.timeout / 1000
  serviceAccount : s.serviceAccount = t.serviceAccount
  taskRef : s.taskRef = t.taskRef
  workspace : s.workspace = t.workspace

/-- **The canonical form tells specs apart**, unless they are alike. -/
theorem canonical_eq_iff (hs : s.timeout / 1000 < 2 ^ 64) (ht : t.timeout / 1000 < 2 ^ 64) :
    s.canonical = t.canonical ↔ s.Alike t := by
  constructor
  · intro h
    have hs' := parse?_toJson (s := { s with annotations := .empty }) hs
    have ht' := parse?_toJson (s := { t with annotations := .empty }) ht
    rw [canonical, canonical] at h
    rw [h, ht'] at hs'
    obtain ⟨hname, hlabels, -, hparams, htimeout, haccount, htask, hworkspace⟩ :=
      JobRunSpec.mk.inj (Option.some.inj hs')
    refine ⟨hname.symm, hlabels.symm, hparams.symm, ?_, haccount.symm, htask.symm, hworkspace.symm⟩
    exact (Nat.eq_of_mul_eq_mul_right (by decide) htimeout).symm
  · rintro ⟨hname, hlabels, hparams, htimeout, haccount, htask, hworkspace⟩
    simp only [canonical, toJson, toData, hname, hlabels, hparams, htimeout, haccount, htask,
      hworkspace]

end JobRunSpec

/-! ## The job runs of a request -/

namespace JobRun

variable {kind : Kind} {r : Request} {settings : RunSettings} {specs : List (Nat × JobRunSpec)}
variable {i : Nat} {s : JobRunSpec}

/-- The fingerprint on a spec is that of its canonical form. -/
theorem hash?_specAt (kind : Kind) (c : Config) (r : Request) (settings : RunSettings)
    (timeout i : Nat) : (specAt kind c r settings timeout i).hash? =
      some (Fingerprint.hex (Fingerprint.ofText (specAt kind c r settings timeout i).canonical)) :=
  Text.StringMap.get?_insert_self

/-- **A duration is a number of milliseconds or one of seconds**, in 64 bits either way. -/
theorem millis_or_seconds {text : String} {ms : Nat} (h : Duration.parse text = .ok ms) :
    (['m', 's'] <:+ (Text.trimmed text).toList ∧ ms < 2 ^ 64) ∨ ∃ n < 2 ^ 64, ms = n * 1000 := by
  have hseconds : ∀ length n : Nat, ∃ k < 2 ^ 64, Duration.ofSeconds length n = k * 1000 :=
    fun length n => ⟨n * length % 2 ^ 64, Nat.mod_lt _ (Nat.two_pow_pos 64), rfl⟩
  unfold Duration.parse at h
  dsimp only at h
  split at h
  · next read hread =>
    obtain rfl := Except.ok.inj h
    simp only [Duration.ofChars?, Option.bind_eq_bind, Option.bind_eq_some_iff,
      Option.some.injEq] at hread
    obtain ⟨⟨unit, inMillis⟩, hfound, n, hn, rfl⟩ := hread
    have hends : unit.isSuffixOf (Text.trimmed text).toList = true := by
      have hfits := List.find?_some hfound
      exact hfits
    have hmem := List.mem_of_find?_eq_some hfound
    simp only [Duration.units, List.mem_cons, Prod.mk.injEq, List.not_mem_nil, or_false] at hmem
    rcases hmem with ⟨rfl, rfl⟩ | ⟨-, rfl⟩ | ⟨-, rfl⟩ | ⟨-, rfl⟩ | ⟨-, rfl⟩
    · exact .inl ⟨List.isSuffixOf_iff_suffix.mp hends, (Number.naturalBelow?_eq_some_iff.mp hn).1⟩
    all_goals exact .inr (hseconds _ n)
  · exact absurd h (by simp)

/-- So many minutes are more seconds than 64 bits can tell, and 44 of them are left. -/
example : Duration.parse "307445734561825861m" = .ok 44000 := by decide

/-- A duration in any unit but milliseconds is in whole seconds. -/
theorem dvd_of_parse {text : String} {ms : Nat} (h : Duration.parse text = .ok ms)
    (hunit : ¬ ['m', 's'] <:+ (Text.trimmed text).toList) : 1000 ∣ ms := by
  rcases millis_or_seconds h with ⟨hsuffix, -⟩ | ⟨n, -, rfl⟩
  · exact absurd hsuffix hunit
  · exact Nat.dvd_mul_left 1000 n

/-- Its whole seconds fit into 64 bits. -/
theorem seconds_lt_of_parse {text : String} {ms : Nat} (h : Duration.parse text = .ok ms) :
    ms / 1000 < 2 ^ 64 := by
  rcases millis_or_seconds h with ⟨-, hms⟩ | ⟨n, hn, rfl⟩
  · exact Nat.lt_of_le_of_lt (Nat.div_le_self ms 1000) hms
  · rw [Nat.mul_div_cancel n (by decide)]
    exact hn

/-- A spec that some request calls for, under some settings. -/
def IsDesired (s : JobRunSpec) : Prop :=
  ∃ kind r settings specs i, allDesired kind r settings = .ok specs ∧ (i, s) ∈ specs

/-- The time limit of such a spec was read as a duration. -/
theorem IsDesired.seconds_lt (h : IsDesired s) : s.timeout / 1000 < 2 ^ 64 := by
  obtain ⟨kind, r, settings, specs, i, hall, hs⟩ := h
  obtain ⟨c, timeout, -, htimeout, heq⟩ := specAt_of_mem_allDesired hall hs
  obtain rfl : s = specAt kind c r settings timeout i := heq
  exact seconds_lt_of_parse htimeout

/-- **What the serial form of a job run tells**, whatever the settings and the request are. It is read
back if its time limit, which is that of the settings, is in whole seconds, and only then; so it is
with every unit but milliseconds. It carries the fingerprint of its canonical form, which it shares
with those job runs only that are alike, of whatever requests and settings they are. -/
theorem serialForm_iff (h : allDesired kind r settings = .ok specs) (hs : (i, s) ∈ specs) :
    Duration.parse settings.timeout = .ok s.timeout ∧
    (¬ ['m', 's'] <:+ (Text.trimmed settings.timeout).toList → 1000 ∣ s.timeout) ∧
    (JobRunSpec.parse? s.toJson.compact = some s ↔ 1000 ∣ s.timeout) ∧
    JobRunSpec.parse? s.toJson.compact = some s.inSeconds ∧
    s.hash? = some (Fingerprint.hex (Fingerprint.ofText s.canonical)) ∧
    ∀ t : JobRunSpec, IsDesired t → (s.canonical = t.canonical ↔ s.Alike t) := by
  have hlimit : s.timeout / 1000 < 2 ^ 64 := IsDesired.seconds_lt ⟨_, _, _, _, _, h, hs⟩
  obtain ⟨c, timeout, -, htimeout, heq⟩ := specAt_of_mem_allDesired h hs
  obtain rfl : s = specAt kind c r settings timeout i := heq
  refine ⟨htimeout, dvd_of_parse htimeout, ?_, JobRunSpec.parse?_toJson hlimit,
    hash?_specAt kind c r settings timeout i,
    fun t ht => JobRunSpec.canonical_eq_iff hlimit ht.seconds_lt⟩
  rw [JobRunSpec.parse?_toJson_iff]
  exact and_iff_left hlimit

/-! ## A time limit in milliseconds -/

/-- The settings with a time limit. -/
def limitedTo (timeout : String) : RunSettings := { timeout }

/-- The job run of a build of one product under a time limit. -/
def limitedRun (timeout : String) (ms : Nat) : JobRunSpec :=
  specAt .build oneProduct (oneProductRequest "r") (limitedTo timeout) ms 0

theorem allDesired_limitedTo {timeout : String} {ms : Nat} (h : Duration.parse timeout = .ok ms) :
    allDesired .build (oneProductRequest "r") (limitedTo timeout) =
      .ok [(0, limitedRun timeout ms)] :=
  allDesired_eq (n := 1) rfl rfl (Nat.one_lt_two_pow (by decide)) h

theorem serialForm_iff_sixHours : allDesired .build (oneProductRequest "r") (limitedTo "6h") =
      .ok [(0, limitedRun "6h" 21600000)] ∧
    JobRunSpec.parse? (limitedRun "6h" 21600000).toJson.compact =
      some (limitedRun "6h" 21600000) := by
  have hdesired := allDesired_limitedTo (show Duration.parse "6h" = .ok 21600000 by decide)
  obtain ⟨-, -, hiff, -⟩ := serialForm_iff hdesired List.mem_cons_self
  exact ⟨hdesired, hiff.mpr (by decide)⟩

/-- **Milliseconds are lost**: settings that nothing is wrong with call for a job run that is not read
back, and that cannot be told from one with another time limit. -/
theorem not_serialForm_millis :
    ¬ ((∀ settings r specs, Settings.runIssues settings = [] →
        allDesired .build r settings = .ok specs →
        ∀ d ∈ specs, JobRunSpec.parse? d.2.toJson.compact = some d.2) ∧
      ∀ settings settings' r specs specs', Settings.runIssues settings = [] →
        Settings.runIssues settings' = [] → allDesired .build r settings = .ok specs →
        allDesired .build r settings' = .ok specs' → ∀ d ∈ specs, ∀ d' ∈ specs',
        d.2.timeout ≠ d'.2.timeout → d.2.canonical ≠ d'.2.canonical) := by
  rintro ⟨hread, -⟩
  have hdesired := allDesired_limitedTo (show Duration.parse "1500ms" = .ok 1500 by decide)
  have hvalid : Settings.runIssues (limitedTo "1500ms") = [] := by decide
  have hback := hread _ _ _ hvalid hdesired _ List.mem_cons_self
  have hseconds := ((limitedRun "1500ms" 1500).parse?_toJson_iff.mp hback).1
  exact absurd hseconds (by decide)

end JobRun

end BomAssembly
