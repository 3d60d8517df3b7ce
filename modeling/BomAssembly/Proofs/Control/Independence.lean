import BomAssembly.Proofs.Control.Observation
import BomAssembly.Proofs.Control.Turns

/-!
# Requests that do not meet

A pass looks at the job runs whose names begin with the start of its own family, and at nothing else
on the platform (`SameFor.run_eq`). So where nothing that one request calls for goes by such a name of
another (`Apart`), neither notices what was created for the other: each turn of a tick does what it
would have done as the first one (`alone_passOverAll`).

The turns may then come in any order. What order they come in shows in the order of what was submitted
and reported, and nowhere else (`tick_orderFree`).
-/

namespace BomAssembly

open Platform (Took)
open Time (Instant)

variable {settings : RunSettings} {now : Instant} {r r' : Request}

namespace Pass

variable {p q : Platform} {specs : List JobRunSpec} {spec : JobRunSpec}

/-! ## What a pass looks at -/

/-- Whether a request looks at a job run of this name. -/
def LooksAt (r : Request) (name : String) : Prop :=
  Text.startsWith name (JobRun.start r.name (Phase.generating r.kind)) = true

instance (r : Request) (name : String) : Decidable (LooksAt r name) :=
  inferInstanceAs (Decidable (_ = true))

/-- Platforms with the same job runs among those that the request looks at. -/
structure SameFor (r : Request) (p q : Platform) : Prop where
  offline : q.offline = p.offline
  runs : ∀ name, LooksAt r name → q.runs.get? name = p.runs.get? name

theorem SameFor.observe_eq (h : SameFor r p q) : observe r q = observe r p := by
  cases hoffline : p.offline with
  | true => rw [observe_offline hoffline, observe_offline (h.offline.trans hoffline)]
  | false =>
      -- in the order of the names, the job runs that it looks at are the same
      have hlisted : (q.allRuns.filter fun run =>
            Text.startsWith run.name (JobRun.start r.name (Phase.generating r.kind))) =
          p.allRuns.filter fun run =>
            Text.startsWith run.name (JobRun.start r.name (Phase.generating r.kind)) := by
        refine Text.eq_of_mem_iff_of_ordered (q.pairwise_allRuns.filter _)
          (p.pairwise_allRuns.filter _) fun run => ?_
        rw [List.mem_filter, List.mem_filter, Platform.mem_allRuns_iff, Platform.mem_allRuns_iff]
        exact and_congr_left fun hlooks => by rw [h.runs run.name hlooks]
      rw [observe_online hoffline, observe_online (h.offline.trans hoffline)]
      exact congrArg (fun runs => Except.ok (JobRun.observedByIndex r.name _ runs)) hlisted

/-- **A pass takes the same course** on platforms that it cannot tell apart. -/
theorem Course.elsewhere {p' : Platform} {result : Except Failure (Request × Report)}
    (h : Course settings now r p p' result) (hsame : SameFor r p q) :
    ∃ specs q', Took p specs p' ∧ Took q specs q' ∧ run settings now r q = (q', result) := by
  cases h with
  | ended h => exact ⟨[], q, .none p, .none q, run_of_ended h⟩
  | refused hlive hplan => exact ⟨[], q, .none p, .none q, run_of_error hlive hplan⟩
  | rested hlive hplan _ => exact ⟨[], q, .none p, .none q, run_of_rest hlive hplan⟩
  | cutOff hlive hplan h =>
      exact ⟨[], q, .none p, .none q, run_of_cutOff hlive hplan (hsame.offline.trans h)⟩
  | worked h hfit ht htook =>
      have hthere : Gathered r q _ _ _ :=
        ⟨h.live, h.config, h.positions, h.met, hsame.observe_eq.trans h.observed⟩
      obtain ⟨q', htook', hrun⟩ := hthere.run_eq hfit now ht
      exact ⟨_, q', htook, htook', hrun⟩

/-- What a pass takes. -/
def taken (settings : RunSettings) (now : Instant) (r : Request) (p : Platform) :
    List JobRunSpec :=
  (run settings now r p).1.submitted.drop p.submitted.length

theorem taken_eq (h : Took p specs (run settings now r p).1) : taken settings now r p = specs := by
  rw [taken, h.submitted, List.drop_left]

/-- **A pass has the same result, and takes the same**, on platforms that it cannot tell apart. -/
theorem SameFor.run_eq (h : SameFor r p q) (settings : RunSettings) (now : Instant) :
    (run settings now r q).2 = (run settings now r p).2 ∧
      Took q (taken settings now r p) (run settings now r q).1 := by
  obtain ⟨specs, q', htook, htook', hrun⟩ := (run_course settings now r p).elsewhere h
  rw [hrun, taken_eq htook]
  exact ⟨rfl, htook'⟩

/-- Taking what the request does not look at leaves it the same platform. -/
theorem sameFor_of_took (htook : Took p specs q) (h : ∀ spec ∈ specs, ¬ LooksAt r spec.name) :
    SameFor r p q := by
  refine ⟨htook.offline, fun name hlooks => Option.ext fun run => ?_⟩
  rw [htook.get?_iff, or_iff_left]
  rintro ⟨spec, hspec, rfl, -⟩
  exact h spec hspec hlooks

/-! ## Requests apart -/

/-- Nothing that the one request calls for is looked at by the other. -/
def Apart (settings : RunSettings) (r r' : Request) : Prop :=
  ∀ desired, JobRun.allDesired r.kind r settings = .ok desired →
    ∀ d ∈ desired, ¬ LooksAt r' d.2.name

/-- Requests are apart if they go by different names, unless the name of the one goes on from the
family of the other. -/
theorem apart_of_names (hne : r.name ≠ r'.name) (h : ¬ LooksAt r' (r.name ++ "-")) :
    Apart settings r r' := by
  intro desired hdesired d hd hlooks
  obtain ⟨i, hname⟩ := JobRun.name_of_mem_allDesired hdesired hd
  rw [hname] at hlooks
  rcases JobRun.startsWith_nameOf_iff.mp hlooks with ⟨hsame, -⟩ | hon
  · exact hne hsame
  · exact h hon

/-- What is taken is called for. -/
theorem mem_allDesired_of_taken (hspec : spec ∈ taken settings now r p) :
    ∃ desired, JobRun.allDesired r.kind r settings = .ok desired ∧ ∃ d ∈ desired, d.2 = spec := by
  have hcourse := run_course settings now r p
  obtain ⟨specs, htook, -⟩ := run_took settings now r p
  rw [taken_eq htook] at hspec
  generalize (run settings now r p).1 = q at hcourse htook
  generalize (run settings now r p).2 = result at hcourse
  have hnone : q ≠ p := by
    rintro rfl
    exact absurd (htook.specs_eq (.none q) ▸ hspec) List.not_mem_nil
  cases hcourse with
  | ended _ => exact absurd rfl hnone
  | refused _ _ => exact absurd rfl hnone
  | rested _ _ _ => exact absurd rfl hnone
  | cutOff _ _ _ => exact absurd rfl hnone
  | worked h hfit ht htook' =>
      rw [htook.specs_eq htook'] at hspec
      obtain ⟨i, hi, rfl⟩ := List.mem_map.mp hspec
      have hconfig : r.config? = some _ := congrArg ConfigState.config? h.config
      refine ⟨_, JobRun.allDesired_eq hconfig h.positions hfit ht, _, List.mem_map.mpr ⟨i, ?_, rfl⟩,
        rfl⟩
      exact (List.mem_filter.mp hi).1

theorem Apart.not_looksAt (h : Apart settings r r') (hspec : spec ∈ taken settings now r p) :
    ¬ LooksAt r' spec.name := by
  obtain ⟨desired, hdesired, d, hd, rfl⟩ := mem_allDesired_of_taken hspec
  exact h desired hdesired d hd

end Pass

namespace World

open Pass (Apart LooksAt SameFor taken)

variable {w : World Store Platform} {p : Platform} {rs : List Request} {specs : List JobRunSpec}
  {s t : Store} {name : String}

/-! ## Turns of requests apart -/

/-- The requests had their turns, and each did what it would have done alone on the platform `p`. -/
structure Alone (settings : RunSettings) (now : Instant) (p : Platform) (rs : List Request)
    (w : World Store Platform)
    (done : World Store Platform × List (String × Except Failure (Option Pass.Report))) :
    Prop where
  results : done.2 = rs.map fun r =>
    (r.name, (Pass.run settings now r p).2.map fun done => some done.2)
  took : Took w.platform (rs.flatMap fun r => taken settings now r p) done.1.platform
  records : ∀ r ∈ rs, done.1.store.get? r.name =
    (Pass.written (Pass.run settings now r p).2).or (w.store.get? r.name)

/-- **Requests apart have their turns as if each were the first**, also where the platform has taken
what none of them looks at. -/
theorem alone_passOverAll (hstored : ∀ r ∈ rs, r.name ∈ w.store.names)
    (hnodup : (rs.map Request.name).Nodup) (hapart : rs.Pairwise (Apart settings))
    (htook : Took p specs w.platform) (hfree : ∀ r ∈ rs, ∀ spec ∈ specs, ¬ LooksAt r spec.name) :
    Alone settings now p rs w (passOverAll settings now rs w) := by
  induction rs generalizing w specs with
  | nil => exact ⟨rfl, .none _, fun r hr => absurd hr List.not_mem_nil⟩
  | cons r rs ih =>
      obtain ⟨hnew, hnodup⟩ := List.nodup_cons.mp hnodup
      obtain ⟨hhead, hapart⟩ := List.pairwise_cons.mp hapart
      have hr : r.name ∈ w.store.names := hstored r List.mem_cons_self
      have hsame : SameFor r p w.platform := Pass.sameFor_of_took htook (hfree r List.mem_cons_self)
      obtain ⟨hresult, hturn⟩ := hsame.run_eq settings now
      have hplatform : (passOver settings now r w).1.platform =
          (Pass.run settings now r w.platform).1 := by rw [passOver_fst]
      rw [← hplatform] at hturn
      -- what the first one takes, the others do not look at either
      have hstored' : ∀ r' ∈ rs, r'.name ∈ (passOver settings now r w).1.store.names := by
        intro r' hr'
        rw [names_passOver]
        exact hstored r' (List.mem_cons_of_mem _ hr')
      have hfree' : ∀ r' ∈ rs, ∀ spec ∈ specs ++ taken settings now r p,
          ¬ LooksAt r' spec.name := by
        intro r' hr' spec hspec
        rcases List.mem_append.mp hspec with hspec | hspec
        · exact hfree r' (List.mem_cons_of_mem _ hr') spec hspec
        · exact (hhead r' hr').not_looksAt hspec
      have hrest := ih hstored' hnodup hapart (htook.trans hturn) hfree'
      constructor
      · rw [passOverAll]
        dsimp only
        rw [hrest.results, passOver_snd hr, hresult]
        rfl
      · exact hturn.trans hrest.took
      · intro r' hr'
        rcases List.mem_cons.mp hr' with rfl | hr'
        · have hlater : ∀ r'' ∈ rs, r'.name ≠ r''.name := by
            intro r'' hr'' heq
            exact hnew (List.mem_map.mpr ⟨r'', hr'', heq.symm⟩)
          rw [passOverAll_cons, get?_passOverAll_of_ne hlater, get?_passOver_self hr, hresult]
        · have hother : r'.name ≠ r.name := by
            intro heq
            exact hnew (List.mem_map.mpr ⟨r', hr', heq⟩)
          rw [passOverAll_cons, hrest.records r' hr', get?_passOver_of_ne hother]

/-! ## The order of the turns -/

theorem perm_live (h : t.records.Perm s.records) : (live t.records).Perm (live s.records) :=
  h.filterMap _

/-- All live requests of a store are apart from each other. -/
def AllApart (settings : RunSettings) (s : Store) : Prop :=
  ∀ r ∈ live s.records, ∀ r' ∈ live s.records, r ≠ r' → Apart settings r r'

theorem AllApart.perm (h : AllApart settings s) (hperm : t.records.Perm s.records) :
    AllApart settings t := by
  have hlive := perm_live hperm
  exact fun r hr r' hr' => h r (hlive.mem_iff.mp hr) r' (hlive.mem_iff.mp hr')

theorem AllApart.alone (h : AllApart settings s) (now : Instant) (p : Platform) :
    Alone settings now p (live s.records) ⟨s, p⟩
      (passOverAll settings now (live s.records) ⟨s, p⟩) := by
  have hnodup := nodup_live s
  refine alone_passOverAll (fun r hr => name_mem_of_live hr) hnodup ?_ (.none p)
    fun r _ spec hspec => absurd hspec List.not_mem_nil
  exact hnodup.of_map.pairwise_of_forall_ne h

/-- What ticks have done, if it is the same but for the order of what was submitted and told. -/
structure OrderFree (done done' : World Store Platform × Except Failure Tick) : Prop where
  records : ∀ name, done'.1.store.get? name = done.1.store.get? name
  offline : done'.1.platform.offline = done.1.platform.offline
  runs : done'.1.platform.runs = done.1.platform.runs
  submitted : done'.1.platform.submitted.Perm done.1.platform.submitted
  told : ∃ t t', done.2 = .ok t ∧ done'.2 = .ok t' ∧ t'.reports.Perm t.reports ∧
    t'.errors.Perm t.errors ∧ t'.finished = t.finished

section Perm

variable (settings : RunSettings) (now : Instant) (p : Platform)
  (hperm : t.records.Perm s.records) (hapart : AllApart settings s)

include hperm hapart

theorem get?_tick_of_perm (name : String) :
    (tick settings now ⟨t, p⟩).1.store.get? name =
      (tick settings now ⟨s, p⟩).1.store.get? name := by
  have hlive := perm_live hperm
  by_cases hturn : ∃ r ∈ live s.records, name = r.name
  · obtain ⟨r, hr, rfl⟩ := hturn
    have hs := (hapart.alone now p).records r hr
    have ht := ((hapart.perm hperm).alone now p).records r (hlive.mem_iff.mpr hr)
    rw [tick_fst, tick_fst, hs, ht]
    exact congrArg _ (Store.get?_of_perm hperm)
  · have hsnot : ∀ r ∈ live s.records, name ≠ r.name := fun r hr hname => hturn ⟨r, hr, hname⟩
    have htnot : ∀ r ∈ live t.records, name ≠ r.name := fun r hr =>
      hsnot r (hlive.mem_iff.mp hr)
    have hskept : (tick settings now ⟨s, p⟩).1.store.get? name = s.get? name :=
      get?_tick_of_ne hsnot
    have htkept : (tick settings now ⟨t, p⟩).1.store.get? name = t.get? name :=
      get?_tick_of_ne htnot
    rw [hskept, htkept]
    exact Store.get?_of_perm hperm

/-- In either order the same is taken from the platform. -/
theorem took_tick_of_perm : ∃ specs more, more.Perm specs ∧
    Took p specs (tick settings now ⟨s, p⟩).1.platform ∧
    Took p more (tick settings now ⟨t, p⟩).1.platform :=
  ⟨_, _, (perm_live hperm).flatMap_right _, (hapart.alone now p).took,
    ((hapart.perm hperm).alone now p).took⟩

theorem results_perm :
    (passOverAll settings now (live t.records) ⟨t, p⟩).2.Perm
      (passOverAll settings now (live s.records) ⟨s, p⟩).2 := by
  rw [(hapart.alone now p).results, ((hapart.perm hperm).alone now p).results]
  exact (perm_live hperm).map _

end Perm

/-- **Ticks of the same requests do the same in whatever order they arrived**, if nothing that one of
them calls for is looked at by another. -/
theorem tick_orderFree (settings : RunSettings) (now : Instant) (p : Platform) {s t : Store}
    (hperm : t.records.Perm s.records) (hapart : AllApart settings s) :
    OrderFree (tick settings now ⟨s, p⟩) (tick settings now ⟨t, p⟩) := by
  obtain ⟨specs, more, hspecs, hs, ht⟩ := took_tick_of_perm settings now p hperm hapart
  have hresults := results_perm settings now p hperm hapart
  refine ⟨get?_tick_of_perm settings now p hperm hapart, ht.offline.trans hs.offline.symm,
    ?_, ?_, ?_⟩
  · refine Text.StringMap.ext_get? fun name => Option.ext fun run => ?_
    rw [ht.get?_iff, hs.get?_iff]
    simp only [hspecs.mem_iff]
  · rw [ht.submitted, hs.submitted]
    exact hspecs.append_left p.submitted
  · refine ⟨_, _, rfl, rfl, hresults.filterMap _, ?_, hperm.countP_eq _⟩
    exact (hperm.filterMap _).append (hresults.filterMap _)

/-- Two builds, in the order in which they arrived. -/
def builds (first second : String) (h : first ≠ second) : Store :=
  ⟨[(oneProductRequest first).toRecord, (oneProductRequest second).toRecord],
    show [first, second].Nodup by simpa using h⟩

/-- The second name goes on from the first one, but not from its family. -/
theorem allApart_builds : AllApart {} (builds "r" "r-s" (by decide)) := by
  have hlive : live (builds "r" "r-s" (by decide)).records =
      [oneProductRequest "r", oneProductRequest "r-s"] := by
    rw [builds, live_cons_of_storable (storable_oneProductRequest "r") rfl,
      live_cons_of_storable (storable_oneProductRequest "r-s") rfl]
    rfl
  have hrs : Apart {} (oneProductRequest "r") (oneProductRequest "r-s") :=
    Pass.apart_of_names (by decide) (by decide)
  have hsr : Apart {} (oneProductRequest "r-s") (oneProductRequest "r") :=
    Pass.apart_of_names (by decide) (by decide)
  intro r hr r' hr' hne
  rw [hlive] at hr hr'
  simp only [List.mem_cons, List.not_mem_nil, or_false] at hr hr'
  rcases hr with rfl | rfl
  · rcases hr' with rfl | rfl
    · exact absurd rfl hne
    · exact hrs
  · rcases hr' with rfl | rfl
    · exact hsr
    · exact absurd rfl hne

theorem tick_orderFree_builds :
    (builds "r-s" "r" (by decide)).records.Perm (builds "r" "r-s" (by decide)).records ∧
    AllApart {} (builds "r" "r-s" (by decide)) ∧
    OrderFree (tick {} default ⟨builds "r" "r-s" (by decide), {}⟩)
      (tick {} default ⟨builds "r-s" "r" (by decide), {}⟩) := by
  have hperm : (builds "r-s" "r" (by decide)).records.Perm (builds "r" "r-s" (by decide)).records :=
    .swap _ _ _
  exact ⟨hperm, allApart_builds, tick_orderFree {} default {} hperm allApart_builds⟩

end World

end BomAssembly
