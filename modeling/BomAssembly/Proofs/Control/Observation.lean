import BomAssembly.Proofs.Control.Pass
import BomAssembly.Proofs.JobRun.Ownership
import BomAssembly.Proofs.Text.ByteOrder

/-!
# What a platform shows of a request's job runs

A platform keeps its job runs in the order of the bytes of their names. It lists those whose names
begin with a text by looking at one stretch: from the first name that is not below the text to the
first that does not begin with it. Names that begin alike have nothing else between them, so the
stretch leaves none out (`stretch_eq_filter`): in front of it names are below the text, and behind
it they are above.

Because of the order, the job run that is observed for an index is the one with the greatest name
that counts for it (`lookup_observe_iff`). It follows what becomes of the observation when more job
runs are taken, by whatever request: what is observed afterwards was observed before, or has just
been taken, and no index loses its job run.
-/

namespace BomAssembly

namespace Platform

open Text (StringMap bytesOf)

variable {p q : Platform} {P : String → Prop} {run : ObservedRun} {specs : List JobRunSpec}

/-! ## Listing -/

theorem mem_allRuns_iff : run ∈ p.allRuns ↔ p.runs.get? run.name = some run := by
  rw [Text.StringMap.get?_eq_some_iff, allRuns, List.mem_map]
  constructor
  · rintro ⟨e, he, rfl⟩
    rw [← p.keyed e he]
    exact he
  · exact fun h => ⟨_, h, rfl⟩

theorem pairwise_allRuns (p : Platform) : p.allRuns.Pairwise fun a b => a.name < b.name := by
  refine List.pairwise_map.mpr (p.runs.sorted.imp_of_mem ?_)
  intro a b ha hb hlt
  rw [← p.keyed a ha, ← p.keyed b hb]
  exact hlt

theorem entries_eq_map (p : Platform) :
    p.runs.entries = p.allRuns.map fun run => (run.name, run) := by
  have hself : ∀ e ∈ p.runs.entries, id e = (e.2.name, e.2) :=
    fun e he => Prod.ext (p.keyed e he) rfl
  rw [allRuns, List.map_map]
  exact (List.map_id _).symm.trans (List.map_congr_left hself)

/-- The stretch of job runs from the first whose name is not below a text to the first whose name
does not begin with it. -/
def stretch (start : String) (p : Platform) : List ObservedRun :=
  (p.allRuns.dropWhile fun run => decide (bytesOf run.name < bytesOf start)).takeWhile
    fun run => (bytesOf start).isPrefixOf (bytesOf run.name)

theorem map_range_eq_stretch (start : String) (p : Platform) :
    (range start p.runs).map Prod.snd = stretch start p := by
  rw [range, entries_eq_map, List.dropWhile_map, List.takeWhile_map, List.map_map]
  simp only [stretch, Text.bytesOf_lt_iff, ← Text.startsWith_eq]
  exact List.map_id _

/-- **The stretch leaves none out.** -/
theorem stretch_eq_filter (start : String) (p : Platform) : stretch start p =
    p.allRuns.filter fun run => (bytesOf start).isPrefixOf (bytesOf run.name) := by
  rw [← map_range_eq_stretch, map_range_eq_filter]
  simp only [Text.startsWith_eq]

theorem mem_stretch_iff {start : String} :
    run ∈ stretch start p ↔ run ∈ p.allRuns ∧ bytesOf start <+: bytesOf run.name := by
  rw [stretch_eq_filter, List.mem_filter, List.isPrefixOf_iff_prefix]

/-- In front of the stretch names are below the text, behind it they are above. -/
theorem exists_around_stretch (start : String) (p : Platform) :
    ∃ before after, p.allRuns = before ++ stretch start p ++ after ∧
      (∀ run ∈ before, bytesOf run.name < bytesOf start) ∧
      ∀ run ∈ after, bytesOf start < bytesOf run.name := by
  have hall : p.allRuns =
      (p.allRuns.takeWhile fun run => decide (bytesOf run.name < bytesOf start)) ++
        stretch start p ++
        (p.allRuns.dropWhile fun run => decide (bytesOf run.name < bytesOf start)).dropWhile
          fun run => (bytesOf start).isPrefixOf (bytesOf run.name) := by
    rw [stretch, List.append_assoc, List.takeWhile_append_dropWhile,
      List.takeWhile_append_dropWhile]
  refine ⟨_, _, hall, fun run hrun => ?_, fun run hrun => ?_⟩
  · exact of_decide_eq_true (List.all_eq_true.mp List.all_takeWhile run hrun)
  · have hlow : ¬ run.name < start := by
      simp only [Text.bytesOf_lt_iff] at hrun
      exact not_lt_of_mem_dropWhile p.pairwise_allRuns ((List.dropWhile_sublist _).subset hrun)
    have hne : run.name ≠ start := by
      -- it would be in the stretch, and in front of itself
      rintro rfl
      have hin : run ∈ stretch run.name p :=
        mem_stretch_iff.mpr ⟨hall ▸ List.mem_append_right _ hrun, List.prefix_rfl⟩
      have hsorted := p.pairwise_allRuns
      rw [hall, List.pairwise_append] at hsorted
      exact String.lt_irrefl _ (hsorted.2.2 run (List.mem_append_right _ hin) run hrun)
    rw [Text.bytesOf_lt_iff]
    refine Decidable.byContradiction fun hnot => hne ?_
    exact String.le_antisymm (String.not_lt.mp hnot) (String.not_lt.mp hlow)

/-- What a listing by the beginning of a name owes. -/
structure Lists (p : Platform) (start : String) (listed : List ObservedRun) : Prop where
  /-- The job runs whose names begin with the text, and no others. -/
  mem_iff : ∀ run, run ∈ listed ↔
    p.runs.get? run.name = some run ∧ bytesOf start <+: bytesOf run.name
  /-- They come in the order of their names. -/
  ordered : listed.Pairwise fun a b => bytesOf a.name < bytesOf b.name
  /-- Each of them comes once. -/
  nodup : listed.Nodup
  /-- Among all job runs they stand together. -/
  together : ∃ before after, p.allRuns = before ++ listed ++ after ∧
    (∀ run ∈ before, bytesOf run.name < bytesOf start) ∧
    ∀ run ∈ after, bytesOf start < bytesOf run.name

theorem lists_stretch (start : String) (p : Platform) : p.Lists start (stretch start p) := by
  have hordered : (stretch start p).Pairwise fun a b => bytesOf a.name < bytesOf b.name := by
    rw [stretch_eq_filter]
    exact (p.pairwise_allRuns.filter _).imp Text.bytesOf_lt_iff.mpr
  refine ⟨fun run => ?_, hordered, hordered.imp ?_, exists_around_stretch start p⟩
  · rw [mem_stretch_iff, mem_allRuns_iff]
  · rintro a _ hlt rfl
    exact List.lt_irrefl _ hlt

/-- **Looking at one stretch is looking at every job run.** While the platform is online it lists
the job runs whose names begin with the text, each once and in the order of their names. -/
theorem listByStart_exact {p : Platform} (h : p.offline = false) (start : String) :
    p.listByStart start = .ok (stretch start p) ∧
      stretch start p =
        (p.allRuns.filter fun run => (bytesOf start).isPrefixOf (bytesOf run.name)) ∧
      p.Lists start (stretch start p) := by
  refine ⟨?_, stretch_eq_filter start p, lists_stretch start p⟩
  rw [listByStart, h, ← map_range_eq_stretch]
  rfl

/-- Ten comes before two, and what other requests have on both sides of the stretch stays out. -/
theorem listByStart_exact_tens :
    let p : Platform := ["é-1-generate-2", "ü-1-generate-0", "é-10-generate-0", "e-1-generate-0",
      "é-1-generate-10", "é-1-generate"].foldl (fun p name => p.insert (JobRun.pendingRun name)) {}
    p.offline = false ∧ ∃ listed, p.listByStart "é-1-generate-" = .ok listed ∧
      listed.map ObservedRun.name = ["é-1-generate-10", "é-1-generate-2"] := by
  intro p
  have honline : p.offline = false := rfl
  obtain ⟨hlisted, hfilter, -⟩ := listByStart_exact honline "é-1-generate-"
  refine ⟨honline, _, hlisted, ?_⟩
  rw [hfilter]
  decide

/-! ## The greatest name -/

/-- The job run with the greatest of the names of some kind. -/
structure LastNamed (p : Platform) (P : String → Prop) (run : ObservedRun) : Prop where
  there : p.runs.get? run.name = some run
  named : P run.name
  greatest : ∀ other, p.runs.get? other.name = some other → P other.name → ¬ run.name < other.name

/-- **Last in the list is the greatest name.** -/
theorem isLast_allRuns_iff {f : ObservedRun → Bool} (hf : ∀ r : ObservedRun, P r.name → f r = true) :
    JobRun.IsLast P (p.allRuns.filter f) run ↔ p.LastNamed P run := by
  have hsorted : (p.allRuns.filter f).Pairwise fun a b => a.name < b.name :=
    p.pairwise_allRuns.filter f
  have hmem : ∀ r, P r.name → (r ∈ p.allRuns.filter f ↔ p.runs.get? r.name = some r) := by
    intro r hr
    rw [List.mem_filter, mem_allRuns_iff, and_iff_left (hf r hr)]
  constructor
  · rintro ⟨before, after, heq, hrun, hafter⟩
    rw [heq] at hsorted
    refine ⟨(hmem run hrun).mp (heq ▸ by simp), hrun, fun other hother hP hlt => ?_⟩
    have hin := (hmem other hP).mpr hother
    rw [heq] at hin
    -- in front of it names are less, and behind it none counts
    rcases List.mem_append.mp hin with hin | hin
    · have hless := (List.pairwise_append.mp hsorted).2.2 other hin run List.mem_cons_self
      exact String.lt_asymm hlt hless
    · rcases List.mem_cons.mp hin with rfl | hin
      · exact String.lt_irrefl _ hlt
      · exact hafter other hin hP
  · intro h
    obtain ⟨before, after, heq⟩ := List.append_of_mem ((hmem run h.named).mpr h.there)
    rw [heq] at hsorted
    refine ⟨before, after, heq, h.named, fun r hr hP => ?_⟩
    have hlt := (List.pairwise_cons.mp (List.pairwise_append.mp hsorted).2.1).1 r hr
    exact h.greatest r ((hmem r hP).mp (heq ▸ by simp [hr])) hP hlt

/-- After more were taken the greatest name is the one it was, or one of those. -/
theorem Took.lastNamed (h : Took p specs q) (hlast : q.LastNamed P run) :
    p.LastNamed P run ∨ ∃ spec ∈ specs, run = .ofSpec spec := by
  rcases h.get?_iff.mp hlast.there with hold | ⟨spec, hspec, -, hrun⟩
  · exact .inl ⟨hold, hlast.named, fun other hother => hlast.greatest other (h.get? hother)⟩
  · exact .inr ⟨spec, hspec, hrun⟩

end Platform

namespace Pass

open Platform (Took LastNamed)

variable {r : Request} {p q : Platform} {observed observed' : List (Nat × ObservedRun)} {i : Nat}
  {run : ObservedRun} {specs : List JobRunSpec}

/-- The names that count for an index of a request. -/
def CountsFor (r : Request) (i : Nat) : String → Prop :=
  JobRun.CountsAs r.name (Phase.generating r.kind) i

theorem countsFor_nameOf (r : Request) (i : Nat) :
    CountsFor r i (JobRun.nameOf r.name (Phase.generating r.kind) i) :=
  JobRun.countsAs_nameOf_iff.mpr ⟨rfl, .inl ⟨rfl, rfl⟩⟩

/-- **Observed for an index is the job run with the greatest name that counts for it.** -/
theorem lookup_observe_iff (h : observe r p = .ok observed) :
    observed.lookup i = some run ↔ i < Nat.pow 2 32 ∧ p.LastNamed (CountsFor r i) run := by
  rw [observe_online (online_of_observe h)] at h
  rw [← Except.ok.inj h, JobRun.lookup_observedByIndex_iff]
  refine and_congr_right fun hi => Platform.isLast_allRuns_iff fun r' hr' => ?_
  exact (JobRun.countsAs_iff.mp ⟨hr', hi⟩).1

/-- A job run whose name counts for an index keeps the index from being missed. -/
theorem exists_lookup_of_counts (h : observe r p = .ok observed) (hi : i < Nat.pow 2 32)
    {name : String} (hrun : p.runs.get? name = some run) (hcounts : CountsFor r i name) :
    ∃ other, observed.lookup i = some other := by
  obtain rfl := p.keyed.name_of_get? hrun
  have hlast : ∃ other, p.LastNamed (CountsFor r i) other := by
    obtain ⟨other, hother⟩ : ∃ other, JobRun.IsLast (CountsFor r i)
        (p.allRuns.filter fun _ => true) other := by
      refine JobRun.exists_isLast ⟨run, ?_, hcounts⟩
      rw [List.filter_true]
      exact Platform.mem_allRuns_iff.mpr hrun
    exact ⟨other, (Platform.isLast_allRuns_iff fun _ _ => rfl).mp hother⟩
  obtain ⟨other, hother⟩ := hlast
  exact ⟨other, (lookup_observe_iff h).mpr ⟨hi, hother⟩⟩

/-- **What is observed after more job runs were taken** was observed before, or was taken. -/
theorem lookup_observe_of_took (htook : Took p specs q) (h : observe r p = .ok observed)
    (h' : observe r q = .ok observed') (hrun : observed'.lookup i = some run) :
    observed.lookup i = some run ∨ ∃ spec ∈ specs, run = .ofSpec spec := by
  obtain ⟨hi, hlast⟩ := (lookup_observe_iff h').mp hrun
  rcases htook.lastNamed hlast with hold | hnew
  · exact .inl ((lookup_observe_iff h).mpr ⟨hi, hold⟩)
  · exact .inr hnew

/-- **No index loses its job run.** -/
theorem exists_lookup_of_took (htook : Took p specs q) (h : observe r p = .ok observed)
    (h' : observe r q = .ok observed') (hrun : observed.lookup i = some run) :
    ∃ other, observed'.lookup i = some other := by
  obtain ⟨hi, hlast⟩ := (lookup_observe_iff h).mp hrun
  exact exists_lookup_of_counts h' hi (htook.get? hlast.there) hlast.named

end Pass

end BomAssembly
