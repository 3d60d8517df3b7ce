import BomAssembly.Control.Platform
import BomAssembly.Proofs.Text.MapLookup

/-!
# The platform in memory

Two things are told here about the platform, and later proofs never look into it again:

* what it lists: exactly the job runs whose names begin with the text (`listByStart_online`);
* what it takes: `Took p specs q` says that `q` came from `p` by taking these specs, one after the
  other, each under a name that was free.

Taking leaves every job run that was there as it was, and it keeps the promise that nothing is
submitted twice (`Took.submittedOnce`).
-/

namespace BomAssembly.Platform

open Text (StringMap)

/-! ## Listing -/

section Listing

/-- What begins with a text has no gaps in the order of texts. -/
theorem prefix_of_lt {start a b : List Char} (hlow : ¬ a < start) (hab : a < b)
    (hb : start <+: b) : start <+: a := by
  induction start generalizing a b with
  | nil => exact List.nil_prefix
  | cons s ss ih =>
      cases a with
      | nil => exact absurd (List.nil_lt_cons s ss) hlow
      | cons c cs =>
          cases b with
          | nil => exact absurd hab (List.not_lt_nil _)
          | cons d ds =>
              obtain ⟨rfl, hds⟩ := List.cons_prefix_cons.mp hb
              rw [List.cons_lt_cons_iff, not_or] at hlow
              rcases List.cons_lt_cons_iff.mp hab with hcd | ⟨rfl, hcs⟩
              · exact absurd hcd hlow.1
              · have hss : ¬ cs < ss := fun h => hlow.2 ⟨rfl, h⟩
                exact List.cons_prefix_cons.mpr ⟨rfl, ih hss hcs hds⟩

theorem takeWhile_eq_filter {α : Type} {f : α → Bool} {l : List α}
    (h : l.Pairwise fun a b => f b = true → f a = true) : l.takeWhile f = l.filter f := by
  induction l with
  | nil => rfl
  | cons a l ih =>
      obtain ⟨ha, hl⟩ := List.pairwise_cons.mp h
      by_cases hfa : f a = true
      · rw [List.takeWhile_cons_of_pos hfa, List.filter_cons_of_pos hfa, ih hl]
      · rw [List.takeWhile_cons_of_neg hfa, List.filter_cons_of_neg hfa, eq_comm,
          List.filter_eq_nil_iff]
        exact fun b hb hfb => hfa (ha b hb hfb)

/-- A text does not come before what it begins with. -/
theorem not_lt_of_startsWith {s start : String} (h : Text.startsWith s start = true) :
    ¬ s < start := by
  rw [String.lt_iff]
  have hle := List.IsPrefix.le (List.isPrefixOf_iff_prefix.mp h)
  exact List.not_lt.mpr hle

/-- From the first name that is not below a text on, none is. -/
theorem not_lt_of_mem_dropWhile {α : Type} {f : α → String} {start : String} {l : List α}
    (hsorted : l.Pairwise fun a b => f a < f b) {a : α}
    (ha : a ∈ l.dropWhile fun a => decide (f a < start)) : ¬ f a < start := by
  induction l with
  | nil => exact absurd ha List.not_mem_nil
  | cons d l ih =>
      obtain ⟨hhead, hrest⟩ := List.pairwise_cons.mp hsorted
      by_cases hd : f d < start
      · rw [List.dropWhile_cons, if_pos (decide_eq_true hd)] at ha
        exact ih hrest ha
      · rw [List.dropWhile_cons, if_neg (by simpa using hd)] at ha
        rcases List.mem_cons.mp ha with rfl | ha
        · exact hd
        · exact fun h => hd (String.lt_trans (hhead a ha) h)

/-- **The entries in a range are those whose keys begin with the text.** -/
theorem range_eq_filter {α : Type} (start : String) (m : StringMap α) :
    range start m = m.entries.filter fun e => Text.startsWith e.1 start := by
  -- what is passed over at first is below the text, so it does not begin with it
  have hbelow : (m.entries.takeWhile fun e => decide (e.1 < start)).filter
      (fun e => Text.startsWith e.1 start) = [] := by
    rw [List.filter_eq_nil_iff]
    intro e he hstarts
    have hlow := List.all_eq_true.mp List.all_takeWhile e he
    exact not_lt_of_startsWith hstarts (of_decide_eq_true hlow)
  rw [← List.takeWhile_append_dropWhile (p := fun e => decide (e.1 < start)) (l := m.entries),
    List.filter_append, hbelow, List.nil_append]
  refine takeWhile_eq_filter ((m.sorted.sublist (List.dropWhile_sublist _)).imp_of_mem ?_)
  intro a b ha _ hab hb
  have halow : ¬ a.1 < start := not_lt_of_mem_dropWhile (f := Prod.fst) m.sorted ha
  exact List.isPrefixOf_iff_prefix.mpr
    (prefix_of_lt halow hab (List.isPrefixOf_iff_prefix.mp hb))

end Listing

theorem map_range_eq_filter (start : String) (p : Platform) :
    (range start p.runs).map Prod.snd =
      p.allRuns.filter fun r => Text.startsWith r.name start := by
  have hnames : ∀ e ∈ p.runs.entries,
      (Text.startsWith e.1 start) = Text.startsWith e.2.name start := fun e he => by
    rw [p.keyed e he]
  rw [range_eq_filter, List.filter_congr hnames, allRuns, List.filter_map]
  rfl

/-- **The job runs that are listed are those whose names begin with the text.** -/
theorem listByStart_online {p : Platform} (h : p.offline = false) (start : String) :
    p.listByStart start = .ok (p.allRuns.filter fun r => Text.startsWith r.name start) := by
  rw [listByStart, h, ← map_range_eq_filter]
  rfl

theorem listByStart_offline {p : Platform} (h : p.offline = true) (start : String) :
    p.listByStart start = .error outage := by
  rw [listByStart, if_pos h]

/-! ## Taking -/

/-- The platform with one more job run, whose name was free. -/
def take (p : Platform) (spec : JobRunSpec) : Platform :=
  { p with
    runs := p.runs.insert spec.name (.ofSpec spec)
    submitted := p.submitted ++ [spec]
    keyed := p.keyed.insert rfl }

theorem create_online {p : Platform} (h : p.offline = false) (spec : JobRunSpec) :
    p.create spec =
      if p.runs.contains spec.name then (p, .error (.alreadyExists spec.name))
      else (p.take spec, .ok ()) := by
  unfold create
  rw [if_neg (by rw [h]; decide)]
  rfl

/-- One platform came from the other by taking these specs in turn. -/
inductive Took : Platform → List JobRunSpec → Platform → Prop where
  | none (p : Platform) : Took p [] p
  | more {p q : Platform} {spec : JobRunSpec} {specs : List JobRunSpec}
      (hfree : p.runs.contains spec.name = false) (h : Took (p.take spec) specs q) :
      Took p (spec :: specs) q

variable {p q s : Platform} {specs more : List JobRunSpec}

theorem Took.trans (h : Took p specs q) (h' : Took q more s) : Took p (specs ++ more) s := by
  induction h with
  | none p => exact h'
  | more hfree _ ih => exact .more hfree (ih h')

theorem Took.offline (h : Took p specs q) : q.offline = p.offline := by
  induction h with
  | none p => rfl
  | more _ _ ih => exact ih

theorem Took.submitted (h : Took p specs q) : q.submitted = p.submitted ++ specs := by
  induction h with
  | none p => exact (List.append_nil _).symm
  | more _ _ ih =>
      rw [ih, take, List.append_assoc]
      rfl

/-- What was taken is told by the platforms. -/
theorem Took.specs_eq (h : Took p specs q) (h' : Took p more q) : specs = more :=
  List.append_cancel_left (h.submitted.symm.trans h'.submitted)

/-- A job run is there because it was there before or was taken. -/
theorem Took.get?_iff (h : Took p specs q) {name : String} {run : ObservedRun} :
    q.runs.get? name = some run ↔
      p.runs.get? name = some run ∨ ∃ spec ∈ specs, spec.name = name ∧ run = .ofSpec spec := by
  induction h with
  | none p => simp
  | @more p q spec specs hfree htook ih =>
      rw [ih, show (p.take spec).runs = p.runs.insert spec.name (.ofSpec spec) from rfl,
        StringMap.get?_insert, List.exists_mem_cons_iff]
      by_cases hname : name = spec.name
      · subst hname
        rw [StringMap.contains_eq_false_iff] at hfree
        simp [hfree, eq_comm]
      · simp [hname, Ne.symm hname]

/-- Every job run that was there is there as it was. -/
theorem Took.get? (h : Took p specs q) {name : String} {run : ObservedRun}
    (hrun : p.runs.get? name = some run) : q.runs.get? name = some run :=
  h.get?_iff.mpr (.inl hrun)

/-- What is taken goes by a name that was free. -/
theorem Took.free (h : Took p specs q) {spec : JobRunSpec} (hspec : spec ∈ specs) :
    p.runs.contains spec.name = false := by
  induction h with
  | none p => exact absurd hspec List.not_mem_nil
  | @more p q first specs hfree _ ih =>
      rcases List.mem_cons.mp hspec with rfl | hspec
      · exact hfree
      · have htaken := ih hspec
        rw [StringMap.contains_eq_false_iff] at htaken ⊢
        cases hget : p.runs.get? spec.name with
        | none => rfl
        | some run =>
            have hkept := Took.get? (.more hfree (.none _)) hget
            exact absurd (hkept.symm.trans htaken) (by simp)

/-! ## Nothing is submitted twice -/

/-- No name was submitted twice, and what was submitted is there. -/
structure SubmittedOnce (p : Platform) : Prop where
  nodup : (p.submitted.map JobRunSpec.name).Nodup
  there : ∀ spec ∈ p.submitted, p.runs.contains spec.name = true

theorem SubmittedOnce.take (h : p.SubmittedOnce) {spec : JobRunSpec}
    (hfree : p.runs.contains spec.name = false) : (p.take spec).SubmittedOnce := by
  have hmap : (p.take spec).submitted.map JobRunSpec.name =
      p.submitted.map JobRunSpec.name ++ [spec.name] := List.map_append
  constructor
  · -- a name that was submitted is there, and this one was free
    rw [hmap, List.nodup_append]
    refine ⟨h.nodup, by simp, ?_⟩
    intro a ha b hb hab
    obtain ⟨old, hold, rfl⟩ := List.mem_map.mp ha
    have hthere := h.there old hold
    rw [hab, List.mem_singleton.mp hb, hfree] at hthere
    exact absurd hthere (by decide)
  · intro s hs
    rw [StringMap.contains_iff]
    by_cases hname : s.name = spec.name
    · rw [hname]
      exact ⟨_, StringMap.get?_insert_self⟩
    · rcases List.mem_append.mp hs with hs | hs
      · obtain ⟨run, hrun⟩ := StringMap.contains_iff.mp (h.there s hs)
        exact ⟨run, (StringMap.get?_insert_of_ne hname).trans hrun⟩
      · exact absurd (congrArg JobRunSpec.name (List.mem_singleton.mp hs)) hname

/-- **Taking keeps it so.** -/
theorem Took.submittedOnce (h : Took p specs q) (hp : p.SubmittedOnce) : q.SubmittedOnce := by
  induction h with
  | none p => exact hp
  | more hfree _ ih => exact ih (hp.take hfree)

/-- Putting a job run under a name, as the platform does on its own, keeps it so as well. -/
theorem SubmittedOnce.of_insert (h : p.SubmittedOnce) {name : String} {run : ObservedRun}
    (hruns : q.runs = p.runs.insert name run) (hsubmitted : q.submitted = p.submitted) :
    q.SubmittedOnce := by
  constructor
  · rw [hsubmitted]
    exact h.nodup
  · intro s hs
    rw [hsubmitted] at hs
    rw [hruns, StringMap.contains_iff]
    by_cases hname : s.name = name
    · rw [hname]
      exact ⟨_, StringMap.get?_insert_self⟩
    · obtain ⟨old, hold⟩ := StringMap.contains_iff.mp (h.there s hs)
      exact ⟨old, (StringMap.get?_insert_of_ne hname).trans hold⟩

/-- What was submitted is there, so what is taken was not submitted. -/
theorem SubmittedOnce.not_mem_of_took (h : p.SubmittedOnce) (htook : Took p specs q)
    {spec : JobRunSpec} (hspec : spec ∈ specs) : spec ∉ p.submitted := by
  intro hold
  exact absurd ((h.there spec hold).symm.trans (htook.free hspec)) (by decide)

theorem submitted_modify (p : Platform) (name : String) {f : ObservedRun → ObservedRun}
    (hf : ∀ r, (f r).name = r.name) : (p.modify name f hf).1.submitted = p.submitted := by
  unfold Platform.modify
  split
  · rfl
  · rfl

theorem SubmittedOnce.modify (h : p.SubmittedOnce) (name : String) {f : ObservedRun → ObservedRun}
    (hf : ∀ r, (f r).name = r.name) : (p.modify name f hf).1.SubmittedOnce := by
  unfold Platform.modify
  split
  · exact h.of_insert rfl rfl
  · exact h

theorem SubmittedOnce.insert (h : p.SubmittedOnce) (run : ObservedRun) :
    (p.insert run).SubmittedOnce :=
  h.of_insert rfl rfl

end BomAssembly.Platform
