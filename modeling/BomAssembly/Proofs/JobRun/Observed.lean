import BomAssembly.JobRun.Observed
import BomAssembly.Proofs.JobRun.Name

/-!
# What is observed of a request's job runs

Runs are put into the result one by one, so of two with one index the later one is found
(`lookup_foldl_putByIndex`). What matters to a pass is that no run is overlooked: a listed run that
goes by the name for an index is observed under that index, whatever else is listed.
-/

namespace BomAssembly.JobRun

open observedByIndex (putByIndex)

theorem lookup_filter_of_pos {f : Nat × ObservedRun → Bool} {l : List (Nat × ObservedRun)} {i : Nat}
    (h : ∀ run, f (i, run) = true) : (l.filter f).lookup i = l.lookup i := by
  induction l with
  | nil => rfl
  | cons a l ih =>
      obtain ⟨j, run⟩ := a
      by_cases hij : i = j
      · subst hij
        rw [List.filter_cons_of_pos (h run), List.lookup_cons_self, List.lookup_cons_self]
      · have hbeq : (i == j) = false := by simpa using hij
        rw [List.filter_cons, List.lookup_cons, hbeq]
        split
        · rw [List.lookup_cons, hbeq]
          exact ih
        · exact ih

theorem lookup_filter_of_neg {f : Nat × ObservedRun → Bool} {l : List (Nat × ObservedRun)} {i : Nat}
    (h : ∀ run, f (i, run) = false) : (l.filter f).lookup i = none := by
  rw [List.lookup_eq_none_iff]
  intro a ha
  obtain ⟨-, hf⟩ := List.mem_filter.mp ha
  have hne : i ≠ a.1 := by
    rintro rfl
    exact absurd ((h a.2).symm.trans hf) (by decide)
  simpa using hne

/-- A run is found under its index once it is put in, and the other indices keep theirs. -/
theorem lookup_putByIndex (acc : List (Nat × ObservedRun)) (e : Nat × ObservedRun) (i : Nat) :
    (putByIndex acc e).lookup i = if i = e.1 then some e.2 else acc.lookup i := by
  rw [putByIndex, List.lookup_append, List.lookup_cons]
  -- an index stands on one side of the new entry, or is its own
  rcases Nat.lt_trichotomy i e.1 with hlt | heq | hgt
  · have hbeq : (i == e.1) = false := by simpa using Nat.ne_of_lt hlt
    have hlow : ∀ run : ObservedRun, decide ((i, run).1 < e.1) = true := fun _ =>
      decide_eq_true hlt
    have hhigh : ∀ run : ObservedRun, decide (e.1 < (i, run).1) = false := fun _ =>
      decide_eq_false (Nat.lt_asymm hlt)
    rw [lookup_filter_of_pos hlow, hbeq, lookup_filter_of_neg hhigh, if_neg (Nat.ne_of_lt hlt)]
    exact Option.or_none
  · subst heq
    have hlow : ∀ run : ObservedRun, decide ((e.1, run).1 < e.1) = false := fun _ =>
      decide_eq_false (Nat.lt_irrefl e.1)
    rw [lookup_filter_of_neg hlow, if_pos rfl, beq_self_eq_true]
    rfl
  · have hbeq : (i == e.1) = false := by simpa using Nat.ne_of_gt hgt
    have hlow : ∀ run : ObservedRun, decide ((i, run).1 < e.1) = false := fun _ =>
      decide_eq_false (Nat.lt_asymm hgt)
    have hhigh : ∀ run : ObservedRun, decide (e.1 < (i, run).1) = true := fun _ =>
      decide_eq_true hgt
    rw [lookup_filter_of_neg hlow, hbeq, lookup_filter_of_pos hhigh, if_neg (Nat.ne_of_gt hgt)]
    rfl

/-- **Of the runs with one index the last one counts.** -/
theorem lookup_foldl_putByIndex (es acc : List (Nat × ObservedRun)) (i : Nat) :
    (es.foldl putByIndex acc).lookup i = (es.reverse.lookup i).or (acc.lookup i) := by
  induction es generalizing acc with
  | nil => rfl
  | cons e es ih =>
      rw [List.foldl_cons, ih, lookup_putByIndex, List.reverse_cons, List.lookup_append,
        Option.or_assoc]
      congr 1
      by_cases hi : i = e.1
      · subst hi
        rw [if_pos rfl, List.lookup_cons_self]
        rfl
      · have hbeq : (i == e.1) = false := by simpa using hi
        rw [if_neg hi, List.lookup_cons, hbeq]
        rfl

/-- A listed run that goes by the name for an index is observed, or another one with its index. -/
theorem observed_of_mem {request : String} {phase : Phase} {runs : List ObservedRun} {i : Nat}
    {run : ObservedRun} (hi : i < Nat.pow 2 32) (hrun : run ∈ runs)
    (hname : run.name = nameOf request phase i) :
    (observedByIndex request phase runs).lookup i ≠ none := by
  have hstart : Text.startsWith run.name (start request phase) = true := by
    rw [hname]
    exact startsWith_nameOf request phase i
  have hindex : indexOf? run.name = some i := by
    rw [hname]
    exact indexOf?_nameOf hi request phase
  have hmine : (i, run) ∈ (runs.filter fun r =>
      Text.startsWith r.name (start request phase)).filterMap fun r =>
        (indexOf? r.name).map fun j => (j, r) := by
    rw [List.mem_filterMap]
    refine ⟨run, List.mem_filter.mpr ⟨hrun, hstart⟩, ?_⟩
    rw [hindex]
    rfl
  intro hnone
  rw [observedByIndex, lookup_foldl_putByIndex, Option.or_eq_none_iff] at hnone
  have hno := List.lookup_eq_none_iff.mp hnone.1 (i, run) (List.mem_reverse.mpr hmine)
  simp at hno

end BomAssembly.JobRun
