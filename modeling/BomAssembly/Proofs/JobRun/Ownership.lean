import BomAssembly.Proofs.JobRun.Observed
import Mathlib.Data.List.Induction

/-!
# Whose job runs are observed

A request's job run for an index goes by one name, yet other names count for the index as well: a
name counts when it begins with the start of the family up to its last dash, and what stands behind
that spells the index, be it with zeros or a plus sign in front (`countsAs_iff`). So a request whose
own name goes on from another one's family has its job runs counted for that one too
(`countsAs_nameOf_iff`).

No job run is overlooked. Whether one is mistaken for another hangs on the last of those that count
for an index, since this is the one that is observed.
-/

namespace BomAssembly.JobRun

open Number (Spells)

variable {request other name : String} {phase phase' : Phase} {i j : Nat}

/-! ## The names that count -/

/-- A name that counts for an index: the start of the family, perhaps more up to a last dash, and
behind that a spelling of the index. -/
def CountsAs (request : String) (phase : Phase) (i : Nat) (name : String) : Prop :=
  ∃ front digits, name.toList = front ++ ['-'] ++ digits ∧
    (start request phase).toList <+: front ++ ['-'] ∧ Spells i digits

/-- **The names whose job runs are counted**, told without reading them. -/
theorem countsAs_iff : CountsAs request phase i name ∧ i < Nat.pow 2 32 ↔
    Text.startsWith name (start request phase) = true ∧ indexOf? name = some i := by
  rw [Text.startsWith, List.isPrefixOf_iff_prefix]
  constructor
  · rintro ⟨⟨front, digits, hname, hstart, hspells⟩, hlt⟩
    refine ⟨by rw [hname]; exact hstart.trans (List.prefix_append _ _), ?_⟩
    rw [indexOf?, hname, List.append_assoc, List.singleton_append,
      Text.cutLast_append (not_dashed_of_spells hspells)]
    exact Number.naturalBelow?_eq_some_iff.mpr ⟨hlt, hspells⟩
  · rintro ⟨hstart, hindex⟩
    obtain ⟨⟨front, digits⟩, hcut, hread⟩ := Option.bind_eq_some_iff.mp hindex
    obtain ⟨hlt, hspells⟩ := Number.naturalBelow?_eq_some_iff.mp hread
    have hname : name.toList = front ++ ['-'] ++ digits := by
      rw [Text.eq_of_cutLast hcut, List.append_assoc]
      rfl
    -- the start ends in a dash, so it lies before the digits
    rw [hname, toList_start] at hstart
    have hfront := Text.prefix_of_prefix_append (not_dashed_of_spells hspells) hstart
    rw [← toList_start] at hfront
    exact ⟨⟨front, digits, hname, hfront, hspells⟩, hlt⟩

/-! ## Job runs of other requests -/

theorem name_ne_ordinal (phase phase' : Phase) :
    phase.name.toList ≠ Nat.toDigits 10 phase'.ordinal := by
  cases phase <;> cases phase' <;> decide

/-- A family starts what a job run of another family is called only where the other request's own
name goes on from it. -/
theorem start_prefix_iff : (start request phase).toList <+: (start other phase').toList ↔
    (other = request ∧ phase' = phase) ∨
      Text.startsWith (other ++ "-") (start request phase) = true := by
  have hother : (other ++ "-").toList = other.toList ++ ['-'] := by simp
  rw [Text.startsWith, List.isPrefixOf_iff_prefix, hother]
  constructor
  · intro h
    -- it ends with the last dash of the other family, with the one before, or with the one that
    -- stands behind the name of the other request
    rw [toList_start, toList_start] at h
    rcases List.prefix_concat_iff.mp h with h | h
    · obtain ⟨hrequest, hphase⟩ :=
        family_inj (String.toList_inj.mp (List.append_cancel_right h))
      exact .inl ⟨hrequest.symm, hphase.symm⟩
    · rw [toList_family other] at h
      rcases List.prefix_concat_iff.mp
        (Text.prefix_of_prefix_append (name_not_dashed phase') h) with h | h
      · have hfamily := List.append_cancel_right h
        rw [toList_family] at hfamily
        obtain ⟨-, hname⟩ := Text.append_sep_inj (name_not_dashed phase)
          (ordinal_not_dashed phase') hfamily
        exact absurd hname (name_ne_ordinal phase phase')
      · rw [toList_start]
        exact .inr (Text.prefix_of_prefix_append (ordinal_not_dashed phase') h)
  · rintro (⟨rfl, rfl⟩ | h)
    · exact List.prefix_refl _
    · refine h.trans ?_
      rw [toList_start other, toList_family other]
      simp

/-- So it is with what the whole name begins with, since digits hold no dash. -/
theorem startsWith_nameOf_iff : Text.startsWith (nameOf other phase' j) (start request phase) = true ↔
    (other = request ∧ phase' = phase) ∨
      Text.startsWith (other ++ "-") (start request phase) = true := by
  rw [← start_prefix_iff, Text.startsWith, List.isPrefixOf_iff_prefix, toList_nameOf]
  constructor
  · intro h
    rw [toList_start, toList_start] at h
    rw [toList_start, toList_start]
    exact Text.prefix_of_prefix_append (not_dashed_of_digits j) h
  · exact fun h => h.trans (List.prefix_append _ _)

/-- **A job run of any request counts for its own index only**, and only for the request that it is
one of, or for one whose family its own request's name goes on from. -/
theorem countsAs_nameOf_iff : CountsAs request phase i (nameOf other phase' j) ↔
    i = j ∧ ((other = request ∧ phase' = phase) ∨
      Text.startsWith (other ++ "-") (start request phase) = true) := by
  have hname : (nameOf other phase' j).toList =
      (family other phase').toList ++ ['-'] ++ Nat.toDigits 10 j := by
    rw [toList_nameOf, toList_start]
  rw [← start_prefix_iff]
  constructor
  · rintro ⟨front, digits, heq, hstart, hspells⟩
    rw [hname] at heq
    obtain ⟨hfront, hdigits⟩ :=
      Text.append_sep_inj (not_dashed_of_digits j) (not_dashed_of_spells hspells) heq
    have hread := Number.natural?_eq_some_iff.mpr hspells
    rw [← hdigits, Number.natural?_eq_some_iff.mpr (Number.spells_toDigits j)] at hread
    refine ⟨(Option.some.inj hread).symm, ?_⟩
    rw [toList_start other, hfront]
    exact hstart
  · rintro ⟨rfl, hstart⟩
    rw [toList_start other] at hstart
    exact ⟨_, _, hname, hstart, Number.spells_toDigits i⟩

/-! ## What is observed -/

section Observed

variable {runs : List ObservedRun} {run : ObservedRun}

/-- The last of the listed job runs whose names are of some kind. -/
def IsLast (P : String → Prop) (runs : List ObservedRun) (run : ObservedRun) : Prop :=
  ∃ before after, runs = before ++ run :: after ∧ P run.name ∧ ∀ r ∈ after, ¬ P r.name

theorem isLast_concat {P : String → Prop} (r : ObservedRun) : IsLast P (runs ++ [r]) run ↔
    (P r.name ∧ run = r) ∨ (¬ P r.name ∧ IsLast P runs run) := by
  constructor
  · rintro ⟨before, after, heq, hrun, hafter⟩
    rcases List.eq_nil_or_concat after with rfl | ⟨rest, r', rfl⟩
    · obtain ⟨-, hr⟩ := List.append_inj' heq rfl
      obtain rfl := List.singleton_inj.mp hr
      exact .inl ⟨hrun, rfl⟩
    · rw [List.concat_eq_append, ← List.cons_append, ← List.append_assoc] at heq
      obtain ⟨hruns, hr⟩ := List.append_inj' heq rfl
      obtain rfl := List.singleton_inj.mp hr
      refine .inr ⟨hafter r (by simp), before, rest, hruns, hrun, ?_⟩
      exact fun x hx => hafter x (by simp [hx])
  · rintro (⟨hr, rfl⟩ | ⟨hr, before, after, rfl, hrun, hafter⟩)
    · exact ⟨runs, [], rfl, hr, fun _ h => absurd h List.not_mem_nil⟩
    · refine ⟨before, after ++ [r], by simp, hrun, fun x hx => ?_⟩
      rcases List.mem_append.mp hx with hx | hx
      · exact hafter x hx
      · rw [List.mem_singleton.mp hx]
        exact hr

theorem exists_isLast {P : String → Prop} (h : ∃ r ∈ runs, P r.name) :
    ∃ run, IsLast P runs run := by
  induction runs using List.reverseRecOn with
  | nil =>
      obtain ⟨r, hr, -⟩ := h
      exact absurd hr List.not_mem_nil
  | append_singleton runs r ih =>
      by_cases hlast : P r.name
      · exact ⟨r, (isLast_concat r).mpr (.inl ⟨hlast, rfl⟩)⟩
      · obtain ⟨x, hx, hname⟩ := h
        rcases List.mem_append.mp hx with hx | hx
        · obtain ⟨run, hrun⟩ := ih ⟨x, hx, hname⟩
          exact ⟨run, (isLast_concat r).mpr (.inr ⟨hlast, hrun⟩)⟩
        · exact absurd (List.mem_singleton.mp hx ▸ hname) hlast

/-- One more listed job run takes the place under the index that its name counts for. -/
theorem lookup_observedByIndex_concat (r : ObservedRun) :
    (observedByIndex request phase (runs ++ [r])).lookup i =
      if Text.startsWith r.name (start request phase) = true ∧ indexOf? r.name = some i then some r
      else (observedByIndex request phase runs).lookup i := by
  unfold observedByIndex
  dsimp only
  rw [show s!"{family request phase}-" = start request phase from rfl, List.filter_append,
    List.filterMap_append, List.foldl_append]
  by_cases hstart : Text.startsWith r.name (start request phase) = true
  · cases hindex : indexOf? r.name with
    | none => simp [hstart, hindex]
    | some j =>
        have hnew : (([r].filter fun r => Text.startsWith r.name (start request phase)).filterMap
            fun r => (indexOf? r.name).map fun i => (i, r)) = [(j, r)] := by simp [hstart, hindex]
        rw [hnew, List.foldl_cons, List.foldl_nil, lookup_putByIndex]
        simp [hstart, eq_comm]
  · simp [hstart]

/-- **Observed for an index is the last of the listed job runs that count for it.** -/
theorem lookup_observedByIndex_iff : (observedByIndex request phase runs).lookup i = some run ↔
    i < Nat.pow 2 32 ∧ IsLast (CountsAs request phase i) runs run := by
  induction runs using List.reverseRecOn with
  | nil =>
      refine iff_of_false (by simp [observedByIndex]) ?_
      rintro ⟨-, before, after, heq, -⟩
      exact absurd heq (by simp)
  | append_singleton runs r ih =>
      rw [lookup_observedByIndex_concat, isLast_concat]
      by_cases hr : CountsAs request phase i r.name ∧ i < Nat.pow 2 32
      · rw [if_pos (countsAs_iff.mp hr)]
        simp [hr.1, hr.2, eq_comm]
      · rw [if_neg fun h => hr (countsAs_iff.mpr h), ih]
        have hno : i < Nat.pow 2 32 → ¬ CountsAs request phase i r.name := fun hlt h => hr ⟨h, hlt⟩
        exact and_congr_right fun hlt => by simp [hno hlt]

/-- What is observed for an index goes by the name for it, and for each index the name of which is
listed a job run is observed. -/
structure Unconfused (request : String) (phase : Phase) (runs : List ObservedRun) : Prop where
  named : ∀ i run, (observedByIndex request phase runs).lookup i = some run →
    run.name = nameOf request phase i
  complete : ∀ i < Nat.pow 2 32, (∃ run ∈ runs, run.name = nameOf request phase i) →
    ∃ run, (observedByIndex request phase runs).lookup i = some run

theorem exists_observed_of_mem (h : i < Nat.pow 2 32)
    (hlisted : ∃ run ∈ runs, run.name = nameOf request phase i) :
    ∃ run, (observedByIndex request phase runs).lookup i = some run := by
  obtain ⟨run, hrun, hname⟩ := hlisted
  exact Option.ne_none_iff_exists'.mp (observed_of_mem h hrun hname)

/-- **When job runs are not confused.** Observed for an index is the last listed job run that counts
for it, so nothing is confused exactly if each of these goes by the name for its index; nothing is
ever overlooked. A job run that was made for another request counts exactly if the name of that
request goes on from the family. -/
theorem unconfused_iff (request : String) (phase : Phase) (runs : List ObservedRun) :
    (Unconfused request phase runs ↔ ∀ i < Nat.pow 2 32, ∀ run,
      IsLast (CountsAs request phase i) runs run → run.name = nameOf request phase i) ∧
    (∀ i run, (observedByIndex request phase runs).lookup i = some run ↔
      i < Nat.pow 2 32 ∧ IsLast (CountsAs request phase i) runs run) ∧
    (∀ i < Nat.pow 2 32, (∃ run ∈ runs, run.name = nameOf request phase i) →
      ∃ run, (observedByIndex request phase runs).lookup i = some run) ∧
    ∀ other phase' i j, CountsAs request phase i (nameOf other phase' j) ↔
      i = j ∧ ((other = request ∧ phase' = phase) ∨
        Text.startsWith (other ++ "-") (start request phase) = true) := by
  refine ⟨⟨?_, ?_⟩, fun i run => lookup_observedByIndex_iff, fun i => exists_observed_of_mem,
    fun _ _ _ _ => countsAs_nameOf_iff⟩
  · intro h i hi run hlast
    exact h.named i run (lookup_observedByIndex_iff.mpr ⟨hi, hlast⟩)
  · intro h
    refine ⟨fun i run hlookup => ?_, fun i => exists_observed_of_mem⟩
    obtain ⟨hi, hlast⟩ := lookup_observedByIndex_iff.mp hlookup
    exact h i hi run hlast

/-- A job run that has just been submitted under a name. -/
def pendingRun (name : String) : ObservedRun where
  name := name
  labels := .empty
  annotations := .empty
  state := .pending
  startedAt := none
  timeout := 0

/-- The job run of another request is observed for the first index of the request at hand. -/
theorem not_unconfused_nested :
    (pendingRun "r-1-generate-x-1-generate-0").name = nameOf "r-1-generate-x" .generate 0 ∧
    ¬ Unconfused "r" .generate [pendingRun "r-1-generate-x-1-generate-0"] := by
  have hobserved : (observedByIndex "r" .generate
      [pendingRun "r-1-generate-x-1-generate-0"]).lookup 0 =
      some (pendingRun "r-1-generate-x-1-generate-0") := by decide
  refine ⟨by decide, fun h => ?_⟩
  exact absurd (h.named 0 _ hobserved) (by decide)

end Observed

end BomAssembly.JobRun
