import BomAssembly.Proofs.Fallible
import BomAssembly.Request.Basic
import Mathlib.Data.List.Induction

/-!
# Recording manifests one after another

One manifest is recorded if there is a deliverable at its position, and changes that deliverable alone
(`recordPom_of_lt`, `recordPom_of_le`). In a run a refused one is passed over. After any run a
deliverable has its manifest exactly when it had it before or its position occurred
(`hasPom_preparedDeliverables_iff`), so a request that had none is complete exactly when every position
occurred (`pomsAvailable_prepared_iff`).
-/

namespace BomAssembly.Request

variable {r : Request} {o : OperationConfig} {position : Nat} {pom : String}

/-! ## One manifest -/

/-- A request with other deliverables. -/
def delivering (r : Request) (o : OperationConfig) (ds : List Deliverable) : Request :=
  { r with config := .valid (.operation { o with deliverables := ds }) }

theorem deliverables_of_config (h : r.config = .valid (.operation o)) :
    r.deliverables = o.deliverables := by
  unfold deliverables config?
  rw [h]
  rfl

/-- Deliverables come from the configuration of an operation. -/
theorem exists_config_of_deliverables (h : r.deliverables ≠ []) :
    ∃ o, r.config = .valid (.operation o) := by
  unfold deliverables config? at h
  split at h
  · next o heq =>
    cases hconfig : r.config with
    | valid c =>
        rw [hconfig] at heq
        exact ⟨o, congrArg _ (Option.some.inj heq)⟩
    | missing => exact absurd (hconfig ▸ heq) (by simp [ConfigState.config?])
    | invalid raw error => exact absurd (hconfig ▸ heq) (by simp [ConfigState.config?])
  · exact absurd rfl h

/-- **A manifest is recorded on the deliverable at its position**, and nothing else changes. -/
theorem recordPom_of_lt (h : r.config = .valid (.operation o))
    {d : Deliverable} (hd : o.deliverables[position]? = some d) :
    r.recordPom position pom =
      .ok (r.delivering o (o.deliverables.set position { d with pom := some pom })) := by
  have hlt : position < o.deliverables.length := (List.getElem?_eq_some_iff.mp hd).1
  have hmodify : withPom position pom o.deliverables =
      o.deliverables.set position { d with pom := some pom } := by
    rw [withPom, List.modify_eq_set, hd]
    rfl
  rw [recordPom, deliverables_of_config h, if_pos hlt, setDeliverables, h, hmodify]
  rfl

/-- Where no deliverable is, a manifest is refused. -/
theorem recordPom_of_le (h : r.deliverables.length ≤ position) :
    r.recordPom position pom = .error (.noDeliverable r.name position) := by
  rw [recordPom, if_neg (Nat.not_lt.mpr h)]

/-! ## A run -/

/-- The request after one manifest; a refused one changes nothing. -/
def preparedOnce (r : Request) (call : Nat × String) : Request :=
  match r.recordPom call.1 call.2 with
  | .ok r' => r'
  | .error _ => r

/-- The request after manifests, one after the other. -/
def prepared (r : Request) (calls : List (Nat × String)) : Request := calls.foldl preparedOnce r

theorem prepared_append_singleton (r : Request) (before : List (Nat × String)) (call : Nat × String) :
    r.prepared (before ++ [call]) = (r.prepared before).preparedOnce call := by
  rw [prepared, List.foldl_append]
  rfl

/-- The deliverables after manifests, one after the other. -/
def preparedDeliverables (ds : List Deliverable) (calls : List (Nat × String)) : List Deliverable :=
  calls.foldl (fun ds call => withPom call.1 call.2 ds) ds

theorem preparedDeliverables_append_singleton (ds : List Deliverable) (before : List (Nat × String))
    (call : Nat × String) : preparedDeliverables ds (before ++ [call]) =
      withPom call.1 call.2 (preparedDeliverables ds before) := by
  rw [preparedDeliverables, List.foldl_append]
  rfl

theorem length_preparedDeliverables (ds : List Deliverable) (calls : List (Nat × String)) :
    (preparedDeliverables ds calls).length = ds.length := by
  induction calls using List.reverseRecOn with
  | nil => rfl
  | append_singleton before call ih =>
      rw [preparedDeliverables_append_singleton, withPom, List.length_modify, ih]

theorem preparedOnce_eq (h : r.config = .valid (.operation o)) (call : Nat × String) :
    r.preparedOnce call = r.delivering o (withPom call.1 call.2 o.deliverables) := by
  unfold preparedOnce
  cases hd : o.deliverables[call.1]? with
  | some d =>
      rw [recordPom_of_lt h hd, withPom, List.modify_eq_set, hd]
      rfl
  | none =>
      have hle : o.deliverables.length ≤ call.1 := List.getElem?_eq_none_iff.mp hd
      rw [recordPom_of_le (deliverables_of_config h ▸ hle), withPom,
        List.modify_eq_self hle, delivering, ← h]

/-- **In a run only the deliverables change.** -/
theorem prepared_eq (h : r.config = .valid (.operation o)) (calls : List (Nat × String)) :
    r.prepared calls = r.delivering o (preparedDeliverables o.deliverables calls) := by
  induction calls using List.reverseRecOn with
  | nil =>
      show r = r.delivering o o.deliverables
      rw [delivering, ← h]
  | append_singleton before call ih =>
      let after : OperationConfig :=
        { o with deliverables := preparedDeliverables o.deliverables before }
      rw [prepared_append_singleton, ih, preparedDeliverables_append_singleton]
      exact preparedOnce_eq (o := after) rfl call

theorem config_prepared (h : r.config = .valid (.operation o)) (calls : List (Nat × String)) :
    (r.prepared calls).config = .valid (.operation
      { o with deliverables := preparedDeliverables o.deliverables calls }) := by
  rw [prepared_eq h]
  rfl

theorem deliverables_prepared (h : r.config = .valid (.operation o)) (calls : List (Nat × String)) :
    (r.prepared calls).deliverables = preparedDeliverables o.deliverables calls := by
  rw [prepared_eq h]
  rfl

/-! ## What a run completes -/

section Complete

variable {ds : List Deliverable} {calls : List (Nat × String)}
  (hpoms : ∀ call ∈ calls, Text.allBlank call.2 = false)

include hpoms

/-- **A deliverable has its manifest** if it had it before, or its position occurred. -/
theorem hasPom_preparedDeliverables_iff {i : Nat} (hi : i < ds.length) :
    (∃ d, (preparedDeliverables ds calls)[i]? = some d ∧ d.HasPom) ↔
      i ∈ calls.map Prod.fst ∨ ds[i].HasPom := by
  induction calls using List.reverseRecOn with
  | nil => simp [preparedDeliverables, hi]
  | append_singleton before call ih =>
      have hbefore := ih fun c hc => hpoms c (List.mem_append_left _ hc)
      have hcall := hpoms call (List.mem_append_right _ (List.mem_singleton_self call))
      have hthere : i < (preparedDeliverables ds before).length := by
        rwa [length_preparedDeliverables]
      rw [preparedDeliverables_append_singleton, withPom, List.map_append, List.mem_append,
        List.map_singleton, List.mem_singleton]
      by_cases heq : call.1 = i
      · -- the last manifest is the deliverable's own
        rw [heq, List.getElem?_modify_eq, List.getElem?_eq_getElem hthere]
        exact iff_of_true ⟨_, rfl, call.2, rfl, hcall⟩ (.inl (.inr rfl))
      · rw [List.getElem?_modify_ne _ _ heq, hbefore, or_iff_left (Ne.symm heq)]

/-- **A request is complete exactly when every position occurred**, if it had no manifests before. -/
theorem pomsAvailable_prepared_iff (hkind : r.kind = .operation) (hsome : r.deliverables ≠ [])
    (hnone : ∀ d ∈ r.deliverables, d.pom = none) :
    (r.prepared calls).PomsAvailable ↔ ∀ i < r.deliverables.length, i ∈ calls.map Prod.fst := by
  obtain ⟨o, hconfig⟩ := exists_config_of_deliverables hsome
  have hlength := length_preparedDeliverables o.deliverables calls
  have hafter : (r.prepared calls).kind = .operation := by
    rw [prepared_eq hconfig]
    exact hkind
  have hbare : ∀ i (hi : i < o.deliverables.length), ¬ o.deliverables[i].HasPom := by
    rintro i hi ⟨p, hp, -⟩
    rw [deliverables_of_config hconfig] at hnone
    rw [hnone _ (List.getElem_mem hi)] at hp
    exact absurd hp (by simp)
  have hposition : ∀ i (hi : i < o.deliverables.length),
      (∃ d, (preparedDeliverables o.deliverables calls)[i]? = some d ∧ d.HasPom) ↔
        i ∈ calls.map Prod.fst := fun i hi =>
    (hasPom_preparedDeliverables_iff hpoms hi).trans (or_iff_left (hbare i hi))
  rw [PomsAvailable, deliverables_prepared hconfig, deliverables_of_config hconfig]
  rw [deliverables_of_config hconfig, ← List.length_pos_iff] at hsome
  constructor
  · rintro ⟨-, -, hall⟩ i hi
    have hthere := List.getElem?_eq_getElem (hlength.symm ▸ hi)
    exact (hposition i hi).mp ⟨_, hthere, hall _ (List.getElem_mem _)⟩
  · intro hall
    refine ⟨hafter, List.length_pos_iff.mp (hlength.symm ▸ hsome), fun d hd => ?_⟩
    obtain ⟨i, hi, rfl⟩ := List.mem_iff_getElem.mp hd
    obtain ⟨e, he, hpom⟩ := (hposition i (hlength ▸ hi)).mpr (hall i (hlength ▸ hi))
    rw [List.getElem?_eq_getElem hi, Option.some_inj] at he
    exact he ▸ hpom

end Complete

end BomAssembly.Request
