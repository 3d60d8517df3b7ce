import BomAssembly.Proofs.Fallible
import BomAssembly.Request.Config
import Mathlib.Data.List.Nodup

/-!
# What the check of a configuration asks

A configuration fits its request if it is of the kind, names no other build or operation, and declares
no index twice (`check_eq_ok_iff`). The first two are about the configuration as a whole and the third
about its deliverables alone, so replacing these can break the third only.
-/

namespace BomAssembly.Config

variable {kind : Kind} {correlationId : String} {c : Config}

/-- The indices that a configuration declares. -/
def indices : Config → List Nat
  | build _ => []
  | operation o => o.deliverables.map Deliverable.index

/-- A configuration is for a request, whatever it declares. -/
structure IsFor (c : Config) (kind : Kind) (correlationId : String) : Prop where
  kind : c.kind = kind
  correlationId : c.correlationId = "" ∨ c.correlationId = correlationId

/-- No index is met that was seen before, and none comes twice. -/
theorem repeatedIndex?_eq_none_iff {seen : List Nat} {ds : List Deliverable} :
    repeatedIndex? seen ds = none ↔
      (ds.map Deliverable.index).Nodup ∧ ∀ d ∈ ds, d.index ∉ seen := by
  induction ds generalizing seen with
  | nil => simp [repeatedIndex?]
  | cons d ds ih =>
      rw [repeatedIndex?]
      by_cases hseen : d.index ∈ seen
      · rw [if_pos hseen]
        constructor
        · intro h
          exact absurd h (by simp)
        · rintro ⟨-, hfresh⟩
          exact absurd hseen (hfresh d List.mem_cons_self)
      · rw [if_neg hseen, ih, List.map_cons, List.nodup_cons, List.forall_mem_cons]
        -- what is new to the longer list is new to the shorter one, and is not `d`
        constructor
        · rintro ⟨hnodup, hfresh⟩
          refine ⟨⟨?_, hnodup⟩, hseen, fun e he hmem => hfresh e he (List.mem_cons_of_mem _ hmem)⟩
          intro hmem
          obtain ⟨e, he, heq⟩ := List.mem_map.mp hmem
          exact hfresh e he (heq ▸ List.mem_cons_self)
        · rintro ⟨⟨hnew, hnodup⟩, -, hfresh⟩
          refine ⟨hnodup, fun e he hmem => ?_⟩
          rcases List.mem_cons.mp hmem with heq | hmem
          · exact hnew (heq ▸ List.mem_map_of_mem he)
          · exact hfresh e he hmem

theorem check_of_isFor (h : c.IsFor kind correlationId) :
    c.check kind correlationId = .ok () ↔ c.indices.Nodup := by
  have hid : ¬ (c.correlationId ≠ "" ∧ c.correlationId ≠ correlationId) := by
    rintro ⟨hempty, hother⟩
    rcases h.correlationId with heq | heq
    · exact hempty heq
    · exact hother heq
  unfold check
  rw [if_neg (not_not.mpr h.kind), if_neg hid]
  cases c with
  | build b => simp [indices]
  | operation o =>
      have hnone : repeatedIndex? [] o.deliverables = none ↔
          (o.deliverables.map Deliverable.index).Nodup ∧ ∀ d ∈ o.deliverables, d.index ∉ [] :=
        repeatedIndex?_eq_none_iff
      dsimp only
      rw [indices]
      cases hrepeated : repeatedIndex? [] o.deliverables with
      | none => simpa using (hnone.mp hrepeated).1
      | some i =>
          refine ⟨fun hok => absurd hok (by simp), fun hnodup => ?_⟩
          rw [hnone.mpr ⟨hnodup, fun _ _ => List.not_mem_nil⟩] at hrepeated
          exact absurd hrepeated (by simp)

theorem isFor_of_check (h : c.check kind correlationId = .ok ()) : c.IsFor kind correlationId := by
  unfold check at h
  split at h
  · exact absurd h (by simp)
  · next hkind =>
    split at h
    · exact absurd h (by simp)
    · next hid =>
      refine ⟨not_not.mp hkind, ?_⟩
      by_cases hempty : c.correlationId = ""
      · exact .inl hempty
      · exact .inr (by_contra fun hother => hid ⟨hempty, hother⟩)

/-- **What the check asks.** -/
theorem check_eq_ok_iff : c.check kind correlationId = .ok () ↔
    c.IsFor kind correlationId ∧ c.indices.Nodup := by
  constructor
  · intro h
    have hfor := isFor_of_check h
    exact ⟨hfor, (check_of_isFor hfor).mp h⟩
  · rintro ⟨hfor, hnodup⟩
    exact (check_of_isFor hfor).mpr hnodup

end BomAssembly.Config
