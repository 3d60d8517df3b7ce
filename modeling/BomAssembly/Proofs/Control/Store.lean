import BomAssembly.Control.Store
import Mathlib.Data.List.Forall2
import Mathlib.Data.List.Nodup

/-!
# Records by name

Names in a store are distinct, so each is that of one record (`get?_eq_some_iff`), and writing a
record changes what is found under its own name only. Stores with the same names in the same order are
told from each other name by name (`forall₂_of_names`).
-/

namespace BomAssembly

namespace Store

variable {s t : Store} {name : String} {record : Record}

theorem get?_eq_some_iff : s.get? name = some record ↔ record ∈ s.records ∧ record.name = name := by
  constructor
  · intro h
    exact ⟨List.mem_of_find?_eq_some h, by simpa using List.find?_some h⟩
  · rintro ⟨hmem, rfl⟩
    cases hfind : s.get? record.name with
    | none => exact absurd (List.find?_eq_none.mp hfind record hmem) (by simp)
    | some other =>
        have hother : other ∈ s.records := List.mem_of_find?_eq_some hfind
        have hname : other.name = record.name := by simpa using List.find?_some hfind
        rw [List.inj_on_of_nodup_map s.names_nodup hother hmem hname]

theorem mem_names_iff : name ∈ s.names ↔ ∃ record, s.get? name = some record := by
  rw [names, List.mem_map]
  exact exists_congr fun record => get?_eq_some_iff.symm

theorem get?_eq_none_iff : s.get? name = none ↔ name ∉ s.names := by
  rw [mem_names_iff, not_exists, Option.eq_none_iff_forall_ne_some]

theorem name_mem_of_get? (h : s.get? name = some record) : record.name ∈ s.names :=
  List.mem_map_of_mem (get?_eq_some_iff.mp h).1

theorem names_update (record : Record) (s : Store) : (s.update record).1.names = s.names := by
  unfold update
  split
  · exact names_replaced record s.records
  · rfl

theorem update_of_mem (h : record.name ∈ s.names) :
    ∃ t : Store, s.update record = (t, .ok ()) ∧ t.names = s.names := by
  unfold update
  rw [if_pos h]
  exact ⟨_, rfl, names_replaced record s.records⟩

theorem get?_update_self (h : record.name ∈ s.names) :
    (s.update record).1.get? record.name = some record := by
  obtain ⟨old, hold⟩ := mem_names_iff.mp h
  obtain ⟨hmem, hname⟩ := get?_eq_some_iff.mp hold
  rw [get?_eq_some_iff, update, if_pos h]
  exact ⟨List.mem_map.mpr ⟨old, hmem, if_pos hname⟩, rfl⟩

theorem get?_update_of_ne (h : name ≠ record.name) :
    (s.update record).1.get? name = s.get? name := by
  apply Option.ext
  intro x
  rw [get?_eq_some_iff, get?_eq_some_iff]
  refine and_congr_left fun hx => ?_
  subst hx
  unfold update
  split
  · constructor
    · intro hmem
      obtain ⟨old, hold, heq⟩ := List.mem_map.mp hmem
      split at heq
      · exact absurd (congrArg Record.name heq.symm) h
      · exact heq ▸ hold
    · intro hmem
      exact List.mem_map.mpr ⟨x, hmem, if_neg h⟩
  · exact Iff.rfl

/-- Stores with the same names, told from each other name by name. -/
theorem forall₂_of_names {R : Record → Record → Prop} (hnames : t.names = s.names)
    (h : ∀ name a b, s.get? name = some a → t.get? name = some b → R a b) :
    List.Forall₂ R s.records t.records := by
  have hmap : List.Forall₂ Eq (s.records.map Record.name) (t.records.map Record.name) := by
    rw [List.forall₂_eq_eq_eq]
    exact hnames.symm
  have hsame := List.forall₂_map_right_iff.mp (List.forall₂_map_left_iff.mp hmap)
  obtain ⟨hlength, hzip⟩ := List.forall₂_iff_zip.mp hsame
  refine List.forall₂_iff_zip.mpr ⟨hlength, fun {a b} hab => ?_⟩
  obtain ⟨ha, hb⟩ := List.of_mem_zip hab
  exact h b.name a b (get?_eq_some_iff.mpr ⟨ha, hzip hab⟩) (get?_eq_some_iff.mpr ⟨hb, rfl⟩)

/-- The order of the records does not matter. -/
theorem get?_of_perm (h : t.records.Perm s.records) : t.get? name = s.get? name := by
  refine Option.ext fun record => ?_
  rw [get?_eq_some_iff, get?_eq_some_iff, h.mem_iff]

theorem ext_get? (hnames : t.names = s.names) (h : ∀ name, t.get? name = s.get? name) : t = s := by
  have hrecords : List.Forall₂ Eq s.records t.records := by
    refine forall₂_of_names hnames fun name a b ha hb => ?_
    exact Option.some.inj (ha.symm.trans ((h name).symm.trans hb))
  rw [List.forall₂_eq_eq_eq] at hrecords
  cases s
  cases t
  cases hrecords
  rfl

end Store

end BomAssembly
